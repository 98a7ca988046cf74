import UnicornSuite.CdfContent

/-! What `cdf_parse` makes of a well-formed document. Its scope is what the last tag of a CHANNEL or an
ITEM says, whatever element stands around a text; where the pieces are read as they are written and the
scope agrees with the nesting as far as it matters, the result is what the document says. -/

namespace UnicornSuite.Cdf

open CText

/-! ### The condition -/

/-- A start tag is read as it is written. -/
def Tag.Plain (t : Tag) (slashed : Bool) : Prop :=
  Quiet (t.text slashed) ∧
    (t.name.kind ≠ none →
      ReadsAttr (ascii "HREF") t.attrs ∧ ∀ a ∈ t.attr "HREF", ampersand ∉ CharData.bytes a.value)

instance (t : Tag) (slashed : Bool) : Decidable (t.Plain slashed) :=
  inferInstanceAs (Decidable (Quiet (t.text slashed) ∧ (t.name.kind ≠ none →
    ReadsAttr (ascii "HREF") t.attrs ∧ ∀ a ∈ t.attr "HREF", ampersand ∉ CharData.bytes a.value)))

/-- A piece of the document is read as it is written. -/
def Token.Plain : Token → Prop
  | .flat (.chars _ _) => True
  | .flat (.comment c) => Quiet c.body
  | .opening tag => tag.Plain false
  | .empty tag => tag.Plain true
  | .closing _ _ => True
  | .textual tag none => greater ∉ tag.text true ∧ tag.Tells
  | .textual tag (some (flats, _)) =>
      greater ∉ tag.text false ∧ (∀ f ∈ flats, f.IsText) ∧
        (cleanText (flats.flatMap Flat.chars?) = [] → tag.Tells)

instance : DecidablePred Token.Plain
  | .flat (.chars _ _) => isTrue trivial
  | .flat (.comment c) => inferInstanceAs (Decidable (Quiet c.body))
  | .opening tag => inferInstanceAs (Decidable (tag.Plain false))
  | .empty tag => inferInstanceAs (Decidable (tag.Plain true))
  | .closing _ _ => isTrue trivial
  | .textual tag none => inferInstanceAs (Decidable (greater ∉ tag.text true ∧ tag.Tells))
  | .textual tag (some (flats, _)) =>
      inferInstanceAs (Decidable (greater ∉ tag.text false ∧ (∀ f ∈ flats, f.IsText) ∧
        (cleanText (flats.flatMap Flat.chars?) = [] → tag.Tells)))

/-- Whose the texts are by the last tag of a CHANNEL or an ITEM, with `n` items before the tag. -/
def Owner.after (own : Owner) (n : Nat) : Token → Owner
  | .opening tag | .empty tag =>
      match tag.name.kind with
      | some .channel => .channel
      | some .item => .item n
      | _ => own
  | .closing name _ =>
      match name.kind with
      | some .channel => .nobody
      | some .item => if own = .nobody then .nobody else .channel
      | _ => own
  | _ => own

/-- Who takes a text, if it has none yet. -/
def CdfDoc.taker (doc : CdfDoc) (own : Owner) (k : TextKind) : Owner :=
  match own with
  | .channel => if (doc.get k).isNone then .channel else .nobody
  | .item i => if ((doc.items[i]?).bind (·.get k)).isNone then .item i else .nobody
  | .nobody => .nobody

/-- The link of an inner CHANNEL, or of a LOGO that is not the channel's own, comes too late. -/
def LinkAligned (r : Reading) (link : Option CString) : Option Kind → Prop
  | some .channel => r.stack = [] ∨ r.doc.channelHref.isSome ∨ link = none
  | some .logo => r.parent = .channel ∨ r.doc.logoHref.isSome ∨ link = none
  | _ => True

instance (r : Reading) (link : Option CString) : DecidablePred (LinkAligned r link)
  | some .channel => inferInstanceAs (Decidable (r.stack = [] ∨ r.doc.channelHref.isSome ∨ link = none))
  | some .logo =>
      inferInstanceAs (Decidable (r.parent = .channel ∨ r.doc.logoHref.isSome ∨ link = none))
  | none | some .item | some (.text _) => isTrue trivial

/-- A text has the same taker by the last tag of a CHANNEL or an ITEM and by the nesting. -/
def TextAligned (r : Reading) (own : Owner) (text : Option CString) : Option Kind → Prop
  | some (.text k) => text = none ∨ r.doc.taker own k = r.doc.taker r.parent k
  | _ => True

instance (r : Reading) (own : Owner) (text : Option CString) : DecidablePred (TextAligned r own text)
  | some (.text k) => inferInstanceAs (Decidable (text = none ∨ r.doc.taker own k = r.doc.taker r.parent k))
  | none | some .channel | some .item | some .logo => isTrue trivial

section Sound

variable (resolve : CString → Option CString)

/-- What the piece says goes where it belongs. -/
def Aligned (r : Reading) (own : Owner) : Token → Prop
  | .opening tag | .empty tag => LinkAligned r (tag.link resolve) tag.name.kind
  | .textual tag content => TextAligned r own (saidText tag content) tag.name.kind
  | _ => True

instance (r : Reading) (own : Owner) : DecidablePred (Aligned resolve r own)
  | .opening tag | .empty tag => inferInstanceAs (Decidable (LinkAligned r (tag.link resolve) tag.name.kind))
  | .textual tag content =>
      inferInstanceAs (Decidable (TextAligned r own (saidText tag content) tag.name.kind))
  | .flat _ | .closing _ _ => isTrue trivial

/-- Every piece is read as it is written, and what it says goes where it belongs. -/
def AllAligned : Reading → Owner → List Token → Prop
  | _, _, [] => True
  | r, own, t :: ts =>
      t.Plain ∧ Aligned resolve r own t ∧
        ∀ r' ∈ r.step resolve t, AllAligned r' (own.after r.doc.items.length t) ts

instance AllAligned.decidable : ∀ r own ts, Decidable (AllAligned resolve r own ts)
  | _, _, [] => isTrue trivial
  | r, own, t :: ts =>
      have (r' : Reading) : Decidable (AllAligned resolve r' (own.after r.doc.items.length t) ts) :=
        decidable r' _ ts
      inferInstanceAs (Decidable (t.Plain ∧ Aligned resolve r own t ∧
        ∀ r' ∈ r.step resolve t, AllAligned resolve r' (own.after r.doc.items.length t) ts))

/-! ### One piece -/

/-- What a start tag makes of the state, if it is read as it is written. -/
def elementStep (st : CdfState) (tag : Tag) : CdfState :=
  match tag.name.kind with
  | some .channel => openChannel st (tag.link resolve)
  | some .item => openItem st (tag.link resolve)
  | some .logo => openLogo st (tag.link resolve)
  | _ => st

def tokenStep (st : CdfState) : Token → CdfState
  | .opening tag | .empty tag => elementStep resolve st tag
  | .closing name _ => endStep st name.kind
  | .textual tag content =>
      match tag.name.kind with
      | some (.text k) => attachText st k (saidText tag content)
      | _ => st
  | .flat _ => st

theorem tagLink_text {t : Tag} {k : Kind} (hkind : t.name.kind = some k) {slashed : Bool}
    (h : t.Plain slashed) :
    tagLink resolve ((t.text slashed).takeWhile (· ≠ greater)) = t.link resolve := by
  obtain ⟨hreads, hplain⟩ := h.2 (by rw [hkind]; exact Option.some_ne_none k)
  rw [tagLink, attrGet_tag attrName_href hkind hreads, Tag.link, Tag.value]
  have hattr : t.attr "HREF" = t.attrs.find? (Attr.isNamed (ascii "HREF")) := rfl
  rw [← hattr]
  cases hfind : t.attr "HREF" with
  | none => rfl
  | some a =>
      rw [Option.map_some, Option.map_some, Option.map_some, cstr_bytes,
        bytes_of_plain (hplain a hfind)]

theorem head?_tagText (t : Tag) (slashed : Bool) :
    ∀ c ∈ ((attrsText t.attrs t.trail slashed).takeWhile (· ≠ greater)).head?, isNameEnd c = true := by
  intro c hc
  rw [List.head?_takeWhile] at hc
  have hmem := (Option.filter_eq_some_iff.mp hc).1
  rcases head?_attrsText t.attrs t.trail slashed with hhead | hslash
  · exact isNameEnd_of_isWhite (hhead c hmem)
  · rw [hslash] at hmem
    cases hmem
    rfl

theorem takeWhile_tagText (t : Tag) (slashed : Bool) :
    (t.text slashed).takeWhile (· ≠ greater) =
      t.name.bytes ++ (attrsText t.attrs t.trail slashed).takeWhile (· ≠ greater) := by
  rw [Tag.text, List.takeWhile_append_of_pos (ne_of_notMem t.name.greater_notMem)]

theorem tagStep_tag (st : CdfState) (t : Tag) (slashed : Bool) (rest : Bytes) :
    tagStep resolve st ((t.text slashed).takeWhile (· ≠ greater)) rest =
      startStep resolve st ((t.text slashed).takeWhile (· ≠ greater)) rest t.name.kind := by
  rw [takeWhile_tagText]
  exact tagStep_start resolve st t.name (head?_tagText t slashed) rest

theorem parseLoop_element (st : CdfState) {t : Tag} (hno : ∀ k, t.name.kind ≠ some (.text k))
    {slashed : Bool} (h : t.Plain slashed) (rest : Bytes) :
    parseLoop resolve st (tagged (t.text slashed) ++ rest) =
      parseLoop resolve (elementStep resolve st t) rest := by
  refine parseLoop_tagged resolve h.1 (fun rest => ?_) rest
  rw [tagStep_tag, elementStep]
  cases hkind : t.name.kind with
  | none => rfl
  | some k =>
      have hlink := tagLink_text resolve hkind h
      cases k with
      | channel => simp only [startStep, hlink]
      | item => simp only [startStep, hlink]
      | logo => simp only [startStep, hlink]
      | text k => exact absurd hkind (hno k)

theorem parseLoop_textual (st : CdfState) {t : Tag} {k : TextKind} (hkind : t.name.kind = some (.text k))
    {content : Option (List Flat × White)} (h : (Token.textual t content).Plain) (rest : Bytes) :
    parseLoop resolve st ((Token.textual t content).text ++ rest) =
      parseLoop resolve (attachText st k (saidText t content)) rest := by
  have hstep {slashed : Bool} (hwhole : greater ∉ t.text slashed) (rest : Bytes) :
      tagStep resolve st (t.text slashed) rest = textElement st k (t.text slashed) rest := by
    have htag := tagStep_tag resolve st t slashed rest
    rwa [takeWhile_notMem hwhole, hkind] at htag
  cases content with
  | none =>
      have htext : (Token.textual t none).text ++ rest = less :: (t.text true ++ greater :: rest) := by
        simp [Token.text, tagged]
      rw [htext]
      refine parseLoop_tag resolve h.1 ?_
      rw [hstep h.1, textElement_empty hkind h.1 h.2 rfl]
  | some content =>
      obtain ⟨flats, trail⟩ := content
      obtain ⟨hwhole, hflats, htells⟩ := h
      have htext : (Token.textual t (some (flats, trail))).text ++ rest = less :: (t.text false ++
          greater :: (flats.flatMap Flat.text ++ (closeTag t.name trail ++ rest))) := by
        simp [Token.text, tagged]
      rw [htext]
      refine parseLoop_tag resolve hwhole ?_
      rw [hstep hwhole, textElement_content hkind hwhole rfl hflats htells]

theorem parseLoop_closing (st : CdfState) (n : Name) (trail : White) (rest : Bytes) :
    parseLoop resolve st (closeTag n trail ++ rest) = parseLoop resolve (endStep st n.kind) rest := by
  have htext : closeTag n trail ++ rest = less :: (slash :: (n.bytes ++ trail.bytes) ++ greater :: rest) := by
    simp [closeTag, tagged]
  have hhead : ∀ c ∈ trail.bytes.head?, isNameEnd c = true :=
    fun c hc => isNameEnd_of_isWhite (trail.white c (List.mem_of_head? hc))
  rw [htext]
  exact parseLoop_tag resolve (greater_notMem_close n trail) (tagStep_end resolve st n hhead rest)

/-- A piece that is read as it is written does its step. -/
theorem parseLoop_token (st : CdfState) {r r' : Reading} {t : Token} (hstep : r.step resolve t = some r')
    (h : t.Plain) (rest : Bytes) :
    parseLoop resolve st (t.text ++ rest) = parseLoop resolve (tokenStep resolve st t) rest := by
  cases t with
  | flat f =>
      cases f with
      | chars t ok => exact parseLoop_skip resolve st ok rest
      | comment c =>
          refine parseLoop_tagged resolve h (fun rest => ?_) rest
          exact tagStep_mark resolve st rfl rest
  | opening tag =>
      refine parseLoop_element resolve st (fun k hkind => ?_) h rest
      simp [Reading.step, Reading.openTag, hkind] at hstep
  | empty tag =>
      refine parseLoop_element resolve st (fun k hkind => ?_) h rest
      simp [Reading.step, Reading.openTag, hkind] at hstep
  | closing name trail => exact parseLoop_closing resolve st name trail rest
  | textual tag content =>
      cases hkind : tag.name.kind with
      | none => simp [Reading.step, hkind] at hstep
      | some k =>
          cases k with
          | text k =>
              simp only [tokenStep, hkind]
              exact parseLoop_textual resolve st hkind h rest
          | channel | item | logo => simp [Reading.step, hkind] at hstep

/-! ### The run -/

/-- Whose the texts are for a state of the parser. -/
def CdfState.owner (st : CdfState) : Owner :=
  match st.scope, st.cur with
  | .item, some i => .item i
  | .channel, _ => .channel
  | _, _ => .nobody

/-- The state of the parser behind what has been read. -/
structure Follows (st : CdfState) (r : Reading) (own : Owner) : Prop where
  doc : st.doc = r.doc
  owner : st.owner = own
  cur : st.scope = .item → st.cur ≠ none
  fresh : r.root = false → r = {}

theorem put_taker (doc : CdfDoc) (own : Owner) (k : TextKind) (text : Option CString) :
    doc.put (doc.taker own k) k text = doc.put own k text := by
  cases text with
  | none => cases own <;> rfl
  | some text =>
      cases own with
      | nobody => rfl
      | channel =>
          by_cases hfree : (doc.get k).isNone = true <;> simp [CdfDoc.taker, CdfDoc.put, hfree]
      | item i =>
          by_cases hfree : ((doc.items[i]?).bind (·.get k)).isNone = true
          · simp only [CdfDoc.taker, if_pos hfree]
          · simp only [CdfDoc.taker, CdfDoc.put, if_neg hfree]

theorem attachText_eq (st : CdfState) (k : TextKind) (text : Option CString) :
    attachText st k text = { st with doc := st.doc.put st.owner k text } := by
  obtain ⟨doc, scope, cur⟩ := st
  cases text with
  | none => rfl
  | some text =>
      cases scope with
      | outside => rfl
      | channel =>
          dsimp only [attachText, CdfState.owner, CdfDoc.put]
          split_ifs <;> rfl
      | item =>
          cases cur with
          | none => rfl
          | some i =>
              dsimp only [attachText, CdfState.owner, CdfDoc.put]
              split_ifs <;> rfl

variable {st : CdfState} {r : Reading} {own : Owner}

theorem or_of_late {α : Type} {old new : Option α} (h : old.isSome ∨ new = none) : old.or new = old := by
  rcases h with h | rfl
  · obtain ⟨x, rfl⟩ := Option.isSome_iff_exists.mp h
    rfl
  · exact Option.or_none

theorem step_flat {f : Flat} {r' : Reading} (hstep : r.step resolve (.flat f) = some r') : r' = r := by
  cases f with
  | chars t ok =>
      simp only [Reading.step] at hstep
      split at hstep
      · cases hstep
      · exact (Option.some.inj hstep).symm
  | comment c => exact (Option.some.inj hstep).symm

/-- A start tag, whether its element is empty or not. -/
theorem follows_element (h : Follows st r own) {tag : Tag} {p : CdfDoc × Owner}
    (hopen : r.openTag resolve tag = some p) (halign : Aligned resolve r own (.opening tag))
    (stack : List (Bytes × Owner)) :
    Follows (elementStep resolve st tag) { doc := p.1, stack := stack, root := true }
      (own.after r.doc.items.length (.opening tag)) := by
  obtain ⟨hdoc, howner, hcur, hfresh⟩ := h
  have hroot : r.stack = [] → r.root = false → r.doc.channelHref = none :=
    fun _ hroot => by rw [hfresh hroot]
  unfold Reading.openTag at hopen
  unfold Aligned at halign
  unfold elementStep Owner.after
  rcases hkind : tag.name.kind with _ | _ | _ | _ | k <;> simp only [hkind] at hopen halign ⊢
  · cases hstack : r.stack with
    | nil => simp [hstack] at hopen
    | cons top rest =>
        simp only [hstack] at hopen
        cases hopen
        exact ⟨hdoc, howner, hcur, nofun⟩
  · cases hstack : r.stack with
    | nil =>
        simp only [hstack] at hopen
        split at hopen
        · cases hopen
        · rename_i hroot'
          cases hopen
          refine ⟨?_, rfl, nofun, nofun⟩
          simp only [openChannel, hdoc, hroot hstack (by simpa using hroot'), Option.none_or]
    | cons top rest =>
        simp only [hstack] at hopen
        cases hopen
        refine ⟨?_, rfl, nofun, nofun⟩
        have hinner : r.stack ≠ [] := by simp [hstack]
        simp only [openChannel, hdoc, or_of_late (halign.resolve_left hinner)]
  · cases hstack : r.stack with
    | nil => simp [hstack] at hopen
    | cons top rest =>
        simp only [hstack] at hopen
        cases hopen
        refine ⟨?_, ?_, fun _ => Option.some_ne_none _, nofun⟩
        · simp only [openItem, hdoc]
        · simp only [openItem, CdfState.owner, hdoc]
  · cases hstack : r.stack with
    | nil => simp [hstack] at hopen
    | cons top rest =>
        simp only [hstack] at hopen
        cases hopen
        refine ⟨?_, howner, hcur, nofun⟩
        by_cases hparent : r.parent = .channel
        · simp only [openLogo, hdoc, if_pos hparent]
        · simp only [openLogo, hdoc, if_neg hparent, or_of_late (halign.resolve_left hparent)]
  · cases hopen

theorem follows_closing (h : Follows st r own) {name : Name} {trail : White} {r' : Reading}
    (hstep : r.step resolve (.closing name trail) = some r') :
    Follows (endStep st name.kind) r' (own.after r.doc.items.length (.closing name trail)) := by
  obtain ⟨hdoc, howner, hcur, hfresh⟩ := h
  have hopen : r.stack ≠ [] := by
    intro hstack
    simp [Reading.step, hstack] at hstep
  have hsame : r'.doc = r.doc ∧ r'.root = r.root := by
    simp only [Reading.step] at hstep
    split at hstep
    · cases hstep
    · split at hstep
      · cases hstep
        exact ⟨rfl, rfl⟩
      · cases hstep
  have hroot : r'.root = false → r' = {} := by
    intro hroot
    rw [hsame.2] at hroot
    exact absurd (congrArg Reading.stack (hfresh hroot)) hopen
  rw [← hsame.1] at hdoc
  unfold endStep Owner.after
  rcases hkind : name.kind with _ | _ | _ | _ | k <;> simp only [hkind]
  · exact ⟨hdoc, howner, hcur, hroot⟩
  · exact ⟨hdoc, rfl, nofun, hroot⟩
  · refine ⟨hdoc, ?_, ?_, hroot⟩
    · obtain ⟨doc, scope, cur⟩ := st
      subst howner
      cases scope with
      | outside => rfl
      | channel => rfl
      | item =>
          obtain ⟨i, rfl⟩ := Option.ne_none_iff_exists'.mp (hcur rfl)
          rfl
    · intro hitem
      by_cases hscope : st.scope = .item <;> simp [closeItem, hscope] at hitem
  · exact ⟨hdoc, howner, hcur, hroot⟩
  · exact ⟨hdoc, howner, hcur, hroot⟩

theorem follows_textual (h : Follows st r own) {tag : Tag} {content : Option (List Flat × White)}
    {r' : Reading} (hstep : r.step resolve (.textual tag content) = some r')
    (halign : Aligned resolve r own (.textual tag content)) :
    Follows (tokenStep resolve st (.textual tag content)) r'
      (own.after r.doc.items.length (.textual tag content)) := by
  obtain ⟨hdoc, howner, hcur, hfresh⟩ := h
  cases hstack : r.stack with
  | nil => simp [Reading.step, hstack] at hstep
  | cons top rest =>
      have hroot : r.root = true := by
        by_contra hroot
        have hempty := congrArg Reading.stack (hfresh (eq_false_of_ne_true hroot))
        rw [hstack] at hempty
        cases hempty
      rcases hkind : tag.name.kind with _ | _ | _ | _ | k <;>
        simp only [Reading.step, hstack, hkind] at hstep <;> cases hstep
      unfold Aligned at halign
      simp only [hkind] at halign
      simp only [tokenStep, hkind, attachText_eq]
      refine ⟨?_, howner, hcur, fun hno => (Bool.false_ne_true (hno.symm.trans hroot)).elim⟩
      rw [howner, hdoc]
      rcases halign with hnone | htaker
      · rw [hnone]
        rfl
      · calc r.doc.put own k (saidText tag content)
            = r.doc.put (r.doc.taker own k) k (saidText tag content) := (put_taker ..).symm
          _ = r.doc.put (r.doc.taker r.parent k) k (saidText tag content) := by rw [htaker]
          _ = r.doc.put r.parent k (saidText tag content) := put_taker ..

/-- Every piece that is aligned keeps the parser in step with the reading. -/
theorem follows_step (h : Follows st r own) {t : Token} {r' : Reading}
    (hstep : r.step resolve t = some r') (halign : Aligned resolve r own t) :
    Follows (tokenStep resolve st t) r' (own.after r.doc.items.length t) := by
  cases t with
  | flat f =>
      rw [step_flat resolve hstep]
      exact h
  | opening tag =>
      obtain ⟨p, hopen, rfl⟩ := Option.map_eq_some_iff.mp hstep
      exact follows_element resolve h hopen halign _
  | empty tag =>
      obtain ⟨p, hopen, rfl⟩ := Option.map_eq_some_iff.mp hstep
      exact follows_element resolve h hopen halign _
  | closing name trail => exact follows_closing resolve h hstep
  | textual tag content => exact follows_textual resolve h hstep halign

theorem parseLoop_run {ts : List Token} {r' : Reading} (h : Follows st r own)
    (hrun : Reading.run resolve r ts = some r') (hall : AllAligned resolve r own ts) :
    (parseLoop resolve st (documentText ts)).doc = r'.doc := by
  induction ts generalizing st r own with
  | nil =>
      cases hrun
      rw [documentText, List.flatMap_nil, parseLoop]
      exact h.doc
  | cons t ts ih =>
      obtain ⟨r₁, hstep, hrun⟩ := Option.bind_eq_some_iff.mp hrun
      obtain ⟨hplain, halign, hrest⟩ := hall
      rw [documentText, List.flatMap_cons, parseLoop_token resolve st hstep hplain]
      exact ih (follows_step resolve h hstep halign) hrun (hrest r₁ hstep)

/-- A document with a root has a text. -/
theorem documentText_ne_nil {ts : List Token} {r' : Reading} (hrun : Reading.run resolve r ts = some r')
    (hbefore : r.root = false) (hafter : r'.root = true) : documentText ts ≠ [] := by
  induction ts generalizing r with
  | nil =>
      cases hrun
      rw [hbefore] at hafter
      cases hafter
  | cons t ts ih =>
      obtain ⟨r₁, hstep, htail⟩ := Option.bind_eq_some_iff.mp hrun
      rw [documentText, List.flatMap_cons]
      cases t with
      | flat f =>
          rw [step_flat resolve hstep] at htail
          exact List.append_ne_nil_of_right_ne_nil _ (ih htail hbefore)
      | opening tag | empty tag | closing name trail =>
          exact List.append_ne_nil_of_left_ne_nil (List.cons_ne_nil _ _) _
      | textual tag content =>
          refine List.append_ne_nil_of_left_ne_nil ?_ _
          rcases content with _ | ⟨flats, trail⟩ <;> exact List.cons_ne_nil _ _

/-- A well-formed document whose pieces are read as they are written, and aligned, is parsed to what it
says. -/
theorem cdfParse_said {ts : List Token} {doc : CdfDoc} (hsaid : said resolve ts = some doc)
    (hall : AllAligned resolve {} .nobody ts) : cdfParse resolve (documentText ts) = some doc := by
  unfold said at hsaid
  split at hsaid
  · rename_i hrun
    cases hsaid
    rw [cdfParse, if_neg (documentText_ne_nil resolve hrun rfl rfl)]
    have hstart : Follows {} {} .nobody :=
      { doc := rfl
        owner := rfl
        cur := (nomatch ·)
        fresh := fun _ => rfl }
    exact congrArg some (parseLoop_run resolve hstart hrun hall)
  · cases hsaid

end Sound

/-! ### Documents -/

def blank : White := ⟨[0x20], by decide +kernel⟩

def noWhite : White := ⟨[], by decide +kernel⟩

def hrefAttr (single : Bool) (c : UInt8) (ok : c ≠ ampersand ∧ c ≠ 0)
    (inQuotes : quoteByte single ≠ c) : Attr where
  lead := blank
  apart := by decide
  name := ⟨ascii "HREF", by decide, by decide +kernel⟩
  beforeEquals := noWhite
  afterEquals := noWhite
  single := single
  value := [.plain c ok]
  inQuotes := by simpa [CharData.bytes, CharPiece.bytes] using inQuotes

def channelTag : Tag :=
  ⟨⟨ascii "Channel", by decide, by decide +kernel⟩, [hrefAttr false 0x61 (by decide) (by decide)], noWhite⟩

def itemTag : Tag :=
  ⟨⟨ascii "ITEM", by decide, by decide +kernel⟩, [hrefAttr true 0x62 (by decide) (by decide)], blank⟩

def titleTag : Tag := ⟨⟨ascii "TITLE", by decide, by decide +kernel⟩, [], noWhite⟩

/-- A title with an entity in it. -/
def titleToken : Token :=
  .textual titleTag (some ([.chars [.plain 0x4E (by decide), .named .lt] (by decide)], blank))

def boldComment : Flat := .comment ⟨ascii " > <b> ", by decide⟩

def ownTitle : List Token :=
  [.opening channelTag, .flat boldComment, titleToken, .opening itemTag, titleToken, .closing itemTag.name noWhite,
    .closing channelTag.name blank]

theorem cdfParse_ownTitle :
    cdfParse some (documentText ownTitle) =
      some { title := some (ascii "N<")
             channelHref := some (ascii "a")
             items := [{ title := some (ascii "N<"), href := some (ascii "b") }] } :=
  cdfParse_said some (by decide) (by decide)

/-- The channel's title behind an empty ITEM is taken for the title of the item. -/
def emptyItem : List Token :=
  [.opening channelTag, .empty itemTag, titleToken, .closing channelTag.name noWhite]

theorem emptyItem_takes_title :
    said some emptyItem = some { title := some (ascii "N<")
                                 channelHref := some (ascii "a")
                                 items := [{ href := some (ascii "b") }] } ∧
      cdfParse some (documentText emptyItem) =
        some { channelHref := some (ascii "a")
               items := [{ title := some (ascii "N<"), href := some (ascii "b") }] } := by
  decide +kernel

end UnicornSuite.Cdf
