import UnicornSuite.CdfDocument
import Mathlib.Data.List.TakeWhile

/-! What the scans of `cdf_parse` read of the pieces of a document: names, attributes, character data,
and tags up to their first closing bracket. What else stands in a tag or a comment is quiet if no tag of
a CHANNEL, ITEM, LOGO, TITLE or ABSTRACT starts behind that bracket. -/

namespace UnicornSuite.Cdf

open CText

/-! ### Names -/

theorem upper_of_isNameEnd {c : UInt8} (hc : isNameEnd c = true) : upper c = c := by
  simp only [isNameEnd, isWhite, decide_eq_true_eq] at hc
  rcases hc with (rfl | rfl | rfl | rfl) | rfl | rfl | rfl <;> decide

theorem isNameEnd_of_isWhite {c : UInt8} (hc : isWhite c = true) : isNameEnd c = true := by
  simp [isNameEnd, hc]

@[simp] theorem startsWith_nil (p : Bytes) : startsWith p [] = true := by simp [startsWith]

@[simp] theorem startsWith_nil_cons (d : UInt8) (name : Bytes) : startsWith [] (d :: name) = false := by
  simp [startsWith]

theorem startsWith_cons (c d : UInt8) (p name : Bytes) :
    startsWith (c :: p) (d :: name) = (decide (upper c = upper d) && startsWith p name) := by
  simp only [startsWith, List.length_cons, Nat.succ_le_succ_iff, List.take_succ_cons, List.map_cons,
    List.cons.injEq]
  by_cases hcd : upper c = upper d <;> simp [hcd]

theorem tagMatch_nil (p : Bytes) : tagMatch p [] = true ↔ ∀ c ∈ p.head?, isNameEnd c = true := by
  simp [tagMatch]

@[simp] theorem tagMatch_nil_cons (d : UInt8) (name : Bytes) : tagMatch [] (d :: name) = false := by
  simp [tagMatch]

theorem tagMatch_cons (c d : UInt8) (p name : Bytes) :
    tagMatch (c :: p) (d :: name) = true ↔ upper c = upper d ∧ tagMatch p name = true := by
  simp [tagMatch, startsWith_cons, and_assoc]

/-- A word that is no part of a longer one is matched as a whole. -/
theorem tagMatch_append {u s name : Bytes} (hu : ∀ c ∈ u, isNameEnd c = false)
    (hname : ∀ c ∈ name.map upper, isNameEnd c = false) (hs : ∀ c ∈ s.head?, isNameEnd c = true) :
    tagMatch (u ++ s) name = true ↔ u.map upper = name.map upper := by
  induction u generalizing name with
  | nil =>
      cases name with
      | nil => exact iff_of_true ((tagMatch_nil _).mpr hs) rfl
      | cons d name =>
          refine iff_of_false ?_ nofun
          cases s with
          | nil => simp
          | cons c s =>
              rw [List.nil_append, tagMatch_cons]
              rintro ⟨hcd, -⟩
              have hc := hs c rfl
              rw [← upper_of_isNameEnd hc, hcd, hname _ List.mem_cons_self] at hc
              cases hc
  | cons c u ih =>
      cases name with
      | nil =>
          refine iff_of_false ?_ nofun
          rw [tagMatch_nil]
          intro h
          have hc := h c rfl
          rw [hu c List.mem_cons_self] at hc
          cases hc
      | cons d name =>
          rw [List.cons_append, tagMatch_cons, List.map_cons, List.map_cons, List.cons.injEq,
            ih (fun e he => hu e (List.mem_cons_of_mem c he))
              fun e he => hname e (List.mem_cons_of_mem _ he)]

/-- What stands behind a closing bracket does not matter. -/
theorem tagMatch_greater {name : Bytes} (hname : greater ∉ name.map upper) (a b : Bytes) :
    tagMatch (a ++ greater :: b) name = tagMatch a name := by
  rw [Bool.eq_iff_iff]
  induction a generalizing name with
  | nil =>
      cases name with
      | nil =>
          rw [tagMatch_nil, tagMatch_nil]
          exact iff_of_true (fun c hc => by cases hc; rfl) nofun
      | cons d name =>
          refine iff_of_false ?_ (by simp)
          rw [List.nil_append, tagMatch_cons]
          rintro ⟨hd, -⟩
          rw [List.map_cons, ← hd] at hname
          exact hname List.mem_cons_self
  | cons c a ih =>
      cases name with
      | nil => rw [tagMatch_nil, tagMatch_nil]; rfl
      | cons d name =>
          rw [List.cons_append, tagMatch_cons, tagMatch_cons,
            ih fun hmem => hname (List.mem_cons_of_mem _ hmem)]

theorem Kind.name_upper (k : Kind) : k.name.map upper = k.name := by
  rcases k with _ | _ | _ | _ | _ <;> decide

theorem Kind.name_chars (k : Kind) : ∀ c ∈ k.name, isNameEnd c = false := by
  rcases k with _ | _ | _ | _ | _ <;> decide +kernel

theorem Kind.mem_all (k : Kind) : k ∈ Kind.all := by
  rcases k with _ | _ | _ | _ | _ <;> decide

theorem Name.no_end (n : Name) : ∀ c ∈ n.bytes, isNameEnd c = false := by
  intro c hc
  have hchar := n.chars c hc
  simp only [isNameChar, Bool.not_eq_true, decide_eq_true_eq] at hchar
  exact hchar.1

theorem Name.no_white (n : Name) : ∀ c ∈ n.bytes, isWhite c = false := by
  intro c hc
  by_contra hwhite
  have hend := isNameEnd_of_isWhite (eq_true_of_ne_false hwhite)
  rw [n.no_end c hc] at hend
  cases hend

theorem Name.greater_notMem (n : Name) : greater ∉ n.bytes := fun hmem => by cases n.no_end _ hmem

/-- The names of the kinds are different. -/
theorem Name.isKind_iff (n : Name) (k : Kind) : n.isKind k = true ↔ n.kind = some k := by
  constructor
  · intro h
    have hname : n.bytes.map upper = k.name := by simpa [Name.isKind] using h
    have hkinds : n.isKind = fun j => decide (k.name = j.name) := by
      funext j
      rw [Name.isKind, hname]
    rw [Name.kind, hkinds]
    rcases k with _ | _ | _ | _ | _ <;> decide
  · intro h
    exact List.find?_some h

theorem tagMatch_name (n : Name) (k : Kind) {s : Bytes} (hs : ∀ c ∈ s.head?, isNameEnd c = true) :
    tagMatch (n.bytes ++ s) k.name = true ↔ n.kind = some k := by
  rw [tagMatch_append n.no_end (by rw [k.name_upper]; exact k.name_chars) hs, ← n.isKind_iff k,
    k.name_upper, Name.isKind, decide_eq_true_eq]

/-- The kind of the tag that `cdf_parse` takes a text for. -/
def tagKind (tag : Bytes) : Option Kind :=
  Kind.all.find? fun k => tagMatch (if tag.head? = some slash then tag.tail else tag) k.name

theorem tagKind_greater (a b : Bytes) : tagKind (a ++ greater :: b) = tagKind a := by
  have hname (k : Kind) : greater ∉ k.name.map upper := by
    rw [k.name_upper]
    intro hmem
    cases k.name_chars _ hmem
  unfold tagKind
  congr 1
  funext k
  cases a with
  | nil => exact tagMatch_greater (hname k) [] b
  | cons c a =>
      rw [List.cons_append, List.head?_cons, List.head?_cons, List.tail_cons, List.tail_cons,
        ← List.cons_append]
      split
      · exact tagMatch_greater (hname k) a b
      · exact tagMatch_greater (hname k) (c :: a) b

theorem head?_name_append (n : Name) (s : Bytes) : (n.bytes ++ s).head? = n.bytes.head? :=
  List.head?_append_of_ne_nil _ n.nonempty

theorem head?_name (n : Name) :
    n.bytes.head? ≠ some slash ∧ ¬ (n.bytes.head? = some 0x21 ∨ n.bytes.head? = some 0x3F) := by
  have hchar (c : UInt8) (hc : n.bytes.head? = some c) := n.chars c (List.mem_of_head? hc)
  refine ⟨fun h => ?_, fun h => ?_⟩
  · cases hchar _ h
  · rcases h with h | h <;> cases hchar _ h

/-! ### Tags -/

theorem ne_of_notMem {c : UInt8} {w : Bytes} (hw : c ∉ w) : ∀ d ∈ w, decide (d ≠ c) = true := by
  intro d hd
  exact decide_eq_true fun heq => hw (heq ▸ hd)

theorem takeWhile_notMem {c : UInt8} {w : Bytes} (hw : c ∉ w) : w.takeWhile (· ≠ c) = w := by
  have htake := takeWhile_append (s := []) (ne_of_notMem hw) nofun
  rwa [List.append_nil] at htake

section Tags

variable (resolve : CString → Option CString)

theorem tagStep_quiet {tag : Bytes} (htag : tagKind tag = none) (st : CdfState) (rest : Bytes) :
    tagStep resolve st tag rest = (st, some rest) := by
  have hno (k : Kind) :
      tagMatch (if tag.head? = some slash then tag.tail else tag) k.name = false := by
    simpa using List.find?_eq_none.mp htag k k.mem_all
  have hchannel := hno .channel
  have hitem := hno .item
  have hlogo := hno .logo
  have htitle := hno (.text .title)
  have habstract := hno (.text .abstract)
  simp only [Kind.name] at hchannel hitem hlogo htitle habstract
  simp [tagStep, hchannel, hitem, hlogo, htitle, habstract]

theorem tagStep_mark {tag : Bytes} (st : CdfState) (htag : tag.head? = some 0x21) (rest : Bytes) :
    tagStep resolve st tag rest = (st, some rest) := by
  rw [tagStep, if_pos (Or.inl htag)]

/-- What a start tag does, by its kind. -/
def startStep (st : CdfState) (tag rest : Bytes) : Option Kind → CdfState × Option Bytes
  | some .channel => (openChannel st (tagLink resolve tag), some rest)
  | some .item => (openItem st (tagLink resolve tag), some rest)
  | some .logo => (openLogo st (tagLink resolve tag), some rest)
  | some (.text k) => textElement st k tag rest
  | none => (st, some rest)

/-- What an end tag does, by its kind. -/
def endStep (st : CdfState) : Option Kind → CdfState
  | some .channel => { st with scope := .outside }
  | some .item => closeItem st
  | _ => st

theorem tagStep_start (st : CdfState) (n : Name) {s : Bytes}
    (hs : ∀ c ∈ s.head?, isNameEnd c = true) (rest : Bytes) :
    tagStep resolve st (n.bytes ++ s) rest = startStep resolve st (n.bytes ++ s) rest n.kind := by
  obtain ⟨hslash, hmark⟩ := head?_name n
  have hmatch (k : Kind) := tagMatch_name n k hs
  have hchannel := hmatch .channel
  have hitem := hmatch .item
  have hlogo := hmatch .logo
  have htitle := hmatch (.text .title)
  have habstract := hmatch (.text .abstract)
  simp only [Kind.name] at hchannel hitem hlogo htitle habstract
  simp only [tagStep, head?_name_append, hslash, hmark, if_false, hchannel, hitem, hlogo, htitle,
    habstract, not_false_iff, true_and]
  rcases n.kind with _ | _ | _ | _ | _ | _ <;> simp [startStep]

theorem tagStep_end (st : CdfState) (n : Name) {s : Bytes}
    (hs : ∀ c ∈ s.head?, isNameEnd c = true) (rest : Bytes) :
    tagStep resolve st (slash :: (n.bytes ++ s)) rest = (endStep st n.kind, some rest) := by
  have hmatch (k : Kind) := tagMatch_name n k hs
  have hchannel := hmatch .channel
  have hitem := hmatch .item
  have hlogo := hmatch .logo
  simp only [Kind.name] at hchannel hitem hlogo
  have hmark : ¬ (some slash = some 0x21 ∨ some slash = some 0x3F) := by decide
  simp only [tagStep, List.head?_cons, List.tail_cons, hmark, if_false, if_true, hchannel, hitem, hlogo,
    not_true_eq_false, false_and]
  rcases n.kind with _ | _ | _ | _ | _ | _ <;> simp [endStep]

theorem parseLoop_skip (st : CdfState) {w : Bytes} (hw : less ∉ w) (rest : Bytes) :
    parseLoop resolve st (w ++ rest) = parseLoop resolve st rest := by
  induction w with
  | nil => rfl
  | cons c w ih =>
      rw [List.mem_cons, not_or] at hw
      rw [List.cons_append, parseLoop, if_pos (Ne.symm hw.1), ih hw.2]

theorem parseLoop_tag {tag : Bytes} (htag : greater ∉ tag) {st st' : CdfState} {rest p : Bytes}
    (hstep : tagStep resolve st tag rest = (st', some p)) :
    parseLoop resolve st (less :: (tag ++ greater :: rest)) = parseLoop resolve st' p := by
  have htake : (tag ++ greater :: rest).takeWhile (· ≠ greater) = tag :=
    takeWhile_append (ne_of_notMem htag) (by simp)
  have hdrop : (tag ++ greater :: rest).dropWhile (· ≠ greater) = greater :: rest :=
    dropWhile_append (ne_of_notMem htag) (by simp)
  rw [parseLoop, if_neg (by simp)]
  split
  · rename_i hend
    rw [hdrop] at hend
    cases hend
  · rename_i hend
    rw [hdrop] at hend
    cases hend
    split
    · rename_i hnone
      rw [htake, hstep] at hnone
      cases hnone
    · rename_i hsome
      rw [htake, hstep] at hsome
      cases hsome
      rfl

/-- Nothing behind the first closing bracket starts a tag of a kind. -/
def Quiet (body : Bytes) : Prop :=
  ∀ v ∈ (body.dropWhile (· ≠ greater)).tails, v.head? = some less → tagKind v.tail = none

instance (body : Bytes) : Decidable (Quiet body) :=
  inferInstanceAs (Decidable (∀ v ∈ (body.dropWhile (· ≠ greater)).tails, _ → _))

theorem parseLoop_quiet (st : CdfState) (w rest : Bytes)
    (hw : ∀ v, v <:+ w → v.head? = some less → tagKind v.tail = none) :
    parseLoop resolve st (w ++ greater :: rest) = parseLoop resolve st rest := by
  induction hlen : w.length using Nat.strongRecOn generalizing w with
  | ind n ih =>
      cases w with
      | nil =>
          exact parseLoop_skip resolve st (w := [greater]) (by decide) rest
      | cons c w =>
          subst hlen
          have hsub (v : Bytes) (hv : v <:+ w) := hw v (hv.trans (List.suffix_cons c w))
          by_cases hc : c = less
          · subst hc
            have hkind : tagKind w = none := hw (less :: w) List.suffix_rfl rfl
            by_cases hmem : greater ∈ w
            · obtain ⟨a, b, rfl, ha⟩ := List.eq_append_cons_of_mem hmem
              rw [tagKind_greater] at hkind
              rw [List.cons_append, List.append_assoc, List.cons_append,
                parseLoop_tag resolve ha (tagStep_quiet resolve hkind st _)]
              refine ih b.length ?_ b (fun v hv => hsub v ?_) rfl
              · simp only [List.length_cons, List.length_append]
                omega
              · exact hv.trans ⟨a ++ [greater], by simp⟩
            · exact parseLoop_tag resolve hmem (tagStep_quiet resolve hkind st rest)
          · rw [List.cons_append, parseLoop, if_pos hc]
            exact ih w.length (Nat.lt_succ_self _) w hsub rfl

/-- A tag counts up to its first closing bracket, if the rest of it is quiet. -/
theorem parseLoop_tagged {st st' : CdfState} {body : Bytes} (hquiet : Quiet body)
    (hstep : ∀ rest, tagStep resolve st (body.takeWhile (· ≠ greater)) rest = (st', some rest))
    (rest : Bytes) : parseLoop resolve st (tagged body ++ rest) = parseLoop resolve st' rest := by
  have htagged : tagged body ++ rest = less :: (body ++ greater :: rest) := by simp [tagged]
  rw [htagged]
  by_cases hmem : greater ∈ body
  · obtain ⟨a, b, rfl, ha⟩ := List.eq_append_cons_of_mem hmem
    rw [takeWhile_append (ne_of_notMem ha) (by simp)] at hstep
    rw [Quiet, dropWhile_append (ne_of_notMem ha) (by simp)] at hquiet
    rw [List.append_assoc, List.cons_append, parseLoop_tag resolve ha (hstep _)]
    refine parseLoop_quiet resolve st' b rest fun v hv => hquiet v ?_
    exact (List.mem_tails _ _).mpr (hv.trans (List.suffix_cons greater b))
  · rw [takeWhile_notMem hmem] at hstep
    exact parseLoop_tag resolve hmem (hstep rest)

end Tags

end UnicornSuite.Cdf
