import UnicornSuite.NewsDocument

/-! What the scan for a name finds in the text of an object: the first string, key or value, that is the
name or ends with an escaped quote and the name. Behind a key that is the member's value, behind a
value the end of the member. -/

namespace UnicornSuite.News

open CText

/-- The names that are looked for: no quote, no backslash, and nothing that stands between strings. -/
def FieldName (key : Bytes) : Prop := key ≠ [] ∧ ∀ c ∈ key, 0x5F ≤ c ∧ c ≤ 0x7A

instance (key : Bytes) : Decidable (FieldName key) := inferInstanceAs (Decidable (_ ∧ _))

/-- A string in which the scan finds the name: it is the name, or ends with an escaped quote and the
name. -/
def Names (key : Bytes) (s : JsonString) : Prop := quote :: key <:+ quote :: s.text

instance (key : Bytes) (s : JsonString) : Decidable (Names key s) :=
  inferInstanceAs (Decidable (_ <:+ _))

/-- What the scan comes to: the value of a key, or what stands behind a value. -/
inductive Hit where
  | value (v : Value)
  | stray

def Member.hit (key : Bytes) (m : Member) : Option Hit :=
  if Names key m.key then some (.value m.value)
  else
    match m.value with
    | .str s => if Names key s then some .stray else none
    | _ => none

/-- The first hit in an object. -/
def Object.hit (o : Object) (name : String) : Option Hit :=
  o.members.findSome? (Member.hit (ascii name))

section Token

variable {key rest t u : Bytes} {s : JsonString}

/-- Every quote stands behind a backslash. -/
def Escaped (t : Bytes) : Prop := ∀ a b, t = a ++ quote :: b → [backslash] <:+ a

theorem Escaped.append_plain {p : Bytes} (hp : quote ∉ p) (h : Escaped t) : Escaped (p ++ t) := by
  intro a b heq
  rcases List.append_eq_append_iff.mp heq with ⟨c, rfl, ht⟩ | ⟨c, rfl, hb⟩
  · exact (h c b ht).trans (List.suffix_append p c)
  · cases c with
    | nil => exact absurd (h [] b hb.symm).length_le (by simp)
    | cons d c =>
        obtain ⟨rfl, _⟩ := List.cons.inj hb
        exact absurd (List.mem_append_right a List.mem_cons_self) hp

theorem Escaped.escape (c : UInt8) (h : Escaped t) : Escaped (backslash :: c :: t) := by
  intro a b heq
  cases a with
  | nil => exact absurd (List.cons.inj heq).1 (by decide)
  | cons x a =>
      obtain ⟨hx, heq⟩ := List.cons.inj heq
      cases a with
      | nil => rw [← hx]
      | cons y a =>
          have hlast := h a b (List.cons.inj heq).2
          exact (hlast.trans (List.suffix_cons y a)).trans (List.suffix_cons x (y :: a))

theorem letter_ne_quote (h : HexDigit) : quote ≠ h.letter ∧ backslash ≠ h.letter ∧ 0 ≠ h.letter := by
  obtain ⟨v, upper⟩ := h
  revert v upper
  decide

theorem escaped_text (s : JsonString) : Escaped s.text := by
  induction s with
  | nil =>
      intro a b heq
      simp [JsonString.text] at heq
  | cons c s ih =>
      rw [JsonString.text, List.flatMap_cons]
      cases c with
      | plain c ok => exact ih.append_plain (by simp [JsonChar.text, ok.1.symm])
      | escape e => exact ih.escape e.letter
      | unicode h₁ h₂ h₃ h₄ =>
          have hdigits : quote ∉ [h₁.letter, h₂.letter, h₃.letter, h₄.letter] := by
            simp [(letter_ne_quote _).1]
          exact (ih.append_plain hdigits).escape 0x75

theorem FieldName.notMem (h : FieldName key) {c : UInt8} (hc : c < 0x5F ∨ 0x7A < c) : c ∉ key := by
  intro hmem
  have hrange := h.2 c hmem
  rcases hc with hlo | hhi
  · exact absurd hrange.1 (UInt8.not_le.mpr hlo)
  · exact absurd hrange.2 (UInt8.not_le.mpr hhi)

/-- Where the part of a string from a position on starts with the quoted name, it is the name. -/
theorem quoted_prefix_iff (hquote : quote ∉ key) (hslash : backslash ∉ key) (ht : Escaped t) :
    key ++ [quote] <+: t ++ quote :: rest ↔ t = key := by
  constructor
  · rintro ⟨u, hu⟩
    rw [List.append_assoc, List.singleton_append] at hu
    rcases List.append_eq_append_iff.mp hu with ⟨c, hc, hrest⟩ | ⟨c, hc, hrest⟩
    · cases c with
      | nil => rw [hc, List.append_nil]
      | cons d c =>
          obtain ⟨rfl, _⟩ := List.cons.inj hrest
          have hlast := ht key c hc
          exact absurd (hlast.subset (List.mem_singleton_self _)) hslash
    · cases c with
      | nil => rw [hc, List.append_nil]
      | cons d c =>
          obtain ⟨rfl, _⟩ := List.cons.inj hrest
          exact absurd (hc ▸ List.mem_append_right t List.mem_cons_self) hquote
  · rintro rfl
    exact ⟨rest, by simp⟩

/-- The part of a string from a position on, the opening quote among them. -/
def Inside (u : Bytes) : Prop := ∀ a b, u = a ++ quote :: b → a = [] ∨ [backslash] <:+ a

theorem Inside.of_escaped (h : Escaped t) : Inside (quote :: t) := by
  intro a b heq
  cases a with
  | nil => exact Or.inl rfl
  | cons c a => exact Or.inr ((h a b (List.cons.inj heq).2).trans (List.suffix_cons c a))

theorem Inside.tail {c : UInt8} (h : Inside (c :: u)) : Inside u := by
  intro a b heq
  rcases h (c :: a) b (by rw [heq, List.cons_append]) with hnil | hlast
  · cases hnil
  · rcases List.suffix_cons_iff.mp hlast with heq' | hlast
    · exact Or.inl (List.cons.inj heq').2.symm
    · exact Or.inr hlast

theorem Inside.escaped (h : Inside (quote :: t)) : Escaped t := by
  intro a b heq
  rcases h (quote :: a) b (by rw [heq, List.cons_append]) with hnil | hlast
  · cases hnil
  · rcases List.suffix_cons_iff.mp hlast with heq' | hlast
    · exact absurd (List.cons.inj heq').1 (by decide)
    · exact hlast

/-- In a string the name is found at its end or not at all. -/
theorem behind_inside (hkey : FieldName key) (hu : Inside u) :
    Search.behind (quoted key) (u ++ quote :: rest) =
      if quote :: key <:+ u then some rest else Search.behind (quoted key) (quote :: rest) := by
  induction u with
  | nil => rw [if_neg (by simp), List.nil_append]
  | cons c u ih =>
      by_cases hmatch : quoted key <+: c :: (u ++ quote :: rest)
      · obtain ⟨rfl, hpre⟩ := List.cons_prefix_cons.mp hmatch
        obtain rfl := (quoted_prefix_iff (hkey.notMem (by decide)) (hkey.notMem (by decide)) hu.escaped).mp hpre
        have hwhole : quote :: (u ++ quote :: rest) = quoted u ++ rest := by simp [quoted]
        rw [List.cons_append, hwhole, Search.behind_self (by simp [quoted]),
          if_pos (List.suffix_refl _)]
      · have hne : quote :: key ≠ c :: u := by
          intro heq
          apply hmatch
          rw [← List.cons_append, ← heq]
          exact ⟨rest, by simp [quoted]⟩
        rw [List.cons_append, Search.behind_cons hmatch, ih hu.tail]
        simp only [List.suffix_cons_iff, hne, false_or]

/-- Past a string that is not taken for the name the scan goes on, as no name starts there. -/
theorem behind_string (hkey : FieldName key) (s : JsonString)
    (hrest : ∀ c ∈ rest.head?, c < 0x5F ∨ 0x7A < c) :
    Search.behind (quoted key) ((Value.str s).text ++ rest) =
      if Names key s then some rest else Search.behind (quoted key) rest := by
  have hclose : Search.behind (quoted key) (quote :: rest) = Search.behind (quoted key) rest := by
    refine Search.behind_cons fun hpre => ?_
    have hpre := (List.cons_prefix_cons.mp hpre).2
    obtain ⟨c, k, rfl⟩ := List.exists_cons_of_ne_nil hkey.1
    obtain ⟨t, ht⟩ := hpre
    have hhead : c ∈ rest.head? := by rw [← ht]; rfl
    exact hkey.notMem (hrest c hhead) List.mem_cons_self
  have htext : (Value.str s).text ++ rest = quote :: s.text ++ quote :: rest := by
    simp [Value.text]
  rw [htext, behind_inside hkey (Inside.of_escaped (escaped_text s)), hclose]
  rfl

/-- Where there is no quote there is no name. -/
theorem behind_plain {p : Bytes} (hp : quote ∉ p) (rest : Bytes) :
    Search.behind (quoted key) (p ++ rest) = Search.behind (quoted key) rest := by
  refine Search.behind_append_of_ne (fun c hc heq => ?_) (by simp [quoted]) rest
  exact hp (Option.some.inj heq ▸ hc)

end Token

/-! ### Members -/

section Members

variable {key rest : Bytes}

/-- What follows a member: a comma or the end of the object. -/
def Follows (rest : Bytes) : Prop := rest.head? = some comma ∨ rest.head? = some closeBrace

theorem Follows.bound (h : Follows rest) : ∀ c ∈ rest.head?, c < 0x5F ∨ 0x7A < c := by
  intro c hc
  rcases h with h | h
  all_goals
    rw [h] at hc
    cases hc
    decide

/-- Text without quotes and braces. -/
def Plain (p : Bytes) : Prop := ∀ c ∈ p, c ≠ quote ∧ c ≠ openBrace ∧ c ≠ closeBrace

instance (p : Bytes) : Decidable (Plain p) := inferInstanceAs (Decidable (∀ c ∈ p, _))

theorem plain_of_all {p : Bytes}
    (h : p.all (fun c => c != quote && c != openBrace && c != closeBrace) = true) : Plain p := by
  intro c hc
  simpa [and_assoc] using List.all_eq_true.mp h c hc

theorem Plain.append {p q : Bytes} (hp : Plain p) (hq : Plain q) : Plain (p ++ q) := by
  intro c hc
  exact (List.mem_append.mp hc).elim (hp c) (hq c)

theorem plain_ws (w : Ws) : Plain w.bytes := by
  intro c hc
  rcases w.space c hc with rfl | rfl | rfl | rfl <;> decide

theorem plain_digits (d : Digits) : Plain d.bytes := by
  intro c hc
  have hdigit := d.digits c hc
  refine ⟨?_, ?_, ?_⟩
  all_goals
    rintro rfl
    exact absurd hdigit (by decide)

theorem plain_number (n : Number) : Plain n.text := by
  have hsign : Plain (if n.neg then [0x2D] else []) := by
    cases n.neg <;> exact plain_of_all rfl
  have hfrac : Plain n.fracText := by
    unfold Number.fracText
    split
    · exact nofun
    · rename_i d _
      exact (plain_of_all rfl : Plain [0x2E]).append (plain_digits d)
  have hexp : Plain n.expText := by
    unfold Number.expText
    split
    · exact nofun
    · rename_i e _
      have hmark : Plain [if e.upper then 0x45 else 0x65] := by
        cases e.upper <;> exact plain_of_all rfl
      have hsign : Plain e.signText := by
        unfold Exponent.signText
        split
        · exact nofun
        · rename_i minus _
          cases minus <;> exact plain_of_all rfl
      exact (hmark.append hsign).append (plain_digits e.digits)
  exact ((hsign.append (plain_digits n.int)).append hfrac).append hexp

theorem plain_value {v : Value} (hv : ∀ s, v ≠ .str s) : Plain v.text := by
  cases v with
  | str s => exact absurd rfl (hv s)
  | num n => exact plain_number n
  | true => exact plain_of_all rfl
  | false => exact plain_of_all rfl
  | null => exact plain_of_all rfl

theorem Plain.quote_notMem {p : Bytes} (hp : Plain p) : quote ∉ p := fun hmem => (hp _ hmem).1 rfl

theorem bound_ws (w : Ws) (h : ∀ c ∈ rest.head?, c < 0x5F ∨ 0x7A < c) :
    ∀ c ∈ (w.bytes ++ rest).head?, c < 0x5F ∨ 0x7A < c := by
  obtain ⟨bytes, space⟩ := w
  cases bytes with
  | nil => exact h
  | cons c bytes =>
      intro d hd
      cases hd
      rcases space c List.mem_cons_self with rfl | rfl | rfl | rfl <;> decide

/-- What the scan finds in a member, or behind it. -/
theorem behind_member (hkey : FieldName key) (m : Member) (hrest : Follows rest) :
    Search.behind (quoted key) (m.text ++ rest) =
      match m.hit key with
      | none => Search.behind (quoted key) rest
      | some (.value v) =>
          some (m.beforeColon.bytes ++ colon :: (m.afterColon.bytes ++ v.text ++ (m.trail.bytes ++ rest)))
      | some .stray => some (m.trail.bytes ++ rest) := by
  have htext : m.text ++ rest = m.lead.bytes ++ ((Value.str m.key).text ++
      (m.beforeColon.bytes ++ ([colon] ++ (m.afterColon.bytes ++ (m.value.text ++ (m.trail.bytes ++ rest)))))) := by
    simp [Member.text]
  have hcolon : ∀ c ∈ (m.beforeColon.bytes ++ ([colon] ++ (m.afterColon.bytes ++ (m.value.text ++
      (m.trail.bytes ++ rest))))).head?, c < 0x5F ∨ 0x7A < c :=
    bound_ws m.beforeColon (by simp [colon])
  rw [htext, behind_plain (plain_ws m.lead).quote_notMem, behind_string hkey m.key hcolon]
  unfold Member.hit
  split
  · simp
  · rw [behind_plain (plain_ws m.beforeColon).quote_notMem, behind_plain (by decide),
      behind_plain (plain_ws m.afterColon).quote_notMem]
    cases hv : m.value with
    | str s =>
        dsimp only
        rw [behind_string hkey s (bound_ws m.trail hrest.bound)]
        split
        · rfl
        · exact behind_plain (plain_ws m.trail).quote_notMem rest
    | _ =>
        dsimp only
        rw [behind_plain (plain_value (by simp)).quote_notMem,
          behind_plain (plain_ws m.trail).quote_notMem]

/-! ### Objects -/

/-- What the scan comes to in the text of an object. -/
def Found (text : Option Bytes) : Option Hit → Prop
  | none => text = none
  | some (.value v) => ∃ (w₁ w₂ w₃ : Ws) (rest : Bytes), Follows rest ∧
      text = some (w₁.bytes ++ colon :: (w₂.bytes ++ v.text ++ (w₃.bytes ++ rest)))
  | some .stray => ∃ (w : Ws) (rest : Bytes), Follows rest ∧ text = some (w.bytes ++ rest)

theorem found_member (hkey : FieldName key) (m : Member) (hrest : Follows rest) {hit : Option Hit}
    (hmore : Found (Search.behind (quoted key) rest) hit) :
    Found (Search.behind (quoted key) (m.text ++ rest)) ((m.hit key).or hit) := by
  rw [behind_member hkey m hrest]
  cases m.hit key with
  | none => exact hmore
  | some h =>
      cases h with
      | value v => exact ⟨m.beforeColon, m.afterColon, m.trail, rest, hrest, rfl⟩
      | stray => exact ⟨m.trail, rest, hrest, rfl⟩

/-- The members behind the first one. -/
def moreText (ms : List Member) : Bytes := ms.flatMap (fun m => comma :: m.text) ++ [closeBrace]

theorem follows_moreText (ms : List Member) : Follows (moreText ms) := by
  cases ms with
  | nil => exact Or.inr rfl
  | cons m ms => exact Or.inl rfl

theorem found_more (hkey : FieldName key) (ms : List Member) :
    Found (Search.behind (quoted key) (moreText ms)) (ms.findSome? (Member.hit key)) := by
  induction ms with
  | nil =>
      have hnone : Search.behind (quoted key) ([closeBrace] ++ []) = none :=
        behind_plain (by decide) []
      exact hnone
  | cons m ms ih =>
      have htext : moreText (m :: ms) = [comma] ++ (m.text ++ moreText ms) := by simp [moreText]
      rw [htext, behind_plain (by decide), List.findSome?_cons]
      have hmember := found_member hkey m (follows_moreText ms) ih
      cases hhit : m.hit key <;> simpa [hhit] using hmember

theorem object_text_cons (m : Member) (ms : List Member) (pad : Ws) :
    (Object.mk (m :: ms) pad).text = [openBrace] ++ (m.text ++ moreText ms) := by
  simp [Object.text, listed, moreText]

theorem found_object {name : String} (hkey : FieldName (ascii name)) (o : Object) :
    Found (Search.behind (quoted (ascii name)) o.text) (o.hit name) := by
  obtain ⟨members, pad⟩ := o
  cases members with
  | nil =>
      have hquote : quote ∉ openBrace :: (pad.bytes ++ [closeBrace]) := by
        have hpad := (plain_ws pad).quote_notMem
        simp [hpad, show quote ≠ openBrace by decide, show quote ≠ closeBrace by decide]
      have hnone : Search.behind (quoted (ascii name))
          (openBrace :: (pad.bytes ++ [closeBrace]) ++ []) = none := behind_plain hquote []
      rwa [List.append_nil] at hnone
  | cons m ms =>
      rw [object_text_cons, behind_plain (by decide), Object.hit, List.findSome?_cons]
      have hmember := found_member hkey m (follows_moreText ms) (found_more hkey ms)
      cases hhit : m.hit (ascii name) <;> simpa [hhit] using hmember

theorem isGap_ws {w : Ws} {c : UInt8} (hc : c ∈ w.bytes) : isGap c = true := by
  rcases w.space c hc with rfl | rfl | rfl | rfl <;> decide

theorem isGap_follows (h : Follows rest) : ∀ c ∈ rest.head?, isGap c = false := by
  intro c hc
  rcases h with h | h
  all_goals
    rw [h] at hc
    cases hc
    decide

theorem isDigit_ne_gap {c : UInt8} (hc : isDigit c = true) : isGap c = false := by
  cases hgap : isGap c with
  | false => rfl
  | true =>
      have hcases : c = 0x20 ∨ c = 0x09 ∨ c = colon ∨ c = 0x0D ∨ c = 0x0A := of_decide_eq_true hgap
      rcases hcases with rfl | rfl | rfl | rfl | rfl <;> exact absurd hc (by decide)

theorem isGap_value (v : Value) (rest : Bytes) : ∀ c ∈ (v.text ++ rest).head?, isGap c = false := by
  cases v with
  | num n =>
      obtain ⟨d, ds, hd⟩ := List.exists_cons_of_ne_nil n.int.nonempty
      have hdigit := n.int.digits d (hd ▸ List.mem_cons_self)
      intro c hc
      rw [Value.text, Number.text, hd] at hc
      cases hneg : n.neg with
      | true =>
          rw [hneg] at hc
          cases hc
          decide
      | false =>
          rw [hneg] at hc
          cases hc
          exact isDigit_ne_gap hdigit
  | _ =>
      rintro c ⟨⟩
      decide

/-- Where the scan for a name leaves the readers. -/
def Reached (text : Option Bytes) : Option Hit → Prop
  | none => text = none
  | some (.value v) => ∃ (w : Ws) (rest : Bytes), Follows rest ∧ text = some (v.text ++ (w.bytes ++ rest))
  | some .stray => ∃ rest, Follows rest ∧ text = some rest

theorem jsonFindKey_object {name : String} (hkey : FieldName (ascii name)) (o : Object) :
    Reached (jsonFindKey o.text (ascii name)) (o.hit name) := by
  have hfound := found_object hkey o
  unfold jsonFindKey
  cases hhit : o.hit name with
  | none =>
      rw [hhit] at hfound
      rw [show Search.behind _ _ = none from hfound]
      rfl
  | some hit =>
      rw [hhit] at hfound
      cases hit with
      | value v =>
          obtain ⟨w₁, w₂, w₃, rest, hrest, htext⟩ := hfound
          have hdrop : (w₁.bytes ++ colon :: (w₂.bytes ++ v.text ++ (w₃.bytes ++ rest))).dropWhile isGap =
              v.text ++ (w₃.bytes ++ rest) := by
            rw [List.append_assoc, List.append_cons, ← List.append_assoc]
            refine dropWhile_append ?_ (isGap_value v _)
            intro c hc
            simp only [List.mem_append, List.mem_singleton] at hc
            rcases hc with (hc | rfl) | hc
            · exact isGap_ws hc
            · decide
            · exact isGap_ws hc
          have hne : v.text ++ (w₃.bytes ++ rest) ≠ [] := by
            intro hnil
            rcases hrest with h | h <;> simp_all
          rw [htext]
          dsimp only
          rw [hdrop, if_neg hne]
          exact ⟨w₃, rest, hrest, rfl⟩
      | stray =>
          obtain ⟨w, rest, hrest, htext⟩ := hfound
          have hdrop : (w.bytes ++ rest).dropWhile isGap = rest :=
            dropWhile_append (fun c hc => isGap_ws hc) (isGap_follows hrest)
          have hne : rest ≠ [] := by
            rintro rfl
            rcases hrest with h | h <;> cases h
          rw [htext]
          dsimp only
          rw [hdrop, if_neg hne]
          exact ⟨rest, hrest, rfl⟩

end Members

end UnicornSuite.News
