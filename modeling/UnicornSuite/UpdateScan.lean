import UnicornSuite.NewsScan
import UnicornSuite.UpdateDocument

/-! What `json_value_for` finds in a manifest: of the members at any depth the first whose key is the
name, or ends with an escaped quote and the name. -/

namespace UnicornSuite.Manifest

open CText News
open Update (jsonValueFor isJsonSpace)

/-- A name without a quote, a backslash, a comma or a colon. -/
structure MemberName where
  text : String
  plain : ∀ c ∈ ascii text, c ≠ quote ∧ c ≠ backslash ∧ c ≠ comma ∧ c ≠ colon

def MemberName.bytes (name : MemberName) : Bytes := ascii name.text

/-- Behind the colon that a text starts with. -/
def valueText (r : Bytes) : Option Bytes :=
  let q := r.dropWhile isJsonSpace
  if q.head? = some colon then some (q.tail.dropWhile isJsonSpace) else none

/-- Before the next string stands a comma or a colon. -/
def Separated (r : Bytes) : Prop := ∀ a b, r = a ++ quote :: b → comma ∈ a ∨ colon ∈ a

/-- What stands behind a value: no colon, and no string at once. -/
structure Behind (r : Bytes) : Prop where
  noColon : valueText r = none
  separated : Separated r

section Text

variable {r p u t : Bytes} (name : MemberName)

theorem Separated.append (hp : quote ∉ p) (h : Separated r) : Separated (p ++ r) := by
  intro a b heq
  rcases List.append_eq_append_iff.mp heq with ⟨c, rfl, hr⟩ | ⟨c, rfl, hb⟩
  · exact (h c b hr).imp (List.mem_append_right p) (List.mem_append_right p)
  · cases c with
    | nil => exact absurd (h [] b hb.symm) (by simp)
    | cons d c =>
        obtain ⟨rfl, _⟩ := List.cons.inj hb
        exact absurd (List.mem_append_right a List.mem_cons_self) hp

theorem Separated.of_notMem (h : quote ∉ r) : Separated r := by
  rintro a b rfl
  exact absurd (List.mem_append_right a List.mem_cons_self) h

theorem separated_cons {c : UInt8} (hc : c = comma ∨ c = colon) (r : Bytes) :
    Separated (c :: r) := by
  intro a b heq
  cases a with
  | nil => rcases hc with rfl | rfl <;> exact absurd (List.cons.inj heq).1 (by decide)
  | cons d a =>
      obtain ⟨rfl, _⟩ := List.cons.inj heq
      rcases hc with rfl | rfl
      · exact Or.inl List.mem_cons_self
      · exact Or.inr List.mem_cons_self

/-- No name stands between two strings. -/
theorem Separated.no_name (h : Separated r) : ¬name.bytes ++ [quote] <+: r := by
  rintro ⟨b, rfl⟩
  rcases h name.bytes b (by simp) with hmem | hmem
  · exact (name.plain _ hmem).2.2.1 rfl
  · exact (name.plain _ hmem).2.2.2 rfl

theorem MemberName.quote_notMem : quote ∉ name.bytes := fun hmem => (name.plain _ hmem).1 rfl

theorem MemberName.backslash_notMem : backslash ∉ name.bytes := fun hmem =>
  (name.plain _ hmem).2.1 rfl

theorem valueText_ws {p : Bytes} (hp : ∀ c ∈ p, isJsonSpace c = true) (r : Bytes) :
    valueText (p ++ r) = valueText r := by
  unfold valueText
  rw [List.dropWhile_append_of_pos hp]

theorem isJsonSpace_ws (w : Ws) : ∀ c ∈ w.bytes, isJsonSpace c = true := by
  intro c hc
  rcases w.space c hc with rfl | rfl | rfl | rfl <;> rfl

theorem Behind.ws (h : Behind r) (w : Ws) : Behind (w.bytes ++ r) where
  noColon := (valueText_ws (isJsonSpace_ws w) r).trans h.noColon
  separated := h.separated.append (plain_ws w).quote_notMem

theorem behind_comma (r : Bytes) : Behind (comma :: r) where
  noColon := rfl
  separated := separated_cons (Or.inl rfl) r

theorem Behind.bracket (h : Behind r) : Behind (closeBracket :: r) where
  noColon := rfl
  separated := Separated.append (show quote ∉ [closeBracket] by decide) h.separated

theorem Behind.brace (h : Behind r) : Behind (closeBrace :: r) where
  noColon := rfl
  separated := Separated.append (show quote ∉ [closeBrace] by decide) h.separated

theorem behind_ws (w : Ws) : Behind w.bytes where
  noColon := by
    unfold valueText
    rw [List.dropWhile_eq_nil_iff.mpr (isJsonSpace_ws w)]
    rfl
  separated := Separated.of_notMem (plain_ws w).quote_notMem

end Text

/-! ### The scan -/

section Scan

variable {r p u : Bytes} (name : MemberName)

theorem jsonValueFor_cons (c : UInt8) (p : Bytes) :
    jsonValueFor name.bytes (c :: p) =
      if c = quote ∧ name.bytes ++ [quote] <+: p then
        (valueText (p.drop (name.bytes.length + 1))).or (jsonValueFor name.bytes p)
      else jsonValueFor name.bytes p := by
  rw [jsonValueFor, valueText]
  dsimp only
  split_ifs <;> simp_all [Update.quote, Update.colon, quote, colon]

/-- Where there is no quote there is no name. -/
theorem jsonValueFor_plain (hp : quote ∉ p) :
    jsonValueFor name.bytes (p ++ r) = jsonValueFor name.bytes r := by
  induction p with
  | nil => rfl
  | cons c p ih =>
      rw [List.mem_cons, not_or] at hp
      rw [List.cons_append, jsonValueFor_cons, if_neg fun h => hp.1 h.1.symm, ih hp.2]

/-- In a string the name is found at its end or not at all. -/
theorem jsonValueFor_inside (hu : Inside u) :
    jsonValueFor name.bytes (u ++ quote :: r) =
      if quote :: name.bytes <:+ u then
        (valueText r).or (jsonValueFor name.bytes (quote :: r))
      else jsonValueFor name.bytes (quote :: r) := by
  induction u with
  | nil => rw [if_neg (by simp), List.nil_append]
  | cons c u ih =>
      rw [List.cons_append, jsonValueFor_cons]
      by_cases hmatch : c = quote ∧ name.bytes ++ [quote] <+: u ++ quote :: r
      · obtain ⟨rfl, hpre⟩ := hmatch
        have hname := (quoted_prefix_iff name.quote_notMem name.backslash_notMem hu.escaped).mp hpre
        subst hname
        have hdrop : (name.bytes ++ quote :: r).drop (name.bytes.length + 1) = r := by
          rw [List.append_cons, List.drop_left' (by simp)]
        rw [if_pos ⟨rfl, hpre⟩, if_pos (List.suffix_refl _), hdrop,
          jsonValueFor_plain name name.quote_notMem]
      · have hne : quote :: name.bytes ≠ c :: u := by
          intro heq
          obtain ⟨hc, rfl⟩ := List.cons.inj heq
          exact hmatch ⟨hc.symm, r, by simp⟩
        rw [if_neg hmatch, ih hu.tail]
        simp only [List.suffix_cons_iff, hne, false_or]

/-- A string is taken for a key where it names and a colon follows. -/
theorem jsonValueFor_string (s : JsonString) (hr : Separated r) :
    jsonValueFor name.bytes ((Value.str s).text ++ r) =
      if Names name.bytes s then (valueText r).or (jsonValueFor name.bytes r)
      else jsonValueFor name.bytes r := by
  have hclose : jsonValueFor name.bytes (quote :: r) = jsonValueFor name.bytes r := by
    rw [jsonValueFor_cons, if_neg fun h => hr.no_name name h.2]
  have htext : (Value.str s).text ++ r = quote :: s.text ++ quote :: r := by
    simp [Value.text]
  rw [htext, jsonValueFor_inside name (Inside.of_escaped (escaped_text s)), hclose]
  rfl

/-! ### Values and members -/

/-- A byte that starts a value: white space and a colon do not. -/
theorem value_head (v : Json) (r : Bytes) : ∀ c ∈ (v.text ++ r).head?, isJsonSpace c = false := by
  have hspace : ∀ c, isGap c = false → isJsonSpace c = false := by
    intro c hc
    simp only [isGap, isJsonSpace, decide_eq_false_iff_not] at hc ⊢
    tauto
  cases v with
  | num n => exact fun c hc => hspace c (isGap_value (.num n) r c hc)
  | _ =>
      rintro c ⟨⟩
      decide

/-- The place of the first member that names. -/
def found (name : MemberName) (es : List Entry) : Option Bytes :=
  (es.find? fun e => Names name.bytes e.key).map Entry.place

theorem found_append (es es' : List Entry) :
    found name (es ++ es') = (found name es).or (found name es') := by
  rw [found, List.find?_append, Option.map_or]
  rfl

/-- At a key the scan finds the member, or goes on from the value. -/
theorem jsonValueFor_entry (w₁ w₂ : Ws) (e : Entry) :
    jsonValueFor name.bytes ((Value.str e.key).text ++ (w₁.bytes ++ colon :: (w₂.bytes ++ e.place))) =
      (found name [e]).or (jsonValueFor name.bytes e.place) := by
  have hsep : Separated (w₁.bytes ++ colon :: (w₂.bytes ++ e.place)) :=
    (separated_cons (Or.inr rfl) _).append (plain_ws w₁).quote_notMem
  have hvalue : valueText (w₁.bytes ++ colon :: (w₂.bytes ++ e.place)) = some e.place := by
    have hdrop : (w₂.bytes ++ e.place).dropWhile isJsonSpace = e.place :=
      dropWhile_append (isJsonSpace_ws w₂) (value_head e.value e.behind)
    rw [valueText_ws (isJsonSpace_ws w₁), valueText, List.dropWhile_cons_of_neg (by decide)]
    exact congrArg some hdrop
  have hcolon : quote ∉ colon :: w₂.bytes := by
    simp [(plain_ws w₂).quote_notMem, show quote ≠ colon by decide]
  have hrest : jsonValueFor name.bytes (w₁.bytes ++ colon :: (w₂.bytes ++ e.place)) =
      jsonValueFor name.bytes e.place := by
    rw [jsonValueFor_plain name (plain_ws w₁).quote_notMem, ← List.cons_append,
      jsonValueFor_plain name hcolon]
  rw [jsonValueFor_string name e.key hsep, hvalue, hrest, found]
  by_cases hnames : Names name.bytes e.key <;> simp [hnames]

theorem behind_elems {r : Bytes} (hr : Behind r) : ∀ es : Elems, Behind (es.text [comma] ++ r)
  | .nil => hr
  | .cons _ _ _ _ => by
      rw [Elems.text]
      simp only [List.append_assoc]
      exact behind_comma _

theorem behind_members {r : Bytes} (hr : Behind r) : ∀ ms : Members, Behind (ms.text [comma] ++ r)
  | .nil => hr
  | .cons _ _ _ _ _ _ _ => by
      rw [Members.text]
      simp only [List.append_assoc]
      exact behind_comma _

mutual

/-- Over a value the scan finds the first member in it that names, or goes on behind it. -/
theorem scan_value : ∀ (v : Json) (r : Bytes), Behind r →
    jsonValueFor name.bytes (v.text ++ r) = (found name (v.entries r)).or (jsonValueFor name.bytes r)
  | .str s, r, hr => by
      rw [Json.text, jsonValueFor_string name s hr.separated, hr.noColon, Option.none_or, ite_self]
      rfl
  | .num n, r, _ => jsonValueFor_plain name (plain_number n).quote_notMem
  | .true, r, _ => jsonValueFor_plain name (by decide)
  | .false, r, _ => jsonValueFor_plain name (by decide)
  | .null, r, _ => jsonValueFor_plain name (by decide)
  | .arr pad elems, r, hr => by
      have hopen : quote ∉ openBracket :: pad.bytes := by
        simp [(plain_ws pad).quote_notMem, show quote ≠ openBracket by decide]
      have htext : (Json.arr pad elems).text ++ r =
          (openBracket :: pad.bytes) ++ (elems.text [] ++ closeBracket :: r) := by simp [Json.text]
      have hclose : jsonValueFor name.bytes (closeBracket :: r) = jsonValueFor name.bytes r :=
        jsonValueFor_plain name (show quote ∉ [closeBracket] by decide)
      rw [htext, jsonValueFor_plain name hopen,
        scan_elems elems [] (closeBracket :: r) (by simp) hr.bracket, hclose]
      rfl
  | .obj pad members, r, hr => by
      have hopen : quote ∉ openBrace :: pad.bytes := by
        simp [(plain_ws pad).quote_notMem, show quote ≠ openBrace by decide]
      have htext : (Json.obj pad members).text ++ r =
          (openBrace :: pad.bytes) ++ (members.text [] ++ closeBrace :: r) := by simp [Json.text]
      have hclose : jsonValueFor name.bytes (closeBrace :: r) = jsonValueFor name.bytes r :=
        jsonValueFor_plain name (show quote ∉ [closeBrace] by decide)
      rw [htext, jsonValueFor_plain name hopen,
        scan_members members [] (closeBrace :: r) (by simp) hr.brace, hclose]
      rfl

theorem scan_elems : ∀ (es : Elems) (sep r : Bytes), quote ∉ sep → Behind r →
    jsonValueFor name.bytes (es.text sep ++ r) =
      (found name (es.entries r)).or (jsonValueFor name.bytes r)
  | .nil, _, _, _, _ => rfl
  | .cons lead value trail more, sep, r, hsep, hr => by
      have htext : (Elems.cons lead value trail more).text sep ++ r =
          sep ++ (lead.bytes ++ (value.text ++ (trail.bytes ++ (more.text [comma] ++ r)))) := by
        simp [Elems.text]
      rw [htext, jsonValueFor_plain name hsep, jsonValueFor_plain name (plain_ws lead).quote_notMem,
        scan_value value _ ((behind_elems hr more).ws trail),
        jsonValueFor_plain name (plain_ws trail).quote_notMem,
        scan_elems more [comma] r (by decide) hr, ← Option.or_assoc, ← found_append]
      rfl

theorem scan_members : ∀ (ms : Members) (sep r : Bytes), quote ∉ sep → Behind r →
    jsonValueFor name.bytes (ms.text sep ++ r) =
      (found name (ms.entries r)).or (jsonValueFor name.bytes r)
  | .nil, _, _, _, _ => rfl
  | .cons lead key beforeColon afterColon value trail more, sep, r, hsep, hr => by
      let e : Entry := ⟨key, value, trail.bytes ++ (more.text [comma] ++ r)⟩
      have htext : (Members.cons lead key beforeColon afterColon value trail more).text sep ++ r =
          sep ++ (lead.bytes ++ ((Value.str e.key).text ++
            (beforeColon.bytes ++ colon :: (afterColon.bytes ++ e.place)))) := by
        simp [Members.text, Entry.place, e]
      have hvalue : jsonValueFor name.bytes e.place =
          (found name (value.entries e.behind ++ more.entries r)).or (jsonValueFor name.bytes r) := by
        rw [Entry.place, scan_value value _ ((behind_members hr more).ws trail),
          jsonValueFor_plain name (plain_ws trail).quote_notMem,
          scan_members more [comma] r (by decide) hr, ← Option.or_assoc, ← found_append]
      rw [htext, jsonValueFor_plain name hsep, jsonValueFor_plain name (plain_ws lead).quote_notMem,
        jsonValueFor_entry name beforeColon afterColon e, hvalue, ← Option.or_assoc, ← found_append]
      rfl

end

/-- `json_value_for` finds the first member of the document, at any depth, that names. -/
theorem jsonValueFor_document (d : Document) :
    jsonValueFor name.bytes d.text = found name d.entries := by
  have hopen : quote ∉ openBrace :: d.pad.bytes := by
    simp [(plain_ws d.pad).quote_notMem, show quote ≠ openBrace by decide]
  have htext : d.text = d.lead.bytes ++
      ((openBrace :: d.pad.bytes) ++ (d.members.text [] ++ closeBrace :: d.trail.bytes)) := by
    simp [Document.text, Json.text]
  have hrest : quote ∉ closeBrace :: d.trail.bytes := by
    simp [(plain_ws d.trail).quote_notMem, show quote ≠ closeBrace by decide]
  have hnone : jsonValueFor name.bytes (closeBrace :: d.trail.bytes) = none := by
    have hplain := jsonValueFor_plain name (r := []) hrest
    rwa [List.append_nil] at hplain
  rw [htext, jsonValueFor_plain name (plain_ws d.lead).quote_notMem, jsonValueFor_plain name hopen,
    scan_members name d.members [] _ (by simp) (behind_ws d.trail).brace, hnone, Option.or_none]
  rfl

end Scan

end UnicornSuite.Manifest
