import UnicornSuite.CdfLexical
import Mathlib.Data.List.TakeWhile

/-! What `cdf_attr_get` reads of a tag. It finds the attribute of a name if nothing in the attributes
before it is taken for it, and if the tag is not cut before it ends. -/

namespace UnicornSuite.Cdf

open CText

/-! ### The start of an attribute -/

theorem attrHere_cons (c d : UInt8) (p name : Bytes) :
    attrHere (d :: name) (c :: p) = if upper c = upper d then attrHere name p else none := by
  by_cases hcd : upper c = upper d <;> simp [attrHere, startsWith_cons, hcd]

@[simp] theorem attrHere_nil_right (d : UInt8) (name : Bytes) : attrHere (d :: name) [] = none := by
  simp [attrHere]

theorem attrHere_nil_eq_none (p : Bytes) :
    attrHere [] p = none ↔
      ¬ ((∀ c ∈ p.head?, isWhite c ∨ c = equals) ∧ p.find? (!isWhite ·) = some equals) := by
  rw [List.find?_not_eq_head?_dropWhile, attrHere, List.length_nil, List.drop_zero]
  by_cases hhead : ∀ c ∈ p.head?, isWhite c ∨ c = equals
  · rw [if_pos ⟨startsWith_nil p, hhead⟩]
    split
    · rename_i heq
      refine iff_of_false nofun (not_not.mpr ⟨hhead, ?_⟩)
      rw [heq]
      rfl
    · rename_i hne
      refine iff_of_true rfl fun ⟨_, heq⟩ => ?_
      obtain ⟨q, hq⟩ := List.head?_eq_some_iff.mp heq
      exact hne q hq
  · rw [if_neg fun h => hhead h.2]
    exact iff_of_true rfl fun h => hhead h.1

/-- The name of an attribute that is asked for: upper-case letters, and no kind starts with the first. -/
structure AttrName (name : Bytes) : Prop where
  letters : ∀ c ∈ name, 0x41 ≤ c ∧ c ≤ 0x5A
  nonempty : name ≠ []
  noKind : ∀ k : Kind, k.name.head? ≠ name.head?

theorem attrName_href : AttrName (ascii "HREF") where
  letters := by decide +kernel
  nonempty := by decide
  noKind := by rintro (_ | _ | _ | _ | _) <;> decide

theorem attrName_value : AttrName (ascii "VALUE") where
  letters := by decide +kernel
  nonempty := by decide
  noKind := by rintro (_ | _ | _ | _ | _) <;> decide

theorem upper_of_letter {c : UInt8} (hc : 0x41 ≤ c ∧ c ≤ 0x5A) : upper c = c := by
  unfold upper
  rw [if_neg]
  rintro ⟨hle, -⟩
  exact absurd (UInt8.le_trans hle hc.2) (by decide)

theorem AttrName.map_upper {name : Bytes} (hname : ∀ c ∈ name, 0x41 ≤ c ∧ c ≤ 0x5A) :
    name.map upper = name := by
  rw [List.map_congr_left fun c hc => upper_of_letter (hname c hc), List.map_id']

theorem isAttrStart_of_upper {c : UInt8} (hc : 0x41 ≤ upper c ∧ upper c ≤ 0x5A) :
    isAttrStart c = true := by
  simp only [isAttrStart, decide_eq_true_eq]
  by_cases hlower : 0x61 ≤ c ∧ c ≤ 0x7A
  · exact Or.inr (Or.inl hlower)
  · rw [upper, if_neg hlower] at hc
    exact Or.inl hc

theorem upper_quote (single : Bool) : upper (quoteByte single) = quoteByte single := by
  cases single <;> decide

theorem isWhite_quote (single : Bool) : isWhite (quoteByte single) = false := by
  cases single <;> decide

theorem quote_not_letter (single : Bool) : ¬ (0x41 ≤ quoteByte single ∧ quoteByte single ≤ 0x5A) := by
  cases single <;> decide

/-- A quote in the text is the end of what can be taken for the start of an attribute. -/
theorem attrHere_append {name : Bytes} (hname : ∀ c ∈ name, 0x41 ≤ c ∧ c ≤ 0x5A) (single : Bool)
    (p t : Bytes) (h : attrHere name (p ++ [quoteByte single]) = none) :
    attrHere name (p ++ quoteByte single :: t) = none := by
  induction p generalizing name with
  | nil =>
      cases name with
      | nil =>
          rw [attrHere_nil_eq_none]
          rintro ⟨hhead, -⟩
          rcases hhead _ rfl with hwhite | hequals
          · rw [isWhite_quote] at hwhite
            cases hwhite
          · cases single <;> cases hequals
      | cons d name =>
          rw [List.nil_append, attrHere_cons, if_neg]
          intro heq
          have hd := hname d List.mem_cons_self
          rw [upper_quote, upper_of_letter hd] at heq
          exact quote_not_letter single (heq ▸ hd)
  | cons c p ih =>
      cases name with
      | nil =>
          rw [attrHere_nil_eq_none] at h ⊢
          have hfind (s : Bytes) : (c :: p ++ quoteByte single :: s).find? (!isWhite ·) =
              ((c :: p).find? (!isWhite ·)).or (some (quoteByte single)) := by
            rw [List.find?_append, List.find?_cons_of_pos (a := quoteByte single) (by simp [isWhite_quote])]
          rwa [hfind] at h ⊢
      | cons d name =>
          rw [List.cons_append, attrHere_cons] at h ⊢
          split at h
          · rename_i heq
            rw [if_pos heq]
            exact ih (fun e he => hname e (List.mem_cons_of_mem d he)) h
          · rename_i hne
            rw [if_neg hne]

theorem attrHere_prefix {name n : Bytes} (h : n.map upper = name.map upper) (p : Bytes) :
    attrHere name (n ++ p) = attrHere [] p := by
  induction n generalizing name with
  | nil =>
      cases name with
      | nil => rfl
      | cons d name => cases h
  | cons c n ih =>
      cases name with
      | nil => cases h
      | cons d name =>
          rw [List.map_cons, List.map_cons, List.cons.injEq] at h
          rw [List.cons_append, attrHere_cons, if_pos h.1, ih h.2]

/-- What stands behind the name of an attribute gives its value. -/
theorem attrHere_value {before after v : Bytes} (hbefore : ∀ c ∈ before, isWhite c = true)
    (hafter : ∀ c ∈ after, isWhite c = true) {single : Bool} (hv : quoteByte single ∉ v) (t : Bytes) :
    attrHere [] (before ++ equals :: (after ++ quoteByte single :: (v ++ quoteByte single :: t))) =
      some v := by
  have hhead : ∀ c ∈ (before ++ equals :: (after ++ quoteByte single :: (v ++ quoteByte single :: t))).head?,
      isWhite c ∨ c = equals := by
    intro c hc
    cases before with
    | nil =>
        cases hc
        exact Or.inr rfl
    | cons d before =>
        cases hc
        exact Or.inl (hbefore c List.mem_cons_self)
  have hquotes : quoteByte single = doubleQuote ∨ quoteByte single = singleQuote := by
    cases single
    · exact Or.inl rfl
    · exact Or.inr rfl
  have hequals : isWhite equals = false := by decide
  rw [attrHere, startsWith_nil, List.length_nil, List.drop_zero, if_pos ⟨rfl, hhead⟩,
    dropWhile_append hbefore (by simp [hequals])]
  simp only [equals]
  rw [dropWhile_append hafter (by simp [isWhite_quote]), attrValue, if_pos hquotes,
    takeWhile_append (ne_of_notMem hv) (by simp)]

/-! ### The scan -/

section Scan

variable {name : Bytes}

@[simp] theorem attrScan_nil (b : Bool) : attrScan name b [] = none := by
  cases b <;> rfl

/-- The rest of a word is passed over. -/
theorem attrScan_rest (c : UInt8) (s : Bytes) :
    attrScan name true (c :: s) = attrScan name (!isWhite c) s := rfl

theorem attrScan_cons (c : UInt8) (s : Bytes) : attrScan name false (c :: s) =
    if isAttrStart c then (attrHere name (c :: s)).or (attrScan name true s)
    else attrScan name false s := by
  change (if isAttrStart c then _ else _) = _
  cases attrHere name (c :: s) <;> rfl

theorem attrScan_white {w : Bytes} (hw : ∀ c ∈ w, isWhite c = true) (t : Bytes) :
    attrScan name false (w ++ t) = attrScan name false t := by
  induction w with
  | nil => rfl
  | cons c w ih =>
      have hc := hw c List.mem_cons_self
      have hstart : isAttrStart c = false := by
        simp only [isWhite, decide_eq_true_eq] at hc
        rcases hc with rfl | rfl | rfl | rfl <;> decide
      rw [List.cons_append, attrScan_cons, if_neg (by simp [hstart])]
      exact ih fun d hd => hw d (List.mem_cons_of_mem c hd)

theorem attrScan_word {w : Bytes} (hw : ∀ c ∈ w, isWhite c = false) (t : Bytes) :
    attrScan name true (w ++ t) = attrScan name true t := by
  induction w with
  | nil => rfl
  | cons c w ih =>
      rw [List.cons_append, attrScan_rest, hw c List.mem_cons_self, Bool.not_false]
      exact ih fun d hd => hw d (List.mem_cons_of_mem c hd)

/-- What ends a word, or is a slash at the end of the tag, is read alike in a word and outside of one. -/
theorem attrScan_end {t : Bytes} (ht : (∀ c ∈ t.head?, isWhite c = true) ∨ t = [slash]) :
    attrScan name true t = attrScan name false t := by
  rcases ht with ht | rfl
  · cases t with
    | nil => rfl
    | cons c t =>
        have hc := ht c rfl
        have hskip : attrScan name false (c :: t) = attrScan name false t :=
          attrScan_white (w := [c]) (by simpa using hc) t
        rw [hskip, attrScan_rest, hc, Bool.not_true]
  · rfl

/-- Where nothing is found up to a quote, the scan goes on behind it. -/
theorem attrScan_append (hname : AttrName name) (single : Bool) {t : Bytes}
    (ht : attrScan name true t = attrScan name false t) {b : Bool} {w : Bytes}
    (h : attrScan name b (w ++ [quoteByte single]) = none) :
    attrScan name b (w ++ quoteByte single :: t) = attrScan name false t := by
  induction w generalizing b with
  | nil =>
      cases b with
      | false =>
          have hstart : isAttrStart (quoteByte single) = false := by cases single <;> decide
          rw [List.nil_append, attrScan_cons, if_neg (by simp [hstart])]
      | true => rw [List.nil_append, attrScan_rest, isWhite_quote, Bool.not_false, ht]
  | cons c w ih =>
      cases b with
      | false =>
          rw [List.cons_append, attrScan_cons] at h ⊢
          split at h
          · rename_i hstart
            obtain ⟨hnone, hrest⟩ := Option.or_eq_none_iff.mp h
            rw [if_pos hstart, ← List.cons_append, attrHere_append hname.letters single (c :: w) t hnone,
              Option.none_or]
            exact ih hrest
          · rename_i hstart
            rw [if_neg hstart]
            exact ih h
      | true =>
          rw [List.cons_append, attrScan_rest] at h ⊢
          exact ih h

/-- A word that starts with a letter is looked at where it starts. -/
theorem attrScan_start {n : Bytes} (hn : n ≠ []) (hstart : ∀ c ∈ n.head?, isAttrStart c = true)
    (t : Bytes) :
    attrScan name false (n ++ t) = (attrHere name (n ++ t)).or (attrScan name true (n.tail ++ t)) := by
  cases n with
  | nil => exact absurd rfl hn
  | cons c n =>
      rw [List.cons_append, attrScan_cons, if_pos (hstart c rfl), List.tail_cons]

theorem isAttrStart_head {n u : Bytes} (hupper : n.map upper = u)
    (hu : ∀ c ∈ u, 0x41 ≤ c ∧ c ≤ 0x5A) : ∀ c ∈ n.head?, isAttrStart c = true := by
  intro c hc
  refine isAttrStart_of_upper (hu _ ?_)
  rw [← hupper]
  exact List.mem_map_of_mem (List.mem_of_head? hc)

/-- The name of a tag of a kind is passed over. -/
theorem attrScan_tagName (hname : AttrName name) {n : Name} {k : Kind} (hn : n.kind = some k)
    {t : Bytes} (ht : attrScan name true t = attrScan name false t) :
    attrScan name false (n.bytes ++ t) = attrScan name false t := by
  have hupper : n.bytes.map upper = k.name := by
    simpa [Name.isKind] using (n.isKind_iff k).mpr hn
  have hletters : ∀ c ∈ k.name, 0x41 ≤ c ∧ c ≤ 0x5A := by
    rcases k with _ | _ | _ | _ | _ <;> decide +kernel
  have hnone : attrHere name (n.bytes ++ t) = none := by
    obtain ⟨c, bytes, hbytes⟩ := List.exists_cons_of_ne_nil n.nonempty
    obtain ⟨d, name', rfl⟩ := List.exists_cons_of_ne_nil hname.nonempty
    rw [hbytes, List.cons_append, attrHere_cons, if_neg]
    intro heq
    refine hname.noKind k ?_
    rw [← hupper, hbytes, List.map_cons, List.head?_cons, heq,
      upper_of_letter (hname.letters d List.mem_cons_self), List.head?_cons]
  rw [attrScan_start n.nonempty (isAttrStart_head hupper hletters), hnone, Option.none_or,
    attrScan_word (fun c hc => n.no_white c (List.mem_of_mem_tail hc)), ht]

/-! ### The attributes of a tag -/

/-- The attribute `name`, if it is there, is found: nothing before it is taken for it, and no closing
bracket before its end cuts the tag. -/
def ReadsAttr (name : Bytes) : List Attr → Prop
  | [] => True
  | a :: as =>
      if a.isNamed name then greater ∉ a.text
      else attrGet (a.text.takeWhile (· ≠ greater)) name = none ∧
        if greater ∈ a.text then ∀ b ∈ as, ¬ b.isNamed name else ReadsAttr name as

instance ReadsAttr.decidable (name : Bytes) : ∀ as, Decidable (ReadsAttr name as)
  | [] => isTrue trivial
  | a :: as =>
      have : Decidable (ReadsAttr name as) := decidable name as
      inferInstanceAs (Decidable (if a.isNamed name then greater ∉ a.text
        else attrGet (a.text.takeWhile (· ≠ greater)) name = none ∧
          if greater ∈ a.text then ∀ b ∈ as, ¬ b.isNamed name else ReadsAttr name as))

theorem attrScan_own (hname : AttrName name) {a : Attr} (ha : a.isNamed name) (t : Bytes) :
    attrScan name false (a.text ++ t) = some (CharData.bytes a.value) := by
  have hupper : a.name.bytes.map upper = name := by simpa [Attr.isNamed] using ha
  have hsame : a.name.bytes.map upper = name.map upper := by
    rw [hupper, AttrName.map_upper hname.letters]
  have htext : a.text ++ t = a.lead.bytes ++ (a.name.bytes ++ (a.beforeEquals.bytes ++
      equals :: (a.afterEquals.bytes ++ quoteByte a.single ::
        (CharData.bytes a.value ++ quoteByte a.single :: t)))) := by
    simp [Attr.text]
  rw [htext, attrScan_white a.lead.white,
    attrScan_start a.name.nonempty (isAttrStart_head hupper hname.letters), attrHere_prefix hsame,
    attrHere_value a.beforeEquals.white a.afterEquals.white a.inQuotes, Option.some_or]

theorem attrScan_other (hname : AttrName name) {a : Attr} (ha : attrGet a.text name = none) {t : Bytes}
    (ht : attrScan name true t = attrScan name false t) :
    attrScan name false (a.text ++ t) = attrScan name false t := by
  have htext (s : Bytes) : a.text ++ s = (a.lead.bytes ++ a.name.bytes ++ a.beforeEquals.bytes ++
      equals :: (a.afterEquals.bytes ++ quoteByte a.single :: CharData.bytes a.value)) ++
        quoteByte a.single :: s := by
    simp [Attr.text]
  rw [htext]
  refine attrScan_append hname a.single ht ?_
  rw [← htext [], List.append_nil]
  exact ha

theorem attrsText_cons (a : Attr) (as : List Attr) (trail : White) (slashed : Bool) :
    attrsText (a :: as) trail slashed = a.text ++ attrsText as trail slashed := by
  simp [attrsText]

theorem White.greater_notMem (w : White) : greater ∉ w.bytes := fun hmem => by cases w.white _ hmem

theorem head?_attrsText (attrs : List Attr) (trail : White) (slashed : Bool) :
    (∀ c ∈ (attrsText attrs trail slashed).head?, isWhite c = true) ∨
      attrsText attrs trail slashed = [slash] := by
  have hwhite (w : White) (hw : w.bytes ≠ []) (s : Bytes) : ∀ c ∈ (w.bytes ++ s).head?, isWhite c = true := by
    intro c hc
    rw [List.head?_append_of_ne_nil _ hw] at hc
    exact w.white c (List.mem_of_head? hc)
  cases attrs with
  | nil =>
      rw [attrsText, List.flatMap_nil, List.nil_append]
      by_cases htrail : trail.bytes = []
      · rw [htrail, List.nil_append]
        cases slashed
        · exact Or.inl nofun
        · exact Or.inr rfl
      · exact Or.inl (hwhite trail htrail _)
  | cons a as =>
      refine Or.inl ?_
      rw [attrsText_cons, Attr.text]
      simp only [List.append_assoc]
      exact hwhite a.lead a.apart _

theorem attrScan_attrsText (attrs : List Attr) (trail : White) (slashed : Bool) :
    attrScan name true ((attrsText attrs trail slashed).takeWhile (· ≠ greater)) =
      attrScan name false ((attrsText attrs trail slashed).takeWhile (· ≠ greater)) := by
  refine attrScan_end ?_
  rcases head?_attrsText attrs trail slashed with hhead | hslash
  · refine Or.inl fun c hc => hhead c ?_
    rw [List.head?_takeWhile] at hc
    exact (Option.filter_eq_some_iff.mp hc).1
  · rw [hslash]
    exact Or.inr rfl

theorem attrScan_attrs (hname : AttrName name) {attrs : List Attr} (h : ReadsAttr name attrs)
    (trail : White) (slashed : Bool) :
    attrScan name false ((attrsText attrs trail slashed).takeWhile (· ≠ greater)) =
      (attrs.find? (Attr.isNamed name)).map fun a => CharData.bytes a.value := by
  induction attrs with
  | nil =>
      have hend : greater ∉ trail.bytes ++ if slashed then [slash] else [] := by
        rw [List.mem_append, not_or]
        refine ⟨trail.greater_notMem, ?_⟩
        cases slashed <;> decide
      rw [attrsText, List.flatMap_nil, List.nil_append, takeWhile_notMem hend,
        attrScan_white trail.white]
      cases slashed <;> rfl
  | cons a as ih =>
      rw [attrsText_cons]
      unfold ReadsAttr at h
      split at h
      · rename_i hown
        rw [List.takeWhile_append_of_pos (ne_of_notMem h), attrScan_own hname hown,
          List.find?_cons_of_pos hown, Option.map_some]
      · rename_i hother
        obtain ⟨hnone, hrest⟩ := h
        rw [List.find?_cons_of_neg hother]
        split at hrest
        · rename_i hcut
          obtain ⟨u, v, htext, hu⟩ := List.eq_append_cons_of_mem hcut
          rw [htext, takeWhile_append (ne_of_notMem hu) (by simp)] at hnone
          rw [htext, List.append_assoc, takeWhile_append (ne_of_notMem hu) (by simp),
            List.find?_eq_none.mpr fun b hb => hrest b hb, Option.map_none]
          exact hnone
        · rename_i hwhole
          rw [takeWhile_notMem hwhole] at hnone
          rw [List.takeWhile_append_of_pos (ne_of_notMem hwhole),
            attrScan_other hname hnone (attrScan_attrsText as trail slashed)]
          exact ih hrest

theorem attrGet_tag (hname : AttrName name) {t : Tag} {k : Kind} (hkind : t.name.kind = some k)
    (h : ReadsAttr name t.attrs) (slashed : Bool) :
    attrGet ((t.text slashed).takeWhile (· ≠ greater)) name =
      (t.attrs.find? (Attr.isNamed name)).map fun a => CharData.bytes a.value := by
  rw [Tag.text, List.takeWhile_append_of_pos (ne_of_notMem t.name.greater_notMem), attrGet,
    attrScan_tagName hname hkind (attrScan_attrsText _ _ _), attrScan_attrs hname h]

end Scan

end UnicornSuite.Cdf
