import UnicornSuite.CdfContent
import UnicornSuite.LibRecords
import UnicornSuite.LibReferences
import Mathlib.Data.List.DropRight

/-! What `cdf_decode_text` makes of a text, against what its references stand for. A reference counts by
its number, however many digits that has; the code looks for the semicolon in 15 bytes and counts in 32
bits. -/

namespace UnicornSuite.Cdf

open CText

/-! ### The text that is meant -/

/-- The number of a character reference, which has `&#` before and a semicolon behind it. -/
def charNumber (e : Bytes) : Option Nat :=
  match e with
  | 0x23 :: c :: s =>
      if c = 0x78 ∨ c = 0x58 then
        if ∀ d ∈ s, (digitOf 16 d).isSome then some (digitsValue 16 0 s) else none
      else if ∀ d ∈ c :: s, (digitOf 10 d).isSome then some (digitsValue 10 0 (c :: s)) else none
  | _ => none

/-- What a reference stands for; names may be in any case. -/
def referenceText (e : Bytes) : Option Bytes :=
  if e.map upper = ascii "AMP" then some [ampersand]
  else if e.map upper = ascii "LT" then some [less]
  else if e.map upper = ascii "GT" then some [greater]
  else if e.map upper = ascii "QUOT" then some [doubleQuote]
  else if e.map upper = ascii "APOS" then some [singleQuote]
  else (charNumber e).bind fun v => if 0 < v ∧ v < 0x10000 then some (utf8 v) else none

/-- The text with its references replaced; every other `&` is left. -/
def replaced : Bytes → Bytes
  | [] => []
  | c :: s =>
      let e := s.takeWhile (· ≠ semicolon)
      if c = ampersand ∧ e.length < s.length then
        match referenceText e with
        | some w => w ++ replaced (s.drop (e.length + 1))
        | none => c :: replaced s
      else c :: replaced s
termination_by s => s.length
decreasing_by
  · simp only [List.length_drop, List.length_cons]
    omega
  · exact Nat.lt_succ_self _
  · exact Nat.lt_succ_self _

def words (s : Bytes) : List Bytes := (s.splitOnP isWhite).filter (· ≠ [])

/-- The words of a text, with one space between them. -/
def normalised (s : Bytes) : Bytes := [0x20].intercalate (words s)

/-- The bytes that `cdf_decode_text` leaves in its buffer, in front of the terminator. -/
def decodeBuffer (src : Bytes) : Bytes := collapse false (trim (decodeEntities src))

/-! ### White space -/

theorem words_white {c : UInt8} (hc : isWhite c = true) (s : Bytes) : words (c :: s) = words s := by
  rw [words, List.splitOnP_cons_eq_if_modifyHead, if_pos hc]
  rfl

theorem words_word {u : Bytes} (hu : ∀ c ∈ u, isWhite c = false) (hne : u ≠ []) : words u = [u] := by
  rw [words, List.splitOnP_eq_singleton hu]
  simp [hne]

theorem words_append {u : Bytes} (hu : ∀ c ∈ u, isWhite c = false) (hne : u ≠ []) {c : UInt8}
    (hc : isWhite c = true) (s : Bytes) : words (u ++ c :: s) = u :: words s := by
  rw [words, List.splitOnP_append_cons_of_forall_mem hu c hc]
  simp [hne, words]

theorem words_concat (s : Bytes) {c : UInt8} (hc : isWhite c = true) : words (s ++ [c]) = words s := by
  rw [words, List.splitOnP_append_cons s [] hc]
  simp [words]

theorem words_trim (s : Bytes) : words (trim s) = words s := by
  have hleft (s : Bytes) : words (s.dropWhile isWhite) = words s := by
    induction s with
    | nil => rfl
    | cons c s ih =>
        by_cases hc : isWhite c = true
        · rw [List.dropWhile_cons_of_pos hc, ih, words_white hc]
        · rw [List.dropWhile_cons_of_neg hc]
  have hright (s : Bytes) : words (s.rdropWhile isWhite) = words s := by
    induction s using List.reverseRecOn with
    | nil => rfl
    | append_singleton s c ih =>
        by_cases hc : isWhite c = true
        · rw [List.rdropWhile_concat_pos _ _ _ hc, ih, words_concat s hc]
        · rw [List.rdropWhile_concat_neg _ _ _ hc]
  exact (hright _).trans (hleft s)

theorem collapse_word {u : Bytes} (hu : ∀ c ∈ u, isWhite c = false) (b : Bool) (s : Bytes) :
    collapse b (u ++ s) = u ++ collapse (if u = [] then b else false) s := by
  induction u generalizing b with
  | nil => rfl
  | cons c u ih =>
      have hrest := ih (fun d hd => hu d (List.mem_cons_of_mem c hd)) false
      have hc : ¬ isWhite c = true := by simp [hu c List.mem_cons_self]
      rw [List.cons_append, collapse, if_neg hc, hrest, ite_self, if_neg (List.cons_ne_nil c u)]
      rfl

/-- A text that starts with a word is the word and what starts with white space, or nothing. -/
theorem exists_word {c : UInt8} {s : Bytes} (hc : ¬ isWhite c = true) :
    ∃ u t, c :: s = u ++ t ∧ (∀ d ∈ u, isWhite d = false) ∧ u ≠ [] ∧ ∀ d ∈ t.head?, isWhite d = true := by
  refine ⟨(c :: s).takeWhile (!isWhite ·), (c :: s).dropWhile (!isWhite ·),
    List.takeWhile_append_dropWhile.symm, ?_, ?_, ?_⟩
  · intro d hd
    simpa using List.mem_takeWhile_imp hd
  · rw [List.takeWhile_cons_of_pos (by simpa using hc)]
    exact List.cons_ne_nil _ _
  · intro d hd
    rw [← List.find?_not_eq_head?_dropWhile] at hd
    simpa using List.find?_some hd

theorem head?_dropWhile_white {s : Bytes} {c : UInt8} (hc : c ∈ (s.dropWhile isWhite).head?) :
    isWhite c = false := by
  rw [← List.find?_not_eq_head?_dropWhile] at hc
  simpa using List.find?_some hc

/-- Behind white space a text that ends with none becomes its words. -/
theorem collapse_true (s : Bytes) (hlast : ∀ c ∈ s.getLast?, isWhite c = false) :
    collapse true s = normalised s ∧ (s ≠ [] → words s ≠ []) := by
  induction hn : s.length using Nat.strongRecOn generalizing s with
  | ind n ih =>
      subst hn
      cases s with
      | nil => exact ⟨rfl, fun h => absurd rfl h⟩
      | cons c s =>
          by_cases hc : isWhite c = true
          · have hne : s ≠ [] := by
              rintro rfl
              rw [hlast c rfl] at hc
              cases hc
            have hrest := ih s.length (Nat.lt_succ_self _) s
              (fun d hd => hlast d (by rwa [List.getLast?_cons_of_ne_nil hne])) rfl
            rw [collapse, if_pos hc, if_pos rfl, normalised, words_white hc]
            exact ⟨hrest.1, fun _ => hrest.2 hne⟩
          · obtain ⟨u, t, hs, hu, hune, ht⟩ := exists_word (s := s) hc
            rw [hs, collapse_word hu, if_neg hune]
            cases t with
            | nil =>
                rw [List.append_nil, normalised, words_word hu hune, collapse, List.append_nil,
                  List.intercalate_singleton]
                exact ⟨rfl, fun _ => List.cons_ne_nil _ _⟩
            | cons d t =>
                have hd := ht d rfl
                rw [hs, List.getLast?_append_cons] at hlast
                have hne : t ≠ [] := by
                  rintro rfl
                  rw [hlast d rfl] at hd
                  cases hd
                have hlen : t.length < (c :: s).length := by
                  rw [hs, List.length_append, List.length_cons]
                  omega
                have hrest := ih t.length hlen t
                  (fun e he => hlast e (by rwa [List.getLast?_cons_of_ne_nil hne])) rfl
                rw [collapse, if_pos hd, if_neg Bool.false_ne_true, normalised,
                  words_append hu hune hd, List.intercalate_cons_of_ne_nil (hrest.2 hne), hrest.1]
                exact ⟨by simp [normalised], fun _ => List.cons_ne_nil _ _⟩

theorem trim_ends (s : Bytes) :
    (∀ c ∈ (trim s).head?, isWhite c = false) ∧ ∀ c ∈ (trim s).getLast?, isWhite c = false := by
  have hlast : ∀ c ∈ (trim s).getLast?, isWhite c = false := by
    intro c hc
    rw [trim, List.getLast?_reverse] at hc
    exact head?_dropWhile_white hc
  refine ⟨fun c hc => ?_, hlast⟩
  obtain ⟨t, ht⟩ := List.rdropWhile_prefix isWhite (s.dropWhile isWhite)
  have hhead : c ∈ (s.dropWhile isWhite).head? := by
    rw [← ht, List.head?_append, Option.mem_def]
    have hsome : (trim s).head? = some c := hc
    exact congrArg (Option.or · t.head?) hsome
  exact head?_dropWhile_white hhead

/-- What is trimmed and collapsed is its words, with one space between them. -/
theorem collapse_trim (s : Bytes) : collapse false (trim s) = normalised s := by
  obtain ⟨hhead, hlast⟩ := trim_ends s
  have hwords : normalised (trim s) = normalised s := by rw [normalised, words_trim, normalised]
  rw [← hwords, ← (collapse_true (trim s) hlast).1]
  cases htrim : trim s with
  | nil => rfl
  | cons c t =>
      have hc : ¬ isWhite c = true := by simp [hhead c (by rw [htrim]; rfl)]
      rw [collapse, if_neg hc, collapse, if_neg hc]

/-! ### References -/

/-- A text that is number of a reference has only the bytes of one. -/
theorem charNumber_bytes {e : Bytes} {v : Nat} (h : charNumber e = some v) :
    ∀ c ∈ e, isEntityByte c = true := by
  unfold charNumber at h
  split at h
  · rename_i c s
    have hdigits {base : Nat} {t : Bytes} (ht : ∀ d ∈ t, (digitOf base d).isSome = true) :
        ∀ d ∈ t, isEntityByte d = true := fun d hd => isEntityByte_digit (ht d hd)
    split at h
    · rename_i hx
      split at h
      · rename_i hs
        intro d hd
        rcases List.mem_cons.mp hd with rfl | hd
        · decide
        · rcases List.mem_cons.mp hd with rfl | hd
          · rcases hx with rfl | rfl <;> decide
          · exact hdigits hs d hd
      · cases h
    · split at h
      · rename_i hs
        intro d hd
        rcases List.mem_cons.mp hd with rfl | hd
        · decide
        · exact hdigits hs d hd
      · cases h
  · cases h

theorem isEntityByte_ne {c : UInt8} (hc : isEntityByte c = true) :
    c ≠ ampersand ∧ c ≠ semicolon ∧ isWhite c = false := by
  refine ⟨?_, ?_, ?_⟩
  · rintro rfl
    cases hc
  · rintro rfl
    cases hc
  · by_contra hwhite
    simp only [isWhite, Bool.not_eq_false, decide_eq_true_eq] at hwhite
    rcases hwhite with rfl | rfl | rfl | rfl <;> cases hc

/-- The number of 32 bits that the code counts. -/
theorem number_mod {base : Nat} {s : Bytes} (hs : ∀ c ∈ s, (digitOf base c).isSome = true) (v : Nat) :
    number base (v % 2 ^ 32) s = digitsValue base v s % 2 ^ 32 := by
  induction s generalizing v with
  | nil => rfl
  | cons c s ih =>
      obtain ⟨d, hd⟩ := Option.isSome_iff_exists.mp (hs c List.mem_cons_self)
      have hstep : (v % 2 ^ 32 * base + d) % 2 ^ 32 = (v * base + d) % 2 ^ 32 := by
        rw [Nat.add_mod, Nat.mod_mul_mod, ← Nat.add_mod]
      rw [number, hd, digitsValue_cons, hd, Option.getD_some]
      simp only [hstep]
      exact ih (fun e he => hs e (List.mem_cons_of_mem c he)) _

theorem number_none {base : Nat} {s : Bytes} (hs : ¬ ∀ c ∈ s, (digitOf base c).isSome = true) (v : Nat) :
    number base v s = 0 := by
  induction s generalizing v with
  | nil => exact absurd (fun c hc => absurd hc List.not_mem_nil) hs
  | cons c s ih =>
      rw [number]
      cases hd : digitOf base c with
      | none => rfl
      | some d =>
          refine ih (fun hall => hs fun e he => ?_) _
          rcases List.mem_cons.mp he with rfl | he
          · rw [hd]
            rfl
          · exact hall e he

theorem charNumber_hash (c : UInt8) (s : Bytes) :
    charNumber (0x23 :: c :: s) =
      if c = 0x78 ∨ c = 0x58 then
        if ∀ d ∈ s, (digitOf 16 d).isSome then some (digitsValue 16 0 s) else none
      else if ∀ d ∈ c :: s, (digitOf 10 d).isSome then some (digitsValue 10 0 (c :: s)) else none := rfl

theorem charNumber_ne_none {e : Bytes} (h : charNumber e ≠ none) : ∃ c s, e = 0x23 :: c :: s := by
  unfold charNumber at h
  split at h
  · exact ⟨_, _, rfl⟩
  · exact absurd rfl h

theorem referenceText_hash (c : UInt8) (s : Bytes) :
    referenceText (0x23 :: c :: s) =
      (charNumber (0x23 :: c :: s)).bind fun v => if 0 < v ∧ v < 0x10000 then some (utf8 v) else none := by
  have hname (w : String) (hw : (ascii w).head? ≠ some 0x23) :
      (0x23 :: c :: s).map upper ≠ ascii w := by
    intro heq
    rw [← heq] at hw
    exact hw rfl
  rw [referenceText, if_neg (hname _ (by decide)), if_neg (hname _ (by decide)),
    if_neg (hname _ (by decide)), if_neg (hname _ (by decide)), if_neg (hname _ (by decide))]

/-- The number that counts for the code, of a reference that has one. -/
theorem number_charNumber (c : UInt8) (s : Bytes) :
    (if c = 0x78 ∨ c = 0x58 then number 16 0 s else number 10 0 (c :: s)) =
      (charNumber (0x23 :: c :: s)).getD 0 % 2 ^ 32 := by
  rw [charNumber_hash]
  have hnumber (base : Nat) (t : Bytes) :
      number base 0 t =
        (if ∀ d ∈ t, (digitOf base d).isSome then some (digitsValue base 0 t) else none).getD 0 % 2 ^ 32 := by
    split
    · rename_i ht
      exact number_mod ht 0
    · rename_i ht
      exact number_none ht 0
  split
  · exact hnumber 16 s
  · exact hnumber 10 (c :: s)

/-- What the code writes for a reference: the number counts modulo `2 ^ 32`. -/
theorem entityText_number {e : Bytes} {v : Nat} (h : charNumber e = some v) :
    entityText e = if 0 < v % 2 ^ 32 ∧ v % 2 ^ 32 < 0x10000 then some (utf8 (v % 2 ^ 32)) else none := by
  obtain ⟨c, s, rfl⟩ := charNumber_ne_none (Option.ne_none_iff_exists'.mpr ⟨v, h⟩)
  rw [entityText_hash]
  simp only [number_charNumber, h, Option.getD_some]

theorem referenceText_number {e : Bytes} {v : Nat} (h : charNumber e = some v) :
    referenceText e = if 0 < v ∧ v < 0x10000 then some (utf8 v) else none := by
  obtain ⟨c, s, rfl⟩ := charNumber_ne_none (Option.ne_none_iff_exists'.mpr ⟨v, h⟩)
  rw [referenceText_hash, h, Option.bind_some]

/-- A name, and what is no reference, is the same to both. -/
theorem entityText_named {e : Bytes} (h : charNumber e = none) : entityText e = referenceText e := by
  by_cases hhash : ∃ c s, e = 0x23 :: c :: s
  · obtain ⟨c, s, rfl⟩ := hhash
    rw [entityText_hash, referenceText_hash, h]
    simp only [number_charNumber, h]
    rfl
  · rw [entityText, referenceText, h, Option.bind_none]
    exact fun c s heq => hhash ⟨c, s, heq⟩

/-- A name is short. -/
theorem length_of_named {e w : Bytes} (h : charNumber e = none) (hw : referenceText e = some w) :
    e.length ≤ 4 ∧ w.length = 1 := by
  have hname {t : String} (ht : e.map upper = ascii t) (hlen : (ascii t).length ≤ 4) : e.length ≤ 4 := by
    rw [← ht, List.length_map] at hlen
    exact hlen
  unfold referenceText at hw
  rw [h, Option.bind_none] at hw
  split_ifs at hw with hamp hlt hgt hquot hapos
  · cases hw
    exact ⟨hname hamp (by decide), rfl⟩
  · cases hw
    exact ⟨hname hlt (by decide), rfl⟩
  · cases hw
    exact ⟨hname hgt (by decide), rfl⟩
  · cases hw
    exact ⟨hname hquot (by decide), rfl⟩
  · cases hw
    exact ⟨hname hapos (by decide), rfl⟩

theorem notMem_of_named {e w : Bytes} (h : charNumber e = none) (hw : referenceText e = some w) :
    ampersand ∉ e := by
  intro hmem
  have hname {t : String} (ht : e.map upper = ascii t) (hnot : upper ampersand ∉ ascii t) : False :=
    hnot (ht ▸ List.mem_map_of_mem hmem)
  unfold referenceText at hw
  rw [h, Option.bind_none] at hw
  split_ifs at hw with hamp hlt hgt hquot hapos
  · exact hname hamp (by decide)
  · exact hname hlt (by decide)
  · exact hname hgt (by decide)
  · exact hname hquot (by decide)
  · exact hname hapos (by decide)

/-! ### Both decoders -/

/-- What stands between an `&` and the first semicolon behind it, and what follows. -/
theorem cases_reference (s : Bytes) :
    semicolon ∉ s ∨ ∃ e r, semicolon ∉ e ∧ s = e ++ semicolon :: r := by
  by_cases hmem : semicolon ∈ s
  · obtain ⟨e, r, rfl, he⟩ := List.eq_append_cons_of_mem hmem
    exact Or.inr ⟨e, r, he, rfl⟩
  · exact Or.inl hmem

theorem takeWhile_reference {e : Bytes} (he : semicolon ∉ e) (r : Bytes) :
    (e ++ semicolon :: r).takeWhile (· ≠ semicolon) = e :=
  takeWhile_append (ne_of_notMem he) (by simp)

theorem drop_reference (e r : Bytes) : (e ++ semicolon :: r).drop (e.length + 1) = r := by
  rw [List.drop_append, List.drop_of_length_le (by omega), List.nil_append, Nat.add_sub_cancel_left,
    List.drop_succ_cons, List.drop_zero]

theorem decodeEntities_plain {c : UInt8} (hc : c ≠ ampersand) (s : Bytes) :
    decodeEntities (c :: s) = c :: decodeEntities s := by
  rw [decodeEntities, if_neg fun h => hc h.1]

theorem replaced_plain {c : UInt8} (hc : c ≠ ampersand) (s : Bytes) :
    replaced (c :: s) = c :: replaced s := by
  rw [replaced, if_neg fun h => hc h.1]

theorem decodeEntities_skip {e : Bytes} (he : ampersand ∉ e) (s : Bytes) :
    decodeEntities (e ++ s) = e ++ decodeEntities s := by
  induction e with
  | nil => rfl
  | cons c e ih =>
      rw [List.mem_cons, not_or] at he
      rw [List.cons_append, decodeEntities_plain (Ne.symm he.1), ih he.2, List.cons_append]

theorem replaced_skip {e : Bytes} (he : ampersand ∉ e) (s : Bytes) :
    replaced (e ++ s) = e ++ replaced s := by
  induction e with
  | nil => rfl
  | cons c e ih =>
      rw [List.mem_cons, not_or] at he
      rw [List.cons_append, replaced_plain (Ne.symm he.1), ih he.2, List.cons_append]

theorem decodeEntities_open {s : Bytes} (hs : semicolon ∉ s) :
    decodeEntities (ampersand :: s) = ampersand :: decodeEntities s := by
  rw [decodeEntities, if_neg]
  rintro ⟨-, hlt⟩
  rw [takeWhile_notMem fun hmem => hs (List.mem_of_mem_take hmem)] at hlt
  exact Nat.lt_irrefl _ hlt

theorem replaced_open {s : Bytes} (hs : semicolon ∉ s) :
    replaced (ampersand :: s) = ampersand :: replaced s := by
  rw [replaced, if_neg]
  rintro ⟨-, hlt⟩
  rw [takeWhile_notMem hs] at hlt
  exact Nat.lt_irrefl _ hlt

/-- The code looks 15 bytes far for the semicolon. -/
theorem decodeEntities_reference {e : Bytes} (he : semicolon ∉ e) (r : Bytes) :
    decodeEntities (ampersand :: (e ++ semicolon :: r)) =
      match (if e.length ≤ 14 then entityText e else none) with
      | some w => w ++ decodeEntities r
      | none => ampersand :: decodeEntities (e ++ semicolon :: r) := by
  have hscan : ((e ++ semicolon :: r).take 15).takeWhile (· ≠ semicolon) = e.take 15 := by
    rw [← List.take_takeWhile, takeWhile_reference he]
  by_cases hlen : e.length ≤ 14
  · have htake : e.take 15 = e := List.take_of_length_le (by omega)
    have hfound : e.length < ((e ++ semicolon :: r).take 15).length := by
      rw [List.length_take, List.length_append, List.length_cons]
      omega
    rw [decodeEntities, hscan, htake, if_pos ⟨rfl, hfound⟩, if_pos hlen]
    cases entityText e <;> simp only [drop_reference]
  · rw [decodeEntities, hscan, if_neg, if_neg hlen]
    rintro ⟨-, hlt⟩
    rw [List.length_take, List.length_take] at hlt
    omega

theorem replaced_reference {e : Bytes} (he : semicolon ∉ e) (r : Bytes) :
    replaced (ampersand :: (e ++ semicolon :: r)) =
      match referenceText e with
      | some w => w ++ replaced r
      | none => ampersand :: replaced (e ++ semicolon :: r) := by
  have hlt : e.length < (e ++ semicolon :: r).length := by
    rw [List.length_append, List.length_cons]
    omega
  rw [replaced, takeWhile_reference he, if_pos ⟨rfl, hlt⟩]
  simp only [drop_reference]

/-! ### The condition -/

/-- A numeric reference is found in the window where it stands for a character, and does not wrap into
one where it does not. -/
def RefFits (s : Bytes) : Prop :=
  let e := s.takeWhile (· ≠ semicolon)
  e.length < s.length → ∀ v ∈ charNumber e,
    (0 < v ∧ v < 0x10000 → e.length ≤ 14) ∧
      (0x10000 ≤ v → e.length ≤ 14 → ¬ (0 < v % 2 ^ 32 ∧ v % 2 ^ 32 < 0x10000))

def RefsFit (src : Bytes) : Prop := ∀ c s, (c :: s) <:+ src → c = ampersand → RefFits s

theorem refsFit_cons (c : UInt8) (s : Bytes) :
    RefsFit (c :: s) ↔ (c = ampersand → RefFits s) ∧ RefsFit s := Records.forall_suffix_cons c s

theorem refsFit_skip {e : Bytes} (he : ampersand ∉ e) (s : Bytes) : RefsFit (e ++ s) ↔ RefsFit s := by
  induction e with
  | nil => exact Iff.rfl
  | cons c e ih =>
      rw [List.mem_cons, not_or] at he
      rw [List.cons_append, refsFit_cons, ih he.2]
      exact and_iff_right fun hc => absurd hc.symm he.1

theorem refFits_open {s : Bytes} (hs : semicolon ∉ s) : RefFits s := by
  unfold RefFits
  rw [takeWhile_notMem hs]
  exact fun hlt => absurd hlt (Nat.lt_irrefl _)

theorem refFits_reference {e : Bytes} (he : semicolon ∉ e) (r : Bytes) :
    RefFits (e ++ semicolon :: r) ↔ ∀ v ∈ charNumber e,
      (0 < v ∧ v < 0x10000 → e.length ≤ 14) ∧
        (0x10000 ≤ v → e.length ≤ 14 → ¬ (0 < v % 2 ^ 32 ∧ v % 2 ^ 32 < 0x10000)) := by
  have hlt : e.length < (e ++ semicolon :: r).length := by
    rw [List.length_append, List.length_cons]
    omega
  unfold RefFits
  rw [takeWhile_reference he]
  exact forall_prop_of_true hlt

/-! ### The pieces of a text -/

section Pieces

open References

def ink (s : Bytes) : Bytes := s.filter (!isWhite ·)

@[simp] theorem ink_append (s t : Bytes) : ink (s ++ t) = ink s ++ ink t := List.filter_append ..

theorem ink_of_none {s : Bytes} (hs : ∀ c ∈ s, isWhite c = false) : ink s = s := by
  rw [ink, List.filter_eq_self]
  exact fun c hc => by simp [hs c hc]

theorem ink_of_white {s : Bytes} (hs : ∀ c ∈ s, isWhite c = true) : ink s = [] := by
  rw [ink, List.filter_eq_nil_iff]
  exact fun c hc => by simp [hs c hc]

theorem ink_normalised (s : Bytes) : ink (normalised s) = ink s := by
  have hcollapse (b : Bool) (s : Bytes) : ink (collapse b s) = ink s := by
    induction s generalizing b with
    | nil => rfl
    | cons c s ih =>
        by_cases hc : isWhite c = true
        · have hcs : ink (c :: s) = ink s := by simp [ink, hc]
          have hspace : ink (if b then [] else [0x20]) = [] := by cases b <;> decide
          rw [collapse, if_pos hc, ink_append, hspace, List.nil_append, ih, hcs]
        · rw [collapse, if_neg hc]
          simp only [ink, List.filter_cons] at ih ⊢
          rw [ih]
  have htrim : ink (trim s) = ink s := by
    have hleft : ink (s.dropWhile isWhite) = ink s := by
      conv_rhs => rw [← List.takeWhile_append_dropWhile (p := isWhite) (l := s), ink_append,
        ink_of_white fun c hc => List.mem_takeWhile_imp hc, List.nil_append]
    have hright (t : Bytes) : ink (t.rdropWhile isWhite) = ink t := by
      have hcut : t.rdropWhile isWhite ++ t.rtakeWhile isWhite = t := by
        rw [List.rdropWhile, List.rtakeWhile, ← List.reverse_append, List.takeWhile_append_dropWhile,
          List.reverse_reverse]
      have htail : ink (t.rtakeWhile isWhite) = [] := ink_of_white fun c hc => List.mem_rtakeWhile_imp hc
      conv_rhs => rw [← hcut, ink_append, htail, List.append_nil]
    exact (hright _).trans hleft
  rw [← collapse_trim, hcollapse, htrim]

/-- Both decoders go through a text in pieces; where they differ a reference does not fit. -/
structure Written (src : Bytes) (ps : List (Piece UInt8)) : Prop where
  agree : RefsFit src → decodeEntities src = replaced src
  ok : ∀ p ∈ ps, p.Ok ampersand semicolon (fun name => name.length ≤ 14)
  code : ink (decodeEntities src) = first ampersand semicolon ps
  meant : ink (replaced src) = second ampersand semicolon ps
  fits : (∀ p ∈ ps, p.isSame = true) ↔ RefsFit src

def sames (w : Bytes) : List (Piece UInt8) := w.map Piece.same

theorem first_sames (w : Bytes) (ps : List (Piece UInt8)) :
    first ampersand semicolon (sames w ++ ps) = w ++ first ampersand semicolon ps := by
  induction w with
  | nil => rfl
  | cons c w ih => exact congrArg (c :: ·) ih

theorem second_sames (w : Bytes) (ps : List (Piece UInt8)) :
    second ampersand semicolon (sames w ++ ps) = w ++ second ampersand semicolon ps := by
  induction w with
  | nil => rfl
  | cons c w ih => exact congrArg (c :: ·) ih

variable {s : Bytes} {ps : List (Piece UInt8)}

theorem Written.sames {src w : Bytes} (h : Written s ps) (hcode : decodeEntities src = w ++ decodeEntities s)
    (hmeant : replaced src = w ++ replaced s) (hfits : RefsFit src ↔ RefsFit s) :
    Written src (sames (ink w) ++ ps) where
  agree := fun hfit => by rw [hcode, hmeant, h.agree (hfits.mp hfit)]
  ok := by
    intro p hp
    rcases List.mem_append.mp hp with hp | hp
    · obtain ⟨c, -, rfl⟩ := List.mem_map.mp hp
      trivial
    · exact h.ok p hp
  code := by rw [hcode, ink_append, h.code, first_sames]
  meant := by rw [hmeant, ink_append, h.meant, second_sames]
  fits := by
    rw [hfits, ← h.fits]
    constructor
    · exact fun hall p hp => hall p (List.mem_append_right _ hp)
    · intro hall p hp
      rcases List.mem_append.mp hp with hp | hp
      · obtain ⟨c, -, rfl⟩ := List.mem_map.mp hp
        rfl
      · exact hall p hp

/-- A reference that only one of them replaces. -/
theorem Written.differs {src : Bytes} {p : Piece UInt8} (h : Written s ps)
    (hp : p.Ok ampersand semicolon (fun name => name.length ≤ 14)) (hp' : p.isSame = false)
    (hcode : ink (decodeEntities src) = p.first ampersand semicolon ++ ink (decodeEntities s))
    (hmeant : ink (replaced src) = p.second ampersand semicolon ++ ink (replaced s))
    (hfits : ¬ RefsFit src) : Written src (p :: ps) where
  agree := fun hfit => absurd hfit hfits
  ok := by
    intro q hq
    rcases List.mem_cons.mp hq with rfl | hq
    · exact hp
    · exact h.ok q hq
  code := by rw [hcode, h.code, first_cons]
  meant := by rw [hmeant, h.meant, second_cons]
  fits := by
    refine iff_of_false (fun hall => ?_) hfits
    rw [hall p List.mem_cons_self] at hp'
    cases hp'

theorem written_nil : Written [] [] where
  agree := fun _ => by rw [decodeEntities, replaced]
  ok := fun _ hp => absurd hp List.not_mem_nil
  code := by
    rw [decodeEntities]
    rfl
  meant := by
    rw [replaced]
    rfl
  fits := iff_of_true (fun _ hp => absurd hp List.not_mem_nil)
    fun _ _ hsuffix => absurd (List.suffix_nil.mp hsuffix) (List.cons_ne_nil _ _)

/-- A byte both leave, where no numeric reference starts that does not fit. -/
theorem Written.byte (h : Written s ps) {c : UInt8} (hcode : decodeEntities (c :: s) = c :: decodeEntities s)
    (hmeant : replaced (c :: s) = c :: replaced s) (hfit : c = ampersand → RefFits s) :
    Written (c :: s) (UnicornSuite.Cdf.sames (ink [c]) ++ ps) :=
  h.sames hcode hmeant ((refsFit_cons c s).trans (and_iff_right hfit))

/-- A character needs at most three bytes. -/
theorem length_utf8 {v : Nat} (hv : v < 0x10000) : (utf8 v).length ≤ 3 := by
  unfold utf8
  split_ifs <;> simp

theorem length_ink_utf8 {v : Nat} (hv : v < 0x10000) : (ink (utf8 v)).length ≤ 3 :=
  (List.length_filter_le _ _).trans (length_utf8 hv)

theorem two_le_of_charNumber {e : Bytes} {v : Nat} (h : charNumber e = some v) : 2 ≤ e.length := by
  obtain ⟨c, s, rfl⟩ := charNumber_ne_none (Option.ne_none_iff_exists'.mpr ⟨v, h⟩)
  exact Nat.le_add_left 2 s.length

/-- A named reference, which both replace, or something that both leave. -/
theorem exists_written_named {e r : Bytes} (he : semicolon ∉ e) (hnum : charNumber e = none)
    (htail : ∃ ps, Written (e ++ semicolon :: r) ps) (hr : ∃ ps, Written r ps) :
    ∃ ps, Written (ampersand :: (e ++ semicolon :: r)) ps := by
  have hcode := decodeEntities_reference he r
  have hmeant := replaced_reference he r
  have hfit : RefFits (e ++ semicolon :: r) := by
    rw [refFits_reference he, hnum]
    exact fun v hv => absurd hv (by simp)
  rw [entityText_named hnum] at hcode
  cases htext : referenceText e with
  | none =>
      obtain ⟨ps, hps⟩ := htail
      rw [htext, ite_self] at hcode
      rw [htext] at hmeant
      exact ⟨_, hps.byte hcode hmeant fun _ => hfit⟩
  | some w =>
      obtain ⟨ps, hps⟩ := hr
      have hlen := (length_of_named hnum htext).1
      rw [htext, if_pos (by omega)] at hcode
      rw [htext] at hmeant
      refine ⟨_, hps.sames hcode hmeant ?_⟩
      rw [refsFit_cons, refsFit_skip (notMem_of_named hnum htext), refsFit_cons]
      have hsemicolon : ¬ semicolon = ampersand := by decide
      rw [and_iff_right fun _ => hfit, and_iff_right fun h => absurd h hsemicolon]

section Number

variable {e : Bytes} {v : Nat} (hnum : charNumber e = some v)
include hnum

theorem notMem_of_number : ampersand ∉ e ∧ semicolon ∉ e :=
  ⟨fun hmem => (isEntityByte_ne (charNumber_bytes hnum _ hmem)).1 rfl,
    fun hmem => (isEntityByte_ne (charNumber_bytes hnum _ hmem)).2.1 rfl⟩

theorem ink_reference : ink (reference ampersand semicolon e) = reference ampersand semicolon e := by
  refine ink_of_none fun c hc => ?_
  simp only [reference, List.mem_cons, List.mem_append, List.not_mem_nil, or_false] at hc
  rcases hc with rfl | hc | rfl
  · decide
  · exact (isEntityByte_ne (charNumber_bytes hnum c hc)).2.2
  · decide

theorem decodeEntities_left (r : Bytes)
    (h : e.length ≤ 14 → ¬ (0 < v % 2 ^ 32 ∧ v % 2 ^ 32 < 0x10000)) :
    decodeEntities (ampersand :: (e ++ semicolon :: r)) =
      reference ampersand semicolon e ++ decodeEntities r := by
  obtain ⟨hampersand, hsemicolon⟩ := notMem_of_number hnum
  have hnone : (if e.length ≤ 14 then entityText e else none) = none := by
    split
    · rename_i hlen
      rw [entityText_number hnum, if_neg (h hlen)]
    · rfl
  rw [decodeEntities_reference hsemicolon, hnone]
  simp only [decodeEntities_skip hampersand]
  rw [decodeEntities_plain (by decide), reference_append]

theorem replaced_left (r : Bytes) (h : ¬ (0 < v ∧ v < 0x10000)) :
    replaced (ampersand :: (e ++ semicolon :: r)) = reference ampersand semicolon e ++ replaced r := by
  obtain ⟨hampersand, hsemicolon⟩ := notMem_of_number hnum
  rw [replaced_reference hsemicolon, referenceText_number hnum, if_neg h]
  simp only [replaced_skip hampersand]
  rw [replaced_plain (by decide), reference_append]

theorem decodeEntities_number (r : Bytes) (hlen : e.length ≤ 14)
    (h : 0 < v % 2 ^ 32 ∧ v % 2 ^ 32 < 0x10000) :
    decodeEntities (ampersand :: (e ++ semicolon :: r)) = utf8 (v % 2 ^ 32) ++ decodeEntities r := by
  rw [decodeEntities_reference (notMem_of_number hnum).2, if_pos hlen, entityText_number hnum, if_pos h]

theorem replaced_number (r : Bytes) (h : 0 < v ∧ v < 0x10000) :
    replaced (ampersand :: (e ++ semicolon :: r)) = utf8 v ++ replaced r := by
  rw [replaced_reference (notMem_of_number hnum).2, referenceText_number hnum, if_pos h]

theorem refsFit_number (r : Bytes) :
    RefsFit (ampersand :: (e ++ semicolon :: r)) ↔
      ((0 < v ∧ v < 0x10000 → e.length ≤ 14) ∧
        (0x10000 ≤ v → e.length ≤ 14 → ¬ (0 < v % 2 ^ 32 ∧ v % 2 ^ 32 < 0x10000))) ∧ RefsFit r := by
  obtain ⟨hampersand, hsemicolon⟩ := notMem_of_number hnum
  have hstop : ¬ semicolon = ampersand := by decide
  rw [refsFit_cons, refsFit_skip hampersand, refsFit_cons, refFits_reference hsemicolon, hnum,
    and_iff_right fun h => absurd h hstop, forall_prop_of_true rfl]
  simp

/-- A numeric reference: it fits where both make the same of it. -/
theorem exists_written_number {r : Bytes} (hr : ∃ ps, Written r ps) :
    ∃ ps, Written (ampersand :: (e ++ semicolon :: r)) ps := by
  obtain ⟨ps, hps⟩ := hr
  obtain ⟨hampersand, hsemicolon⟩ := notMem_of_number hnum
  have htwo := two_le_of_charNumber hnum
  have hfits := refsFit_number hnum r
  by_cases hin : 0 < v ∧ v < 0x10000
  · have hmod : v % 2 ^ 32 = v := Nat.mod_eq_of_lt (by omega)
    by_cases hlen : e.length ≤ 14
    · have hcode := decodeEntities_number hnum r hlen (by rwa [hmod])
      rw [hmod] at hcode
      have hfit : RefsFit (ampersand :: (e ++ semicolon :: r)) ↔ RefsFit r :=
        hfits.trans (and_iff_right ⟨fun _ => hlen, by omega⟩)
      exact ⟨_, hps.sames hcode (replaced_number hnum r hin) hfit⟩
    · -- The semicolon is outside the window.
      have hw := length_ink_utf8 hin.2
      refine ⟨.left e (ink (utf8 v)) :: ps,
        hps.differs ⟨hampersand, hsemicolon, hlen, by omega⟩ rfl ?_ ?_ ?_⟩
      · rw [decodeEntities_left hnum r fun h => absurd h hlen, ink_append, ink_reference hnum]
        rfl
      · rw [replaced_number hnum r hin, ink_append]
        rfl
      · exact fun hfit => hlen ((hfits.mp hfit).1.1 hin)
  · by_cases hwraps : e.length ≤ 14 ∧ 0 < v % 2 ^ 32 ∧ v % 2 ^ 32 < 0x10000
    · -- The number wraps into the range.
      obtain ⟨hlen, hwrap⟩ := hwraps
      have hw := length_ink_utf8 hwrap.2
      have hlarge : 0x10000 ≤ v := by
        by_contra hsmall
        have hmod : v % 2 ^ 32 = v := Nat.mod_eq_of_lt (by omega)
        exact hin (by rwa [hmod] at hwrap)
      refine ⟨.right e (ink (utf8 (v % 2 ^ 32))) :: ps,
        hps.differs ⟨hampersand, hsemicolon, hlen, by omega⟩ rfl ?_ ?_ ?_⟩
      · rw [decodeEntities_number hnum r hlen hwrap, ink_append]
        rfl
      · rw [replaced_left hnum r hin, ink_append, ink_reference hnum]
        rfl
      · exact fun hfit => (hfits.mp hfit).1.2 hlarge hlen hwrap
    · refine ⟨_, hps.sames (decodeEntities_left hnum r fun hlen h => hwraps ⟨hlen, h⟩)
        (replaced_left hnum r hin) (hfits.trans (and_iff_right ⟨fun h => absurd h hin, ?_⟩))⟩
      exact fun _ hlen hwrap => hwraps ⟨hlen, hwrap⟩

end Number

/-- Every text goes through both decoders in pieces. -/
theorem exists_written (src : Bytes) : ∃ ps, Written src ps := by
  induction hn : src.length using Nat.strongRecOn generalizing src with
  | ind n ih =>
      subst hn
      cases src with
      | nil => exact ⟨[], written_nil⟩
      | cons c s =>
          have htail := ih s.length (Nat.lt_succ_self _) s rfl
          by_cases hc : c = ampersand
          · subst hc
            rcases cases_reference s with hs | ⟨e, r, he, rfl⟩
            · obtain ⟨ps, hps⟩ := htail
              exact ⟨_, hps.byte (decodeEntities_open hs) (replaced_open hs) fun _ => refFits_open hs⟩
            · have hr := ih r.length (by simp; omega) r rfl
              cases hnum : charNumber e with
              | none => exact exists_written_named he hnum htail hr
              | some v => exact exists_written_number hnum hr
          · obtain ⟨ps, hps⟩ := htail
            exact ⟨_, hps.byte (decodeEntities_plain hc s) (replaced_plain hc s) fun h => absurd h hc⟩

end Pieces

/-! ### The buffer -/

/-- What is written for a reference is shorter than the reference. -/
theorem length_of_entityText {e w : Bytes} (h : entityText e = some w) : w.length < e.length + 2 := by
  cases hnum : charNumber e with
  | none =>
      rw [entityText_named hnum] at h
      have hw := (length_of_named hnum h).2
      omega
  | some v =>
      rw [entityText_number hnum] at h
      have htwo := two_le_of_charNumber hnum
      split_ifs at h with hin
      obtain rfl := Option.some.inj h
      have hw := length_utf8 hin.2
      omega

/-- The decoded text fits in the buffer. -/
theorem length_decodeEntities (src : Bytes) : (decodeEntities src).length ≤ src.length := by
  induction hn : src.length using Nat.strongRecOn generalizing src with
  | ind n ih =>
      subst hn
      cases src with
      | nil => rw [decodeEntities]
      | cons c s =>
          have htail := ih s.length (Nat.lt_succ_self _) s rfl
          by_cases hc : c = ampersand
          · subst hc
            rcases cases_reference s with hs | ⟨e, r, he, rfl⟩
            · rw [decodeEntities_open hs, List.length_cons, List.length_cons]
              exact Nat.succ_le_succ htail
            · have hr := ih r.length (by simp; omega) r rfl
              rw [decodeEntities_reference he]
              split
              · rename_i w hw
                have hshort : w.length < e.length + 2 := by
                  split_ifs at hw
                  exact length_of_entityText hw
                rw [List.length_append, List.length_cons, List.length_append, List.length_cons]
                omega
              · rw [List.length_cons, List.length_cons]
                exact Nat.succ_le_succ htail
          · rw [decodeEntities_plain hc, List.length_cons, List.length_cons]
            exact Nat.succ_le_succ htail

theorem length_trim (s : Bytes) : (trim s).length ≤ s.length := by
  rw [trim, List.length_reverse]
  refine (List.dropWhile_sublist isWhite).length_le.trans ?_
  rw [List.length_reverse]
  exact (List.dropWhile_sublist isWhite).length_le

theorem length_collapse (b : Bool) (s : Bytes) : (collapse b s).length ≤ s.length := by
  induction s generalizing b with
  | nil => exact Nat.le_refl _
  | cons c s ih =>
      rw [collapse]
      split
      · have hspace : (if b then ([] : Bytes) else [0x20]).length ≤ 1 := by cases b <;> simp
        have hrest := ih true
        rw [List.length_append, List.length_cons]
        omega
      · rw [List.length_cons, List.length_cons]
        exact Nat.succ_le_succ (ih false)

/-- Every reference is replaced that stands for a character, every other `&` is left, and the buffer is
never overrun, if and only if the numeric references fit. -/
theorem decodeBuffer_meant_iff (src : Bytes) :
    (decodeBuffer src = normalised (replaced src) ∧ (decodeEntities src).length ≤ src.length ∧
      (decodeBuffer src).length ≤ src.length) ↔ RefsFit src := by
  obtain ⟨ps, hps⟩ := exists_written src
  have hlen := length_decodeEntities src
  constructor
  · rintro ⟨hbuffer, -⟩
    rw [← hps.fits]
    have hink := congrArg ink hbuffer
    rw [decodeBuffer, collapse_trim, ink_normalised, ink_normalised, hps.code, hps.meant] at hink
    exact References.same_of_written (by decide) hps.ok hink
  · intro hfit
    refine ⟨?_, hlen, ?_⟩
    · rw [decodeBuffer, collapse_trim, hps.agree hfit]
    · exact ((length_collapse false _).trans (length_trim _)).trans hlen

/-- A number of 2³² and 65 counts as 65. -/
theorem decodeBuffer_wraps :
    ¬ (decodeBuffer (ascii "&#4294967361;") = normalised (replaced (ascii "&#4294967361;"))) := by
  have hnum : charNumber (ascii "#4294967361") = some 4294967361 := by decide +kernel
  have hsrc : ascii "&#4294967361;" = ampersand :: (ascii "#4294967361" ++ semicolon :: []) := by
    decide
  have hcode := decodeEntities_number hnum [] (by decide) (by decide)
  have hmeant := replaced_left hnum [] (by decide)
  rw [decodeEntities] at hcode
  rw [replaced] at hmeant
  rw [decodeBuffer, hsrc, hcode, hmeant]
  decide

end UnicornSuite.Cdf
