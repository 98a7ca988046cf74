import UnicornSuite.NewsScan
import Mathlib.Data.List.TakeWhile

/-! What the readers make of a member: a string by its letters, where an escape the code does not know
stands for the letter behind the backslash, cut to the field; a number by its integer part. A value of
another type leaves the field as it was. The whole of an object is passed over, whatever its strings
hold. -/

namespace UnicornSuite.News

open CText CInt

/-! ### Strings -/

def JsonChar.letters : JsonChar → Bytes
  | plain c _ => [c]
  | escape e => [unescape e.letter]
  | unicode h₁ h₂ h₃ h₄ => [0x75, h₁.letter, h₂.letter, h₃.letter, h₄.letter]

/-- A string as the code reads it. -/
def JsonString.letters (s : JsonString) : Bytes := s.flatMap JsonChar.letters

section Strings

variable {t w out rest : Bytes} {c : UInt8}

/-- With any room, as much of `w` is read off a text as there is room for, and a quote is still to
come. -/
def Reads (t w : Bytes) : Prop := ∀ n, ∃ left, readChars n t = (w.take n, left) ∧ quote ∈ left

theorem Reads.quote_mem (h : Reads t w) : quote ∈ t := by
  obtain ⟨left, hread, hquote⟩ := h 0
  cases hread
  exact hquote

theorem reads_quote (rest : Bytes) : Reads (quote :: rest) [] := by
  intro n
  refine ⟨quote :: rest, ?_, List.mem_cons_self⟩
  cases n with
  | zero => rfl
  | succ n => cases rest <;> simp [readChars]

theorem Reads.plain (h : Reads t w) (hquote : c ≠ quote) (hslash : c ≠ backslash) :
    Reads (c :: t) (c :: w) := by
  intro n
  cases n with
  | zero => exact ⟨c :: t, rfl, List.mem_cons_of_mem c h.quote_mem⟩
  | succ n =>
      obtain ⟨left, hread, hmem⟩ := h n
      refine ⟨left, ?_, hmem⟩
      cases t with
      | nil => exact absurd h.quote_mem List.not_mem_nil
      | cons d t =>
          rw [readChars, if_neg hquote, if_neg hslash, hread]
          rfl

theorem Reads.escape (h : Reads t w) (c : UInt8) : Reads (backslash :: c :: t) (unescape c :: w) := by
  intro n
  cases n with
  | zero => exact ⟨backslash :: c :: t, rfl, by simp [h.quote_mem]⟩
  | succ n =>
      obtain ⟨left, hread, hmem⟩ := h n
      refine ⟨left, ?_, hmem⟩
      rw [readChars, if_neg (by decide), if_pos rfl, hread]
      rfl

theorem reads_string (s : JsonString) (rest : Bytes) : Reads (s.text ++ quote :: rest) s.letters := by
  induction s with
  | nil => exact reads_quote rest
  | cons c s ih =>
      rw [JsonString.text, JsonString.letters, List.flatMap_cons, List.flatMap_cons, List.append_assoc]
      cases c with
      | plain c ok => exact ih.plain ok.1 ok.2.1
      | escape e => exact ih.escape e.letter
      | unicode h₁ h₂ h₃ h₄ =>
          have hdigit (h : HexDigit) := letter_ne_quote h
          have h₄ := ih.plain (hdigit h₄).1.symm (hdigit h₄).2.1.symm
          have h₃ := h₄.plain (hdigit h₃).1.symm (hdigit h₃).2.1.symm
          have h₂ := h₃.plain (hdigit h₂).1.symm (hdigit h₂).2.1.symm
          have h₁ := h₂.plain (hdigit h₁).1.symm (hdigit h₁).2.1.symm
          exact h₁.escape 0x75

theorem jsonReadString_str (s : JsonString) (cap : Nat) :
    jsonReadString ((Value.str s).text ++ rest) out cap = (true, store out (s.letters.take (cap - 1))) := by
  obtain ⟨left, hread, hmem⟩ := reads_string s rest (cap - 1)
  have htext : (Value.str s).text ++ rest = quote :: (s.text ++ quote :: rest) := by simp [Value.text]
  rw [htext, show (quote : UInt8) = 0x22 from rfl, jsonReadString, show (0x22 : UInt8) = quote from rfl,
    hread, if_neg]
  rw [List.dropWhile_eq_nil_iff]
  exact fun hall => by simpa using hall quote hmem

theorem zero_notMem_letters (s : JsonString) : 0 ∉ s.letters := by
  intro hmem
  obtain ⟨c, _, hc⟩ := List.mem_flatMap.mp hmem
  cases c with
  | plain c ok =>
      obtain rfl := List.mem_singleton.mp hc
      exact absurd ok.2.2 (by decide)
  | escape e => cases e <;> exact absurd hc (by decide)
  | unicode h₁ h₂ h₃ h₄ =>
      have hdigit (h : HexDigit) := (letter_ne_quote h).2.2
      simp [JsonChar.letters, hdigit] at hc

theorem cstr_store (hw : 0 ∉ w) : cstr (store out w) = w := by
  unfold cstr store
  refine CText.takeWhile_append (fun c hc => ?_) (by simp)
  simpa using fun heq : c = 0 => hw (heq ▸ hc)

end Strings

/-! ### Other values -/

section Others

variable {out rest : Bytes} {v : Value}

/-- What does not start a string is not read as one. -/
theorem jsonReadString_of_ne {t : Bytes} (h : t.head? ≠ some quote) (cap : Nat) :
    jsonReadString t out cap = (false, out) := by
  unfold jsonReadString
  split
  · exact absurd rfl h
  · rfl

/-- What a value that is no string starts with. -/
theorem head_ne_quote (hv : ∀ s, v ≠ .str s) (rest : Bytes) : (v.text ++ rest).head? ≠ some quote := by
  have hplain := plain_value hv
  cases htext : v.text with
  | nil =>
      cases v with
      | str s => exact absurd rfl (hv s)
      | num n =>
          have hint : n.int.bytes = [] := by
            simp only [Value.text, Number.text, List.append_eq_nil_iff] at htext
            exact htext.1.1.2
          exact absurd hint n.int.nonempty
      | _ => cases htext
  | cons c t =>
      intro hhead
      rw [htext] at hplain
      exact (hplain c List.mem_cons_self).1 (Option.some.inj hhead)

/-- A sign, or what is no digit, and no digits behind it. -/
theorem jsonReadInt_of_head {t : Bytes} {n : Int}
    (h : ∀ c ∈ t.head?, isBlank c = false ∧ c ≠ 0x2D ∧ isDigit c = false) :
    jsonReadInt t n = (false, n) := by
  have hblank : t.dropWhile isBlank = t := by
    cases t with
    | nil => rfl
    | cons c t => exact List.dropWhile_cons_of_neg (by simp [(h c rfl).1])
  have hsign : t.head? ≠ some 0x2D := fun heq => (h _ heq).2.1 rfl
  have hdigits : t.takeWhile isDigit = [] := by
    cases t with
    | nil => rfl
    | cons c t => exact List.takeWhile_cons_of_neg (by simp [(h c rfl).2.2])
  unfold jsonReadInt
  dsimp only
  rw [hblank, if_neg hsign, if_pos hdigits]

theorem follows_head {w : Ws} (hrest : Follows rest) :
    ∀ c ∈ (w.bytes ++ rest).head?, c ≠ 0x2D ∧ isDigit c = false := by
  obtain ⟨bytes, space⟩ := w
  cases bytes with
  | nil =>
      intro c hc
      rcases hrest with h | h
      all_goals
        rw [List.nil_append, h] at hc
        cases hc
        decide
  | cons c bytes =>
      rintro d ⟨⟩
      rcases space c List.mem_cons_self with rfl | rfl | rfl | rfl <;> decide

/-- A number is read up to the end of its integer part. -/
theorem jsonReadInt_num (n : Number) (w : Ws) (hrest : Follows rest) (m : Int) :
    jsonReadInt (n.text ++ (w.bytes ++ rest)) m = (true, wrap32 n.intPart) := by
  have hend : ∀ c ∈ (n.fracText ++ n.expText ++ (w.bytes ++ rest)).head?, isDigit c = false := by
    unfold Number.fracText Number.expText
    cases n.frac with
    | some d =>
        rintro c ⟨⟩
        decide
    | none =>
        cases n.exp with
        | none => exact fun c hc => (follows_head hrest c hc).2
        | some e =>
            rintro c ⟨⟩
            cases e.upper <;> decide
  obtain ⟨d, ds, hd⟩ := List.exists_cons_of_ne_nil n.int.nonempty
  have hdigit : isDigit d = true := n.int.digits d (hd ▸ List.mem_cons_self)
  have hblank : isBlank d = false := by
    cases hb : isBlank d with
    | false => rfl
    | true =>
        have hcases : d = 0x20 ∨ d = 0x09 := of_decide_eq_true hb
        rcases hcases with rfl | rfl <;> exact absurd hdigit (by decide)
  have hrun : (n.int.bytes ++ (n.fracText ++ n.expText ++ (w.bytes ++ rest))).takeWhile isDigit =
      n.int.bytes := CText.takeWhile_append n.int.digits hend
  have htext : n.text ++ (w.bytes ++ rest) = (if n.neg then [0x2D] else []) ++
      (n.int.bytes ++ (n.fracText ++ n.expText ++ (w.bytes ++ rest))) := by simp [Number.text]
  unfold jsonReadInt Number.intPart
  rw [htext]
  cases n.neg with
  | true =>
      have hdrop (t : Bytes) : ((0x2D : UInt8) :: t).dropWhile isBlank = 0x2D :: t :=
        List.dropWhile_cons_of_neg (by decide)
      simp only [if_true, List.singleton_append, hdrop, List.head?_cons, List.tail_cons, hrun,
        if_neg n.int.nonempty]
  | false =>
      have hdrop (t : Bytes) : (n.int.bytes ++ t).dropWhile isBlank = n.int.bytes ++ t := by
        rw [hd]
        exact List.dropWhile_cons_of_neg (by simp [hblank])
      have hsign (t : Bytes) : (n.int.bytes ++ t).head? ≠ some 0x2D := by
        rw [hd]
        intro heq
        rw [Option.some.inj heq] at hdigit
        exact absurd hdigit (by decide)
      simp only [Bool.false_eq_true, if_false, List.nil_append, hdrop, hrun, if_neg n.int.nonempty,
        if_neg (hsign _)]

end Others

/-! ### Fields -/

section Fields

variable {name : String} {out : Bytes}

/-- What the string in a field is read to be. -/
def strOutcome (hit : Option Hit) (cap : Nat) (before : CString) : CString :=
  match hit with
  | none => []
  | some (.value (.str s)) => s.letters.take (cap - 1)
  | some _ => before

def numOutcome (hit : Option Hit) (before : Int) : Int :=
  match hit with
  | some (.value (.num n)) => wrap32 n.intPart
  | _ => before

theorem objPluckStr_object (hkey : FieldName (ascii name)) (o : Object) (cap : Nat) :
    cstr (objPluckStr o.text name out cap).2 = strOutcome (o.hit name) cap (cstr out) := by
  have hreached := jsonFindKey_object hkey o
  unfold objPluckStr
  cases hhit : o.hit name with
  | none =>
      rw [hhit] at hreached
      rw [show jsonFindKey _ _ = none from hreached]
      exact cstr_store List.not_mem_nil
  | some hit =>
      rw [hhit] at hreached
      cases hit with
      | value v =>
          obtain ⟨w, rest, _, htext⟩ := hreached
          rw [htext]
          dsimp only
          by_cases hstr : ∃ s, v = .str s
          · obtain ⟨s, rfl⟩ := hstr
            rw [jsonReadString_str]
            exact cstr_store fun hmem => zero_notMem_letters s (List.mem_of_mem_take hmem)
          · have hne : ∀ s, v ≠ .str s := fun s heq => hstr ⟨s, heq⟩
            rw [jsonReadString_of_ne (head_ne_quote hne _)]
            cases v with
            | str s => exact absurd rfl (hne s)
            | _ => rfl
      | stray =>
          obtain ⟨rest, hrest, htext⟩ := hreached
          have hhead : rest.head? ≠ some quote := by
            intro heq
            rcases hrest with h | h <;> exact absurd (h.symm.trans heq) (by decide)
          rw [htext]
          dsimp only
          rw [jsonReadString_of_ne hhead]
          rfl

theorem objPluckInt_object (hkey : FieldName (ascii name)) (o : Object) (n : Int) :
    (objPluckInt o.text name n).2 = numOutcome (o.hit name) n := by
  have hreached := jsonFindKey_object hkey o
  unfold objPluckInt
  cases hhit : o.hit name with
  | none =>
      rw [hhit] at hreached
      rw [show jsonFindKey _ _ = none from hreached]
      rfl
  | some hit =>
      rw [hhit] at hreached
      cases hit with
      | value v =>
          obtain ⟨w, rest, hrest, htext⟩ := hreached
          rw [htext]
          dsimp only
          cases v with
          | num m => exact congrArg Prod.snd (jsonReadInt_num m w hrest n)
          | _ =>
              refine congrArg Prod.snd (jsonReadInt_of_head (n := n) ?_)
              rintro c ⟨⟩
              decide
      | stray =>
          obtain ⟨rest, hrest, htext⟩ := hreached
          rw [htext]
          refine congrArg Prod.snd (jsonReadInt_of_head (n := n) ?_)
          intro c hc
          rcases hrest with h | h
          all_goals
            rw [h] at hc
            cases hc
            decide

end Fields

/-! ### The end of an object -/

section Skip

variable {t : Bytes} {c : UInt8} {depth : Nat}

theorem skipFrom_quote (t : Bytes) :
    skipFrom true (depth + 1) (quote :: t) = skipFrom false (depth + 1) t := by
  cases t with
  | nil => simp [skipFrom]
  | cons d t => rw [skipFrom, if_pos rfl]

theorem skipFrom_char (hquote : c ≠ quote) (hslash : c ≠ backslash) (t : Bytes) :
    skipFrom true (depth + 1) (c :: t) = skipFrom true (depth + 1) t := by
  cases t with
  | nil => simp [skipFrom]
  | cons d t => rw [skipFrom, if_neg hquote, if_neg hslash]

theorem skipFrom_escape (c : UInt8) (t : Bytes) :
    skipFrom true (depth + 1) (backslash :: c :: t) = skipFrom true (depth + 1) t := by
  rw [skipFrom, if_neg (by decide), if_pos rfl]

theorem skipFrom_text (s : JsonString) (t : Bytes) :
    skipFrom true (depth + 1) (s.text ++ quote :: t) = skipFrom false (depth + 1) t := by
  induction s with
  | nil => exact skipFrom_quote t
  | cons c s ih =>
      rw [JsonString.text, List.flatMap_cons, List.append_assoc]
      cases c with
      | plain c ok => exact (skipFrom_char ok.1 ok.2.1 _).trans ih
      | escape e => exact (skipFrom_escape e.letter _).trans ih
      | unicode h₁ h₂ h₃ h₄ =>
          have hdigit (h : HexDigit) (t : Bytes) :
              skipFrom true (depth + 1) (h.letter :: t) = skipFrom true (depth + 1) t :=
            skipFrom_char (letter_ne_quote h).1.symm (letter_ne_quote h).2.1.symm t
          refine (skipFrom_escape 0x75 _).trans ?_
          exact (hdigit h₁ _).trans ((hdigit h₂ _).trans ((hdigit h₃ _).trans ((hdigit h₄ _).trans ih)))

theorem skipFrom_plain {p : Bytes} (hp : Plain p) (t : Bytes) :
    skipFrom false (depth + 1) (p ++ t) = skipFrom false (depth + 1) t := by
  induction p with
  | nil => rfl
  | cons c p ih =>
      obtain ⟨hquote, hopen, hclose⟩ := hp c List.mem_cons_self
      rw [List.cons_append, skipFrom, if_neg hquote, if_neg hopen, if_neg hclose]
      exact ih fun d hd => hp d (List.mem_cons_of_mem c hd)

theorem skipFrom_value (v : Value) (t : Bytes) :
    skipFrom false (depth + 1) (v.text ++ t) = skipFrom false (depth + 1) t := by
  cases v with
  | str s =>
      have htext : (Value.str s).text ++ t = quote :: (s.text ++ quote :: t) := by simp [Value.text]
      rw [htext, skipFrom, if_pos rfl]
      exact skipFrom_text s t
  | _ => exact skipFrom_plain (plain_value (by simp)) t

theorem skipFrom_member (m : Member) (t : Bytes) :
    skipFrom false (depth + 1) (m.text ++ t) = skipFrom false (depth + 1) t := by
  have htext : m.text ++ t = m.lead.bytes ++ ((Value.str m.key).text ++
      (m.beforeColon.bytes ++ ([colon] ++ (m.afterColon.bytes ++ (m.value.text ++ (m.trail.bytes ++ t)))))) := by
    simp [Member.text]
  rw [htext, skipFrom_plain (plain_ws m.lead), skipFrom_value, skipFrom_plain (plain_ws m.beforeColon),
    skipFrom_plain (plain_of_all rfl), skipFrom_plain (plain_ws m.afterColon), skipFrom_value,
    skipFrom_plain (plain_ws m.trail)]

theorem skipFrom_more (ms : List Member) (t : Bytes) : skipFrom false 1 (moreText ms ++ t) = t := by
  induction ms with
  | nil =>
      have htext : moreText [] ++ t = closeBrace :: t := rfl
      rw [htext, skipFrom, if_neg (by decide), if_neg (by decide), if_pos rfl, skipFrom]
  | cons m ms ih =>
      have htext : moreText (m :: ms) ++ t = [comma] ++ (m.text ++ (moreText ms ++ t)) := by
        simp [moreText]
      rw [htext, skipFrom_plain (plain_of_all rfl), skipFrom_member, ih]

/-- An object is passed over from its opening brace on. -/
theorem skip_object (o : Object) (t : Bytes) :
    ∃ q, o.text ++ t = openBrace :: q ∧ skipFrom false 1 q = t := by
  obtain ⟨members, pad⟩ := o
  cases members with
  | nil =>
      refine ⟨pad.bytes ++ (moreText [] ++ t), by simp [Object.text, listed, moreText], ?_⟩
      rw [skipFrom_plain (plain_ws pad), skipFrom_more]
  | cons m ms =>
      refine ⟨m.text ++ (moreText ms ++ t), by simp [object_text_cons], ?_⟩
      rw [skipFrom_member, skipFrom_more]

end Skip

end UnicornSuite.News
