import Mathlib.Tactic.Common
import Mathlib.Algebra.Group.Nat.Defs

/-! C strings: the list of the bytes, the terminator left out. What the C library does to them, and
what of it can be said of the lists: `strncmp` is the lexicographic order of two heads, two words
differ where their common heads do or in length, and `atoi` reads what `%d` prints. -/

namespace CText

abbrev CString := List UInt8

/-- What is said of the bytes of a text is decided byte by byte, not for all the bytes there are. -/
instance (priority := 2000) decidableForallMem (p : UInt8 → Prop) [DecidablePred p] (s : List UInt8) :
    Decidable (∀ c ∈ s, p c) := List.decidableBAll p s

instance (priority := 2000) decidableForallOption (p : UInt8 → Prop) [DecidablePred p] (o : Option UInt8) :
    Decidable (∀ c ∈ o, p c) := Option.decidableForallMem o

/-- The bytes of an ASCII literal. -/
def ascii (s : String) : CString := s.toList.map (·.toNat.toUInt8)

def isDigit (c : UInt8) : Bool := 0x30 ≤ c ∧ c ≤ 0x39

def isBlank (c : UInt8) : Bool := c = 0x20 ∨ c = 0x09

def lower (c : UInt8) : UInt8 := if 0x41 ≤ c ∧ c ≤ 0x5a then c + 32 else c

/-- The decimal number a run of digits adds to what has been read. -/
def decimal (v : Nat) (s : CString) : Nat := s.foldl (fun v c => v * 10 + (c.toNat - 48)) v

/-- The C string in a buffer. -/
def cstr (buf : List UInt8) : CString := buf.takeWhile (· ≠ 0)

/-- What `%d` prints for a number that is not negative. -/
def decimalText (n : Nat) : CString :=
  if n < 10 then [UInt8.ofNat (48 + n)] else decimalText (n / 10) ++ [UInt8.ofNat (48 + n % 10)]

def isSpace (c : UInt8) : Bool := c = 0x20 ∨ (0x09 ≤ c ∧ c ≤ 0x0D)

def intMax : Int := 2147483647

/-- `atoi`; a number out of range gives the bound. -/
def atoi (s : CString) : Int :=
  let s := s.dropWhile isSpace
  let digits := if s.head? = some 0x2B ∨ s.head? = some 0x2D then s.tail else s
  let n : Int := decimal 0 (digits.takeWhile isDigit)
  if s.head? = some 0x2D then max (-n) (-intMax - 1) else min n intMax

/-- The UTF-8 of a code point, or of half a surrogate pair. -/
def utf8 (v : Nat) : List UInt8 :=
  if v < 0x80 then [UInt8.ofNat v]
  else if v < 0x800 then [UInt8.ofNat (0xC0 + v / 0x40), UInt8.ofNat (0x80 + v % 0x40)]
  else if v < 0x10000 then
    [UInt8.ofNat (0xE0 + v / 0x1000), UInt8.ofNat (0x80 + v / 0x40 % 0x40), UInt8.ofNat (0x80 + v % 0x40)]
  else
    [UInt8.ofNat (0xF0 + v / 0x40000), UInt8.ofNat (0x80 + v / 0x1000 % 0x40),
      UInt8.ofNat (0x80 + v / 0x40 % 0x40), UInt8.ofNat (0x80 + v % 0x40)]

/-- The sign a C comparison returns. -/
def sign : Ordering → Int
  | .lt => -1
  | .eq => 0
  | .gt => 1

/-- `strncmp`: bytes are compared as unsigned, and the end of a string as 0. -/
def strncmp : CString → CString → Nat → Int
  | _, _, 0 => 0
  | [], [], _ + 1 => 0
  | [], _ :: _, _ + 1 => -1
  | _ :: _, [], _ + 1 => 1
  | a :: as, b :: bs, n + 1 => if a = b then strncmp as bs n else if a < b then -1 else 1

/-- `_strnicmp`. -/
def strnicmp (a b : CString) (n : Nat) : Int := strncmp (a.map lower) (b.map lower) n

section Order

theorem sign_then (x y : Ordering) : sign (x.then y) = if sign x = 0 then sign y else sign x := by
  cases x <;> rfl

theorem sign_eq_zero {x : Ordering} : sign x = 0 ↔ x = .eq := by
  cases x <;> simp [sign]

theorem sign_compare (a b : UInt8) :
    sign (compare a b) = if a = b then 0 else if a < b then -1 else 1 := by
  by_cases heq : a = b
  · subst heq
    rw [if_pos rfl, Std.ReflOrd.compare_self]
    rfl
  · rw [if_neg heq]
    by_cases hlt : a < b
    · rw [if_pos hlt, Std.compare_eq_lt.mpr hlt]
      rfl
    · rw [if_neg hlt, Std.compare_eq_gt.mpr (UInt8.lt_of_le_of_ne (UInt8.not_lt.mp hlt) (Ne.symm heq))]
      rfl

theorem strncmp_eq_compare (a b : CString) (n : Nat) :
    strncmp a b n = sign (compare (a.take n) (b.take n)) := by
  induction n generalizing a b with
  | zero => simp [strncmp, sign]
  | succ n ih =>
      cases a with
      | nil => cases b <;> rfl
      | cons x as =>
          cases b with
          | nil => rfl
          | cons y bs =>
              rw [strncmp, List.take_succ_cons, List.take_succ_cons, List.compare_cons_cons,
                sign_then, sign_compare, ih]
              split_ifs <;> simp_all

/-- Two words are compared by their common heads, and where these agree by length. -/
theorem compare_eq_heads_then (a b : CString) :
    compare a b = (compare (a.take (min a.length b.length)) (b.take (min a.length b.length))).then
      (compare a.length b.length) := by
  induction a generalizing b with
  | nil => cases b <;> simp [Nat.compare_eq_ite_lt]
  | cons x as ih =>
      cases b with
      | nil => simp [Nat.compare_eq_ite_lt]
      | cons y bs =>
          rw [List.length_cons, List.length_cons, Nat.succ_min_succ, List.take_succ_cons,
            List.take_succ_cons, List.compare_cons_cons, List.compare_cons_cons, ih bs,
            Ordering.then_assoc]
          congr 2
          simp [Nat.compare_eq_ite_lt]

end Order

section Parts

variable {p : UInt8 → Bool} {w s : CString}

/-- What is left behind the first byte that ends a run is shorter. -/
theorem tail_dropWhile_lt (p : UInt8 → Bool) (hs : s ≠ []) :
    (s.dropWhile p).tail.length < s.length := by
  have hdrop := (List.dropWhile_sublist (l := s) p).length_le
  have hpos := List.length_pos_iff.mpr hs
  rw [List.length_tail]
  omega

/-- A run and what ends it. -/
theorem takeWhile_append (hw : ∀ c ∈ w, p c = true) (hs : ∀ c ∈ s.head?, p c = false) :
    (w ++ s).takeWhile p = w := by
  rw [List.takeWhile_append_of_pos hw]
  cases s with
  | nil => rw [List.takeWhile_nil, List.append_nil]
  | cons c s => rw [List.takeWhile_cons_of_neg (by simp [hs c rfl]), List.append_nil]

theorem dropWhile_append (hw : ∀ c ∈ w, p c = true) (hs : ∀ c ∈ s.head?, p c = false) :
    (w ++ s).dropWhile p = s := by
  rw [List.dropWhile_append_of_pos hw]
  cases s with
  | nil => rfl
  | cons c s => exact List.dropWhile_cons_of_neg (by simp [hs c rfl])

end Parts

section Decimal

@[simp] theorem decimal_nil (v : Nat) : decimal v [] = v := rfl

@[simp] theorem decimal_cons (v : Nat) (c : UInt8) (s : CString) :
    decimal v (c :: s) = decimal (v * 10 + (c.toNat - 48)) s := by
  unfold decimal
  exact List.foldl_cons

theorem decimal_append (v : Nat) (s t : CString) : decimal v (s ++ t) = decimal (decimal v s) t := by
  unfold decimal
  exact List.foldl_append

theorem digit_toNat {d : Nat} (hd : d < 10) : (UInt8.ofNat (48 + d)).toNat = 48 + d :=
  UInt8.toNat_ofNat_of_lt (by show _ < 256; omega)

theorem isDigit_ofNat {d : Nat} (hd : d < 10) : isDigit (UInt8.ofNat (48 + d)) = true := by
  have htoNat := digit_toNat hd
  simp only [isDigit, UInt8.le_iff_toNat_le, htoNat, decide_eq_true_eq]
  exact ⟨Nat.le_add_right _ _, by show _ ≤ 57; omega⟩

/-- What is printed is read again. -/
theorem decimal_decimalText (n : Nat) : decimal 0 (decimalText n) = n := by
  induction n using Nat.strongRecOn with
  | ind n ih =>
      rw [decimalText]
      split_ifs with hn
      · rw [decimal_cons, decimal_nil, digit_toNat hn]
        omega
      · rw [decimal_append, ih (n / 10) (by omega), decimal_cons, decimal_nil,
          digit_toNat (Nat.mod_lt n (by decide))]
        omega

theorem decimalText_digits (n : Nat) : ∀ c ∈ decimalText n, isDigit c = true := by
  induction n using Nat.strongRecOn with
  | ind n ih =>
      intro c hc
      rw [decimalText] at hc
      split_ifs at hc with hn
      · rw [List.mem_singleton.mp hc]
        exact isDigit_ofNat hn
      · rcases List.mem_append.mp hc with hc | hc
        · exact ih (n / 10) (by omega) c hc
        · rw [List.mem_singleton.mp hc]
          exact isDigit_ofNat (Nat.mod_lt n (by decide))

theorem decimalText_ne_nil (n : Nat) : decimalText n ≠ [] := by
  rw [decimalText]
  split_ifs
  · exact List.cons_ne_nil _ _
  · exact List.append_ne_nil_of_right_ne_nil _ (List.cons_ne_nil _ _)

theorem decimalText_length_le {n k : Nat} (hn : n < 10 ^ (k + 1)) :
    (decimalText n).length ≤ k + 1 := by
  induction k generalizing n with
  | zero =>
      have hone : decimalText n = [UInt8.ofNat (48 + n)] := by rw [decimalText, if_pos (by omega)]
      exact Nat.le_of_eq (congrArg List.length hone)
  | succ k ih =>
      rw [decimalText]
      split_ifs
      · exact Nat.le_add_left 1 _
      · have hlength := ih (n := n / 10) (by rw [Nat.pow_succ] at hn; omega)
        rw [List.length_append, List.length_singleton]
        omega

/-- `atoi` at the start of a run of digits. -/
theorem atoi_digits {s : CString} (hs : ∀ c ∈ s, isDigit c = true) (hne : s ≠ []) :
    atoi s = min (decimal 0 s : Int) intMax := by
  obtain ⟨c, t, rfl⟩ := List.exists_cons_of_ne_nil hne
  have hc := hs c List.mem_cons_self
  have hspace : isSpace c = false := by
    simp only [isDigit, isSpace, decide_eq_true_eq] at hc ⊢
    grind
  have hplus : c ≠ 0x2B := by
    rintro rfl
    cases hc
  have hminus : c ≠ 0x2D := by
    rintro rfl
    cases hc
  have hwhole : (c :: t).takeWhile isDigit = c :: t := by
    have htake := takeWhile_append (s := []) hs nofun
    rwa [List.append_nil] at htake
  unfold atoi
  simp only [List.dropWhile_cons_of_neg (by simp [hspace] : ¬ isSpace c = true), List.head?_cons,
    Option.some.injEq, hplus, hminus, or_self, if_false, hwhole]

end Decimal

end CText
