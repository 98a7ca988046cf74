import Mathlib.Data.List.GetD
import Mathlib.Logic.Function.Iterate
import Mathlib.Tactic.Common

/-! Cyclic redundancy checks. A register of `n` bits takes a bit at its tap and shifts; the shift is
linear in exclusive or and loses nothing, and a bit that stands `i` places before the tap is at the tap
after `i` shifts. So `n` bits in a row are read as if they stood in the register (`run_eq`), and a change
confined to them never goes unseen (`burst`). Both directions of a register and both forms that go a
table entry at a time are here. -/

namespace Crc

structure Register (n : Nat) where
  shift : BitVec n → BitVec n
  /-- Where the bit stands that is at the tap after so many shifts. -/
  place : Nat → Nat
  place_lt : ∀ i, i < n → place i < n
  place_inj : ∀ i j, i < n → j < n → place i = place j → i = j
  shift_xor : ∀ a b, shift (a ^^^ b) = shift a ^^^ shift b
  shift_injective : Function.Injective shift
  shift_place : ∀ i, i + 1 < n → shift (.twoPow n (place (i + 1))) = .twoPow n (place i)

namespace Register

variable {n : Nat} (R : Register n)

/-- A bit alone, `i` places before the tap. -/
def slot (b : Bool) (i : Nat) : BitVec n := bif b then .twoPow n (R.place i) else 0#n

def step (s : BitVec n) (b : Bool) : BitVec n := R.shift (s ^^^ R.slot b 0)

def run (s : BitVec n) (bits : List Bool) : BitVec n := bits.foldl R.step s

/-- Bits side by side, the first of them `i` places before the tap. -/
def load : Nat → List Bool → BitVec n
  | _, [] => 0#n
  | i, b :: bits => R.slot b i ^^^ load (i + 1) bits

@[simp] theorem run_nil (s : BitVec n) : R.run s [] = s := rfl

@[simp] theorem run_cons (s : BitVec n) (b : Bool) (bits : List Bool) :
    R.run s (b :: bits) = R.run (R.step s b) bits := rfl

theorem run_append (s : BitVec n) (as bs : List Bool) :
    R.run s (as ++ bs) = R.run (R.run s as) bs :=
  List.foldl_append

theorem shift_zero : R.shift 0#n = 0#n := by
  have h := R.shift_xor 0#n 0#n
  rw [BitVec.xor_self] at h
  rw [h, BitVec.xor_self]

theorem shift_slot (b : Bool) {i : Nat} (hi : i + 1 < n) : R.shift (R.slot b (i + 1)) = R.slot b i := by
  cases b with
  | false => exact R.shift_zero
  | true => exact R.shift_place i hi

theorem shift_load (bits : List Bool) (i : Nat) (h : i + bits.length < n) :
    R.shift (R.load (i + 1) bits) = R.load i bits := by
  induction bits generalizing i with
  | nil => exact R.shift_zero
  | cons b bits ih =>
      rw [List.length_cons] at h
      rw [load, load, R.shift_xor, R.shift_slot b (by omega), ih (i + 1) (by omega)]

/-- **No more bits than the register has** are read as if they stood in it. -/
theorem run_eq (s : BitVec n) (bits : List Bool) (h : bits.length ≤ n) :
    R.run s bits = R.shift^[bits.length] (s ^^^ R.load 0 bits) := by
  induction bits generalizing s with
  | nil =>
      rw [run_nil, List.length_nil, Function.iterate_zero, id_eq, load]
      exact BitVec.xor_zero.symm
  | cons b bits ih =>
      rw [List.length_cons] at h
      rw [run_cons, ih _ (by omega), List.length_cons, Function.iterate_succ_apply, load,
        ← R.shift_load bits 0 (by omega), step, ← R.shift_xor, BitVec.xor_assoc]

theorem iterate_injective (k : Nat) : Function.Injective (R.shift^[k]) :=
  R.shift_injective.iterate k

theorem iterate_xor (k : Nat) (a b : BitVec n) :
    R.shift^[k] (a ^^^ b) = R.shift^[k] a ^^^ R.shift^[k] b := by
  induction k generalizing a b with
  | zero => rfl
  | succ k ih => rw [Function.iterate_succ_apply, R.shift_xor, ih, Function.iterate_succ_apply,
      Function.iterate_succ_apply]

theorem run_injective (bits : List Bool) : Function.Injective (fun s => R.run s bits) := by
  induction bits with
  | nil => exact fun _ _ h => h
  | cons b bits ih =>
      intro s t h
      exact BitVec.xor_left_inj _ |>.mp (R.shift_injective (ih h))

/-! ### What stands in the register -/

theorem getLsbD_slot (b : Bool) {i j : Nat} (hi : i < n) (hj : j < n) :
    (R.slot b i).getLsbD (R.place j) = (b && decide (i = j)) := by
  cases b with
  | false => simp [slot]
  | true =>
      simp only [slot, cond_true, BitVec.getLsbD_twoPow, Bool.true_and, R.place_lt i hi, decide_true]
      by_cases h : i = j
      · rw [h]
        simp
      · have : R.place i ≠ R.place j := fun e => h (R.place_inj i j hi hj e)
        simp [h, this]

theorem getLsbD_load (bits : List Bool) {i j : Nat} (h : i + bits.length ≤ n) (hj : j < n) :
    (R.load i bits).getLsbD (R.place j) = (decide (i ≤ j) && bits.getD (j - i) false) := by
  induction bits generalizing i with
  | nil => simp [load]
  | cons b bits ih =>
      rw [List.length_cons] at h
      rw [load, BitVec.getLsbD_xor, R.getLsbD_slot b (by omega) hj, ih (by omega)]
      rcases Nat.lt_trichotomy i j with hlt | rfl | hgt
      · have e : j - i = (j - (i + 1)) + 1 := by omega
        have h1 : i ≠ j := by omega
        have h2 : i + 1 ≤ j := hlt
        have h3 : i ≤ j := by omega
        rw [e, List.getD_cons_succ]
        simp [h1, h2, h3]
      · have h1 : ¬i + 1 ≤ i := by omega
        simp [h1]
      · have h1 : i ≠ j := by omega
        have h2 : ¬i + 1 ≤ j := by omega
        have h3 : ¬i ≤ j := by omega
        simp [h1, h2, h3]

theorem load_injective {as bs : List Bool} (hl : as.length = bs.length) (hn : as.length ≤ n)
    (h : R.load 0 as = R.load 0 bs) : as = bs := by
  apply List.ext_getElem hl
  intro j ha hb
  have hj : j < n := by omega
  have key := congrArg (BitVec.getLsbD · (R.place j)) h
  simp only [R.getLsbD_load as (by omega : 0 + as.length ≤ n) hj,
    R.getLsbD_load bs (by omega : 0 + bs.length ≤ n) hj] at key
  simpa [ha, hb] using key

/-- **A burst is seen.** Two messages that differ in no more bits in a row than the register has, and
leave the same in it, are one message. -/
theorem burst (s : BitVec n) (p q as bs : List Bool) (hl : as.length = bs.length)
    (hn : as.length ≤ n) (h : R.run s (p ++ as ++ q) = R.run s (p ++ bs ++ q)) : as = bs := by
  rw [run_append, run_append, run_append, run_append] at h
  have h' := R.run_injective q h
  rw [R.run_eq _ as hn, R.run_eq _ bs (by omega), hl] at h'
  exact R.load_injective hl hn ((BitVec.xor_right_inj _).mp (R.iterate_injective _ h'))

end Register

/-! ### A register that shifts left -/

/-- The bits of a word, the first one first. -/
def msbFirst {m : Nat} (x : BitVec m) : List Bool := (List.range m).map x.getMsbD

def lsbFirst {m : Nat} (x : BitVec m) : List Bool := (List.range m).map x.getLsbD

@[simp] theorem length_msbFirst {m : Nat} (x : BitVec m) : (msbFirst x).length = m := by
  simp [msbFirst]

@[simp] theorem length_lsbFirst {m : Nat} (x : BitVec m) : (lsbFirst x).length = m := by
  simp [lsbFirst]

theorem msbFirst_append {m k : Nat} (x : BitVec m) (y : BitVec k) :
    msbFirst (x ++ y) = msbFirst x ++ msbFirst y := by
  rw [msbFirst, List.range_add, List.map_append, List.map_map]
  congr 1
  · apply List.map_congr_left
    intro i hi
    have h : ¬m ≤ i := Nat.not_le.mpr (List.mem_range.mp hi)
    simp [BitVec.getMsbD_append, h]
  · apply List.map_congr_left
    intro i _
    simp [BitVec.getMsbD_append]

theorem lsbFirst_append {m k : Nat} (x : BitVec m) (y : BitVec k) :
    lsbFirst (x ++ y) = lsbFirst y ++ lsbFirst x := by
  have hr : List.range (m + k) = List.range k ++ (List.range m).map (k + ·) := by
    rw [Nat.add_comm, List.range_add]
  rw [lsbFirst, hr, List.map_append, List.map_map]
  congr 1
  · apply List.map_congr_left
    intro i hi
    simp [BitVec.getLsbD_append, List.mem_range.mp hi]
  · apply List.map_congr_left
    intro i _
    simp [BitVec.getLsbD_append]

section Left

variable {n : Nat} (poly : BitVec n)

def shiftLeft (s : BitVec n) : BitVec n := if s.msb then (s <<< 1) ^^^ poly else s <<< 1

theorem xor_xor_cancel (a b p : BitVec n) : a ^^^ p ^^^ (b ^^^ p) = a ^^^ b := by
  rw [BitVec.xor_comm b p, ← BitVec.xor_assoc, BitVec.xor_assoc a p p, BitVec.xor_self,
    BitVec.xor_zero]

/-- A linear map that is only ever zero at zero is injective. -/
theorem injective_of_xor {f : BitVec n → BitVec n} (hx : ∀ a b, f (a ^^^ b) = f a ^^^ f b)
    (h0 : ∀ a, f a = 0#n → a = 0#n) : Function.Injective f := by
  intro a b h
  have hz : f (a ^^^ b) = 0#n := by
    rw [hx, h]
    exact BitVec.xor_self
  exact BitVec.xor_eq_zero_iff.mp (h0 _ hz)

/-- Two branches on a bit, linear in both the bit and the rest. -/
theorem branch_xor (a b : Bool) (x y p : BitVec n) :
    (if (a ^^ b) = true then (x ^^^ y) ^^^ p else x ^^^ y) =
      (if a = true then x ^^^ p else x) ^^^ (if b = true then y ^^^ p else y) := by
  cases a with
  | false =>
      cases b with
      | false => rfl
      | true => exact BitVec.xor_assoc x y p
  | true =>
      cases b with
      | false =>
          change x ^^^ y ^^^ p = x ^^^ p ^^^ y
          rw [BitVec.xor_assoc, BitVec.xor_comm y p, BitVec.xor_assoc]
      | true => exact (xor_xor_cancel x y p).symm

theorem shiftLeft_xor (a b : BitVec n) :
    shiftLeft poly (a ^^^ b) = shiftLeft poly a ^^^ shiftLeft poly b := by
  rw [shiftLeft, BitVec.msb_xor, BitVec.shiftLeft_xor_distrib]
  exact branch_xor _ _ _ _ _

/-- The last bit of the polynomial says whether the first bit of the register was set. -/
theorem shiftLeft_zero_imp (hp : poly.getLsbD 0 = true) (a : BitVec n)
    (h : shiftLeft poly a = 0#n) : a = 0#n := by
  have hm : a.msb = false := by
    cases hm : a.msb with
    | false => rfl
    | true =>
        have h0 := congrArg (BitVec.getLsbD · 0) h
        simp [shiftLeft, hm, hp] at h0
  apply BitVec.eq_of_getLsbD_eq
  intro i hi
  rcases Nat.lt_or_ge (i + 1) n with hlt | hge
  · have hb := congrArg (BitVec.getLsbD · (i + 1)) h
    simpa [shiftLeft, hm, hlt, BitVec.getLsbD_eq_getElem, hi] using hb
  · rw [BitVec.msb_eq_getLsbD_last, show n - 1 = i by omega] at hm
    simpa using hm

theorem shiftLeft_of_clear {s : BitVec n} (h : s.msb = false) : shiftLeft poly s = s <<< 1 := by
  simp [shiftLeft, h]

def left (hp : poly.getLsbD 0 = true) : Register n where
  shift := shiftLeft poly
  place i := n - 1 - i
  place_lt i hi := by omega
  place_inj i j hi hj h := by omega
  shift_xor := shiftLeft_xor poly
  shift_injective := injective_of_xor (shiftLeft_xor poly) (shiftLeft_zero_imp poly hp)
  shift_place i hi := by
    have hm : (BitVec.twoPow n (n - 1 - (i + 1))).msb = false := by
      rw [BitVec.msb_eq_getLsbD_last, BitVec.getLsbD_twoPow]
      simp
      omega
    rw [shiftLeft_of_clear poly hm, BitVec.twoPow_eq, ← BitVec.shiftLeft_add, BitVec.twoPow_eq]
    congr 1
    omega

/-- A register whose first bits are clear only moves. -/
theorem iterate_shiftLeft_of_clear (s : BitVec n) (k : Nat)
    (h : ∀ i, i < k → s.getMsbD i = false) : (shiftLeft poly)^[k] s = s <<< k := by
  induction k with
  | zero => simp
  | succ k ih =>
      have hm : (s <<< k).msb = false := by
        rw [BitVec.msb_eq_getMsbD_zero, BitVec.getMsbD_shiftLeft, Nat.zero_add]
        exact h k (by omega)
      rw [Function.iterate_succ_apply', ih fun i hi => h i (by omega), shiftLeft_of_clear poly hm,
        BitVec.shiftLeft_add]

variable {m : Nat} (hp : poly.getLsbD 0 = true)

theorem load_msbFirst (x : BitVec m) (hm : m ≤ n) :
    (left poly hp).load 0 (msbFirst x) = x.setWidth n <<< (n - m) := by
  apply BitVec.eq_of_getLsbD_eq
  intro j hj
  have hplace : j = (left poly hp).place (n - 1 - j) := by
    change j = n - 1 - (n - 1 - j)
    omega
  rw [hplace, (left poly hp).getLsbD_load _ (by simpa using hm) (by omega), ← hplace]
  simp only [Nat.zero_le, decide_true, Bool.true_and, Nat.sub_zero, BitVec.getLsbD_shiftLeft,
    BitVec.getLsbD_setWidth, hj]
  by_cases h : n - 1 - j < m
  · rw [List.getD_eq_getElem _ _ (by simpa using h)]
    have h1 : ¬j < n - m := by omega
    have h2 : m - 1 - (n - 1 - j) = j - (n - m) := by omega
    simp only [msbFirst, List.getElem_map, List.getElem_range, BitVec.getMsbD_eq_getLsbD, h,
      decide_true, Bool.true_and, h1, Bool.not_false, decide_false, h2]
    have h3 : j - (n - m) < n := by omega
    simp [h3]
  · rw [List.getD_eq_default _ _ (by simpa using h)]
    have h1 : j < n - m := by omega
    simp [h1]

/-- The register after a word has gone through it from nothing but itself: nothing. -/
theorem run_self_left (s : BitVec n) : (left poly hp).run s (msbFirst s) = 0#n := by
  rw [Register.run_eq _ _ _ (by simp), load_msbFirst poly hp s (Nat.le_refl n)]
  simp only [BitVec.setWidth_eq, Nat.sub_self, BitVec.shiftLeft_zero, BitVec.xor_self]
  induction (msbFirst s).length with
  | zero => rfl
  | succ k ih => rw [Function.iterate_succ_apply, Register.shift_zero, ih]

/-- **A table entry for a whole word**: the entry for what falls out, and the rest moved up. -/
theorem run_word_left (s : BitVec n) (x : BitVec m) (hm : m ≤ n) :
    (left poly hp).run s (msbFirst x) =
      (shiftLeft poly)^[m] (((s >>> (n - m)) ^^^ x.setWidth n) <<< (n - m)) ^^^ (s <<< m) := by
  -- the register is its first `m` bits and the others, and those only move
  have hsplit : s ^^^ x.setWidth n <<< (n - m) =
      (((s >>> (n - m)) ^^^ x.setWidth n) <<< (n - m)) ^^^ (s &&& (BitVec.allOnes n >>> m)) := by
    apply BitVec.eq_of_getLsbD_eq
    intro j hj
    simp only [BitVec.getLsbD_xor, BitVec.getLsbD_shiftLeft, BitVec.getLsbD_and,
      BitVec.getLsbD_ushiftRight, BitVec.getLsbD_allOnes, hj, decide_true, Bool.true_and]
    by_cases h : j < n - m
    · have h1 : m + j < n := by omega
      simp [h, h1]
    · have h1 : ¬m + j < n := by omega
      have h2 : n - m + (j - (n - m)) = j := by omega
      simp [h, h1, h2]
  have hclear : ∀ i, i < m → (s &&& (BitVec.allOnes n >>> m)).getMsbD i = false := by
    intro i hi
    simp [BitVec.getMsbD_eq_getLsbD]
    omega
  have hrest : (s &&& (BitVec.allOnes n >>> m)) <<< m = s <<< m := by
    apply BitVec.eq_of_getLsbD_eq
    intro j hj
    simp only [BitVec.getLsbD_shiftLeft, BitVec.getLsbD_and, BitVec.getLsbD_ushiftRight,
      BitVec.getLsbD_allOnes]
    by_cases h : j < m
    · simp [h]
    · have h1 : m + (j - m) < n := by omega
      simp [h1]
  rw [Register.run_eq _ _ _ (by simpa using hm), load_msbFirst poly hp x hm, length_msbFirst, hsplit,
    Register.iterate_xor]
  change _ ^^^ (shiftLeft poly)^[m] _ = _
  rw [iterate_shiftLeft_of_clear poly _ m hclear, hrest]
  rfl

end Left

/-! ### A register that shifts right -/

section Right

variable {n : Nat} (poly : BitVec n)

def shiftRight (s : BitVec n) : BitVec n := if s.getLsbD 0 then (s >>> 1) ^^^ poly else s >>> 1

theorem shiftRight_xor (a b : BitVec n) :
    shiftRight poly (a ^^^ b) = shiftRight poly a ^^^ shiftRight poly b := by
  rw [shiftRight, BitVec.getLsbD_xor, BitVec.ushiftRight_xor_distrib]
  exact branch_xor _ _ _ _ _

theorem shiftRight_zero_imp (hp : poly.msb = true) (a : BitVec n)
    (h : shiftRight poly a = 0#n) : a = 0#n := by
  have hn : 0 < n := by
    by_contra h0
    rw [BitVec.msb_eq_getLsbD_last, BitVec.getLsbD_of_ge _ _ (by omega)] at hp
    cases hp
  have hm : a.getLsbD 0 = false := by
    cases hm : a.getLsbD 0 with
    | false => rfl
    | true =>
        have h0 := congrArg (BitVec.getLsbD · (n - 1)) h
        rw [BitVec.msb_eq_getLsbD_last] at hp
        have : ¬n - 1 + 1 < n := by omega
        simp [shiftRight, hm, hp, Nat.add_comm 1, BitVec.getLsbD_of_ge a (n - 1 + 1) (by omega)] at h0
  apply BitVec.eq_of_getLsbD_eq
  intro i hi
  cases i with
  | zero => simpa using hm
  | succ i =>
      have hb := congrArg (BitVec.getLsbD · i) h
      simpa [shiftRight, hm, Nat.add_comm 1] using hb

theorem shiftRight_of_clear {s : BitVec n} (h : s.getLsbD 0 = false) :
    shiftRight poly s = s >>> 1 := by
  simp [shiftRight, h]

def right (hp : poly.msb = true) : Register n where
  shift := shiftRight poly
  place i := i
  place_lt _ hi := hi
  place_inj _ _ _ _ h := h
  shift_xor := shiftRight_xor poly
  shift_injective := injective_of_xor (shiftRight_xor poly) (shiftRight_zero_imp poly hp)
  shift_place i hi := by
    have hm : (BitVec.twoPow n (i + 1)).getLsbD 0 = false := by simp [BitVec.getLsbD_twoPow]
    rw [shiftRight_of_clear poly hm]
    apply BitVec.eq_of_getLsbD_eq
    intro j hj
    rw [BitVec.getLsbD_ushiftRight, BitVec.getLsbD_twoPow, BitVec.getLsbD_twoPow]
    have h1 : i < n := by omega
    have h2 : (i + 1 = 1 + j) ↔ (i = j) := by omega
    simp [hi, h1, h2]

theorem iterate_shiftRight_of_clear (s : BitVec n) (k : Nat)
    (h : ∀ i, i < k → s.getLsbD i = false) : (shiftRight poly)^[k] s = s >>> k := by
  induction k with
  | zero => simp
  | succ k ih =>
      have hm : (s >>> k).getLsbD 0 = false := by
        rw [BitVec.getLsbD_ushiftRight, Nat.add_zero]
        exact h k (by omega)
      rw [Function.iterate_succ_apply', ih fun i hi => h i (by omega), shiftRight_of_clear poly hm,
        BitVec.shiftRight_add]

variable {m : Nat} (hp : poly.msb = true)

theorem load_lsbFirst (x : BitVec m) (hm : m ≤ n) :
    (right poly hp).load 0 (lsbFirst x) = x.setWidth n := by
  apply BitVec.eq_of_getLsbD_eq
  intro j hj
  have hplace : j = (right poly hp).place j := rfl
  rw [hplace, (right poly hp).getLsbD_load _ (by simpa using hm) hj, ← hplace]
  simp only [Nat.zero_le, decide_true, Bool.true_and, Nat.sub_zero, BitVec.getLsbD_setWidth, hj]
  by_cases h : j < m
  · rw [List.getD_eq_getElem _ _ (by simpa using h)]
    simp [lsbFirst]
  · rw [List.getD_eq_default _ _ (by simpa using h)]
    exact (BitVec.getLsbD_of_ge x j (by omega)).symm

/-- The register after a word has gone through it that was taken from it with a mask: only the mask. -/
theorem run_mask_right (s mask : BitVec n) :
    (right poly hp).run s (lsbFirst (s ^^^ mask)) = (shiftRight poly)^[n] mask := by
  rw [Register.run_eq _ _ _ (by simp), load_lsbFirst poly hp _ (Nat.le_refl n), length_lsbFirst,
    BitVec.setWidth_eq, ← BitVec.xor_assoc, BitVec.xor_self, BitVec.zero_xor]
  rfl

theorem run_word_right (s : BitVec n) (x : BitVec m) (hm : m ≤ n) :
    (right poly hp).run s (lsbFirst x) =
      (shiftRight poly)^[m] ((s ^^^ x.setWidth n) &&& (BitVec.allOnes n >>> (n - m))) ^^^
        (s >>> m) := by
  have hsplit : s ^^^ x.setWidth n =
      ((s ^^^ x.setWidth n) &&& (BitVec.allOnes n >>> (n - m))) ^^^ ((s >>> m) <<< m) := by
    apply BitVec.eq_of_getLsbD_eq
    intro j hj
    simp only [BitVec.getLsbD_xor, BitVec.getLsbD_shiftLeft, BitVec.getLsbD_and,
      BitVec.getLsbD_ushiftRight, BitVec.getLsbD_allOnes, BitVec.getLsbD_setWidth, hj, decide_true,
      Bool.true_and]
    by_cases h : j < m
    · have h1 : n - m + j < n := by omega
      simp [h, h1]
    · have h1 : ¬n - m + j < n := by omega
      have h2 : m + (j - m) = j := by omega
      simp [h, h1, h2, BitVec.getLsbD_of_ge x j (by omega)]
  have hclear : ∀ i, i < m → ((s >>> m) <<< m).getLsbD i = false := by
    intro i hi
    simp [hi]
  have hrest : ((s >>> m) <<< m) >>> m = s >>> m := by
    apply BitVec.eq_of_getLsbD_eq
    intro j hj
    simp only [BitVec.getLsbD_shiftLeft, BitVec.getLsbD_ushiftRight]
    by_cases h : m + j < n
    · simp [h]
    · simp [h, BitVec.getLsbD_of_ge s (m + j) (by omega)]
  rw [Register.run_eq _ _ _ (by simpa using hm), load_lsbFirst poly hp x hm, length_lsbFirst, hsplit,
    Register.iterate_xor]
  change _ ^^^ (shiftRight poly)^[m] _ = _
  rw [iterate_shiftRight_of_clear poly _ m hclear, hrest, ← hsplit]
  rfl

end Right

end Crc
