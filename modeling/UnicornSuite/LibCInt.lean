import Mathlib.Tactic.Common
import Mathlib.Algebra.Group.Nat.Defs
import Mathlib.Algebra.Group.Int.Defs
import Mathlib.Algebra.Order.Ring.Abs
import Mathlib.Algebra.Order.Ring.Int

/-! Fixed-width arithmetic. A C expression of a signed type is the exact integer expression with `wrap32`
around each operation that can leave the range of the type. Two unsigned counters that stay close compare
as the numbers they count while they have wrapped equally often, and the other way round while they have
not. -/

namespace CInt

/-- The largest and the smallest value of a 32-bit signed integer. -/
abbrev maxInt32 : Int := 2147483647

abbrev minInt32 : Int := -2147483648

/-- Reduction to a signed 32-bit value. -/
def wrap32 (v : Int) : Int := v.bmod 4294967296

/-- `v` is a value of a signed 32-bit integer. -/
def Fits32 (v : Int) : Prop := minInt32 ≤ v ∧ v ≤ maxInt32

instance (v : Int) : Decidable (Fits32 v) := inferInstanceAs (Decidable (_ ∧ _))

theorem wrap32_fits (v : Int) : Fits32 (wrap32 v) := by
  have hlo := Int.le_bmod (x := v) (m := 4294967296) (by decide)
  have hhi := Int.bmod_lt (x := v) (m := 4294967296) (by decide)
  simp only [Fits32, wrap32, minInt32, maxInt32]
  omega

theorem wrap32_le (v : Int) : wrap32 v ≤ maxInt32 := (wrap32_fits v).2

/-- An operation that stays in range is exact. -/
theorem wrap32_of_fits {v : Int} (h : Fits32 v) : wrap32 v = v := by
  simp only [Fits32, minInt32, maxInt32] at h
  exact Int.bmod_eq_of_le (by omega) (by omega)

/-- `v` is at most `k` away from zero. -/
def Within (k v : Int) : Prop := -k ≤ v ∧ v ≤ k

instance (k v : Int) : Decidable (Within k v) := inferInstanceAs (Decidable (_ ∧ _))

section Within

variable {k l v w : Int}

theorem Within.mono (h : Within k v) (hkl : k ≤ l) : Within l v := by
  obtain ⟨hlo, hhi⟩ := h
  constructor <;> omega

theorem Within.add (hv : Within k v) (hw : Within l w) : Within (k + l) (v + w) := by
  obtain ⟨hvlo, hvhi⟩ := hv
  obtain ⟨hwlo, hwhi⟩ := hw
  constructor <;> omega

theorem Within.sub (hv : Within k v) (hw : Within l w) : Within (k + l) (v - w) := by
  obtain ⟨hvlo, hvhi⟩ := hv
  obtain ⟨hwlo, hwhi⟩ := hw
  constructor <;> omega

theorem Within.neg (h : Within k v) : Within k (-v) := by
  obtain ⟨hlo, hhi⟩ := h
  constructor <;> omega

theorem Within.mul {m : Int} (hv : Within k v) (hw : Within l w) (hm : k * l ≤ m) :
    Within m (v * w) := by
  have habs : |v * w| ≤ k * l := by
    rw [abs_mul]
    exact mul_le_mul (abs_le.mpr hv) (abs_le.mpr hw) (abs_nonneg w)
      (le_trans (abs_nonneg v) (abs_le.mpr hv))
  exact abs_le.mp (habs.trans hm)

/-- Wrapping does not move away from zero. -/
theorem Within.wrap (h : Within k v) : Within k (wrap32 v) := by
  by_cases hfits : Fits32 v
  · rwa [wrap32_of_fits hfits]
  · have hwrap := wrap32_fits v
    obtain ⟨hlo, hhi⟩ := h
    simp only [Fits32, minInt32, maxInt32] at hfits hwrap
    constructor <;> omega

theorem Within.tdiv (h : Within k v) (b : Int) : Within k (v.tdiv b) := by
  have hle := Int.natAbs_tdiv_le_natAbs v b
  obtain ⟨hlo, hhi⟩ := h
  constructor <;> omega

theorem Within.fits (h : Within k v) (hk : k ≤ maxInt32) : Fits32 v := by
  obtain ⟨hlo, hhi⟩ := h
  simp only [maxInt32] at hk
  simp only [Fits32, minInt32, maxInt32]
  omega

end Within

/-- Every value of the list is at most `k` away from zero. -/
def AllWithin (k : Int) (vs : List Int) : Prop := ∀ v ∈ vs, Within k v

section AllWithin

variable {k l v : Int} {vs ws : List Int}

@[simp] theorem allWithin_nil : AllWithin k [] := List.forall_mem_nil _

@[simp] theorem allWithin_cons : AllWithin k (v :: vs) ↔ Within k v ∧ AllWithin k vs :=
  List.forall_mem_cons

@[simp] theorem allWithin_append : AllWithin k (vs ++ ws) ↔ AllWithin k vs ∧ AllWithin k ws :=
  List.forall_mem_append

theorem AllWithin.mono (h : AllWithin k vs) (hkl : k ≤ l) : AllWithin l vs :=
  fun v hv => (h v hv).mono hkl

end AllWithin

section Counters

variable {W a b d : Nat}

theorem mod_lt_mod_iff_of_div_eq (h : a / W = b / W) : a % W < b % W ↔ a < b := by
  have ha := Nat.div_add_mod a W
  have hb := Nat.div_add_mod b W
  rw [h] at ha
  omega

/-- A counter that is ahead by less than `W` and has wrapped once more is smaller. -/
theorem mod_lt_mod_of_div_lt (hclose : b ≤ a + d) (hd : d < W) (h : a / W < b / W) : b % W < a % W := by
  have hW : 0 < W := Nat.zero_lt_of_lt hd
  have hle : b / W ≤ a / W + 1 := by
    rw [← Nat.add_div_right a hW]
    exact Nat.div_le_div_right (hclose.trans (Nat.add_le_add_left hd.le a))
  have hdiv : b / W = a / W + 1 := Nat.le_antisymm hle h
  have ha := Nat.div_add_mod a W
  have hb := Nat.div_add_mod b W
  rw [hdiv, Nat.mul_add, Nat.mul_one] at hb
  omega

theorem mod_lt_mod_iff_of_div_ne (hab : a ≤ b + d) (hba : b ≤ a + d) (hd : d < W) (h : a / W ≠ b / W) :
    a % W < b % W ↔ b < a := by
  obtain hlt | hgt := Nat.lt_or_gt_of_ne h
  · have hmod := mod_lt_mod_of_div_lt hba hd hlt
    have hless : a < b := Nat.lt_of_not_le fun hle => absurd (Nat.div_le_div_right hle) (Nat.not_le.mpr hlt)
    exact iff_of_false (Nat.not_lt.mpr hmod.le) (Nat.not_lt.mpr hless.le)
  · have hmod := mod_lt_mod_of_div_lt hab hd hgt
    have hless : b < a := Nat.lt_of_not_le fun hle => absurd (Nat.div_le_div_right hle) (Nat.not_le.mpr hgt)
    exact iff_of_true hmod hless

end Counters

/-- Truncation moves two quotients of one sign the same way, so that quotients that add up to a whole
number add up to it truncated only if they were whole. -/
theorem tdiv_add_tdiv_iff {a b d m : Int} (hd : d ≠ 0) (hsum : a + b = d * m)
    (hsign : 0 ≤ a ∧ 0 ≤ b ∨ a ≤ 0 ∧ b ≤ 0) : a.tdiv d + b.tdiv d = m ↔ d ∣ a := by
  have ha := Int.mul_tdiv_add_tmod a d
  have hb := Int.mul_tdiv_add_tmod b d
  have hrest : a.tmod d + b.tmod d = d * (m - (a.tdiv d + b.tdiv d)) := by
    rw [mul_sub, mul_add]
    omega
  constructor
  · intro heq
    rw [heq, sub_self, mul_zero] at hrest
    refine Int.dvd_of_tmod_eq_zero ?_
    rcases hsign with ⟨ha0, hb0⟩ | ⟨ha0, hb0⟩
    · have hra := Int.tmod_nonneg d ha0
      have hrb := Int.tmod_nonneg d hb0
      omega
    · have hra := Int.tmod_nonneg d (Int.neg_nonneg_of_nonpos ha0)
      have hrb := Int.tmod_nonneg d (Int.neg_nonneg_of_nonpos hb0)
      rw [Int.neg_tmod] at hra hrb
      omega
  · intro hdvd
    have hdvd' : d ∣ b := (Int.dvd_add_right hdvd).mp ⟨m, hsum⟩
    rw [Int.tmod_eq_zero_of_dvd hdvd, Int.tmod_eq_zero_of_dvd hdvd'] at hrest
    have hzero := (Int.mul_eq_zero.mp hrest.symm).resolve_left hd
    omega

end CInt
