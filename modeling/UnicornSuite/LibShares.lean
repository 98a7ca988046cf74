import Mathlib.Algebra.BigOperators.Intervals
import Mathlib.Algebra.Order.BigOperators.Group.Finset
import Mathlib.Algebra.BigOperators.Ring.Finset
import Mathlib.Tactic.Linarith

/-! Sharing a whole amount in proportion to weights, with the quotients rounded towards zero. The shares
never exceed the amount together, and nothing is lost when one of them takes the remainder. -/

namespace UnicornSuite.Shares

open Finset

variable {ι : Type*}

/-- The part of `amount` for the weight `w` in `total`. -/
def share (amount total w : Int) : Int := (amount * w).tdiv total

@[simp] theorem share_zero (amount total : Int) : share amount total 0 = 0 := by
  rw [share, Int.mul_zero, Int.zero_tdiv]

theorem share_nonneg {amount total w : Int} (ha : 0 ≤ amount) (ht : 0 ≤ total) (hw : 0 ≤ w) :
    0 ≤ share amount total w :=
  Int.tdiv_nonneg (Int.mul_nonneg ha hw) ht

theorem share_mul_le {amount total w : Int} (ha : 0 ≤ amount) (ht : 0 < total) (hw : 0 ≤ w) :
    share amount total w * total ≤ amount * w := by
  rw [share, Int.tdiv_eq_ediv_of_nonneg (Int.mul_nonneg ha hw)]
  exact Int.ediv_mul_le _ (ne_of_gt ht)

/-- A share is nothing when it would be less than one. -/
theorem share_eq_zero_iff {amount total w : Int} (ha : 0 ≤ amount) (ht : 0 < total) (hw : 0 ≤ w) :
    share amount total w = 0 ↔ amount * w < total := by
  rw [share, Int.tdiv_eq_ediv_of_nonneg (Int.mul_nonneg ha hw)]
  constructor
  · intro h
    have hmod := Int.emod_lt_of_pos (amount * w) ht
    have hsplit := Int.emod_add_mul_ediv (amount * w) total
    rw [h, Int.mul_zero, Int.add_zero] at hsplit
    omega
  · exact Int.ediv_eq_zero_of_lt (Int.mul_nonneg ha hw)

/-- The shares of weights that do not exceed the total do not exceed the amount. -/
theorem sum_share_le {s : Finset ι} {w : ι → Int} {amount total : Int} (ha : 0 ≤ amount) (ht : 0 < total)
    (hw : ∀ i ∈ s, 0 ≤ w i) (hsum : ∑ i ∈ s, w i ≤ total) : ∑ i ∈ s, share amount total (w i) ≤ amount := by
  have hmul : (∑ i ∈ s, share amount total (w i)) * total ≤ amount * total := by
    calc (∑ i ∈ s, share amount total (w i)) * total = ∑ i ∈ s, share amount total (w i) * total :=
          sum_mul _ _ _
      _ ≤ ∑ i ∈ s, amount * w i := sum_le_sum fun i hi => share_mul_le ha ht (hw i hi)
      _ = amount * ∑ i ∈ s, w i := (mul_sum _ _ _).symm
      _ ≤ amount * total := Int.mul_le_mul_of_nonneg_left hsum ha
  exact le_of_mul_le_mul_right hmul ht

/-- What is left of the amount is not negative. -/
theorem remainder_nonneg {s : Finset ι} {w : ι → Int} {amount total : Int} (ha : 0 ≤ amount) (ht : 0 < total)
    (hw : ∀ i ∈ s, 0 ≤ w i) (hsum : ∑ i ∈ s, w i ≤ total) :
    0 ≤ amount - ∑ i ∈ s, share amount total (w i) :=
  Int.sub_nonneg_of_le (sum_share_le ha ht hw hsum)

end UnicornSuite.Shares
