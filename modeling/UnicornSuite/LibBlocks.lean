import Mathlib.Tactic.Common
import Mathlib.Data.List.Basic

/-! Cutting a list into blocks of one size. `fullBlocks k l` are the whole blocks of `k` elements in
order and `remainder k l` is what is left; one more element either completes a block or lengthens the
remainder (`fullBlocks_concat`, `remainder_concat`). -/

namespace Blocks

variable {α : Type*} {k : Nat}

def fullBlocks (k : Nat) (l : List α) : List (List α) :=
  (List.range (l.length / k)).map fun i => (l.drop (i * k)).take k

def remainder (k : Nat) (l : List α) : List α := l.drop (l.length / k * k)

@[simp] theorem fullBlocks_nil : fullBlocks k ([] : List α) = [] := by simp [fullBlocks]

@[simp] theorem remainder_nil : remainder k ([] : List α) = [] := by simp [remainder]

theorem length_remainder (l : List α) : (remainder k l).length = l.length % k := by
  rw [remainder, List.length_drop, Nat.mod_eq_sub_div_mul]

theorem length_remainder_lt (hk : 0 < k) (l : List α) : (remainder k l).length < k := by
  rw [length_remainder]
  exact Nat.mod_lt _ hk

/-- The blocks and the remainder make up the list again. -/
theorem flatten_fullBlocks (l : List α) : (fullBlocks k l).flatten ++ remainder k l = l := by
  have hprefix : ∀ n, n * k ≤ l.length →
      ((List.range n).map fun i => (l.drop (i * k)).take k).flatten = l.take (n * k) := by
    intro n hn
    induction n with
    | zero => simp
    | succ n ih =>
        have hle : n * k ≤ l.length := Nat.le_trans (Nat.mul_le_mul_right k n.le_succ) hn
        rw [List.range_succ, List.map_append, List.flatten_append, ih hle]
        simp [Nat.succ_mul, List.take_add]
  rw [fullBlocks, remainder, hprefix _ (Nat.div_mul_le_self _ _), List.take_append_drop]

theorem div_succ_of_full (hk : 0 < k) {n : Nat} (hfull : n % k + 1 = k) :
    (n + 1) / k = n / k + 1 := by
  have hn := Nat.div_add_mod n k
  have hmul : n + 1 = k * (n / k + 1) := by
    rw [Nat.mul_succ]
    omega
  calc (n + 1) / k = k * (n / k + 1) / k := by rw [← hmul]
    _ = n / k + 1 := Nat.mul_div_cancel_left _ hk

theorem div_succ_of_lt (hk : 0 < k) {n : Nat} (hlt : n % k + 1 < k) : (n + 1) / k = n / k := by
  have hn := Nat.mod_add_div n k
  have hmul : n + 1 = n % k + 1 + k * (n / k) := by omega
  calc (n + 1) / k = (n % k + 1 + k * (n / k)) / k := by rw [← hmul]
    _ = n / k := by rw [Nat.add_mul_div_left _ _ hk, Nat.div_eq_of_lt hlt, Nat.zero_add]

/-- The blocks that lie in a list do not change when the list grows. -/
theorem blocks_append (l l' : List α) {n : Nat} (hn : n * k ≤ l.length) :
    ((List.range n).map fun i => ((l ++ l').drop (i * k)).take k) =
      (List.range n).map fun i => (l.drop (i * k)).take k := by
  refine List.map_congr_left fun i hi => ?_
  have hle : (i + 1) * k ≤ n * k := Nat.mul_le_mul_right k (List.mem_range.mp hi)
  rw [Nat.succ_mul] at hle
  rw [List.drop_append_of_le_length (by omega), List.take_append_of_le_length]
  rw [List.length_drop]
  omega

theorem fullBlocks_concat_full (hk : 0 < k) {l : List α} (hfull : l.length % k + 1 = k) (a : α) :
    fullBlocks k (l ++ [a]) = fullBlocks k l ++ [remainder k l ++ [a]] := by
  have hlen := Nat.div_add_mod' l.length k
  rw [fullBlocks, List.length_append, List.length_singleton, div_succ_of_full hk hfull,
    List.range_succ, List.map_append, blocks_append _ _ (Nat.div_mul_le_self _ _)]
  simp only [fullBlocks, remainder, List.map_cons, List.map_nil]
  rw [List.drop_append_of_le_length (by omega), List.take_of_length_le]
  rw [List.length_append, List.length_drop, List.length_singleton]
  omega

theorem remainder_concat_full (hk : 0 < k) {l : List α} (hfull : l.length % k + 1 = k) (a : α) :
    remainder k (l ++ [a]) = [] := by
  have hlen := Nat.div_add_mod' l.length k
  rw [remainder, List.length_append, List.length_singleton, div_succ_of_full hk hfull]
  refine List.drop_of_length_le ?_
  rw [List.length_append, List.length_singleton, Nat.succ_mul]
  omega

theorem fullBlocks_concat_lt (hk : 0 < k) {l : List α} (hlt : l.length % k + 1 < k) (a : α) :
    fullBlocks k (l ++ [a]) = fullBlocks k l := by
  rw [fullBlocks, List.length_append, List.length_singleton, div_succ_of_lt hk hlt,
    blocks_append _ _ (Nat.div_mul_le_self _ _), fullBlocks]

theorem remainder_concat_lt (hk : 0 < k) {l : List α} (hlt : l.length % k + 1 < k) (a : α) :
    remainder k (l ++ [a]) = remainder k l ++ [a] := by
  have hlen := Nat.div_add_mod' l.length k
  rw [remainder, List.length_append, List.length_singleton, div_succ_of_lt hk hlt,
    List.drop_append_of_le_length (by omega), remainder]

end Blocks
