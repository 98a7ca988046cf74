import Mathlib.Algebra.Group.Nat.Even
import Mathlib.Data.List.Rotate
import Mathlib.Data.List.Zip
import Mathlib.Data.Nat.ModEq
import Mathlib.Logic.Function.Basic

/-! A queue in a ring of `n` cells: the elements stand in `count` cells from `tail` on, the last cell
followed by the first one, and are put in at the cell behind them. -/

namespace Fifo

variable {α : Type*} {n : Nat}

/-- The elements of `count` cells of the ring from `tail` on. -/
def window (n : Nat) (cells : Nat → α) (tail count : Nat) : List α :=
  (List.range count).map fun i => cells ((tail + i) % n)

/-- An element written to the cell at the head, and the head moved on. -/
def put (n : Nat) (r : (Nat → α) × Nat) (x : α) : (Nat → α) × Nat :=
  (Function.update r.1 r.2 x, (r.2 + 1) % n)

@[simp] theorem window_zero (cells : Nat → α) (tail : Nat) : window n cells tail 0 = [] := rfl

@[simp] theorem length_window (cells : Nat → α) (tail count : Nat) :
    (window n cells tail count).length = count := by
  simp [window]

theorem window_succ (cells : Nat → α) (tail count : Nat) :
    window n cells tail (count + 1) = window n cells tail count ++ [cells ((tail + count) % n)] := by
  simp [window, List.range_succ]

/-- The first element is the one at `tail`. -/
theorem window_cons (cells : Nat → α) {tail : Nat} (htail : tail < n) (count : Nat) :
    window n cells tail (count + 1) = cells tail :: window n cells ((tail + 1) % n) count := by
  rw [window, window, List.range_succ_eq_map, List.map_cons, List.map_map, Nat.add_zero,
    Nat.mod_eq_of_lt htail]
  refine congrArg (cells tail :: ·) (List.map_congr_left fun i _ => ?_)
  rw [Function.comp_apply, Nat.mod_add_mod, Nat.add_right_comm, Nat.add_assoc]

/-- The elements behind the first `k` are those from the cell behind them on. -/
theorem window_add (cells : Nat → α) (tail k count : Nat) :
    window n cells tail (k + count) = window n cells tail k ++ window n cells ((tail + k) % n) count := by
  rw [window, List.range_add, List.map_append, List.map_map]
  refine congrArg (window n cells tail k ++ ·) (List.map_congr_left fun i _ => ?_)
  rw [Function.comp_apply, Nat.mod_add_mod, Nat.add_assoc]

theorem mod_ne {tail i j : Nat} (hij : i < j) (hj : j < n) : (tail + i) % n ≠ (tail + j) % n := by
  intro heq
  have hmod : i % n = j % n := Nat.ModEq.add_left_cancel' (n := n) tail heq
  rw [Nat.mod_eq_of_lt (hij.trans hj), Nat.mod_eq_of_lt hj] at hmod
  exact hij.ne hmod

/-- An element put in behind the others leaves them as they are. -/
theorem window_update (cells : Nat → α) (tail : Nat) {count : Nat} (hcount : count < n) (x : α) :
    window n (Function.update cells ((tail + count) % n) x) tail (count + 1) =
      window n cells tail count ++ [x] := by
  rw [window_succ, Function.update_self]
  refine congrArg (· ++ [x]) (List.map_congr_left fun i hi => ?_)
  rw [Function.update_of_ne (mod_ne (List.mem_range.mp hi) hcount)]

/-- The elements of a list put in one by one stand behind the others, and the head behind them. -/
theorem foldl_put (cells : Nat → α) (tail : Nat) {count : Nat} {xs : List α}
    (hroom : count + xs.length ≤ n) :
    window n (xs.foldl (put n) (cells, (tail + count) % n)).1 tail (count + xs.length) =
        window n cells tail count ++ xs ∧
      (xs.foldl (put n) (cells, (tail + count) % n)).2 = (tail + (count + xs.length)) % n := by
  induction xs generalizing cells count with
  | nil =>
      rw [List.length_nil, Nat.add_zero, List.append_nil]
      exact ⟨rfl, rfl⟩
  | cons x xs ih =>
      rw [List.length_cons] at hroom ⊢
      have hnext : ((tail + count) % n + 1) % n = (tail + (count + 1)) % n := by
        rw [Nat.mod_add_mod, Nat.add_assoc]
      have hcount : count + (xs.length + 1) = count + 1 + xs.length := by omega
      have hroom' : count + 1 + xs.length ≤ n := by omega
      have hrest := ih (Function.update cells ((tail + count) % n) x) hroom'
      rw [List.foldl_cons, put, hnext, hcount]
      refine ⟨?_, hrest.2⟩
      rw [hrest.1, window_update cells tail (by omega) x, List.append_assoc, List.singleton_append]

end Fifo

/-! Lists read as rings, the first element after the last one. `links` pairs each element with the one
before it. To turn the ring moves its links along, to reverse it turns each of them round, and a property
changes along an even number of them. -/

namespace Circular

variable {α : Type*}

/-- Each element of the ring with the one before it. -/
def links (l : List α) : List (α × α) := l.zip (l.rotate (l.length - 1))

@[simp] theorem length_links (l : List α) : (links l).length = l.length := by
  simp [links]

theorem zip_rotate {l l' : List α} (h : l.length = l'.length) (k : Nat) :
    (l.rotate k).zip (l'.rotate k) = (l.zip l').rotate k :=
  (List.zipWith_rotate_distrib Prod.mk l l' k h).symm

theorem links_rotate (l : List α) (k : Nat) : links (l.rotate k) = (links l).rotate k := by
  rw [links, links, List.length_rotate, List.rotate_rotate, Nat.add_comm, ← List.rotate_rotate]
  exact zip_rotate (List.length_rotate _ _).symm k

theorem links_rotate_perm (l : List α) (k : Nat) : (links (l.rotate k)).Perm (links l) := by
  rw [links_rotate]
  exact List.rotate_perm _ _

theorem links_reverse_perm (l : List α) : (links l.reverse).Perm ((links l).map Prod.swap) := by
  cases l with
  | nil => exact List.Perm.refl _
  | cons a l =>
      have hback : (a :: l).reverse.rotate ((a :: l).reverse.length - 1) =
          ((a :: l).rotate 1).reverse := by
        rw [List.rotate_reverse, List.length_reverse, List.length_cons, Nat.add_sub_cancel,
          Nat.mod_eq_of_lt (Nat.lt_succ_self _), Nat.add_sub_cancel_left]
      have hnext : (a :: l).zip ((a :: l).rotate 1) =
          ((links (a :: l)).map Prod.swap).rotate 1 := by
        have hlen : ((a :: l).rotate l.length).length = (a :: l).length := List.length_rotate _ _
        rw [links, List.length_cons, Nat.add_sub_cancel, List.zip_swap, ← zip_rotate hlen,
          List.rotate_rotate]
        congr 1
        exact (List.rotate_length (a :: l)).symm
      have hlen : (a :: l).length = ((a :: l).rotate 1).length := (List.length_rotate _ _).symm
      have hturned : (links (a :: l).reverse) = ((a :: l).zip ((a :: l).rotate 1)).reverse := by
        rw [links, hback]
        exact (List.reverse_zipWith hlen).symm
      rw [hturned, hnext]
      exact (List.reverse_perm _).trans (List.rotate_perm _ _)

theorem countP_zip_mod_two (f : α → Bool) {l l' : List α} (h : l.length = l'.length) :
    ((l.zip l').countP fun e => f e.1 != f e.2) % 2 = (l.countP f + l'.countP f) % 2 := by
  induction l generalizing l' with
  | nil =>
      rw [List.length_eq_zero_iff.mp h.symm]
      rfl
  | cons a l ih =>
      cases l' with
      | nil => cases h
      | cons b l' =>
          have hrest := ih (Nat.succ.inj h)
          rw [List.zip_cons_cons, List.countP_cons, List.countP_cons, List.countP_cons]
          cases f a <;> cases f b <;> simp <;> omega

/-- Round the ring a property changes an even number of times. -/
theorem even_changes (f : α → Bool) (l : List α) :
    Even ((links l).countP fun e => f e.1 != f e.2) := by
  rw [Nat.even_iff, links, countP_zip_mod_two f (List.length_rotate _ _).symm,
    (List.rotate_perm l _).countP_eq]
  omega

end Circular
