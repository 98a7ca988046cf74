import Mathlib.Data.List.Basic
import Mathlib.Data.List.TakeDrop
import Mathlib.Data.Set.Disjoint
import Mathlib.Data.Set.Lattice
import Mathlib.Order.CompletePartialOrder

/-! A list rewritten in place: a reader goes ahead of a writer, and what the writer puts down is a part
of what was read. The part of the list that is not read yet is never touched. Of a memory rewritten part
by part, each part from cells that no part before it holds, every part is made of the old memory. -/

namespace InPlace

variable {α : Type*} {src buf out : List α} {r w : Nat}

/-- `n` elements from `src` on are moved to `dst`; the two ranges may overlap. -/
def move (buf : List α) (dst src n : Nat) : List α :=
  buf.take dst ++ ((buf.drop src).take n ++ buf.drop (dst + n))

section Move

variable {dst src n : Nat}

theorem length_move (hsrc : src + n ≤ buf.length) (hdst : dst + n ≤ buf.length) :
    (move buf dst src n).length = buf.length := by
  simp only [move, List.length_append, List.length_take, List.length_drop]
  omega

theorem take_move (hsrc : src + n ≤ buf.length) (hdst : dst ≤ buf.length) :
    (move buf dst src n).take (dst + n) = buf.take dst ++ (buf.drop src).take n := by
  have hlen : (buf.take dst ++ (buf.drop src).take n).length = dst + n := by
    simp only [List.length_append, List.length_take, List.length_drop]
    omega
  rw [move, ← List.append_assoc]
  exact List.take_left' hlen

theorem drop_move (hsrc : src + n ≤ buf.length) (hdst : dst ≤ buf.length) {k : Nat} (hk : dst + n ≤ k) :
    (move buf dst src n).drop k = buf.drop k := by
  have hlen : (buf.take dst ++ (buf.drop src).take n).length = dst + n := by
    simp only [List.length_append, List.length_take, List.length_drop]
    omega
  obtain ⟨j, rfl⟩ := Nat.exists_eq_add_of_le hk
  rw [move, ← List.append_assoc, ← List.drop_drop, List.drop_left' hlen, List.drop_drop]

/-- Moving to the same place changes nothing. -/
theorem move_self (i : Nat) : move buf i i n = buf := by
  rw [move, ← List.drop_drop, List.take_append_drop, List.take_append_drop]

end Move

/-- The list `src` is read up to `r`, and `out` is written for that. -/
structure Rewriting (src buf : List α) (r w : Nat) (out : List α) : Prop where
  le : w ≤ r
  bound : r ≤ src.length
  length : buf.length = src.length
  unread : buf.drop r = src.drop r
  written : buf.take w = out

theorem Rewriting.start (src : List α) : Rewriting src src 0 0 [] where
  le := Nat.le_refl 0
  bound := Nat.zero_le _
  length := rfl
  unread := rfl
  written := List.take_zero

/-- The next `n` elements are read and all but the first `k` of them written. -/
theorem Rewriting.move (h : Rewriting src buf r w out) {k n : Nat} (hk : k ≤ n)
    (hn : r + n ≤ src.length) :
    Rewriting src (move buf w (r + k) (n - k)) (r + n) (w + (n - k))
      (out ++ ((src.drop r).take n).drop k) := by
  have hle := h.le
  have hsrc : r + k + (n - k) ≤ buf.length := by
    rw [h.length]
    omega
  have hdst : w + (n - k) ≤ buf.length := by omega
  refine ⟨by omega, hn, ?_, ?_, ?_⟩
  · rw [length_move hsrc hdst, h.length]
  · rw [drop_move hsrc (by omega) (by omega), ← List.drop_drop, h.unread, List.drop_drop]
  · rw [take_move hsrc (by omega), h.written, ← List.drop_drop, h.unread, List.drop_take]

section Parts

variable {A V E : Type*}

/-- The cells of `T` become what `v` says, the others stay. -/
structure Writes (T : Set A) (v m m' : A → V) : Prop where
  inside : ∀ a ∈ T, m' a = v a
  outside : ∀ a, a ∉ T → m' a = m a

/-- Steps over parts that are apart, none of which reads what one before it writes. -/
theorem foldl_writes (step : (A → V) → E → A → V) (T R : E → Set A) (v : E → (A → V) → A → V)
    (I : (A → V) → Prop) (es : List E)
    (hstep : ∀ m, ∀ e ∈ es, I m → I (step m e) ∧ Writes (T e) (v e m) m (step m e))
    (hread : ∀ e ∈ es, ∀ m m', (∀ a ∈ R e, m a = m' a) → ∀ a ∈ T e, v e m a = v e m' a)
    (hapart : es.Pairwise fun e e' => Disjoint (T e) (T e') ∧ Disjoint (T e) (R e'))
    {m : A → V} (h : I m) :
    I (es.foldl step m) ∧ (∀ e ∈ es, ∀ a ∈ T e, es.foldl step m a = v e m a) ∧
      ∀ a, (∀ e ∈ es, a ∉ T e) → es.foldl step m a = m a := by
  induction es generalizing m with
  | nil => exact ⟨h, nofun, fun _ _ => rfl⟩
  | cons e es ih =>
      obtain ⟨hfirst, hrest⟩ := List.pairwise_cons.mp hapart
      obtain ⟨hI, hwrites⟩ := hstep m e List.mem_cons_self h
      obtain ⟨hI', hinside, houtside⟩ :=
        ih (fun m e' he' => hstep m e' (List.mem_cons_of_mem e he'))
          (fun e' he' => hread e' (List.mem_cons_of_mem e he')) hrest hI
      refine ⟨hI', fun e' he' a ha => ?_, fun a ha => ?_⟩
      · rcases List.mem_cons.mp he' with rfl | he'
        · have hlater : ∀ e'' ∈ es, a ∉ T e'' := fun e'' he'' =>
            Set.disjoint_left.mp (hfirst e'' he'').1 ha
          rw [List.foldl_cons, houtside a hlater, hwrites.inside a ha]
        · rw [List.foldl_cons, hinside e' he' a ha]
          refine hread e' (List.mem_cons_of_mem e he') _ _ (fun b hb => hwrites.outside b ?_) a ha
          exact Set.disjoint_right.mp (hfirst e' he').2 hb
      · rw [List.foldl_cons, houtside a fun e' he' => ha e' (List.mem_cons_of_mem e he'),
          hwrites.outside a (ha e List.mem_cons_self)]

end Parts

end InPlace
