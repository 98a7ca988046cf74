import Mathlib.Tactic.Common

/-! What is due at a place and what is found there. A list of items, each due at one place or due
nowhere, is served by a list of items with their places: every due item is found once, at its place
and in its turn, and the others may be found anywhere or left out. -/

namespace Delivery

variable {π α : Type*}

inductive Served : List (Option π × α) → List (π × α) → Prop
  | nil : Served [] []
  | due {p : π} {c : α} {es : List (Option π × α)} {rs : List (π × α)} :
      Served es rs → Served ((some p, c) :: es) ((p, c) :: rs)
  | kept {p : π} {c : α} {es : List (Option π × α)} {rs : List (π × α)} :
      Served es rs → Served ((none, c) :: es) ((p, c) :: rs)
  | left {c : α} {es : List (Option π × α)} {rs : List (π × α)} :
      Served es rs → Served ((none, c) :: es) rs

theorem Served.append {es es' : List (Option π × α)} {rs rs' : List (π × α)} (h : Served es rs)
    (h' : Served es' rs') : Served (es ++ es') (rs ++ rs') := by
  induction h with
  | nil => exact h'
  | due _ ih => exact ih.due
  | kept _ ih => exact ih.kept
  | left _ ih => exact ih.left

theorem served_due (p : π) (cs : List α) : Served (cs.map (some p, ·)) (cs.map (p, ·)) := by
  induction cs with
  | nil => exact .nil
  | cons c cs ih => exact ih.due

theorem served_kept (p : π) (cs : List α) : Served (cs.map (none, ·)) (cs.map (p, ·)) := by
  induction cs with
  | nil => exact .nil
  | cons c cs ih => exact ih.kept

theorem served_left (cs : List α) : Served (π := π) (cs.map (none, ·)) [] := by
  induction cs with
  | nil => exact .nil
  | cons c cs ih => exact ih.left

/-- Where every item is due, what is found is exactly that. -/
theorem Served.eq_due {es : List (Option π × α)} {rs : List (π × α)} (h : Served es rs)
    (hdue : ∀ e ∈ es, e.1 ≠ none) : es = rs.map fun r => (some r.1, r.2) := by
  induction h with
  | nil => rfl
  | due _ ih => rw [List.map_cons, ← ih fun e he => hdue e (List.mem_cons_of_mem _ he)]
  | kept _ _ => exact absurd rfl (hdue _ List.mem_cons_self)
  | left _ _ => exact absurd rfl (hdue _ List.mem_cons_self)

end Delivery
