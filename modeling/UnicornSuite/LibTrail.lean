import Mathlib.Tactic.Common

/-! The trail of a browser: where it is, what is behind it, nearest first, and what is ahead. A visit
forgets what was ahead and keeps a bounded number of places behind; to go back and forward changes the
place on the path and never the path. -/

/-- There is a place to be at; a browser that has not been anywhere has no trail. -/
structure Trail (α : Type*) where
  behind : List α
  here : α
  ahead : List α
  deriving DecidableEq

namespace Trail

variable {α : Type*} (t : Trail α)

/-- All places, from the farthest ahead to the oldest. -/
def path : List α := t.ahead.reverse ++ t.here :: t.behind

/-- The first place, or one more; of the places behind it the newest `cap` are kept. -/
def visit (cap : Nat) (a : α) : Option (Trail α) → Trail α
  | none => ⟨[], a, []⟩
  | some t => ⟨(t.here :: t.behind).take cap, a, []⟩

/-- One place back, where there is one. -/
def back : Option (Trail α) :=
  match t.behind with
  | [] => none
  | b :: bs => some ⟨bs, b, t.here :: t.ahead⟩

def forward : Option (Trail α) :=
  match t.ahead with
  | [] => none
  | a :: as => some ⟨t.here :: t.behind, a, as⟩

/-- The same places, looked at the other way. -/
def swap : Trail α := ⟨t.ahead, t.here, t.behind⟩

theorem back_swap : t.swap.back = t.forward.map swap := by
  obtain ⟨behind, here, ahead⟩ := t
  cases ahead <;> rfl

theorem forward_swap : t.swap.forward = t.back.map swap := by
  obtain ⟨behind, here, ahead⟩ := t
  cases behind <;> rfl

variable {t} {t' : Trail α}

theorem back_path (h : t.back = some t') : t'.path = t.path := by
  unfold back at h
  split at h
  · cases h
  · rename_i b bs hbehind
    cases h
    simp [path, hbehind]

theorem forward_path (h : t.forward = some t') : t'.path = t.path := by
  unfold forward at h
  split at h
  · cases h
  · rename_i a as hahead
    cases h
    simp [path, hahead]

/-- Back and then forward is where one was. -/
theorem forward_of_back (h : t.back = some t') : t'.forward = some t := by
  obtain ⟨behind, here, ahead⟩ := t
  cases behind with
  | nil => cases h
  | cons b bs =>
      cases h
      rfl

/-- Behind a visit there is what was there, without the oldest places over the bound. -/
theorem visit_path (cap : Nat) (a : α) (t : Trail α) :
    (visit cap a (some t)).path = a :: (t.here :: t.behind).take cap := rfl

end Trail
