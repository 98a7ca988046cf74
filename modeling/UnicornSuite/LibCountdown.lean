import Mathlib.Algebra.BigOperators.Intervals
import Mathlib.Tactic.Common

/-! Countdowns. Steps follow each other, each with a duration, and a clock that ticks in pieces of any
length counts down what is left of the step that goes on; where a last step is given, the countdown ends
with it. Where the clock stands after its ticks depends on their total only (`at_ticks`, `At.index_eq`). -/

namespace Countdown

/-- The step that goes on, what is left of it, and whether the last one is over. -/
structure State where
  index : Nat
  left : Int
  ended : Bool

section

variable (dur : Nat → Nat) (last : Option Nat)

/-- What is over with the steps before step `j`. -/
def start (j : Nat) : Nat := ∑ i ∈ Finset.range j, dur i

/-- The step that goes on at its beginning. -/
def init : State := ⟨0, dur 0, false⟩

/-- As many steps as are over, with a bound on them; the countdown ends when step `last` is over. -/
def advance : Nat → State → State
  | 0, s => s
  | fuel + 1, s =>
      if s.left ≤ 0 ∧ s.ended = false then
        if last = some s.index then advance fuel { s with ended := true }
        else advance fuel { s with index := s.index + 1, left := s.left + dur (s.index + 1) }
      else s

/-- A tick of the clock. -/
def tick (a : Nat) (s : State) : State :=
  if s.ended then s
  else advance dur last ((a - s.left).toNat + 1) { s with left := s.left - a }

/-- The step that is due after a time, with the last one if it is over: no step behind the last one. -/
structure Due (t j : Nat) : Prop where
  start_le : start dur j ≤ t
  lt_start : t < start dur (j + 1) ∨ last = some j
  le_last : ∀ l ∈ last, j ≤ l

/-- Where the countdown stands after a time. -/
structure At (t : Nat) (s : State) : Prop where
  due : Due dur last t s.index
  ended : s.ended = true ↔ last = some s.index ∧ start dur (s.index + 1) ≤ t
  left : s.ended = false → s.left = start dur (s.index + 1) - t

end

variable {dur : Nat → Nat} {last : Option Nat} {s : State} {t : Nat}

theorem start_succ (dur : Nat → Nat) (j : Nat) : start dur (j + 1) = start dur j + dur j :=
  Finset.sum_range_succ dur j

theorem start_mono {i j : Nat} (h : i ≤ j) : start dur i ≤ start dur j := by
  induction j, h using Nat.le_induction with
  | base => exact Nat.le_refl _
  | succ j _ ih =>
      rw [start_succ]
      omega

/-- Durations that repeat after `n` steps take the same time in every round. -/
theorem start_mul {n : Nat} (hperiod : ∀ j, dur (j + n) = dur j) (k : Nat) :
    start dur (k * n) = k * start dur n := by
  have hshift : ∀ k i, dur (k * n + i) = dur i := by
    intro k i
    induction k with
    | zero => rw [Nat.zero_mul, Nat.zero_add]
    | succ k ih => rw [Nat.succ_mul, Nat.add_right_comm, hperiod, ih]
  induction k with
  | zero => simp [start]
  | succ k ih =>
      have hround : ∑ i ∈ Finset.range n, dur (k * n + i) = start dur n :=
        Finset.sum_congr rfl fun i _ => hshift k i
      calc start dur ((k + 1) * n)
          = start dur (k * n) + ∑ i ∈ Finset.range n, dur (k * n + i) := by
            rw [Nat.succ_mul, start, Finset.sum_range_add]
            rfl
        _ = (k + 1) * start dur n := by rw [ih, hround, Nat.succ_mul]

/-- One step is due after a time. -/
theorem Due.unique {i j : Nat} (hi : Due dur last t i) (hj : Due dur last t j) : i = j := by
  have hle : ∀ {i j : Nat}, Due dur last t i → Due dur last t j → i ≤ j := by
    intro i j hi hj
    by_contra hlt
    rcases hj.lt_start with htime | hlast
    · have hmono : start dur (j + 1) ≤ start dur i := start_mono (by omega)
      have hstart := hi.start_le
      omega
    · have hmax := hi.le_last j hlast
      omega
  exact Nat.le_antisymm (hle hi hj) (hle hj hi)

theorem At.index_eq {s' : State} (h : At dur last t s) (h' : At dur last t s') : s.index = s'.index :=
  h.due.unique h'.due

theorem At.ended_eq {s' : State} (h : At dur last t s) (h' : At dur last t s') : s.ended = s'.ended := by
  rw [Bool.eq_iff_iff, h.ended, h'.ended, h.index_eq h']

theorem At.left_eq {s' : State} (h : At dur last t s) (h' : At dur last t s') (hrun : s.ended = false) :
    s.left = s'.left := by
  rw [h.left hrun, h'.left (h.ended_eq h' ▸ hrun), h.index_eq h']

/-- A countdown that has not ended has something left of its step. -/
theorem At.left_pos (h : At dur last t s) (hrun : s.ended = false) : 0 < s.left := by
  have hleft := h.left hrun
  rcases h.due.lt_start with htime | hlast
  · omega
  · by_contra hover
    have hend : s.ended = true := h.ended.mpr ⟨hlast, by omega⟩
    rw [hrun] at hend
    cases hend

theorem at_init (hpos : 0 < dur 0) : At dur last 0 (init dur) := by
  have hstart : start dur (0 + 1) = dur 0 := by
    rw [start_succ]
    exact Nat.zero_add _
  refine ⟨⟨Nat.zero_le _, .inl (hstart ▸ hpos), fun l _ => Nat.zero_le l⟩, ?_, fun _ => ?_⟩
  · refine iff_of_false Bool.false_ne_true ?_
    rintro ⟨-, hover⟩
    have hone : start dur (0 + 1) ≤ 0 := hover
    omega
  · have hleft : (init dur).left = dur 0 := rfl
    have hone : (start dur ((init dur).index + 1) : Int) = dur 0 := congrArg Nat.cast hstart
    rw [hleft, hone]
    exact (Int.sub_zero _).symm

/-- Catching up: from a step that has begun, with the right rest, the steps that are over are passed. -/
theorem at_advance (hpos : ∀ j, 0 < dur j) {fuel : Nat} (hstart : start dur s.index ≤ t)
    (hlast : ∀ l ∈ last, s.index ≤ l) (hrun : s.ended = false)
    (hleft : s.left = start dur (s.index + 1) - t) (hfuel : -s.left < fuel) :
    At dur last t (advance dur last fuel s) := by
  induction fuel generalizing s with
  | zero =>
      have hlt : (t : Int) < start dur (s.index + 1) := by
        push_cast at hfuel
        omega
      refine ⟨⟨hstart, .inl (by exact_mod_cast hlt), hlast⟩, ?_, fun _ => hleft⟩
      refine iff_of_false (by rw [advance, hrun]; exact Bool.false_ne_true) ?_
      rintro ⟨-, hover⟩
      rw [advance] at hover
      omega
  | succ fuel ih =>
      rw [advance]
      by_cases hover : s.left ≤ 0
      · rw [if_pos ⟨hover, hrun⟩]
        split
        · next hend =>
            -- The last step is over; nothing more happens.
            have hstop : advance dur last fuel { s with ended := true } = { s with ended := true } := by
              cases fuel with
              | zero => rfl
              | succ fuel =>
                  rw [advance]
                  exact if_neg fun h => Bool.false_ne_true h.2.symm
            rw [hstop]
            refine ⟨⟨hstart, .inr hend, hlast⟩, iff_of_true rfl ⟨hend, ?_⟩, fun h => ?_⟩
            · have hle : (start dur (s.index + 1) : Int) ≤ t := by omega
              exact_mod_cast hle
            · exact absurd h.symm Bool.false_ne_true
        · next hgo =>
            have hnext := hpos (s.index + 1)
            have hsum := start_succ dur (s.index + 1)
            apply ih
            · dsimp only
              omega
            · intro l hl
              have hle := hlast l hl
              have hne : l ≠ s.index := by
                rintro rfl
                exact hgo hl
              dsimp only
              omega
            · exact hrun
            · dsimp only
              omega
            · dsimp only
              push_cast at hfuel
              omega
      · rw [if_neg fun h => hover h.1]
        have hlt : t < start dur (s.index + 1) := by omega
        refine ⟨⟨hstart, .inl hlt, hlast⟩, iff_of_false (by rw [hrun]; exact Bool.false_ne_true) ?_,
          fun _ => hleft⟩
        rintro ⟨-, hend⟩
        omega

theorem at_tick (hpos : ∀ j, 0 < dur j) (h : At dur last t s) (a : Nat) :
    At dur last (t + a) (tick dur last a s) := by
  rw [tick]
  split
  · next hend =>
      obtain ⟨hlast, hover⟩ := h.ended.mp hend
      have hstart := h.due.start_le
      refine ⟨⟨by omega, .inr hlast, h.due.le_last⟩, iff_of_true hend ⟨hlast, by omega⟩, fun hrun => ?_⟩
      rw [hend] at hrun
      cases hrun
  · next hrun =>
      have hrun : s.ended = false := Bool.eq_false_of_not_eq_true hrun
      have hleft := h.left hrun
      have hstart := h.due.start_le
      apply at_advance hpos
      · dsimp only
        omega
      · exact h.due.le_last
      · exact hrun
      · dsimp only
        push_cast
        omega
      · dsimp only
        omega

/-- Where the countdown stands depends on the total of the ticks. -/
theorem at_ticks (hpos : ∀ j, 0 < dur j) (h : At dur last t s) (as : List Nat) :
    At dur last (t + as.sum) (as.foldl (fun s a => tick dur last a s) s) := by
  induction as generalizing s t with
  | nil => exact h
  | cons a as ih =>
      have hrest := ih (at_tick hpos h a)
      rw [Nat.add_assoc, ← List.sum_cons] at hrest
      exact hrest

/-- A countdown that has ended stands still. -/
theorem tick_of_ended (h : s.ended = true) (a : Nat) : tick dur last a s = s := if_pos h

end Countdown
