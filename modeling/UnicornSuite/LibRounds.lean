import Mathlib.Logic.Function.Iterate
import Mathlib.Tactic.Common

/-! Counted loops. `up lo hi body` is the loop `for (i = lo; i < hi; i++)` and `down hi lo body` the
loop `for (i = hi; i > lo; i--)`; the body reads the counter and maps the state. An invariant is
carried through a loop by `up_inv` and `down_inv`, one that speaks of the counter by `up_ind`. -/

namespace Loop

variable {σ τ : Type*}

/-- `n` rounds with the counter going up from `i`. -/
def upN (body : Int → σ → σ) : Nat → Int → σ → σ
  | 0, _, s => s
  | n + 1, i, s => upN body n (i + 1) (body i s)

/-- `n` rounds with the counter going down from `i`. -/
def downN (body : Int → σ → σ) : Nat → Int → σ → σ
  | 0, _, s => s
  | n + 1, i, s => downN body n (i - 1) (body i s)

def up (lo hi : Int) (body : Int → σ → σ) (s : σ) : σ := upN body (hi - lo).toNat lo s

def down (hi lo : Int) (body : Int → σ → σ) (s : σ) : σ := downN body (hi - lo).toNat hi s

theorem up_of_le {lo hi : Int} (h : hi ≤ lo) (body : Int → σ → σ) (s : σ) : up lo hi body s = s := by
  rw [up, Int.toNat_of_nonpos (by omega), upN]

theorem upN_inv {body : Int → σ → σ} {I : σ → Prop} {n : Nat} {lo : Int}
    (hbody : ∀ i s, lo ≤ i → i < lo + n → I s → I (body i s)) {s : σ} (h : I s) :
    I (upN body n lo s) := by
  induction n generalizing lo s with
  | zero => exact h
  | succ n ih =>
      refine ih (fun i s hlo hhi hs => hbody i s (by omega) (by omega) hs) ?_
      exact hbody lo s (by omega) (by omega) h

theorem downN_inv {body : Int → σ → σ} {I : σ → Prop} {n : Nat} {hi : Int}
    (hbody : ∀ i s, hi - n < i → i ≤ hi → I s → I (body i s)) {s : σ} (h : I s) :
    I (downN body n hi s) := by
  induction n generalizing hi s with
  | zero => exact h
  | succ n ih =>
      refine ih (fun i s hlo hhi hs => hbody i s (by omega) (by omega) hs) ?_
      exact hbody hi s (by omega) (by omega) h

theorem up_inv {lo hi : Int} {body : Int → σ → σ} {I : σ → Prop}
    (hbody : ∀ i s, lo ≤ i → i < hi → I s → I (body i s)) {s : σ} (h : I s) :
    I (up lo hi body s) :=
  upN_inv (fun i s hlo hhi hs => hbody i s hlo (by omega) hs) h

theorem down_inv {hi lo : Int} {body : Int → σ → σ} {I : σ → Prop}
    (hbody : ∀ i s, lo < i → i ≤ hi → I s → I (body i s)) {s : σ} (h : I s) :
    I (down hi lo body s) :=
  downN_inv (fun i s hlo hhi hs => hbody i s (by omega) hhi hs) h

theorem upN_ind {body : Int → σ → σ} {I : Int → σ → Prop} {n : Nat} {lo : Int}
    (hbody : ∀ i s, lo ≤ i → i < lo + n → I i s → I (i + 1) (body i s)) {s : σ} (h : I lo s) :
    I (lo + n) (upN body n lo s) := by
  induction n generalizing lo s with
  | zero =>
      rw [Int.natCast_zero, Int.add_zero]
      exact h
  | succ n ih =>
      have hrest : I (lo + 1 + n) (upN body n (lo + 1) (body lo s)) := ih
        (fun i s hlo hhi hs => hbody i s (by omega) (by omega) hs)
        (hbody lo s (by omega) (by omega) h)
      rwa [show lo + 1 + (n : Int) = lo + (n + 1 : Nat) by omega] at hrest

/-- A statement about the rounds done so far holds of all of them in the end. -/
theorem up_ind {lo hi : Int} {body : Int → σ → σ} {I : Int → σ → Prop} (hle : lo ≤ hi)
    (hbody : ∀ i s, lo ≤ i → i < hi → I i s → I (i + 1) (body i s)) {s : σ} (h : I lo s) :
    I hi (up lo hi body s) := by
  have hall := upN_ind (n := (hi - lo).toNat)
    (fun i s hlo hhi hs => hbody i s hlo (by omega) hs) h
  rwa [show lo + ((hi - lo).toNat : Int) = hi by omega] at hall

end Loop

/-! Loops that a round may leave: a round goes on with a state or leaves the loop with an outcome. Where
a condition on the state and the event says of each round that it does not leave with a bad outcome, the
loop leaves with a good one, or goes on, exactly if all its rounds meet the condition (`leaves_iff`). -/

namespace Exit

variable {σ ε ο : Type*}

/-- The loop over the events of a list. -/
def loop (round : σ → ε → Except ο σ) : σ → List ε → Except ο σ
  | s, [] => .ok s
  | s, e :: es =>
      match round s e with
      | .error o => .error o
      | .ok s' => loop round s' es

/-- Every round the loop comes to meets the condition. -/
def Guarded (round : σ → ε → Except ο σ) (guard : σ → ε → Prop) : σ → List ε → Prop
  | _, [] => True
  | s, e :: es => guard s e ∧ ∀ s', round s e = .ok s' → Guarded round guard s' es

variable {round : σ → ε → Except ο σ} {guard : σ → ε → Prop} {good : ο → Prop} {I : σ → Prop} {s : σ}

/-- A loop whose rounds all leave it with a good outcome leaves with one. -/
theorem leaves_good (hround : ∀ s e s', I s → round s e = .ok s' → I s')
    (hleave : ∀ s e o, I s → round s e = .error o → good o) (h : I s) {es : List ε} {o : ο}
    (hloop : loop round s es = .error o) : good o := by
  induction es generalizing s with
  | nil => cases hloop
  | cons e es ih =>
      rw [loop] at hloop
      split at hloop
      · rename_i o₁ ho₁
        exact Except.error.inj hloop ▸ hleave s e o₁ h ho₁
      · rename_i s₁ hs₁
        exact ih (hround s e s₁ h hs₁) hloop

theorem leaves_iff (hround : ∀ s e s', I s → round s e = .ok s' → I s')
    (hguard : ∀ s e, I s → (guard s e ↔ ∀ o, round s e = .error o → good o)) (h : I s) (es : List ε) :
    (∀ o, loop round s es = .error o → good o) ↔ Guarded round guard s es := by
  induction es generalizing s with
  | nil => exact iff_of_true (fun o ho => nomatch ho) trivial
  | cons e es ih =>
      rw [Guarded, hguard s e h, loop]
      cases hs₁ : round s e with
      | error o =>
          refine ⟨fun hall => ⟨hall, fun s' hs' => nomatch hs'⟩, fun hall => hall.1⟩
      | ok s₁ =>
          rw [ih (hround s e s₁ h hs₁)]
          constructor
          · intro hrest
            refine ⟨fun o ho => (nomatch ho), ?_⟩
            intro s' hs'
            exact Except.ok.inj hs' ▸ hrest
          · exact fun hall => hall.2 s₁ rfl

end Exit

/-! Loops of bounded length with two ways out, a test before the body and one behind it. Such a loop iterates its body,
as often as it has rounds, and a round takes place when no test before it has ended the loop. -/

namespace UnicornSuite.Loop

variable {σ : Type*} (stop : σ → Bool) (last : σ → Prop) [DecidablePred last] (body : σ → σ)

/-- At most `n` rounds, none from a state that stops the loop, and none after one from a state that is the last. -/
def bounded : Nat → σ → σ
  | 0, s => s
  | n + 1, s => if stop s then s else if last s then body s else bounded n (body s)

/-- The number of its rounds. -/
def rounds : Nat → σ → Nat
  | 0, _ => 0
  | n + 1, s => if stop s then 0 else if last s then 1 else rounds n (body s) + 1

variable {stop last body}

theorem bounded_eq_iterate (n : Nat) (s : σ) :
    bounded stop last body n s = body^[rounds stop last body n s] s := by
  induction n generalizing s with
  | zero => rfl
  | succ n ih =>
      rw [bounded, rounds]
      split_ifs
      · rfl
      · rfl
      · rw [ih, Function.iterate_succ_apply]

theorem rounds_le (n : Nat) (s : σ) : rounds stop last body n s ≤ n := by
  induction n generalizing s with
  | zero => exact Nat.le_refl 0
  | succ n ih =>
      have hrest := ih (body s)
      rw [rounds]
      split_ifs <;> omega

/-- A round takes place when the loop has not ended before it. -/
theorem lt_rounds_iff {n i : Nat} {s : σ} :
    i < rounds stop last body n s ↔
      i < n ∧ (∀ j ≤ i, ¬stop (body^[j] s) = true) ∧ ∀ j < i, ¬last (body^[j] s) := by
  induction n generalizing i s with
  | zero => exact iff_of_false (Nat.not_lt_zero i) fun h => Nat.not_lt_zero i h.1
  | succ n ih =>
      rw [rounds]
      split_ifs with hstop hlast
      · exact iff_of_false (Nat.not_lt_zero i) fun h => h.2.1 0 (Nat.zero_le i) hstop
      · constructor
        · intro hi
          obtain rfl : i = 0 := by omega
          refine ⟨Nat.succ_pos n, fun j hj => ?_, fun j hj => absurd hj (Nat.not_lt_zero j)⟩
          obtain rfl : j = 0 := by omega
          exact hstop
        · intro h
          by_contra hi
          exact h.2.2 0 (by omega) hlast
      · cases i with
        | zero =>
            refine iff_of_true (Nat.succ_pos _) ⟨Nat.succ_pos n, fun j hj => ?_,
              fun j hj => absurd hj (Nat.not_lt_zero j)⟩
            obtain rfl : j = 0 := by omega
            exact hstop
        | succ i =>
            rw [Nat.succ_lt_succ_iff, ih, Nat.succ_lt_succ_iff]
            refine and_congr_right fun _ => and_congr ⟨fun h j hj => ?_, fun h j hj => ?_⟩
              ⟨fun h j hj => ?_, fun h j hj => ?_⟩
            · cases j with
              | zero => exact hstop
              | succ j => exact h j (by omega)
            · exact h (j + 1) (by omega)
            · cases j with
              | zero => exact hlast
              | succ j => exact h j (by omega)
            · exact h (j + 1) (by omega)

end UnicornSuite.Loop
