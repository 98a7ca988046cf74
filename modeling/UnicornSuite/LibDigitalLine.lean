import Mathlib.Algebra.Order.Ring.Abs
import Mathlib.Algebra.Order.Ring.Int
import Mathlib.Logic.Function.Iterate
import Mathlib.Tactic.Linarith
import Mathlib.Tactic.Ring

/-! Digital lines. A pen goes in rounds from one point of the grid to another: in a round it moves along
each axis or stays, as an error term tells it, and it stops when it stands on the end point. The rounds
that bring it there are as many as the longer of the two distances (`traces`), whatever is done in a tie. -/

namespace DigitalLine

/-- Where the pen stands, and the error term. -/
structure Pen where
  x : Int
  y : Int
  err : Int

def Pen.point (p : Pen) : Int × Int := (p.x, p.y)

/-- The pen behind the mirror that exchanges the axes. -/
def Pen.swap (p : Pen) : Pen := ⟨p.y, p.x, -p.err⟩

theorem Pen.swap_point (p : Pen) : p.swap.point = p.point.swap := rfl

/-- Tests that hold below a bound and fail above it. -/
structure Asks (below : Int → Int → Prop) : Prop where
  of_lt : ∀ {e d : Int}, e < d → below e d
  le : ∀ {e d : Int}, below e d → e ≤ d

theorem asks_lt : Asks (· < ·) := ⟨fun h => h, fun h => Int.le_of_lt h⟩

theorem asks_le : Asks (· ≤ ·) := ⟨fun h => Int.le_of_lt h, fun h => h⟩

section Walk

variable (below : Int → Int → Prop) [DecidableRel below]

/-- A round: along an axis the pen moves if the test asks for it. -/
def next (dx dy sx sy : Int) (p : Pen) : Pen where
  x := if below (-(2 * p.err)) dy then p.x + sx else p.x
  y := if below (2 * p.err) dx then p.y + sy else p.y
  err := (if below (-(2 * p.err)) dy then p.err - dy else p.err) + if below (2 * p.err) dx then dx else 0

def gap (a b : Int) : Int := if b - a < 0 then -(b - a) else b - a

def direction (a b : Int) : Int := if a < b then 1 else -1

/-- The pen after `n` rounds on its way from `(x0, y0)` to `(x1, y1)`. -/
def walk (x0 y0 x1 y1 : Int) (n : Nat) : Pen :=
  (next below (gap x0 x1) (gap y0 y1) (direction x0 x1) (direction y0 y1))^[n]
    ⟨x0, y0, gap x0 x1 - gap y0 y1⟩

/-- The rounds from one point to another. -/
def rounds (x0 y0 x1 y1 : Int) : Nat := max (x1 - x0).natAbs (y1 - y0).natAbs

end Walk

/-- The pen gets from one point to the other in `n` rounds, and not sooner; it stays between the two, goes
to one of the eight neighbours in every round, and is never more than half a point off the straight line. -/
structure Traces (x0 y0 x1 y1 : Int) (pen : Nat → Pen) (n : Nat) : Prop where
  first : (pen 0).point = (x0, y0)
  last : (pen n).point = (x1, y1)
  before : ∀ k < n, (pen k).point ≠ (x1, y1)
  box : ∀ k ≤ n, (min x0 x1 ≤ (pen k).x ∧ (pen k).x ≤ max x0 x1) ∧
    (min y0 y1 ≤ (pen k).y ∧ (pen k).y ≤ max y0 y1)
  adjacent : ∀ k < n, (pen (k + 1)).point ≠ (pen k).point ∧
    |(pen (k + 1)).x - (pen k).x| ≤ 1 ∧ |(pen (k + 1)).y - (pen k).y| ≤ 1
  near : ∀ k ≤ n, 2 * |((pen k).x - x0) * (y1 - y0) - ((pen k).y - y0) * (x1 - x0)| ≤ n
  err : ∀ k ≤ n, 2 * |(pen k).err| ≤ 3 * n

theorem Traces.swap {x0 y0 x1 y1 : Int} {pen : Nat → Pen} {n : Nat} (h : Traces y0 x0 y1 x1 pen n) :
    Traces x0 y0 x1 y1 (fun k => (pen k).swap) n where
  first := congrArg Prod.swap h.first
  last := congrArg Prod.swap h.last
  before k hk heq := h.before k hk (congrArg Prod.swap heq)
  box k hk := (h.box k hk).symm
  adjacent k hk := by
    obtain ⟨hne, hy, hx⟩ := h.adjacent k hk
    exact ⟨fun heq => hne (congrArg Prod.swap heq), hx, hy⟩
  near k hk := by
    have hnear := h.near k hk
    rw [abs_sub_comm] at hnear
    exact hnear
  err k hk := by
    have herr := h.err k hk
    rw [← abs_neg] at herr
    exact herr

theorem gap_nonneg (a b : Int) : 0 ≤ gap a b := by
  rw [gap]
  split <;> omega

theorem direction_mul_gap (a b : Int) : direction a b * gap a b = b - a := by
  rw [direction, gap]
  split_ifs <;> omega

theorem direction_eq (a b : Int) : direction a b = 1 ∨ direction a b = -1 := by
  rw [direction]
  split
  · exact .inl rfl
  · exact .inr rfl

/-! ### A line that is flat -/

/-- The pen when it has moved `a` times along the first axis and `b` times along the second. -/
def penAt (x0 y0 dx dy sx sy a b : Int) : Pen :=
  ⟨x0 + sx * a, y0 + sy * b, (b + 1) * dx - (a + 1) * dy⟩

/-- The point is at most half a point off the line; on a diagonal it is on the line. -/
structure Near (dx dy a b : Int) : Prop where
  lower : -dx ≤ 2 * (a * dy - b * dx)
  upper : 2 * (a * dy - b * dx) ≤ dx
  diagonal : dx = dy → a * dy = b * dx

section Flat

variable {below : Int → Int → Prop} [DecidableRel below] {dx dy : Int}

theorem next_of_both {sx sy : Int} {p : Pen} (hx : below (-(2 * p.err)) dy) (hy : below (2 * p.err) dx) :
    next below dx dy sx sy p = ⟨p.x + sx, p.y + sy, p.err - dy + dx⟩ := by
  rw [next, if_pos hx, if_pos hx, if_pos hy, if_pos hy]

theorem next_of_first {sx sy : Int} {p : Pen} (hx : below (-(2 * p.err)) dy)
    (hy : ¬below (2 * p.err) dx) : next below dx dy sx sy p = ⟨p.x + sx, p.y, p.err - dy⟩ := by
  rw [next, if_pos hx, if_pos hx, if_neg hy, if_neg hy, add_zero]

/-- In every round the pen moves along the longer axis. -/
theorem next_penAt (hbelow : Asks below) (hdx : 0 < dx) (hdy : 0 ≤ dy) (hflat : dy ≤ dx)
    (x0 y0 sx sy : Int) {a b : Int} (h : Near dx dy a b) :
    ∃ b', (b' = b ∨ b' = b + 1) ∧
      next below dx dy sx sy (penAt x0 y0 dx dy sx sy a b) = penAt x0 y0 dx dy sx sy (a + 1) b' ∧
      Near dx dy (a + 1) b' := by
  obtain ⟨hlower, hupper, hdiagonal⟩ := h
  have ha : (a + 1) * dy = a * dy + dy := by ring
  have hb : (b + 1) * dx = b * dx + dx := by ring
  have hx : below (-(2 * ((b + 1) * dx - (a + 1) * dy))) dy := by
    apply hbelow.of_lt
    rw [ha, hb]
    rcases eq_or_lt_of_le hflat with heq | hlt
    · have hline := hdiagonal heq.symm
      omega
    · omega
  by_cases hy : below (2 * ((b + 1) * dx - (a + 1) * dy)) dx
  · have hle := hbelow.le hy
    rw [ha, hb] at hle
    refine ⟨b + 1, .inr rfl, ?_, ?_, ?_, ?_⟩
    · rw [next_of_both hx hy]
      simp only [penAt, Pen.mk.injEq]
      exact ⟨by ring, by ring, by ring⟩
    · rw [ha, hb]
      omega
    · rw [ha, hb]
      omega
    · intro heq
      have hline := hdiagonal heq
      rw [ha, hb]
      omega
  · have hge : dx ≤ 2 * ((b + 1) * dx - (a + 1) * dy) := by
      by_contra hlt
      exact hy (hbelow.of_lt (by omega))
    rw [ha, hb] at hge
    refine ⟨b, .inl rfl, ?_, ?_, ?_, ?_⟩
    · rw [next_of_first hx hy]
      simp only [penAt, Pen.mk.injEq]
      exact ⟨by ring, trivial, by ring⟩
    · rw [ha]
      omega
    · rw [ha]
      omega
    · intro heq
      have hline := hdiagonal heq
      omega

/-- After `n` rounds the pen has moved `n` times along the longer axis. -/
theorem iterate_penAt (hbelow : Asks below) (hdx : 0 < dx) (hdy : 0 ≤ dy) (hflat : dy ≤ dx)
    (x0 y0 sx sy : Int) (n : Nat) :
    ∃ b, 0 ≤ b ∧ Near dx dy n b ∧
      (next below dx dy sx sy)^[n] ⟨x0, y0, dx - dy⟩ = penAt x0 y0 dx dy sx sy n b := by
  induction n with
  | zero =>
      refine ⟨0, Int.le_refl 0, ⟨by simp; omega, by simp; omega, by simp⟩, ?_⟩
      simp [penAt]
  | succ n ih =>
      obtain ⟨b, hb, hnear, hpen⟩ := ih
      obtain ⟨b', hb', hnext, hnear'⟩ := next_penAt hbelow hdx hdy hflat x0 y0 sx sy hnear
      refine ⟨b', by omega, ?_, ?_⟩
      · exact_mod_cast hnear'
      · rw [Function.iterate_succ_apply', hpen, hnext]
        norm_cast

theorem Near.le {n b : Int} (h : Near dx dy n b) (hdx : 0 < dx) (hdy : 0 ≤ dy) (hn : n ≤ dx) : b ≤ dy := by
  have hmul : n * dy ≤ dx * dy := Int.mul_le_mul_of_nonneg_right hn hdy
  have hlower := h.lower
  have hle : (2 * b) * dx ≤ (2 * dy + 1) * dx := by
    calc (2 * b) * dx = 2 * (b * dx) := by ring
      _ ≤ 2 * (dx * dy) + dx := by omega
      _ = (2 * dy + 1) * dx := by ring
  have hb := Int.le_of_mul_le_mul_right hle hdx
  omega

/-- At the end of the longer axis the pen is at the end of the other one too. -/
theorem Near.eq {b : Int} (h : Near dx dy dx b) (hdx : 0 < dx) (hdy : 0 ≤ dy) : b = dy := by
  have hle := h.le hdx hdy (Int.le_refl dx)
  have hupper := h.upper
  have hge : (2 * dy) * dx ≤ (2 * b + 1) * dx := by
    calc (2 * dy) * dx = 2 * (dx * dy) := by ring
      _ ≤ 2 * (b * dx) + dx := by omega
      _ = (2 * b + 1) * dx := by ring
  have hb := Int.le_of_mul_le_mul_right hge hdx
  omega

end Flat

/-! ### Every line -/

section Lines

variable {below : Int → Int → Prop} [DecidableRel below] {x0 y0 x1 y1 : Int}

theorem gap_eq_natAbs (a b : Int) : gap a b = (b - a).natAbs := by
  rw [gap]
  split <;> omega

theorem traces_point (hx : x0 = x1) (hy : y0 = y1) : Traces x0 y0 x1 y1 (walk below x0 y0 x1 y1) 0 := by
  subst hx hy
  have hstart : walk below x0 y0 x0 y0 0 = ⟨x0, y0, 0⟩ := by simp [walk, gap]
  refine ⟨by rw [hstart]; rfl, by rw [hstart]; rfl, fun k hk => absurd hk (Nat.not_lt_zero k), ?_,
    fun k hk => absurd hk (Nat.not_lt_zero k), ?_, ?_⟩
  · intro k hk
    rw [Nat.le_zero.mp hk, hstart]
    simp
  · intro k hk
    rw [Nat.le_zero.mp hk, hstart]
    simp
  · intro k hk
    rw [Nat.le_zero.mp hk, hstart]
    simp

/-- A part of the way along an axis stays between its ends. -/
theorem between {s d a b k : Int} (hs : s = 1 ∨ s = -1) (hd : s * d = b - a) (hk : 0 ≤ k) (hkd : k ≤ d) :
    min a b ≤ a + s * k ∧ a + s * k ≤ max a b := by
  rcases hs with rfl | rfl <;> omega

theorem abs_step {s k k' : Int} (hs : s = 1 ∨ s = -1) (hk : k' = k ∨ k' = k + 1) (a : Int) :
    |a + s * k' - (a + s * k)| ≤ 1 := by
  rw [abs_le]
  rcases hs with rfl | rfl <;> omega

/-- Off the line by as much as the first axis times the second. -/
theorem abs_cross {sx sy : Int} (hsx : sx = 1 ∨ sx = -1) (hsy : sy = 1 ∨ sy = -1) (dx dy a b : Int) :
    |sx * a * (sy * dy) - sy * b * (sx * dx)| = |a * dy - b * dx| := by
  have hsigns : sx * a * (sy * dy) - sy * b * (sx * dx) = sx * sy * (a * dy - b * dx) := by ring
  have hone : |sx * sy| = 1 := by
    rcases hsx with rfl | rfl <;> rcases hsy with rfl | rfl <;> rfl
  rw [hsigns, abs_mul, hone, one_mul]

/-- The rounds of a line that is not longer up than to the side. -/
theorem walk_flat (hbelow : Asks below) (hdx : 0 < gap x0 x1) (hflat : gap y0 y1 ≤ gap x0 x1) (n : Nat) :
    ∃ b, 0 ≤ b ∧ Near (gap x0 x1) (gap y0 y1) n b ∧
      walk below x0 y0 x1 y1 n =
        penAt x0 y0 (gap x0 x1) (gap y0 y1) (direction x0 x1) (direction y0 y1) n b :=
  iterate_penAt hbelow hdx (gap_nonneg y0 y1) hflat x0 y0 (direction x0 x1) (direction y0 y1) n

/-- What the pen of a flat line does before it gets to the end, and at the end. -/
theorem traces_flat (hbelow : Asks below) (hdx : 0 < gap x0 x1) (hflat : gap y0 y1 ≤ gap x0 x1)
    {n : Nat} (hn : (n : Int) = gap x0 x1) : Traces x0 y0 x1 y1 (walk below x0 y0 x1 y1) n := by
  have hdy := gap_nonneg y0 y1
  have hx := direction_mul_gap x0 x1
  have hy := direction_mul_gap y0 y1
  have hsx := direction_eq x0 x1
  have hsy := direction_eq y0 y1
  have hwalk := walk_flat hbelow hdx hflat
  refine ⟨rfl, ?last, ?before, ?box, ?adjacent, ?near, ?err⟩
  case last =>
    obtain ⟨b, -, hnear, hpen⟩ := hwalk n
    rw [hn] at hnear hpen
    rw [hpen, hnear.eq hdx hdy]
    simp only [penAt, Pen.point, hx, hy, add_sub_cancel]
  case before =>
    intro k hk heq
    obtain ⟨b, -, -, hpen⟩ := hwalk k
    rw [hpen] at heq
    have hfirst : x0 + direction x0 x1 * k = x1 := congrArg Prod.fst heq
    rcases hsx with h | h <;> rw [h] at hfirst hx <;> omega
  case box =>
    intro k hk
    obtain ⟨b, hb, hnear, hpen⟩ := hwalk k
    rw [hpen]
    have hkd : (k : Int) ≤ gap x0 x1 := by omega
    exact ⟨between hsx hx (Int.natCast_nonneg k) hkd, between hsy hy hb (hnear.le hdx hdy hkd)⟩
  case adjacent =>
    intro k hk
    obtain ⟨b, -, hnear, hpen⟩ := hwalk k
    obtain ⟨b', hb', hnext, -⟩ := next_penAt hbelow hdx hdy hflat x0 y0 (direction x0 x1) (direction y0 y1) hnear
    have hstep : walk below x0 y0 x1 y1 (k + 1) = penAt x0 y0 (gap x0 x1) (gap y0 y1)
        (direction x0 x1) (direction y0 y1) (k + 1) b' := by
      rw [← hnext, ← hpen]
      exact Function.iterate_succ_apply' _ _ _
    rw [hpen, hstep]
    refine ⟨fun heq => ?_, abs_step hsx (.inr rfl) x0, abs_step hsy hb' y0⟩
    have hfirst : x0 + direction x0 x1 * (k + 1) = x0 + direction x0 x1 * k := congrArg Prod.fst heq
    rcases hsx with h | h <;> rw [h] at hfirst <;> omega
  case near =>
    intro k _
    obtain ⟨b, -, hnear, hpen⟩ := hwalk k
    rw [hpen, ← hx, ← hy, hn]
    simp only [penAt, add_sub_cancel_left]
    rw [abs_cross hsx hsy]
    have hlower := hnear.lower
    have hupper := hnear.upper
    rcases abs_cases ((k : Int) * gap y0 y1 - b * gap x0 x1) with ⟨h, -⟩ | ⟨h, -⟩ <;> rw [h] <;> omega
  case err =>
    intro k _
    obtain ⟨b, -, hnear, hpen⟩ := hwalk k
    rw [hpen, hn]
    have hlower := hnear.lower
    have hupper := hnear.upper
    have herr : (b + 1) * gap x0 x1 - ((k : Int) + 1) * gap y0 y1 =
        gap x0 x1 - gap y0 y1 - ((k : Int) * gap y0 y1 - b * gap x0 x1) := by ring
    simp only [penAt]
    rw [herr]
    rcases abs_cases (gap x0 x1 - gap y0 y1 - ((k : Int) * gap y0 y1 - b * gap x0 x1)) with
      ⟨h, -⟩ | ⟨h, -⟩ <;> rw [h] <;> omega

/-- Behind the mirror the pen does the same. -/
theorem walk_swap (n : Nat) : walk below x0 y0 x1 y1 n = (walk below y0 x0 y1 x1 n).swap := by
  have hnext : Function.Semiconj Pen.swap
      (next below (gap y0 y1) (gap x0 x1) (direction y0 y1) (direction x0 x1))
      (next below (gap x0 x1) (gap y0 y1) (direction x0 x1) (direction y0 y1)) := by
    intro p
    have herr : 2 * -p.err = -(2 * p.err) := by ring
    simp only [next, Pen.swap, herr, neg_neg, Pen.mk.injEq, true_and]
    split_ifs <;> omega
  have hstart : Pen.swap ⟨y0, x0, gap y0 y1 - gap x0 x1⟩ = ⟨x0, y0, gap x0 x1 - gap y0 y1⟩ := by
    simp only [Pen.swap, neg_sub]
  rw [walk, ← hstart]
  exact (hnext.iterate_right n _).symm

/-- A pen that starts at one point stops at the other after `rounds` rounds. -/
theorem traces (hbelow : Asks below) (x0 y0 x1 y1 : Int) :
    Traces x0 y0 x1 y1 (walk below x0 y0 x1 y1) (rounds x0 y0 x1 y1) := by
  have hx := gap_eq_natAbs x0 x1
  have hy := gap_eq_natAbs y0 y1
  rcases lt_trichotomy (gap y0 y1) (gap x0 x1) with hflat | heq | hsteep
  · have hdx : 0 < gap x0 x1 := (gap_nonneg y0 y1).trans_lt hflat
    exact traces_flat hbelow hdx hflat.le (by rw [rounds]; omega)
  · by_cases hzero : gap x0 x1 = 0
    · have hrounds : rounds x0 y0 x1 y1 = 0 := by
        rw [rounds]
        omega
      rw [hrounds]
      exact traces_point (by omega) (by omega)
    · have hdx : 0 < gap x0 x1 := by omega
      exact traces_flat hbelow hdx heq.le (by rw [rounds]; omega)
  · have hdy : 0 < gap y0 y1 := (gap_nonneg x0 x1).trans_lt hsteep
    have hmirror : Traces y0 x0 y1 x1 (walk below y0 x0 y1 x1) (rounds x0 y0 x1 y1) :=
      traces_flat hbelow hdy hsteep.le (by rw [rounds]; omega)
    have hwalk : walk below x0 y0 x1 y1 = fun n => (walk below y0 x0 y1 x1 n).swap := by
      funext n
      exact walk_swap n
    rw [hwalk]
    exact hmirror.swap

end Lines

/-! ### A loop that draws -/

section Draw

variable {σ α : Type*} (step : σ → σ) (done : σ → Prop) [DecidablePred done] (mark : α → σ → α)

/-- A loop that leaves a mark in every round and stops behind the mark of a state that is done, with a
bound on its rounds. -/
def draw : Nat → σ → α → α
  | 0, _, a => a
  | n + 1, w, a => if done w then mark a w else draw n (step w) (mark a w)

variable {step done mark}

/-- With rounds enough, the loop leaves the marks of the states up to the first that is done. -/
theorem draw_eq {n : Nat} {w : σ} (hbefore : ∀ k < n, ¬done (step^[k] w)) (hlast : done (step^[n] w))
    {rounds : Nat} (hrounds : n < rounds) (a : α) :
    draw step done mark rounds w a = (List.range (n + 1)).foldl (fun a k => mark a (step^[k] w)) a := by
  induction n generalizing rounds w a with
  | zero =>
      obtain ⟨rounds, rfl⟩ : ∃ r, rounds = r + 1 := ⟨rounds - 1, by omega⟩
      rw [draw]
      exact if_pos hlast
  | succ n ih =>
      obtain ⟨rounds, rfl⟩ : ∃ r, rounds = r + 1 := ⟨rounds - 1, by omega⟩
      have hgo : ¬done w := hbefore 0 (Nat.succ_pos n)
      have hrange : List.range (n + 1 + 1) = 0 :: (List.range (n + 1)).map Nat.succ :=
        List.range_succ_eq_map
      rw [draw, if_neg hgo, ih (fun k hk => hbefore (k + 1) (Nat.succ_lt_succ hk)) hlast (by omega),
        hrange, List.foldl_cons, List.foldl_map]
      rfl

end Draw

end DigitalLine
