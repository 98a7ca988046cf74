import UnicornSuite.LibDigitalLine
import UnicornSuite.NaplpsSurface
import UnicornSuite.NaplpsState
import UnicornSuite.RipEga

/-! The two line rasterisers, `naplps_draw_line` and `ega_line_1px`. Their loops have no counter: they end
because the error term brings the pen onto the end point. Both are digital lines, one strict in a tie and
the other not. -/

namespace UnicornSuite

open CInt DigitalLine

/-- Every `int` that a round of the loop computes, the distances and the directions included. -/
def lineInts (x0 y0 x1 y1 : Int) (p : Pen) : List Int :=
  [x1 - x0, y1 - y0, gap x0 x1, gap y0 y1, -gap y0 y1, gap x0 x1 - gap y0 y1, 2 * p.err,
    p.err - gap y0 y1, p.err + gap x0 x1, p.err - gap y0 y1 + gap x0 x1,
    p.x + direction x0 x1, p.y + direction y0 y1]

theorem lineInts_fit {x0 y0 x1 y1 : Int} (hends : AllWithin (2 ^ 28) [x0, y0, x1, y1]) {pen : Nat → Pen}
    (h : Traces x0 y0 x1 y1 pen (rounds x0 y0 x1 y1)) {k : Nat} (hk : k ≤ rounds x0 y0 x1 y1) :
    ∀ v ∈ lineInts x0 y0 x1 y1 (pen k), Fits32 v := by
  obtain ⟨⟨hxlo, hxhi⟩, hylo, hyhi⟩ := h.box k hk
  simp only [allWithin_cons, Within] at hends
  obtain ⟨hx0, hy0, hx1, hy1, -⟩ := hends
  have hdx := gap_eq_natAbs x0 x1
  have hdy := gap_eq_natAbs y0 y1
  have hsx := direction_eq x0 x1
  have hsy := direction_eq y0 y1
  have hrounds : (rounds x0 y0 x1 y1 : Int) ≤ 2 ^ 29 := by
    rw [rounds]
    omega
  have herr : |(pen k).err| ≤ 3 * 2 ^ 28 := by
    have h2 := h.err k hk
    omega
  obtain ⟨helo, hehi⟩ := abs_le.mp herr
  simp only [lineInts, List.forall_mem_cons, List.not_mem_nil, false_imp_iff, implies_true, and_true,
    Fits32, minInt32, maxInt32]
  refine ⟨?_, ?_, ?_, ?_, ?_, ?_, ?_, ?_, ?_, ?_, ?_, ?_⟩ <;> omega

/-- What is to be shown of a line: the pen traces it in as many rounds as the longer distance, and between
ends that are not farther out than 2²⁸ no arithmetic overflows. -/
structure Rasterises (x0 y0 x1 y1 : Int) (pen : Nat → Pen) : Prop where
  traces : Traces x0 y0 x1 y1 pen (rounds x0 y0 x1 y1)
  fits : AllWithin (2 ^ 28) [x0, y0, x1, y1] → ∀ k ≤ rounds x0 y0 x1 y1,
    ∀ v ∈ lineInts x0 y0 x1 y1 (pen k), Fits32 v

theorem rasterises_walk {below : Int → Int → Prop} [DecidableRel below] (hbelow : Asks below)
    (x0 y0 x1 y1 : Int) : Rasterises x0 y0 x1 y1 (walk below x0 y0 x1 y1) :=
  ⟨DigitalLine.traces hbelow x0 y0 x1 y1,
    fun hends _ hk => lineInts_fit hends (DigitalLine.traces hbelow x0 y0 x1 y1) hk⟩

namespace Naplps

def LineWalk.pen (w : LineWalk) : Pen := ⟨w.x0, w.y0, w.err⟩

/-- The state of `naplps_draw_line` after `n` rounds. -/
def lineWalk (x0 y0 x1 y1 : Int) (n : Nat) : LineWalk :=
  (fun w => w.next (gap x0 x1) (gap y0 y1) (direction x0 x1) (direction y0 y1))^[n]
    ⟨x0, y0, gap x0 x1 - gap y0 y1, 0⟩

theorem pen_next (dx dy sx sy : Int) (w : LineWalk) :
    (w.next dx dy sx sy).pen = next (· < ·) dx dy sx sy w.pen := by
  have hx : 2 * w.err > -dy ↔ -(2 * w.err) < dy := by omega
  simp only [LineWalk.next, LineWalk.pen, next, hx, Pen.mk.injEq]
  split_ifs <;> omega

theorem pen_lineWalk (x0 y0 x1 y1 : Int) (n : Nat) :
    (lineWalk x0 y0 x1 y1 n).pen = walk (· < ·) x0 y0 x1 y1 n := by
  have hnext : Function.Semiconj LineWalk.pen
      (fun w => w.next (gap x0 x1) (gap y0 y1) (direction x0 x1) (direction y0 y1))
      (next (· < ·) (gap x0 x1) (gap y0 y1) (direction x0 x1) (direction y0 y1)) :=
    pen_next _ _ _ _
  exact hnext.iterate_right n _

/-- The brush is put down where the texture has a bit. -/
def stampAt (pw ph : Int) (addr texture : Nat) (s : Surface) (w : LineWalk) : Surface :=
  if texture.testBit (w.step % 16) then stampPel s w.x0 w.y0 pw ph addr else s

theorem lineLoop_eq_draw (x1 y1 dx dy sx sy pw ph : Int) (addr texture rounds : Nat) (w : LineWalk)
    (s : Surface) :
    lineLoop x1 y1 dx dy sx sy pw ph addr texture rounds w s =
      draw (fun w => w.next dx dy sx sy) (fun w => w.x0 = x1 ∧ w.y0 = y1) (stampAt pw ph addr texture)
        rounds w s := by
  induction rounds generalizing w s with
  | zero => rfl
  | succ rounds ih =>
      rw [lineLoop, draw, ih]
      rfl

/-- With rounds enough, the loop of `naplps_draw_line` puts the brush down on the points of the line. -/
theorem lineLoop_eq (x0 y0 x1 y1 pw ph : Int) (addr texture : Nat) {n : Nat}
    (hn : rounds x0 y0 x1 y1 < n) (s : Surface) :
    lineLoop x1 y1 (gap x0 x1) (gap y0 y1) (direction x0 x1) (direction y0 y1) pw ph addr texture n
        ⟨x0, y0, gap x0 x1 - gap y0 y1, 0⟩ s =
      (List.range (rounds x0 y0 x1 y1 + 1)).foldl
        (fun s k => stampAt pw ph addr texture s (lineWalk x0 y0 x1 y1 k)) s := by
  have htraces := DigitalLine.traces asks_lt x0 y0 x1 y1
  have hdone : ∀ k, ((lineWalk x0 y0 x1 y1 k).x0 = x1 ∧ (lineWalk x0 y0 x1 y1 k).y0 = y1) ↔
      (walk (· < ·) x0 y0 x1 y1 k).point = (x1, y1) := by
    intro k
    rw [← pen_lineWalk]
    exact Prod.mk.injEq _ _ _ _ ▸ Iff.rfl
  rw [lineLoop_eq_draw]
  apply draw_eq _ _ hn
  · intro k hk hend
    exact htraces.before k hk ((hdone k).mp hend)
  · exact (hdone _).mpr htraces.last

/-- The rounds that the model's loop is given are enough. -/
theorem drawLine_eq (s : Surface) (x0 y0 x1 y1 pw ph : Int) (addr texture : Nat) :
    drawLine s x0 y0 x1 y1 pw ph addr texture =
      (List.range (rounds x0 y0 x1 y1 + 1)).foldl
        (fun s k => stampAt pw ph addr (if texture = 0 then 0xFFFF else texture) s
          (lineWalk x0 y0 x1 y1 k)) s := by
  have hdx := gap_eq_natAbs x0 x1
  have hdy := gap_eq_natAbs y0 y1
  have henough : rounds x0 y0 x1 y1 < (max (gap x0 x1) (gap y0 y1)).toNat + 1 := by
    rw [rounds]
    omega
  exact lineLoop_eq x0 y0 x1 y1 pw ph addr _ henough s

end Naplps

namespace Rip

/-- The state of `ega_line_1px` after `n` rounds. -/
def egaWalk (x0 y0 x1 y1 : Int) (n : Nat) : Pen := walk (· ≤ ·) x0 y0 x1 y1 n

theorem lineLoop_eq_draw (x1 y1 dx dy sx sy : Int) (color rounds : Nat) (p : Pen) (s : RipEga) :
    lineLoop x1 y1 dx (-dy) sx sy color rounds p.x p.y p.err s =
      draw (next (· ≤ ·) dx dy sx sy) (fun p => p.x = x1 ∧ p.y = y1) (fun s p => pixel s p.x p.y color)
        rounds p s := by
  induction rounds generalizing p s with
  | zero => rfl
  | succ rounds ih =>
      have hx : 2 * p.err ≥ -dy ↔ -(2 * p.err) ≤ dy := by omega
      have herr : (next (· ≤ ·) dx dy sx sy p).err =
          if 2 * p.err ≤ dx then (if 2 * p.err ≥ -dy then p.err + -dy else p.err) + dx
          else if 2 * p.err ≥ -dy then p.err + -dy else p.err := by
        simp only [next, hx]
        split_ifs <;> omega
      have hfirst : (next (· ≤ ·) dx dy sx sy p).x = if 2 * p.err ≥ -dy then p.x + sx else p.x := by
        simp only [next, hx]
      rw [lineLoop, draw, ← ih, herr, hfirst]
      rfl

/-- With rounds enough, the loop of `ega_line_1px` draws the points of the line. -/
theorem lineLoop_eq (x0 y0 x1 y1 : Int) (color : Nat) {n : Nat} (hn : rounds x0 y0 x1 y1 < n) (s : RipEga) :
    lineLoop x1 y1 (gap x0 x1) (-gap y0 y1) (direction x0 x1) (direction y0 y1) color n x0 y0
        (gap x0 x1 + -gap y0 y1) s =
      (List.range (rounds x0 y0 x1 y1 + 1)).foldl
        (fun s k => pixel s (egaWalk x0 y0 x1 y1 k).x (egaWalk x0 y0 x1 y1 k).y color) s := by
  have htraces := DigitalLine.traces asks_le x0 y0 x1 y1
  have hdone : ∀ k, ((egaWalk x0 y0 x1 y1 k).x = x1 ∧ (egaWalk x0 y0 x1 y1 k).y = y1) ↔
      (walk (· ≤ ·) x0 y0 x1 y1 k).point = (x1, y1) := fun k => Prod.mk.injEq _ _ _ _ ▸ Iff.rfl
  have hdraw := lineLoop_eq_draw x1 y1 (gap x0 x1) (gap y0 y1) (direction x0 x1) (direction y0 y1) color n
    ⟨x0, y0, gap x0 x1 - gap y0 y1⟩ s
  rw [← Int.sub_eq_add_neg]
  refine hdraw.trans (draw_eq ?_ ?_ hn s)
  · intro k hk hend
    exact htraces.before k hk ((hdone k).mp hend)
  · exact (hdone _).mpr htraces.last

theorem egaLine1px_eq (s : RipEga) (x0 y0 x1 y1 : Int) (color : Nat) :
    egaLine1px s x0 y0 x1 y1 color =
      (List.range (rounds x0 y0 x1 y1 + 1)).foldl
        (fun s k => pixel s (egaWalk x0 y0 x1 y1 k).x (egaWalk x0 y0 x1 y1 k).y color) s := by
  have hdx := gap_eq_natAbs x0 x1
  have hdy := gap_eq_natAbs y0 y1
  have hneg : (if y1 - y0 < 0 then y1 - y0 else -(y1 - y0)) = -gap y0 y1 := by
    rw [gap]
    split <;> omega
  have henough : rounds x0 y0 x1 y1 < (max (gap x0 x1) (-(-gap y0 y1))).toNat + 1 := by
    rw [rounds]
    omega
  simp only [egaLine1px, hneg]
  exact lineLoop_eq x0 y0 x1 y1 color henough s

end Rip

/-- Both loops end after as many rounds as the longer of the two distances, and only there stand on the
end point; they start at the one point, stay between the two and go to a neighbour in every round; what
they draw is drawn at the points of these rounds, however many more rounds they are given; and between
the points that the decoders come to, the whole part of a 32-bit number over 256, no `int` overflows. -/
theorem line_rasteriser (x0 y0 x1 y1 : Int) :
    (Rasterises x0 y0 x1 y1 (fun n => (Naplps.lineWalk x0 y0 x1 y1 n).pen) ∧
      (∀ s pw ph addr texture, Naplps.drawLine s x0 y0 x1 y1 pw ph addr texture =
        (List.range (rounds x0 y0 x1 y1 + 1)).foldl
          (fun s k => Naplps.stampAt pw ph addr (if texture = 0 then 0xFFFF else texture) s
            (Naplps.lineWalk x0 y0 x1 y1 k)) s) ∧
      (∀ pw ph addr texture s n, rounds x0 y0 x1 y1 < n →
        Naplps.lineLoop x1 y1 (gap x0 x1) (gap y0 y1) (direction x0 x1) (direction y0 y1) pw ph addr
            texture n ⟨x0, y0, gap x0 x1 - gap y0 y1, 0⟩ s =
          (List.range (rounds x0 y0 x1 y1 + 1)).foldl
            (fun s k => Naplps.stampAt pw ph addr texture s (Naplps.lineWalk x0 y0 x1 y1 k)) s) ∧
      ∀ v, Fits32 v → Within (2 ^ 28) (Naplps.fxToPx v)) ∧
    Rasterises x0 y0 x1 y1 (Rip.egaWalk x0 y0 x1 y1) ∧
      (∀ s color, Rip.egaLine1px s x0 y0 x1 y1 color =
        (List.range (rounds x0 y0 x1 y1 + 1)).foldl
          (fun s k => Rip.pixel s (Rip.egaWalk x0 y0 x1 y1 k).x (Rip.egaWalk x0 y0 x1 y1 k).y color) s) ∧
      ∀ color s n, rounds x0 y0 x1 y1 < n →
        Rip.lineLoop x1 y1 (gap x0 x1) (-gap y0 y1) (direction x0 x1) (direction y0 y1) color n x0 y0
            (gap x0 x1 + -gap y0 y1) s =
          (List.range (rounds x0 y0 x1 y1 + 1)).foldl
            (fun s k => Rip.pixel s (Rip.egaWalk x0 y0 x1 y1 k).x (Rip.egaWalk x0 y0 x1 y1 k).y color) s := by
  refine ⟨⟨?_, fun s pw ph addr texture => Naplps.drawLine_eq s x0 y0 x1 y1 pw ph addr texture,
    fun pw ph addr texture s n hn => Naplps.lineLoop_eq x0 y0 x1 y1 pw ph addr texture hn s, ?_⟩,
    rasterises_walk asks_le x0 y0 x1 y1, fun s color => Rip.egaLine1px_eq s x0 y0 x1 y1 color,
    fun color s n hn => Rip.lineLoop_eq x0 y0 x1 y1 color hn s⟩
  · have hpen : (fun n => (Naplps.lineWalk x0 y0 x1 y1 n).pen) = walk (· < ·) x0 y0 x1 y1 := by
      funext n
      exact Naplps.pen_lineWalk x0 y0 x1 y1 n
    rw [hpen]
    exact rasterises_walk asks_lt x0 y0 x1 y1
  · intro v hv
    simp only [Fits32, minInt32, maxInt32, Within, Naplps.fxToPx] at *
    omega

end UnicornSuite
