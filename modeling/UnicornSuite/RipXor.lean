import UnicornSuite.LibRun
import UnicornSuite.RipViewport
import Mathlib.Tactic.Linarith
import Mathlib.Tactic.Ring

/-! Drawing in XOR mode (`rip_ega.c`). Which points a draw plots depends on its arguments alone, so a
draw is a list of plots; plots in XOR mode commute and each undoes itself, so a list of them made twice
leaves the surface as it was. Bresenham's loop is given the rounds it needs: it has come to the end of
the line by then, and more of them change nothing. -/

namespace UnicornSuite.Rip

/-! ### Bresenham's loop -/

section Rounds

variable {x1 y1 dx dy sx sy : Int} {color : Nat}

theorem lineLoop_done (n : Nat) (err : Int) (s : RipEga) :
    lineLoop x1 y1 dx dy sx sy color (n + 1) x1 y1 err s = pixel s x1 y1 color := by
  rw [lineLoop, if_pos ⟨rfl, rfl⟩]

theorem lineLoop_next {x0 y0 : Int} (h : ¬ (x0 = x1 ∧ y0 = y1)) (n : Nat) (err : Int) (s : RipEga) :
    lineLoop x1 y1 dx dy sx sy color (n + 1) x0 y0 err s =
      lineLoop x1 y1 dx dy sx sy color n
        (if 2 * err ≥ dy then x0 + sx else x0) (if 2 * err ≤ dx then y0 + sy else y0)
        (if 2 * err ≤ dx then (if 2 * err ≥ dy then err + dy else err) + dx
          else if 2 * err ≥ dy then err + dy else err) (pixel s x0 y0 color) := by
  rw [lineLoop, if_neg h]

/-- `p` of the `a` columns and `q` of the `b` rows of a line are still to go. -/
structure OnLine (a b : Nat) (sx sy x1 y1 x0 y0 err : Int) (p q : Nat) : Prop where
  x : x1 = x0 + sx * p
  y : y1 = y0 + sy * q
  err : err = a - b + b * p - a * q
  columns : p ≤ a
  rows : q ≤ b

variable {a b p q : Nat} {x0 y0 err : Int}

theorem OnLine.stepX (h : OnLine a b sx sy x1 y1 x0 y0 err (p + 1) q) :
    OnLine a b sx sy x1 y1 (x0 + sx) y0 (err + -b) p q where
  x := by rw [h.x]; push_cast; ring
  y := h.y
  err := by rw [h.err]; push_cast; ring
  columns := by have := h.columns; omega
  rows := h.rows

theorem OnLine.stepY (h : OnLine a b sx sy x1 y1 x0 y0 err p (q + 1)) :
    OnLine a b sx sy x1 y1 x0 (y0 + sy) (err + a) p q where
  x := h.x
  y := by rw [h.y]; push_cast; ring
  err := by rw [h.err]; push_cast; ring
  columns := h.columns
  rows := by have := h.rows; omega

theorem OnLine.at_end (h : OnLine a b sx sy x1 y1 x0 y0 err 0 0) : x0 = x1 ∧ y0 = y1 := by
  have hx := h.x
  have hy := h.y
  push_cast at hx hy
  constructor <;> linarith

/-- On a line that is at least as wide as it is high every round takes a column, and the rows run out
with the columns. -/
theorem lineLoop_wide (hsx : sx ≠ 0) (hab : b ≤ a)
    (h : OnLine a b sx sy x1 y1 x0 y0 err p q) (hlo : -(b : Int) ≤ 2 * err)
    (hhi : 2 * err ≤ 3 * a - 2 * b) (n : Nat) (s : RipEga) :
    lineLoop x1 y1 a (-b) sx sy color (p + 1 + n) x0 y0 err s =
      lineLoop x1 y1 a (-b) sx sy color (p + 1) x0 y0 err s := by
  induction p generalizing x0 y0 err q s with
  | zero =>
      obtain rfl : q = 0 := by
        by_contra hq
        have herr := h.err
        have hrows := h.rows
        have haq : (a : Int) * 1 ≤ a * q := by
          apply mul_le_mul_of_nonneg_left
          · omega
          · omega
        push_cast at herr
        omega
      obtain ⟨rfl, rfl⟩ := h.at_end
      rw [Nat.zero_add, Nat.add_comm 1 n, lineLoop_done, lineLoop_done]
  | succ p ih =>
      have hnext : ¬ (x0 = x1 ∧ y0 = y1) := by
        rintro ⟨hx, -⟩
        have hstep : sx * (p + 1 : Nat) = 0 := by
          have := h.x
          omega
        rcases mul_eq_zero.mp hstep with hs | hp
        · exact hsx hs
        · omega
      rw [Nat.add_right_comm, lineLoop_next hnext, lineLoop_next hnext]
      simp only [ge_iff_le, hlo, ↓reduceIte]
      split_ifs with hy
      · cases q with
        | zero =>
            have herr := h.err
            have hcols := h.columns
            have hbp : (b : Int) * 1 ≤ b * (p + 1 : Nat) := by
              apply mul_le_mul_of_nonneg_left
              · omega
              · omega
            push_cast at herr hbp
            omega
        | succ q => exact ih h.stepX.stepY (by omega) (by omega) _
      · exact ih h.stepX (by omega) (by omega) _

/-- On a line that is higher than wide every round takes a row. -/
theorem lineLoop_high (hsy : sy ≠ 0) (hab : a ≤ b)
    (h : OnLine a b sx sy x1 y1 x0 y0 err p q) (hlo : 2 * (a : Int) - 3 * b ≤ 2 * err)
    (hhi : 2 * err ≤ a) (n : Nat) (s : RipEga) :
    lineLoop x1 y1 a (-b) sx sy color (q + 1 + n) x0 y0 err s =
      lineLoop x1 y1 a (-b) sx sy color (q + 1) x0 y0 err s := by
  induction q generalizing x0 y0 err p s with
  | zero =>
      obtain rfl : p = 0 := by
        by_contra hp
        have herr := h.err
        have hcols := h.columns
        have hbp : (b : Int) * 1 ≤ b * p := by
          apply mul_le_mul_of_nonneg_left
          · omega
          · omega
        push_cast at herr
        omega
      obtain ⟨rfl, rfl⟩ := h.at_end
      rw [Nat.zero_add, Nat.add_comm 1 n, lineLoop_done, lineLoop_done]
  | succ q ih =>
      have hnext : ¬ (x0 = x1 ∧ y0 = y1) := by
        rintro ⟨-, hy⟩
        have hstep : sy * (q + 1 : Nat) = 0 := by
          have := h.y
          omega
        rcases mul_eq_zero.mp hstep with hs | hq
        · exact hsy hs
        · omega
      rw [Nat.add_right_comm, lineLoop_next hnext, lineLoop_next hnext]
      simp only [hhi, ↓reduceIte]
      split_ifs with hx
      · cases p with
        | zero =>
            have herr := h.err
            have hrows := h.rows
            have haq : (a : Int) * 1 ≤ a * (q + 1 : Nat) := by
              apply mul_le_mul_of_nonneg_left
              · omega
              · omega
            push_cast at herr haq
            omega
        | succ p => exact ih h.stepX.stepY (by omega) (by omega) _
      · exact ih h.stepY (by omega) (by omega) _

/-- The rounds that a line is given are all it needs. -/
theorem lineLoop_rounds (s : RipEga) (x0 y0 x1 y1 : Int) (color n : Nat) :
    lineLoop x1 y1 (x1 - x0).natAbs (-(y1 - y0).natAbs) (if x0 < x1 then 1 else -1)
        (if y0 < y1 then 1 else -1) color
        (max (x1 - x0).natAbs (y1 - y0).natAbs + 1 + n) x0 y0
        ((x1 - x0).natAbs - (y1 - y0).natAbs) s =
      egaLine1px s x0 y0 x1 y1 color := by
  have hdx : (if x1 - x0 < 0 then -(x1 - x0) else x1 - x0) = ((x1 - x0).natAbs : Int) := by
    split_ifs <;> omega
  have hdy : (if y1 - y0 < 0 then y1 - y0 else -(y1 - y0)) = -((y1 - y0).natAbs : Int) := by
    split_ifs <;> omega
  have hline : OnLine (x1 - x0).natAbs (y1 - y0).natAbs (if x0 < x1 then 1 else -1)
      (if y0 < y1 then 1 else -1) x1 y1 x0 y0 ((x1 - x0).natAbs - (y1 - y0).natAbs)
      (x1 - x0).natAbs (y1 - y0).natAbs := by
    refine ⟨?_, ?_, ?_, le_rfl, le_rfl⟩
    · split_ifs <;> omega
    · split_ifs <;> omega
    · rw [Int.mul_comm]
      omega
  simp only [egaLine1px]
  rw [hdx, hdy, Int.neg_neg, ← Nat.cast_max, Int.toNat_natCast, ← Int.sub_eq_add_neg]
  rcases Nat.le_total (y1 - y0).natAbs (x1 - x0).natAbs with hwide | hhigh
  · rw [Nat.max_eq_left hwide]
    exact lineLoop_wide (by split_ifs <;> decide) hwide hline (by omega) (by omega) n s
  · rw [Nat.max_eq_right hhigh]
    exact lineLoop_high (by split_ifs <;> decide) hhigh hline (by omega) (by omega) n s

end Rounds

/-! ### Plots -/

/-- A point and the colour it is plotted in. -/
structure Plot where
  x : Int
  y : Int
  color : Nat

def plot (s : RipEga) (d : Plot) : RipEga := pixel s d.x d.y d.color

/-- Drawing that plots the same points whatever is on the surface. -/
def Plots (draw : RipEga → RipEga) : Prop := ∃ dots : List Plot, ∀ s, draw s = Machine.run plot s dots

theorem Plots.none : Plots id := ⟨[], fun _ => rfl⟩

theorem Plots.one (x y : Int) (color : Nat) : Plots fun s => pixel s x y color := ⟨[⟨x, y, color⟩], fun _ => rfl⟩

theorem Plots.then {f g : RipEga → RipEga} (hf : Plots f) (hg : Plots g) : Plots fun s => g (f s) := by
  obtain ⟨dots, hf⟩ := hf
  obtain ⟨dots', hg⟩ := hg
  refine ⟨dots ++ dots', fun s => ?_⟩
  calc
    g (f s) = Machine.run plot (f s) dots' := hg _
    _ = Machine.run plot (Machine.run plot s dots) dots' := by rw [hf]
    _ = Machine.run plot s (dots ++ dots') := (Machine.run_append _ _ _ _).symm

theorem Plots.foldl {α : Type*} {step : RipEga → α → RipEga} (hstep : ∀ a, Plots fun s => step s a)
    (as : List α) : Plots fun s => as.foldl step s := by
  induction as with
  | nil => exact Plots.none
  | cons a as ih => exact (hstep a).then ih

theorem lineLoop_plots (x1 y1 dx dy sx sy : Int) (color rounds : Nat) (x0 y0 err : Int) :
    Plots (lineLoop x1 y1 dx dy sx sy color rounds x0 y0 err) := by
  induction rounds generalizing x0 y0 err with
  | zero => exact Plots.none
  | succ rounds ih =>
      by_cases hend : x0 = x1 ∧ y0 = y1
      · obtain ⟨rfl, rfl⟩ := hend
        obtain ⟨dots, hdots⟩ := Plots.one x0 y0 color
        exact ⟨dots, fun s => (lineLoop_done rounds err s).trans (hdots s)⟩
      · obtain ⟨dots, hdots⟩ := (Plots.one x0 y0 color).then (ih _ _ _)
        exact ⟨dots, fun s => (lineLoop_next hend rounds err s).trans (hdots s)⟩

theorem egaLine1px_plots (x0 y0 x1 y1 : Int) (color : Nat) :
    Plots fun s => egaLine1px s x0 y0 x1 y1 color := lineLoop_plots _ _ _ _ _ _ _ _ _ _ _

theorem line_plots (x0 y0 x1 y1 : Int) (color : Nat) (thickness : Int) :
    Plots fun s => line s x0 y0 x1 y1 color thickness := by
  simp only [line]
  split_ifs
  · exact ((egaLine1px_plots _ _ _ _ _).then (egaLine1px_plots _ _ _ _ _)).then
      (egaLine1px_plots _ _ _ _ _)
  · exact ((egaLine1px_plots _ _ _ _ _).then (egaLine1px_plots _ _ _ _ _)).then
      (egaLine1px_plots _ _ _ _ _)
  · exact egaLine1px_plots _ _ _ _ _

theorem rect_plots (x0 y0 x1 y1 : Int) (color : Nat) (thickness : Int) :
    Plots fun s => rect s x0 y0 x1 y1 color thickness :=
  (((line_plots _ _ _ _ _ _).then (line_plots _ _ _ _ _ _)).then (line_plots _ _ _ _ _ _)).then
    (line_plots _ _ _ _ _ _)

theorem drawEdges_plots (edges : List ((Int × Int) × (Int × Int))) (color : Nat) (thickness : Int) :
    Plots fun s => drawEdges s edges color thickness :=
  Plots.foldl (fun _ => line_plots _ _ _ _ _ _) edges

theorem polygon_plots (pts : List (Int × Int)) (color : Nat) (thickness : Int) :
    Plots fun s => polygon s pts color thickness := by
  simp only [polygon]
  split_ifs
  · exact Plots.none
  · exact drawEdges_plots _ _ _

theorem polyline_plots (pts : List (Int × Int)) (color : Nat) (thickness : Int) :
    Plots fun s => polyline s pts color thickness := by
  simp only [polyline]
  split_ifs
  · exact Plots.none
  · exact drawEdges_plots _ _ _

/-! ### Plots in XOR mode -/

/-- The viewport and the screen let a plot at `(x, y)` through. -/
def Lands (s : RipEga) (x y : Int) : Prop :=
  s.viewportDisabled = false ∧ ¬ (x < s.vx0 ∨ x > s.vx1 ∨ y < s.vy0 ∨ y > s.vy1) ∧
    ¬ (x < 0 ∨ x ≥ egaW ∨ y < 0 ∨ y ≥ egaH)

instance (s : RipEga) (x y : Int) : Decidable (Lands s x y) :=
  inferInstanceAs (Decidable (_ ∧ _ ∧ _))

/-- What a plot in XOR mode does to the pixels. -/
theorem plot_xor {s : RipEga} (hxor : s.writeMode = .xor) (d : Plot) :
    plot s d =
      { s with
        pix := ⟨fun i j =>
          if i = d.y ∧ j = d.x ∧ Lands s d.x d.y then (s.pix.cell i j ^^^ d.color) % 16
          else s.pix.cell i j, s.pix.fault⟩ } := by
  have hclipped : ¬ Lands s d.x d.y → s = { s with
        pix := ⟨fun i j =>
          if i = d.y ∧ j = d.x ∧ Lands s d.x d.y then (s.pix.cell i j ^^^ d.color) % 16
          else s.pix.cell i j, s.pix.fault⟩ } := by
    intro hout
    simp only [hout, and_false, ↓reduceIte]
  rw [plot, pixel]
  split_ifs with hoff hview hscreen
  · exact hclipped fun h => absurd h.1 (by rw [hoff]; decide)
  · exact hclipped fun h => h.2.1 hview
  · exact hclipped fun h => h.2.2 hscreen
  · have hlands : Lands s d.x d.y := ⟨by simpa using hoff, hview, hscreen⟩
    have hmem : ega.Mem d.y d.x := by
      simp only [Region.Mem]
      omega
    rw [Grid.put, if_pos hmem, hxor]
    congr 2
    funext i j
    simp only [hlands, and_true]
    split_ifs with hat
    · rw [hat.1, hat.2]
    · rfl

/-- A surface on which lines are drawn in XOR mode. -/
structure XorMode (s : RipEga) : Prop where
  mode : s.writeMode = .xor
  nibbles : Nibbles s.pix

theorem XorMode.plot {s : RipEga} (h : XorMode s) (d : Plot) : XorMode (plot s d) :=
  ⟨(pixel_paints s d.x d.y d.color).writeMode.trans h.mode, (pixel_paints s d.x d.y d.color).nibbles h.nibbles⟩

theorem plot_twice {s : RipEga} (h : XorMode s) (d : Plot) : plot (plot s d) d = s := by
  have hmode := (h.plot d).mode
  rw [plot_xor h.mode] at hmode ⊢
  rw [plot_xor hmode]
  have hcell : ∀ i j, (if i = d.y ∧ j = d.x ∧ Lands s d.x d.y then
        ((if i = d.y ∧ j = d.x ∧ Lands s d.x d.y then (s.pix.cell i j ^^^ d.color) % 16
          else s.pix.cell i j) ^^^ d.color) % 16
      else if i = d.y ∧ j = d.x ∧ Lands s d.x d.y then (s.pix.cell i j ^^^ d.color) % 16
        else s.pix.cell i j) = s.pix.cell i j := by
    intro i j
    split_ifs with hat
    · have hmem : ega.Mem i j := by
        have hscreen := hat.2.2.2.2
        simp only [Region.Mem, hat.1, hat.2.1]
        omega
      calc
        ((s.pix.cell i j ^^^ d.color) % 2 ^ 4 ^^^ d.color) % 2 ^ 4 =
            s.pix.cell i j % 2 ^ 4 ^^^ (d.color % 2 ^ 4 ^^^ d.color % 2 ^ 4) := by
          simp only [Nat.xor_mod_two_pow, Nat.mod_mod, Nat.xor_assoc]
        _ = s.pix.cell i j % 2 ^ 4 := by rw [Nat.xor_self, Nat.xor_zero]
        _ = s.pix.cell i j := Nat.mod_eq_of_lt (h.nibbles i j hmem)
    · rfl
  exact congrArg (fun cell => { s with pix := ⟨cell, s.pix.fault⟩ }) (funext fun i => funext fun j => hcell i j)

/-- Plots commute, also where they share a pixel. -/
theorem plot_comm {s : RipEga} (h : XorMode s) (d d' : Plot) :
    plot (plot s d) d' = plot (plot s d') d := by
  have hmode := (h.plot d).mode
  have hmode' := (h.plot d').mode
  rw [plot_xor h.mode] at hmode ⊢
  rw [plot_xor h.mode] at hmode' ⊢
  rw [plot_xor hmode, plot_xor hmode']
  have hlands : ∀ cell x y, Lands { s with pix := cell } x y = Lands s x y := fun _ _ _ => rfl
  have hsame : ∀ v : Nat, ((v ^^^ d.color) % 2 ^ 4 ^^^ d'.color) % 2 ^ 4 =
      ((v ^^^ d'.color) % 2 ^ 4 ^^^ d.color) % 2 ^ 4 := by
    intro v
    simp only [Nat.xor_mod_two_pow, Nat.mod_mod]
    rw [Nat.xor_assoc, Nat.xor_comm (d.color % 2 ^ 4), ← Nat.xor_assoc]
  congr 2
  funext i j
  simp only [hlands]
  split_ifs
  · exact hsame _
  · rfl
  · rfl
  · rfl

/-- Drawing made twice is no drawing. -/
theorem Plots.twice {draw : RipEga → RipEga} (hdraw : Plots draw) {s : RipEga} (h : XorMode s) :
    draw (draw s) = s := by
  obtain ⟨dots, hdots⟩ := hdraw
  rw [hdots, hdots]
  exact Machine.run_twice (fun _ d hs => hs.plot d) (fun _ d d' hs => plot_comm hs d d')
    (fun _ d hs => plot_twice hs d) h dots

/-! ### Lists of draws -/

/-- The draws that obey the write mode. Their colour is an `int`. The pattern of a line style never
reaches the surface: the parser counts it and the line is solid. -/
inductive Draw where
  | line (x0 y0 x1 y1 color thickness : Int)
  | rect (x0 y0 x1 y1 color thickness : Int)
  | polygon (pts : List (Int × Int)) (color thickness : Int)
  | polyline (pts : List (Int × Int)) (color thickness : Int)

/-- A plot masks its colour with 15 in either mode. -/
def lowNibble (color : Int) : Nat := (color % 16).toNat

def Draw.exec (s : RipEga) : Draw → RipEga
  | .line x0 y0 x1 y1 color thickness => Rip.line s x0 y0 x1 y1 (lowNibble color) thickness
  | .rect x0 y0 x1 y1 color thickness => Rip.rect s x0 y0 x1 y1 (lowNibble color) thickness
  | .polygon pts color thickness => Rip.polygon s pts (lowNibble color) thickness
  | .polyline pts color thickness => Rip.polyline s pts (lowNibble color) thickness

theorem Draw.exec_plots : ∀ d : Draw, Plots fun s => d.exec s
  | .line _ _ _ _ _ _ => line_plots _ _ _ _ _ _
  | .rect _ _ _ _ _ _ => rect_plots _ _ _ _ _ _
  | .polygon _ _ _ => polygon_plots _ _ _
  | .polyline _ _ _ => polyline_plots _ _ _

/-- A surface as the parser keeps it: the array holds palette indices. -/
structure Surface where
  ega : RipEga
  nibbles : Nibbles ega.pix

/-- The surface of a session, whatever has been received. -/
def Surface.ofSession (T : Tables) (cells : Int → Int → Nat) (chunks : List (List UInt8)) : Surface where
  ega := (Machine.run (feed T) (init cells) chunks).surf
  nibbles := Machine.run_inv (I := fun p : RipParser => Nibbles p.surf.pix)
    (fun _ data h => feed_nibbles T h data) (init_nibbles cells) chunks

/-- The order of the corners does not matter. -/
theorem invertRect_corners (s : RipEga) (x0 y0 x1 y1 : Int) :
    invertRect s x1 y0 x0 y1 = invertRect s x0 y0 x1 y1 ∧
      invertRect s x0 y1 x1 y0 = invertRect s x0 y0 x1 y1 := by
  have hlower : ∀ a b, lower a b = lower b a := by
    intro a b
    simp only [lower]
    split_ifs <;> omega
  have hupper : ∀ a b, upper a b = upper b a := by
    intro a b
    simp only [upper]
    split_ifs <;> omega
  constructor
  · rw [invertRect, invertRect, hlower x1 x0, hupper x1 x0]
  · rw [invertRect, invertRect, hlower y1 y0, hupper y1 y0]

/-- Draws made twice in XOR mode, and a rectangle inverted twice in any mode, leave the whole surface as
it was. -/
theorem xor_restores (s : Surface) :
    (s.ega.writeMode = .xor → ∀ draws : List Draw,
        Machine.run Draw.exec (Machine.run Draw.exec s.ega draws) draws = s.ega) ∧
      ∀ x0 y0 x1 y1, invertRect (invertRect s.ega x0 y0 x1 y1) x0 y0 x1 y1 = s.ega ∧
        invertRect s.ega x1 y0 x0 y1 = invertRect s.ega x0 y0 x1 y1 ∧
        invertRect s.ega x0 y1 x1 y0 = invertRect s.ega x0 y0 x1 y1 := by
  constructor
  · intro hxor draws
    have hplots : Plots fun t => Machine.run Draw.exec t draws :=
      Plots.foldl Draw.exec_plots draws
    exact hplots.twice ⟨hxor, s.nibbles⟩
  · intro x0 y0 x1 y1
    exact ⟨invertRect_twice s.nibbles x0 y0 x1 y1, invertRect_corners s.ega x0 y0 x1 y1⟩

end UnicornSuite.Rip
