import Mathlib.Data.List.Rotate
import Mathlib.Data.List.Sort
import UnicornSuite.LibGrid
import UnicornSuite.LibRounds

/-! The 640 by 350 EGA surface of the RIPscrip renderer and its raster primitives (`rip_ega.c`). The
cell of pixel `(x, y)` is row `y`, column `x`; a write outside of `pix` raises the fault flag, and so
does a `memset` of negative length. The samples of the curves, which the source computes in floating
point, are the parameter `Curves`; the division of the polygon fill, done in `double` too, is of small
integers and truncates like the division of integers. -/

namespace UnicornSuite.Rip

/-- `RIP_EGA_W` and `RIP_EGA_H`. -/
abbrev egaW : Int := 640

abbrev egaH : Int := 350

abbrev ega : Region := ⟨0, egaH, 0, egaW⟩

inductive WriteMode where
  | copy | xor
  deriving DecidableEq

structure RipEga where
  pix : Grid Nat
  pal16 : Nat → Nat
  vx0 : Int
  vy0 : Int
  vx1 : Int
  vy1 : Int
  viewportDisabled : Bool
  writeMode : WriteMode

def defaultPal16 : List Nat := [0, 1, 2, 3, 4, 5, 20, 7, 56, 57, 58, 59, 60, 61, 62, 63]

def lower (a b : Int) : Int := if a > b then b else a

def upper (a b : Int) : Int := if a > b then a else b

/-! ### State -/

def reset (s : RipEga) : RipEga :=
  { pix := s.pix.fillAll ega 0
    pal16 := fun i => defaultPal16.getD i 0
    vx0 := 0
    vy0 := 0
    vx1 := egaW - 1
    vy1 := egaH - 1
    viewportDisabled := false
    writeMode := .copy }

/-- `memset` of `n` pixels of row `y`; the length is unsigned in C. -/
def clearSpan (g : Grid Nat) (y x n : Int) : Grid Nat :=
  if 0 ≤ n then g.fillRun ega y x (x + n - 1) 0 else { g with fault := true }

def eraseView (s : RipEga) : RipEga :=
  if s.viewportDisabled then s
  else
    { s with
      pix := Loop.up s.vy0 (s.vy1 + 1)
        (fun y g => if y < 0 ∨ y ≥ egaH then g else clearSpan g y s.vx0 (s.vx1 - s.vx0 + 1)) s.pix }

def setPalette16 (s : RipEga) (master : List Nat) : RipEga :=
  { s with pal16 := fun i =>
      match master[i]? with
      | some m => if m ≤ 63 then m else s.pal16 i
      | none => s.pal16 i }

def setOnePalette (s : RipEga) (color master : Int) : RipEga :=
  if color < 0 ∨ color > 15 ∨ master < 0 ∨ master > 63 then s
  else { s with pal16 := fun i => if i = color.toNat then master.toNat else s.pal16 i }

/-- All parameters zero disable the viewport. -/
def setViewport (s : RipEga) (x0 y0 x1 y1 : Int) : RipEga :=
  if x0 = 0 ∧ y0 = 0 ∧ x1 = 0 ∧ y1 = 0 then
    { s with viewportDisabled := true, vx0 := 0, vy0 := 0, vx1 := 0, vy1 := 0 }
  else
    { s with
      vx0 := if lower x0 x1 < 0 then 0 else lower x0 x1
      vy0 := if lower y0 y1 < 0 then 0 else lower y0 y1
      vx1 := if upper x0 x1 > egaW - 1 then egaW - 1 else upper x0 x1
      vy1 := if upper y0 y1 > egaH - 1 then egaH - 1 else upper y0 y1
      viewportDisabled := false }

/-! ### Pixels, lines and rectangles -/

/-- The one place where a pixel is drawn: clipped to the viewport, under the write mode. -/
def pixel (s : RipEga) (x y : Int) (color : Nat) : RipEga :=
  if s.viewportDisabled then s
  else if x < s.vx0 ∨ x > s.vx1 ∨ y < s.vy0 ∨ y > s.vy1 then s
  else if x < 0 ∨ x ≥ egaW ∨ y < 0 ∨ y ≥ egaH then s
  else
    { s with
      pix := s.pix.put ega y x
        (match s.writeMode with
          | .xor => (s.pix.cell y x ^^^ color) % 16
          | .copy => color % 16) }

/-- Bresenham's loop from `(x0, y0)` to `(x1, y1)`; `dx` is the horizontal and `dy` minus the vertical
distance. The caller gives it a round for every point. -/
def lineLoop (x1 y1 dx dy sx sy : Int) (color : Nat) : Nat → Int → Int → Int → RipEga → RipEga
  | 0, _, _, _, s => s
  | rounds + 1, x0, y0, err, s =>
      let s := pixel s x0 y0 color
      if x0 = x1 ∧ y0 = y1 then s
      else
        let e2 := 2 * err
        let errX := if e2 ≥ dy then err + dy else err
        lineLoop x1 y1 dx dy sx sy color rounds
          (if e2 ≥ dy then x0 + sx else x0) (if e2 ≤ dx then y0 + sy else y0)
          (if e2 ≤ dx then errX + dx else errX) s

/-- `ega_line_1px`. -/
def egaLine1px (s : RipEga) (x0 y0 x1 y1 : Int) (color : Nat) : RipEga :=
  let dx := if x1 - x0 < 0 then -(x1 - x0) else x1 - x0
  let dy := if y1 - y0 < 0 then y1 - y0 else -(y1 - y0)
  lineLoop x1 y1 dx dy (if x0 < x1 then 1 else -1) (if y0 < y1 then 1 else -1) color
    ((max dx (-dy)).toNat + 1) x0 y0 (dx + dy) s

/-- A line of thickness 3 is three parallel runs across the minor axis. -/
def line (s : RipEga) (x0 y0 x1 y1 : Int) (color : Nat) (thickness : Int) : RipEga :=
  if thickness = 3 then
    if (x1 - x0).natAbs ≥ (y1 - y0).natAbs then
      let s := egaLine1px s x0 (y0 - 1) x1 (y1 - 1) color
      let s := egaLine1px s x0 y0 x1 y1 color
      egaLine1px s x0 (y0 + 1) x1 (y1 + 1) color
    else
      let s := egaLine1px s (x0 - 1) y0 (x1 - 1) y1 color
      let s := egaLine1px s x0 y0 x1 y1 color
      egaLine1px s (x0 + 1) y0 (x1 + 1) y1 color
  else egaLine1px s x0 y0 x1 y1 color

def rect (s : RipEga) (x0 y0 x1 y1 : Int) (color : Nat) (thickness : Int) : RipEga :=
  let s := line s x0 y0 x1 y0 color thickness
  let s := line s x1 y0 x1 y1 color thickness
  let s := line s x1 y1 x0 y1 color thickness
  line s x0 y1 x0 y0 color thickness

/-- `rip_ega_invert_rect`: straight into the array, whatever the viewport and the write mode. -/
def invertRect (s : RipEga) (x0 y0 x1 y1 : Int) : RipEga :=
  let xa := upper (lower x0 x1) 0
  let ya := upper (lower y0 y1) 0
  let xb := lower (upper x0 x1) (egaW - 1)
  let yb := lower (upper y0 y1) (egaH - 1)
  if xa > xb ∨ ya > yb then s
  else
    { s with
      pix := Loop.up ya (yb + 1)
        (fun y g => Loop.up xa (xb + 1) (fun x g => g.put ega y x (15 - g.cell y x % 16)) g) s.pix }

/-! ### Fills -/

/-- `ega_fill_span`: fills ignore the write mode. -/
def fillSpan (s : RipEga) (y xa xb : Int) (color : Nat) : RipEga :=
  if s.viewportDisabled ∨ y < s.vy0 ∨ y > s.vy1 ∨ y < 0 ∨ y ≥ egaH then s
  else
    let lo := upper (upper (lower xa xb) s.vx0) 0
    let hi := lower (lower (upper xa xb) s.vx1) (egaW - 1)
    { s with pix := Loop.up lo (hi + 1) (fun x g => g.put ega y x (color % 16)) s.pix }

/-- `ega_fill_index`: pattern 0 fills with the background. -/
def fillIndex (pattern : Int) (fillColor : Nat) : Nat := if pattern = 0 then 0 else fillColor

def bar (s : RipEga) (x0 y0 x1 y1 pattern : Int) (fillColor : Nat) : RipEga :=
  if s.viewportDisabled then s
  else
    Loop.up (lower y0 y1) (upper y0 y1 + 1)
      (fun y s => fillSpan s y x0 x1 (fillIndex pattern fillColor)) s

/-- The edges of the ring of `pts`, from each point to the next. -/
def ringEdges (pts : List (Int × Int)) : List ((Int × Int) × (Int × Int)) :=
  pts.zip (pts.rotate 1)

/-- Where the edge from `p` to `q` crosses scan line `y`; half-open, so that shared vertices count
once. -/
def crossing (y : Int) (p q : Int × Int) : Option Int :=
  if p.2 = q.2 then none
  else if (y ≥ p.2 ∧ y < q.2) ∨ (y ≥ q.2 ∧ y < p.2) then
    some (p.1 + ((y - p.2) * (q.1 - p.1)).tdiv (q.2 - p.2))
  else none

def crossings (pts : List (Int × Int)) (y : Int) : List Int :=
  ((ringEdges pts).filterMap fun e => crossing y e.1 e.2).insertionSort (· ≤ ·)

def fillSpans (y : Int) (color : Nat) : List Int → RipEga → RipEga
  | xa :: xb :: rest, s => fillSpans y color rest (fillSpan s y xa xb color)
  | _, s => s

/-- Even-odd scan line fill. -/
def fillPolygon (s : RipEga) (pts : List (Int × Int)) (pattern : Int) (fillColor : Nat) : RipEga :=
  if pts.length < 2 ∨ s.viewportDisabled then s
  else
    let ymin := (pts.map Prod.snd).foldl lower (pts.headD (0, 0)).2
    let ymax := (pts.map Prod.snd).foldl upper (pts.headD (0, 0)).2
    Loop.up (upper ymin s.vy0) (lower ymax s.vy1 + 1)
      (fun y s => fillSpans y (fillIndex pattern fillColor) (crossings pts y) s) s

def drawEdges (s : RipEga) (edges : List ((Int × Int) × (Int × Int))) (color : Nat)
    (thickness : Int) : RipEga :=
  edges.foldl (fun s e => line s e.1.1 e.1.2 e.2.1 e.2.2 color thickness) s

def polygon (s : RipEga) (pts : List (Int × Int)) (color : Nat) (thickness : Int) : RipEga :=
  if pts.length < 2 then s else drawEdges s (ringEdges pts) color thickness

def polyline (s : RipEga) (pts : List (Int × Int)) (color : Nat) (thickness : Int) : RipEga :=
  if pts.length < 2 then s else drawEdges s (pts.zip pts.tail) color thickness

/-! ### Curves -/

/-- What is computed in floating point: the samples of an arc from its centre, angles and radii, and
half the width of a filled ellipse at a distance from its centre. -/
structure Curves where
  samples : (cx cy startAng endAng rx ry : Int) → List (Int × Int)
  halfWidth : (rx ry dy : Int) → Int

def aspectY (r : Int) : Int := if r ≤ 0 then 0 else (r * 1400 + 960).tdiv 1920

variable (F : Curves)

/-- Whether a curve is drawn at all. -/
def arcEmpty (s : RipEga) (startAng endAng rx ry : Int) : Bool :=
  s.viewportDisabled || decide (rx ≤ 0 ∧ ry ≤ 0) || decide (startAng = endAng)

def arc (s : RipEga) (cx cy startAng endAng rx ry : Int) (color : Nat) (thickness : Int) : RipEga :=
  if arcEmpty s startAng endAng rx ry then s
  else
    let pts := F.samples cx cy startAng endAng rx ry
    drawEdges s (pts.zip pts.tail) color thickness

def ellipse (s : RipEga) (cx cy rx ry : Int) (color : Nat) (thickness : Int) : RipEga :=
  arc F s cx cy 0 360 rx ry color thickness

def circle (s : RipEga) (cx cy radius : Int) (color : Nat) (thickness : Int) : RipEga :=
  arc F s cx cy 0 360 radius (aspectY radius) color thickness

def fillEllipse (s : RipEga) (cx cy rx ry pattern : Int) (fillColor : Nat) : RipEga :=
  if s.viewportDisabled ∨ rx ≤ 0 ∨ ry ≤ 0 then s
  else
    Loop.up (-ry) (ry + 1)
      (fun dy s => fillSpan s (cy + dy) (cx - F.halfWidth rx ry dy) (cx + F.halfWidth rx ry dy)
        (fillIndex pattern fillColor)) s

/-- Centre and arc filled as one polygon, then the arc and its two radii. -/
def pie (s : RipEga) (cx cy startAng endAng rx ry pattern : Int) (fillColor color : Nat)
    (thickness : Int) : RipEga :=
  if arcEmpty s startAng endAng rx ry then s
  else
    let pts := F.samples cx cy startAng endAng rx ry
    let first := pts.headD (cx, cy)
    let last := pts.getLastD (cx, cy)
    let s := fillPolygon s ((cx, cy) :: pts) pattern fillColor
    let s := arc F s cx cy startAng endAng rx ry color thickness
    let s := line s cx cy first.1 first.2 color thickness
    line s cx cy last.1 last.2 color thickness

/-! ### What drawing keeps -/

/-- The pixels of the screen are colours of the palette. -/
abbrev Nibbles (g : Grid Nat) : Prop := Grid.Cells ega (fun _ _ v => v < 16) g

/-- Drawing changes pixels of the array and nothing else. -/
structure Paints (s s' : RipEga) : Prop where
  pal16 : s'.pal16 = s.pal16
  vx0 : s'.vx0 = s.vx0
  vy0 : s'.vy0 = s.vy0
  vx1 : s'.vx1 = s.vx1
  vy1 : s'.vy1 = s.vy1
  viewportDisabled : s'.viewportDisabled = s.viewportDisabled
  writeMode : s'.writeMode = s.writeMode
  inside : s.pix.fault = false → s'.pix.fault = false
  nibbles : Nibbles s.pix → Nibbles s'.pix

theorem Paints.refl (s : RipEga) : Paints s s := ⟨rfl, rfl, rfl, rfl, rfl, rfl, rfl, id, id⟩

theorem Paints.trans {s s' s'' : RipEga} (h : Paints s s') (h' : Paints s' s'') :
    Paints s s'' where
  pal16 := h'.pal16.trans h.pal16
  vx0 := h'.vx0.trans h.vx0
  vy0 := h'.vy0.trans h.vy0
  vx1 := h'.vx1.trans h.vx1
  vy1 := h'.vy1.trans h.vy1
  viewportDisabled := h'.viewportDisabled.trans h.viewportDisabled
  writeMode := h'.writeMode.trans h.writeMode
  inside := h'.inside ∘ h.inside
  nibbles := h'.nibbles ∘ h.nibbles

variable {s s₀ : RipEga}

theorem Paints.withPix {pix : Grid Nat} (hpix : s.pix.fault = false → pix.fault = false)
    (hcells : Nibbles s.pix → Nibbles pix) : Paints s { s with pix := pix } :=
  ⟨rfl, rfl, rfl, rfl, rfl, rfl, rfl, hpix, hcells⟩

theorem Paints.up (lo hi : Int) {body : Int → RipEga → RipEga}
    (hbody : ∀ i s, lo ≤ i → i < hi → Paints s (body i s)) (s : RipEga) :
    Paints s (Loop.up lo hi body s) :=
  Loop.up_inv (I := Paints s) (fun i s' h0 h1 h => h.trans (hbody i s' h0 h1)) (Paints.refl s)

theorem Paints.foldl {α : Type*} {step : RipEga → α → RipEga}
    (hstep : ∀ s a, Paints s (step s a)) (s : RipEga) (as : List α) :
    Paints s (as.foldl step s) := by
  induction as generalizing s with
  | nil => exact Paints.refl s
  | cons a as ih => exact (hstep s a).trans (ih _)

theorem pixel_paints (s : RipEga) (x y : Int) (color : Nat) : Paints s (pixel s x y color) := by
  simp only [pixel]
  split_ifs with hdis hview hscreen
  · exact Paints.refl s
  · exact Paints.refl s
  · exact Paints.refl s
  · refine Paints.withPix (fun hf => Grid.fault_put hf ?_ _) fun hn => hn.put ?_
    · simp only [Region.Mem]
      omega
    · cases s.writeMode with
      | copy => exact Nat.mod_lt _ (by decide)
      | xor => exact Nat.mod_lt _ (by decide)

theorem lineLoop_paints (x1 y1 dx dy sx sy : Int) (color rounds : Nat) (x0 y0 err : Int)
    (s : RipEga) : Paints s (lineLoop x1 y1 dx dy sx sy color rounds x0 y0 err s) := by
  induction rounds generalizing x0 y0 err s with
  | zero => exact Paints.refl s
  | succ rounds ih =>
      have hdot := pixel_paints s x0 y0 color
      by_cases hend : x0 = x1 ∧ y0 = y1
      · rw [lineLoop, if_pos hend]
        exact hdot
      · rw [lineLoop, if_neg hend]
        exact hdot.trans (ih _ _ _ _)

theorem egaLine1px_paints (s : RipEga) (x0 y0 x1 y1 : Int) (color : Nat) :
    Paints s (egaLine1px s x0 y0 x1 y1 color) := lineLoop_paints _ _ _ _ _ _ _ _ _ _ _ s

theorem line_paints (s : RipEga) (x0 y0 x1 y1 : Int) (color : Nat) (thickness : Int) :
    Paints s (line s x0 y0 x1 y1 color thickness) := by
  simp only [line]
  split_ifs
  · exact ((egaLine1px_paints s _ _ _ _ _).trans (egaLine1px_paints _ _ _ _ _ _)).trans
      (egaLine1px_paints _ _ _ _ _ _)
  · exact ((egaLine1px_paints s _ _ _ _ _).trans (egaLine1px_paints _ _ _ _ _ _)).trans
      (egaLine1px_paints _ _ _ _ _ _)
  · exact egaLine1px_paints s _ _ _ _ _

theorem rect_paints (s : RipEga) (x0 y0 x1 y1 : Int) (color : Nat) (thickness : Int) :
    Paints s (rect s x0 y0 x1 y1 color thickness) :=
  (((line_paints s _ _ _ _ _ _).trans (line_paints _ _ _ _ _ _ _)).trans
    (line_paints _ _ _ _ _ _ _)).trans (line_paints _ _ _ _ _ _ _)

theorem le_upper_right (a b : Int) : b ≤ upper a b := by
  simp only [upper]
  split_ifs <;> omega

theorem lower_le_right (a b : Int) : lower a b ≤ b := by
  simp only [lower]
  split_ifs <;> omega

/-- Every four-bit pixel is the complement of its complement. -/
theorem invertRect_twice (h : Nibbles s.pix) (x0 y0 x1 y1 : Int) :
    invertRect (invertRect s x0 y0 x1 y1) x0 y0 x1 y1 = s := by
  have hx0 := le_upper_right (lower x0 x1) 0
  have hx1 := lower_le_right (upper x0 x1) (egaW - 1)
  have hy0 := le_upper_right (lower y0 y1) 0
  have hy1 := lower_le_right (upper y0 y1) (egaH - 1)
  rw [invertRect, invertRect]
  generalize upper (lower x0 x1) 0 = xa at *
  generalize lower (upper x0 x1) (egaW - 1) = xb at *
  generalize upper (lower y0 y1) 0 = ya at *
  generalize lower (upper y0 y1) (egaH - 1) = yb at *
  split_ifs with hempty
  · rfl
  · have hmem (y x : Int) (hy : ya ≤ y) (hy' : y < yb + 1) (hx : xa ≤ x) (hx' : x < xb + 1) : ega.Mem y x := by
      simp only [Region.Mem]
      omega
    have hflip (g : Grid Nat) := Grid.up_rect (R := ega) (fun v => 15 - v % 16) g
      (by omega : ya ≤ yb + 1) (by omega : xa ≤ xb + 1) hmem
    rw [hflip, hflip]
    have hsame : (Grid.mk (fun y x =>
        if ya ≤ y ∧ y < yb + 1 ∧ xa ≤ x ∧ x < xb + 1 then
          15 - (if ya ≤ y ∧ y < yb + 1 ∧ xa ≤ x ∧ x < xb + 1 then 15 - s.pix.cell y x % 16
            else s.pix.cell y x) % 16
        else if ya ≤ y ∧ y < yb + 1 ∧ xa ≤ x ∧ x < xb + 1 then 15 - s.pix.cell y x % 16
        else s.pix.cell y x) s.pix.fault) = s.pix := by
      ext y x
      · dsimp only
        split_ifs with hin
        · have hv := h y x (hmem y x hin.1 hin.2.1 hin.2.2.1 hin.2.2.2)
          dsimp only at hv
          omega
        · rfl
      · rfl
    rw [hsame]

theorem fillSpan_paints (s : RipEga) (y xa xb : Int) (color : Nat) :
    Paints s (fillSpan s y xa xb color) := by
  rw [fillSpan]
  split_ifs with hclip
  · exact Paints.refl s
  · refine Paints.withPix (fun hf => ?_) fun hn => ?_
    · refine Loop.up_inv (I := fun g : Grid Nat => g.fault = false)
        (fun x g hlo hhi hg => Grid.fault_put hg ?_ _) hf
      have hlo0 := le_upper_right (upper (lower xa xb) s.vx0) 0
      have hhi0 := lower_le_right (lower (upper xa xb) s.vx1) (egaW - 1)
      simp only [Region.Mem]
      omega
    · exact Loop.up_inv (I := Nibbles) (fun x g _ _ hg => hg.put (Nat.mod_lt _ (by decide))) hn

theorem bar_paints (s : RipEga) (x0 y0 x1 y1 pattern : Int) (fillColor : Nat) :
    Paints s (bar s x0 y0 x1 y1 pattern fillColor) := by
  simp only [bar]
  split_ifs
  · exact Paints.refl s
  · exact Paints.up _ _ (fun y s _ _ => fillSpan_paints s y _ _ _) s

theorem fillSpans_paints (y : Int) (color : Nat) (cross : List Int) (s : RipEga) :
    Paints s (fillSpans y color cross s) := by
  induction cross, s using fillSpans.induct y color with
  | case1 xa xb rest s ih => exact (fillSpan_paints s y xa xb color).trans ih
  | case2 cross s hshort =>
      rw [fillSpans]
      · exact Paints.refl s
      · exact hshort

theorem fillPolygon_paints (s : RipEga) (pts : List (Int × Int)) (pattern : Int)
    (fillColor : Nat) : Paints s (fillPolygon s pts pattern fillColor) := by
  simp only [fillPolygon]
  split_ifs
  · exact Paints.refl s
  · exact Paints.up _ _ (fun y s _ _ => fillSpans_paints y _ _ s) s

theorem drawEdges_paints (s : RipEga) (edges : List ((Int × Int) × (Int × Int))) (color : Nat)
    (thickness : Int) : Paints s (drawEdges s edges color thickness) :=
  Paints.foldl (fun s _ => line_paints s _ _ _ _ _ _) s edges

theorem polygon_paints (s : RipEga) (pts : List (Int × Int)) (color : Nat) (thickness : Int) :
    Paints s (polygon s pts color thickness) := by
  simp only [polygon]
  split_ifs
  · exact Paints.refl s
  · exact drawEdges_paints s _ _ _

theorem polyline_paints (s : RipEga) (pts : List (Int × Int)) (color : Nat) (thickness : Int) :
    Paints s (polyline s pts color thickness) := by
  simp only [polyline]
  split_ifs
  · exact Paints.refl s
  · exact drawEdges_paints s _ _ _

theorem arc_paints (s : RipEga) (cx cy startAng endAng rx ry : Int) (color : Nat)
    (thickness : Int) : Paints s (arc F s cx cy startAng endAng rx ry color thickness) := by
  simp only [arc]
  split_ifs
  · exact Paints.refl s
  · exact drawEdges_paints s _ _ _

theorem fillEllipse_paints (s : RipEga) (cx cy rx ry pattern : Int) (fillColor : Nat) :
    Paints s (fillEllipse F s cx cy rx ry pattern fillColor) := by
  simp only [fillEllipse]
  split_ifs
  · exact Paints.refl s
  · exact Paints.up _ _ (fun _ s _ _ => fillSpan_paints s _ _ _ _) s

theorem pie_paints (s : RipEga) (cx cy startAng endAng rx ry pattern : Int)
    (fillColor color : Nat) (thickness : Int) :
    Paints s (pie F s cx cy startAng endAng rx ry pattern fillColor color thickness) := by
  simp only [pie]
  split_ifs
  · exact Paints.refl s
  · exact (((fillPolygon_paints s _ _ _).trans (arc_paints F _ _ _ _ _ _ _ _ _)).trans
      (line_paints _ _ _ _ _ _ _)).trans (line_paints _ _ _ _ _ _ _)

/-! ### The viewport -/

/-- The viewport is off, or a rectangle of the screen. -/
structure ViewOk (s : RipEga) : Prop where
  x : s.viewportDisabled = false → 0 ≤ s.vx0 ∧ s.vx0 ≤ s.vx1 ∧ s.vx1 ≤ egaW - 1
  y : s.viewportDisabled = false → 0 ≤ s.vy0 ∧ s.vy0 ≤ s.vy1 ∧ s.vy1 ≤ egaH - 1

structure RipEga.Ok (s : RipEga) : Prop where
  view : ViewOk s
  inside : s.pix.fault = false

theorem RipEga.Ok.paint (h : s.Ok) {s' : RipEga} (hp : Paints s s') : s'.Ok where
  view :=
    ⟨fun hon => by
      rw [hp.vx0, hp.vx1]
      exact h.view.x (hp.viewportDisabled ▸ hon),
    fun hon => by
      rw [hp.vy0, hp.vy1]
      exact h.view.y (hp.viewportDisabled ▸ hon)⟩
  inside := hp.inside h.inside

theorem reset_ok (h : s.pix.fault = false) : (reset s).Ok :=
  ⟨⟨fun _ => (by decide : (0 : Int) ≤ 0 ∧ (0 : Int) ≤ egaW - 1 ∧ egaW - 1 ≤ egaW - 1),
    fun _ => (by decide : (0 : Int) ≤ 0 ∧ (0 : Int) ≤ egaH - 1 ∧ egaH - 1 ≤ egaH - 1)⟩, h⟩

theorem reset_nibbles (s : RipEga) : Nibbles (reset s).pix := Grid.cells_fillAll s.pix fun _ _ => by decide

theorem eraseView_nibbles (h : Nibbles s.pix) : Nibbles (eraseView s).pix := by
  rw [eraseView]
  split_ifs
  · exact h
  · refine Loop.up_inv (I := Nibbles) (fun y g _ _ hg => ?_) h
    rw [clearSpan]
    split_ifs
    · exact hg
    · exact hg.fillRun fun _ => by decide
    · exact hg

/-- In a viewport that is in order an erase writes inside of the array only. -/
theorem eraseView_ok (h : s.Ok) : (eraseView s).Ok := by
  have hcells := eraseView_nibbles (s := s)
  rw [eraseView] at hcells ⊢
  split_ifs at hcells ⊢ with hdis
  · exact h
  · obtain ⟨hx0, hx1, hx2⟩ := h.view.x (by simpa using hdis)
    refine h.paint (Paints.withPix (fun hf => ?_) hcells)
    refine Loop.up_inv (I := fun g : Grid Nat => g.fault = false) (fun y g _ _ hg => ?_) hf
    by_cases hout : y < 0 ∨ y ≥ egaH
    · rw [if_pos hout]
      exact hg
    · rw [if_neg hout, clearSpan, if_pos (by omega)]
      refine Grid.fault_fillRun hg (fun _ => ?_) _
      simp only [Region.Mem]
      omega

/-- What a viewport command has to name: nothing at all, or a corner on the screen. -/
def ViewFits (x0 y0 x1 y1 : Int) : Prop :=
  (x0 = 0 ∧ y0 = 0 ∧ x1 = 0 ∧ y1 = 0) ∨ lower x0 x1 ≤ egaW - 1 ∧ lower y0 y1 ≤ egaH - 1

instance (x0 y0 x1 y1 : Int) : Decidable (ViewFits x0 y0 x1 y1) :=
  inferInstanceAs (Decidable (_ ∨ _))

/-- For corners that are not negative the condition is exact. -/
theorem setViewport_ok_iff (hf : s.pix.fault = false) {x0 y0 x1 y1 : Int}
    (hx : 0 ≤ x0 ∧ 0 ≤ x1) (hy : 0 ≤ y0 ∧ 0 ≤ y1) :
    (setViewport s x0 y0 x1 y1).Ok ↔ ViewFits x0 y0 x1 y1 := by
  have hW : egaW = 640 := rfl
  have hH : egaH = 350 := rfl
  by_cases hzero : x0 = 0 ∧ y0 = 0 ∧ x1 = 0 ∧ y1 = 0
  · rw [setViewport, if_pos hzero]
    exact ⟨fun _ => .inl hzero, fun _ => ⟨⟨nofun, nofun⟩, hf⟩⟩
  · rw [setViewport, if_neg hzero]
    constructor
    · intro hok
      have hvx := hok.view.x rfl
      have hvy := hok.view.y rfl
      refine .inr ?_
      simp only [lower, upper] at hvx hvy ⊢
      split_ifs at hvx hvy ⊢ <;> omega
    · intro hfits
      obtain ⟨hfx, hfy⟩ := hfits.resolve_left hzero
      refine ⟨⟨fun _ => ?_, fun _ => ?_⟩, hf⟩
      · simp only [lower, upper] at hfx ⊢
        split_ifs at hfx ⊢ <;> omega
      · simp only [lower, upper] at hfy ⊢
        split_ifs at hfy ⊢ <;> omega

end UnicornSuite.Rip
