import Mathlib.Data.List.Rotate
import Mathlib.Data.List.Sort
import UnicornSuite.LibCInt
import UnicornSuite.LibGrid
import UnicornSuite.LibRounds

/-! The 256 by 200 indexed surface of the NAPLPS renderer and the raster primitives of
`naplps_surface.c`. Pixels are colour map addresses, row 0 is the bottom scan line and the cell of
pixel `(x, y)` is row `y`, column `x`. A primitive that wrote outside of `pix` would raise the fault
flag of the grid; `Surface.Ok` says that none has, that every pixel is a colour map address and that
every colour component has three bits. -/

namespace UnicornSuite.Naplps

open CInt

/-- `NAPLPS_W` and `NAPLPS_H`. -/
abbrev width : Int := 256

abbrev height : Int := 200

/-- `NAPLPS_CMAP_SIZE`. -/
abbrev cmapSize : Nat := 16

/-- `NAPLPS_PRIMARY_MAX`. -/
abbrev primaryMax : Nat := 7

abbrev screen : Region := ⟨0, height, 0, width⟩

structure Color where
  g : Nat
  r : Nat
  b : Nat
  deriving DecidableEq

inductive MaskKind where
  | bitmap | vhatch | hhatch | xhatch | null
  deriving DecidableEq

/-- An area texture mask; `offAddr` is negative where the pixels off the mask are left alone. -/
structure Mask where
  row : Nat → Nat
  kind : MaskKind
  pw : Int
  ph : Int
  offAddr : Int

structure Surface where
  pix : Grid Nat
  cmap : Nat → Color

/-! ### Colour map -/

def defaultMap : List Color :=
  [⟨0, 0, 0⟩, ⟨1, 1, 1⟩, ⟨2, 2, 2⟩, ⟨3, 3, 3⟩, ⟨4, 4, 4⟩, ⟨5, 5, 5⟩, ⟨6, 6, 6⟩, ⟨7, 7, 7⟩,
    ⟨0, 0, 7⟩, ⟨0, 5, 7⟩, ⟨0, 7, 4⟩, ⟨2, 7, 0⟩, ⟨7, 7, 0⟩, ⟨7, 2, 0⟩, ⟨7, 0, 4⟩, ⟨5, 0, 7⟩]

def surfaceDefaultCmap (s : Surface) : Surface :=
  { s with cmap := fun i => defaultMap.getD i ⟨0, 0, 0⟩ }

def surfaceClear (s : Surface) (addr : Nat) : Surface :=
  { s with pix := s.pix.fillAll screen (addr % cmapSize) }

def surfaceInit (s : Surface) : Surface := surfaceClear (surfaceDefaultCmap s) 0

/-! ### Texture masks -/

def maskSolid : Mask :=
  { row := fun _ => 0xFFFF, kind := .bitmap, pw := 1, ph := 1, offAddr := -1 }

/-- Table 13: 0 solid, 1 to 3 hatching, 4 to 7 the programmable masks, which are never defined. -/
def maskPattern (pattern : Nat) (pw ph offAddr : Int) : Mask :=
  let m := { maskSolid with pw := if pw < 1 then 1 else pw, ph := if ph < 1 then 1 else ph }
  match pattern % 8 with
  | 0 => m
  | 1 => { m with kind := .vhatch, offAddr := offAddr }
  | 2 => { m with kind := .hhatch, offAddr := offAddr }
  | 3 => { m with kind := .xhatch, offAddr := offAddr }
  | _ => { m with kind := .null, offAddr := offAddr }

def maskTest (m : Mask) (x y : Int) : Bool :=
  match m.kind with
  | .vhatch => x.tdiv m.pw % 2 = 0
  | .hhatch => y.tdiv m.ph % 2 = 0
  | .xhatch => x.tdiv m.pw % 2 = 0 ∨ y.tdiv m.ph % 2 = 0
  | .null => false
  | .bitmap => (m.row (y % 16).toNat).testBit (x % 16).toNat

/-- One pixel of an area fill. No mask is a mask that is on everywhere. -/
def maskPut (s : Surface) (m : Option Mask) (x y : Int) (addr : Nat) : Surface :=
  match m with
  | none => { s with pix := s.pix.put screen y x (addr % cmapSize) }
  | some m =>
      if maskTest m x y then { s with pix := s.pix.put screen y x (addr % cmapSize) }
      else if 0 ≤ m.offAddr then
        { s with pix := s.pix.put screen y x (m.offAddr % 16).toNat }
      else s

/-! ### Raster primitives -/

def plot (s : Surface) (x y : Int) (addr : Nat) : Surface :=
  if x < 0 ∨ x ≥ width ∨ y < 0 ∨ y ≥ height then s
  else { s with pix := s.pix.put screen y x (addr % cmapSize) }

/-- Lay the logical pel down with its drawing point at `(x, y)`; a pel without extent marks one
pixel. -/
def stampPel (s : Surface) (x y pw ph : Int) (addr : Nat) : Surface :=
  let w := if pw < 0 then -pw else pw
  let h := if ph < 0 then -ph else ph
  let w := if w < 1 then 1 else w
  let h := if h < 1 then 1 else h
  let x0 := if pw < 0 then x - (w - 1) else x
  let y0 := if ph < 0 then y - (h - 1) else y
  Loop.up 0 h (fun iy s => Loop.up 0 w (fun ix s => plot s (x0 + ix) (y0 + iy) addr) s) s

def drawPoint (s : Surface) (x y pw ph : Int) (addr : Nat) : Surface := stampPel s x y pw ph addr

/-- The walking point of the line loop, its error term and the number of pixels visited. -/
structure LineWalk where
  x0 : Int
  y0 : Int
  err : Int
  step : Nat

def LineWalk.next (w : LineWalk) (dx dy sx sy : Int) : LineWalk :=
  let e2 := 2 * w.err
  let err := if e2 > -dy then w.err - dy else w.err
  { x0 := if e2 > -dy then w.x0 + sx else w.x0
    y0 := if e2 < dx then w.y0 + sy else w.y0
    err := if e2 < dx then err + dx else err
    step := w.step + 1 }

/-- Bresenham's loop, which ends at the end point after `max dx dy` steps; the caller gives it that
many rounds and one for the end point itself. -/
def lineLoop (x1 y1 dx dy sx sy pw ph : Int) (addr texture : Nat) :
    Nat → LineWalk → Surface → Surface
  | 0, _, s => s
  | rounds + 1, w, s =>
      let s := if texture.testBit (w.step % 16) then stampPel s w.x0 w.y0 pw ph addr else s
      if w.x0 = x1 ∧ w.y0 = y1 then s
      else lineLoop x1 y1 dx dy sx sy pw ph addr texture rounds (w.next dx dy sx sy) s

def drawLine (s : Surface) (x0 y0 x1 y1 pw ph : Int) (addr texture : Nat) : Surface :=
  let texture := if texture = 0 then 0xFFFF else texture
  let dx := if x1 - x0 < 0 then -(x1 - x0) else x1 - x0
  let dy := if y1 - y0 < 0 then -(y1 - y0) else y1 - y0
  let sx := if x0 < x1 then 1 else -1
  let sy := if y0 < y1 then 1 else -1
  lineLoop x1 y1 dx dy sx sy pw ph addr texture ((max dx dy).toNat + 1) ⟨x0, y0, dx - dy, 0⟩ s

def fillRect (s : Surface) (x y w h : Int) (addr : Nat) (mask : Option Mask) : Surface :=
  let x := if w < 0 then x + (w + 1) else x
  let w := if w < 0 then -w else w
  let y := if h < 0 then y + (h + 1) else y
  let h := if h < 0 then -h else h
  if w ≤ 0 ∨ h ≤ 0 then s
  else
    let x1 := x + w
    let y1 := y + h
    let x := if x < 0 then 0 else x
    let y := if y < 0 then 0 else y
    let x1 := if x1 > width then width else x1
    let y1 := if y1 > height then height else y1
    Loop.up y y1 (fun iy s => Loop.up x x1 (fun ix s => maskPut s mask ix iy addr) s) s

/-- `MAX_CROSS`. -/
abbrev maxCross : Nat := 1024

/-- Each vertex of a ring with the one before it. -/
def ringEdges (pts : List (Int × Int)) : List ((Int × Int) × (Int × Int)) :=
  pts.zip (pts.rotate (pts.length - 1))

/-- The crossing of the edge from `p` to its predecessor `q` with the scan line `yc2 / 2`. The
product is a `long`, which has 32 bits. -/
def crossing (yc2 : Int) (p q : Int × Int) : Option Int :=
  let lo := if p.2 < q.2 then p.2 else q.2
  let hi := if p.2 < q.2 then q.2 else p.2
  if 2 * lo > yc2 ∨ 2 * hi ≤ yc2 then none
  else if p.2 = q.2 then none
  else
    let num := wrap32 ((q.1 - p.1) * (yc2 - 2 * p.2))
    let den := (q.2 - p.2) * 2
    some (p.1 + num.tdiv den)

def crossings (pts : List (Int × Int)) (y : Int) : List Int :=
  ((ringEdges pts).filterMap fun e => crossing (2 * y + 1) e.1 e.2).take maxCross

/-- The pixels `xs` to `xe` of line `y`, clipped to the surface. -/
def fillSpan (s : Surface) (y xs xe : Int) (addr : Nat) (mask : Option Mask) : Surface :=
  if xe < 0 ∨ xs ≥ width then s
  else
    let xs := if xs < 0 then 0 else xs
    let xe := if xe > width - 1 then width - 1 else xe
    Loop.up xs (xe + 1) (fun x s => maskPut s mask x y addr) s

def fillSpans (y : Int) (addr : Nat) (mask : Option Mask) : List Int → Surface → Surface
  | xs :: xe :: rest, s => fillSpans y addr mask rest (fillSpan s y xs xe addr mask)
  | _, s => s

/-- Even-odd scan line fill of the ring `pts`. -/
def fillPoly (s : Surface) (pts : List (Int × Int)) (addr : Nat) (mask : Option Mask) : Surface :=
  if pts.length < 3 then s
  else
    Loop.up 0 height
      (fun y s => fillSpans y addr mask ((crossings pts y).insertionSort (· ≤ ·)) s) s

def drawEdge (pw ph : Int) (addr texture : Nat) (s : Surface) (e : (Int × Int) × (Int × Int)) :
    Surface := drawLine s e.1.1 e.1.2 e.2.1 e.2.2 pw ph addr texture

def strokePoly (s : Surface) (pts : List (Int × Int)) (closed : Bool) (pw ph : Int)
    (addr texture : Nat) : Surface :=
  if pts.length < 2 then s
  else
    let s := (pts.zip pts.tail).foldl (drawEdge pw ph addr texture) s
    if closed ∧ pts.length > 2 then
      drawEdge pw ph addr texture s (pts.getLastD (0, 0), pts.headD (0, 0))
    else s

/-! ### What the primitives keep -/

def Color.Ok (c : Color) : Prop := c.g ≤ primaryMax ∧ c.r ≤ primaryMax ∧ c.b ≤ primaryMax

instance (c : Color) : Decidable c.Ok := inferInstanceAs (Decidable (_ ∧ _ ∧ _))

structure Surface.Ok (s : Surface) : Prop where
  pix : s.pix.Good screen fun _ _ v => v < cmapSize
  cmap : ∀ i, (s.cmap i).Ok

theorem defaultMap_ok : ∀ c ∈ defaultMap, c.Ok := by decide

variable {s : Surface}

theorem Surface.Ok.withPix (h : s.Ok) {pix : Grid Nat}
    (hpix : pix.Good screen fun _ _ v => v < cmapSize) : Surface.Ok { s with pix := pix } :=
  ⟨hpix, h.cmap⟩

theorem surfaceDefaultCmap_cmap_ok (s : Surface) (i : Nat) :
    ((surfaceDefaultCmap s).cmap i).Ok := by
  simp only [surfaceDefaultCmap, List.getD_eq_getElem?_getD]
  cases hi : defaultMap[i]? with
  | none => decide
  | some c => exact defaultMap_ok c (List.mem_of_getElem? hi)

theorem surfaceDefaultCmap_ok (h : s.Ok) : (surfaceDefaultCmap s).Ok :=
  ⟨h.pix, surfaceDefaultCmap_cmap_ok s⟩

theorem surfaceClear_ok (h : s.Ok) (addr : Nat) : (surfaceClear s addr).Ok :=
  h.withPix (h.pix.fillAll fun _ _ _ => Nat.mod_lt _ (by decide))

/-- A cleared surface is well formed whatever the memory held. -/
theorem surfaceInit_ok (hfault : s.pix.fault = false) : (surfaceInit s).Ok := by
  refine ⟨⟨hfault, fun i j hm => ?_⟩, surfaceDefaultCmap_cmap_ok s⟩
  simp only [surfaceInit, surfaceClear, Grid.fillAll, if_pos hm]
  decide

theorem maskPut_ok (h : s.Ok) (m : Option Mask) {x y : Int} (hm : screen.Mem y x) (addr : Nat) :
    (maskPut s m x y addr).Ok := by
  cases m with
  | none => exact h.withPix (h.pix.put hm (Nat.mod_lt _ (by decide)))
  | some m =>
      simp only [maskPut]
      split_ifs with hon hoff
      · exact h.withPix (h.pix.put hm (Nat.mod_lt _ (by decide)))
      · refine h.withPix (h.pix.put hm ?_)
        show (m.offAddr % 16).toNat < 16
        omega
      · exact h

theorem plot_ok (h : s.Ok) (x y : Int) (addr : Nat) : (plot s x y addr).Ok := by
  rw [plot]
  split_ifs with hclip
  · exact h
  · refine h.withPix (h.pix.put ?_ (Nat.mod_lt _ (by decide)))
    simp only [Region.Mem]
    omega

theorem Surface.Ok.up {lo hi : Int} {body : Int → Surface → Surface}
    (hbody : ∀ i s, lo ≤ i → i < hi → s.Ok → (body i s).Ok) (h : s.Ok) :
    (Loop.up lo hi body s).Ok := Loop.up_inv hbody h

theorem stampPel_ok (h : s.Ok) (x y pw ph : Int) (addr : Nat) :
    (stampPel s x y pw ph addr).Ok :=
  Surface.Ok.up (fun _ _ _ _ hrow => Surface.Ok.up (fun _ _ _ _ hs => plot_ok hs _ _ _) hrow) h

theorem lineLoop_ok (x1 y1 dx dy sx sy pw ph : Int) (addr texture rounds : Nat) (w : LineWalk)
    (h : s.Ok) : (lineLoop x1 y1 dx dy sx sy pw ph addr texture rounds w s).Ok := by
  induction rounds generalizing w s with
  | zero => exact h
  | succ rounds ih =>
      have hdot : Surface.Ok (if texture.testBit (w.step % 16) then
          stampPel s w.x0 w.y0 pw ph addr else s) := by
        split_ifs
        · exact stampPel_ok h _ _ _ _ _
        · exact h
      by_cases hend : w.x0 = x1 ∧ w.y0 = y1
      · rw [lineLoop, if_pos hend]
        exact hdot
      · rw [lineLoop, if_neg hend]
        exact ih _ hdot

theorem drawLine_ok (h : s.Ok) (x0 y0 x1 y1 pw ph : Int) (addr texture : Nat) :
    (drawLine s x0 y0 x1 y1 pw ph addr texture).Ok := lineLoop_ok _ _ _ _ _ _ _ _ _ _ _ _ h

theorem fillRect_ok (h : s.Ok) (x y w hgt : Int) (addr : Nat) (mask : Option Mask) :
    (fillRect s x y w hgt addr mask).Ok := by
  simp only [fillRect]
  by_cases hempty : (if w < 0 then -w else w) ≤ 0 ∨ (if hgt < 0 then -hgt else hgt) ≤ 0
  · rw [if_pos hempty]
    exact h
  · rw [if_neg hempty]
    refine Surface.Ok.up (fun iy _ hy0 hy1 hrow => ?_) h
    refine Surface.Ok.up (fun ix _ hx0 hx1 hs => maskPut_ok hs mask ?_ addr) hrow
    have hiy : 0 ≤ iy ∧ iy < height := by
      split_ifs at hy0 hy1 <;> omega
    have hix : 0 ≤ ix ∧ ix < width := by
      split_ifs at hx0 hx1 <;> omega
    exact ⟨hiy.1, hiy.2, hix.1, hix.2⟩

theorem fillSpan_ok (h : s.Ok) {y : Int} (hy : 0 ≤ y ∧ y < height) (xs xe : Int) (addr : Nat)
    (mask : Option Mask) : (fillSpan s y xs xe addr mask).Ok := by
  simp only [fillSpan]
  by_cases hclip : xe < 0 ∨ xs ≥ width
  · rw [if_pos hclip]
    exact h
  · rw [if_neg hclip]
    refine Surface.Ok.up (fun x _ hx0 hx1 hs => maskPut_ok hs mask ?_ addr) h
    have hx : 0 ≤ x ∧ x < width := by
      split_ifs at hx0 hx1 <;> omega
    exact ⟨hy.1, hy.2, hx.1, hx.2⟩

theorem fillSpans_ok {y : Int} (hy : 0 ≤ y ∧ y < height) (addr : Nat) (mask : Option Mask)
    (cross : List Int) (h : s.Ok) : (fillSpans y addr mask cross s).Ok := by
  induction cross, s using fillSpans.induct y addr mask with
  | case1 xs xe rest s ih => exact ih (fillSpan_ok h hy xs xe addr mask)
  | case2 cross s hshort =>
      rw [fillSpans]
      · exact h
      · exact hshort

theorem fillPoly_ok (h : s.Ok) (pts : List (Int × Int)) (addr : Nat) (mask : Option Mask) :
    (fillPoly s pts addr mask).Ok := by
  rw [fillPoly]
  split_ifs
  · exact h
  · exact Surface.Ok.up (fun _ _ h0 h1 hs => fillSpans_ok ⟨h0, h1⟩ _ _ _ hs) h

theorem drawEdges_ok (h : s.Ok) (pw ph : Int) (addr texture : Nat)
    (edges : List ((Int × Int) × (Int × Int))) :
    (edges.foldl (drawEdge pw ph addr texture) s).Ok := by
  induction edges generalizing s with
  | nil => exact h
  | cons e edges ih => exact ih (drawLine_ok h _ _ _ _ _ _ _ _)

theorem strokePoly_ok (h : s.Ok) (pts : List (Int × Int)) (closed : Bool) (pw ph : Int)
    (addr texture : Nat) : (strokePoly s pts closed pw ph addr texture).Ok := by
  rw [strokePoly]
  have hopen := drawEdges_ok h pw ph addr texture (pts.zip pts.tail)
  split_ifs
  · exact h
  · exact drawLine_ok hopen _ _ _ _ _ _ _ _
  · exact hopen

end UnicornSuite.Naplps
