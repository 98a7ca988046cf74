import UnicornSuite.RipEga
import Mathlib.Algebra.Ring.Int.Defs

/-! Text and buttons of the RIPscrip renderer (`rip_text.c`, `rip_button.c`). The glyph tables and the
tracking factor, a `double`, are the parameter `Fonts`; the metrics are those of the source. Strings
are lists of bytes without the terminating zero. -/

namespace UnicornSuite.Rip

inductive Dir where
  | horiz | vert
  deriving DecidableEq

/-- A stroked glyph; a pen-up move is `none`. -/
structure Glyph where
  left : Int
  right : Int
  points : List (Option (Int × Int))

/-- The 8 by 8 bitmaps by character and row, the stroked glyphs by font and character, and the advance
of a glyph under the tracking of its font. -/
structure Fonts where
  font8x8 : Nat → Nat → Nat
  glyph : Nat → Nat → Glyph
  track : Nat → Int → Int

/-! ### Metrics -/

/-- `RIP_METRICS`: top and base by font and size. -/
def metrics : List (List (Int × Int)) :=
  [[(0, 6), (0, 13), (0, 20), (0, 27), (0, 34), (0, 41), (0, 48), (0, 55), (0, 62), (0, 69)],
    [(6, 18), (6, 20), (8, 23), (10, 31), (13, 41), (16, 51), (20, 62), (25, 77), (30, 93), (40, 124)],
    [(2, 5), (2, 6), (2, 6), (3, 9), (4, 12), (5, 15), (6, 13), (7, 22), (9, 27), (12, 36)],
    [(7, 19), (7, 21), (9, 24), (11, 32), (14, 42), (18, 53), (22, 64), (28, 80), (33, 96), (74, 158)],
    [(7, 19), (7, 21), (9, 24), (11, 32), (14, 42), (18, 53), (22, 64), (28, 80), (33, 96), (44, 128)],
    [(10, 22), (10, 24), (12, 27), (16, 37), (21, 49), (26, 61), (32, 74), (40, 92), (48, 111),
      (63, 147)],
    [(9, 21), (9, 23), (11, 26), (14, 35), (18, 46), (23, 58), (28, 70), (35, 87), (42, 105),
      (56, 140)],
    [(5, 17), (5, 19), (7, 22), (9, 30), (12, 40), (15, 50), (19, 61), (24, 77), (29, 92), (39, 123)],
    [(8, 20), (8, 22), (10, 25), (13, 34), (17, 45), (22, 57), (27, 69), (34, 86), (41, 104),
      (54, 139)],
    [(7, 32), (7, 35), (9, 40), (12, 54), (16, 72), (20, 96), (25, 109), (31, 136), (38, 164),
      (51, 219)],
    [(11, 35), (13, 39), (14, 44), (19, 59), (19, 59), (19, 59), (19, 59), (19, 59), (19, 59),
      (19, 59)]]

/-- `RIP_DROP`: the lowermost scan line by font and size. -/
def drop : List (List Int) :=
  [[7, 15, 23, 31, 39, 47, 55, 63, 71, 79], [22, 24, 28, 38, 50, 62, 76, 94, 114, 152],
    [6, 7, 7, 11, 14, 18, 22, 27, 33, 44], [23, 25, 29, 39, 51, 64, 78, 97, 117, 186],
    [23, 25, 29, 39, 51, 64, 78, 97, 117, 156], [29, 32, 36, 49, 65, 80, 98, 122, 147, 195],
    [25, 27, 31, 42, 56, 69, 84, 104, 126, 168], [21, 23, 27, 37, 49, 61, 75, 93, 113, 151],
    [24, 26, 30, 41, 54, 68, 83, 103, 125, 167], [38, 41, 47, 64, 85, 106, 129, 161, 194, 259],
    [39, 43, 49, 66, 66, 66, 66, 66, 66, 66]]

def clampFont (font : Int) : Nat := if font < 0 ∨ font > 10 then 0 else font.toNat

def clampSize (size : Int) : Nat := if size < 1 then 1 else if size > 10 then 10 else size.toNat

def metric (font size : Nat) : Int × Int := (metrics.getD font []).getD (size - 1) (0, 0)

def textCellHeight (font size : Int) : Int :=
  if clampFont font = 0 then 8 * clampSize size
  else
    let m := metric (clampFont font) (clampSize size)
    m.2 + (m.2 - m.1).tdiv 4 + 1

def textUnderlineOffset (font size : Int) : Int :=
  (drop.getD (clampFont font) []).getD (clampSize size - 1) 0 + 2

/-! ### Glyphs -/

variable (F : Fonts)

/-- One source pixel of a bitmap character, replicated into a block. -/
def bitmapBlock (s : RipEga) (dir : Dir) (size x y adv row col : Int) (color : Nat) : RipEga :=
  Loop.up 0 size
    (fun dy s => Loop.up 0 size
      (fun dx s =>
        match dir with
        | .vert => pixel s (x + row * size + dx) (y - adv - col * size - dy) color
        | .horiz => pixel s (x + adv + col * size + dx) (y + row * size + dy) color) s) s

/-- Whether a pixel of a character is set; there are bitmaps for ASCII only. -/
def bitmapBit (c : Nat) (row col : Int) : Bool :=
  (F.font8x8 (if c > 127 then 0x3F else c) row.toNat).testBit col.toNat

def bitmapChar (s : RipEga) (dir : Dir) (size x y adv : Int) (c color : Nat) : RipEga :=
  Loop.up 0 8
    (fun row s => Loop.up 0 8
      (fun col s =>
        if bitmapBit F c row col then bitmapBlock s dir size x y adv row col color else s) s) s

/-- `bitmap_draw`; the second component is the advance so far. -/
def bitmapDraw (dir : Dir) (size x y : Int) (color : Nat) : List Nat → RipEga × Int → RipEga × Int
  | [], st => st
  | c :: cs, (s, adv) =>
      bitmapDraw dir size x y color cs (bitmapChar F s dir size x y adv c color, adv + 8 * size)

def bitmapWidth (size : Int) (text : List Nat) : Int := 8 * size * text.length

/-- Rounded to nearest, symmetric about zero. -/
def scaled (v num den : Int) : Int :=
  if v ≥ 0 then (v * num + den.tdiv 2).tdiv den else -((-v * num + den.tdiv 2).tdiv den)

/-- The capital height of the font, at least 1. -/
def capital (font size : Nat) : Int :=
  let num := (metric font size).2 - (metric font size).1
  if num ≤ 0 then 1 else num

def strokeGlyph (font c : Nat) : Glyph := F.glyph font (if c < 0x20 ∨ c > 0x7E then 0x3F else c)

def advanceFor (font c : Nat) (num : Int) : Int :=
  scaled (F.track font ((strokeGlyph F font c).right - (strokeGlyph F font c).left)) num 21

/-- Where a vertex of a glyph comes to lie. -/
def strokePoint (dir : Dir) (base num x y adv left : Int) (v : Int × Int) : Int × Int :=
  let ox := scaled (v.1 - left) num 21
  let oy := scaled (v.2 - 9) num 21
  match dir with
  | .vert => (x + base + oy, y - adv - ox)
  | .horiz => (x + adv + ox, y + base + oy)

/-- The strokes of a glyph; `prev` is the vertex the pen comes from. -/
def strokes (place : Int × Int → Int × Int) (color : Nat) :
    List (Option (Int × Int)) → Option (Int × Int) → RipEga → RipEga
  | [], _, s => s
  | none :: vs, _, s => strokes place color vs none s
  | some v :: vs, none, s =>
      strokes place color vs (some (place v)) (pixel s (place v).1 (place v).2 color)
  | some v :: vs, some prev, s =>
      strokes place color vs (some (place v))
        (line s prev.1 prev.2 (place v).1 (place v).2 color 1)

def strokeDraw (font size : Nat) (dir : Dir) (x y : Int) (color : Nat) :
    List Nat → RipEga × Int → RipEga × Int
  | [], st => st
  | c :: cs, (s, adv) =>
      let g := strokeGlyph F font c
      let place := strokePoint dir (metric font size).2 (capital font size) x y adv g.left
      strokeDraw font size dir x y color cs
        (strokes place color g.points none s, adv + advanceFor F font c (capital font size))

def strokeWidth (font size : Nat) (text : List Nat) : Int :=
  (text.map fun c => advanceFor F font c (capital font size)).sum

/-- The surface and the advance along the text. -/
def textDraw (s : RipEga) (font : Int) (dir : Dir) (size x y : Int) (text : List Nat)
    (color : Nat) : RipEga × Int :=
  if clampFont font = 0 then bitmapDraw F dir (clampSize size) x y color text (s, 0)
  else strokeDraw F (clampFont font) (clampSize size) dir x y color text (s, 0)

def textWidth (font size : Int) (text : List Nat) : Int :=
  if clampFont font = 0 then bitmapWidth (clampSize size) text
  else strokeWidth F (clampFont font) (clampSize size) text

/-! ### Buttons -/

/-- The flags by their bits: `RIP_BF_CLIPBOARD` is bit 0. -/
structure ButtonStyle where
  wid : Int := 0
  hgt : Int := 0
  orient : Int := 2
  flags : Nat := 0
  bevsize : Int := 0
  dfore : Nat := 0
  dback : Nat := 15
  bright : Nat := 15
  dark : Nat := 8
  surface : Nat := 7
  grpNo : Int := 0
  flags2 : Nat := 0
  ulineCol : Nat := 4
  cornerCol : Nat := 0

namespace ButtonStyle

def clipboard (st : ButtonStyle) : Bool := st.flags.testBit 0

def invertable (st : ButtonStyle) : Bool := st.flags.testBit 1

def chisel (st : ButtonStyle) : Bool := st.flags.testBit 3

def recessed (st : ButtonStyle) : Bool := st.flags.testBit 4

def dropshadow (st : ButtonStyle) : Bool := st.flags.testBit 5

def icon (st : ButtonStyle) : Bool := st.flags.testBit 7

def plain (st : ButtonStyle) : Bool := st.flags.testBit 8

def bevel (st : ButtonStyle) : Bool := st.flags.testBit 9

def mouse (st : ButtonStyle) : Bool := st.flags.testBit 10

def underline (st : ButtonStyle) : Bool := st.flags.testBit 11

def hilight (st : ButtonStyle) : Bool := st.flags2.testBit 1

def leftJust (st : ButtonStyle) : Bool := st.flags2.testBit 3

def rightJust (st : ButtonStyle) : Bool := st.flags2.testBit 4

def drawable (st : ButtonStyle) : Bool := !(st.icon || st.clipboard) && st.plain

end ButtonStyle

structure Rect where
  x0 : Int
  y0 : Int
  x1 : Int
  y1 : Int
  deriving DecidableEq

def Rect.grow (r : Rect) (n : Int) : Rect := ⟨r.x0 - n, r.y0 - n, r.x1 + n, r.y1 + n⟩

/-- A fixed size in the style wins over the corners of the command. -/
def baseRect (st : ButtonStyle) (r : Rect) : Rect :=
  let x0 := lower r.x0 r.x1
  let y0 := lower r.y0 r.y1
  if st.wid > 0 ∧ st.hgt > 0 then ⟨x0, y0, x0 + st.wid - 1, y0 + st.hgt - 1⟩
  else ⟨x0, y0, upper r.x0 r.x1, upper r.y0 r.y1⟩

/-- The rectangle that is painted and inverts. -/
def imageRect (st : ButtonStyle) (r : Rect) : Rect :=
  (baseRect st r).grow (if st.bevel then st.bevsize else 0)

/-- The rectangle that can be clicked, recess included. -/
def outerRect (st : ButtonStyle) (r : Rect) : Rect :=
  (baseRect st r).grow ((if st.bevel then st.bevsize else 0) + if st.recessed then 2 else 0)

def bevelRing (s : RipEga) (r : Rect) (bright dark corner : Nat) : RipEga :=
  let s := Loop.up r.x0 (r.x1 + 1)
    (fun x s => pixel (pixel s x r.y0 bright) x r.y1 dark) s
  let s := Loop.up r.y0 (r.y1 + 1)
    (fun y s => pixel (pixel s r.x0 y bright) r.x1 y dark) s
  pixel (pixel s r.x1 r.y0 corner) r.x0 r.y1 corner

def asciiUpper (c : Nat) : Nat := if 0x61 ≤ c ∧ c ≤ 0x7A then c - 32 else c

/-- The first occurrence of the hot key in the label. -/
def hotkeyIndex (label : List Nat) (hotkey : Int) : Option Nat :=
  if hotkey ≤ 0 then none
  else label.findIdx? fun c => asciiUpper c == asciiUpper hotkey.toNat

/-- Where the label goes, by the orientation of the style. -/
def labelOrigin (st : ButtonStyle) (r : Rect) (tw ch : Int) : Int × Int :=
  let w := r.x1 - r.x0 + 1
  let h := r.y1 - r.y0 + 1
  let origin : Int × Int :=
    match st.orient with
    | 0 => (r.x0 + (w - tw).tdiv 2, r.y0 - ch)
    | 4 => (r.x0 + (w - tw).tdiv 2, r.y1 + 1)
    | 1 => (r.x0 - tw - 1, r.y0 + (h - ch).tdiv 2)
    | 3 => (r.x1 + 2, r.y0 + (h - ch).tdiv 2)
    | _ => (r.x0 + (w - tw).tdiv 2, r.y0 + (h - ch + 1).tdiv 2)
  if st.orient = 0 ∨ st.orient = 2 ∨ st.orient = 4 then
    let indent : Int := if st.chisel then 20 else 10
    let x := if st.leftJust then r.x0 + indent else origin.1
    (if st.rightJust then r.x1 - indent - tw else x, origin.2)
  else origin

/-- The hot key within a label drawn at `(tx, ty)`: highlighted, underlined. -/
def drawHotkey (s : RipEga) (st : ButtonStyle) (label : List Nat) (hk : Nat) (tx ty font size : Int) :
    RipEga :=
  let off := textWidth F font size (label.take hk)
  let one := (label.drop hk).take 1
  let cw := textWidth F font size one
  let s := if st.hilight then (textDraw F s font .horiz size (tx + off) ty one st.ulineCol).1 else s
  if st.underline then
    Loop.up (tx + off) (tx + off + cw)
      (fun ux s => pixel s ux (ty + textUnderlineOffset font size) st.ulineCol) s
  else s

def drawLabel (s : RipEga) (st : ButtonStyle) (r : Rect) (label : List Nat)
    (hotkey font size : Int) : RipEga :=
  let t := labelOrigin st r (textWidth F font size label) (textCellHeight font size)
  let s := if st.dropshadow then
      (textDraw F s font .horiz size (t.1 + 1) (t.2 + 1) label st.dback).1 else s
  let s := (textDraw F s font .horiz size t.1 t.2 label st.dfore).1
  match hotkeyIndex label hotkey with
  | none => s
  | some hk => drawHotkey F s st label hk t.1 t.2 font size

/-- Whether the button could be drawn, and the surface. -/
def buttonDraw (s : RipEga) (st : ButtonStyle) (r : Rect) (label : List Nat)
    (hotkey font size : Int) : RipEga × Bool :=
  if st.drawable then
    let b := baseRect st r
    let s := bar s b.x0 b.y0 b.x1 b.y1 1 st.surface
    let s := if st.bevel then
        Loop.down st.bevsize 0 (fun i s => bevelRing s (b.grow i) st.bright st.dark st.cornerCol) s
      else s
    (if label = [] then s else drawLabel F s st b label hotkey font size, true)
  else (s, false)

/-! ### Text and buttons only paint -/

theorem bitmapBlock_paints (s : RipEga) (dir : Dir) (size x y adv row col : Int) (color : Nat) :
    Paints s (bitmapBlock s dir size x y adv row col color) := by
  refine Paints.up _ _ (fun dy s _ _ => Paints.up _ _ (fun dx s _ _ => ?_) s) s
  cases dir with
  | horiz => exact pixel_paints s _ _ _
  | vert => exact pixel_paints s _ _ _

theorem bitmapChar_paints (s : RipEga) (dir : Dir) (size x y adv : Int) (c color : Nat) :
    Paints s (bitmapChar F s dir size x y adv c color) := by
  refine Paints.up _ _ (fun row s _ _ => Paints.up _ _ (fun col s _ _ => ?_) s) s
  split
  · exact bitmapBlock_paints s _ _ _ _ _ _ _ _
  · exact Paints.refl s

theorem bitmapDraw_paints (dir : Dir) (size x y : Int) (color : Nat) (text : List Nat)
    (s : RipEga) (adv : Int) : Paints s (bitmapDraw F dir size x y color text (s, adv)).1 := by
  induction text generalizing s adv with
  | nil => exact Paints.refl s
  | cons c cs ih => exact (bitmapChar_paints F s dir size x y adv c color).trans (ih _ _)

theorem strokes_paints (place : Int × Int → Int × Int) (color : Nat)
    (vs : List (Option (Int × Int))) (prev : Option (Int × Int)) (s : RipEga) :
    Paints s (strokes place color vs prev s) := by
  induction vs, prev, s using strokes.induct place color with
  | case1 prev s => exact Paints.refl s
  | case2 prev vs s ih => exact ih
  | case3 v vs s ih => exact (pixel_paints s _ _ _).trans ih
  | case4 v vs prev s ih => exact (line_paints s _ _ _ _ _ _).trans ih

theorem strokeDraw_paints (font size : Nat) (dir : Dir) (x y : Int) (color : Nat)
    (text : List Nat) (s : RipEga) (adv : Int) :
    Paints s (strokeDraw F font size dir x y color text (s, adv)).1 := by
  induction text generalizing s adv with
  | nil => exact Paints.refl s
  | cons c cs ih => exact (strokes_paints _ color _ _ s).trans (ih _ _)

theorem textDraw_paints (s : RipEga) (font : Int) (dir : Dir) (size x y : Int)
    (text : List Nat) (color : Nat) : Paints s (textDraw F s font dir size x y text color).1 := by
  simp only [textDraw]
  split
  · exact bitmapDraw_paints F _ _ _ _ _ _ _ _
  · exact strokeDraw_paints F _ _ _ _ _ _ _ _ _

theorem bevelRing_paints (s : RipEga) (r : Rect) (bright dark corner : Nat) :
    Paints s (bevelRing s r bright dark corner) := by
  have hx := Paints.up r.x0 (r.x1 + 1) (fun x s _ _ =>
    (pixel_paints s x r.y0 bright).trans (pixel_paints _ x r.y1 dark)) s
  have hy := fun s => Paints.up r.y0 (r.y1 + 1) (fun y s _ _ =>
    (pixel_paints s r.x0 y bright).trans (pixel_paints _ r.x1 y dark)) s
  exact ((hx.trans (hy _)).trans (pixel_paints _ _ _ _)).trans (pixel_paints _ _ _ _)

theorem drawHotkey_paints (s : RipEga) (st : ButtonStyle) (label : List Nat) (hk : Nat)
    (tx ty font size : Int) : Paints s (drawHotkey F s st label hk tx ty font size) := by
  simp only [drawHotkey]
  have hhigh : Paints s (if st.hilight then
      (textDraw F s font .horiz size (tx + textWidth F font size (label.take hk)) ty
        ((label.drop hk).take 1) st.ulineCol).1 else s) := by
    split
    · exact textDraw_paints F s _ _ _ _ _ _ _
    · exact Paints.refl s
  split
  · exact hhigh.trans (Paints.up _ _ (fun ux s _ _ => pixel_paints s _ _ _) _)
  · exact hhigh

theorem drawLabel_paints (s : RipEga) (st : ButtonStyle) (r : Rect) (label : List Nat)
    (hotkey font size : Int) : Paints s (drawLabel F s st r label hotkey font size) := by
  unfold drawLabel
  extract_lets t shadowed text
  have hshadow : Paints s shadowed := by
    simp only [shadowed]
    split
    · exact textDraw_paints F s _ _ _ _ _ _ _
    · exact Paints.refl s
  have htext : Paints s text := hshadow.trans (textDraw_paints F _ _ _ _ _ _ _ _)
  split
  · exact htext
  · exact htext.trans (drawHotkey_paints F _ _ _ _ _ _ _ _)

theorem Paints.down {lo hi : Int} {body : Int → RipEga → RipEga}
    (hbody : ∀ i s, Paints s (body i s)) (s : RipEga) : Paints s (Loop.down hi lo body s) :=
  Loop.down_inv (I := Paints s) (fun i s' _ _ h => h.trans (hbody i s')) (Paints.refl s)

theorem buttonDraw_paints (s : RipEga) (st : ButtonStyle) (r : Rect) (label : List Nat)
    (hotkey font size : Int) : Paints s (buttonDraw F s st r label hotkey font size).1 := by
  unfold buttonDraw
  split
  · extract_lets b face bevelled
    have hface : Paints s face := bar_paints s _ _ _ _ _ _
    have hbevel : Paints s bevelled := by
      simp only [bevelled]
      split
      · exact hface.trans (Paints.down (fun i s => bevelRing_paints s _ _ _ _) _)
      · exact hface
    dsimp only
    split
    · exact hbevel
    · exact hbevel.trans (drawLabel_paints F _ _ _ _ _ _ _)
  · exact Paints.refl s

end UnicornSuite.Rip
