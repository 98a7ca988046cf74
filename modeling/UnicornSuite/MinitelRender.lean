import UnicornSuite.LibFirsts
import UnicornSuite.MinitelScreen
import UnicornSuite.NaplpsFont

/-! The glyphs of `minitel_font_data.c` that ASCII lacks: ten lines each, top line first, bit 0 the leftmost
dot. The characters of ASCII are those of `font5x7`. -/

namespace UnicornSuite.Minitel

/-- Index: glyph code less `MT_G_FULLBLOCK`. -/
def ext8x10 : List (List Nat) := [
  [0xFF, 0xFF, 0xFF, 0xFF, 0xFF, 0xFF, 0xFF, 0xFF, 0xFF, 0xFF],
  [0x00, 0x00, 0x00, 0x00, 0x00, 0x00, 0x00, 0x00, 0xFF, 0x00],
  [0x00, 0x18, 0x24, 0x04, 0x1E, 0x04, 0x24, 0x3E, 0x00, 0x00],
  [0x00, 0x1C, 0x02, 0x0C, 0x12, 0x24, 0x18, 0x0E, 0x00, 0x00],
  [0x00, 0x00, 0x08, 0x0C, 0xFE, 0xFF, 0xFE, 0x0C, 0x08, 0x00],
  [0x10, 0x38, 0x7C, 0xFE, 0x38, 0x38, 0x38, 0x38, 0x38, 0x38],
  [0x00, 0x00, 0x10, 0x30, 0x7F, 0xFF, 0x7F, 0x30, 0x10, 0x00],
  [0x38, 0x38, 0x38, 0x38, 0x38, 0x38, 0xFE, 0x7C, 0x38, 0x10],
  [0x00, 0x0C, 0x12, 0x12, 0x0C, 0x00, 0x00, 0x00, 0x00, 0x00],
  [0x00, 0x08, 0x08, 0x3E, 0x08, 0x08, 0x00, 0x3E, 0x00, 0x00],
  [0x00, 0x00, 0x08, 0x00, 0x3E, 0x00, 0x08, 0x00, 0x00, 0x00],
  [0x02, 0x03, 0x42, 0x22, 0x10, 0x28, 0x34, 0x2A, 0x78, 0x20],
  [0x02, 0x03, 0x42, 0x22, 0x10, 0x68, 0x84, 0x42, 0x20, 0xE0],
  [0x03, 0x04, 0x42, 0x24, 0x13, 0x28, 0x34, 0x2A, 0x78, 0x20],
  [0x00, 0x3C, 0x0A, 0x0A, 0x3A, 0x0A, 0x0A, 0x3C, 0x00, 0x00],
  [0x00, 0x00, 0x00, 0x14, 0x2A, 0x3A, 0x0A, 0x34, 0x00, 0x00],
  [0x00, 0x0C, 0x12, 0x12, 0x0E, 0x12, 0x12, 0x0E, 0x00, 0x00],
  [0x00, 0x04, 0x08, 0x1C, 0x20, 0x3C, 0x22, 0x3C, 0x00, 0x00],
  [0x00, 0x04, 0x08, 0x1C, 0x22, 0x3E, 0x02, 0x1C, 0x00, 0x00],
  [0x00, 0x04, 0x08, 0x22, 0x22, 0x22, 0x32, 0x2C, 0x00, 0x00],
  [0x00, 0x10, 0x08, 0x1C, 0x22, 0x3E, 0x02, 0x1C, 0x00, 0x00],
  [0x00, 0x08, 0x14, 0x1C, 0x20, 0x3C, 0x22, 0x3C, 0x00, 0x00],
  [0x00, 0x08, 0x14, 0x1C, 0x22, 0x3E, 0x02, 0x1C, 0x00, 0x00],
  [0x00, 0x08, 0x14, 0x0C, 0x08, 0x08, 0x08, 0x1C, 0x00, 0x00],
  [0x00, 0x08, 0x14, 0x1C, 0x22, 0x22, 0x22, 0x1C, 0x00, 0x00],
  [0x00, 0x08, 0x14, 0x22, 0x22, 0x22, 0x32, 0x2C, 0x00, 0x00],
  [0x00, 0x14, 0x00, 0x1C, 0x20, 0x3C, 0x22, 0x3C, 0x00, 0x00],
  [0x00, 0x14, 0x00, 0x1C, 0x22, 0x3E, 0x02, 0x1C, 0x00, 0x00],
  [0x00, 0x14, 0x00, 0x0C, 0x08, 0x08, 0x08, 0x1C, 0x00, 0x00],
  [0x00, 0x14, 0x00, 0x1C, 0x22, 0x22, 0x22, 0x1C, 0x00, 0x00],
  [0x00, 0x14, 0x00, 0x22, 0x22, 0x22, 0x32, 0x2C, 0x00, 0x00],
  [0x00, 0x00, 0x00, 0x1C, 0x02, 0x02, 0x02, 0x1C, 0x08, 0x0C]]

/-- Codes `0x5C`, `0x5E`, `0x60`, `0x7B`, `0x7C`, `0x7D` and `0x7E`, in that order. -/
def g0special8x10 : List (List Nat) := [
  [0x01, 0x02, 0x04, 0x04, 0x08, 0x10, 0x20, 0x20, 0x40, 0x80],
  [0x10, 0x38, 0x54, 0x10, 0x10, 0x10, 0x10, 0x10, 0x10, 0x10],
  [0x00, 0x00, 0x00, 0x00, 0x00, 0xFF, 0x00, 0x00, 0x00, 0x00],
  [0x02, 0x02, 0x02, 0x02, 0x02, 0x02, 0x02, 0x02, 0x02, 0x02],
  [0x10, 0x10, 0x10, 0x10, 0x10, 0x10, 0x10, 0x10, 0x10, 0x10],
  [0x40, 0x40, 0x40, 0x40, 0x40, 0x40, 0x40, 0x40, 0x40, 0x40],
  [0x00, 0xFF, 0x00, 0x00, 0x00, 0x00, 0x00, 0x00, 0x00, 0x00]]

/-- One line of a glyph. -/
def glyphLine (t : List (List Nat)) (g y : Nat) : Nat := (t.getD g []).getD y 0

end UnicornSuite.Minitel

/-! The raster of the Minitel (`minitel_screen.c`): `minitel_render_bgra` paints the cells of each row from left
to right, 8 by 10 dots each, and carries the serial context along. A cell opens its zone before it is painted
(`openZone`) and closes it behind (`closeZone`). -/

namespace UnicornSuite.Minitel

/-- `MT_R_MONO`, `MT_R_FLASH` and `MT_R_CURSOR`. -/
structure RenderOpts where
  mono : Bool
  flash : Bool
  cursor : Bool

/-- `MINITEL_CELL_W` and `MINITEL_CELL_H`. -/
abbrev cellW : Int := 8

abbrev cellH : Int := 10

/-- `MINITEL_W` and `MINITEL_H`. -/
abbrev raster : Region := ⟨0, 250, 0, 320⟩

/-- Four bytes of the raster. -/
structure Pixel where
  b : Nat
  g : Nat
  r : Nat
  pad : Nat
  deriving DecidableEq

/-! ### Reading the page -/

def cell (d : Screen) (row col : Int) : Cell :=
  let row := if row < 0 then 0 else row
  let row := if row > 24 then 24 else row
  let col := if col < 1 then 1 else col
  d.mem.cell row (if col > cols then cols else col)

def cursorRow (d : Screen) : Int := if d.inRow0 then 0 else d.row

def cursorCol (d : Screen) : Int := if d.col > cols then cols else d.col

/-! ### Colours -/

def rgbColour : List Nat :=
  [0x000000, 0xFF0000, 0x00FF00, 0xFFFF00, 0x0000FF, 0xFF00FF, 0x00FFFF, 0xFFFFFF]

def greyPct : List Nat := [0, 50, 70, 90, 40, 60, 80, 100]

def minitelRgb (c : Nat) (mono : Bool) : Nat :=
  let c := c % 8
  if mono then
    let v := (greyPct.getD c 0 * 255 + 50) / 100
    v * 65536 + v * 256 + v
  else rgbColour.getD c 0

def pixelOf (rgb : Nat) : Pixel := ⟨rgb % 256, rgb / 256 % 256, rgb / 65536 % 256, 0⟩

def putPx (out : Grid Pixel) (x y : Int) (rgb : Nat) : Grid Pixel := out.put raster y x (pixelOf rgb)

/-! ### Dots -/

/-- One dot of an alphabetic glyph. -/
def glyphDot (g x y : Nat) : Bool :=
  if g = 0x20 then false
  else if gFullblock ≤ g ∧ g < gEnd then (glyphLine ext8x10 (g - gFullblock) y).testBit x
  else if g = 0x5C then (glyphLine g0special8x10 0 y).testBit x
  else if g = 0x5E then (glyphLine g0special8x10 1 y).testBit x
  else if g = 0x60 then (glyphLine g0special8x10 2 y).testBit x
  else if g = 0x7B then (glyphLine g0special8x10 3 y).testBit x
  else if g = 0x7C then (glyphLine g0special8x10 4 y).testBit x
  else if g = 0x7D then (glyphLine g0special8x10 5 y).testBit x
  else if g = 0x7E then (glyphLine g0special8x10 6 y).testBit x
  else if g < 0x21 ∨ g > 0x7E then false
  else if x < 1 ∨ x > 5 ∨ y < 1 ∨ y > 7 then false
  else (Naplps.glyphRow (g - 0x20) (y - 1)).testBit (x - 1)

/-- One dot of a mosaic; a separated one gives its bars to the paper. -/
def mosaicDot (bits : Nat) (sep : Bool) (x y : Nat) : Bool :=
  let bx := if x < 4 then 0 else 1
  let byy := if y < 3 then 0 else if y < 7 then 1 else 2
  if sep ∧ (x = 3 ∨ x = 7 ∨ y = 2 ∨ y = 6 ∨ y = 9) then false
  else bits.testBit (byy * 2 + bx)

/-! ### The serial context -/

/-- `z_bg`, `z_mask` and `z_ul`; a row starts from the defaults. -/
structure Zone where
  bg : Nat := black
  mask : Bool := false
  ul : Bool := false
  deriving DecidableEq

/-- A delimiter opens its zone before it is painted. -/
def openZone (z : Zone) (c : Cell) : Zone :=
  match c.kind with
  | .delim => { bg := c.bg, mask := c.flags.zmask, ul := c.flags.zunder }
  | _ => z

/-- A mosaic is the paper delimiter of what follows, and ends the lining. -/
def closeZone (z : Zone) (c : Cell) : Zone :=
  match c.kind with
  | .mosaic => { z with bg := c.bg, ul := false }
  | _ => z

/-! ### A cell -/

/-- What a cell is painted with. -/
structure Look where
  ink : Nat
  paper : Nat
  masked : Bool
  lined : Bool := false

def look (z : Zone) (screenMask : Bool) (c : Cell) : Look :=
  let masked := z.mask && screenMask
  match c.kind with
  | .mosaic => { ink := c.fg, paper := c.bg, masked := masked }
  | .delim =>
      let paper := if c.flags.invert then c.fg else c.bg
      { ink := paper, paper := paper, masked := masked }
  | .alpha =>
      if c.flags.invert then { ink := z.bg, paper := c.fg, masked := masked, lined := z.ul }
      else { ink := c.fg, paper := z.bg, masked := masked, lined := z.ul }

/-- The cell under the cursor, in the complementary colours and never masked. -/
def underCursor (k : Look) : Look :=
  { k with ink := k.ink ^^^ 7, paper := k.paper ^^^ 7, masked := false }

/-- Whether a dot shows the ink. A cell of a double size shows its part of the doubled glyph. -/
def dotOn (c : Cell) (k : Look) (flashOff : Bool) (x y : Nat) : Bool :=
  if k.masked || (c.flags.flash && flashOff) then false
  else
    match c.kind with
    | .mosaic => mosaicDot c.glyph c.flags.separated x y
    | .delim => false
    | .alpha =>
        let gx := if c.size.dw then ((if c.size.right then 8 else 0) + x) / 2 else x
        let gy := if c.size.dh then ((if c.size.top then 0 else 10) + y) / 2 else y
        if k.lined ∧ y = 9 ∧ ¬(c.size.dh ∧ c.size.top) ∧ c.glyph ≠ gFullblock then true
        else glyphDot c.glyph gx gy

def cursorShown (d : Screen) (o : RenderOpts) : Bool := d.cursorOn && o.cursor

def cellLook (d : Screen) (o : RenderOpts) (z : Zone) (row col : Int) : Look :=
  let k := look z d.screenMask (cell d row col)
  if row = cursorRow d ∧ col = cursorCol d ∧ cursorShown d o then underCursor k else k

/-- The colour of a dot of a cell in the zone `z`. -/
def cellDot (d : Screen) (o : RenderOpts) (z : Zone) (row col : Int) (x y : Nat) : Nat :=
  let k := cellLook d o z row col
  minitelRgb (if dotOn (cell d row col) k o.flash x y then k.ink else k.paper) o.mono

def paintCell (d : Screen) (o : RenderOpts) (z : Zone) (row col : Int) (out : Grid Pixel) : Grid Pixel :=
  Loop.up 0 cellH (fun y => Loop.up 0 cellW fun x out =>
    putPx out ((col - 1) * cellW + x) (row * cellH + y) (cellDot d o z row col x.toNat y.toNat)) out

/-! ### The raster -/

/-- One round of the loop over the columns. -/
def renderCell (d : Screen) (o : RenderOpts) (row col : Int) (s : Zone × Grid Pixel) : Zone × Grid Pixel :=
  let c := cell d row col
  let z := openZone s.1 c
  (closeZone z c, paintCell d o z row col s.2)

def renderRow (d : Screen) (o : RenderOpts) (row : Int) (out : Grid Pixel) : Grid Pixel :=
  (Loop.up 1 (cols + 1) (renderCell d o row) ({}, out)).2

/-- The terminal's own state letter, in row 0, column 39. -/
def renderStatus (mono : Bool) (status : Nat) (out : Grid Pixel) : Grid Pixel :=
  if status = 0 then out
  else
    Loop.up 0 cellH (fun y => Loop.up 0 cellW fun x out =>
      putPx out (38 * cellW + x) y
        (minitelRgb (if glyphDot status x.toNat y.toNat then black else white) mono)) out

/-- `minitel_render_bgra`; `status` is the state letter, 0 for none. -/
def renderBgra (d : Screen) (status : Nat) (o : RenderOpts) (out : Grid Pixel) : Grid Pixel :=
  renderStatus o.mono status (Loop.up 0 25 (renderRow d o) out)

end UnicornSuite.Minitel
