import UnicornSuite.NaplpsFont
import UnicornSuite.NaplpsState
import Mathlib.Logic.Function.Basic

/-! Colour, geometry and text of the NAPLPS decoder: the drawing colour of colour mode 0, the area
mask, the cursor movements, the scrolling of the display area and `draw_char`. All of it works on
the `Display`; the code extension state and the sequence being accumulated are out of its reach. -/

namespace UnicornSuite.Naplps

open CInt

def skipped (d : Display) : Display := { d with st.pdiSkipped := d.st.pdiSkipped + 1 }

def operandShort (d : Display) : Display := { d with st.operandShort := d.st.operandShort + 1 }

def markDrew (d : Display) : Display := { d with everDrew := true }

/-! ### Colour -/

/-- The colour map entry of colour mode 0: the lowest address that holds the colour, else the lowest
unused one that is not nominal black or white, else the drawing colour stays. -/
def mode0SetColor (d : Display) (c : Color) : Display :=
  let d := { d with draw.drawValue := c }
  match (List.range cmapSize).find? fun i => d.surf.cmap i = c with
  | some i => { d with draw.drawAddr := i }
  | none =>
      let free := (List.range cmapSize).find? fun i =>
        !d.draw.cmapUsed i && i != d.draw.addrBlack && i != d.draw.addrWhite
      match free with
      | some i =>
          { d with
            surf.cmap := Function.update d.surf.cmap i c
            draw.cmapUsed := Function.update d.draw.cmapUsed i true
            draw.drawAddr := i }
      | none => skipped d

def fg (d : Display) : Nat := d.draw.drawAddr % cmapSize

/-- The address the display area is cleared to. -/
def clearAddr (d : Display) : Nat :=
  if d.draw.colorMode = 2 then d.draw.bgAddr else d.draw.addrBlack

/-! ### Geometry -/

def pelw (d : Display) : Int := fxToPx (absFx d.dom.pelDx)

def pelh (d : Display) : Int := fxToPx (absFx d.dom.pelDy)

/-- The mask of a fill, built from the logical pel at the time of the fill. -/
def areaMask (d : Display) : Mask :=
  let pattern := d.tex.areaPattern
  let pattern :=
    if 1 ≤ pattern ∧ pattern ≤ 3 ∧ d.dom.pelDx = 0 ∧ d.dom.pelDy = 0 then 0 else pattern
  maskPattern pattern (pelw d) (pelh d) (if d.draw.colorMode = 2 then d.draw.bgAddr else -1)

/-- The cursor follows the drawing point unless it leads. -/
def dpMoved (d : Display) : Display :=
  if d.text.cursorLead then d else { d with text.cx := d.draw.dpx, text.cy := d.draw.dpy }

/-- The drawing point follows the cursor unless it leads. -/
def cursorMoved (d : Display) : Display :=
  if d.text.dpLead then d else { d with draw.dpx := d.text.cx, draw.dpy := d.text.cy }

def setDp (d : Display) (x y : Int) : Display :=
  dpMoved { d with draw.dpx := x, draw.dpy := y }

/-! ### Cursor movement -/

def cfW (d : Display) : Int := absFx d.text.cfDx

def cfH (d : Display) : Int := absFx d.text.cfDy

structure Bounds where
  x0 : Int
  y0 : Int
  x1 : Int
  y1 : Int

/-- The rectangle text flows in: the active field while the character field of the cursor lies in
it, the display area otherwise. -/
def textBounds (d : Display) : Bounds :=
  if d.af.set ∧
      d.text.cx ≥ d.af.x ∧ wrap32 (d.text.cx + cfW d) ≤ wrap32 (d.af.x + d.af.w) ∧
      d.text.cy ≥ d.af.y ∧ wrap32 (d.text.cy + cfH d) ≤ wrap32 (d.af.y + d.af.h) then
    ⟨d.af.x, d.af.y, wrap32 (d.af.x + d.af.w), wrap32 (d.af.y + d.af.h)⟩
  else ⟨0, 0, fxOne, visYFx⟩

def textHome (d : Display) : Display :=
  cursorMoved { d with text.cx := 0, text.cy := wrap32 (visYFx - cfH d) }

/-- Row 0 is the bottom, so the picture moves up by moving rows down in the buffer. -/
def scrollUp (d : Display) (dyPx : Int) : Display :=
  if dyPx ≤ 0 then d
  else if dyPx ≥ height then { d with surf := surfaceClear d.surf (clearAddr d) }
  else
    let pix := Loop.down (height - 1) (dyPx - 1) (fun y g => g.moveRows screen y (y - dyPx) 1)
      d.surf.pix
    let pix := Loop.up 0 dyPx (fun y g => g.fillRun screen y 0 (width - 1) (clearAddr d % 256)) pix
    { d with surf.pix := pix }

def scrollDown (d : Display) (dyPx : Int) : Display :=
  if dyPx ≤ 0 then d
  else if dyPx ≥ height then { d with surf := surfaceClear d.surf (clearAddr d) }
  else
    let pix := Loop.up 0 (height - dyPx) (fun y g => g.moveRows screen y (y + dyPx) 1) d.surf.pix
    let pix := Loop.up (height - dyPx) height
      (fun y g => g.fillRun screen y 0 (width - 1) (clearAddr d % 256)) pix
    { d with surf.pix := pix }

/-- One interrow step. -/
def irStep (d : Display) : Int :=
  (wrap32 ((if d.text.path < 2 then cfH d else cfW d) * d.text.irsNum)).tdiv d.text.irsDen

/-- APD. -/
def textLf (d : Display) : Display :=
  let step := irStep d
  let b := textBounds d
  if d.text.path < 2 then
    let d := { d with text.cy := wrap32 (d.text.cy - step) }
    if d.text.cy < b.y0 then
      if d.text.scroll then
        let d := scrollUp d (fxToPx step)
        cursorMoved { d with text.cy := wrap32 (d.text.cy + step) }
      else cursorMoved { d with text.cy := wrap32 (b.y1 - cfH d) }
    else cursorMoved d
  else
    let d := { d with text.cx := wrap32 (d.text.cx - step) }
    if d.text.cx < b.x0 then cursorMoved { d with text.cx := wrap32 (b.x1 - cfW d) }
    else cursorMoved d

/-- APU. -/
def textRlf (d : Display) : Display :=
  let step := irStep d
  let b := textBounds d
  if d.text.path < 2 then
    let d := { d with text.cy := wrap32 (d.text.cy + step) }
    if wrap32 (d.text.cy + cfH d) > b.y1 then
      if d.text.scroll then
        let d := scrollDown d (fxToPx step)
        cursorMoved { d with text.cy := wrap32 (d.text.cy - step) }
      else cursorMoved { d with text.cy := b.y0 }
    else cursorMoved d
  else
    let d := { d with text.cx := wrap32 (d.text.cx + step) }
    if wrap32 (d.text.cx + cfW d) > b.x1 then cursorMoved { d with text.cx := b.x0 }
    else cursorMoved d

/-- APR. -/
def textCr (d : Display) : Display :=
  let b := textBounds d
  match d.text.path with
  | 0 => cursorMoved { d with text.cx := b.x0 }
  | 1 => cursorMoved { d with text.cx := wrap32 (b.x1 - cfW d) }
  | 2 => cursorMoved { d with text.cy := b.y0 }
  | _ => cursorMoved { d with text.cy := wrap32 (b.y1 - cfH d) }

/-- The number of columns of the 5 by 7 cell a glyph uses, at least two. -/
def glyphInkWidth (ch : Nat) : Nat :=
  if ch < glyphFirst ∨ ch ≥ glyphFirst + glyphCount then glyphW
  else
    let w := (List.range glyphH).foldl
      (fun w row => (List.range glyphW).foldl
        (fun w col =>
          if (glyphRow (ch - glyphFirst) row).testBit col ∧ col + 1 > w then col + 1 else w) w) 0
    if w < 2 then 2 else w

def propAdvance (cell : Int) (ch : Nat) : Int :=
  (wrap32 (cell * (2 * glyphInkWidth ch + 3))).tdiv 18

def drawCellW (d : Display) (ch : Nat) : Int :=
  if d.text.propSpacing then propAdvance (cfW d) ch else cfW d

/-- The advance along the path for a cell of the given size. -/
def icStep (d : Display) (cell : Int) (ch : Nat) (haveCh : Bool) : Int :=
  if d.text.propSpacing ∧ haveCh then propAdvance cell ch
  else (wrap32 (cell * d.text.icsNum)).tdiv d.text.icsDen

/-- The cursor moved one intercharacter step along the character path. -/
def pathStep (d : Display) (ch : Nat) (haveCh : Bool) : Display :=
  let s := if d.text.path < 2 then icStep d (cfW d) ch haveCh else icStep d (cfH d) ch haveCh
  let stepx := if d.text.path < 2 then (if d.text.path = 0 then s else -s) else 0
  let stepy := if d.text.path < 2 then 0 else (if d.text.path = 2 then s else -s)
  { d with text.cx := wrap32 (d.text.cx + stepx), text.cy := wrap32 (d.text.cy + stepy) }

/-- The next character would not lie in the bounds. -/
def leavesBounds (d : Display) (ch : Nat) (haveCh : Bool) : Bool :=
  let b := textBounds d
  let fitw := if d.text.propSpacing ∧ haveCh then propAdvance (cfW d) ch else cfW d
  let fith := if d.text.propSpacing ∧ haveCh then propAdvance (cfH d) ch else cfH d
  if d.text.path < 2 then wrap32 (d.text.cx + fitw) > b.x1 ∨ d.text.cx < b.x0
  else wrap32 (d.text.cy + fith) > b.y1 ∨ d.text.cy < b.y0

/-- APF, with the automatic APR APD. -/
def textAdvanceCh (d : Display) (ch : Nat) (haveCh : Bool) : Display :=
  let d := pathStep d ch haveCh
  if leavesBounds d ch haveCh then cursorMoved (textLf (textCr d)) else cursorMoved d

def textAdvance (d : Display) : Display := textAdvanceCh d 0x20 false

/-- The cursor moved one intercharacter step against the character path. -/
def pathBack (d : Display) : Display :=
  if d.text.path < 2 then
    let s := (wrap32 (cfW d * d.text.icsNum)).tdiv d.text.icsDen
    { d with text.cx := wrap32 (d.text.cx - (if d.text.path = 0 then s else -s)) }
  else
    let s := (wrap32 (cfH d * d.text.icsNum)).tdiv d.text.icsDen
    { d with text.cy := wrap32 (d.text.cy - (if d.text.path = 2 then s else -s)) }

/-- APB. -/
def textBs (d : Display) : Display :=
  let b := textBounds d
  let d := pathBack d
  if d.text.path < 2 then
    if d.text.cx < b.x0 then
      cursorMoved (textRlf { d with text.cx := wrap32 (b.x1 - cfW d) })
    else cursorMoved d
  else
    if d.text.cy < b.y0 then cursorMoved { d with text.cy := wrap32 (b.y1 - cfH d) }
    else cursorMoved d

/-! ### Drawing a character -/

/-- The pixels of glyph `gi` scaled into the box of `gw` by `gh` pixels at `(fx0, y0)`. -/
def drawGlyph (s : Surface) (gi : Nat) (fx0 y0 gw gh : Int) (addr : Nat) : Surface :=
  Loop.up 0 gh
    (fun gy s =>
      let bits := glyphRow gi ((gy * glyphH).tdiv gh).toNat
      let py := y0 + (gh - 1 - gy)
      Loop.up 0 gw
        (fun gx s =>
          if bits.testBit ((gx * glyphW).tdiv gw).toNat then plot s (fx0 + gx) py addr else s) s) s

/-- The character field is painted in colour mode 2 and in reverse video. -/
def paintField (d : Display) (fx0 fy0 fw fh : Int) : Surface :=
  if d.text.reverseVideo ∨ d.draw.colorMode = 2 then
    fillRect d.surf fx0 fy0 fw fh (if d.text.reverseVideo then fg d else d.draw.bgAddr) none
  else d.surf

/-- The glyph; in reverse video outside of colour mode 2 the field alone carries the character. -/
def paintGlyph (d : Display) (s : Surface) (ch : Nat) (fx0 y0 gw gh : Int) : Surface :=
  if d.text.reverseVideo ∧ d.draw.colorMode ≠ 2 then s
  else
    drawGlyph s (ch - glyphFirst) fx0 y0 gw gh
      (if d.text.reverseVideo then d.draw.bgAddr else fg d)

def paintUnderline (d : Display) (s : Surface) (fx0 fy0 fw : Int) : Surface :=
  if d.text.underline then fillRect s fx0 fy0 fw (if pelh d < 1 then 1 else pelh d) (fg d) none
  else s

/-- What `draw_char` paints: field, glyph and underline. -/
def paintChar (d : Display) (ch : Nat) : Surface :=
  let fx0 := fxToPx d.text.cx
  let fy0 := fxToPx d.text.cy
  let fw := fxToPx (wrap32 (d.text.cx + cfW d)) - fx0
  let fh := fxToPx (wrap32 (d.text.cy + cfH d)) - fy0
  let fw := if fw < 1 then 1 else fw
  let fh := if fh < 1 then 1 else fh
  let dw := fxToPx (wrap32 (d.text.cx + drawCellW d ch)) - fx0
  let dw := if dw < 1 then 1 else dw
  let gw := (dw * glyphW).tdiv 6
  let gw := if gw < 1 then 1 else gw
  let gh := (fh * glyphH).tdiv 10
  let gh := if gh < 1 then 1 else gh
  let base := (fh * 2 + 5).tdiv 10
  let base := if base + gh > fh then fh - gh else base
  let base := if base < 0 then 0 else base
  let s := paintGlyph d (paintField d fx0 fy0 fw fh) ch fx0 (fy0 + base) gw gh
  paintUnderline d s fx0 fy0 fw

def drawChar (d : Display) (ch : Nat) : Display :=
  if ch < glyphFirst ∨ ch ≥ glyphFirst + glyphCount then d
  else
    let d := markDrew { d with surf := paintChar d ch, st.charsDrawn := d.st.charsDrawn + 1 }
    textAdvanceCh { d with text.lastSpacingChar := ch, text.haveLastSpacing := true } ch true

end UnicornSuite.Naplps
