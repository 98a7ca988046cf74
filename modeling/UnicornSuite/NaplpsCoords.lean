import UnicornSuite.NaplpsCalls

/-! The coordinates a call computes. A `long` of 32 bits wraps, and the model wraps where the code
adds; `callCoords` lists, call by call, the exact values the code means: the points of the geometric
primitives and their vertices, the cursor positions, the edges of the rectangle text flows in and the
products the steps of the cursor come from. A list may name a value that a test evaluated before it
makes unnecessary. -/

namespace UnicornSuite.Naplps

open CInt

/-! ### Text -/

section

variable (d : Display)

/-- The far edges `textBounds` compares. -/
def boundsCoords : List Int :=
  if d.af.set then
    [d.text.cx + cfW d, d.af.x + d.af.w, d.text.cy + cfH d, d.af.y + d.af.h]
  else []

def homeCoords : List Int := [visYFx - cfH d]

/-- The product in `irStep`. -/
def irProduct : Int := (if d.text.path < 2 then cfH d else cfW d) * d.text.irsNum

def lfCoords : List Int :=
  irProduct d :: boundsCoords d ++
    if d.text.path < 2 then
      let cy := wrap32 (d.text.cy - irStep d)
      [d.text.cy - irStep d, cy + irStep d, (textBounds d).y1 - cfH d]
    else [d.text.cx - irStep d, (textBounds d).x1 - cfW d]

def rlfCoords : List Int :=
  irProduct d :: boundsCoords d ++
    if d.text.path < 2 then
      let cy := wrap32 (d.text.cy + irStep d)
      [d.text.cy + irStep d, cy + cfH d, cy - irStep d]
    else [d.text.cx + irStep d, wrap32 (d.text.cx + irStep d) + cfW d]

def crCoords : List Int :=
  boundsCoords d ++ [(textBounds d).x1 - cfW d, (textBounds d).y1 - cfH d]

/-- The products in `propAdvance` and `icStep`. -/
def propProduct (cell : Int) (ch : Nat) : Int := cell * (2 * glyphInkWidth ch + 3)

def icProduct (cell : Int) : Int := cell * d.text.icsNum

def pathCoords (ch : Nat) (haveCh : Bool) : List Int :=
  let s := if d.text.path < 2 then icStep d (cfW d) ch haveCh else icStep d (cfH d) ch haveCh
  [propProduct (cfW d) ch, propProduct (cfH d) ch, icProduct d (cfW d), icProduct d (cfH d),
    d.text.cx + s, d.text.cx - s, d.text.cy + s, d.text.cy - s]

def leavesCoords (ch : Nat) (haveCh : Bool) : List Int :=
  let fitw := if d.text.propSpacing ∧ haveCh then propAdvance (cfW d) ch else cfW d
  let fith := if d.text.propSpacing ∧ haveCh then propAdvance (cfH d) ch else cfH d
  boundsCoords d ++ [d.text.cx + fitw, d.text.cy + fith]

def advanceCoords (ch : Nat) (haveCh : Bool) : List Int :=
  let d' := pathStep d ch haveCh
  pathCoords d ch haveCh ++ leavesCoords d' ch haveCh ++
    if leavesBounds d' ch haveCh then crCoords d' ++ lfCoords (textCr d') else []

def bsCoords : List Int :=
  let s := if d.text.path < 2 then (wrap32 (icProduct d (cfW d))).tdiv d.text.icsDen
    else (wrap32 (icProduct d (cfH d))).tdiv d.text.icsDen
  let d' := pathBack d
  let b := textBounds d
  boundsCoords d ++
    [icProduct d (cfW d), icProduct d (cfH d), d.text.cx + s, d.text.cx - s, d.text.cy + s,
      d.text.cy - s, b.x1 - cfW d', b.y1 - cfH d'] ++
    if d.text.path < 2 ∧ d'.text.cx < b.x0 then
      rlfCoords { d' with text.cx := wrap32 (b.x1 - cfW d') }
    else []

/-- The edges of the character field and of the glyph. -/
def paintCoords (ch : Nat) : List Int :=
  [d.text.cx + cfW d, d.text.cy + cfH d, propProduct (cfW d) ch, d.text.cx + drawCellW d ch]

/-- The display `drawChar` moves the cursor on. -/
def painted (ch : Nat) : Display :=
  let d := markDrew { d with surf := paintChar d ch, st.charsDrawn := d.st.charsDrawn + 1 }
  { d with text.lastSpacingChar := ch, text.haveLastSpacing := true }

def charCoords (ch : Nat) : List Int :=
  if ch < glyphFirst ∨ ch ≥ glyphFirst + glyphCount then []
  else paintCoords d ch ++ advanceCoords (painted d ch) ch true

def spaceCoords : List Int :=
  let d := noteSpace d
  if d.draw.colorMode = 2 ∨ d.text.reverseVideo ∨ d.text.underline then charCoords d 0x20
  else advanceCoords d 0x20 false

/-- The sums of `atPathEnd`. -/
def endCoords : List Int :=
  [2 * cfW d, 2 * cfH d, d.text.cx + wrap32 (2 * cfW d), d.text.cx - cfW d,
    d.text.cy + wrap32 (2 * cfH d), d.text.cy - cfH d]

def fillCoords : List Int :=
  endCoords d ++ if atPathEnd d then [] else charCoords d d.text.lastSpacingChar

/-- The sums of `placeCursor`. -/
def placeCoords (cx cy cw ch : Int) : List Int :=
  [cx + cw, fxOne - cw, cy + ch, visYFx - ch]

/-! ### Geometry -/

/-- A field given by its origin and a size of either sign. -/
def setFieldCoords (origin size : Int × Int) : List Int :=
  [origin.1, origin.2, origin.1 + size.1, origin.2 + size.2]

def fieldCoords (p : Nat → Nat) (n : Nat) : List Int :=
  let nblk := blocks d.dom.mvLen n
  if nblk = 0 then []
  else if nblk = 1 then setFieldCoords (d.draw.dpx, d.draw.dpy) (unpackMulti d.dom p)
  else setFieldCoords (unpackMulti d.dom p) (unpackMulti d.dom (ptr p d.dom.mvLen))

def pointCoords (op : Nat) (p : Nat → Nat) : List Int :=
  let v := unpackMulti d.dom p
  if op = 0x24 ∨ op = 0x26 then [v.1, v.2] else [d.draw.dpx + v.1, d.draw.dpy + v.2]

def lineCoords (op : Nat) (p : Nat → Nat) : List Int :=
  let first := unpackMulti d.dom p
  let a := if op = 0x28 ∨ op = 0x29 then (d.draw.dpx, d.draw.dpy) else first
  let v := if op = 0x28 ∨ op = 0x29 then first else unpackMulti d.dom (ptr p d.dom.mvLen)
  if op = 0x29 ∨ op = 0x2B then [a.1, a.2, v.1 + a.1, v.2 + a.2] else [a.1, a.2, v.1, v.2]

def rectCoords (op : Nat) (p : Nat → Nat) : List Int :=
  let first := unpackMulti d.dom p
  let a := if op = 0x30 ∨ op = 0x31 then (d.draw.dpx, d.draw.dpy) else first
  let v := if op = 0x30 ∨ op = 0x31 then first else unpackMulti d.dom (ptr p d.dom.mvLen)
  [a.1, a.2, a.1 + v.1, a.2 + v.2]

/-- The vertices of `relVertices`, of which `len` are in the array already. -/
def vertexCoords (dom : Domain) (p : Nat → Nat) (skipZero : Bool) :
    (rounds blk : Nat) → (x y : Int) → (len : Nat) → List Int
  | 0, _, _, _, _ => []
  | rounds + 1, blk, x, y, len =>
      if len < maxPts - 1 then
        let v := unpackMulti dom (ptr p (blk * dom.mvLen))
        if skipZero ∧ v.1 = 0 ∧ v.2 = 0 then vertexCoords dom p skipZero rounds (blk + 1) x y len
        else
          (x + v.1) :: (y + v.2) ::
            vertexCoords dom p skipZero rounds (blk + 1) (wrap32 (x + v.1)) (wrap32 (y + v.2))
              (len + 1)
      else []

/-- The intermediate point and the end point of an arc. -/
def throughCoords (p : Nat → Nat) (first nblk : Nat) (s : Int × Int) : List Int :=
  let r := unpackMulti d.dom (ptr p (first * d.dom.mvLen))
  let ix := wrap32 (s.1 + r.1)
  let iy := wrap32 (s.2 + r.2)
  [s.1, s.2, s.1 + r.1, s.2 + r.2] ++
    if nblk ≥ first + 2 then
      let r := unpackMulti d.dom (ptr p ((first + 1) * d.dom.mvLen))
      [ix + r.1, iy + r.2]
    else []

def arcCoords (op : Nat) (p : Nat → Nat) (n : Nat) : List Int :=
  let nblk := blocks d.dom.mvLen n
  let setform := op = 0x2E ∨ op = 0x2F
  let first := if setform then 1 else 0
  let s := startPoint d p setform
  if nblk < first + 1 then []
  else if nblk > first + 2 then s.1 :: s.2 :: vertexCoords d.dom p false (nblk - first) first s.1 s.2 1
  else throughCoords d p first nblk s

def polyCoords (op : Nat) (p : Nat → Nat) (n : Nat) : List Int :=
  let nblk := blocks d.dom.mvLen n
  let setform := op = 0x36 ∨ op = 0x37
  let first := if setform then 1 else 0
  let s := startPoint d p setform
  if nblk < 1 then []
  else s.1 :: s.2 :: vertexCoords d.dom p true (nblk - first) first s.1 s.2 1

/-- The home position of the default text attributes, and that of RESET and NSR. -/
def resetCoords : List Int := [visYFx - cfNormalDy]

/-! ### Calls -/

def pdiCoords (op : Nat) (p : Nat → Nat) (n : Nat) : List Int :=
  match op with
  | 0x20 => resetCoords
  | 0x24 | 0x25 | 0x26 | 0x27 => pointCoords d op p
  | 0x28 | 0x29 | 0x2A | 0x2B => lineCoords d op p
  | 0x2C | 0x2D | 0x2E | 0x2F => arcCoords d op p n
  | 0x30 | 0x31 | 0x32 | 0x33 => rectCoords d op p
  | 0x34 | 0x35 | 0x36 | 0x37 => polyCoords d op p n
  | 0x38 => fieldCoords d p n
  | _ => []

/-- The exact coordinates of a call. The instructions of INCREMENTAL are skipped and compute none. -/
def callCoords : Call → List Int
  | .pdi op p n _ => pdiCoords d op p n
  | .char ch => charCoords d ch
  | .space => spaceCoords d
  | .again => charCoords d d.text.lastSpacingChar
  | .fill => fillCoords d
  | .bs => bsCoords d
  | .advance => advanceCoords d 0x20 false
  | .lf => lfCoords d
  | .rlf => rlfCoords d
  | .cr => crCoords d
  | .home => homeCoords d
  | .clearScreen => homeCoords d
  | .nsrReset => resetCoords
  | .nsrAddress b0 b1 =>
      nsrX b1 :: nsrY b0 :: placeCoords (nsrX b1) (nsrY b0) cfNormalDx cfNormalDy
  | .apsAddress b0 b1 =>
      (apsIndex b1 * cfW d) :: (apsIndex b0 * cfH d) ::
        placeCoords (wrap32 (apsIndex b1 * cfW d)) (wrap32 (apsIndex b0 * cfH d)) (cfW d) (cfH d)
  | _ => []

end

end UnicornSuite.Naplps
