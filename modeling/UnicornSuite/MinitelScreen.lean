import UnicornSuite.LibGrid
import UnicornSuite.LibRounds

/-! The page memory of the Minitel decoder and what writes it (`minitel_decode.c`): 25 rows of 40
cells, the current position, the attributes, the moves and `put_cell`. Columns 0 and 41 of the memory
are padding; a write outside of rows 0 to 24 and columns 1 to 40 raises the fault flag. -/

namespace UnicornSuite.Minitel

/-- `MINITEL_COLS`. -/
abbrev cols : Int := 40

abbrev page : Region := ⟨0, 25, 1, 41⟩

/-- `MT_BLACK` and `MT_WHITE`. -/
abbrev black : Nat := 0

abbrev white : Nat := 7

inductive Kind where
  | alpha | mosaic | delim
  deriving DecidableEq

/-- `MT_F_FLASH`, `MT_F_INVERT`, `MT_F_SEPARATED`, `MT_F_ZMASK` and `MT_F_ZUNDER`. -/
structure Flags where
  flash : Bool := false
  invert : Bool := false
  separated : Bool := false
  zmask : Bool := false
  zunder : Bool := false
  deriving DecidableEq

/-- `MT_S_DW`, `MT_S_DH`, `MT_S_RIGHT` and `MT_S_TOP`. -/
structure Size where
  dw : Bool := false
  dh : Bool := false
  right : Bool := false
  top : Bool := false
  deriving DecidableEq

structure Cell where
  kind : Kind
  glyph : Nat
  fg : Nat
  bg : Nat
  flags : Flags
  size : Size
  deriving DecidableEq

/-- The character attributes, with the latent serial context in the fields `s…`. -/
structure Attr where
  fg : Nat
  flash : Bool
  invert : Bool
  size : Size
  separated : Bool
  g1 : Bool
  sBg : Nat
  sMask : Bool
  sUl : Bool
  sPending : Bool
  sPendingOther : Bool

/-- What REP repeats. -/
inductive LastKind where
  | none | g0 | g1 | glyph
  deriving DecidableEq

structure Stats where
  bytesIn : UInt32 := 0
  chars : UInt32 := 0
  filtered : UInt32 := 0
  resync : UInt32 := 0
  errors : UInt32 := 0
  row0 : UInt32 := 0
  protocol : UInt32 := 0
  unrepresent : UInt32 := 0
  bit8 : UInt32 := 0
  bells : UInt32 := 0
  usIgnored : UInt32 := 0

structure Screen where
  mem : Grid Cell
  row : Int
  /-- Column 41 is the pending wrap. -/
  col : Int
  a : Attr
  inRow0 : Bool
  svRow : Int
  svCol : Int
  svA : Attr
  cursorOn : Bool
  screenMask : Bool
  scroll : Bool
  insert : Bool
  lastKind : LastKind
  lastCode : Nat
  ever : Bool
  stats : Stats
  /-- What an installed reply callback is called with. -/
  replies : List (List Nat)
  /-- History: a scroll has moved row 2 up into row 1. Nothing reads it. -/
  rolled : Bool

/-! ### Glyph codes -/

abbrev gFullblock : Nat := 0x80

abbrev gLowbar : Nat := 0x81

/-- `MT_G_END`. -/
abbrev gEnd : Nat := 0x80 + 32

/-- The codes from `MT_G_POUND` on, in the order of the source. -/
inductive Ext where
  | pound | section_ | arrowL | arrowU | arrowR | arrowD | degree | plusminus | divide
  | quarter | half | threeQuarter | oeUc | oeLc | beta
  | aGrave | eGrave | uGrave | eAcute | aCirc | eCirc | iCirc | oCirc | uCirc
  | aDiaer | eDiaer | iDiaer | oDiaer | uDiaer | cCedil
  deriving DecidableEq

def Ext.code (e : Ext) : Nat := 0x82 + e.ctorIdx

/-! ### Counters -/

def filtered (d : Screen) : Screen := { d with stats.filtered := d.stats.filtered + 1 }

def unrepresent (d : Screen) : Screen := { d with stats.unrepresent := d.stats.unrepresent + 1 }

def protocol (d : Screen) : Screen := { d with stats.protocol := d.stats.protocol + 1 }

def usIgnored (d : Screen) : Screen := { d with stats.usIgnored := d.stats.usIgnored + 1 }

def sendReply (d : Screen) (b : List Nat) : Screen := { d with replies := d.replies ++ [b] }

/-! ### Erasing and scrolling -/

def attrDefault : Attr :=
  { fg := white, flash := false, invert := false, size := {}, separated := false, g1 := false
    sBg := black, sMask := false, sUl := false, sPending := false, sPendingOther := false }

/-- The erased cell. -/
def blackMosaic : Cell :=
  { kind := .mosaic, glyph := 0, fg := black, bg := black, flags := {}, size := {} }

def clearRow (g : Grid Cell) (r c0 c1 : Int) : Grid Cell :=
  g.fillRun page r (if c0 < 1 then 1 else c0) (if c1 > cols then cols else c1) blackMosaic

def clearRows (g : Grid Cell) (r0 r1 : Int) : Grid Cell :=
  Loop.up r0 (r1 + 1) (fun r g => clearRow g r 1 cols) g

/-- One round of `scroll_up`. -/
def rowsUp (g : Grid Cell) (top bottom : Int) : Grid Cell :=
  clearRow (Loop.up top bottom (fun r g => g.moveRows page r (r + 1) 1) g) bottom 1 cols

/-- One round of `scroll_down`. -/
def rowsDown (g : Grid Cell) (top bottom : Int) : Grid Cell :=
  clearRow (Loop.down bottom top (fun r g => g.moveRows page r (r - 1) 1) g) top 1 cols

def scrollUp (d : Screen) (top bottom n : Int) : Screen :=
  { d with
    mem := Loop.up 0 n (fun _ g => rowsUp g top bottom) d.mem
    rolled := d.rolled || decide (top ≤ 1 ∧ 0 < n) }

def scrollDown (d : Screen) (top bottom n : Int) : Screen :=
  { d with mem := Loop.up 0 n (fun _ g => rowsDown g top bottom) d.mem }

def separatorReset (d : Screen) : Screen := { d with a := attrDefault }

def leaveRow0 (d : Screen) : Screen := { d with inRow0 := false }

def settleCol (d : Screen) : Screen := { d with col := if d.col > cols then cols else d.col }

/-! ### Moves -/

def moveTo (d : Screen) (row col : Int) : Screen := { d with row := row, col := col }

/-- The way back from row 0. -/
def restoreSaved (d : Screen) : Screen :=
  { d with row := d.svRow, col := d.svCol, a := d.svA, inRow0 := false }

def doLf (d : Screen) : Screen :=
  let d := settleCol d
  if d.inRow0 then restoreSaved d
  else if d.row ≥ 24 then
    if d.scroll then scrollUp d 1 24 1 else moveTo d 1 d.col
  else moveTo d (d.row + 1) d.col

def doVt (d : Screen) : Screen :=
  let d := settleCol d
  if d.inRow0 then d
  else if d.row ≤ 1 then
    if d.scroll then scrollDown d 1 24 1 else moveTo d 24 d.col
  else moveTo d (d.row - 1) d.col

def doBs (d : Screen) : Screen :=
  if d.col > cols then moveTo d d.row cols
  else if d.col > 1 then moveTo d d.row (d.col - 1)
  else if d.inRow0 then d
  else if d.row > 1 then moveTo d (d.row - 1) cols
  else moveTo d 24 cols

def doHt (d : Screen) : Screen :=
  let d := settleCol d
  if d.col < cols then moveTo d d.row (d.col + 1)
  else if d.inRow0 then d
  else if d.row < 24 then moveTo d (d.row + 1) 1
  else moveTo d 1 1

/-! ### Writing a character -/

def countChar (d : Screen) : Screen := { d with stats.chars := d.stats.chars + 1 }

/-- In row 0 there are no sizes and nothing wraps. -/
def putRow0 (d : Screen) (c : Cell) : Screen :=
  let col := if d.col > cols then cols else d.col
  countChar { d with
    mem := d.mem.put page 0 col { c with size := {} }
    col := if col < cols then col + 1 else col
    stats.row0 := d.stats.row0 + 1 }

/-- The wrap that was pending; how far it goes depends on the height of the character. -/
def wrapPending (d : Screen) (dh : Bool) : Screen :=
  if d.col > cols then
    let row := d.row + (if dh then 2 else 1)
    if row > 24 then
      if d.scroll then moveTo (scrollUp d 1 24 (row - 24)) 24 1
      else moveTo d (if dh then 2 else 1) 1
    else moveTo d row 1
  else d

/-- No double height on row 1, no double width in column 40. -/
def fitSize (d : Screen) (size : Size) : Size :=
  { size with dh := size.dh && decide (2 ≤ d.row), dw := size.dw && decide (d.col ≠ cols) }

def openColumn (d : Screen) : Screen :=
  { d with mem := d.mem.moveRun page d.row (d.col + 1) d.col (cols - d.col) }

/-- One of the one, two or four cells of a character. -/
def putPart (d : Screen) (c : Cell) (size : Size) (top right : Bool) (g : Grid Cell) : Grid Cell :=
  g.put page (if top then d.row - 1 else d.row) (if right then d.col + 1 else d.col)
    { c with size := { dw := size.dw, dh := size.dh, right := right, top := top } }

def placeCell (d : Screen) (c : Cell) (size : Size) : Screen :=
  let g := putPart d c size false false d.mem
  let g := if size.dw then putPart d c size false true g else g
  let g := if size.dh then putPart d c size true false g else g
  let g := if size.dh && size.dw then putPart d c size true true g else g
  countChar { d with mem := g, col := d.col + (if size.dw then 2 else 1) }

def markEver (d : Screen) : Screen := { d with ever := true }

def putCell (d : Screen) (c : Cell) : Screen :=
  let d := markEver d
  if d.inRow0 then putRow0 d c
  else
    let d := wrapPending d c.size.dh
    let size := fitSize d c.size
    let d := if d.insert && !size.dw then openColumn d else d
    placeCell d c size

/-! ### Characters -/

def alphaCell (a : Attr) (glyph : Nat) : Cell :=
  { kind := .alpha, glyph := glyph, fg := a.fg, bg := black
    flags := { flash := a.flash, invert := a.invert }, size := a.size }

def mosaicCell (a : Attr) (bits : Nat) : Cell :=
  { kind := .mosaic, glyph := bits % 64, fg := a.fg, bg := a.sBg
    flags := { flash := a.flash, separated := a.separated }, size := {} }

/-- A mosaic validates the paper only. -/
def validatePaper (d : Screen) : Screen :=
  if d.a.sPendingOther then d else { d with a.sPending := false }

def putMosaic (d : Screen) (bits : Nat) : Screen :=
  putCell (validatePaper d) (mosaicCell d.a bits)

def setLast (d : Screen) (kind : LastKind) (code : Nat) : Screen :=
  { d with lastKind := kind, lastCode := code }

def putG1 (d : Screen) (b : Nat) : Screen :=
  if b = 0x5F then setLast (putMosaic d 0x3F) .g1 b
  else if 0x40 ≤ b ∧ b ≤ 0x5E then setLast (putMosaic (unrepresent d) 0) .g1 b
  else setLast (putMosaic d (b % 32 + b / 64 % 2 * 32)) .g1 b

/-- The first space after a serial definition. -/
def delimCell (a : Attr) : Cell :=
  { alphaCell a 0x20 with
    kind := .delim, bg := a.sBg
    flags := { invert := a.invert, zmask := a.sMask, zunder := a.sUl } }

/-- A plain space does not flash. -/
def spaceCell (a : Attr) : Cell :=
  { alphaCell a 0x20 with flags := { invert := a.invert } }

def clearPending (d : Screen) : Screen := { d with a.sPending := false, a.sPendingOther := false }

def putSpace (d : Screen) : Screen :=
  if d.a.g1 then setLast (putMosaic d 0) .g0 0x20
  else if d.a.sPending then setLast (putCell (clearPending d) (delimCell d.a)) .g0 0x20
  else setLast (putCell d (spaceCell d.a)) .g0 0x20

def putGlyph (d : Screen) (glyph : Nat) : Screen :=
  setLast (putCell d (alphaCell d.a glyph)) .glyph glyph

def putG0 (d : Screen) (b : Nat) : Screen :=
  if b = 0x20 then putSpace d else setLast (putCell d (alphaCell d.a b)) .g0 b

def putDel (d : Screen) : Screen := if d.a.g1 then putG1 d 0x5F else putGlyph d gFullblock

def putPrintable (d : Screen) (b : Nat) : Screen :=
  if b = 0x7F then putDel d
  else if b = 0x20 then putSpace d
  else if d.a.g1 then putG1 d b
  else putG0 d b

/-- REP. The repeated character takes the attributes of the moment. -/
def repeatLast : Nat → Screen → Screen
  | 0, d => d
  | n + 1, d =>
      repeatLast n <|
        match d.lastKind with
        | .g0 => if d.lastCode = 0x20 then putSpace d else putCell d (alphaCell d.a d.lastCode)
        | .g1 => putG1 d d.lastCode
        | .glyph => putGlyph d d.lastCode
        | .none => d

end UnicornSuite.Minitel
