import UnicornSuite.LibCInt
import UnicornSuite.LibGrid
import UnicornSuite.LibRounds
import UnicornSuite.LibRun

/-! The VT220 terminal core (`vt_term.c`). The line buffer holds `linesCapacity` rows of `cols` cells,
of which the first `linesTotal` are in use and the last `rows` of these are on screen; a write outside
of the buffer raises the fault flag. Arithmetic that a remote byte or a caller can drive out of the
32-bit range is wrapped, the rest is exact. -/

namespace UnicornSuite.VtTerm

open CInt

structure Cell where
  ch : Nat
  flags : Nat
  deriving DecidableEq

def blank : Cell := ⟨0x20, 0⟩

inductive Parse where
  | normal | escSeen | csiCollecting
  deriving DecidableEq

/-- The selection, in logical rows. -/
structure Sel where
  active : Bool := false
  anchorRow : Int := 0
  anchorCol : Int := 0
  leadRow : Int := 0
  leadCol : Int := 0

structure VTTerm where
  cols : Int
  rows : Int
  cursorX : Int
  cursorY : Int
  scrollbackMax : Int
  lines : Grid Cell
  linesTotal : Int
  linesCapacity : Int
  scrollOffset : Int
  pstate : Parse
  csiBuf : List Nat
  lfToCrlf : Bool
  statCr : UInt32
  statLf : UInt32
  sel : Sel
  /-- Whether the calls of `realloc` succeed, one after another, and how many there were. -/
  heap : Nat → Bool
  heapPos : Nat

/-! ### Row storage -/

/-- The allocated rows. -/
def buffer (t : VTTerm) : Region := ⟨0, t.linesCapacity, 0, t.cols⟩

def rowBlank (t : VTTerm) (i : Int) (g : Grid Cell) : Grid Cell :=
  g.fillRun (buffer t) i 0 (t.cols - 1) blank

/-- `total_cap`. -/
def totalCap (t : VTTerm) : Int := wrap32 (t.scrollbackMax + t.rows)

/-- The doubling of `grow_to`. It passes 2^30 by an overflow and does not end then. -/
def growCap (want : Int) : Nat → Int → Option Int
  | 0, _ => none
  | n + 1, cap =>
      if cap < want then growCap want n (if cap = 0 then 32 else wrap32 (cap * 2)) else some cap

/-- The outcome of one `realloc` to `cap` rows. -/
def realloc (t : VTTerm) (cap : Int) : VTTerm :=
  { t with
    linesCapacity := if t.heap t.heapPos then cap else t.linesCapacity
    heapPos := t.heapPos + 1 }

def raiseFault (t : VTTerm) : VTTerm := { t with lines := { t.lines with fault := true } }

def growTo (t : VTTerm) (want : Int) : VTTerm :=
  if want ≤ t.linesCapacity then t
  else
    match growCap want 64 t.linesCapacity with
    | none => raiseFault t
    | some cap => realloc t (if cap > totalCap t then totalCap t else cap)

/-- The selection follows its rows down; it is cleared when they are gone. -/
def selEvict (s : Sel) : Sel :=
  if s.active then
    let anchorRow := wrap32 (s.anchorRow - 1)
    let leadRow := wrap32 (s.leadRow - 1)
    if anchorRow < 0 ∨ leadRow < 0 then {}
    else { s with anchorRow := anchorRow, leadRow := leadRow }
  else s

def dropOldestIfFull (t : VTTerm) : VTTerm :=
  if t.linesTotal < totalCap t then t
  else
    { t with
      lines := t.lines.moveRows (buffer t) 0 1 (t.linesTotal - 1)
      linesTotal := t.linesTotal - 1
      sel := selEvict t.sel }

/-- The part of `append_blank_row` after the room for the row is made. -/
def pushRow (t : VTTerm) : VTTerm :=
  { t with lines := rowBlank t t.linesTotal t.lines, linesTotal := t.linesTotal + 1 }

def appendBlankRow (t : VTTerm) : VTTerm :=
  let t := dropOldestIfFull t
  pushRow (growTo t (t.linesTotal + 1))

def visibleTopIndex (t : VTTerm) : Int := t.linesTotal - t.rows

/-! ### Init, clear and resize -/

/-- The terminal before the first rows are allocated. -/
def empty (heap : Nat → Bool) (cols rows scrollback : Int) : VTTerm where
  cols := if cols < 1 then 80 else cols
  rows := if rows < 1 then 24 else rows
  cursorX := 0
  cursorY := 0
  scrollbackMax := if scrollback < 0 then 0 else scrollback
  lines := .const ⟨0, 0⟩
  linesTotal := 0
  linesCapacity := 0
  scrollOffset := 0
  pstate := .normal
  csiBuf := []
  lfToCrlf := false
  statCr := 0
  statLf := 0
  sel := {}
  heap := heap
  heapPos := 0

def init (heap : Nat → Bool) (cols rows scrollback : Int32) : VTTerm :=
  let t := empty heap cols.toInt rows.toInt scrollback.toInt
  Loop.up 0 t.rows (fun _ t => appendBlankRow t) (growTo t t.rows)

def home (t : VTTerm) : VTTerm := { t with cursorX := 0, cursorY := 0, scrollOffset := 0 }

def clearVisible (t : VTTerm) : VTTerm :=
  home { t with lines := Loop.up (visibleTopIndex t) t.linesTotal (rowBlank t) t.lines }

def setLfToCrlf (t : VTTerm) (enable : Bool) : VTTerm := { t with lfToCrlf := enable }

def collapse (t : VTTerm) : VTTerm :=
  { t with linesTotal := if t.linesTotal > t.rows then t.rows else t.linesTotal }

def clearAll (t : VTTerm) : VTTerm :=
  let t := collapse t
  home { t with lines := Loop.up 0 t.rows (rowBlank t) t.lines }

def rowEmpty (t : VTTerm) (i : Int) : Bool :=
  (List.range t.cols.toNat).all fun x =>
    (t.lines.cell i x).ch == 0x20 || (t.lines.cell i x).ch == 0

/-- Blank rows below the cursor are given up first. -/
def trimRows (t : VTTerm) (curAbs : Int) : Nat → Int → Int
  | 0, src => src
  | n + 1, src =>
      if src - 1 > curAbs ∧ rowEmpty t (src - 1) then trimRows t curAbs n (src - 1) else src

/-- How many rows a buffer for `rows` visible rows has; the scrollback is given up when the sum
overflows. -/
def newCap (t : VTTerm) (rows : Int) : Int :=
  if wrap32 (t.scrollbackMax + rows) < rows then rows else wrap32 (t.scrollbackMax + rows)

/-- The copy of the last `kept` of `src` rows, padded with blank rows up to `rows`. -/
def newLines (t : VTTerm) (R : Region) (src kept rows : Int) : Grid Cell :=
  let g := Loop.up 0 kept (fun i g =>
    Loop.up 0 R.j1 (fun j g =>
      g.put R i j (if j < R.j1 ∧ j < t.cols then t.lines.cell (src - kept + i) j else blank)) g)
    ⟨fun _ _ => ⟨0, 0⟩, t.lines.fault⟩
  Loop.up 0 (rows - kept) (fun k g => g.fillRun R (kept + k) 0 (R.j1 - 1) blank) g

def clamp (v lo hi : Int) : Int :=
  let v := if v < lo then lo else v
  if v > hi then hi else v

/-- `vt_term_resize` from the new buffer on. -/
def rebuild (t : VTTerm) (cols rows src : Int) : VTTerm :=
  let curAbs := t.linesTotal - t.rows + t.cursorY
  let cap := newCap t rows
  let kept := if src > cap then cap else src
  let total := if kept < rows then rows else kept
  { t with
    cols := cols
    rows := rows
    lines := newLines t ⟨0, cap, 0, cols⟩ src kept rows
    linesTotal := total
    linesCapacity := cap
    cursorX := if t.cursorX ≥ cols then cols - 1 else t.cursorX
    cursorY := clamp (curAbs - (src - kept) - (total - rows)) 0 (rows - 1)
    scrollOffset :=
      let off := if t.scrollOffset > total - rows then total - rows else t.scrollOffset
      if off < 0 then 0 else off }

/-- The rows that are left after the trimming. -/
def sourceRows (t : VTTerm) (rows : Int) : Int :=
  if rows < t.rows then
    trimRows t (t.linesTotal - t.rows + t.cursorY) (t.rows - rows).toNat t.linesTotal
  else t.linesTotal

/-- `calloc` says whether the allocation of the new buffer succeeds. -/
def resize (t : VTTerm) (cols rows : Int32) (calloc : Bool) : VTTerm :=
  if cols.toInt < 1 ∨ rows.toInt < 1 then t
  else if cols.toInt = t.cols ∧ rows.toInt = t.rows then t
  else if calloc then rebuild t cols.toInt rows.toInt (sourceRows t rows.toInt)
  else t

/-! ### Cursor and writing -/

def moveCursor (t : VTTerm) (y x : Int) : VTTerm := { t with cursorY := y, cursorX := x }

def newlineWithScroll (t : VTTerm) : VTTerm :=
  if t.cursorY + 1 < t.rows then moveCursor t (t.cursorY + 1) t.cursorX else appendBlankRow t

/-- A character in the column of the cursor. -/
def writeChar (t : VTTerm) (b : Nat) : VTTerm :=
  { t with
    lines := t.lines.put (buffer t) (visibleTopIndex t + t.cursorY) t.cursorX ⟨b, 0⟩
    cursorX := t.cursorX + 1 }

def putPrintable (t : VTTerm) (b : Nat) : VTTerm :=
  if t.cursorX ≥ t.cols then writeChar (newlineWithScroll (moveCursor t t.cursorY 0)) b
  else writeChar t b

def tab (t : VTTerm) : VTTerm :=
  let nx := wrap32 (t.cursorX.tdiv 8 * 8 + 8)
  moveCursor t t.cursorY (if nx ≥ t.cols then t.cols - 1 else nx)

def lineFeed (t : VTTerm) : VTTerm :=
  let t := { t with statLf := t.statLf + 1 }
  newlineWithScroll (if t.lfToCrlf then moveCursor t t.cursorY 0 else t)

def carriageReturn (t : VTTerm) : VTTerm :=
  moveCursor { t with statCr := t.statCr + 1 } t.cursorY 0

def handleC0 (t : VTTerm) (b : Nat) : VTTerm :=
  match b with
  | 0x0A => lineFeed t
  | 0x0D => carriageReturn t
  | 0x08 => if t.cursorX > 0 then moveCursor t t.cursorY (t.cursorX - 1) else t
  | 0x09 => tab t
  | _ => t

/-! ### CSI dispatch -/

def isDigit (b : Nat) : Bool := decide (0x30 ≤ b ∧ b ≤ 0x39)

/-- The value of a run of digits, in an `int`. -/
def digitsVal (ds : List Nat) : Int :=
  ds.foldl (fun (val : Int) (b : Nat) => wrap32 (wrap32 (val * 10) + ((b : Int) - 0x30))) 0

/-- At most `max` parameters; a position without digits is -1. -/
def parseCsiParams : Nat → List Nat → List Int
  | 0, _ => []
  | _, [] => []
  | max + 1, buf =>
      let ds := buf.takeWhile isDigit
      let val := if ds = [] then -1 else digitsVal ds
      match buf.dropWhile isDigit with
      | 0x3B :: rest => val :: parseCsiParams max rest
      | _ => [val]

def defaultParam (params : List Int) (idx : Nat) (dflt : Int) : Int :=
  match params[idx]? with
  | none => dflt
  | some v => if v < 0 then dflt else v

/-- The row of the cursor, from its column or up to it. -/
def eraseToEnd (t : VTTerm) (g : Grid Cell) : Grid Cell :=
  g.fillRun (buffer t) (visibleTopIndex t + t.cursorY) t.cursorX (t.cols - 1) blank

def eraseFromStart (t : VTTerm) (g : Grid Cell) : Grid Cell :=
  g.fillRun (buffer t) (visibleTopIndex t + t.cursorY) 0
    (if t.cursorX < t.cols then t.cursorX else t.cols - 1) blank

/-- The visible rows `lo` to `hi - 1`. -/
def blankRows (t : VTTerm) (lo hi : Int) (g : Grid Cell) : Grid Cell :=
  Loop.up lo hi (fun i g => rowBlank t (visibleTopIndex t + i) g) g

def eraseDisplay (t : VTTerm) (mode : Int) : Grid Cell :=
  if mode = 2 then blankRows t 0 t.rows t.lines
  else if mode = 0 then blankRows t (t.cursorY + 1) t.rows (eraseToEnd t t.lines)
  else if mode = 1 then eraseFromStart t (blankRows t 0 t.cursorY t.lines)
  else t.lines

def eraseLine (t : VTTerm) (mode : Int) : Grid Cell :=
  if mode = 0 then eraseToEnd t t.lines
  else if mode = 1 then eraseFromStart t t.lines
  else if mode = 2 then rowBlank t (visibleTopIndex t + t.cursorY) t.lines
  else t.lines

def atLeastOne (v : Int) : Int := if v < 1 then 1 else v

/-- How far CSI A, B, C and D move. -/
def moveCount (params : List Int) : Int := atLeastOne (defaultParam params 0 1)

def csiParams (t : VTTerm) : List Int := parseCsiParams 8 t.csiBuf

def cursorTo (t : VTTerm) (r c : Int) : VTTerm :=
  moveCursor t (if r - 1 ≥ t.rows then t.rows - 1 else r - 1)
    (if c - 1 ≥ t.cols then t.cols - 1 else c - 1)

def cursorUp (t : VTTerm) (n : Int) : VTTerm :=
  let y := wrap32 (t.cursorY - n)
  moveCursor t (if y < 0 then 0 else y) t.cursorX

def cursorDown (t : VTTerm) (n : Int) : VTTerm :=
  let y := wrap32 (t.cursorY + n)
  moveCursor t (if y ≥ t.rows then t.rows - 1 else y) t.cursorX

def cursorForward (t : VTTerm) (n : Int) : VTTerm :=
  let x := wrap32 (t.cursorX + n)
  moveCursor t t.cursorY (if x ≥ t.cols then t.cols - 1 else x)

def cursorBack (t : VTTerm) (n : Int) : VTTerm :=
  let x := wrap32 (t.cursorX - n)
  moveCursor t t.cursorY (if x < 0 then 0 else x)

def dispatchCsi (t : VTTerm) (final : Nat) : VTTerm :=
  let params := csiParams t
  match final with
  | 0x4A => { t with lines := eraseDisplay t (defaultParam params 0 0) }
  | 0x48 => cursorTo t (atLeastOne (defaultParam params 0 1)) (atLeastOne (defaultParam params 1 1))
  | 0x66 => cursorTo t (atLeastOne (defaultParam params 0 1)) (atLeastOne (defaultParam params 1 1))
  | 0x41 => cursorUp t (moveCount params)
  | 0x42 => cursorDown t (moveCount params)
  | 0x43 => cursorForward t (moveCount params)
  | 0x44 => cursorBack t (moveCount params)
  | 0x4B => { t with lines := eraseLine t (defaultParam params 0 0) }
  | _ => t

/-! ### Feeding -/

def setParse (t : VTTerm) (pstate : Parse) (csiBuf : List Nat) : VTTerm :=
  { t with pstate := pstate, csiBuf := csiBuf }

def feedByte (t : VTTerm) (b : UInt8) : VTTerm :=
  match t.pstate with
  | .normal =>
      if b.toNat = 0x1B then setParse t .escSeen t.csiBuf
      else if b.toNat < 0x20 then handleC0 t b.toNat
      else if b.toNat = 0x7F then t
      else putPrintable t b.toNat
  | .escSeen =>
      if b.toNat = 0x5B then setParse t .csiCollecting [] else setParse t .normal t.csiBuf
  | .csiCollecting =>
      if 0x40 ≤ b.toNat ∧ b.toNat ≤ 0x7E then setParse (dispatchCsi t b.toNat) .normal []
      else if t.csiBuf.length < 63 then setParse t .csiCollecting (t.csiBuf ++ [b.toNat])
      else setParse t .normal []

def scrollToBottom (t : VTTerm) : VTTerm := { t with scrollOffset := 0 }

def feedBytes (t : VTTerm) (buf : List UInt8) : VTTerm :=
  if buf = [] then t else Machine.run feedByte (scrollToBottom t) buf

/-! ### Scrolling and selection -/

def scrollbackCount (t : VTTerm) : Int := t.linesTotal - t.rows

def scrollBy (t : VTTerm) (lines : Int32) : VTTerm :=
  let off := wrap32 (t.scrollOffset + lines.toInt)
  let off := if off > scrollbackCount t then scrollbackCount t else off
  { t with scrollOffset := if off < 0 then 0 else off }

def selectSet (t : VTTerm) (anchorRow anchorCol leadRow leadCol : Int32) : VTTerm :=
  { t with
    sel :=
      { active := true
        anchorRow := anchorRow.toInt
        anchorCol := anchorCol.toInt
        leadRow := leadRow.toInt
        leadCol := leadCol.toInt } }

def selectClear (t : VTTerm) : VTTerm := { t with sel := {} }

def selectAll (t : VTTerm) : VTTerm :=
  if t.linesTotal ≤ 0 then t
  else { t with sel := { active := true, leadRow := t.linesTotal - 1, leadCol := t.cols } }

/-- `vt_term_get_visible`: the row of the buffer that is drawn at a visible row. -/
def getVisible (t : VTTerm) (row : Int32) : Option Int :=
  if row.toInt < 0 ∨ row.toInt ≥ t.rows then none
  else
    let top := visibleTopIndex t - t.scrollOffset
    let actual := (if top < 0 then 0 else top) + row.toInt
    if actual < 0 ∨ actual ≥ t.linesTotal then none else some actual

/-! ### A session -/

/-- The calls that a module makes between `vt_term_init` and `vt_term_free`. -/
inductive Event where
  | feed (buf : List UInt8)
  | resize (cols rows : Int32) (calloc : Bool)
  | scrollBy (lines : Int32)
  | scrollToBottom
  | clearVisible
  | clearAll
  | setLfToCrlf (enable : Bool)
  | selectSet (anchorRow anchorCol leadRow leadCol : Int32)
  | selectClear
  | selectAll

def step (t : VTTerm) : Event → VTTerm
  | .feed buf => feedBytes t buf
  | .resize cols rows calloc => resize t cols rows calloc
  | .scrollBy lines => scrollBy t lines
  | .scrollToBottom => scrollToBottom t
  | .clearVisible => clearVisible t
  | .clearAll => clearAll t
  | .setLfToCrlf enable => setLfToCrlf t enable
  | .selectSet ar ac lr lc => selectSet t ar ac lr lc
  | .selectClear => selectClear t
  | .selectAll => selectAll t

end UnicornSuite.VtTerm
