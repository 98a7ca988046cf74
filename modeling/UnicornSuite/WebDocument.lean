import UnicornSuite.LibCInt
import Mathlib.Logic.Function.Basic

/-! The document of the browser (`render_engine.h`) and the functions of `web_module.c` that put text
and blocks into it. Text comes as characters: the conversion from the charset of the page to UTF-8
is done before `storeText` and allocation succeeds. A table under construction is an address of the
heap, and a cell of it is the address with the row and the column; a finished table is part of its
block. -/

namespace UnicornSuite.Web

open CInt

/-! ### Blocks -/

inductive HAlign where
  | left | center | right
  deriving DecidableEq

/-- The block types that hold runs. -/
inductive BlockType where
  | para | h (level : Fin 6) | pre | li | dt | dd
  deriving DecidableEq

/-- The inline style bits `STY_*`. -/
structure StyleBits where
  bold : Bool
  italic : Bool
  underline : Bool
  mono : Bool
  link : Bool
  sub : Bool
  sup : Bool
  small : Bool
  deriving DecidableEq

/-- The payload of a `BLK_IMG`. -/
structure WebImage where
  src : String
  alt : String
  href : Option String
  wHint : Int
  hHint : Int

structure WebRun where
  text : List Char
  style : StyleBits
  color : Nat
  sizeDelta : Int
  href : Option String
  imgBlk : Option WebImage

structure WebCell (β : Type) where
  /-- The number of the TD or TH tag among those of the document, which the code does not keep. -/
  number : Nat
  isHeader : Bool
  align : HAlign
  inner : List β

structure WebRow (β : Type) where
  align : HAlign
  cells : List (WebCell β)

structure WebTable (β : Type) where
  align : HAlign
  rows : List (WebRow β)

inductive WebBlock where
  | flow (type : BlockType) (indent : Nat) (align : HAlign) (bulletText : Option String)
      (runs : List WebRun)
  | hr (indent : Nat)
  | img (indent : Nat) (align : HAlign) (image : WebImage)
  | table (indent : Nat) (align : HAlign) (tableData : WebTable WebBlock)

/-! ### Parse state -/

inductive ListKind where
  | ordered | unordered
  deriving DecidableEq

structure StyleState where
  boldDepth : Nat := 0
  italicDepth : Nat := 0
  underlineDepth : Nat := 0
  monoDepth : Nat := 0
  linkDepth : Nat := 0
  subDepth : Nat := 0
  supDepth : Nat := 0
  smallDepth : Nat := 0
  currentHref : Option String := none
  colorStack : List Nat := []
  sizeStack : List Int := []
  indentDepth : Nat := 0
  centerDepth : Nat := 0
  /-- The kind and the counter of the open lists, the innermost first. -/
  listStack : List (ListKind × Nat) := []

inductive ParseMode where
  | normal | inTable | inCell
  deriving DecidableEq

/-- A pointer to a cell of a table under construction. -/
structure CellRef where
  table : Nat
  row : Nat
  cell : Nat

structure WebDoc where
  blocks : List WebBlock := []
  currentType : BlockType := .para
  currentIndent : Nat := 0
  currentAlign : HAlign := .left
  currentBullet : Option String := none
  currentRuns : List WebRun := []
  parseMode : ParseMode := .normal
  /-- The tables under construction by their addresses, and the next free address. -/
  heap : Nat → WebTable WebBlock := fun _ => ⟨.left, []⟩
  nextTable : Nat := 0
  openTable : Option Nat := none
  /-- `table_stack` with `table_parent_cell`, the innermost table first. -/
  tableStack : List (Nat × Option CellRef) := []
  openCell : Option CellRef := none
  inStyle : Nat := 0
  inScript : Nat := 0
  inTitle : Nat := 0
  style : StyleState := {}
  /-- The TD and TH tags so far. -/
  cellTags : Nat := 0

/-- `WEB_STACK` and `WEB_NOCOLOR`. -/
abbrev webStack : Nat := 16

abbrev webNoColor : Nat := 0xFFFFFFFF

/-! ### Style -/

def styleBits (s : StyleState) : StyleBits where
  bold := s.boldDepth > 0
  italic := s.italicDepth > 0
  underline := s.underlineDepth > 0
  mono := s.monoDepth > 0
  link := s.linkDepth > 0
  sub := s.subDepth > 0
  sup := s.supDepth > 0
  small := s.smallDepth > 0

def styleColor (s : StyleState) : Nat := s.colorStack.headD webNoColor

def styleSizeDelta (s : StyleState) : Int := s.sizeStack.headD 0

/-! ### Tables under construction -/

def WebRow.addCell (r : WebRow WebBlock) (c : WebCell WebBlock) : WebRow WebBlock :=
  { r with cells := r.cells ++ [c] }

/-- `webtable_add_row`. -/
def WebTable.addRow (t : WebTable WebBlock) (r : WebRow WebBlock) : WebTable WebBlock :=
  { t with rows := t.rows ++ [r] }

/-- `webrow_add_cell` on the last row. -/
def WebTable.addCell (t : WebTable WebBlock) (c : WebCell WebBlock) : WebTable WebBlock :=
  { t with rows := t.rows.modify (t.rows.length - 1) (·.addCell c) }

def WebCell.append (c : WebCell WebBlock) (b : WebBlock) : WebCell WebBlock :=
  { c with inner := c.inner ++ [b] }

def WebTable.appendTo (t : WebTable WebBlock) (row cell : Nat) (b : WebBlock) : WebTable WebBlock :=
  { t with rows := t.rows.modify row fun r => { r with cells := r.cells.modify cell (·.append b) } }

def cellAlign (heap : Nat → WebTable WebBlock) (c : CellRef) : HAlign :=
  match (heap c.table).rows[c.row]? with
  | some r => (r.cells[c.cell]?).elim .left WebCell.align
  | none => .left

/-! ### Appending -/

/-- `append_block_to_doc`, with the block that the caller fills in. -/
def appendBlock (d : WebDoc) (b : WebBlock) : WebDoc :=
  match d.parseMode, d.openCell with
  | .inCell, some c =>
      { d with heap := Function.update d.heap c.table ((d.heap c.table).appendTo c.row c.cell b) }
  | _, _ => { d with blocks := d.blocks ++ [b] }

/-- The run new text starts. -/
def newRun (s : StyleState) (text : List Char) : WebRun where
  text := text
  style := styleBits s
  color := styleColor s
  sizeDelta := styleSizeDelta s
  href := if s.linkDepth > 0 then s.currentHref else none
  imgBlk := none

/-- The run has the style that is in force. -/
def canMerge (r : WebRun) (s : StyleState) : Bool :=
  r.style = styleBits s ∧ r.color = styleColor s ∧ r.sizeDelta = styleSizeDelta s ∧
    r.href = s.currentHref

/-- `webdoc_store_utf8`. -/
def storeText (d : WebDoc) (text : List Char) : WebDoc :=
  if text = [] then d
  else
    match d.currentRuns.getLast? with
    | some r =>
        if canMerge r d.style then
          { d with currentRuns := d.currentRuns.dropLast ++ [{ r with text := r.text ++ text }] }
        else { d with currentRuns := d.currentRuns ++ [newRun d.style text] }
    | none => { d with currentRuns := d.currentRuns ++ [newRun d.style text] }

/-- `webdoc_append_text`. The text of STYLE goes to the scan for the background colour. -/
def appendText (d : WebDoc) (text : List Char) : WebDoc :=
  if d.inStyle > 0 ∨ d.inScript > 0 ∨ d.inTitle > 0 then d
  else if d.parseMode = .inTable then d
  else storeText d text

/-- Layout white space: the ASCII blanks and the no-break space. -/
def isLayoutWhite (c : Char) : Bool :=
  c = ' ' ∨ c = '\t' ∨ c = '\n' ∨ c = '\r' ∨ c = '\u00A0'

/-- An inline image is content. -/
def runsAllWhitespace (runs : List WebRun) : Bool :=
  runs.all fun r => r.imgBlk.isNone && r.text.all isLayoutWhite

/-- List items and headings are kept without content. -/
def keptEmpty : BlockType → Bool
  | .li | .h _ => true
  | _ => false

def totalLen (runs : List WebRun) : Nat := (runs.map (·.text.length)).sum

def dropCurrent (d : WebDoc) : WebDoc := { d with currentRuns := [], currentBullet := none }

/-- `webdoc_flush_current`. -/
def flushCurrent (d : WebDoc) : WebDoc :=
  if (totalLen d.currentRuns = 0 ∨ runsAllWhitespace d.currentRuns) ∧ ¬keptEmpty d.currentType then
    dropCurrent d
  else
    dropCurrent (appendBlock d
      (.flow d.currentType d.currentIndent d.currentAlign d.currentBullet d.currentRuns))

def ambientAlign (s : StyleState) : HAlign := if s.centerDepth > 0 then .center else .left

/-- `webdoc_start_block`. -/
def startBlock (d : WebDoc) (type : BlockType) : WebDoc :=
  let d := flushCurrent d
  { d with
    currentType := type
    currentIndent := d.style.indentDepth
    currentAlign := ambientAlign d.style
    currentBullet := none }

/-- The bullet of a list item and the lists with the counter it takes. -/
def liBullet : List (ListKind × Nat) → String × List (ListKind × Nat)
  | (.ordered, n) :: rest => (toString n ++ ". ", (.ordered, n + 1) :: rest)
  | lists => ("\u2022 ", lists)

/-- `webdoc_start_li`. -/
def startLi (d : WebDoc) : WebDoc :=
  let d := flushCurrent d
  { d with
    currentType := .li
    currentIndent := d.style.indentDepth
    currentAlign := .left
    currentBullet := some (liBullet d.style.listStack).1
    style.listStack := (liBullet d.style.listStack).2 }

/-- `webdoc_emit_hr`. -/
def emitHr (d : WebDoc) : WebDoc :=
  let d := flushCurrent d
  { appendBlock d (.hr d.style.indentDepth) with currentType := .para }

/-- The enclosing link of an image. -/
def imageHref (s : StyleState) : Option String := if s.linkDepth > 0 then s.currentHref else none

/-- `webdoc_emit_image`. -/
def emitImage (d : WebDoc) (src alt : String) (w h : Int) : WebDoc :=
  let d := flushCurrent d
  let image : WebImage := ⟨src, alt, imageHref d.style, w, h⟩
  { appendBlock d (.img d.style.indentDepth (ambientAlign d.style) image) with currentType := .para }

/-- `webdoc_add_image_run`. The run is zeroed but for the image and the link. -/
def addImageRun (d : WebDoc) (src alt : String) (w h : Int) : WebDoc :=
  let run : WebRun :=
    { text := []
      style := ⟨false, false, false, false, false, false, false, false⟩
      color := 0, sizeDelta := 0
      href := imageHref d.style
      imgBlk := some ⟨src, alt, imageHref d.style, w, h⟩ }
  { d with currentRuns := d.currentRuns ++ [run] }

end UnicornSuite.Web
