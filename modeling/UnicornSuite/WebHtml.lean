import UnicornSuite.LibRun
import UnicornSuite.WebDocument

/-! The callbacks the SGML parser makes while it reads a page: `web_HText_beginElement`,
`web_HText_endElement`, `web_HText_addText` and `web_HText_build`. Attribute values come as the
parse functions for colours, sizes and numbers read them. META, BODY and the elements the switch does
not name leave the document as it is. -/

namespace UnicornSuite.Web

open CInt Machine

/-! ### Events -/

inductive Element where
  | style | script | title
  | p | div | blockquote | center | h (level : Fin 6) | pre | br | hr
  | b | strong | i | em | u | tt | code | kbd | samp | sub | sup | small
  | a | font
  | ul | ol | li | dl | dt | dd
  | table | caption | tr | td | th
  | img
  | other
  deriving DecidableEq

/-- The SIZE of FONT: a number from 1 to 7, or one with a sign. -/
inductive FontSize where
  | absolute (val : Int)
  | relative (plus : Bool) (val : Int)

/-- The attributes a handler looks at. An ALIGN it does not know counts as none. -/
structure Attrs where
  align : Option HAlign := none
  href : Option String := none
  color : Option Nat := none
  size : Option FontSize := none
  monoFace : Bool := false
  src : Option String := none
  alt : String := ""
  width : Int := 0
  height : Int := 0

inductive Event where
  | start (e : Element) (a : Attrs)
  | stop (e : Element)
  | text (s : List Char)

/-! ### Start tags -/

def onStyle (d : WebDoc) (f : StyleState → StyleState) : WebDoc := { d with style := f d.style }

/-- `parse_font_size_delta` on a size that is there. -/
def fontSizeDelta (prev : Int) : FontSize → Int
  | .absolute val => (if val < 1 then 1 else if val > 7 then 7 else val) - 3
  | .relative plus val => wrap32 (if plus then prev + val else prev - val)

/-- A stack of the style takes sixteen values and leaves out further ones. -/
def pushCapped {α : Type} (stack : List α) (v : α) : List α :=
  if stack.length < webStack then v :: stack else stack

def beginFont (s : StyleState) (a : Attrs) : StyleState :=
  { s with
    monoDepth := if a.monoFace then s.monoDepth + 1 else s.monoDepth
    colorStack := pushCapped s.colorStack (a.color.getD webNoColor)
    sizeStack := pushCapped s.sizeStack
      (a.size.elim (styleSizeDelta s) (fontSizeDelta (styleSizeDelta s))) }

def beginAnchor (s : StyleState) (a : Attrs) : StyleState :=
  { s with currentHref := a.href <|> s.currentHref, linkDepth := s.linkDepth + 1 }

def beginList (s : StyleState) (kind : ListKind) : StyleState :=
  { s with listStack := pushCapped s.listStack (kind, 1), indentDepth := s.indentDepth + 1 }

/-- An ALIGN of the tag goes before the one in force. -/
def alignBlock (d : WebDoc) (a : Attrs) : WebDoc :=
  { d with currentAlign := a.align.getD d.currentAlign }

def beginTable (d : WebDoc) (a : Attrs) : WebDoc :=
  let d := flushCurrent d
  let t := d.nextTable
  { d with
    heap := Function.update d.heap t ⟨a.align.getD .left, []⟩
    nextTable := t + 1
    tableStack :=
      if d.tableStack.length < webStack then (t, d.openCell) :: d.tableStack else d.tableStack
    openTable := some t
    openCell := none
    parseMode := .inTable }

def beginCaption (d : WebDoc) : WebDoc :=
  let d := startBlock d .para
  onStyle d fun s => { s with centerDepth := if s.centerDepth = 0 then 1 else s.centerDepth }

def beginRow (d : WebDoc) (a : Attrs) : WebDoc :=
  match d.openTable with
  | some t =>
      { d with
        heap := Function.update d.heap t ((d.heap t).addRow ⟨a.align.getD .left, []⟩)
        parseMode := .inTable }
  | none => d

/-- The alignment of a cell: its own, else that of the row, and TH is centered by default. -/
def cellAlignOf (row : WebRow WebBlock) (isHeader : Bool) (a : Attrs) : HAlign :=
  a.align.getD (if row.align = .left ∧ isHeader then .center else row.align)

/-- TD and TH open a cell of the last row of the open table. Pending runs stay pending. -/
def openCellIn (d : WebDoc) (t : Nat) (row : WebRow WebBlock) (number : Nat) (isHeader : Bool)
    (a : Attrs) : WebDoc :=
  let align := cellAlignOf row isHeader a
  { d with
    heap := Function.update d.heap t ((d.heap t).addCell ⟨number, isHeader, align, []⟩)
    openCell := some ⟨t, (d.heap t).rows.length - 1, row.cells.length⟩
    parseMode := .inCell
    currentType := if isHeader then .h 3 else .para
    currentIndent := 0
    currentAlign := align }

def beginCell (d : WebDoc) (isHeader : Bool) (a : Attrs) : WebDoc :=
  let number := d.cellTags
  let d := { d with cellTags := number + 1 }
  match d.openTable with
  | some t =>
      match (d.heap t).rows.getLast? with
      | some row => openCellIn d t row number isHeader a
      | none => d
  | none => d

/-- An image behind pending text is part of the line, any other a block of its own. -/
def beginImage (d : WebDoc) (a : Attrs) : WebDoc :=
  match a.src with
  | some src =>
      if d.currentRuns ≠ [] ∧ ¬runsAllWhitespace d.currentRuns then
        addImageRun d src a.alt a.width a.height
      else emitImage d src a.alt a.width a.height
  | none => d

def beginElement (d : WebDoc) (e : Element) (a : Attrs) : WebDoc :=
  match e with
  | .style => { d with inStyle := d.inStyle + 1 }
  | .script => { d with inScript := d.inScript + 1 }
  | .title => { d with inTitle := d.inTitle + 1 }
  | .p | .div => alignBlock (startBlock d .para) a
  | .blockquote =>
      startBlock (onStyle d fun s => { s with indentDepth := s.indentDepth + 1 }) .para
  | .center => startBlock (onStyle d fun s => { s with centerDepth := s.centerDepth + 1 }) .para
  | .h level => alignBlock (startBlock d (.h level)) a
  | .pre => startBlock d .pre
  | .br => appendText d ['\n']
  | .hr => emitHr d
  | .b | .strong => onStyle d fun s => { s with boldDepth := s.boldDepth + 1 }
  | .i | .em => onStyle d fun s => { s with italicDepth := s.italicDepth + 1 }
  | .u => onStyle d fun s => { s with underlineDepth := s.underlineDepth + 1 }
  | .tt | .code | .kbd | .samp => onStyle d fun s => { s with monoDepth := s.monoDepth + 1 }
  | .sub => onStyle d fun s => { s with subDepth := s.subDepth + 1 }
  | .sup => onStyle d fun s => { s with supDepth := s.supDepth + 1 }
  | .small => onStyle d fun s => { s with smallDepth := s.smallDepth + 1 }
  | .a => onStyle d (beginAnchor · a)
  | .font => onStyle d (beginFont · a)
  | .ul => onStyle d (beginList · .unordered)
  | .ol => onStyle d (beginList · .ordered)
  | .li => startLi d
  | .dl => onStyle d fun s => { s with indentDepth := s.indentDepth + 1 }
  | .dt => startBlock d .dt
  | .dd => startBlock (onStyle d fun s => { s with indentDepth := s.indentDepth + 1 }) .dd
  | .table => beginTable d a
  | .caption => beginCaption d
  | .tr => beginRow d a
  | .td => beginCell d false a
  | .th => beginCell d true a
  | .img => beginImage d a
  | .other => d

/-! ### End tags -/

/-- The link ends with the outermost A. -/
def endAnchor (s : StyleState) : StyleState :=
  { s with
    linkDepth := s.linkDepth - 1
    currentHref := if s.linkDepth - 1 = 0 then none else s.currentHref }

def endFont (s : StyleState) : StyleState :=
  { s with colorStack := s.colorStack.tail, sizeStack := s.sizeStack.tail }

def endList (s : StyleState) : StyleState :=
  { s with listStack := s.listStack.tail, indentDepth := s.indentDepth - 1 }

/-- The parser is back where the table was opened. -/
def leaveTable (d : WebDoc) (parent : Option CellRef) (rest : List (Nat × Option CellRef)) :
    WebDoc :=
  { d with
    tableStack := rest
    openTable := rest.head?.map Prod.fst
    openCell := parent
    parseMode := if parent.isSome then .inCell else if rest ≠ [] then .inTable else .normal }

/-- The alignment of a finished table: its own, else that of its cell, else the ambient one. -/
def tableAlign (d : WebDoc) (t : WebTable WebBlock) (parent : Option CellRef) : HAlign :=
  if t.align ≠ .left then t.align
  else parent.elim (ambientAlign d.style) (cellAlign d.heap)

def endTable (d : WebDoc) : WebDoc :=
  let d := flushCurrent d
  match d.tableStack with
  | [] => d
  | (t, parent) :: rest =>
      let d := leaveTable d parent rest
      let b := WebBlock.table d.style.indentDepth (tableAlign d (d.heap t) parent) (d.heap t)
      { appendBlock d b with currentType := .para }

def endCaption (d : WebDoc) : WebDoc :=
  startBlock (onStyle d fun s => { s with centerDepth := s.centerDepth - 1 }) .para

def endCell (d : WebDoc) : WebDoc :=
  match d.openCell with
  | some _ =>
      { flushCurrent d with
        openCell := none
        parseMode := if d.openTable.isSome then .inTable else .normal
        currentType := .para }
  | none => d

def endElement (d : WebDoc) (e : Element) : WebDoc :=
  match e with
  | .style => { d with inStyle := d.inStyle - 1 }
  | .script => { d with inScript := d.inScript - 1 }
  | .title => { d with inTitle := d.inTitle - 1 }
  | .p | .div | .h _ | .pre | .li | .dt => startBlock d .para
  | .blockquote | .dl | .dd =>
      startBlock (onStyle d fun s => { s with indentDepth := s.indentDepth - 1 }) .para
  | .center => startBlock (onStyle d fun s => { s with centerDepth := s.centerDepth - 1 }) .para
  | .b | .strong => onStyle d fun s => { s with boldDepth := s.boldDepth - 1 }
  | .i | .em => onStyle d fun s => { s with italicDepth := s.italicDepth - 1 }
  | .u => onStyle d fun s => { s with underlineDepth := s.underlineDepth - 1 }
  | .tt | .code | .kbd | .samp => onStyle d fun s => { s with monoDepth := s.monoDepth - 1 }
  | .sub => onStyle d fun s => { s with subDepth := s.subDepth - 1 }
  | .sup => onStyle d fun s => { s with supDepth := s.supDepth - 1 }
  | .small => onStyle d fun s => { s with smallDepth := s.smallDepth - 1 }
  | .a => onStyle d endAnchor
  | .font => onStyle d endFont
  | .ul | .ol => startBlock (onStyle d endList) .para
  | .table => endTable d
  | .caption => endCaption d
  | .td | .th => endCell d
  | .br | .hr | .tr | .img | .other => d

/-! ### The document of a page -/

def onEvent (d : WebDoc) : Event → WebDoc
  | .start e a => beginElement d e a
  | .stop e => endElement d e
  | .text s => appendText d s

/-- The document after the events of a page, with `HTEXT_END` at its end. -/
def build (evs : List Event) : WebDoc := flushCurrent (run onEvent {} evs)

end UnicornSuite.Web
