import UnicornSuite.WebLines
import Mathlib.Algebra.BigOperators.Intervals
import Mathlib.Algebra.Order.BigOperators.Group.Finset

/-! The widths of the contents of a table (`web_blocks_min_width`, `web_blocks_natural_width`), the widths
of its columns (`web_render_table`, passes 1a to 1c) and of the table as a whole
(`web_table_intrinsic_width`). An array over the columns is a function of the column; the loops over the
cells fill several arrays at once that do not depend on each other, here each has its own. -/

namespace UnicornSuite.WebLayout

open CText Web Finset

/-! ### Contents -/

section

variable (m : Metrics)

def Image.blockW (i : Image) : Int :=
  let w := if i.wHint > 0 then i.wHint else i.wActual
  if w ≤ 0 then 100 else w

/-- The larger of two widths. -/
def widest (w maxW : Int) : Int := if w > maxW then w else maxW

/-- The widest line of a BLK_PRE, run by run: `lineW` is what the line has so far. -/
def minPre (f : Font) : Nat → CString → Int → Int → Int
  | 0, _, lineW, maxW => widest lineW maxW
  | _ + 1, [], lineW, maxW => widest lineW maxW
  | rounds + 1, c :: rest, lineW, maxW =>
      if c = newline then minPre f rounds rest 0 (widest lineW maxW)
      else
        minPre f rounds ((c :: rest).dropWhile (· ≠ newline))
          (lineW + m.wordW f ((c :: rest).takeWhile (· ≠ newline))) maxW

/-- White space and newlines are passed over. -/
def skipBreaks : Nat → CString → CString
  | 0, s => s
  | rounds + 1, s =>
      if s.head? = some newline then skipBreaks rounds s.tail
      else if layoutSpaceLen s > 0 then skipBreaks rounds (s.drop (layoutSpaceLen s))
      else s

/-- The widest word. -/
def minWords (f : Font) : Nat → CString → Int → Int
  | 0, _, maxW => maxW
  | rounds + 1, s, maxW =>
      if s = [] then maxW
      else
        let word := takeWord (skipBreaks s.length s)
        minWords f rounds word.2 (if word.1 ≠ [] then widest (m.wordW f word.1) maxW else maxW)

/-- A run of a block, in `web_blocks_min_width`. -/
def minRun (type : BlockType) (maxW : Int) (r : Run) : Int :=
  match r.imgBlk with
  | some i => widest i.inlineW maxW
  | none =>
      let f : Font := ⟨type, r.style, r.sizeDelta⟩
      if type = .pre then minPre m f r.text.length r.text 0 maxW
      else minWords m f r.text.length r.text maxW

def bulletW (type : BlockType) (bulletText : Option CString) : Int :=
  match bulletText with
  | none => 0
  | some s => m.wordW ⟨type, plain, 0⟩ s

def minFlow (type : BlockType) (bulletText : Option CString) (runs : List Run) (maxW : Int) : Int :=
  runs.foldl (minRun m type) (match bulletText with
    | none => maxW
    | some _ => widest (bulletW m type bulletText) maxW)

/-- The lines of a text in `web_blocks_natural_width`: the width of the line so far, and the widest. -/
def natText (f : Font) : Nat → CString → Int × Int → Int × Int
  | 0, _, w => w
  | _ + 1, [], w => w
  | rounds + 1, c :: rest, (lineW, maxW) =>
      if c = newline then natText f rounds rest (0, widest lineW maxW)
      else
        let skipped := skipSpaces (c :: rest)
        let word := takeWord skipped.2
        natText f rounds word.2 (lineW + m.spaceW f * skipped.1 + m.wordW f word.1, maxW)

def natRun (type : BlockType) (w : Int × Int) (r : Run) : Int × Int :=
  match r.imgBlk with
  | some i => (w.1 + i.inlineW, w.2)
  | none => natText m ⟨type, r.style, r.sizeDelta⟩ r.text.length r.text w

def natFlow (type : BlockType) (bulletText : Option CString) (runs : List Run) (maxW : Int) : Int :=
  let w := runs.foldl (natRun m type) (bulletW m type bulletText, maxW)
  widest w.1 w.2

end

/-! ### Columns -/

/-- What the column passes read of a cell: its attributes, and the two widths of its contents. -/
structure CellSpec where
  colspan : Int
  widthPx : Int
  min : Int
  nat : Int

/-- The columns that a cell covers. -/
def spanOf (colspan : Int) : Nat := if colspan > 0 then colspan.toNat else 1

abbrev CellSpec.span (c : CellSpec) : Nat := spanOf c.colspan

/-- The columns of a table: those of its widest row. -/
def columnCount (rows : List (List CellSpec)) : Nat :=
  rows.foldl (fun n cells => if (cells.map CellSpec.span).sum > n then (cells.map CellSpec.span).sum else n) 0

/-- The cells of a row that stand in one column, from the column `col` on. -/
def singlesRow (ncols : Nat) (want : CellSpec → Int) : List CellSpec → Nat → (Nat → Int) → Nat → Int
  | [], _, w => w
  | c :: cells, col, w =>
      if col < ncols then
        singlesRow ncols want cells (col + c.span)
          (if c.span = 1 ∧ want c > w col then Function.update w col (want c) else w)
      else w

/-- The columns `col` to `stop` are widened to `want` together, the remainder to the last of them. -/
def spread (w : Nat → Int) (col stop : Nat) (want : Int) : Nat → Int :=
  let cur := ∑ k ∈ Ico col stop, w k
  if want > cur ∧ stop > col then
    let add := want - cur
    let n : Int := (stop - col : Nat)
    let each := add.tdiv n
    fun k =>
      if col ≤ k ∧ k < stop then (if k = stop - 1 then w k + each + (add - each * n) else w k + each)
      else w k
  else w

/-- The cells of a row that span columns. -/
def spansRow (ncols : Nat) (want : CellSpec → Int) : List CellSpec → Nat → (Nat → Int) → Nat → Int
  | [], _, w => w
  | c :: cells, col, w =>
      if col < ncols then
        spansRow ncols want cells (col + c.span)
          (if c.span > 1 then spread w col (if col + c.span > ncols then ncols else col + c.span) (want c) else w)
      else w

def singles (ncols : Nat) (want : CellSpec → Int) (rows : List (List CellSpec)) : Nat → Int :=
  rows.foldl (fun w cells => singlesRow ncols want cells 0 w) 0

def spans (ncols : Nat) (want : CellSpec → Int) (rows : List (List CellSpec)) (w : Nat → Int) : Nat → Int :=
  rows.foldl (fun w cells => spansRow ncols want cells 0 w) w

/-- The preferred width of a cell; an explicit width counts where the cell spans columns. -/
def CellSpec.pref (c : CellSpec) : Int := if c.nat < c.min then c.min else c.nat

def CellSpec.spanPref (c : CellSpec) : Int :=
  if c.widthPx > 0 ∧ c.widthPx > c.pref then c.widthPx else c.pref

/-- `minW`, `prefW` and `colTgt`. -/
def minW (rows : List (List CellSpec)) : Nat → Int :=
  spans (columnCount rows) CellSpec.min rows (singles (columnCount rows) CellSpec.min rows)

def prefW (rows : List (List CellSpec)) : Nat → Int :=
  spans (columnCount rows) CellSpec.spanPref rows (singles (columnCount rows) CellSpec.pref rows)

def colTgt (rows : List (List CellSpec)) : Nat → Int := singles (columnCount rows) CellSpec.widthPx rows

/-- What a column wants. -/
def desired (rows : List (List CellSpec)) (c : Nat) : Int :=
  let d := prefW rows c
  let d := if colTgt rows c > d then colTgt rows c else d
  if d < minW rows c then minW rows c else d

/-- The last column without an explicit width. -/
def lastAuto (tgt : Nat → Int) : Nat → Option Nat
  | 0 => none
  | n + 1 => if tgt n = 0 then some n else lastAuto tgt n

/-- The columns of `grows` share `extra` in proportion to their widths, and `last` takes the remainder. -/
def grow (ncols : Nat) (d : Nat → Int) (grows : Nat → Prop) [DecidablePred grows] (total extra : Int)
    (last : Option Nat) : Nat → Int :=
  let given := ∑ c ∈ (range ncols).filter grows, (extra * d c).tdiv total
  fun c =>
    let w := if grows c then d c + (extra * d c).tdiv total else d c
    if last = some c then w + (extra - given) else w

/-- Pass 1c: the widths of the columns in a budget. -/
def resolve (rows : List (List CellSpec)) (explicitW : Bool) (budget : Int) : Nat → Int :=
  let ncols := columnCount rows
  let sumMin := ∑ c ∈ range ncols, minW rows c
  let sumDesired := ∑ c ∈ range ncols, desired rows c
  if sumDesired ≤ budget then
    if explicitW ∧ sumDesired > 0 ∧ budget > sumDesired then
      let extra := budget - sumDesired
      let autoSum := ∑ c ∈ (range ncols).filter (fun c => colTgt rows c = 0), desired rows c
      if autoSum > 0 then
        grow ncols (desired rows) (fun c => colTgt rows c = 0) autoSum extra (lastAuto (colTgt rows) ncols)
      else grow ncols (desired rows) (fun _ => True) sumDesired extra (some (ncols - 1))
    else desired rows
  else if sumMin ≥ budget then minW rows
  else
    let span := sumDesired - sumMin
    let room := budget - sumMin
    fun c => minW rows c + ((desired rows c - minW rows c) * room).tdiv (if span > 0 then span else 1)

/-! ### Tables -/

/-- The padding and the spacing, with their defaults. -/
def padOf (cellpadding : Int) : Int := if cellpadding ≥ 0 then cellpadding else 1

def spcOf (cellspacing : Int) : Int := if cellspacing ≥ 0 then cellspacing else 2

def Table.pad {β : Type} (t : Table β) : Int := padOf t.cellpadding

def Table.spc {β : Type} (t : Table β) : Int := spcOf t.cellspacing

def chromeOf (pad spc : Int) (ncols : Nat) : Int := spc * (ncols + 1) + 2 * pad * ncols

def Table.chrome {β : Type} (t : Table β) (ncols : Nat) : Int := chromeOf t.pad t.spc ncols

/-- The table has a width of its own. -/
def Table.explicitW {β : Type} (t : Table β) : Bool := t.widthPx > 0 ∨ t.widthPct > 0

/-- The width asked for, in the width there is. -/
def Table.wtarget {β : Type} (t : Table β) (avail : Int) : Int :=
  let w := if t.widthPx > 0 then t.widthPx else if t.widthPct > 0 then (avail * t.widthPct).tdiv 100 else avail
  let w := if w > avail then avail else w
  if w < 1 then 1 else w

/-- What the columns may take together. -/
def Table.budget {β : Type} (t : Table β) (ncols : Nat) (width : Int) : Int :=
  let avail := if width < 1 then 1 else width
  let b := (if t.explicitW then t.wtarget avail else avail) - t.chrome ncols
  if b < ncols * 4 then ncols * 4 else b

/-- The width of a cell in `web_table_intrinsic_width`. -/
def CellSpec.intrinsic (wantMin : Bool) (c : CellSpec) : Int :=
  let w := if wantMin then c.min else c.nat
  if c.widthPx > 0 ∧ c.widthPx > w then c.widthPx else w

/-- `web_table_intrinsic_width`, of the widths of the cells. -/
def intrinsicWidth (pad spc : Int) (rows : List (List CellSpec)) (wantMin : Bool) : Int :=
  let ncols := columnCount rows
  if ncols = 0 then 0
  else
    let cw := spans ncols (CellSpec.intrinsic wantMin) rows (singles ncols (CellSpec.intrinsic wantMin) rows)
    ∑ c ∈ range ncols, cw c + chromeOf pad spc ncols

section

variable (m : Metrics)

def atLeast (least w : Int) : Int := if w < least then least else w

mutual

/-- The loop of `web_blocks_min_width`, with the widest so far. -/
def minBlocks : List Block → Int → Int
  | [], maxW => maxW
  | .flow type _ _ bulletText runs :: blks, maxW => minBlocks blks (minFlow m type bulletText runs maxW)
  | .hr _ _ :: blks, maxW => minBlocks blks maxW
  | .img _ _ image :: blks, maxW => minBlocks blks (widest image.blockW maxW)
  | .table _ _ ⟨rows, _, _, _, _, cellpadding, cellspacing⟩ :: blks, maxW =>
      minBlocks blks (widest (intrinsicWidth (padOf cellpadding) (spcOf cellspacing) (rowSpecs rows) true) maxW)

/-- The loop of `web_blocks_natural_width`. -/
def natBlocks : List Block → Int → Int
  | [], maxW => maxW
  | .flow type _ _ bulletText runs :: blks, maxW => natBlocks blks (natFlow m type bulletText runs maxW)
  | .hr _ _ :: blks, maxW => natBlocks blks (widest 0 maxW)
  | .img _ _ image :: blks, maxW => natBlocks blks (widest image.blockW maxW)
  | .table _ _ ⟨rows, _, _, _, _, cellpadding, cellspacing⟩ :: blks, maxW =>
      natBlocks blks (widest (intrinsicWidth (padOf cellpadding) (spcOf cellspacing) (rowSpecs rows) false) maxW)

def rowSpecs : List (Row Block) → List (List CellSpec)
  | [] => []
  | ⟨cells, _⟩ :: rows => cellSpecs cells :: rowSpecs rows

def cellSpecs : List (Cell Block) → List CellSpec
  | [] => []
  | ⟨inner, colspan, _, _, widthPx⟩ :: cells =>
      ⟨colspan, widthPx, atLeast 8 (minBlocks inner 0), atLeast 20 (natBlocks inner 0)⟩ :: cellSpecs cells

end

/-- `web_blocks_min_width` -/
def blocksMinWidth (blks : List Block) : Int := atLeast 8 (minBlocks m blks 0)

/-- `web_blocks_natural_width` -/
def blocksNaturalWidth (blks : List Block) : Int := atLeast 20 (natBlocks m blks 0)

/-- `web_table_intrinsic_width` -/
def tableIntrinsicWidth (t : Table Block) (wantMin : Bool) : Int :=
  intrinsicWidth t.pad t.spc (rowSpecs m t.rows) wantMin

/-- The widths of the columns of a table that is `width` wide at most. -/
def tableColumns (t : Table Block) (width : Int) : Nat → Int :=
  resolve (rowSpecs m t.rows) t.explicitW (t.budget (columnCount (rowSpecs m t.rows)) width)

end

end UnicornSuite.WebLayout
