import UnicornSuite.WebWidths

/-! The renderer of the browser (`web_render_image`, `web_render_table`, `web_render_block_into`,
`web_paint_to`). A pass goes through the blocks with the view, and either measures or paints; a cell lends
its alignment to the blocks in it for the time of the call, so that the alignment is an argument. -/

namespace UnicornSuite.WebLayout

open CText Web

/-! ### Margins -/

/-- The types of blocks. -/
inductive Kind where
  | text (type : BlockType)
  | hr
  | img
  | table
  deriving DecidableEq

def Block.kind : Block → Kind
  | .flow type _ _ _ _ => .text type
  | .hr _ _ => .hr
  | .img _ _ _ => .img
  | .table _ _ _ => .table

/-- `web_block_top_gap` -/
def topGap (suppress : Nat) (k : Kind) : Int :=
  if suppress > 0 then 0
  else
    match k with
    | .text (.h level) => [20, 14, 12, 10, 8, 8].getD level.val 0
    | .text .para => 0
    | .text .li => 0
    | .text .dt => 6
    | .text .dd => 0
    | .hr => 6
    | .text .pre => 10
    | .img => 4
    | .table => 10

/-- `web_block_bottom_gap` -/
def bottomGap (suppress : Nat) (k : Kind) : Int :=
  if suppress > 0 then 0
  else
    match k with
    | .text (.h level) => [8, 10, 8, 6, 4, 4].getD level.val 0
    | .text .para => 12
    | .text .li => 2
    | .text .dt => 2
    | .text .dd => 4
    | .hr => 6
    | .text .pre => 10
    | .img => 8
    | .table => 10

abbrev indentPx : Int := 24

/-- What `web_render_block_into` does around the renderer of the block: the margins, and the mark of a
BLK_PRE. -/
def inMargins (k : Kind) (v : View) (y : Int) (body : View → Int → View × Int) : View × Int :=
  let savedIsPre := v.curIsPre
  let r := body { v with curIsPre := k = .text .pre } (y + topGap v.gapSuppress k)
  ({ r.1 with curIsPre := savedIsPre }, r.2 + bottomGap r.1.gapSuppress k)

/-- The width of a block in its indentation. -/
def innerWidth (indent width : Int) : Int :=
  let w := width - indent * indentPx
  if w < 60 then 60 else w

/-! ### Images -/

/-- The size of an image in a width. -/
def Image.size (i : Image) (width : Int) : Int × Int :=
  let w := if i.wHint > 0 then i.wHint else i.wActual
  let h := if i.hHint > 0 then i.hHint else i.hActual
  let w := if w ≤ 0 then 100 else w
  let h := if h ≤ 0 then 60 else h
  if w > width then (width, (h * width).tdiv w) else (w, h)

/-- The text in place of an image that is not decoded; it is taken to fit the buffer of the code. -/
def Image.placeholder (i : Image) : CString :=
  let alt := match i.alt with
    | some (c :: alt) => c :: alt
    | _ => i.src.getD []
  ascii "[image: " ++ alt ++ ascii "]"

def italic : StyleBits := { plain with italic := true }

/-- `web_render_image` -/
def renderImage (m : Metrics) (v : View) (i : Image) (align : HAlign) (x0 y width : Int)
    (measureOnly : Bool) : View × Int :=
  let size := i.size width
  let x := startX align x0 width size.1
  if i.hbm then
    let v :=
      if measureOnly then v
      else addLinkRect (v.draw (.image x y size.1 size.2)) x y size.1 size.2 i.href
    (v, y + size.2)
  else
    let f : Font := ⟨.para, italic, 0⟩
    let th : Int := m.textH f
    let v :=
      if measureOnly then v
      else
        let tw := m.wordW f i.placeholder
        addLinkRect (v.draw (.text x0 y tw f i.placeholder (rgb 120 120 120))) x0 y tw th i.href
    (v, y + th)

/-! ### Tables -/

/-- `web_cell_box_w` -/
def cellBoxW (colW : Nat → Int) (ncols col s : Nat) (pad spc : Int) : Int :=
  ∑ k ∈ (Finset.Ico col (col + s)).filter (· < ncols), colW k + 2 * pad * s + spc * ((s : Int) - 1)

/-- What the passes over the cells of a table read of it: its columns, and where it stands. -/
structure Grid where
  ncols : Nat
  pad : Int
  spc : Int
  colW : Nat → Int
  x : Int
  y : Int
  bgcolor : Nat
  bodyBg : Nat

def Grid.boxW (g : Grid) (col s : Nat) : Int := cellBoxW g.colW g.ncols col s g.pad g.spc

/-- The width of the contents of a cell. -/
def Grid.contentW (g : Grid) (col s : Nat) : Int := g.boxW col s - 2 * g.pad

/-- The color of a cell: its own, or that of the row, or that of the page over the backdrop of a table. -/
def Grid.fillCol (g : Grid) (cellBg rowBg : Nat) : Nat :=
  if cellBg ≠ webNoColor then cellBg
  else if rowBg ≠ webNoColor then rowBg
  else if g.bgcolor ≠ webNoColor then g.bodyBg
  else webNoColor

def View.fill (v : View) (left top right bottom : Int) (col : Nat) : View :=
  if col = webNoColor then v else v.draw (.fill left top right bottom col)

/-- Five points of a rectangle. -/
def View.outline (v : View) (left top right bottom : Int) : View :=
  let col := rgb 128 128 128
  (((v.draw (.line left top right top col)).draw (.line right top right bottom col)).draw
    (.line right bottom left bottom col)).draw (.line left bottom left top col)

def outlineCells (g : Grid) (rt rowH : Int) : List CellSpec → Nat → Int → View → View
  | [], _, _, v => v
  | c :: cells, col, cx, v =>
      if col < g.ncols then
        outlineCells g rt rowH cells (col + c.span) (cx + (g.boxW col c.span + g.spc))
          (v.outline cx rt (cx + g.boxW col c.span) (rt + rowH))
      else v

def outlineRows (g : Grid) : List (List CellSpec) → List Int → Int → View → View
  | cells :: rows, rowH :: rowHs, rt, v =>
      outlineRows g rows rowHs (rt + (rowH + g.spc)) (outlineCells g rt rowH cells 0 (g.x + g.spc) v)
  | _, _, _, v => v

def defaultBg : Nat := rgb 192 192 192

/-- The color of the page. -/
def View.bodyBg (v : View) : Nat :=
  match v.viewDoc with
  | some doc => if doc.bodyBg ≠ webNoColor then doc.bodyBg else defaultBg
  | none => defaultBg

/-- The counters of the selection as they were. -/
def View.restore (v saved : View) : View :=
  { v with
    selMap := v.selMap.take saved.selMap.length, curBlockIdx := saved.curBlockIdx
    curLineIdx := saved.curLineIdx, curIsPre := saved.curIsPre }

def View.suppress (v : View) : View := { v with gapSuppress := v.gapSuppress + 1 }

def View.allow (v : View) : View := { v with gapSuppress := v.gapSuppress - 1 }

/-- The alignment of a block in a cell. -/
def lentAlign (cellAlign align : HAlign) : HAlign :=
  if cellAlign ≠ .left ∧ align = .left then cellAlign else align

/-- The cells of a table that is laid out in a width. -/
def tableGrid (m : Metrics) (t : Table Block) (align : HAlign) (x0 y width : Int) (v : View) : Grid :=
  let ncols := columnCount (rowSpecs m t.rows)
  let colW := tableColumns m t width
  let tableW := ∑ c ∈ Finset.range ncols, colW c + t.chrome ncols
  ⟨ncols, t.pad, t.spc, colW, startX align x0 width tableW, y, t.bgcolor, v.bodyBg⟩

def Grid.tableW (g : Grid) : Int :=
  ∑ c ∈ Finset.range g.ncols, g.colW c + chromeOf g.pad g.spc g.ncols

def Grid.totalH (g : Grid) (rowHs : List Int) : Int := g.spc * (rowHs.length + 1) + rowHs.sum

section

variable (m : Metrics)

mutual

/-- `web_render_block_into` for a block with the alignment `align`: the view, and where the next block
begins. -/
def renderBlockInto (align : HAlign) : Block → Int → Int → Int → Bool → View → View × Int
  | .flow type indent _ bulletText runs, x0, y, width, measureOnly, v =>
      inMargins (.text type) v y fun v y =>
        renderTextBlock m v type align bulletText runs (x0 + indent * indentPx) y (innerWidth indent width)
          measureOnly
  | .hr indent _, x0, y, width, measureOnly, v =>
      inMargins .hr v y fun v y =>
        let x := x0 + indent * indentPx
        (if measureOnly then v
          else v.draw (.line x (y + 4) (x + innerWidth indent width) (y + 4) (rgb 128 128 128)), y + 8)
  | .img indent _ image, x0, y, width, measureOnly, v =>
      inMargins .img v y fun v y =>
        renderImage m v image align (x0 + indent * indentPx) y (innerWidth indent width) measureOnly
  | .table indent _ t, x0, y, width, measureOnly, v =>
      inMargins .table v y fun v y =>
        renderTable align t (x0 + indent * indentPx) y (innerWidth indent width) measureOnly v

/-- `web_render_table` -/
def renderTable (align : HAlign) : Table Block → Int → Int → Int → Bool → View → View × Int
  | ⟨rows, border, bgcolor, widthPx, widthPct, cellpadding, cellspacing⟩, x0, y, width, measureOnly, v =>
      let t : Table Block := ⟨rows, border, bgcolor, widthPx, widthPct, cellpadding, cellspacing⟩
      let g := tableGrid m t align x0 y width v
      if g.ncols = 0 then (v, y)
      else
        -- pass 2a: the heights of the rows
        let heights := rowHeights g rows v.suppress
        let v := heights.1.allow.restore v
        let bottom := y + g.totalH heights.2
        if measureOnly then (v, bottom)
        else
          let v := v.fill g.x y (g.x + g.tableW) bottom bgcolor
          -- pass 2b: the cells
          let v := (paintRows g rows heights.2 (y + g.spc) v.suppress).allow
          let v :=
            if border > 0 then
              outlineRows g (rowSpecs m rows) heights.2 (y + g.spc)
                (v.outline g.x y (g.x + g.tableW) bottom)
            else v
          (v, bottom)

/-- The heights of the rows of a table, by a pass that measures their cells. -/
def rowHeights (g : Grid) : List (Row Block) → View → View × List Int
  | [], v => (v, [])
  | ⟨cells, _⟩ :: rows, v =>
      let r := rowHeight g cells 0 0 v
      let rs := rowHeights g rows r.1
      (rs.1, (r.2 + 2 * g.pad) :: rs.2)

/-- The height of the tallest cell of a row, from the column `col` on. -/
def rowHeight (g : Grid) : List (Cell Block) → Nat → Int → View → View × Int
  | [], _, maxH, v => (v, maxH)
  | ⟨inner, colspan, _, _, _⟩ :: cells, col, maxH, v =>
      if col < g.ncols then
        let r := cellMeasureHeight inner 0 (g.contentW col (spanOf colspan)) v
        rowHeight g cells (col + spanOf colspan) (widest r.2 maxH) r.1
      else (v, maxH)

/-- `web_cell_measure_height`, from the height `y` on. -/
def cellMeasureHeight : List Block → Int → Int → View → View × Int
  | [], y, _, v => (v, y)
  | b :: blks, y, contentW, v =>
      let r := renderBlockInto b.align b 0 y contentW true v
      cellMeasureHeight blks r.2 contentW r.1

def paintRows (g : Grid) : List (Row Block) → List Int → Int → View → View
  | ⟨cells, bgcolor⟩ :: rows, rowH :: rowHs, rowTop, v =>
      paintRows g rows rowHs (rowTop + (rowH + g.spc)) (paintCells g bgcolor rowTop rowH cells 0 (g.x + g.spc) v)
  | _, _, _, v => v

def paintCells (g : Grid) (rowBg : Nat) (rowTop rowH : Int) : List (Cell Block) → Nat → Int → View → View
  | [], _, _, v => v
  | ⟨inner, colspan, align, bgcolor, _⟩ :: cells, col, cx, v =>
      if col < g.ncols then
        let boxW := g.boxW col (spanOf colspan)
        let v := v.fill cx rowTop (cx + boxW) (rowTop + rowH) (g.fillCol bgcolor rowBg)
        let v := (paintCell align inner (cx + g.pad) (rowTop + g.pad) (g.contentW col (spanOf colspan)) v).1
        paintCells g rowBg rowTop rowH cells (col + spanOf colspan) (cx + (boxW + g.spc)) v
      else v

/-- The blocks of a cell, one below the other. -/
def paintCell (cellAlign : HAlign) : List Block → Int → Int → Int → View → View × Int
  | [], _, y, _, v => (v, y)
  | b :: blks, x, y, contentW, v =>
      let r := renderBlockInto (lentAlign cellAlign b.align) b x y contentW false v
      paintCell cellAlign blks x r.2 contentW r.1

end

/-! ### Pages -/

structure Rect where
  left : Int
  top : Int
  right : Int
  bottom : Int

abbrev margin : Int := 12

/-- The blocks of a page, from number `bi` on. -/
def renderBlocks (x width : Int) (measureOnly : Bool) : List Block → Nat → Int → View → View × Int
  | [], _, y, v => (v, y)
  | b :: blks, bi, y, v =>
      let r := renderBlockInto m b.align b x y width measureOnly { v with curBlockIdx := bi, curLineIdx := 0 }
      renderBlocks x width measureOnly blks (bi + 1) r.2 r.1

/-- The background of a paint; the rectangles of the links start over. -/
def beginPaint (v : View) (client : Rect) : View :=
  clearLinkRects (v.draw (.fill client.left client.top client.right client.bottom v.bodyBg))

/-- The text of a view without a page. -/
def noPage (y : Int) : Drawing :=
  let f : Font := ⟨.para, plain, 0⟩
  let msg := ascii "(no page loaded - enter a URL and press Go)"
  .text margin y (m.wordW f msg) f msg (rgb 80 80 80)

/-- `web_paint_to`: the view, and the height of the page. -/
def paintTo (v : View) (client : Rect) (measureOnly : Bool) : View × Int :=
  let y := margin - v.scrollY
  let width := client.right - client.left - 2 * margin
  let v := if measureOnly then v else beginPaint v client
  match v.viewDoc with
  | none => (if measureOnly then v else v.draw (noPage m y), 2 * margin + 20)
  | some doc =>
      let v := { v with selMap := [], curBlockIdx := 0, curLineIdx := 0, curIsPre := false }
      let r := renderBlocks m margin width measureOnly doc.blocks 0 y v
      (r.1, r.2 + v.scrollY + margin)

/-- `WM_PAINT` -/
def onPaint (v : View) (client : Rect) : View :=
  let r := paintTo m v client false
  { r.1 with contentHeight := r.2 }

/-- `WM_SIZE` -/
def onSize (v : View) (client : Rect) : View :=
  let r := paintTo m v client true
  let v := { r.1 with contentHeight := r.2 }
  let lowest := v.contentHeight - (client.bottom - client.top)
  if v.scrollY > lowest then { v with scrollY := if lowest < 0 then 0 else lowest } else v

end

end UnicornSuite.WebLayout
