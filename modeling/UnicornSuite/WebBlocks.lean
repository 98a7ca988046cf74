import UnicornSuite.WebDocument
import UnicornSuite.LibText

/-! The data of the renderer (`render_engine.h`): the blocks of a page with what their layout reads, the
line tokens, and the view that a paint fills. What GDI measures is a parameter; allocation succeeds, so
that a table has its arrays and a line its tokens. -/

namespace UnicornSuite.WebLayout

open CText Web

/-! ### Metrics -/

/-- A font, by the arguments of `web_font_get`. -/
structure Font where
  type : BlockType
  style : StyleBits
  sizeDelta : Int
  deriving DecidableEq

/-- No style bit set. -/
def plain : StyleBits := ⟨false, false, false, false, false, false, false, false⟩

/-- What GDI says of a font and of a text in it. -/
structure Metrics where
  textH : Font → Nat
  spaceW : Font → Nat
  extent : Font → CString → Nat

/-- `web_word_w`; nothing is measured of an empty text. -/
def Metrics.wordW (m : Metrics) (f : Font) (s : CString) : Int := if s = [] then 0 else m.extent f s

@[simp] theorem Metrics.wordW_nil (m : Metrics) (f : Font) : m.wordW f [] = 0 := if_pos rfl

theorem Metrics.wordW_nonneg (m : Metrics) (f : Font) (s : CString) : 0 ≤ m.wordW f s := by
  rw [wordW]
  split_ifs
  · exact le_rfl
  · exact Int.natCast_nonneg _

/-- Eight pixels a byte, and four a space. -/
def fixedWidth : Metrics := ⟨fun _ => 16, fun _ => 4, fun _ s => 8 * s.length⟩

/-! ### Blocks -/

/-- The payload of a `BLK_IMG`; `hbm` says whether it is decoded. -/
structure Image where
  src : Option CString
  alt : Option CString
  href : Option CString
  wHint : Int
  hHint : Int
  wActual : Int
  hActual : Int
  hbm : Bool

structure Run where
  text : CString
  style : StyleBits
  color : Nat
  sizeDelta : Int
  href : Option CString
  imgBlk : Option Image

structure Cell (β : Type) where
  inner : List β
  colspan : Int
  align : HAlign
  bgcolor : Nat
  widthPx : Int

structure Row (β : Type) where
  cells : List (Cell β)
  bgcolor : Nat

structure Table (β : Type) where
  rows : List (Row β)
  border : Int
  bgcolor : Nat
  widthPx : Int
  widthPct : Int
  cellpadding : Int
  cellspacing : Int

inductive Block where
  | flow (type : BlockType) (indent : Int) (align : HAlign) (bulletText : Option CString) (runs : List Run)
  | hr (indent : Int) (align : HAlign)
  | img (indent : Int) (align : HAlign) (image : Image)
  | table (indent : Int) (align : HAlign) (tableData : Table Block)

/-- A run of plain text. -/
def plainRun (text : CString) : Run := ⟨text, plain, webNoColor, 0, none, none⟩

def Block.indent : Block → Int
  | .flow _ indent _ _ _ => indent
  | .hr indent _ => indent
  | .img indent _ _ => indent
  | .table indent _ _ => indent

def Block.align : Block → HAlign
  | .flow _ _ align _ _ => align
  | .hr _ align => align
  | .img _ align _ => align
  | .table _ align _ => align

structure Doc where
  blocks : List Block
  bodyBg : Nat

/-! ### The view -/

def rgb (r g b : Nat) : Nat := r + 256 * g + 65536 * b

/-- What goes into the device context. -/
inductive Drawing where
  | fill (left top right bottom : Int) (col : Nat)
  | line (x y x' y' : Int) (col : Nat)
  | text (x y w : Int) (f : Font) (s : CString) (col : Nat)
  | image (x y w h : Int)

structure LinkRect where
  left : Int
  top : Int
  right : Int
  bottom : Int
  href : CString

structure SelToken where
  x : Int
  y : Int
  w : Int
  h : Int
  bytes : CString
  font : Option Font
  blockIdx : Nat
  lineIdx : Nat
  isPre : Bool

/-- `WebRenderView` with `g_b_cell_gap_suppress`. The number of a token is its place in the map; the
selection and its highlight are left out. -/
structure View where
  viewDoc : Option Doc := none
  scrollY : Int := 0
  contentHeight : Int := 0
  selMap : List SelToken := []
  curBlockIdx : Nat := 0
  curLineIdx : Nat := 0
  curIsPre : Bool := false
  linkRects : List LinkRect := []
  gapSuppress : Nat := 0
  drawn : List Drawing := []

def View.draw (v : View) (d : Drawing) : View := { v with drawn := v.drawn ++ [d] }

/-- `web_add_link_rect` -/
def addLinkRect (v : View) (x y w h : Int) (href : Option CString) : View :=
  match href with
  | none => v
  | some href => { v with linkRects := v.linkRects ++ [⟨x, y, x + w, y + h, href⟩] }

/-- `web_clear_link_rects` -/
def clearLinkRects (v : View) : View := { v with linkRects := [] }

/-- Where something of width `w` starts in a box. -/
def startX (align : HAlign) (x0 width w : Int) : Int :=
  let x := match align with
    | .left => x0
    | .center => x0 + (width - w).tdiv 2
    | .right => x0 + (width - w)
  if x < x0 then x0 else x

theorem le_startX (align : HAlign) (x0 width w : Int) : x0 ≤ startX align x0 width w := by
  unfold startX
  dsimp only
  split_ifs with h
  · exact le_rfl
  · exact not_lt.mp h

/-- What fits into a box ends in it, wherever it starts. -/
theorem startX_add_le (align : HAlign) {x0 width w : Int} (h : w ≤ width) :
    startX align x0 width w + w ≤ x0 + width := by
  unfold startX
  have hhalf : (width - w).tdiv 2 ≤ width - w := by
    rw [Int.tdiv_eq_ediv_of_nonneg (by omega)]
    omega
  cases align <;> dsimp only <;> split_ifs <;> omega

end UnicornSuite.WebLayout
