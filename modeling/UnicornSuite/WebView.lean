import UnicornSuite.LibRun

/-! The view of the browser (`WebRenderView`): the link rectangles and the selection map that a paint
leaves for the mouse, and the handlers of `WebViewProc` and `web_fetch_timer_proc` that use them. A
pointer into a document carries the number of the document. The layout of a page and the text metrics are
parameters. -/

namespace UnicornSuite.WebView

/-! ### What a paint leaves -/

structure Rect where
  left : Int
  top : Int
  right : Int
  bottom : Int

def Rect.contains (rc : Rect) (x y : Int) : Bool :=
  x ≥ rc.left ∧ x < rc.right ∧ y ≥ rc.top ∧ y < rc.bottom

/-- A pointer to text of a document. -/
structure DocPtr where
  doc : Nat
  text : List UInt8
  deriving DecidableEq

structure LinkRect where
  rc : Rect
  href : DocPtr

/-- A token as the layout places it. -/
structure TokBox where
  x : Int
  y : Int
  w : Int
  h : Int
  text : List UInt8
  blockIdx : Nat
  lineIdx : Nat
  isPre : Bool

structure SelToken extends TokBox where
  doc : Nat

def SelToken.bytes (t : SelToken) : DocPtr := ⟨t.doc, t.text⟩

def SelToken.len (t : SelToken) : Int := t.text.length

/-- The rectangles, the tokens and the height of a page that is laid out. -/
structure Painted where
  links : List (Rect × List UInt8)
  tokens : List TokBox
  height : Int

/-- The layout of a page for a width and a scroll position, and the offset of the byte at a position
inside of a token. -/
structure Gdi (π : Type) where
  layout : π → Int → Int → Painted
  fit : SelToken → Int → Int

structure View (π : Type) where
  /-- The document on display: its number and the page. -/
  viewDoc : Option (Nat × π) := none
  linkRects : List LinkRect := []
  selMap : List SelToken := []
  selAnchorIdx : Int := -1
  selAnchorOff : Int := 0
  selExtentIdx : Int := -1
  selExtentOff : Int := 0
  selActive : Bool := false
  scrollY : Int := 0
  contentHeight : Int := 0

structure Web (π : Type) where
  view : View π := {}
  hoverHref : Option DocPtr := none
  dragPending : Bool := false
  dragActive : Bool := false
  dragPressX : Int := 0
  dragPressY : Int := 0
  dragPressHref : Option DocPtr := none
  autoscrollTimer : Bool := false
  /-- The documents shown so far. -/
  docs : Nat := 0

/-- The size of the client area. -/
structure Client where
  width : Int
  height : Int

section

variable {π : Type} (gdi : Gdi π)

/-! ### Paint -/

/-- The margin of a page and the height without a page. -/
abbrev margin : Int := 12

abbrev emptyHeight : Int := 2 * margin + 20

/-- `web_paint_to` without `measure_only`, with the height the caller stores. -/
def paintTo (v : View π) (client : Client) : View π :=
  match v.viewDoc with
  | none => { v with linkRects := [], contentHeight := emptyHeight }
  | some (doc, page) =>
      let out := gdi.layout page (client.width - 2 * margin) v.scrollY
      { v with
        linkRects := out.links.map fun l => ⟨l.1, doc, l.2⟩
        selMap := out.tokens.map fun t => ⟨t, doc⟩
        contentHeight := out.height }

/-- `web_paint_to` with `measure_only`: the selection map is emptied and no line is emitted. -/
def measureTo (v : View π) (client : Client) : View π :=
  match v.viewDoc with
  | none => { v with contentHeight := emptyHeight }
  | some (_, page) =>
      let out := gdi.layout page (client.width - 2 * margin) v.scrollY
      { v with selMap := [], contentHeight := out.height }

/-- `WM_SIZE`. -/
def onSize (v : View π) (client : Client) : View π :=
  let v := measureTo gdi v client
  if v.scrollY > v.contentHeight - client.height then
    { v with scrollY := max 0 (v.contentHeight - client.height) }
  else v

/-- The scroll position next to the one asked for. -/
def clampScroll (v : View π) (client : Client) (newY : Int) : Int :=
  max 0 (min (max 0 newY) (v.contentHeight - client.height))

/-- `WM_VSCROLL` and `WM_MOUSEWHEEL`. -/
def onScroll (v : View π) (client : Client) (newY : Int) : View π :=
  { v with scrollY := clampScroll v client newY }

/-! ### Hit tests -/

/-- `web_hit_test_link`. -/
def hitTestLink (v : View π) (x y : Int) : Option DocPtr :=
  (v.linkRects.find? (·.rc.contains x y)).map LinkRect.href

/-- `web_sel_byte_off_at_x`. -/
def byteOffAtX (t : SelToken) (x : Int) : Int :=
  if t.len ≤ 0 ∨ x ≤ 0 then 0 else if x ≥ t.w then t.len else gdi.fit t x

/-- The first pass of `web_sel_hit_test`, with the token before and the index. -/
def hitLine (mx my : Int) : Option SelToken → Nat → List SelToken → Option (Nat × Int)
  | _, _, [] => none
  | prev, i, t :: rest =>
      if my < t.y ∨ my ≥ t.y + t.h then hitLine mx my (some t) (i + 1) rest
      else if mx < t.x then
        match prev with
        | some p =>
            if p.y = t.y then
              if mx < (p.x + p.w + t.x).tdiv 2 then some (i - 1, p.len) else some (i, 0)
            else some (i, 0)
        | none => some (i, 0)
      else if mx < t.x + t.w then some (i, byteOffAtX gdi t (mx - t.x))
      else
        match rest with
        | [] => some (i, t.len)
        | next :: _ =>
            if next.y = t.y then hitLine mx my (some t) (i + 1) rest else some (i, t.len)

def rowDist (my : Int) (t : SelToken) : Int :=
  if my < t.y then t.y - my else if my ≥ t.y + t.h then my - (t.y + t.h - 1) else 0

/-- The token nearest to the row, with its index and its distance. -/
def nearest (my : Int) (best : Option (SelToken × Nat) × Int) (t : SelToken × Nat) :
    Option (SelToken × Nat) × Int :=
  if rowDist my t.1 < best.2 then (some t, rowDist my t.1) else best

/-- `web_sel_hit_test`. -/
def selHitTest (v : View π) (mx my : Int) : Option (Nat × Int) :=
  if v.selMap = [] then none
  else
    (hitLine gdi mx my none 0 v.selMap).orElse fun _ =>
      (v.selMap.zipIdx.foldl (nearest my) (none, 0x7fffffff)).1.map fun (t, i) =>
        (i, if mx ≤ t.x + t.w.tdiv 2 then 0 else t.len)

/-! ### The selection -/

/-- `web_sel_clear`. -/
def selClear (v : View π) : View π :=
  if v.selAnchorIdx < 0 ∧ v.selExtentIdx < 0 ∧ v.selActive = false then v
  else { v with selAnchorIdx := -1, selExtentIdx := -1, selActive := false }

/-- `web_sel_select_all`. -/
def selSelectAll (v : View π) : View π :=
  match v.selMap.getLast? with
  | none => v
  | some t =>
      { v with
        selAnchorIdx := 0
        selAnchorOff := 0
        selExtentIdx := v.selMap.length - 1
        selExtentOff := t.len
        selActive := true }

/-- The ends of the selection in the order of the document. -/
def selRange (v : View π) : (Int × Int) × (Int × Int) :=
  if v.selAnchorIdx > v.selExtentIdx ∨
      v.selAnchorIdx = v.selExtentIdx ∧ v.selAnchorOff > v.selExtentOff then
    ((v.selExtentIdx, v.selExtentOff), (v.selAnchorIdx, v.selAnchorOff))
  else ((v.selAnchorIdx, v.selAnchorOff), (v.selExtentIdx, v.selExtentOff))

/-- The part of a token of the map in a range. -/
def selPart (lo hi : Int × Int) (t : SelToken × Nat) : Option (SelToken × Int × Int) :=
  let blo := if t.2 = lo.1 then lo.2 else 0
  let bhi := if t.2 = hi.1 then hi.2 else t.1.len
  if lo.1 ≤ t.2 ∧ t.2 ≤ hi.1 ∧ blo < bhi then some (t.1, blo, bhi) else none

/-- The tokens that `web_sel_copy_to_clipboard` copies, each with its range. -/
def copiedParts (v : View π) : List (SelToken × Int × Int) :=
  if v.selActive = false ∨ v.selAnchorIdx < 0 ∨ v.selExtentIdx < 0 then []
  else v.selMap.zipIdx.filterMap (selPart (selRange v).1 (selRange v).2)

/-- What comes between two tokens of a copied text. -/
def copySeparator (p t : SelToken) : List UInt8 :=
  if t.blockIdx ≠ p.blockIdx then [13, 10]
  else if (t.isPre ∨ p.isPre) ∧ t.lineIdx > p.lineIdx then
    (List.replicate (min (t.lineIdx - p.lineIdx) 64) [13, 10]).flatten
  else [32]

/-- `web_sel_build_copy_text`, from the token copied last. -/
def buildCopyText : Option SelToken → List (SelToken × Int × Int) → List UInt8
  | _, [] => []
  | prev, (t, blo, bhi) :: rest =>
      prev.elim [] (copySeparator · t) ++ (t.text.take bhi.toNat).drop blo.toNat ++
        buildCopyText (some t) rest

/-- The text of Copy. -/
def copyText (v : View π) : List UInt8 := buildCopyText none (copiedParts v)

/-! ### Handlers -/

/-- The end of the selection goes to the token under the mouse. -/
def extendTo (v : View π) (x y : Int) : View π :=
  match selHitTest gdi v x y with
  | some (idx, off) => { v with selExtentIdx := idx, selExtentOff := off }
  | none => v

abbrev selDragThresholdSq : Int := 16

/-- The mouse has moved far enough from where it was pressed. -/
def startsDrag (s : Web π) (x y : Int) : Bool :=
  (x - s.dragPressX) * (x - s.dragPressX) + (y - s.dragPressY) * (y - s.dragPressY) ≥
    selDragThresholdSq

/-- A drag goes on or starts with this move. -/
def drags (s : Web π) (x y : Int) : Bool := s.dragPending && (s.dragActive || startsDrag s x y)

/-- `WM_MOUSEMOVE`. -/
def onMouseMove (s : Web π) (x y : Int) : Web π :=
  let href := hitTestLink s.view x y
  let s :=
    if drags s x y then
      { s with
        dragActive := true
        view := extendTo gdi { s.view with selActive := s.view.selActive || !s.dragActive } x y }
    else s
  { s with hoverHref := href }

/-- `WM_LBUTTONDOWN`. -/
def onButtonDown (s : Web π) (x y : Int) : Web π :=
  let v :=
    match selHitTest gdi s.view x y with
    | some (idx, off) =>
        { s.view with
          selAnchorIdx := idx, selAnchorOff := off, selExtentIdx := idx, selExtentOff := off }
    | none => { s.view with selAnchorIdx := -1, selExtentIdx := -1 }
  { s with
    dragPressX := x
    dragPressY := y
    dragPressHref := hitTestLink s.view x y
    dragPending := true
    dragActive := false
    autoscrollTimer := true
    view := { v with selActive := false } }

def dropPress (s : Web π) : Web π :=
  { s with dragPending := false, dragActive := false, dragPressHref := none }

/-- `WM_CAPTURECHANGED`. -/
def onCaptureChanged (s : Web π) : Web π :=
  { (if s.dragPending then dropPress s else s) with autoscrollTimer := false }

/-- The link that `WM_LBUTTONUP` navigates to. -/
def hrefToNav (s : Web π) : Option DocPtr :=
  if s.dragPending && !s.dragActive then s.dragPressHref else none

/-- `WM_LBUTTONUP`; a navigation only starts a fetch. -/
def onButtonUp (s : Web π) : Web π :=
  if s.dragPending then
    let s' := { dropPress s with autoscrollTimer := false }
    if s.dragActive ∧
        ¬(s.view.selAnchorIdx = s.view.selExtentIdx ∧ s.view.selAnchorOff = s.view.selExtentOff) then
      s'
    else { s' with view := selClear s.view }
  else s

abbrev selAutoscrollEdge : Int := 20

abbrev selAutoscrollStep : Int := 24

/-- Where the autoscroll timer scrolls to with the mouse at the height `y`. -/
def autoscrollTo (v : View π) (client : Client) (y : Int) : Int :=
  if y < selAutoscrollEdge then clampScroll v client (v.scrollY - selAutoscrollStep)
  else if y ≥ client.height - selAutoscrollEdge then
    clampScroll v client (v.scrollY + selAutoscrollStep)
  else v.scrollY

/-- The autoscroll timer, which repaints what it has scrolled before it looks for the token under the
mouse. -/
def onAutoscroll (s : Web π) (client : Client) (x y : Int) : Web π :=
  if s.dragActive ∧ autoscrollTo s.view client y ≠ s.view.scrollY then
    let v := { s.view with scrollY := autoscrollTo s.view client y }
    { s with view := extendTo gdi (paintTo gdi v client) x y }
  else s

/-- The commit of `web_fetch_timer_proc`; the old document is freed. -/
def commit (s : Web π) (page : π) : Web π :=
  { s with
    docs := s.docs + 1
    hoverHref := none
    view :=
      { s.view with
        viewDoc := some (s.docs, page)
        linkRects := []
        selAnchorIdx := -1
        selExtentIdx := -1
        selActive := false
        scrollY := 0 } }

/-- What the window is sent. Copy and Select All come from the keyboard or from the context menu. -/
inductive Event (π : Type) where
  /-- A fetch is done, with a page to show unless it failed, was stopped or was for a channel file. -/
  | fetchDone (page : Option π)
  | paint (client : Client)
  | size (client : Client)
  | scroll (client : Client) (newY : Int)
  | mouseMove (x y : Int)
  | buttonDown (x y : Int)
  | buttonUp
  | captureChanged
  | escape
  | copy
  | selectAll
  | autoscroll (client : Client) (x y : Int)
  | animTick

def onEvent (s : Web π) : Event π → Web π
  | .fetchDone (some page) => commit s page
  | .fetchDone none => s
  | .paint client => { s with view := paintTo gdi s.view client }
  | .size client => { s with view := onSize gdi s.view client }
  | .scroll client newY => { s with view := onScroll s.view client newY }
  | .mouseMove x y => onMouseMove gdi s x y
  | .buttonDown x y => onButtonDown gdi s x y
  | .buttonUp => onButtonUp s
  | .captureChanged => onCaptureChanged s
  | .escape => { s with view := selClear s.view }
  | .copy => s
  | .selectAll => { s with view := selSelectAll s.view }
  | .autoscroll client x y => onAutoscroll gdi s client x y
  | .animTick => s

end

end UnicornSuite.WebView
