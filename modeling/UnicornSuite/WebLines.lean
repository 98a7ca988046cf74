import UnicornSuite.WebBlocks

/-! The line breaker of the browser (`web_emit_line`, `web_render_text_block`). Runs are walked into the
tokens of a line, which goes out when a word does not fit, at a newline and at the end. -/

namespace UnicornSuite.WebLayout

open CText Web

/-! ### Lines -/

/-- `WebLineTok`; of an inline image, `image` says whether it is decoded. -/
structure LineTok where
  text : CString
  f : Option Font
  col : Nat
  href : Option CString
  xOff : Int
  w : Int
  lineH : Int
  vshift : Int
  image : Option Bool := none

/-- The maximal spans of tokens that share a link. -/
def linkSpans : Option (LineTok × LineTok) → List LineTok → List (LineTok × LineTok)
  | none, [] => []
  | some span, [] => [span]
  | none, t :: toks => linkSpans (if t.href.isSome then some (t, t) else none) toks
  | some (a, b), t :: toks =>
      if t.href.isSome ∧ t.href = a.href then linkSpans (some (a, t)) toks
      else (a, b) :: linkSpans (if t.href.isSome then some (t, t) else none) toks

/-- The width of a line. -/
def lineWidth (toks : List LineTok) : Int :=
  toks.foldl (fun w t => if t.xOff + t.w > w then t.xOff + t.w else w) 0

def LineTok.drawY (t : LineTok) (curY lineMaxH : Int) : Int := curY + (lineMaxH - t.lineH) + t.vshift

/-- A token goes into the device context, and its link into the view. -/
def drawTok (x curY lineMaxH : Int) (v : View) (t : LineTok) : View :=
  let y := t.drawY curY lineMaxH
  let v := match t.image, t.f with
    | some hbm, _ => if hbm then v.draw (.image (x + t.xOff) y t.w t.lineH) else v
    | none, some f => v.draw (.text (x + t.xOff) y t.w f t.text t.col)
    | none, none => v
  addLinkRect v (x + t.xOff) y t.w t.lineH t.href

def drawSpan (x curY lineMaxH : Int) (v : View) (span : LineTok × LineTok) : View :=
  v.draw (.line (x + span.1.xOff) (curY + lineMaxH - 1) (x + span.2.xOff + span.2.w) (curY + lineMaxH - 1)
    span.1.col)

def selToken (v : View) (x curY lineMaxH : Int) (t : LineTok) : SelToken :=
  { x := x + t.xOff, y := t.drawY curY lineMaxH, w := t.w, h := t.lineH, bytes := t.text, font := t.f
    blockIdx := v.curBlockIdx, lineIdx := v.curLineIdx, isPre := v.curIsPre }

/-- `web_emit_line`: the view, and where the next line begins. -/
def emitLine (v : View) (toks : List LineTok) (x0 width curY lineMaxH : Int) (align : HAlign)
    (measureOnly : Bool) : View × Int :=
  let x := startX align x0 width (lineWidth toks)
  if measureOnly then (v, curY + lineMaxH)
  else
    let v := toks.foldl (drawTok x curY lineMaxH) v
    let v := (linkSpans none toks).foldl (drawSpan x curY lineMaxH) v
    let v := { v with selMap := v.selMap ++ toks.map (selToken v x curY lineMaxH) }
    ({ v with curLineIdx := v.curLineIdx + 1 }, curY + lineMaxH)

/-! ### White space -/

/-- `web_layout_space_len` -/
def layoutSpaceLen : CString → Nat
  | [] => 0
  | [c] => if c = 0x20 ∨ c = 0x09 then 1 else 0
  | c :: c' :: _ => if c = 0x20 ∨ c = 0x09 then 1 else if c = 0xC2 ∧ c' = 0xA0 then 2 else 0

abbrev newline : UInt8 := 0x0A

/-- White space is passed over; how often it was found, and what is behind it. -/
def skipSpaces : CString → Nat × CString
  | [] => (0, [])
  | [c] => if layoutSpaceLen [c] = 1 then (1, []) else (0, [c])
  | c :: c' :: rest =>
      if layoutSpaceLen (c :: c' :: rest) = 1 then
        let r := skipSpaces (c' :: rest)
        (r.1 + 1, r.2)
      else if layoutSpaceLen (c :: c' :: rest) = 2 then
        let r := skipSpaces rest
        (r.1 + 1, r.2)
      else (0, c :: c' :: rest)

/-- The text before the next newline or white space, and from there on. -/
def takeWord : CString → CString × CString
  | [] => ([], [])
  | c :: rest =>
      if c = newline ∨ layoutSpaceLen (c :: rest) ≠ 0 then ([], c :: rest)
      else
        let r := takeWord rest
        (c :: r.1, r.2)

/-! ### Text blocks -/

/-- What stays the same while a text block is laid out. -/
structure Box where
  x0 : Int
  width : Int
  align : HAlign
  bulleted : Bool
  measureOnly : Bool

/-- The variables of `web_render_text_block`. The code does not keep how many lines were broken for want
of room. -/
structure Line where
  view : View
  toks : List LineTok := []
  xOff : Int := 0
  lineMaxH : Int
  pendingSpace : Int := 0
  curY : Int
  bulletIndent : Int := 0
  wraps : Nat := 0

/-- `WEB_EMIT_LINE` -/
def Line.emit (bx : Box) (l : Line) : Line :=
  let r := emitLine l.view l.toks bx.x0 bx.width l.curY l.lineMaxH bx.align bx.measureOnly
  { l with view := r.1, curY := r.2, toks := [], xOff := l.bulletIndent, pendingSpace := 0, lineMaxH := 0 }

def Line.raise (h : Int) (l : Line) : Line := if h > l.lineMaxH then { l with lineMaxH := h } else l

/-- Something of width `w` does not fit behind what the line holds. -/
def Line.Overflows (bx : Box) (w : Int) (l : Line) : Prop :=
  l.xOff + l.pendingSpace + w > bx.width ∧
    (l.xOff > l.bulletIndent ∨ l.toks.length > if bx.bulleted then 1 else 0)

instance (bx : Box) (w : Int) (l : Line) : Decidable (l.Overflows bx w) := by
  unfold Line.Overflows
  infer_instance

/-- The line goes out when something does not fit, and the next one is `h` high at least. -/
def Line.wrap (bx : Box) (w h : Int) (l : Line) : Line :=
  if l.Overflows bx w then { (l.emit bx).raise h with wraps := l.wraps + 1 } else l

/-- White space that was found is one space, owed to what comes next. -/
def Line.owe (found : Nat) (w : Int) (l : Line) : Line := if found > 0 then { l with pendingSpace := w } else l

/-- The space that is owed is taken. -/
def Line.takeSpace (l : Line) : Line := { l with xOff := l.xOff + l.pendingSpace, pendingSpace := 0 }

/-- `WEB_PUSH_TOK` with the token behind it. -/
def Line.push (t : LineTok) (l : Line) : Line :=
  { l with toks := l.toks ++ [{ t with xOff := l.xOff }], xOff := l.xOff + t.w }

/-- `web_color_for_run` -/
def colorForRun (r : Run) : Nat :=
  if r.color ≠ webNoColor then r.color else if r.style.link then rgb 0 0 192 else rgb 0 0 0

def Run.vshift (r : Run) (h : Int) : Int :=
  if r.style.sub then h.tdiv 3 else if r.style.sup then (-h).tdiv 3 else 0

def Image.inlineW (i : Image) : Int :=
  let w := if i.wHint > 0 then i.wHint else i.wActual
  if w ≤ 0 then 1 else w

def Image.inlineH (i : Image) : Int :=
  let h := if i.hHint > 0 then i.hHint else i.hActual
  if h ≤ 0 then 1 else h

section

variable (m : Metrics)

/-- A text token of a run. -/
def textTok (f : Font) (r : Run) (s : CString) : LineTok :=
  { text := s, f := some f, col := colorForRun r, href := r.href, xOff := 0, w := m.wordW f s
    lineH := m.textH f, vshift := r.vshift (m.textH f) }

def imageTok (r : Run) (i : Image) : LineTok :=
  { text := [], f := none, col := rgb 0 0 0, href := r.href, xOff := 0, w := i.inlineW
    lineH := i.inlineH, vshift := 0, image := some i.hbm }

def bulletTok (f : Font) (s : CString) : LineTok :=
  { text := s, f := some f, col := rgb 0 0 0, href := none, xOff := 0, w := m.wordW f s
    lineH := m.textH f, vshift := 0 }

/-- The text of a run in a BLK_PRE: every line is one token. A round takes a byte at least. -/
def preText (bx : Box) (f : Font) (r : Run) : Nat → CString → Line → Line
  | 0, _, l => l
  | rounds + 1, s, l =>
      let word := s.takeWhile (· ≠ newline)
      let l := if word ≠ [] then l.push (textTok m f r word) else l
      match s.dropWhile (· ≠ newline) with
      | [] => l
      | _ :: rest => preText bx f r rounds rest ((l.emit bx).raise (m.textH f))

/-- A word, on the next line when it does not fit. -/
def putWord (bx : Box) (f : Font) (r : Run) (word : CString) (l : Line) : Line :=
  ((l.wrap bx (m.wordW f word) (m.textH f)).takeSpace).push (textTok m f r word)

/-- The text of a run that flows, its white space compressed. -/
def flowText (bx : Box) (f : Font) (r : Run) : Nat → CString → Line → Line
  | 0, _, l => l
  | rounds + 1, s, l =>
      let skipped := skipSpaces s
      let l := l.owe skipped.1 (m.spaceW f)
      match skipped.2 with
      | [] => l
      | c :: rest =>
          if c = newline then flowText bx f r rounds rest ((l.emit bx).raise (m.textH f))
          else
            let word := takeWord (c :: rest)
            flowText bx f r rounds word.2 (putWord m bx f r word.1 l)

/-- An inline image, which is put like a word. -/
def putImage (bx : Box) (r : Run) (i : Image) (l : Line) : Line :=
  (((l.wrap bx i.inlineW 0).takeSpace).push (imageTok r i)).raise i.inlineH

/-- One run. -/
def renderRun (bx : Box) (type : BlockType) (l : Line) (r : Run) : Line :=
  let f : Font := ⟨type, r.style, r.sizeDelta⟩
  let l := l.raise (m.textH f)
  match r.imgBlk with
  | some i => putImage bx r i l
  | none =>
      if type = .pre then preText m bx f r r.text.length r.text l
      else flowText m bx f r r.text.length r.text l

/-- The line of a text block before its runs: it holds the bullet. -/
def firstLine (v : View) (type : BlockType) (bulletText : Option CString) (y : Int) : Line :=
  let f : Font := ⟨type, plain, 0⟩
  let l : Line := { view := v, lineMaxH := m.textH f, curY := y }
  match bulletText with
  | none => l
  | some s => { (l.push (bulletTok m f s)).raise (m.textH f) with bulletIndent := m.wordW f s }

/-- The lines of a text block, the last one flushed. -/
def textLines (v : View) (type : BlockType) (bulletText : Option CString) (runs : List Run) (bx : Box)
    (y : Int) : Line :=
  let l := runs.foldl (renderRun m bx type) (firstLine m v type bulletText y)
  if l.toks.length > 0 then l.emit bx else l

/-- `web_render_text_block`: the view, and where the content ends. -/
def renderTextBlock (v : View) (type : BlockType) (align : HAlign) (bulletText : Option CString)
    (runs : List Run) (x0 y width : Int) (measureOnly : Bool) : View × Int :=
  if runs = [] ∧ bulletText = none then (v, y)
  else
    let l := textLines m v type bulletText runs ⟨x0, width, align, bulletText.isSome, measureOnly⟩ y
    (l.view, l.curY)

end

end UnicornSuite.WebLayout
