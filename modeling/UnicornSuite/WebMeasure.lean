import UnicornSuite.WebRender

/-! Measuring against painting. What the line breaker and the renderers of blocks return depends neither
on the mode nor on where they paint nor on the view, save for the suppression of margins, and in measure
mode they leave the view as it was (`renderBlockInto_bottom`, `renderBlockInto_measure`). -/

namespace UnicornSuite.WebLayout

open CText Web

/-! ### Lines -/

/-- The boxes differ in what does not matter to the line breaker. -/
structure Box.Alike (bx bx' : Box) : Prop where
  width : bx'.width = bx.width
  bulleted : bx'.bulleted = bx.bulleted

/-- The lines differ in their views, and `d` in the distance from the top. -/
structure Line.Alike (d : Int) (l l' : Line) : Prop where
  toks : l'.toks = l.toks
  xOff : l'.xOff = l.xOff
  lineMaxH : l'.lineMaxH = l.lineMaxH
  pendingSpace : l'.pendingSpace = l.pendingSpace
  curY : l'.curY = l.curY + d
  bulletIndent : l'.bulletIndent = l.bulletIndent
  wraps : l'.wraps = l.wraps

theorem emitLine_snd (v : View) (toks : List LineTok) (x0 width curY lineMaxH : Int) (align : HAlign)
    (measureOnly : Bool) : (emitLine v toks x0 width curY lineMaxH align measureOnly).2 = curY + lineMaxH := by
  unfold emitLine
  dsimp only
  split_ifs <;> rfl

section

variable {bx bx' : Box} {l l' : Line} {d : Int}

theorem Line.Alike.emit (h : l.Alike d l') : (l.emit bx).Alike d (l'.emit bx') where
  toks := rfl
  xOff := h.bulletIndent
  lineMaxH := rfl
  pendingSpace := rfl
  curY := by
    show (emitLine _ _ _ _ _ _ _ _).2 = (emitLine _ _ _ _ _ _ _ _).2 + d
    rw [emitLine_snd, emitLine_snd, h.curY, h.lineMaxH]
    omega
  bulletIndent := h.bulletIndent
  wraps := h.wraps

theorem Line.Alike.raise (h : l.Alike d l') (k : Int) : (l.raise k).Alike d (l'.raise k) := by
  rw [Line.raise, Line.raise, h.lineMaxH]
  split_ifs
  · exact ⟨h.toks, h.xOff, rfl, h.pendingSpace, h.curY, h.bulletIndent, h.wraps⟩
  · exact h

theorem Line.Alike.overflows (h : l.Alike d l') (hbx : bx.Alike bx') (w : Int) :
    l'.Overflows bx' w ↔ l.Overflows bx w := by
  rw [Line.Overflows, Line.Overflows, h.xOff, h.pendingSpace, h.bulletIndent, h.toks, hbx.width, hbx.bulleted]

theorem Line.Alike.wrap (h : l.Alike d l') (hbx : bx.Alike bx') (w k : Int) :
    (l.wrap bx w k).Alike d (l'.wrap bx' w k) := by
  rw [Line.wrap, Line.wrap]
  by_cases hover : l.Overflows bx w
  · rw [if_pos hover, if_pos ((h.overflows hbx w).mpr hover)]
    have hraised := (@Line.Alike.emit bx bx' l l' d h).raise k
    exact ⟨hraised.toks, hraised.xOff, hraised.lineMaxH, hraised.pendingSpace, hraised.curY,
      hraised.bulletIndent, congrArg (· + 1) h.wraps⟩
  · rw [if_neg hover, if_neg fun hover' => hover ((h.overflows hbx w).mp hover')]
    exact h

theorem Line.Alike.takeSpace (h : l.Alike d l') : l.takeSpace.Alike d l'.takeSpace where
  toks := h.toks
  xOff := congrArg₂ (· + ·) h.xOff h.pendingSpace
  lineMaxH := h.lineMaxH
  pendingSpace := rfl
  curY := h.curY
  bulletIndent := h.bulletIndent
  wraps := h.wraps

theorem Line.Alike.push (h : l.Alike d l') (t : LineTok) : (l.push t).Alike d (l'.push t) where
  toks := by rw [Line.push, Line.push, h.toks, h.xOff]
  xOff := by rw [Line.push, Line.push, h.xOff]
  lineMaxH := h.lineMaxH
  pendingSpace := h.pendingSpace
  curY := h.curY
  bulletIndent := h.bulletIndent
  wraps := h.wraps

theorem Line.Alike.owe (h : l.Alike d l') (found : Nat) (w : Int) :
    (l.owe found w).Alike d (l'.owe found w) := by
  rw [Line.owe, Line.owe]
  split_ifs
  · exact ⟨h.toks, h.xOff, h.lineMaxH, rfl, h.curY, h.bulletIndent, h.wraps⟩
  · exact h

variable (m : Metrics) (f : Font) (r : Run)

theorem Line.Alike.preText (rounds : Nat) (s : CString) (h : l.Alike d l') :
    (preText m bx f r rounds s l).Alike d (preText m bx' f r rounds s l') := by
  induction rounds generalizing s l l' with
  | zero => exact h
  | succ rounds ih =>
      have hpush : Line.Alike d
          (if s.takeWhile (· ≠ newline) ≠ [] then l.push (textTok m f r (s.takeWhile (· ≠ newline))) else l)
          (if s.takeWhile (· ≠ newline) ≠ [] then l'.push (textTok m f r (s.takeWhile (· ≠ newline))) else l') := by
        split_ifs
        · exact h.push _
        · exact h
      rw [WebLayout.preText, WebLayout.preText]
      cases s.dropWhile (· ≠ newline) with
      | nil => exact hpush
      | cons c rest => exact ih rest (hpush.emit.raise _)

theorem Line.Alike.putWord (hbx : bx.Alike bx') (h : l.Alike d l') (word : CString) :
    (putWord m bx f r word l).Alike d (putWord m bx' f r word l') :=
  ((h.wrap hbx _ _).takeSpace).push _

theorem Line.Alike.flowText (hbx : bx.Alike bx') (rounds : Nat) (s : CString) (h : l.Alike d l') :
    (flowText m bx f r rounds s l).Alike d (flowText m bx' f r rounds s l') := by
  induction rounds generalizing s l l' with
  | zero => exact h
  | succ rounds ih =>
      have howe := h.owe (skipSpaces s).1 (m.spaceW f)
      rw [WebLayout.flowText, WebLayout.flowText]
      cases (skipSpaces s).2 with
      | nil => exact howe
      | cons c rest =>
          dsimp only
          by_cases hc : c = newline
          · rw [if_pos hc, if_pos hc]
            exact ih rest (howe.emit.raise _)
          · rw [if_neg hc, if_neg hc]
            exact ih _ (howe.putWord m f r hbx _)

theorem Line.Alike.putImage (hbx : bx.Alike bx') (h : l.Alike d l') (i : Image) :
    (putImage bx r i l).Alike d (putImage bx' r i l') :=
  (((h.wrap hbx _ _).takeSpace).push _).raise _

theorem Line.Alike.renderRun (hbx : bx.Alike bx') (type : BlockType) (h : l.Alike d l') :
    (renderRun m bx type l r).Alike d (renderRun m bx' type l' r) := by
  rw [WebLayout.renderRun, WebLayout.renderRun]
  cases r.imgBlk with
  | none =>
      dsimp only
      split_ifs
      · exact (h.raise _).preText m _ r _ _
      · exact (h.raise _).flowText m _ r hbx _ _
  | some i => exact (h.raise _).putImage r hbx i

end

section

variable (m : Metrics) (v v' : View) (type : BlockType) (bulletText : Option CString) (runs : List Run)

theorem firstLine_alike (y y' : Int) :
    (firstLine m v type bulletText y).Alike (y' - y) (firstLine m v' type bulletText y') := by
  have hstart : Line.Alike (y' - y) { view := v, lineMaxH := m.textH ⟨type, plain, 0⟩, curY := y }
      { view := v', lineMaxH := m.textH ⟨type, plain, 0⟩, curY := y' } :=
    ⟨rfl, rfl, rfl, rfl, by dsimp only; omega, rfl, rfl⟩
  unfold firstLine
  cases bulletText with
  | none => exact hstart
  | some s =>
      have hraised := (hstart.push (bulletTok m ⟨type, plain, 0⟩ s)).raise (m.textH ⟨type, plain, 0⟩)
      exact ⟨hraised.toks, hraised.xOff, hraised.lineMaxH, hraised.pendingSpace, hraised.curY, rfl,
        hraised.wraps⟩

/-- The lines of a text are the same wherever they are laid out. -/
theorem textLines_alike {bx bx' : Box} (hbx : bx.Alike bx') (y y' : Int) :
    (textLines m v type bulletText runs bx y).Alike (y' - y) (textLines m v' type bulletText runs bx' y') := by
  have hruns : ∀ {l l' : Line}, l.Alike (y' - y) l' →
      (runs.foldl (renderRun m bx type) l).Alike (y' - y) (runs.foldl (renderRun m bx' type) l') := by
    induction runs with
    | nil => exact id
    | cons r runs ih => exact fun h => ih (h.renderRun m r hbx type)
  have hlines := hruns (firstLine_alike m v v' type bulletText y y')
  rw [textLines, textLines, hlines.toks]
  split_ifs
  · exact hlines.emit
  · exact hlines

/-- Where a text ends depends on its width only. -/
theorem renderTextBlock_bottom (align align' : HAlign) (x0 x0' y y' width : Int) (measureOnly measureOnly' : Bool) :
    (renderTextBlock m v' type align' bulletText runs x0' y' width measureOnly').2 - y' =
      (renderTextBlock m v type align bulletText runs x0 y width measureOnly).2 - y := by
  rw [renderTextBlock, renderTextBlock]
  split_ifs
  · omega
  · have hlines := @textLines_alike m v v' type bulletText runs
      ⟨x0, width, align, bulletText.isSome, measureOnly⟩
      ⟨x0', width, align', bulletText.isSome, measureOnly'⟩ ⟨rfl, rfl⟩ y y'
    have hy := hlines.curY
    dsimp only
    omega

end

/-! ### Views -/

/-- A relation of views that every line keeps, and so every text. -/
structure Carried (bx : Box) (R : View → View → Prop) : Prop where
  refl : ∀ v, R v v
  trans : ∀ {v v' v''}, R v v' → R v' v'' → R v v''
  emit : ∀ v toks curY lineMaxH,
    R v (emitLine v toks bx.x0 bx.width curY lineMaxH bx.align bx.measureOnly).1

theorem raise_view (k : Int) (l : Line) : (l.raise k).view = l.view := by
  rw [Line.raise]
  split_ifs <;> rfl

theorem owe_view (found : Nat) (w : Int) (l : Line) : (l.owe found w).view = l.view := by
  rw [Line.owe]
  split_ifs <;> rfl

section

variable {bx : Box} {R : View → View → Prop} (hR : Carried bx R) (m : Metrics) (f : Font) (r : Run)

include hR

theorem Carried.wrap (w k : Int) (l : Line) : R l.view (l.wrap bx w k).view := by
  rw [Line.wrap]
  split_ifs
  · have hview : ((l.emit bx).raise k).view = (l.emit bx).view := raise_view k _
    show R l.view ((l.emit bx).raise k).view
    rw [hview]
    exact hR.emit l.view l.toks l.curY l.lineMaxH
  · exact hR.refl _

theorem Carried.preText (rounds : Nat) (s : CString) (l : Line) : R l.view (preText m bx f r rounds s l).view := by
  induction rounds generalizing s l with
  | zero => exact hR.refl _
  | succ rounds ih =>
      have hpush : (if s.takeWhile (· ≠ newline) ≠ [] then
          l.push (textTok m f r (s.takeWhile (· ≠ newline))) else l).view = l.view := by
        split_ifs <;> rfl
      rw [WebLayout.preText, ← hpush]
      generalize (if s.takeWhile (· ≠ newline) ≠ [] then
          l.push (textTok m f r (s.takeWhile (· ≠ newline))) else l) = l'
      cases s.dropWhile (· ≠ newline) with
      | nil => exact hR.refl _
      | cons c rest =>
          refine hR.trans ?_ (ih rest _)
          rw [raise_view]
          exact hR.emit _ _ _ _

theorem Carried.putWord (word : CString) (l : Line) : R l.view (putWord m bx f r word l).view :=
  hR.wrap (m.wordW f word) (m.textH f) l

theorem Carried.flowText (rounds : Nat) (s : CString) (l : Line) : R l.view (flowText m bx f r rounds s l).view := by
  induction rounds generalizing s l with
  | zero => exact hR.refl _
  | succ rounds ih =>
      rw [WebLayout.flowText, ← owe_view (skipSpaces s).1 (m.spaceW f) l]
      cases (skipSpaces s).2 with
      | nil => exact hR.refl _
      | cons c rest =>
          dsimp only
          split_ifs
          · refine hR.trans ?_ (ih _ _)
            rw [raise_view]
            exact hR.emit _ _ _ _
          · exact hR.trans (hR.putWord m f r _ _) (ih _ _)

theorem Carried.renderRun (type : BlockType) (l : Line) : R l.view (renderRun m bx type l r).view := by
  rw [WebLayout.renderRun]
  have hraise : ∀ k, (l.raise k).view = l.view := fun k => raise_view k l
  cases r.imgBlk with
  | none =>
      dsimp only
      rw [← hraise (m.textH ⟨type, r.style, r.sizeDelta⟩)]
      split_ifs
      · exact hR.preText m _ r _ _ _
      · exact hR.flowText m _ r _ _ _
  | some i =>
      dsimp only
      rw [← hraise (m.textH ⟨type, r.style, r.sizeDelta⟩), putImage]
      generalize l.raise (m.textH ⟨type, r.style, r.sizeDelta⟩) = l'
      rw [raise_view]
      exact hR.wrap i.inlineW 0 l'

/-- What every line keeps is kept by a text. -/
theorem Carried.renderTextBlock (v : View) (type : BlockType) (bulletText : Option CString) (runs : List Run)
    (y : Int) (hbulleted : bx.bulleted = bulletText.isSome) :
    R v (renderTextBlock m v type bx.align bulletText runs bx.x0 y bx.width bx.measureOnly).1 := by
  have hfirst : (firstLine m v type bulletText y).view = v := by
    unfold firstLine
    cases bulletText with
    | none => rfl
    | some s => exact raise_view _ _
  have hruns : ∀ l : Line, R l.view (runs.foldl (WebLayout.renderRun m bx type) l).view := by
    induction runs with
    | nil => exact fun l => hR.refl _
    | cons r runs ih => exact fun l => hR.trans (hR.renderRun m r type l) (ih _)
  have hlines : R v (textLines m v type bulletText runs bx y).view := by
    have hrest := hruns (firstLine m v type bulletText y)
    rw [hfirst] at hrest
    rw [textLines]
    split_ifs
    · exact hR.trans hrest (hR.emit _ _ _ _)
    · exact hrest
  rw [WebLayout.renderTextBlock]
  split_ifs
  · exact hR.refl _
  · exact hbulleted ▸ hlines

end

/-! ### The frame of a pass -/

theorem emitLine_measure (v : View) (toks : List LineTok) (x0 width curY lineMaxH : Int) (align : HAlign) :
    (emitLine v toks x0 width curY lineMaxH align true).1 = v := rfl

/-- A paint leaves the suppression of margins alone. -/
theorem drawn_gapSuppress {α : Type} {draw : View → α → View}
    (hdraw : ∀ v a, (draw v a).gapSuppress = v.gapSuppress) (as : List α) (v : View) :
    (as.foldl draw v).gapSuppress = v.gapSuppress := by
  induction as generalizing v with
  | nil => rfl
  | cons a as ih => exact (ih (draw v a)).trans (hdraw v a)

theorem addLinkRect_gapSuppress (v : View) (x y w h : Int) (href : Option CString) :
    (addLinkRect v x y w h href).gapSuppress = v.gapSuppress := by
  cases href <;> rfl

theorem drawTok_gapSuppress (x curY lineMaxH : Int) (v : View) (t : LineTok) :
    (drawTok x curY lineMaxH v t).gapSuppress = v.gapSuppress := by
  unfold drawTok
  dsimp only
  rw [addLinkRect_gapSuppress]
  split
  · split_ifs <;> rfl
  · rfl
  · rfl

theorem emitLine_gapSuppress (v : View) (toks : List LineTok) (x0 width curY lineMaxH : Int) (align : HAlign)
    (measureOnly : Bool) :
    (emitLine v toks x0 width curY lineMaxH align measureOnly).1.gapSuppress = v.gapSuppress := by
  unfold emitLine
  dsimp only
  split_ifs
  · rfl
  · have htoks := drawn_gapSuppress (drawTok_gapSuppress (startX align x0 width (lineWidth toks)) curY lineMaxH)
      toks v
    rw [← htoks]
    exact @drawn_gapSuppress _ (drawSpan (startX align x0 width (lineWidth toks)) curY lineMaxH)
      (fun _ _ => rfl) _ _

theorem measured_carried (x0 width : Int) (align : HAlign) (bulleted : Bool) :
    Carried ⟨x0, width, align, bulleted, true⟩ (fun v v' => v' = v) where
  refl _ := rfl
  trans h h' := h'.trans h
  emit _ _ _ _ := rfl

theorem suppressed_carried (bx : Box) : Carried bx (fun v v' => v'.gapSuppress = v.gapSuppress) where
  refl _ := rfl
  trans h h' := h'.trans h
  emit v toks curY lineMaxH := emitLine_gapSuppress v toks bx.x0 bx.width curY lineMaxH bx.align bx.measureOnly

@[simp] theorem allow_suppress (v : View) : v.suppress.allow = v := rfl

@[simp] theorem restore_self (v : View) : v.restore v = v := by
  rw [View.restore, List.take_length]

theorem inMargins_view {k : Kind} {v : View} {y : Int} {body : View → Int → View × Int}
    (h : ∀ v y, (body v y).1 = v) : (inMargins k v y body).1 = v := by
  unfold inMargins
  dsimp only
  rw [h]

section

variable (m : Metrics)

theorem renderTextBlock_measure (v : View) (type : BlockType) (align : HAlign) (bulletText : Option CString)
    (runs : List Run) (x0 y width : Int) :
    (renderTextBlock m v type align bulletText runs x0 y width true).1 = v :=
  (measured_carried x0 width align bulletText.isSome).renderTextBlock m v type bulletText runs y rfl

theorem renderImage_measure (v : View) (i : Image) (align : HAlign) (x0 y width : Int) :
    (renderImage m v i align x0 y width true).1 = v := by
  unfold renderImage
  simp only [↓reduceIte]
  split_ifs <;> rfl

mutual

/-- A block that is measured leaves the view as it was. -/
theorem renderBlockInto_measure (align : HAlign) (x0 y width : Int) (v : View) :
    (b : Block) → (renderBlockInto m align b x0 y width true v).1 = v
  | .flow type indent _ bulletText runs => by
      rw [renderBlockInto]
      exact inMargins_view fun v y => renderTextBlock_measure m v type align bulletText runs _ y _
  | .hr indent _ => by
      rw [renderBlockInto]
      exact inMargins_view fun v y => rfl
  | .img indent _ image => by
      rw [renderBlockInto]
      exact inMargins_view fun v y => renderImage_measure m v image align _ y _
  | .table indent _ t => by
      rw [renderBlockInto]
      exact inMargins_view fun v y => renderTable_measure align _ y _ v t

theorem renderTable_measure (align : HAlign) (x0 y width : Int) (v : View) :
    (t : Table Block) → (renderTable m align t x0 y width true v).1 = v
  | ⟨rows, border, bgcolor, widthPx, widthPct, cellpadding, cellspacing⟩ => by
      rw [renderTable]
      simp only [↓reduceIte]
      rw [rowHeights_measure _ v.suppress rows, allow_suppress, restore_self]
      split_ifs <;> rfl

theorem rowHeights_measure (g : Grid) (v : View) : (rows : List (Row Block)) → (rowHeights m g rows v).1 = v
  | [] => rfl
  | ⟨cells, _⟩ :: rows => by
      rw [rowHeights]
      dsimp only
      rw [rowHeight_measure g 0 0 v cells, rowHeights_measure g v rows]

theorem rowHeight_measure (g : Grid) (col : Nat) (maxH : Int) (v : View) :
    (cells : List (Cell Block)) → (rowHeight m g cells col maxH v).1 = v
  | [] => rfl
  | ⟨inner, colspan, _, _, _⟩ :: cells => by
      rw [rowHeight]
      split_ifs
      · dsimp only
        rw [cellMeasureHeight_measure _ _ v inner, rowHeight_measure g _ _ v cells]
      · rfl

theorem cellMeasureHeight_measure (y contentW : Int) (v : View) :
    (blks : List Block) → (cellMeasureHeight m blks y contentW v).1 = v
  | [] => rfl
  | b :: blks => by
      rw [cellMeasureHeight, renderBlockInto_measure _ 0 y contentW v b, cellMeasureHeight_measure _ contentW v blks]

end

end

/-! ### The suppression of margins -/

theorem fill_gapSuppress (v : View) (left top right bottom : Int) (col : Nat) :
    (v.fill left top right bottom col).gapSuppress = v.gapSuppress := by
  rw [View.fill]
  split_ifs <;> rfl

theorem outlineCells_gapSuppress (g : Grid) (rt rowH : Int) (cells : List CellSpec) (col : Nat) (cx : Int)
    (v : View) : (outlineCells g rt rowH cells col cx v).gapSuppress = v.gapSuppress := by
  induction cells generalizing col cx v with
  | nil => rfl
  | cons c cells ih =>
      rw [outlineCells]
      split_ifs
      · exact ih _ _ _
      · rfl

theorem outlineRows_gapSuppress (g : Grid) (rows : List (List CellSpec)) (rowHs : List Int) (rt : Int) (v : View) :
    (outlineRows g rows rowHs rt v).gapSuppress = v.gapSuppress := by
  induction rows generalizing rowHs rt v with
  | nil => rfl
  | cons cells rows ih =>
      cases rowHs with
      | nil => rfl
      | cons rowH rowHs =>
          rw [outlineRows, ih]
          exact outlineCells_gapSuppress _ _ _ _ _ _ _

theorem inMargins_gapSuppress {k : Kind} {v : View} {y : Int} {body : View → Int → View × Int}
    (h : ∀ v y, (body v y).1.gapSuppress = v.gapSuppress) :
    (inMargins k v y body).1.gapSuppress = v.gapSuppress :=
  h _ _

theorem renderImage_gapSuppress (m : Metrics) (v : View) (i : Image) (align : HAlign) (x0 y width : Int)
    (measureOnly : Bool) : (renderImage m v i align x0 y width measureOnly).1.gapSuppress = v.gapSuppress := by
  unfold renderImage
  dsimp only
  split_ifs
  · rfl
  · exact addLinkRect_gapSuppress _ _ _ _ _ _
  · rfl
  · exact addLinkRect_gapSuppress _ _ _ _ _ _

theorem renderTextBlock_gapSuppress (m : Metrics) (v : View) (type : BlockType) (align : HAlign)
    (bulletText : Option CString) (runs : List Run) (x0 y width : Int) (measureOnly : Bool) :
    (renderTextBlock m v type align bulletText runs x0 y width measureOnly).1.gapSuppress = v.gapSuppress :=
  (suppressed_carried ⟨x0, width, align, bulletText.isSome, measureOnly⟩).renderTextBlock m v type bulletText runs
    y rfl

section

variable (m : Metrics)

mutual

theorem renderBlockInto_gapSuppress (align : HAlign) (x0 y width : Int) (measureOnly : Bool) (v : View) :
    (b : Block) → (renderBlockInto m align b x0 y width measureOnly v).1.gapSuppress = v.gapSuppress
  | .flow type indent _ bulletText runs => by
      rw [renderBlockInto]
      exact inMargins_gapSuppress fun v y => renderTextBlock_gapSuppress m v type align bulletText runs _ y _ _
  | .hr indent _ => by
      rw [renderBlockInto]
      refine inMargins_gapSuppress fun v y => ?_
      dsimp only
      split_ifs <;> rfl
  | .img indent _ image => by
      rw [renderBlockInto]
      exact inMargins_gapSuppress fun v y => renderImage_gapSuppress m v image align _ y _ _
  | .table indent _ t => by
      rw [renderBlockInto]
      exact inMargins_gapSuppress fun v y => renderTable_gapSuppress align _ y _ measureOnly v t

theorem renderTable_gapSuppress (align : HAlign) (x0 y width : Int) (measureOnly : Bool) (v : View) :
    (t : Table Block) → (renderTable m align t x0 y width measureOnly v).1.gapSuppress = v.gapSuppress
  | ⟨rows, border, bgcolor, widthPx, widthPct, cellpadding, cellspacing⟩ => by
      have hpaint : ∀ (g : Grid) (rowHs : List Int) (rowTop : Int) (v' : View), v'.gapSuppress = v.gapSuppress →
          (paintRows m g rows rowHs rowTop v'.suppress).allow.gapSuppress = v.gapSuppress := by
        intro g rowHs rowTop v' hv'
        show (paintRows m g rows rowHs rowTop v'.suppress).gapSuppress - 1 = v.gapSuppress
        rw [paintRows_gapSuppress g rowHs rowTop v'.suppress rows, ← hv']
        rfl
      rw [renderTable]
      dsimp only
      rw [rowHeights_measure m _ v.suppress rows, allow_suppress, restore_self]
      split_ifs
      · rfl
      · rfl
      · rw [outlineRows_gapSuppress]
        exact hpaint _ _ _ _ (fill_gapSuppress _ _ _ _ _ _)
      · exact hpaint _ _ _ _ (fill_gapSuppress _ _ _ _ _ _)

theorem paintRows_gapSuppress (g : Grid) (rowHs : List Int) (rowTop : Int) (v : View) :
    (rows : List (Row Block)) → (paintRows m g rows rowHs rowTop v).gapSuppress = v.gapSuppress
  | [] => by rw [paintRows]
             exact fun _ _ _ _ _ h => by cases h
  | ⟨cells, bgcolor⟩ :: rows => by
      cases rowHs with
      | nil => rw [paintRows]; exact fun _ _ _ _ _ _ h => by cases h
      | cons rowH rowHs =>
          rw [paintRows, paintRows_gapSuppress g rowHs _ _ rows]
          exact paintCells_gapSuppress g bgcolor rowTop rowH 0 _ v cells

theorem paintCells_gapSuppress (g : Grid) (rowBg : Nat) (rowTop rowH : Int) (col : Nat) (cx : Int) (v : View) :
    (cells : List (Cell Block)) → (paintCells m g rowBg rowTop rowH cells col cx v).gapSuppress = v.gapSuppress
  | [] => rfl
  | ⟨inner, colspan, align, bgcolor, _⟩ :: cells => by
      rw [paintCells]
      split_ifs
      · dsimp only
        rw [paintCells_gapSuppress g rowBg rowTop rowH _ _ _ cells,
          paintCell_gapSuppress align _ _ _ _ inner, fill_gapSuppress]
      · rfl

theorem paintCell_gapSuppress (cellAlign : HAlign) (x y contentW : Int) (v : View) :
    (blks : List Block) → (paintCell m cellAlign blks x y contentW v).1.gapSuppress = v.gapSuppress
  | [] => rfl
  | b :: blks => by
      rw [paintCell, paintCell_gapSuppress cellAlign x _ contentW _ blks]
      exact renderBlockInto_gapSuppress _ x y contentW false v b

end

end

/-! ### Where a block ends -/

/-- The cells of two tables are laid out alike. -/
structure Grid.Alike (g g' : Grid) : Prop where
  ncols : g'.ncols = g.ncols
  pad : g'.pad = g.pad
  spc : g'.spc = g.spc
  colW : g'.colW = g.colW

theorem Grid.Alike.contentW {g g' : Grid} (h : g.Alike g') (col s : Nat) : g'.contentW col s = g.contentW col s := by
  rw [Grid.contentW, Grid.contentW, Grid.boxW, Grid.boxW, h.ncols, h.pad, h.spc, h.colW]

theorem Grid.Alike.totalH {g g' : Grid} (h : g.Alike g') (rowHs : List Int) : g'.totalH rowHs = g.totalH rowHs := by
  rw [Grid.totalH, Grid.totalH, h.spc]

theorem inMargins_bottom {k : Kind} {v v' : View} {y y' : Int} {body body' : View → Int → View × Int}
    (hv : v'.gapSuppress = v.gapSuppress) (hkeep : ∀ v y, (body v y).1.gapSuppress = v.gapSuppress)
    (hkeep' : ∀ v y, (body' v y).1.gapSuppress = v.gapSuppress)
    (hbody : ∀ v v' y y', v'.gapSuppress = v.gapSuppress → (body' v' y').2 - y' = (body v y).2 - y) :
    (inMargins k v' y' body').2 - y' = (inMargins k v y body).2 - y := by
  unfold inMargins
  dsimp only
  rw [hkeep, hkeep']
  have hends := hbody { v with curIsPre := decide (k = .text .pre) } { v' with curIsPre := decide (k = .text .pre) }
    (y + topGap v.gapSuppress k) (y' + topGap v'.gapSuppress k) hv
  dsimp only at hends ⊢
  rw [hv] at hends ⊢
  omega

theorem renderImage_bottom (m : Metrics) (v v' : View) (i : Image) (align align' : HAlign) (x0 x0' y y' width : Int)
    (measureOnly measureOnly' : Bool) :
    (renderImage m v' i align' x0' y' width measureOnly').2 - y' =
      (renderImage m v i align x0 y width measureOnly).2 - y := by
  unfold renderImage
  dsimp only
  cases i.hbm <;> simp

section

variable (m : Metrics)

mutual

/-- How high a block is depends on its width and on the suppression of margins: not on the mode, nor on
the view, nor on where and with which alignment it is laid out. -/
theorem renderBlockInto_congr {v v' : View} (hv : v'.gapSuppress = v.gapSuppress) (align align' : HAlign)
    (x0 x0' y y' width : Int) (measureOnly measureOnly' : Bool) :
    (b : Block) → (renderBlockInto m align' b x0' y' width measureOnly' v').2 - y' =
      (renderBlockInto m align b x0 y width measureOnly v).2 - y
  | .flow type indent _ bulletText runs => by
      rw [renderBlockInto, renderBlockInto]
      exact inMargins_bottom hv (fun v y => renderTextBlock_gapSuppress m v _ _ _ _ _ y _ _)
        (fun v y => renderTextBlock_gapSuppress m v _ _ _ _ _ y _ _)
        fun v v' y y' _ => renderTextBlock_bottom m v v' type bulletText runs _ _ _ _ y y' _ _ _
  | .hr indent _ => by
      rw [renderBlockInto, renderBlockInto]
      refine inMargins_bottom hv ?_ ?_ ?_
      · intro v y
        dsimp only
        split_ifs <;> rfl
      · intro v y
        dsimp only
        split_ifs <;> rfl
      · intro v v' y y' _
        dsimp only
        omega
  | .img indent _ image => by
      rw [renderBlockInto, renderBlockInto]
      exact inMargins_bottom hv (fun v y => renderImage_gapSuppress m v _ _ _ y _ _)
        (fun v y => renderImage_gapSuppress m v _ _ _ y _ _)
        fun v v' y y' _ => renderImage_bottom m v v' image _ _ _ _ y y' _ _ _
  | .table indent _ t => by
      rw [renderBlockInto, renderBlockInto]
      exact inMargins_bottom hv (fun v y => renderTable_gapSuppress m _ _ y _ _ v t)
        (fun v y => renderTable_gapSuppress m _ _ y _ _ v t)
        fun v v' y y' hv => renderTable_congr hv align align' _ _ y y' _ measureOnly measureOnly' t

theorem renderTable_congr {v v' : View} (hv : v'.gapSuppress = v.gapSuppress) (align align' : HAlign)
    (x0 x0' y y' width : Int) (measureOnly measureOnly' : Bool) :
    (t : Table Block) → (renderTable m align' t x0' y' width measureOnly' v').2 - y' =
      (renderTable m align t x0 y width measureOnly v).2 - y
  | ⟨rows, border, bgcolor, widthPx, widthPct, cellpadding, cellspacing⟩ => by
      have hheights : ∀ g g' : Grid, g.Alike g' →
          (rowHeights m g' rows v'.suppress).2 = (rowHeights m g rows v.suppress).2 :=
        fun g g' hg => rowHeights_congr (congrArg (· + 1) hv) hg rows
      have hg : (tableGrid m ⟨rows, border, bgcolor, widthPx, widthPct, cellpadding, cellspacing⟩ align x0 y width v).Alike
          (tableGrid m ⟨rows, border, bgcolor, widthPx, widthPct, cellpadding, cellspacing⟩ align' x0' y' width v') :=
        ⟨rfl, rfl, rfl, rfl⟩
      rw [renderTable, renderTable]
      dsimp only
      generalize tableGrid m _ align x0 y width v = g at hg ⊢
      generalize tableGrid m _ align' x0' y' width v' = g' at hg ⊢
      rw [hheights g g' hg, hg.ncols, hg.totalH]
      split_ifs <;> dsimp only <;> omega

theorem rowHeights_congr {v v' : View} (hv : v'.gapSuppress = v.gapSuppress) {g g' : Grid} (hg : g.Alike g') :
    (rows : List (Row Block)) → (rowHeights m g' rows v').2 = (rowHeights m g rows v).2
  | [] => rfl
  | ⟨cells, _⟩ :: rows => by
      rw [rowHeights, rowHeights]
      dsimp only
      rw [rowHeight_measure, rowHeight_measure, rowHeights_congr hv hg rows, rowHeight_congr hv hg 0 0 cells, hg.pad]

theorem rowHeight_congr {v v' : View} (hv : v'.gapSuppress = v.gapSuppress) {g g' : Grid} (hg : g.Alike g')
    (col : Nat) (maxH : Int) :
    (cells : List (Cell Block)) → (rowHeight m g' cells col maxH v').2 = (rowHeight m g cells col maxH v).2
  | [] => rfl
  | ⟨inner, colspan, _, _, _⟩ :: cells => by
      rw [rowHeight, rowHeight, hg.ncols]
      split_ifs
      · dsimp only
        rw [cellMeasureHeight_measure, cellMeasureHeight_measure, hg.contentW,
          cellMeasureHeight_congr hv 0 _ inner, rowHeight_congr hv hg _ _ cells]
      · rfl

theorem cellMeasureHeight_congr {v v' : View} (hv : v'.gapSuppress = v.gapSuppress) (y contentW : Int) :
    (blks : List Block) → (cellMeasureHeight m blks y contentW v').2 = (cellMeasureHeight m blks y contentW v).2
  | [] => rfl
  | b :: blks => by
      have hends := renderBlockInto_congr hv b.align b.align 0 0 y y contentW true true b
      have hnext : (renderBlockInto m b.align b 0 y contentW true v').2 =
          (renderBlockInto m b.align b 0 y contentW true v).2 := by omega
      rw [cellMeasureHeight, cellMeasureHeight, renderBlockInto_measure, renderBlockInto_measure, hnext]
      exact cellMeasureHeight_congr hv _ contentW blks

end

/-! ### Cells and pages -/

/-- A cell is as high when it is painted as when it is measured. -/
theorem paintCell_bottom {v v' : View} (hv : v'.gapSuppress = v.gapSuppress) (cellAlign : HAlign)
    (x y y' contentW : Int) (blks : List Block) :
    (paintCell m cellAlign blks x y' contentW v').2 - y' = (cellMeasureHeight m blks y contentW v).2 - y := by
  induction blks generalizing v v' y y' with
  | nil => simp [paintCell, cellMeasureHeight]
  | cons b blks ih =>
      have hends := renderBlockInto_congr m hv b.align (lentAlign cellAlign b.align) 0 x y y' contentW true false b
      have hrest := @ih v _
        ((renderBlockInto_gapSuppress m (lentAlign cellAlign b.align) x y' contentW false v' b).trans hv)
        (renderBlockInto m b.align b 0 y contentW true v).2
        (renderBlockInto m (lentAlign cellAlign b.align) b x y' contentW false v').2
      rw [paintCell, cellMeasureHeight, renderBlockInto_measure]
      omega

/-- What the cells of a row occupy when they are painted, the tallest of them. -/
def occupied (g : Grid) (x y : Int) (v : View) : List (Cell Block) → Nat → Int → Int
  | [], _, maxH => maxH
  | ⟨inner, colspan, align, _, _⟩ :: cells, col, maxH =>
      if col < g.ncols then
        occupied g x y v cells (col + spanOf colspan)
          (widest ((paintCell m align inner x y (g.contentW col (spanOf colspan)) v).2 - y) maxH)
      else maxH

theorem rowHeight_occupied {v v' : View} (hv : v'.gapSuppress = v.gapSuppress) (g : Grid) (x y : Int)
    (cells : List (Cell Block)) (col : Nat) (maxH : Int) :
    (rowHeight m g cells col maxH v).2 = occupied m g x y v' cells col maxH := by
  induction cells generalizing col maxH with
  | nil => rfl
  | cons c cells ih =>
      obtain ⟨inner, colspan, align, bgcolor, widthPx⟩ := c
      have hcell := paintCell_bottom m hv align x 0 y (g.contentW col (spanOf colspan)) inner
      rw [rowHeight, occupied]
      split_ifs
      · dsimp only
        rw [cellMeasureHeight_measure, ih, hcell, Int.sub_zero]
      · rfl

theorem rowHeights_occupied {v v' : View} (hv : v'.gapSuppress = v.gapSuppress) (g : Grid) (x y : Int)
    (rows : List (Row Block)) :
    (rowHeights m g rows v).2 = rows.map fun r => occupied m g x y v' r.cells 0 0 + 2 * g.pad := by
  induction rows with
  | nil => rfl
  | cons r rows ih =>
      obtain ⟨cells, bgcolor⟩ := r
      rw [rowHeights, rowHeight_measure, ih, rowHeight_occupied m hv g x y, List.map_cons]

/-- The blocks of a page end at the same distance in both modes. -/
theorem renderBlocks_bottom {v v' : View} (hv : v'.gapSuppress = v.gapSuppress) (x width : Int)
    (measureOnly measureOnly' : Bool) (blks : List Block) (bi : Nat) (y y' : Int) :
    (renderBlocks m x width measureOnly' blks bi y' v').2 - y' =
      (renderBlocks m x width measureOnly blks bi y v).2 - y := by
  induction blks generalizing v v' bi y y' with
  | nil => simp [renderBlocks]
  | cons b blks ih =>
      have hends := @renderBlockInto_congr m { v with curBlockIdx := bi, curLineIdx := 0 }
        { v' with curBlockIdx := bi, curLineIdx := 0 } hv b.align b.align x x y y' width measureOnly
        measureOnly' b
      have hrest := @ih
        (renderBlockInto m b.align b x y width measureOnly { v with curBlockIdx := bi, curLineIdx := 0 }).1
        (renderBlockInto m b.align b x y' width measureOnly' { v' with curBlockIdx := bi, curLineIdx := 0 }).1
        (by rw [renderBlockInto_gapSuppress, renderBlockInto_gapSuppress]; exact hv) (bi + 1)
        (renderBlockInto m b.align b x y width measureOnly { v with curBlockIdx := bi, curLineIdx := 0 }).2
        (renderBlockInto m b.align b x y' width measureOnly' { v' with curBlockIdx := bi, curLineIdx := 0 }).2
      rw [renderBlocks, renderBlocks]
      omega

/-- The blocks of a page that are measured leave their number behind and nothing else. -/
theorem renderBlocks_measure (x width : Int) (blks : List Block) (bi : Nat) (y : Int) (v : View) :
    (renderBlocks m x width true blks bi y v).1 =
      if blks = [] then v else { v with curBlockIdx := bi + blks.length - 1, curLineIdx := 0 } := by
  induction blks generalizing bi y v with
  | nil => rfl
  | cons b blks ih =>
      rw [renderBlocks, renderBlockInto_measure, ih, if_neg (List.cons_ne_nil b blks)]
      by_cases hblks : blks = []
      · subst hblks
        simp
      · have hnum : bi + 1 + blks.length - 1 = bi + (blks.length + 1) - 1 := by omega
        rw [if_neg hblks, List.length_cons, hnum]

theorem paintTo_none {v : View} (hdoc : v.viewDoc = none) (client : Rect) (measureOnly : Bool) :
    (paintTo m v client measureOnly).2 = 2 * margin + 20 := by
  unfold paintTo
  cases measureOnly
  · have hbegin : (beginPaint v client).viewDoc = none := hdoc
    simp [hbegin]
  · simp [hdoc]

/-- The height of a page depends on its blocks and on the width. -/
theorem paintTo_some {v : View} {doc : Doc} (hdoc : v.viewDoc = some doc) (client : Rect) (measureOnly : Bool) :
    (paintTo m v client measureOnly).2 =
      (renderBlocks m margin (client.right - client.left - 2 * margin) true doc.blocks 0 0
        { gapSuppress := v.gapSuppress }).2 + 2 * margin := by
  have hrest (w : View) (hscroll : w.scrollY = v.scrollY) (hgap : w.gapSuppress = v.gapSuppress) :
      (renderBlocks m margin (client.right - client.left - 2 * margin) measureOnly doc.blocks 0
        (margin - v.scrollY)
        { w with selMap := [], curBlockIdx := 0, curLineIdx := 0, curIsPre := false }).2 + w.scrollY + margin =
      (renderBlocks m margin (client.right - client.left - 2 * margin) true doc.blocks 0 0
        { gapSuppress := v.gapSuppress }).2 + 2 * margin := by
    have hends := @renderBlocks_bottom m { gapSuppress := v.gapSuppress }
      { w with selMap := [], curBlockIdx := 0, curLineIdx := 0, curIsPre := false } hgap margin
      (client.right - client.left - 2 * margin) true measureOnly doc.blocks 0 0 (margin - v.scrollY)
    omega
  have hbegin : (beginPaint v client).viewDoc = some doc := hdoc
  unfold paintTo
  cases measureOnly
  · simpa only [Bool.false_eq_true, if_false, hbegin] using hrest (beginPaint v client) rfl rfl
  · simpa only [if_true, hdoc] using hrest v rfl rfl

/-- What a page that is measured leaves in the view. -/
theorem paintTo_measure (v : View) (client : Rect) :
    (paintTo m v client true).1 =
      match v.viewDoc with
      | none => v
      | some doc =>
          { v with selMap := [], curBlockIdx := doc.blocks.length - 1, curLineIdx := 0, curIsPre := false } := by
  unfold paintTo
  simp only [↓reduceIte]
  cases v.viewDoc with
  | none => rfl
  | some doc =>
      dsimp only
      rw [renderBlocks_measure]
      split_ifs with hblks
      · rw [hblks]
        rfl
      · rw [Nat.zero_add]

/-! ### Measuring and painting -/

/-- Measuring agrees with painting, and a page that is measured leaves the selection and the links as they
were. -/
structure Measures (v : View) (client : Rect) : Prop where
  /-- A block ends where it ends when it is painted. -/
  blocks : ∀ (b : Block) (align : HAlign) (x0 y width : Int) (v' : View),
    (renderBlockInto m align b x0 y width true v').2 = (renderBlockInto m align b x0 y width false v').2
  /-- The height of a row is what its cells occupy when they are painted. -/
  rows : ∀ (g : Grid) (rows : List (Row Block)) (x y : Int) (v' v'' : View), v''.gapSuppress = v'.gapSuppress →
    (rowHeights m g rows v').2 = rows.map fun r => occupied m g x y v'' r.cells 0 0 + 2 * g.pad
  page : (paintTo m v client true).2 = (paintTo m v client false).2
  /-- The height that a resize stores is the one of the paint behind it. -/
  resize : (onSize m v client).contentHeight = (onPaint m (onSize m v client) client).contentHeight
  selMap : (paintTo m v client true).1.selMap = v.selMap
  counters : (paintTo m v client true).1.curBlockIdx = v.curBlockIdx ∧
    (paintTo m v client true).1.curLineIdx = v.curLineIdx ∧ (paintTo m v client true).1.curIsPre = v.curIsPre
  linkRects : (paintTo m v client true).1.linkRects = v.linkRects

/-- The selection map is empty, and the counters stand at the last block. -/
def Unmarked (v : View) (doc : Doc) : Prop :=
  v.selMap = [] ∧ v.curBlockIdx = doc.blocks.length - 1 ∧ v.curLineIdx = 0 ∧ v.curIsPre = false

theorem paintTo_modes (v : View) (client : Rect) : (paintTo m v client true).2 = (paintTo m v client false).2 := by
  cases hdoc : v.viewDoc with
  | none => rw [paintTo_none m hdoc, paintTo_none m hdoc]
  | some doc => rw [paintTo_some m hdoc, paintTo_some m hdoc]

theorem onSize_height (v : View) (client : Rect) :
    (onSize m v client).contentHeight = (paintTo m v client true).2 := by
  unfold onSize
  dsimp only
  split_ifs <;> rfl

theorem onSize_height_eq (v : View) (client : Rect) :
    (onSize m v client).contentHeight = (onPaint m (onSize m v client) client).contentHeight := by
  have hkept : (onSize m v client).viewDoc = v.viewDoc ∧ (onSize m v client).gapSuppress = v.gapSuppress := by
    have hview := paintTo_measure m v client
    have hfields : (paintTo m v client true).1.viewDoc = v.viewDoc ∧
        (paintTo m v client true).1.gapSuppress = v.gapSuppress := by
      rw [hview]
      split <;> exact ⟨rfl, rfl⟩
    unfold onSize
    dsimp only
    split_ifs <;> exact hfields
  show _ = (paintTo m (onSize m v client) client false).2
  rw [onSize_height]
  cases hdoc : v.viewDoc with
  | none => rw [paintTo_none m hdoc, paintTo_none m (hkept.1.trans hdoc)]
  | some doc => rw [paintTo_some m hdoc, paintTo_some m (hkept.1.trans hdoc), hkept.2]

/-- A measuring pass over a page empties the selection map and resets the counters; it is faithful when
there is nothing to lose. -/
theorem measures_iff (v : View) (client : Rect) :
    Measures m v client ↔ ∀ doc, v.viewDoc = some doc → Unmarked v doc := by
  have hview := paintTo_measure m v client
  constructor
  · intro h doc hdoc
    rw [hdoc] at hview
    obtain ⟨hblock, hline, hpre⟩ := h.counters
    have hmap := h.selMap
    rw [hview] at hmap hblock hline hpre
    exact ⟨hmap.symm, hblock.symm, hline.symm, hpre.symm⟩
  · intro h
    have hsame : (paintTo m v client true).1 = v := by
      rw [hview]
      cases hdoc : v.viewDoc with
      | none => rfl
      | some doc =>
          obtain ⟨hmap, hblock, hline, hpre⟩ := h doc hdoc
          dsimp only
          rw [← hmap, ← hblock, ← hline, ← hpre, ← hdoc]
    refine ⟨fun b align x0 y width v' => ?_, fun g rows x y v' v'' hv => rowHeights_occupied m hv g x y rows,
      paintTo_modes m v client, onSize_height_eq m v client, by rw [hsame], by rw [hsame]; exact ⟨rfl, rfl, rfl⟩,
      by rw [hsame]⟩
    have hends := @renderBlockInto_congr m v' v' rfl align align x0 x0 y y width false true b
    omega

end

/-- A page of one word, in a window. -/
def helloPage : Doc := ⟨[.flow .para 0 .left none [plainRun (ascii "hello")]], webNoColor⟩

def window : Rect := ⟨0, 0, 640, 480⟩

/-- The page is painted, and the window changes its size. -/
theorem resize_unmarks : ¬ Measures fixedWidth (onPaint fixedWidth { viewDoc := some helloPage } window) window := by
  intro h
  have hmap := congrArg List.length h.selMap
  revert hmap
  decide

end UnicornSuite.WebLayout
