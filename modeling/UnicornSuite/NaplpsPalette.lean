import UnicornSuite.LibRun
import UnicornSuite.NaplpsDecode

/-! What the drawing commands leave alone: the colour map, the drawing colours and the marks of the
map's allocator. Only SET COLOR changes the map in colour mode 0, and what it does there is found in
three cases. -/

namespace UnicornSuite.Naplps

/-! ### The colour map under the raster primitives -/

variable {s : Surface}

/-- A painting of pixels. -/
def SameMap (s s' : Surface) : Prop := s'.cmap = s.cmap

theorem SameMap.trans {s s' s'' : Surface} (h : SameMap s s') (h' : SameMap s' s'') :
    SameMap s s'' := Eq.trans h' h

theorem sameMap_up {lo hi : Int} {body : Int → Surface → Surface}
    (hbody : ∀ i s, SameMap s (body i s)) (s : Surface) : SameMap s (Loop.up lo hi body s) := by
  apply Loop.up_inv (I := SameMap s)
  · intro i s' _ _ hs
    exact hs.trans (hbody i s')
  · rfl

theorem maskPut_sameMap (s : Surface) (m : Option Mask) (x y : Int) (addr : Nat) :
    SameMap s (maskPut s m x y addr) := by
  cases m with
  | none => rfl
  | some m =>
      simp only [maskPut]
      split_ifs <;> rfl

theorem plot_sameMap (s : Surface) (x y : Int) (addr : Nat) : SameMap s (plot s x y addr) := by
  rw [plot]
  split_ifs <;> rfl

theorem stampPel_sameMap (s : Surface) (x y pw ph : Int) (addr : Nat) :
    SameMap s (stampPel s x y pw ph addr) := by
  apply sameMap_up
  intro iy s
  apply sameMap_up
  intro ix s
  exact plot_sameMap s _ _ _

theorem lineLoop_sameMap (x1 y1 dx dy sx sy pw ph : Int) (addr texture rounds : Nat) (w : LineWalk)
    (s : Surface) : SameMap s (lineLoop x1 y1 dx dy sx sy pw ph addr texture rounds w s) := by
  induction rounds generalizing w s with
  | zero => rfl
  | succ rounds ih =>
      have hdot : SameMap s (if texture.testBit (w.step % 16) then
          stampPel s w.x0 w.y0 pw ph addr else s) := by
        split_ifs
        · exact stampPel_sameMap s _ _ _ _ _
        · rfl
      by_cases hend : w.x0 = x1 ∧ w.y0 = y1
      · rw [lineLoop, if_pos hend]
        exact hdot
      · rw [lineLoop, if_neg hend]
        exact hdot.trans (ih _ _)

theorem drawLine_sameMap (s : Surface) (x0 y0 x1 y1 pw ph : Int) (addr texture : Nat) :
    SameMap s (drawLine s x0 y0 x1 y1 pw ph addr texture) := lineLoop_sameMap _ _ _ _ _ _ _ _ _ _ _ _ s

theorem fillRect_sameMap (s : Surface) (x y w h : Int) (addr : Nat) (mask : Option Mask) :
    SameMap s (fillRect s x y w h addr mask) := by
  simp only [fillRect]
  by_cases hempty : (if w < 0 then -w else w) ≤ 0 ∨ (if h < 0 then -h else h) ≤ 0
  · rw [if_pos hempty]
    rfl
  · rw [if_neg hempty]
    apply sameMap_up
    intro iy s
    apply sameMap_up
    intro ix s
    exact maskPut_sameMap s _ _ _ _

theorem fillSpan_sameMap (s : Surface) (y xs xe : Int) (addr : Nat) (mask : Option Mask) :
    SameMap s (fillSpan s y xs xe addr mask) := by
  simp only [fillSpan]
  by_cases hclip : xe < 0 ∨ xs ≥ width
  · rw [if_pos hclip]
    rfl
  · rw [if_neg hclip]
    apply sameMap_up
    intro x s
    exact maskPut_sameMap s _ _ _ _

theorem fillSpans_sameMap (y : Int) (addr : Nat) (mask : Option Mask) (cross : List Int)
    (s : Surface) : SameMap s (fillSpans y addr mask cross s) := by
  induction cross, s using fillSpans.induct y addr mask with
  | case1 xs xe rest s ih => exact (fillSpan_sameMap s _ _ _ _ _).trans ih
  | case2 cross s hshort =>
      rw [fillSpans]
      · rfl
      · exact hshort

theorem fillPoly_sameMap (s : Surface) (pts : List (Int × Int)) (addr : Nat) (mask : Option Mask) :
    SameMap s (fillPoly s pts addr mask) := by
  rw [fillPoly]
  split_ifs
  · rfl
  · apply sameMap_up
    intro y s
    exact fillSpans_sameMap _ _ _ _ s

theorem drawEdges_sameMap (s : Surface) (pw ph : Int) (addr texture : Nat)
    (edges : List ((Int × Int) × (Int × Int))) :
    SameMap s (edges.foldl (drawEdge pw ph addr texture) s) := by
  induction edges generalizing s with
  | nil => rfl
  | cons e edges ih => exact (drawLine_sameMap s _ _ _ _ _ _ _ _).trans (ih _)

theorem strokePoly_sameMap (s : Surface) (pts : List (Int × Int)) (closed : Bool) (pw ph : Int)
    (addr texture : Nat) : SameMap s (strokePoly s pts closed pw ph addr texture) := by
  rw [strokePoly]
  have hopen := drawEdges_sameMap s pw ph addr texture (pts.zip pts.tail)
  split_ifs
  · rfl
  · exact hopen.trans (drawLine_sameMap _ _ _ _ _ _ _ _ _)
  · exact hopen

theorem drawGlyph_sameMap (s : Surface) (gi : Nat) (fx0 y0 gw gh : Int) (addr : Nat) :
    SameMap s (drawGlyph s gi fx0 y0 gw gh addr) := by
  apply sameMap_up
  intro gy s
  apply sameMap_up
  intro gx s
  split_ifs
  · exact plot_sameMap s _ _ _
  · rfl

/-! ### The colour state under the drawing commands -/

/-- The map, its marks and the drawing colours. -/
structure Palette where
  cmap : Nat → Color
  colorMode : Nat
  drawValue : Color
  drawAddr : Nat
  bgAddr : Nat
  cmapUsed : Nat → Bool
  addrBlack : Nat
  addrWhite : Nat

def palette (d : Display) : Palette where
  cmap := d.surf.cmap
  colorMode := d.draw.colorMode
  drawValue := d.draw.drawValue
  drawAddr := d.draw.drawAddr
  bgAddr := d.draw.bgAddr
  cmapUsed := d.draw.cmapUsed
  addrBlack := d.draw.addrBlack
  addrWhite := d.draw.addrWhite

/-- The colour state is the given one. -/
def Has (P : Palette) (d : Display) : Prop := palette d = P

variable {P : Palette} {d : Display}

/-- What the colour state is not read from may change. -/
theorem Has.of_eq (h : Has P d) {d' : Display} (heq : palette d' = palette d) : Has P d' :=
  heq.trans h

theorem Has.withSurf (h : Has P d) {surf : Surface} (hsurf : SameMap d.surf surf) :
    Has P { d with surf := surf } := by
  apply h.of_eq
  rw [palette, palette, hsurf]

theorem Has.dpMoved (h : Has P d) : Has P (dpMoved d) := by
  rw [Naplps.dpMoved]
  split
  · exact h
  · exact h

theorem Has.cursorMoved (h : Has P d) : Has P (cursorMoved d) := by
  rw [Naplps.cursorMoved]
  split
  · exact h
  · exact h

theorem Has.setDp (h : Has P d) (x y : Int) : Has P (setDp d x y) :=
  Has.dpMoved (d := { d with draw.dpx := x, draw.dpy := y }) h

/-! ### Text -/

theorem Has.scrollUp (h : Has P d) (dyPx : Int) : Has P (scrollUp d dyPx) := by
  rw [Naplps.scrollUp]
  split_ifs
  · exact h
  · exact h
  · exact h

theorem Has.withText (h : Has P d) (text : TextState) : Has P { d with text := text } := h

theorem Has.textLf (h : Has P d) : Has P (textLf d) := by
  simp only [Naplps.textLf]
  split_ifs
  · exact ((h.withText _).scrollUp _ |>.withText _).cursorMoved
  · exact (h.withText _).cursorMoved
  · exact (h.withText _).cursorMoved
  · exact (h.withText _).cursorMoved
  · exact (h.withText _).cursorMoved

theorem Has.textCr (h : Has P d) : Has P (textCr d) := by
  simp only [Naplps.textCr]
  split
  · exact (h.withText _).cursorMoved
  · exact (h.withText _).cursorMoved
  · exact (h.withText _).cursorMoved
  · exact (h.withText _).cursorMoved

theorem Has.textAdvanceCh (h : Has P d) (ch : Nat) (haveCh : Bool) :
    Has P (textAdvanceCh d ch haveCh) := by
  have hstep : Has P (pathStep d ch haveCh) := h
  simp only [Naplps.textAdvanceCh]
  split
  · exact hstep.textCr.textLf.cursorMoved
  · exact hstep.cursorMoved

theorem paintChar_sameMap (d : Display) (ch : Nat) : SameMap d.surf (paintChar d ch) := by
  have hfield : ∀ fx0 fy0 fw fh, SameMap d.surf (paintField d fx0 fy0 fw fh) := by
    intro fx0 fy0 fw fh
    rw [paintField]
    split
    · exact fillRect_sameMap _ _ _ _ _ _ _
    · rfl
  have hglyph : ∀ s fx0 y0 gw gh, SameMap s (paintGlyph d s ch fx0 y0 gw gh) := by
    intro s fx0 y0 gw gh
    rw [paintGlyph]
    split
    · rfl
    · exact drawGlyph_sameMap _ _ _ _ _ _ _
  have hline : ∀ s fx0 fy0 fw, SameMap s (paintUnderline d s fx0 fy0 fw) := by
    intro s fx0 fy0 fw
    rw [paintUnderline]
    split
    · exact fillRect_sameMap _ _ _ _ _ _ _
    · rfl
  exact ((hfield _ _ _ _).trans (hglyph _ _ _ _ _)).trans (hline _ _ _ _)

theorem Has.drawChar (h : Has P d) (ch : Nat) : Has P (drawChar d ch) := by
  have hpaint : Has P { d with surf := paintChar d ch } := h.withSurf (paintChar_sameMap d ch)
  simp only [Naplps.drawChar]
  split
  · exact h
  · apply Has.textAdvanceCh
    exact hpaint

theorem Has.spaceChar (h : Has P d) : Has P (spaceChar d) := by
  have hnote : Has P (noteSpace d) := h
  simp only [Naplps.spaceChar]
  split
  · exact hnote.drawChar 0x20
  · exact hnote.textAdvanceCh 0x20 false

/-! ### Picture description instructions -/

theorem Has.markDrew (h : Has P d) : Has P (markDrew d) := h

theorem Has.skipped (h : Has P d) : Has P (skipped d) := h

theorem Has.paintPath (h : Has P d) (pts : List (Int × Int)) (filled closed : Bool) :
    Has P (paintPath d pts filled closed) := by
  rw [Naplps.paintPath]
  split
  · exact h.withSurf (fillPoly_sameMap _ _ _ _)
  · exact h.withSurf (strokePoly_sameMap _ _ _ _ _ _ _)

theorem Has.paintLongPath (h : Has P d) (pts : List (Int × Int)) (filled closed : Bool) :
    Has P (paintLongPath d pts filled closed) := by
  rw [Naplps.paintLongPath]
  split
  · exact (h.paintPath _ _ _).markDrew
  · exact h

theorem Has.paintRect (h : Has P d) (filled : Bool) (px py pw ph : Int) :
    Has P (paintRect d filled px py pw ph) := by
  rw [Naplps.paintRect]
  split
  · exact h.withSurf (fillRect_sameMap _ _ _ _ _ _ _)
  · exact h.paintPath _ _ _

theorem Has.primPoint (h : Has P d) (op : Nat) (p : Nat → Nat) : Has P (primPoint d op p) := by
  unfold Naplps.primPoint
  extract_lets v x y d1
  have h1 : Has P d1 := by
    simp only [d1]
    split
    · exact (h.withSurf (stampPel_sameMap _ _ _ _ _ _)).markDrew
    · exact h
  exact h1.setDp x y

theorem Has.primLine (h : Has P d) (op : Nat) (p : Nat → Nat) : Has P (primLine d op p) :=
  (h.withSurf (drawLine_sameMap _ _ _ _ _ _ _ _ _)).markDrew.setDp _ _

theorem Has.primRect (h : Has P d) (op : Nat) (p : Nat → Nat) : Has P (primRect d op p) :=
  (h.paintRect _ _ _ _ _).markDrew.setDp _ _

theorem Has.primArc (h : Has P d) (arc : ArcPoints) (op : Nat) (p : Nat → Nat) (n : Nat) :
    Has P (primArc arc d op p n) := by
  unfold Naplps.primArc
  extract_lets nblk filled setform first
  split
  · exact h
  · split
    · exact (h.paintPath _ _ _).markDrew.skipped.setDp _ _
    · exact (h.paintLongPath _ _ _).setDp _ _

theorem Has.primPoly (h : Has P d) (op : Nat) (p : Nat → Nat) (n : Nat) :
    Has P (primPoly d op p n) := by
  simp only [Naplps.primPoly]
  split
  · exact h
  · exact (h.paintLongPath _ _ _).setDp _ _

theorem Has.execField (h : Has P d) (p : Nat → Nat) (n : Nat) : Has P (execField d p n) := by
  have hset : ∀ {d' : Display} (origin size : Int × Int), Has P d' →
      Has P (setField d' origin size) := fun _ _ h' => h'
  simp only [Naplps.execField]
  split
  · exact Has.setDp (d := resetField d) h 0 0
  · split
    · exact (hset _ _ h).setDp _ _
    · apply Has.setDp
      apply hset
      split
      · exact h.skipped
      · exact h

theorem Has.execDomain (h : Has P d) (p : Nat → Nat) (n : Nat) : Has P (execDomain d p n) := by
  simp only [Naplps.execDomain]
  split_ifs
  · exact h
  · exact h
  · exact h

theorem Has.execText (h : Has P d) (p : Nat → Nat) (n : Nat) : Has P (execText d p n) := by
  unfold Naplps.execText
  split
  · exact h
  · extract_lets d1 d2 mv
    have h2 : Has P d2 := by
      simp only [d2]
      split
      · exact h
      · exact h
    split
    · exact h2
    · exact h2

theorem Has.execTexture (h : Has P d) (p : Nat → Nat) (n : Nat) : Has P (execTexture d p n) := by
  simp only [Naplps.execTexture]
  split
  · exact h
  · exact h

theorem Has.execWait (h : Has P d) (p : Nat → Nat) (n : Nat) : Has P (execWait d p n) := by
  simp only [Naplps.execWait]
  split_ifs
  · exact h
  · exact h
  · generalize List.range (n - 1) = rounds
    induction rounds generalizing d with
    | nil => exact h
    | cons i rounds ih => exact ih (d := { d with
        waitTenths := CInt.wrap32 (d.waitTenths + (p (i + 1) % 64 : Nat)), st.waits := d.st.waits + 1 }) h

/-- The instructions but RESET, SET COLOR and SELECT COLOR. -/
theorem Has.pdiSwitch (h : Has P d) (arc : ArcPoints) {op : Nat} (hreset : op ≠ 0x20)
    (hset : op ≠ 0x3C) (hselect : op ≠ 0x3E) (p : Nat → Nat) (n rep : Nat) :
    Has P (pdiSwitch arc d op p n rep) := by
  have hexec : ∀ {e : Display}, Has P e →
      Has P { e with st.pdiExecuted := e.st.pdiExecuted + 1 } := fun he => he
  simp only [Naplps.pdiSwitch]
  split
  · exact absurd rfl hreset
  · exact hexec (h.execDomain p n)
  · exact hexec (h.execText p n)
  · exact hexec (h.execTexture p n)
  iterate 4 exact hexec (h.primPoint _ p)
  iterate 4 exact hexec (h.primLine _ p)
  iterate 4 exact hexec (h.primArc arc _ p n)
  iterate 4 exact hexec (h.primRect _ p)
  iterate 4 exact hexec (h.primPoly _ p n)
  · exact hexec (h.execField p n)
  · exact absurd rfl hset
  · exact hexec (h.execWait p n)
  · exact absurd rfl hselect
  · exact h.skipped

end UnicornSuite.Naplps
