import UnicornSuite.LibRun
import UnicornSuite.NaplpsDecode

/-! The structural invariant of the NAPLPS decoder. `Display.Ok` is kept by every text function and
executor, `Decoder.Ok` by every byte, flush and reset. -/

namespace UnicornSuite.Naplps

open CInt

structure Display.Ok (d : Display) : Prop where
  surf : d.surf.Ok
  svLen : 1 ≤ d.dom.svLen ∧ d.dom.svLen ≤ 4
  mvLen : 1 ≤ d.dom.mvLen ∧ d.dom.mvLen ≤ 8
  dims : d.dom.dims = 2 ∨ d.dom.dims = 3
  drawValue : d.draw.drawValue.Ok
  drawAddr : d.draw.drawAddr < cmapSize
  bgAddr : d.draw.bgAddr < cmapSize
  addrBlack : d.draw.addrBlack < cmapSize
  addrWhite : d.draw.addrWhite < cmapSize
  icsDen : 0 < d.text.icsDen
  irsDen : 0 < d.text.irsDen

variable {d : Display}

/-! ### Small steps -/

theorem skipped_ok (h : d.Ok) : (skipped d).Ok := { h with }

theorem operandShort_ok (h : d.Ok) : (operandShort d).Ok := { h with }

theorem markDrew_ok (h : d.Ok) : (markDrew d).Ok := { h with }

theorem Display.Ok.withSurf (h : d.Ok) {s : Surface} (hs : s.Ok) :
    Display.Ok { d with surf := s } := { h with surf := hs }

/-- The cursor and the drawing point are unconstrained. -/
theorem Display.Ok.moveCursor (h : d.Ok) (cx cy : Int) :
    Display.Ok { d with text.cx := cx, text.cy := cy } := { h with }

theorem cursorMoved_ok (h : d.Ok) : (cursorMoved d).Ok := by
  rw [cursorMoved]
  split_ifs
  · exact h
  · exact { h with }

theorem setDp_ok (h : d.Ok) (x y : Int) : (setDp d x y).Ok := by
  rw [setDp, dpMoved]
  split_ifs
  · exact { h with }
  · exact { h with }

theorem clearAddr_lt (h : d.Ok) : clearAddr d < cmapSize := by
  rw [clearAddr]
  split_ifs
  · exact h.bgAddr
  · exact h.addrBlack

/-! ### Text -/

theorem scrollUp_ok (h : d.Ok) (dyPx : Int) : (scrollUp d dyPx).Ok := by
  rw [scrollUp]
  split_ifs with hlow hhigh
  · exact h
  · exact h.withSurf (surfaceClear_ok h.surf _)
  · refine h.withSurf (h.surf.withPix ?_)
    refine Loop.up_inv (I := Grid.Good screen fun _ _ v => v < cmapSize) (fun y g hy0 hy1 hg => ?_)
      (Loop.down_inv (fun y g hy0 hy1 hg => ?_) h.surf.pix)
    · refine hg.fillRun (fun _ => ?_) fun _ _ _ => ?_
      · simp only [Region.Mem]
        omega
      · have := clearAddr_lt h
        omega
    · exact hg.moveRows (by decide) (fun _ => by simp only; omega) (fun _ => by simp only; omega)
        fun _ _ _ _ _ hv => hv

theorem scrollDown_ok (h : d.Ok) (dyPx : Int) : (scrollDown d dyPx).Ok := by
  rw [scrollDown]
  split_ifs with hlow hhigh
  · exact h
  · exact h.withSurf (surfaceClear_ok h.surf _)
  · refine h.withSurf (h.surf.withPix ?_)
    refine Loop.up_inv (I := Grid.Good screen fun _ _ v => v < cmapSize) (fun y g hy0 hy1 hg => ?_)
      (Loop.up_inv (fun y g hy0 hy1 hg => ?_) h.surf.pix)
    · refine hg.fillRun (fun _ => ?_) fun _ _ _ => ?_
      · simp only [Region.Mem]
        omega
      · have := clearAddr_lt h
        omega
    · exact hg.moveRows (by decide) (fun _ => by simp only; omega) (fun _ => by simp only; omega)
        fun _ _ _ _ _ hv => hv

theorem textHome_ok (h : d.Ok) : (textHome d).Ok := cursorMoved_ok (h.moveCursor _ _)

theorem textLf_ok (h : d.Ok) : (textLf d).Ok := by
  simp only [textLf]
  split_ifs
  · exact cursorMoved_ok ((scrollUp_ok (h.moveCursor _ _) _).moveCursor _ _)
  all_goals exact cursorMoved_ok (h.moveCursor _ _)

theorem textRlf_ok (h : d.Ok) : (textRlf d).Ok := by
  simp only [textRlf]
  split_ifs
  · exact cursorMoved_ok ((scrollDown_ok (h.moveCursor _ _) _).moveCursor _ _)
  all_goals exact cursorMoved_ok (h.moveCursor _ _)

theorem textCr_ok (h : d.Ok) : (textCr d).Ok := by
  simp only [textCr]
  split <;> exact cursorMoved_ok (h.moveCursor _ _)

theorem textAdvanceCh_ok (h : d.Ok) (ch : Nat) (haveCh : Bool) : (textAdvanceCh d ch haveCh).Ok := by
  have hstep : (pathStep d ch haveCh).Ok := h.moveCursor _ _
  simp only [textAdvanceCh]
  split_ifs
  · exact cursorMoved_ok (textLf_ok (textCr_ok hstep))
  · exact cursorMoved_ok hstep

theorem textAdvance_ok (h : d.Ok) : (textAdvance d).Ok := textAdvanceCh_ok h _ _

theorem pathBack_ok (h : d.Ok) : (pathBack d).Ok := by
  rw [pathBack]
  split
  · exact h.moveCursor _ _
  · exact h.moveCursor _ _

theorem textBs_ok (h : d.Ok) : (textBs d).Ok := by
  have hback := pathBack_ok h
  simp only [textBs]
  split_ifs
  · exact cursorMoved_ok (textRlf_ok (hback.moveCursor _ _))
  all_goals exact cursorMoved_ok (hback.moveCursor _ _)

theorem drawGlyph_ok {s : Surface} (h : s.Ok) (gi : Nat) (fx0 y0 gw gh : Int) (addr : Nat) :
    (drawGlyph s gi fx0 y0 gw gh addr).Ok := by
  refine Surface.Ok.up (fun gy s _ _ hrow => ?_) h
  refine Surface.Ok.up (fun gx s _ _ hs => ?_) hrow
  split_ifs
  · exact plot_ok hs _ _ _
  · exact hs

theorem paintField_ok (h : d.Ok) (fx0 fy0 fw fh : Int) : (paintField d fx0 fy0 fw fh).Ok := by
  rw [paintField]
  split_ifs
  · exact fillRect_ok h.surf _ _ _ _ _ _
  · exact fillRect_ok h.surf _ _ _ _ _ _
  · exact h.surf

theorem paintGlyph_ok {s : Surface} (hs : s.Ok) (d : Display) (ch : Nat) (fx0 y0 gw gh : Int) :
    (paintGlyph d s ch fx0 y0 gw gh).Ok := by
  rw [paintGlyph]
  split_ifs
  · exact hs
  · exact drawGlyph_ok hs _ _ _ _ _ _
  · exact drawGlyph_ok hs _ _ _ _ _ _

theorem paintUnderline_ok {s : Surface} (hs : s.Ok) (d : Display) (fx0 fy0 fw : Int) :
    (paintUnderline d s fx0 fy0 fw).Ok := by
  rw [paintUnderline]
  split_ifs
  · exact fillRect_ok hs _ _ _ _ _ _
  · exact fillRect_ok hs _ _ _ _ _ _
  · exact hs

theorem paintChar_ok (h : d.Ok) (ch : Nat) : (paintChar d ch).Ok :=
  paintUnderline_ok (paintGlyph_ok (paintField_ok h _ _ _ _) d ch _ _ _ _) d _ _ _

theorem drawChar_ok (h : d.Ok) (ch : Nat) : (drawChar d ch).Ok := by
  simp only [drawChar]
  split_ifs
  · exact h
  · refine textAdvanceCh_ok ?_ ch true
    exact { h with surf := paintChar_ok h ch }

/-! ### Colour -/

theorem cmapFind_lt (p : Nat → Bool) {i : Nat} (h : (List.range cmapSize).find? p = some i) :
    i < cmapSize := List.mem_range.mp (List.mem_of_find?_eq_some h)

theorem cmapFind_getD_lt (p : Nat → Bool) {dflt : Nat} (hd : dflt < cmapSize) :
    ((List.range cmapSize).find? p).getD dflt < cmapSize := by
  cases h : (List.range cmapSize).find? p with
  | none => exact hd
  | some i => exact cmapFind_lt p h

theorem cmap_update_ok {s : Surface} (h : s.Ok) (i : Nat) {c : Color} (hc : c.Ok) :
    Surface.Ok { s with cmap := Function.update s.cmap i c } := by
  refine ⟨h.pix, fun j => ?_⟩
  by_cases hj : j = i
  · simp only [hj, Function.update_self]
    exact hc
  · simp only [Function.update_of_ne hj]
    exact h.cmap j

theorem findBw_ok (h : d.Ok) : (findBw d).Ok :=
  { h with
    addrBlack := cmapFind_getD_lt _ (by decide)
    addrWhite := cmapFind_getD_lt _ (by decide) }

theorem mode0SetColor_ok (h : d.Ok) {c : Color} (hc : c.Ok) : (mode0SetColor d c).Ok := by
  simp only [mode0SetColor]
  split
  · next hi => exact { h with drawValue := hc, drawAddr := cmapFind_lt _ hi }
  · split
    · next hi =>
        exact { h with
          surf := cmap_update_ok h.surf _ hc, drawValue := hc, drawAddr := cmapFind_lt _ hi }
    · exact skipped_ok { h with drawValue := hc }

theorem primaryBits_le (raw nbits : Nat) : primaryBits raw nbits ≤ primaryMax := by
  rw [primaryBits]
  split_ifs <;> exact Nat.le_of_lt_succ (Nat.mod_lt _ (by decide))

theorem unpackColor_ok (dom : Domain) (p : Nat → Nat) : (unpackColor dom p).Ok :=
  ⟨primaryBits_le _ _, primaryBits_le _ _, primaryBits_le _ _⟩

theorem unpackAddr_lt (p : Nat → Nat) (len : Nat) : unpackAddr p len < cmapSize := by
  simp only [unpackAddr]
  split_ifs <;> exact Nat.mod_lt _ (by decide)

/-! ### Resets -/

theorem resetDomain_ok (h : d.Ok) : (resetDomain d).Ok :=
  { h with svLen := by simp [resetDomain], mvLen := by simp [resetDomain], dims := .inl rfl }

theorem resetField_ok (h : d.Ok) : (resetField d).Ok := { h with }

theorem resetText_ok (h : d.Ok) : (resetText d).Ok :=
  { h with icsDen := by simp [resetText], irsDen := by simp [resetText] }

theorem resetTexture_ok (h : d.Ok) : (resetTexture d).Ok := { h with }

theorem resetColor_ok (h : d.Ok) (toDefaultMap : Bool) : (resetColor d toDefaultMap).Ok := by
  have hmap : Display.Ok (if toDefaultMap then
      findBw { d with surf := surfaceDefaultCmap d.surf, draw.cmapUsed := fun _ => false }
      else d) := by
    split_ifs
    · exact findBw_ok { h with surf := surfaceDefaultCmap_ok h.surf }
    · exact h
  exact { hmap with
    drawValue := ⟨le_rfl, le_rfl, le_rfl⟩, drawAddr := hmap.addrWhite, bgAddr := hmap.addrBlack }

/-! ### Executors -/

theorem resetColorBits_ok (h : d.Ok) (bits : Nat) : (resetColorBits d bits).Ok := by
  unfold resetColorBits
  split
  · exact h
  · exact { resetColor_ok h true with }
  · exact { resetColor_ok h true with }

theorem clearBits_ok (h : d.Ok) (bits : Nat) : (clearBits d bits).Ok := by
  unfold clearBits
  split
  iterate 3 exact h
  iterate 3 exact markDrew_ok (h.withSurf (surfaceClear_ok h.surf _))

theorem execReset_ok (h : d.Ok) (p : Nat → Nat) (n : Nat) : (execReset d p n).Ok := by
  unfold execReset
  extract_lets b1 b2 d1 d2 d3
  have h1 : d1.Ok := by
    simp only [d1]
    split_ifs
    · exact resetDomain_ok h
    · exact h
  have h2 : d2.Ok := clearBits_ok (resetColorBits_ok h1 _) _
  have h3 : d3.Ok := by
    simp only [d3]
    split_ifs
    · exact textHome_ok (resetText_ok h2)
    · exact h2
  split_ifs
  · exact resetTexture_ok h3
  · exact h3

theorem setLengths_ok (h : d.Ok) (b1 : Nat) : (setLengths d b1).Ok := by
  refine { h with svLen := ?_, mvLen := ?_, dims := ?_ } <;> simp only [setLengths]
  · omega
  · omega
  · split_ifs
    · exact .inr rfl
    · exact .inl rfl

theorem execDomain_ok (h : d.Ok) (p : Nat → Nat) (n : Nat) : (execDomain d p n).Ok := by
  simp only [execDomain]
  split_ifs
  · exact h
  · exact { setLengths_ok h (p 0 % 64) with }
  · exact setLengths_ok h _

theorem spDen_pos (i : Nat) : 0 < spDen.getD i 1 := by
  match i with
  | 0 | 1 | 2 | 3 => decide
  | _ + 4 => exact Int.one_pos

theorem setTextAttributes_ok (h : d.Ok) (b1 b2 : Nat) : (setTextAttributes d b1 b2).Ok :=
  { h with icsDen := spDen_pos _, irsDen := spDen_pos _ }

theorem execText_ok (h : d.Ok) (p : Nat → Nat) (n : Nat) : (execText d p n).Ok := by
  unfold execText
  split
  · exact h
  · extract_lets d1 d2 mv
    have h1 : d1.Ok := setTextAttributes_ok h _ _
    have h2 : d2.Ok := by
      simp only [d2]
      split_ifs
      · exact skipped_ok h1
      · exact h1
    split
    · exact { h2 with }
    · exact h2

theorem execTexture_ok (h : d.Ok) (p : Nat → Nat) (n : Nat) : (execTexture d p n).Ok := by
  rw [execTexture]
  split_ifs
  · exact h
  · exact { h with }

theorem execWait_ok (h : d.Ok) (p : Nat → Nat) (n : Nat) : (execWait d p n).Ok := by
  rw [execWait]
  split_ifs
  · exact h
  · exact { h with }
  · generalize List.range (n - 1) = is
    induction is generalizing d with
    | nil => exact h
    | cons i is ih => exact ih { h with }

theorem selectPair_ok (h : d.Ok) {a b : Nat} (ha : a < cmapSize) (hb : b < cmapSize) :
    (selectPair d a b).Ok := by
  have hdraw : (if a = b then d.draw.drawAddr else a) < cmapSize := by
    split_ifs
    · exact h.drawAddr
    · exact ha
  exact { h with drawAddr := hdraw, bgAddr := hb }

theorem execSelectColor_ok (h : d.Ok) (p : Nat → Nat) (n : Nat) : (execSelectColor d p n).Ok := by
  simp only [execSelectColor]
  split
  · exact mode0SetColor_ok (d := { d with draw.colorMode := 0 }) { h with } h.drawValue
  · split
    · exact { h with drawAddr := unpackAddr_lt _ _ }
    · have hpair := selectPair_ok h (unpackAddr_lt p d.dom.svLen)
        (unpackAddr_lt (ptr p d.dom.svLen) d.dom.svLen)
      split
      · exact skipped_ok hpair
      · exact hpair

theorem execSetColor_ok (h : d.Ok) (p : Nat → Nat) (rep : Nat) : (execSetColor d p rep).Ok := by
  have hc := unpackColor_ok d.dom p
  simp only [execSetColor]
  split
  · exact mode0SetColor_ok h hc
  · split
    · exact markDrew_ok (findBw_ok { h with surf := cmap_update_ok h.surf _ hc })
    · exact skipped_ok h

theorem setField_ok (h : d.Ok) (origin size : Int × Int) : (setField d origin size).Ok := { h with }

theorem execField_ok (h : d.Ok) (p : Nat → Nat) (n : Nat) : (execField d p n).Ok := by
  simp only [execField]
  split
  · exact setDp_ok (resetField_ok h) _ _
  · split
    · exact setDp_ok (setField_ok h _ _) _ _
    · refine setDp_ok (setField_ok ?_ _ _) _ _
      split_ifs
      · exact skipped_ok h
      · exact h

/-! ### Primitives -/

theorem primPoint_ok (h : d.Ok) (op : Nat) (p : Nat → Nat) : (primPoint d op p).Ok := by
  unfold primPoint
  extract_lets v x y d1
  have h1 : d1.Ok := by
    simp only [d1]
    split
    · exact markDrew_ok (h.withSurf (stampPel_ok h.surf _ _ _ _ _))
    · exact h
  exact setDp_ok h1 _ _

theorem primLine_ok (h : d.Ok) (op : Nat) (p : Nat → Nat) : (primLine d op p).Ok :=
  setDp_ok (markDrew_ok (h.withSurf (drawLine_ok h.surf _ _ _ _ _ _ _ _))) _ _

theorem paintPath_ok (h : d.Ok) (pts : List (Int × Int)) (filled closed : Bool) :
    (paintPath d pts filled closed).Ok := by
  rw [paintPath]
  split_ifs
  · exact h.withSurf (fillPoly_ok h.surf _ _ _)
  · exact h.withSurf (strokePoly_ok h.surf _ _ _ _ _ _)

theorem paintRect_ok (h : d.Ok) (filled : Bool) (px py pw ph : Int) :
    (paintRect d filled px py pw ph).Ok := by
  rw [paintRect]
  split_ifs
  · exact h.withSurf (fillRect_ok h.surf _ _ _ _ _ _)
  · exact paintPath_ok h _ _ _

theorem primRect_ok (h : d.Ok) (op : Nat) (p : Nat → Nat) : (primRect d op p).Ok :=
  setDp_ok (markDrew_ok (paintRect_ok h _ _ _ _ _)) _ _

theorem paintLongPath_ok (h : d.Ok) (pts : List (Int × Int)) (filled closed : Bool) :
    (paintLongPath d pts filled closed).Ok := by
  rw [paintLongPath]
  split_ifs
  · exact markDrew_ok (paintPath_ok h _ _ _)
  · exact h

theorem primArc_ok (arc : ArcPoints) (h : d.Ok) (op : Nat) (p : Nat → Nat) (n : Nat) :
    (primArc arc d op p n).Ok := by
  unfold primArc
  extract_lets nblk filled setform first
  split
  · exact { h with }
  · split
    · exact setDp_ok (skipped_ok (markDrew_ok (paintPath_ok h _ _ _))) _ _
    · exact setDp_ok (paintLongPath_ok h _ _ _) _ _

theorem primPoly_ok (h : d.Ok) (op : Nat) (p : Nat → Nat) (n : Nat) : (primPoly d op p n).Ok := by
  simp only [primPoly]
  split
  · exact { h with }
  · exact setDp_ok (paintLongPath_ok h _ _ _) _ _

theorem pdiSwitch_ok (arc : ArcPoints) (h : d.Ok) (op : Nat) (p : Nat → Nat) (n rep : Nat) :
    (pdiSwitch arc d op p n rep).Ok := by
  have hexec {e : Display} (he : e.Ok) :
      Display.Ok { e with st.pdiExecuted := e.st.pdiExecuted + 1 } := { he with }
  simp only [pdiSwitch]
  split
  · exact hexec (execReset_ok h p n)
  · exact hexec (execDomain_ok h p n)
  · exact hexec (execText_ok h p n)
  · exact hexec (execTexture_ok h p n)
  iterate 4 exact hexec (primPoint_ok h _ p)
  iterate 4 exact hexec (primLine_ok h _ p)
  iterate 4 exact hexec (primArc_ok arc h _ p n)
  iterate 4 exact hexec (primRect_ok h _ p)
  iterate 4 exact hexec (primPoly_ok h _ p n)
  · exact hexec (execField_ok h p n)
  · exact hexec (execSetColor_ok h p rep)
  · exact hexec (execWait_ok h p n)
  · exact hexec (execSelectColor_ok h p n)
  · exact skipped_ok h

theorem nsrDisplay_ok (h : d.Ok) : (nsrDisplay d).Ok := by
  have hreset := resetTexture_ok (resetText_ok (resetDomain_ok h))
  have hbw := findBw_ok (d := { resetTexture (resetText (resetDomain d)) with
      draw.colorMode := 0, draw.drawValue := ⟨primaryMax, primaryMax, primaryMax⟩ })
    { hreset with drawValue := ⟨le_rfl, le_rfl, le_rfl⟩ }
  exact textHome_ok { hbw with drawAddr := hbw.addrWhite, bgAddr := hbw.addrBlack }

theorem clearScreen_ok (h : d.Ok) : (clearScreen d).Ok :=
  markDrew_ok (textHome_ok (h.withSurf (surfaceClear_ok h.surf _)))

theorem placeCursor_ok (h : d.Ok) (cx cy cw ch : Int) : (placeCursor d cx cy cw ch).Ok :=
  cursorMoved_ok (h.moveCursor _ _)

theorem repeatChar_ok (count : Nat) (h : d.Ok) : (repeatChar count d).Ok := by
  induction count generalizing d with
  | zero => exact h
  | succ count ih => exact ih (drawChar_ok h _)

theorem repeatToEol_ok (rounds : Nat) (h : d.Ok) : (repeatToEol rounds d).Ok := by
  induction rounds generalizing d with
  | zero => exact h
  | succ rounds ih =>
      have hdraw := drawChar_ok h d.text.lastSpacingChar
      unfold repeatToEol
      split
      · exact h
      · dsimp only
        split
        · exact hdraw
        · exact ih hdraw

/-! ### The decoder -/

structure Decoder.Ok (d : Decoder) : Prop where
  disp : d.disp.Ok
  esclen : d.code.esclen ≤ escbufMax
  pendlen : d.code.pendlen < pendbufMax
  op : ∀ op, d.pdi.op = some op → 0x20 ≤ op ∧ op ≤ 0x3F
  oplen : d.pdi.oplen ≤ opbufMax

section

variable {arc : ArcPoints} {d : Decoder}

theorem Decoder.Ok.withDisp (h : d.Ok) {disp : Display} (hd : disp.Ok) :
    Decoder.Ok { d with disp := disp } := { h with disp := hd }

theorem pdiExecuteSet_ok (h : d.Ok) (op : Nat) (p : Nat → Nat) (n rep : Nat) :
    (pdiExecuteSet arc d op p n rep).Ok :=
  { h with disp := pdiSwitch_ok arc h.disp op p n rep }

theorem setOpenOp_ok (h : d.Ok) {op : Option Nat}
    (hop : ∀ b, op = some b → 0x20 ≤ b ∧ b ≤ 0x3F) : (setOpenOp d op).Ok := { h with op := hop }

theorem emptyStore_ok (h : d.Ok) : (emptyStore d).Ok := { h with oplen := Nat.zero_le _ }

theorem executeRest_ok (h : d.Ok) (op : Nat) : (executeRest arc d op).Ok := by
  unfold executeRest
  extract_lets k need
  split
  · exact pdiExecuteSet_ok h _ _ _ _
  · split
    · exact pdiExecuteSet_ok (h.withDisp (operandShort_ok h.disp)) _ _ _ _
    · split_ifs
      · exact pdiExecuteSet_ok h _ _ _ _
      · exact pdiExecuteSet_ok h _ _ _ _
      · exact h

theorem pdiTerminate_ok (h : d.Ok) : (pdiTerminate arc d).Ok := by
  unfold pdiTerminate
  split
  · exact h
  · exact emptyStore_ok (executeRest_ok (setOpenOp_ok h fun _ hnone => by cases hnone) _)

theorem pdiOpcode_ok (h : d.Ok) {b : Nat} (hlo : 0x20 ≤ b) (hhi : b ≤ 0x3F) :
    (pdiOpcode arc d b).Ok :=
  emptyStore_ok (setOpenOp_ok (pdiTerminate_ok h) fun _ hb => by cases hb; exact ⟨hlo, hhi⟩)

theorem executeSets_ok (op need rounds : Nat) (h : d.Ok) :
    (executeSets arc op need rounds d).Ok := by
  induction rounds generalizing d with
  | zero => exact h
  | succ rounds ih =>
      rw [executeSets]
      split
      · refine ih { pdiExecuteSet_ok h _ _ _ _ with oplen := ?_ }
        exact (Nat.sub_le _ _).trans h.oplen
      · exact h

theorem pdiOperand_ok (h : d.Ok) (b : Nat) : (pdiOperand arc d b).Ok := by
  unfold pdiOperand
  split
  · exact h
  · split
    · next op hop hroom =>
        extract_lets d1 need
        have h1 : d1.Ok := { h with oplen := hroom }
        split_ifs
        · exact h1
        · exact h1
        · exact executeSets_ok _ _ _ h1
    · exact h

theorem openPend_ok (h : d.Ok) (kind : Pend) : (openPend d kind).Ok :=
  { h with pendlen := Nat.zero_lt_two }

theorem setSwallow_ok (h : d.Ok) (swallow : Bool) : (setSwallow d swallow).Ok := { h with }

theorem setCharField_ok {d : Display} (h : d.Ok) (dx dy : Int) : (setCharField d dx dy).Ok :=
  { h with }

theorem doC1_ok (h : d.Ok) (col row : Nat) : (doC1 d col row).Ok := by
  unfold doC1
  split
  · split
    iterate 4 exact setSwallow_ok (h.withDisp (skipped_ok h.disp)) true
    · exact h.withDisp (skipped_ok h.disp)
    · exact setSwallow_ok h false
    · exact openPend_ok h .rep
    · split
      · exact h.withDisp (repeatToEol_ok _ h.disp)
      · exact h.withDisp (skipped_ok h.disp)
    iterate 2 exact h.withDisp { h.disp with }
    iterate 4 exact h.withDisp (setCharField_ok h.disp _ _)
    · exact h.withDisp (skipped_ok h.disp)
    · exact h.withDisp (setCharField_ok h.disp _ _)
    · exact h
  · split
    · exact h.withDisp (skipped_ok h.disp)
    iterate 6 exact h.withDisp { h.disp with }
    · exact h.withDisp (skipped_ok h.disp)
    · exact h

theorem setShift_ok (h : d.Ok) (slot : Option Nat) : (setShift d slot).Ok := { h with }

theorem spaceChar_ok {d : Display} (h : d.Ok) : (spaceChar d).Ok := by
  have hnote : (noteSpace d).Ok := { h with }
  unfold spaceChar
  extract_lets d1
  split
  · exact drawChar_ok hnote _
  · exact textAdvance_ok hnote

theorem handleGraphic_ok (h : d.Ok) {b : Nat} (hlo : 0x20 ≤ b) (hhi : b < 0x80) (slot : Nat) :
    (handleGraphic arc d b slot).Ok := by
  unfold handleGraphic
  extract_lets d1 d2
  have h1 : d1.Ok := setShift_ok h none
  have h2 : d2.Ok := pdiTerminate_ok h1
  split
  · split_ifs
    · exact h1
    · exact h1.withDisp (spaceChar_ok h1.disp)
    · exact h1.withDisp (drawChar_ok h1.disp _)
  · split_ifs
    · exact pdiOperand_ok h1 b
    · exact pdiOpcode_ok h1 hlo (by omega)
  iterate 4 exact h2.withDisp (skipped_ok h2.disp)
  · exact h2

theorem lockGl_ok (h : d.Ok) (slot : Nat) : (lockGl d slot).Ok := { h with }

theorem lockGr_ok (h : d.Ok) (slot : Nat) : (lockGr d slot).Ok := { h with }

theorem openEsc_ok (h : d.Ok) : (openEsc d).Ok := { h with esclen := Nat.zero_le _ }

theorem handleC0_ok (h : d.Ok) (b : Nat) : (handleC0 arc d b).Ok := by
  unfold handleC0
  split
  · exact h
  · split
    · exact openEsc_ok h
    · extract_lets d1
      have h1 : d1.Ok := pdiTerminate_ok h
      split
      · exact h1
      · split
        · exact h1.withDisp (textBs_ok h1.disp)
        · exact h1.withDisp (textAdvance_ok h1.disp)
        · exact h1.withDisp (textLf_ok h1.disp)
        · exact h1.withDisp (textRlf_ok h1.disp)
        · exact h1.withDisp (clearScreen_ok h1.disp)
        · exact h1.withDisp (textCr_ok h1.disp)
        iterate 2 exact lockGl_ok h1 _
        · exact setShift_ok h1 _
        · exact openPend_ok h1 .aps
        · exact setShift_ok h1 _
        · exact h1.withDisp (textHome_ok h1.disp)
        · exact openPend_ok h1 .nsr
        · exact h1

theorem nsrReset_ok (h : d.Ok) : (nsrReset d).Ok := { h with disp := nsrDisplay_ok h.disp }

theorem beginTextPresentation_ok (h : d.Ok) : (beginTextPresentation d).Ok := by
  have hreset := (nsrReset_ok h).disp
  exact (nsrReset_ok h).withDisp (hreset.withSurf (surfaceClear_ok hreset.surf _))

/-- A byte as the dispatch sees it: bit 8 is set in the 8-bit environment only. -/
def ByteIn (d : Decoder) (b : Nat) : Prop := b < 256 ∧ (d.code.eightbit = false → b < 128)

theorem feedMain_ok (h : d.Ok) {b : Nat} (hb : ByteIn d b) : (feedMain arc d b).Ok := by
  obtain ⟨hbyte, hseven⟩ := hb
  unfold feedMain
  split
  · split_ifs
    · exact openEsc_ok h
    · exact handleC0_ok h b
    · exact h
    · exact h.withDisp (drawChar_ok h.disp b)
  · split_ifs with _ hc0 hc1
    · exact handleC0_ok h b
    · extract_lets col row
      split_ifs
      · exact h
      · exact doC1_ok (pdiTerminate_ok h) _ _
    · exact h
    · exact handleGraphic_ok h (by omega) (by omega) _
    · refine handleGraphic_ok h (by omega) ?_ _
      cases he : d.code.eightbit with
      | false => exact hseven he
      | true => simp_all; omega

theorem nsrAddress_ok (h : d.Ok) (b0 b1 : Nat) : (nsrAddress d b0 b1).Ok := by
  have hreset := nsrReset_ok h
  unfold nsrAddress
  extract_lets d1 rows row row' row'' cx cy
  split
  · exact hreset
  · exact hreset.withDisp (placeCursor_ok hreset.disp _ _ _ _)

theorem apsAddress_ok (h : d.Ok) (b0 b1 : Nat) : (apsAddress d b0 b1).Ok := by
  unfold apsAddress
  split
  · exact h
  · extract_lets row col cw ch
    split
    · exact h
    · exact h.withDisp (placeCursor_ok h.disp _ _ _ _)

theorem handleRepeat_ok (h : d.Ok) {b : Nat} (hb : ByteIn d b) (isCtrl : Bool) :
    (handleRepeat arc d b isCtrl).Ok := by
  rw [handleRepeat]
  split_ifs
  · exact feedMain_ok (h.withDisp (skipped_ok h.disp)) hb
  · exact h.withDisp (repeatChar_ok _ h.disp)
  · exact h.withDisp (skipped_ok h.disp)

theorem handlePending_ok (h : d.Ok) {b : Nat} (hb : ByteIn d b) : (handlePending arc d b).Ok := by
  unfold handlePending
  extract_lets isCtrl d1 d2
  have h1 : d1.Ok := openPend_ok h .none
  have h2 : (openPend d2 .none).Ok := { h with pendlen := Nat.zero_lt_two }
  split_ifs with hrep hctrl hnsr hmore
  · exact handleRepeat_ok (d := dropPend d) { h with } hb _
  · exact feedMain_ok (nsrReset_ok h1) hb
  · exact feedMain_ok h1 hb
  · exact { h with pendlen := hmore }
  · exact nsrAddress_ok h2 _ _
  · exact apsAddress_ok h2 _ _

theorem feedPlain_ok (h : d.Ok) {b : Nat} (hb : ByteIn d b) : (feedPlain arc d b).Ok := by
  rw [feedPlain]
  split_ifs
  · exact handlePending_ok h hb
  · exact feedMain_ok h hb

theorem escUnknown_ok (h : d.Ok) : (escUnknown d).Ok := h.withDisp { h.disp with }

theorem escPlainFinal_ok (h : d.Ok) (b : Nat) : (escPlainFinal arc d b).Ok := by
  have hterm : (pdiTerminate arc d).Ok := pdiTerminate_ok h
  unfold escPlainFinal
  split
  iterate 2 exact lockGl_ok hterm _
  iterate 6 exact lockGr_ok hterm _
  · split
    · extract_lets col row
      split
      · exact h
      · exact doC1_ok hterm _ _
    · exact escUnknown_ok h

theorem setMode_ok (h : d.Ok) (mode : Mode) : (setMode d mode).Ok := { h with }

theorem escCompleteCode_ok (h : d.Ok) (b : Nat) : (escCompleteCode arc d b).Ok := by
  unfold escCompleteCode
  extract_lets d1
  have h1 : d1.Ok := pdiTerminate_ok h
  split_ifs
  · exact setMode_ok h1 _
  · exact setMode_ok (beginTextPresentation_ok h1) _
  · exact setMode_ok h1 _
  · exact escUnknown_ok h1

theorem escFinal_ok (h : d.Ok) (i0 b : Nat) : (escFinal arc d i0 b).Ok := by
  have hterm : (pdiTerminate arc d).Ok := pdiTerminate_ok h
  unfold escFinal
  split
  · exact h
  · split
    · exact escCompleteCode_ok h b
    iterate 7 exact { hterm with }
    iterate 2 exact h
    · exact escUnknown_ok h

theorem closeEsc_ok (h : d.Ok) : (closeEsc d).Ok := { h with esclen := Nat.zero_le _ }

theorem escMalformed_ok (h : d.Ok) : (escMalformed d).Ok := h.withDisp { h.disp with }

theorem escByte_ok (h : d.Ok) {b : Nat} (hb : b < 128) : (escByte arc d b).Ok := by
  unfold escByte
  split_ifs with _ hroom
  · exact { h with esclen := hroom }
  · exact h
  · exact escPlainFinal_ok (closeEsc_ok h) b
  · exact escFinal_ok (closeEsc_ok h) _ b
  · exact feedPlain_ok (escMalformed_ok (closeEsc_ok h)) ⟨by omega, fun _ => hb⟩

theorem selectEnvironment_ok (h : d.Ok) (b : Nat) : (selectEnvironment d b).Ok := { h with }

theorem feedByte_ok (h : d.Ok) {b : Nat} (hb : b < 256) : (feedByte arc d b).Ok := by
  unfold feedByte
  extract_lets d1 b1
  have h1 : d1.Ok := selectEnvironment_ok h b
  have hb1 : ByteIn d1 b1 := by
    simp only [ByteIn, b1]
    split_ifs with height
    · exact ⟨hb, fun hseven => absurd height (by simp [hseven])⟩
    · exact ⟨by omega, fun _ => Nat.mod_lt _ (by decide)⟩
  split
  · exact escByte_ok h1 (Nat.mod_lt _ (by decide))
  · exact feedPlain_ok h1 hb1

theorem countByte_ok (h : d.Ok) : (onDisplay d countByte).Ok := h.withDisp { h.disp with }

theorem feedOne_ok (h : d.Ok) (b : UInt8) : (feedOne arc d b).Ok :=
  feedByte_ok (countByte_ok h) b.toNat_lt

theorem feed_ok (h : d.Ok) (buf : List UInt8) : (feed arc d buf).Ok :=
  Machine.run_inv (I := Decoder.Ok) (fun _ b h => feedOne_ok h b) h buf

theorem findBw_addr_lt (d : Display) :
    (findBw d).draw.addrBlack < cmapSize ∧ (findBw d).draw.addrWhite < cmapSize :=
  ⟨cmapFind_getD_lt _ (by decide), cmapFind_getD_lt _ (by decide)⟩

/-- A reset display is well formed whatever the memory held, provided that no write had left the
surface. -/
theorem resetDisplay_ok {d : Display} (hfault : d.surf.pix.fault = false) :
    (resetDisplay d).Ok := by
  have hbw := findBw_addr_lt { resetTexture (resetDomain (findBw (initDisplay d))) with
    surf := surfaceDefaultCmap (surfaceInit d.surf), draw.cmapUsed := fun _ => false }
  exact
    { surf := surfaceDefaultCmap_ok (surfaceInit_ok hfault)
      svLen := ⟨le_rfl, show 1 ≤ 4 by decide⟩
      mvLen := ⟨show 1 ≤ 3 by decide, show 3 ≤ 8 by decide⟩
      dims := .inl rfl
      drawValue := ⟨le_rfl, le_rfl, le_rfl⟩
      drawAddr := hbw.2, bgAddr := hbw.1, addrBlack := hbw.1, addrWhite := hbw.2
      icsDen := Int.one_pos, irsDen := Int.one_pos }

theorem reset_ok (hfault : d.disp.surf.pix.fault = false) : (reset d).Ok where
  disp := resetDisplay_ok hfault
  esclen := Nat.zero_le _
  pendlen := Nat.zero_lt_two
  op := fun _ hnone => by cases hnone
  oplen := Nat.zero_le _

theorem create_ok : create.Ok := reset_ok rfl

end

end UnicornSuite.Naplps
