import UnicornSuite.NaplpsOperands

/-! The statistics of the NAPLPS decoder are only counted. No decision reads them, so a decoder that
has counted more behaves as the other one does and stays ahead by the same counts
(`feedPlain_counted`). -/

namespace UnicornSuite.Naplps

open CInt

/-- Counters added one by one. -/
def Stats.plus (s k : Stats) : Stats where
  bytesIn := s.bytesIn + k.bytesIn
  charsDrawn := s.charsDrawn + k.charsDrawn
  pdiExecuted := s.pdiExecuted + k.pdiExecuted
  pdiSkipped := s.pdiSkipped + k.pdiSkipped
  escUnknown := s.escUnknown + k.escUnknown
  escMalformed := s.escMalformed + k.escMalformed
  operandShort := s.operandShort + k.operandShort
  waits := s.waits + k.waits
  waitsMalformed := s.waitsMalformed + k.waitsMalformed

theorem Stats.plus_right_comm (s k l : Stats) : (s.plus k).plus l = (s.plus l).plus k := by
  have hadd (a b c : UInt32) : a + b + c = a + c + b := by
    rw [UInt32.add_assoc, UInt32.add_comm b c, ← UInt32.add_assoc]
  simp only [Stats.plus, Stats.mk.injEq]
  exact ⟨hadd _ _ _, hadd _ _ _, hadd _ _ _, hadd _ _ _, hadd _ _ _, hadd _ _ _, hadd _ _ _,
    hadd _ _ _, hadd _ _ _⟩

def Display.count (d : Display) (k : Stats) : Display := { d with st := d.st.plus k }

/-- `e` is `d` with `k` more counted. -/
def Counted (k : Stats) (d e : Display) : Prop := e = d.count k

section

variable {k : Stats} {d e : Display}

theorem Counted.count (h : Counted k d e) (l : Stats) : Counted k (d.count l) (e.count l) := by
  rw [Counted, h]
  exact congrArg (fun s => { d with st := s }) (Stats.plus_right_comm _ _ _)

/-- A change outside of the statistics. -/
theorem Counted.map (h : Counted k d e) {f : Display → Display}
    (hf : ∀ d : Display, f (d.count k) = (f d).count k) : Counted k (f d) (f e) := by
  rw [Counted, h, hf]

theorem Counted.dom (h : Counted k d e) : e.dom = d.dom := by
  rw [h]
  rfl

theorem Counted.text (h : Counted k d e) : e.text = d.text := by
  rw [h]
  rfl

/-- A branch on what the statistics do not touch. -/
theorem Counted.ite {c c' : Prop} [Decidable c] [Decidable c'] {a b : Display} (hc : c = c')
    (ht : Counted k d e) (hf : Counted k a b) :
    Counted k (if c then d else a) (if c' then e else b) := by
  cases hc
  by_cases hcond : c
  · rw [if_pos hcond, if_pos hcond]
    exact ht
  · rw [if_neg hcond, if_neg hcond]
    exact hf

/-! ### Text -/

theorem skipped_counted (h : Counted k d e) : Counted k (skipped d) (skipped e) := by
  have hcount (d : Display) : skipped d = d.count { pdiSkipped := 1 } := by
    simp [skipped, Display.count, Stats.plus]
  rw [hcount, hcount]
  exact h.count _

theorem operandShort_counted (h : Counted k d e) : Counted k (operandShort d) (operandShort e) := by
  have hcount (d : Display) : operandShort d = d.count { operandShort := 1 } := by
    simp [operandShort, Display.count, Stats.plus]
  rw [hcount, hcount]
  exact h.count _

theorem markDrew_counted (h : Counted k d e) : Counted k (markDrew d) (markDrew e) :=
  h.map fun _ => rfl

theorem cursorMoved_counted (h : Counted k d e) : Counted k (cursorMoved d) (cursorMoved e) := by
  subst h
  exact .ite rfl rfl rfl

theorem setDp_counted (h : Counted k d e) (x y : Int) : Counted k (setDp d x y) (setDp e x y) := by
  subst h
  exact .ite rfl rfl rfl

theorem textHome_counted (h : Counted k d e) : Counted k (textHome d) (textHome e) :=
  cursorMoved_counted (h.map (f := fun d => { d with
    text.cx := 0, text.cy := wrap32 (visYFx - cfH d) }) fun _ => rfl)

theorem scrollUp_counted (h : Counted k d e) (dyPx : Int) :
    Counted k (scrollUp d dyPx) (scrollUp e dyPx) := by
  subst h
  exact .ite rfl rfl (.ite rfl rfl rfl)

theorem scrollDown_counted (h : Counted k d e) (dyPx : Int) :
    Counted k (scrollDown d dyPx) (scrollDown e dyPx) := by
  subst h
  exact .ite rfl rfl (.ite rfl rfl rfl)

theorem withCy_counted (h : Counted k d e) (f : Display → Int)
    (hf : ∀ d : Display, f (d.count k) = f d) :
    Counted k { d with text.cy := f d } { e with text.cy := f e } :=
  h.map (f := fun d => { d with text.cy := f d }) fun d => by rw [hf]; rfl

theorem textLf_counted (h : Counted k d e) : Counted k (textLf d) (textLf e) := by
  subst h
  refine .ite rfl (.ite rfl (.ite rfl ?_ ?_) ?_) (.ite rfl ?_ ?_)
  · have hscroll := scrollUp_counted
      (d := { d with text.cy := wrap32 (d.text.cy - irStep d) }) (k := k) rfl (fxToPx (irStep d))
    exact cursorMoved_counted
      (withCy_counted hscroll (fun s => wrap32 (s.text.cy + irStep d)) fun _ => rfl)
  all_goals exact cursorMoved_counted rfl

theorem textRlf_counted (h : Counted k d e) : Counted k (textRlf d) (textRlf e) := by
  subst h
  refine .ite rfl (.ite rfl (.ite rfl ?_ ?_) ?_) (.ite rfl ?_ ?_)
  · have hscroll := scrollDown_counted
      (d := { d with text.cy := wrap32 (d.text.cy + irStep d) }) (k := k) rfl (fxToPx (irStep d))
    exact cursorMoved_counted
      (withCy_counted hscroll (fun s => wrap32 (s.text.cy - irStep d)) fun _ => rfl)
  all_goals exact cursorMoved_counted rfl

theorem textCr_counted (h : Counted k d e) : Counted k (textCr d) (textCr e) := by
  subst h
  have htext : (d.count k).text.path = d.text.path := rfl
  unfold textCr
  rw [htext]
  dsimp only
  split <;> exact cursorMoved_counted rfl

theorem textAdvanceCh_counted (h : Counted k d e) (ch : Nat) (haveCh : Bool) :
    Counted k (textAdvanceCh d ch haveCh) (textAdvanceCh e ch haveCh) := by
  subst h
  exact .ite rfl (cursorMoved_counted (textLf_counted (textCr_counted rfl)))
    (cursorMoved_counted rfl)

theorem textAdvance_counted (h : Counted k d e) : Counted k (textAdvance d) (textAdvance e) :=
  textAdvanceCh_counted h _ _

theorem pathBack_counted (h : Counted k d e) : Counted k (pathBack d) (pathBack e) := by
  subst h
  exact .ite rfl rfl rfl

theorem drawChar_counted (h : Counted k d e) (ch : Nat) :
    Counted k (drawChar d ch) (drawChar e ch) := by
  subst h
  have hcount (d : Display) :
      { d with st.charsDrawn := d.st.charsDrawn + 1 } = d.count { charsDrawn := 1 } := by
    simp [Display.count, Stats.plus]
  have hdrawn : Counted k { d with st.charsDrawn := d.st.charsDrawn + 1 }
      { d.count k with st.charsDrawn := (d.count k).st.charsDrawn + 1 } := by
    rw [hcount, hcount]
    exact Counted.count rfl _
  refine .ite rfl rfl (textAdvanceCh_counted ?_ _ _)
  exact hdrawn.map (f := fun s => { s with
    surf := paintChar d ch, everDrew := true
    text.lastSpacingChar := ch, text.haveLastSpacing := true }) fun _ => rfl

theorem textBs_counted (h : Counted k d e) : Counted k (textBs d) (textBs e) := by
  subst h
  have hback : pathBack (d.count k) = (pathBack d).count k := pathBack_counted rfl
  unfold textBs
  rw [hback]
  refine .ite rfl (.ite rfl ?_ ?_) (.ite rfl ?_ ?_)
  · exact cursorMoved_counted (textRlf_counted rfl)
  all_goals exact cursorMoved_counted rfl

theorem spaceChar_counted (h : Counted k d e) : Counted k (spaceChar d) (spaceChar e) := by
  subst h
  exact .ite rfl (drawChar_counted rfl _) (textAdvance_counted rfl)

theorem clearScreen_counted (h : Counted k d e) : Counted k (clearScreen d) (clearScreen e) := by
  subst h
  exact markDrew_counted (textHome_counted rfl)

theorem placeCursor_counted (h : Counted k d e) (cx cy cw ch : Int) :
    Counted k (placeCursor d cx cy cw ch) (placeCursor e cx cy cw ch) := by
  subst h
  exact cursorMoved_counted rfl

theorem repeatChar_counted (count : Nat) (h : Counted k d e) :
    Counted k (repeatChar count d) (repeatChar count e) := by
  induction count generalizing d e with
  | zero => exact h
  | succ count ih =>
      rw [repeatChar, repeatChar, h.text]
      exact ih (drawChar_counted h _)

theorem repeatToEol_counted (rounds : Nat) (h : Counted k d e) :
    Counted k (repeatToEol rounds d) (repeatToEol rounds e) := by
  induction rounds generalizing d e with
  | zero => exact h
  | succ rounds ih =>
      subst h
      have hdraw := drawChar_counted (k := k) (d := d) rfl d.text.lastSpacingChar
      refine .ite rfl rfl (.ite ?_ hdraw (ih hdraw))
      rw [show (d.count k).text = d.text from rfl, hdraw]
      rfl

/-! ### Executors -/

theorem mode0SetColor_counted (h : Counted k d e) (c : Color) :
    Counted k (mode0SetColor d c) (mode0SetColor e c) := by
  subst h
  have hsurf : (d.count k).surf = d.surf := rfl
  have hdraw : (d.count k).draw = d.draw := rfl
  unfold mode0SetColor
  rw [hsurf, hdraw]
  dsimp only
  cases (List.range cmapSize).find? fun i => decide (d.surf.cmap i = c) with
  | some i => rfl
  | none =>
      cases (List.range cmapSize).find? fun i =>
        !d.draw.cmapUsed i && i != d.draw.addrBlack && i != d.draw.addrWhite with
      | some i => rfl
      | none => exact skipped_counted rfl

theorem resetColorBits_counted (h : Counted k d e) (bits : Nat) :
    Counted k (resetColorBits d bits) (resetColorBits e bits) := by
  subst h
  unfold resetColorBits
  split <;> rfl

theorem clearBits_counted (h : Counted k d e) (bits : Nat) :
    Counted k (clearBits d bits) (clearBits e bits) := by
  subst h
  unfold clearBits
  split <;> rfl

theorem execReset_counted (h : Counted k d e) (p : Nat → Nat) (n : Nat) :
    Counted k (execReset d p n) (execReset e p n) := by
  have hdomain : ∀ c : Prop, [Decidable c] →
      Counted k (if c then resetDomain d else d) (if c then resetDomain e else e) := fun c _ =>
    .ite rfl (h.map fun _ => rfl) h
  have hbits := clearBits_counted (resetColorBits_counted (hdomain
    ((if n > 0 then p 0 % 64 else 0) % 2 = 1)) ((if n > 0 then p 0 % 64 else 0) / 2 % 4))
    ((if n > 0 then p 0 % 64 else 0) / 8 % 8)
  have htext := Counted.ite (c := (if n > 1 then p 1 % 64 else 0) % 2 = 1) rfl
    (textHome_counted (hbits.map (f := resetText) fun _ => rfl)) hbits
  exact .ite rfl (htext.map (f := resetTexture) fun _ => rfl) htext

theorem execDomain_counted (h : Counted k d e) (p : Nat → Nat) (n : Nat) :
    Counted k (execDomain d p n) (execDomain e p n) := by
  subst h
  exact .ite rfl rfl (.ite rfl rfl rfl)

theorem execText_counted (h : Counted k d e) (p : Nat → Nat) (n : Nat) :
    Counted k (execText d p n) (execText e p n) := by
  subst h
  refine .ite rfl rfl ?_
  have hattr : Counted k (setTextAttributes d (p 0 % 64) (if n > 1 then p 1 % 64 else 0))
      (setTextAttributes (d.count k) (p 0 % 64) (if n > 1 then p 1 % 64 else 0)) := rfl
  have hrot := Counted.ite (c := (setTextAttributes d (p 0 % 64)
    (if n > 1 then p 1 % 64 else 0)).text.rotation ≠ 0) rfl (skipped_counted hattr) hattr
  refine .ite ?_ (hrot.map (f := fun s => setCharSize s (unpackMulti s.dom (ptr p 2)))
    fun _ => rfl) hrot
  exact congrArg (fun dom : Domain => (if n > 2 then n - 2 else 0) ≥ dom.mvLen) hrot.dom.symm

theorem execTexture_counted (h : Counted k d e) (p : Nat → Nat) (n : Nat) :
    Counted k (execTexture d p n) (execTexture e p n) := by
  subst h
  exact .ite rfl rfl rfl

theorem execField_counted (h : Counted k d e) (p : Nat → Nat) (n : Nat) :
    Counted k (execField d p n) (execField e p n) := by
  subst h
  refine .ite rfl (setDp_counted rfl _ _) (.ite rfl (setDp_counted rfl _ _) ?_)
  have hskip : Counted k (if blocks d.dom.mvLen n > 2 then skipped d else d)
      (if blocks d.dom.mvLen n > 2 then skipped (d.count k) else d.count k) :=
    .ite rfl (skipped_counted rfl) rfl
  exact setDp_counted (hskip.map (f := fun s => setField s (unpackMulti d.dom p)
    (unpackMulti d.dom (ptr p d.dom.mvLen))) fun _ => rfl) _ _

theorem execSetColor_counted (h : Counted k d e) (p : Nat → Nat) (rep : Nat) :
    Counted k (execSetColor d p rep) (execSetColor e p rep) := by
  subst h
  have hdraw : (d.count k).draw = d.draw := rfl
  have hdom : (d.count k).dom = d.dom := rfl
  unfold execSetColor
  rw [hdraw, hdom]
  refine .ite rfl (mode0SetColor_counted rfl _) ?_
  cases cmapWalk rep d.draw.drawAddr with
  | some a => rfl
  | none => exact skipped_counted rfl

theorem execSelectColor_counted (h : Counted k d e) (p : Nat → Nat) (n : Nat) :
    Counted k (execSelectColor d p n) (execSelectColor e p n) := by
  subst h
  refine .ite rfl (mode0SetColor_counted rfl _) (.ite rfl rfl (.ite rfl (skipped_counted rfl) rfl))

theorem execWait_counted (h : Counted k d e) (p : Nat → Nat) (n : Nat) :
    Counted k (execWait d p n) (execWait e p n) := by
  subst h
  have hbad (d : Display) :
      { d with st.waitsMalformed := d.st.waitsMalformed + 1 } = d.count { waitsMalformed := 1 } := by
    simp [Display.count, Stats.plus]
  have hwait (d : Display) : { d with st.waits := d.st.waits + 1 } = d.count { waits := 1 } := by
    simp [Display.count, Stats.plus]
  refine .ite rfl rfl (.ite rfl ?_ ?_)
  · rw [hbad, hbad]
    exact Counted.count rfl _
  · generalize List.range (n - 1) = is
    suffices hrun : ∀ d e : Display, Counted k d e → Counted k
        (is.foldl (fun d i => { d with
          waitTenths := wrap32 (d.waitTenths + (p (i + 1) % 64 : Nat))
          st.waits := d.st.waits + 1 }) d)
        (is.foldl (fun d i => { d with
          waitTenths := wrap32 (d.waitTenths + (p (i + 1) % 64 : Nat))
          st.waits := d.st.waits + 1 }) e) from hrun _ _ rfl
    induction is with
    | nil => exact fun _ _ h => h
    | cons i is ih =>
        intro d e h
        refine ih _ _ ?_
        have hcounted : Counted k { d with st.waits := d.st.waits + 1 }
            { e with st.waits := e.st.waits + 1 } := by
          rw [hwait, hwait]
          exact h.count _
        exact hcounted.map (f := fun d => { d with
          waitTenths := wrap32 (d.waitTenths + (p (i + 1) % 64 : Nat)) }) fun _ => rfl

/-! ### Primitives -/

theorem primPoint_counted (h : Counted k d e) (op : Nat) (p : Nat → Nat) :
    Counted k (primPoint d op p) (primPoint e op p) := by
  subst h
  exact setDp_counted (.ite rfl (markDrew_counted rfl) rfl) _ _

theorem primLine_counted (h : Counted k d e) (op : Nat) (p : Nat → Nat) :
    Counted k (primLine d op p) (primLine e op p) := by
  subst h
  exact setDp_counted (markDrew_counted rfl) _ _

theorem paintPath_counted (h : Counted k d e) (pts : List (Int × Int)) (filled closed : Bool) :
    Counted k (paintPath d pts filled closed) (paintPath e pts filled closed) := by
  subst h
  exact .ite rfl rfl rfl

theorem paintRect_counted (h : Counted k d e) (filled : Bool) (px py pw ph : Int) :
    Counted k (paintRect d filled px py pw ph) (paintRect e filled px py pw ph) := by
  subst h
  exact .ite rfl rfl (paintPath_counted rfl _ _ _)

theorem primRect_counted (h : Counted k d e) (op : Nat) (p : Nat → Nat) :
    Counted k (primRect d op p) (primRect e op p) := by
  subst h
  exact setDp_counted (markDrew_counted (paintRect_counted rfl _ _ _ _ _)) _ _

theorem paintLongPath_counted (h : Counted k d e) (pts : List (Int × Int)) (filled closed : Bool) :
    Counted k (paintLongPath d pts filled closed) (paintLongPath e pts filled closed) :=
  .ite rfl (markDrew_counted (paintPath_counted h _ _ _)) h

theorem primArc_counted (arc : ArcPoints) (h : Counted k d e) (op : Nat) (p : Nat → Nat) (n : Nat) :
    Counted k (primArc arc d op p n) (primArc arc e op p n) := by
  subst h
  refine .ite rfl (operandShort_counted rfl) (.ite rfl ?_ ?_)
  · exact setDp_counted (skipped_counted (markDrew_counted (paintPath_counted rfl _ _ _))) _ _
  · exact setDp_counted (paintLongPath_counted rfl _ _ _) _ _

theorem primPoly_counted (h : Counted k d e) (op : Nat) (p : Nat → Nat) (n : Nat) :
    Counted k (primPoly d op p n) (primPoly e op p n) := by
  subst h
  exact .ite rfl (operandShort_counted rfl) (setDp_counted (paintLongPath_counted rfl _ _ _) _ _)

theorem pdiSwitch_counted (arc : ArcPoints) (h : Counted k d e) (op : Nat) (p : Nat → Nat)
    (n rep : Nat) : Counted k (pdiSwitch arc d op p n rep) (pdiSwitch arc e op p n rep) := by
  have hexec {d e : Display} (h : Counted k d e) :
      Counted k { d with st.pdiExecuted := d.st.pdiExecuted + 1 }
        { e with st.pdiExecuted := e.st.pdiExecuted + 1 } := by
    have hcount (d : Display) :
        { d with st.pdiExecuted := d.st.pdiExecuted + 1 } = d.count { pdiExecuted := 1 } := by
      simp [Display.count, Stats.plus]
    rw [hcount, hcount]
    exact h.count _
  simp only [pdiSwitch]
  split
  · exact hexec (execReset_counted h p n)
  · exact hexec (execDomain_counted h p n)
  · exact hexec (execText_counted h p n)
  · exact hexec (execTexture_counted h p n)
  iterate 4 exact hexec (primPoint_counted h _ p)
  iterate 4 exact hexec (primLine_counted h _ p)
  iterate 4 exact hexec (primArc_counted arc h _ p n)
  iterate 4 exact hexec (primRect_counted h _ p)
  iterate 4 exact hexec (primPoly_counted h _ p n)
  · exact hexec (execField_counted h p n)
  · exact hexec (execSetColor_counted h p rep)
  · exact hexec (execWait_counted h p n)
  · exact hexec (execSelectColor_counted h p n)
  · exact skipped_counted h

end

/-! ### The decoder -/

/-- `e` is `d` with `k` more counted. -/
def Decoder.Counted (k : Stats) (d e : Decoder) : Prop := e = onDisplay d (Display.count · k)

section

variable {arc : ArcPoints} {k : Stats} {d e : Decoder}

theorem Decoder.Counted.onDisplay (h : Decoder.Counted k d e) {f : Display → Display}
    (hf : ∀ {d e : Display}, Naplps.Counted k d e → Naplps.Counted k (f d) (f e)) :
    Decoder.Counted k (Naplps.onDisplay d f) (Naplps.onDisplay e f) := by
  subst h
  exact congrArg (fun disp => { d with disp := disp }) (hf rfl)

/-- A change outside of the display. -/
theorem Decoder.Counted.map (h : Decoder.Counted k d e) {f : Decoder → Decoder}
    (hf : ∀ d : Decoder, f (Naplps.onDisplay d (Display.count · k)) =
      Naplps.onDisplay (f d) (Display.count · k)) : Decoder.Counted k (f d) (f e) := by
  rw [Decoder.Counted, h, hf]

theorem Decoder.Counted.edit (h : Decoder.Counted k d e) {f : Display → Display}
    (hf : ∀ d : Display, f (d.count k) = (f d).count k) :
    Decoder.Counted k (Naplps.onDisplay d f) (Naplps.onDisplay e f) :=
  h.onDisplay fun h => h.map hf

theorem Decoder.Counted.ite {c c' : Prop} [Decidable c] [Decidable c'] {a b : Decoder} (hc : c = c')
    (ht : Decoder.Counted k d e) (hf : Decoder.Counted k a b) :
    Decoder.Counted k (if c then d else a) (if c' then e else b) := by
  cases hc
  by_cases hcond : c
  · rw [if_pos hcond, if_pos hcond]
    exact ht
  · rw [if_neg hcond, if_neg hcond]
    exact hf

theorem pdiExecuteSet_counted (h : Decoder.Counted k d e) (op : Nat) (p : Nat → Nat) (n rep : Nat) :
    Decoder.Counted k (pdiExecuteSet arc d op p n rep) (pdiExecuteSet arc e op p n rep) := by
  subst h
  exact congrArg (fun disp => ({ d with
    disp := disp, trace := d.trace ++ [(op, (List.range n).map p)] } : Decoder))
    (pdiSwitch_counted arc rfl op p n rep)

theorem executeRest_counted (h : Decoder.Counted k d e) (op : Nat) :
    Decoder.Counted k (executeRest arc d op) (executeRest arc e op) := by
  have hshort := h.onDisplay operandShort_counted
  subst h
  exact .ite rfl (pdiExecuteSet_counted rfl _ _ _ _) (.ite rfl
    (pdiExecuteSet_counted hshort _ _ _ _) (.ite rfl (pdiExecuteSet_counted rfl _ _ _ _)
      (.ite rfl (pdiExecuteSet_counted rfl _ _ _ _) rfl)))

theorem pdiTerminate_counted (h : Decoder.Counted k d e) :
    Decoder.Counted k (pdiTerminate arc d) (pdiTerminate arc e) := by
  subst h
  have hop : (onDisplay d (Display.count · k)).pdi.op = d.pdi.op := rfl
  unfold pdiTerminate
  rw [hop]
  cases d.pdi.op with
  | none => rfl
  | some op =>
      have hrest : Decoder.Counted k (executeRest arc (setOpenOp d none) op)
          (executeRest arc (setOpenOp (onDisplay d (Display.count · k)) none) op) :=
        executeRest_counted rfl op
      exact hrest.map (f := emptyStore) fun _ => rfl

theorem pdiOpcode_counted (h : Decoder.Counted k d e) (b : Nat) :
    Decoder.Counted k (pdiOpcode arc d b) (pdiOpcode arc e b) :=
  (pdiTerminate_counted h).map (f := fun d => emptyStore (setOpenOp d (some b))) fun _ => rfl

theorem executeSets_counted (op need rounds : Nat) (h : Decoder.Counted k d e) :
    Decoder.Counted k (executeSets arc op need rounds d) (executeSets arc op need rounds e) := by
  induction rounds generalizing d e with
  | zero => exact h
  | succ rounds ih =>
      subst h
      refine .ite rfl (ih ?_) rfl
      exact (pdiExecuteSet_counted rfl op d.pdi.opbuf need d.pdi.reps).map
        (f := fun s => { s with pdi := shiftSet d.pdi need }) fun _ => rfl

theorem pdiOperand_counted (h : Decoder.Counted k d e) (b : Nat) :
    Decoder.Counted k (pdiOperand arc d b) (pdiOperand arc e b) := by
  subst h
  have hop : (onDisplay d (Display.count · k)).pdi.op = d.pdi.op := rfl
  unfold pdiOperand
  rw [hop]
  cases d.pdi.op with
  | none => rfl
  | some op => exact .ite rfl (.ite rfl rfl (.ite rfl rfl (executeSets_counted _ _ _ rfl))) rfl

theorem handleGraphic_counted (h : Decoder.Counted k d e) (b slot : Nat) :
    Decoder.Counted k (handleGraphic arc d b slot) (handleGraphic arc e b slot) := by
  subst h
  have hterm := @pdiTerminate_counted arc k (setShift d none) _ rfl
  have hset : (setShift (onDisplay d (Display.count · k)) none).code.gset = d.code.gset := rfl
  unfold handleGraphic
  dsimp only
  rw [hset, show (setShift d none).code.gset = d.code.gset from rfl]
  cases d.code.gset (slot % 4) with
  | primary =>
      exact .ite rfl rfl (.ite rfl (Decoder.Counted.onDisplay rfl spaceChar_counted)
        (Decoder.Counted.onDisplay rfl fun h => drawChar_counted h b))
  | pdi => exact .ite rfl (pdiOperand_counted rfl b) (pdiOpcode_counted rfl b)
  | supp | mosaic | macros | drcs => exact hterm.onDisplay skipped_counted
  | null => exact hterm

theorem handleC0_counted (h : Decoder.Counted k d e) (b : Nat) :
    Decoder.Counted k (handleC0 arc d b) (handleC0 arc e b) := by
  have hterm := @pdiTerminate_counted arc _ _ _ h
  have hcode : (pdiTerminate arc e).code = (pdiTerminate arc d).code := by
    rw [hterm]
    rfl
  subst h
  refine .ite rfl rfl (.ite rfl rfl (.ite ?_ hterm ?_))
  · rw [hcode]
  · split
    · exact hterm.onDisplay textBs_counted
    · exact hterm.onDisplay textAdvance_counted
    · exact hterm.onDisplay textLf_counted
    · exact hterm.onDisplay textRlf_counted
    · exact hterm.onDisplay clearScreen_counted
    · exact hterm.onDisplay textCr_counted
    iterate 2 exact hterm.map (f := (lockGl · _)) fun _ => rfl
    · exact hterm.map (f := (setShift · _)) fun _ => rfl
    · exact hterm.map (f := (openPend · _)) fun _ => rfl
    · exact hterm.map (f := (setShift · _)) fun _ => rfl
    · exact hterm.onDisplay textHome_counted
    · exact hterm.map (f := (openPend · _)) fun _ => rfl
    · exact hterm

theorem nsrReset_counted (h : Decoder.Counted k d e) :
    Decoder.Counted k (nsrReset d) (nsrReset e) := by
  subst h
  rfl

theorem doC1_counted (h : Decoder.Counted k d e) (col row : Nat) :
    Decoder.Counted k (doC1 d col row) (doC1 e col row) := by
  have hskip := h.onDisplay skipped_counted
  refine .ite rfl ?_ ?_
  · split
    iterate 4 exact hskip.map (f := (setSwallow · true)) fun _ => rfl
    · exact hskip
    · exact h.map (f := (setSwallow · false)) fun _ => rfl
    · exact h.map (f := (openPend · .rep)) fun _ => rfl
    · rw [show e.disp.text = d.disp.text by rw [h]; rfl]
      exact .ite rfl (h.onDisplay (repeatToEol_counted 256)) hskip
    iterate 2 exact h.edit fun _ => rfl
    iterate 4 exact h.edit fun _ => rfl
    · exact hskip
    · exact h.edit fun _ => rfl
    · exact h
  · split
    · exact hskip
    iterate 6 exact h.edit fun _ => rfl
    · exact hskip
    · exact h

theorem feedMain_counted (h : Decoder.Counted k d e) (b : Nat) :
    Decoder.Counted k (feedMain arc d b) (feedMain arc e b) := by
  have hdraw := h.onDisplay fun h => drawChar_counted h b
  have hc0 := @handleC0_counted arc _ _ _ h b
  have hc1 := doC1_counted (@pdiTerminate_counted arc _ _ _ h) (b / 16 % 16 - 4) (b % 16)
  subst h
  refine .ite rfl (.ite rfl rfl (.ite rfl hc0 (.ite rfl rfl hdraw))) (.ite rfl hc0 ?_)
  exact .ite rfl (.ite rfl rfl hc1) (.ite rfl rfl (.ite rfl (handleGraphic_counted rfl _ _)
    (handleGraphic_counted rfl _ _)))

theorem nsrAddress_counted (h : Decoder.Counted k d e) (b0 b1 : Nat) :
    Decoder.Counted k (nsrAddress d b0 b1) (nsrAddress e b0 b1) := by
  have hreset := nsrReset_counted h
  exact .ite rfl hreset (hreset.onDisplay fun h => placeCursor_counted h _ _ _ _)

theorem apsAddress_counted (h : Decoder.Counted k d e) (b0 b1 : Nat) :
    Decoder.Counted k (apsAddress d b0 b1) (apsAddress e b0 b1) := by
  have hplace (cx cy cw ch : Int) := h.onDisplay fun h => placeCursor_counted h cx cy cw ch
  subst h
  exact .ite rfl rfl (.ite rfl rfl (hplace _ _ _ _))

theorem handleRepeat_counted (h : Decoder.Counted k d e) (b : Nat) (isCtrl : Bool) :
    Decoder.Counted k (handleRepeat arc d b isCtrl) (handleRepeat arc e b isCtrl) := by
  have hskip := h.onDisplay skipped_counted
  refine .ite rfl (feedMain_counted hskip b) (.ite ?_ (h.onDisplay (repeatChar_counted _)) hskip)
  rw [h]
  rfl

theorem handlePending_counted (h : Decoder.Counted k d e) (b : Nat) :
    Decoder.Counted k (handlePending arc d b) (handlePending arc e b) := by
  have hpend := h.map (f := (openPend · .none)) fun _ => rfl
  have hstore := (h.map (f := (storePend · (b % 128))) fun _ => rfl)
  have hclosed := hstore.map (f := (openPend · .none)) fun _ => rfl
  have hnsr := nsrReset_counted hpend
  subst h
  refine .ite rfl (handleRepeat_counted rfl b _) (.ite rfl (feedMain_counted ?_ b) (.ite rfl hstore
    (.ite rfl (nsrAddress_counted hclosed _ _) (apsAddress_counted hclosed _ _))))
  exact .ite rfl hnsr hpend

/-- A decoder that has counted more behaves as the other one does. -/
theorem feedPlain_counted (h : Decoder.Counted k d e) (b : Nat) :
    Decoder.Counted k (feedPlain arc d b) (feedPlain arc e b) := by
  have hpending := @handlePending_counted arc _ _ _ h b
  have hmain := @feedMain_counted arc _ _ _ h b
  subst h
  exact .ite rfl hpending hmain

end

end UnicornSuite.Naplps
