import UnicornSuite.NaplpsOperands

/-! What the code extension state of a reachable decoder satisfies: an escape sequence that is closed
has no intermediates, one that is open was not opened inside of an operand of a control, and while such
an operand or the end of a definition is awaited no picture description sequence is open. -/

namespace UnicornSuite.Naplps

structure Decoder.Regular (d : Decoder) : Prop where
  esclen : d.code.escstate = .none → d.code.esclen = 0
  escPend : d.code.escstate = .seen → d.code.pend = .none
  pendOp : d.code.pend ≠ .none → d.pdi.op = none
  skip : d.code.swallow = true → d.pdi.op = none ∧ d.code.pend = .none

section

variable {arc : ArcPoints} {d : Decoder}

/-! ### What the parts of a step leave alone -/

@[simp] theorem pdiTerminate_op (d : Decoder) : (pdiTerminate arc d).pdi.op = none := by
  unfold pdiTerminate
  split
  · assumption
  · exact congrArg PdiSeq.op (executeRest_pdi _ _)

theorem pdiTerminate_of_closed (h : d.pdi.op = none) : pdiTerminate arc d = d := by
  rw [pdiTerminate, h]

theorem executeSets_code (op need rounds : Nat) (d : Decoder) :
    (executeSets arc op need rounds d).code = d.code := by
  induction rounds generalizing d with
  | zero => rfl
  | succ rounds ih =>
      rw [executeSets]
      split_ifs
      · exact ih _
      · rfl

theorem pdiOperand_code (d : Decoder) (b : Nat) : (pdiOperand arc d b).code = d.code := by
  unfold pdiOperand
  split
  · rfl
  · dsimp only
    split_ifs
    iterate 2 rfl
    · exact executeSets_code _ _ _ _
    · rfl

/-! ### The parts of a step -/

theorem Decoder.Regular.onDisplay (h : d.Regular) (f : Display → Display) :
    (onDisplay d f).Regular := ⟨h.esclen, h.escPend, h.pendOp, h.skip⟩

theorem Decoder.Regular.terminate (h : d.Regular) : (pdiTerminate arc d).Regular := by
  have hcode : (pdiTerminate arc d).code = d.code := pdiTerminate_code d
  have hop : (pdiTerminate arc d).pdi.op = none := pdiTerminate_op d
  constructor <;> rw [hcode]
  · exact h.esclen
  · exact h.escPend
  · exact fun _ => hop
  · exact fun hskip => ⟨hop, (h.skip hskip).2⟩

theorem Decoder.Regular.openPend (h : d.Regular) (hop : d.pdi.op = none)
    (hesc : d.code.escstate = .none) (hskip : d.code.swallow = false) (kind : Pend) :
    (openPend d kind).Regular where
  esclen := h.esclen
  escPend := fun hseen => by
    rw [show (Naplps.openPend d kind).code.escstate = d.code.escstate from rfl, hesc] at hseen
    cases hseen
  pendOp := fun _ => hop
  skip := fun hskip' => by
    rw [show (Naplps.openPend d kind).code.swallow = d.code.swallow from rfl, hskip] at hskip'
    cases hskip'

theorem Decoder.Regular.closePend (h : d.Regular) : (Naplps.openPend d .none).Regular where
  esclen := h.esclen
  escPend := fun _ => rfl
  pendOp := fun hpend => absurd rfl hpend
  skip := fun hskip => ⟨(h.skip hskip).1, rfl⟩

theorem Decoder.Regular.startSkip (h : d.Regular) (hop : d.pdi.op = none)
    (hpend : d.code.pend = .none) : (setSwallow d true).Regular :=
  { h with skip := fun _ => ⟨hop, hpend⟩ }

theorem Decoder.Regular.openEsc (h : d.Regular) (hpend : d.code.pend = .none) :
    (openEsc d).Regular where
  esclen := fun _ => rfl
  escPend := fun _ => hpend
  pendOp := h.pendOp
  skip := h.skip

theorem doC1_regular (h : d.Regular) (hop : d.pdi.op = none) (hpend : d.code.pend = .none)
    (hesc : d.code.escstate = .none) (col row : Nat)
    (hskip : d.code.swallow = true → col = 4 ∧ isDefTerminator row) : (doC1 d col row).Regular := by
  have hdisp := h.onDisplay
  unfold doC1
  split
  · split
    iterate 4 exact (hdisp skipped).startSkip hop hpend
    · exact hdisp skipped
    · exact { h with skip := fun hno => by cases hno }
    · refine h.openPend hop hesc ?_ .rep
      by_contra hon
      have := (hskip (by simpa using hon)).2
      revert this
      decide
    · split
      · exact hdisp _
      · exact hdisp _
    iterate 8 exact hdisp _
    · exact h
  · split
    iterate 8 exact hdisp _
    · exact h

theorem handleGraphic_regular (h : d.Regular) (hpend : d.code.pend = .none)
    (hskip : d.code.swallow = false) (b slot : Nat) : (handleGraphic arc d b slot).Regular := by
  have h1 : (setShift d none).Regular := { h with }
  have hterm := @Decoder.Regular.terminate arc _ h1
  have hskip1 : ¬(setShift d none).code.swallow = true := by
    rw [show (setShift d none).code.swallow = d.code.swallow from rfl, hskip]
    decide
  have hpend1 : ¬(setShift d none).code.pend ≠ .none := fun hne => hne hpend
  unfold handleGraphic
  dsimp only
  split
  · split_ifs
    · exact h1
    · exact { h1 with }
    · exact { h1 with }
  · split_ifs
    · constructor <;> rw [pdiOperand_code]
      · exact h1.esclen
      · exact h1.escPend
      · exact fun hne => absurd hne hpend1
      · exact fun hon => absurd hon hskip1
    · refine ⟨hterm.esclen, hterm.escPend, ?_, ?_⟩
      · intro hne
        rw [show (pdiOpcode arc (setShift d none) b).code = (pdiTerminate arc (setShift d none)).code
          from rfl, pdiTerminate_code] at hne
        exact absurd hne hpend1
      · intro hon
        rw [show (pdiOpcode arc (setShift d none) b).code = (pdiTerminate arc (setShift d none)).code
          from rfl, pdiTerminate_code] at hon
        exact absurd hon hskip1
  iterate 4 exact { hterm with }
  · exact hterm

theorem handleC0_regular (h : d.Regular) (hpend : d.code.pend = .none)
    (hesc : d.code.escstate = .none) (b : Nat) : (handleC0 arc d b).Regular := by
  have hterm := @Decoder.Regular.terminate arc _ h
  have hop : (pdiTerminate arc d).pdi.op = none := pdiTerminate_op d
  unfold handleC0
  split
  · exact h
  · split
    · exact h.openEsc hpend
    · dsimp only
      rw [pdiTerminate_code]
      split
      · exact hterm
      · next hskip =>
          have hesc1 : (pdiTerminate arc d).code.escstate = .none := by rw [pdiTerminate_code, hesc]
          have hskip1 : (pdiTerminate arc d).code.swallow = false := by
            rw [pdiTerminate_code]
            simpa using hskip
          split
          iterate 6 exact { hterm with }
          iterate 3 exact { hterm with }
          · exact hterm.openPend hop hesc1 hskip1 .aps
          · exact { hterm with }
          · exact { hterm with }
          · exact hterm.openPend hop hesc1 hskip1 .nsr
          · exact hterm

theorem feedMain_regular (h : d.Regular) (hpend : d.code.pend = .none)
    (hesc : d.code.escstate = .none) (b : Nat) : (feedMain arc d b).Regular := by
  have hterm := @Decoder.Regular.terminate arc _ h
  unfold feedMain
  split
  · split_ifs
    · exact h.openEsc hpend
    · exact handleC0_regular h hpend hesc b
    · exact h
    · exact { h with }
  · split_ifs with _ _ hskip
    · exact handleC0_regular h hpend hesc b
    · dsimp only
      split_ifs with hoff
      · exact h
      · refine doC1_regular hterm (pdiTerminate_op d) (by rw [pdiTerminate_code, hpend])
          (by rw [pdiTerminate_code, hesc]) _ _ fun hon => ?_
        rw [pdiTerminate_code] at hon
        tauto
    · exact h
    · exact handleGraphic_regular h hpend (by simpa using hskip) _ _
    · exact handleGraphic_regular h hpend (by simpa using hskip) _ _

theorem nsrReset_regular (h : d.Regular) : (nsrReset d).Regular :=
  ⟨h.esclen, h.escPend, h.pendOp, h.skip⟩

theorem nsrAddress_regular (h : d.Regular) (b0 b1 : Nat) : (nsrAddress d b0 b1).Regular := by
  have hreset := nsrReset_regular h
  unfold nsrAddress
  dsimp only
  split
  · exact hreset
  · exact hreset.onDisplay _

theorem apsAddress_regular (h : d.Regular) (b0 b1 : Nat) : (apsAddress d b0 b1).Regular := by
  unfold apsAddress
  dsimp only
  split_ifs
  · exact h
  · exact h
  · exact { h with }

theorem handleRepeat_regular (h : d.Regular) (hpend : d.code.pend = .none)
    (hesc : d.code.escstate = .none) (b : Nat) (isCtrl : Bool) :
    (handleRepeat arc d b isCtrl).Regular := by
  rw [handleRepeat]
  split_ifs
  · exact feedMain_regular (d := onDisplay d skipped) { h with } hpend hesc b
  · exact { h with }
  · exact { h with }

theorem handlePending_regular (h : d.Regular) (hesc : d.code.escstate = .none)
    (hpend : d.code.pend ≠ .none) (b : Nat) : (handlePending arc d b).Regular := by
  have hskip : ¬d.code.swallow = true := fun hon => hpend (h.skip hon).2
  have hdrop : (dropPend d).Regular :=
    ⟨h.esclen, fun _ => rfl, fun hne => absurd rfl hne, fun hon => absurd hon hskip⟩
  have hstore : (storePend d (b % 128)).Regular := ⟨h.esclen, h.escPend, h.pendOp, h.skip⟩
  unfold handlePending
  dsimp only
  split_ifs
  · exact handleRepeat_regular hdrop rfl hesc b _
  · exact feedMain_regular (nsrReset_regular h.closePend) rfl hesc b
  · exact feedMain_regular h.closePend rfl hesc b
  · exact hstore
  · exact nsrAddress_regular hstore.closePend _ _
  · exact apsAddress_regular hstore.closePend _ _

theorem feedPlain_regular (h : d.Regular) (hesc : d.code.escstate = .none) (b : Nat) :
    (feedPlain arc d b).Regular := by
  rw [feedPlain]
  split_ifs with hpend
  · exact handlePending_regular h hesc hpend b
  · exact feedMain_regular h (not_not.mp hpend) hesc b

theorem escPlainFinal_regular (h : d.Regular) (hpend : d.code.pend = .none)
    (hesc : d.code.escstate = .none) (b : Nat) : (escPlainFinal arc d b).Regular := by
  have hterm := @Decoder.Regular.terminate arc _ h
  unfold escPlainFinal
  split
  iterate 8 exact { hterm with }
  · dsimp only
    split_ifs with _ hoff
    · exact h
    · refine doC1_regular hterm (pdiTerminate_op d) (by rw [pdiTerminate_code, hpend])
        (by rw [pdiTerminate_code, hesc]) _ _ fun hon => ?_
      rw [pdiTerminate_code] at hon
      tauto
    · exact { h with }

theorem escFinal_regular (h : d.Regular) (i0 b : Nat) : (escFinal arc d i0 b).Regular := by
  have hterm := @Decoder.Regular.terminate arc _ h
  have hbegin : (beginTextPresentation (pdiTerminate arc d)).Regular :=
    ⟨hterm.esclen, hterm.escPend, hterm.pendOp, hterm.skip⟩
  unfold escFinal
  split
  · exact h
  · split
    · unfold escCompleteCode
      dsimp only
      split_ifs
      · exact { hterm with }
      · exact { hbegin with }
      · exact { hterm with }
      · exact { hterm with }
    iterate 7 exact { hterm with }
    iterate 2 exact h
    · exact { h with }

theorem closeEsc_regular (h : d.Regular) : (closeEsc d).Regular :=
  ⟨fun _ => rfl, fun hseen => EscState.noConfusion hseen, h.pendOp, h.skip⟩

theorem escByte_regular (h : d.Regular) (hseen : d.code.escstate = .seen) (b : Nat) :
    (escByte arc d b).Regular := by
  have hclose := closeEsc_regular h
  have hpend : (closeEsc d).code.pend = .none := h.escPend hseen
  unfold escByte
  split_ifs
  · refine ⟨fun hnone => ?_, h.escPend, h.pendOp, h.skip⟩
    rw [show (storeIntermediate d b).code.escstate = d.code.escstate from rfl, hseen] at hnone
    cases hnone
  · exact h
  · exact escPlainFinal_regular hclose hpend rfl b
  · exact escFinal_regular hclose _ b
  · exact feedPlain_regular (d := escMalformed (closeEsc d)) { hclose with } rfl b

theorem feedByte_regular (h : d.Regular) (b : Nat) : (feedByte arc d b).Regular := by
  have hselect : (selectEnvironment d b).Regular := ⟨h.esclen, h.escPend, h.pendOp, h.skip⟩
  unfold feedByte
  dsimp only
  split
  · next hseen => exact escByte_regular hselect hseen _
  · next hnone =>
      refine feedPlain_regular hselect ?_ _
      cases hesc : (selectEnvironment d b).code.escstate with
      | none => rfl
      | seen => exact absurd hesc hnone

theorem feedOne_regular (h : d.Regular) (b : UInt8) : (feedOne arc d b).Regular :=
  feedByte_regular (d := onDisplay d countByte) { h with } _

/-- The masking of the 7-bit environment never applies: a byte with bit 8 set has already ended that
environment. -/
theorem feedByte_raw (d : Decoder) {b : Nat} (hb : b < 256) :
    feedByte arc d b =
      if d.code.escstate = .seen then escByte arc (selectEnvironment d b) (b % 128)
      else feedPlain arc (selectEnvironment d b) b := by
  have hbyte : (if (selectEnvironment d b).code.eightbit then b else b % 128) = b := by
    split_ifs with hbit
    · rfl
    · simp only [selectEnvironment, Bool.or_eq_true, beq_iff_eq, not_or] at hbit
      omega
  unfold feedByte
  dsimp only
  rw [hbyte]
  rfl

/-! ### Runs -/

theorem reset_regular (d : Decoder) : (reset d).Regular :=
  ⟨fun _ => rfl, fun _ => rfl, fun _ => rfl, fun _ => ⟨rfl, rfl⟩⟩

theorem feed_regular (h : d.Regular) (buf : List UInt8) : (feed arc d buf).Regular :=
  Machine.run_inv (I := Decoder.Regular) (fun _ b h => feedOne_regular h b) h buf

theorem step_regular (h : d.Regular) (ev : Event) : (step arc d ev).Regular := by
  cases ev with
  | feed buf => exact feed_regular h buf
  | flush => exact h.terminate
  | reset => exact reset_regular d
  | takeWait => exact { h with }

theorem run_regular (arc : ArcPoints) (es : List Event) :
    (Machine.run (step arc) create es).Regular :=
  Machine.run_inv (I := Decoder.Regular) (fun _ ev h => step_regular h ev) (reset_regular _) es

end

end UnicornSuite.Naplps
