import UnicornSuite.NaplpsRange
import UnicornSuite.NaplpsSegmentation

/-! Coordinates over a whole byte stream. The sizes stay within the unit screen whatever the stream
does, so that every coordinate fits 32 bits as long as each call starts from points that are
`headroom` or more away from the ends of the range. Relative commands add up, and nothing stops them
there: a stream of relative POINTs carries the drawing point out of the range. -/

namespace UnicornSuite.Naplps

open CInt Machine

/-! ### Sizes are kept -/

section

variable (d : Display)

@[simp] theorem scrollUp_attributes (dy : Int) : attributes (scrollUp d dy) = attributes d := by
  unfold scrollUp
  split_ifs <;> rfl

@[simp] theorem scrollDown_attributes (dy : Int) : attributes (scrollDown d dy) = attributes d := by
  unfold scrollDown
  split_ifs <;> rfl

/-- Moving the cursor concerns no attribute. -/
@[simp] theorem withCx_attributes (x : Int) :
    attributes { d with text.cx := x } = attributes d := rfl

@[simp] theorem withCy_attributes (y : Int) :
    attributes { d with text.cy := y } = attributes d := rfl

@[simp] theorem textLf_attributes : attributes (textLf d) = attributes d := by
  unfold textLf
  dsimp only
  split_ifs <;> simp

@[simp] theorem textRlf_attributes : attributes (textRlf d) = attributes d := by
  unfold textRlf
  dsimp only
  split_ifs <;> simp

@[simp] theorem textHome_attributes : attributes (textHome d) = attributes d := cursorMoved_attributes _

@[simp] theorem textAdvanceCh_attributes (ch : Nat) (haveCh : Bool) :
    attributes (textAdvanceCh d ch haveCh) = attributes d := by
  unfold textAdvanceCh
  dsimp only
  split_ifs
  · simp only [cursorMoved_attributes, textLf_attributes, textCr_attributes]
    rfl
  · rw [cursorMoved_attributes]
    rfl

@[simp] theorem textBs_attributes : attributes (textBs d) = attributes d := by
  unfold textBs
  dsimp only
  split_ifs <;> simp

@[simp] theorem drawChar_textSizes (ch : Nat) : textSizes (drawChar d ch) = textSizes d := by
  unfold drawChar
  dsimp only
  split_ifs
  · rfl
  · exact (textSizes_of_attributes (textAdvanceCh_attributes _ _ _)).trans rfl

@[simp] theorem spaceChar_textSizes : textSizes (spaceChar d) = textSizes d := by
  unfold spaceChar
  dsimp only
  split_ifs
  · exact (drawChar_textSizes _ _).trans rfl
  · exact (textSizes_of_attributes (textAdvanceCh_attributes _ _ _)).trans rfl

@[simp] theorem placeCursor_attributes (cx cy cw ch : Int) :
    attributes (placeCursor d cx cy cw ch) = attributes d := by
  unfold placeCursor
  dsimp only
  rw [cursorMoved_attributes]
  rfl

@[simp] theorem setDp_attributes (x y : Int) : attributes (setDp d x y) = attributes d := by
  unfold setDp dpMoved
  split_ifs <;> rfl

@[simp] theorem mode0SetColor_attributes (c : Color) :
    attributes (mode0SetColor d c) = attributes d := by
  unfold mode0SetColor
  dsimp only
  split
  · rfl
  · split <;> rfl

/-! ### Executors -/

@[simp] theorem resetColorBits_attributes (bits : Nat) :
    attributes (resetColorBits d bits) = attributes d := by
  unfold resetColorBits
  split <;> rfl

@[simp] theorem clearBits_attributes (bits : Nat) : attributes (clearBits d bits) = attributes d := by
  unfold clearBits
  split <;> rfl

theorem execWait_attributes (p : Nat → Nat) (n : Nat) : attributes (execWait d p n) = attributes d := by
  unfold execWait
  split_ifs
  · rfl
  · rfl
  · exact List.foldlRecOn (motive := (attributes · = attributes d)) _ _ rfl fun _ h _ _ => h

theorem execDomain_attributes (p : Nat → Nat) (n : Nat) :
    attributes (execDomain d p n) = attributes d := by
  unfold execDomain
  dsimp only
  split_ifs <;> rfl

theorem execTexture_attributes (p : Nat → Nat) (n : Nat) :
    attributes (execTexture d p n) = attributes d := by
  unfold execTexture
  split_ifs <;> rfl

theorem execSelectColor_attributes (p : Nat → Nat) (n : Nat) :
    attributes (execSelectColor d p n) = attributes d := by
  unfold execSelectColor
  dsimp only
  split_ifs
  · exact mode0SetColor_attributes _ _
  · rfl
  · rfl
  · rfl

theorem execSetColor_attributes (p : Nat → Nat) (rep : Nat) :
    attributes (execSetColor d p rep) = attributes d := by
  unfold execSetColor
  dsimp only
  split_ifs
  · exact mode0SetColor_attributes _ _
  · split <;> rfl

@[simp] theorem paintPath_attributes (pts : List (Int × Int)) (filled closed : Bool) :
    attributes (paintPath d pts filled closed) = attributes d := by
  unfold paintPath
  split_ifs <;> rfl

@[simp] theorem paintLongPath_attributes (pts : List (Int × Int)) (filled closed : Bool) :
    attributes (paintLongPath d pts filled closed) = attributes d := by
  unfold paintLongPath
  split_ifs
  · exact paintPath_attributes d pts filled closed
  · rfl

theorem primPoint_attributes (op : Nat) (p : Nat → Nat) :
    attributes (primPoint d op p) = attributes d := by
  unfold primPoint
  dsimp only
  rw [setDp_attributes]
  split_ifs <;> rfl

theorem primLine_attributes (op : Nat) (p : Nat → Nat) :
    attributes (primLine d op p) = attributes d := setDp_attributes _ _ _

theorem primRect_attributes (op : Nat) (p : Nat → Nat) :
    attributes (primRect d op p) = attributes d := by
  have hpaint (filled : Bool) (px py pw ph : Int) :
      attributes (markDrew (paintRect d filled px py pw ph)) = attributes d := by
    unfold paintRect
    split_ifs
    · rfl
    · exact paintPath_attributes d _ _ _
  exact (setDp_attributes _ _ _).trans (hpaint _ _ _ _ _)

theorem primArc_attributes (arc : ArcPoints) (op : Nat) (p : Nat → Nat) (n : Nat) :
    attributes (primArc arc d op p n) = attributes d := by
  unfold primArc
  dsimp only
  generalize (if op = 0x2E ∨ op = 0x2F then 1 else 0) = first
  split_ifs
  · rfl
  · exact (setDp_attributes _ _ _).trans (paintPath_attributes d _ _ _)
  · exact (setDp_attributes _ _ _).trans (paintLongPath_attributes d _ _ _)

theorem primPoly_attributes (op : Nat) (p : Nat → Nat) (n : Nat) :
    attributes (primPoly d op p n) = attributes d := by
  unfold primPoly
  dsimp only
  split
  · rfl
  · exact (setDp_attributes _ _ _).trans (paintLongPath_attributes d _ _ _)

end

theorem create_sizes : Sizes create.disp where
  cfDx := by decide
  cfDy := by decide
  ics := by decide
  irs := by decide
  w := by decide
  h := by decide

section

variable {d : Display}

/-- A property of the sizes that each of the ways to set one keeps. -/
structure SizeInvariant (I : Display → Prop) : Prop where
  congr : ∀ {d e : Display}, I d → textSizes e = textSizes d → I e
  resetText : ∀ d : Display, I (resetText d)
  attributes : ∀ {d : Display} (b1 b2 : Nat), I d → I (setTextAttributes d b1 b2)
  charSize : ∀ {d : Display} {dim : Int × Int}, Within 65536 dim.1 ∧ Within 65536 dim.2 → I d →
    I (setCharSize d dim)
  charField : ∀ {d : Display} (size : CharSize), I d → I (setCharField d size.dx size.dy)
  resetField : ∀ {d : Display}, I d → I (resetField d)
  setField : ∀ {d : Display} (origin : Int × Int) {size : Int × Int},
    Within 65536 size.1 ∧ Within 65536 size.2 → I d → I (setField d origin size)

namespace SizeInvariant

variable {I : Display → Prop} (hI : SizeInvariant I)
include hI

theorem skipped (hs : I d) (b : Prop) [Decidable b] : I (if b then skipped d else d) := by
  split_ifs
  · exact hI.congr hs rfl
  · exact hs

theorem keeps {e : Display} (hs : I d) (h : Naplps.attributes e = Naplps.attributes d) : I e :=
  hI.congr hs (textSizes_of_attributes h)

theorem execReset (hs : I d) (p : Nat → Nat) (n : Nat) : I (execReset d p n) := by
  have htext {d' : Display} (h : I d') (b : Prop) [Decidable b] :
      I (if b then textHome (Naplps.resetText d') else d') := by
    split_ifs
    · exact hI.keeps (hI.resetText d') (textHome_attributes _)
    · exact h
  have htex {d' : Display} (h : I d') (b : Prop) [Decidable b] :
      I (if b then resetTexture d' else d') := by
    split_ifs
    · exact hI.congr h rfl
    · exact h
  unfold Naplps.execReset
  refine htex (htext (hI.keeps hs ?_) _) _
  rw [clearBits_attributes, resetColorBits_attributes]
  split_ifs <;> rfl

theorem execText (hs : I d) (p : Nat → Nat) (n : Nat) : I (execText d p n) := by
  have hsize {d' : Display} (h : I d') (b : Prop) [Decidable b] :
      I (if b then setCharSize d' (unpackMulti d'.dom (ptr p 2)) else d') := by
    split_ifs
    · exact hI.charSize (unpackMulti_within _ _) h
    · exact h
  unfold Naplps.execText
  split
  · exact hs
  · exact hsize (hI.skipped (hI.attributes _ _ hs) _) _

theorem execField (hs : I d) (p : Nat → Nat) (n : Nat) : I (execField d p n) := by
  have hskip := hI.skipped hs (blocks d.dom.mvLen n > 2)
  unfold Naplps.execField
  dsimp only
  split
  · exact hI.keeps (hI.resetField hs) (setDp_attributes _ _ _)
  · split
    · exact hI.keeps (hI.setField _ (unpackMulti_within _ _) hs) (setDp_attributes _ _ _)
    · exact hI.keeps (hI.setField _ (unpackMulti_within _ _) hskip) (setDp_attributes _ _ _)

theorem pdiSwitch (hs : I d) (arc : ArcPoints) (op : Nat) (p : Nat → Nat) (n rep : Nat) :
    I (pdiSwitch arc d op p n rep) := by
  have hcount {d' : Display} (h : I d') : I { d' with st.pdiExecuted := d'.st.pdiExecuted + 1 } :=
    hI.congr h rfl
  unfold Naplps.pdiSwitch
  dsimp only
  split
  case h_1 => exact hcount (hI.execReset hs p n)
  case h_3 => exact hcount (hI.execText hs p n)
  case h_25 => exact hcount (hI.execField hs p n)
  case h_29 => exact hI.congr hs rfl
  all_goals
    refine hcount (hI.keeps hs ?_)
    simp only [execDomain_attributes, execTexture_attributes, primPoint_attributes, primLine_attributes,
      primArc_attributes, primRect_attributes, primPoly_attributes, execSetColor_attributes,
      execWait_attributes, execSelectColor_attributes]

theorem call (hs : I d) (arc : ArcPoints) (c : Call) : I (call arc d c) := by
  cases c with
  | pdi op p n rep => exact hI.pdiSwitch hs arc op p n rep
  | char ch => exact hI.congr hs (drawChar_textSizes d ch)
  | space => exact hI.congr hs (spaceChar_textSizes d)
  | again => exact hI.congr hs (drawChar_textSizes d _)
  | fill =>
      simp only [Naplps.call]
      split_ifs
      · exact hs
      · exact hI.congr hs (drawChar_textSizes d _)
  | bs => exact hI.keeps hs (textBs_attributes d)
  | advance => exact hI.keeps hs (textAdvanceCh_attributes d 0x20 false)
  | lf => exact hI.keeps hs (textLf_attributes d)
  | rlf => exact hI.keeps hs (textRlf_attributes d)
  | cr => exact hI.keeps hs (textCr_attributes d)
  | home => exact hI.keeps hs (textHome_attributes d)
  | clearScreen => exact hI.keeps hs (textHome_attributes _)
  | nsrReset => exact hI.keeps (hI.resetText (resetDomain d)) (textHome_attributes _)
  | nsrAddress b0 b1 => exact hI.keeps hs (placeCursor_attributes d _ _ _ _)
  | apsAddress b0 b1 => exact hI.keeps hs (placeCursor_attributes d _ _ _ _)
  | charField size => exact hI.charField size hs
  | _ => exact hI.congr hs rfl

end SizeInvariant

theorem sizes_invariant : SizeInvariant Sizes where
  congr := Sizes.congr
  resetText d := create_sizes.congr rfl
  attributes b1 b2 hs := by
    have hnum : ∀ i < 4, Within 5 (spNum.getD i 1) ∧ Within 5 (irNum.getD i 1) := by decide
    exact { hs with
      ics := (hnum (b1 / 16 % 4) (Nat.mod_lt _ (by decide))).1
      irs := (hnum (b2 % 4) (Nat.mod_lt _ (by decide))).2 }
  charSize hdim hs := by
    refine { hs with cfDx := ?_, cfDy := ?_ }
    · simp only [setCharSize]
      split_ifs
      · exact hdim.1
      · exact hs.cfDx
    · simp only [setCharSize]
      split_ifs
      · exact hdim.2
      · exact hs.cfDy
  charField size hs := by
    have hsize : Within 65536 size.dx ∧ Within 65536 size.dy := by cases size <;> decide
    exact { hs with cfDx := hsize.1, cfDy := hsize.2 }
  resetField hs := by
    have hone : Within 65536 fxOne := by decide
    exact { hs with w := hone, h := hone }
  setField _ _ hw hs := { hs with w := within_absFx hw.1, h := within_absFx hw.2 }

theorem Sizes.call (hs : Sizes d) (arc : ArcPoints) (c : Call) : Sizes (call arc d c) :=
  sizes_invariant.call hs arc c

end

/-! ### A whole stream -/

/-- The room a call is given. -/
abbrev headroom : Int := 67108864

/-- The drawing point, the cursor and the origin of the field lie inside the range by the headroom. -/
def Roomy (d : Display) (_ : Call) : Prop := Near (maxInt32 - headroom) d

instance (d : Display) (c : Call) : Decidable (Roomy d c) :=
  decidable_of_iff (Within (maxInt32 - headroom) d.draw.dpx ∧ Within (maxInt32 - headroom) d.draw.dpy ∧
      Within (maxInt32 - headroom) d.text.cx ∧ Within (maxInt32 - headroom) d.text.cy ∧
      Within (maxInt32 - headroom) d.af.x ∧ Within (maxInt32 - headroom) d.af.y)
    ⟨fun ⟨h1, h2, h3, h4, h5, h6⟩ => ⟨h1, h2, h3, h4, h5, h6⟩,
      fun h => ⟨h.dpx, h.dpy, h.cx, h.cy, h.x, h.y⟩⟩

/-- The coordinates of the call fit 32 bits, and so do the pixels they stand for. -/
def CoordsFit (d : Display) (c : Call) : Prop :=
  ∀ v ∈ callCoords d c, Fits32 v ∧ Fits32 (fxToPx v)

theorem fxToPx_fits {v : Int} (h : Fits32 v) : Fits32 (fxToPx v) := by
  simp only [Fits32, minInt32, maxInt32, fxToPx] at h ⊢
  omega

theorem coordsFit_of_roomy {d : Display} {c : Call} (hs : Sizes d) (hn : Roomy d c) :
    CoordsFit d c := by
  intro v hv
  have hfits := (callCoords_within hn hs c v hv).fits (Int.le_of_eq (Int.sub_add_cancel _ _))
  exact ⟨hfits, fxToPx_fits hfits⟩

/-- POINT SET REL is open with operands of one byte, and `k` of them have moved the drawing point
three quarters of the unit screen each. -/
structure Drifting (k : Nat) (d : Decoder) : Prop where
  ready : d.code.Ready
  op : d.pdi.op = some 0x25
  oplen : d.pdi.oplen = 0
  mvLen : d.disp.dom.mvLen = 1
  dims : d.disp.dom.dims = 2
  dpx : d.disp.draw.dpx = 49152 * k

section

variable {arc : ArcPoints} {d : Decoder} {k : Nat}

theorem calls_graphic (hr : d.code.Ready) {b : UInt8} (hlo : 0x40 ≤ b.toNat) (hhi : b.toNat < 0x80) :
    calls arc d b = .countByte :: operandCalls (onDisplay d countByte) b.toNat := by
  have hr' : (onDisplay d countByte).code.Ready := hr
  have hmain : byteCalls arc (onDisplay d countByte) b.toNat =
      mainCalls arc (onDisplay d countByte) b.toNat := by
    unfold byteCalls
    rw [selectEnvironment_of_lt hhi, Nat.mod_eq_of_lt hhi]
    simp [hr'.escstate, plainCalls, hr'.pend]
  rw [calls, hmain, mainCalls]
  simp only [hr'.mode, reduceCtorEq, if_false, if_neg (show ¬b.toNat < 0x20 by omega), hr'.swallow,
    Bool.false_eq_true, hr'.singleShift, Option.getD_none]
  rw [if_neg (by omega), if_neg (by omega), graphicCalls]
  simp only [hr'.gset, if_pos (show b.toNat / 64 % 2 = 1 by omega)]

theorem unpackMulti_drift {dom : Domain} {p : Nat → Nat} (hmv : dom.mvLen = 1) (hdims : dom.dims = 2)
    (hp : p 0 = 0x5B) : unpackMulti dom p = (49152, 49152) := by
  simp only [unpackMulti, hmv, hdims, List.range_one, List.foldl_cons, List.foldl_nil, hp]
  decide

/-- POINT SET REL adds its operand to the drawing point. -/
theorem primPoint_dpx {disp : Display} {p : Nat → Nat} {v : Int × Int}
    (hv : unpackMulti disp.dom p = v) :
    (primPoint disp 0x25 p).draw.dpx = wrap32 (disp.draw.dpx + v.1) := by
  have hset (d' : Display) (x y : Int) : (setDp d' x y).draw.dpx = x := by
    unfold setDp dpMoved
    split_ifs <;> rfl
  unfold primPoint
  dsimp only
  rw [hset, hv]
  rfl

theorem Drifting.setBytes (h : Drifting k d) :
    setBytes (onDisplay d countByte).disp.dom 0x25 = 1 := by
  simp [Naplps.setBytes, pdiDesc, onDisplay, Naplps.countByte, h.mvLen]

/-- One operand more is a set of its own. -/
theorem Drifting.pdiOperand (h : Drifting k d) :
    pdiOperand arc (onDisplay d countByte) 0x5B =
      let d' := { onDisplay d countByte with pdi := storeOperand d.pdi 0x5B }
      { pdiExecuteSet arc d' 0x25 (storeOperand d.pdi 0x5B).opbuf 1 d.pdi.reps with
        pdi := shiftSet (storeOperand d.pdi 0x5B) 1 } := by
  have hpdi : (onDisplay d countByte).pdi = d.pdi := rfl
  have hrep : (pdiDesc 0x25).mode = .rep := rfl
  have hstored : (storeOperand d.pdi 0x5B).oplen = 1 := by rw [storeOperand, h.oplen]
  unfold Naplps.pdiOperand
  simp only [hpdi, h.op, h.oplen, hrep, h.setBytes, ne_eq, not_true_eq_false, if_false]
  exact executeSets_of_eq (d := { onDisplay d countByte with pdi := storeOperand d.pdi 0x5B })
    (by decide) hstored

theorem Drifting.operandCalls (h : Drifting k d) :
    operandCalls (onDisplay d countByte) 0x5B =
      [.pdi 0x25 (storeOperand d.pdi 0x5B).opbuf 1 d.pdi.reps] := by
  have hpdi : (onDisplay d countByte).pdi = d.pdi := rfl
  have hrep : (pdiDesc 0x25).mode = .rep := rfl
  have hstored : (storeOperand d.pdi 0x5B).oplen = 1 := by rw [storeOperand, h.oplen]
  unfold Naplps.operandCalls
  simp only [hpdi, h.op, h.oplen, hrep, h.setBytes]
  rw [if_pos (by decide), Nat.zero_add, setsCalls, if_pos (by omega)]
  rfl

theorem Drifting.operand (h : Drifting k d) :
    unpackMulti (onDisplay d countByte).disp.dom (storeOperand d.pdi 0x5B).opbuf = (49152, 49152) := by
  have hfirst : (storeOperand d.pdi 0x5B).opbuf 0 = 0x5B := by
    simp only [storeOperand, h.oplen, Function.update_self]
  exact unpackMulti_drift h.mvLen h.dims hfirst

theorem Drifting.step (h : Drifting k d) (hk : k < 43690) :
    Drifting (k + 1) (feedOne arc d 0x5B) := by
  have hsum : wrap32 (d.disp.draw.dpx + 49152) = 49152 * (k + 1 : Nat) := by
    rw [h.dpx, wrap32_of_fits]
    · omega
    · simp only [Fits32, minInt32, maxInt32]
      omega
  rw [feedOne_graphic h.ready (by decide) (by decide)]
  refine ⟨?_, ?_, ?_, ?_, ?_, ?_⟩
  all_goals rw [if_pos (by decide)]
  all_goals rw [show UInt8.toNat 0x5B = 0x5B from rfl, h.pdiOperand]
  · exact h.ready
  · exact h.op
  · simp only [shiftSet, storeOperand, h.oplen]
  · rw [← h.mvLen]
    exact congrArg Domain.mvLen (pdiSwitch_dom_of_rep arc rfl _ _ _ _)
  · rw [← h.dims]
    exact congrArg Domain.dims (pdiSwitch_dom_of_rep arc rfl _ _ _ _)
  · rw [← hsum]
    exact primPoint_dpx h.operand

theorem Drifting.feed (h : Drifting 0 d) {n : Nat} (hn : n ≤ 43690) :
    Drifting n (feed arc d (List.replicate n 0x5B)) := by
  induction n with
  | zero => exact h
  | succ n ih =>
      rw [List.replicate_succ', Naplps.feed, List.foldl_append]
      exact (ih (by omega)).step (by omega)

theorem Drifting.leaves (h : Drifting 43690 d) :
    ¬ Guarded (call arc) CoordsFit d.disp (calls arc d 0x5B) := by
  rw [calls_graphic h.ready (by decide) (by decide)]
  rw [show UInt8.toNat 0x5B = 0x5B from rfl, h.operandCalls]
  rintro ⟨-, hfits, -⟩
  have hdpx : (onDisplay d countByte).disp.draw.dpx = 49152 * (43690 : Nat) := h.dpx
  have hpoint : d.disp.draw.dpx + 49152 ∈
      callCoords (onDisplay d countByte).disp (.pdi 0x25 (storeOperand d.pdi 0x5B).opbuf 1 d.pdi.reps) := by
    simp only [callCoords, pdiCoords, pointCoords, h.operand]
    exact List.mem_cons_self
  have hfit := (hfits _ hpoint).1
  rw [h.dpx] at hfit
  revert hfit
  decide

end

/-- DOMAIN with operands of one byte, POINT SET REL and 43691 operands. -/
def driftStream : List UInt8 := [0x0E, 0x21, 0x40, 0x25] ++ List.replicate 43691 0x5B

end UnicornSuite.Naplps
