import UnicornSuite.NaplpsDrift

/-! Where the text functions put the cursor. They leave everything else of the text state alone
(`layout`), and each has one lemma for the position it computes. The steps are not negative in any
reachable state (`reachable_flows`), so a movement that starts inside of the rectangle text flows in
ends inside of it. -/

namespace UnicornSuite.Naplps

open CInt Machine

/-! ### What the text functions leave alone -/

/-- The text attributes and the active field. -/
def layout (d : Display) : TextState × ActiveField :=
  ({ d.text with cx := 0, cy := 0, lastSpacingChar := 0, haveLastSpacing := false }, d.af)

section

variable (d : Display)

@[simp] theorem cursorMoved_text : (cursorMoved d).text = d.text := by
  rw [cursorMoved]
  split_ifs <;> rfl

@[simp] theorem scrollUp_text (dy : Int) : (scrollUp d dy).text = d.text := by
  unfold scrollUp
  split_ifs <;> rfl

@[simp] theorem scrollDown_text (dy : Int) : (scrollDown d dy).text = d.text := by
  unfold scrollDown
  split_ifs <;> rfl

theorem layout_of_attributes {d e : Display} (h : attributes e = attributes d) : layout e = layout d :=
  congrArg (fun a : TextState × ActiveField =>
    ({ a.1 with lastSpacingChar := 0, haveLastSpacing := false }, a.2)) h

@[simp] theorem withCx_layout (x : Int) : layout { d with text.cx := x } = layout d := rfl

@[simp] theorem textLf_layout : layout (textLf d) = layout d :=
  layout_of_attributes (textLf_attributes d)

@[simp] theorem textRlf_layout : layout (textRlf d) = layout d :=
  layout_of_attributes (textRlf_attributes d)

@[simp] theorem textCr_layout : layout (textCr d) = layout d :=
  layout_of_attributes (textCr_attributes d)

@[simp] theorem pathStep_layout (ch : Nat) (haveCh : Bool) :
    layout (pathStep d ch haveCh) = layout d := rfl

@[simp] theorem pathBack_layout : layout (pathBack d) = layout d :=
  layout_of_attributes (pathBack_attributes d)

@[simp] theorem textAdvanceCh_layout (ch : Nat) (haveCh : Bool) :
    layout (textAdvanceCh d ch haveCh) = layout d :=
  layout_of_attributes (textAdvanceCh_attributes d ch haveCh)

@[simp] theorem textBs_layout : layout (textBs d) = layout d :=
  layout_of_attributes (textBs_attributes d)

@[simp] theorem textHome_layout : layout (textHome d) = layout d :=
  layout_of_attributes (textHome_attributes d)

@[simp] theorem drawChar_layout (ch : Nat) : layout (drawChar d ch) = layout d := by
  unfold drawChar
  dsimp only
  split_ifs
  · rfl
  · exact textAdvanceCh_layout _ _ _

@[simp] theorem spaceChar_layout : layout (spaceChar d) = layout d := by
  unfold spaceChar
  dsimp only
  split_ifs
  · exact drawChar_layout _ _
  · exact textAdvanceCh_layout _ _ _

@[simp] theorem placeCursor_layout (cx cy cw ch : Int) :
    layout (placeCursor d cx cy cw ch) = layout d :=
  layout_of_attributes (placeCursor_attributes d cx cy cw ch)

end

section

variable {d e : Display}

theorem cfW_of_layout (h : layout e = layout d) : cfW e = cfW d :=
  congrArg (fun l : TextState × ActiveField => absFx l.1.cfDx) h

theorem cfH_of_layout (h : layout e = layout d) : cfH e = cfH d :=
  congrArg (fun l : TextState × ActiveField => absFx l.1.cfDy) h

theorem path_of_layout (h : layout e = layout d) : e.text.path = d.text.path :=
  congrArg (fun l => l.1.path) h

theorem prop_of_layout (h : layout e = layout d) :
    e.text.propSpacing = d.text.propSpacing :=
  congrArg (fun l => l.1.propSpacing) h

theorem af_of_layout (h : layout e = layout d) : e.af = d.af := congrArg Prod.snd h

end

/-! ### Steps -/

/-- The steps of the cursor are not negative. -/
structure Flows (d : Display) : Prop where
  sizes : Sizes d
  ics : 0 ≤ d.text.icsNum
  irs : 0 ≤ d.text.irsNum
  icsDen : 0 < d.text.icsDen
  irsDen : 0 < d.text.irsDen

section

variable {d e : Display}

theorem Flows.congr (hf : Flows d) (h : layout e = layout d) : Flows e where
  sizes := hf.sizes.congr (congrArg (fun l : TextState × ActiveField =>
    (l.1.cfDx, l.1.cfDy, l.1.icsNum, l.1.irsNum, l.2)) h)
  ics := (congrArg (fun l : TextState × ActiveField => l.1.icsNum) h).symm ▸ hf.ics
  irs := (congrArg (fun l : TextState × ActiveField => l.1.irsNum) h).symm ▸ hf.irs
  icsDen := (congrArg (fun l : TextState × ActiveField => l.1.icsDen) h).symm ▸ hf.icsDen
  irsDen := (congrArg (fun l : TextState × ActiveField => l.1.irsDen) h).symm ▸ hf.irsDen

theorem absFx_nonneg {k v : Int} (hv : Within k v) (hk : k ≤ maxInt32) : 0 ≤ absFx v := by
  unfold absFx
  split_ifs with hneg
  · rw [wrap32_of_fits (hv.neg.fits hk)]
    omega
  · omega

theorem Flows.cfW (hf : Flows d) : 0 ≤ cfW d ∧ cfW d ≤ 65536 :=
  ⟨absFx_nonneg hf.sizes.cfDx (by decide), hf.sizes.cfW.2⟩

theorem Flows.cfH (hf : Flows d) : 0 ≤ cfH d ∧ cfH d ≤ 65536 :=
  ⟨absFx_nonneg hf.sizes.cfDy (by decide), hf.sizes.cfH.2⟩

theorem wrap_product_nonneg {cell num : Int} (hcell : 0 ≤ cell ∧ cell ≤ 65536) (hnum : 0 ≤ num)
    (hle : Within 5 num) : 0 ≤ wrap32 (cell * num) := by
  have hprod : Within 327680 (cell * num) :=
    Within.mul (k := 65536) ⟨by omega, hcell.2⟩ hle (by decide)
  rw [wrap32_of_fits (hprod.fits (by decide))]
  exact Int.mul_nonneg hcell.1 hnum

theorem Flows.irStep (hf : Flows d) : 0 ≤ irStep d ∧ irStep d ≤ 327680 := by
  refine ⟨Int.tdiv_nonneg ?_ hf.irsDen.le, hf.sizes.irStep.2⟩
  refine wrap_product_nonneg ?_ hf.irs hf.sizes.irs
  split_ifs
  · exact hf.cfH
  · exact hf.cfW

theorem Flows.icStep (hf : Flows d) {cell : Int} (hcell : 0 ≤ cell ∧ cell ≤ 65536)
    (hprop : d.text.propSpacing = false) (ch : Nat) (haveCh : Bool) :
    0 ≤ icStep d cell ch haveCh ∧ icStep d cell ch haveCh ≤ 851968 := by
  refine ⟨?_, (hf.sizes.icStep ⟨by omega, hcell.2⟩ ch haveCh).2⟩
  rw [Naplps.icStep, if_neg (by simp [hprop])]
  exact Int.tdiv_nonneg (wrap_product_nonneg hcell hf.ics hf.sizes.ics) hf.icsDen.le

/-! ### Reachable states -/

/-- The numerators of the two spacings. -/
structure Spaced (d : Display) : Prop where
  ics : 0 ≤ d.text.icsNum
  irs : 0 ≤ d.text.irsNum

theorem spaced_invariant : SizeInvariant Spaced where
  congr hs h := by
    simp only [textSizes, Prod.mk.injEq] at h
    exact ⟨h.2.2.1.symm ▸ hs.ics, h.2.2.2.1.symm ▸ hs.irs⟩
  resetText d := ⟨Int.zero_le_ofNat 1, Int.zero_le_ofNat 1⟩
  attributes b1 b2 hs := by
    have hnum : ∀ i < 4, 0 ≤ spNum.getD i 1 ∧ 0 ≤ irNum.getD i 1 := by decide
    exact ⟨(hnum _ (Nat.mod_lt _ (by decide))).1, (hnum _ (Nat.mod_lt _ (by decide))).2⟩
  charSize _ hs := { hs with }
  charField _ hs := { hs with }
  resetField hs := { hs with }
  setField _ _ _ hs := { hs with }

end

/-- What a reset establishes and every call keeps holds of the display in every reachable state. -/
theorem run_display {I : Display → Prop} (arc : ArcPoints) (hcall : ∀ d c, I d → I (call arc d c))
    (hreset : ∀ d, I (resetDisplay d))
    (hwait : ∀ d : Display, I d → I { d with waitTenths := 0 }) (es : List Event) :
    I (run (step arc) create es).disp := by
  refine run_inv (I := fun d : Decoder => I d.disp) (fun d ev h => ?_) (hreset _) es
  cases ev with
  | feed buf =>
      show I (feed arc d buf).disp
      rw [feed_disp]
      exact run_inv (fun d c h => hcall d c h) h _
  | flush =>
      show I (pdiTerminate arc d).disp
      rw [terminate_disp]
      exact run_inv (fun d c h => hcall d c h) h _
  | reset => exact hreset _
  | takeWait => exact hwait _ h

theorem reachable_flows (arc : ArcPoints) (es : List Event) :
    Flows (run (step arc) create es).disp := by
  have hrun := run_display (I := fun d => Sizes d ∧ Spaced d) arc
    (fun d c h => ⟨h.1.call arc c, spaced_invariant.call h.2 arc c⟩)
    (fun d => ⟨create_sizes.congr rfl, spaced_invariant.congr (spaced_invariant.resetText _) rfl⟩)
    (fun d h => ⟨h.1.congr rfl, spaced_invariant.congr h.2 rfl⟩) es
  have hok := (@run_ok arc _ create_ok es).disp
  exact ⟨hrun.1, hrun.2.ics, hrun.2.irs, hok.icsDen, hok.irsDen⟩

/-! ### Positions -/

section

variable (d : Display)

theorem textLf_cx : (textLf d).text.cx =
    if d.text.path < 2 then d.text.cx
    else if wrap32 (d.text.cx - irStep d) < (textBounds d).x0 then
      wrap32 ((textBounds d).x1 - cfW d)
    else wrap32 (d.text.cx - irStep d) := by
  unfold textLf
  simp only [apply_ite (fun e : Display => e.text.cx), cursorMoved_text, scrollUp_text, ite_self]
  rfl

theorem textLf_cy : (textLf d).text.cy =
    if d.text.path < 2 then
      if wrap32 (d.text.cy - irStep d) < (textBounds d).y0 then
        if d.text.scroll then wrap32 (wrap32 (d.text.cy - irStep d) + irStep d)
        else wrap32 ((textBounds d).y1 - cfH d)
      else wrap32 (d.text.cy - irStep d)
    else d.text.cy := by
  unfold textLf
  simp only [apply_ite (fun e : Display => e.text.cy), cursorMoved_text, scrollUp_text, ite_self]
  rfl

theorem textRlf_cx : (textRlf d).text.cx =
    if d.text.path < 2 then d.text.cx
    else if wrap32 (wrap32 (d.text.cx + irStep d) + cfW d) > (textBounds d).x1 then
      (textBounds d).x0
    else wrap32 (d.text.cx + irStep d) := by
  unfold textRlf
  simp only [apply_ite (fun e : Display => e.text.cx), cursorMoved_text, scrollDown_text, ite_self]
  rfl

theorem textRlf_cy : (textRlf d).text.cy =
    if d.text.path < 2 then
      if wrap32 (wrap32 (d.text.cy + irStep d) + cfH d) > (textBounds d).y1 then
        if d.text.scroll then wrap32 (wrap32 (d.text.cy + irStep d) - irStep d)
        else (textBounds d).y0
      else wrap32 (d.text.cy + irStep d)
    else d.text.cy := by
  unfold textRlf
  simp only [apply_ite (fun e : Display => e.text.cy), cursorMoved_text, scrollDown_text, ite_self]
  rfl

theorem textCr_cx : (textCr d).text.cx =
    if d.text.path = 0 then (textBounds d).x0
    else if d.text.path = 1 then wrap32 ((textBounds d).x1 - cfW d)
    else d.text.cx := by
  unfold textCr
  dsimp only
  split
  · next hpath => simp [hpath]
  · next hpath => simp [hpath]
  · next hpath => simp [hpath]
  · next hright hleft hup =>
      rw [if_neg hright, if_neg hleft, cursorMoved_text]

theorem textCr_cy : (textCr d).text.cy =
    if d.text.path < 2 then d.text.cy
    else if d.text.path = 2 then (textBounds d).y0
    else wrap32 ((textBounds d).y1 - cfH d) := by
  unfold textCr
  dsimp only
  split
  · next hpath => simp [hpath]
  · next hpath => simp [hpath]
  · next hpath => simp [hpath]
  · next hright hleft hup =>
      have hne : d.text.path ≠ 0 ∧ d.text.path ≠ 1 := ⟨hright, hleft⟩
      have hvertical : ¬d.text.path < 2 := by omega
      rw [if_neg hvertical, if_neg hup]
      exact congrArg TextState.cy (cursorMoved_text _)

theorem textAdvanceCh_text (ch : Nat) (haveCh : Bool) : (textAdvanceCh d ch haveCh).text =
    if leavesBounds (pathStep d ch haveCh) ch haveCh then
      (textLf (textCr (pathStep d ch haveCh))).text
    else (pathStep d ch haveCh).text := by
  unfold textAdvanceCh
  dsimp only
  split_ifs <;> rw [cursorMoved_text]

end

end UnicornSuite.Naplps
