import UnicornSuite.NaplpsCoords

/-! How far a call moves the coordinates. The sizes the decoder works with (the character field, the
logical pel, the active field and every operand) are at most one unit screen, in every state
(`Sizes`). So a call that starts with the drawing point, the cursor and the origin of the field
within `k` of the origin (`Near k`) computes coordinates that lie within `k` and a constant. Nothing
in the decoder bounds `k` itself: relative commands add up without limit. -/

namespace UnicornSuite.Naplps

open CInt Machine

/-! ### Sizes -/

structure Sizes (d : Display) : Prop where
  cfDx : Within 65536 d.text.cfDx
  cfDy : Within 65536 d.text.cfDy
  ics : Within 5 d.text.icsNum
  irs : Within 5 d.text.irsNum
  w : Within 65536 d.af.w
  h : Within 65536 d.af.h

structure Near (k : Int) (d : Display) : Prop where
  dpx : Within k d.draw.dpx
  dpy : Within k d.draw.dpy
  cx : Within k d.text.cx
  cy : Within k d.text.cy
  x : Within k d.af.x
  y : Within k d.af.y

/-- The numbers `Sizes` is about. -/
def textSizes (d : Display) : Int × Int × Int × Int × ActiveField :=
  (d.text.cfDx, d.text.cfDy, d.text.icsNum, d.text.irsNum, d.af)

theorem Sizes.congr {d d' : Display} (h : Sizes d) (he : textSizes d' = textSizes d) :
    Sizes d' := by
  simp only [textSizes, Prod.mk.injEq] at he
  obtain ⟨hdx, hdy, hics, hirs, haf⟩ := he
  exact ⟨hdx ▸ h.cfDx, hdy ▸ h.cfDy, hics ▸ h.ics, hirs ▸ h.irs, haf ▸ h.w, haf ▸ h.h⟩

/-- The text state but for the position of the cursor, and the active field. -/
def attributes (d : Display) : TextState × ActiveField := ({ d.text with cx := 0, cy := 0 }, d.af)

theorem textSizes_of_attributes {d d' : Display} (h : attributes d' = attributes d) :
    textSizes d' = textSizes d :=
  congrArg (fun a : TextState × ActiveField => (a.1.cfDx, a.1.cfDy, a.1.icsNum, a.1.irsNum, a.2)) h

theorem Near.mono {k l : Int} {d : Display} (h : Near k d) (hkl : k ≤ l) : Near l d :=
  ⟨h.dpx.mono hkl, h.dpy.mono hkl, h.cx.mono hkl, h.cy.mono hkl, h.x.mono hkl, h.y.mono hkl⟩

theorem within_absFx {k v : Int} (h : Within k v) : Within k (absFx v) := by
  unfold absFx
  split_ifs
  · exact h.neg.wrap
  · exact h

/-! ### Operands -/

/-- The value of a two's complement operand of `m + 1` bits. -/
theorem signed_within {raw m : Nat} (hraw : raw < 2 ^ (m + 1)) :
    Within (2 ^ m) (if raw.testBit m then (raw : Int) - 2 ^ (m + 1) else raw) := by
  have hpow : (2 : Nat) ^ (m + 1) = 2 * 2 ^ m := by rw [Nat.pow_succ, Nat.mul_comm]
  have hpow' : (2 : Int) ^ (m + 1) = 2 * 2 ^ m := by rw [Int.pow_succ, Int.mul_comm]
  have hcast : ((2 ^ m : Nat) : Int) = 2 ^ m := by norm_cast
  split_ifs with hbit
  · have hge : 2 ^ m ≤ raw := Nat.ge_two_pow_of_testBit hbit
    constructor <;> omega
  · have hlt : raw < 2 ^ m := by
      by_contra hge
      apply hbit
      rw [Nat.testBit_eq_decide_div_mod_eq, Nat.div_eq_of_lt_le (k := 1) (by omega) (by omega)]
      rfl
    constructor <;> omega

/-- An operand is a fraction of the unit screen. -/
theorem unpackFrac_within {raw nbits : Nat} (hraw : raw < 2 ^ nbits) :
    Within 65536 (unpackFrac raw nbits) := by
  cases nbits with
  | zero => constructor <;> simp [unpackFrac]
  | succ m =>
      have hv := signed_within hraw
      simp only [unpackFrac, Nat.add_sub_cancel, Nat.add_one_ne_zero, if_false]
      generalize (if raw.testBit m then (raw : Int) - 2 ^ (m + 1) else raw) = v at hv ⊢
      split_ifs with hsmall
      · have hscale : (2 : Int) ^ m * 2 ^ (16 - m) = 65536 := by
          rw [← Int.pow_add, Nat.add_sub_cancel' hsmall]
          rfl
        have hpos : (0 : Int) < 2 ^ (16 - m) := Int.pow_pos (by decide)
        exact hv.mul ⟨by omega, Int.le_refl _⟩ (Int.le_of_eq hscale)
      · have hscale : (2 : Int) ^ m = 65536 * 2 ^ (m - 16) := by
          rw [show (65536 : Int) = 2 ^ 16 from rfl, ← Int.pow_add, Nat.add_sub_cancel' (by omega)]
        have hpos : (0 : Int) < 2 ^ (m - 16) := Int.pow_pos (by decide)
        obtain ⟨hlo, hhi⟩ := hv
        rw [hscale] at hlo hhi
        generalize (2 : Int) ^ (m - 16) = unit at hpos hlo hhi ⊢
        exact ⟨(Int.le_ediv_iff_mul_le hpos).mpr (by omega),
          Int.ediv_le_of_le_mul hpos (by omega)⟩

theorem unpackMulti_within (dom : Domain) (p : Nat → Nat) :
    Within 65536 (unpackMulti dom p).1 ∧ Within 65536 (unpackMulti dom p).2 := by
  have hraw (n : Nat) :
      let per := if dom.dims = 3 then 2 else 3
      let raw := (List.range n).foldl
        (fun (raw : Nat × Nat) i =>
          let v := p i % 64
          if dom.dims = 3 then (raw.1 * 4 + v / 16 % 4, raw.2 * 4 + v / 4 % 4)
          else (raw.1 * 8 + v / 8 % 8, raw.2 * 8 + v % 8)) (0, 0)
      raw.1 < 2 ^ (per * n) ∧ raw.2 < 2 ^ (per * n) := by
    induction n with
    | zero => exact ⟨by simp, by simp⟩
    | succ n ih =>
        simp only [List.range_succ, List.foldl_append, List.foldl_cons, List.foldl_nil] at ih ⊢
        split_ifs at ih ⊢ with hdims
        · have hpow : 2 ^ (2 * (n + 1)) = 2 ^ (2 * n) * 4 := Nat.pow_add 2 (2 * n) 2
          simp only [hpow]
          omega
        · have hpow : 2 ^ (3 * (n + 1)) = 2 ^ (3 * n) * 8 := Nat.pow_add 2 (3 * n) 3
          simp only [hpow]
          omega
  exact ⟨unpackFrac_within (hraw dom.mvLen).1, unpackFrac_within (hraw dom.mvLen).2⟩

/-- A glyph has five columns. -/
theorem glyphInkWidth_le (ch : Nat) : glyphInkWidth ch ≤ 5 := by
  have hrow (row w : Nat) (hw : w ≤ 5) :
      (List.range glyphW).foldl (fun w col =>
        if (glyphRow (ch - glyphFirst) row).testBit col ∧ col + 1 > w then col + 1 else w) w ≤ 5 := by
    refine List.foldlRecOn (motive := (· ≤ 5)) _ _ hw fun w hw col hcol => ?_
    have hlt : col < 5 := List.mem_range.mp hcol
    split_ifs <;> omega
  have hall := List.foldlRecOn (motive := (· ≤ 5)) (List.range glyphH) _ (Nat.zero_le 5)
    fun w hw row _ => hrow row w hw
  simp only [glyphInkWidth]
  split_ifs
  · exact Nat.le_refl 5
  · omega
  · exact hall

/-! ### Steps of the cursor -/

section

variable {d : Display}

theorem Sizes.cfW (hs : Sizes d) : Within 65536 (cfW d) := within_absFx hs.cfDx

theorem Sizes.cfH (hs : Sizes d) : Within 65536 (cfH d) := within_absFx hs.cfDy

theorem Sizes.irProduct (hs : Sizes d) : Within 327680 (irProduct d) := by
  unfold Naplps.irProduct
  split_ifs
  · exact hs.cfH.mul hs.irs (by decide)
  · exact hs.cfW.mul hs.irs (by decide)

theorem Sizes.irStep (hs : Sizes d) : Within 327680 (irStep d) := hs.irProduct.wrap.tdiv _

theorem Sizes.icProduct (hs : Sizes d) {cell : Int} (hcell : Within 65536 cell) :
    Within 327680 (icProduct d cell) := hcell.mul hs.ics (by decide)

theorem within_propProduct {cell : Int} (hcell : Within 65536 cell) (ch : Nat) :
    Within 851968 (propProduct cell ch) := by
  have hink := glyphInkWidth_le ch
  exact hcell.mul (l := 13) ⟨by omega, by omega⟩ (by decide)

theorem within_propAdvance {cell : Int} (hcell : Within 65536 cell) (ch : Nat) :
    Within 851968 (propAdvance cell ch) := (within_propProduct hcell ch).wrap.tdiv _

theorem Sizes.icStep (hs : Sizes d) {cell : Int} (hcell : Within 65536 cell) (ch : Nat)
    (haveCh : Bool) : Within 851968 (icStep d cell ch haveCh) := by
  unfold Naplps.icStep
  split_ifs
  · exact within_propAdvance hcell ch
  · exact ((hs.icProduct hcell).wrap.tdiv _).mono (by decide)

/-! ### The cursor -/

variable {k : Int}

theorem Near.nonneg (hn : Near k d) : 0 ≤ k := by
  obtain ⟨hlo, hhi⟩ := hn.cx
  omega

theorem Near.cursorMoved (hn : Near k d) : Near k (cursorMoved d) := by
  unfold Naplps.cursorMoved
  split_ifs
  · exact hn
  · exact { hn with dpx := hn.cx, dpy := hn.cy }

theorem Near.withCx (hn : Near k d) {x : Int} (hx : Within k x) :
    Near k { d with text.cx := x } := { hn with cx := hx }

theorem Near.withCy (hn : Near k d) {y : Int} (hy : Within k y) :
    Near k { d with text.cy := y } := { hn with cy := hy }

structure Bounds.Near (k : Int) (b : Bounds) : Prop where
  x0 : Within k b.x0
  y0 : Within k b.y0
  x1 : Within k b.x1
  y1 : Within k b.y1

theorem textBounds_near (hn : Near k d) (hs : Sizes d) : (textBounds d).Near (k + 65536) := by
  have hk := hn.nonneg
  unfold textBounds
  split_ifs
  · exact ⟨hn.x.mono (by omega), hn.y.mono (by omega), (hn.x.add hs.w).wrap, (hn.y.add hs.h).wrap⟩
  · have hscreen {v : Int} (h : Within 65536 v) : Within (k + 65536) v := h.mono (by omega)
    exact ⟨hscreen (by decide), hscreen (by decide),
      hscreen (by decide), hscreen (by decide)⟩

@[simp] theorem cursorMoved_attributes (d : Display) :
    attributes (cursorMoved d) = attributes d := by
  unfold cursorMoved
  split_ifs <;> rfl

@[simp] theorem textCr_attributes (d : Display) : attributes (textCr d) = attributes d := by
  unfold textCr
  dsimp only
  split <;> exact cursorMoved_attributes _

@[simp] theorem pathBack_attributes (d : Display) : attributes (pathBack d) = attributes d := by
  unfold pathBack
  split_ifs <;> rfl

theorem Near.pathStep (hn : Near k d) (hs : Sizes d) (ch : Nat) (haveCh : Bool) :
    Near (k + 851968) (pathStep d ch haveCh) := by
  have hk := hn.nonneg
  have hx := hs.icStep hs.cfW ch haveCh
  have hy := hs.icStep hs.cfH ch haveCh
  have hzero : Within 851968 (0 : Int) := by decide
  refine { hn.mono (l := k + 851968) (by omega) with cx := ?_, cy := ?_ }
  · refine (hn.cx.add ?_).wrap
    split_ifs
    exacts [hx, hx.neg, hzero]
  · refine (hn.cy.add ?_).wrap
    split_ifs
    exacts [hzero, hy, hy.neg]

theorem Near.textCr (hn : Near k d) (hs : Sizes d) : Near (k + 131072) (textCr d) := by
  have hk := hn.nonneg
  have hb := textBounds_near hn hs
  have hfar := hn.mono (l := k + 131072) (by omega)
  unfold Naplps.textCr
  dsimp only
  split
  · exact (hfar.withCx (hb.x0.mono (by omega))).cursorMoved
  · exact (hfar.withCx ((hb.x1.sub hs.cfW).wrap.mono (by omega))).cursorMoved
  · exact (hfar.withCy (hb.y0.mono (by omega))).cursorMoved
  · exact (hfar.withCy ((hb.y1.sub hs.cfH).wrap.mono (by omega))).cursorMoved

theorem Near.pathBack (hn : Near k d) (hs : Sizes d) : Near (k + 327680) (pathBack d) := by
  have hk := hn.nonneg
  have hx := (hs.icProduct hs.cfW).wrap.tdiv d.text.icsDen
  have hy := (hs.icProduct hs.cfH).wrap.tdiv d.text.icsDen
  have hfar := hn.mono (l := k + 327680) (by omega)
  unfold Naplps.pathBack
  split_ifs
  · exact hfar.withCx (hn.cx.sub hx).wrap
  · exact hfar.withCx (hn.cx.sub hx.neg).wrap
  · exact hfar.withCy (hn.cy.sub hy).wrap
  · exact hfar.withCy (hn.cy.sub hy.neg).wrap

/-! ### The coordinates of the text functions -/

theorem boundsCoords_within (hn : Near k d) (hs : Sizes d) :
    AllWithin (k + 65536) (boundsCoords d) := by
  unfold boundsCoords
  split_ifs
  · simp only [allWithin_cons, allWithin_nil, and_true]
    exact ⟨hn.cx.add hs.cfW, hn.x.add hs.w, hn.cy.add hs.cfH, hn.y.add hs.h⟩
  · exact allWithin_nil

theorem lfCoords_within (hn : Near k d) (hs : Sizes d) :
    AllWithin (k + 655360) (lfCoords d) := by
  have hk := hn.nonneg
  have hb := textBounds_near hn hs
  have hprod := hs.irProduct.mono (l := k + 655360) (by omega)
  have hedges := (boundsCoords_within hn hs).mono (l := k + 655360) (by omega)
  have hdown := hn.cy.sub hs.irStep
  unfold lfCoords
  split_ifs
  · simp only [allWithin_append, allWithin_cons, allWithin_nil, and_true]
    exact ⟨⟨hprod, hedges⟩, hdown.mono (by omega), (hdown.wrap.add hs.irStep).mono (by omega),
      (hb.y1.sub hs.cfH).mono (by omega)⟩
  · simp only [allWithin_append, allWithin_cons, allWithin_nil, and_true]
    exact ⟨⟨hprod, hedges⟩, (hn.cx.sub hs.irStep).mono (by omega),
      (hb.x1.sub hs.cfW).mono (by omega)⟩

theorem rlfCoords_within (hn : Near k d) (hs : Sizes d) :
    AllWithin (k + 655360) (rlfCoords d) := by
  have hk := hn.nonneg
  have hprod := hs.irProduct.mono (l := k + 655360) (by omega)
  have hedges := (boundsCoords_within hn hs).mono (l := k + 655360) (by omega)
  have hup := hn.cy.add hs.irStep
  have hright := hn.cx.add hs.irStep
  unfold rlfCoords
  split_ifs
  · simp only [allWithin_append, allWithin_cons, allWithin_nil, and_true]
    exact ⟨⟨hprod, hedges⟩, hup.mono (by omega), (hup.wrap.add hs.cfH).mono (by omega),
      (hup.wrap.sub hs.irStep).mono (by omega)⟩
  · simp only [allWithin_append, allWithin_cons, allWithin_nil, and_true]
    exact ⟨⟨hprod, hedges⟩, hright.mono (by omega), (hright.wrap.add hs.cfW).mono (by omega)⟩

theorem crCoords_within (hn : Near k d) (hs : Sizes d) :
    AllWithin (k + 131072) (crCoords d) := by
  have hb := textBounds_near hn hs
  simp only [crCoords, allWithin_append, allWithin_cons, allWithin_nil, and_true]
  exact ⟨(boundsCoords_within hn hs).mono (by omega), (hb.x1.sub hs.cfW).mono (by omega),
    (hb.y1.sub hs.cfH).mono (by omega)⟩

theorem pathCoords_within (hn : Near k d) (hs : Sizes d) (ch : Nat) (haveCh : Bool) :
    AllWithin (k + 851968) (pathCoords d ch haveCh) := by
  have hk := hn.nonneg
  have hstep : Within 851968 (if d.text.path < 2 then icStep d (cfW d) ch haveCh
      else icStep d (cfH d) ch haveCh) := by
    split_ifs
    · exact hs.icStep hs.cfW ch haveCh
    · exact hs.icStep hs.cfH ch haveCh
  simp only [pathCoords, allWithin_cons, allWithin_nil, and_true]
  exact ⟨(within_propProduct hs.cfW ch).mono (by omega), (within_propProduct hs.cfH ch).mono (by omega),
    (hs.icProduct hs.cfW).mono (by omega), (hs.icProduct hs.cfH).mono (by omega),
    hn.cx.add hstep, hn.cx.sub hstep, hn.cy.add hstep, hn.cy.sub hstep⟩

theorem leavesCoords_within (hn : Near k d) (hs : Sizes d) (ch : Nat) (haveCh : Bool) :
    AllWithin (k + 851968) (leavesCoords d ch haveCh) := by
  have hfit {cell : Int} (hcell : Within 65536 cell) :
      Within 851968 (if d.text.propSpacing ∧ haveCh then propAdvance cell ch else cell) := by
    split_ifs
    · exact within_propAdvance hcell ch
    · exact hcell.mono (by decide)
  simp only [leavesCoords, allWithin_append, allWithin_cons, allWithin_nil, and_true]
  exact ⟨(boundsCoords_within hn hs).mono (by omega), hn.cx.add (hfit hs.cfW),
    hn.cy.add (hfit hs.cfH)⟩

theorem advanceCoords_within (hn : Near k d) (hs : Sizes d) (ch : Nat) (haveCh : Bool) :
    AllWithin (k + 2097152) (advanceCoords d ch haveCh) := by
  have hn' := hn.pathStep hs ch haveCh
  have hs' : Sizes (pathStep d ch haveCh) := hs.congr rfl
  unfold advanceCoords
  simp only [allWithin_append]
  refine ⟨⟨(pathCoords_within hn hs ch haveCh).mono (by omega),
    (leavesCoords_within hn' hs' ch haveCh).mono (by omega)⟩, ?_⟩
  split_ifs
  · simp only [allWithin_append]
    exact ⟨(crCoords_within hn' hs').mono (by omega),
      (lfCoords_within (hn'.textCr hs') (hs'.congr (textSizes_of_attributes (textCr_attributes _)))).mono (by omega)⟩
  · exact allWithin_nil

theorem bsCoords_within (hn : Near k d) (hs : Sizes d) :
    AllWithin (k + 2097152) (bsCoords d) := by
  have hk := hn.nonneg
  have hb := textBounds_near hn hs
  have hn' := hn.pathBack hs
  have hs' : Sizes (pathBack d) := hs.congr (textSizes_of_attributes (pathBack_attributes d))
  have hstep : Within 327680 (if d.text.path < 2 then (wrap32 (icProduct d (cfW d))).tdiv d.text.icsDen
      else (wrap32 (icProduct d (cfH d))).tdiv d.text.icsDen) := by
    split_ifs
    · exact (hs.icProduct hs.cfW).wrap.tdiv _
    · exact (hs.icProduct hs.cfH).wrap.tdiv _
  unfold bsCoords
  simp only [allWithin_append, allWithin_cons, allWithin_nil, and_true]
  refine ⟨⟨(boundsCoords_within hn hs).mono (by omega), ?_⟩, ?_⟩
  · exact ⟨(hs.icProduct hs.cfW).mono (by omega), (hs.icProduct hs.cfH).mono (by omega),
      (hn.cx.add hstep).mono (by omega), (hn.cx.sub hstep).mono (by omega),
      (hn.cy.add hstep).mono (by omega), (hn.cy.sub hstep).mono (by omega),
      (hb.x1.sub hs'.cfW).mono (by omega), (hb.y1.sub hs'.cfH).mono (by omega)⟩
  · split_ifs
    · have hx := (hb.x1.sub hs'.cfW).wrap.mono (l := k + 327680) (by omega)
      exact (rlfCoords_within (hn'.withCx hx) (hs'.congr rfl)).mono (by omega)
    · exact allWithin_nil

theorem charCoords_within (hn : Near k d) (hs : Sizes d) (ch : Nat) :
    AllWithin (k + 2097152) (charCoords d ch) := by
  have hk := hn.nonneg
  have hcell : Within 851968 (drawCellW d ch) := by
    unfold drawCellW
    split_ifs
    · exact within_propAdvance hs.cfW ch
    · exact hs.cfW.mono (by decide)
  have hn' : Near k (painted d ch) := { hn with }
  have hs' : Sizes (painted d ch) := hs.congr rfl
  unfold charCoords
  split_ifs
  · exact allWithin_nil
  · simp only [paintCoords, allWithin_append, allWithin_cons, allWithin_nil, and_true]
    exact ⟨⟨(hn.cx.add hs.cfW).mono (by omega), (hn.cy.add hs.cfH).mono (by omega),
      (within_propProduct hs.cfW ch).mono (by omega), (hn.cx.add hcell).mono (by omega)⟩,
      advanceCoords_within hn' hs' ch true⟩

theorem spaceCoords_within (hn : Near k d) (hs : Sizes d) :
    AllWithin (k + 2097152) (spaceCoords d) := by
  have hn' : Near k (noteSpace d) := { hn with }
  have hs' : Sizes (noteSpace d) := hs.congr rfl
  unfold spaceCoords
  dsimp only
  split_ifs
  · exact charCoords_within hn' hs' 0x20
  · exact advanceCoords_within hn' hs' 0x20 false

theorem fillCoords_within (hn : Near k d) (hs : Sizes d) :
    AllWithin (k + 2097152) (fillCoords d) := by
  have hk := hn.nonneg
  have hw : Within 131072 (2 * cfW d) := by
    have := hs.cfW
    constructor <;> unfold Within at this <;> omega
  have hh : Within 131072 (2 * cfH d) := by
    have := hs.cfH
    constructor <;> unfold Within at this <;> omega
  simp only [fillCoords, endCoords, allWithin_append, allWithin_cons,
    allWithin_nil, and_true]
  refine ⟨⟨hw.mono (by omega), hh.mono (by omega), (hn.cx.add hw.wrap).mono (by omega),
    (hn.cx.sub hs.cfW).mono (by omega), (hn.cy.add hh.wrap).mono (by omega),
    (hn.cy.sub hs.cfH).mono (by omega)⟩, ?_⟩
  split_ifs
  · exact allWithin_nil
  · exact charCoords_within hn hs _

theorem placeCoords_within {x y w h : Int} (hx : Within 6225920 x) (hy : Within 6225920 y)
    (hw : Within 65536 w) (hh : Within 65536 h) :
    AllWithin 8388608 (placeCoords x y w h) := by
  have hone : Within 65536 fxOne := by decide
  have htop : Within 65536 visYFx := by decide
  simp only [placeCoords, allWithin_cons, allWithin_nil, and_true]
  exact ⟨(hx.add hw).mono (by decide), (hone.sub hw).mono (by decide),
    (hy.add hh).mono (by decide), (htop.sub hh).mono (by decide)⟩

/-! ### The coordinates of the instructions -/

theorem vertexCoords_within (dom : Domain) (p : Nat → Nat) (skipZero : Bool) (rounds blk : Nat)
    {x y : Int} {len : Nat} (hx : Within (k + 65536 * len) x) (hy : Within (k + 65536 * len) y) :
    AllWithin (k + 33554432) (vertexCoords dom p skipZero rounds blk x y len) := by
  induction rounds generalizing blk x y len with
  | zero => exact allWithin_nil
  | succ rounds ih =>
      obtain ⟨hvx, hvy⟩ := unpackMulti_within dom (ptr p (blk * dom.mvLen))
      rw [vertexCoords]
      dsimp only
      split_ifs with hroom hskip
      · exact ih (blk + 1) hx hy
      · have hlen : len < 511 := hroom
        have hx' := (hx.add hvx).mono (l := k + 65536 * (len + 1 : Nat)) (by omega)
        have hy' := (hy.add hvy).mono (l := k + 65536 * (len + 1 : Nat)) (by omega)
        simp only [allWithin_cons]
        exact ⟨hx'.mono (by omega), hy'.mono (by omega), ih (blk + 1) hx'.wrap hy'.wrap⟩
      · exact allWithin_nil

theorem startPoint_within (hn : Near k d) (p : Nat → Nat) (setform : Bool) :
    Within (k + 65536) (startPoint d p setform).1 ∧ Within (k + 65536) (startPoint d p setform).2 := by
  have hk := hn.nonneg
  obtain ⟨hx, hy⟩ := unpackMulti_within d.dom p
  unfold startPoint
  split_ifs
  · exact ⟨hx.mono (by omega), hy.mono (by omega)⟩
  · exact ⟨hn.dpx.mono (by omega), hn.dpy.mono (by omega)⟩

/-- The vertices drawn from the start point on, of which it is the first. -/
theorem startVertices_within (hn : Near k d) (p : Nat → Nat) (setform skipZero : Bool)
    (rounds blk : Nat) :
    AllWithin (k + 33554432)
      ((startPoint d p setform).1 :: (startPoint d p setform).2 ::
        vertexCoords d.dom p skipZero rounds blk (startPoint d p setform).1
          (startPoint d p setform).2 1) := by
  obtain ⟨hx, hy⟩ := startPoint_within hn p setform
  simp only [allWithin_cons]
  exact ⟨hx.mono (by omega), hy.mono (by omega), vertexCoords_within d.dom p skipZero rounds blk hx hy⟩

theorem throughCoords_within (p : Nat → Nat) (first nblk : Nat) {s : Int × Int}
    (hx : Within (k + 65536) s.1) (hy : Within (k + 65536) s.2) :
    AllWithin (k + 196608) (throughCoords d p first nblk s) := by
  obtain ⟨hix, hiy⟩ := unpackMulti_within d.dom (ptr p (first * d.dom.mvLen))
  obtain ⟨hex, hey⟩ := unpackMulti_within d.dom (ptr p ((first + 1) * d.dom.mvLen))
  have hmx := hx.add hix
  have hmy := hy.add hiy
  simp only [throughCoords, allWithin_append, allWithin_cons, allWithin_nil, and_true]
  refine ⟨⟨hx.mono (by omega), hy.mono (by omega), hmx.mono (by omega), hmy.mono (by omega)⟩, ?_⟩
  split_ifs
  · simp only [allWithin_cons, allWithin_nil, and_true]
    exact ⟨(hmx.wrap.add hex).mono (by omega), (hmy.wrap.add hey).mono (by omega)⟩
  · exact allWithin_nil

theorem arcCoords_within (hn : Near k d) (op : Nat) (p : Nat → Nat) (n : Nat) :
    AllWithin (k + 33554432) (arcCoords d op p n) := by
  obtain ⟨hx, hy⟩ := startPoint_within hn p (op = 0x2E ∨ op = 0x2F)
  unfold arcCoords
  dsimp only
  generalize (if op = 0x2E ∨ op = 0x2F then 1 else 0) = first
  split_ifs
  · exact allWithin_nil
  · exact startVertices_within hn p _ false _ _
  · exact (throughCoords_within p _ _ hx hy).mono (by omega)

theorem polyCoords_within (hn : Near k d) (op : Nat) (p : Nat → Nat) (n : Nat) :
    AllWithin (k + 33554432) (polyCoords d op p n) := by
  unfold polyCoords
  dsimp only
  split
  · exact allWithin_nil
  · exact startVertices_within hn p _ true _ _

/-- The corner of a segment or a rectangle, and the corner displaced by an operand. -/
theorem displaced_within (hn : Near k d) (setform : Prop) [Decidable setform] {v w : Int × Int}
    (hv : Within 65536 v.1 ∧ Within 65536 v.2) (hw : Within 65536 w.1 ∧ Within 65536 w.2) :
    AllWithin (k + 131072)
      [(if setform then (d.draw.dpx, d.draw.dpy) else v).1,
        (if setform then (d.draw.dpx, d.draw.dpy) else v).2,
        (if setform then v else w).1, (if setform then v else w).2,
        (if setform then v else w).1 + (if setform then (d.draw.dpx, d.draw.dpy) else v).1,
        (if setform then v else w).2 + (if setform then (d.draw.dpx, d.draw.dpy) else v).2] := by
  have hk := hn.nonneg
  simp only [allWithin_cons, allWithin_nil, and_true]
  split_ifs
  · exact ⟨hn.dpx.mono (by omega), hn.dpy.mono (by omega), hv.1.mono (by omega),
      hv.2.mono (by omega), (hv.1.add hn.dpx).mono (by omega), (hv.2.add hn.dpy).mono (by omega)⟩
  · exact ⟨hv.1.mono (by omega), hv.2.mono (by omega), hw.1.mono (by omega), hw.2.mono (by omega),
      (hw.1.add hv.1).mono (by omega), (hw.2.add hv.2).mono (by omega)⟩

theorem lineCoords_within (hn : Near k d) (op : Nat) (p : Nat → Nat) :
    AllWithin (k + 131072) (lineCoords d op p) := by
  have hall := displaced_within hn (op = 0x28 ∨ op = 0x29) (unpackMulti_within d.dom p)
    (unpackMulti_within d.dom (ptr p d.dom.mvLen))
  simp only [allWithin_cons, allWithin_nil, and_true] at hall
  obtain ⟨hax, hay, hvx, hvy, hbx, hby⟩ := hall
  unfold lineCoords
  dsimp only
  split
  · simp only [allWithin_cons, allWithin_nil, and_true]
    exact ⟨hax, hay, hbx, hby⟩
  · simp only [allWithin_cons, allWithin_nil, and_true]
    exact ⟨hax, hay, hvx, hvy⟩

theorem rectCoords_within (hn : Near k d) (op : Nat) (p : Nat → Nat) :
    AllWithin (k + 131072) (rectCoords d op p) := by
  have hall := displaced_within hn (op = 0x30 ∨ op = 0x31) (unpackMulti_within d.dom p)
    (unpackMulti_within d.dom (ptr p d.dom.mvLen))
  simp only [allWithin_cons, allWithin_nil, and_true] at hall
  obtain ⟨hax, hay, -, -, hbx, hby⟩ := hall
  simp only [rectCoords, allWithin_cons, allWithin_nil, and_true]
  refine ⟨hax, hay, ?_, ?_⟩
  · rw [Int.add_comm (Prod.fst _)]
    exact hbx
  · rw [Int.add_comm (Prod.snd _)]
    exact hby

theorem pointCoords_within (hn : Near k d) (op : Nat) (p : Nat → Nat) :
    AllWithin (k + 65536) (pointCoords d op p) := by
  have hk := hn.nonneg
  obtain ⟨hx, hy⟩ := unpackMulti_within d.dom p
  unfold pointCoords
  dsimp only
  split_ifs
  · simp only [allWithin_cons, allWithin_nil, and_true]
    exact ⟨hx.mono (by omega), hy.mono (by omega)⟩
  · simp only [allWithin_cons, allWithin_nil, and_true]
    exact ⟨hn.dpx.add hx, hn.dpy.add hy⟩

theorem setFieldCoords_within {origin size : Int × Int}
    (ho : Within (k + 65536) origin.1 ∧ Within (k + 65536) origin.2)
    (hs : Within 65536 size.1 ∧ Within 65536 size.2) :
    AllWithin (k + 131072) (setFieldCoords origin size) := by
  simp only [setFieldCoords, allWithin_cons, allWithin_nil, and_true]
  exact ⟨ho.1.mono (by omega), ho.2.mono (by omega), (ho.1.add hs.1).mono (by omega),
    (ho.2.add hs.2).mono (by omega)⟩

theorem fieldCoords_within (hn : Near k d) (p : Nat → Nat) (n : Nat) :
    AllWithin (k + 131072) (fieldCoords d p n) := by
  have hk := hn.nonneg
  have hfirst := unpackMulti_within d.dom p
  unfold fieldCoords
  dsimp only
  split_ifs
  · exact allWithin_nil
  · exact setFieldCoords_within ⟨hn.dpx.mono (by omega), hn.dpy.mono (by omega)⟩ hfirst
  · exact setFieldCoords_within ⟨hfirst.1.mono (by omega), hfirst.2.mono (by omega)⟩
      (unpackMulti_within d.dom _)

theorem resetCoords_within : AllWithin 65536 resetCoords := by
  simp only [resetCoords, allWithin_cons, allWithin_nil, and_true]
  exact by decide

theorem pdiCoords_within (hn : Near k d) (op : Nat) (p : Nat → Nat) (n : Nat) :
    AllWithin (k + 33554432) (pdiCoords d op p n) := by
  have hk := hn.nonneg
  unfold pdiCoords
  split
  · exact resetCoords_within.mono (by omega)
  all_goals first
    | exact (pointCoords_within hn _ p).mono (by omega)
    | exact (lineCoords_within hn _ p).mono (by omega)
    | exact arcCoords_within hn _ p n
    | exact (rectCoords_within hn _ p).mono (by omega)
    | exact polyCoords_within hn _ p n
    | exact (fieldCoords_within hn p n).mono (by omega)
    | exact allWithin_nil

/-! ### The coordinates of a call -/

theorem nsr_within (b0 b1 : Nat) : Within 6225920 (nsrX b1) ∧ Within 6225920 (nsrY b0) := by
  have hdx : cfNormalDx = 1638 := rfl
  have hdy : cfNormalDy = 2560 := rfl
  have htop : visYFx = 51200 := rfl
  unfold nsrX nsrY
  dsimp only
  rw [hdx, hdy, htop]
  refine ⟨⟨by omega, by omega⟩, ?_⟩
  split_ifs <;> constructor <;> omega

theorem apsIndex_within (b : Nat) : Within 95 (apsIndex b) := by
  unfold apsIndex
  constructor <;> omega

/-- No call takes a coordinate further than one unit screen for each vertex a path can have. -/
theorem callCoords_within (hn : Near k d) (hs : Sizes d) (c : Call) :
    AllWithin (k + 67108864) (callCoords d c) := by
  have hk := hn.nonneg
  have hhome : AllWithin (k + 67108864) (homeCoords d) := by
    have htop : Within 65536 visYFx := by decide
    simp only [homeCoords, allWithin_cons, allWithin_nil, and_true]
    exact (htop.sub hs.cfH).mono (by omega)
  have hcell : Within 65536 cfNormalDx ∧ Within 65536 cfNormalDy :=
    by decide
  cases c with
  | pdi op p n rep => exact (pdiCoords_within hn op p n).mono (by omega)
  | char ch => exact (charCoords_within hn hs ch).mono (by omega)
  | space => exact (spaceCoords_within hn hs).mono (by omega)
  | again => exact (charCoords_within hn hs _).mono (by omega)
  | fill => exact (fillCoords_within hn hs).mono (by omega)
  | bs => exact (bsCoords_within hn hs).mono (by omega)
  | advance => exact (advanceCoords_within hn hs 0x20 false).mono (by omega)
  | lf => exact (lfCoords_within hn hs).mono (by omega)
  | rlf => exact (rlfCoords_within hn hs).mono (by omega)
  | cr => exact (crCoords_within hn hs).mono (by omega)
  | home => exact hhome
  | clearScreen => exact hhome
  | nsrReset => exact resetCoords_within.mono (by omega)
  | nsrAddress b0 b1 =>
      obtain ⟨hx, hy⟩ := nsr_within b0 b1
      simp only [callCoords, allWithin_cons]
      exact ⟨hx.mono (by omega), hy.mono (by omega),
        (placeCoords_within hx hy hcell.1 hcell.2).mono (by omega)⟩
  | apsAddress b0 b1 =>
      have hx := (apsIndex_within b1).mul hs.cfW (m := 6225920) (by decide)
      have hy := (apsIndex_within b0).mul hs.cfH (m := 6225920) (by decide)
      simp only [callCoords, allWithin_cons]
      exact ⟨hx.mono (by omega), hy.mono (by omega),
        (placeCoords_within hx.wrap hy.wrap hs.cfW hs.cfH).mono (by omega)⟩
  | _ => exact allWithin_nil

end

end UnicornSuite.Naplps
