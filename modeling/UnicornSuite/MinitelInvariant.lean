import UnicornSuite.LibRun
import UnicornSuite.MinitelDecode

/-! The invariant of the Minitel terminal. `Screen.Ok` is kept by every control function and every
character, `Decoder.Ok` by every byte of every stream. -/

namespace UnicornSuite.Minitel

open CInt

/-! ### Cells -/

/-- The codes an alphabetic cell may hold: G0 and the names of the decoder. -/
def AlphaGlyph (g : Nat) : Prop := 0x20 ≤ g ∧ g ≤ 0x7E ∨ gFullblock ≤ g ∧ g < gEnd

instance (g : Nat) : Decidable (AlphaGlyph g) := inferInstanceAs (Decidable (_ ∨ _))

structure Cell.Ok (c : Cell) : Prop where
  fg : c.fg < 8
  bg : c.bg < 8
  mosaic : c.kind = .mosaic → c.glyph < 64 ∧ c.size = {}
  delim : c.kind = .delim → c.glyph = 0x20
  alpha : c.kind = .alpha → AlphaGlyph c.glyph
  top : c.size.top = true → c.size.dh = true
  right : c.size.right = true → c.size.dw = true

/-- What row `i` may hold: no sizes in row 0, no bottom halves in row 1 unless row 2 has been scrolled
into it. -/
structure CellAt (rolled : Bool) (i j : Int) (c : Cell) : Prop where
  ok : c.Ok
  row0 : i = 0 → c.size = {}
  row1 : i = 1 → rolled = false → c.size.dh = true → c.size.top = true

/-- The padding of the page memory. -/
def zeroCell : Cell := ⟨.alpha, 0, 0, 0, {}, {}⟩

structure PageOk (rolled : Bool) (g : Grid Cell) : Prop where
  good : g.Good page (CellAt rolled)
  margin : g.Margin page zeroCell

variable {rolled : Bool} {g : Grid Cell}

theorem PageOk.put (h : PageOk rolled g) {i j : Int} {c : Cell} (hm : page.Mem i j)
    (hc : CellAt rolled i j c) : PageOk rolled (g.put page i j c) :=
  ⟨h.good.put hm hc, h.margin.put i j c⟩

theorem blackMosaic_ok (i j : Int) : CellAt rolled i j blackMosaic where
  ok := ⟨by decide, by decide, fun _ => by decide, nofun, nofun, nofun, nofun⟩
  row0 := fun _ => rfl
  row1 := nofun

theorem PageOk.clearRow (h : PageOk rolled g) {r : Int} (hlo : 0 ≤ r) (hhi : r ≤ 24) (c0 c1 : Int) :
    PageOk rolled (clearRow g r c0 c1) := by
  refine ⟨h.good.fillRun (fun _ => ?_) fun _ _ _ => blackMosaic_ok _ _, h.margin.fillRun _ _ _ _⟩
  have hcols : cols = 40 := rfl
  simp only [Region.Mem]
  split_ifs at * <;> omega

theorem PageOk.clearRows (h : PageOk rolled g) (r0 r1 : Int) (hlo : 0 ≤ r0) (hhi : r1 ≤ 24) :
    PageOk rolled (clearRows g r0 r1) :=
  Loop.up_inv (I := PageOk rolled) (fun _ _ h0 h1 hg => hg.clearRow (by omega) (by omega) _ _) h

/-- The rows below `i` are erased. -/
structure Erased (i : Int) (g : Grid Cell) : Prop where
  noFault : g.fault = false
  margin : g.Margin page zeroCell
  rows : ∀ r c, 0 ≤ r → r < i → 1 ≤ c → c ≤ 40 → g.cell r c = blackMosaic

theorem Erased.clearRow {i : Int} (h : Erased i g) (hlo : 0 ≤ i) (hhi : i ≤ 24) :
    Erased (i + 1) (clearRow g i 1 cols) := by
  have hrun : page.MemRun i 1 40 := fun _ => by
    simp only [Region.Mem]
    omega
  have heq : Minitel.clearRow g i 1 cols = g.fillRun page i 1 40 blackMosaic := rfl
  refine ⟨?_, heq ▸ h.margin.fillRun _ _ _ _, fun r c hr0 hr hc0 hc => ?_⟩
  · rw [heq, Grid.fillRun, if_pos hrun]
    exact h.noFault
  · rw [heq, Grid.fillRun, if_pos hrun]
    dsimp only
    split
    · rfl
    · exact h.rows r c hr0 (by omega) hc0 hc

/-- The reset erases a zeroed memory. -/
theorem PageOk.erased : PageOk rolled (Minitel.clearRows (.const zeroCell) 0 24) := by
  have hall : Erased 25 (Minitel.clearRows (.const zeroCell) 0 24) := by
    refine Loop.up_ind (I := Erased) (by decide) (fun i g hlo hhi hg => ?_)
      ⟨rfl, Grid.margin_const _, fun r c h0 h1 => by omega⟩
    exact hg.clearRow hlo (by omega)
  refine ⟨⟨hall.noFault, fun i j hm => ?_⟩, hall.margin⟩
  rw [hall.rows i j hm.1 hm.2.1 hm.2.2.1 (by have := hm.2.2.2; simp only at this; omega)]
  exact blackMosaic_ok i j

/-- A row between 1 and 24 may move to another one, though row 2 to row 1 only in a page that counts
as rolled. -/
theorem PageOk.moveRow (h : PageOk rolled g) {dst src : Int} (hdst : 1 ≤ dst ∧ dst ≤ 24)
    (hsrc : 1 ≤ src ∧ src ≤ 24) (hroll : dst = 1 → rolled = true) :
    PageOk rolled (g.moveRows page dst src 1) := by
  refine ⟨h.good.moveRows (by decide) (fun _ => by simp only; omega)
    (fun _ => by simp only; omega) ?_, h.margin.moveRows _ _ _⟩
  intro i j c hlo hhi hc
  refine ⟨hc.ok, fun hi => by omega, fun hi hr => ?_⟩
  have hrolled := hroll (by omega)
  rw [hrolled] at hr
  cases hr

theorem PageOk.rowsUp (h : PageOk rolled g) {top bottom : Int} (htop : 1 ≤ top)
    (hbottom : 0 ≤ bottom ∧ bottom ≤ 24) (hroll : top ≤ 1 → rolled = true) :
    PageOk rolled (rowsUp g top bottom) := by
  refine PageOk.clearRow ?_ hbottom.1 hbottom.2 _ _
  refine Loop.up_inv (I := PageOk rolled) (fun r _ h0 h1 hg => ?_) h
  exact hg.moveRow ⟨by omega, by omega⟩ ⟨by omega, by omega⟩ fun hr => hroll (by omega)

theorem PageOk.rowsDown (h : PageOk rolled g) {top bottom : Int} (htop : 1 ≤ top ∧ top ≤ 24)
    (hbottom : bottom ≤ 24) : PageOk rolled (rowsDown g top bottom) := by
  refine PageOk.clearRow ?_ (by omega) htop.2 _ _
  refine Loop.down_inv (I := PageOk rolled) (fun r _ h0 h1 hg => ?_) h
  exact hg.moveRow ⟨by omega, by omega⟩ ⟨by omega, by omega⟩ fun hr => by omega

theorem PageOk.moveRun (h : PageOk rolled g) {i dst src n : Int} (hn : 0 ≤ n)
    (hd : page.MemRun i dst (dst + n - 1)) (hs : page.MemRun i src (src + n - 1)) :
    PageOk rolled (g.moveRun page i dst src n) :=
  ⟨h.good.moveRun hn hd hs fun _ _ _ _ hc => ⟨hc.ok, hc.row0, hc.row1⟩, h.margin.moveRun _ _ _ _⟩

/-- Every cell of a page that is not rolled is good in a rolled one. -/
theorem PageOk.roll (h : PageOk rolled g) (r : Bool) : PageOk (rolled || r) g := by
  refine ⟨h.good.mono fun i j c _ hc => ⟨hc.ok, hc.row0, fun hi hr => hc.row1 hi ?_⟩, h.margin⟩
  exact (Bool.or_eq_false_iff.mp hr).1

/-! ### The screen -/

structure Attr.Ok (a : Attr) : Prop where
  fg : a.fg < 8
  sBg : a.sBg < 8
  parts : a.size.right = false ∧ a.size.top = false
  inG1 : a.g1 = true → a.size = {} ∧ a.invert = false
  outG1 : a.g1 = false → a.separated = false

/-- Row 0 has not been entered since the reset; there is nothing to return to. -/
def Screen.NeverInRow0 (d : Screen) : Prop := d.inRow0 = false ∧ d.svRow = 0 ∧ d.svCol = 0

instance (d : Screen) : Decidable d.NeverInRow0 := inferInstanceAs (Decidable (_ ∧ _))

structure Screen.Ok (d : Screen) : Prop where
  mem : PageOk d.rolled d.mem
  row : 0 ≤ d.row ∧ d.row ≤ 24
  inRow0 : d.inRow0 = true ↔ d.row = 0
  col : 1 ≤ d.col ∧ d.col ≤ 41
  saved : d.NeverInRow0 ∨ (1 ≤ d.svRow ∧ d.svRow ≤ 24) ∧ 1 ≤ d.svCol ∧ d.svCol ≤ cols
  a : d.a.Ok
  svA : d.svA.Ok
  lastG0 : d.lastKind = .g0 → 0x20 ≤ d.lastCode ∧ d.lastCode ≤ 0x7E
  lastGlyph : d.lastKind = .glyph → AlphaGlyph d.lastCode

variable {d : Screen}

theorem attrDefault_ok : attrDefault.Ok :=
  ⟨by decide, by decide, ⟨rfl, rfl⟩, nofun, fun _ => rfl⟩

theorem filtered_ok (h : d.Ok) : (filtered d).Ok := { h with }

theorem markEver_ok (h : d.Ok) : (markEver d).Ok := { h with }

theorem Screen.Ok.withMem (h : d.Ok) {mem : Grid Cell} (hmem : PageOk d.rolled mem) :
    Screen.Ok { d with mem := mem } := { h with mem := hmem }

theorem setAttr_ok (h : d.Ok) {a : Attr} (ha : a.Ok) : (setAttr d a).Ok := { h with a := ha }

theorem separatorReset_ok (h : d.Ok) : (separatorReset d).Ok := { h with a := attrDefault_ok }

theorem settleCol_ok (h : d.Ok) : (settleCol d).Ok := by
  refine { h with col := ?_ }
  have hcols : cols = 40 := rfl
  have hcol := h.col
  simp only [settleCol]
  split_ifs <;> omega

theorem settleCol_col_le (h : d.Ok) : (settleCol d).col ≤ cols := by
  have hcols : cols = 40 := rfl
  have hcol := h.col
  simp only [settleCol]
  split_ifs <;> omega

/-- A move that keeps the row or goes to another of rows 1 to 24. -/
theorem moveTo_ok (h : d.Ok) {row col : Int} (hrow0 : d.inRow0 = false) (hrow : 1 ≤ row ∧ row ≤ 24)
    (hcol : 1 ≤ col ∧ col ≤ 41) : (moveTo d row col).Ok := by
  refine { h with row := ⟨by simp only [moveTo]; omega, hrow.2⟩, inRow0 := ?_, col := hcol }
  simp only [moveTo, hrow0, Bool.false_eq_true, false_iff]
  omega

theorem moveCol_ok (h : d.Ok) {col : Int} (hcol : 1 ≤ col ∧ col ≤ 41) :
    (moveTo d d.row col).Ok := { h with col := hcol }

theorem Screen.Ok.row_pos (h : d.Ok) (hrow0 : d.inRow0 = false) : 1 ≤ d.row := by
  have hrow := h.row
  have hne : d.row ≠ 0 := fun hzero => by simp [h.inRow0.mpr hzero] at hrow0
  omega

theorem leaveRow0_moveTo_ok (h : d.Ok) {row col : Int} (hrow : 1 ≤ row ∧ row ≤ 24)
    (hcol : 1 ≤ col ∧ col ≤ 41) : (moveTo (leaveRow0 d) row col).Ok := by
  refine { h with
    row := ⟨by simp only [moveTo]; omega, hrow.2⟩, inRow0 := ?_, col := hcol
    saved := h.saved.imp (fun hs => ⟨rfl, hs.2⟩) id }
  simp only [moveTo, leaveRow0, Bool.false_eq_true, false_iff]
  omega

theorem scrollUp_ok (h : d.Ok) {top bottom n : Int} (htop : 1 ≤ top)
    (hbottom : 0 ≤ bottom ∧ bottom ≤ 24) : (scrollUp d top bottom n).Ok := by
  refine { h with mem := ?_ }
  have hpage := h.mem.roll (decide (top ≤ 1 ∧ 0 < n))
  refine Loop.up_inv (I := PageOk (d.rolled || decide (top ≤ 1 ∧ 0 < n)))
    (fun i _ h0 h1 hg => hg.rowsUp htop hbottom fun hle => ?_) hpage
  simp only [Bool.or_eq_true, decide_eq_true_eq]
  exact .inr ⟨hle, by omega⟩

theorem scrollDown_ok (h : d.Ok) {top bottom n : Int} (htop : 1 ≤ top ∧ top ≤ 24)
    (hbottom : bottom ≤ 24) : (scrollDown d top bottom n).Ok :=
  h.withMem (Loop.up_inv (I := PageOk d.rolled) (fun _ _ _ _ hg => hg.rowsDown htop hbottom) h.mem)

/-! ### Moves -/

theorem restoreSaved_ok (h : d.Ok) (hin : d.inRow0 = true) : (restoreSaved d).Ok := by
  have hcols : cols = 40 := rfl
  have hsaved := h.saved.resolve_left fun hs => by simp [hs.1] at hin
  have hrow := hsaved.1
  have hcol := hsaved.2
  refine { h with
    row := ⟨by simp only [restoreSaved]; omega, hrow.2⟩, inRow0 := ?_
    col := ⟨hcol.1, by simp only [restoreSaved]; omega⟩, saved := .inr hsaved, a := h.svA }
  simp only [restoreSaved, Bool.false_eq_true, false_iff]
  omega

theorem doLf_ok (h : d.Ok) : (doLf d).Ok := by
  have hs := settleCol_ok h
  simp only [doLf]
  generalize settleCol d = e at hs
  have hrow := hs.row
  split_ifs with hin hlast hscroll
  · exact restoreSaved_ok hs hin
  · exact scrollUp_ok hs (by decide) ⟨by decide, by decide⟩
  · exact moveTo_ok hs (by simpa using hin) ⟨by decide, by decide⟩ hs.col
  · exact moveTo_ok hs (by simpa using hin) ⟨by omega, by omega⟩ hs.col

theorem doVt_ok (h : d.Ok) : (doVt d).Ok := by
  have hs := settleCol_ok h
  simp only [doVt]
  generalize settleCol d = e at hs
  have hrow := hs.row
  split_ifs with hin hfirst hscroll
  · exact hs
  · exact scrollDown_ok hs ⟨by decide, by decide⟩ (by decide)
  · exact moveTo_ok hs (by simpa using hin) ⟨by decide, by decide⟩ hs.col
  · exact moveTo_ok hs (by simpa using hin) ⟨by omega, by omega⟩ hs.col

theorem doBs_ok (h : d.Ok) : (doBs d).Ok := by
  have hcols : cols = 40 := rfl
  have hrow := h.row
  have hcol := h.col
  simp only [doBs]
  split_ifs with hwrap hcol1 hin hrow1
  · exact moveCol_ok h ⟨by decide, by decide⟩
  · exact moveCol_ok h ⟨by omega, by omega⟩
  · exact h
  · exact moveTo_ok h (by simpa using hin) ⟨by omega, by omega⟩ ⟨by decide, by decide⟩
  · exact moveTo_ok h (by simpa using hin) ⟨by decide, by decide⟩ ⟨by decide, by decide⟩

theorem doHt_ok (h : d.Ok) : (doHt d).Ok := by
  have hs := settleCol_ok h
  simp only [doHt]
  generalize settleCol d = e at hs
  have hcols : cols = 40 := rfl
  have hrow := hs.row
  have hcol := hs.col
  split_ifs with hcol40 hin hrow24
  · exact moveCol_ok hs ⟨by omega, by omega⟩
  · exact hs
  · exact moveTo_ok hs (by simpa using hin) ⟨by omega, by omega⟩ ⟨by decide, by decide⟩
  · exact moveTo_ok hs (by simpa using hin) ⟨by decide, by decide⟩ ⟨by decide, by decide⟩

/-! ### Writing a character -/

theorem countChar_ok (h : d.Ok) : (countChar d).Ok := { h with }

theorem plainCell_ok {c : Cell} (hc : c.Ok) : ({ c with size := {} } : Cell).Ok :=
  { hc with mosaic := fun hk => ⟨(hc.mosaic hk).1, rfl⟩, top := nofun, right := nofun }

theorem putRow0_ok (h : d.Ok) {c : Cell} (hc : c.Ok) : (putRow0 d c).Ok := by
  have hcols : cols = 40 := rfl
  have hcol := h.col
  refine countChar_ok { h with mem := ?_, col := ?_ }
  · refine h.mem.put ?_ ⟨plainCell_ok hc, fun _ => rfl, nofun⟩
    simp only [Region.Mem]
    split_ifs <;> omega
  · dsimp only
    split_ifs <;> omega

theorem moveTo_scrollUp_ok (h : d.Ok) (hrow0 : d.inRow0 = false) {n row : Int}
    (hrow : 1 ≤ row ∧ row ≤ 24) : (moveTo (scrollUp d 1 24 n) row 1).Ok :=
  moveTo_ok (scrollUp_ok h (by decide) ⟨by decide, by decide⟩) hrow0 hrow ⟨by decide, by decide⟩

theorem wrapPending_ok (h : d.Ok) (hrow0 : d.inRow0 = false) (dh : Bool) :
    (wrapPending d dh).Ok := by
  have hrow := h.row_pos hrow0
  have hone : (1 : Int) ≤ 1 ∧ (1 : Int) ≤ 41 := ⟨by decide, by decide⟩
  simp only [wrapPending]
  by_cases hwrap : d.col > cols
  · rw [if_pos hwrap]
    by_cases hlast : d.row + (if dh = true then 2 else 1) > 24
    · rw [if_pos hlast]
      cases d.scroll with
      | true => exact moveTo_scrollUp_ok h hrow0 ⟨by decide, by decide⟩
      | false => cases dh <;> exact moveTo_ok h hrow0 ⟨by decide, by decide⟩ hone
    · rw [if_neg hlast]
      refine moveTo_ok h hrow0 ⟨?_, by omega⟩ hone
      split_ifs <;> omega
  · rw [if_neg hwrap]
    exact h

/-- A wrap that was pending is done; a column is open to write. -/
theorem wrapPending_col_le (d : Screen) (dh : Bool) : (wrapPending d dh).col ≤ cols := by
  have hcols : cols = 40 := rfl
  simp only [wrapPending]
  by_cases hwrap : d.col > cols
  · rw [if_pos hwrap]
    split_ifs <;> exact (by decide : (1 : Int) ≤ 40)
  · rw [if_neg hwrap]
    omega

@[simp] theorem wrapPending_inRow0 (d : Screen) (dh : Bool) :
    (wrapPending d dh).inRow0 = d.inRow0 := by
  simp only [wrapPending]
  split_ifs <;> rfl

theorem openColumn_ok (h : d.Ok) (hle : d.col ≤ cols) : (openColumn d).Ok := by
  have hcols : cols = 40 := rfl
  have hrow := h.row
  have hcol := h.col
  refine h.withMem (h.mem.moveRun (by omega) ?_ ?_)
  all_goals
    intro _
    simp only [Region.Mem]
    omega

/-- The parts of a character keep its kind; a character without sizes has one part. -/
theorem part_ok {c : Cell} (hc : c.Ok) {size : Size} {top right : Bool}
    (hdw : size.dw = true → c.size.dw = true) (hdh : size.dh = true → c.size.dh = true)
    (htop : top = true → size.dh = true) (hright : right = true → size.dw = true) :
    ({ c with size := { dw := size.dw, dh := size.dh, right := right, top := top } } : Cell).Ok where
  fg := hc.fg
  bg := hc.bg
  delim := hc.delim
  alpha := hc.alpha
  top := htop
  right := hright
  mosaic := by
    intro hk
    obtain ⟨hglyph, hsize⟩ := hc.mosaic hk
    simp only [hsize, Bool.false_eq_true, imp_false, Bool.not_eq_true] at hdw hdh
    simp only [hdw, hdh, Bool.false_eq_true, imp_false, Bool.not_eq_true] at htop hright
    simp only [hdw, hdh, htop, hright]
    exact ⟨hglyph, trivial⟩

/-- A character fits where its size has been fitted to: double height not in row 1, double width not
in column 40. -/
structure Fits (d : Screen) (c : Cell) (size : Size) : Prop where
  dw : size.dw = true → c.size.dw = true ∧ d.col < cols
  dh : size.dh = true → c.size.dh = true ∧ 2 ≤ d.row

theorem fitSize_fits (hcol : d.col ≤ cols) (c : Cell) : Fits d c (fitSize d c.size) := by
  constructor
  · intro hdw
    simp only [fitSize, Bool.and_eq_true, decide_eq_true_eq] at hdw
    exact ⟨hdw.1, by omega⟩
  · intro hdh
    simp only [fitSize, Bool.and_eq_true, decide_eq_true_eq] at hdh
    exact hdh

theorem putPart_ok (h : d.Ok) (hrow0 : d.inRow0 = false) (hcol : d.col ≤ cols) {c : Cell}
    (hc : c.Ok) {size : Size} (hfits : Fits d c size) {top right : Bool}
    (htop : top = true → size.dh = true) (hright : right = true → size.dw = true)
    (hg : PageOk d.rolled g) : PageOk d.rolled (putPart d c size top right g) := by
  have hcols : cols = 40 := rfl
  have hrow := h.row_pos hrow0
  have hrow' := h.row
  have hcol' := h.col
  have hdh := fun ht => (hfits.dh (htop ht)).2
  have hdw := fun hr => (hfits.dw (hright hr)).2
  refine hg.put ?_ ⟨part_ok hc (fun hs => (hfits.dw hs).1) (fun hs => (hfits.dh hs).1) htop hright,
    fun hi => ?_, fun hi _ hs => ?_⟩
  · simp only [Region.Mem]
    split_ifs with ht hr hr
    · have := hdh ht; have := hdw hr; omega
    · have := hdh ht; omega
    · have := hdw hr; omega
    · omega
  · split_ifs at hi with ht
    · have := hdh ht; omega
    · omega
  · by_cases ht : top = true
    · exact ht
    · rw [if_neg ht] at hi
      have := (hfits.dh hs).2
      omega

theorem placeCell_ok (h : d.Ok) (hrow0 : d.inRow0 = false) (hcol : d.col ≤ cols) {c : Cell}
    (hc : c.Ok) {size : Size} (hfits : Fits d c size) : (placeCell d c size).Ok := by
  have hcols : cols = 40 := rfl
  have hcol' := h.col
  have hbase : PageOk d.rolled (putPart d c size false false d.mem) :=
    putPart_ok h hrow0 hcol hc hfits nofun nofun h.mem
  refine countChar_ok { h with mem := ?_, col := ?_ }
  · cases hdw : size.dw <;> cases hdh : size.dh
    · exact hbase
    · exact putPart_ok h hrow0 hcol hc hfits (fun _ => hdh) nofun hbase
    · exact putPart_ok h hrow0 hcol hc hfits nofun (fun _ => hdw) hbase
    · refine putPart_ok h hrow0 hcol hc hfits (fun _ => hdh) (fun _ => hdw) ?_
      refine putPart_ok h hrow0 hcol hc hfits (fun _ => hdh) nofun ?_
      exact putPart_ok h hrow0 hcol hc hfits nofun (fun _ => hdw) hbase
  · dsimp only
    split_ifs with hdw
    · have := (hfits.dw hdw).2
      omega
    · omega

theorem putCell_ok (h : d.Ok) {c : Cell} (hc : c.Ok) : (putCell d c).Ok := by
  have hm := markEver_ok h
  simp only [putCell]
  generalize markEver d = e at hm
  by_cases hin : e.inRow0 = true
  · rw [if_pos hin]
    exact putRow0_ok hm hc
  · rw [if_neg hin]
    have hrow0 : (wrapPending e c.size.dh).inRow0 = false := by simpa using hin
    have hw := wrapPending_ok hm (by simpa using hin) c.size.dh
    have hcol := wrapPending_col_le e c.size.dh
    generalize wrapPending e c.size.dh = w at hrow0 hw hcol
    have hfits := fitSize_fits hcol c
    split
    · exact placeCell_ok (openColumn_ok hw hcol) hrow0 hcol hc ⟨hfits.dw, hfits.dh⟩
    · exact placeCell_ok hw hrow0 hcol hc hfits

/-! ### Characters -/

variable {a : Attr}

theorem alphaCell_ok (ha : a.Ok) (glyph : Nat) (hglyph : AlphaGlyph glyph) :
    (alphaCell a glyph).Ok where
  fg := ha.fg
  bg := (by decide : 0 < 8)
  mosaic := nofun
  delim := nofun
  alpha := fun _ => hglyph
  top := fun ht => by simp [alphaCell, ha.parts.2] at ht
  right := fun hr => by simp [alphaCell, ha.parts.1] at hr

theorem mosaicCell_ok (ha : a.Ok) (bits : Nat) : (mosaicCell a bits).Ok where
  fg := ha.fg
  bg := ha.sBg
  mosaic := fun _ => ⟨Nat.mod_lt _ (by decide), rfl⟩
  delim := nofun
  alpha := nofun
  top := nofun
  right := nofun

theorem delimCell_ok (ha : a.Ok) : (delimCell a).Ok :=
  { alphaCell_ok ha 0x20 (by decide) with
    bg := ha.sBg, mosaic := nofun, delim := fun _ => rfl, alpha := nofun }

theorem spaceCell_ok (ha : a.Ok) : (spaceCell a).Ok :=
  { alphaCell_ok ha 0x20 (by decide) with }

theorem canCell_ok (ha : a.Ok) : (canCell a).Ok := by
  simp only [canCell]
  split
  · exact { mosaicCell_ok ha 0 with }
  · exact plainCell_ok (spaceCell_ok ha)

theorem setLast_ok (h : d.Ok) {kind : LastKind} {code : Nat}
    (hg0 : kind = .g0 → 0x20 ≤ code ∧ code ≤ 0x7E) (hglyph : kind = .glyph → AlphaGlyph code) :
    (setLast d kind code).Ok := { h with lastG0 := hg0, lastGlyph := hglyph }

theorem unrepresent_ok (h : d.Ok) : (unrepresent d).Ok := { h with }

theorem validatePaper_ok (h : d.Ok) : (validatePaper d).Ok := by
  simp only [validatePaper]
  split
  · exact h
  · exact { h with a := { h.a with } }

theorem putMosaic_ok (h : d.Ok) (bits : Nat) : (putMosaic d bits).Ok :=
  putCell_ok (validatePaper_ok h) (mosaicCell_ok h.a bits)

theorem putG1_ok (h : d.Ok) (b : Nat) : (putG1 d b).Ok := by
  simp only [putG1]
  split_ifs
  · exact setLast_ok (putMosaic_ok h _) nofun nofun
  · exact setLast_ok (putMosaic_ok (unrepresent_ok h) _) nofun nofun
  · exact setLast_ok (putMosaic_ok h _) nofun nofun

theorem clearPending_ok (h : d.Ok) : (clearPending d).Ok := { h with a := { h.a with } }

theorem setSpace_ok (h : d.Ok) : (setLast d .g0 0x20).Ok :=
  setLast_ok h (fun _ => ⟨by decide, by decide⟩) nofun

theorem putSpace_ok (h : d.Ok) : (putSpace d).Ok := by
  simp only [putSpace]
  split_ifs
  · exact setSpace_ok (putMosaic_ok h _)
  · exact setSpace_ok (putCell_ok (clearPending_ok h) (delimCell_ok h.a))
  · exact setSpace_ok (putCell_ok h (spaceCell_ok h.a))

theorem putGlyph_ok (h : d.Ok) {glyph : Nat} (hglyph : AlphaGlyph glyph) : (putGlyph d glyph).Ok :=
  setLast_ok (putCell_ok h (alphaCell_ok h.a _ hglyph)) nofun fun _ => hglyph

theorem putG0_ok (h : d.Ok) {b : Nat} (hb : 0x20 ≤ b ∧ b ≤ 0x7E) : (putG0 d b).Ok := by
  simp only [putG0]
  split
  · exact putSpace_ok h
  · exact setLast_ok (putCell_ok h (alphaCell_ok h.a _ (.inl hb))) (fun _ => hb) nofun

theorem putDel_ok (h : d.Ok) : (putDel d).Ok := by
  simp only [putDel]
  split
  · exact putG1_ok h _
  · exact putGlyph_ok h (by decide)

theorem putPrintable_ok (h : d.Ok) {b : Nat} (hlo : 0x20 ≤ b) (hhi : b < 128) :
    (putPrintable d b).Ok := by
  simp only [putPrintable]
  split_ifs
  · exact putDel_ok h
  · exact putSpace_ok h
  · exact putG1_ok h b
  · exact putG0_ok h ⟨hlo, by omega⟩

theorem repeatLast_ok (h : d.Ok) (n : Nat) : (repeatLast n d).Ok := by
  induction n generalizing d with
  | zero => exact h
  | succ n ih =>
      refine ih ?_
      cases hk : d.lastKind with
      | g0 =>
          dsimp only
          split
          · exact putSpace_ok h
          · exact putCell_ok h (alphaCell_ok h.a _ (.inl (h.lastG0 hk)))
      | g1 => exact putG1_ok h _
      | glyph => exact putGlyph_ok h (h.lastGlyph hk)
      | none => exact h

end UnicornSuite.Minitel
