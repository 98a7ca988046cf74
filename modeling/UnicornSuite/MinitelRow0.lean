import UnicornSuite.MinitelRun

/-! Row 0 is a screen of its own. Whatever a byte does away from row 0 leaves the cells of row 0 alone, and
on row 0 the cells of the page (`Framed`), FF apart; and the way out of row 0 is LF, RS, FF or an address. -/

namespace UnicornSuite.Minitel

variable {d d' : Screen} {g : Grid Cell}

/-- The rows on the other side: row 0, or the page while the terminal is on row 0. -/
def Screen.Away (d : Screen) (i : Int) : Prop := i = 0 ↔ d.inRow0 = false

/-- The cells on the other side are as they were, and the terminal is on the same side. -/
structure Framed (d d' : Screen) : Prop where
  mem : Grid.SameOn d.Away d.mem d'.mem
  inRow0 : d'.inRow0 = d.inRow0

theorem not_away_row (h : d.Ok) : ¬ d.Away d.row := by
  rw [Screen.Away, ← h.inRow0]
  cases d.inRow0 <;> decide

theorem not_away_of_ne (hrow0 : d.inRow0 = false) {i : Int} (hi : i ≠ 0) : ¬ d.Away i :=
  fun haway => hi (haway.mpr hrow0)

theorem Framed.refl (d : Screen) : Framed d d := ⟨.refl _ _, rfl⟩

theorem Framed.of_mem (hmem : d'.mem = d.mem) (hrow0 : d'.inRow0 = d.inRow0) : Framed d d' :=
  ⟨by rw [hmem]; exact .refl _ _, hrow0⟩

/-- Both see the same rows on the other side. -/
theorem Framed.away (h : Framed d d') : d'.Away = d.Away := by
  funext i
  rw [Screen.Away, Screen.Away, h.inRow0]

theorem Framed.trans {d'' : Screen} (h : Framed d d') (h' : Framed d' d'') : Framed d d'' := by
  exact ⟨h.mem.trans (h.away ▸ h'.mem), h'.inRow0.trans h.inRow0⟩

/-! ### Erasing and scrolling -/

variable {S : Int → Prop} {g' : Grid Cell}

theorem sameOn_clearRow (h : Grid.SameOn S g g') {r : Int} (hr : ¬ S r) (c0 c1 : Int) :
    Grid.SameOn S g (clearRow g' r c0 c1) := h.fillRun hr _ _ _

theorem sameOn_clearRows (h : Grid.SameOn S g g') {r0 r1 : Int}
    (hr : ∀ r, r0 ≤ r → r ≤ r1 → ¬ S r) : Grid.SameOn S g (clearRows g' r0 r1) := by
  apply Loop.up_inv (I := Grid.SameOn S g) _ h
  intro r _ hlo hhi hg
  exact sameOn_clearRow hg (hr r hlo (by omega)) _ _

theorem sameOn_rowsUp (h : Grid.SameOn S g g') {top bottom : Int} (hle : top ≤ bottom)
    (hr : ∀ r, top ≤ r → r ≤ bottom → ¬ S r) : Grid.SameOn S g (rowsUp g' top bottom) := by
  refine sameOn_clearRow ?_ (hr bottom hle (by omega)) _ _
  apply Loop.up_inv (I := Grid.SameOn S g) _ h
  intro r _ hlo hhi hg
  exact hg.moveRows fun i h0 h1 => hr i (by omega) (by omega)

theorem sameOn_rowsDown (h : Grid.SameOn S g g') {top bottom : Int} (hle : top ≤ bottom)
    (hr : ∀ r, top ≤ r → r ≤ bottom → ¬ S r) : Grid.SameOn S g (rowsDown g' top bottom) := by
  refine sameOn_clearRow ?_ (hr top (by omega) hle) _ _
  apply Loop.down_inv (I := Grid.SameOn S g) _ h
  intro r _ hlo hhi hg
  exact hg.moveRows fun i h0 h1 => hr i (by omega) (by omega)

theorem scrollUp_framed (hrow0 : d.inRow0 = false) {top bottom : Int} (htop : 1 ≤ top)
    (hle : top ≤ bottom) (n : Int) : Framed d (scrollUp d top bottom n) := by
  refine ⟨?_, rfl⟩
  apply Loop.up_inv (I := Grid.SameOn d.Away d.mem) _ (.refl _ _)
  intro _ g' _ _ hg
  exact sameOn_rowsUp hg hle fun r h0 _ => not_away_of_ne hrow0 (by omega)

theorem scrollDown_framed (hrow0 : d.inRow0 = false) {top bottom : Int} (htop : 1 ≤ top)
    (hle : top ≤ bottom) (n : Int) : Framed d (scrollDown d top bottom n) := by
  refine ⟨?_, rfl⟩
  apply Loop.up_inv (I := Grid.SameOn d.Away d.mem) _ (.refl _ _)
  intro _ g' _ _ hg
  exact sameOn_rowsDown hg hle fun r h0 _ => not_away_of_ne hrow0 (by omega)

/-! ### Moves -/

theorem settleCol_framed (d : Screen) : Framed d (settleCol d) := .of_mem rfl rfl

theorem moveTo_framed (d : Screen) (row col : Int) : Framed d (moveTo d row col) := .of_mem rfl rfl

theorem doLf_framed (hrow0 : d.inRow0 = false) : Framed d (doLf d) := by
  refine (settleCol_framed d).trans ?_
  have hs : (settleCol d).inRow0 = false := hrow0
  simp only [doLf]
  rw [if_neg (by simp [hs])]
  split_ifs
  · exact scrollUp_framed hs (by decide) (by decide) _
  · exact moveTo_framed _ _ _
  · exact moveTo_framed _ _ _

theorem doVt_framed (d : Screen) : Framed d (doVt d) := by
  refine (settleCol_framed d).trans ?_
  simp only [doVt]
  split_ifs with hin
  · exact .refl _
  · exact scrollDown_framed (by simpa using hin) (by decide) (by decide) _
  · exact moveTo_framed _ _ _
  · exact moveTo_framed _ _ _

theorem doBs_framed (d : Screen) : Framed d (doBs d) := by
  unfold doBs
  split_ifs <;> exact .of_mem rfl rfl

theorem doHt_framed (d : Screen) : Framed d (doHt d) := by
  refine (settleCol_framed d).trans ?_
  simp only [doHt]
  split_ifs <;> exact .of_mem rfl rfl

/-! ### Writing a character -/

theorem putRow0_framed (hrow0 : d.inRow0 = true) (c : Cell) : Framed d (putRow0 d c) := by
  have hzero : ¬ d.Away 0 := by
    rw [Screen.Away, hrow0]
    decide
  exact ⟨(Grid.SameOn.refl d.Away d.mem).put hzero _ _, rfl⟩

theorem wrapPending_framed (hrow0 : d.inRow0 = false) (dh : Bool) : Framed d (wrapPending d dh) := by
  simp only [wrapPending]
  by_cases hwrap : d.col > cols
  · rw [if_pos hwrap]
    by_cases hlast : d.row + (if dh = true then 2 else 1) > 24
    · rw [if_pos hlast]
      cases d.scroll with
      | true => exact (scrollUp_framed hrow0 (by decide) (by decide) _).trans (moveTo_framed _ _ _)
      | false => exact moveTo_framed _ _ _
    · rw [if_neg hlast]
      exact moveTo_framed _ _ _
  · rw [if_neg hwrap]
    exact .refl d

theorem openColumn_framed (h : d.Ok) : Framed d (openColumn d) :=
  ⟨(Grid.SameOn.refl d.Away d.mem).moveRun (not_away_row h) _ _ _, rfl⟩

/-- The upper half of a character is not in row 0 either. -/
theorem placeCell_framed (h : d.Ok) (hrow0 : d.inRow0 = false) (c : Cell) {size : Size}
    (hdh : size.dh = true → 2 ≤ d.row) : Framed d (placeCell d c size) := by
  have hrow := h.row_pos hrow0
  have hpart : ∀ {top right : Bool} {g : Grid Cell}, (top = true → size.dh = true) →
      Grid.SameOn d.Away d.mem g → Grid.SameOn d.Away d.mem (putPart d c size top right g) := by
    intro top right g htop hg
    refine hg.put (not_away_of_ne hrow0 ?_) _ _
    split_ifs with ht
    · have := hdh (htop ht)
      omega
    · omega
  have hbase : Grid.SameOn d.Away d.mem (putPart d c size false false d.mem) :=
    hpart nofun (.refl _ _)
  refine ⟨?_, rfl⟩
  unfold placeCell
  cases hdw : size.dw <;> cases hdh' : size.dh
  · exact hbase
  · exact hpart (fun _ => hdh') hbase
  · exact hpart nofun hbase
  · exact hpart (fun _ => hdh') (hpart (fun _ => hdh') (hpart nofun hbase))

theorem putCell_framed (h : d.Ok) (c : Cell) : Framed d (putCell d c) := by
  have hever : Framed d (markEver d) := .of_mem rfl rfl
  refine hever.trans ?_
  have hm := markEver_ok h
  simp only [putCell]
  generalize markEver d = e at hm
  by_cases hin : e.inRow0 = true
  · rw [if_pos hin]
    exact putRow0_framed hin c
  · rw [if_neg hin]
    have hrow0 : e.inRow0 = false := by simpa using hin
    refine (wrapPending_framed hrow0 c.size.dh).trans ?_
    have hw := wrapPending_ok hm hrow0 c.size.dh
    have hwrow0 : (wrapPending e c.size.dh).inRow0 = false := by
      rw [wrapPending_inRow0]
      exact hrow0
    have hcol := wrapPending_col_le e c.size.dh
    generalize wrapPending e c.size.dh = w at hw hwrow0 hcol
    have hfits := fitSize_fits hcol c
    split
    · exact (openColumn_framed hw).trans
        (placeCell_framed (openColumn_ok hw hcol) hwrow0 c fun hdh => (hfits.dh hdh).2)
    · exact placeCell_framed hw hwrow0 c fun hdh => (hfits.dh hdh).2

/-! ### Characters -/

theorem setLast_framed (h : Framed d d') (kind : LastKind) (code : Nat) :
    Framed d (setLast d' kind code) := ⟨h.mem, h.inRow0⟩

theorem putMosaic_framed (h : d.Ok) (bits : Nat) : Framed d (putMosaic d bits) := by
  have hpaper : Framed d (validatePaper d) := by
    unfold validatePaper
    split <;> exact .of_mem rfl rfl
  exact hpaper.trans (putCell_framed (validatePaper_ok h) _)

theorem putG1_framed (h : d.Ok) (b : Nat) : Framed d (putG1 d b) := by
  have hcount : Framed d (unrepresent d) := .of_mem rfl rfl
  simp only [putG1]
  split_ifs
  · exact setLast_framed (putMosaic_framed h _) _ _
  · exact setLast_framed (hcount.trans (putMosaic_framed (unrepresent_ok h) _)) _ _
  · exact setLast_framed (putMosaic_framed h _) _ _

theorem putSpace_framed (h : d.Ok) : Framed d (putSpace d) := by
  have hclear : Framed d (clearPending d) := .of_mem rfl rfl
  simp only [putSpace]
  split_ifs
  · exact setLast_framed (putMosaic_framed h _) _ _
  · exact setLast_framed (hclear.trans (putCell_framed (clearPending_ok h) _)) _ _
  · exact setLast_framed (putCell_framed h _) _ _

theorem putGlyph_framed (h : d.Ok) (glyph : Nat) : Framed d (putGlyph d glyph) :=
  setLast_framed (putCell_framed h _) _ _

theorem putPrintable_framed (h : d.Ok) (b : Nat) : Framed d (putPrintable d b) := by
  simp only [putPrintable, putDel, putG0]
  split_ifs
  · exact putG1_framed h _
  · exact putGlyph_framed h _
  · exact putSpace_framed h
  · exact putG1_framed h b
  · exact setLast_framed (putCell_framed h _) _ _

theorem repeatLast_framed (h : d.Ok) (n : Nat) : Framed d (repeatLast n d) := by
  induction n generalizing d with
  | zero => exact .refl d
  | succ n ih =>
      have hone : Framed d (repeatLast 1 d) := by
        simp only [repeatLast]
        cases d.lastKind with
        | g0 =>
            dsimp only
            split
            · exact putSpace_framed h
            · exact putCell_framed h _
        | g1 => exact putG1_framed h _
        | glyph => exact putGlyph_framed h _
        | none => exact .refl d
      exact hone.trans (ih (repeatLast_ok h 1))

/-! ### Control codes and sequences -/

theorem doCan_framed (h : d.Ok) : Framed d (doCan d) := by
  refine ⟨?_, rfl⟩
  apply Loop.up_inv (I := Grid.SameOn d.Away d.mem) _ (.refl _ _)
  intro c g _ _ hg
  refine hg.put ?_ _ _
  by_cases hin : d.inRow0 = true
  · rw [if_pos hin, Screen.Away, hin]
    decide
  · rw [if_neg hin]
    exact not_away_row h

theorem doSub_framed (h : d.Ok) : Framed d (doSub d) := by
  have hcount : Framed d { d with stats.errors := d.stats.errors + 1 } := .of_mem rfl rfl
  have he : Screen.Ok { d with stats.errors := d.stats.errors + 1 } := { h with }
  refine hcount.trans ?_
  simp only [doSub]
  split
  · exact putG1_framed he _
  · exact putGlyph_framed he _

theorem doAttribute_framed (d : Screen) (x : Nat) : Framed d (doAttribute d x) := by
  unfold doAttribute
  split
  · exact .of_mem rfl rfl
  · split
    · exact .of_mem rfl rfl
    · split <;> (try split) <;> exact .of_mem rfl rfl

theorem eraseScreen_framed (h : CsiReady d) (p0 : Int) : Framed d (eraseScreen d p0) := by
  have hrow := not_away_row h.ok
  have hpos := h.row_pos
  have hbody : ∀ {i : Int}, 1 ≤ i → ¬ d.Away i := fun hi => not_away_of_ne h.out (by omega)
  have hself := Grid.SameOn.refl d.Away d.mem
  unfold eraseScreen
  split_ifs
  · refine ⟨?_, rfl⟩
    exact sameOn_clearRows (sameOn_clearRow hself hrow _ _) fun r h0 _ => hbody (by omega)
  · exact ⟨sameOn_clearRow hself hrow _ _, rfl⟩
  · refine ⟨?_, rfl⟩
    exact sameOn_clearRow (sameOn_clearRows hself fun r h0 _ => hbody h0) hrow _ _
  · exact ⟨sameOn_clearRow hself hrow _ _, rfl⟩
  · exact ⟨sameOn_clearRows hself fun r h0 _ => hbody h0, rfl⟩
  · exact .of_mem rfl rfl

theorem eraseLine_framed (h : CsiReady d) (p0 : Int) : Framed d (eraseLine d p0) := by
  have hself := Grid.SameOn.refl d.Away d.mem
  unfold eraseLine
  split_ifs
  · exact ⟨sameOn_clearRow hself (not_away_row h.ok) _ _, rfl⟩
  · exact ⟨sameOn_clearRow hself (not_away_row h.ok) _ _, rfl⟩
  · exact ⟨sameOn_clearRow hself (not_away_row h.ok) _ _, rfl⟩
  · exact .of_mem rfl rfl

/-- CSI P and CSI @: a run is moved and another one erased, both in the row of the cursor. -/
theorem moveChars_framed (h : CsiReady d) (dst src n c0 c1 : Int) :
    Framed d { d with mem := clearRow (d.mem.moveRun page d.row dst src n) d.row c0 c1 } := by
  have hrow := not_away_row h.ok
  exact ⟨sameOn_clearRow ((Grid.SameOn.refl d.Away d.mem).moveRun hrow _ _ _) hrow _ _, rfl⟩

theorem csiFunction_framed (h : CsiReady d) (q : CsiSeq) (final : Nat) (n p0 : Int) :
    Framed d (csiFunction d q final n p0) := by
  have hrow := h.ok.row
  have hpos := h.row_pos
  unfold csiFunction
  split
  · exact moveTo_framed _ _ _
  · exact moveTo_framed _ _ _
  · exact moveTo_framed _ _ _
  · exact moveTo_framed _ _ _
  · unfold addressCursor
    split <;> exact .of_mem rfl rfl
  · exact eraseScreen_framed h p0
  · exact eraseLine_framed h p0
  · exact moveChars_framed h _ _ _ _ _
  · exact moveChars_framed h _ _ _ _ _
  · exact scrollUp_framed h.out hpos hrow.2 _
  · exact scrollDown_framed h.out hpos hrow.2 _
  · unfold setInsert
    split <;> exact .of_mem rfl rfl
  · unfold setInsert
    split <;> exact .of_mem rfl rfl
  · exact .of_mem rfl rfl

theorem doCsi_framed (h : d.Ok) (q : CsiSeq) (final : Nat) : Framed d (doCsi d q final) := by
  simp only [doCsi]
  split
  · exact .of_mem rfl rfl
  · next hout =>
      have hready : CsiReady (settleCol d) :=
        ⟨settleCol_ok h, by simp only [settleCol]; simp_all, settleCol_col_le h⟩
      exact (settleCol_framed d).trans (csiFunction_framed hready q final _ _)

theorem doPro_framed (d : Screen) (q : ProSeq) : Framed d (doPro d q) := by
  unfold doPro
  split_ifs <;> exact .of_mem rfl rfl

/-! ### A byte -/

variable {D : Decoder}

/-- In screen transparency. -/
def Transparent (st : St) : Prop :=
  st = .transp ∨ st = .transpEsc ∨ st = .transpEsc25 ∨ st = .transpEsc2F

instance (st : St) : Decidable (Transparent st) := inferInstanceAs (Decidable (_ ∨ _))

/-- The byte is carried out as this control code. -/
def Executes (D : Decoder) (b : UInt8) (code : Nat) : Prop := ¬ Transparent D.st ∧ b.toNat % 128 = code

/-- The ways out of row 0: LF, FF, RS, and the column byte of US. -/
def MayLeave (D : Decoder) (b : UInt8) : Prop :=
  Executes D b 0x0A ∨ Executes D b 0x0C ∨ Executes D b 0x1E ∨ D.st = .us2 ∧ 0x40 ≤ b.toNat % 128

/-- What a byte does with the two sides. -/
structure Isolated (D D' : Decoder) (b : UInt8) : Prop where
  row0 : D.scr.inRow0 = false → ∀ j, D'.scr.mem.cell 0 j = D.scr.mem.cell 0 j
  body : D.scr.inRow0 = true → ¬ Executes D b 0x0C →
    ∀ i j, 1 ≤ i → i ≤ 24 → D'.scr.mem.cell i j = D.scr.mem.cell i j
  stays : D.scr.inRow0 = true → ¬ MayLeave D b → D'.scr.inRow0 = true

/-- The codes that neither clear the page nor leave row 0. -/
theorem doC0_framed (h : D.scr.Ok) {b : Nat} (hlf : b ≠ 0x0A) (hff : b ≠ 0x0C) (hrs : b ≠ 0x1E) :
    Framed D.scr (doC0 D b).scr := by
  unfold doC0
  split
  · exact .of_mem rfl rfl
  · exact doBs_framed _
  · exact doHt_framed _
  · exact absurd rfl hlf
  · exact doVt_framed _
  · exact absurd rfl hff
  · exact moveTo_framed _ _ _
  · exact .of_mem rfl rfl
  · exact .of_mem rfl rfl
  · exact .of_mem rfl rfl
  · exact .of_mem rfl rfl
  · exact .of_mem rfl rfl
  · exact .of_mem rfl rfl
  · exact doCan_framed h
  · split <;> exact .of_mem rfl rfl
  · exact doSub_framed h
  · exact .of_mem rfl rfl
  · exact .of_mem rfl rfl
  · exact absurd rfl hrs
  · exact .of_mem rfl rfl
  · exact .of_mem rfl rfl

/-- The cells alone: LF scrolls the page, and everything else that leaves row 0 writes nothing; only FF
clears the page. -/
theorem doC0_mem (h : D.scr.Ok) {b : Nat} (hff : b = 0x0C → D.scr.inRow0 = false) :
    Grid.SameOn D.scr.Away D.scr.mem (doC0 D b).scr.mem := by
  by_cases hlf : b = 0x0A
  · subst hlf
    cases hin : D.scr.inRow0 with
    | false => exact (doLf_framed hin).mem
    | true =>
        have hrestore : doLf D.scr = restoreSaved (settleCol D.scr) := if_pos hin
        change Grid.SameOn _ _ (doLf D.scr).mem
        rw [hrestore]
        exact .refl _ _
  · by_cases hff' : b = 0x0C
    · subst hff'
      exact sameOn_clearRows (.refl _ _) fun r h0 _ => not_away_of_ne (hff rfl) (by omega)
    · by_cases hrs : b = 0x1E
      · subst hrs
        exact .refl _ _
      · exact (doC0_framed h hlf hff' hrs).mem

theorem doUs_mem (d : Screen) (r c : Nat) : (doUs d r c).mem = d.mem := by
  unfold doUs enterRow0
  split_ifs <;> rfl

theorem escCode_framed (D : Decoder) (b : Nat) : Framed D.scr (escCode D b).scr := by
  simp only [escCode]
  split_ifs
  · exact doAttribute_framed _ _
  all_goals exact .of_mem rfl rfl

theorem isoCode_framed (D : Decoder) (b : Nat) : Framed D.scr (isoCode D b).scr := by
  simp only [isoCode]
  split_ifs <;> exact .of_mem rfl rfl

theorem csiCode_framed (h : D.scr.Ok) (b : Nat) : Framed D.scr (csiCode D b).scr := by
  simp only [csiCode]
  split_ifs
  · exact .refl _
  · exact .refl _
  · exact .refl _
  · exact .refl _
  · exact doCsi_framed h _ _

theorem ss2Code_framed (h : D.scr.Ok) (b : Nat) : Framed D.scr (ss2Code D b).scr := by
  have hcount : Framed D.scr (unrepresent D.scr) := .of_mem rfl rfl
  simp only [ss2Code]
  split
  · exact .refl _
  · split
    · exact putGlyph_framed h _
    · exact hcount.trans (putGlyph_framed (unrepresent_ok h) _)

theorem ss2AccCode_framed (h : D.scr.Ok) (b : Nat) : Framed D.scr (ss2AccCode D b).scr := by
  simp only [ss2AccCode]
  split
  · exact putGlyph_framed h _
  · exact putPrintable_framed h _

theorem proCode_framed (D : Decoder) (b : Nat) : Framed D.scr (proCode D b).scr := by
  simp only [proCode]
  split
  · exact doPro_framed _ _
  · exact .refl _

/-- Every byte that is no control code, the column of an address apart. -/
theorem feedCode_framed (h : D.scr.Ok) {b : Nat} (hcode : D.st = .ground → 0x20 ≤ b)
    (hus : D.st = .us2 → b < 0x40) : Framed D.scr (feedCode D b).scr := by
  unfold feedCode
  split
  · next hst =>
      have := hcode hst
      rw [if_neg (by omega)]
      exact putPrintable_framed h b
  · exact escCode_framed (setSt D .ground) b
  · exact isoCode_framed D b
  · exact csiCode_framed h b
  · exact .refl _
  · next hst =>
      have hignored : doUs D.scr D.usR b = usIgnored D.scr := if_pos (.inr (hus hst))
      change Framed D.scr (doUs D.scr D.usR b)
      rw [hignored]
      exact .of_mem rfl rfl
  · split
    · exact .of_mem rfl rfl
    · exact repeatLast_framed h _
  · exact ss2Code_framed h b
  · exact ss2AccCode_framed h b
  · exact .of_mem rfl rfl
  · exact proCode_framed D b
  · exact .refl _

theorem feedCode_mem (h : D.scr.Ok) {b : Nat} (hff : D.st = .ground → b = 0x0C → D.scr.inRow0 = false) :
    Grid.SameOn D.scr.Away D.scr.mem (feedCode D b).scr.mem := by
  by_cases hus : D.st = .us2
  · have hmem : (feedCode D b).scr.mem = D.scr.mem := by
      simp only [feedCode, hus]
      exact doUs_mem _ _ _
    rw [hmem]
    exact .refl _ _
  · by_cases hc0 : D.st = .ground ∧ b < 0x20
    · have hcode : feedCode D b = doC0 D b := by
        simp only [feedCode, hc0.1, if_pos hc0.2]
      rw [hcode]
      exact doC0_mem h (hff hc0.1)
    · exact (feedCode_framed h (fun hst => Nat.le_of_not_lt fun hb => hc0 ⟨hst, hb⟩)
        fun hst => absurd hst hus).mem

theorem resync_framed (D : Decoder) (b : Nat) : Framed D.scr (resync D b).scr := by
  unfold resync
  split <;> exact .of_mem rfl rfl

theorem resync_st (D : Decoder) (b : Nat) : (resync D b).st = .ground ∨ (resync D b).st = D.st := by
  unfold resync
  split
  · exact .inl rfl
  · exact .inr rfl

/-- Inside of screen transparency nothing is written; outside of it a byte is padding or is carried out. -/
theorem feedByte_cases (D : Decoder) (b : Nat) :
    Framed D.scr (feedByte D b).scr ∨
      ¬ Transparent D.st ∧ feedByte D b = feedCode (resync D b) b := by
  unfold feedByte
  split
  · refine .inl ?_
    split <;> exact .of_mem rfl rfl
  · refine .inl ?_
    split_ifs <;> exact .of_mem rfl rfl
  · refine .inl ?_
    split_ifs <;> exact .of_mem rfl rfl
  · refine .inl ?_
    split_ifs <;> exact .of_mem rfl rfl
  · next htransp hesc h25 h2F =>
      split
      · exact .inl (.refl _)
      · refine .inr ⟨?_, rfl⟩
        rintro (h | h | h | h)
        · exact htransp h
        · exact hesc h
        · exact h25 h
        · exact h2F h

/-- The decoder that carries the byte out: the byte is counted, and what it abandons is behind it. -/
def begun (D : Decoder) (b : UInt8) : Decoder := resync (onScreen D (countByte b)) (b.toNat % 128)

theorem begun_ok (h : D.Ok) (b : UInt8) : (begun D b).Ok :=
  resync_ok (h.onScreen fun hs => countByte_ok hs b) _

theorem begun_framed (D : Decoder) (b : UInt8) : Framed D.scr (begun D b).scr := by
  have hcount : Framed D.scr (onScreen D (countByte b)).scr := .of_mem rfl rfl
  exact hcount.trans (resync_framed _ _)

theorem feedOne_cases (D : Decoder) (b : UInt8) :
    Framed D.scr (feedOne D b).scr ∨
      ¬ Transparent D.st ∧ feedOne D b = feedCode (begun D b) (b.toNat % 128) := by
  have hcount : Framed D.scr (onScreen D (countByte b)).scr := .of_mem rfl rfl
  rcases feedByte_cases (onScreen D (countByte b)) (b.toNat % 128) with hframed | hcode
  · exact .inl (hcount.trans hframed)
  · exact .inr hcode

theorem feedOne_mem (h : D.Ok) {b : UInt8} (hff : ¬ Executes D b 0x0C ∨ D.scr.inRow0 = false) :
    Grid.SameOn D.scr.Away D.scr.mem (feedOne D b).scr.mem := by
  rcases feedOne_cases D b with hframed | ⟨hopen, hcode⟩
  · exact hframed.mem
  · have hbegun := begun_framed D b
    have hrest := feedCode_mem (b := b.toNat % 128) (begun_ok h b).scr
      (fun _ hb => hbegun.inRow0.trans (hff.resolve_left fun hno => hno ⟨hopen, hb⟩))
    rw [hbegun.away] at hrest
    rw [hcode]
    exact hbegun.mem.trans hrest

theorem feedOne_inRow0 (h : D.Ok) {b : UInt8} (hstay : ¬ MayLeave D b) :
    (feedOne D b).scr.inRow0 = D.scr.inRow0 := by
  rcases feedOne_cases D b with hframed | ⟨hopen, hcode⟩
  · exact hframed.inRow0
  · have hbegun := begun_framed D b
    have hok := (begun_ok h b).scr
    rw [hcode, ← hbegun.inRow0]
    by_cases hc0 : (begun D b).st = .ground ∧ b.toNat % 128 < 0x20
    · rw [feedCode, hc0.1]
      simp only
      rw [if_pos hc0.2]
      exact (doC0_framed hok (fun hb => hstay (.inl ⟨hopen, hb⟩))
        (fun hb => hstay (.inr (.inl ⟨hopen, hb⟩)))
        (fun hb => hstay (.inr (.inr (.inl ⟨hopen, hb⟩))))).inRow0
    · have hus : (begun D b).st = .us2 → b.toNat % 128 < 0x40 := by
        intro hus
        rcases resync_st (onScreen D (countByte b)) (b.toNat % 128) with hst | hst
        · exact nomatch hst.symm.trans hus
        · exact Nat.lt_of_not_le fun hb => hstay (.inr (.inr (.inr ⟨hst.symm.trans hus, hb⟩)))
      exact (feedCode_framed hok (fun hst => Nat.le_of_not_lt fun hb => hc0 ⟨hst, hb⟩) hus).inRow0

theorem feedOne_isolated (h : D.Ok) (b : UInt8) : Isolated D (feedOne D b) b where
  row0 hrow0 j := feedOne_mem h (.inr hrow0) 0 j (by rw [Screen.Away, hrow0]; decide)
  body hrow0 hff i j hlo _ := by
    apply feedOne_mem h (.inl hff) i j
    rw [Screen.Away, hrow0]
    simp only [Bool.true_eq_false, iff_false]
    omega
  stays hrow0 hstay := (feedOne_inRow0 h hstay).trans hrow0

/-- At every byte of every stream: away from row 0 it leaves row 0 alone; on row 0 it leaves rows 1 to 24
alone unless it is FF; and only LF, FF, RS and an address lead away from row 0. -/
theorem row0_isolated (buf : List UInt8) (b : UInt8) :
    Isolated (feed reset buf) (feed reset (buf ++ [b])) b := by
  have hstep : feed reset (buf ++ [b]) = feedOne (feed reset buf) b := List.foldl_append
  rw [hstep]
  exact feedOne_isolated (feed_ok reset_ok buf) b

end UnicornSuite.Minitel
