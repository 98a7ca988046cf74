import UnicornSuite.MinitelTransparency

/-! The excursion to row 0. What the way into row 0 saves (`Screen.saved`) is written by nothing else, so
that LF finds it as it was, whatever was done on row 0 in between. Moves, characters and erasures leave the
attributes alone as well (`Screen.context`), a definition that a space or a mosaic uses up apart. -/

namespace UnicornSuite.Minitel

/-- What waits for the way out of row 0. -/
def Screen.saved (d : Screen) : Int × Int × Attr := (d.svRow, d.svCol, d.svA)

/-- Whether the terminal is on row 0, and what waits. -/
def Screen.side (d : Screen) : Bool × Int × Int × Attr := (d.inRow0, d.saved)

def Screen.context (d : Screen) : Attr × Bool × Int × Int × Attr := (d.a, d.side)

variable {d d' : Screen}

theorem saved_of_side (h : d'.side = d.side) : d'.saved = d.saved := congrArg Prod.snd h

theorem inRow0_of_side (h : d'.side = d.side) : d'.inRow0 = d.inRow0 := congrArg Prod.fst h

theorem a_of_context (h : d'.context = d.context) : d'.a = d.a := congrArg Prod.fst h

theorem side_of_context (h : d'.context = d.context) : d'.side = d.side := congrArg Prod.snd h

/-! ### Moves and characters -/

variable (d)

theorem doVt_context : (doVt d).context = d.context := by
  simp only [doVt]
  split_ifs <;> rfl

theorem doBs_context : (doBs d).context = d.context := by
  unfold doBs
  split_ifs <;> rfl

theorem doHt_context : (doHt d).context = d.context := by
  simp only [doHt]
  split_ifs <;> rfl

/-- LF away from row 0. -/
theorem doLf_context (hrow0 : d.inRow0 = false) : (doLf d).context = d.context := by
  have hs : (settleCol d).inRow0 = false := hrow0
  simp only [doLf]
  rw [if_neg (by simp [hs])]
  split_ifs <;> rfl

/-- LF on row 0. -/
theorem doLf_row0 (hrow0 : d.inRow0 = true) : doLf d = restoreSaved (settleCol d) := if_pos hrow0

theorem doLf_saved : (doLf d).saved = d.saved := by
  cases hrow0 : d.inRow0 with
  | false => exact saved_of_side (side_of_context (doLf_context d hrow0))
  | true =>
      rw [doLf_row0 d hrow0]
      rfl

theorem wrapPending_context (dh : Bool) : (wrapPending d dh).context = d.context := by
  simp only [wrapPending]
  by_cases hwrap : d.col > cols
  · rw [if_pos hwrap]
    by_cases hlast : d.row + (if dh = true then 2 else 1) > 24
    · rw [if_pos hlast]
      cases d.scroll <;> rfl
    · rw [if_neg hlast]
      rfl
  · rw [if_neg hwrap]

theorem putCell_context (c : Cell) : (putCell d c).context = d.context := by
  simp only [putCell]
  split
  · rfl
  · split
    · exact wrapPending_context _ _
    · exact wrapPending_context _ _

theorem putMosaic_side (bits : Nat) : (putMosaic d bits).side = d.side := by
  rw [putMosaic, side_of_context (putCell_context _ _), validatePaper]
  split <;> rfl

theorem putG1_side (b : Nat) : (putG1 d b).side = d.side := by
  simp only [putG1]
  split_ifs <;> exact putMosaic_side _ _

theorem putSpace_side : (putSpace d).side = d.side := by
  simp only [putSpace]
  split_ifs
  · exact putMosaic_side _ _
  · have hput := side_of_context (putCell_context (clearPending d) (delimCell d.a))
    exact hput
  · exact side_of_context (putCell_context _ _)

theorem putGlyph_side (glyph : Nat) : (putGlyph d glyph).side = d.side :=
  side_of_context (putCell_context _ _)

theorem putPrintable_side (b : Nat) : (putPrintable d b).side = d.side := by
  simp only [putPrintable, putDel, putG0]
  split_ifs
  · exact putG1_side d _
  · exact putGlyph_side d _
  · exact putSpace_side d
  · exact putG1_side d b
  · exact side_of_context (putCell_context _ _)

theorem repeatLast_side (n : Nat) : (repeatLast n d).side = d.side := by
  induction n generalizing d with
  | zero => rfl
  | succ n ih =>
      rw [repeatLast, ih]
      split
      · split
        · exact putSpace_side d
        · exact side_of_context (putCell_context d _)
      · exact putG1_side d _
      · exact putGlyph_side d _
      · rfl

theorem doSub_side : (doSub d).side = d.side := by
  simp only [doSub]
  split
  · exact putG1_side _ _
  · exact putGlyph_side _ _

/-! ### Attributes and sequences -/

theorem doAttribute_side (x : Nat) : (doAttribute d x).side = d.side := by
  unfold doAttribute
  split
  · rfl
  · split
    · rfl
    · split <;> (try split) <;> rfl

theorem csiFunction_context (q : CsiSeq) (final : Nat) (n p0 : Int) :
    (csiFunction d q final n p0).context = d.context := by
  unfold csiFunction addressCursor eraseScreen eraseLine setInsert
  split <;> (try split_ifs) <;> rfl

theorem doCsi_context (q : CsiSeq) (final : Nat) : (doCsi d q final).context = d.context := by
  simp only [doCsi]
  split
  · rfl
  · exact csiFunction_context _ _ _ _ _

theorem doPro_side (q : ProSeq) : (doPro d q).side = d.side := by
  unfold doPro
  split_ifs <;> rfl

/-- On row 0 an address saves nothing. -/
theorem doUs_saved (hrow0 : d.inRow0 = true) (r c : Nat) : (doUs d r c).saved = d.saved := by
  simp only [doUs, enterRow0, if_pos hrow0]
  split_ifs <;> rfl

/-! ### A byte -/

variable (D : Decoder)

theorem doC0_saved (b : Nat) : (doC0 D b).scr.saved = D.scr.saved := by
  unfold doC0
  split
  · rfl
  · exact saved_of_side (side_of_context (doBs_context _))
  · exact saved_of_side (side_of_context (doHt_context _))
  · exact doLf_saved _
  · exact saved_of_side (side_of_context (doVt_context _))
  · rfl
  · rfl
  · rfl
  · rfl
  · rfl
  · rfl
  · rfl
  · rfl
  · rfl
  · split <;> rfl
  · exact saved_of_side (doSub_side _)
  · rfl
  · rfl
  · rfl
  · rfl
  · rfl

/-- No control code leads to row 0. -/
theorem doC0_inRow0 (hpage : D.scr.inRow0 = false) (b : Nat) : (doC0 D b).scr.inRow0 = false := by
  unfold doC0
  split
  · exact hpage
  · exact (inRow0_of_side (side_of_context (doBs_context _))).trans hpage
  · exact (inRow0_of_side (side_of_context (doHt_context _))).trans hpage
  · exact (inRow0_of_side (side_of_context (doLf_context _ hpage))).trans hpage
  · exact (inRow0_of_side (side_of_context (doVt_context _))).trans hpage
  · rfl
  · exact hpage
  · exact hpage
  · exact hpage
  · exact hpage
  · exact hpage
  · exact hpage
  · exact hpage
  · exact hpage
  · split <;> exact hpage
  · exact (inRow0_of_side (doSub_side _)).trans hpage
  · exact hpage
  · exact hpage
  · rfl
  · exact hpage
  · exact hpage

theorem escCode_side (b : Nat) : (escCode D b).scr.side = D.scr.side := by
  simp only [escCode]
  split_ifs
  · exact doAttribute_side _ _
  all_goals rfl

theorem isoCode_context (b : Nat) : (isoCode D b).scr.context = D.scr.context := by
  simp only [isoCode]
  split_ifs <;> rfl

theorem csiCode_context (b : Nat) : (csiCode D b).scr.context = D.scr.context := by
  simp only [csiCode]
  split_ifs
  · rfl
  · rfl
  · rfl
  · rfl
  · exact doCsi_context _ _ _

theorem ss2Code_context (b : Nat) : (ss2Code D b).scr.context = D.scr.context := by
  simp only [ss2Code]
  split
  · rfl
  · split
    · exact putCell_context _ _
    · exact putCell_context _ _

theorem ss2AccCode_side (b : Nat) : (ss2AccCode D b).scr.side = D.scr.side := by
  simp only [ss2AccCode]
  split
  · exact putGlyph_side _ _
  · exact putPrintable_side _ _

theorem proCode_side (b : Nat) : (proCode D b).scr.side = D.scr.side := by
  simp only [proCode]
  split
  · exact doPro_side _ _
  · rfl

theorem feedCode_saved (hrow0 : D.scr.inRow0 = true) (b : Nat) :
    (feedCode D b).scr.saved = D.scr.saved := by
  unfold feedCode
  split
  · split
    · exact doC0_saved D b
    · exact saved_of_side (putPrintable_side _ b)
  · exact saved_of_side (escCode_side (setSt D .ground) b)
  · exact saved_of_side (side_of_context (isoCode_context D b))
  · exact saved_of_side (side_of_context (csiCode_context D b))
  · rfl
  · exact doUs_saved _ hrow0 _ _
  · split
    · rfl
    · exact saved_of_side (repeatLast_side _ _)
  · exact saved_of_side (side_of_context (ss2Code_context D b))
  · exact saved_of_side (ss2AccCode_side D b)
  · rfl
  · exact saved_of_side (proCode_side D b)
  · rfl

theorem resync_context (b : Nat) : (resync D b).scr.context = D.scr.context := by
  unfold resync
  split <;> rfl

theorem begun_context (b : UInt8) : (begun D b).scr.context = D.scr.context := resync_context _ _

theorem feedOne_saved (hrow0 : D.scr.inRow0 = true) (b : UInt8) :
    (feedOne D b).scr.saved = D.scr.saved := by
  by_cases hst : Transparent D.st
  · rw [(feedOne_transparent hst b).2]
    rfl
  · rw [feedOne_outside hst]
    split
    · rfl
    · rw [feedCode_saved _ ((begun_framed D b).inRow0.trans hrow0)]
      exact saved_of_side (side_of_context (begun_context D b))

/-! ### The excursion -/

/-- A control code comes after the sequence that it abandons. -/
theorem begun_control {b : UInt8} (hb : b.toNat % 128 < 0x20) : (begun D b).st = .ground := by
  by_cases hst : D.st = .ground
  · simp [begun, resync, onScreen, hst]
  · simp [begun, resync, onScreen, setSt, hst, hb]

theorem begun_printable {b : UInt8} (hb : 0x20 ≤ b.toNat % 128) : begun D b = onScreen D (countByte b) :=
  if_neg fun hno => absurd hno.1 (Nat.not_lt.mpr hb)

/-- A control code other than NUL is carried out in every state outside of transparency. -/
theorem feedOne_control (hst : ¬ Transparent D.st) {b : UInt8} (hb : b.toNat % 128 < 0x20)
    (hnul : b.toNat % 128 ≠ 0) : feedOne D b = doC0 (begun D b) (b.toNat % 128) := by
  rw [feedOne_outside hst, if_neg hnul, feedCode, begun_control D hb]
  exact if_pos hb

theorem begun_scr (b : UInt8) : ∃ stats, (begun D b).scr = { D.scr with stats := stats } := by
  unfold begun resync
  split
  · exact ⟨_, rfl⟩
  · exact ⟨_, rfl⟩

/-- Outside of transparency US and its first byte are waiting for the second, whatever came before. -/
theorem feed_us (hst : ¬ Transparent D.st) :
    (feed D [0x1F, 0x40]).st = .us2 ∧ (feed D [0x1F, 0x40]).usR = 0x40 ∧
      ∃ stats, (feed D [0x1F, 0x40]).scr = { D.scr with stats := stats } := by
  have hfirst : feedOne D 0x1F = setSt (begun D 0x1F) .us1 :=
    feedOne_control D hst (by decide) (by decide)
  have hus : ¬ Transparent (feedOne D 0x1F).st := by
    rw [hfirst]
    change ¬ Transparent .us1
    decide
  have hsecond : feedOne (feedOne D 0x1F) 0x40 =
      { setSt (onScreen (feedOne D 0x1F) (countByte 0x40)) .us2 with usR := 0x40 } := by
    rw [feedOne_outside hus, if_neg (by decide), begun_printable _ (by decide), feedCode, hfirst]
    rfl
  obtain ⟨stats, hscr⟩ := begun_scr D 0x1F
  have hfeed : feed D [0x1F, 0x40] = feedOne (feedOne D 0x1F) 0x40 := rfl
  rw [hfeed, hsecond, hfirst]
  refine ⟨rfl, rfl, (countByte 0x40 (begun D 0x1F).scr).stats, ?_⟩
  change countByte 0x40 (begun D 0x1F).scr = _
  rw [hscr]
  rfl

/-- The way in saves the position and the attributes of the moment. -/
theorem enterRow0_saved {d : Screen} (hpage : d.inRow0 = false) :
    (enterRow0 d).saved = (d.row, if d.col > cols then cols else d.col, d.a) := by
  rw [enterRow0, if_neg (by simp [hpage])]
  rfl

theorem doUs_enters {d : Screen} (hpage : d.inRow0 = false) {r c : Nat}
    (hin : (doUs d r c).inRow0 = true) :
    (doUs d r c).saved = (d.row, if d.col > cols then cols else d.col, d.a) := by
  have hout : ¬ d.inRow0 = true := by simp [hpage]
  unfold doUs at hin ⊢
  split at hin
  · exact absurd hin hout
  · split at hin
    · exact absurd hin hout
    · split at hin
      · next hbounds hvalid hzero =>
          rw [if_neg hbounds, if_neg hvalid, if_pos hzero]
          exact enterRow0_saved hpage
      · cases hin

/-- US in transparency is no address. -/
theorem feed_us_transparent (hst : Transparent D.st) (c : UInt8) :
    Frozen D (feed D [0x1F, 0x40, c]) := by
  obtain ⟨hfirst, hframe⟩ := feedOne_transparent hst 0x1F
  have hopen : (feedOne D 0x1F).st = .transp := by
    rw [hfirst]
    obtain h | h | h | h := hst <;> rw [h] <;> rfl
  obtain ⟨hsecond, hframe'⟩ := feedOne_transparent (.inl hopen) 0x40
  rw [hopen] at hsecond
  obtain ⟨-, hframe''⟩ := feedOne_transparent (.inl hsecond) c
  exact (hframe.trans hframe').trans hframe''

/-- US 4/0 and a column, from the page: if row 0 is reached, the page waits. -/
theorem feed_enters (hpage : D.scr.inRow0 = false) {c : UInt8}
    (hin : (feed D [0x1F, 0x40, c]).scr.inRow0 = true) :
    (feed D [0x1F, 0x40, c]).scr.saved =
      (D.scr.row, if D.scr.col > cols then cols else D.scr.col, D.scr.a) := by
  have hfeed : feed D [0x1F, 0x40, c] = feedOne (feed D [0x1F, 0x40]) c := rfl
  by_cases hst : Transparent D.st
  · rw [feed_us_transparent D hst c, hpage] at hin
    cases hin
  · obtain ⟨hus, hr, stats, hscr⟩ := feed_us D hst
    rw [hfeed] at hin ⊢
    generalize feed D [0x1F, 0x40] = E at *
    have hpage' : E.scr.inRow0 = false := by
      rw [hscr]
      exact hpage
    have hopen : ¬ Transparent E.st := by
      rw [hus]
      decide
    by_cases hnul : c.toNat % 128 = 0
    · rw [feedOne_outside hopen, if_pos hnul] at hin
      exact absurd (hin.symm.trans hpage') (by decide)
    · by_cases hc0 : c.toNat % 128 < 0x20
      · have hout := doC0_inRow0 (begun E c) ((begun_framed E c).inRow0.trans hpage') (c.toNat % 128)
        rw [feedOne_control E hopen hc0 hnul] at hin
        exact absurd (hin.symm.trans hout) (by decide)
      · have hcode : feedOne E c =
            onScreen (setSt (onScreen E (countByte c)) .ground) (doUs · 0x40 (c.toNat % 128)) := by
          have hus' : (onScreen E (countByte c)).st = .us2 := hus
          rw [feedOne_outside hopen, if_neg hnul, begun_printable E (Nat.not_lt.mp hc0), feedCode, hus', ← hr]
          rfl
        rw [hcode] at hin ⊢
        refine (doUs_enters ?_ hin).trans ?_
        · exact hpage'
        · change (E.scr.row, if E.scr.col > cols then cols else E.scr.col, E.scr.a) = _
          rw [hscr]

/-- LF on row 0 goes back, in every state outside of transparency. -/
theorem feed_lf (hst : ¬ Transparent D.st) (hrow0 : D.scr.inRow0 = true) :
    ∃ stats, (feedOne D 0x0A).scr = restoreSaved (settleCol { D.scr with stats := stats }) := by
  obtain ⟨stats, hscr⟩ := begun_scr D 0x0A
  have hlf : feedOne D 0x0A = onScreen (begun D 0x0A) doLf :=
    feedOne_control D hst (by decide) (by decide)
  refine ⟨stats, ?_⟩
  rw [hlf, ← hscr]
  exact doLf_row0 _ ((begun_framed D 0x0A).inRow0.trans hrow0)

/-- A string that stays on row 0 leaves what waits as it was. -/
theorem feed_saved (buf : List UInt8)
    (hrow0 : ∀ p, p <+: buf → (feed D p).scr.inRow0 = true) :
    (feed D buf).scr.saved = D.scr.saved := by
  induction buf using List.reverseRecOn with
  | nil => rfl
  | append_singleton buf b ih =>
      have hstep : feed D (buf ++ [b]) = feedOne (feed D buf) b := List.foldl_append
      have hbefore : ∀ p, p <+: buf → (feed D p).scr.inRow0 = true :=
        fun p hp => hrow0 p (hp.trans (List.prefix_append buf [b]))
      rw [hstep, feedOne_saved _ (hbefore buf (List.prefix_refl _)), ih hbefore]

/-- From every state on the page: an excursion to row 0 by US 4/0 and a column, whose bytes stay on row 0
and do not leave the screen in transparency, ends with LF where it began: the row, the column (no further
than 40) and the attributes with their latent definitions are those of before. -/
theorem excursion_restores (D : Decoder) (hpage : D.scr.inRow0 = false) (c : UInt8) (buf : List UInt8)
    (hrow0 : ∀ p, p <+: buf → (feed D ([0x1F, 0x40, c] ++ p)).scr.inRow0 = true)
    (hend : ¬ Transparent (feed D ([0x1F, 0x40, c] ++ buf)).st) :
    let E := feed D ([0x1F, 0x40, c] ++ buf ++ [0x0A])
    E.scr.inRow0 = false ∧ E.scr.row = D.scr.row ∧ E.scr.col = min D.scr.col 40 ∧ E.scr.a = D.scr.a := by
  have hin : (feed D [0x1F, 0x40, c]).scr.inRow0 = true := hrow0 [] List.nil_prefix
  have hsplit : ∀ p, feed D ([0x1F, 0x40, c] ++ p) = feed (feed D [0x1F, 0x40, c]) p :=
    fun p => List.foldl_append
  have hsaved : (feed D ([0x1F, 0x40, c] ++ buf)).scr.saved =
      (D.scr.row, if D.scr.col > cols then cols else D.scr.col, D.scr.a) := by
    rw [hsplit, feed_saved _ buf fun p hp => hsplit p ▸ hrow0 p hp]
    exact feed_enters D hpage hin
  have hlf : feed D ([0x1F, 0x40, c] ++ buf ++ [0x0A]) =
      feedOne (feed D ([0x1F, 0x40, c] ++ buf)) 0x0A := List.foldl_append
  obtain ⟨stats, hback⟩ := feed_lf _ hend (hrow0 buf (List.prefix_refl buf))
  have hcols : cols = 40 := rfl
  simp only [Screen.saved, Prod.mk.injEq] at hsaved
  intro E
  have hE : E.scr = restoreSaved (settleCol { (feed D ([0x1F, 0x40, c] ++ buf)).scr with stats := stats }) :=
    (congrArg Decoder.scr hlf).trans hback
  rw [hE]
  refine ⟨rfl, hsaved.1, hsaved.2.1.trans ?_, hsaved.2.2⟩
  split_ifs <;> omega

/-- A blue paper waits while row 0 is written in red. -/
theorem excursion_restores_paper :
    let E := feed (feed reset [0x1B, 0x54]) ([0x1F, 0x40, 0x41] ++ [0x1B, 0x41, 0x42] ++ [0x0A])
    E.scr.row = 1 ∧ E.scr.col = 1 ∧ E.scr.a.sBg = 4 ∧ E.scr.a.sPending = true ∧ E.scr.a.fg = 7 := by
  have hstays : ∀ p ∈ [0x1B, 0x41, 0x42].inits,
      (feed (feed reset [0x1B, 0x54]) ([0x1F, 0x40, 0x41] ++ p)).scr.inRow0 = true := by
    decide
  obtain ⟨-, hrow, hcol, ha⟩ := excursion_restores (feed reset [0x1B, 0x54]) rfl 0x41
    [0x1B, 0x41, 0x42] (fun p hp => hstays p (List.mem_inits p _ |>.mpr hp)) (by decide)
  intro E
  exact ⟨hrow, hcol, congrArg (·.sBg) ha, congrArg (·.sPending) ha, congrArg (·.fg) ha⟩

/-- ESC 2/5 on row 0: the LF behind it is not carried out. -/
theorem excursion_stays :
    (∀ p ∈ [0x1B, 0x25].inits, (feed reset ([0x1F, 0x40, 0x41] ++ p)).scr.inRow0 = true) ∧
      reset.scr.row = 1 ∧ (feed reset ([0x1F, 0x40, 0x41] ++ [0x1B, 0x25] ++ [0x0A])).scr.row = 0 := by
  decide

end UnicornSuite.Minitel
