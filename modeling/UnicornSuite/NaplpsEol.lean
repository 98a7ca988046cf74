import UnicornSuite.LibRounds
import UnicornSuite.NaplpsColumns

/-! REPEAT TO EOL. The loop tests for room with the width of the character field and the edge of the display, the advance
after each copy with the intercharacter step and the bounds text flows in. Where the two disagree a copy is followed by
an automatic return, and the loop goes on with the next line (`line_filled_iff`). -/

namespace UnicornSuite.Naplps

open CInt Machine

/-! ### The copies -/

/-- One copy of the last character. -/
def drawCopy (d : Display) : Display := drawChar d d.text.lastSpacingChar

/-- How many REPEAT TO EOL draws. -/
def copies (d : Display) : Nat :=
  Loop.rounds atPathEnd (fun d => pathPos (drawCopy d) = pathPos d) drawCopy 256 d

theorem repeatToEol_eq_bounded (rounds : Nat) (d : Display) :
    repeatToEol rounds d =
      Loop.bounded atPathEnd (fun d => pathPos (drawCopy d) = pathPos d) drawCopy rounds d := by
  induction rounds generalizing d with
  | zero => rfl
  | succ rounds ih =>
      rw [repeatToEol, Loop.bounded, ← ih]
      rfl

/-- The copy is followed by an automatic APR APD. -/
def Returns (d : Display) : Prop :=
  leavesBounds (pathStep d d.text.lastSpacingChar true) d.text.lastSpacingChar true = true

/-! ### The positions of the line -/

/-- The cursor coordinate across the character path. -/
def linePos (d : Display) : Int := if d.text.path < 2 then d.text.cy else d.text.cx

/-- The step along the path after a copy. -/
def copyMove (d : Display) : Int :=
  if d.text.path = 0 ∨ d.text.path = 2 then icStep d (pathSize d) d.text.lastSpacingChar true
  else -icStep d (pathSize d) d.text.lastSpacingChar true

/-- What a copy takes up along the path. -/
def copySize (d : Display) : Int :=
  if d.text.propSpacing then propAdvance (pathSize d) d.text.lastSpacingChar else pathSize d

/-- The character positions along the path, from the cursor on. -/
def copyPos (d : Display) (k : Nat) : Int := pathPos d + k * copyMove d

/-- A copy at a position along the path lies between the edges. -/
def Bounds.Takes (b : Bounds) (d : Display) (p : Int) : Prop :=
  Inside (b.pathLo d) (b.pathHi d) (copySize d) p

instance (b : Bounds) (d : Display) (p : Int) : Decidable (b.Takes d p) :=
  inferInstanceAs (Decidable (Inside _ _ _ _))

instance (b : Bounds) (d : Display) : Decidable (b.Across d) :=
  inferInstanceAs (Decidable (if d.text.path < 2 then Inside b.y0 b.y1 (cfH d) d.text.cy
    else Inside b.x0 b.x1 (cfW d) d.text.cx))

/-- The rectangle text flows in when the cursor is at a position of the line. -/
def boundsAt (d : Display) (p : Int) : Bounds :=
  if d.af.set = true ∧ (fieldArea d).Along d p ∧ (fieldArea d).Across d then fieldArea d else displayArea

/-- The test of the loop at a position of the line. -/
def endsAt (d : Display) (p : Int) : Bool :=
  match d.text.path with
  | 0 => p + 2 * cfW d > fxOne
  | 1 => p - cfW d < 0
  | 2 => p + 2 * cfH d > visYFx
  | 3 => p - cfH d < 0
  | _ => false

/-! ### A copy on the line -/

/-- The same text state at a position of the line. -/
structure OnLine (d e : Display) (p : Int) : Prop where
  layout : layout e = layout d
  last : e.text.lastSpacingChar = d.text.lastSpacingChar
  pos : pathPos e = p
  line : linePos e = linePos d

/-- The last character has a glyph, and cursor and active field are away from the ends of the coordinate range. -/
structure Placed (d : Display) : Prop where
  flows : Flows d
  glyph : glyphFirst ≤ d.text.lastSpacingChar ∧ d.text.lastSpacingChar < glyphFirst + glyphCount
  pos : Within (maxInt32 - headroom) (pathPos d)
  line : Within (maxInt32 - headroom) (linePos d)
  field : (fieldArea d).Near edgeLimit

section

variable {d e : Display} {p : Int}

theorem propAdvance_between {cell : Int} (hcell : 0 ≤ cell ∧ cell ≤ 65536) (ch : Nat) :
    0 ≤ propAdvance cell ch ∧ propAdvance cell ch ≤ cell := by
  have hink := glyphInkWidth_le ch
  have hprod : wrap32 (cell * (2 * glyphInkWidth ch + 3)) = cell * (2 * glyphInkWidth ch + 3) :=
    wrap32_of_fits ((within_propProduct ⟨by omega, hcell.2⟩ ch).fits (by decide))
  have hlo : 0 ≤ cell * (2 * glyphInkWidth ch + 3 : Int) := Int.mul_nonneg hcell.1 (by omega)
  have hhi : cell * (2 * glyphInkWidth ch + 3 : Int) ≤ cell * 13 :=
    Int.mul_le_mul_of_nonneg_left (by omega) hcell.1
  rw [propAdvance, hprod, Int.tdiv_eq_ediv_of_nonneg hlo]
  omega

theorem Flows.pathSize (hf : Flows d) : 0 ≤ pathSize d ∧ pathSize d ≤ 65536 := by
  unfold Naplps.pathSize
  split_ifs
  · exact hf.cfW
  · exact hf.cfH

theorem Flows.copySize (hf : Flows d) : 0 ≤ copySize d ∧ copySize d ≤ Naplps.pathSize d := by
  unfold Naplps.copySize
  split_ifs
  · exact propAdvance_between hf.pathSize _
  · exact ⟨hf.pathSize.1, le_refl _⟩

theorem Bounds.Along.takes {b : Bounds} (hf : Flows d) (h : b.Along d p) : b.Takes d p := by
  have hsize := hf.copySize
  unfold Bounds.Along Inside at h
  unfold Bounds.Takes Inside
  omega

theorem Flows.copyStep (hf : Flows d) :
    0 ≤ Naplps.icStep d (Naplps.pathSize d) d.text.lastSpacingChar true ∧
      Naplps.icStep d (Naplps.pathSize d) d.text.lastSpacingChar true ≤ 851968 := by
  by_cases hprop : d.text.propSpacing = true
  · have hadvance := propAdvance_between hf.pathSize d.text.lastSpacingChar
    have hsize := hf.pathSize
    rw [Naplps.icStep, if_pos ⟨hprop, rfl⟩]
    omega
  · exact hf.icStep hf.pathSize (Bool.eq_false_iff.mpr hprop) _ _

theorem Flows.copyMove (hf : Flows d) : Within 851968 (copyMove d) := by
  have hstep := hf.copyStep
  unfold Naplps.copyMove Within
  split_ifs <;> omega

theorem pathSize_of_layout (h : layout e = layout d) : pathSize e = pathSize d := by
  unfold pathSize
  rw [path_of_layout h, cfW_of_layout h, cfH_of_layout h]

theorem icStep_of_layout (h : layout e = layout d) (cell : Int) (ch : Nat) (haveCh : Bool) :
    icStep e cell ch haveCh = icStep d cell ch haveCh := by
  have hnum : e.text.icsNum = d.text.icsNum :=
    congrArg (fun l : TextState × ActiveField => l.1.icsNum) h
  have hden : e.text.icsDen = d.text.icsDen :=
    congrArg (fun l : TextState × ActiveField => l.1.icsDen) h
  unfold icStep
  rw [prop_of_layout h, hnum, hden]

theorem OnLine.refl (d : Display) : OnLine d d (pathPos d) := ⟨rfl, rfl, rfl, rfl⟩

theorem OnLine.copyMove (he : OnLine d e p) : copyMove e = copyMove d := by
  unfold Naplps.copyMove
  rw [path_of_layout he.layout, pathSize_of_layout he.layout, icStep_of_layout he.layout, he.last]

theorem OnLine.copySize (he : OnLine d e p) : copySize e = copySize d := by
  unfold Naplps.copySize
  rw [prop_of_layout he.layout, pathSize_of_layout he.layout, he.last]

theorem OnLine.takes (he : OnLine d e p) (b : Bounds) (q : Int) : b.Takes e q ↔ b.Takes d q := by
  unfold Bounds.Takes Bounds.pathLo Bounds.pathHi
  rw [path_of_layout he.layout, he.copySize]

theorem OnLine.across (he : OnLine d e p) (b : Bounds) : b.Across e ↔ b.Across d := by
  have hline := he.line
  unfold linePos at hline
  unfold Bounds.Across
  rw [path_of_layout he.layout] at hline ⊢
  rw [cfH_of_layout he.layout, cfW_of_layout he.layout]
  split_ifs at hline ⊢ <;> rw [hline]

/-- The bounds of a cursor on the line. -/
theorem OnLine.textBounds (hp : Placed d) (he : OnLine d e p) (hpos : Within (edgeLimit + 1048576) p) :
    textBounds e = boundsAt d p := by
  have harea := fieldArea_of_layout he.layout
  have hreach : Reached e := by
    have hline : Within (edgeLimit + 1048576) (linePos e) := he.line ▸ hp.line.mono (by decide)
    rw [← he.pos] at hpos
    unfold pathPos at hpos
    unfold linePos at hline
    split_ifs at hpos hline
    · exact ⟨hpos, hline⟩
    · exact ⟨hline, hpos⟩
  have hin : InField e ↔ (fieldArea d).Along d p ∧ (fieldArea d).Across d := by
    rw [inField_iff, harea, he.across, he.pos, Bounds.along_of_layout he.layout]
  rw [textBounds_of_reached (hp.flows.congr he.layout) (harea.symm ▸ hp.field) hreach, boundsAt, harea,
    af_of_layout he.layout]
  simp only [hin]

/-- The step after a copy. -/
theorem OnLine.step (hp : Placed d) (he : OnLine d e p) (hpos : Within edgeLimit p) :
    OnLine d (pathStep e e.text.lastSpacingChar true) (p + Naplps.copyMove d) := by
  have hmove : wrap32 (p + Naplps.copyMove d) = p + Naplps.copyMove d :=
    wrap32_of_fits ((hpos.add hp.flows.copyMove).fits (by decide))
  have hline : wrap32 (linePos d) = linePos d := wrap32_of_fits (hp.line.fits (by decide))
  refine ⟨(pathStep_layout e _ _).trans he.layout, he.last, ?_, ?_⟩
  · rw [← hmove, ← he.pos, ← he.copyMove]
    unfold pathPos Naplps.copyMove pathStep pathSize
    by_cases hpath : e.text.path < 2
    · have hne : e.text.path ≠ 2 := by omega
      simp only [hpath, hne, if_true, or_false]
    · have hne : e.text.path ≠ 0 := by omega
      simp only [hpath, hne, if_false, false_or]
  · rw [← hline, ← he.line]
    unfold linePos pathStep
    by_cases hpath : e.text.path < 2
    · simp only [hpath, if_true, add_zero]
    · simp only [hpath, if_false, add_zero]

/-- The bounds have no room for the last character at the cursor. -/
theorem leavesBounds_copy_iff (hfar : wrap32 (pathPos d + copySize d) = pathPos d + copySize d) :
    leavesBounds d d.text.lastSpacingChar true = true ↔ ¬(textBounds d).Takes d (pathPos d) := by
  unfold leavesBounds Bounds.Takes Inside Bounds.pathLo Bounds.pathHi
  unfold pathPos copySize pathSize at *
  simp only [and_true]
  by_cases hpath : d.text.path < 2
  · simp only [hpath, if_true] at hfar ⊢
    rw [hfar, decide_eq_true_eq]
    omega
  · simp only [hpath, if_false] at hfar ⊢
    rw [hfar, decide_eq_true_eq]
    omega

/-- A copy is followed by an automatic return where the bounds have no room behind the step. -/
theorem OnLine.returns_iff (hp : Placed d) (he : OnLine d e p) (hpos : Within edgeLimit p) :
    Returns e ↔ ¬(boundsAt d (p + Naplps.copyMove d)).Takes d (p + Naplps.copyMove d) := by
  have hstep := he.step hp hpos
  have hsize := hp.flows.copySize
  have hunit := hp.flows.pathSize
  have hmove := (hpos.add hp.flows.copyMove).mono (l := edgeLimit + 1048576) (by decide)
  have hfar : wrap32 (p + Naplps.copyMove d + Naplps.copySize d) = p + Naplps.copyMove d + Naplps.copySize d :=
    wrap32_of_fits ((hmove.add (l := 65536) ⟨by omega, by omega⟩).fits (by decide))
  refine (leavesBounds_copy_iff (d := pathStep e e.text.lastSpacingChar true) ?_).trans ?_
  · rw [hstep.pos, hstep.copySize]
    exact hfar
  · rw [hstep.textBounds hp hmove, hstep.pos, hstep.takes]

/-- The copy itself, where no return follows. -/
theorem OnLine.drawCopy (hp : Placed d) (he : OnLine d e p) (hpos : Within edgeLimit p) (hno : ¬Returns e) :
    OnLine d (drawCopy e) (p + Naplps.copyMove d) := by
  have hstep := he.step hp hpos
  have hglyph : ¬(e.text.lastSpacingChar < glyphFirst ∨ e.text.lastSpacingChar ≥ glyphFirst + glyphCount) := by
    have hlast := hp.glyph
    rw [he.last]
    omega
  have htext : (Naplps.drawCopy e).text =
      { (pathStep e e.text.lastSpacingChar true).text with haveLastSpacing := true } := by
    unfold Naplps.drawCopy drawChar
    rw [if_neg hglyph]
    dsimp only
    rw [textAdvanceCh_text, if_neg]
    · rfl
    · exact hno
  refine ⟨(drawChar_layout e _).trans he.layout, ?_, ?_, ?_⟩
  · rw [htext]
    exact he.last
  · rw [pathPos, htext]
    exact hstep.pos
  · rw [linePos, htext]
    exact hstep.line

theorem OnLine.atPathEnd (hp : Placed d) (he : OnLine d e p) (hpos : Within edgeLimit p) :
    atPathEnd e = endsAt d p := by
  have hw := hp.flows.cfW
  have hh := hp.flows.cfH
  have hforth {v : Int} (hv : Within 131072 v) : wrap32 (p + v) = p + v :=
    wrap32_of_fits ((hpos.add hv).fits (by decide))
  have hback {v : Int} (hv : 0 ≤ v ∧ v ≤ 65536) : wrap32 (p - v) = p - v :=
    wrap32_of_fits ((hpos.sub (l := 65536) ⟨by omega, hv.2⟩).fits (by decide))
  have htwice {v : Int} (hv : 0 ≤ v ∧ v ≤ 65536) : wrap32 (2 * v) = 2 * v :=
    wrap32_of_fits (Within.fits (k := 131072) ⟨by omega, by omega⟩ (by decide))
  have hat := he.pos
  unfold pathPos at hat
  unfold Naplps.atPathEnd endsAt
  rw [path_of_layout he.layout] at hat ⊢
  rw [cfW_of_layout he.layout, cfH_of_layout he.layout, htwice hw, htwice hh]
  generalize d.text.path = path at hat ⊢
  rcases path with _ | _ | _ | _ | path
  · rw [show e.text.cx = p from hat, hforth ⟨by omega, by omega⟩]
    rfl
  · rw [show e.text.cx = p from hat, hback hw]
    rfl
  · rw [show e.text.cy = p from hat, hforth ⟨by omega, by omega⟩]
    rfl
  · rw [show e.text.cy = p from hat, hback hh]
    rfl
  · rfl

/-! ### The run of copies -/

theorem copyPos_zero (d : Display) : copyPos d 0 = pathPos d := by simp [copyPos]

theorem copyPos_succ (d : Display) (k : Nat) : copyPos d (k + 1) = copyPos d k + copyMove d := by
  unfold copyPos
  rw [Int.natCast_add, Int.natCast_one, Int.add_mul, Int.one_mul, Int.add_assoc]

theorem copyPos_of_rest (hrest : copyMove d = 0) (k : Nat) : copyPos d k = copyPos d 0 := by
  rw [copyPos, copyPos, hrest, Int.mul_zero, Int.mul_zero]

theorem copyPos_inj (hmove : copyMove d ≠ 0) {j k : Nat} (h : copyPos d j = copyPos d k) : j = k := by
  have hmul : (j : Int) * copyMove d = k * copyMove d := Int.add_left_cancel h
  exact Int.ofNat_inj.mp (Int.eq_of_mul_eq_mul_right hmove hmul)

/-- Behind the end of the path there are no more positions. -/
theorem endsAt_mono (hf : Flows d) {j k : Nat} (hjk : j ≤ k) (h : endsAt d (copyPos d j) = true) :
    endsAt d (copyPos d k) = true := by
  have hstep := hf.copyStep
  induction k, hjk using Nat.le_induction with
  | base => exact h
  | succ k _ ih =>
      rw [copyPos_succ]
      unfold endsAt copyMove at *
      generalize d.text.path = path at ih ⊢
      rcases path with _ | _ | _ | _ | path
      all_goals simp at ih ⊢
      all_goals omega

theorem takes_near (hp : Placed d) (h : (boundsAt d p).Takes d p) : Within edgeLimit p := by
  have hsize := hp.flows.copySize
  have hnear : (boundsAt d p).Near edgeLimit := by
    unfold boundsAt
    split_ifs
    · exact hp.field
    · exact displayArea_near
  have htrack := hnear.trackPath hp.flows
  have hlo := htrack.lo
  have hhi := htrack.hi
  unfold Bounds.Takes Inside at h
  unfold Within at *
  omega

/-- While no return interrupts them, the copies go along the line. -/
theorem online_iterate (hp : Placed d) {k : Nat} (hno : ∀ j < k, ¬Returns (drawCopy^[j] d)) :
    OnLine d (drawCopy^[k] d) (copyPos d k) ∧ Within edgeLimit (copyPos d k) := by
  induction k with
  | zero =>
      rw [copyPos_zero]
      exact ⟨OnLine.refl d, hp.pos.mono (by decide)⟩
  | succ k ih =>
      obtain ⟨he, hpos⟩ := ih fun j hj => hno j (by omega)
      have hstays := hno k (Nat.lt_succ_self k)
      have htakes := Classical.not_not.mp (mt (he.returns_iff hp hpos).mpr hstays)
      rw [Function.iterate_succ_apply', copyPos_succ]
      exact ⟨he.drawCopy hp hpos hstays, takes_near hp htakes⟩

/-- Which copies are drawn, as long as no return interrupts them. -/
theorem lt_copies_iff (hp : Placed d) {i : Nat} (hno : ∀ j < i, ¬Returns (drawCopy^[j] d)) :
    i < copies d ↔ i < 256 ∧ endsAt d (copyPos d i) = false ∧ (copyMove d ≠ 0 ∨ i = 0) := by
  have hline {j : Nat} (hj : j ≤ i) := online_iterate hp (k := j) fun l hl => hno l (by omega)
  have hends {j : Nat} (hj : j ≤ i) : atPathEnd (drawCopy^[j] d) = endsAt d (copyPos d j) :=
    (hline hj).1.atPathEnd hp (hline hj).2
  have hrests {j : Nat} (hj : j < i) :
      pathPos (drawCopy (drawCopy^[j] d)) = pathPos (drawCopy^[j] d) ↔ copyMove d = 0 := by
    rw [← Function.iterate_succ_apply' drawCopy, (hline hj).1.pos, (hline hj.le).1.pos, copyPos_succ]
    omega
  rw [copies, Loop.lt_rounds_iff]
  refine and_congr_right fun _ => and_congr ⟨fun h => ?_, fun h j hj => ?_⟩ ⟨fun h => ?_, fun h j hj => ?_⟩
  · rw [← hends (le_refl i)]
    exact Bool.eq_false_iff.mpr (h i (le_refl i))
  · rw [hends hj]
    exact fun hend => Bool.false_ne_true (h.symm.trans (endsAt_mono hp.flows hj hend))
  · rcases Nat.eq_zero_or_pos i with hzero | hpos
    · exact Or.inr hzero
    · exact Or.inl fun hrest => h 0 hpos ((hrests hpos).mpr hrest)
  · rcases h with hmove | hzero
    · exact fun hrest => hmove ((hrests hj).mp hrest)
    · omega

/-- No return interrupts the copies. -/
def Unbroken (d : Display) : Prop := ∀ i < copies d, ¬Returns (drawCopy^[i] d)

theorem Unbroken.lt_copies_iff (hp : Placed d) (h : Unbroken d) (i : Nat) :
    i < copies d ↔ i < 256 ∧ endsAt d (copyPos d i) = false ∧ (copyMove d ≠ 0 ∨ i = 0) := by
  constructor
  · intro hi
    exact (Naplps.lt_copies_iff hp fun j hj => h j (by omega)).mp hi
  · rintro ⟨hlt, hend, hmove⟩
    have hall : ∀ j ≤ i, j < copies d := by
      intro j
      induction j using Nat.strong_induction_on with
      | _ j ih =>
          intro hj
          refine (Naplps.lt_copies_iff hp fun l hl => h l (ih l hl (by omega))).mpr ⟨by omega, ?_, by omega⟩
          rw [Bool.eq_false_iff] at hend ⊢
          exact fun hbefore => hend (endsAt_mono hp.flows hj hbefore)
    exact hall i (le_refl i)

/-- Behind each position at which the loop goes on the bounds have room for one more. -/
def RoomBehind (d : Display) : Prop :=
  ∀ k < 256, endsAt d (copyPos d k) = false → (boundsAt d (copyPos d (k + 1))).Takes d (copyPos d (k + 1))

theorem unbroken_iff (hp : Placed d) : Unbroken d ↔ RoomBehind d := by
  constructor
  · intro h k hk hend
    by_cases hmove : copyMove d = 0
    · have hfirst : 0 < copies d :=
        (h.lt_copies_iff hp 0).mpr ⟨by omega, copyPos_of_rest hmove k ▸ hend, Or.inr rfl⟩
      have hstays := mt ((OnLine.refl d).returns_iff hp (hp.pos.mono (by decide))).mpr (h 0 hfirst)
      rw [copyPos_of_rest hmove (k + 1), ← copyPos_of_rest hmove 1, copyPos_succ, copyPos_zero]
      exact Classical.not_not.mp hstays
    · have hlt : k < copies d := (h.lt_copies_iff hp k).mpr ⟨hk, hend, Or.inl hmove⟩
      obtain ⟨he, hpos⟩ := online_iterate hp fun j hj => h j (hj.trans hlt)
      have hstays := mt (he.returns_iff hp hpos).mpr (h k hlt)
      rw [copyPos_succ]
      exact Classical.not_not.mp hstays
  · intro h i
    induction i using Nat.strong_induction_on with
    | _ i ih =>
        intro hi
        have hno : ∀ j < i, ¬Returns (drawCopy^[j] d) := fun j hj => ih j hj (hj.trans hi)
        obtain ⟨he, hpos⟩ := online_iterate hp hno
        obtain ⟨hlt, hend, -⟩ := (lt_copies_iff hp hno).mp hi
        rw [he.returns_iff hp hpos, ← copyPos_succ, Classical.not_not]
        exact h i hlt hend

end

/-! ### Reachable states -/

/-- The path is one of the four, and the last character, where there is one, has a glyph. -/
structure Spacing (d : Display) : Prop where
  path : d.text.path < 4
  glyph : d.text.haveLastSpacing = true →
    glyphFirst ≤ d.text.lastSpacingChar ∧ d.text.lastSpacingChar < glyphFirst + glyphCount

section

variable {d e : Display}

theorem Spacing.keeps (hs : Spacing d) (h : attributes e = attributes d) : Spacing e where
  path := (congrArg (fun a : TextState × ActiveField => a.1.path) h).trans_lt hs.path
  glyph := by
    have hlast : e.text.lastSpacingChar = d.text.lastSpacingChar :=
      congrArg (fun a : TextState × ActiveField => a.1.lastSpacingChar) h
    have hhave : e.text.haveLastSpacing = d.text.haveLastSpacing :=
      congrArg (fun a : TextState × ActiveField => a.1.haveLastSpacing) h
    rw [hlast, hhave]
    exact hs.glyph

theorem resetText_spacing (d : Display) : Spacing (resetText d) :=
  ⟨Nat.zero_lt_succ 3, fun h => absurd h Bool.false_ne_true⟩

theorem Spacing.drawChar (hs : Spacing d) (ch : Nat) : Spacing (drawChar d ch) := by
  unfold Naplps.drawChar
  dsimp only
  split_ifs with hglyph
  · exact hs
  · have hch : glyphFirst ≤ ch ∧ ch < glyphFirst + glyphCount := by omega
    refine Spacing.keeps ?_ (textAdvanceCh_attributes _ _ _)
    exact ⟨hs.path, fun _ => hch⟩

theorem Spacing.execText (hs : Spacing d) (p : Nat → Nat) (n : Nat) : Spacing (execText d p n) := by
  have hskip {d' : Display} (h : Spacing d') (b : Prop) [Decidable b] :
      Spacing (if b then skipped d' else d') := by
    split_ifs
    · exact ⟨h.path, h.glyph⟩
    · exact h
  have hsize {d' : Display} (h : Spacing d') (b : Prop) [Decidable b] (dim : Int × Int) :
      Spacing (if b then setCharSize d' dim else d') := by
    split_ifs
    · exact ⟨h.path, h.glyph⟩
    · exact h
  have hset (b1 b2 : Nat) : Spacing (setTextAttributes d b1 b2) :=
    ⟨Nat.mod_lt (b1 / 4) (Nat.zero_lt_succ 3), hs.glyph⟩
  unfold Naplps.execText
  split
  · exact hs
  · exact hsize (hskip (hset _ _) _) _ _

theorem Spacing.execReset (hs : Spacing d) (p : Nat → Nat) (n : Nat) : Spacing (execReset d p n) := by
  have htext {d' : Display} (h : Spacing d') (b : Prop) [Decidable b] :
      Spacing (if b then textHome (resetText d') else d') := by
    split_ifs
    · exact (resetText_spacing d').keeps (textHome_attributes _)
    · exact h
  have htex {d' : Display} (h : Spacing d') (b : Prop) [Decidable b] :
      Spacing (if b then resetTexture d' else d') := by
    split_ifs
    · exact h.keeps rfl
    · exact h
  unfold Naplps.execReset
  refine htex (htext (hs.keeps ?_) _) _
  rw [clearBits_attributes, resetColorBits_attributes]
  split_ifs <;> rfl

theorem Spacing.execField (hs : Spacing d) (p : Nat → Nat) (n : Nat) : Spacing (execField d p n) := by
  have hfield {d' : Display} (h : Spacing d') (origin size : Int × Int) (x y : Int) :
      Spacing (setDp (setField d' origin size) x y) := by
    refine Spacing.keeps ?_ (setDp_attributes _ _ _)
    exact ⟨h.path, h.glyph⟩
  have hskip : Spacing (skipped d) := hs.keeps rfl
  unfold Naplps.execField
  dsimp only
  split_ifs
  · refine Spacing.keeps ?_ (setDp_attributes _ _ _)
    exact ⟨hs.path, hs.glyph⟩
  · exact hfield hs _ _ _ _
  · exact hfield hskip _ _ _ _
  · exact hfield hs _ _ _ _

theorem Spacing.pdiSwitch (hs : Spacing d) (arc : ArcPoints) (op : Nat) (p : Nat → Nat) (n rep : Nat) :
    Spacing (pdiSwitch arc d op p n rep) := by
  have hcount {d' : Display} (h : Spacing d') : Spacing { d' with st.pdiExecuted := d'.st.pdiExecuted + 1 } :=
    h.keeps rfl
  unfold Naplps.pdiSwitch
  dsimp only
  split
  case h_1 => exact hcount (hs.execReset p n)
  case h_3 => exact hcount (hs.execText p n)
  case h_25 => exact hcount (hs.execField p n)
  case h_29 => exact hs.keeps rfl
  all_goals
    refine hcount (hs.keeps ?_)
    simp only [execDomain_attributes, execTexture_attributes, primPoint_attributes, primLine_attributes,
      primArc_attributes, primRect_attributes, primPoly_attributes, execSetColor_attributes,
      execWait_attributes, execSelectColor_attributes]

theorem Spacing.call (hs : Spacing d) (arc : ArcPoints) (c : Call) : Spacing (call arc d c) := by
  cases c with
  | pdi op p n rep => exact hs.pdiSwitch arc op p n rep
  | char ch => exact hs.drawChar ch
  | again => exact hs.drawChar _
  | space =>
      have hglyph : glyphFirst ≤ 0x20 ∧ 0x20 < glyphFirst + glyphCount := by decide
      have hnote : Spacing (noteSpace d) := ⟨hs.path, fun _ => hglyph⟩
      simp only [Naplps.call, spaceChar]
      split_ifs
      · exact hnote.drawChar _
      · exact hnote.keeps (textAdvanceCh_attributes _ _ _)
  | fill =>
      simp only [Naplps.call]
      split_ifs
      · exact hs
      · exact hs.drawChar _
  | bs => exact hs.keeps (textBs_attributes d)
  | advance => exact hs.keeps (textAdvanceCh_attributes d 0x20 false)
  | lf => exact hs.keeps (textLf_attributes d)
  | rlf => exact hs.keeps (textRlf_attributes d)
  | cr => exact hs.keeps (textCr_attributes d)
  | home => exact hs.keeps (textHome_attributes d)
  | clearScreen => exact hs.keeps (textHome_attributes _)
  | nsrReset => exact (resetText_spacing (resetDomain d)).keeps (textHome_attributes _)
  | nsrAddress b0 b1 => exact hs.keeps (placeCursor_attributes d _ _ _ _)
  | apsAddress b0 b1 => exact hs.keeps (placeCursor_attributes d _ _ _ _)
  | _ => exact ⟨hs.path, hs.glyph⟩

theorem reachable_spacing (arc : ArcPoints) (es : List Event) : Spacing (run (step arc) create es).disp :=
  run_display arc (fun _ c h => h.call arc c) (fun d => (resetText_spacing d).keeps rfl) (fun _ h => h.keeps rfl) es

/-! ### The line -/

/-- The copies stay on the line of the cursor, without an automatic return. -/
def StaysOnLine (d : Display) : Prop :=
  Unbroken d ∧ ∀ i ≤ copies d, linePos (drawCopy^[i] d) = linePos d

/-- A character position along the path, from the cursor on, in the bounds text flows in. -/
def Remaining (d : Display) (p : Int) : Prop := ∃ k : Nat, p = copyPos d k ∧ (textBounds d).Takes d p

/-- The copies stay on the line, and one is drawn at each remaining position and at no other. -/
def FillsLine (d : Display) : Prop :=
  StaysOnLine d ∧ ∀ p, (∃ i < copies d, pathPos (drawCopy^[i] d) = p) ↔ Remaining d p

/-- The loop goes on at the remaining positions, of which there are no more than its rounds, and at no other. -/
def TestFits (d : Display) : Prop :=
  ∀ k, (textBounds d).Takes d (copyPos d k) ↔ (k < 256 ∨ copyMove d = 0) ∧ endsAt d (copyPos d k) = false

theorem staysOnLine_iff (hp : Placed d) : StaysOnLine d ↔ RoomBehind d := by
  rw [← unbroken_iff hp]
  refine ⟨fun h => h.1, fun h => ⟨h, fun i hi => ?_⟩⟩
  exact (online_iterate hp fun j hj => h j (by omega)).1.line

/-- Where the copies are drawn. -/
theorem Unbroken.drawn_iff (hp : Placed d) (h : Unbroken d) (p : Int) :
    (∃ i < copies d, pathPos (drawCopy^[i] d) = p) ↔
      ∃ k, p = copyPos d k ∧ (k < 256 ∨ copyMove d = 0) ∧ endsAt d (copyPos d k) = false := by
  constructor
  · rintro ⟨i, hi, rfl⟩
    obtain ⟨hlt, hend, -⟩ := (h.lt_copies_iff hp i).mp hi
    exact ⟨i, (online_iterate hp fun j hj => h j (hj.trans hi)).1.pos, Or.inl hlt, hend⟩
  · rintro ⟨k, rfl, hk, hend⟩
    by_cases hmove : copyMove d = 0
    · refine ⟨0, (h.lt_copies_iff hp 0).mpr ⟨by omega, copyPos_of_rest hmove k ▸ hend, Or.inr rfl⟩, ?_⟩
      rw [copyPos_of_rest hmove k, copyPos_zero]
      rfl
    · have hi := (h.lt_copies_iff hp k).mpr ⟨hk.resolve_right hmove, hend, Or.inl hmove⟩
      exact ⟨k, hi, (online_iterate hp fun j hj => h j (hj.trans hi)).1.pos⟩

theorem fillsLine_iff (hp : Placed d) : FillsLine d ↔ RoomBehind d ∧ TestFits d := by
  rw [FillsLine, staysOnLine_iff hp]
  refine and_congr_right fun hroom => ?_
  simp only [((unbroken_iff hp).mpr hroom).drawn_iff hp]
  refine ⟨fun h k => ?_, fun h p => ?_⟩
  · have hsame {j : Nat} (hj : copyPos d k = copyPos d j) :
        (j < 256 ∨ copyMove d = 0) ∧ endsAt d (copyPos d j) = false →
          (k < 256 ∨ copyMove d = 0) ∧ endsAt d (copyPos d k) = false := by
      rintro ⟨hlt, hend⟩
      refine ⟨?_, hj ▸ hend⟩
      by_cases hmove : copyMove d = 0
      · exact Or.inr hmove
      · exact copyPos_inj hmove hj ▸ hlt
    constructor
    · intro htakes
      obtain ⟨j, hj, hat⟩ := (h (copyPos d k)).mpr ⟨k, rfl, htakes⟩
      exact hsame hj hat
    · intro hat
      obtain ⟨j, hj, htakes⟩ := (h (copyPos d k)).mp ⟨k, rfl, hat⟩
      exact htakes
  · constructor
    · rintro ⟨k, rfl, hat⟩
      exact ⟨k, rfl, (h k).mpr hat⟩
    · rintro ⟨k, rfl, htakes⟩
      exact ⟨k, rfl, (h k).mp htakes⟩

/-! ### The display area -/

theorem textBounds_unset (h : d.af.set = false) : textBounds d = displayArea := by
  unfold textBounds
  rw [if_neg]
  · rfl
  · simp [h]

theorem boundsAt_unset (h : d.af.set = false) (p : Int) : boundsAt d p = displayArea := by
  unfold boundsAt
  rw [if_neg]
  simp [h]

/-- With steps no longer than the character field the test of the loop keeps room for the next character. -/
theorem roomBehind_of_step (hp : Placed d) (hpath : d.text.path < 4) (hunset : d.af.set = false)
    (hin : displayArea.Takes d (pathPos d))
    (hstep : icStep d (pathSize d) d.text.lastSpacingChar true ≤ pathSize d) : RoomBehind d := by
  intro k _ hend
  have hmove := hp.flows.copyStep
  have hsize := hp.flows.copySize
  rw [boundsAt_unset hunset]
  have hfrom (k : Nat) : (0 ≤ copyMove d → pathPos d ≤ copyPos d k) ∧ (copyMove d ≤ 0 → copyPos d k ≤ pathPos d) := by
    induction k with
    | zero => simp [copyPos_zero]
    | succ k ih =>
        rw [copyPos_succ]
        omega
  have hnext := hfrom (k + 1)
  rw [copyPos_succ] at hnext ⊢
  unfold Bounds.Takes Inside Bounds.pathLo Bounds.pathHi displayArea at *
  unfold endsAt at hend
  unfold copyMove pathSize at *
  generalize d.text.path = path at *
  rcases path with _ | _ | _ | _ | path
  · simp at *
    omega
  · simp at *
    omega
  · simp at *
    omega
  · simp at *
    omega
  · omega

/-- The last position of a line of the display is left out: a copy there would be followed by a return. -/
theorem not_fillsLine (hp : Placed d) (hunset : d.af.set = false) (hin : displayArea.Takes d (pathPos d))
    (hmove : copyMove d ≠ 0) : ¬FillsLine d := by
  rw [fillsLine_iff hp]
  rintro ⟨hroom, hfits⟩
  have hall : ∀ k ≤ 256, displayArea.Takes d (copyPos d k) := by
    intro k
    induction k with
    | zero => exact fun _ => copyPos_zero d ▸ hin
    | succ k ih =>
        intro hk
        have hend := ((hfits k).mp (textBounds_unset hunset ▸ ih (by omega))).2
        exact boundsAt_unset hunset (copyPos d (k + 1)) ▸ hroom k (by omega) hend
  have hlast := ((hfits 256).mp (textBounds_unset hunset ▸ hall 256 (le_refl 256))).1
  exact hlast.elim (by decide) hmove

end

theorem reachable_placed (arc : ArcPoints) (es : List Event) {d : Decoder} (hd : d = run (step arc) create es)
    (hlast : d.disp.text.haveLastSpacing = true) (hroomy : Near (maxInt32 - headroom) d.disp) : Placed d.disp where
  flows := hd ▸ reachable_flows arc es
  glyph := (hd ▸ reachable_spacing arc es : Spacing d.disp).glyph hlast
  pos := by
    unfold pathPos
    split_ifs
    · exact hroomy.cx
    · exact hroomy.cy
  line := by
    unfold linePos
    split_ifs
    · exact hroomy.cy
    · exact hroomy.cx
  field := fieldArea_near (hd ▸ reachable_flows arc es) hroomy.x hroomy.y

/-- REPEAT TO EOL draws at most 256 copies. They stay on the line exactly where the bounds have room behind each position
at which the loop goes on, and fill it exactly where the loop goes on at the remaining positions alone. -/
theorem line_filled_iff (arc : ArcPoints) (es : List Event) {d : Decoder} (hd : d = run (step arc) create es)
    (hlast : d.disp.text.haveLastSpacing = true) (hroomy : Near (maxInt32 - headroom) d.disp) :
    ((doC1 d 4 7).disp = drawCopy^[copies d.disp] d.disp ∧ copies d.disp ≤ 256) ∧
      (StaysOnLine d.disp ↔ RoomBehind d.disp) ∧
      (FillsLine d.disp ↔ RoomBehind d.disp ∧ TestFits d.disp) := by
  have hplaced := reachable_placed arc es hd hlast hroomy
  have hdraws : (doC1 d 4 7).disp = repeatToEol 256 d.disp := by
    show (if d.disp.text.haveLastSpacing then onDisplay d (repeatToEol 256) else onDisplay d skipped).disp = _
    rw [if_pos hlast]
    rfl
  refine ⟨⟨?_, Loop.rounds_le 256 _⟩, staysOnLine_iff hplaced, fillsLine_iff hplaced⟩
  rw [hdraws, repeatToEol_eq_bounded]
  exact Loop.bounded_eq_iterate 256 _

/-- A field from the left edge of the display to the last column, which it leaves out, and one character in it. -/
def columnsButOne : Decoder :=
  run (step noArc) create [.feed [0x0E, 0x38, 0x40, 0x40, 0x40, 0x59, 0x78, 0x50, 0x0F, 0x41]]

/-- The copies fill the field: the step out of it ends in the last column of the display, where the loop ends. -/
theorem line_filled_columns : 0 < copies columnsButOne.disp ∧ FillsLine columnsButOne.disp := by
  have hlaw := line_filled_iff noArc _ (d := columnsButOne) rfl (by decide)
    (show Roomy columnsButOne.disp .countByte by decide)
  have hpath : columnsButOne.disp.text.path = 0 := by decide
  have hpos (k : Nat) : copyPos columnsButOne.disp k = 1638 + k * 1638 := by
    have hat : pathPos columnsButOne.disp = 1638 ∧ copyMove columnsButOne.disp = 1638 := by decide
    rw [copyPos, hat.1, hat.2]
  have htakes (b : Bounds) (p : Int) : b.Takes columnsButOne.disp p ↔ b.x0 ≤ p ∧ p + 1638 ≤ b.x1 := by
    have hsize : copySize columnsButOne.disp = 1638 := by decide
    rw [Bounds.Takes, Inside, Bounds.pathLo, Bounds.pathHi, hpath, hsize]
    rfl
  have hends (k : Nat) : endsAt columnsButOne.disp (copyPos columnsButOne.disp k) = false ↔ k ≤ 37 := by
    have hsize : cfW columnsButOne.disp = 1638 := by decide
    rw [endsAt, hpath, hpos, hsize]
    show decide (1638 + (k : Int) * 1638 + 2 * 1638 > 65536) = false ↔ k ≤ 37
    rw [decide_eq_false_iff_not]
    omega
  have hbounds : (textBounds columnsButOne.disp).x0 = 0 ∧ (textBounds columnsButOne.disp).x1 = 64000 := by
    decide
  refine ⟨by decide, hlaw.2.2.mpr ⟨fun k _ hend => ?_, fun k => ?_⟩⟩
  · have hk := (hends k).mp hend
    rw [boundsAt]
    split_ifs with hin
    · exact hin.2.1.takes (reachable_flows noArc _)
    · rw [htakes, hpos]
      show (0 : Int) ≤ _ ∧ _ ≤ (65536 : Int)
      omega
  · rw [htakes, hends, hbounds.1, hbounds.2, hpos]
    omega

/-- The default size and spacing from the second column on. -/
def secondColumn : Decoder := run (step noArc) create [.feed [0x41]]

/-- Two characters in the default spacing, and TEXT with a spacing of three halves. -/
def threeHalves : Decoder := run (step noArc) create [.feed [0x41, 0x41, 0x0E, 0x22, 0x60, 0x0F]]

/-- A field a quarter of the display wide at its left edge, and one character in it. -/
def quarterField : Decoder :=
  run (step noArc) create [.feed [0x0E, 0x38, 0x40, 0x40, 0x40, 0x49, 0x40, 0x40, 0x0F, 0x41]]

/-- A copy in the wide spacing is followed by a return, and the copies go on along the next line. In the default spacing
they stay on the line, but leave its last position out; and a field does not hold them. -/
theorem line_filled_wraps :
    (threeHalves.disp.text.haveLastSpacing = true ∧ ¬StaysOnLine threeHalves.disp) ∧
      (secondColumn.disp.text.haveLastSpacing = true ∧ StaysOnLine secondColumn.disp ∧
        ¬FillsLine secondColumn.disp) ∧
      (quarterField.disp.text.haveLastSpacing = true ∧ ¬FillsLine quarterField.disp) := by
  have hnear {d : Display} (h : Roomy d .countByte) : Near (maxInt32 - headroom) d := h
  have hwide : Placed threeHalves.disp :=
    reachable_placed noArc _ rfl (by decide) (hnear (by decide))
  have hsecond : Placed secondColumn.disp :=
    reachable_placed noArc _ rfl (by decide) (hnear (by decide))
  have hfield : Placed quarterField.disp :=
    reachable_placed noArc _ rfl (by decide) (hnear (by decide))
  refine ⟨⟨by decide, fun h => ?_⟩, ⟨by decide, ?_, ?_⟩, by decide, fun h => ?_⟩
  · have hroom := (staysOnLine_iff hwide).mp h 24 (by decide) (by decide)
    revert hroom
    decide
  · refine (staysOnLine_iff hsecond).mpr (roomBehind_of_step hsecond ?_ ?_ ?_ ?_)
    all_goals decide
  · refine not_fillsLine hsecond ?_ ?_ ?_
    all_goals decide
  · -- The copies go on behind the right edge of the field.
    have hout := (((fillsLine_iff hfield).mp h).2 20).mpr ⟨by decide, by decide⟩
    revert hout
    decide

end UnicornSuite.Naplps
