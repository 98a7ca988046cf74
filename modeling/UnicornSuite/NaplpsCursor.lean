import UnicornSuite.NaplpsFlow

/-! The cursor inside of a rectangle. A movement that starts with the character field in the rectangle
text flows in ends with it there: along the path the steps are exact, and a step over an edge goes round
to the opposite one. One case is missing: APB does not look at the far edge, which it meets where the
path runs left or down (`cursor_contained_iff`). -/

namespace UnicornSuite.Naplps

open CInt Machine

/-! ### Inside of a rectangle -/

/-- A coordinate and the size behind it lie between two edges. -/
def Inside (lo hi size pos : Int) : Prop := lo ≤ pos ∧ pos + size ≤ hi

instance (lo hi size pos : Int) : Decidable (Inside lo hi size pos) :=
  inferInstanceAs (Decidable (_ ∧ _))

/-- The character field at a position lies in the rectangle. -/
structure Bounds.Contains (b : Bounds) (d : Display) (x y : Int) : Prop where
  x : Inside b.x0 b.x1 (cfW d) x
  y : Inside b.y0 b.y1 (cfH d) y

instance (b : Bounds) (d : Display) (x y : Int) : Decidable (b.Contains d x y) :=
  decidable_of_iff (Inside b.x0 b.x1 (cfW d) x ∧ Inside b.y0 b.y1 (cfH d) y)
    ⟨fun h => ⟨h.1, h.2⟩, fun h => ⟨h.1, h.2⟩⟩

/-- The character field of the cursor lies in the rectangle. -/
def Bounds.Holds (b : Bounds) (d : Display) : Prop := b.Contains d d.text.cx d.text.cy

instance (b : Bounds) (d : Display) : Decidable (b.Holds d) :=
  inferInstanceAs (Decidable (b.Contains _ _ _))

/-- How far from zero the edges of a rectangle may be for a step to be exact. -/
abbrev edgeLimit : Int := maxInt32 - headroom + 65536

/-- Two edges and a size. -/
structure Track (lo hi size : Int) : Prop where
  lo : Within edgeLimit lo
  hi : Within edgeLimit hi
  size : 0 ≤ size ∧ size ≤ 65536

section

variable {lo hi size p step : Int}

/-- A position inside of the edges. -/
theorem Track.pos (ht : Track lo hi size) (h : Inside lo hi size p) : Within edgeLimit p := by
  have hlo := ht.lo
  have hhi := ht.hi
  have hsize := ht.size
  simp only [Inside, Within] at *
  omega

/-- A position inside of the edges and a step from it are exact. -/
theorem Track.wrap (ht : Track lo hi size) (h : Inside lo hi size p) {v : Int}
    (hv : Within 1048576 (v - p)) : wrap32 v = v := by
  have hsum := (ht.pos h).add hv
  rw [show p + (v - p) = v by omega] at hsum
  exact wrap32_of_fits (hsum.fits (by decide))

theorem Track.wrapEdge (ht : Track lo hi size) : wrap32 (hi - size) = hi - size :=
  wrap32_of_fits ((ht.hi.sub (l := 65536) ⟨by have := ht.size; omega, ht.size.2⟩).fits (by decide))

/-- A step towards the low edge that goes round to the high edge. -/
theorem Track.down (ht : Track lo hi size) (hs : 0 ≤ step ∧ step ≤ 851968)
    (h : Inside lo hi size p) :
    Inside lo hi size
      (if wrap32 (p - step) < lo then wrap32 (hi - size) else wrap32 (p - step)) := by
  have hsize := ht.size
  rw [ht.wrap h (v := p - step) ⟨by omega, by omega⟩, ht.wrapEdge]
  unfold Inside at *
  split_ifs <;> omega

/-- A step towards the high edge that goes round to the low edge. -/
theorem Track.up (ht : Track lo hi size) (hs : 0 ≤ step ∧ step ≤ 851968)
    (h : Inside lo hi size p) :
    Inside lo hi size
      (if wrap32 (wrap32 (p + step) + size) > hi then lo else wrap32 (p + step)) := by
  have hsize := ht.size
  rw [ht.wrap h (v := p + step) ⟨by omega, by omega⟩,
    ht.wrap h (v := p + step + size) ⟨by omega, by omega⟩]
  unfold Inside at *
  split_ifs <;> omega

/-- A step that scrolling takes back. -/
theorem Track.scrolled (ht : Track lo hi size) (hs : 0 ≤ step ∧ step ≤ 851968)
    (h : Inside lo hi size p) :
    wrap32 (wrap32 (p - step) + step) = p ∧ wrap32 (wrap32 (p + step) - step) = p := by
  rw [ht.wrap h (v := p - step) ⟨by omega, by omega⟩,
    ht.wrap h (v := p + step) ⟨by omega, by omega⟩,
    show p - step + step = p by omega, show p + step - step = p by omega]
  exact ⟨ht.wrap h ⟨by omega, by omega⟩, ht.wrap h ⟨by omega, by omega⟩⟩

end

section

variable {b : Bounds} {d : Display}

theorem Bounds.Near.trackX (hn : b.Near edgeLimit) (hf : Flows d) : Track b.x0 b.x1 (cfW d) :=
  ⟨hn.x0, hn.x1, hf.cfW⟩

theorem Bounds.Near.trackY (hn : b.Near edgeLimit) (hf : Flows d) : Track b.y0 b.y1 (cfH d) :=
  ⟨hn.y0, hn.y1, hf.cfH⟩

/-- APD keeps the character field in the rectangle text flows in. -/
theorem Bounds.Holds.textLf (hf : Flows d) (hn : b.Near edgeLimit) (hb : textBounds d = b)
    (h : b.Holds d) : b.Holds (textLf d) := by
  have hstep : 0 ≤ irStep d ∧ irStep d ≤ 851968 := ⟨hf.irStep.1, hf.irStep.2.trans (by decide)⟩
  have hdown := (hn.trackY hf).down hstep h.y
  constructor
  · rw [cfW_of_layout (textLf_layout d), textLf_cx, hb]
    by_cases hpath : d.text.path < 2
    · rw [if_pos hpath]
      exact h.x
    · rw [if_neg hpath]
      exact (hn.trackX hf).down hstep h.x
  · rw [cfH_of_layout (textLf_layout d), textLf_cy, hb, ((hn.trackY hf).scrolled hstep h.y).1]
    by_cases hpath : d.text.path < 2
    · rw [if_pos hpath]
      split_ifs at hdown ⊢
      · exact h.y
      · exact hdown
      · exact hdown
    · rw [if_neg hpath]
      exact h.y

/-- So does APU. -/
theorem Bounds.Holds.textRlf (hf : Flows d) (hn : b.Near edgeLimit) (hb : textBounds d = b)
    (h : b.Holds d) : b.Holds (textRlf d) := by
  have hstep : 0 ≤ irStep d ∧ irStep d ≤ 851968 := ⟨hf.irStep.1, hf.irStep.2.trans (by decide)⟩
  have hup := (hn.trackY hf).up hstep h.y
  constructor
  · rw [cfW_of_layout (textRlf_layout d), textRlf_cx, hb]
    by_cases hpath : d.text.path < 2
    · rw [if_pos hpath]
      exact h.x
    · rw [if_neg hpath]
      exact (hn.trackX hf).up hstep h.x
  · rw [cfH_of_layout (textRlf_layout d), textRlf_cy, hb, ((hn.trackY hf).scrolled hstep h.y).2]
    by_cases hpath : d.text.path < 2
    · rw [if_pos hpath]
      split_ifs at hup ⊢
      · exact h.y
      · exact hup
      · exact hup
    · rw [if_neg hpath]
      exact h.y

/-! ### Along the path -/

/-- The extent of the character field along the path. -/
def pathSize (d : Display) : Int := if d.text.path < 2 then cfW d else cfH d

/-- The edges of the rectangle the path runs between. -/
def Bounds.pathLo (b : Bounds) (d : Display) : Int := if d.text.path < 2 then b.x0 else b.y0

def Bounds.pathHi (b : Bounds) (d : Display) : Int := if d.text.path < 2 then b.x1 else b.y1

/-- The character field would lie between these edges at a position along the path. -/
def Bounds.Along (b : Bounds) (d : Display) (p : Int) : Prop :=
  Inside (b.pathLo d) (b.pathHi d) (pathSize d) p

instance (b : Bounds) (d : Display) (p : Int) : Decidable (b.Along d p) :=
  inferInstanceAs (Decidable (Inside _ _ _ _))

/-- The character field lies between the edges to the sides of the path. -/
def Bounds.Across (b : Bounds) (d : Display) : Prop :=
  if d.text.path < 2 then Inside b.y0 b.y1 (cfH d) d.text.cy
  else Inside b.x0 b.x1 (cfW d) d.text.cx

/-- One intercharacter step along the path, under fixed spacing. -/
def pathMove (d : Display) : Int :=
  if d.text.path = 0 ∨ d.text.path = 2 then icStep d (pathSize d) 0x20 false
  else -icStep d (pathSize d) 0x20 false

/-- The first character position along the path. -/
def Bounds.lineStart (b : Bounds) (d : Display) : Int :=
  if d.text.path = 0 ∨ d.text.path = 2 then b.pathLo d else b.pathHi d - pathSize d

theorem Bounds.holds_iff : b.Holds d ↔ b.Along d (pathPos d) ∧ b.Across d := by
  unfold Bounds.Along Bounds.Across Bounds.pathLo Bounds.pathHi pathSize pathPos
  split_ifs
  · exact ⟨fun h => ⟨h.x, h.y⟩, fun h => ⟨h.1, h.2⟩⟩
  · exact ⟨fun h => ⟨h.y, h.x⟩, fun h => ⟨h.2, h.1⟩⟩

theorem Bounds.Near.trackPath (hn : b.Near edgeLimit) (hf : Flows d) :
    Track (b.pathLo d) (b.pathHi d) (pathSize d) := by
  unfold Bounds.pathLo Bounds.pathHi pathSize
  split_ifs
  · exact hn.trackX hf
  · exact hn.trackY hf

theorem Flows.pathMove (hf : Flows d) (hprop : d.text.propSpacing = false) :
    Within 851968 (pathMove d) := by
  have hsize : 0 ≤ pathSize d ∧ pathSize d ≤ 65536 := by
    unfold pathSize
    split_ifs
    · exact hf.cfW
    · exact hf.cfH
  have hstep := hf.icStep hsize hprop 0x20 false
  unfold Naplps.pathMove Within
  split_ifs <;> omega

/-- What the text functions leave alone decides what a position along the path has to meet. -/
theorem Bounds.along_of_layout {e : Display} (h : layout e = layout d) (p : Int) :
    b.Along e p ↔ b.Along d p := by
  unfold Bounds.Along Bounds.pathLo Bounds.pathHi pathSize
  rw [path_of_layout h, cfW_of_layout h, cfH_of_layout h]

theorem Bounds.lineStart_of_layout {e : Display} (h : layout e = layout d) :
    b.lineStart e = b.lineStart d := by
  unfold Bounds.lineStart Bounds.pathLo Bounds.pathHi pathSize
  rw [path_of_layout h, cfW_of_layout h, cfH_of_layout h]

theorem icStep_fixed (hprop : d.text.propSpacing = false) (cell : Int) (ch : Nat) (haveCh : Bool) :
    icStep d cell ch haveCh = icStep d cell 0x20 false := by
  unfold icStep
  simp [hprop]

theorem pathStep_pathPos (hprop : d.text.propSpacing = false) (ch : Nat) (haveCh : Bool) :
    pathPos (pathStep d ch haveCh) = wrap32 (pathPos d + pathMove d) := by
  unfold pathStep pathPos pathMove pathSize
  simp only [icStep_fixed hprop _ ch haveCh]
  by_cases hpath : d.text.path < 2
  · have hne : d.text.path ≠ 2 := by omega
    simp only [hpath, hne, if_true, or_false]
  · have hne : d.text.path ≠ 0 := by omega
    simp only [hpath, hne, if_false, false_or]

theorem pathBack_pathPos : pathPos (pathBack d) = wrap32 (pathPos d - pathMove d) := by
  unfold pathBack pathPos pathMove pathSize icStep
  by_cases hpath : d.text.path < 2
  · have hne : d.text.path ≠ 2 := by omega
    simp [hpath, hne]
  · have hne : d.text.path ≠ 0 := by omega
    simp [hpath, hne]

theorem Bounds.Across.pathStep (hf : Flows d) (hn : b.Near edgeLimit) (h : b.Across d) (ch : Nat)
    (haveCh : Bool) : b.Across (pathStep d ch haveCh) := by
  unfold Bounds.Across Naplps.pathStep at *
  by_cases hpath : d.text.path < 2
  · simp only [hpath, if_true, add_zero] at h ⊢
    rw [(hn.trackY hf).wrap h (v := d.text.cy) ⟨by omega, by omega⟩]
    exact h
  · simp only [hpath, if_false, add_zero] at h ⊢
    rw [(hn.trackX hf).wrap h (v := d.text.cx) ⟨by omega, by omega⟩]
    exact h

theorem Bounds.Across.pathBack (h : b.Across d) : b.Across (pathBack d) := by
  unfold Bounds.Across Naplps.pathBack at *
  split_ifs at h ⊢ <;> exact h

theorem textLf_pathPos (d : Display) : pathPos (textLf d) = pathPos d := by
  unfold pathPos
  rw [path_of_layout (textLf_layout d), textLf_cx, textLf_cy]
  split_ifs <;> rfl

/-- APR. -/
theorem textCr_pathPos (hf : Flows d) (hn : (textBounds d).Near edgeLimit) :
    pathPos (textCr d) = (textBounds d).lineStart d := by
  unfold pathPos Bounds.lineStart Bounds.pathLo Bounds.pathHi pathSize
  rw [path_of_layout (textCr_layout d), textCr_cx, textCr_cy, (hn.trackX hf).wrapEdge,
    (hn.trackY hf).wrapEdge]
  rcases d.text.path with _ | _ | _ | k
  · rfl
  · rfl
  · rfl
  · have hpath : ¬k + 1 + 1 + 1 < 2 := by omega
    simp [hpath]

theorem Bounds.Across.textCr (h : b.Across d) : b.Across (textCr d) := by
  unfold Bounds.Across at *
  rw [path_of_layout (textCr_layout d), cfW_of_layout (textCr_layout d),
    cfH_of_layout (textCr_layout d), textCr_cx, textCr_cy]
  by_cases hpath : d.text.path < 2
  · simpa only [if_pos hpath] using h
  · have hne : d.text.path ≠ 0 ∧ d.text.path ≠ 1 := by omega
    simpa only [if_neg hpath, if_neg hne.1, if_neg hne.2] using h

/-- Where the rectangle has room for the character field, its first character position lies in it. -/
theorem Bounds.along_lineStart (h : pathSize d ≤ b.pathHi d - b.pathLo d) :
    b.Along d (b.lineStart d) := by
  unfold Bounds.Along Bounds.lineStart
  split_ifs
  · exact ⟨le_refl _, by omega⟩
  · exact ⟨by omega, by omega⟩

/-- The character after this one would not lie in the rectangle. -/
theorem leavesBounds_iff (hprop : d.text.propSpacing = false)
    (hexact : wrap32 (pathPos d + pathSize d) = pathPos d + pathSize d) (ch : Nat) (haveCh : Bool) :
    leavesBounds d ch haveCh = true ↔ ¬(textBounds d).Along d (pathPos d) := by
  unfold leavesBounds Bounds.Along Inside Bounds.pathLo Bounds.pathHi
  unfold pathPos pathSize at *
  simp only [hprop, Bool.false_eq_true, false_and, if_false]
  split_ifs at hexact ⊢
  · simp only [hexact, decide_eq_true_eq]
    omega
  · simp only [hexact, decide_eq_true_eq]
    omega

/-- The character field of the cursor. -/
def charField (d : Display) : Int × Int × Int × Int :=
  (d.text.cx, d.text.cy, d.text.cfDx, d.text.cfDy)

theorem Bounds.holds_congr {e : Display} (h : charField e = charField d) : b.Holds e ↔ b.Holds d := by
  have hcontains (d : Display) : b.Holds d ↔
      Inside b.x0 b.x1 (absFx (charField d).2.2.1) (charField d).1 ∧
        Inside b.y0 b.y1 (absFx (charField d).2.2.2) (charField d).2.1 :=
    ⟨fun h => ⟨h.x, h.y⟩, fun h => ⟨h.1, h.2⟩⟩
  rw [hcontains, hcontains, h]

theorem Bounds.Holds.congr {e : Display} (hin : b.Holds d) (h : charField e = charField d) :
    b.Holds e :=
  (Bounds.holds_congr h).mpr hin

theorem Bounds.holds_of_text {e : Display} (h : e.text = d.text) : b.Holds e ↔ b.Holds d :=
  Bounds.holds_congr (by rw [charField, charField, h])

/-- The steps along the path from a position in the rectangle are exact. -/
theorem Bounds.Holds.exact (hf : Flows d) (hn : b.Near edgeLimit)
    (hprop : d.text.propSpacing = false) (h : b.Holds d) {v : Int}
    (hv : v = pathMove d ∨ v = -pathMove d) :
    wrap32 (pathPos d + v) = pathPos d + v ∧
      wrap32 (pathPos d + v + pathSize d) = pathPos d + v + pathSize d := by
  have htrack := hn.trackPath hf
  have hsize := htrack.size
  have hmove := hf.pathMove hprop
  have halong := (Bounds.holds_iff.mp h).1
  unfold Within at hmove
  constructor
  · exact htrack.wrap halong ⟨by omega, by omega⟩
  · exact htrack.wrap halong ⟨by omega, by omega⟩

theorem textBs_text (d : Display) : (textBs d).text =
    if pathPos (pathBack d) < (textBounds d).pathLo d then
      if d.text.path < 2 then
        (textRlf { pathBack d with text.cx := wrap32 ((textBounds d).x1 - cfW d) }).text
      else { (pathBack d).text with cy := wrap32 ((textBounds d).y1 - cfH d) }
    else (pathBack d).text := by
  have hw : cfW (pathBack d) = cfW d := cfW_of_layout (pathBack_layout d)
  have hh : cfH (pathBack d) = cfH d := cfH_of_layout (pathBack_layout d)
  have hpath : (pathBack d).text.path = d.text.path := path_of_layout (pathBack_layout d)
  unfold textBs pathPos Bounds.pathLo
  simp only [hw, hh, hpath]
  by_cases hp : d.text.path < 2
  · simp only [hp, if_true]
    split_ifs <;> rw [cursorMoved_text]
  · simp only [hp, if_false]
    split_ifs <;> rw [cursorMoved_text]

end

/-! ### The display area -/

def displayArea : Bounds := ⟨0, 0, fxOne, visYFx⟩

theorem displayArea_near : displayArea.Near edgeLimit :=
  ⟨by decide, by decide, by decide, by decide⟩

/-- Fixed spacing, no active field and a character field no larger than the display area. -/
structure Plain (d : Display) : Prop where
  flows : Flows d
  fixed : d.text.propSpacing = false
  unset : d.af.set = false
  w : cfW d ≤ fxOne
  h : cfH d ≤ visYFx

section

variable {d e : Display}

theorem Plain.congr (hp : Plain d) (h : layout e = layout d) : Plain e where
  flows := hp.flows.congr h
  fixed := (prop_of_layout h).trans hp.fixed
  unset := (congrArg ActiveField.set (af_of_layout h)).trans hp.unset
  w := (cfW_of_layout h).trans_le hp.w
  h := (cfH_of_layout h).trans_le hp.h

theorem Plain.textBounds (hp : Plain d) : textBounds d = displayArea := by
  unfold Naplps.textBounds
  rw [if_neg]
  · rfl
  · simp [hp.unset]

theorem Plain.room (hp : Plain d) :
    pathSize d ≤ displayArea.pathHi d - displayArea.pathLo d := by
  have hw := hp.w
  have hh := hp.h
  unfold pathSize Bounds.pathHi Bounds.pathLo
  dsimp only [displayArea]
  split_ifs <;> omega

theorem Plain.lf (hp : Plain d) (h : displayArea.Holds d) : displayArea.Holds (textLf d) :=
  h.textLf hp.flows displayArea_near hp.textBounds

theorem Plain.rlf (hp : Plain d) (h : displayArea.Holds d) : displayArea.Holds (textRlf d) :=
  h.textRlf hp.flows displayArea_near hp.textBounds

theorem Plain.cr (hp : Plain d) (h : displayArea.Across d) : displayArea.Holds (textCr d) := by
  have hnear : (Naplps.textBounds d).Near edgeLimit := hp.textBounds ▸ displayArea_near
  refine Bounds.holds_iff.mpr ⟨?_, h.textCr⟩
  rw [textCr_pathPos hp.flows hnear, hp.textBounds, Bounds.along_of_layout (textCr_layout d)]
  exact Bounds.along_lineStart hp.room

theorem Plain.home (hp : Plain d) : displayArea.Holds (textHome d) := by
  have hw := hp.flows.cfW
  have hh := hp.flows.cfH
  have hroomX := hp.w
  have hroomY := hp.h
  have hedge : wrap32 (visYFx - cfH d) = visYFx - cfH d :=
    Track.wrapEdge ⟨displayArea_near.y0, displayArea_near.y1, hh⟩
  unfold textHome
  rw [Bounds.holds_of_text (cursorMoved_text _), hedge]
  exact ⟨⟨le_refl _, (by omega : 0 + cfW d ≤ fxOne)⟩,
    (by omega : 0 ≤ visYFx - cfH d), (by omega : visYFx - cfH d + cfH d ≤ visYFx)⟩

/-- APF and the automatic APR APD. -/
theorem Plain.advance (hp : Plain d) (h : displayArea.Holds d) (ch : Nat) (haveCh : Bool) :
    displayArea.Holds (textAdvanceCh d ch haveCh) := by
  have hstep := hp.congr (pathStep_layout d ch haveCh)
  have hacross := (Bounds.holds_iff.mp h).2.pathStep hp.flows displayArea_near ch haveCh
  have hexact := h.exact hp.flows displayArea_near hp.fixed (Or.inl rfl)
  have hpos : pathPos (pathStep d ch haveCh) = pathPos d + pathMove d :=
    (pathStep_pathPos hp.fixed ch haveCh).trans hexact.1
  have hleaves := leavesBounds_iff (d := pathStep d ch haveCh) hstep.fixed
    (by rw [hpos]; exact hexact.2) ch haveCh
  rw [hstep.textBounds] at hleaves
  rw [Bounds.holds_of_text (e := textAdvanceCh d ch haveCh)
    (d := if leavesBounds (pathStep d ch haveCh) ch haveCh then
      textLf (textCr (pathStep d ch haveCh)) else pathStep d ch haveCh)
    (by rw [textAdvanceCh_text, apply_ite Display.text])]
  split_ifs with hleave
  · exact (hstep.congr (textCr_layout _)).lf (hstep.cr hacross)
  · exact Bounds.holds_iff.mpr ⟨not_not.mp fun hno => hleave (hleaves.mpr hno), hacross⟩

/-- The last position before the far edge. -/
theorem inside_far {hi size size' : Int} (heq : size' = size) (hle : size ≤ hi) :
    Inside 0 hi size' (hi - size) := ⟨by omega, by omega⟩

/-- APB keeps to the display area where one step back does not pass the far edge of the path. -/
theorem Plain.bs_iff (hp : Plain d) (h : displayArea.Holds d) :
    displayArea.Holds (textBs d) ↔ pathPos d - pathMove d + pathSize d ≤ displayArea.pathHi d := by
  have hback := hp.congr (pathBack_layout d)
  have hacross := (Bounds.holds_iff.mp h).2.pathBack
  have hroom := hp.room
  have htrack := displayArea_near.trackPath hp.flows
  have hpos : pathPos (pathBack d) = pathPos d - pathMove d := by
    rw [pathBack_pathPos]
    exact (h.exact hp.flows displayArea_near hp.fixed (Or.inr rfl)).1
  have hsize := htrack.size
  by_cases hedge : pathPos d - pathMove d < displayArea.pathLo d
  · have hpath : (pathBack d).text.path = d.text.path := path_of_layout (pathBack_layout d)
    have hedgeX : wrap32 (displayArea.x1 - cfW d) = displayArea.x1 - cfW d :=
      (displayArea_near.trackX hp.flows).wrapEdge
    have hedgeY : wrap32 (displayArea.y1 - cfH d) = displayArea.y1 - cfH d :=
      (displayArea_near.trackY hp.flows).wrapEdge
    have htext := textBs_text d
    rw [hpos, hp.textBounds, if_pos hedge] at htext
    refine iff_of_true ?_ (by omega)
    unfold Bounds.Across at hacross
    by_cases hacrossY : d.text.path < 2
    · rw [hpath, if_pos hacrossY] at hacross
      rw [if_pos hacrossY, hedgeX] at htext
      rw [Bounds.holds_of_text htext]
      refine (hback.congr (withCx_layout _ _)).rlf ⟨?_, hacross⟩
      exact inside_far (cfW_of_layout (pathBack_layout d)) hp.w
    · rw [hpath, if_neg hacrossY] at hacross
      rw [if_neg hacrossY, hedgeY] at htext
      rw [Bounds.holds_of_text (d := { pathBack d with text.cy := displayArea.y1 - cfH d }) htext]
      exact ⟨hacross, inside_far (cfH_of_layout (pathBack_layout d)) hp.h⟩
  · have htext : (textBs d).text = (pathBack d).text := by
      rw [textBs_text, hpos, hp.textBounds, if_neg hedge]
    rw [Bounds.holds_of_text htext, Bounds.holds_iff, Bounds.along_of_layout (pathBack_layout d), hpos]
    exact ⟨fun hin => hin.1.2, fun hle => ⟨⟨not_lt.mp hedge, hle⟩, hacross⟩⟩

/-- An address counted in character fields. -/
theorem Plain.place (hp : Plain d) {x y : Int} (hx : Within 8388608 x) (hy : Within 8388608 y)
    (hcolumn : cfW d = 0 → x = 0) (hrow : cfH d = 0 → y = 0) :
    displayArea.Holds (placeCursor d x y (cfW d) (cfH d)) := by
  have hw := hp.flows.cfW
  have hh := hp.flows.cfH
  have hroomX := hp.w
  have hroomY := hp.h
  have hedgeX : wrap32 (fxOne - cfW d) = fxOne - cfW d :=
    Track.wrapEdge ⟨displayArea_near.x0, displayArea_near.x1, hw⟩
  have hedgeY : wrap32 (visYFx - cfH d) = visYFx - cfH d :=
    Track.wrapEdge ⟨displayArea_near.y0, displayArea_near.y1, hh⟩
  have hfarX : wrap32 (x + cfW d) = x + cfW d :=
    wrap32_of_fits ((hx.add (l := 65536) ⟨by omega, hw.2⟩).fits (by decide))
  have hfarY : wrap32 (y + cfH d) = y + cfH d :=
    wrap32_of_fits ((hy.add (l := 65536) ⟨by omega, hh.2⟩).fits (by decide))
  unfold placeCursor
  rw [hedgeX, hedgeY, hfarX, hfarY, Bounds.holds_of_text (cursorMoved_text _)]
  constructor
  · show Inside 0 fxOne (cfW d) _
    unfold Inside
    dsimp only
    split_ifs <;> omega
  · show Inside 0 visYFx (cfH d) _
    unfold Inside
    dsimp only
    split_ifs <;> omega

/-! ### Streams of text -/

/-- Characters, cursor controls and cursor addresses. -/
def flowCall : Call → Bool
  | .countByte | .skipped | .char _ | .space | .bs | .advance | .lf | .rlf | .cr | .home
  | .clearScreen | .apsAddress _ _ => true
  | _ => false

theorem call_layout (arc : ArcPoints) {c : Call} (hc : flowCall c) :
    layout (call arc d c) = layout d := by
  cases c with
  | countByte | skipped => rfl
  | char ch => exact drawChar_layout d ch
  | space => exact spaceChar_layout d
  | bs => exact textBs_layout d
  | advance => exact textAdvanceCh_layout d 0x20 false
  | lf => exact textLf_layout d
  | rlf => exact textRlf_layout d
  | cr => exact textCr_layout d
  | home => exact textHome_layout d
  | clearScreen => exact textHome_layout _
  | apsAddress b0 b1 => exact placeCursor_layout d _ _ _ _
  | _ => cases hc

/-- An APB does not step over the far edge of the character path. -/
def StepsBack (d : Display) : Call → Prop
  | .bs => pathPos d - pathMove d + pathSize d ≤ displayArea.pathHi d
  | _ => True

instance (d : Display) (c : Call) : Decidable (StepsBack d c) := by
  unfold StepsBack
  split <;> infer_instance

theorem Plain.char (hp : Plain d) (h : displayArea.Holds d) (ch : Nat) :
    displayArea.Holds (drawChar d ch) := by
  unfold drawChar
  split_ifs
  · exact h
  · refine Plain.advance ?_ ?_ ch true
    · exact hp.congr rfl
    · exact h.congr rfl

theorem Plain.space (hp : Plain d) (h : displayArea.Holds d) : displayArea.Holds (spaceChar d) := by
  have hnote : Plain (noteSpace d) := hp.congr rfl
  have hholds : displayArea.Holds (noteSpace d) := h.congr rfl
  unfold spaceChar
  dsimp only
  split_ifs
  · exact hnote.char hholds 0x20
  · exact hnote.advance hholds 0x20 false

theorem apsAddress_within (b : Nat) {size : Int} (hsize : 0 ≤ size ∧ size ≤ 65536) :
    Within 8388608 (wrap32 (apsIndex b * size)) := by
  have hindex : Within 96 (apsIndex b) := by
    unfold apsIndex Within
    omega
  exact (hindex.mul (l := 65536) ⟨by omega, hsize.2⟩ (by decide)).wrap

/-- A call of the text flow keeps to the display area exactly where an APB does not step over the far
edge. -/
theorem Plain.call_iff (hp : Plain d) (h : displayArea.Holds d) (arc : ArcPoints) {c : Call}
    (hc : flowCall c) : displayArea.Holds (call arc d c) ↔ StepsBack d c := by
  cases c with
  | countByte | skipped => exact iff_of_true (h.congr rfl) trivial
  | char ch => exact iff_of_true (hp.char h ch) trivial
  | space => exact iff_of_true (hp.space h) trivial
  | bs => exact hp.bs_iff h
  | advance => exact iff_of_true (hp.advance h 0x20 false) trivial
  | lf => exact iff_of_true (hp.lf h) trivial
  | rlf => exact iff_of_true (hp.rlf h) trivial
  | cr => exact iff_of_true (hp.cr (Bounds.holds_iff.mp h).2) trivial
  | home => exact iff_of_true hp.home trivial
  | clearScreen =>
      have hcleared : Plain { d with surf := surfaceClear d.surf (clearAddr d) } := hp.congr rfl
      exact iff_of_true (hcleared.home.congr rfl) trivial
  | apsAddress b0 b1 =>
      refine iff_of_true ?_ trivial
      refine hp.place (apsAddress_within b1 hp.flows.cfW) (apsAddress_within b0 hp.flows.cfH) ?_ ?_
      · intro hzero
        simp [hzero, wrap32]
      · intro hzero
        simp [hzero, wrap32]
  | _ => cases hc

end

/-- From the home position a stream of text keeps the character field on the display, call by call, as
long as no APB steps over the far edge of the character path. -/
theorem cursor_contained_iff (arc : ArcPoints) (es : List Event) (buf : List UInt8) {d : Decoder}
    (hd : d = run (step arc) create es)
    (hhome : d.disp.text.cx = 0 ∧ d.disp.text.cy = visYFx - cfH d.disp)
    (hsize : cfW d.disp ≤ fxOne ∧ cfH d.disp ≤ visYFx) (hset : d.disp.af.set = false)
    (hfixed : d.disp.text.propSpacing = false)
    (hflow : ∀ c ∈ streamCalls arc d buf, flowCall c) :
    (∀ cs, cs <+: streamCalls arc d buf → displayArea.Holds (run (call arc) d.disp cs)) ↔
      Guarded (call arc) StepsBack d.disp (streamCalls arc d buf) := by
  have hplain : Plain d.disp := ⟨hd ▸ reachable_flows arc es, hfixed, hset, hsize.1, hsize.2⟩
  have hstart : displayArea.Holds d.disp := by
    have hh := hplain.flows.cfH
    rw [Bounds.Holds, hhome.1, hhome.2]
    exact ⟨⟨le_refl _, (zero_add _).trans_le hsize.1⟩, inside_far rfl hsize.2⟩
  refine safe_iff_guarded_of (I := fun d => Plain d ∧ displayArea.Holds d) (K := fun c => flowCall c)
    ?_ (fun _ h => h.2) ?_ ⟨hplain, hstart⟩ hflow
  · rintro d c hc ⟨hp, h⟩ hguard
    exact ⟨hp.congr (call_layout arc hc), (hp.call_iff h arc hc).mpr hguard⟩
  · rintro d c hc ⟨hp, h⟩ hno hin
    exact hno ((hp.call_iff h arc hc).mp hin)

/-- TEXT with the path to the left, and HOME. -/
def leftward : List UInt8 := [0x0E, 0x22, 0x44, 0x0F, 0x1E]

/-- APR, a character and APB: the step back ends on the first character position. -/
theorem cursor_contained_leftward :
    Guarded (call noArc) StepsBack (run (step noArc) create [.feed leftward]).disp
        (streamCalls noArc (run (step noArc) create [.feed leftward]) [0x0D, 0x41, 0x08]) ∧
      ∀ cs, cs <+: streamCalls noArc (run (step noArc) create [.feed leftward]) [0x0D, 0x41, 0x08] →
        displayArea.Holds (run (call noArc) (run (step noArc) create [.feed leftward]).disp cs) := by
  have hguard : Guarded (call noArc) StepsBack (run (step noArc) create [.feed leftward]).disp
      (streamCalls noArc (run (step noArc) create [.feed leftward]) [0x0D, 0x41, 0x08]) := by
    decide
  refine ⟨hguard, (cursor_contained_iff noArc [.feed leftward] [0x0D, 0x41, 0x08] rfl ?_ ?_ ?_ ?_
    ?_).mpr hguard⟩
  all_goals decide

/-- APR and APB: the step back carries the character field off the right edge. -/
theorem cursor_contained_overstep :
    ¬∀ (arc : ArcPoints) (es : List Event) (buf : List UInt8) (d : Decoder),
      d = run (step arc) create es →
      d.disp.text.cx = 0 ∧ d.disp.text.cy = visYFx - cfH d.disp →
      cfW d.disp ≤ fxOne ∧ cfH d.disp ≤ visYFx → d.disp.af.set = false →
      d.disp.text.propSpacing = false → (∀ c ∈ streamCalls arc d buf, flowCall c) →
      ∀ cs, cs <+: streamCalls arc d buf → displayArea.Holds (run (call arc) d.disp cs) := by
  intro hall
  have hout := hall noArc [.feed leftward] [0x0D, 0x08] _ rfl (by decide) (by decide)
    (by decide) (by decide) (by decide) _ (List.prefix_refl _)
  revert hout
  decide

end UnicornSuite.Naplps
