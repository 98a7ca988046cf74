import UnicornSuite.NaplpsCursor

/-! Text in columns. While the character field lies in the active field, line feeds and automatic returns
are meant to turn at its edges. The advance takes the bounds after the movement, when a step over the edge
has already left the field, so that text runs on to the edge of the display (`columns_iff`). -/

namespace UnicornSuite.Naplps

open CInt Machine

/-- The rectangle of the active field. -/
def fieldArea (d : Display) : Bounds := ⟨d.af.x, d.af.y, d.af.x + d.af.w, d.af.y + d.af.h⟩

/-- The character field lies in the active field. -/
def InField (d : Display) : Prop := (fieldArea d).Holds d

instance (d : Display) : Decidable (InField d) := inferInstanceAs (Decidable (Bounds.Holds _ _))

/-- Fixed spacing and an active field away from the ends of the coordinate range. -/
structure Fielded (d : Display) : Prop where
  flows : Flows d
  fixed : d.text.propSpacing = false
  set : d.af.set = true
  x : Within (maxInt32 - headroom) d.af.x
  y : Within (maxInt32 - headroom) d.af.y

/-- Where the cursor goes along the path after a character: one step on, back to the start of the line
where the step would leave the field. -/
def columnPos (d : Display) : Int :=
  if (fieldArea d).Along d (pathPos d + pathMove d) then pathPos d + pathMove d
  else (fieldArea d).lineStart d

/-- The step stays in the field, or it leaves the display area as well and the lines of the display
start where those of the field do. -/
def KeepsColumn (d : Display) : Prop :=
  (fieldArea d).Along d (pathPos d + pathMove d) ∨
    ¬displayArea.Along d (pathPos d + pathMove d) ∧
      displayArea.lineStart d = (fieldArea d).lineStart d

instance (d : Display) : Decidable (KeepsColumn d) := inferInstanceAs (Decidable (_ ∨ _))

section

variable {d e : Display}

theorem fieldArea_of_layout (h : layout e = layout d) : fieldArea e = fieldArea d := by
  rw [fieldArea, fieldArea, af_of_layout h]

theorem Fielded.congr (hp : Fielded d) (h : layout e = layout d) : Fielded e where
  flows := hp.flows.congr h
  fixed := (prop_of_layout h).trans hp.fixed
  set := (congrArg ActiveField.set (af_of_layout h)).trans hp.set
  x := (congrArg ActiveField.x (af_of_layout h)).symm ▸ hp.x
  y := (congrArg ActiveField.y (af_of_layout h)).symm ▸ hp.y

theorem fieldArea_near (hf : Flows d) (hx : Within (maxInt32 - headroom) d.af.x)
    (hy : Within (maxInt32 - headroom) d.af.y) : (fieldArea d).Near edgeLimit where
  x0 := hx.mono (by decide)
  y0 := hy.mono (by decide)
  x1 := hx.add hf.sizes.w
  y1 := hy.add hf.sizes.h

theorem Fielded.near (hp : Fielded d) : (fieldArea d).Near edgeLimit := fieldArea_near hp.flows hp.x hp.y

/-- The cursor is near enough for the bounds to be computed without overflow. -/
def Reached (d : Display) : Prop :=
  Within (edgeLimit + 1048576) d.text.cx ∧ Within (edgeLimit + 1048576) d.text.cy

theorem textBounds_of_reached (hf : Flows d) (hn : (fieldArea d).Near edgeLimit) (hreach : Reached d) :
    textBounds d = if d.af.set = true ∧ InField d then fieldArea d else displayArea := by
  have hedgeX : wrap32 (d.af.x + d.af.w) = d.af.x + d.af.w :=
    wrap32_of_fits (hn.x1.fits (by decide))
  have hedgeY : wrap32 (d.af.y + d.af.h) = d.af.y + d.af.h :=
    wrap32_of_fits (hn.y1.fits (by decide))
  have hfarX : wrap32 (d.text.cx + cfW d) = d.text.cx + cfW d :=
    wrap32_of_fits ((hreach.1.add hf.sizes.cfW).fits (by decide))
  have hfarY : wrap32 (d.text.cy + cfH d) = d.text.cy + cfH d :=
    wrap32_of_fits ((hreach.2.add hf.sizes.cfH).fits (by decide))
  have hin : InField d ↔ d.text.cx ≥ d.af.x ∧ d.text.cx + cfW d ≤ d.af.x + d.af.w ∧
      d.text.cy ≥ d.af.y ∧ d.text.cy + cfH d ≤ d.af.y + d.af.h :=
    ⟨fun h => ⟨h.x.1, h.x.2, h.y.1, h.y.2⟩, fun h => ⟨⟨h.1, h.2.1⟩, h.2.2.1, h.2.2.2⟩⟩
  unfold Naplps.textBounds
  simp only [hedgeX, hedgeY, hfarX, hfarY, ← hin]
  rfl

theorem Fielded.textBounds (hp : Fielded d) (hreach : Reached d) :
    textBounds d = if InField d then fieldArea d else displayArea := by
  rw [textBounds_of_reached hp.flows hp.near hreach]
  simp only [hp.set, true_and]

theorem Fielded.reached (hp : Fielded d) (hpos : Within (edgeLimit + 1048576) (pathPos d))
    (hacross : (fieldArea d).Across d) : Reached d := by
  unfold pathPos at hpos
  unfold Bounds.Across at hacross
  split_ifs at hpos hacross with hpath
  · exact ⟨hpos, ((hp.near.trackY hp.flows).pos hacross).mono (by decide)⟩
  · exact ⟨((hp.near.trackX hp.flows).pos hacross).mono (by decide), hpos⟩

theorem inField_iff : InField d ↔ (fieldArea d).Along d (pathPos d) ∧ (fieldArea d).Across d :=
  Bounds.holds_iff

/-- The state after the step along the path, before the automatic return. -/
structure Stepped (d : Display) (ch : Nat) (haveCh : Bool) : Prop where
  pos : pathPos (pathStep d ch haveCh) = pathPos d + pathMove d
  across : (fieldArea d).Across (pathStep d ch haveCh)
  /-- The bounds are taken after the step: the field has them only if the step ends in it. -/
  bounds : textBounds (pathStep d ch haveCh) =
    if (fieldArea d).Along d (pathPos d + pathMove d) then fieldArea d else displayArea
  leaves : leavesBounds (pathStep d ch haveCh) ch haveCh = true ↔
    ¬(fieldArea d).Along d (pathPos d + pathMove d) ∧
      ¬displayArea.Along d (pathPos d + pathMove d)

theorem Fielded.stepped (hp : Fielded d) (h : InField d) (ch : Nat) (haveCh : Bool) :
    Stepped d ch haveCh := by
  have hlayout := pathStep_layout d ch haveCh
  have hstep := hp.congr hlayout
  have hexact := Bounds.Holds.exact hp.flows hp.near hp.fixed h (Or.inl rfl)
  have hpos : pathPos (pathStep d ch haveCh) = pathPos d + pathMove d :=
    (pathStep_pathPos hp.fixed ch haveCh).trans hexact.1
  have hacross := (inField_iff.mp h).2.pathStep hp.flows hp.near ch haveCh
  have hwithin : Within (edgeLimit + 1048576) (pathPos d + pathMove d) :=
    (((hp.near.trackPath hp.flows).pos (inField_iff.mp h).1).add (hp.flows.pathMove hp.fixed)).mono
      (by decide)
  have hin : InField (pathStep d ch haveCh) ↔ (fieldArea d).Along d (pathPos d + pathMove d) := by
    rw [inField_iff, fieldArea_of_layout hlayout, and_iff_left hacross,
      Bounds.along_of_layout hlayout, hpos]
  have hbounds : Naplps.textBounds (pathStep d ch haveCh) =
      if (fieldArea d).Along d (pathPos d + pathMove d) then fieldArea d else displayArea := by
    have hreached : Reached (pathStep d ch haveCh) :=
      hstep.reached (hpos ▸ hwithin) (fieldArea_of_layout hlayout ▸ hacross)
    rw [hstep.textBounds hreached, fieldArea_of_layout hlayout]
    simp only [hin]
  have hleaves := leavesBounds_iff (d := pathStep d ch haveCh) hstep.fixed
    (by rw [hpos]; exact hexact.2) ch haveCh
  refine ⟨hpos, hacross, hbounds, hleaves.trans ?_⟩
  rw [hbounds, hpos, Bounds.along_of_layout hlayout]
  split_ifs with halong <;> simp [halong]

/-- Where the step does not leave the bounds, text goes on there. -/
theorem Fielded.stays (hp : Fielded d) (h : InField d) (ch : Nat) (haveCh : Bool)
    (hstays : ¬leavesBounds (pathStep d ch haveCh) ch haveCh = true) :
    pathPos (textAdvanceCh d ch haveCh) = pathPos d + pathMove d ∧
      (InField (textAdvanceCh d ch haveCh) ↔ (fieldArea d).Along d (pathPos d + pathMove d)) := by
  obtain ⟨hpos, hacross, -, -⟩ := hp.stepped h ch haveCh
  have htext : (textAdvanceCh d ch haveCh).text = (pathStep d ch haveCh).text := by
    rw [textAdvanceCh_text, if_neg hstays]
  constructor
  · rw [← hpos, pathPos, htext]
    rfl
  · rw [InField, fieldArea_of_layout (textAdvanceCh_layout d ch haveCh), Bounds.holds_of_text htext,
      Bounds.holds_iff, and_iff_left hacross, Bounds.along_of_layout (pathStep_layout d ch haveCh), hpos]

/-- Where it leaves them, text goes to the first position of a line of the display, and on to the next
line of the field if that position lies in it. -/
theorem Fielded.wraps (hp : Fielded d) (h : InField d) (ch : Nat) (haveCh : Bool)
    (hleaves : leavesBounds (pathStep d ch haveCh) ch haveCh = true) :
    pathPos (textAdvanceCh d ch haveCh) = displayArea.lineStart d ∧
      ((fieldArea d).Along d (displayArea.lineStart d) → InField (textAdvanceCh d ch haveCh)) := by
  obtain ⟨-, hacross, hbounds, hiff⟩ := hp.stepped h ch haveCh
  have hout := hiff.mp hleaves
  rw [if_neg hout.1] at hbounds
  have hstep := hp.congr (pathStep_layout d ch haveCh)
  have hlayout : layout (textCr (pathStep d ch haveCh)) = layout d :=
    (textCr_layout _).trans (pathStep_layout d ch haveCh)
  have hreturned := hp.congr hlayout
  have hpos : pathPos (textCr (pathStep d ch haveCh)) = displayArea.lineStart d := by
    rw [textCr_pathPos hstep.flows (hbounds ▸ displayArea_near), hbounds,
      Bounds.lineStart_of_layout (pathStep_layout d ch haveCh)]
  have htext : (textAdvanceCh d ch haveCh).text = (textLf (textCr (pathStep d ch haveCh))).text := by
    rw [textAdvanceCh_text, if_pos hleaves]
  constructor
  · rw [← hpos, ← textLf_pathPos (textCr _), pathPos, htext]
    rfl
  · intro halong
    have hin : InField (textCr (pathStep d ch haveCh)) := by
      rw [inField_iff, fieldArea_of_layout hlayout, hpos, Bounds.along_of_layout hlayout]
      exact ⟨halong, hacross.textCr⟩
    have hreached : Reached (textCr (pathStep d ch haveCh)) :=
      hreturned.reached (((hreturned.near.trackPath hreturned.flows).pos (inField_iff.mp hin).1).mono
        (by decide)) (inField_iff.mp hin).2
    have hfield := (hreturned.textBounds hreached).trans (if_pos hin)
    rw [InField, fieldArea_of_layout (textAdvanceCh_layout d ch haveCh), Bounds.holds_of_text htext,
      ← fieldArea_of_layout hlayout]
    exact Bounds.Holds.textLf hreturned.flows hreturned.near hfield hin

/-- An advance turns at the edge of the field exactly where its step keeps the column. -/
theorem Fielded.turns_iff (hp : Fielded d) (h : InField d) (ch : Nat) (haveCh : Bool) :
    (InField (textAdvanceCh d ch haveCh) ∧ pathPos (textAdvanceCh d ch haveCh) = columnPos d) ↔
      KeepsColumn d := by
  have hiff := (hp.stepped h ch haveCh).leaves
  have hstart : (fieldArea d).Along d ((fieldArea d).lineStart d) := by
    refine Bounds.along_lineStart ?_
    have halong := (inField_iff.mp h).1
    unfold Bounds.Along Inside at halong
    omega
  unfold columnPos KeepsColumn
  by_cases halong : (fieldArea d).Along d (pathPos d + pathMove d)
  · obtain ⟨hpos, hin⟩ := hp.stays h ch haveCh fun hleaves =>
      (hiff.mp hleaves).1 halong
    rw [if_pos halong]
    exact iff_of_true ⟨hin.mpr halong, hpos⟩ (Or.inl halong)
  · rw [if_neg halong, or_iff_right halong]
    by_cases hshown : displayArea.Along d (pathPos d + pathMove d)
    · obtain ⟨hpos, hin⟩ := hp.stays h ch haveCh fun hleaves =>
        (hiff.mp hleaves).2 hshown
      exact iff_of_false (fun hturn => halong (hin.mp hturn.1)) fun hkeep => hkeep.1 hshown
    · obtain ⟨hpos, hin⟩ := hp.wraps h ch haveCh (hiff.mpr ⟨halong, hshown⟩)
      rw [hpos]
      exact ⟨fun hturn => ⟨hshown, hturn.2⟩, fun hkeep => ⟨hin (hkeep.2 ▸ hstart), hkeep.2⟩⟩

/-! ### Printed text -/

/-- Characters and spaces. -/
def printCall : Call → Bool
  | .countByte | .skipped | .char _ | .space => true
  | _ => false

/-- The calls that move the cursor: of the characters, those that have a glyph. -/
def movesOn : Call → Bool
  | .char ch => glyphFirst ≤ ch ∧ ch < glyphFirst + glyphCount
  | .space => true
  | _ => false

/-- A character that moves the cursor takes it to the next position of the column. -/
def Turns (arc : ArcPoints) (d : Display) (c : Call) : Prop :=
  movesOn c → pathPos (call arc d c) = columnPos d

instance (arc : ArcPoints) (d : Display) (c : Call) : Decidable (Turns arc d c) :=
  inferInstanceAs (Decidable (_ → _))

/-- Every step of the text keeps to the column. -/
def InColumn (d : Display) (c : Call) : Prop := movesOn c → KeepsColumn d

instance (d : Display) (c : Call) : Decidable (InColumn d c) :=
  inferInstanceAs (Decidable (_ → _))

theorem printCall_layout (arc : ArcPoints) {c : Call} (hc : printCall c) :
    layout (call arc d c) = layout d := by
  refine call_layout arc ?_
  cases c with
  | countByte | skipped | char ch | space => rfl
  | _ => cases hc

theorem Fielded.char_turns_iff (hp : Fielded d) (h : InField d) {ch : Nat}
    (hch : glyphFirst ≤ ch ∧ ch < glyphFirst + glyphCount) :
    (InField (drawChar d ch) ∧ pathPos (drawChar d ch) = columnPos d) ↔ KeepsColumn d := by
  unfold drawChar
  rw [if_neg (by omega)]
  refine Fielded.turns_iff (d := { markDrew { d with
    surf := paintChar d ch, st.charsDrawn := d.st.charsDrawn + 1 } with
    text.lastSpacingChar := ch, text.haveLastSpacing := true }) ?_ ?_ ch true
  · exact hp.congr rfl
  · exact h.congr rfl

theorem Fielded.space_turns_iff (hp : Fielded d) (h : InField d) :
    (InField (spaceChar d) ∧ pathPos (spaceChar d) = columnPos d) ↔ KeepsColumn d := by
  have hnote : Fielded (noteSpace d) := hp.congr rfl
  have hin : InField (noteSpace d) := h.congr rfl
  unfold spaceChar
  dsimp only
  split_ifs
  · exact hnote.char_turns_iff hin (by decide)
  · exact hnote.turns_iff hin 0x20 false

theorem Fielded.call_iff (hp : Fielded d) (h : InField d) (arc : ArcPoints) {c : Call}
    (hc : printCall c) : (InField (call arc d c) ∧ Turns arc d c) ↔ InColumn d c := by
  cases c with
  | countByte | skipped => exact iff_of_true ⟨h.congr rfl, nofun⟩ nofun
  | space =>
      refine Iff.trans ?_ ((hp.space_turns_iff h).trans ?_)
      · exact and_congr_right fun _ => ⟨fun hturn => hturn rfl, fun hpos _ => hpos⟩
      · exact ⟨fun hkeep _ => hkeep, fun hin => hin rfl⟩
  | char ch =>
      by_cases hch : glyphFirst ≤ ch ∧ ch < glyphFirst + glyphCount
      · have hmoves : movesOn (.char ch) = true := by simp [movesOn, hch]
        refine Iff.trans ?_ ((hp.char_turns_iff h hch).trans ?_)
        · exact and_congr_right fun _ => ⟨fun hturn => hturn hmoves, fun hpos _ => hpos⟩
        · exact ⟨fun hkeep _ => hkeep, fun hin => hin hmoves⟩
      · -- No glyph: the call does nothing.
        have hrests : ¬movesOn (.char ch) = true := by simp [movesOn, hch]
        have hdraw : drawChar d ch = d := by
          unfold drawChar
          rw [if_pos (by omega)]
        refine iff_of_true ⟨?_, fun hmoves => absurd hmoves hrests⟩ fun hmoves => absurd hmoves hrests
        rwa [call, hdraw]
  | _ => cases hc

end

/-- From a position in the active field text stays in the field and turns at its edges, character by
character, exactly as long as every step keeps to the column. -/
theorem columns_iff (arc : ArcPoints) (es : List Event) (buf : List UInt8) {d : Decoder}
    (hd : d = run (step arc) create es) (hset : d.disp.af.set = true) (hin : InField d.disp)
    (hfixed : d.disp.text.propSpacing = false)
    (hroomy : Within (maxInt32 - headroom) d.disp.af.x ∧ Within (maxInt32 - headroom) d.disp.af.y)
    (hprint : ∀ c ∈ streamCalls arc d buf, printCall c) :
    ((∀ cs, cs <+: streamCalls arc d buf → InField (run (call arc) d.disp cs)) ∧
        Guarded (call arc) (Turns arc) d.disp (streamCalls arc d buf)) ↔
      Guarded (call arc) InColumn d.disp (streamCalls arc d buf) := by
  have hfielded : Fielded d.disp := ⟨hd ▸ reachable_flows arc es, hfixed, hset, hroomy.1, hroomy.2⟩
  have hcall {d : Display} {c : Call} (hc : printCall c) (h : Fielded d ∧ InField d)
      (hgood : InField (call arc d c)) : Fielded (call arc d c) ∧ InField (call arc d c) :=
    ⟨h.1.congr (printCall_layout arc hc), hgood⟩
  have hinside : (∀ cs, cs <+: streamCalls arc d buf → InField (run (call arc) d.disp cs)) ↔
      Guarded (call arc) (fun d c => InField (call arc d c)) d.disp (streamCalls arc d buf) :=
    safe_iff_guarded_of (I := fun d => Fielded d ∧ InField d) (K := fun c => printCall c)
      (fun _ _ => hcall) (fun _ h => h.2) (fun _ _ _ _ hno => hno) ⟨hfielded, hin⟩ hprint
  rw [hinside, ← guarded_and]
  refine (guarded_and_iff hprint).symm.trans (Iff.trans ?_ (guarded_and_iff hprint))
  refine guarded_congr (I := fun d => Fielded d ∧ InField d) ?_ ?_ ⟨hfielded, hin⟩ _
  · exact fun d c h hgood => hcall hgood.1 h hgood.2.1
  · exact fun d c h => and_congr_right fun hc => h.1.call_iff h.2 arc hc

/-- FIELD: five characters wide, in the middle of the display. The cursor goes to its lower left. -/
def narrowField : List UInt8 := [0x0E, 0x38, 0x49, 0x40, 0x40, 0x41, 0x60, 0x40, 0x0F]

/-- Three characters and a space of a line of five. -/
theorem columns_narrow :
    (∀ cs, cs <+: streamCalls noArc (run (step noArc) create [.feed narrowField]) [0x41, 0x42, 0x20, 0x43] →
        InField (run (call noArc) (run (step noArc) create [.feed narrowField]).disp cs)) ∧
      Guarded (call noArc) (Turns noArc) (run (step noArc) create [.feed narrowField]).disp
        (streamCalls noArc (run (step noArc) create [.feed narrowField]) [0x41, 0x42, 0x20, 0x43]) := by
  refine (columns_iff noArc [.feed narrowField] [0x41, 0x42, 0x20, 0x43] rfl ?_ ?_ ?_ ?_ ?_).mpr ?_
  all_goals decide

/-- The fifth character of the line takes the cursor out of the field, and text goes on there. -/
theorem columns_overrun :
    ¬∀ (arc : ArcPoints) (es : List Event) (buf : List UInt8) (d : Decoder),
      d = run (step arc) create es → d.disp.af.set = true → InField d.disp →
      d.disp.text.propSpacing = false →
      Within (maxInt32 - headroom) d.disp.af.x ∧ Within (maxInt32 - headroom) d.disp.af.y →
      (∀ c ∈ streamCalls arc d buf, printCall c) →
      ∀ cs, cs <+: streamCalls arc d buf → InField (run (call arc) d.disp cs) := by
  intro hall
  have hout := hall noArc [.feed narrowField] (List.replicate 5 0x41) _ rfl (by decide)
    (by decide) (by decide) (by decide) (by decide) _
    (List.prefix_refl _)
  revert hout
  decide

end UnicornSuite.Naplps
