import UnicornSuite.RipParser

/-! Viewport safety of the RIPscrip renderer. Every command keeps the surface in order, except a
RIP_VIEWPORT whose corners both lie beyond the right or the lower edge: the corner next to the origin
is not clamped to the screen. -/

namespace UnicornSuite.Rip

variable (T : Tables) {p : RipParser}

theorem addRegion_surf (p : RipParser) (b : Button) : (addRegion p b).surf = p.surf := by
  simp only [addRegion]
  split <;> rfl

/-- What drawing keeps, and every other command but a viewport that does not fit. -/
structure Kept (Q : RipEga → Prop) (Fit : Command → Prop) : Prop where
  paint : ∀ {s s' : RipEga}, Q s → Paints s s' → Q s'
  reset : ∀ {s : RipEga}, Q s → Q (reset s)
  erase : ∀ {s : RipEga}, Q s → Q (eraseView s)
  viewport : ∀ {s : RipEga} {level : List Nat} {a : List Int} {pts : List (Int × Int)} {text : List Nat},
    Q s → (∀ v ∈ a, 0 ≤ v) → 4 ≤ a.length → Fit (.exec level 0x76 a pts text) →
      Q (setViewport s (arg a 0) (arg a 1) (arg a 2) (arg a 3))
  look : ∀ {s : RipEga} (pal16 : Nat → Nat) (mode : WriteMode), Q s →
    Q { s with pal16 := pal16, writeMode := mode }

section Kept

variable {Q : RipEga → Prop} {Fit : Command → Prop} (hQ : Kept Q Fit)

include hQ in
theorem onSurf_kept (h : Q p.surf) {f : RipEga → RipEga} (hf : ∀ s, Paints s (f s)) :
    Q (onSurf p f).surf := hQ.paint h (hf p.surf)

include hQ in
theorem drawCurve_kept (h : Q p.surf) {f : RipEga → RipEga} (hf : ∀ s, Paints s (f s)) :
    Q (drawCurve p f).1.surf := hQ.paint h (hf p.surf)

theorem needs_kept (h : Q p.surf) {n : Nat} {a : List Int} {run : RipParser × Bool}
    (hrun : n ≤ a.length → Q run.1.surf) : Q (needs n a p run).1.surf := by
  rw [needs]
  split
  · exact h
  · exact hrun (by omega)

theorem needsPoints_kept (h : Q p.surf) {pts : List (Int × Int)} {run : RipParser × Bool}
    (hrun : Q run.1.surf) : Q (needsPoints pts p run).1.surf := by
  rw [needsPoints]
  split
  · exact h
  · exact hrun

/-! ### Commands -/

include hQ in
theorem execButton_kept (h : Q p.surf) (a : List Int) (text : List Nat) :
    Q (execButton T p a text).1.surf := by
  simp only [execButton, onStats, addRegion_surf]
  exact hQ.paint h (buttonDraw_paints T.fonts _ _ _ _ _ _ _)

include hQ in
theorem execLevel1_kept (h : Q p.surf) (cmd : Nat) (a : List Int) (text : List Nat) :
    Q (execLevel1 T p cmd a text).1.surf := by
  unfold execLevel1
  split
  · exact needs_kept h fun _ => h
  · exact needs_kept h fun _ => execButton_kept T hQ h a text
  · refine needs_kept h fun _ => ?_
    simp only [onStats, execMouse, addRegion_surf]
    exact h
  · exact h
  · exact h

include hQ in
theorem execText_kept (h : Q p.surf) (text : List Nat) : Q (execText T p text).1.surf :=
  hQ.paint h (textDraw_paints T.fonts _ _ _ _ _ _ _ _)

theorem fillStyle_surf (p : RipParser) (a : List Int) : (fillStyle p a).surf = p.surf := by
  simp only [fillStyle]
  split <;> rfl

theorem lineStyleCmd_surf (p : RipParser) (a : List Int) : (lineStyleCmd p a).surf = p.surf := by
  simp only [lineStyleCmd]
  split <;> rfl

include hQ in
theorem setOnePalette_kept {s : RipEga} (h : Q s) (color master : Int) :
    Q (setOnePalette s color master) := by
  rw [setOnePalette]
  split
  · exact h
  · exact hQ.look _ s.writeMode h

theorem arg_nonneg {a : List Int} (ha : ∀ v ∈ a, 0 ≤ v) (i : Nat) : 0 ≤ arg a i := by
  rw [arg, List.getD_eq_getElem?_getD]
  cases hget : a[i]? with
  | none => exact Int.le_refl 0
  | some v => exact ha v (List.mem_of_getElem? hget)

include hQ in
theorem execLevel0_kept (h : Q p.surf) {level : List Nat} {cmd : Nat} {a : List Int}
    {pts : List (Int × Int)} {text : List Nat} (hnonneg : ∀ v ∈ a, 0 ≤ v)
    (hfits : Fit (.exec level cmd a pts text)) : Q (execLevel0 T p cmd a pts text).1.surf := by
  unfold execLevel0
  split
  · exact hQ.reset h
  · exact hQ.erase h
  · exact needs_kept h fun hlen => hQ.viewport h hnonneg hlen hfits
  · exact needs_kept h fun _ => hQ.look p.surf.pal16 _ h
  · exact needs_kept h fun _ => h
  · exact needs_kept h fun _ => by rw [fillStyle_surf]; exact h
  · exact needs_kept h fun _ => by rw [lineStyleCmd_surf]; exact h
  · exact needs_kept h fun _ => hQ.look _ p.surf.writeMode h
  · exact needs_kept h fun _ => setOnePalette_kept hQ h _ _
  · exact needs_kept h fun _ => onSurf_kept hQ h fun s => pixel_paints s _ _ _
  · exact needs_kept h fun _ => onSurf_kept hQ h fun s => line_paints s _ _ _ _ _ _
  · exact needs_kept h fun _ => onSurf_kept hQ h fun s => rect_paints s _ _ _ _ _ _
  · exact needs_kept h fun _ => onSurf_kept hQ h fun s => bar_paints s _ _ _ _ _ _
  · exact needsPoints_kept h (onSurf_kept hQ h fun s => polygon_paints s _ _ _)
  · exact needsPoints_kept h (onSurf_kept hQ h fun s =>
      (fillPolygon_paints s _ _ _).trans (polygon_paints _ _ _ _))
  · exact needsPoints_kept h (onSurf_kept hQ h fun s => polyline_paints s _ _ _)
  · exact needs_kept h fun _ => h
  · exact execText_kept T hQ h text
  · exact needs_kept h fun _ => execText_kept T hQ (p := moveTo p (arg a 0) (arg a 1)) h text
  · exact needs_kept h fun _ => h
  · exact needs_kept h fun _ => drawCurve_kept hQ h fun s => arc_paints T.curves s _ _ _ _ _ _ _ _
  · exact needs_kept h fun _ => drawCurve_kept hQ h fun s => arc_paints T.curves s _ _ _ _ _ _ _ _
  · exact needs_kept h fun _ => drawCurve_kept hQ h fun s =>
      (fillEllipse_paints T.curves s _ _ _ _ _ _).trans (arc_paints T.curves _ _ _ _ _ _ _ _ _)
  · exact needs_kept h fun _ => drawCurve_kept hQ h fun s => arc_paints T.curves s _ _ _ _ _ _ _ _
  · exact needs_kept h fun _ => drawCurve_kept hQ h fun s => arc_paints T.curves s _ _ _ _ _ _ _ _
  · exact needs_kept h fun _ => drawCurve_kept hQ h fun s => pie_paints T.curves s _ _ _ _ _ _ _ _ _ _
  · exact needs_kept h fun _ => drawCurve_kept hQ h fun s => pie_paints T.curves s _ _ _ _ _ _ _ _ _ _
  all_goals exact h

/-! ### The arguments of a command -/

theorem readNum_nonneg {width : Nat} {rest : List Nat} {v : Int}
    (hv : readNum width rest = some v) : 0 ≤ v := by
  simp only [readNum] at hv
  split_ifs at hv with hshort hneg
  · obtain rfl := Option.some.inj hv
    omega

theorem readPoints_a (n : Nat) (st : Args) : (readPoints n st).a = st.a := by
  induction n generalizing st with
  | zero => rfl
  | succ n ih =>
      rw [readPoints]
      split
      · rfl
      · split
        · rfl
        · exact ih _

theorem readPoly_a (st : Args) : (readPoly st).a = st.a := by
  rw [readPoly]
  split
  · rfl
  · next v _ =>
      extract_lets n st'
      by_cases hshort : st'.rest.length < n * 4
      · rw [if_pos hshort]
      · rw [if_neg hshort]
        exact readPoints_a _ _

/-- A MegaNum that is read is not negative. -/
theorem readArgs_nonneg (layout : List Arg) {st : Args} (hst : ∀ v ∈ st.a, 0 ≤ v) :
    ∀ v ∈ (readArgs layout st).a, 0 ≤ v := by
  induction layout generalizing st with
  | nil => exact hst
  | cons arg more ih =>
      cases arg with
      | num width =>
          rw [readArgs]
          split
          · exact hst
          · next v hv =>
              refine ih fun w hw => ?_
              rcases List.mem_append.mp hw with hw | hw
              · exact hst w hw
              · rw [List.mem_singleton.mp hw]
                exact readNum_nonneg hv
      | poly =>
          rw [readArgs, readPoly_a]
          exact hst
      | text => exact hst

/-- What the parser hands on to execution. -/
def Command.Parsed : Command → Prop
  | .exec _ _ a _ _ => ∀ v ∈ a, 0 ≤ v
  | _ => True

theorem finishCommand_parsed (level : List Nat) (cmd : Nat) {st : Args}
    (hst : ∀ v ∈ st.a, 0 ≤ v) : (finishCommand level cmd st).1.Parsed := by
  rw [finishCommand]
  split
  · trivial
  · exact hst

theorem lineCommands_parsed (n : Nat) (body : List Nat) :
    ∀ c ∈ lineCommands n body, c.Parsed := by
  induction n generalizing body with
  | zero => simp [lineCommands]
  | succ n ih =>
      cases body with
      | nil => simp [lineCommands]
      | cons b rest =>
          rw [lineCommands]
          split_ifs
          · exact ih rest
          · nofun
          · extract_lets level
            split
            · simp [Command.Parsed]
            · split
              · exact List.forall_mem_cons.mpr ⟨trivial, ih _⟩
              · exact List.forall_mem_cons.mpr
                  ⟨finishCommand_parsed _ _ (readArgs_nonneg _ nofun), ih _⟩

theorem commandsOf_parsed (line : List Nat) : ∀ c ∈ commandsOf line, c.Parsed := by
  rw [commandsOf]
  split
  · exact lineCommands_parsed _ _
  · nofun

/-! ### Lines and bytes -/

include hQ in
theorem runCommand_kept (h : Q p.surf) {c : Command} (hparsed : c.Parsed) (hfits : Fit c) :
    Q (runCommand T p c).surf := by
  cases c with
  | truncated => exact h
  | unknown => exact h
  | malformed => exact h
  | exec level cmd a pts text =>
      have hcount : Q (onStats p countCommand).surf := h
      have hexec : Q (ripExec T (onStats p countCommand) level cmd a pts text).1.surf := by
        rw [ripExec]
        split_ifs with h1 h9
        · exact execLevel1_kept T hQ hcount cmd a text
        · exact hcount
        · exact execLevel0_kept T hQ hcount hparsed hfits
      simp only [runCommand]
      split
      · exact hexec
      · exact hexec

include hQ in
theorem runCommands_kept (h : Q p.surf) {cs : List Command} (hparsed : ∀ c ∈ cs, c.Parsed)
    (hfits : ∀ c ∈ cs, Fit c) : Q (cs.foldl (runCommand T) p).surf := by
  induction cs generalizing p with
  | nil => exact h
  | cons c cs ih =>
      rw [List.forall_mem_cons] at hparsed hfits
      exact ih (runCommand_kept T hQ h hparsed.1 hfits.1) hparsed.2 hfits.2

include hQ in
theorem handleLine_kept (h : Q p.surf) {line : List Nat} (hfits : ∀ c ∈ commandsOf line, Fit c) :
    Q (handleLine T p line).surf := by
  have hparsed := commandsOf_parsed line
  rw [handleLine]
  rw [commandsOf] at hfits hparsed
  split
  · next body hbody =>
      rw [hbody] at hfits hparsed
      exact runCommands_kept T hQ h hparsed hfits
  · split <;> exact h

/-- The line that a byte completes. -/
def completedLine (p : RipParser) (b : UInt8) : Option (List Nat) :=
  if b.toNat = 0x0D ∨ b.toNat = 0x0A then
    if b.toNat = 0x0A ∧ p.lastWasCr then none
    else if p.line = [] ∧ ¬p.continued then none
    else if trailingBackslashes p.line % 2 = 1 then none
    else some p.line
  else if p.line.length < 8191 then none
  else some p.line

/-- The commands that a byte sets off. -/
def commandsAt (p : RipParser) (b : UInt8) : List Command :=
  match completedLine p b with
  | some line => commandsOf line
  | none => []

theorem line_fits {b : UInt8} (hfits : ∀ c ∈ commandsAt p b, Fit c) {line : List Nat}
    (hline : completedLine p b = some line) : ∀ c ∈ commandsOf line, Fit c := by
  rw [commandsAt, hline] at hfits
  exact hfits

include hQ in
theorem endLine_kept (h : Q p.surf)
    (hfits : ¬(p.line = [] ∧ ¬p.continued) → ¬trailingBackslashes p.line % 2 = 1 →
      ∀ c ∈ commandsOf p.line, Fit c) : Q (endLine T p).surf := by
  rw [endLine]
  split_ifs with hempty hcont
  · exact h
  · exact h
  · exact handleLine_kept T hQ h (hfits hempty hcont)

include hQ in
theorem feedByte_kept (h : Q p.surf) {b : UInt8} (hfits : ∀ c ∈ commandsAt p b, Fit c) :
    Q (feedByte T p b).surf := by
  by_cases heol : b.toNat = 0x0D ∨ b.toNat = 0x0A
  · rw [feedByte, if_pos heol]
    by_cases hcrlf : b.toNat = 0x0A ∧ p.lastWasCr = true
    · rw [if_pos hcrlf]
      exact h
    · rw [if_neg hcrlf]
      refine endLine_kept T hQ (p := noteCr p b.toNat) h fun hempty hcont => ?_
      have hline : completedLine p b = some p.line := by
        rw [completedLine, if_pos heol, if_neg hcrlf]
        exact (if_neg hempty).trans (if_neg hcont)
      exact line_fits hfits hline
  · rw [feedByte, if_neg heol, putByte]
    by_cases hroom : p.line.length < 8191
    · rw [if_pos hroom]
      exact h
    · rw [if_neg hroom]
      have hline : completedLine p b = some p.line := by
        rw [completedLine, if_neg heol, if_neg hroom]
      exact handleLine_kept T hQ (p := { p with lastWasCr := false }) h (line_fits hfits hline)

end Kept

/-! ### The viewport -/

/-- The condition on a command: a viewport is all zero or has a corner on the screen. -/
def Command.Fits : Command → Prop
  | .exec _ cmd a _ _ =>
      cmd = 0x76 → 4 ≤ a.length → ViewFits (arg a 0) (arg a 1) (arg a 2) (arg a 3)
  | _ => True

instance : (c : Command) → Decidable c.Fits
  | .exec _ _ _ _ _ => inferInstanceAs (Decidable (_ → _ → ViewFits _ _ _ _))
  | .truncated | .unknown | .malformed => isTrue trivial

/-- No viewport command that the byte sets off lies beyond the screen with both of its corners. -/
def ByteFits (p : RipParser) (b : UInt8) : Prop := ∀ c ∈ commandsAt p b, c.Fits

instance (p : RipParser) (b : UInt8) : Decidable (ByteFits p b) :=
  inferInstanceAs (Decidable (∀ c ∈ commandsAt p b, c.Fits))

theorem ok_kept : Kept RipEga.Ok Command.Fits where
  paint h hp := h.paint hp
  reset h := reset_ok h.inside
  erase h := eraseView_ok h
  viewport h hnonneg hlen hfits := by
    have harg := arg_nonneg hnonneg
    exact (setViewport_ok_iff h.inside ⟨harg 0, harg 2⟩ ⟨harg 1, harg 3⟩).mpr (hfits rfl hlen)
  look _ _ h := ⟨⟨h.view.x, h.view.y⟩, h.inside⟩

/-- The parser when the first `k` commands that a byte sets off have been executed. -/
def afterCommands (p : RipParser) (b : UInt8) (k : Nat) : RipParser :=
  ((commandsAt p b).take k).foldl (runCommand T) (noteCr p b.toNat)

theorem afterCommands_ok (h : p.surf.Ok) {b : UInt8} (hfits : ByteFits p b) (k : Nat) :
    (afterCommands T p b k).surf.Ok := by
  refine runCommands_kept T ok_kept (p := noteCr p b.toNat) h (fun c hc => ?_)
    fun c hc => hfits c (List.mem_of_mem_take hc)
  have hmem := List.mem_of_mem_take hc
  rw [commandsAt] at hmem
  split at hmem
  · exact commandsOf_parsed _ c hmem
  · cases hmem

theorem init_ok (cells : Int → Int → Nat) : (init cells).surf.Ok := reset_ok rfl

/-- The condition on a chunk of the stream. -/
def ChunkFits (p : RipParser) (data : List UInt8) : Prop :=
  Machine.Guarded (feedByte T) ByteFits { p with drew := false } data

instance (p : RipParser) (data : List UInt8) : Decidable (ChunkFits T p data) :=
  inferInstanceAs (Decidable (Machine.Guarded _ _ _ _))

theorem feed_ok (h : p.surf.Ok) {data : List UInt8} (hfits : ChunkFits T p data) :
    (feed T p data).surf.Ok :=
  Machine.run_inv_of_guarded (I := fun p : RipParser => p.surf.Ok)
    (s := { p with drew := false }) (fun _ _ hp hb => feedByte_kept T ok_kept hp hb) h hfits

/-- Every state of a session, and every state between two commands of a line, as long as no viewport
lies beyond the screen with both of its corners. -/
theorem session_viewport (cells : Int → Int → Nat) {chunks : List (List UInt8)}
    (hfits : Machine.Guarded (feed T) (ChunkFits T) (init cells) chunks) :
    (Machine.run (feed T) (init cells) chunks).surf.Ok ∧
      ∀ b k, ByteFits (Machine.run (feed T) (init cells) chunks) b →
        (afterCommands T (Machine.run (feed T) (init cells) chunks) b k).surf.Ok := by
  have hrun := Machine.run_inv_of_guarded (I := fun p : RipParser => p.surf.Ok)
    (fun _ _ hp hd => feed_ok T hp hd) (init_ok cells) hfits
  exact ⟨hrun, fun b k hb => afterCommands_ok T hrun hb k⟩

/-! ### Colours -/

theorem nibbles_kept : Kept (fun s => Nibbles s.pix) fun _ => True where
  paint h hp := hp.nibbles h
  reset _ := reset_nibbles _
  erase h := eraseView_nibbles h
  viewport h _ _ _ := by
    rw [setViewport]
    split_ifs <;> exact h
  look _ _ h := h

theorem init_nibbles (cells : Int → Int → Nat) : Nibbles (init cells).surf.pix := reset_nibbles _

theorem feed_nibbles (h : Nibbles p.surf.pix) (data : List UInt8) : Nibbles (feed T p data).surf.pix :=
  Machine.run_inv (I := fun p : RipParser => Nibbles p.surf.pix)
    (fun _ _ hp => feedByte_kept T nibbles_kept hp fun _ _ => trivial) (s := { p with drew := false }) h data

/-- Tables for streams without text and curves. -/
def noTables : Tables where
  curves := { samples := fun _ _ _ _ _ _ => [], halfWidth := fun _ _ _ => 0 }
  fonts := { font8x8 := fun _ _ => 0, glyph := fun _ _ => ⟨0, 0, []⟩, track := fun _ v => v }

/-- `!|v0000HR9P|B000009PP0` and an erase, in two chunks. -/
theorem session_viewport_bar :
    (Machine.run (feed noTables) (init fun _ _ => 5)
      [[0x21, 0x7C, 0x76, 0x30, 0x30, 0x30, 0x30, 0x48, 0x52, 0x39], [0x50, 0x7C, 0x45, 0x0A]]).surf.Ok :=
  (session_viewport noTables _ (by decide)).1

/-- `!|vHT00JG0A|E`: the viewport starts at column 641 and ends at column 639, and the erase runs over
the array. -/
theorem session_viewport_beyond :
    let s := (Machine.run (feed noTables) (init fun _ _ => 0)
      [[0x21, 0x7C, 0x76, 0x48, 0x54, 0x30, 0x30, 0x4A, 0x47, 0x30, 0x41, 0x7C, 0x45, 0x0A]]).surf
    s.viewportDisabled = false ∧ s.vx0 = 641 ∧ s.vx1 = 639 ∧ s.pix.fault = true := by
  decide

end UnicornSuite.Rip
