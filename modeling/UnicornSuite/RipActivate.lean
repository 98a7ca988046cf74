import UnicornSuite.RipFeedback

/-! What a press activates, over every run. A command that goes out is the one of the region that was
pressed, as long as the service leaves a region alone whose look is off: the tab compares a region with what
it was only while the look is on. -/

namespace UnicornSuite.RipCanvas

open Rip Machine

variable (T : Tables)

/-! ### What the tab promises -/

/-- A host command that was sent is the one of the region that was pressed, which is still there unchanged
and, where it was pressed with the mouse, under the pointer. -/
structure Sent.Faithful (s : Sent) : Prop where
  command : s.pressed.map Button.command = some s.command
  unchanged : s.now = s.pressed
  under : ∀ u, s.sender = .mouse u → u = some s.idx

/-- The region that a release or the end of a flash would activate. -/
def Tab.Holds (t : Tab) (i : Nat) : Prop := t.pressArmed ∧ t.pressIdx = some i ∨ t.flashIdx = some i

/-- The parser when the bytes have been drawn. -/
def Tab.after (t : Tab) (data : List UInt8) : RipParser := (consume T t.lift.scene data).1.parser

/-- Bytes for the scene leave a region whose look is off as it is. Where the look is on, a region that
passes for the same is the same, and still the one at the pointer. -/
def Steady (t : Tab) (data : List UInt8) : Prop :=
  ∀ i, t.Holds i →
    if t.pressIn then
      ∀ b now, t.buttons[i]? = some b → (t.after T data).buttons[i]? = some now → sameRegion b now →
        now = b ∧ (t.pressArmed → t.pointer.bind (regionUnder (t.after T data)) = some i)
    else (t.after T data).buttons[i]? = t.buttons[i]?

/-- The condition on a step; a release comes where the last mouse message was. -/
def SteadyStep (t : Tab) : Event → Prop
  | .mouseUp m _ =>
      t.pressArmed → t.pressIn →
        regionUnder t.scene.parser m = t.pointer.bind (regionUnder t.scene.parser)
  | .data bytes starts =>
      ¬(t.zmodemActive ∨ bytes = []) →
        match RipStream.scanForZmodem t.zsigLen bytes with
        | (none, _) => Steady T t bytes
        | (some at', len) =>
            let begun := zmodemBegin (draw T { t with zsigLen := len } (bytes.take at')) starts
            Steady T t (bytes.take at') ∧
              (¬(begun.2 ∨ bytes.drop at' = []) → Steady T begun.1 (bytes.drop at'))
  | .zmrDone tail => t.zmr → tail ≠ [] → Steady T t tail
  | _ => True

/-! ### The state of every run -/

/-- What the tab remembers of a press is what was pressed. -/
structure Honest (t : Tab) : Prop where
  press : t.pressArmed → ∃ i b, t.pressIdx = some i ∧ t.pressed = some b ∧ t.buttons[i]? = some b ∧
    (t.pressIn → t.pointer.bind (regionUnder t.scene.parser) = some i)
  flash : ∀ i, t.flashIdx = some i → ∃ b, t.pressed = some b ∧ t.buttons[i]? = some b ∧
    t.flashCmd = b.command ∧ t.pressArmed = false ∧ (t.pressIn → t.pressIdx = some i)
  sent : ∀ s ∈ t.sent, s.Faithful

variable {t t' : Tab}

/-- A tab that remembers no press. -/
theorem honest_idle (harmed : t.pressArmed = false) (hflash : t.flashIdx = none)
    (hsent : ∀ s ∈ t.sent, s.Faithful) : Honest t := by
  refine ⟨fun h => ?_, fun i h => ?_, hsent⟩
  · rw [harmed] at h
    cases h
  · rw [hflash] at h
    cases h

/-- A tab that differs in nothing that matters for a press. -/
theorem Honest.congr (h : Honest t) (hparser : t'.scene.parser = t.scene.parser) (hidx : t'.pressIdx = t.pressIdx)
    (hin : t'.pressIn = t.pressIn) (harmed : t'.pressArmed = t.pressArmed) (hflash : t'.flashIdx = t.flashIdx)
    (hcmd : t'.flashCmd = t.flashCmd) (hpressed : t'.pressed = t.pressed) (hpointer : t'.pointer = t.pointer)
    (hsent : t'.sent = t.sent) : Honest t' := by
  refine ⟨?_, ?_, ?_⟩
  · rw [harmed, hidx, hpressed, Tab.buttons, hparser, hin, hpointer]
    exact h.press
  · rw [hflash, hpressed, Tab.buttons, hparser, hcmd, harmed, hin, hidx]
    exact h.flash
  · rw [hsent]
    exact h.sent

/-! ### Steps -/

/-- A mouse press is over, a flash goes on without its look. -/
theorem Honest.clear (h : Honest t) : Honest (pressClear t) := by
  refine ⟨nofun, fun i hi => ?_, h.sent⟩
  obtain ⟨b, hpressed, hb, hcmd, -, -⟩ := h.flash i hi
  refine ⟨b, hpressed, ?_, hcmd, rfl, nofun⟩
  exact (congrArg (·[i]?) (lift_buttons t)).trans hb

theorem cancel_sent (t : Tab) : (pressCancelForRedraw t).sent = t.sent := by
  rw [pressCancelForRedraw]
  split_ifs <;> rfl

theorem cancel_flash (t : Tab) : (pressCancelForRedraw t).flashIdx = none := by
  rw [pressCancelForRedraw]
  split_ifs with hnone
  · exact hnone.2
  · rfl

theorem Honest.cancel_armed (h : Honest t) : (pressCancelForRedraw t).pressArmed = false := by
  rw [pressCancelForRedraw]
  split_ifs with hnone
  · apply Bool.eq_false_iff.mpr
    intro harmed
    obtain ⟨i, b, hi, -⟩ := h.press harmed
    rw [hnone.1] at hi
    cases hi
  · rfl

theorem Honest.cancel (h : Honest t) : Honest (pressCancelForRedraw t) := by
  refine honest_idle h.cancel_armed (cancel_flash t) ?_
  rw [cancel_sent]
  exact h.sent

theorem sendRaw_honest (h : Honest t) (bytes : List Nat) : Honest (sendRaw t bytes) :=
  h.congr rfl rfl rfl rfl rfl rfl rfl rfl rfl

theorem zmodemBegin_honest (h : Honest t) (starts : Bool) : Honest (zmodemBegin t starts).1 := by
  rw [zmodemBegin]
  split_ifs
  · exact h
  · exact h
  · exact h.cancel.congr rfl rfl rfl rfl rfl rfl rfl rfl rfl
  · exact h.cancel

theorem sendCommand_honest (h : Honest t) (cmd : List Nat) (starts : Bool) :
    Honest (sendCommand t cmd starts).1 := by
  have hbegin := zmodemBegin_honest h starts
  rw [sendCommand]
  split_ifs
  · exact h
  · exact h
  · dsimp only
    split_ifs
    · exact sendRaw_honest hbegin _
    · exact hbegin
  · exact sendRaw_honest h _

/-- A command that goes out for the region that was pressed. -/
theorem sendFor_honest (h : Honest t) {sender : Sender} {idx : Nat} {cmd : List Nat}
    (hsent : Sent.Faithful ⟨sender, idx, cmd, t.pressed, t.buttons[idx]?⟩) (starts : Bool) :
    Honest (sendFor t sender idx cmd starts) := by
  have hsend := sendCommand_honest h cmd starts
  rw [sendFor]
  dsimp only
  split_ifs
  · refine ⟨hsend.press, hsend.flash, fun s hs => ?_⟩
    obtain hold | hnew := List.mem_append.mp hs
    · exact hsend.sent s hold
    · rw [List.mem_singleton.mp hnew]
      exact hsent
  · exact hsend

theorem activateRegion_honest (h : Honest t) {sender : Sender} {idx : Nat}
    (hsent : ∀ b, t.buttons[idx]? = some b → t.pressed = some b ∧ ∀ u, sender = .mouse u → u = some idx)
    (starts : Bool) : Honest (activateRegion t sender idx starts) := by
  rw [activateRegion]
  split
  · exact h
  · next b hb =>
      obtain ⟨hpressed, hunder⟩ := hsent b hb
      refine sendFor_honest h ⟨?_, ?_, hunder⟩ starts
      · rw [hpressed]
        rfl
      · rw [hpressed, hb]

theorem hotkeyActivate_honest (h : Honest t) (idx : Nat) (starts : Bool) :
    Honest (hotkeyActivate t idx starts) := by
  rw [hotkeyActivate]
  split
  · exact h
  · next b hb =>
      have hidle : Honest { pressCancelForRedraw t with pressed := some b } :=
        honest_idle h.cancel_armed (cancel_flash t) h.cancel.sent
      have hbutton : (pressCancelForRedraw t).buttons[idx]? = some b := by
        rw [cancel_buttons]
        exact hb
      dsimp only
      split_ifs
      · refine ⟨fun harmed => Bool.noConfusion harmed, fun i hi => ?_, h.cancel.sent⟩
        obtain rfl := Option.some.inj hi
        refine ⟨b, rfl, ?_, rfl, rfl, fun _ => rfl⟩
        exact (congrArg (·[idx]?) (Scene.flip_buttons _ _)).trans hbutton
      · have hkey (b' : Button) (hb' : (pressCancelForRedraw t).buttons[idx]? = some b') :
            some b = some b' ∧ ∀ u, Sender.key = .mouse u → u = some idx :=
          ⟨hbutton.symm.trans hb', fun _ hkey => Sender.noConfusion hkey⟩
        exact activateRegion_honest hidle hkey starts

/-! ### Bytes -/

theorem draw_honest (h : Honest t) (hshown : Shown t) {data : List UInt8} (hsteady : Steady T t data) :
    Honest (draw T t data) := by
  rw [draw, suspend_eq hshown]
  obtain ⟨hoff, hsaved⟩ | ⟨i, b, hin, hidx, hb, hsaved⟩ := pressSaved_eq hshown
  · have hkept (i : Nat) (hi : t.Holds i) : (t.after T data).buttons[i]? = t.buttons[i]? := by
      have hi := hsteady i hi
      rw [if_neg (Bool.eq_false_iff.mp hoff)] at hi
      exact hi
    have hnot {p : Prop} (hin : t.pressIn) : p := by
      rw [hoff] at hin
      cases hin
    rw [hsaved]
    refine ⟨fun harmed => ?_, fun i hi => ?_, h.sent⟩
    · obtain ⟨i, b, hidx, hpressed, hb, -⟩ := h.press harmed
      exact ⟨i, b, hidx, hpressed, (hkept i (.inl ⟨harmed, hidx⟩)).trans hb, hnot⟩
    · obtain ⟨b, hpressed, hb, hcmd, harmed, -⟩ := h.flash i hi
      exact ⟨b, hpressed, (hkept i (.inr hi)).trans hb, hcmd, harmed, hnot⟩
  · have hidle : Honest (pressAbandon (ripConsume T t.lift data)) := honest_idle rfl rfl h.sent
    rw [hsaved, pressResume]
    split
    · exact hidle
    · next now hnow =>
        split_ifs with hsame
        · have hbuttons := Scene.flip_buttons (ripConsume T t.lift data).scene (some i)
          have hkept (hi : t.Holds i) : now = b ∧ (t.pressArmed →
              t.pointer.bind (regionUnder (t.after T data)) = some i) := by
            have hi := hsteady i hi
            rw [if_pos hin] at hi
            exact hi b now hb hnow hsame
          have hbutton (hi : t.Holds i) :
              ((ripConsume T t.lift data).scene.flip (some i)).parser.buttons[i]? = some b := by
            rw [hbuttons, ← (hkept hi).1]
            exact hnow
          refine ⟨fun harmed => ?_, fun j hj => ?_, h.sent⟩
          · obtain ⟨i', b', hidx', hpressed, hb', -⟩ := h.press harmed
            obtain rfl := Option.some.inj (hidx.symm.trans hidx')
            obtain rfl := Option.some.inj (hb.symm.trans hb')
            refine ⟨i, b, hidx, hpressed, hbutton (.inl ⟨harmed, hidx⟩), fun _ => ?_⟩
            dsimp only
            rw [regionUnder_congr hbuttons]
            exact (hkept (.inl ⟨harmed, hidx⟩)).2 harmed
          · obtain ⟨b', hpressed, hb', hcmd, harmed, hpress⟩ := h.flash j hj
            obtain rfl := Option.some.inj (hidx.symm.trans (hpress hin))
            obtain rfl := Option.some.inj (hb.symm.trans hb')
            exact ⟨b, hpressed, hbutton (.inr hj), hcmd, harmed, fun _ => hidx⟩
        · exact hidle

theorem onData_honest (h : Honest t) (hshown : Shown t) {bytes : List UInt8} {starts : Bool}
    (hsteady : SteadyStep T t (.data bytes starts)) : Honest (onData T t bytes starts) := by
  rw [onData]
  rw [SteadyStep] at hsteady
  split_ifs with hno
  · exact h
  · have hsteady := hsteady hno
    split
    · next len hscan =>
        rw [hscan] at hsteady
        exact draw_honest T (t := { t with zsigLen := len }) (h.congr rfl rfl rfl rfl rfl rfl rfl rfl rfl)
          (hshown.congr rfl rfl rfl rfl) hsteady
    · next at' len hscan =>
        rw [hscan] at hsteady
        have hlen : Honest { t with zsigLen := len } := h.congr rfl rfl rfl rfl rfl rfl rfl rfl rfl
        have hlen' : Shown { t with zsigLen := len } := hshown.congr rfl rfl rfl rfl
        have hbegun := zmodemBegin_honest (draw_honest T hlen hlen' hsteady.1) starts
        have hbegun' := zmodemBegin_shown (draw_shown T hlen' (bytes.take at')) starts
        dsimp only
        split_ifs with hover
        · exact hbegun
        · exact draw_honest T hbegun hbegun' (hsteady.2 hover)

theorem onZmrDone_honest (h : Honest t) (hshown : Shown t) {tail : List UInt8}
    (hsteady : t.zmr → tail ≠ [] → Steady T t tail) : Honest (onZmrDone T t tail) := by
  have hdone : Honest { t with zmr := false, zmodemActive := false, zsigLen := 0 } :=
    h.congr rfl rfl rfl rfl rfl rfl rfl rfl rfl
  rw [onZmrDone]
  split_ifs with hzmr htail
  · exact hdone
  · exact draw_honest T hdone (hshown.congr rfl rfl rfl rfl) (hsteady hzmr htail)
  · exact h.congr rfl rfl rfl rfl rfl rfl rfl rfl rfl

theorem zmodemAbandon_honest (h : Honest t) : Honest (zmodemAbandon t) := by
  rw [zmodemAbandon]
  split_ifs
  · exact h.congr rfl rfl rfl rfl rfl rfl rfl rfl rfl
  · exact h.congr rfl rfl rfl rfl rfl rfl rfl rfl rfl

theorem closeSession_honest (h : Honest t) : Honest (closeSession t) := by
  rw [closeSession]
  split_ifs
  · have habandon := zmodemAbandon_honest h
    exact honest_idle habandon.cancel_armed (cancel_flash _) habandon.cancel.sent
  · exact honest_idle h.cancel_armed (cancel_flash t) h.cancel.sent

theorem doConnect_honest (h : Honest t) (opens : Bool) : Honest (doConnect t opens) := by
  rw [doConnect]
  split_ifs
  · exact h
  · exact honest_idle h.cancel_armed (cancel_flash t) h.cancel.sent

/-! ### Mouse and keys -/

theorem mouseDown_honest (h : Honest t) (m : Pointer) : Honest (mouseDown t m) := by
  rw [mouseDown]
  split_ifs
  · exact h
  · dsimp only
    split
    · exact h.cancel
    · next i hi =>
        have hbuttons := Scene.flip_buttons (pressCancelForRedraw t).scene (some i)
        obtain ⟨b, hb⟩ : ∃ b, (pressCancelForRedraw t).buttons[i]? = some b :=
          ⟨_, List.getElem?_eq_getElem (regionUnder_lt hi)⟩
        refine ⟨fun _ => ⟨i, b, rfl, hb, (congrArg (·[i]?) hbuttons).trans hb, fun _ => ?_⟩, fun j hj => ?_,
          h.cancel.sent⟩
        · exact (congrFun (regionUnder_congr hbuttons) m).trans hi
        · exact absurd ((cancel_flash t).symm.trans hj) (Option.some_ne_none j).symm

theorem mouseMove_honest (h : Honest t) (m : Pointer) : Honest (mouseMove t m) := by
  have hbuttons := Scene.flip_buttons t.scene t.pressIdx
  rw [mouseMove]
  split_ifs with hno
  · exact h
  · have harmed : t.pressArmed = true := by
      by_contra hnot
      exact hno (.inl hnot)
    have hflash : t.flashIdx = none := by
      cases hflash : t.flashIdx with
      | none => rfl
      | some i =>
          obtain ⟨b, -, -, -, hoff, -⟩ := h.flash i hflash
          rw [harmed] at hoff
          cases hoff
    obtain ⟨i, b, hidx, hpressed, hb, -⟩ := h.press harmed
    dsimp only
    split_ifs with hmoved
    · refine ⟨fun _ => ⟨i, b, hidx, hpressed, (congrArg (·[i]?) hbuttons).trans hb, fun hin => ?_⟩, fun j hj => ?_,
        h.sent⟩
      · have hunder : regionUnder t.scene.parser m = t.pressIdx := of_decide_eq_true hin
        exact (congrFun (regionUnder_congr hbuttons) m).trans (hunder.trans hidx)
      · rw [Tab.flip] at hj
        dsimp only at hj
        rw [hflash] at hj
        cases hj
    · refine ⟨fun _ => ⟨i, b, hidx, hpressed, hb, fun hin => ?_⟩, fun j hj => ?_, h.sent⟩
      · have hinside : regionUnder t.scene.parser m = t.pressIdx :=
          of_decide_eq_true ((not_not.mp hmoved).trans hin)
        exact hinside.trans hidx
      · rw [hflash] at hj
        cases hj

theorem captureLost_honest (h : Honest t) : Honest (captureLost t) :=
  Honest.clear (t := { t with captured := false }) (h.congr rfl rfl rfl rfl rfl rfl rfl rfl rfl)

/-- The press is over, and what was pressed is known. -/
theorem release_honest (h : Honest t) : Honest (pressClear (if t.captured then captureLost t else t)) := by
  split_ifs
  · exact (captureLost_honest h).clear
  · exact h.clear

theorem release_kept (t : Tab) :
    (pressClear (if t.captured then captureLost t else t)).buttons = t.buttons ∧
      (pressClear (if t.captured then captureLost t else t)).pressed = t.pressed := by
  split_ifs
  · refine ⟨?_, rfl⟩
    exact (lift_buttons (captureLost t)).trans (lift_buttons { t with captured := false })
  · exact ⟨lift_buttons t, rfl⟩

theorem mouseUp_honest (h : Honest t) {m : Pointer} {starts : Bool}
    (hsteady : SteadyStep T t (.mouseUp m starts)) : Honest (mouseUp t m starts) := by
  have hafter := release_honest h
  obtain ⟨hbuttons, hpressed⟩ := release_kept t
  rw [mouseUp]
  generalize pressClear (if t.captured then captureLost t else t) = after at hafter hbuttons hpressed
  split
  · exact hafter
  · next i hi =>
      split_ifs with hactive
      · obtain ⟨i', b, hidx, hpressed', hb, hpointer⟩ := h.press hactive.1
        obtain rfl := Option.some.inj (hi.symm.trans hidx)
        refine activateRegion_honest hafter (fun b' hb' => ⟨?_, fun u hu => ?_⟩) starts
        · rw [hbuttons, hb] at hb'
          rw [hpressed, hpressed', hb']
        · rw [← Sender.mouse.inj hu, hsteady hactive.1 hactive.2]
          exact hpointer hactive.2
      · exact hafter

theorem keyDown_honest (h : Honest t) (c : Nat) (starts : Bool) : Honest (keyDown t c starts) := by
  rw [keyDown]
  by_cases hno : ¬t.connected ∨ ¬t.telnet ∨ t.zmodemActive ∨ c = 0
  · rw [if_pos hno]
    exact h
  · rw [if_neg hno]
    split
    · exact hotkeyActivate_honest h _ _
    · split_ifs
      · exact sendRaw_honest h _
      · exact h

theorem flashTick_honest (h : Honest t) (starts : Bool) : Honest (flashTick t starts) := by
  have hover : Honest { pressClear t with flashIdx := none, flashCmd := [] } := honest_idle rfl rfl h.sent
  rw [flashTick]
  split
  · exact h.clear
  · next i hi =>
      split_ifs
      · exact honest_idle rfl rfl h.sent
      · obtain ⟨b, hpressed, hb, hcmd, -, -⟩ := h.clear.flash i hi
        have hsent : Sent.Faithful
            ⟨.key, i, (pressClear t).flashCmd, (pressClear t).pressed, (pressClear t).buttons[i]?⟩ := by
          refine ⟨?_, hb.trans hpressed.symm, fun _ hkey => Sender.noConfusion hkey⟩
          rw [hpressed, hcmd]
          rfl
        exact sendFor_honest hover hsent starts

theorem step_honest (h : Honest t) (hshown : Shown t) {e : Event} (hsteady : SteadyStep T t e) :
    Honest (step T t e) := by
  cases e with
  | mouseDown m => exact mouseDown_honest h m
  | mouseMove m => exact mouseMove_honest h m
  | mouseUp m starts => exact mouseUp_honest T h hsteady
  | captureLost => exact captureLost_honest h
  | key c starts => exact keyDown_honest h c starts
  | flashTick starts => exact flashTick_honest h starts
  | data bytes starts => exact onData_honest T h hshown hsteady
  | zmrDone tail => exact onZmrDone_honest T h hshown hsteady
  | connect opens => exact doConnect_honest h opens
  | connected => exact h.congr rfl rfl rfl rfl rfl rfl rfl rfl rfl
  | closed => exact closeSession_honest h

/-- A line of the service: `!|`, what comes before, and a region of ten by ten pixels that sends the byte
`c`. -/
def scene (before : List UInt8) (c : UInt8) : List UInt8 :=
  [0x21, 0x7C] ++ before ++ [0x31, 0x4D, 0x30, 0x30, 0x30, 0x30, 0x30, 0x30, 0x30, 0x39, 0x30, 0x39, 0x31,
    0x30, 0x30, 0x30, 0x30, 0x30, 0x30, c, 0x0D]

/-- The scene is the one of the parser alone in every state of every run, and where the steps meet the
condition every command that goes out is the one of the region that was pressed. -/
theorem press_integrity (cells : Int → Int → Nat) (events : List Event) :
    Intact (run (step T) (start cells) events) ∧
      (Guarded (step T) (SteadyStep T) (start cells) events →
        ∀ s ∈ (run (step T) (start cells) events).sent, s.Faithful) := by
  have hstart : Honest (start cells) := honest_idle rfl rfl fun _ hs => absurd hs List.not_mem_nil
  refine ⟨?_, fun hguard => ?_⟩
  · have hrun := run_inv (I := Shown) (fun _ e h => step_shown T h e) (shown_start cells) events
    exact hrun.intact
  · have hrun := run_inv_of_guarded (I := fun t => Shown t ∧ Honest t)
      (fun _ e h hsteady => ⟨step_shown T h.1 e, step_honest T h.2 h.1 hsteady⟩)
      ⟨shown_start cells, hstart⟩ hguard
    exact hrun.2.sent

/-- A press and a release on region A. -/
def clicked : List Event :=
  [.connect true, .connected, .data (scene [] 0x41) false, .mouseDown ⟨640, 480, 5, 5⟩,
    .mouseUp ⟨640, 480, 5, 5⟩ false]

theorem press_integrity_clicked :
    ∀ s ∈ (run (step noTables) (start fun _ _ => 0) clicked).sent, s.Faithful := by
  refine (press_integrity noTables (fun _ _ => 0) clicked).2 ⟨trivial, trivial, fun _ => ?_, trivial, ?_, trivial⟩
  · rintro i (⟨harmed, -⟩ | hflash)
    · cases harmed
    · cases hflash
  · intro _ _
    decide +kernel

/-- The pointer is dragged off region A, the service puts region B in its place, and the pointer comes back
before the release. -/
def dragged : List Event :=
  [.connect true, .connected, .data (scene [] 0x41) false, .mouseDown ⟨640, 480, 5, 5⟩,
    .mouseMove ⟨640, 480, -1, -1⟩, .data (scene [0x31, 0x4B, 0x7C] 0x42) false,
    .mouseMove ⟨640, 480, 5, 5⟩, .mouseUp ⟨640, 480, 5, 5⟩ false]

/-- The command of B goes out. -/
theorem replaced_region_sent :
    ¬∀ s ∈ (run (step noTables) (start fun _ _ => 0) dragged).sent, s.Faithful := by
  have hsent : (run (step noTables) (start fun _ _ => 0) dragged).sent.map
      (fun s => (s.pressed.map Button.command, s.command)) = [(some [0x41], [0x42])] := by
    decide +kernel
  intro h
  have hmem : (some [0x41], [0x42]) ∈ (run (step noTables) (start fun _ _ => 0) dragged).sent.map
      (fun s => (s.pressed.map Button.command, s.command)) := by
    rw [hsent]
    exact List.mem_singleton_self _
  obtain ⟨s, hs, heq⟩ := List.mem_map.mp hmem
  obtain ⟨hpressed, hcommand⟩ := Prod.mk.inj heq
  have hfaithful := (h s hs).command
  rw [hpressed, hcommand] at hfaithful
  exact absurd hfaithful (by decide)

end UnicornSuite.RipCanvas
