import UnicornSuite.LibRun
import UnicornSuite.TelnetShell

/-! The mode of the terminal, its sessions and its shortcut buttons over every run. A session is open exactly
in the modes that need one. The buttons are disabled for an automatic Enter that is pending or for a session,
and an automatic Enter commits its own command, in the runs where the shell takes no character but Enter while
one is pending and no `WM_TIMER` reaches the shell behind a cancelled one; every other run breaks the
agreement at the first such step. -/

namespace UnicornSuite.TelnetShell

open CText Machine

/-! ### The agreement -/

/-- Each handle belongs to modes of its own. -/
def Handles (m : Mode) (telnet finger qotd : Option Session) : Prop :=
  (telnet.isSome ↔ m = .telnetConnecting ∨ m = .telnetActive) ∧
    (finger.isSome ↔ m = .fingerReading) ∧ (qotd.isSome ↔ m = .qotdReading)

def HandlesAgree (s : State) : Prop := Handles s.mode s.activeTelnet s.activeFinger s.activeQotd

/-- The handles that are not NULL. -/
def liveHandles (s : State) : List Session :=
  s.activeTelnet.toList ++ s.activeFinger.toList ++ s.activeQotd.toList

def ButtonsAgree (s : State) : Prop := s.buttons = false → s.macroPending ∨ liveHandles s ≠ []

/-- Each line that a `WM_TIMER` committed is the command whose automatic Enter was pending. -/
def AutosAgree (s : State) : Prop := ∀ auto ∈ s.autos, auto.1 = some auto.2

structure Agreement (s : State) : Prop where
  handles : (liveHandles s).length ≤ 1
  live : liveHandles s ≠ [] ↔ s.mode ≠ .shell
  buttons : ButtonsAgree s
  autos : AutosAgree s

instance (s : State) : Decidable (ButtonsAgree s) := inferInstanceAs (Decidable (_ → _))

instance (s : State) : Decidable (AutosAgree s) := inferInstanceAs (Decidable (∀ _ ∈ _, _))

/-- The character that a key gives the shell. -/
def keyChar (k : Key) : Option UInt8 :=
  if k.ctrl ∧ k.vk = .letter 0x41 then none
  else if k.ctrl ∧ k.vk = .letter 0x43 then if k.selection then none else some 0x03
  else if k.ctrl ∧ k.vk = .letter 0x56 then none
  else k.derived

/-- The character of a byte of a paste. -/
def pasteChar (skipLf : Bool) : CString → Option UInt8
  | [] => none
  | c :: _ =>
      if skipLf ∧ c = 0x0A then none
      else if c = 0x0D ∨ c = 0x0A then some 0x0D
      else if 0x20 ≤ c ∧ c < 0x7F then some c
      else none

/-- The character that a step hands to the shell, if it hands it one. -/
def shellChar (s : State) (e : Event) : Option UInt8 :=
  if s.mode ≠ .shell then none
  else
    match e with
    | .pasteNext _ => pasteChar s.skipLf s.pasting
    | .char ch _ => if s.pasting = [] ∧ ¬ s.swallowNextChar then some ch else none
    | .key k _ => if s.pasting = [] then keyChar k else none
    | _ => none

/-- A `WM_TIMER` of the automatic Enter is taken. -/
def takesTimer (s : State) : Event → Bool
  | .timer _ => s.pasting = [] ∧ s.timerPosted
  | _ => false

/-- While an automatic Enter is pending the shell takes no other character, and a `WM_TIMER` that comes to
the shell comes for one that is pending. -/
def InTime (s : State) (e : Event) : Prop :=
  (∀ ch ∈ shellChar s e, s.macroPending → ch = 0x0D) ∧
    (takesTimer s e → s.macroPending ∨ s.mode ≠ .shell)

instance (s : State) (e : Event) : Decidable (InTime s e) := inferInstanceAs (Decidable (_ ∧ _))

/-! ### What a step does -/

section Steps

variable {s : State} {e : Event} {ch : UInt8} {o : Bool}

theorem cancelMacroTimer_eq (s : State) :
    cancelMacroTimer s =
      { s with timerSet := s.timerSet && !s.macroPending, macroPending := false } := by
  obtain ⟨_, _, _, _, _, _, _, pending, timer, _⟩ := s
  cases pending <;> cases timer <;> rfl

theorem handleCharShell_of_ne (hch : ch ≠ 0x0D) :
    ∃ timer line pos, handleCharShell s ch o =
      { s with timerSet := timer, macroPending := false, shellInput := line, shellPos := pos } := by
  refine ⟨s.timerSet && !s.macroPending, (editLine s.shellInput s.shellPos ch).1,
    (editLine s.shellInput s.shellPos ch).2, ?_⟩
  rw [handleCharShell, cancelMacroTimer_eq, if_neg hch]

theorem shellCommitEnter_eq (s : State) (o : Bool) :
    shellCommitEnter s o =
      shellDispatch
        { s with
          timerSet := s.timerSet && !s.macroPending
          macroPending := false
          shellInput := []
          shellPos := 0 } s.shellInput o := by
  rw [shellCommitEnter, cancelMacroTimer_eq]

theorem handleCharShell_return (s : State) (o : Bool) :
    ∃ timer, handleCharShell s 0x0D o =
      shellDispatch
        { s with timerSet := timer, macroPending := false, shellInput := [], shellPos := 0 }
        s.shellInput o := by
  refine ⟨s.timerSet && !s.macroPending && !false, ?_⟩
  rw [handleCharShell, if_pos rfl, cancelMacroTimer_eq, shellCommitEnter_eq]

theorem shellChar_mode (h : shellChar s e = some ch) : s.mode = .shell := by
  by_contra hno
  unfold shellChar at h
  rw [if_pos hno] at h
  cases h

/-- A key that gives the shell a character. -/
theorem keyDown_typed {k : Key} (hmode : s.mode = .shell) (h : keyChar k = some ch) :
    ∃ w, keyDown s k o = { handleCharShell s ch o with swallowNextChar := w } := by
  rw [keyChar] at h
  unfold keyDown
  split_ifs at h with hall hcancel hsel hpaste
  · obtain rfl : 0x03 = ch := Option.some.inj h
    exact ⟨(handleCharShell s 0x03 o).swallowNextChar,
      by rw [if_neg hall, if_pos hcancel, if_pos ⟨hsel, hmode⟩]⟩
  · refine ⟨true, ?_⟩
    rw [if_neg hall, if_neg hcancel, if_neg hpaste, h]
    exact if_pos hmode

theorem keyDown_untyped {k : Key} (h : s.mode = .shell → keyChar k = none) :
    ∃ pos p k', keyDown s k o = { s with shellPos := pos, pasting := p, skipLf := k' } := by
  have hquiet : ∃ pos p k', s = { s with shellPos := pos, pasting := p, skipLf := k' } :=
    ⟨s.shellPos, s.pasting, s.skipLf, rfl⟩
  by_cases hmode : s.mode = .shell
  · have hnone := h hmode
    rw [keyChar] at hnone
    unfold keyDown
    split_ifs at hnone ⊢ with hall hcancel hsel hgo hpaste
    · exact hquiet
    · exact absurd hgo hsel.1
    · exact hquiet
    · exact ⟨s.shellPos, cstr k.clipboard, false, rfl⟩
    · rw [hnone]
      unfold handleVkArrow
      rw [if_pos hmode]
      dsimp only
      split
      · exact ⟨s.shellPos - 1, s.pasting, s.skipLf, rfl⟩
      · split
        · exact ⟨s.shellPos + 1, s.pasting, s.skipLf, rfl⟩
        · exact hquiet
      · exact ⟨0, s.pasting, s.skipLf, rfl⟩
      · exact ⟨max s.shellPos s.shellInput.length, s.pasting, s.skipLf, rfl⟩
      · exact hquiet
  · unfold keyDown handleVkArrow
    simp only [hmode, and_false, if_false]
    split_ifs with hall hcancel hpaste
    · exact hquiet
    · exact hquiet
    · exact ⟨s.shellPos, cstr k.clipboard, false, rfl⟩
    · split <;> exact hquiet

/-- A byte of a paste that gives the shell a character. -/
theorem pasteNext_typed (hmode : s.mode = .shell) (h : pasteChar s.skipLf s.pasting = some ch) :
    ∃ p k, pasteNext s o =
      handleCharShell { s with pasting := p, skipLf := k } ch o := by
  unfold pasteNext
  cases hpaste : s.pasting with
  | nil =>
      rw [hpaste] at h
      cases h
  | cons c rest =>
      rw [hpaste, pasteChar] at h
      refine ⟨rest, decide (c = 0x0D), ?_⟩
      split_ifs at h with hskip hreturn hprint
      · obtain rfl : 0x0D = ch := Option.some.inj h
        simp only [if_neg hskip, hmode, ne_eq, not_true, if_false, if_pos hreturn]
      · obtain rfl : c = ch := Option.some.inj h
        simp only [if_neg hskip, hmode, ne_eq, not_true, if_false, if_neg hreturn, if_pos hprint]

theorem pasteNext_untyped (h : s.mode = .shell → pasteChar s.skipLf s.pasting = none) :
    ∃ p k, pasteNext s o = { s with pasting := p, skipLf := k } := by
  unfold pasteNext
  cases hpaste : s.pasting with
  | nil => exact ⟨s.pasting, s.skipLf, rfl⟩
  | cons c rest =>
      dsimp only
      by_cases hmode : s.mode = .shell
      · have hnone := h hmode
        rw [hpaste, pasteChar] at hnone
        split_ifs at hnone with hskip hreturn hprint
        · exact ⟨rest, false, by rw [if_pos hskip]⟩
        · exact ⟨rest, decide (c = 0x0D), by
            rw [if_neg hskip, if_neg (not_not_intro hmode), if_neg hreturn, if_neg hprint]⟩
      · split_ifs with hskip
        · exact ⟨rest, false, rfl⟩
        · exact ⟨rest, decide (c = 0x0D), rfl⟩

theorem timerMsg_shell (hmode : s.mode = .shell) :
    timerMsg s o =
      shellDispatch
        { s with
          timerSet := false
          timerPosted := false
          macroPending := false
          shellInput := []
          shellPos := 0
          autos := s.autos ++ [(if s.macroPending then some s.injected else none, s.shellInput)] }
        s.shellInput o := by
  unfold timerMsg
  dsimp only
  rw [if_pos hmode, shellCommitEnter_eq]
  rfl

theorem timerMsg_other (hmode : s.mode ≠ .shell) :
    timerMsg s o = { s with timerSet := false, timerPosted := false, macroPending := false } := by
  unfold timerMsg
  exact if_neg hmode

/-- A step that hands the shell a character does nothing else to the mode, the sessions and the timer. -/
theorem step_typed (h : shellChar s e = some ch) :
    ∃ p k w o, step s e =
      { handleCharShell { s with pasting := p, skipLf := k } ch o with swallowNextChar := w } := by
  have hmode : s.mode = .shell := shellChar_mode h
  unfold shellChar at h
  rw [if_neg (not_not_intro hmode)] at h
  cases e with
  | char c o =>
      dsimp only at h
      split_ifs at h with hidle
      obtain rfl : c = ch := Option.some.inj h
      refine ⟨s.pasting, s.skipLf, (handleCharShell s c o).swallowNextChar, o, ?_⟩
      rw [step, if_pos hidle.1, charMsg, if_neg hidle.2, if_pos hmode]
  | key k o =>
      dsimp only at h
      split_ifs at h with hidle
      obtain ⟨w, hkey⟩ := keyDown_typed (o := o) hmode h
      exact ⟨s.pasting, s.skipLf, w, o, by rw [step, if_pos hidle, hkey]⟩
  | pasteNext o =>
      obtain ⟨p, k, hpaste⟩ := pasteNext_typed (o := o) hmode h
      refine ⟨p, k, (pasteNext s o).swallowNextChar, o, ?_⟩
      rw [step, hpaste]
  | click b => cases h
  | paste text => cases h
  | expire => cases h
  | timer o => cases h
  | worker a => cases h
  | notify => cases h

/-- Every other step is a click, the timer, a thread or a note, or moves no more than the cursor. -/
theorem step_untyped (h : shellChar s e = none) :
    (∃ pos p k w t, step s e =
      { s with shellPos := pos, pasting := p, skipLf := k, swallowNextChar := w, timerPosted := t }) ∨
    (∃ b, step s e = triggerShortcut s b) ∨
    (∃ o, takesTimer s e ∧ step s e = timerMsg s o) ∨
    (∃ a, step s e = workerStep s a) ∨ step s e = notifyMsg s := by
  have hquiet (hstep : step s e = s) : ∃ pos p k w t, step s e =
      { s with shellPos := pos, pasting := p, skipLf := k, swallowNextChar := w, timerPosted := t } :=
    ⟨s.shellPos, s.pasting, s.skipLf, s.swallowNextChar, s.timerPosted, hstep⟩
  unfold shellChar at h
  cases e with
  | click b =>
      by_cases hidle : s.pasting = []
      · exact .inr (.inl ⟨b, if_pos hidle⟩)
      · exact .inl (hquiet (if_neg hidle))
  | key k o =>
      by_cases hidle : s.pasting = []
      · have hnone (hmode : s.mode = .shell) : keyChar k = none := by
          simpa [hmode, hidle] using h
        obtain ⟨pos, p, k', hkey⟩ := keyDown_untyped (o := o) hnone
        exact .inl ⟨pos, p, k', s.swallowNextChar, s.timerPosted, (if_pos hidle).trans hkey⟩
      · exact .inl (hquiet (if_neg hidle))
  | char ch o =>
      by_cases hidle : s.pasting = []
      · by_cases hswallow : s.swallowNextChar
        · refine .inl ⟨s.shellPos, s.pasting, s.skipLf, false, s.timerPosted, ?_⟩
          rw [step, if_pos hidle, charMsg, if_pos hswallow]
        · have hmode : s.mode ≠ .shell := by
            intro hmode
            simp [hmode, hidle, hswallow] at h
          exact .inl (hquiet (by rw [step, if_pos hidle, charMsg, if_neg hswallow, if_neg hmode]))
      · exact .inl (hquiet (if_neg hidle))
  | paste text =>
      by_cases hidle : s.pasting = []
      · exact .inl ⟨s.shellPos, cstr text, false, s.swallowNextChar, s.timerPosted, if_pos hidle⟩
      · exact .inl (hquiet (if_neg hidle))
  | pasteNext o =>
      have hnone (hmode : s.mode = .shell) : pasteChar s.skipLf s.pasting = none := by
        simpa [hmode] using h
      obtain ⟨p, k, hpaste⟩ := pasteNext_untyped (o := o) hnone
      exact .inl ⟨s.shellPos, p, k, s.swallowNextChar, s.timerPosted, hpaste⟩
  | expire =>
      exact .inl ⟨s.shellPos, s.pasting, s.skipLf, s.swallowNextChar, s.timerPosted || s.timerSet, rfl⟩
  | timer o =>
      by_cases hdue : s.pasting = [] ∧ s.timerPosted
      · exact .inr (.inr (.inl ⟨o, decide_eq_true hdue, if_pos hdue⟩))
      · exact .inl (hquiet (if_neg hdue))
  | worker a => exact .inr (.inr (.inr (.inl ⟨a, rfl⟩)))
  | notify =>
      by_cases hidle : s.pasting = []
      · exact .inr (.inr (.inr (.inr (if_pos hidle))))
      · exact .inl (hquiet (if_neg hidle))

/-! ### What a command does -/

/-- The ways a command that asks for a session ends. -/
inductive Answered (s : State) : State → Prop where
  | back {t f q : Option Session} (h : Handles .shell t f q) :
      Answered s (enterShellMode { s with activeTelnet := t, activeFinger := f, activeQotd := q })
  | opened {m : Mode} {t f q : Option Session} (hm : m ≠ .shell) (h : Handles m t f q) :
      Answered s
        { s with
          mode := m
          activeTelnet := t
          activeFinger := f
          activeQotd := q
          buttons := false
          worker := some .starting }

theorem Handles.shell {t f q : Option Session} (h : Handles .shell t f q) :
    t = none ∧ f = none ∧ q = none := by
  simpa [Handles] using h

section Dispatch

variable {t f q : Option Session}

theorem openTelnet_answered (spec : CString)
    (h : Handles .shell s.activeTelnet s.activeFinger s.activeQotd) :
    Answered s (openTelnet s spec o) := by
  obtain ⟨ht, hf, hq⟩ := h.shell
  unfold openTelnet
  split
  · exact .back h
  · split
    · exact .opened Mode.noConfusion (by simp [Handles, hf, hq])
    · exact .back (t := none) (by simp [Handles, hf, hq])

theorem openFinger_answered (target : CString)
    (h : Handles .shell s.activeTelnet s.activeFinger s.activeQotd) :
    Answered s (openFinger s target o) := by
  obtain ⟨ht, hf, hq⟩ := h.shell
  unfold openFinger
  dsimp only
  split_ifs
  · exact .back h
  · exact .opened Mode.noConfusion (by simp [Handles, ht, hq])
  · exact .back (f := none) (by simp [Handles, ht, hq])
  · exact .back h

theorem openQotdRaw_answered (host : CString) (port : Nat)
    (h : Handles .shell s.activeTelnet s.activeFinger s.activeQotd) :
    Answered s (openQotdRaw s host port o) := by
  obtain ⟨ht, hf, hq⟩ := h.shell
  unfold openQotdRaw
  split_ifs
  · exact .opened Mode.noConfusion (by simp [Handles, ht, hf])
  · exact .back (q := none) (by simp [Handles, ht, hf])

theorem shellDispatch_answered (cmd : CString)
    (h : Handles .shell s.activeTelnet s.activeFinger s.activeQotd) :
    shellDispatch s cmd o = s ∨ Answered s (shellDispatch s cmd o) := by
  obtain ⟨ht, hf, hq⟩ := h.shell
  have hite {c : Prop} [Decidable c] {a b : State} (ha : a = s ∨ Answered s a) (hb : b = s ∨ Answered s b) :
      (if c then a else b) = s ∨ Answered s (if c then a else b) := by
    split_ifs
    · exact ha
    · exact hb
  have hclosed : (if s.activeTelnet.isSome ∨ s.activeFinger.isSome ∨ s.activeQotd.isSome then closeActiveSession s
      else s) = s := by
    simp [ht, hf, hq]
  unfold shellDispatch
  dsimp only
  -- The lines without a verb, help, clear and exit, then telnet, finger and nc.
  refine hite (.inl rfl) (hite (.inl rfl) (hite (.inl rfl) (hite (.inl hclosed) ?_)))
  refine hite (hite (.inl rfl) (.inr (openTelnet_answered _ h))) ?_
  refine hite (hite (.inl rfl) (.inr (openFinger_answered _ h))) ?_
  exact hite (hite (.inl rfl) (hite (.inl rfl) (.inr (openQotdRaw_answered _ _ h)))) (.inl rfl)

/-- The command of a shortcut asks for a session. -/
theorem shellDispatch_command (h : Handles .shell s.activeTelnet s.activeFinger s.activeQotd)
    (b : Shortcut) : Answered s (shellDispatch s b.command o) := by
  cases b with
  | telnetNews => exact openTelnet_answered (ascii "telnet.greektimes.ca") h
  | fingerNews => exact openFinger_answered (ascii "news@finger.greektimes.ca") h
  | fingerWeather => exact openFinger_answered (ascii "weather@finger.greektimes.ca") h
  | qotd => exact openQotdRaw_answered (ascii "qotd.greektimes.ca") 17 h
  | archie => exact openTelnet_answered (ascii "archie.greektimes.ca:2323") h

end Dispatch

end Steps

/-! ### The handles -/

section Invariants

variable {s s' : State} {e : Event} {ch : UInt8} {o : Bool}

theorem Answered.handles (h : Answered s s') : HandlesAgree s' := by
  cases h with
  | back h => exact h
  | opened hm h => exact h

theorem shellDispatch_handles {cmd : CString} (hmode : s.mode = .shell) (h : HandlesAgree s) :
    HandlesAgree (shellDispatch s cmd o) := by
  have hnone : Handles .shell s.activeTelnet s.activeFinger s.activeQotd := by
    rw [← hmode]
    exact h
  rcases shellDispatch_answered (o := o) cmd hnone with hsame | hanswer
  · rw [hsame]
    exact h
  · exact hanswer.handles

theorem handleCharShell_handles (hmode : s.mode = .shell) (h : HandlesAgree s) :
    HandlesAgree (handleCharShell s ch o) := by
  by_cases hch : ch = 0x0D
  · rw [hch]
    obtain ⟨timer, heq⟩ := handleCharShell_return s o
    rw [heq]
    exact shellDispatch_handles hmode h
  · obtain ⟨timer, line, pos, heq⟩ := handleCharShell_of_ne (s := s) (o := o) hch
    rw [heq]
    exact h

theorem triggerShortcut_handles (b : Shortcut) (h : HandlesAgree s) :
    HandlesAgree (triggerShortcut s b) := by
  unfold triggerShortcut macroInject
  simp only [cancelMacroTimer_eq]
  split_ifs <;> exact h

theorem timerMsg_handles (h : HandlesAgree s) : HandlesAgree (timerMsg s o) := by
  by_cases hmode : s.mode = .shell
  · rw [timerMsg_shell hmode]
    exact shellDispatch_handles hmode h
  · rw [timerMsg_other hmode]
    exact h

theorem workerStep_handles (a : WorkerAct) (h : HandlesAgree s) : HandlesAgree (workerStep s a) := by
  unfold workerStep
  split <;> exact h

theorem closed_handles (s : State) : HandlesAgree (onEvtClosed s) := by
  refine ⟨?_, ?_, ?_⟩ <;> simp [onEvtClosed, enterShellMode, enableMacroButtons, closeSessions]

theorem connected_handles (h : HandlesAgree s) : HandlesAgree (onEvtConnected s) := by
  unfold onEvtConnected
  split
  · rename_i hmode
    rw [HandlesAgree, hmode] at h
    simpa [HandlesAgree, Handles] using h
  · exact h

theorem notifyMsg_handles (h : HandlesAgree s) : HandlesAgree (notifyMsg s) := by
  unfold notifyMsg
  split
  · exact h
  · exact connected_handles h
  · exact closed_handles _
  · exact h
  · exact h

/-- Whatever happens, and in whatever order, a session is open in its own modes and in no other. -/
theorem step_handles (s : State) (e : Event) (h : HandlesAgree s) : HandlesAgree (step s e) := by
  cases hch : shellChar s e with
  | some ch =>
      obtain ⟨p, k, w, o, heq⟩ := step_typed hch
      rw [heq]
      have hmode : s.mode = .shell := shellChar_mode hch
      exact handleCharShell_handles hmode h
  | none =>
      rcases step_untyped hch with ⟨pos, p, k, w, t, heq⟩ | ⟨b, heq⟩ | ⟨o, -, heq⟩ | ⟨a, heq⟩ | heq
      · rw [heq]
        exact h
      · rw [heq]
        exact triggerShortcut_handles b h
      · rw [heq]
        exact timerMsg_handles h
      · rw [heq]
        exact workerStep_handles a h
      · rw [heq]
        exact notifyMsg_handles h

/-- At most one session is open, and one is exactly outside the shell. -/
theorem Handles.live {m : Mode} {t f q : Option Session} (h : Handles m t f q) :
    (t.toList ++ f.toList ++ q.toList).length ≤ 1 ∧
      (t.toList ++ f.toList ++ q.toList ≠ [] ↔ m ≠ .shell) := by
  obtain ⟨ht, hf, hq⟩ := h
  cases m <;> cases t <;> cases f <;> cases q <;> simp at ht hf hq ⊢

/-! ### The buttons and the automatic Enter -/

/-- What the thread of the session has posted, and that there is one outside the shell only. -/
def WorkerAgree (m : Mode) : Option Phase → List Note → Prop
  | none, notes => m = .shell ∧ notes = []
  | some .starting, notes => m ≠ .shell ∧ notes = []
  | some .running, notes => m ≠ .shell ∧ .closed ∉ notes
  | some .ended, notes => m ≠ .shell ∧ ∃ l, notes = l ++ [.closed] ∧ .closed ∉ l

theorem WorkerAgree.shell {w : Option Phase} {notes : List Note} (h : WorkerAgree .shell w notes) :
    w = none ∧ notes = [] := by
  unfold WorkerAgree at h
  split at h
  · exact ⟨rfl, h.2⟩
  all_goals exact absurd rfl h.1

theorem WorkerAgree.session {m : Mode} (m' : Mode) {w : Option Phase} {notes : List Note}
    (h : WorkerAgree m w notes) (hm : m ≠ .shell) (hm' : m' ≠ .shell) : WorkerAgree m' w notes := by
  unfold WorkerAgree at h ⊢
  split at h
  · exact absurd h.1 hm
  all_goals exact ⟨hm', h.2⟩

/-- A note that is taken and does not say that the session has closed. -/
theorem WorkerAgree.pop {m : Mode} {w : Option Phase} {n : Note} {rest : List Note}
    (h : WorkerAgree m w (n :: rest)) (hn : n ≠ .closed) : WorkerAgree m w rest := by
  cases w with
  | none => exact absurd h.2 (List.cons_ne_nil _ _)
  | some phase =>
      cases phase with
      | starting => exact absurd h.2 (List.cons_ne_nil _ _)
      | running => exact ⟨h.1, fun hmem => h.2 (List.mem_cons_of_mem n hmem)⟩
      | ended =>
          obtain ⟨hm, l, hl, hclosed⟩ := h
          cases l with
          | nil => exact absurd (List.cons.inj hl).1 hn
          | cons a l =>
              exact ⟨hm, l, (List.cons.inj hl).2, fun hmem => hclosed (List.mem_cons_of_mem a hmem)⟩

/-- The note that says that the session has closed is the last one. -/
theorem WorkerAgree.closed {m : Mode} {w : Option Phase} {rest : List Note}
    (h : WorkerAgree m w (.closed :: rest)) : m ≠ .shell ∧ rest = [] := by
  cases w with
  | none => exact absurd h.2 (List.cons_ne_nil _ _)
  | some phase =>
      cases phase with
      | starting => exact absurd h.2 (List.cons_ne_nil _ _)
      | running => exact absurd (List.mem_cons_self ..) h.2
      | ended =>
          obtain ⟨hm, l, hl, hclosed⟩ := h
          cases l with
          | nil => exact ⟨hm, (List.cons.inj hl).2⟩
          | cons a l =>
              have ha : Note.closed = a := (List.cons.inj hl).1
              exact absurd (ha ▸ List.mem_cons_self ..) hclosed

structure Sound (s : State) : Prop where
  handles : HandlesAgree s
  busy : s.mode ≠ .shell → s.buttons = false ∧ s.macroPending = false
  pending : s.macroPending = true →
    s.buttons = false ∧ s.shellInput = s.injected ∧ ∃ b : Shortcut, s.injected = b.command
  idle : s.mode = .shell → s.macroPending = false → s.buttons = true
  worker : WorkerAgree s.mode s.worker s.notes
  autos : AutosAgree s

theorem start_sound : Sound start where
  handles := by simp [HandlesAgree, Handles, start]
  busy h := absurd rfl h
  pending h := Bool.noConfusion h
  idle _ _ := rfl
  worker := ⟨rfl, rfl⟩
  autos := by simp [AutosAgree, start]

/-- What the invariant does not look at. -/
theorem Sound.frame (h : Sound s) (pos : Nat) (p : CString) (k w t : Bool) :
    Sound
      { s with
        shellPos := pos
        pasting := p
        skipLf := k
        swallowNextChar := w
        timerPosted := t } :=
  ⟨h.handles, h.busy, h.pending, h.idle, h.worker, h.autos⟩

theorem Sound.posts {w : Option Phase} {notes : List Note} (h : Sound s)
    (hworker : WorkerAgree s.mode w notes) : Sound { s with worker := w, notes := notes } :=
  ⟨h.handles, h.busy, h.pending, h.idle, hworker, h.autos⟩

/-- The line is free where no automatic Enter is pending. -/
theorem Sound.edits (h : Sound s) (hpending : s.macroPending = false) (timer posted : Bool)
    (line : CString) (pos : Nat) :
    Sound
      { s with
        timerSet := timer
        timerPosted := posted
        macroPending := false
        shellInput := line
        shellPos := pos } where
  handles := h.handles
  busy hmode := ⟨(h.busy hmode).1, rfl⟩
  pending hp := Bool.noConfusion hp
  idle hmode _ := h.idle hmode hpending
  worker := h.worker
  autos := h.autos

/-- A command that is answered ends in the shell with the buttons enabled, or in a session. -/
theorem Answered.sound (h : Answered s s') (hpending : s.macroPending = false)
    (hworker : s.worker = none) (hnotes : s.notes = []) (hautos : AutosAgree s) : Sound s' := by
  cases h with
  | back h =>
      exact
        { handles := h
          busy := fun hmode => absurd rfl hmode
          pending := fun hp => absurd (hpending.symm.trans hp) Bool.false_ne_true
          idle := fun _ _ => rfl
          worker := hworker.symm ▸ ⟨rfl, hnotes⟩
          autos := hautos }
  | opened hm h =>
      exact
        { handles := h
          busy := fun _ => ⟨rfl, hpending⟩
          pending := fun hp => absurd (hpending.symm.trans hp) Bool.false_ne_true
          idle := fun hmode => absurd hmode hm
          worker := ⟨hm, hnotes⟩
          autos := hautos }

/-- A command of the shell, with nothing pending. -/
theorem shellDispatch_sound {line : CString} (h : Handles .shell s.activeTelnet s.activeFinger s.activeQotd)
    (hmode : s.mode = .shell) (hpending : s.macroPending = false) (hworker : s.worker = none)
    (hnotes : s.notes = []) (hautos : AutosAgree s)
    (hline : s.buttons = true ∨ ∃ b : Shortcut, line = b.command) :
    Sound (shellDispatch s line o) := by
  rcases hline with hon | ⟨b, rfl⟩
  · rcases shellDispatch_answered (o := o) line h with hsame | hanswer
    · rw [hsame]
      exact
        { handles := by rwa [HandlesAgree, hmode]
          busy := fun hne => absurd hmode hne
          pending := fun hp => absurd (hpending.symm.trans hp) Bool.false_ne_true
          idle := fun _ _ => hon
          worker := by rw [hmode, hworker, hnotes]; exact ⟨rfl, rfl⟩
          autos := hautos }
    · exact hanswer.sound hpending hworker hnotes hautos
  · exact (shellDispatch_command h b).sound hpending hworker hnotes hautos

/-- Enter, typed or automatic. -/
theorem Sound.commits (h : Sound s) (hmode : s.mode = .shell) (timer posted : Bool)
    {autos : List (Option CString × CString)} (hautos : ∀ auto ∈ autos, auto.1 = some auto.2) :
    Sound
      (shellDispatch
        { s with
          timerSet := timer
          timerPosted := posted
          macroPending := false
          shellInput := []
          shellPos := 0
          autos := autos } s.shellInput o) := by
  obtain ⟨hworker, hnotes⟩ := WorkerAgree.shell (hmode ▸ h.worker)
  have hnone : Handles .shell s.activeTelnet s.activeFinger s.activeQotd := hmode ▸ h.handles
  apply shellDispatch_sound
  · exact hnone
  · exact hmode
  · rfl
  · exact hworker
  · exact hnotes
  · exact hautos
  · cases hpending : s.macroPending with
    | true =>
        obtain ⟨-, hinput, b, hb⟩ := h.pending hpending
        exact .inr ⟨b, hinput.trans hb⟩
    | false => exact .inl (h.idle hmode hpending)

theorem Sound.types (h : Sound s) (hmode : s.mode = .shell)
    (hch : s.macroPending = true → ch = 0x0D) : Sound (handleCharShell s ch o) := by
  by_cases hreturn : ch = 0x0D
  · obtain ⟨timer, heq⟩ := handleCharShell_return s o
    rw [hreturn, heq]
    exact h.commits hmode timer s.timerPosted h.autos
  · have hpending : s.macroPending = false := Bool.eq_false_iff.mpr (mt hch hreturn)
    obtain ⟨timer, line, pos, heq⟩ := handleCharShell_of_ne (s := s) (o := o) hreturn
    rw [heq]
    exact h.edits hpending timer s.timerPosted line pos

theorem Sound.shortcut (h : Sound s) (b : Shortcut) : Sound (triggerShortcut s b) := by
  unfold triggerShortcut
  split
  · rename_i hbuttons
    have hmode : s.mode = .shell := by
      by_contra hne
      rw [(h.busy hne).1] at hbuttons
      exact Bool.noConfusion hbuttons
    have hshort : b.command.take 1023 = b.command := by cases b <;> rfl
    have hstay : ¬ (enableMacroButtons s false).mode ≠ .shell := not_not_intro hmode
    unfold macroInject
    rw [if_neg hstay]
    dsimp only
    rw [cancelMacroTimer_eq, hshort]
    exact
      { handles := h.handles
        busy := fun hne => absurd hmode hne
        pending := fun _ => ⟨rfl, rfl, b, rfl⟩
        idle := fun _ hp => Bool.noConfusion hp
        worker := h.worker
        autos := h.autos }
  · exact h

theorem Sound.timer (h : Sound s) (hdue : s.macroPending = true ∨ s.mode ≠ .shell) :
    Sound (timerMsg s o) := by
  by_cases hmode : s.mode = .shell
  · have hpending : s.macroPending = true := hdue.resolve_right (not_not_intro hmode)
    rw [timerMsg_shell hmode]
    refine h.commits hmode false false fun auto hauto => ?_
    rw [List.mem_append, List.mem_singleton] at hauto
    rcases hauto with hauto | rfl
    · exact h.autos auto hauto
    · rw [if_pos hpending, (h.pending hpending).2.1]
  · rw [timerMsg_other hmode]
    exact h.edits (h.busy hmode).2 false false s.shellInput s.shellPos

theorem Sound.work (h : Sound s) (a : WorkerAct) : Sound (workerStep s a) := by
  have hworker := h.worker
  unfold workerStep
  split
  · rename_i hphase
    rw [hphase] at hworker
    exact h.posts ⟨hworker.1, by rw [hworker.2]; decide⟩
  · rename_i hphase
    rw [hphase] at hworker
    exact h.posts ⟨hworker.1, [.error], by rw [hworker.2]; rfl, by decide⟩
  · rename_i hphase
    rw [hphase] at hworker
    refine hphase ▸ h.posts ⟨hworker.1, ?_⟩
    rw [List.mem_append, not_or]
    exact ⟨hworker.2, by decide⟩
  · rename_i hphase
    rw [hphase] at hworker
    exact h.posts ⟨hworker.1, s.notes, rfl, hworker.2⟩
  · exact h

theorem Sound.connected (h : Sound s) : Sound (onEvtConnected s) := by
  unfold onEvtConnected
  split
  · rename_i hmode
    have hne : s.mode ≠ .shell := hmode ▸ Mode.noConfusion
    have hactive : Mode.telnetActive ≠ .shell := Mode.noConfusion
    exact
      { handles := by
          have hhandles := connected_handles h.handles
          rwa [onEvtConnected, if_pos hmode] at hhandles
        busy := fun _ => h.busy hne
        pending := h.pending
        idle := fun hshell => absurd hshell hactive
        worker := h.worker.session _ hne hactive
        autos := h.autos }
  · exact h

theorem Sound.notify (h : Sound s) : Sound (notifyMsg s) := by
  have hworker := h.worker
  unfold notifyMsg
  split
  · exact h
  · rename_i rest hnotes
    rw [hnotes] at hworker
    exact (h.posts (hworker.pop Note.noConfusion)).connected
  · rename_i rest hnotes
    rw [hnotes] at hworker
    obtain ⟨hmode, hrest⟩ := hworker.closed
    exact
      { handles := closed_handles _
        busy := fun hne => absurd rfl hne
        pending := fun hp => absurd ((h.busy hmode).2.symm.trans hp) Bool.false_ne_true
        idle := fun _ _ => rfl
        worker := ⟨rfl, hrest⟩
        autos := h.autos }
  · rename_i rest hnotes
    rw [hnotes] at hworker
    exact h.posts (hworker.pop Note.noConfusion)
  · rename_i rest hnotes
    rw [hnotes] at hworker
    exact h.posts (hworker.pop Note.noConfusion)

theorem step_sound (s : State) (e : Event) (h : Sound s) (hin : InTime s e) : Sound (step s e) := by
  cases hch : shellChar s e with
  | some ch =>
      obtain ⟨p, k, w, o, heq⟩ := step_typed hch
      rw [heq]
      have hframe := h.frame s.shellPos p k s.swallowNextChar s.timerPosted
      have hmode : s.mode = .shell := shellChar_mode hch
      have htyped := hframe.types (o := o) hmode (hin.1 ch hch)
      exact htyped.frame _ _ _ w _
  | none =>
      rcases step_untyped hch with
        ⟨pos, p, k, w, t, heq⟩ | ⟨b, heq⟩ | ⟨o, hdue, heq⟩ | ⟨a, heq⟩ | heq
      · rw [heq]
        exact h.frame pos p k w t
      · rw [heq]
        exact h.shortcut b
      · rw [heq]
        exact h.timer (hin.2 hdue)
      · rw [heq]
        exact h.work a
      · rw [heq]
        exact h.notify

theorem Sound.agreement (h : Sound s) : Agreement s where
  handles := h.handles.live.1
  live := h.handles.live.2
  buttons hoff := by
    by_cases hmode : s.mode = .shell
    · left
      by_contra hno
      have hon := h.idle hmode (Bool.eq_false_iff.mpr hno)
      rw [hoff] at hon
      exact Bool.noConfusion hon
    · exact .inr (h.handles.live.2.mpr hmode)
  autos := h.autos

/-! ### The steps that break the agreement -/

/-- Another character while an automatic Enter is pending leaves the buttons disabled. -/
theorem not_buttons_of_typed (h : Sound s) (hch : shellChar s e = some ch)
    (hpending : s.macroPending = true) (hne : ch ≠ 0x0D) : ¬ ButtonsAgree (step s e) := by
  obtain ⟨p, k, w, o, heq⟩ := step_typed hch
  obtain ⟨timer, line, pos, hedit⟩ := handleCharShell_of_ne (o := o)
    (s := { s with pasting := p, skipLf := k }) hne
  rw [heq, hedit]
  intro hagree
  have hshell : liveHandles s = [] := by
    by_contra hlive
    exact h.handles.live.2.mp hlive (shellChar_mode hch)
  rcases hagree (h.pending hpending).1 with hp | hlive
  · exact Bool.noConfusion hp
  · exact hlive hshell

theorem shellDispatch_autos {cmd : CString} (hmode : s.mode = .shell) (h : HandlesAgree s) :
    (shellDispatch s cmd o).autos = s.autos := by
  have hnone : Handles .shell s.activeTelnet s.activeFinger s.activeQotd := hmode ▸ h
  rcases shellDispatch_answered (o := o) cmd hnone with hsame | hanswer
  · rw [hsame]
  · generalize shellDispatch s cmd o = s' at hanswer
    cases hanswer with
    | back _ => rfl
    | opened _ _ => rfl

/-- A `WM_TIMER` behind a cancelled automatic Enter commits whatever line there is. -/
theorem not_autos_of_stale (h : HandlesAgree s) (hdue : takesTimer s e)
    (hpending : ¬ s.macroPending) (hmode : s.mode = .shell) : ¬ AutosAgree (step s e) := by
  cases e with
  | timer o =>
      have hstep : step s (.timer o) = timerMsg s o := if_pos (of_decide_eq_true hdue)
      rw [hstep, timerMsg_shell hmode]
      intro hagree
      unfold AutosAgree at hagree
      rw [shellDispatch_autos, if_neg hpending] at hagree
      · have hlast := hagree (none, s.shellInput)
          (List.mem_append_right _ (List.mem_singleton_self _))
        cases hlast
      · exact hmode
      · exact h
  | _ => exact absurd hdue Bool.false_ne_true

theorem not_agreement_of_late (s : State) (e : Event) (h : Sound s) (hlate : ¬ InTime s e) :
    ¬ Agreement (step s e) := by
  intro hagree
  refine hlate ⟨fun ch hch hpending => ?_, fun hdue => ?_⟩
  · by_contra hne
    exact not_buttons_of_typed h hch hpending hne hagree.buttons
  · by_contra hno
    rw [not_or, not_not] at hno
    exact not_autos_of_stale h.handles hdue hno.1 hno.2 hagree.autos

end Invariants

/-! ### Every run -/

/-- In every run the sessions agree with the mode, and the buttons and the automatic Enters agree with both
all along exactly in the runs whose steps are in time. -/
theorem agreement_iff (es : List Event) :
    HandlesAgree (run step start es) ∧
      ((∀ es', es' <+: es → Agreement (run step start es')) ↔ Guarded step InTime start es) :=
  ⟨run_inv step_handles start_sound.handles es,
    safe_iff_guarded step_sound (fun _ => Sound.agreement) not_agreement_of_late start_sound es⟩

/-- A shortcut whose automatic Enter o a session, which ends by itself. -/
theorem agreement_of_shortcut :
    ∀ es', es' <+: [.click .qotd, .expire, .timer true, .worker .connect, .notify, .worker .finish, .notify] →
      Agreement (run step start es') :=
  (agreement_iff _).2.mpr (by decide +kernel)

/-- A letter typed while an automatic Enter is pending: nothing is pending any more, no session is open, and
the buttons stay disabled. -/
theorem shortcuts_stay_disabled :
    ¬ ∀ es : List Event, Agreement (run step start es) := by
  intro hall
  have hagree := (hall [.click .telnetNews, .char 0x78 false]).buttons
  exact absurd hagree (by decide)

end UnicornSuite.TelnetShell
