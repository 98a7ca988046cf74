import UnicornSuite.LibRun

/-! The sessions of the NABU tab (`nabu_native_module.c`): the thread of the user interface, which starts
and stops a worker, and the workers, each at its own place in `nn_worker` or `nn_bridge_worker`. They share
the stop event, the running flag, the state line, the audio device, the frame, the machine and the ring of
keys. A worker has the number of its session, a key that of the session it was pressed in. -/

namespace UnicornSuite.NabuSession

/-- What is on the desk: the emulator or a real machine on a cable. -/
inductive Mode where
  | emulator | serial
  deriving DecidableEq

/-- The state line. -/
inductive Status where
  | idle | connecting | booting | ready | noLink | failed | bridging
  deriving DecidableEq

/-- What a worker changes of the tab. -/
inductive Target where
  | running | state | audio | frame
  deriving DecidableEq

/-- Where a worker is. -/
inductive Pc where
  /-- `nn_worker`: before the machine, in `nabu_core_init`, after it. -/
  | rom | enter | build | booted (link : Bool) | audio
  /-- Its loop, from the test of the stop event. -/
  | top | drain | frame | show | pace | push | latch
  | closeAudio | shutdown
  /-- `nn_bridge_worker`: in `nabu_serial_open`, its loop, `nabu_serial_close`. -/
  | openLink | bridging | pumpTop | pump | closeLink
  /-- The ends of both. -/
  | failState | failRunning | clearRunning | setIdle
  deriving DecidableEq

/-- The place is one of `nn_worker`. -/
def Pc.emulates : Pc → Bool
  | .rom | .enter | .build | .booted _ | .audio | .top | .drain | .frame | .show | .pace | .push | .latch
  | .closeAudio | .shutdown => true
  | _ => false

/-- A worker that is alive; `told` once `nn_stop` has set the stop event for it. -/
structure Worker where
  session : Nat
  pc : Pc
  told : Bool := false
  deriving DecidableEq

structure Key where
  code : UInt8
  session : Nat
  deriving DecidableEq

/-- A write of a worker, with the session of the tab at that moment. -/
structure Write where
  writer : Nat
  session : Nat
  what : Target
  deriving DecidableEq

/-- The tab. -/
structure Tab where
  workers : List Worker := []
  stopEvent : Option Bool := none
  running : Bool := false
  state : Status := .idle
  /-- The handle `g_thread`. -/
  thread : Option Nat := none
  mode : Mode := .emulator
  haveFrame : Bool := false
  wave : Bool := false
  inited : Bool := false
  keyq : List Key := []
  startEnabled : Bool := true
  stopEnabled : Bool := false
  /-- The tab is open. -/
  active : Bool := true
  /-- The user interface waits in `nn_stop`. -/
  stopping : Bool := false
  /-- The last session, and whether it is one of the emulator. -/
  session : Nat := 0
  emulating : Bool := false
  writes : List Write := []
  /-- The keys that went into a machine, with the session of its worker. -/
  delivered : List (Key × Nat) := []

/-- A slot of the ring stays free. -/
abbrev keyqSize : Nat := 64

/-! ### The user interface -/

def keyPush (t : Tab) (code : UInt8) : Tab :=
  if t.keyq.length + 1 < keyqSize then { t with keyq := t.keyq ++ [⟨code, t.session⟩] } else t

/-- A thread is created for the next session. -/
def createThread (t : Tab) (mode : Mode) : Tab :=
  { t with
    session := t.session + 1
    emulating := mode = .emulator
    workers := t.workers ++ [⟨t.session + 1, if mode = .serial then .openLink else .rom, false⟩]
    thread := some (t.session + 1)
    startEnabled := false
    stopEnabled := true }

/-- `nn_start`, with the mode where the fields are right, and whether the thread can be created. -/
def start (t : Tab) (fields : Option Mode) (created : Bool) : Tab :=
  if t.running then t
  else
    match fields with
    | none => { t with state := .failed }
    | some mode =>
        let t :=
          { t with
            mode := mode
            haveFrame := t.haveFrame && decide (mode = .serial)
            stopEvent := some false
            running := true
            state := .connecting }
        if created then createThread t mode
        else { t with thread := none, running := false, state := .failed }

/-- The stop event is set. -/
def tell (t : Tab) : Tab :=
  match t.stopEvent with
  | none => t
  | some _ => { t with stopEvent := some true, workers := t.workers.map ({ · with told := true }) }

/-- What `nn_stop` does when it no longer waits. -/
def stopped (t : Tab) : Tab :=
  { t with
    thread := none
    running := false
    haveFrame := false
    startEnabled := true
    stopEnabled := false
    stopping := false }

def stop (t : Tab) : Tab :=
  let t := tell t
  if t.thread.isSome then { t with stopping := true } else stopped t

/-- The thread that `nn_stop` waits for has ended. -/
def Tab.ThreadEnded (t : Tab) : Prop := ∀ w ∈ t.workers, t.thread ≠ some w.session

instance (t : Tab) : Decidable t.ThreadEnded := inferInstanceAs (Decidable (∀ w ∈ t.workers, _))

/-! ### Workers -/

/-- What a call of a worker answers: whether it went well, and whether the modem is up. -/
structure Answer where
  ok : Bool := true
  link : Bool := true

section

variable (t : Tab) (w : Worker)

/-- The worker goes on. -/
def goto (pc : Pc) : Tab :=
  { t with workers := t.workers.map fun v => if v.session = w.session then { v with pc := pc } else v }

/-- The thread ends. -/
def exit : Tab := { t with workers := t.workers.filter (·.session ≠ w.session) }

def wrote (what : Target) : Tab := { t with writes := t.writes ++ [⟨w.session, t.session, what⟩] }

def setState (st : Status) : Tab := wrote { t with state := st } w .state

/-- The event is set, as the worker sees it. -/
def Tab.stopSet : Bool := t.stopEvent = some true

/-- One step of a worker; a step can take any time. -/
def work (a : Answer) : Tab :=
  match w.pc with
  | .rom => goto t w (if a.ok then .enter else .failState)
  | .enter => goto t w (if t.inited then .failState else .build)
  | .build => if a.ok then goto { t with inited := true } w (.booted a.link) else goto t w .failState
  | .booted link => goto (setState t w (if link then .booting else .noLink)) w .audio
  | .audio => goto (wrote { t with wave := t.wave || a.ok } w .audio) w .top
  | .top => goto t w (if t.stopSet then .closeAudio else .drain)
  | .drain =>
      match t.keyq with
      | [] => goto t w .frame
      | k :: rest => { t with keyq := rest, delivered := t.delivered ++ [(k, w.session)] }
  | .frame => goto t w .show
  | .show => goto (wrote { t with haveFrame := true } w .frame) w .pace
  | .pace => if t.stopSet || a.ok then goto t w .push else t
  | .push => goto (if t.wave then wrote t w .audio else t) w .latch
  | .latch => goto (if t.state = .booting ∧ a.ok then setState t w .ready else t) w .top
  | .closeAudio => goto (wrote { t with wave := false } w .audio) w .shutdown
  | .shutdown => goto { t with inited := false } w .clearRunning
  | .openLink => goto t w (if a.ok then .bridging else .failState)
  | .bridging => goto (setState t w .bridging) w .pumpTop
  | .pumpTop => goto t w (if t.stopSet then .closeLink else .pump)
  | .pump => goto t w (if a.ok then .pumpTop else .closeLink)
  | .closeLink => goto t w .clearRunning
  | .failState => goto (setState t w .failed) w .failRunning
  | .failRunning => exit (wrote { t with running := false } w .running) w
  | .clearRunning => goto (wrote { t with running := false } w .running) w .setIdle
  | .setIdle => exit (setState t w .idle) w

end

/-! ### Steps -/

inductive Event where
  | connect (fields : Option Mode) (created : Bool)
  | disconnect
  /-- `nn_stop` comes back: the thread has ended, or five seconds are over. -/
  | stopEnds
  | stopTimesOut
  | leave
  | enter
  | modeChange (mode : Mode)
  | key (code : UInt8)
  | work (session : Nat) (a : Answer)

/-- The user interface takes a click, and Connect can be clicked. -/
def Tab.Accepts (t : Tab) : Prop := t.active = true ∧ t.stopping = false ∧ t.startEnabled = true

instance (t : Tab) : Decidable t.Accepts := inferInstanceAs (Decidable (_ ∧ _))

def step (t : Tab) : Event → Tab
  | .connect fields created => if t.Accepts then start t fields created else t
  | .disconnect => if t.active ∧ ¬t.stopping ∧ t.stopEnabled then stop t else t
  | .stopEnds => if t.stopping ∧ t.ThreadEnded then stopped t else t
  | .stopTimesOut => if t.stopping then stopped t else t
  | .leave =>
      if t.active ∧ ¬t.stopping then
        let t := { t with active := false }
        if t.running then stop t else t
      else t
  | .enter => if t.stopping then t else { t with active := true }
  | .modeChange mode =>
      if t.active ∧ ¬t.stopping ∧ ¬t.running then { t with mode := mode, state := .idle } else t
  | .key code => if t.active ∧ ¬t.stopping ∧ t.running then keyPush t code else t
  | .work session a =>
      match t.workers.find? (·.session = session) with
      | some w => work t w a
      | none => t

end UnicornSuite.NabuSession

/-! One NABU at a time, over every order of clicks, keys and steps of workers. A session is alone exactly in
the runs where every Connect finds that the last worker has ended and, for the emulator, that no key is
left in the ring: `nn_stop` gives up after five seconds, and nothing empties the ring. -/

namespace UnicornSuite.NabuSession

open Machine

/-! ### What the tab promises -/

structure Exclusive (t : Tab) : Prop where
  /-- One worker is alive. -/
  one : t.workers.length ≤ 1
  /-- A worker that was told to stop finds the stop event set. -/
  told : ∀ w ∈ t.workers, w.told = true → t.stopSet = true
  /-- A worker writes in its own session. -/
  writes : ∀ m ∈ t.writes, m.session = m.writer
  /-- A key goes into the machine of its session, and no other waits for the machine. -/
  delivered : ∀ d ∈ t.delivered, d.1.session = d.2
  waiting : t.emulating = true → ∀ k ∈ t.keyq, k.session = t.session

/-- A Connect that starts a session finds no worker, and no key where it starts the emulator. -/
def FindsNothing (t : Tab) : Event → Prop
  | .connect (some mode) created =>
      t.Accepts → t.running = false → t.workers = [] ∧ (created = true → mode = .emulator → t.keyq = [])
  | _ => True

/-! ### The state of every run -/

structure Sound (t : Tab) : Prop where
  one : t.workers.length ≤ 1
  own : ∀ w ∈ t.workers, w.session = t.session ∧ (w.pc.emulates = true → t.emulating = true)
  told : ∀ w ∈ t.workers, w.told = true → t.stopSet = true
  event : ∀ w ∈ t.workers, t.stopEvent.isSome
  /-- Connect can be clicked, or `nn_stop` waits, only when the workers were told. -/
  free : t.startEnabled = true ∨ t.stopping = true → ∀ w ∈ t.workers, w.told = true
  writes : ∀ m ∈ t.writes, m.session = m.writer
  delivered : ∀ d ∈ t.delivered, d.1.session = d.2
  waiting : t.emulating = true → ∀ k ∈ t.keyq, k.session = t.session
  pressed : ∀ k ∈ t.keyq, k.session ≤ t.session

variable {t : Tab}

theorem Sound.exclusive (h : Sound t) : Exclusive t :=
  ⟨h.one, h.told, h.writes, h.delivered, h.waiting⟩

theorem sound_start : Sound {} :=
  ⟨Nat.zero_le _, nofun, nofun, nofun, fun _ => nofun, nofun, nofun, fun _ => nofun, nofun⟩

/-! ### The user interface -/

theorem keyPush_sound (h : Sound t) (code : UInt8) : Sound (keyPush t code) := by
  rw [keyPush]
  split_ifs
  · refine ⟨h.one, h.own, h.told, h.event, h.free, h.writes, h.delivered, fun hemu k hk => ?_,
      fun k hk => ?_⟩
    · obtain hold | hnew := List.mem_append.mp hk
      · exact h.waiting hemu k hold
      · rw [List.mem_singleton.mp hnew]
    · obtain hold | hnew := List.mem_append.mp hk
      · exact h.pressed k hold
      · obtain rfl := List.mem_singleton.mp hnew
        exact Nat.le_refl _
  · exact h

theorem tell_sound (h : Sound t) : Sound (tell t) ∧ ∀ w ∈ (tell t).workers, w.told = true := by
  rw [tell]
  split
  · rename_i hevent
    have hnone : ∀ w ∈ t.workers, False := fun w hw => by
      have hsome := h.event w hw
      rw [hevent] at hsome
      cases hsome
    exact ⟨h, fun w hw => (hnone w hw).elim⟩
  · have htold : ∀ w ∈ t.workers.map ({ · with told := true }), w.told = true := by
      intro w hw
      obtain ⟨v, -, rfl⟩ := List.mem_map.mp hw
      rfl
    refine ⟨⟨?_, fun w hw => ?_, fun _ _ _ => rfl, fun _ _ => rfl, fun _ => htold, h.writes, h.delivered,
      h.waiting, h.pressed⟩, htold⟩
    · rw [List.length_map]
      exact h.one
    · obtain ⟨v, hv, rfl⟩ := List.mem_map.mp hw
      exact h.own v hv

theorem stopped_sound (h : Sound t) (htold : ∀ w ∈ t.workers, w.told = true) : Sound (stopped t) :=
  ⟨h.one, h.own, h.told, h.event, fun _ => htold, h.writes, h.delivered, h.waiting, h.pressed⟩

theorem stop_sound (h : Sound t) : Sound (stop t) := by
  obtain ⟨hsound, htold⟩ := tell_sound h
  rw [stop]
  split_ifs
  · exact ⟨hsound.one, hsound.own, hsound.told, hsound.event, fun _ => htold, hsound.writes,
      hsound.delivered, hsound.waiting, hsound.pressed⟩
  · exact stopped_sound hsound htold

theorem start_sound (h : Sound t) (haccepts : t.Accepts) {fields : Option Mode} {created : Bool}
    (hguard : FindsNothing t (.connect fields created)) : Sound (start t fields created) := by
  cases fields with
  | none =>
      rw [start]
      split_ifs
      · exact h
      · exact ⟨h.one, h.own, h.told, h.event, h.free, h.writes, h.delivered, h.waiting, h.pressed⟩
  | some mode =>
      rw [start]
      dsimp only
      split_ifs with hrunning hcreated
      · exact h
      all_goals
        obtain ⟨hworkers, hkeys⟩ := hguard haccepts (Bool.eq_false_iff.mpr hrunning)
        have hnone (w : Worker) (hw : w ∈ t.workers) : False := by
          rw [hworkers] at hw
          cases hw
      · have hnew (w : Worker)
            (hw : w ∈ t.workers ++ [⟨t.session + 1, if mode = .serial then .openLink else .rom, false⟩]) :
            w = ⟨t.session + 1, if mode = .serial then .openLink else .rom, false⟩ := by
          rw [hworkers] at hw
          exact List.mem_singleton.mp hw
        refine ⟨?_, fun w hw => ?_, fun w hw htold => ?_, fun _ _ => rfl, fun hfree w hw => ?_, h.writes,
          h.delivered, fun hemu k hk => ?_, fun k hk => Nat.le_succ_of_le (h.pressed k hk)⟩
        · change (t.workers ++ [_]).length ≤ 1
          rw [hworkers]
          exact Nat.le_refl 1
        · rw [hnew w hw]
          refine ⟨rfl, fun hemu => ?_⟩
          cases mode with
          | emulator => rfl
          | serial => cases hemu
        · rw [hnew w hw] at htold
          cases htold
        · obtain hstart | hstopping := hfree
          · cases hstart
          · exact absurd (haccepts.2.1.symm.trans hstopping) nofun
        · have hempty : t.keyq = [] := hkeys hcreated (of_decide_eq_true hemu)
          have hmem : k ∈ t.keyq := hk
          rw [hempty] at hmem
          cases hmem
      · exact ⟨h.one, h.own, fun w hw => (hnone w hw).elim, fun w hw => (hnone w hw).elim,
          fun _ w hw => (hnone w hw).elim, h.writes, h.delivered, h.waiting, h.pressed⟩

/-! ### Workers -/

section

variable {w : Worker}

theorem Sound.alone (h : Sound t) (hw : w ∈ t.workers) : t.workers = [w] := by
  obtain ⟨v, hv⟩ : ∃ v, t.workers = [v] := by
    apply List.length_eq_one_iff.mp
    exact Nat.le_antisymm h.one (List.length_pos_of_mem hw)
  rw [hv] at hw ⊢
  rw [List.mem_singleton.mp hw]

/-- What the tab shows, and the machine, can change. -/
theorem Sound.shown (h : Sound t) (running : Bool) (state : Status) (haveFrame wave inited : Bool) :
    Sound
      { t with
        running := running, state := state, haveFrame := haveFrame, wave := wave, inited := inited } :=
  ⟨h.one, h.own, h.told, h.event, h.free, h.writes, h.delivered, h.waiting, h.pressed⟩

theorem Sound.writing (h : Sound t) (hw : w ∈ t.workers) (what : Target) : Sound (wrote t w what) := by
  refine ⟨h.one, h.own, h.told, h.event, h.free, fun m hm => ?_, h.delivered, h.waiting, h.pressed⟩
  obtain hold | hnew := List.mem_append.mp hm
  · exact h.writes m hold
  · rw [List.mem_singleton.mp hnew]
    exact (h.own w hw).1.symm

theorem Sound.goesOn (h : Sound t) (hw : w ∈ t.workers) {pc : Pc}
    (hpc : pc.emulates = true → t.emulating = true) : Sound (goto t w pc) := by
  have hworkers : (goto t w pc).workers = [{ w with pc := pc }] := by
    change t.workers.map _ = _
    rw [h.alone hw]
    simp
  have hmem {v : Worker} (hv : v ∈ (goto t w pc).workers) : v = { w with pc := pc } := by
    rw [hworkers] at hv
    exact List.mem_singleton.mp hv
  refine ⟨?_, fun v hv => ?_, fun v hv htold => ?_, fun v hv => h.event w hw, fun hfree v hv => ?_, h.writes,
    h.delivered, h.waiting, h.pressed⟩
  · rw [hworkers]
    exact Nat.le_refl 1
  · rw [hmem hv]
    exact ⟨(h.own w hw).1, hpc⟩
  · rw [hmem hv] at htold
    exact h.told w hw htold
  · rw [hmem hv]
    exact h.free hfree w hw

theorem Sound.ends (h : Sound t) (w : Worker) : Sound (exit t w) := by
  have hmem {v : Worker} (hv : v ∈ (exit t w).workers) : v ∈ t.workers := (List.mem_filter.mp hv).1
  exact ⟨Nat.le_trans (List.length_filter_le _ _) h.one, fun v hv => h.own v (hmem hv),
    fun v hv => h.told v (hmem hv), fun v hv => h.event v (hmem hv), fun hfree v hv => h.free hfree v (hmem hv),
    h.writes, h.delivered, h.waiting, h.pressed⟩

/-- The next key of the ring goes into the machine. -/
theorem deliver_sound (h : Sound t) (hw : w ∈ t.workers) (hemu : t.emulating = true) {k : Key}
    {rest : List Key} (hkeys : t.keyq = k :: rest) :
    Sound { t with keyq := rest, delivered := t.delivered ++ [(k, w.session)] } := by
  have hrest {v : Key} (hv : v ∈ rest) : v ∈ t.keyq := by
    rw [hkeys]
    exact List.mem_cons_of_mem _ hv
  refine ⟨h.one, h.own, h.told, h.event, h.free, h.writes, fun d hd => ?_,
    fun hemu v hv => h.waiting hemu v (hrest hv), fun v hv => h.pressed v (hrest hv)⟩
  obtain hold | hnew := List.mem_append.mp hd
  · exact h.delivered d hold
  · rw [List.mem_singleton.mp hnew]
    have hfirst : k ∈ t.keyq := by
      rw [hkeys]
      exact List.mem_cons_self
    exact (h.waiting hemu k hfirst).trans (h.own w hw).1.symm

theorem work_sound (h : Sound t) (hw : w ∈ t.workers) (a : Answer) : Sound (work t w a) := by
  have hown := (h.own w hw).2
  have hstate (st : Status) : Sound (setState t w st) :=
    (h.shown t.running st t.haveFrame t.wave t.inited).writing hw .state
  have hrunning : Sound (wrote { t with running := false } w .running) :=
    (h.shown false t.state t.haveFrame t.wave t.inited).writing hw .running
  have hframe : Sound (wrote { t with haveFrame := true } w .frame) :=
    (h.shown t.running t.state true t.wave t.inited).writing hw .frame
  have hwave (on : Bool) : Sound (wrote { t with wave := on } w .audio) :=
    (h.shown t.running t.state t.haveFrame on t.inited).writing hw .audio
  have hinited (on : Bool) : Sound { t with inited := on } :=
    h.shown t.running t.state t.haveFrame t.wave on
  rw [work]
  cases hpc : w.pc <;> rw [hpc] at hown <;> dsimp only
  case rom | enter | frame | top => exact h.goesOn hw fun _ => hown rfl
  case build =>
      split_ifs
      · exact (hinited true).goesOn hw fun _ => hown rfl
      · exact h.goesOn hw nofun
  case booted => exact (hstate _).goesOn hw fun _ => hown rfl
  case audio => exact (hwave _).goesOn hw fun _ => hown rfl
  case drain =>
      split
      · exact h.goesOn hw fun _ => hown rfl
      · rename_i hkeys
        exact deliver_sound h hw (hown rfl) hkeys
  case «show» => exact hframe.goesOn hw fun _ => hown rfl
  case pace =>
      split_ifs
      · exact h.goesOn hw fun _ => hown rfl
      · exact h
  case push =>
      split_ifs
      · exact (h.writing hw .audio).goesOn hw fun _ => hown rfl
      · exact h.goesOn hw fun _ => hown rfl
  case latch =>
      split_ifs
      · exact (hstate .ready).goesOn hw fun _ => hown rfl
      · exact h.goesOn hw fun _ => hown rfl
  case closeAudio => exact (hwave false).goesOn hw fun _ => hown rfl
  case shutdown => exact (hinited false).goesOn hw nofun
  case openLink => exact h.goesOn hw (by split_ifs <;> nofun)
  case bridging => exact (hstate .bridging).goesOn hw nofun
  case pumpTop => exact h.goesOn hw (by split_ifs <;> nofun)
  case pump => exact h.goesOn hw (by split_ifs <;> nofun)
  case closeLink => exact h.goesOn hw nofun
  case failState => exact (hstate .failed).goesOn hw nofun
  case failRunning => exact hrunning.ends w
  case clearRunning => exact hrunning.goesOn hw nofun
  case setIdle => exact (hstate .idle).ends w

end

/-! ### Steps -/

theorem step_sound (h : Sound t) {e : Event} (hguard : FindsNothing t e) : Sound (step t e) := by
  cases e with
  | connect fields created =>
      rw [step]
      split_ifs with haccepts
      · exact start_sound h haccepts hguard
      · exact h
  | disconnect =>
      rw [step]
      split_ifs
      · exact stop_sound h
      · exact h
  | stopEnds =>
      rw [step]
      split_ifs with hends
      · exact stopped_sound h (h.free (.inr hends.1))
      · exact h
  | stopTimesOut =>
      rw [step]
      split_ifs with hstopping
      · exact stopped_sound h (h.free (.inr hstopping))
      · exact h
  | leave =>
      have hleft : Sound { t with active := false } :=
        ⟨h.one, h.own, h.told, h.event, h.free, h.writes, h.delivered, h.waiting, h.pressed⟩
      rw [step]
      dsimp only
      split_ifs
      · exact stop_sound hleft
      · exact hleft
      · exact h
  | enter =>
      rw [step]
      split_ifs
      · exact h
      · exact ⟨h.one, h.own, h.told, h.event, h.free, h.writes, h.delivered, h.waiting, h.pressed⟩
  | modeChange mode =>
      rw [step]
      split_ifs
      · exact ⟨h.one, h.own, h.told, h.event, h.free, h.writes, h.delivered, h.waiting, h.pressed⟩
      · exact h
  | key code =>
      rw [step]
      split_ifs
      · exact keyPush_sound h code
      · exact h
  | work session a =>
      rw [step]
      split
      · rename_i w hfind
        exact work_sound h (List.mem_of_find?_eq_some hfind) a
      · exact h

/-- A Connect that finds a worker arms the stop event again under it, and one that finds keys leaves them
to the new machine. -/
theorem connect_misses (h : Sound t) {fields : Option Mode} {created : Bool}
    (hno : ¬FindsNothing t (.connect fields created)) : ¬Exclusive (step t (.connect fields created)) := by
  cases fields with
  | none => exact absurd trivial hno
  | some mode =>
      simp only [FindsNothing, Classical.not_imp] at hno
      obtain ⟨haccepts, hrunning, hfinds⟩ := hno
      intro hexclusive
      rw [step, if_pos haccepts, start, hrunning] at hexclusive
      dsimp only at hexclusive
      by_cases hworkers : t.workers = []
      · obtain ⟨hcreated, hmode, hkeys⟩ : created = true ∧ mode = .emulator ∧ t.keyq ≠ [] := by
          simpa only [hworkers, true_and, Classical.not_imp] using hfinds
        obtain ⟨k, hk⟩ := List.exists_mem_of_ne_nil _ hkeys
        rw [if_neg nofun, if_pos hcreated] at hexclusive
        have hnext : k.session = t.session + 1 := hexclusive.waiting (decide_eq_true hmode) k hk
        have hpressed := h.pressed k hk
        omega
      · obtain ⟨w, hw⟩ := List.exists_mem_of_ne_nil _ hworkers
        have htold := h.free (.inl haccepts.2.2) w hw
        rw [if_neg nofun] at hexclusive
        split_ifs at hexclusive
        · have hset := hexclusive.told w (List.mem_append_left _ hw) htold
          cases hset
        · have hset := hexclusive.told w hw htold
          cases hset

/-- A tab is exclusive all along a run exactly when every Connect of the run that starts a session finds no
worker and, for the emulator, no key in the ring. -/
theorem session_exclusive_iff (evs : List Event) :
    (∀ evs', evs' <+: evs → Exclusive (run step {} evs')) ↔ Guarded step FindsNothing {} evs := by
  apply safe_iff_guarded (I := Sound) _ _ _ sound_start
  · exact fun t e h hguard => step_sound h hguard
  · exact fun t h => h.exclusive
  · intro t e h hno
    cases e with
    | connect fields created => exact connect_misses h hno
    | _ => exact absurd trivial hno

/-- The lookup of the host takes more than five seconds; Disconnect, and Connect again. -/
def lateRun : List Event :=
  [.connect (some .emulator) true, .work 1 {}, .work 1 {}, .disconnect, .stopTimesOut,
    .connect (some .emulator) true]

/-- A key is pressed in a session that fails, and the next session boots. -/
def keyRun : List Event :=
  [.connect (some .emulator) true, .key 0x41, .work 1 {}, .work 1 {}, .work 1 { ok := false }, .work 1 {},
    .work 1 {}, .disconnect, .stopEnds, .connect (some .emulator) true, .work 2 {}, .work 2 {}, .work 2 {},
    .work 2 {}, .work 2 {}, .work 2 {}, .work 2 {}]

/-- The first worker lives beside the second and no longer finds the event set; the key goes into the second
machine. -/
theorem sessions_overlap :
    ¬Exclusive (run step {} lateRun) ∧ ¬Exclusive (run step {} keyRun) ∧
      (run step {} lateRun).workers.map (·.told) = [true, false] ∧
      (run step {} lateRun).stopEvent = some false ∧
      (run step {} keyRun).delivered = [(⟨0x41, 1⟩, 2)] := by
  refine ⟨fun h => absurd h.one (by decide), fun h => ?_, by decide, by decide, by decide⟩
  have hkey : (⟨0x41, 1⟩, 2) ∈ (run step {} keyRun).delivered := by decide
  exact absurd (h.delivered _ hkey) (by decide)

end UnicornSuite.NabuSession
