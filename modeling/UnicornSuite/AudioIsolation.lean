import UnicornSuite.LibRun
import UnicornSuite.AudioService
import Mathlib.Data.List.Count
import Mathlib.Data.List.Perm.Basic

/-! Playback after playback. At most one worker runs, and a request that is refused because one runs changes
nothing. A playback is safe from the window of an earlier one in the runs in which each one begins with that
window gone, and the ledger balances in the runs in which a request that is accepted finds the globals that
it sets empty; in every other run it fails at the first such request. -/

namespace UnicornSuite.Audio

open Machine

/-! ### What is claimed of a state -/

/-- The windows of the playback that runs. -/
def currentWindows (s : State) : List Window := s.windows.filter fun w => w.hwnd.owner = s.serial

/-- The playback that runs is not stopped, and neither its window nor its meter is touched. -/
structure Unharmed (s s' : State) : Prop where
  stop : s'.stopEvent = s.stopEvent
  window : currentWindows s' = currentWindows s
  meter : s.meter = some s.serial → s'.meter = s.meter

/-- A button, a close or a message of a window. -/
def Concerns (s : State) (h : Res) (e : Event) : Prop :=
  e = .stopClick h ∨ e = .close h ∨ e = .dispatch ∧ s.queue.head?.map (·.1) = some h

/-- No window of an ended playback can do anything to the one that runs. -/
def Isolated (s : State) : Prop :=
  s.playing = true → ∀ w ∈ s.windows, w.hwnd.owner ≠ s.serial →
    ∀ e, Concerns s w.hwnd e → Unharmed s (step s e)

/-- What the globals hold. -/
def globals (s : State) : List Res :=
  s.playUrl.toList ++ s.playName.toList ++ s.inBuf.toList ++ s.pcm.toList ++ s.thread.toList

/-- What the globals and the windows hold. -/
def owned (s : State) : List Res := globals s ++ s.windows.map (·.hwnd)

/-- What the globals hold while something plays is its own. -/
def Own (s : State) : Prop := s.playing = true → ∀ r ∈ globals s, r.owner = s.serial

/-- Each resource is released once, or still held, by the playback that made it if one runs. -/
structure Balanced (s : State) : Prop where
  once : s.alloc.Nodup
  ledger : (s.freed ++ owned s).Perm s.alloc
  own : Own s

/-! ### The conditions -/

/-- The request gets past the checks. -/
def accepted (s : State) : Event → Bool
  | .playUrl url _ => s.stopping = none ∧ url ≠ "" ∧ !s.playing
  | .playBytes len known _ _ => s.stopping = none ∧ len ≠ 0 ∧ known ∧ !s.playing
  | _ => false

def Event.room : Event → Room
  | .playUrl _ room => room
  | .playBytes _ _ _ room => room
  | _ => { name := false, buf := false, window := false, thread := false }

/-- The request starts a thread. -/
def begins (s : State) (e : Event) : Bool := accepted s e && e.room.buf && e.room.thread

/-- A playback begins with no window left. -/
def WindowGone (s : State) (e : Event) : Prop := begins s e → s.windows = []

/-- What a request writes over. -/
def overwritten (s : State) (e : Event) : List Res :=
  if accepted s e then
    match e with
    | .playUrl _ room =>
        if room.buf then
          s.playUrl.toList ++ s.playName.toList ++ s.inBuf.toList ++ s.thread.toList
        else s.playUrl.toList
    | .playBytes _ _ _ room =>
        s.playUrl.toList ++ s.playName.toList ++ s.inBuf.toList ++
          if room.buf then s.thread.toList else []
    | _ => []
  else []

/-- A request that is accepted finds the globals that it sets empty. -/
def NothingLeft (s : State) (e : Event) : Prop := overwritten s e = []

instance (s : State) (e : Event) : Decidable (WindowGone s e) := inferInstanceAs (Decidable (_ → _))

instance (s : State) (e : Event) : Decidable (NothingLeft s e) := inferInstanceAs (Decidable (_ = _))

/-! ### What does not change -/

/-- What a step of the window or of the worker leaves alone. -/
structure Scene where
  playing : Bool
  thread : Option Res
  workers : List (Nat × Pc)
  stopping : Option (Option Res × Option Res)
  serial : Nat
  hwnds : List Res

def scene (s : State) : Scene :=
  { playing := s.playing, thread := s.thread, workers := s.workers, stopping := s.stopping,
    serial := s.serial, hwnds := s.windows.map (·.hwnd) }

/-- What a message leaves alone besides. -/
structure Books where
  playUrl : Option Res
  playName : Option Res
  inBuf : Option Res
  pcm : Option Res
  next : Nat
  alloc : List Res
  freed : List Res

def books (s : State) : Books :=
  { playUrl := s.playUrl, playName := s.playName, inBuf := s.inBuf, pcm := s.pcm, next := s.next,
    alloc := s.alloc, freed := s.freed }

def Still (s s' : State) : Prop := scene s' = scene s

def Calm (s s' : State) : Prop := Still s s' ∧ books s' = books s

section Frame

variable {s s' s'' : State}

theorem Still.playing (h : Still s s') : s'.playing = s.playing := congrArg Scene.playing h

theorem Still.thread (h : Still s s') : s'.thread = s.thread := congrArg Scene.thread h

theorem Still.workers (h : Still s s') : s'.workers = s.workers := congrArg Scene.workers h

theorem Still.stopping (h : Still s s') : s'.stopping = s.stopping := congrArg Scene.stopping h

theorem Still.serial (h : Still s s') : s'.serial = s.serial := congrArg Scene.serial h

theorem Still.hwnds (h : Still s s') : s'.windows.map (·.hwnd) = s.windows.map (·.hwnd) :=
  congrArg Scene.hwnds h

theorem Still.trans (h : Still s s') (h' : Still s' s'') : Still s s'' := Eq.trans h' h

theorem Calm.refl (s : State) : Calm s s := ⟨rfl, rfl⟩

theorem Calm.trans (h : Calm s s') (h' : Calm s' s'') : Calm s s'' :=
  ⟨h.1.trans h'.1, h'.2.trans h.2⟩

theorem Calm.alloc (h : Calm s s') : s'.alloc = s.alloc := congrArg Books.alloc h.2

theorem Calm.freed (h : Calm s s') : s'.freed = s.freed := congrArg Books.freed h.2

theorem Calm.next (h : Calm s s') : s'.next = s.next := congrArg Books.next h.2

theorem Calm.pcm (h : Calm s s') : s'.pcm = s.pcm := congrArg Books.pcm h.2

theorem Calm.inBuf (h : Calm s s') : s'.inBuf = s.inBuf := congrArg Books.inBuf h.2

theorem post_calm (s : State) (m : Msg) : Calm s (post s m) := by
  unfold post
  split
  · split
    · exact ⟨rfl, rfl⟩
    · exact Calm.refl s
  · exact Calm.refl s

theorem postIf_calm (s : State) (b : Bool) (m : Msg) : Calm s (postIf s b m) := by
  cases b
  · exact Calm.refl s
  · exact post_calm s m

theorem onWindow_hwnds (s : State) (h : Res) {f : Window → Window} (hf : ∀ w, (f w).hwnd = w.hwnd) :
    (onWindow s h f).windows.map (·.hwnd) = s.windows.map (·.hwnd) := by
  unfold onWindow
  rw [List.map_map]
  refine List.map_congr_left fun w _ => ?_
  show (if w.hwnd = h then f w else w).hwnd = w.hwnd
  split
  · exact hf w
  · rfl

theorem onWindow_calm (s : State) (h : Res) {f : Window → Window} (hf : ∀ w, (f w).hwnd = w.hwnd) :
    Calm s (onWindow s h f) := by
  refine ⟨?_, rfl⟩
  unfold Still scene
  rw [onWindow_hwnds s h hf]
  rfl

theorem audioStatusSetLabel_calm (s : State) (code : Stat) : Calm s (audioStatusSetLabel s code) := by
  unfold audioStatusSetLabel
  split
  · exact onWindow_calm s _ fun _ => rfl
  · exact Calm.refl s

theorem setStop_calm (s : State) : Calm s (setStop s) := ⟨rfl, rfl⟩

theorem stopClick_calm (s : State) (h : Res) : Calm s (stopClick s h) := by
  unfold stopClick
  split
  · have hlabel := audioStatusSetLabel_calm s .stopping
    have hbutton := onWindow_calm (audioStatusSetLabel s .stopping) h
      (f := fun w => { w with stopEnabled := false }) fun _ => rfl
    exact (hlabel.trans hbutton).trans (setStop_calm _)
  · exact Calm.refl s

theorem closeClick_calm (s : State) (h : Res) : Calm s (closeClick s h) := by
  unfold closeClick
  split
  · exact setStop_calm s
  · exact Calm.refl s

/-- A message writes a label, or destroys the window it came to. -/
theorem dispatch_cases (s : State) :
    Calm s (dispatch s) ∨ ∃ h rest, dispatch s = destroyWindow { s with queue := rest } h := by
  unfold dispatch
  split
  · exact .inl (Calm.refl s)
  · rename_i h m rest hqueue
    have hpop : Calm s { s with queue := rest } := ⟨rfl, rfl⟩
    cases m with
    | status code => exact .inl (hpop.trans (audioStatusSetLabel_calm _ code))
    | filename => exact .inl (hpop.trans (onWindow_calm _ h fun _ => rfl))
    | audioType => exact .inl (hpop.trans (onWindow_calm _ h fun _ => rfl))
    | done => exact .inr ⟨h, rest, rfl⟩

theorem audioWorker_still (s : State) (pc : Pc) (a : Answer) : Still s (audioWorker s pc a).1 := by
  unfold audioWorker
  cases pc with
  | enter =>
      dsimp only
      split
      · exact (post_calm s _).1
      · rfl
  | fetch =>
      dsimp only
      split <;> rfl
  | describe => exact ((postIf_calm s _ _).trans (postIf_calm _ _ _)).1
  | check =>
      dsimp only
      split
      · rfl
      · exact (post_calm s _).1
  | decode =>
      dsimp only
      split
      · rfl
      · cases a.late <;> rfl
  | drop => rfl
  | begin =>
      dsimp only
      split
      · rfl
      · exact (post_calm s _).1
  | play =>
      dsimp only
      split <;> rfl
  | wait =>
      dsimp only
      split_ifs <;> rfl
  | unwind failed =>
      have hclose : Still s (if s.hwo then { s with hwo := false, doneEvent := true } else s) := by
        split <;> rfl
      exact hclose.trans (post_calm _ _).1
  | farewell => exact (post_calm s _).1
  | release => rfl
  | leave => rfl

end Frame

/-! ### The ledger -/

/-- The ledger balances but for what has been lost. -/
def Settled (lost : List Res) (s : State) : Prop :=
  ∀ r, s.freed.count r + (owned s).count r + lost.count r = s.alloc.count r

section Ledger

variable {s s' : State} {l : List Res}

theorem settled_nil : Settled [] s ↔ (s.freed ++ owned s).Perm s.alloc := by
  rw [List.perm_iff_count]
  refine forall_congr' fun r => ?_
  rw [List.count_append, List.count_nil, Nat.add_zero]

/-- Only what is held and what has been released counts. -/
theorem Settled.congr (h : Settled l s) (howned : owned s' = owned s) (halloc : s'.alloc = s.alloc)
    (hfreed : s'.freed = s.freed) : Settled l s' := by
  intro r
  rw [howned, halloc, hfreed]
  exact h r

theorem Calm.globals (h : Calm s s') : globals s' = globals s :=
  congrArg₂ (fun b c => b.playUrl.toList ++ b.playName.toList ++ b.inBuf.toList ++ b.pcm.toList ++
    c.thread.toList) h.2 h.1

theorem Calm.owned (h : Calm s s') : owned s' = owned s :=
  congrArg₂ (· ++ ·) h.globals h.1.hwnds

theorem Settled.calm (h : Settled l s) (hcalm : Calm s s') : Settled l s' :=
  h.congr hcalm.owned hcalm.alloc hcalm.freed

theorem Settled.perm {l' : List Res} (h : Settled l s) (hl : l.Perm l') : Settled l' s := by
  intro r
  rw [← hl.count_eq]
  exact h r

theorem Settled.clearUrl (h : Settled l s) :
    Settled (s.playUrl.toList ++ l) { s with playUrl := none } := by
  intro r
  have hr := h r
  simp only [owned, globals, List.count_append, Option.toList_none, List.count_nil] at hr ⊢
  omega

theorem Settled.clearName (h : Settled l s) :
    Settled (s.playName.toList ++ l) { s with playName := none } := by
  intro r
  have hr := h r
  simp only [owned, globals, List.count_append, Option.toList_none, List.count_nil] at hr ⊢
  omega

theorem Settled.clearInBuf (h : Settled l s) :
    Settled (s.inBuf.toList ++ l) { s with inBuf := none } := by
  intro r
  have hr := h r
  simp only [owned, globals, List.count_append, Option.toList_none, List.count_nil] at hr ⊢
  omega

theorem Settled.clearThread (h : Settled l s) :
    Settled (s.thread.toList ++ l) { s with thread := none } := by
  intro r
  have hr := h r
  simp only [owned, globals, List.count_append, Option.toList_none, List.count_nil] at hr ⊢
  omega

theorem Settled.clearPcm (h : Settled l s) :
    Settled (s.pcm.toList ++ l) { s with pcm := none } := by
  intro r
  have hr := h r
  simp only [owned, globals, List.count_append, Option.toList_none, List.count_nil] at hr ⊢
  omega

/-- What the caller still holds goes back to the heap. -/
theorem Settled.release {rs : List Res} (h : Settled (rs ++ l) s) :
    Settled l { s with freed := rs ++ s.freed } := by
  intro r
  have hr := h r
  simp only [owned, globals, List.count_append] at hr ⊢
  omega

theorem Settled.freeUrl (h : Settled l s) : Settled l (freeUrl s) :=
  h.clearUrl.release

theorem Settled.freeName (h : Settled l s) : Settled l (freeName s) :=
  h.clearName.release

theorem Settled.freeInBuf (h : Settled l s) : Settled l (freeInBuf s) :=
  h.clearInBuf.release

theorem Settled.freePcm (h : Settled l s) : Settled l (freePcm s) :=
  h.clearPcm.release

theorem Settled.closeThread (h : Settled l s) : Settled l (closeThread s s.thread) :=
  h.clearThread.release

theorem Settled.allocUrl (h : Settled l s) (hnone : s.playUrl = none) : Settled l (allocUrl s) := by
  intro r
  have hr := h r
  simp only [owned, globals, Audio.allocUrl, allocate, hnone, List.count_append, Option.toList_none,
    Option.toList_some, List.count_cons, List.count_nil] at hr ⊢
  omega

theorem Settled.allocName (h : Settled l s) (hnone : s.playName = none) : Settled l (allocName s) := by
  intro r
  have hr := h r
  simp only [owned, globals, Audio.allocName, allocate, hnone, List.count_append, Option.toList_none,
    Option.toList_some, List.count_cons, List.count_nil] at hr ⊢
  omega

theorem Settled.allocPcm (h : Settled l s) (hnone : s.pcm = none) : Settled l (allocPcm s) := by
  intro r
  have hr := h r
  simp only [owned, globals, Audio.allocPcm, allocate, hnone, List.count_append, Option.toList_none,
    Option.toList_some, List.count_cons, List.count_nil] at hr ⊢
  omega

theorem Settled.allocInBuf (h : Settled l s) : Settled (s.inBuf.toList ++ l) (allocInBuf s) := by
  intro r
  have hr := h r
  simp only [owned, globals, Audio.allocInBuf, allocate, List.count_append, Option.toList_some,
    List.count_cons, List.count_nil] at hr ⊢
  omega

theorem Settled.createThread (h : Settled l s) : Settled (s.thread.toList ++ l) (createThread s) := by
  intro r
  have hr := h r
  simp only [owned, globals, Audio.createThread, allocate, List.count_append, Option.toList_some,
    List.count_cons, List.count_nil] at hr ⊢
  omega

theorem Settled.createWindow (h : Settled l s) : Settled l (audioCreateStatusWindow s) := by
  intro r
  have hr := h r
  simp only [owned, globals, audioCreateStatusWindow, allocate, List.count_append, List.map_append,
    List.map_cons, List.map_nil, List.count_cons, List.count_nil] at hr ⊢
  omega

theorem count_hwnds (ws : List Window) (p : Window → Bool) (r : Res) :
    ((ws.filter p).map (·.hwnd)).count r + ((ws.filter fun w => !p w).map (·.hwnd)).count r =
      (ws.map (·.hwnd)).count r := by
  rw [← List.count_append, ← List.map_append]
  exact ((List.filter_append_perm p ws).map _).count_eq r

theorem Settled.destroyWindow (h : Settled l s) (w : Res) : Settled l (destroyWindow s w) := by
  intro r
  have hr := h r
  have hsplit := count_hwnds s.windows (fun v => decide (v.hwnd = w)) r
  simp only [owned, globals, Audio.destroyWindow, List.count_append] at hr ⊢
  omega

theorem Settled.openWindow (h : Settled l s) (granted : Bool) :
    Settled l (openStatusWindow s granted) := by
  cases granted
  · exact h.congr rfl rfl rfl
  · exact h.createWindow

theorem Settled.dropWindow (h : Settled l s) : Settled l (dropStatusWindow s) := by
  unfold dropStatusWindow
  split
  · exact (h.destroyWindow _).congr rfl rfl rfl
  · exact h

end Ledger

/-! ### The workers -/

/-- What a worker still needs to find empty, by where it stands. -/
def Pc.Ready (pcm inBuf : Option Res) : Pc → Prop
  | .enter | .describe | .check | .decode | .leave => pcm = none
  | .fetch => pcm = none ∧ inBuf = none
  | _ => True

/-- A number is given to one resource. -/
def Numbered (s : State) : Prop := (∀ r ∈ s.alloc, r.no < s.next) ∧ s.alloc.Nodup

structure Base (s : State) : Prop where
  /-- One worker while something plays, and none else. -/
  busy : s.playing = true → ∃ pc, s.workers = [(s.serial, pc)] ∧ pc.Ready s.pcm s.inBuf
  idle : s.playing = false → s.workers = [] ∧ s.pcm = none
  windows : ∀ h ∈ s.windows.map (·.hwnd), h.owner ≤ s.serial
  numbered : Numbered s
  stopping : ∀ thr h, s.stopping = some (thr, h) → thr = s.thread

section Steps

variable {s s' : State} {l : List Res} {e : Event}

theorem Numbered.allocate (h : Numbered s) (k : Kind) : Numbered (allocate s k) := by
  refine ⟨fun r hr => ?_, List.nodup_cons.mpr ⟨fun hmem => ?_, h.2⟩⟩
  · rcases List.mem_cons.mp hr with rfl | hr
    · exact Nat.lt_succ_self s.next
    · exact Nat.lt_succ_of_lt (h.1 r hr)
  · exact Nat.lt_irrefl s.next (h.1 _ hmem)

theorem Numbered.calm (h : Numbered s) (hcalm : Calm s s') : Numbered s' := by
  unfold Numbered
  rw [hcalm.alloc, hcalm.next]
  exact h

/-- What a step of the worker does to the resources. -/
inductive Did (s : State) : Pc → State → Pc → Prop where
  | calm {pc pc' : Pc} {s' : State} (h : Calm s s')
      (hready : pc.Ready s.pcm s.inBuf → pc'.Ready s.pcm s.inBuf) : Did s pc s' pc'
  | fetched : Did s .fetch (allocInBuf s) .describe
  | decoded {pc' : Pc} {s' : State} (h : Calm (allocPcm s) s')
      (hready : ∀ pcm inBuf, pc'.Ready pcm inBuf) : Did s .decode s' pc'
  | dropped : Did s .drop (freeInBuf s) .begin
  | released : Did s .release (freeName (freeUrl (freeInBuf (freePcm s)))) .leave

theorem audioWorker_did (s : State) (pc : Pc) (a : Answer) :
    Did s pc (audioWorker s pc a).1 (audioWorker s pc a).2 := by
  unfold audioWorker
  cases pc with
  | enter =>
      dsimp only
      split
      · rename_i hnone
        exact .calm (post_calm s _) fun h => ⟨h, hnone⟩
      · exact .calm (Calm.refl s) id
  | fetch =>
      dsimp only
      split
      · exact .fetched
      · exact .calm ⟨rfl, rfl⟩ fun _ => trivial
  | describe => exact .calm ((postIf_calm s _ _).trans (postIf_calm _ _ _)) id
  | check =>
      dsimp only
      split
      · exact .calm (Calm.refl s) fun _ => trivial
      · exact .calm (post_calm s _) id
  | decode =>
      dsimp only
      split
      · exact .decoded (Calm.refl _) fun _ _ => trivial
      · cases a.late
        · exact .calm ⟨rfl, rfl⟩ fun _ => trivial
        · exact .decoded ⟨rfl, rfl⟩ fun _ _ => trivial
  | drop => exact .dropped
  | begin =>
      dsimp only
      split
      · exact .calm (Calm.refl s) fun _ => trivial
      · exact .calm (post_calm s _) fun _ => trivial
  | play =>
      dsimp only
      split <;> exact .calm ⟨rfl, rfl⟩ fun _ => trivial
  | wait =>
      dsimp only
      split_ifs <;> exact .calm ⟨rfl, rfl⟩ fun _ => trivial
  | unwind failed =>
      have hclose : Calm s (if s.hwo then { s with hwo := false, doneEvent := true } else s) := by
        split <;> exact ⟨rfl, rfl⟩
      exact .calm (hclose.trans (post_calm _ _)) fun _ => trivial
  | farewell => exact .calm (post_calm s _) fun _ => trivial
  | release => exact .released
  | leave => exact .calm (Calm.refl s) id

section Worker

variable {pc pc' : Pc}

/-- What the next step of the worker needs to find empty is. -/
theorem Did.ready (h : Did s pc s' pc') (hpc : pc.Ready s.pcm s.inBuf) :
    pc'.Ready s'.pcm s'.inBuf := by
  cases h with
  | calm h hready =>
      rw [h.pcm, h.inBuf]
      exact hready hpc
  | fetched => exact hpc.1
  | decoded h hready => exact hready _ _
  | dropped => trivial
  | released => rfl

theorem Did.settled (h : Did s pc s' pc') (hpc : pc.Ready s.pcm s.inBuf) (hs : Settled l s) :
    Settled l s' := by
  cases h with
  | calm h _ => exact hs.calm h
  | fetched =>
      have halloc := hs.allocInBuf
      rwa [hpc.2] at halloc
  | decoded h _ => exact (hs.allocPcm hpc).calm h
  | dropped => exact hs.freeInBuf
  | released => exact hs.freePcm.freeInBuf.freeUrl.freeName

theorem Did.numbered (h : Did s pc s' pc') (hs : Numbered s) : Numbered s' := by
  cases h with
  | calm h _ => exact hs.calm h
  | fetched => exact hs.allocate .inBuf
  | decoded h _ =>
      have halloc : Numbered (allocPcm s) := hs.allocate .pcm
      exact halloc.calm h
  | dropped => exact hs
  | released => exact hs

end Worker

/-! ### Every step -/

theorem Base.calm (h : Base s) (hcalm : Calm s s') : Base s' where
  busy := by
    rw [hcalm.1.playing, hcalm.1.workers, hcalm.1.serial, hcalm.pcm, hcalm.inBuf]
    exact h.busy
  idle := by
    rw [hcalm.1.playing, hcalm.1.workers, hcalm.pcm]
    exact h.idle
  windows := by
    rw [hcalm.1.hwnds, hcalm.1.serial]
    exact h.windows
  numbered := h.numbered.calm hcalm
  stopping := by
    rw [hcalm.1.stopping, hcalm.1.thread]
    exact h.stopping

theorem destroyWindow_hwnds (s : State) (w : Res) :
    ∀ h ∈ (destroyWindow s w).windows.map (·.hwnd), h ∈ s.windows.map (·.hwnd) := by
  intro h hmem
  exact (List.filter_sublist.map _).subset hmem

theorem Base.destroyWindow (h : Base s) (w : Res) : Base (destroyWindow s w) where
  busy := h.busy
  idle := h.idle
  windows v hv := h.windows v (destroyWindow_hwnds s w v hv)
  numbered := h.numbered
  stopping := h.stopping

/-- A worker does its next step, or clears the globals and ends. -/
theorem work_cases (h : Base s) (k : Nat) (a : Answer) :
    work s k a = s ∨
    s.pcm = none ∧ work s k a = { s with playing := false, statusHwnd := none, workers := [] } ∨
    ∃ pc s' pc', pc.Ready s.pcm s.inBuf ∧ s.playing = true ∧ Did s pc s' pc' ∧ Still s s' ∧
      work s k a = { s' with workers := [(s.serial, pc')] } := by
  cases hk : s.workers[k]? with
  | none =>
      left
      unfold work
      rw [hk]
  | some w =>
      right
      have hplay : s.playing = true := by
        by_contra hno
        rw [(h.idle (Bool.eq_false_iff.mpr hno)).1] at hk
        cases hk
      obtain ⟨pc, hworkers, hready⟩ := h.busy hplay
      have hzero : k = 0 ∧ w = (s.serial, pc) := by
        rw [hworkers] at hk
        cases k with
        | zero => exact ⟨rfl, (Option.some.inj hk).symm⟩
        | succ k => cases hk
      obtain ⟨rfl, rfl⟩ := hzero
      unfold work
      rw [hk]
      by_cases hleave : pc = .leave
      · subst hleave
        exact .inl ⟨hready, by rw [hworkers]; rfl⟩
      · right
        have hstill := audioWorker_still s pc a
        refine ⟨pc, (audioWorker s pc a).1, (audioWorker s pc a).2, hready, hplay,
          audioWorker_did s pc a, hstill, ?_⟩
        dsimp only
        split
        · cases ‹some _ = none›
        · rename_i heq
          cases heq
          exact absurd rfl hleave
        · rename_i heq
          cases heq
          rw [hstill.workers, hworkers]
          rfl

theorem Base.work (h : Base s) (k : Nat) (a : Answer) : Base (work s k a) := by
  rcases work_cases h k a with heq | ⟨hpcm, heq⟩ | ⟨pc, s', pc', hready, hplay, hdid, hstill, heq⟩
  · rw [heq]
    exact h
  · rw [heq]
    exact
      { busy := fun hp => Bool.noConfusion hp
        idle := fun _ => ⟨rfl, hpcm⟩
        windows := h.windows
        numbered := h.numbered
        stopping := h.stopping }
  · rw [heq]
    exact
      { busy := fun _ => ⟨pc', by rw [hstill.serial], hdid.ready hready⟩
        idle := fun hp => absurd ((hplay.symm.trans hstill.playing.symm).trans hp) Bool.noConfusion
        windows := by
          show ∀ h ∈ s'.windows.map (·.hwnd), h.owner ≤ s'.serial
          rw [hstill.hwnds, hstill.serial]
          exact h.windows
        numbered := hdid.numbered h.numbered
        stopping := by
          show ∀ thr w, s'.stopping = some (thr, w) → thr = s'.thread
          rw [hstill.stopping, hstill.thread]
          exact h.stopping }

theorem Settled.work (hb : Base s) (h : Settled l s) (k : Nat) (a : Answer) :
    Settled l (work s k a) := by
  rcases work_cases hb k a with heq | ⟨hpcm, heq⟩ | ⟨pc, s', pc', hready, hplay, hdid, hstill, heq⟩
  · rw [heq]
    exact h
  · rw [heq]
    exact h
  · rw [heq]
    exact hdid.settled hready h

theorem stop_base (h : Base s) : Base (audioServiceStop s) := by
  unfold audioServiceStop
  split
  · exact
      { busy := h.busy
        idle := h.idle
        windows := h.windows
        numbered := h.numbered
        stopping := fun thr w heq => (congrArg Prod.fst (Option.some.inj heq)).symm }
  · exact h

theorem stop_settled (h : Settled l s) : Settled l (audioServiceStop s) := by
  unfold audioServiceStop
  split
  · exact h
  · exact h

/-- The end of the wait closes the thread, or not, and destroys the window, or not. -/
theorem stopWaited_cases (h : Base s) (timeout : Bool) :
    stopWaited s timeout = s ∨
    ∃ s', (s' = s ∨ s' = closeThread s s.thread) ∧
      (stopWaited s timeout = { s' with stopping := none } ∨
        ∃ w, stopWaited s timeout = destroyWindow { s' with stopping := none } w) := by
  unfold stopWaited
  split
  · exact .inl rfl
  · rename_i thr hwnd hstopping
    obtain rfl : thr = s.thread := h.stopping thr hwnd hstopping
    dsimp only
    split
    · exact .inl rfl
    · right
      refine ⟨if (s.thread.all fun t => decide (t.owner ∉ s.workers.map (·.1))) then
        closeThread s s.thread else s, ?_, ?_⟩
      · split
        · exact .inr rfl
        · exact .inl rfl
      · cases hwnd with
        | none => exact .inl rfl
        | some w => exact .inr ⟨w, rfl⟩

theorem stopWaited_base (h : Base s) (timeout : Bool) : Base (stopWaited s timeout) := by
  have hclear (s' : State) (hs' : s' = s ∨ s' = closeThread s s.thread) :
      Base { s' with stopping := none } := by
    have hnone : ∀ thr w, (none : Option (Option Res × Option Res)) = some (thr, w) →
        thr = s'.thread := fun _ _ heq => absurd heq (Option.some_ne_none _).symm
    rcases hs' with rfl | rfl
    · exact ⟨h.busy, h.idle, h.windows, h.numbered, hnone⟩
    · exact ⟨h.busy, h.idle, h.windows, h.numbered, hnone⟩
  rcases stopWaited_cases h timeout with heq | ⟨s', hs', heq | ⟨w, heq⟩⟩
  · rw [heq]
    exact h
  · rw [heq]
    exact hclear s' hs'
  · rw [heq]
    exact (hclear s' hs').destroyWindow w

theorem stopWaited_settled (hb : Base s) (h : Settled l s) (timeout : Bool) :
    Settled l (stopWaited s timeout) := by
  have hclose (s' : State) (hs' : s' = s ∨ s' = closeThread s s.thread) :
      Settled l { s' with stopping := none } := by
    rcases hs' with rfl | rfl
    · exact h
    · exact h.closeThread
  rcases stopWaited_cases hb timeout with heq | ⟨s', hs', heq | ⟨w, heq⟩⟩
  · rw [heq]
    exact h
  · rw [heq]
    exact hclose s' hs'
  · rw [heq]
    exact (hclose s' hs').destroyWindow w

/-! ### Requests -/

/-- The globals that a URL request empties first, and what it hands to `audio_start_common`. -/
def urlCleared (s : State) : State := { s with serial := s.serial + 1, playUrl := none }

def urlReady (s : State) : State :=
  { allocUrl (urlCleared s) with playName := none, inBuf := none }

/-- The same of a request with bytes, up to the buffer. -/
def bytesCleared (s : State) : State :=
  { s with serial := s.serial + 1, playUrl := none, playName := none }

def bytesNamed (s : State) (named : Bool) : State :=
  if named then allocName (bytesCleared s) else bytesCleared s

def bytesReady (s : State) (named : Bool) : State := allocInBuf (bytesNamed s named)

def bytesRefused (s : State) (named : Bool) : State := freeName { bytesNamed s named with inBuf := none }

theorem playUrl_accepted {url : String} (hurl : url ≠ "") (hplay : s.playing = false) (room : Room) :
    (audioServicePlayUrl s url room).1 =
      if room.buf then (audioStartCommon (urlReady s) room).1 else urlCleared s := by
  have hquiet : ¬ s.playing = true := Bool.eq_false_iff.mp hplay
  unfold audioServicePlayUrl
  rw [if_neg hurl, if_neg hquiet]
  cases room.buf <;> rfl

theorem playBytes_accepted {len : Nat} (hlen : len ≠ 0) (hplay : s.playing = false) (name : String)
    (room : Room) :
    (audioServicePlayBytesNamed s len true name room).1 =
      if room.buf then (audioStartCommon (bytesReady s (name ≠ "" ∧ room.name)) room).1
      else bytesRefused s (name ≠ "" ∧ room.name) := by
  have hquiet : ¬ s.playing = true := Bool.eq_false_iff.mp hplay
  have hknown : ¬ (!true) = true := Bool.false_ne_true
  unfold audioServicePlayBytesNamed bytesReady bytesRefused bytesNamed
  rw [if_neg hlen, if_neg hknown, if_neg hquiet]
  by_cases hname : name ≠ "" ∧ room.name
  · rw [decide_eq_true hname]
    dsimp only
    rw [if_pos hname]
    cases room.buf <;> rfl
  · rw [decide_eq_false hname]
    dsimp only
    rw [if_neg hname]
    cases room.buf <;> rfl

/-- What an accepted request changes before the window and the thread. -/
structure Entered (s s' : State) : Prop where
  scene : scene s' = { scene s with serial := s.serial + 1 }
  pcm : s'.pcm = s.pcm
  numbered : Numbered s → Numbered s'

theorem Entered.playing (h : Entered s s') : s'.playing = s.playing := congrArg Scene.playing h.scene

theorem Entered.workers (h : Entered s s') : s'.workers = s.workers := congrArg Scene.workers h.scene

theorem Entered.stopping (h : Entered s s') : s'.stopping = s.stopping :=
  congrArg Scene.stopping h.scene

theorem Entered.serial (h : Entered s s') : s'.serial = s.serial + 1 := congrArg Scene.serial h.scene

theorem Entered.thread (h : Entered s s') : s'.thread = s.thread := congrArg Scene.thread h.scene

theorem Entered.hwnds (h : Entered s s') :
    s'.windows.map (·.hwnd) = s.windows.map (·.hwnd) := congrArg Scene.hwnds h.scene

theorem urlCleared_entered (s : State) : Entered s (urlCleared s) := ⟨rfl, rfl, id⟩

theorem urlReady_entered (s : State) : Entered s (urlReady s) :=
  ⟨rfl, rfl, fun h => Numbered.allocate (s := urlCleared s) h .url⟩

theorem bytesNamed_entered (s : State) (named : Bool) : Entered s (bytesNamed s named) := by
  cases named
  · exact ⟨rfl, rfl, id⟩
  · exact ⟨rfl, rfl, fun h => Numbered.allocate (s := bytesCleared s) h .name⟩

theorem bytesReady_entered (s : State) (named : Bool) : Entered s (bytesReady s named) :=
  have h := bytesNamed_entered s named
  ⟨h.scene, h.pcm, fun hn => (h.numbered hn).allocate .inBuf⟩

theorem bytesRefused_entered (s : State) (named : Bool) : Entered s (bytesRefused s named) :=
  have h := bytesNamed_entered s named
  ⟨h.scene, h.pcm, h.numbered⟩

theorem Settled.urlCleared (h : Settled l s) : Settled (s.playUrl.toList ++ l) (urlCleared s) :=
  h.clearUrl.congr rfl rfl rfl

theorem Settled.urlReady (h : Settled l s) :
    Settled (s.inBuf.toList ++ (s.playName.toList ++ (s.playUrl.toList ++ l))) (urlReady s) :=
  ((h.urlCleared.allocUrl rfl).clearName).clearInBuf

theorem Settled.bytesNamed (h : Settled l s) (named : Bool) :
    Settled (s.playName.toList ++ (s.playUrl.toList ++ l)) (bytesNamed s named) := by
  have hclear : Settled (s.playName.toList ++ (s.playUrl.toList ++ l)) (bytesCleared s) :=
    h.clearUrl.clearName.congr rfl rfl rfl
  cases named
  · exact hclear
  · exact hclear.allocName rfl

theorem bytesNamed_inBuf (s : State) (named : Bool) : (bytesNamed s named).inBuf = s.inBuf := by
  cases named <;> rfl

theorem Settled.bytesReady (h : Settled l s) (named : Bool) :
    Settled (s.inBuf.toList ++ (s.playName.toList ++ (s.playUrl.toList ++ l))) (bytesReady s named) := by
  have halloc := (h.bytesNamed named).allocInBuf
  rwa [bytesNamed_inBuf] at halloc

theorem Settled.bytesRefused (h : Settled l s) (named : Bool) :
    Settled (s.inBuf.toList ++ (s.playName.toList ++ (s.playUrl.toList ++ l))) (bytesRefused s named) := by
  have hclear := (h.bytesNamed named).clearInBuf
  rw [bytesNamed_inBuf] at hclear
  exact hclear.freeName

theorem toList_nil {o : Option Res} (h : o.toList = []) : o = none := by
  cases o with
  | none => rfl
  | some r => cases h

/-- A member of what the globals hold is held by one of them. -/
theorem mem_globals {r : Res} :
    r ∈ globals s ↔ s.playUrl = some r ∨ s.playName = some r ∨ s.inBuf = some r ∨ s.pcm = some r ∨
      s.thread = some r := by
  simp only [globals, List.mem_append, Option.mem_toList, or_assoc]

theorem urlReady_own (hpcm : s.pcm = none) (hthread : s.thread = none) :
    ∀ r ∈ globals (urlReady s), r.owner = (urlReady s).serial := by
  intro r hr
  rcases mem_globals.mp hr with hurl | hname | hbuf | hp | ht
  · obtain rfl := Option.some.inj hurl
    rfl
  · cases hname
  · cases hbuf
  · cases hpcm.symm.trans hp
  · cases hthread.symm.trans ht

theorem bytesReady_own (named : Bool) (hpcm : s.pcm = none) (hthread : s.thread = none) :
    ∀ r ∈ globals (bytesReady s named), r.owner = (bytesReady s named).serial := by
  intro r hr
  have hentered := bytesReady_entered s named
  rw [hentered.serial]
  rcases mem_globals.mp hr with hurl | hname | hbuf | hp | ht
  · cases named <;> cases hurl
  · cases named with
    | false => cases hname
    | true =>
        obtain rfl := Option.some.inj hname
        rfl
  · obtain rfl := Option.some.inj hbuf
    exact (bytesNamed_entered s named).serial
  · rw [hentered.pcm, hpcm] at hp
    cases hp
  · rw [hentered.thread, hthread] at ht
    cases ht

/-- A request that is accepted stops for want of memory, or goes on to the window and the thread. -/
inductive Asked (s : State) (e : Event) : State → Prop where
  | refused {s' : State} (hbuf : e.room.buf = false) (hs' : Entered s s')
      (hsettled : ∀ l, Settled l s → Settled (overwritten s e ++ l) s') : Asked s e s'
  | entered {s' : State} (hbuf : e.room.buf = true) (hs' : Entered s s')
      (hsettled : ∀ l, Settled l s → ∃ l', Settled l' s' ∧
        (s.thread.toList ++ l').Perm (overwritten s e ++ l))
      (hown : overwritten s e = [] → s.pcm = none → ∀ r ∈ globals s', r.owner = s'.serial) :
      Asked s e (audioStartCommon s' e.room).1

theorem accepted_asked (h : accepted s e) :
    s.stopping = none ∧ s.playing = false ∧ Asked s e (step s e) := by
  cases e with
  | playUrl url room =>
      have hsplit := h
      simp only [accepted, decide_eq_true_eq, Bool.not_eq_true'] at hsplit
      obtain ⟨hidle, hurl, hplay⟩ := hsplit
      refine ⟨hidle, hplay, ?_⟩
      rw [step, if_pos hidle, playUrl_accepted hurl hplay]
      split
      · rename_i hbuf
        have hlost : overwritten s (.playUrl url room) =
            s.playUrl.toList ++ s.playName.toList ++ s.inBuf.toList ++ s.thread.toList := by
          rw [overwritten, if_pos h, if_pos hbuf]
        refine .entered hbuf (urlReady_entered s) (fun l hs => ⟨_, hs.urlReady, ?_⟩) ?_
        · rw [hlost, List.perm_iff_count]
          intro r
          simp only [List.count_append]
          omega
        · intro hnone hpcm
          rw [hlost] at hnone
          exact urlReady_own hpcm (toList_nil (List.append_eq_nil_iff.mp hnone).2)
      · rename_i hbuf
        refine .refused (Bool.eq_false_iff.mpr hbuf) (urlCleared_entered s) fun l hs => ?_
        rw [overwritten, if_pos h]
        rw [if_neg hbuf]
        exact hs.urlCleared
  | playBytes len known name room =>
      have hsplit := h
      simp only [accepted, decide_eq_true_eq, Bool.not_eq_true'] at hsplit
      obtain ⟨hidle, hlen, rfl, hplay⟩ := hsplit
      refine ⟨hidle, hplay, ?_⟩
      rw [step, if_pos hidle, playBytes_accepted hlen hplay]
      split
      · rename_i hbuf
        have hlost : overwritten s (.playBytes len true name room) =
            s.playUrl.toList ++ s.playName.toList ++ s.inBuf.toList ++ s.thread.toList := by
          rw [overwritten, if_pos h, if_pos hbuf]
        refine .entered hbuf (bytesReady_entered s _) (fun l hs => ⟨_, hs.bytesReady _, ?_⟩) ?_
        · rw [hlost, List.perm_iff_count]
          intro r
          simp only [List.count_append]
          omega
        · intro hnone hpcm
          rw [hlost] at hnone
          exact bytesReady_own _ hpcm (toList_nil (List.append_eq_nil_iff.mp hnone).2)
      · rename_i hbuf
        refine .refused (Bool.eq_false_iff.mpr hbuf) (bytesRefused_entered s _) fun l hs => ?_
        refine (hs.bytesRefused _).perm ?_
        rw [overwritten, if_pos h]
        rw [if_neg hbuf, List.perm_iff_count]
        intro r
        simp only [List.count_append, List.count_nil]
        omega
  | _ => cases h

/-- Every other step is one of the window, of the worker or of `audio_service_stop`, or leaves a text. -/
inductive Moved (s : State) : State → Prop where
  | calm {s' : State} (h : Calm s s') : Moved s s'
  | destroyed (h : Res) (rest : List (Res × Msg)) : Moved s (destroyWindow { s with queue := rest } h)
  | worked (k : Nat) (a : Answer) : Moved s (work s k a)
  | stopped : Moved s (audioServiceStop s)
  | waited (timeout : Bool) : Moved s (stopWaited s timeout)

theorem step_moved (hno : accepted s e = false) : Moved s (step s e) := by
  have hstay : Moved s s := .calm (Calm.refl s)
  cases e with
  | playUrl url room =>
      rw [step]
      split
      · rename_i hidle
        unfold audioServicePlayUrl
        split
        · exact hstay
        · rename_i hurl
          have hplay : s.playing = true := by simpa [accepted, hidle, hurl] using hno
          rw [if_pos hplay]
          exact hstay
      · exact hstay
  | playBytes len known name room =>
      rw [step]
      split
      · rename_i hidle
        unfold audioServicePlayBytesNamed
        split
        · exact hstay
        · rename_i hlen
          cases known with
          | false => exact .calm ⟨rfl, rfl⟩
          | true =>
              have hplay : s.playing = true := by simpa [accepted, hidle, hlen] using hno
              rw [if_neg (by decide), if_pos hplay]
              exact hstay
      · exact hstay
  | stop =>
      rw [step]
      split
      · exact .stopped
      · exact hstay
  | stopWaited timeout => exact .waited timeout
  | stopClick h =>
      rw [step]
      split
      · exact .calm (stopClick_calm s h)
      · exact hstay
  | close h =>
      rw [step]
      split
      · exact .calm (closeClick_calm s h)
      · exact hstay
  | dispatch =>
      rw [step]
      split
      · rcases dispatch_cases s with hcalm | ⟨h, rest, heq⟩
        · exact .calm hcalm
        · rw [heq]
          exact .destroyed h rest
      · exact hstay
  | work k a => exact .worked k a
  | deviceDone =>
      rw [step]
      split
      · exact .calm ⟨rfl, rfl⟩
      · exact hstay

/-! ### The window and the thread of a request -/

/-- `g_playing` set, the events reset, and the window asked for. -/
def opened (s : State) (granted : Bool) : State :=
  openStatusWindow { s with playing := true, stopEvent := false, doneEvent := false } granted

theorem startCommon_thread {room : Room} (hplay : s.playing = false) (hthread : room.thread = true) :
    (audioStartCommon s room).1 = createThread (opened s room.window) := by
  unfold audioStartCommon
  rw [if_neg (Bool.eq_false_iff.mp hplay)]
  dsimp only
  rw [if_pos hthread]
  rfl

theorem startCommon_none {room : Room} (hplay : s.playing = false) (hthread : room.thread = false) :
    (audioStartCommon s room).1 =
      { dropStatusWindow { opened s room.window with thread := none } with playing := false } := by
  unfold audioStartCommon
  rw [if_neg (Bool.eq_false_iff.mp hplay)]
  dsimp only
  rw [if_neg (Bool.eq_false_iff.mp hthread)]
  rfl

theorem opened_windows (s : State) (granted : Bool) :
    ∃ new, (opened s granted).windows = s.windows ++ new ∧ ∀ w ∈ new, w.hwnd.owner = s.serial := by
  cases granted
  · exact ⟨[], (List.append_nil _).symm, fun w hw => absurd hw List.not_mem_nil⟩
  · refine ⟨_, rfl, fun w hw => ?_⟩
    rw [List.mem_singleton.mp hw]
    rfl

theorem opened_scene (s : State) (granted : Bool) :
    (opened s granted).playing = true ∧ (opened s granted).workers = s.workers ∧
      (opened s granted).serial = s.serial ∧ (opened s granted).stopping = s.stopping ∧
      (opened s granted).stopEvent = false ∧ (opened s granted).pcm = s.pcm := by
  cases granted <;> exact ⟨rfl, rfl, rfl, rfl, rfl, rfl⟩

theorem opened_numbered (h : Numbered s) (granted : Bool) : Numbered (opened s granted) := by
  cases granted
  · exact h
  · exact h.allocate .window

theorem dropStatusWindow_scene (s : State) :
    (dropStatusWindow s).workers = s.workers ∧ (dropStatusWindow s).serial = s.serial ∧
      (dropStatusWindow s).stopping = s.stopping ∧ (dropStatusWindow s).pcm = s.pcm ∧
      (dropStatusWindow s).alloc = s.alloc ∧ (dropStatusWindow s).next = s.next ∧
      ∀ h ∈ (dropStatusWindow s).windows.map (·.hwnd), h ∈ s.windows.map (·.hwnd) := by
  unfold dropStatusWindow
  split
  · exact ⟨rfl, rfl, rfl, rfl, rfl, rfl, destroyWindow_hwnds s _⟩
  · exact ⟨rfl, rfl, rfl, rfl, rfl, rfl, fun _ h => h⟩

/-- The windows while a request is worked on are those before, and its own. -/
theorem opened_hwnds (hs : Entered s s') (granted : Bool) :
    ∀ h ∈ (opened s' granted).windows.map (·.hwnd),
      h ∈ s.windows.map (·.hwnd) ∨ h.owner = s.serial + 1 := by
  intro h hmem
  obtain ⟨new, hwindows, hnew⟩ := opened_windows s' granted
  rw [hwindows, List.map_append, List.mem_append, hs.hwnds] at hmem
  rcases hmem with hold | hmem
  · exact .inl hold
  · obtain ⟨w, hw, rfl⟩ := List.mem_map.mp hmem
    exact .inr ((hnew w hw).trans hs.serial)

theorem Base.entered (h : Base s) (hs : Entered s s') (hplay : s.playing = false)
    (hidle : s.stopping = none) : Base s' where
  busy hp := absurd ((hs.playing.trans hplay).symm.trans hp) Bool.false_ne_true
  idle _ := by
    rw [hs.workers, hs.pcm]
    exact h.idle hplay
  windows := by
    rw [hs.hwnds, hs.serial]
    exact fun w hw => Nat.le_succ_of_le (h.windows w hw)
  numbered := hs.numbered h.numbered
  stopping thr w heq := by
    rw [hs.stopping, hidle] at heq
    cases heq

theorem Base.started (h : Base s) (hs : Entered s s') (hplay : s.playing = false)
    (hidle : s.stopping = none) (room : Room) : Base (audioStartCommon s' room).1 := by
  have hplay' : s'.playing = false := hs.playing.trans hplay
  obtain ⟨hnoworker, hpcm⟩ := h.idle hplay
  obtain ⟨_, hworkers, hserial, hstopping, _, hpcm'⟩ := opened_scene s' room.window
  rw [hs.workers, hnoworker] at hworkers
  rw [hs.serial] at hserial
  rw [hs.stopping, hidle] at hstopping
  rw [hs.pcm, hpcm] at hpcm'
  have hwindows (w : Res) (hw : w ∈ (opened s' room.window).windows.map (·.hwnd)) :
      w.owner ≤ (opened s' room.window).serial := by
    rw [hserial]
    rcases opened_hwnds hs room.window w hw with hold | hnew
    · exact Nat.le_succ_of_le (h.windows w hold)
    · exact Nat.le_of_eq hnew
  have hnumbered := opened_numbered (hs.numbered h.numbered) room.window
  cases hthread : room.thread with
  | true =>
      rw [startCommon_thread hplay' hthread]
      exact
        { busy := fun _ => ⟨.enter, by
            refine ⟨?_, hpcm'⟩
            show (opened s' room.window).workers ++ _ = _
            rw [hworkers]
            rfl⟩
          idle := fun hp => absurd ((opened_scene s' room.window).1.symm.trans hp) Bool.noConfusion
          windows := hwindows
          numbered := hnumbered.allocate .thread
          stopping := fun thr w heq => absurd (hstopping.symm.trans heq).symm (Option.some_ne_none _) }
  | false =>
      rw [startCommon_none hplay' hthread]
      obtain ⟨dworkers, dserial, dstopping, dpcm, dalloc, dnext, dwindows⟩ :=
        dropStatusWindow_scene { opened s' room.window with thread := none }
      exact
        { busy := fun hp => Bool.noConfusion hp
          idle := fun _ => ⟨dworkers.trans hworkers, dpcm.trans hpcm'⟩
          windows := fun w hw => dserial ▸ hwindows w (dwindows w hw)
          numbered := by
            unfold Numbered
            rw [dalloc, dnext]
            exact hnumbered
          stopping := fun thr w heq => absurd ((dstopping.trans hstopping).symm.trans heq).symm (Option.some_ne_none _) }

theorem Settled.opened (h : Settled l s) (granted : Bool) : Settled l (opened s granted) := by
  have hset : Settled l { s with playing := true, stopEvent := false, doneEvent := false } :=
    h.congr rfl rfl rfl
  exact hset.openWindow granted

theorem opened_thread (s : State) (granted : Bool) : (opened s granted).thread = s.thread := by
  cases granted <;> rfl

theorem Settled.started (h : Settled l s) (hplay : s.playing = false) (room : Room) :
    Settled (s.thread.toList ++ l) (audioStartCommon s room).1 := by
  have hopened := h.opened room.window
  rw [← opened_thread s room.window]
  cases hthread : room.thread with
  | true =>
      rw [startCommon_thread hplay hthread]
      exact hopened.createThread
  | false =>
      rw [startCommon_none hplay hthread]
      exact hopened.clearThread.dropWindow

/-! ### The invariants of every step -/

theorem step_base (s : State) (e : Event) (h : Base s) : Base (step s e) := by
  cases hok : accepted s e with
  | true =>
      obtain ⟨hidle, hplay, hasked⟩ := accepted_asked hok
      generalize step s e = s' at hasked ⊢
      cases hasked with
      | refused _ hs' _ => exact h.entered hs' hplay hidle
      | entered _ hs' _ _ => exact h.started hs' hplay hidle e.room
  | false =>
      have hmoved := step_moved hok
      generalize step s e = s' at hmoved ⊢
      cases hmoved with
      | calm hcalm => exact h.calm hcalm
      | destroyed w rest =>
          have hpop : Calm s { s with queue := rest } := ⟨rfl, rfl⟩
          exact (h.calm hpop).destroyWindow w
      | worked k a => exact h.work k a
      | stopped => exact stop_base h
      | waited timeout => exact stopWaited_base h timeout

/-- What a step loses is what an accepted request writes over. -/
theorem step_settled (hb : Base s) (h : Settled l s) : Settled (overwritten s e ++ l) (step s e) := by
  cases hok : accepted s e with
  | true =>
      obtain ⟨_, hplay, hasked⟩ := accepted_asked hok
      generalize step s e = s' at hasked ⊢
      cases hasked with
      | refused _ _ hsettled => exact hsettled l h
      | entered _ hs' hsettled _ =>
          obtain ⟨l', hl', hperm⟩ := hsettled l h
          have hstarted := hl'.started (hs'.playing.trans hplay) e.room
          rw [hs'.thread] at hstarted
          exact hstarted.perm hperm
  | false =>
      unfold overwritten
      rw [hok, if_neg Bool.false_ne_true, List.nil_append]
      have hmoved := step_moved hok
      generalize step s e = s' at hmoved ⊢
      cases hmoved with
      | calm hcalm => exact h.calm hcalm
      | destroyed w rest =>
          have hpop : Calm s { s with queue := rest } := ⟨rfl, rfl⟩
          exact (h.calm hpop).destroyWindow w
      | worked k a => exact h.work hb k a
      | stopped => exact stop_settled h
      | waited timeout => exact stopWaited_settled hb h timeout

theorem opened_globals (s : State) (granted : Bool) : globals (opened s granted) = globals s := by
  cases granted <;> rfl

/-- The thread is the playback's own, as the rest is. -/
theorem createThread_own (h : ∀ r ∈ globals s, r.owner = s.serial) :
    ∀ r ∈ globals (createThread s), r.owner = s.serial := by
  intro r hr
  rcases mem_globals.mp hr with hurl | hname | hbuf | hp | ht
  · exact h r (mem_globals.mpr (.inl hurl))
  · exact h r (mem_globals.mpr (.inr (.inl hname)))
  · exact h r (mem_globals.mpr (.inr (.inr (.inl hbuf))))
  · exact h r (mem_globals.mpr (.inr (.inr (.inr (.inl hp)))))
  · obtain rfl := Option.some.inj ht
    rfl

/-- What the worker holds is its playback's. -/
theorem Did.own {pc pc' : Pc} (h : Did s pc s' pc') (hs : ∀ r ∈ globals s, r.owner = s.serial) :
    ∀ r ∈ globals s', r.owner = s.serial := by
  cases h with
  | calm h _ =>
      rw [h.globals]
      exact hs
  | fetched =>
      intro r hr
      rcases mem_globals.mp hr with hurl | hname | hbuf | hp | ht
      · exact hs r (mem_globals.mpr (.inl hurl))
      · exact hs r (mem_globals.mpr (.inr (.inl hname)))
      · obtain rfl := Option.some.inj hbuf
        rfl
      · exact hs r (mem_globals.mpr (.inr (.inr (.inr (.inl hp)))))
      · exact hs r (mem_globals.mpr (.inr (.inr (.inr (.inr ht)))))
  | decoded h _ =>
      rw [h.globals]
      intro r hr
      rcases mem_globals.mp hr with hurl | hname | hbuf | hp | ht
      · exact hs r (mem_globals.mpr (.inl hurl))
      · exact hs r (mem_globals.mpr (.inr (.inl hname)))
      · exact hs r (mem_globals.mpr (.inr (.inr (.inl hbuf))))
      · obtain rfl := Option.some.inj hp
        rfl
      · exact hs r (mem_globals.mpr (.inr (.inr (.inr (.inr ht)))))
  | dropped =>
      intro r hr
      rcases mem_globals.mp hr with hurl | hname | hbuf | hp | ht
      · exact hs r (mem_globals.mpr (.inl hurl))
      · exact hs r (mem_globals.mpr (.inr (.inl hname)))
      · cases hbuf
      · exact hs r (mem_globals.mpr (.inr (.inr (.inr (.inl hp)))))
      · exact hs r (mem_globals.mpr (.inr (.inr (.inr (.inr ht)))))
  | released =>
      intro r hr
      rcases mem_globals.mp hr with hurl | hname | hbuf | hp | ht
      · cases hurl
      · cases hname
      · cases hbuf
      · cases hp
      · exact hs r (mem_globals.mpr (.inr (.inr (.inr (.inr ht)))))

theorem closeThread_own (h : Own s) : Own (closeThread s s.thread) := by
  intro hplay r hr
  rcases mem_globals.mp hr with hurl | hname | hbuf | hp | ht
  · exact h hplay r (mem_globals.mpr (.inl hurl))
  · exact h hplay r (mem_globals.mpr (.inr (.inl hname)))
  · exact h hplay r (mem_globals.mpr (.inr (.inr (.inl hbuf))))
  · exact h hplay r (mem_globals.mpr (.inr (.inr (.inr (.inl hp)))))
  · cases ht

theorem step_own (hb : Base s) (h : Own s) (hnothing : NothingLeft s e) : Own (step s e) := by
  cases hok : accepted s e with
  | true =>
      obtain ⟨_, hplay, hasked⟩ := accepted_asked hok
      have hpcm := (hb.idle hplay).2
      generalize step s e = s' at hasked ⊢
      cases hasked with
      | refused _ hs' _ =>
          intro hp
          exact absurd ((hs'.playing.trans hplay).symm.trans hp) Bool.false_ne_true
      | @entered t _ hs' _ hown =>
          have hplay' := hs'.playing.trans hplay
          cases hthread : e.room.thread with
          | true =>
              rw [startCommon_thread hplay' hthread]
              intro _
              refine createThread_own ?_
              rw [opened_globals, (opened_scene t e.room.window).2.2.1]
              exact hown hnothing hpcm
          | false =>
              rw [startCommon_none hplay' hthread]
              exact fun hp => Bool.noConfusion hp
  | false =>
      have hmoved := step_moved hok
      generalize step s e = s' at hmoved ⊢
      cases hmoved with
      | calm hcalm =>
          unfold Own
          rw [hcalm.1.playing, hcalm.1.serial, hcalm.globals]
          exact h
      | destroyed w rest => exact h
      | worked k a =>
          rcases work_cases hb k a with heq | ⟨_, heq⟩ | ⟨_, s', _, _, hplay, hdid, hstill, heq⟩
          · rw [heq]
            exact h
          · rw [heq]
            exact fun hp => Bool.noConfusion hp
          · rw [heq]
            intro _ r hr
            exact (hdid.own (h hplay) r hr).trans hstill.serial.symm
      | stopped =>
          unfold audioServiceStop
          split <;> exact h
      | waited timeout =>
          have hclose : Own (closeThread s s.thread) := closeThread_own h
          rcases stopWaited_cases hb timeout with heq | ⟨s', rfl | rfl, heq | ⟨w, heq⟩⟩
          · rw [heq]
            exact h
          · rw [heq]
            exact h
          · rw [heq]
            exact h
          · rw [heq]
            exact hclose
          · rw [heq]
            exact hclose

/-- Every window is one of the playback that runs. -/
def Tidy (s : State) : Prop :=
  s.playing = true → ∀ h ∈ s.windows.map (·.hwnd), h.owner = s.serial

/-- A playback begins with the windows there are and its own. -/
theorem step_begins (hbegins : begins s e = true) :
    (step s e).playing = true ∧ (step s e).stopEvent = false ∧ (step s e).stopping = none ∧
      (step s e).serial = s.serial + 1 ∧
      ∃ new, (step s e).windows.map (·.hwnd) = s.windows.map (·.hwnd) ++ new ∧
        ∀ w ∈ new, w.owner = s.serial + 1 := by
  rw [begins, Bool.and_eq_true, Bool.and_eq_true] at hbegins
  obtain ⟨⟨hok, hbuf⟩, hthread⟩ := hbegins
  obtain ⟨hidle, hplay, hasked⟩ := accepted_asked hok
  generalize step s e = s' at hasked ⊢
  cases hasked with
  | refused hno _ _ =>
      rw [hbuf] at hno
      cases hno
  | @entered t _ hs' _ _ =>
      rw [startCommon_thread (hs'.playing.trans hplay) hthread]
      obtain ⟨hplaying, _, hserial, hstopping, hstop, _⟩ := opened_scene t e.room.window
      obtain ⟨new, hwindows, hnew⟩ := opened_windows t e.room.window
      refine ⟨hplaying, hstop, (hstopping.trans hs'.stopping).trans hidle,
        hserial.trans hs'.serial, new.map (·.hwnd), ?_, ?_⟩
      · show (opened t e.room.window).windows.map _ = _
        rw [hwindows, List.map_append, hs'.hwnds]
      · intro w hw
        obtain ⟨v, hv, rfl⟩ := List.mem_map.mp hw
        exact (hnew v hv).trans hs'.serial

/-- A request that is accepted and starts no thread ends with nothing playing. -/
theorem step_fails (hok : accepted s e = true) (hno : begins s e = false) :
    (step s e).playing = false := by
  obtain ⟨hidle, hplay, hasked⟩ := accepted_asked hok
  rw [begins, hok, Bool.true_and] at hno
  generalize step s e = s' at hasked ⊢
  cases hasked with
  | refused _ hs' _ => exact hs'.playing.trans hplay
  | entered hbuf hs' _ _ =>
      rw [hbuf, Bool.true_and] at hno
      rw [startCommon_none (hs'.playing.trans hplay) hno]

theorem step_tidy (hb : Base s) (h : Tidy s) (hgone : WindowGone s e) : Tidy (step s e) := by
  cases hok : accepted s e with
  | true =>
      cases hbegins : begins s e with
      | true =>
          obtain ⟨_, _, _, hserial, new, hwindows, hnew⟩ := step_begins hbegins
          intro _ w hw
          rw [hwindows, hgone hbegins] at hw
          rw [hserial]
          exact hnew w hw
      | false =>
          intro hplay
          exact absurd ((step_fails hok hbegins).symm.trans hplay) Bool.false_ne_true
  | false =>
      have hmoved := step_moved hok
      generalize step s e = s' at hmoved ⊢
      cases hmoved with
      | calm hcalm =>
          unfold Tidy
          rw [hcalm.1.playing, hcalm.1.serial, hcalm.1.hwnds]
          exact h
      | destroyed w rest => exact fun hplay v hv => h hplay v (destroyWindow_hwnds _ w v hv)
      | worked k a =>
          rcases work_cases hb k a with heq | ⟨_, heq⟩ | ⟨_, s', _, _, _, _, hstill, heq⟩
          · rw [heq]
            exact h
          · rw [heq]
            exact fun hplay => Bool.noConfusion hplay
          · rw [heq]
            show s'.playing = true → ∀ h ∈ s'.windows.map (·.hwnd), h.owner = s'.serial
            rw [hstill.playing, hstill.serial, hstill.hwnds]
            exact h
      | stopped =>
          unfold audioServiceStop
          split <;> exact h
      | waited timeout =>
          rcases stopWaited_cases hb timeout with heq | ⟨s', rfl | rfl, heq | ⟨w, heq⟩⟩
          · rw [heq]
            exact h
          · rw [heq]
            exact h
          · rw [heq]
            exact fun hplay v hv => h hplay v (destroyWindow_hwnds _ w v hv)
          · rw [heq]
            exact h
          · rw [heq]
            exact fun hplay v hv => h hplay v (destroyWindow_hwnds _ w v hv)

/-! ### The conditions are exact -/

theorem Tidy.isolated (h : Tidy s) : Isolated s := fun hplay w hw howner =>
  absurd (h hplay w.hwnd (List.mem_map_of_mem hw)) howner

/-- A playback that begins with an older window can be stopped by it. -/
theorem not_isolated_of_old (hb : Base s) (hold : ¬ WindowGone s e) : ¬ Isolated (step s e) := by
  unfold WindowGone at hold
  rw [Classical.not_imp] at hold
  obtain ⟨hbegins, hwindows⟩ := hold
  obtain ⟨v, hv⟩ := List.exists_mem_of_ne_nil _ hwindows
  obtain ⟨hplay, hstop, hidle, hserial, new, hnew, _⟩ := step_begins hbegins
  have hmem : v.hwnd ∈ (step s e).windows.map (·.hwnd) := by
    rw [hnew]
    exact List.mem_append_left _ (List.mem_map_of_mem hv)
  obtain ⟨w, hw, hhwnd⟩ := List.mem_map.mp hmem
  have hle : v.hwnd.owner ≤ s.serial := hb.windows v.hwnd (List.mem_map_of_mem hv)
  intro hisolated
  have hown : w.hwnd.owner ≠ (step s e).serial := by
    rw [hhwnd, hserial]
    omega
  have hharm := hisolated hplay w hw hown (.close w.hwnd) (.inr (.inl rfl))
  have hset : (step (step s e) (.close w.hwnd)).stopEvent = true := by
    show (if (step s e).stopping = none then closeClick (step s e) w.hwnd else step s e).stopEvent = true
    rw [if_pos hidle, closeClick, hhwnd, if_pos hmem]
    rfl
  rw [hharm.stop, hstop] at hset
  exact Bool.noConfusion hset

theorem Base.balanced (hb : Base s) (h : Settled [] s) (hown : Own s) : Balanced s :=
  ⟨hb.numbered.2, settled_nil.mp h, hown⟩

/-- What has been written over is neither held nor released. -/
theorem not_balanced_of_left (hb : Base s) (h : Settled [] s) (hleft : ¬ NothingLeft s e) :
    ¬ Balanced (step s e) := by
  intro hbalanced
  have hstep : Settled (overwritten s e ++ []) (step s e) := step_settled hb h
  have hnone : Settled [] (step s e) := settled_nil.mpr hbalanced.ledger
  obtain ⟨r, hr⟩ := List.exists_mem_of_ne_nil _ hleft
  have hpos := List.count_pos_iff.mpr hr
  have hlost := hstep r
  have hall := hnone r
  rw [List.append_nil] at hlost
  rw [List.count_nil] at hall
  omega

end Steps

/-! ### Every run -/

theorem start_base : Base start where
  busy h := Bool.noConfusion h
  idle _ := ⟨rfl, rfl⟩
  windows h hmem := absurd hmem List.not_mem_nil
  numbered := ⟨fun r hr => absurd hr List.not_mem_nil, List.nodup_nil⟩
  stopping thr h heq := by cases heq

/-- While something plays every request is refused, and changes nothing. -/
def Refuses (s : State) : Prop :=
  s.playing = true → ∀ room,
    (∀ url, url ≠ "" → audioServicePlayUrl s url room = (s, 1)) ∧
      ∀ len name, len ≠ 0 → audioServicePlayBytesNamed s len true name room = (s, 1)

theorem refuses (s : State) : Refuses s := by
  intro hplay room
  constructor
  · intro url hurl
    rw [audioServicePlayUrl, if_neg hurl, if_pos hplay]
  · intro len name hlen
    rw [audioServicePlayBytesNamed, if_neg hlen, if_neg (by decide), if_pos hplay]

theorem Base.workers (h : Base s) : s.workers.length ≤ 1 := by
  cases hplay : s.playing with
  | true =>
      obtain ⟨pc, hworkers, _⟩ := h.busy hplay
      rw [hworkers]
      exact Nat.le_refl 1
  | false =>
      rw [(h.idle hplay).1]
      exact Nat.zero_le 1

/-- In every run at most one worker runs, and what is refused because one runs changes nothing. The
playbacks are safe from earlier windows in the runs in which each begins with none left, and the ledger
balances in the runs in which each accepted request finds the globals it sets empty, and in no other. -/
theorem isolation_iff (es : List Event) :
    ((run step start es).workers.length ≤ 1 ∧ Refuses (run step start es)) ∧
      ((∀ es', es' <+: es → Isolated (run step start es')) ↔ Guarded step WindowGone start es) ∧
      ((∀ es', es' <+: es → Balanced (run step start es')) ↔ Guarded step NothingLeft start es) := by
  refine ⟨⟨(run_inv step_base start_base es).workers, refuses _⟩, ?_, ?_⟩
  · refine safe_iff_guarded (I := fun s => Base s ∧ Tidy s) ?_ ?_ ?_ ?_ es
    · exact fun s e h hgone => ⟨step_base s e h.1, step_tidy h.1 h.2 hgone⟩
    · exact fun s h => h.2.isolated
    · exact fun s e h hold => not_isolated_of_old h.1 hold
    · exact ⟨start_base, fun hplay => Bool.noConfusion hplay⟩
  · refine safe_iff_guarded (I := fun s => Base s ∧ Settled [] s ∧ Own s) ?_ ?_ ?_ ?_ es
    · rintro s e ⟨hb, hs, hown⟩ hnothing
      have hstep := step_settled (e := e) hb hs
      rw [hnothing] at hstep
      exact ⟨step_base s e hb, hstep, step_own hb hown hnothing⟩
    · exact fun s h => h.1.balanced h.2.1 h.2.2
    · exact fun s e h hleft => not_balanced_of_left h.1 h.2.1 hleft
    · exact ⟨start_base, fun r => rfl, fun hplay => Bool.noConfusion hplay⟩

/-- A playback that fails and whose window has gone before the next one; a playback that is stopped, with the
thread closed, before the next one. -/
theorem isolation_of_two :
    (∀ es', es' <+:
        [.playBytes 24 true "a.au" ⟨true, true, true, true⟩] ++
          List.replicate 8 (.work 0 ⟨false, "Empty audio payload.", false, true, true⟩) ++
          List.replicate 5 .dispatch ++ [.playUrl "b.au" ⟨true, true, true, true⟩] →
      Isolated (run step start es')) ∧
    ∀ es', es' <+:
        [.playBytes 24 true "a.au" ⟨true, true, true, true⟩, .stop] ++
          List.replicate 7 (.work 0 ⟨true, "", false, true, true⟩) ++
          [.stopWaited false, .playUrl "b.au" ⟨true, true, true, true⟩] →
      Balanced (run step start es') :=
  ⟨(isolation_iff _).2.1.mpr (by decide), (isolation_iff _).2.2.mpr (by decide)⟩

/-- A playback that has failed, and the next one begun before the window has taken its last message: to close
the old window stops the new playback. -/
theorem old_window_stops_new : ¬ ∀ es : List Event, Isolated (run step start es) := by
  intro hall
  have hisolated := hall
    ([.playBytes 24 true "a.au" ⟨true, true, true, true⟩] ++
      List.replicate 8 (.work 0 ⟨false, "Empty audio payload.", false, true, true⟩) ++
      [.playUrl "b.au" ⟨true, true, true, true⟩])
  generalize hs : run step start _ = s at hisolated
  have hplay : s.playing = true ∧ s.stopEvent = false ∧ ∃ w ∈ s.windows, w.hwnd.owner ≠ s.serial ∧
      (step s (.close w.hwnd)).stopEvent = true := by
    rw [← hs]
    decide
  obtain ⟨hplay, hstop, w, hw, hown, hclose⟩ := hplay
  have hharm := hisolated hplay w hw hown (.close w.hwnd) (.inr (.inl rfl))
  rw [hharm.stop, hstop] at hclose
  exact Bool.noConfusion hclose

end UnicornSuite.Audio
