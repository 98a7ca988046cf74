import Mathlib.Tactic.Common

/-! The audio playback service (`audio_service.c`): the play requests and `audio_service_stop` on the UI
thread, the worker thread of a playback, and the "Now Playing" window with the messages posted to it. Each
resource is known by what it is and by the playback that made it, so that a ledger can say which have been
released. The decoders, the memory and the device answer with the arguments of the events; the meter's
levels, the elapsed time, the debug log and `audio_service_shutdown` are left out. -/

namespace UnicornSuite.Audio

inductive Kind where
  | url | name | inBuf | pcm | thread | window
  deriving DecidableEq

/-- A resource: the playback that made it, and a number of its own. -/
structure Res where
  kind : Kind
  owner : Nat
  no : Nat
  deriving DecidableEq

/-- `AUDIO_STAT_*`. -/
inductive Stat where
  | fetching | decoding | playing | stopping | error | done
  deriving DecidableEq

/-- What is posted to a status window. -/
inductive Msg where
  | status (code : Stat)
  | filename
  | audioType
  | done
  deriving DecidableEq

structure Window where
  hwnd : Res
  /-- The "Status:" line, with the text of the error. -/
  label : Stat × String
  stopEnabled : Bool
  fileShown : Bool
  typeShown : Bool
  deriving DecidableEq

/-- Where a worker stands; `unwind` is `cleanup` or `fail`. -/
inductive Pc where
  | enter | fetch | describe | check | decode | drop | begin | play | wait
  | unwind (failed : Bool)
  | farewell | release | leave
  deriving DecidableEq

structure State where
  playing : Bool
  statusHwnd : Option Res
  thread : Option Res
  stopEvent : Bool
  doneEvent : Bool
  playUrl : Option Res
  playName : Option Res
  inBuf : Option Res
  pcm : Option Res
  /-- Whether the device is open. -/
  hwo : Bool
  errMsg : String
  /-- The playback that made the meter. -/
  meter : Option Nat
  windows : List Window
  queue : List (Res × Msg)
  /-- The threads, each with its playback. -/
  workers : List (Nat × Pc)
  /-- The thread and the window that `audio_service_stop` waits for; the UI thread does nothing else. -/
  stopping : Option (Option Res × Option Res)
  /-- The play requests that got past the check, the number of the next resource, and the ledger. -/
  serial : Nat
  next : Nat
  alloc : List Res
  freed : List Res
  deriving DecidableEq

/-- After `audio_service_init`. -/
def start : State :=
  { playing := false, statusHwnd := none, thread := none, stopEvent := false, doneEvent := false,
    playUrl := none, playName := none, inBuf := none, pcm := none, hwo := false, errMsg := "",
    meter := none, windows := [], queue := [], workers := [], stopping := none, serial := 0, next := 0,
    alloc := [], freed := [] }

/-! ### Resources -/

/-- The resource that is made next. -/
def fresh (s : State) (k : Kind) : Res := { kind := k, owner := s.serial, no := s.next }

def allocate (s : State) (k : Kind) : State :=
  { s with next := s.next + 1, alloc := fresh s k :: s.alloc }

def allocUrl (s : State) : State := { allocate s .url with playUrl := some (fresh s .url) }

def allocName (s : State) : State := { allocate s .name with playName := some (fresh s .name) }

def allocInBuf (s : State) : State := { allocate s .inBuf with inBuf := some (fresh s .inBuf) }

def allocPcm (s : State) : State := { allocate s .pcm with pcm := some (fresh s .pcm) }

def freeUrl (s : State) : State := { s with playUrl := none, freed := s.playUrl.toList ++ s.freed }

def freeName (s : State) : State := { s with playName := none, freed := s.playName.toList ++ s.freed }

def freeInBuf (s : State) : State := { s with inBuf := none, freed := s.inBuf.toList ++ s.freed }

def freePcm (s : State) : State := { s with pcm := none, freed := s.pcm.toList ++ s.freed }

/-- `CloseHandle`, and `g_thread` becomes NULL. -/
def closeThread (s : State) (thr : Option Res) : State :=
  { s with thread := none, freed := thr.toList ++ s.freed }

/-! ### The status window -/

/-- `PostMessage` to `g_status_hwnd`, if there is one and it still exists. -/
def post (s : State) (m : Msg) : State :=
  match s.statusHwnd with
  | some h => if h ∈ s.windows.map (·.hwnd) then { s with queue := s.queue ++ [(h, m)] } else s
  | none => s

def onWindow (s : State) (h : Res) (f : Window → Window) : State :=
  { s with windows := s.windows.map fun w => if w.hwnd = h then f w else w }

/-- The label of the window in `g_status_hwnd`, whichever window the message came to. -/
def audioStatusSetLabel (s : State) (code : Stat) : State :=
  match s.statusHwnd with
  | some h =>
      let text := if code = .error then s.errMsg else ""
      onWindow s h fun w => { w with label := (code, text) }
  | none => s

/-- `DestroyWindow` with its `WM_DESTROY`; what waits for the window is dropped. -/
def destroyWindow (s : State) (h : Res) : State :=
  { s with
    windows := s.windows.filter fun w => !decide (w.hwnd = h)
    freed := (s.windows.filter fun w => decide (w.hwnd = h)).map (·.hwnd) ++ s.freed
    queue := s.queue.filter fun m => !decide (m.1 = h)
    meter := if h ∈ s.windows.map (·.hwnd) then none else s.meter }

/-- `WM_CREATE` makes the meter. -/
def audioCreateStatusWindow (s : State) : State :=
  let h := fresh s .window
  { allocate s .window with
    statusHwnd := some h
    meter := some s.serial
    windows := s.windows ++
      [{ hwnd := h, label := (.fetching, ""), stopEnabled := true, fileShown := false,
         typeShown := false }] }

def setStop (s : State) : State := { s with stopEvent := true }

/-- The Stop button; it is pressed once. -/
def stopClick (s : State) (h : Res) : State :=
  if ∃ w ∈ s.windows, w.hwnd = h ∧ w.stopEnabled then
    setStop (onWindow (audioStatusSetLabel s .stopping) h fun w => { w with stopEnabled := false })
  else s

/-- `WM_CLOSE`. -/
def closeClick (s : State) (h : Res) : State :=
  if h ∈ s.windows.map (·.hwnd) then setStop s else s

/-- The message at the front of the queue. -/
def dispatch (s : State) : State :=
  match s.queue with
  | [] => s
  | (h, m) :: rest =>
      let s := { s with queue := rest }
      match m with
      | .status code => audioStatusSetLabel s code
      | .filename => onWindow s h fun w => { w with fileShown := true }
      | .audioType => onWindow s h fun w => { w with typeShown := true }
      | .done => destroyWindow s h

/-! ### The worker -/

/-- How what a worker asks for turns out. -/
structure Answer where
  ok : Bool
  /-- The text that is left where it fails. -/
  msg : String
  /-- A decoder fails behind the allocation of its output. -/
  late : Bool
  /-- The texts of the file rows are there, and have room. -/
  filename : Bool
  audioType : Bool
  deriving DecidableEq

def postIf (s : State) (b : Bool) (m : Msg) : State := if b then post s m else s

/-- One step of `audio_worker`: the state it leaves and where it stands. -/
def audioWorker (s : State) (pc : Pc) (a : Answer) : State × Pc :=
  match pc with
  | .enter => if s.inBuf = none then (post s (.status .fetching), .fetch) else (s, .describe)
  | .fetch =>
      if a.ok then (allocInBuf s, .describe)
      else ({ s with errMsg := "Could not fetch " ++ a.msg ++ "." }, .unwind true)
  | .describe =>
      let named := a.filename ∧ (s.playUrl.isSome ∨ s.playName.isSome)
      (postIf (postIf s (decide named) .filename) a.audioType .audioType, .check)
  | .check => if s.stopEvent then (s, .unwind false) else (post s (.status .decoding), .decode)
  | .decode =>
      if a.ok then (allocPcm s, .drop)
      else ({ (if a.late then allocPcm s else s) with errMsg := a.msg }, .unwind true)
  | .drop => (freeInBuf s, .begin)
  | .begin => if s.stopEvent then (s, .unwind false) else (post s (.status .playing), .play)
  | .play =>
      if a.ok then ({ s with hwo := true }, .wait)
      else ({ s with errMsg := a.msg, hwo := false }, .unwind true)
  | .wait =>
      if s.doneEvent then ({ s with doneEvent := false }, .unwind false)
      else if s.stopEvent then (s, .unwind false)
      else (s, .wait)
  | .unwind failed =>
      let s := if s.hwo then { s with hwo := false, doneEvent := true } else s
      (post s (.status (if failed then .error else .done)), .farewell)
  | .farewell => (post s .done, .release)
  | .release => (freeName (freeUrl (freeInBuf (freePcm s))), .leave)
  | .leave => (s, .leave)

/-- The thread of a number; the last thing it does is the section that clears the globals. -/
def work (s : State) (k : Nat) (a : Answer) : State :=
  match s.workers[k]? with
  | none => s
  | some (_, .leave) =>
      { s with playing := false, statusHwnd := none, workers := s.workers.eraseIdx k }
  | some (n, pc) =>
      let (s', pc') := audioWorker s pc a
      { s' with workers := s'.workers.set k (n, pc') }

/-! ### Requests -/

/-- Whether the memory, the window and the thread are granted. -/
structure Room where
  name : Bool
  buf : Bool
  window : Bool
  thread : Bool
  deriving DecidableEq

/-- `CreateThread`; a handle that is there is written over. -/
def createThread (s : State) : State :=
  { allocate s .thread with
    thread := some (fresh s .thread)
    workers := s.workers ++ [(s.serial, .enter)] }

/-- `g_status_hwnd` becomes the new window, or NULL. -/
def openStatusWindow (s : State) (granted : Bool) : State :=
  if granted then audioCreateStatusWindow s else { s with statusHwnd := none }

/-- The window of a playback that gets no thread is destroyed. -/
def dropStatusWindow (s : State) : State :=
  match s.statusHwnd with
  | some h => { destroyWindow s h with statusHwnd := none }
  | none => s

/-- Returns the code with the state. -/
def audioStartCommon (s : State) (room : Room) : State × Nat :=
  if s.playing then (s, 1)
  else
    let s := { s with playing := true, stopEvent := false, doneEvent := false }
    let s := openStatusWindow s room.window
    if room.thread then (createThread s, 0)
    else ({ dropStatusWindow { s with thread := none } with playing := false }, 2)

def audioServicePlayUrl (s : State) (url : String) (room : Room) : State × Nat :=
  if url = "" then (s, 3)
  else if s.playing then (s, 1)
  else
    let s := { s with serial := s.serial + 1, playUrl := none }
    if !room.buf then (s, 4)
    else audioStartCommon { allocUrl s with playName := none, inBuf := none } room

/-- `len` is that of the buffer, and `known` whether `audio_format_detect` knows its format. -/
def audioServicePlayBytesNamed (s : State) (len : Nat) (known : Bool) (name : String) (room : Room) :
    State × Nat :=
  if len = 0 then (s, 3)
  else if !known then ({ s with errMsg := "Audio buffer is neither Sun .au nor MP3." }, 5)
  else if s.playing then (s, 1)
  else
    let s := { s with serial := s.serial + 1, playUrl := none, playName := none }
    let s := if name ≠ "" ∧ room.name then allocName s else s
    if !room.buf then (freeName { s with inBuf := none }, 4)
    else audioStartCommon (allocInBuf s) room

/-- `audio_service_stop` up to the wait. The reset of the device lets the worker go on. -/
def audioServiceStop (s : State) : State :=
  if s.playing then
    { s with
      stopEvent := true
      stopping := some (s.thread, s.statusHwnd)
      doneEvent := s.doneEvent || s.hwo }
  else s

/-- The wait is over: the thread has ended, or the time is up. -/
def stopWaited (s : State) (timeout : Bool) : State :=
  match s.stopping with
  | none => s
  | some (thr, hwnd) =>
      let ended := thr.all fun t => t.owner ∉ s.workers.map (·.1)
      if !ended && !timeout then s
      else
        let s := if ended then closeThread s thr else s
        let s := { s with stopping := none }
        match hwnd with
        | some h => destroyWindow s h
        | none => s

/-! ### Steps -/

inductive Event where
  | playUrl (url : String) (room : Room)
  | playBytes (len : Nat) (known : Bool) (name : String) (room : Room)
  | stop
  | stopWaited (timeout : Bool)
  | stopClick (h : Res)
  | close (h : Res)
  | dispatch
  | work (k : Nat) (a : Answer)
  /-- The device has played the buffer. -/
  | deviceDone
  deriving DecidableEq

/-- The UI thread does one thing at a time, and waits inside `audio_service_stop`. -/
def step (s : State) (e : Event) : State :=
  match e with
  | .work k a => work s k a
  | .deviceDone => if s.hwo then { s with doneEvent := true } else s
  | .stopWaited timeout => stopWaited s timeout
  | .playUrl url room => if s.stopping = none then (audioServicePlayUrl s url room).1 else s
  | .playBytes len known name room =>
      if s.stopping = none then (audioServicePlayBytesNamed s len known name room).1 else s
  | .stop => if s.stopping = none then audioServiceStop s else s
  | .stopClick h => if s.stopping = none then stopClick s h else s
  | .close h => if s.stopping = none then closeClick s h else s
  | .dispatch => if s.stopping = none then dispatch s else s

end UnicornSuite.Audio
