import UnicornSuite.UpdateManifest
import UnicornSuite.LibRun

/-! The updater from a check to the installer (`suite_update.c`): the worker threads, the messages they
post, and the window with its modal dialogs, which go on handling messages while they are open. The
hash of a file and the transport are parameters. -/

namespace UnicornSuite.Update

open CText

/-- `UpdDownload`. -/
structure UpdDownload where
  ok : Bool
  error : CString
  path : CString
  m : UpdManifest

/-- A worker thread, from its creation until it has posted its result or released the flag:
`check_thread`, or `download_thread` before the fetch, before the check of the file, and before the
post. -/
inductive Worker where
  | check
  | fetch (m : UpdManifest)
  | verify (d : UpdDownload)
  | post (d : UpdDownload)

inductive Message where
  | result (r : UpdResult)
  | dlDone (d : UpdDownload)

/-- A modal window with what its handler does when it closes: nothing more, the release of the flag, the
offer of an update, or the question before the installer. -/
inductive Frame where
  | note
  | closing
  | offer (shown : UpdManifest) (version : CString)
  | ready (d : UpdDownload)

/-- What the calls of a worker answer. -/
structure WorkerTurn where
  /-- `calloc` in `check_thread`. -/
  alloc : Bool := true
  /-- `http_fetch_to_memory`, `http_fetch_to_file`: the bytes or the error. -/
  fetched : Except CString (List UInt8) := .error []
  /-- `update_dir`. -/
  dir : Option CString := some []
  /-- `suite_sha256_file` could read the file, or its error. -/
  hashed : Bool := true
  hashError : CString := []
  /-- `PostMessage`. -/
  posts : Bool := true

/-- What the user answers, and what the calls behind the answer do. -/
structure Answer where
  ok : Bool
  skip : Bool := false
  alloc : Bool := true
  spawn : Bool := true
  launches : Bool := true

/-- A check is asked for, a worker goes on, the window takes the oldest message, the innermost modal
window closes. -/
inductive Event where
  | check (mode : Mode) (spawn : Bool)
  | work (i : Nat) (t : WorkerTurn)
  | deliver
  | answer (a : Answer)

/-- The installer is started: the path, the file that is there, and the manifest of the download. -/
structure Launch where
  path : CString
  file : Option (List UInt8)
  m : UpdManifest
  accepted : Option UpdManifest

/-- `accepted` is the manifest the user last accepted in the dialog; no branch reads it. -/
structure Updater where
  busy : Bool
  checkMode : Mode
  pending : UpdManifest
  skipped : Option CString
  workers : List Worker
  posted : List Message
  frames : List Frame
  disk : CString → Option (List UInt8)
  accepted : Option UpdManifest
  launched : List Launch

namespace Updater

variable (sha256 : List UInt8 → CString) (s : Updater)

def release : Updater := { s with busy := false }

def push (f : Frame) : Updater := { s with frames := f :: s.frames }

/-- `start_check`. -/
def startCheck (mode : Mode) (spawn : Bool) : Updater :=
  let s := { s with checkMode := mode }
  if s.busy then s
  else if spawn then { s with busy := true, workers := .check :: s.workers }
  else if mode = .manual then s.push .note
  else s

/-- A worker leaves with its message; where the window is gone it releases the flag. -/
def leave (i : Nat) (posts : Bool) (msg : Message) : Updater :=
  let s := { s with workers := s.workers.eraseIdx i }
  if posts then { s with posted := s.posted ++ [msg] } else s.release

def becomes (i : Nat) (w : Worker) : Updater := { s with workers := s.workers.set i w }

def writeFile (path : CString) (file : Option (List UInt8)) : Updater :=
  { s with disk := Function.update s.disk path file }

def checkThread (i : Nat) (t : WorkerTurn) : Updater :=
  if ¬ t.alloc then { s with workers := s.workers.eraseIdx i }.release
  else s.leave i t.posts (.result (checkResult s.checkMode t.fetched))

def failedDownload (m : UpdManifest) (error : CString) : UpdDownload := ⟨false, error, [], m⟩

/-- `download_thread` up to the end of `http_fetch_to_file`. -/
def fetchFile (i : Nat) (t : WorkerTurn) (m : UpdManifest) : Updater :=
  match t.dir with
  | none => s.becomes i (.post (failedDownload m (ascii "There is nowhere to save the download.")))
  | some dir =>
      let path := downloadPath dir m.msiUrl
      match t.fetched with
      | .error err =>
          let error := if err = [] then ascii "The download failed." else err
          (s.writeFile path none).becomes i (.post (failedDownload m error))
      | .ok file => (s.writeFile path (some file)).becomes i (.verify ⟨false, [], path, m⟩)

/-- The check of the file; one that does not match is deleted. -/
def verifyFile (i : Nat) (t : WorkerTurn) (d : UpdDownload) : Updater :=
  let gotHash := if t.hashed then (s.disk d.path).map sha256 else none
  match gotHash with
  | none =>
      let error := if t.hashError = [] then ascii "The download could not be checked." else t.hashError
      (s.writeFile d.path none).becomes i (.post (failedDownload d.m error))
  | some gotHash =>
      if ¬ suiteSha256HexEqual gotHash d.m.msiSha256 then
        let error := ascii ("The downloaded installer does not match its published " ++
          "checksum. It has been deleted and will NOT be run.")
        (s.writeFile d.path none).becomes i (.post (failedDownload d.m error))
      else s.becomes i (.post { d with ok := true })

def work (i : Nat) (t : WorkerTurn) : Updater :=
  match s.workers[i]? with
  | none => s
  | some .check => s.checkThread i t
  | some (.fetch m) => s.fetchFile i t m
  | some (.verify d) => s.verifyFile sha256 i t d
  | some (.post d) => s.leave i t.posts (.dlDone d)

/-- A version the user has skipped is not offered again by a startup check. -/
def isSkipped (r : UpdResult) : Bool :=
  match r.mode, s.skipped with
  | .startup, some skipped => skipped ≠ [] ∧ compareVersions r.m.version skipped ≤ 0
  | _, _ => false

/-- A message box that only a manual check shows; then the flag is released. -/
def report (mode : Mode) : Updater := if mode = .manual then s.push .closing else s.release

/-- `on_result`. -/
def onResult (r : UpdResult) : Updater :=
  if ¬ r.ok then s.report r.mode
  else if r.placeholder ∨ r.cmp ≥ 0 then s.report r.mode
  else if s.isSkipped r then s.release
  else { s with pending := r.m }.push (.offer r.m r.m.version)

/-- `start_download`. -/
def startDownload (a : Answer) (m : UpdManifest) : Updater :=
  if ¬ a.alloc then s.release
  else if a.spawn then { s with workers := .fetch m :: s.workers }
  else s.release.push .note

/-- `on_download_done` up to its message box. -/
def onDownloadDone (d : UpdDownload) : Updater :=
  if ¬ d.ok then s.push .closing else s.push (.ready d)

def deliver : Updater :=
  match s.posted with
  | [] => s
  | .result r :: rest => { s with posted := rest }.onResult r
  | .dlDone d :: rest => { s with posted := rest }.onDownloadDone d

/-- `launch_installer` and what `on_download_done` does behind it. -/
def launch (a : Answer) (d : UpdDownload) : Updater :=
  if d.path ≠ [] ∧ a.launches then
    { s with launched := s.launched ++ [Launch.mk d.path (s.disk d.path) d.m s.accepted] }.release
  else s.push .closing

/-- The innermost modal window closes and its handler goes on. -/
def close (a : Answer) : Updater :=
  match s.frames with
  | [] => s
  | .note :: rest => { s with frames := rest }
  | .closing :: rest => { s with frames := rest }.release
  | .offer shown version :: rest =>
      let s := { s with frames := rest }
      if a.ok then { s with accepted := some shown }.startDownload a s.pending
      else if a.skip then { s with skipped := some version }.release
      else s.release
  | .ready d :: rest =>
      let s := { s with frames := rest }
      if a.ok then s.launch a d else s.push .closing

def step (s : Updater) : Event → Updater
  | .check mode spawn => s.startCheck mode spawn
  | .work i t => s.work sha256 i t
  | .deliver => s.deliver
  | .answer a => s.close a

end Updater

/-- The updater of a Suite that has just started, over the files and settings it finds. -/
def startUpdater (skipped : Option CString) (disk : CString → Option (List UInt8)) : Updater where
  busy := false
  checkMode := .manual
  pending := blankManifest
  skipped := skipped
  workers := []
  posted := []
  frames := []
  disk := disk
  accepted := none
  launched := []

/-! ### What the updater promises -/

/-- Something of a check or of the download it led to is still to come. -/
inductive Holder where
  | worker (w : Worker)
  | message (msg : Message)
  | frame (f : Frame)

namespace Updater

variable (sha256 : List UInt8 → CString)

/-- The modal windows whose handler still has the flag. -/
def heldFrames (frames : List Frame) : List Frame :=
  frames.filter fun f => match f with
    | .note => false
    | .closing | .offer _ _ | .ready _ => true

def holders (s : Updater) : List Holder :=
  s.workers.map .worker ++ s.posted.map .message ++ (heldFrames s.frames).map .frame

/-- The manifest was read from a body the transport brought, its URL is allowed, and it is newer than the
running version and no placeholder. -/
structure Offerable (m : UpdManifest) : Prop where
  read : ∃ doc, readManifest doc = .ok m
  allowed : urlHostAllowed m.msiUrl = true
  newer : compareVersions suiteVersionStr m.version < 0
  real : isPlaceholder m = false

/-- The file that was launched has the checksum of the manifest that the user accepted. -/
structure LaunchSafe (l : Launch) : Prop where
  file : ∃ bytes, l.file = some bytes ∧ suiteSha256HexEqual (sha256 bytes) l.m.msiSha256 = true
  manifest : Offerable l.m
  accepted : l.accepted = some l.m

structure Safe (s : Updater) : Prop where
  launches : ∀ l ∈ s.launched, LaunchSafe sha256 l
  workers : s.workers.length ≤ 1
  busy : s.busy = true ↔ s.holders ≠ []

end Updater

end UnicornSuite.Update
