import UnicornSuite.LibRun
import UnicornSuite.ZmodemName
import Mathlib.Logic.Function.Basic

/-! The worker of a Zmodem receive session (`zmr_thread`) as a machine over what reaches it: the
results of the protocol core (a header, a subpacket, an error of either), the user's cancel request,
and its own turns. A phase says which call of the loop the worker is in. The download folder is the
content of its files under the names `key` gives the paths, so two paths may mean one file. -/

namespace UnicornSuite.Zmodem

/-- `ZMR_MAX_BYTES` -/
def zmrMaxBytes : Nat := 256 * 1024 * 1024
def zmrMaxErrors : Nat := 32

/-- `ZmrStatus` -/
inductive Status where
  | ok | cancelled | refused | tooBig | badName | ioError | protocolError | timeout | aborted
  deriving DecidableEq

/-- The error codes of a `ZRESULT`. -/
inductive ZError where
  | badDigit | closed | badHeaderType | badFrameType | corrupted | badCrc | outOfRange | outOfSpace
  | cancelled | badEscape | unsupported
  deriving DecidableEq

inductive FrameType where
  | zrqinit | zrinit | zsinit | zack | zfile | zskip | znak | zabort | zfin | zrpos | zdata | zeof
  | zerr | zcrc | zchallenge | zcompl | zcan | zfreecount | zcommand | zstderr
  | unknown (b : UInt8)
  deriving DecidableEq

def FrameType.ofByte (b : UInt8) : FrameType :=
  match b.toNat with
  | 0x00 => .zrqinit | 0x01 => .zrinit | 0x02 => .zsinit | 0x03 => .zack
  | 0x04 => .zfile | 0x05 => .zskip | 0x06 => .znak | 0x07 => .zabort
  | 0x08 => .zfin | 0x09 => .zrpos | 0x0a => .zdata | 0x0b => .zeof
  | 0x0c => .zerr | 0x0d => .zcrc | 0x0e => .zchallenge | 0x0f => .zcompl
  | 0x10 => .zcan | 0x11 => .zfreecount | 0x12 => .zcommand | 0x13 => .zstderr
  | _ => .unknown b

structure Header where
  type : UInt8
  position : UInt32

/-- `GOT_CRCE`, `GOT_CRCG`, `GOT_CRCQ`, `GOT_CRCW` -/
inductive FrameEnd where
  | crce | crcg | crcq | crcw
  deriving DecidableEq

/-- A subpacket whose check was good, frame-end byte left out; with that byte it fits the block
buffer. The sender took it from the stream of a ZDATA header at position `stream`, after `before`
bytes of that stream: the line does not carry these two and the receiver never reads them. -/
structure Subpacket where
  payload : List UInt8
  fits : payload.length < zmrBlockBuf
  frameEnd : FrameEnd
  stream : Nat
  before : Nat

/-- What the operating system and the transport answer in one step: whether `send_fn` and `fopen`
succeed, after how many bytes `fwrite` gave up, whether `fflush` and `DeleteFileA` succeed. -/
structure Os where
  sendOk : Bool := true
  openOk : Bool := true
  short : Option Nat := none
  flushOk : Bool := true
  deleteOk : Bool := true

/-- The count `fwrite` returns for `n` bytes. -/
def Os.fwrite (os : Os) (n : Nat) : Nat :=
  match os.short with
  | none => n
  | some k => min k n

inductive Event where
  | cancel
  | turn (os : Os)
  | header (r : Except ZError Header) (os : Os)
  | block (r : Except ZError Subpacket) (os : Os)

inductive Reply where
  | pos (type : FrameType) (p : UInt32)
  | flags (type : FrameType) (f0 f1 f2 f3 : UInt8)
  | cancel
  deriving DecidableEq

/-- Where the worker is: at the head of its loop, in `zm_await_header`, in `zm_read_data_block` for
a ZSINIT or a ZFILE, at the head of the data loop, in its `zm_read_data_block`, past the loop, or
finished. -/
inductive Phase where
  | top | header | sinit | file | dataTop | data | exit | done
  deriving DecidableEq

/-- The record of one file the session created: for each of its bytes the stream position it was
sent under and the bytes before it there, and the positions of the ZEOF headers that came for it. -/
structure FileLog (κ : Type) where
  key : κ
  origin : List (Nat × Nat) := []
  eofs : List Nat := []

/-- What an observer of the session notes; no branch of the code reads it. `stream` and `delivered`
are of the ZDATA frame last accepted. -/
structure Ledger (κ : Type) where
  written : Nat := 0
  current : Option (FileLog κ) := none
  closed : List (FileLog κ) := []
  stream : Nat := 0
  delivered : Nat := 0

namespace Ledger

variable {κ : Type}

/-- The files the session created. -/
def all (l : Ledger κ) : List (FileLog κ) := l.current.toList ++ l.closed

def created (l : Ledger κ) : List κ := l.all.map (·.key)

def close (l : Ledger κ) : Ledger κ := { l with current := none, closed := l.all }

def opened (l : Ledger κ) (k : κ) : Ledger κ := { l with current := some { key := k } }

def eof (l : Ledger κ) (p : Nat) : Ledger κ :=
  { l with current := l.current.map (fun f => { f with eofs := p :: f.eofs }) }

def frame (l : Ledger κ) (p : Nat) : Ledger κ := { l with stream := p, delivered := 0 }

/-- The labels of the first `n` bytes of a subpacket. -/
def labels (b : Subpacket) (n : Nat) : List (Nat × Nat) :=
  (List.range n).map (fun i => (b.stream, b.before + i))

def wrote (l : Ledger κ) (b : Subpacket) (n : Nat) : Ledger κ :=
  { l with
    written := l.written + n
    delivered := l.delivered + n
    current := l.current.map (fun f => { f with origin := f.origin ++ labels b n }) }

end Ledger

/-- `ZmodemRecv` and the locals of `zmr_thread`. `out` is the file behind `out.fp`, while open. -/
structure Session (κ : Type) where
  phase : Phase
  dir : CString
  status : Status
  received : Nat
  total : Nat
  name : CString
  path : CString
  detail : String
  cancelRequest : Bool
  sendFailed : Bool
  errors : Nat
  sawFile : Bool
  out : Option κ
  sent : List Reply
  files : κ → Option (List UInt8)
  ledger : Ledger κ

namespace Session

variable {κ : Type}

/-- The worker is still in its loop. -/
def Running (s : Session κ) : Prop := s.phase ≠ .exit ∧ s.phase ≠ .done

instance (s : Session κ) : Decidable s.Running := inferInstanceAs (Decidable (_ ∧ _))

def goto (p : Phase) (s : Session κ) : Session κ := { s with phase := p }

/-- Sets the outcome and leaves the loop. -/
def stop (st : Status) (d : String) (s : Session κ) : Session κ :=
  { s with status := st, detail := d, phase := .exit }

/-- `zsend_pos` and `zsend_flags` -/
def zsend (r : Reply) (os : Os) (s : Session κ) : Session κ :=
  { s with sent := r :: s.sent, sendFailed := s.sendFailed || !os.sendOk }

def zsendCancel (s : Session κ) : Session κ := { s with sent := .cancel :: s.sent }

def zsendRinit (os : Os) (s : Session κ) : Session κ := zsend (.flags .zrinit 0x23 0 0 0) os s

def cancelled (s : Session κ) : Session κ := stop .cancelled "Cancelled." (zsendCancel s)

/-- `zmr_own_cancel`, and the outcome where the stop was not the user's. -/
def ownCancelOr (st : Status) (d : String) (s : Session κ) : Session κ :=
  if s.cancelRequest then cancelled s else stop st d s

/-- One more protocol error: another attempt after a reply, or the end of the session. -/
def retry (d : String) (r : Reply) (os : Os) (s : Session κ) : Session κ :=
  if s.errors + 1 > zmrMaxErrors then stop .protocolError d { s with errors := s.errors + 1 }
  else goto .top (zsend r os { s with errors := s.errors + 1 })

def zrpos (n : Nat) : Reply := .pos .zrpos (UInt32.ofNat n)

/-- The checks at the head of the loop, before a header is awaited. -/
def loopTop (s : Session κ) : Session κ :=
  if s.cancelRequest then cancelled s
  else if s.sendFailed then stop .aborted "The connection dropped during the transfer." s
  else goto .header s

def dataTop (s : Session κ) : Session κ :=
  if s.cancelRequest then cancelled s else goto .data s

def onSinit (r : Except ZError Subpacket) (os : Os) (s : Session κ) : Session κ :=
  match r with
  | .error .cancelled => ownCancelOr .aborted "The sender cancelled the transfer." s
  | _ => goto .top (zsend (.flags .zack 0 0 0 0) os s)

section File

variable [DecidableEq κ] (key : CString → κ)

/-- A new file is about to be named: the last one is closed, the counters start again, and the
path is what the search for a free one leaves. -/
def claimPath (name : CString) (advertised : Nat) (s : Session κ) : Session κ :=
  { s with
    out := none
    name := name
    total := advertised
    received := 0
    path := (buildUniquePath (fun p => (s.files (key p)).isSome) s.dir name maxPath).2
    ledger := s.ledger.close }

/-- `fopen` of the path that was free. -/
def createFile (s : Session κ) : Session κ :=
  { s with
    out := some (key s.path)
    sawFile := true
    files := Function.update s.files (key s.path) (some [])
    ledger := s.ledger.opened (key s.path) }

def onFile (r : Except ZError Subpacket) (os : Os) (s : Session κ) : Session κ :=
  match r with
  | .error .cancelled => ownCancelOr .aborted "The sender cancelled the transfer." s
  | .error _ => retry "The file header would not decode." (.pos .znak 0) os s
  | .ok b =>
      let name := (parseZfile b.payload).1
      let advertised := (parseZfile b.payload).2
      if advertised > zmrMaxBytes then
        stop .tooBig ("The sender offered " ++ toString advertised ++ " bytes; the limit is "
          ++ toString zmrMaxBytes ++ ".") (zsendCancel s)
      else if (buildUniquePath (fun p => (s.files (key p)).isSome) s.dir name maxPath).1 = false then
        stop .ioError "Could not find a free name in the download folder."
          (zsendCancel (claimPath key name advertised s))
      else if os.openOk = false then
        stop .ioError "Could not create the file in the download folder."
          (zsendCancel (claimPath key name advertised s))
      else goto .top (zsend (zrpos 0) os (createFile key (claimPath key name advertised s)))

/-- `fwrite` puts the first `n` bytes of the subpacket at the end of the open file. -/
def writeBlock (b : Subpacket) (n : Nat) (s : Session κ) : Session κ :=
  match s.out with
  | none => s
  | some k =>
      { s with
        files := Function.update s.files k ((s.files k).map (· ++ b.payload.take n))
        ledger := s.ledger.wrote b n }

/-- What follows a subpacket that is on disk. -/
def afterBlock (e : FrameEnd) (os : Os) (s : Session κ) : Session κ :=
  match e with
  | .crce => goto .top s
  | .crcg => goto .dataTop s
  | .crcq => goto .dataTop (zsend (.pos .zack (UInt32.ofNat s.received)) os s)
  | .crcw => goto .top (zsend (.pos .zack (UInt32.ofNat s.received)) os s)

def advance (n : Nat) (s : Session κ) : Session κ := { s with received := s.received + n }

def onData (r : Except ZError Subpacket) (os : Os) (s : Session κ) : Session κ :=
  match r with
  | .error .cancelled => ownCancelOr .aborted "The sender cancelled the transfer." s
  | .error .closed => ownCancelOr .timeout "The sender stopped responding." s
  | .error _ => retry "Too many bad blocks; gave up." (zrpos s.received) os s
  | .ok b =>
      let payload := b.payload.length
      if s.received + payload > zmrMaxBytes then
        stop .tooBig "The transfer ran past the size limit and was stopped."
          (zsendCancel { s with errors := 0 })
      else if payload > 0 ∧ os.fwrite payload ≠ payload then
        stop .ioError "Writing to the download folder failed."
          (zsendCancel (writeBlock b (os.fwrite payload) { s with errors := 0 }))
      else
        afterBlock b.frameEnd os (advance payload (writeBlock b payload { s with errors := 0 }))

/-- The exit of the worker: the file is closed, and what a session that failed leaves under the
path is deleted. -/
def cleanUp (os : Os) (s : Session κ) : Session κ :=
  let s := { s with out := none, phase := .done }
  if s.status ≠ .ok ∧ s.path ≠ [] then
    { s with
      files := if os.deleteOk then Function.update s.files (key s.path) none else s.files
      path := [] }
  else s

end File

/-- A ZEOF came; its position is not read. -/
def onEof (p : UInt32) (os : Os) (s : Session κ) : Session κ :=
  let s := { s with ledger := s.ledger.eof p.toNat }
  if s.out.isSome ∧ os.flushOk = false then stop .ioError "Writing to the download folder failed." s
  else goto .top (zsendRinit os s)

def onFin (os : Os) (s : Session κ) : Session κ :=
  let s := zsend (.flags .zfin 0 0 0 0) os s
  if s.sawFile ∧ s.out.isSome then
    stop .ok ("Received " ++ toString s.received ++ " bytes.") s
  else if s.sawFile = false then
    stop .protocolError "The sender finished without offering a file." s
  else goto .exit s

/-- A ZDATA header opens the data loop only where a file is open and the positions agree. -/
def onDataHeader (hpos : Nat) (os : Os) (s : Session κ) : Session κ :=
  if s.out.isNone then goto .top (zsend (zrpos 0) os s)
  else if hpos ≠ s.received then goto .top (zsend (zrpos s.received) os s)
  else goto .dataTop { s with ledger := s.ledger.frame hpos }

/-- The switch over the type of a good header. -/
def onFrame (hdr : Header) (os : Os) (s : Session κ) : Session κ :=
  match FrameType.ofByte hdr.type with
  | .zcommand | .zcompl =>
      stop .refused "The sender asked to run a command. Refused." (zsendCancel s)
  | .zrqinit => goto .top (zsendRinit os s)
  | .zsinit => goto .sinit s
  | .zchallenge => goto .top (zsend (.pos .zack hdr.position) os s)
  | .zfreecount => goto .top (zsend (.pos .zack (UInt32.ofNat zmrMaxBytes)) os s)
  | .zfile => goto .file s
  | .zdata => onDataHeader hdr.position.toNat os s
  | .zeof => onEof hdr.position os s
  | .zfin => onFin os s
  | .zskip | .zabort | .zerr | .zcan => stop .aborted "The sender abandoned the transfer." s
  | _ => retry "The sender kept sending frames we do not know." (.pos .znak 0) os s

def onHeader (r : Except ZError Header) (os : Os) (s : Session κ) : Session κ :=
  match r with
  | .error .cancelled => ownCancelOr .aborted "The sender cancelled the transfer." s
  | .error .closed => ownCancelOr .timeout "The sender stopped responding." s
  | .error _ =>
      retry "Too many protocol errors; gave up."
        (if s.out.isSome then zrpos s.received else .pos .znak 0) os s
  | .ok hdr => onFrame hdr os { s with errors := 0 }

end Session

open Session

variable {κ : Type} [DecidableEq κ] (key : CString → κ)

/-- A session over a download folder, after its first ZRINIT. -/
def start (dir : CString) (files : κ → Option (List UInt8)) (os : Os) : Session κ :=
  zsendRinit os
    { phase := .top, dir := dir.take (maxPath - 1), status := .protocolError, received := 0,
      total := 0, name := [], path := [], detail := "The transfer did not start.",
      cancelRequest := false, sendFailed := false, errors := 0, sawFile := false, out := none,
      sent := [], files := files, ledger := {} }

/-- One step. What the phase does not wait for is not taken. -/
def step (s : Session κ) : Event → Session κ
  | .cancel => { s with cancelRequest := true }
  | .turn os =>
      match s.phase with
      | .top => loopTop s
      | .dataTop => dataTop s
      | .exit => cleanUp key os s
      | _ => s
  | .header r os => if s.phase = .header then onHeader r os s else s
  | .block r os =>
      match s.phase with
      | .sinit => onSinit r os s
      | .file => onFile key r os s
      | .data => onData r os s
      | _ => s

/-- The name under which a step takes up a file: that of a ZFILE payload that came whole and
advertises no more than the ceiling. -/
def offers (s : Session κ) : Event → Option CString
  | .block (.ok b) _ =>
      if s.phase = .file ∧ (parseZfile b.payload).2 ≤ zmrMaxBytes then
        some (parseZfile b.payload).1
      else none
  | _ => none

/-- The subpacket a step of the data loop is given. -/
def delivers (s : Session κ) : Event → Option Subpacket
  | .block (.ok b) _ => if s.phase = .data then some b else none
  | _ => none

/-- The step is given a ZFIN. -/
def finishes (s : Session κ) : Event → Bool
  | .header (.ok hdr) _ => s.phase = .header ∧ FrameType.ofByte hdr.type = .zfin
  | _ => false

section Sender

/-- A subpacket of one byte, `before` bytes into the stream at position 0. -/
def oneByte (c : UInt8) (frameEnd : FrameEnd) (before : Nat) : Subpacket :=
  { payload := [c], fits := (by decide : 1 < zmrBlockBuf), frameEnd := frameEnd, stream := 0,
    before := before }

/-- A ZFILE payload that is a name and nothing else. -/
def nameBlock (c : UInt8) : Subpacket := oneByte c .crcw 0

/-- An empty subpacket that ends its frame. -/
def crceBlock : Subpacket :=
  { payload := [], fits := by decide, frameEnd := .crce, stream := 0, before := 0 }

/-- What brings the worker from the head of its loop to the first subpacket of a file. -/
def offerEvents (nm : Subpacket) : List Event :=
  [.turn {}, .header (.ok ⟨0x04, 0⟩) {}, .block (.ok nm) {}, .turn {}, .header (.ok ⟨0x0a, 0⟩) {},
    .turn {}]

end Sender

end UnicornSuite.Zmodem
