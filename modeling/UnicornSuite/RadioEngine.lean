import UnicornSuite.LibRun
import UnicornSuite.RadioStream

/-! The worker thread of the radio engine (`re_worker_thread`) with everything it calls: the read
loop, the framer, the decoder and the audio device, which start when the first frame and the first
PCM come. Its phase says which call it is in; what the operating system, the decoder and the audio
device answer there, and what the render thread and `re_stop` do meanwhile, is a `Turn`. -/

namespace UnicornSuite.Radio

/-- `REState` -/
inductive REState where
  | idle | connecting | playing | stopped | error
  deriving DecidableEq

/-- `Ring`, its circular buffer as a queue. `buf` says that the pointer is not null. -/
structure Ring where
  buf : Bool
  ready : Bool
  cap : Nat
  content : List UInt8

/-- `ring_init`; `alloc` is whether `HeapAlloc` has the bytes. -/
def ringInit (alloc : Bool) (cap : Nat) (r : Ring) : Ring :=
  if alloc then ⟨true, true, cap, []⟩ else { r with buf := false }

def ringFree (r : Ring) : Ring := if r.ready then { r with buf := false, ready := false } else r

/-- How many bytes `ring_write` has room for. -/
def ringRoom (data : List UInt8) (r : Ring) : Nat := min data.length (r.cap - r.content.length)

def ringWrite (data : List UInt8) (r : Ring) : Ring :=
  { r with content := r.content ++ data.take (ringRoom data r) }

/-- There is a buffer to write to. -/
def Ring.Created (r : Ring) : Prop := r.ready = true ∧ r.buf = true

instance (r : Ring) : Decidable r.Created := inferInstanceAs (Decidable (_ ∧ _))

/-- What `IMFTransform_ProcessInput` and the calls before it answer. -/
inductive InputResult where
  | accepted | notAccepting | failed
  deriving DecidableEq

/-- What `IMFTransform_ProcessOutput` and the calls before it answer; a sample comes with its PCM. -/
inductive OutputResult where
  | needInput | streamChange | failed
  | sample (pcm : List UInt8)

structure Turn where
  /-- `re_stop` has set the stop event by now. -/
  stop : Bool := false
  /-- How much the render thread has read from the ring. -/
  rendered : Nat := 0
  /-- `re_http_open`, with the `icy-metaint` header of the reply. -/
  reply : Option (Option Nat) := some none
  /-- `WinHttpReadData`; no bytes at the end of the stream. -/
  chunk : Option (List UInt8) := some []
  /-- `re_decoder_ensure` creates the decoder. -/
  decoder : Bool := true
  input : InputResult := .accepted
  output : OutputResult := .needInput
  /-- `nAvgBytesPerSec` of the decoded format. -/
  byteRate : Nat := 0
  ring : Bool := true
  /-- The device opens: enumerator, endpoint, client, buffer and render service. -/
  device : Bool := true
  /-- `CreateThread` of the render thread. -/
  thread : Bool := true

/-- A call of `re_decode_frame` and where it returns to: the accumulator behind the frame and the
rest of the chunk. `again` is set where `ProcessInput` is tried once more after a drain. -/
structure Call where
  frame : List UInt8
  again : Bool
  next : List UInt8
  rest : List UInt8
  deriving DecidableEq

/-- Where the worker is: in `re_http_open`, at the head of its read loop, in `re_consume` with the
rest of the chunk, in the loop of `re_feed_audio`, before `ProcessInput`, in the loop of
`re_drain_output`, at `ring_write` and at the wait of the back-pressure loop with the PCM still to
be written, past the read loop, or finished. -/
inductive Phase where
  | opening
  | read
  | consume (rest : List UInt8)
  | scan (d rest : List UInt8)
  | input (c : Call)
  | drain (c : Call)
  | write (pcm : List UInt8) (c : Call)
  | backoff (pcm : List UInt8) (c : Call)
  | ending
  | done
  deriving DecidableEq

/-- `RadioEngine` and the position of its worker. The last two fields are what an observer notes:
that a start of the decoder or of the audio failed, and that PCM went to a ring that was not
created. -/
structure Engine where
  phase : Phase
  runState : REState
  stream : Stream
  ring : Ring
  wasapiReady : Bool
  render : Bool
  stopEvent : Bool
  failed : Bool
  fault : Bool

namespace Engine

variable (e : Engine)

def goto (p : Phase) : Engine := { e with phase := p }

def onFramer (f : Framer → Framer) : Engine :=
  { e with stream := { e.stream with framer := f e.stream.framer } }

def onIcy (f : Icy → Icy) : Engine := { e with stream := { e.stream with icy := f e.stream.icy } }

/-- A start failed: the text of the error is set and the callers are told so, nothing else. -/
def startFailed : Engine := { e with failed := true }

/-- `re_feed_audio` takes bytes: they join the accumulator and its loop begins. -/
def feed (data rest : List UInt8) : Engine :=
  let e := e.onFramer (accumulate data)
  e.goto (.scan e.stream.framer.adts rest)

/-- The head of the loop of `re_consume`, or the test behind it. -/
def consumeHead (rest : List UInt8) : Engine :=
  match rest with
  | [] => if e.runState = .error then e.goto .ending else e.goto .read
  | b :: tail =>
      match e.stream.icy.phase with
      | .audio =>
          let data := (b :: tail).take e.stream.icy.remain
          let e' := e.onIcy fun c =>
            { c with
              remain := c.remain - data.length
              phase := if c.remain - data.length = 0 then .len else c.phase }
          e'.feed data ((b :: tail).drop e.stream.icy.remain)
      | .len => (e.onIcy (onMetaLen b)).goto (.consume tail)
      | .data =>
          let e' := { e with stream := takeMeta ((b :: tail).take e.stream.icy.metaRemain) e.stream }
          e'.goto (.consume ((b :: tail).drop e.stream.icy.metaRemain))

/-- A frame is whole: without a decoder one is started first, and where that fails `re_feed_audio`
returns with the accumulator as it is. -/
def onFrame (t : Turn) (sr ch len : Nat) (d rest : List UInt8) : Engine :=
  let call : Call := ⟨d.take len, false, d.drop len, rest⟩
  if e.stream.framer.decoderReady then (e.onFramer (decodeFrame call.frame)).goto (.input call)
  else
    let e := e.onFramer fun f => { f with adtsSr := sr, adtsCh := ch }
    if t.decoder then
      (e.onFramer fun f => decodeFrame call.frame { f with decoderReady := true }).goto (.input call)
    else e.startFailed.goto (.consume rest)

def scanHead (t : Turn) (d rest : List UInt8) : Engine :=
  match scanAt d with
  | .short | .partialFrame => (e.onFramer fun f => { f with adts := d }).goto (.consume rest)
  | .resync => e.goto (.scan d.tail rest)
  | .frame sr ch len => e.onFrame t sr ch len d rest

/-- `ProcessInput`; where the decoder is full, the output is drained and the frame tried again. -/
def onInput (t : Turn) (c : Call) : Engine :=
  match t.input with
  | .accepted => e.goto (.drain { c with again := false })
  | .notAccepting =>
      if c.again then e.goto (.scan c.next c.rest) else e.goto (.drain { c with again := true })
  | .failed => e.goto (.scan c.next c.rest)

/-- `re_wasapi_start`, as far as it succeeds. -/
def wasapiStart (t : Turn) : Engine :=
  let e := { e with ring := ringInit t.ring (max (t.byteRate / 2) 32768) e.ring }
  if t.ring = false then e.startFailed
  else if t.device = false then e.startFailed
  else
    let e := { e with wasapiReady := true, render := t.thread }
    if t.thread = false then e.startFailed else { e with runState := .playing }

/-- The end of `re_drain_output`. -/
def afterDrain (c : Call) : Engine :=
  if c.again then e.goto (.input c) else e.goto (.scan c.next c.rest)

/-- `ProcessOutput`. The first PCM starts the audio, and what `re_wasapi_start` returns is not
looked at. -/
def onOutput (t : Turn) (c : Call) : Engine :=
  match t.output with
  | .needInput | .failed => e.afterDrain c
  | .streamChange => e.goto (.drain c)
  | .sample pcm =>
      if pcm = [] then e.goto (.drain c)
      else
        let e := if e.wasapiReady then e else e.wasapiStart t
        e.goto (.write pcm c)

/-- One round of the back-pressure loop. -/
def writeRing (pcm : List UInt8) (c : Call) : Engine :=
  let rest := pcm.drop (ringRoom pcm e.ring)
  let e := { e with
    ring := ringWrite pcm e.ring
    fault := e.fault || !decide e.ring.Created }
  if rest = [] then e.goto (.drain c) else e.goto (.backoff rest c)

def onBackoff (pcm : List UInt8) (c : Call) : Engine :=
  if e.stopEvent then e.goto (.drain c) else e.goto (.write pcm c)

def onOpen (t : Turn) : Engine :=
  match t.reply with
  | none => { e with runState := .error, phase := .ending }
  | some header => { e with stream := opened header e.stream, phase := .read }

def onRead (t : Turn) : Engine :=
  if e.stopEvent then e.goto .ending
  else
    match t.chunk with
    | none | some [] => e.goto .ending
    | some data =>
        if e.stream.icy.metaint = 0 then e.feed data [] else e.goto (.consume data)

/-- Past the read loop: an end before any audio is an error, then everything is torn down. -/
def finish : Engine :=
  let e := if e.wasapiReady = false ∧ e.stopEvent = false ∧ e.runState ≠ .error then
    { e with runState := .error } else e
  { e with
    phase := .done
    stopEvent := true
    render := false
    ring := ringFree e.ring
    wasapiReady := false
    stream := { e.stream with framer := { e.stream.framer with decoderReady := false } }
    runState := if e.runState ≠ .error then .stopped else e.runState }

/-- What others have done by this turn: the stop event is set, and a render thread that runs takes
PCM out of the ring. -/
def meanwhile (t : Turn) : Engine :=
  { e with
    stopEvent := e.stopEvent || t.stop
    ring := if e.render then { e.ring with content := e.ring.content.drop t.rendered } else e.ring }

/-- The call the worker is in returns. -/
def act (t : Turn) : Engine :=
  match e.phase with
  | .opening => e.onOpen t
  | .read => e.onRead t
  | .consume rest => e.consumeHead rest
  | .scan d rest => e.scanHead t d rest
  | .input c => e.onInput t c
  | .drain c => e.onOutput t c
  | .write pcm c => e.writeRing pcm c
  | .backoff pcm c => e.onBackoff pcm c
  | .ending => e.finish
  | .done => e

def step (t : Turn) : Engine := (e.meanwhile t).act t

end Engine

/-- The worker of an engine that `re_start` has prepared, over whatever stream fields and ring an
earlier session left behind. -/
def startWorker (s : Stream) (r : Ring) : Engine where
  phase := .opening
  runState := .connecting
  stream := { s with framer := { s.framer with adts := [], decoderReady := false } }
  ring := ringFree r
  wasapiReady := false
  render := false
  stopEvent := false
  failed := false
  fault := false

end UnicornSuite.Radio
