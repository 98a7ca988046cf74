import UnicornSuite.RadioDemux
import UnicornSuite.RadioEngine

/-! What becomes of a radio worker whose start-ups fail. The start of the decoder and of the audio
lies four calls below the read loop and its failure is a return value; `Safe` is what the engine
owes its listener in every state, and the runs that keep it are those in which no start-up fails. -/

namespace UnicornSuite.Radio

namespace Phase

/-- The read loop is behind. -/
def closed : Phase → Bool
  | .ending | .done => true
  | _ => false

/-- PCM is about to go to the ring. -/
def inWrite : Phase → Bool
  | .write _ _ | .backoff _ _ => true
  | _ => false

/-- The worker waits for room in the ring. -/
def waits : Phase → Bool
  | .backoff _ _ => true
  | _ => false

end Phase

namespace Engine

/-- No PCM went to a ring that was not created, the worker waits for room only where a render thread
makes room, and after a start that failed the engine is in the error state and takes nothing more
from the stream. -/
structure Safe (e : Engine) : Prop where
  ring : e.fault = false
  waiting : e.phase.waits = true → e.render = true
  failing : e.failed = true → e.runState = .error ∧ e.phase ≠ .read

/-- The step is one that starts the decoder: a whole frame and no decoder. -/
def startsDecoder (e : Engine) : Bool :=
  match e.phase with
  | .scan d _ =>
      match scanAt d with
      | .frame _ _ _ => !e.stream.framer.decoderReady
      | _ => false
  | _ => false

/-- The step is one that starts the audio: PCM and no audio device. -/
def startsAudio (e : Engine) (t : Turn) : Bool :=
  match e.phase, t.output with
  | .drain _, .sample pcm => pcm ≠ [] ∧ e.wasapiReady = false
  | _, _ => false

/-- What the step starts, starts: the decoder is created, the ring allocated, the audio device
opened and the render thread created. -/
def Starts (e : Engine) (t : Turn) : Prop :=
  (e.startsDecoder = true → t.decoder = true) ∧
    (e.startsAudio t = true → t.ring = true ∧ t.device = true ∧ t.thread = true)

instance (e : Engine) (t : Turn) : Decidable (e.Starts t) := inferInstanceAs (Decidable (_ ∧ _))

/-- Nothing has failed, and a started audio device has its ring and its render thread. -/
structure Sound (e : Engine) : Prop where
  failed : e.failed = false
  fault : e.fault = false
  live : e.phase.closed = false → e.runState ≠ .error
  audio : e.phase.closed = false → e.wasapiReady = true → e.ring.Created ∧ e.render = true
  writing : e.phase.inWrite = true → e.wasapiReady = true

/-- The part of `Sound` that does not depend on the phase. -/
structure Core (e : Engine) : Prop where
  failed : e.failed = false
  fault : e.fault = false
  live : e.runState ≠ .error
  audio : e.wasapiReady = true → e.ring.Created ∧ e.render = true

variable {e : Engine}

theorem Sound.core (h : e.Sound) (hclosed : e.phase.closed = false) : e.Core :=
  ⟨h.failed, h.fault, h.live hclosed, h.audio hclosed⟩

theorem Core.goto {p : Phase} (h : e.Core) (hp : p.inWrite = true → e.wasapiReady = true) :
    (e.goto p).Sound :=
  ⟨h.failed, h.fault, fun _ => h.live, fun _ => h.audio, hp⟩

theorem Core.goto_outside {p : Phase} (h : e.Core) (hp : p.inWrite = false) : (e.goto p).Sound := by
  apply h.goto
  intro hwrite
  rw [hp] at hwrite
  cases hwrite

theorem Core.withStream (h : e.Core) (s : Stream) : Core { e with stream := s } :=
  ⟨h.failed, h.fault, h.live, h.audio⟩

theorem Core.onFramer (h : e.Core) (f : Framer → Framer) : (e.onFramer f).Core :=
  ⟨h.failed, h.fault, h.live, h.audio⟩

theorem Core.onIcy (h : e.Core) (f : Icy → Icy) : (e.onIcy f).Core :=
  ⟨h.failed, h.fault, h.live, h.audio⟩

theorem Sound.safe (h : e.Sound) : e.Safe := by
  refine ⟨h.fault, ?_, ?_⟩
  · intro hwaits
    have hclosed : e.phase.closed = false := by
      revert hwaits
      cases e.phase <;> simp [Phase.waits, Phase.closed]
    have hwrite : e.phase.inWrite = true := by
      revert hwaits
      cases e.phase <;> simp [Phase.waits, Phase.inWrite]
    exact (h.audio hclosed (h.writing hwrite)).2
  · intro hfailed
    rw [h.failed] at hfailed
    cases hfailed

theorem Sound.meanwhile (h : e.Sound) (t : Turn) : (e.meanwhile t).Sound := by
  refine ⟨h.failed, h.fault, h.live, ?_, h.writing⟩
  intro hclosed hready
  obtain ⟨hcreated, hrender⟩ := h.audio hclosed hready
  refine ⟨?_, hrender⟩
  simp only [Engine.meanwhile, hrender, if_true]
  exact hcreated

/-! ### The calls of a turn -/

section Calls

variable (t : Turn)

theorem Core.feed (h : e.Core) (data rest : List UInt8) : (e.feed data rest).Sound :=
  (h.onFramer _).goto_outside rfl

theorem Core.consumeHead (h : e.Core) (rest : List UInt8) : (e.consumeHead rest).Sound := by
  cases rest with
  | nil =>
      rw [Engine.consumeHead, if_neg h.live]
      exact h.goto_outside rfl
  | cons b tail =>
      rw [Engine.consumeHead]
      cases hphase : e.stream.icy.phase with
      | audio => exact (h.onIcy _).feed _ _
      | len => exact (h.onIcy _).goto_outside rfl
      | data => exact (h.withStream _).goto_outside rfl

theorem Core.onFrame (h : e.Core) (sr ch len : Nat) (d rest : List UInt8)
    (ht : e.stream.framer.decoderReady = false → t.decoder = true) :
    (e.onFrame t sr ch len d rest).Sound := by
  unfold Engine.onFrame
  simp only
  split_ifs with hready hstart
  · exact (h.onFramer _).goto_outside rfl
  · exact ((h.onFramer _).onFramer _).goto_outside rfl
  · exact absurd (ht (by simpa using hready)) hstart

theorem Core.onInput (h : e.Core) (c : Call) : (e.onInput t c).Sound := by
  unfold Engine.onInput
  split
  · exact h.goto_outside rfl
  · split_ifs
    · exact h.goto_outside rfl
    · exact h.goto_outside rfl
  · exact h.goto_outside rfl

theorem Core.afterDrain (h : e.Core) (c : Call) : (e.afterDrain c).Sound := by
  unfold Engine.afterDrain
  split_ifs
  · exact h.goto_outside rfl
  · exact h.goto_outside rfl

/-- A start of the audio that succeeds has made the ring and the render thread. -/
theorem Core.wasapiStart (h : e.Core) (ht : t.ring = true ∧ t.device = true ∧ t.thread = true) :
    (e.wasapiStart t).Core ∧ (e.wasapiStart t).wasapiReady = true := by
  obtain ⟨hring, hdevice, hthread⟩ := ht
  unfold Engine.wasapiStart
  simp only [hring, hdevice, hthread, Bool.true_eq_false, if_false]
  exact ⟨⟨h.failed, h.fault, nofun, fun _ => ⟨⟨rfl, rfl⟩, rfl⟩⟩, trivial⟩

theorem Core.onOutput (h : e.Core) (c : Call)
    (ht : ∀ pcm, t.output = .sample pcm → pcm ≠ [] → e.wasapiReady = false →
      t.ring = true ∧ t.device = true ∧ t.thread = true) : (e.onOutput t c).Sound := by
  unfold Engine.onOutput
  split
  · exact h.afterDrain c
  · exact h.afterDrain c
  · exact h.goto_outside rfl
  · rename_i pcm hpcm
    simp only
    split_ifs with hnil hready
    · exact h.goto_outside rfl
    · exact h.goto fun _ => hready
    · obtain ⟨hcore, hready'⟩ := h.wasapiStart t (ht pcm hpcm hnil (by simpa using hready))
      exact hcore.goto fun _ => hready'

theorem Core.writeRing (h : e.Core) (hready : e.wasapiReady = true) (pcm : List UInt8) (c : Call) :
    (e.writeRing pcm c).Sound := by
  obtain ⟨hcreated, hrender⟩ := h.audio hready
  unfold Engine.writeRing
  simp only
  have hcore : Core { e with
      ring := ringWrite pcm e.ring
      fault := e.fault || !decide e.ring.Created } := by
    refine ⟨h.failed, ?_, h.live, fun _ => ⟨hcreated, hrender⟩⟩
    simp only [h.fault, decide_eq_true hcreated, Bool.not_true, Bool.or_false]
  split_ifs
  · exact hcore.goto fun _ => hready
  · exact hcore.goto fun _ => hready

theorem Core.onBackoff (h : e.Core) (hready : e.wasapiReady = true) (pcm : List UInt8) (c : Call) :
    (e.onBackoff pcm c).Sound := by
  unfold Engine.onBackoff
  split_ifs
  · exact h.goto fun _ => hready
  · exact h.goto fun _ => hready

theorem Core.onOpen (h : e.Core) : (e.onOpen t).Sound := by
  unfold Engine.onOpen
  split
  · exact ⟨h.failed, h.fault, nofun, nofun, nofun⟩
  · exact ⟨h.failed, h.fault, fun _ => h.live, fun _ => h.audio, nofun⟩

theorem Core.onRead (h : e.Core) : (e.onRead t).Sound := by
  unfold Engine.onRead
  split
  · exact h.goto_outside rfl
  · split
    · exact h.goto_outside rfl
    · exact h.goto_outside rfl
    · split
      · exact h.feed _ _
      · exact h.goto_outside rfl

theorem Sound.finish (h : e.Sound) : e.finish.Sound := by
  unfold Engine.finish
  split_ifs
  all_goals exact ⟨h.failed, h.fault, nofun, nofun, nofun⟩

theorem Core.scanHead (h : e.Core) (d rest : List UInt8)
    (ht : ∀ sr ch len, scanAt d = .frame sr ch len → e.stream.framer.decoderReady = false →
      t.decoder = true) : (e.scanHead t d rest).Sound := by
  unfold Engine.scanHead
  split
  · exact (h.onFramer _).goto_outside rfl
  · exact (h.onFramer _).goto_outside rfl
  · exact h.goto_outside rfl
  · rename_i sr ch len hscan
    exact h.onFrame t sr ch len d rest (ht sr ch len hscan)

theorem Sound.act (h : e.Sound) (ht : e.Starts t) : (e.act t).Sound := by
  obtain ⟨hdecoder, haudio⟩ := ht
  unfold startsDecoder at hdecoder
  unfold startsAudio at haudio
  cases hphase : e.phase with
  | opening =>
      simp only [Engine.act, hphase]
      exact (h.core (by rw [hphase]; rfl)).onOpen t
  | read =>
      simp only [Engine.act, hphase]
      exact (h.core (by rw [hphase]; rfl)).onRead t
  | consume rest =>
      simp only [Engine.act, hphase]
      exact (h.core (by rw [hphase]; rfl)).consumeHead rest
  | scan d rest =>
      simp only [Engine.act, hphase]
      refine (h.core (by rw [hphase]; rfl)).scanHead t d rest ?_
      intro sr ch len hscan hready
      simp only [hphase, hscan, hready] at hdecoder
      exact hdecoder rfl
  | input c =>
      simp only [Engine.act, hphase]
      exact (h.core (by rw [hphase]; rfl)).onInput t c
  | drain c =>
      simp only [Engine.act, hphase]
      refine (h.core (by rw [hphase]; rfl)).onOutput t c ?_
      intro pcm hpcm hne hready
      simp only [hphase, hpcm, hready] at haudio
      exact haudio (decide_eq_true ⟨hne, trivial⟩)
  | write pcm c =>
      simp only [Engine.act, hphase]
      exact (h.core (by rw [hphase]; rfl)).writeRing (h.writing (by rw [hphase]; rfl)) pcm c
  | backoff pcm c =>
      simp only [Engine.act, hphase]
      exact (h.core (by rw [hphase]; rfl)).onBackoff (h.writing (by rw [hphase]; rfl)) pcm c
  | ending =>
      simp only [Engine.act, hphase]
      exact h.finish
  | done =>
      simp only [Engine.act, hphase]
      exact h

/-- A start that fails is a failure the listener is not told of. -/
theorem not_safe_of_failed {e' : Engine} (hfailed : e'.failed = true) (hstate : e'.runState ≠ .error) :
    ¬ e'.Safe :=
  fun h => hstate (h.failing hfailed).1

theorem wasapiStart_fails (h : e.Core) (ht : ¬ (t.ring = true ∧ t.device = true ∧ t.thread = true)) :
    (e.wasapiStart t).failed = true ∧ (e.wasapiStart t).runState ≠ .error := by
  unfold Engine.wasapiStart
  simp only
  split_ifs with hring hdevice hthread
  · exact ⟨rfl, h.live⟩
  · exact ⟨rfl, h.live⟩
  · exact ⟨rfl, h.live⟩
  · simp only [Bool.not_eq_false] at hring hdevice hthread
    exact absurd ⟨hring, hdevice, hthread⟩ ht

theorem Sound.act_misses (h : e.Sound) (ht : ¬ e.Starts t) : ¬ (e.act t).Safe := by
  rw [Starts, Classical.not_and_iff_not_or_not, Classical.not_imp, Classical.not_imp] at ht
  rcases ht with ⟨hstarts, hdecoder⟩ | ⟨hstarts, haudio⟩
  · unfold startsDecoder at hstarts
    split at hstarts
    · rename_i d rest hphase
      split at hstarts
      · rename_i sr ch len hscan
        have hcore := h.core (by rw [hphase]; rfl)
        simp only [Bool.not_eq_true'] at hstarts
        simp only [Engine.act, hphase, Engine.scanHead, hscan, Engine.onFrame, hstarts,
          if_neg hdecoder, Bool.false_eq_true, if_false]
        exact not_safe_of_failed rfl hcore.live
      · cases hstarts
    · cases hstarts
  · unfold startsAudio at hstarts
    split at hstarts
    · rename_i c pcm hphase hpcm
      have hcore := h.core (by rw [hphase]; rfl)
      obtain ⟨hne, hready⟩ := of_decide_eq_true hstarts
      obtain ⟨hfailed, hstate⟩ := wasapiStart_fails t hcore haudio
      simp only [Engine.act, hphase, Engine.onOutput, hpcm, if_neg hne, hready, Bool.false_eq_true,
        if_false]
      exact not_safe_of_failed hfailed hstate
    · cases hstarts

theorem Sound.step (h : e.Sound) (ht : e.Starts t) : (e.step t).Sound :=
  (h.meanwhile t).act t ht

theorem Sound.step_misses (h : e.Sound) (ht : ¬ e.Starts t) : ¬ (e.step t).Safe :=
  (h.meanwhile t).act_misses t ht

end Calls

theorem startWorker_sound (s : Stream) (r : Ring) : (startWorker s r).Sound :=
  ⟨rfl, rfl, nofun, nofun, nofun⟩

end Engine

/-- A run of the worker is safe in all of its states exactly if every start it makes succeeds: of
the decoder, and of the ring, the audio device and the render thread. -/
theorem session_safe_iff (s : Stream) (r : Ring) (ts : List Turn) :
    (∀ ts', ts' <+: ts → (Machine.run Engine.step (startWorker s r) ts').Safe) ↔
      Machine.Guarded Engine.step Engine.Starts (startWorker s r) ts :=
  Machine.safe_iff_guarded (fun _ t h ht => h.step t ht) (fun _ h => h.safe)
    (fun _ t h ht => h.step_misses t ht) (Engine.startWorker_sound s r) ts

section Failures

/-- The first chunk is one frame and no decoder can be created. -/
def decoderFails : List Turn :=
  [{}, { chunk := some bareFrame.bytes }, { decoder := false }, {}]

/-- The decoder works, its first PCM is one byte, and there is no memory for the ring. -/
def ringFails : List Turn :=
  [{}, { chunk := some bareFrame.bytes }, {}, {}, { output := .sample [0], ring := false }, {}]

/-- Without a decoder the worker is back at its read loop and the engine still says that it is
connecting; without a ring the PCM is written all the same. -/
theorem session_unsafe : ¬ ∀ (s : Stream) (r : Ring) (ts : List Turn),
    (Machine.run Engine.step (startWorker s r) ts).Safe := by
  intro hsafe
  have hread : (Machine.run Engine.step (startWorker idleStream ⟨false, false, 0, []⟩)
      decoderFails).phase = .read := by decide
  have hfailed : (Machine.run Engine.step (startWorker idleStream ⟨false, false, 0, []⟩)
      decoderFails).failed = true := by decide
  have hfault : (Machine.run Engine.step (startWorker idleStream ⟨false, false, 0, []⟩)
      ringFails).fault = true := by decide
  have hring := (hsafe idleStream ⟨false, false, 0, []⟩ ringFails).ring
  rw [hfault] at hring
  exact ((hsafe idleStream ⟨false, false, 0, []⟩ decoderFails).failing hfailed).2 hread

end Failures

end UnicornSuite.Radio
