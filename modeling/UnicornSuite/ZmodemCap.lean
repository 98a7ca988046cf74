import UnicornSuite.ZmodemSteps

/-! The ceiling of a receive session. Every subpacket is checked against the counter `received`,
which each ZFILE sets back to zero, so the ceiling holds for the session only where no file is taken
up after bytes were received (`session_capped`); each single file stays under it. -/

namespace UnicornSuite.Zmodem

open Session

variable {κ : Type} [DecidableEq κ] (key : CString → κ)

/-- The counter covers all that was written, and is under the ceiling, while the worker runs. -/
structure Capped (s : Session κ) : Prop where
  running : s.Running → s.ledger.written ≤ s.received ∧ s.received ≤ zmrMaxBytes
  total : s.ledger.written ≤ zmrMaxBytes

/-- No file is taken up while the counter is at work. -/
def CounterKept (s : Session κ) (e : Event) : Prop := (offers s e).isSome → s.received = 0

instance (s : Session κ) (e : Event) : Decidable (CounterKept s e) :=
  inferInstanceAs (Decidable (_ → _))

section Step

variable {s s' : Session κ}

omit [DecidableEq κ] in
theorem Capped.keeps (h : Capped s) (hk : Keeps s s') : Capped s' := by
  refine ⟨fun hr => ?_, ?_⟩
  · rw [hk.ledger, hk.received]
    exact h.running (hk.running hr)
  · rw [hk.ledger]
    exact h.total

theorem capped_step {e : Event} (h : Capped s) (hg : CounterKept s e) : Capped (step key s e) := by
  have hclaim : ∀ name n, offers s e = some name → s.phase = .file →
      Capped (claimPath key name n s) := by
    intro name n ho hp
    have hr : s.Running := running_of_phase hp (by decide)
    have hzero := hg (by rw [ho]; rfl)
    have hw := (h.running hr).1
    rw [hzero] at hw
    exact ⟨fun _ => ⟨hw, Nat.zero_le _⟩, h.total⟩
  cases step_moves key s e with
  | keeps hk => exact h.keeps hk
  | success _ _ hd hs =>
      refine ⟨fun hr => absurd hr hs, ?_⟩
      rw [hd.ledger]
      exact h.total
  | marked _ _ p hk => exact Capped.keeps (s := mark p s) ⟨h.running, h.total⟩ hk
  | framed _ hr _ hk =>
      exact Capped.keeps (s := frame s.received s) ⟨fun _ => h.running hr, h.total⟩ hk
  | refused name n ho hp hk => exact (hclaim name n ho hp).keeps hk
  | opened name n ho hp _ hk =>
      have hc := hclaim name n ho hp
      exact Capped.keeps (s := createFile key (claimPath key name n s)) ⟨hc.running, hc.total⟩ hk
  | wrote b _ hd hle hk =>
      have hw := writeBlock_written b b.payload.length s
      have hrec := writeBlock_received b b.payload.length s
      have := (h.running hd.running).1
      refine Capped.keeps ⟨fun _ => ?_, ?_⟩ hk <;> simp only [advance] <;> omega
  | short b n _ hd hle hn hk hs =>
      have hw := writeBlock_written b n s
      have := (h.running hd.running).1
      refine ⟨fun hr => absurd hr hs, ?_⟩
      rw [hk.ledger]
      omega
  | cleaned os _ _ he =>
      rw [he]
      refine ⟨fun hr => absurd (cleanUp_phase key os s) hr.2, ?_⟩
      rw [cleanUp_ledger]
      exact h.total

end Step

section Overrun

/-! A sender that offers one file after another: each takes its header, its data frame with `n`
subpackets `b` and an empty subpacket that ends the frame. -/

variable {used : List CString} {w r n : Nat} {s : Session CString} {p : CString} {b nm : Subpacket}

/-- `n` subpackets of a frame that goes on. -/
def streamEvents (b : Subpacket) (n : Nat) : List Event :=
  (List.replicate n [Event.block (.ok b) {}, .turn {}]).flatten

def fileEvents (nm b : Subpacket) (n : Nat) : List Event :=
  offerEvents nm ++ streamEvents b n ++ [.block (.ok crceBlock) {}]

/-- The worker is in phase `ph`, `w` bytes are written, and no path outside `used` is taken. -/
structure Idle (ph : Phase) (used : List CString) (w : Nat) (s : Session CString) : Prop where
  phase : s.phase = ph
  dir : s.dir = ascii "d"
  cancel : s.cancelRequest = false
  send : s.sendFailed = false
  written : s.ledger.written = w
  free : ∀ q ∉ used, s.files q = none

/-- Besides, the file `p` is open and has `r` bytes. -/
structure Streaming (ph : Phase) (used : List CString) (p : CString) (r w : Nat)
    (s : Session CString) : Prop extends Idle ph used w s where
  out : s.out = some p
  received : s.received = r
  member : p ∈ used

theorem idle_start : Idle .top [] 0 (start (ascii "d") (fun _ : CString => none) {}) :=
  ⟨rfl, rfl, rfl, rfl, rfl, fun _ _ => rfl⟩

theorem onData_ok (h : Streaming .data used p r w s) (hle : r + b.payload.length ≤ zmrMaxBytes) :
    onData (.ok b) {} s = afterBlock b.frameEnd {}
      (advance b.payload.length (writeBlock b b.payload.length { s with errors := 0 })) := by
  have hmax : ¬ s.received + b.payload.length > zmrMaxBytes := by rw [h.received]; omega
  simp only [onData, hmax, ↓reduceIte]
  rw [if_neg (by simp [Os.fwrite])]

/-- A subpacket is on disk and the worker goes on in the phase its frame end asks for. -/
theorem streaming_block (ph : Phase) (h : Streaming .data used p r w s)
    (hb : ∀ t : Session CString, afterBlock b.frameEnd {} t = goto ph t)
    (hle : r + b.payload.length ≤ zmrMaxBytes) :
    Streaming ph used p (r + b.payload.length) (w + b.payload.length)
      (step id s (.block (.ok b) {})) := by
  have hfree : ∀ q ∉ used, q ≠ p := fun q hq hqp => hq (hqp ▸ h.member)
  simp only [step, h.phase, onData_ok h hle, hb]
  simp only [goto, advance, writeBlock, h.out]
  refine ⟨⟨rfl, h.dir, h.cancel, h.send, ?_, fun q hq => ?_⟩, rfl, by rw [h.received], h.member⟩
  · exact congrArg (· + b.payload.length) h.written
  · exact (Function.update_of_ne (hfree q hq) _ _).trans (h.free q hq)

theorem streaming_turn (h : Streaming .dataTop used p r w s) :
    Streaming .data used p r w (step id s (.turn {})) := by
  simp only [step, h.phase, dataTop, h.cancel, Bool.false_eq_true, ↓reduceIte]
  exact { h with phase := rfl }

theorem streaming_events (h : Streaming .data used p r w s) (hb : b.frameEnd = .crcg)
    (hle : r + n * b.payload.length ≤ zmrMaxBytes) :
    Streaming .data used p (r + n * b.payload.length) (w + n * b.payload.length)
      (Machine.run (step id) s (streamEvents b n)) := by
  induction n generalizing r w s with
  | zero => simpa [streamEvents] using h
  | succ n ih =>
      rw [Nat.succ_mul] at hle ⊢
      have hblock := streaming_block .dataTop h (fun _ => by rw [hb]; rfl) (by omega)
      have hnext := ih (streaming_turn hblock) (by omega)
      rw [streamEvents, List.replicate_succ, List.flatten_cons, Machine.run_append]
      simpa only [streamEvents, Machine.run_cons, Machine.run_nil, Nat.add_assoc,
        Nat.add_comm b.payload.length] using hnext

theorem idle_header (ph : Phase) (type : UInt8) (h : Idle .top used w s)
    (ht : ∀ t : Session CString, onFrame ⟨type, 0⟩ {} t = goto ph t) :
    Idle ph used w (Machine.run (step id) s [.turn {}, .header (.ok ⟨type, 0⟩) {}]) := by
  have hturn : step id s (.turn {}) = goto .header s := by
    simp only [step, h.phase, loopTop, h.cancel, h.send, Bool.false_eq_true, ↓reduceIte]
  rw [Machine.run_cons, hturn]
  simp only [Machine.run_cons, Machine.run_nil, step, goto, ↓reduceIte, onHeader, ht]
  exact { h with phase := rfl }

theorem offer_opened {name : CString} (h : Idle .file used w s)
    (hn : parseZfile nm.payload = (name, 0)) (hp : plainPath (ascii "d") name maxPath ∉ used) :
    Streaming .top (plainPath (ascii "d") name maxPath :: used) (plainPath (ascii "d") name maxPath) 0 w
      (step id s (.block (.ok nm) {})) := by
  have hfound : buildUniquePath (fun p => (s.files p).isSome) s.dir name maxPath =
      (true, plainPath (ascii "d") name maxPath) := by
    rw [h.dir]
    exact buildUniquePath_plain (by rw [h.free _ hp]; rfl)
  simp only [step, h.phase, onFile, hn, id, hfound]
  rw [if_neg (by decide), if_neg (by decide), if_neg (by decide)]
  simp only [goto, zsend, createFile, claimPath, id, hfound]
  refine ⟨⟨rfl, h.dir, h.cancel, by rw [h.send]; rfl, h.written, fun q hq => ?_⟩, rfl, rfl,
    List.mem_cons_self⟩
  have hne : q ≠ plainPath (ascii "d") name maxPath := fun hqp => hq (hqp ▸ List.mem_cons_self)
  exact (Function.update_of_ne hne _ _).trans (h.free q (fun hm => hq (List.mem_cons_of_mem _ hm)))

theorem data_opened (h : Streaming .top used p 0 w s) :
    Streaming .data used p 0 w (Machine.run (step id) s
      [.turn {}, .header (.ok ⟨0x0a, 0⟩) {}, .turn {}]) := by
  have hturn : step id s (.turn {}) = goto .header s := by
    simp only [step, h.phase, loopTop, h.cancel, h.send, Bool.false_eq_true, ↓reduceIte]
  have hzdata : FrameType.ofByte 0x0a = .zdata := rfl
  have hframe : step id (goto .header s) (.header (.ok ⟨0x0a, 0⟩) {}) =
      goto .dataTop { s with errors := 0, ledger := s.ledger.frame 0 } := by
    simp [step, goto, onHeader, onFrame, hzdata, onDataHeader, h.out, h.received]
  rw [Machine.run_cons, hturn, Machine.run_cons, hframe]
  have hnext : Streaming .dataTop used p 0 w
      (goto .dataTop { s with errors := 0, ledger := s.ledger.frame 0 }) :=
    { h with phase := rfl, written := h.written }
  exact streaming_turn hnext

/-- A whole file adds its bytes to what the session has written. -/
theorem idle_file {name : CString} (nm : Subpacket) (h : Idle .top used w s)
    (hn : parseZfile nm.payload = (name, 0)) (hp : plainPath (ascii "d") name maxPath ∉ used)
    (hb : b.frameEnd = .crcg) (hle : n * b.payload.length ≤ zmrMaxBytes) :
    Idle .top (plainPath (ascii "d") name maxPath :: used) (w + n * b.payload.length)
      (Machine.run (step id) s (fileEvents nm b n)) := by
  have hfile := idle_header .file 0x04 h (fun _ => rfl)
  have hdata := data_opened (offer_opened hfile hn hp)
  have hall := streaming_events (n := n) hdata hb (by omega)
  have hend := streaming_block (b := crceBlock) .top hall (fun _ => rfl)
    (by simpa [crceBlock] using hle)
  rw [fileEvents, Machine.run_append, Machine.run_append]
  exact hend.toIdle

def bulkBlock : Subpacket :=
  { payload := List.replicate 32768 0, fits := by rw [List.length_replicate]; decide, frameEnd := .crcg,
    stream := 0, before := 0 }

/-- Two files, `a` and `b`, each as long as the ceiling allows. -/
def overrunEvents : List Event :=
  fileEvents (nameBlock 0x61) bulkBlock 8192 ++ fileEvents (nameBlock 0x62) bulkBlock 8192

end Overrun

/-- Along every session in which no file is taken up after bytes were received, no more than the
ceiling is written to disk. -/
theorem session_capped (dir : CString) (files : κ → Option (List UInt8)) (os : Os)
    {es : List Event}
    (hes : Machine.Guarded (step key) CounterKept (start dir files os) es) :
    (Machine.run (step key) (start dir files os) es).ledger.written ≤ zmrMaxBytes := by
  have hstart : Capped (start dir files os) :=
    ⟨fun _ => ⟨Nat.le_refl 0, Nat.zero_le _⟩, Nat.zero_le _⟩
  exact (Machine.run_inv_of_guarded (I := Capped) (fun _ _ h hg => capped_step key h hg) hstart
    hes).total

/-- Two files are taken up, the second after the first stayed empty. -/
theorem session_capped_second :
    (Machine.run (step id) (start (ascii "d") (fun _ : CString => none) {})
      (offerEvents (nameBlock 0x61) ++ [.block (.ok crceBlock) {}] ++ offerEvents (nameBlock 0x62) ++
        [.block (.ok (nameBlock 0x63)) {}])).ledger.written ≤ zmrMaxBytes :=
  session_capped id (ascii "d") (fun _ => none) {} (by decide)

/-- Two files of one session go past the ceiling together. -/
theorem session_overrun :
    zmrMaxBytes < (Machine.run (step id) (start (ascii "d") (fun _ : CString => none) {})
      overrunEvents).ledger.written := by
  have hlen : bulkBlock.payload.length = 32768 := List.length_replicate
  have hle : 8192 * bulkBlock.payload.length ≤ zmrMaxBytes := by rw [hlen]; decide
  have ha := idle_file (nameBlock 0x61) (b := bulkBlock) (n := 8192) idle_start
    (by decide : _ = (ascii "a", 0)) (by decide) rfl hle
  have hb := idle_file (nameBlock 0x62) (b := bulkBlock) (n := 8192) ha
    (by decide : _ = (ascii "b", 0)) (by decide) rfl hle
  rw [overrunEvents, Machine.run_append, hb.written, hlen]
  decide

end UnicornSuite.Zmodem
