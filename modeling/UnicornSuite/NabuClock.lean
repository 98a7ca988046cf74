import UnicornSuite.LibRun
import Mathlib.Data.Rat.Defs

/-! The loop over scanlines of the NABU machine (`nabu_core.c`) and the pacing of the worker that runs it
(`nn_worker` of `nabu_native_module.c`), where `unsigned long` has 32 bits. The chips are parameters. The
doubles of the pacing are rationals. -/

namespace UnicornSuite.NabuClock

/-- What one `z80_step` adds to `cpu.cyc`. -/
structure Cycles where
  count : Nat
  pos : 0 < count
  lt : count < 228

/-- The interrupt lines with the ports of the PSG that carry them, and the ring of the keyboard. -/
structure Board where
  hccarint : Bool := false
  hccatint : Bool := false
  keybdint : Bool := false
  vdpint : Bool := false
  interrupts : UInt8 := 0
  psgPorta : UInt8 := 0
  psgPortb : UInt8 := 0
  keyboardBuffer : UInt8 → UInt8 := fun _ => 0
  writePtr : UInt8 := 0
  readPtr : UInt8 := 0

/-- The chips and the wire. The CPU works on the board through the ports. -/
structure Chips (σ : Type) where
  z80Init : σ → σ
  z80Step : Board → σ → Cycles × Board × σ
  z80GenInt : σ → Bool → UInt8 → σ
  psgWriteReg : σ → UInt8 → UInt8 → σ
  disksysTick : σ → σ
  modemBytesAvailable : σ → Bool
  getTickCount64 : σ → Nat
  /-- `vrEmuTms9918ScanLine` and `vrEmuTms9918RegValue`. -/
  scanLine : σ → Nat → σ
  regValue : σ → Nat → UInt8

structure Machine (σ : Type) where
  cyc : UInt32
  next : UInt32
  scanline : Nat
  board : Board
  chips : σ
  gotmodem : Bool
  dogSpeed : Nat
  dogLastMs : Nat
  frames : Nat
  borderIndex : UInt8

/-- The cycles of a scanline. -/
abbrev lineCycles : Nat := 228

/-- The milliseconds between two words of the keyboard. -/
abbrev watchdogMs : Nat := 3700

/-! ### Interrupts and keyboard -/

/-- The outputs of the priority encoder. -/
structure Encoded where
  gs : Bool := false
  q0 : Bool := false
  q1 : Bool := false
  q2 : Bool := false
  eo : Bool := true

/-- `int_prio_enc_alt`: the lines are low where an interrupt is asked for. -/
def intPrioEnc (ei : Bool) (ints : UInt8) : Encoded :=
  let line (k : UInt8) : Bool := ints &&& (1 <<< k) ≠ 0
  if ei then { gs := true, q0 := true, q1 := true, q2 := true }
  else if ints = 0xFF then { gs := true, q0 := true, q1 := true, q2 := true, eo := false }
  else if ¬line 7 then {}
  else if ¬line 6 then { q0 := true }
  else if ¬line 5 then { q1 := true }
  else if ¬line 4 then { q0 := true, q1 := true }
  else if ¬line 3 then { q2 := true }
  else if ¬line 2 then { q0 := true, q2 := true }
  else if ¬line 1 then { q1 := true, q2 := true }
  else { q0 := true, q1 := true, q2 := true }

/-- A bit of the interrupt word, set or cleared. -/
def setBit (word mask : UInt8) (on : Bool) : UInt8 := if on then word ||| mask else word &&& ~~~mask

section

variable {σ : Type} (hw : Chips σ)

def updateInterrupts (m : Machine σ) : Machine σ :=
  let b := m.board
  let ints := setBit (setBit (setBit (setBit b.interrupts 0x80 b.hccarint) 0x40 b.hccatint) 0x20 b.keybdint)
    0x10 b.vdpint
  let enc := intPrioEnc false (~~~(ints &&& b.psgPorta))
  let bit (on : Bool) (mask : UInt8) : UInt8 := if on then mask else 0
  let portb := b.psgPortb &&& 0xF0 ||| bit enc.eo 1 ||| bit enc.q0 2 ||| bit enc.q1 4 ||| bit enc.q2 8
  { m with
    board := { b with interrupts := ints, psgPortb := portb }
    chips := hw.z80GenInt (hw.psgWriteReg m.chips 15 portb) (!enc.gs) (portb &&& 0x0E) }

def keyboardBufferPut (b : Board) (code : UInt8) : Board :=
  { b with
    keyboardBuffer := fun i => if i = b.writePtr then code else b.keyboardBuffer i
    writePtr := b.writePtr + 1 }

def keyboardBufferEmpty (b : Board) : Bool := b.readPtr = b.writePtr

def initCpu (m : Machine σ) : Machine σ :=
  let b := keyboardBufferPut m.board 0x95
  updateInterrupts hw
    { m with
      cyc := 0
      next := 228
      scanline := 0
      chips := hw.z80Init m.chips
      board :=
        { b with
          psgPortb := 0, psgPorta := 0, hccarint := false, vdpint := false, interrupts := 0
          keybdint := true, hccatint := true } }

/-! ### A scanline -/

/-- A byte on the wire raises the receive interrupt. -/
def pollWire (m : Machine σ) : Machine σ :=
  if m.gotmodem ∧ hw.modemBytesAvailable m.chips then
    updateInterrupts hw { m with board.hccarint := true }
  else m

def pollKeyboard (m : Machine σ) : Machine σ :=
  if ¬keyboardBufferEmpty m.board ∧ ¬m.board.keybdint then
    updateInterrupts hw { m with board.keybdint := true }
  else m

/-- The watchdog of the keyboard goes by the wall clock. -/
def kickDog (m : Machine σ) : Machine σ :=
  let nowms := hw.getTickCount64 m.chips
  if m.dogSpeed ≠ 0 ∧ keyboardBufferEmpty m.board then
    if nowms - m.dogLastMs ≥ watchdogMs then
      { m with dogLastMs := nowms, board := keyboardBufferPut m.board 0x94 }
    else m
  else { m with dogLastMs := nowms }

/-- The line of the picture that a scanline of the raster draws. -/
def visibleLine (scanline : Nat) : Option Nat :=
  if 24 ≤ scanline ∧ scanline < 216 then some (scanline - 24) else none

def stepVideo (m : Machine σ) : Machine σ :=
  match visibleLine m.scanline with
  | some y => { m with chips := hw.scanLine m.chips y }
  | none => m

/-- The end of the frame, with whether it raises the interrupt of the video chip. -/
def endFrame (m : Machine σ) : Machine σ × Bool :=
  if m.scanline > 261 then
    let m :=
      { m with scanline := 0, borderIndex := hw.regValue m.chips 7 &&& 0x0F, frames := m.frames + 1 }
    if hw.regValue m.chips 1 &&& 0x20 ≠ 0 ∧ m.board.vdpint = false then
      (updateInterrupts hw { m with board.vdpint := true }, true)
    else (m, false)
  else (m, false)

/-- What a scanline does, with the line that it draws and whether it raises the frame interrupt. -/
def scan (m : Machine σ) : Machine σ × Option Nat × Bool :=
  let m := kickDog hw (pollKeyboard hw (pollWire hw { m with chips := hw.disksysTick m.chips }))
  let m := { m with scanline := m.scanline + 1 }
  let out := endFrame hw (stepVideo hw m)
  ({ out.1 with next := out.1.next + 228 }, visibleLine m.scanline, out.2)

/-- One instruction, with its cycles. -/
def z80Step (m : Machine σ) : Machine σ × Cycles :=
  let out := hw.z80Step m.board m.chips
  ({ m with cyc := m.cyc + UInt32.ofNat out.1.count, board := out.2.1, chips := out.2.2 }, out.1)

/-! ### The session -/

/-- A call of `nabu_core_run_scanlines`, with the passes of its loop and what they did. -/
structure Call where
  lines : Int := 0
  done : Nat := 0
  passes : Nat := 0
  rendered : List Nat := []
  raised : Nat := 0
  /-- The cycles and the scanlines before the call. -/
  cyclesBefore : Nat := 0
  scansBefore : Nat := 0

/-- Where the worker is: at the top of its loop, in `nabu_core_run_frame`, in the loop that waits, after
it. -/
inductive Phase where
  | free | frame | waiting | settling
  deriving DecidableEq

/-- The clocks of the worker. Times are readings of the performance counter. -/
structure Pacer where
  phase : Phase := .free
  stop : Bool := false
  frameNo : Nat := 0
  start : Int := 0
  now : Int := 0
  refWall : Int := 0
  refEmu : ℚ := 0
  /-- The seconds that were forgiven. -/
  forgiven : ℚ := 0

/-- The machine with the cycles since the last reset, those of the last instruction, and for each scanline
since then the cycles when it ran and those of the instruction before it. -/
structure Session (σ : Type) where
  machine : Machine σ
  total : Nat := 0
  last : Nat := 0
  scans : List (Nat × Nat) := []
  call : Call := {}
  pacer : Pacer := {}

/-- The loop `while (done < lines)` goes on. -/
def Session.InCall (s : Session σ) : Prop := (s.call.done : Int) < s.call.lines

instance (s : Session σ) : Decidable s.InCall := inferInstanceAs (Decidable (_ < _))

def beginCall (s : Session σ) (lines : Int) : Session σ :=
  { s with call := { lines := lines, cyclesBefore := s.total, scansBefore := s.scans.length } }

/-- The scanline of a pass. -/
def passScan (s : Session σ) : Session σ :=
  let out := scan hw s.machine
  { s with
    machine := out.1
    scans := s.scans ++ [(s.total, s.last)]
    call.done := s.call.done + 1
    call.rendered := s.call.rendered ++ out.2.1.toList
    call.raised := s.call.raised + out.2.2.toNat }

/-- The instruction of a pass. -/
def passStep (s : Session σ) : Session σ :=
  let out := z80Step hw s.machine
  { s with
    machine := out.1
    total := s.total + out.2.count
    last := out.2.count
    call.passes := s.call.passes + 1 }

/-- One pass of the loop. -/
def pass (s : Session σ) : Session σ :=
  passStep hw (if s.machine.cyc > s.machine.next then passScan hw s else s)

/-- `nabu_core_reset`. -/
def reset (s : Session σ) : Session σ :=
  { s with machine := initCpu hw s.machine, total := 0, last := 0, scans := [], call := {} }

/-! ### The pacing -/

/-- The seconds that the host may be behind. -/
abbrev resyncS : ℚ := 1 / 4

/-- The worker's `emu`: a frame is one sixtieth of a second. -/
def Pacer.emu (p : Pacer) : ℚ := p.frameNo / 60

/-- The seconds since the reference. -/
def Pacer.sinceRef (p : Pacer) (qpf : Nat) : ℚ := (p.now - p.refWall : ℤ) / qpf

def Pacer.elapsed (p : Pacer) (qpf : Nat) : ℚ := (p.now - p.start : ℤ) / qpf

/-- A turn of the loop that waits, `dt` ticks after the last reading. -/
def wait (p : Pacer) (qpf dt : Nat) : Pacer :=
  let p := { p with now := p.now + dt }
  if p.stop ∨ p.emu - p.refEmu - p.sinceRef qpf ≤ 0 then { p with phase := .settling } else p

/-- A host that is too far behind is forgiven. -/
def settle (p : Pacer) (qpf dt : Nat) : Pacer :=
  let p := { p with now := p.now + dt, phase := .free }
  let behind := p.sinceRef qpf - (p.emu - p.refEmu)
  if behind > resyncS then
    { p with refWall := p.now, refEmu := p.emu, forgiven := p.forgiven + behind }
  else p

inductive Event where
  /-- A call of `nabu_core_run_scanlines`, and a pass of its loop. -/
  | call (lines : Int)
  | pass
  | reset
  /-- The worker calls `nabu_core_run_frame`, comes back from it, waits and settles. -/
  | frame
  | shown
  | wait (dt : Nat)
  | settle (dt : Nat)
  | stop

def step (qpf : Nat) (s : Session σ) : Event → Session σ
  | .call lines => if ¬s.InCall ∧ s.pacer.phase = .free then beginCall s lines else s
  | .pass => if s.InCall then pass hw s else s
  | .reset => if ¬s.InCall ∧ s.pacer.phase = .free then reset hw s else s
  | .frame =>
      if ¬s.InCall ∧ s.pacer.phase = .free ∧ s.pacer.stop = false then
        { beginCall s 262 with pacer.phase := .frame }
      else s
  | .shown =>
      if ¬s.InCall ∧ s.pacer.phase = .frame then
        { s with pacer.phase := .waiting, pacer.frameNo := s.pacer.frameNo + 1 }
      else s
  | .wait dt => if s.pacer.phase = .waiting then { s with pacer := wait s.pacer qpf dt } else s
  | .settle dt => if s.pacer.phase = .settling then { s with pacer := settle s.pacer qpf dt } else s
  | .stop => { s with pacer.stop := true }

/-- The session of a machine that is switched on. -/
def Session.start (m : Machine σ) : Session σ := { machine := initCpu hw m }

end

end UnicornSuite.NabuClock
