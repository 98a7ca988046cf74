import UnicornSuite.LibCInt
import UnicornSuite.NabuClock
import Mathlib.Data.List.Rotate
import Mathlib.Data.List.Range
import Mathlib.Tactic.Linarith
import Mathlib.Tactic.Ring

/-! The clock of the NABU machine over every session. The loop compares two counters of 32 bits that wrap;
the comparison is right exactly while they have wrapped equally often, and the machine keeps time in the
sessions where it is right at every pass. -/

open Machine CInt

namespace UnicornSuite.NabuClock

variable {σ : Type} (hw : Chips σ)

/-! ### What the machine promises -/

/-- The cycles after which the next scanline is due. -/
def Session.due (s : Session σ) : Nat := lineCycles * (s.scans.length + 1)

/-- The machine keeps time. -/
structure KeepsTime (qpf : Nat) (s : Session σ) : Prop where
  /-- Every scanline ran at the end of the instruction that completed its cycles. -/
  scans : ∀ k t l, s.scans[k]? = some (t, l) → lineCycles * (k + 1) < t ∧ t ≤ lineCycles * (k + 1) + l
  /-- No scanline that is due waits for another instruction. -/
  prompt : s.total ≤ s.due + s.last
  /-- A call returns. -/
  returns : s.call.passes ≤ lineCycles * s.call.lines.toNat + 455
  /-- What returns has run the scanlines that it was called for, and one instruction after the last. -/
  lines : ¬s.InCall → s.call.done = s.call.lines.toNat ∧
    s.scans.length = s.call.scansBefore + s.call.done ∧
    (0 < s.call.lines → ∃ t l, s.scans.getLast? = some (t, l) ∧ s.total = t + s.last)
  cycles : ¬s.InCall → lineCycles * s.call.lines.toNat + s.call.cyclesBefore ≤ s.total + 454 ∧
    s.total ≤ lineCycles * s.call.lines.toNat + s.call.cyclesBefore + 454
  /-- A frame draws each visible line once. -/
  frame : ¬s.InCall → s.call.lines = 262 → s.call.rendered.Perm (List.range 192) ∧ s.call.raised ≤ 1
  /-- A frame begins when its sixtieth of a second does, but for what the host was forgiven. -/
  pace : s.pacer.phase = .free → s.pacer.stop = false →
    s.pacer.emu + s.pacer.forgiven ≤ s.pacer.elapsed qpf ∧
      s.pacer.elapsed qpf ≤ s.pacer.emu + s.pacer.forgiven + resyncS

/-- The counters of a pass have wrapped equally often since the last reset. -/
def SameLap (s : Session σ) : Event → Prop
  | .pass => s.InCall → s.total / 4294967296 = s.due / 4294967296
  | _ => True

/-! ### A scanline leaves the clock alone -/

/-- The counters of the machine. -/
def Machine.clock (m : Machine σ) : UInt32 × UInt32 × Nat := (m.cyc, m.next, m.scanline)

theorem clock_eq {m m' : Machine σ} :
    m.clock = m'.clock ↔ m.cyc = m'.cyc ∧ m.next = m'.next ∧ m.scanline = m'.scanline := by
  simp only [Machine.clock, Prod.mk.injEq]

theorem pollWire_clock (m : Machine σ) : (pollWire hw m).clock = m.clock := by
  rw [pollWire]
  split_ifs <;> rfl

theorem pollKeyboard_clock (m : Machine σ) : (pollKeyboard hw m).clock = m.clock := by
  rw [pollKeyboard]
  split_ifs <;> rfl

theorem kickDog_clock (m : Machine σ) : (kickDog hw m).clock = m.clock := by
  rw [kickDog]
  split_ifs <;> rfl

theorem stepVideo_clock (m : Machine σ) : (stepVideo hw m).clock = m.clock := by
  rw [stepVideo]
  split <;> rfl

/-- The end of a frame sets the raster back, and only there the interrupt is raised. -/
theorem endFrame_clock (m : Machine σ) (h : m.scanline ≤ 262) :
    (endFrame hw m).1.clock = (m.cyc, m.next, m.scanline % 262) ∧
      (endFrame hw m).2.toNat ≤ m.scanline / 262 := by
  rw [endFrame]
  split_ifs with hend
  · have hline : m.scanline = 262 := Nat.le_antisymm h hend
    dsimp only
    rw [hline]
    split_ifs
    · exact ⟨rfl, Nat.le_refl 1⟩
    · exact ⟨rfl, Nat.zero_le _⟩
  · have hline : m.scanline % 262 = m.scanline := Nat.mod_eq_of_lt (by omega)
    rw [hline]
    exact ⟨rfl, Nat.zero_le _⟩

theorem scan_spec (m : Machine σ) (h : m.scanline < 262) :
    (scan hw m).1.clock = (m.cyc, m.next + 228, (m.scanline + 1) % 262) ∧
      (scan hw m).2.1 = visibleLine (m.scanline + 1) ∧
      (scan hw m).2.2.toNat ≤ (m.scanline + 1) / 262 := by
  rw [scan]
  generalize hm : kickDog hw (pollKeyboard hw (pollWire hw { m with chips := hw.disksysTick m.chips })) = m₁
  have hclock : m₁.clock = m.clock := by
    rw [← hm, kickDog_clock, pollKeyboard_clock, pollWire_clock]
    rfl
  obtain ⟨hcyc, hnext, hline⟩ := clock_eq.mp hclock
  dsimp only
  generalize hv : stepVideo hw { m₁ with scanline := m₁.scanline + 1 } = m₂
  have hvideo : m₂.clock = (m.cyc, m.next, m.scanline + 1) := by
    rw [← hv, stepVideo_clock, ← hcyc, ← hnext, ← hline]
    rfl
  obtain ⟨hcyc', hrest⟩ := Prod.mk.inj hvideo
  obtain ⟨hnext', hline'⟩ := Prod.mk.inj hrest
  obtain ⟨hend, hraised⟩ := endFrame_clock hw m₂ (by rw [hline']; exact h)
  rw [hcyc', hnext', hline'] at hend
  rw [hline'] at hraised
  generalize endFrame hw m₂ = out at hend hraised
  obtain ⟨hcycEnd, hrestEnd⟩ := Prod.mk.inj hend
  obtain ⟨hnextEnd, hlineEnd⟩ := Prod.mk.inj hrestEnd
  refine ⟨?_, congrArg (fun n => visibleLine (n + 1)) hline, hraised⟩
  rw [← hcycEnd, ← hnextEnd, ← hlineEnd]
  rfl

/-! ### The lines of a frame -/

/-- The lines that are drawn by `n` scanlines after `first` of them. -/
def drawn (first n : Nat) : List Nat :=
  (List.range n).filterMap fun i => visibleLine ((first + i) % 262 + 1)

theorem drawn_succ (first n : Nat) :
    drawn first (n + 1) = drawn first n ++ (visibleLine ((first + n) % 262 + 1)).toList := by
  rw [drawn, List.range_succ, List.filterMap_append]
  cases h : visibleLine ((first + n) % 262 + 1) <;> simp [drawn, h]

/-- A whole frame goes once around the raster, wherever it begins. -/
theorem drawn_frame (first : Nat) : (drawn first 262).Perm (List.range 192) := by
  have hrotate : (List.range 262).map (fun i => (first + i) % 262) = (List.range 262).rotate first := by
    apply List.ext_getElem
    · simp
    · intro i _ _
      simp [List.getElem_rotate, Nat.add_comm]
  have hdrawn : drawn first 262 =
      ((List.range 262).rotate first).filterMap fun j => visibleLine (j + 1) := by
    rw [← hrotate, List.filterMap_map]
    rfl
  have hwhole : ((List.range 262).filterMap fun j => visibleLine (j + 1)) = List.range 192 := by
    decide +kernel
  rw [hdrawn, ← hwhole]
  exact (List.rotate_perm _ _).filterMap _

/-! ### The state of every run -/

/-- The counters and the scanlines since the last reset. -/
structure Ticking (s : Session σ) : Prop where
  cyc : s.machine.cyc.toNat = s.total % 4294967296
  next : s.machine.next.toNat = s.due % 4294967296
  scanline : s.machine.scanline < 262
  low : lineCycles * s.scans.length ≤ s.total
  high : s.total ≤ s.due + 227
  last : s.last ≤ 227
  scans : ∀ k t l, s.scans[k]? = some (t, l) → lineCycles * (k + 1) < t ∧ t ≤ lineCycles * (k + 1) + l
  prompt : s.total ≤ s.due + s.last

/-- The call in progress, or the last one. -/
structure Calling (s : Session σ) : Prop where
  scans : s.scans.length = s.call.scansBefore + s.call.done
  within : s.call.done ≤ s.call.lines.toNat
  passes : s.call.cyclesBefore + s.call.passes ≤ s.total
  low : lineCycles * s.call.scansBefore ≤ s.call.cyclesBefore
  high : s.call.cyclesBefore ≤ lineCycles * s.call.scansBefore + 454
  rest : ¬s.InCall → s.total ≤ lineCycles * s.scans.length + 454
  skipped : s.call.lines ≤ 0 → s.total = s.call.cyclesBefore
  ended : ¬s.InCall → 0 < s.call.lines → ∃ t l, s.scans.getLast? = some (t, l) ∧ s.total = t + s.last
  frame : ∃ first < 262, s.machine.scanline = (first + s.call.done) % 262 ∧
    s.call.rendered = drawn first s.call.done ∧ s.call.raised ≤ (first + s.call.done) / 262

/-- The clocks of the worker. -/
structure Pacing (qpf : Nat) (p : Pacer) : Prop where
  ref : ((p.refWall - p.start : ℤ) : ℚ) / qpf = p.refEmu + p.forgiven
  free : p.phase = .free → p.stop = false →
    p.emu - p.refEmu ≤ p.sinceRef qpf ∧ p.sinceRef qpf ≤ p.emu - p.refEmu + resyncS
  settling : p.phase = .settling → p.stop = false → p.emu - p.refEmu ≤ p.sinceRef qpf

structure Sound (qpf : Nat) (s : Session σ) : Prop where
  ticking : Ticking s
  calling : Calling s
  pacing : Pacing qpf s.pacer

variable {qpf : Nat} {s : Session σ}

theorem Pacer.elapsed_eq (p : Pacer) (h : ((p.refWall - p.start : ℤ) : ℚ) / qpf = p.refEmu + p.forgiven) :
    p.elapsed qpf = p.refEmu + p.forgiven + p.sinceRef qpf := by
  rw [← h, Pacer.elapsed, Pacer.sinceRef, ← add_div, ← Int.cast_add]
  congr 2
  ring

theorem Sound.keepsTime (h : Sound qpf s) : KeepsTime qpf s := by
  have hc := h.calling
  have hdone : ¬s.InCall → s.call.done = s.call.lines.toNat := fun hno => by
    have hwithin := hc.within
    rw [Session.InCall] at hno
    omega
  have hhigh := h.ticking.high
  have hscans := hc.scans
  have hwithin := hc.within
  have hpasses := hc.passes
  have hlow := hc.low
  rw [Session.due] at hhigh
  refine ⟨h.ticking.scans, h.ticking.prompt, ?_, fun hno => ⟨hdone hno, hscans, hc.ended hno⟩,
    fun hno => ?_, fun hno hlines => ?_, fun hfree hstop => ?_⟩
  · simp only [lineCycles] at *
    omega
  · have hall := hdone hno
    have hrest := hc.rest hno
    have hbefore := hc.high
    obtain hnone | hsome := le_or_gt s.call.lines 0
    · have htotal := hc.skipped hnone
      rw [Int.toNat_of_nonpos hnone, htotal]
      omega
    · obtain ⟨t, l, hlast, htotal⟩ := hc.ended hno hsome
      rw [List.getLast?_eq_getElem?] at hlast
      have hran := (h.ticking.scans _ t l hlast).1
      simp only [lineCycles] at *
      omega
  · obtain ⟨first, hfirst, -, hdrawn, hraised⟩ := hc.frame
    have hall := hdone hno
    rw [hlines] at hall
    rw [hdrawn, hall]
    refine ⟨drawn_frame first, hraised.trans ?_⟩
    rw [hall]
    omega
  · obtain ⟨hleast, hmost⟩ := h.pacing.free hfree hstop
    rw [s.pacer.elapsed_eq h.pacing.ref]
    constructor <;> linarith

/-! ### Passes -/

/-- The comparison of the counters, while they have wrapped equally often and otherwise. -/
theorem Ticking.gt_iff (h : Ticking s) :
    s.machine.cyc > s.machine.next ↔
      (s.total / 4294967296 = s.due / 4294967296 ↔ s.due < s.total) := by
  have hlow : s.due ≤ s.total + 228 := by
    rw [Session.due, Nat.mul_succ]
    exact Nat.add_le_add_right h.low 228
  have hhigh : s.total ≤ s.due + 228 := h.high.trans (Nat.le_succ _)
  rw [gt_iff_lt, UInt32.lt_iff_toNat_lt, h.cyc, h.next]
  by_cases hlap : s.total / 4294967296 = s.due / 4294967296
  · rw [mod_lt_mod_iff_of_div_eq hlap.symm]
    exact ⟨fun hlt => iff_of_true hlap hlt, fun hiff => hiff.mp hlap⟩
  · rw [mod_lt_mod_iff_of_div_ne hlow hhigh (by decide) (Ne.symm hlap)]
    refine ⟨fun hlt => iff_of_false hlap (Nat.not_lt.mpr hlt.le), fun hiff => ?_⟩
    have hle : s.total ≤ s.due := Nat.not_lt.mp fun hlt => hlap (hiff.mpr hlt)
    refine Nat.lt_of_le_of_ne hle fun heq => hlap ?_
    rw [heq]

/-- An instruction, where the comparison was right. -/
theorem ticking_step (h : Ticking s) (hprompt : s.total ≤ s.due) : Ticking (passStep hw s) := by
  have hlt := (z80Step hw s.machine).2.lt
  refine ⟨?_, h.next, h.scanline, h.low.trans (Nat.le_add_right _ _), ?_, Nat.le_of_lt_succ hlt, h.scans,
    Nat.add_le_add_right hprompt _⟩
  · change (s.machine.cyc + UInt32.ofNat (z80Step hw s.machine).2.count).toNat = _
    rw [UInt32.toNat_add, UInt32.toNat_ofNat', h.cyc]
    exact (Nat.add_mod _ _ _).symm
  · exact Nat.add_le_add hprompt (Nat.le_of_lt_succ hlt)

/-- What the scanline of a pass does to the counts. -/
theorem passScan_counts (s : Session σ) :
    (passScan hw s).machine = (scan hw s.machine).1 ∧ (passScan hw s).total = s.total ∧
      (passScan hw s).last = s.last ∧ (passScan hw s).scans = s.scans ++ [(s.total, s.last)] := by
  unfold passScan
  exact ⟨rfl, rfl, rfl, rfl⟩

/-- A scanline that is due. -/
theorem ticking_scan (h : Ticking s) (hdue : s.due < s.total) :
    Ticking (passScan hw s) ∧ (passScan hw s).total ≤ (passScan hw s).due := by
  obtain ⟨hclock, -, -⟩ := scan_spec hw s.machine h.scanline
  obtain ⟨hmachine, htotal, hlast, hscans⟩ := passScan_counts hw s
  rw [← hmachine] at hclock
  -- From here on the counts are all that is known of the pass.
  generalize passScan hw s = s' at *
  obtain ⟨hcyc, hrest⟩ := Prod.mk.inj hclock
  obtain ⟨hnext, hline⟩ := Prod.mk.inj hrest
  have hlen : s'.scans.length = s.scans.length + 1 := by
    rw [hscans, List.length_append, List.length_singleton]
  have hnewDue : s'.due = s.due + 228 := by
    rw [Session.due, hlen, Nat.mul_succ]
    rfl
  have hprompt : s'.total ≤ s.due + 228 := htotal ▸ h.high.trans (Nat.le_succ _)
  refine ⟨⟨?_, ?_, ?_, ?_, ?_, hlast ▸ h.last, ?_, ?_⟩, ?_⟩
  · rw [htotal, ← h.cyc]
    exact congrArg UInt32.toNat hcyc
  · have hsum := congrArg UInt32.toNat hnext
    rw [UInt32.toNat_add, h.next] at hsum
    rw [hnewDue, Nat.add_mod]
    exact hsum
  · rw [hline]
    exact Nat.mod_lt _ (by decide)
  · rw [hlen, htotal]
    exact hdue.le
  · rw [hnewDue]
    exact hprompt.trans (Nat.le_add_right _ _)
  · intro k t l hk
    rw [hscans] at hk
    obtain hold | hnew := Nat.lt_or_ge k s.scans.length
    · exact h.scans k t l ((List.getElem?_append_left hold).symm.trans hk)
    · have hk' : [(s.total, s.last)][k - s.scans.length]? = some (t, l) :=
        (List.getElem?_append_right hnew).symm.trans hk
      have hzero : k - s.scans.length = 0 := by
        by_contra hne
        rw [List.getElem?_eq_none (Nat.one_le_iff_ne_zero.mpr hne)] at hk'
        cases hk'
      rw [hzero] at hk'
      obtain ⟨rfl, rfl⟩ := Prod.mk.inj (Option.some.inj hk')
      have hat : k = s.scans.length := by omega
      rw [hat]
      exact ⟨hdue, h.prompt⟩
  · rw [hnewDue]
    exact hprompt.trans (Nat.le_add_right _ _)
  · rw [hnewDue]
    exact hprompt

theorem calling_step (h : Calling s) (hin : s.InCall) : Calling (passStep hw s) := by
  have hpos := (z80Step hw s.machine).2.pos
  have hpasses : s.call.cyclesBefore + s.call.passes + 1 ≤ s.total + (z80Step hw s.machine).2.count :=
    Nat.add_le_add h.passes hpos
  refine ⟨h.scans, h.within, hpasses, h.low, h.high, fun hno => absurd hin hno, fun hle => ?_,
    fun hno => absurd hin hno, h.frame⟩
  exact absurd (lt_of_le_of_lt (Int.natCast_nonneg _) hin) (Int.not_lt.mpr hle)

theorem calling_scan (h : Calling s) (ht : Ticking s) (hin : s.InCall) :
    Calling (passStep hw (passScan hw s)) := by
  obtain ⟨hclock, hdraws, hraises⟩ := scan_spec hw s.machine ht.scanline
  unfold passScan
  dsimp only
  -- The scanline itself is known by its specification alone.
  generalize scan hw s.machine = out at *
  have hline := (Prod.mk.inj (Prod.mk.inj hclock).2).2
  have hlen : (s.scans ++ [(s.total, s.last)]).length = s.scans.length + 1 := List.length_append
  have hmore : (s.call.done : Int) < s.call.lines := hin
  have htotal : s.total ≤ 228 * (s.scans.length + 1) + 227 := ht.high
  refine ⟨?_, ?_, ?_, h.low, h.high, fun _ => ?_, fun hle => ?_, fun _ _ => ?_, ?_⟩
  · change (s.scans ++ [(s.total, s.last)]).length = s.call.scansBefore + (s.call.done + 1)
    rw [hlen, h.scans]
    rfl
  · change s.call.done + 1 ≤ s.call.lines.toNat
    omega
  · have hpasses := Nat.add_le_add h.passes (z80Step hw out.1).2.pos
    exact hpasses
  · have hlt := (z80Step hw out.1).2.lt
    change s.total + (z80Step hw out.1).2.count ≤
      228 * (s.scans ++ [(s.total, s.last)]).length + 454
    rw [hlen]
    omega
  · exact absurd (lt_of_le_of_lt (Int.natCast_nonneg _) hmore) (Int.not_lt.mpr hle)
  · exact ⟨s.total, s.last, List.getLast?_concat .., rfl⟩
  · obtain ⟨first, hfirst, hraster, hdrawn, hraised⟩ := h.frame
    have hsucc : (s.machine.scanline + 1) % 262 = (first + (s.call.done + 1)) % 262 := by
      rw [hraster, Nat.mod_add_mod, Nat.add_assoc]
    refine ⟨first, hfirst, ?_, ?_, ?_⟩
    · change out.1.scanline = (first + (s.call.done + 1)) % 262
      rw [← hsucc]
      exact hline
    · change s.call.rendered ++ out.2.1.toList = drawn first (s.call.done + 1)
      rw [drawn_succ, hdraws, hdrawn, hraster]
    · change s.call.raised + out.2.2.toNat ≤ (first + (s.call.done + 1)) / 262
      omega

theorem pass_sound (h : Sound qpf s) (hin : s.InCall)
    (hlap : s.total / 4294967296 = s.due / 4294967296) : Sound qpf (pass hw s) := by
  have hiff : s.machine.cyc > s.machine.next ↔ s.due < s.total :=
    h.ticking.gt_iff.trans (iff_true_left hlap)
  rw [pass]
  split_ifs with hscan
  · obtain ⟨hticking, hprompt⟩ := ticking_scan hw h.ticking (hiff.mp hscan)
    exact ⟨ticking_step hw hticking hprompt, calling_scan hw h.calling h.ticking hin, h.pacing⟩
  · have hprompt : s.total ≤ s.due := Nat.not_lt.mp fun hlt => hscan (hiff.mpr hlt)
    exact ⟨ticking_step hw h.ticking hprompt, calling_step hw h.calling hin, h.pacing⟩

/-- A pass whose counters have not wrapped equally often runs a scanline before its time, or leaves one
behind. -/
theorem pass_misses (h : Ticking s) (hlap : s.total / 4294967296 ≠ s.due / 4294967296) :
    ¬KeepsTime qpf (pass hw s) := by
  have hiff : s.machine.cyc > s.machine.next ↔ s.total ≤ s.due := by
    rw [h.gt_iff, iff_false_left hlap, Nat.not_lt]
  intro hkeeps
  rw [pass] at hkeeps
  split_ifs at hkeeps with hscan
  · have hran : (s.scans ++ [(s.total, s.last)])[s.scans.length]? = some (s.total, s.last) := by
      simp
    have hearly := (hkeeps.scans s.scans.length s.total s.last hran).1
    exact absurd (hiff.mp hscan) (Nat.not_le.mpr hearly)
  · have hlate : s.total + (z80Step hw s.machine).2.count ≤ s.due + (z80Step hw s.machine).2.count :=
      hkeeps.prompt
    exact hscan (hiff.mpr (Nat.le_of_add_le_add_right hlate))

/-! ### Calls, resets and the worker -/

theorem initCpu_clock (m : Machine σ) : (initCpu hw m).clock = (0, 228, 0) := rfl

/-- A machine that is switched on or reset. -/
theorem fresh_sound {m : Machine σ} (hclock : m.clock = (0, 228, 0)) {p : Pacer} (hp : Pacing qpf p) :
    Sound qpf { machine := m, pacer := p } := by
  obtain ⟨hcyc, hrest⟩ := Prod.mk.inj hclock
  obtain ⟨hnext, hline⟩ := Prod.mk.inj hrest
  refine ⟨⟨?_, ?_, ?_, Nat.zero_le _, Nat.zero_le _, Nat.zero_le _, nofun, Nat.zero_le _⟩,
    ⟨rfl, Nat.le_refl _, Nat.le_refl _, Nat.le_refl _, Nat.zero_le _, fun _ => Nat.zero_le _, fun _ => rfl,
      nofun, ⟨0, by decide, hline, rfl, Nat.zero_le _⟩⟩, hp⟩
  · exact congrArg UInt32.toNat hcyc
  · exact congrArg UInt32.toNat hnext
  · exact hline.trans_lt (by decide)

theorem start_sound (m : Machine σ) : Sound qpf (Session.start hw m) := by
  refine fresh_sound (initCpu_clock hw m) ⟨?_, fun _ _ => ?_, nofun⟩
  · simp
  · simp [Pacer.emu, Pacer.sinceRef, resyncS]

theorem call_sound (h : Sound qpf s) (hidle : ¬s.InCall) (lines : Int) : Sound qpf (beginCall s lines) := by
  refine ⟨⟨h.ticking.cyc, h.ticking.next, h.ticking.scanline, h.ticking.low, h.ticking.high, h.ticking.last,
    h.ticking.scans, h.ticking.prompt⟩, ⟨rfl, Nat.zero_le _, Nat.le_refl _, h.ticking.low,
    h.calling.rest hidle, fun _ => h.calling.rest hidle, fun _ => rfl, fun hno hlines => absurd hlines hno,
    ⟨s.machine.scanline, h.ticking.scanline, ?_, rfl, Nat.zero_le _⟩⟩, h.pacing⟩
  exact (Nat.mod_eq_of_lt h.ticking.scanline).symm

/-- The machine does not see the worker's clocks. -/
theorem pacer_sound (h : Sound qpf s) {p : Pacer} (hp : Pacing qpf p) : Sound qpf { s with pacer := p } :=
  ⟨⟨h.ticking.cyc, h.ticking.next, h.ticking.scanline, h.ticking.low, h.ticking.high, h.ticking.last,
    h.ticking.scans, h.ticking.prompt⟩, ⟨h.calling.scans, h.calling.within, h.calling.passes, h.calling.low,
    h.calling.high, h.calling.rest, h.calling.skipped, h.calling.ended, h.calling.frame⟩, hp⟩

theorem wait_pacing {p : Pacer} (h : Pacing qpf p) (hphase : p.phase = .waiting) (dt : Nat) :
    Pacing qpf (wait p qpf dt) := by
  rw [wait]
  dsimp only
  split_ifs with hdone
  · refine ⟨h.ref, nofun, fun _ hstop => ?_⟩
    obtain hstopped | hahead := hdone
    · rw [hstop] at hstopped
      cases hstopped
    · exact sub_nonpos.mp hahead
  · refine ⟨h.ref, fun hfree => ?_, fun hsettling => ?_⟩
    · exact nomatch hphase.symm.trans hfree
    · exact nomatch hphase.symm.trans hsettling

variable (qpf) in
/-- The clock of the host does not go back. -/
theorem sinceRef_mono (p : Pacer) (dt : Nat) :
    p.sinceRef qpf ≤ ({ p with now := p.now + dt } : Pacer).sinceRef qpf := by
  apply div_le_div_of_nonneg_right _ (Nat.cast_nonneg qpf)
  apply Int.cast_le.mpr
  dsimp only
  omega

theorem settle_pacing {p : Pacer} (h : Pacing qpf p) (hphase : p.phase = .settling) (dt : Nat) :
    Pacing qpf (settle p qpf dt) := by
  have hmono := sinceRef_mono qpf p dt
  rw [settle]
  dsimp only
  split_ifs with hbehind
  · refine ⟨?_, fun _ _ => ?_, nofun⟩
    · have helapsed := Pacer.elapsed_eq { p with now := p.now + dt } h.ref
      simp only [Pacer.elapsed, Pacer.sinceRef, Pacer.emu] at helapsed ⊢
      linarith
    · simp [Pacer.sinceRef, Pacer.emu, resyncS]
  · refine ⟨h.ref, fun _ hstop => ⟨(h.settling hphase hstop).trans hmono, ?_⟩, nofun⟩
    exact sub_le_iff_le_add'.mp (not_lt.mp hbehind)

theorem step_sound (h : Sound qpf s) {e : Event} (hguard : SameLap s e) : Sound qpf (step hw qpf s e) := by
  cases e with
  | call lines =>
      rw [step]
      split_ifs with hidle
      · exact call_sound h hidle.1 lines
      · exact h
  | pass =>
      rw [step]
      split_ifs with hin
      · exact pass_sound hw h hin (hguard hin)
      · exact h
  | reset =>
      rw [step]
      split_ifs
      · exact fresh_sound (initCpu_clock hw s.machine) h.pacing
      · exact h
  | frame =>
      rw [step]
      split_ifs with hidle
      · exact pacer_sound (call_sound h hidle.1 262) ⟨h.pacing.ref, nofun, nofun⟩
      · exact h
  | shown =>
      rw [step]
      split_ifs
      · exact pacer_sound h ⟨h.pacing.ref, nofun, nofun⟩
      · exact h
  | wait dt =>
      rw [step]
      split_ifs with hphase
      · exact pacer_sound h (wait_pacing h.pacing hphase dt)
      · exact h
  | settle dt =>
      rw [step]
      split_ifs with hphase
      · exact pacer_sound h (settle_pacing h.pacing hphase dt)
      · exact h
  | stop => exact pacer_sound h ⟨h.pacing.ref, fun _ hstop => (nomatch hstop), fun _ hstop => nomatch hstop⟩

theorem keepsTime_iff_guarded (h : Sound qpf s) (evs : List Event) :
    (∀ evs', evs' <+: evs → KeepsTime qpf (run (step hw qpf) s evs')) ↔
      Guarded (step hw qpf) SameLap s evs := by
  apply safe_iff_guarded (I := Sound qpf) _ _ _ h
  · exact fun s e hs hguard => step_sound hw hs hguard
  · exact fun s hs => hs.keepsTime
  · intro s e hs hno
    cases e with
    | pass =>
        obtain ⟨hin, hlap⟩ := Classical.not_imp.mp hno
        rw [step, if_pos hin]
        exact pass_misses hw hs.ticking hlap
    | _ => exact absurd trivial hno

/-- Over every session the machine keeps time exactly when, at every pass of the loop, the two counters have
wrapped equally often. -/
theorem machine_keeps_time_iff (qpf : Nat) (m : Machine σ) (evs : List Event) :
    (∀ evs', evs' <+: evs → KeepsTime qpf (run (step hw qpf) (Session.start hw m) evs')) ↔
      Guarded (step hw qpf) SameLap (Session.start hw m) evs :=
  keepsTime_iff_guarded hw (start_sound hw m) evs

/-! ### The first wrap -/

/-- A machine whose every instruction takes four cycles. -/
def idleChips : Chips Unit where
  z80Init _ := ()
  z80Step b _ := (⟨4, by decide, by decide⟩, b, ())
  z80GenInt _ _ _ := ()
  psgWriteReg _ _ _ := ()
  disksysTick _ := ()
  modemBytesAvailable _ := false
  getTickCount64 _ := 0
  scanLine _ _ := ()
  regValue _ _ := 0

def idleMachine : Machine Unit := ⟨0, 0, 0, {}, (), false, 58000, 0, 0, 0⟩

/-- The machine in a call of twenty million scanlines. -/
def longCall : Session Unit := beginCall (Session.start idleChips idleMachine) 20000000

theorem longCall_sound : Sound 1 longCall := by
  apply call_sound (start_sound idleChips idleMachine)
  decide

/-- Up to the wrap every pass of the long call is four cycles. -/
theorem longCall_run (k : Nat) (hk : 4 * k < 4294967296)
    (hguard : Guarded (step idleChips 1) SameLap longCall (List.replicate k .pass)) :
    let s := run (step idleChips 1) longCall (List.replicate k .pass)
    Sound 1 s ∧ s.total = 4 * k ∧ s.last ≤ 4 ∧ s.call.lines = 20000000 ∧ s.call.scansBefore = 0 := by
  induction k with
  | zero => exact ⟨longCall_sound, rfl, Nat.zero_le _, rfl, rfl⟩
  | succ k ih =>
      rw [List.replicate_succ'] at hguard ⊢
      obtain ⟨hbefore, hlap, -⟩ := guarded_append.mp hguard
      obtain ⟨hsound, htotal, -, hlines, hscans⟩ := ih (by omega) hbefore
      rw [run_append]
      generalize run (step idleChips 1) longCall (List.replicate k .pass) = s at *
      have hin : s.InCall := by
        have hdone := hsound.calling.scans
        have hlow := hsound.ticking.low
        rw [Session.InCall, hlines]
        simp only [lineCycles] at hlow
        omega
      have hpass : run (step idleChips 1) s [.pass] = pass idleChips s := by
        rw [run_cons, run_nil, step, if_pos hin]
      have hsound' := pass_sound idleChips hsound hin (hlap hin)
      dsimp only
      rw [hpass]
      refine ⟨hsound', ?_⟩
      rw [pass]
      split_ifs
      · exact ⟨congrArg (· + 4) htotal, Nat.le_refl 4, hlines, hscans⟩
      · exact ⟨congrArg (· + 4) htotal, Nat.le_refl 4, hlines, hscans⟩

/-- Four cycles before the first wrap of `cyc` the limit `next` has wrapped already. -/
theorem longCall_laps (k : Nat) (hk : 4 * k = 4294967292) :
    ¬Guarded (step idleChips 1) SameLap longCall (List.replicate (k + 1) .pass) := by
  intro hguard
  rw [List.replicate_succ'] at hguard
  obtain ⟨hbefore, hlap, -⟩ := guarded_append.mp hguard
  obtain ⟨hsound, htotal, hlast, hlines, hscans⟩ := longCall_run k (by omega) hbefore
  generalize run (step idleChips 1) longCall (List.replicate k .pass) = s at *
  have hdone := hsound.calling.scans
  have hlow := hsound.ticking.low
  have hprompt := hsound.ticking.prompt
  simp only [Session.due, lineCycles] at hlow hprompt
  have hin : s.InCall := by
    rw [Session.InCall, hlines]
    omega
  have hdiv := hlap hin
  simp only [Session.due, lineCycles] at hdiv
  omega

theorem step_longCall :
    step idleChips 1 (Session.start idleChips idleMachine) (.call 20000000) = longCall := by
  rw [step, if_pos (by decide)]
  rfl

theorem first_wrap_early :
    ¬∀ evs', evs' <+: .call 20000000 :: List.replicate (1073741823 + 1) .pass →
      KeepsTime 1 (run (step idleChips 1) (Session.start idleChips idleMachine) evs') := by
  intro hall
  have hguard := (keepsTime_iff_guarded idleChips (start_sound idleChips idleMachine) _).mp hall
  rw [Guarded, step_longCall] at hguard
  exact longCall_laps 1073741823 (by norm_num) hguard.2

end UnicornSuite.NabuClock
