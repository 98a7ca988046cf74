import UnicornSuite.RipSense
import UnicornSuite.RipViewport

/-! The filter before the parser, by the calls of `rip_parser_feed` that it makes. What reaches the parser is
what is meant for it in the runs in which no byte is staged or fed under another flag than the bytes it
stands with, no bytes that are let go overrun the buffer, and no sequence begins while the matcher holds
another beginning. -/

namespace UnicornSuite.RipCanvas

open Rip Machine

/-! ### The code by its calls -/

/-- The state of `rip_consume`, and the calls of `rip_parser_feed` so far. -/
structure Sieve where
  esc : Esc := .none
  enabled : Bool := true
  out : List UInt8 := []
  fed : List (List UInt8) := []
  answers : Nat := 0

namespace Sieve

def flush (v : Sieve) : Sieve := { v with fed := if v.enabled then v.fed ++ [v.out] else v.fed, out := [] }

def append (v : Sieve) (bytes : List UInt8) : Sieve :=
  if v.out.length + bytes.length ≤ outBytes then { v with out := v.out ++ bytes } else v

/-- What was held is let go, and the byte goes behind it. -/
def stage (v : Sieve) (b : UInt8) : Sieve := ({ v with esc := .none }.append v.esc.text).append [b]

def pass (v : Sieve) (b : UInt8) : Sieve :=
  if (v.stage b).out.length = outBytes then (v.stage b).flush else v.stage b

def byte (v : Sieve) (b : UInt8) : Sieve :=
  match v.esc.next b with
  | .more e => { v with esc := e }
  | .whole s => { v with esc := .none, enabled := s.enabled v.enabled, answers := v.answers + s.answers }
  | .neither => v.pass b

/-- The end of a chunk. -/
def finish (v : Sieve) : Sieve := if v.out = [] then v else v.flush

def chunk (v : Sieve) (data : List UInt8) : Sieve := (run byte v data).finish

variable (T : Tables)

/-- The filter of the code on a parser, after these calls. -/
def filter (p : RipParser) (v : Sieve) : Filter where
  scene := { parser := run (feed T) p v.fed, esc := v.esc, ripEnabled := v.enabled }
  out := v.out
  answers := v.answers

variable {T} {p : RipParser} {v : Sieve}

theorem filter_flush : (v.filter T p).flush T = v.flush.filter T p := by
  cases henabled : v.enabled with
  | true => simp [Filter.flush, filter, flush, henabled, run_append]
  | false => simp [Filter.flush, filter, flush, henabled]

theorem filter_append (bytes : List UInt8) : (v.filter T p).append bytes = (v.append bytes).filter T p := by
  rw [Filter.append, append, apply_ite (filter T p)]
  rfl

theorem filter_pass (b : UInt8) : (v.filter T p).pass T v.esc.text b = (v.pass b).filter T p := by
  have hhold : (v.filter T p).hold .none = filter T p { v with esc := .none } := rfl
  rw [Filter.pass, hhold, filter_append, filter_append, filter_flush, pass, apply_ite (filter T p)]
  rfl

/-- A byte in `rip_consume`. -/
theorem filter_byte (b : UInt8) : consumeByte T (v.filter T p) b = (v.byte b).filter T p := by
  obtain ⟨held, enabled, out, fed, answers⟩ := v
  have hpass := filter_pass (T := T) (p := p) (v := ⟨held, enabled, out, fed, answers⟩) b
  cases held with
  | none =>
      by_cases hb : b = 0x1B
      · simp only [consumeByte, byte, filter, Esc.next, if_pos hb]
        rfl
      · simp only [consumeByte, byte, filter, Esc.next, if_neg hb]
        exact hpass
  | esc =>
      by_cases hb : b = 0x5B
      · simp only [consumeByte, byte, filter, Esc.next, if_pos hb]
        rfl
      · simp only [consumeByte, byte, filter, Esc.next, if_neg hb]
        exact hpass
  | bracket =>
      by_cases hquery : b = 0x21
      · simp only [consumeByte, byte, filter, Esc.next, if_pos hquery]
        rfl
      · by_cases hdigit : 0x30 ≤ b ∧ b ≤ 0x32
        · simp only [consumeByte, byte, filter, Esc.next, if_neg hquery, if_pos hdigit]
          rfl
        · simp only [consumeByte, byte, filter, Esc.next, if_neg hquery, if_neg hdigit]
          exact hpass
  | digit d =>
      by_cases hquery : b = 0x21
      · simp only [consumeByte, byte, filter, Esc.next, if_pos hquery]
        split_ifs <;> rfl
      · simp only [consumeByte, byte, filter, Esc.next, if_neg hquery]
        exact hpass

theorem filter_run (data : List UInt8) :
    run (consumeByte T) (v.filter T p) data = (run byte v data).filter T p := by
  induction data generalizing v with
  | nil => rfl
  | cons b data ih => rw [run_cons, run_cons, filter_byte, ih]

theorem filter_finish :
    (if (v.filter T p).out = [] then v.filter T p else (v.filter T p).flush T) = v.finish.filter T p := by
  rw [filter_flush, finish, apply_ite (filter T p)]
  rfl

theorem finish_out (v : Sieve) : v.finish.out = [] := by
  by_cases hout : v.out = []
  · rw [finish, if_pos hout, hout]
  · rw [finish, if_neg hout]
    rfl

/-- The filter with some answers before. -/
def answered (n : Nat) (v : Sieve) : Sieve := { v with answers := n + v.answers }

theorem append_answered (n : Nat) (bytes : List UInt8) :
    (v.answered n).append bytes = (v.append bytes).answered n := by
  rw [append, append, apply_ite (answered n)]
  rfl

theorem byte_answered (n : Nat) (b : UInt8) : (v.answered n).byte b = (v.byte b).answered n := by
  have hheld : { v.answered n with esc := .none } = answered n { v with esc := .none } := rfl
  have hpass : (v.answered n).pass b = (v.pass b).answered n := by
    have hstage : (v.answered n).stage b = (v.stage b).answered n := by
      rw [stage, hheld]
      exact (congrArg (append · [b]) (append_answered n v.esc.text)).trans (append_answered n [b])
    rw [pass, pass, hstage, apply_ite (answered n)]
    rfl
  rw [byte, byte, show (v.answered n).esc = v.esc from rfl]
  cases v.esc.next b with
  | more e => rfl
  | whole s => simp [answered, Nat.add_assoc]
  | neither => exact hpass

theorem chunk_answered (n : Nat) (data : List UInt8) :
    (v.answered n).chunk data = (v.chunk data).answered n := by
  have hrun : run byte (v.answered n) data = (run byte v data).answered n := by
    induction data generalizing v with
    | nil => rfl
    | cons b data ih => rw [run_cons, run_cons, byte_answered, ih]
  rw [chunk, hrun, chunk, finish, finish, apply_ite (answered n)]
  rfl

/-- `rip_consume` between two chunks. -/
theorem consume_scene (hout : v.out = []) (data : List UInt8) :
    (consume T (v.filter T p).scene data).1 = ((v.chunk data).filter T p).scene ∧
      v.answers + (consume T (v.filter T p).scene data).2 = (v.chunk data).answers := by
  have hstart : ({ scene := (v.filter T p).scene } : Filter) = filter T p { v with answers := 0 } := by
    simp [filter, hout]
  have hconsume : consume T (v.filter T p).scene data =
      ((chunk { v with answers := 0 } data).filter T p |>.scene, (chunk { v with answers := 0 } data).answers) := by
    rw [consume, hstart, filter_run, filter_finish]
    rfl
  have hchunk : v.chunk data = (chunk { v with answers := 0 } data).answered v.answers :=
    chunk_answered (v := { v with answers := 0 }) v.answers data
  rw [hconsume, hchunk]
  exact ⟨rfl, rfl⟩

end Sieve

/-! ### A session -/

/-- The chunks of a session through `rip_consume`, with the answers of them all. -/
def session (T : Tables) (s : Scene) (chunks : List (List UInt8)) : Scene × Nat :=
  run (fun r data => ((consume T r.1 data).1, r.2 + (consume T r.1 data).2)) (s, 0) chunks

/-- The filter when a session starts. -/
def fresh : Sieve := {}

/-- The filter after the chunks of a session. -/
def sieved (chunks : List (List UInt8)) : Sieve := run Sieve.chunk fresh chunks

/-- What a session leaves is what the calls of the filter make of the parser. -/
theorem session_eq (T : Tables) (s : Scene) (hidle : s.esc = .none) (hon : s.ripEnabled = true)
    (chunks : List (List UInt8)) :
    session T s chunks = (((sieved chunks).filter T s.parser).scene, (sieved chunks).answers) := by
  have hrun : ∀ v : Sieve, v.out = [] →
      run (fun r data => ((consume T r.1 data).1, r.2 + (consume T r.1 data).2))
          ((v.filter T s.parser).scene, v.answers) chunks =
        (((run Sieve.chunk v chunks).filter T s.parser).scene, (run Sieve.chunk v chunks).answers) := by
    induction chunks with
    | nil => exact fun _ _ => rfl
    | cons data chunks ih =>
        intro v hout
        obtain ⟨hscene, hanswers⟩ := Sieve.consume_scene (T := T) (p := s.parser) hout data
        rw [run_cons, hscene, hanswers, run_cons]
        exact ih (v.chunk data) (Sieve.finish_out _)
  have hstart : s = (fresh.filter T s.parser).scene := by
    obtain ⟨parser, held, enabled⟩ := s
    obtain rfl : held = .none := hidle
    obtain rfl : enabled = true := hon
    rfl
  have hsession := hrun fresh rfl
  rw [← hstart] at hsession
  exact hsession

/-! ### The condition -/

/-- A byte of a chunk, or its end. -/
inductive Input where
  | byte (b : UInt8)
  | finish

def Sieve.step (v : Sieve) : Input → Sieve
  | .byte b => v.byte b
  | .finish => v.finish

def inputs (chunks : List (List UInt8)) : List Input :=
  chunks.flatMap fun data => data.map .byte ++ [.finish]

/-- The filter, the matcher on the same bytes, and the flag that the bytes in `out` were staged under. -/
structure Watch where
  code : Sieve := {}
  ideal : Matcher := {}
  under : Bool := true

def Watch.step (w : Watch) : Input → Watch
  | .byte b =>
      { code := w.code.byte b
        ideal := w.ideal.step b
        under := if w.code.out = [] then w.code.enabled else w.under }
  | .finish => { w with code := w.code.finish }

/-- The bytes in `out` were staged under the flag as it is. -/
def Watch.Steady (w : Watch) : Prop := w.code.out = [] ∨ w.under = w.code.enabled

instance (w : Watch) : Decidable w.Steady := inferInstanceAs (Decidable (_ ∨ _))

/-- The condition on what a byte is to the filter and to the matcher: a sequence ends only where the filter
has held its beginning, and a byte goes to `out` only beside bytes of the same flag and, while the parser is
on, with room for what was held before it. -/
def Watch.Fits (w : Watch) : Match → Match → Prop
  | .neither, .whole _ => False
  | .neither, _ =>
      w.Steady ∧ (w.code.enabled = true → w.code.out.length + w.code.esc.text.length < outBytes)
  | _, _ => True

instance (w : Watch) : (m m' : Match) → Decidable (w.Fits m m')
  | .neither, .whole _ => isFalse id
  | .neither, .more _ | .neither, .neither => inferInstanceAs (Decidable (_ ∧ (_ → _)))
  | .more _, _ | .whole _, _ => isTrue trivial

/-- The condition on a step. -/
def Watch.Guard (w : Watch) : Input → Prop
  | .byte b => w.Fits (w.code.esc.next b) (w.ideal.esc.next b)
  | .finish => w.Steady

instance (w : Watch) : (e : Input) → Decidable (w.Guard e)
  | .byte b => inferInstanceAs (Decidable (w.Fits (w.code.esc.next b) (w.ideal.esc.next b)))
  | .finish => inferInstanceAs (Decidable w.Steady)

/-- The bytes that have been fed, and those in `out` that were staged while the parser was on. -/
def Watch.reached (w : Watch) : List UInt8 := w.code.fed.flatten ++ passed w.under w.code.out

/-- The filter and the matcher have the same, apart from where it is held. -/
structure Watch.Inv (w : Watch) : Prop where
  held : w.code.esc = w.ideal.esc ∨ w.code.esc = .none
  enabled : w.code.enabled = w.ideal.enabled
  answers : w.code.answers = w.ideal.answers
  total : w.ideal.total = w.reached ++ passed w.code.enabled w.code.esc.text

/-! ### A step -/

section Step

variable {w : Watch} {b : UInt8}

theorem Watch.Guard.neither (h : w.Guard (.byte b)) (hnext : w.code.esc.next b = .neither) :
    (∀ s, w.ideal.esc.next b ≠ .whole s) ∧ w.Steady ∧
      (w.code.enabled = true → w.code.out.length + w.code.esc.text.length < outBytes) := by
  rw [Watch.Guard, hnext] at h
  cases hideal : w.ideal.esc.next b with
  | whole s =>
      rw [hideal] at h
      exact h.elim
  | _ =>
      rw [hideal] at h
      exact ⟨nofun, h⟩

theorem Watch.Steady.passed (h : w.Steady) : passed w.under w.code.out = passed w.code.enabled w.code.out := by
  rcases h with hout | hflag
  · rw [hout, passed_nil, passed_nil]
  · rw [hflag]

theorem Watch.Steady.under (h : w.Steady) :
    (if w.code.out = [] then w.code.enabled else w.under) = w.code.enabled := by
  split_ifs with hout
  · rfl
  · exact h.resolve_left hout

theorem Sieve.append_fits {v : Sieve} {bytes : List UInt8}
    (h : v.out.length + bytes.length ≤ outBytes) : v.append bytes = { v with out := v.out ++ bytes } :=
  if_pos h

theorem append_kept (v : Sieve) (bytes : List UInt8) :
    (v.append bytes).fed = v.fed ∧ (v.append bytes).esc = v.esc ∧ (v.append bytes).enabled = v.enabled ∧
      (v.append bytes).answers = v.answers := by
  rw [Sieve.append]
  split_ifs
  · exact ⟨rfl, rfl, rfl, rfl⟩
  · exact ⟨rfl, rfl, rfl, rfl⟩

theorem flush_reached (v : Sieve) :
    v.flush.fed.flatten ++ passed v.enabled v.flush.out = v.fed.flatten ++ passed v.enabled v.out := by
  rw [Sieve.flush]
  cases v.enabled <;> simp [passed]

theorem stage_kept (v : Sieve) (b : UInt8) :
    (v.stage b).fed = v.fed ∧ (v.stage b).esc = .none ∧ (v.stage b).enabled = v.enabled ∧
      (v.stage b).answers = v.answers := by
  obtain ⟨hfed, hesc, henabled, hanswers⟩ := append_kept { v with esc := .none } v.esc.text
  obtain ⟨hfed', hesc', henabled', hanswers'⟩ :=
    append_kept ({ v with esc := .none }.append v.esc.text) [b]
  exact ⟨hfed'.trans hfed, hesc'.trans hesc, henabled'.trans henabled, hanswers'.trans hanswers⟩

theorem stage_out (v : Sieve) (b : UInt8) (hroom : v.out.length + v.esc.text.length < outBytes) :
    (v.stage b).out = v.out ++ (v.esc.text ++ [b]) := by
  have hheld : { v with esc := .none }.append v.esc.text =
      { v with esc := .none, out := v.out ++ v.esc.text } := Sieve.append_fits (by dsimp only; omega)
  rw [Sieve.stage, hheld,
    Sieve.append_fits (by simp only [List.length_append, List.length_singleton]; omega)]
  exact List.append_assoc _ _ _

/-- What was held and the byte are staged, or fed with what was staged before. -/
theorem pass_reached (v : Sieve) (b : UInt8)
    (hroom : v.enabled = true → v.out.length + v.esc.text.length < outBytes) :
    (v.pass b).fed.flatten ++ passed v.enabled (v.pass b).out =
        v.fed.flatten ++ passed v.enabled v.out ++ passed v.enabled (v.esc.text ++ [b]) ∧
      (v.pass b).esc = .none ∧ (v.pass b).enabled = v.enabled ∧ (v.pass b).answers = v.answers := by
  obtain ⟨hfed, hesc, henabled, hanswers⟩ := stage_kept v b
  have hout : passed v.enabled (v.stage b).out = passed v.enabled (v.out ++ (v.esc.text ++ [b])) := by
    cases hflag : v.enabled with
    | false => rfl
    | true => rw [stage_out v b (hroom hflag)]
  have hreached : (v.stage b).fed.flatten ++ passed v.enabled (v.stage b).out =
      v.fed.flatten ++ passed v.enabled v.out ++ passed v.enabled (v.esc.text ++ [b]) := by
    rw [hfed, hout, passed_append, List.append_assoc]
  by_cases hfull : (v.stage b).out.length = outBytes
  · have hflush := flush_reached (v.stage b)
    rw [henabled] at hflush
    rw [Sieve.pass, if_pos hfull]
    exact ⟨hflush.trans hreached, hesc, henabled, hanswers⟩
  · rw [Sieve.pass, if_neg hfull]
    exact ⟨hreached, hesc, henabled, hanswers⟩

/-- A byte that ends no sequence for the matcher and goes to `out`. -/
theorem inv_pass (h : w.Inv) (hnext : w.code.esc.next b = .neither) (hguard : w.Guard (.byte b)) :
    (w.step (.byte b)).Inv := by
  obtain ⟨hends, hsteady, hroom⟩ := hguard.neither hnext
  obtain ⟨htotal, hflag, hcount⟩ := w.ideal.total_step b hends
  obtain ⟨hreached, hesc, henabled, hanswers⟩ := pass_reached w.code b hroom
  have hcode : w.code.byte b = w.code.pass b := by rw [Sieve.byte, hnext]
  constructor
  · exact Or.inr (by rw [Watch.step, hcode]; exact hesc)
  · rw [Watch.step, hcode]
    exact henabled.trans (h.enabled.trans hflag.symm)
  · rw [Watch.step, hcode]
    exact hanswers.trans (h.answers.trans hcount.symm)
  · have htext : passed (w.code.pass b).enabled (w.code.pass b).esc.text = [] := by
      rw [hesc, text_none, passed_nil]
    rw [Watch.step, hcode]
    show (w.ideal.step b).total = (w.code.pass b).fed.flatten ++
      passed (if w.code.out = [] then w.code.enabled else w.under) (w.code.pass b).out ++
        passed (w.code.pass b).enabled (w.code.pass b).esc.text
    rw [htotal, h.total, htext, hsteady.under, hreached, Watch.reached, hsteady.passed, ← h.enabled,
      passed_append, List.append_nil]
    simp only [List.append_assoc]

/-- Where nothing is staged the flag of `out` means nothing. -/
theorem reached_under (w : Watch) :
    w.code.fed.flatten ++ passed (if w.code.out = [] then w.code.enabled else w.under) w.code.out =
      w.reached := by
  rw [Watch.reached]
  split_ifs with hout
  · rw [hout, passed_nil, passed_nil]
  · rfl

theorem step_esc (m : Matcher) : (m.step 0x1B).esc = .esc := by
  rw [Matcher.step]
  cases m.esc <;> rfl

theorem next_ne_whole (e : Esc) (s : Sense) : e.next 0x1B ≠ .whole s := by
  cases e <;> exact nofun

theorem inv_more (h : w.Inv) {e : Esc} (hnext : w.code.esc.next b = .more e) :
    (w.step (.byte b)).Inv := by
  have hends : (∀ s, w.ideal.esc.next b ≠ .whole s) ∧ e = (w.ideal.step b).esc := by
    rcases h.held with hheld | hnone
    · rw [← hheld, hnext, Matcher.step, ← hheld, hnext]
      exact ⟨fun s hs => Match.noConfusion hs, rfl⟩
    · rw [hnone, Esc.next] at hnext
      split_ifs at hnext with hb
      obtain rfl := Match.more.inj hnext
      subst hb
      exact ⟨next_ne_whole _, (step_esc _).symm⟩
  obtain ⟨htotal, hflag, hcount⟩ := w.ideal.total_step b hends.1
  have hcode : w.code.byte b = { w.code with esc := e } := by rw [Sieve.byte, hnext]
  constructor
  · exact Or.inl (by rw [Watch.step, hcode]; exact hends.2)
  · rw [Watch.step, hcode]
    exact h.enabled.trans hflag.symm
  · rw [Watch.step, hcode]
    exact h.answers.trans hcount.symm
  · rw [Watch.step, hcode]
    show (w.ideal.step b).total = w.code.fed.flatten ++
      passed (if w.code.out = [] then w.code.enabled else w.under) w.code.out ++
        passed w.code.enabled e.text
    rw [htotal, h.total, reached_under, next_more_text hnext, passed_append, ← h.enabled,
      List.append_assoc]

theorem inv_whole (h : w.Inv) {s : Sense} (hnext : w.code.esc.next b = .whole s) :
    (w.step (.byte b)).Inv := by
  have hheld : w.code.esc = w.ideal.esc := by
    refine h.held.resolve_right fun hnone => ?_
    rw [hnone, Esc.next] at hnext
    split_ifs at hnext
  have hkept : w.ideal.kept = w.reached := by
    have htotal := h.total
    rw [Matcher.total, ← hheld, ← h.enabled] at htotal
    exact List.append_cancel_right htotal
  have hcode : w.code.byte b =
      { w.code with
        esc := .none, enabled := s.enabled w.code.enabled, answers := w.code.answers + s.answers } := by
    rw [Sieve.byte, hnext]
  have hideal : w.ideal.step b =
      { w.ideal with
        esc := .none, enabled := s.enabled w.ideal.enabled, answers := w.ideal.answers + s.answers } := by
    rw [Matcher.step, ← hheld, hnext]
  constructor
  · exact Or.inr (by rw [Watch.step, hcode])
  · rw [Watch.step, hcode, hideal]
    exact congrArg s.enabled h.enabled
  · rw [Watch.step, hcode, hideal]
    exact congrArg (· + s.answers) h.answers
  · rw [Watch.step, hcode, hideal]
    show w.ideal.kept ++ passed (s.enabled w.ideal.enabled) [] = w.code.fed.flatten ++
      passed (if w.code.out = [] then w.code.enabled else w.under) w.code.out ++
        passed (s.enabled w.code.enabled) []
    rw [passed_nil, passed_nil, List.append_nil, List.append_nil, reached_under, hkept]

theorem inv_finish (h : w.Inv) (hsteady : w.Steady) : (w.step .finish).Inv := by
  by_cases hout : w.code.out = []
  · have hcode : w.code.finish = w.code := if_pos hout
    rw [Watch.step, hcode]
    exact h
  · have hcode : w.code.finish = w.code.flush := if_neg hout
    have hflush := flush_reached w.code
    rw [Watch.step, hcode]
    refine ⟨h.held, h.enabled, h.answers, ?_⟩
    show w.ideal.total = w.code.flush.fed.flatten ++ passed w.under [] ++ passed w.code.enabled w.code.esc.text
    rw [h.total, passed_nil, List.append_nil, Watch.reached, hsteady.passed, ← hflush,
      show w.code.flush.out = [] from rfl, passed_nil, List.append_nil]

theorem step_inv (e : Input) (h : w.Inv) (hguard : w.Guard e) : (w.step e).Inv := by
  cases e with
  | byte b =>
      cases hnext : w.code.esc.next b with
      | more e => exact inv_more h hnext
      | whole s => exact inv_whole h hnext
      | neither => exact inv_pass h hnext hguard
  | finish => exact inv_finish h hguard

end Step

/-! ### Runs -/

theorem run_code (w : Watch) (es : List Input) : (run Watch.step w es).code = run Sieve.step w.code es := by
  induction es generalizing w with
  | nil => rfl
  | cons e es ih => cases e <;> exact ih _

theorem run_chunks (v : Sieve) (chunks : List (List UInt8)) :
    run Sieve.step v (inputs chunks) = run Sieve.chunk v chunks := by
  have hbytes (v : Sieve) (data : List UInt8) : run Sieve.step v (data.map .byte) = run Sieve.byte v data := by
    induction data generalizing v with
    | nil => rfl
    | cons b data ih => exact ih _
  induction chunks generalizing v with
  | nil => rfl
  | cons data chunks ih =>
      rw [inputs, List.flatMap_cons, run_append, run_append, hbytes]
      exact ih _

theorem run_ideal (w : Watch) (chunks : List (List UInt8)) :
    (run Watch.step w (inputs chunks)).ideal = run Matcher.step w.ideal chunks.flatten := by
  have hbytes (w : Watch) (data : List UInt8) :
      (run Watch.step w (data.map .byte)).ideal = run Matcher.step w.ideal data := by
    induction data generalizing w with
    | nil => rfl
    | cons b data ih => exact ih _
  induction chunks generalizing w with
  | nil => rfl
  | cons data chunks ih =>
      rw [inputs, List.flatMap_cons, run_append, run_append, List.flatten_cons, run_append, ← hbytes]
      exact ih _

/-- What reaches the parser in a session are these calls; with the beginning that is held they are what is
meant for it, and each query is answered once. -/
structure Exact (T : Tables) (s : Scene) (chunks : List (List UInt8)) : Prop where
  parser : (session T s chunks).1.parser = run (feed T) s.parser (sieved chunks).fed
  bytes : (sieved chunks).fed.flatten ++ passed (sieved chunks).enabled (sieved chunks).esc.text =
    filtered true chunks.flatten
  answers : (session T s chunks).2 = queries chunks.flatten

theorem inv_start : ({} : Watch).Inv where
  held := Or.inl rfl
  enabled := rfl
  answers := rfl
  total := rfl

theorem sieved_out (chunks : List (List UInt8)) : (sieved chunks).out = [] :=
  run_inv (I := fun v : Sieve => v.out = []) (fun _ _ _ => Sieve.finish_out _) rfl chunks

theorem exact_of_guarded (T : Tables) {s : Scene} (hidle : s.esc = .none) (hon : s.ripEnabled = true)
    {chunks : List (List UInt8)} (hguard : Guarded Watch.step Watch.Guard {} (inputs chunks)) :
    Exact T s chunks := by
  have hinv := run_inv_of_guarded (I := Watch.Inv) (fun _ e h hg => step_inv e h hg) inv_start hguard
  have hcode : (run Watch.step {} (inputs chunks)).code = sieved chunks := by
    rw [run_code, run_chunks]
    rfl
  have hideal := run_ideal {} chunks
  obtain ⟨htotal, hcount⟩ := Matcher.run_total {} trivial chunks.flatten
  have hreached : (run Watch.step {} (inputs chunks)).reached = (sieved chunks).fed.flatten := by
    rw [Watch.reached, hcode, sieved_out, passed_nil, List.append_nil]
  have hsession := session_eq T s hidle hon chunks
  refine ⟨by rw [hsession]; rfl, ?_, ?_⟩
  · have hbytes := hinv.total
    rw [hideal, hreached, hcode, htotal] at hbytes
    exact hbytes.symm
  · have hanswers := hinv.answers
    rw [hideal, hcode, hcount] at hanswers
    rw [hsession]
    exact hanswers.trans (Nat.zero_add _)

/-- In a session whose steps all meet the condition the filter is exact after every chunk, however the stream
is cut. -/
theorem session_exact (T : Tables) {s : Scene} (hidle : s.esc = .none) (hon : s.ripEnabled = true)
    {chunks : List (List UInt8)} (hguard : Guarded Watch.step Watch.Guard {} (inputs chunks)) :
    ∀ before, before <+: chunks → Exact T s before := by
  rintro before ⟨after, rfl⟩
  rw [inputs, List.flatMap_append, guarded_append] at hguard
  exact exact_of_guarded T hidle hon hguard.1

/-- The scene of a session on a blank surface. -/
def blankScene : Scene := { parser := init fun _ _ => 0 }

/-- A query that is cut, and the parser off and on again. -/
def tidyChunks : List (List UInt8) :=
  [[0x41, 0x1B], [0x5B, 0x21, 0x1B, 0x42], [0x1B, 0x5B, 0x31, 0x21], [0x43], [0x1B, 0x5B, 0x32, 0x21, 0x44]]

theorem session_exact_tidy : Exact noTables blankScene tidyChunks :=
  session_exact noTables rfl rfl (by decide) tidyChunks (List.prefix_refl _)

/-- A query behind an ESC is not answered, and a byte in the same chunk before ESC [ 1 ! is lost. -/
theorem session_inexact :
    ((session noTables blankScene [[0x1B, 0x1B, 0x5B, 0x21]]).2 = 0 ∧ queries [0x1B, 0x1B, 0x5B, 0x21] = 1) ∧
      ((sieved [[0x41, 0x1B, 0x5B, 0x31, 0x21]]).fed = [] ∧
        filtered true [0x41, 0x1B, 0x5B, 0x31, 0x21] = [0x41]) ∧
      ¬Exact noTables blankScene [[0x1B, 0x1B, 0x5B, 0x21]] ∧
      ¬Exact noTables blankScene [[0x41, 0x1B, 0x5B, 0x31, 0x21]] := by
  refine ⟨by decide, by decide, fun hexact => ?_, fun hexact => ?_⟩
  · exact absurd hexact.answers (by decide)
  · exact absurd hexact.bytes (by decide)

end UnicornSuite.RipCanvas
