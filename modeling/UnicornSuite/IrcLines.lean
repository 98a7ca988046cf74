import Mathlib.Data.List.Induction
import Mathlib.Data.List.TakeWhile
import UnicornSuite.LibBlocks
import UnicornSuite.LibEscapes
import UnicornSuite.LibRecords
import UnicornSuite.LibText

/-! The receive loop of an IRC session (`run_session`), up to the calls of `handle_line`. The line
buffer is emptied by a LF and also by the byte that finds it full. So what it holds at a LF is the
remainder of the line behind its last full buffer, and the rest of an oversized line is dispatched
unless that remainder is blank. -/

namespace UnicornSuite.Irc

open CText Blocks Records

abbrev Bytes := List UInt8

/-- `IRC_LINE_MAX` -/
def ircLineMax : Nat := 16384

def lf : UInt8 := 0x0A
def cr : UInt8 := 0x0D

section Code

/-- A trailing CR is taken off the buffer. -/
def dropCr (acc : Bytes) : Bytes := if acc.getLast? = some cr then acc.dropLast else acc

/-- What `handle_line` is called with for a buffer: a C string, and no call for an empty one. -/
def dispatch (acc : Bytes) : List CString :=
  let line := cstr (dropCr acc)
  if line = [] then [] else [line]

/-- One byte of the loop: the buffer it leaves, and the calls of `handle_line`. -/
def recvByte (acc : Bytes) (ch : UInt8) : Bytes × List CString :=
  if ch = lf then ([], dispatch acc)
  else if acc.length < ircLineMax - 1 then (acc ++ [ch], [])
  else ([], [])

/-- What arrives before `recv` gives 0. -/
def received (recvs : List Bytes) : List Bytes := recvs.takeWhile (· ≠ [])

/-- The calls of `handle_line` in a session, by what each `recv` gives until the user stops it. -/
def runSession (recvs : List Bytes) : List CString :=
  (Transducer.runChunks recvByte [] (received recvs)).2

end Code

/-! ### The lines of the stream -/

/-- The lines of a stream that fit in the buffer. -/
def fitting (s : Bytes) : List Bytes := (ended lf s).filter fun l => l.length < ircLineMax

/-- These lines as C strings, without their CR and the empty ones. -/
def lineStrings (s : Bytes) : List CString := (fitting s).flatMap dispatch

/-- These lines byte by byte, without their CR and the empty ones. -/
def lineBytes (s : Bytes) : List Bytes := ((fitting s).map dropCr).filter (· ≠ [])

/-- What is left of a line behind its last full buffer: nothing, or what looks like an empty line. -/
def Blank (tail : Bytes) : Prop := tail = [] ∨ tail = [cr] ∨ tail.head? = some 0

/-- The oversized lines leave nothing to dispatch. -/
def NoTails (s : Bytes) : Prop :=
  ∀ l ∈ ended lf s, ircLineMax ≤ l.length → Blank (remainder ircLineMax l)

def NoNuls (s : Bytes) : Prop := ∀ l ∈ fitting s, 0 ∉ l

section Buffer

variable {l : Bytes}

theorem dispatch_eq_nil_iff : dispatch l = [] ↔ Blank l := by
  have hempty : dispatch l = [] ↔ cstr (dropCr l) = [] := by
    unfold dispatch
    dsimp only
    split <;> simp_all
  rw [hempty, dropCr]
  split
  · rename_i hlast
    obtain ⟨m, rfl⟩ := List.getLast?_eq_some_iff.mp hlast
    rw [List.dropLast_concat]
    cases m with
    | nil => simp [cstr, Blank]
    | cons c m => simp [cstr, Blank, List.takeWhile_cons]
  · rename_i hlast
    cases l with
    | nil => simp [cstr, Blank]
    | cons c l =>
        have hcr : c :: l ≠ [cr] := fun heq => hlast (heq ▸ rfl)
        simp [cstr, Blank, List.takeWhile_cons, hcr]

/-- Between two LFs the buffer holds what is left behind the last full one. -/
theorem run_line (hl : lf ∉ l) : Transducer.run recvByte [] l = (remainder ircLineMax l, []) := by
  induction l using List.reverseRecOn with
  | nil => simp
  | append_singleton l c ih =>
      have hinit : lf ∉ l := fun hmem => hl (List.mem_append_left _ hmem)
      have hne : c ≠ lf := fun heq => hl (heq ▸ List.mem_append_right l (List.mem_singleton_self c))
      have hmod := Nat.mod_lt l.length (show 0 < ircLineMax by decide)
      rw [Transducer.run_append, ih hinit, Transducer.run_cons, recvByte, if_neg hne,
        length_remainder]
      by_cases hroom : l.length % ircLineMax < ircLineMax - 1
      · rw [if_pos hroom, remainder_concat_lt (by decide) (by omega)]
        rfl
      · rw [if_neg hroom, remainder_concat_full (by decide) (by omega)]
        rfl

/-- However the stream is cut, each of its lines is dispatched by what is left of it in the buffer. -/
theorem run_stream (s : Bytes) :
    (Transducer.run recvByte [] s).2 =
      (ended lf s).flatMap fun l => dispatch (remainder ircLineMax l) := by
  induction s using induction_records lf with
  | last l hl => rw [run_line hl, ended_of_notMem hl, List.flatMap_nil]
  | record l s hl ih =>
      rw [Transducer.run_append, run_line hl, Transducer.run_cons, recvByte, if_pos rfl, ih,
        ended_append hl, List.flatMap_cons]
      rfl

theorem runSession_eq (recvs : List Bytes) :
    runSession recvs =
      (ended lf (received recvs).flatten).flatMap fun l => dispatch (remainder ircLineMax l) := by
  rw [runSession, Transducer.runChunks_eq, run_stream]

theorem remainder_of_fits (h : l.length < ircLineMax) : remainder ircLineMax l = l := by
  rw [remainder, Nat.div_eq_of_lt h, Nat.zero_mul, List.drop_zero]

end Buffer

section Framing

variable {s l : Bytes}

theorem zero_notMem_dispatch {w : CString} (hw : w ∈ dispatch l) : (0 : UInt8) ∉ w := by
  unfold dispatch at hw
  dsimp only at hw
  split at hw
  · cases hw
  · obtain rfl := List.mem_singleton.mp hw
    intro hzero
    exact absurd (List.mem_takeWhile_imp hzero) (by decide)

theorem mem_dropCr_of_ne {c : UInt8} (hc : c ≠ cr) : c ∈ dropCr l ↔ c ∈ l := by
  unfold dropCr
  split
  · rename_i hlast
    obtain ⟨m, rfl⟩ := List.getLast?_eq_some_iff.mp hlast
    simp [hc]
  · exact Iff.rfl

/-- A line without NUL is dispatched byte by byte. -/
theorem dispatch_of_notMem (hzero : (0 : UInt8) ∉ l) :
    dispatch l = ([dropCr l] : List Bytes).filter (· ≠ []) := by
  have hall : ∀ c ∈ dropCr l, decide (c ≠ 0) = true := by
    intro c hc
    refine decide_eq_true fun heq => hzero ?_
    rw [← heq]
    exact (mem_dropCr_of_ne (by rw [heq]; decide)).mp hc
  have hcstr : cstr (dropCr l) = dropCr l := List.takeWhile_eq_self_iff.mpr hall
  unfold dispatch
  dsimp only
  rw [hcstr, List.filter_singleton]
  by_cases hempty : dropCr l = [] <;> simp [hempty]

/-- What is dispatched are the lines that fit, as C strings, exactly where no tail is dispatched. -/
theorem dispatched_strings_iff (s : Bytes) :
    (ended lf s).flatMap (fun l => dispatch (remainder ircLineMax l)) = lineStrings s ↔ NoTails s := by
  have hfit : lineStrings s =
      (ended lf s).flatMap fun l => if l.length < ircLineMax then dispatch l else [] := by
    rw [lineStrings, fitting, flatMap_filter]
    exact List.flatMap_congr fun l _ => by simp
  have hle : ∀ l : Bytes, (if l.length < ircLineMax then dispatch l else []) =
      dispatch (remainder ircLineMax l) ∨ (if l.length < ircLineMax then dispatch l else []) = [] := by
    intro l
    by_cases h : l.length < ircLineMax
    · rw [if_pos h, remainder_of_fits h]
      exact Or.inl rfl
    · exact Or.inr (if_neg h)
  rw [hfit, eq_comm, flatMap_eq_iff hle]
  refine forall₂_congr fun l _ => ?_
  by_cases h : l.length < ircLineMax
  · rw [if_pos h, remainder_of_fits h]
    exact iff_of_true rfl fun hlong => absurd hlong (Nat.not_le.mpr h)
  · rw [if_neg h, eq_comm, dispatch_eq_nil_iff]
    exact ⟨fun hblank _ => hblank, fun hlong => hlong (Nat.not_lt.mp h)⟩

theorem lineStrings_eq_lineBytes (h : NoNuls s) : lineStrings s = lineBytes s := by
  have hline : ∀ l ∈ fitting s, dispatch l = ([dropCr l] : List Bytes).filter (· ≠ []) :=
    fun l hl => dispatch_of_notMem (h l hl)
  rw [lineStrings, lineBytes, List.flatMap_congr hline, List.map_eq_flatMap, List.filter_flatMap]

/-- A line with a NUL is not dispatched byte by byte. -/
theorem noNuls_of_eq (h : (ended lf s).flatMap (fun l => dispatch (remainder ircLineMax l)) =
    lineBytes s) : NoNuls s := by
  intro l hl hzero
  have hmem : (0 : UInt8) ∈ dropCr l := (mem_dropCr_of_ne (by decide)).mpr hzero
  have hline : dropCr l ∈ lineBytes s := by
    refine List.mem_filter.mpr ⟨List.mem_map_of_mem hl, ?_⟩
    exact decide_eq_true (List.ne_nil_of_mem hmem)
  rw [← h] at hline
  obtain ⟨m, _, hm⟩ := List.mem_flatMap.mp hline
  exact zero_notMem_dispatch hm hmem

/-- However the stream is cut into receives, the lines dispatched are those of the stream that fit in
the buffer exactly where no oversized line leaves a tail: read as C strings, and read byte by byte
where moreover no line has a NUL. -/
theorem framing_iff (recvs : List Bytes) :
    let s := (received recvs).flatten
    (runSession recvs = lineStrings s ↔ NoTails s) ∧
      (runSession recvs = lineBytes s ↔ NoTails s ∧ NoNuls s) := by
  intro s
  have hstrings := dispatched_strings_iff s
  rw [runSession_eq]
  refine ⟨hstrings, ?_, ?_⟩
  · intro heq
    have hnuls := noNuls_of_eq heq
    exact ⟨hstrings.mp (heq.trans (lineStrings_eq_lineBytes hnuls).symm), hnuls⟩
  · rintro ⟨htails, hnuls⟩
    exact (hstrings.mpr htails).trans (lineStrings_eq_lineBytes hnuls)

/-- The last byte of a line of 16385 bytes is dispatched as a line. -/
theorem framing_dispatches_tail :
    ¬ ∀ recvs : List Bytes, runSession recvs = lineBytes (received recvs).flatten := by
  intro hall
  have hlf : lf ∉ List.replicate 16385 (0x61 : UInt8) := fun hmem =>
    absurd (List.eq_of_mem_replicate hmem) (by decide)
  have hended : ended lf (List.replicate 16385 0x61 ++ [lf]) = [List.replicate 16385 0x61] :=
    ended_append hlf []
  have htail : remainder ircLineMax (List.replicate 16385 (0x61 : UInt8)) = [0x61] := by
    rw [remainder, List.length_replicate, List.drop_replicate]
    rfl
  have hreceived : ∀ l : Bytes, received [l ++ [lf]] = [l ++ [lf]] := by
    intro l
    simp [received]
  have hfitting : fitting (List.replicate 16385 0x61 ++ [lf]) = [] := by
    rw [fitting, hended, List.filter_singleton, List.length_replicate]
    rfl
  have h := hall [List.replicate 16385 0x61 ++ [lf]]
  rw [runSession_eq, hreceived, List.flatten_singleton, hended, List.flatMap_singleton, htail,
    lineBytes, hfitting] at h
  exact absurd h (by decide)

end Framing

end UnicornSuite.Irc
