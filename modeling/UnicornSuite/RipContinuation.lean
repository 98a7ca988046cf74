import UnicornSuite.RipViewport

/-! Lines that are broken on the way to the parser. A backslash before a line break is taken out again with
the break, where the line does not end in an odd run of backslashes before it, so that the parser gets the
lines that it gets without the breaks. The flag for a continued line tells only an empty line from none. -/

namespace UnicornSuite.Rip

variable (T : Tables)

/-! ### What is sent -/

inductive Newline where
  | cr | lf | crlf
  deriving DecidableEq

def Newline.text : Newline → List UInt8
  | cr => [0x0D]
  | lf => [0x0A]
  | crlf => [0x0D, 0x0A]

/-- A line that fits into the buffer. -/
structure CommandLine where
  bytes : List UInt8
  unbroken : ∀ b ∈ bytes, ¬(b.toNat = 0x0D ∨ b.toNat = 0x0A)
  short : bytes.length < 8192

/-- The breaks before the bytes of a line, none behind an odd run of backslashes. -/
structure Breaks (L : CommandLine) where
  before : Nat → Option Newline
  even : ∀ k < L.bytes.length, before k ≠ none →
    trailingBackslashes ((L.bytes.take k).map UInt8.toNat) % 2 = 0

def breakText : Option Newline → List UInt8
  | none => []
  | some n => 0x5C :: n.text

/-- The bytes from the `k`-th of a line on, with the breaks before them. -/
def brokenText (before : Nat → Option Newline) : Nat → List UInt8 → List UInt8
  | _, [] => []
  | k, b :: bs => breakText (before k) ++ b :: brokenText before (k + 1) bs

def Breaks.text {L : CommandLine} (B : Breaks L) : List UInt8 := brokenText B.before 0 L.bytes

/-! ### What is handed over -/

/-- The lines that the bytes hand to `rip_handle_line`. -/
def linesOf : RipParser → List UInt8 → List (List Nat)
  | _, [] => []
  | p, b :: bs => (completedLine p b).toList ++ linesOf (feedByte T p b) bs

/-- The lines that calls of `rip_parser_feed` hand over. -/
def linesFed : RipParser → List (List UInt8) → List (List Nat)
  | _, [] => []
  | p, data :: more => linesOf T { p with drew := false } data ++ linesFed (feed T p data) more

/-- The parser with other flags for a continued line and for what the call of `rip_parser_feed` returns. -/
def flagged (continued drew : Bool) (p : RipParser) : RipParser := { p with continued, drew }

/-- Two parsers that differ in nothing but these flags. -/
def SameScene (p q : RipParser) : Prop := ∃ continued drew, q = flagged continued drew p

/-- Two parsers that go on in the same way. -/
structure Alike (p q : RipParser) : Prop where
  scene : SameScene p q
  continued : p.line = [] → p.continued = q.continued

/-! ### Commands -/

section Commands

variable {T}

def flaggedRun (k d : Bool) (r : RipParser × Bool) : RipParser × Bool := (flagged k d r.1, r.2)

variable (k d : Bool) (p : RipParser) (a : List Int) (text : List Nat)

theorem needs_flagged {n : Nat} {r r' : RipParser × Bool} (h : r' = flaggedRun k d r) :
    needs n a (flagged k d p) r' = flaggedRun k d (needs n a p r) := by
  rw [h, needs, needs, apply_ite (flaggedRun k d)]
  rfl

theorem needsPoints_flagged {pts : List (Int × Int)} {r r' : RipParser × Bool}
    (h : r' = flaggedRun k d r) :
    needsPoints pts (flagged k d p) r' = flaggedRun k d (needsPoints pts p r) := by
  rw [h, needsPoints, needsPoints, apply_ite (flaggedRun k d)]
  rfl

theorem addRegion_flagged (b : Button) : addRegion (flagged k d p) b = flagged k d (addRegion p b) := by
  rw [addRegion, addRegion, apply_ite (flagged k d)]
  rfl

theorem fillStyle_flagged : fillStyle (flagged k d p) a = flagged k d (fillStyle p a) := by
  rw [fillStyle, fillStyle, apply_ite (flagged k d)]
  rfl

theorem lineStyleCmd_flagged : lineStyleCmd (flagged k d p) a = flagged k d (lineStyleCmd p a) := by
  rw [lineStyleCmd, lineStyleCmd, apply_ite (flagged k d)]
  rfl

theorem execButton_flagged :
    execButton T (flagged k d p) a text = flaggedRun k d (execButton T p a text) := by
  have hregion (s : RipEga) (b : Button) : addRegion { flagged k d p with surf := s } b =
      flagged k d (addRegion { p with surf := s } b) := addRegion_flagged k d { p with surf := s } b
  simp only [execButton]
  exact congrArg (fun p' => (onStats p' _, _)) (hregion _ _)

theorem execMouse_flagged : execMouse (flagged k d p) a text = flagged k d (execMouse p a text) :=
  addRegion_flagged k d p _

theorem execLevel1_flagged (cmd : Nat) :
    execLevel1 T (flagged k d p) cmd a text = flaggedRun k d (execLevel1 T p cmd a text) := by
  unfold execLevel1
  split
  · exact needs_flagged k d p a rfl
  · exact needs_flagged k d p a (execButton_flagged k d p a text)
  · refine needs_flagged k d p a ?_
    rw [execMouse_flagged]
    rfl
  · rfl
  · rfl

theorem execLevel0_flagged (cmd : Nat) (pts : List (Int × Int)) :
    execLevel0 T (flagged k d p) cmd a pts text = flaggedRun k d (execLevel0 T p cmd a pts text) := by
  unfold execLevel0
  split
  all_goals first
    | exact needs_flagged k d p a rfl
    | exact needsPoints_flagged k d p rfl
    | rfl
    | skip
  · exact needs_flagged k d p a (congrArg (·, false) (fillStyle_flagged k d p a))
  · exact needs_flagged k d p a (congrArg (·, false) (lineStyleCmd_flagged k d p a))

theorem ripExec_flagged (level : List Nat) (cmd : Nat) (pts : List (Int × Int)) :
    ripExec T (flagged k d p) level cmd a pts text = flaggedRun k d (ripExec T p level cmd a pts text) := by
  unfold ripExec
  split_ifs
  · exact execLevel1_flagged k d p a text cmd
  · rfl
  · exact execLevel0_flagged k d p a text cmd pts

end Commands

section Scene

variable {T} {p q r : RipParser}

theorem SameScene.refl (p : RipParser) : SameScene p p := ⟨p.continued, p.drew, rfl⟩

theorem SameScene.symm (h : SameScene p q) : SameScene q p := by
  obtain ⟨k, d, rfl⟩ := h
  exact ⟨p.continued, p.drew, rfl⟩

theorem SameScene.trans (h : SameScene p q) (h' : SameScene q r) : SameScene p r := by
  obtain ⟨k, d, rfl⟩ := h
  obtain ⟨k, d, rfl⟩ := h'
  exact ⟨k, d, rfl⟩

theorem runCommand_same (h : SameScene p q) (c : Command) :
    SameScene (runCommand T p c) (runCommand T q c) := by
  obtain ⟨k, d, rfl⟩ := h
  cases c with
  | truncated => exact ⟨k, d, rfl⟩
  | unknown => exact ⟨k, d, rfl⟩
  | malformed => exact ⟨k, d, rfl⟩
  | exec level cmd a pts text =>
      have hexec : ripExec T (onStats (flagged k d p) countCommand) level cmd a pts text =
          flaggedRun k d (ripExec T (onStats p countCommand) level cmd a pts text) :=
        ripExec_flagged k d (onStats p countCommand) a text level cmd pts
      simp only [runCommand, hexec, flaggedRun]
      split
      · exact ⟨k, true, rfl⟩
      · exact ⟨k, d, rfl⟩

theorem handleLine_same (h : SameScene p q) (line : List Nat) :
    SameScene (handleLine T p line) (handleLine T q line) := by
  rw [handleLine, handleLine]
  split
  · rename_i body _
    exact Machine.run_rel (R := SameScene) (fun _ _ c hs => runCommand_same hs c) h
      (lineCommands body.length body)
  · split
    · exact h
    · obtain ⟨k, d, rfl⟩ := h
      exact ⟨k, d, rfl⟩

/-- Once a line is finished nothing is left of the flag. -/
theorem SameScene.clearLine (h : SameScene p q) : Alike (clearLine p) (clearLine q) := by
  obtain ⟨k, d, rfl⟩ := h
  exact ⟨⟨false, d, rfl⟩, fun _ => rfl⟩

/-! ### Bytes -/

theorem Alike.line (h : Alike p q) : p.line = q.line := by
  obtain ⟨⟨k, d, rfl⟩, _⟩ := h
  rfl

theorem completedLine_alike (h : Alike p q) (b : UInt8) : completedLine p b = completedLine q b := by
  obtain ⟨⟨k, d, rfl⟩, hcont⟩ := h
  have hempty : (p.line = [] ∧ ¬p.continued) ↔ (p.line = [] ∧ ¬(flagged k d p).continued) :=
    and_congr_right fun hnil => by rw [hcont hnil]
  simp only [completedLine, hempty]
  rfl

theorem endLine_alike (h : Alike p q) : Alike (endLine T p) (endLine T q) := by
  obtain ⟨⟨k, d, rfl⟩, hcont⟩ := h
  have hempty : (p.line = [] ∧ ¬p.continued) ↔
      ((flagged k d p).line = [] ∧ ¬(flagged k d p).continued) :=
    and_congr_right fun hnil => by rw [hcont hnil]
  have hhandle : SameScene (handleLine T p p.line) (handleLine T (flagged k d p) p.line) :=
    handleLine_same ⟨k, d, rfl⟩ p.line
  by_cases hskip : p.line = [] ∧ ¬p.continued
  · rw [endLine, endLine, if_pos hskip, if_pos (hempty.mp hskip)]
    exact ⟨⟨k, d, rfl⟩, hcont⟩
  · rw [endLine, endLine, if_neg hskip, if_neg fun h => hskip (hempty.mpr h)]
    by_cases hodd : trailingBackslashes p.line % 2 = 1
    · rw [if_pos hodd, if_pos (show trailingBackslashes (flagged k d p).line % 2 = 1 from hodd)]
      exact ⟨⟨true, d, rfl⟩, fun _ => rfl⟩
    · rw [if_neg hodd, if_neg (show ¬trailingBackslashes (flagged k d p).line % 2 = 1 from hodd)]
      exact hhandle.clearLine

theorem putByte_alike (h : SameScene p q) (b : Nat) : Alike (putByte T p b) (putByte T q b) := by
  obtain ⟨k, d, rfl⟩ := h
  by_cases hroom : p.line.length < 8191
  · rw [putByte, putByte, if_pos hroom, if_pos (show (flagged k d p).line.length < 8191 from hroom)]
    exact ⟨⟨k, d, rfl⟩, fun hnil => absurd hnil (by simp)⟩
  · rw [putByte, putByte, if_neg hroom, if_neg (show ¬(flagged k d p).line.length < 8191 from hroom)]
    have hhandle : SameScene (handleLine T p p.line) (handleLine T (flagged k d p) p.line) :=
      handleLine_same ⟨k, d, rfl⟩ p.line
    refine SameScene.clearLine ?_
    obtain ⟨k', d', heq⟩ := hhandle
    exact ⟨k', d', congrArg (onStats · countMalformed) heq⟩

theorem feedByte_alike (h : Alike p q) (b : UInt8) : Alike (feedByte T p b) (feedByte T q b) := by
  obtain ⟨⟨k, d, rfl⟩, hcont⟩ := h
  by_cases heol : b.toNat = 0x0D ∨ b.toNat = 0x0A
  · rw [feedByte, feedByte, if_pos heol, if_pos heol]
    by_cases hcrlf : b.toNat = 0x0A ∧ p.lastWasCr = true
    · rw [if_pos hcrlf, if_pos (show b.toNat = 0x0A ∧ (flagged k d p).lastWasCr = true from hcrlf)]
      exact ⟨⟨k, d, rfl⟩, hcont⟩
    · rw [if_neg hcrlf,
        if_neg (show ¬(b.toNat = 0x0A ∧ (flagged k d p).lastWasCr = true) from hcrlf)]
      exact endLine_alike ⟨⟨k, d, rfl⟩, hcont⟩
  · rw [feedByte, feedByte, if_neg heol, if_neg heol]
    exact putByte_alike ⟨k, d, rfl⟩ b.toNat

theorem linesOf_alike (h : Alike p q) (bs : List UInt8) : linesOf T p bs = linesOf T q bs := by
  induction bs generalizing p q with
  | nil => rfl
  | cons b bs ih => rw [linesOf, linesOf, completedLine_alike h b, ih (feedByte_alike h b)]

theorem linesOf_append (p : RipParser) (bs bs' : List UInt8) :
    linesOf T p (bs ++ bs') = linesOf T p bs ++ linesOf T (Machine.run (feedByte T) p bs) bs' := by
  induction bs generalizing p with
  | nil => rfl
  | cons b bs ih => simp only [List.cons_append, linesOf, ih, Machine.run_cons, List.append_assoc]

theorem run_alike (h : Alike p q) (bs : List UInt8) :
    Alike (Machine.run (feedByte T) p bs) (Machine.run (feedByte T) q bs) :=
  Machine.run_rel (R := Alike) (fun _ _ b hs => feedByte_alike hs b) h bs

/-- The lines and the scene do not depend on the chunks. -/
theorem linesFed_flatten (h : Alike p q) (chunks : List (List UInt8)) :
    linesFed T p chunks = linesOf T q chunks.flatten ∧
      Alike (Machine.run (feed T) p chunks) (Machine.run (feedByte T) q chunks.flatten) := by
  induction chunks generalizing p q with
  | nil => exact ⟨rfl, h⟩
  | cons data more ih =>
      have hcall : Alike { p with drew := false } q := by
        obtain ⟨⟨k, d, rfl⟩, hcont⟩ := h
        exact ⟨⟨k, d, rfl⟩, hcont⟩
      obtain ⟨hlines, hrun⟩ := ih (run_alike hcall data)
      rw [List.flatten_cons, linesOf_append, Machine.run_append, linesFed, linesOf_alike hcall]
      exact ⟨congrArg (linesOf T q data ++ ·) hlines, hrun⟩

/-! ### Breaks -/

theorem feedByte_put {b : UInt8} (hb : ¬(b.toNat = 0x0D ∨ b.toNat = 0x0A)) (hroom : p.line.length < 8191) :
    completedLine p b = none ∧
      feedByte T p b = { p with lastWasCr := false, line := p.line ++ [b.toNat] } := by
  constructor
  · rw [completedLine, if_neg hb, if_pos hroom]
  · rw [feedByte, if_neg hb, putByte, if_pos hroom]

theorem trailingBackslashes_append (line : List Nat) :
    trailingBackslashes (line ++ [0x5C]) = trailingBackslashes line + 1 := by
  simp [trailingBackslashes]

section Backslash

variable {line : List Nat} (hline : p.line = line ++ [0x5C]) (heven : trailingBackslashes line % 2 = 0)
include hline

theorem not_empty : ¬(p.line = [] ∧ ¬p.continued) := by simp [hline]

include heven

theorem trailing_odd : trailingBackslashes p.line % 2 = 1 := by
  rw [hline, trailingBackslashes_append]
  omega

theorem endLine_continue : endLine T p = { p with line := line, continued := true } := by
  rw [endLine, if_neg (not_empty hline), if_pos (trailing_odd hline heven), hline,
    List.dropLast_concat]

/-- A line break behind the backslash takes it out. -/
theorem feedByte_continue {b : UInt8} (hb : b.toNat = 0x0D ∨ b.toNat = 0x0A)
    (hcr : p.lastWasCr = false) :
    completedLine p b = none ∧
      feedByte T p b = { p with line := line, continued := true, lastWasCr := b.toNat == 0x0D } := by
  have hcrlf : ¬(b.toNat = 0x0A ∧ p.lastWasCr = true) := by simp [hcr]
  constructor
  · rw [completedLine, if_pos hb, if_neg hcrlf, if_neg (not_empty hline),
      if_pos (trailing_odd hline heven)]
  · rw [feedByte, if_pos hb, if_neg hcrlf]
    exact endLine_continue (p := noteCr p b.toNat) hline heven

end Backslash

theorem feedByte_swallow (hcr : p.lastWasCr = true) :
    completedLine p 0x0A = none ∧ feedByte T p 0x0A = { p with lastWasCr := false } := by
  constructor
  · rw [completedLine, if_pos (by decide), if_pos ⟨by decide, hcr⟩]
  · rw [feedByte, if_pos (by decide), if_pos ⟨by decide, hcr⟩]

/-- The bytes hand nothing over and lead to a parser. -/
def Passes (T : Tables) (p : RipParser) (bs : List UInt8) (p' : RipParser) : Prop :=
  linesOf T p bs = [] ∧ Machine.run (feedByte T) p bs = p'

theorem passes_nil (p : RipParser) : Passes T p [] p := ⟨rfl, rfl⟩

theorem Passes.cons {b : UInt8} {bs : List UInt8} (hb : completedLine p b = none ∧ feedByte T p b = q)
    (h : Passes T q bs r) : Passes T p (b :: bs) r := by
  obtain ⟨hnone, rfl⟩ := hb
  refine ⟨?_, h.2⟩
  rw [linesOf, hnone, h.1]
  rfl

theorem Passes.append {bs bs' : List UInt8} (h : Passes T p bs q) (h' : Passes T q bs' r) :
    Passes T p (bs ++ bs') r := by
  obtain ⟨hnone, rfl⟩ := h
  refine ⟨?_, (Machine.run_append (feedByte T) p bs bs').trans h'.2⟩
  rw [linesOf_append, hnone, h'.1]
  rfl

/-- A break leaves the line as it was. -/
theorem break_passes (br : Option Newline) (hroom : p.line.length < 8191)
    (heven : br ≠ none → trailingBackslashes p.line % 2 = 0) :
    ∃ k r, Passes T p (breakText br) { p with continued := k, lastWasCr := r } := by
  cases br with
  | none => exact ⟨p.continued, p.lastWasCr, passes_nil p⟩
  | some n =>
      have heven := heven (Option.some_ne_none n)
      have hslash := feedByte_put (T := T) (b := 0x5C) (by decide) hroom
      have hnewline (b : UInt8) (hb : b.toNat = 0x0D ∨ b.toNat = 0x0A) :=
        feedByte_continue (T := T) (p := { p with lastWasCr := false, line := p.line ++ [0x5C] }) rfl
          heven hb rfl
      cases n with
      | cr => exact ⟨true, true, (passes_nil _).cons (hnewline 0x0D (by decide)) |>.cons hslash⟩
      | lf => exact ⟨true, false, (passes_nil _).cons (hnewline 0x0A (by decide)) |>.cons hslash⟩
      | crlf =>
          have hswallow := feedByte_swallow (T := T) (p := { p with continued := true, lastWasCr := true }) rfl
          exact ⟨true, false, ((passes_nil _).cons hswallow).cons (hnewline 0x0D (by decide)) |>.cons hslash⟩

/-- From a place in the line on, with the breaks and without. -/
theorem broken_alike {L : CommandLine} (B : Breaks L) {done bs : List UInt8}
    (hL : L.bytes = done ++ bs) (h : Alike p q) (hline : p.line = done.map UInt8.toNat) :
    ∃ p' q', Passes T p (brokenText B.before done.length bs) p' ∧ Passes T q bs q' ∧ Alike p' q' := by
  induction bs generalizing p q done with
  | nil => exact ⟨p, q, passes_nil p, passes_nil q, h⟩
  | cons b bs ih =>
      have hb := L.unbroken b (by rw [hL]; simp)
      have hlen := L.short
      rw [hL, List.length_append, List.length_cons] at hlen
      have hroom : p.line.length < 8191 := by
        rw [hline, List.length_map]
        omega
      have heven : B.before done.length ≠ none → trailingBackslashes p.line % 2 = 0 := by
        intro hbreak
        have hlt : done.length < L.bytes.length := by
          rw [hL, List.length_append, List.length_cons]
          omega
        have heven := B.even done.length hlt hbreak
        rwa [hL, List.take_left, ← hline] at heven
      obtain ⟨k, r, hbreak⟩ := break_passes (T := T) (B.before done.length) hroom heven
      have hput := feedByte_put (T := T) (p := { p with continued := k, lastWasCr := r }) hb hroom
      have hput' := feedByte_put (T := T) (p := q) hb (h.line ▸ hroom)
      have hnext : Alike { p with continued := k, lastWasCr := false, line := p.line ++ [b.toNat] }
          { q with lastWasCr := false, line := q.line ++ [b.toNat] } := by
        obtain ⟨⟨k', d, rfl⟩, _⟩ := h
        exact ⟨⟨k', d, rfl⟩, fun hnil => absurd hnil (by simp)⟩
      have hrest : L.bytes = (done ++ [b]) ++ bs := by simp [hL]
      obtain ⟨p', q', hp, hq, hlast⟩ := ih hrest hnext (by simp [hline])
      rw [List.length_append, List.length_singleton] at hp
      exact ⟨p', q', hbreak.append (hp.cons hput), hq.cons hput', hlast⟩

/-- A line that is broken hands over what it hands over unbroken, whatever follows it and however the bytes
are cut into chunks, and what it leaves behind differs in the flags alone. -/
theorem breaks_transparent (L : CommandLine) (B : Breaks L) (hempty : p.line = []) (rest : List UInt8)
    {chunks chunks' : List (List UInt8)} (hbroken : chunks.flatten = B.text ++ rest)
    (hwhole : chunks'.flatten = L.bytes ++ rest) :
    linesFed T p chunks = linesFed T p chunks' ∧
      SameScene (Machine.run (feed T) p chunks) (Machine.run (feed T) p chunks') := by
  have hsame : Alike p p := ⟨SameScene.refl p, fun _ => rfl⟩
  have hwholeLine : L.bytes = [] ++ L.bytes := (List.nil_append _).symm
  obtain ⟨p', q', hp, hq, hlast⟩ := broken_alike (T := T) B hwholeLine hsame hempty
  have hp : Passes T p B.text p' := hp
  obtain ⟨hlines, hrun⟩ := linesFed_flatten hsame (T := T) chunks
  obtain ⟨hlines', hrun'⟩ := linesFed_flatten hsame (T := T) chunks'
  rw [hbroken, linesOf_append, hp.1, hp.2] at hlines
  rw [hwhole, linesOf_append, hq.1, hq.2] at hlines'
  rw [hbroken, Machine.run_append, hp.2] at hrun
  rw [hwhole, Machine.run_append, hq.2] at hrun'
  constructor
  · rw [hlines, hlines', linesOf_alike hlast]
  · exact hrun.scene.trans ((run_alike hlast rest).scene.trans hrun'.scene.symm)

end Scene

/-- `!|c0F` -/
def colorLine : CommandLine where
  bytes := [0x21, 0x7C, 0x63, 0x30, 0x46]
  unbroken := by decide +kernel
  short := by decide

def colorBreaks : Breaks colorLine where
  before k := if k = 2 then some .crlf else if k = 4 then some .cr else none
  even := by decide

/-- A chunk ends between the CR and the LF of the first break. -/
theorem breaks_transparent_color :
    let p := init fun _ _ => 0
    let chunks := [[0x21, 0x7C, 0x5C, 0x0D], [0x0A, 0x63, 0x30, 0x5C, 0x0D, 0x46, 0x0D]]
    let chunks' := [[0x21, 0x7C, 0x63, 0x30, 0x46, 0x0D]]
    linesFed noTables p chunks' = [[0x21, 0x7C, 0x63, 0x30, 0x46]] ∧
      linesFed noTables p chunks = linesFed noTables p chunks' ∧
      SameScene (Machine.run (feed noTables) p chunks) (Machine.run (feed noTables) p chunks') :=
  ⟨by decide, breaks_transparent colorLine colorBreaks rfl [0x0D] (by decide) rfl⟩

end UnicornSuite.Rip
