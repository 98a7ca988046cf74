import UnicornSuite.LibEscapes
import UnicornSuite.RipParser

/-! The segments of a RIPscrip line. Every command finds the end of its own segment, whatever is wrong with
it, with one exception: the byte behind the level is taken for the command without a look at what it is.
Where that byte is the separator, or a backslash that belongs to an escape, the command goes on into the
next segment (`overruns`), which is lost. -/

namespace UnicornSuite.Rip

open Escapes CInt

/-- The backslash and the separator. -/
abbrev slash : Nat := 0x5C

abbrev pipe : Nat := 0x7C

/-- The segment ends where `u` begins. -/
abbrev Segment (u s : List Nat) : Prop := Cut slash pipe u s

/-! ### Finding the end -/

theorem skipUnknown_eq (l : List Nat) : skipUnknown l = skip slash pipe l := by
  fun_induction skip slash pipe l with
  | case1 => rfl
  | case2 => rfl
  | case3 c hpipe =>
      rw [skipUnknown, if_neg hpipe, skipUnknown]
      nofun
  | case4 d l ih => exact ih
  | case5 d l => rfl
  | case6 c d l hslash hpipe ih =>
      rw [skipUnknown, if_neg hpipe]
      · exact ih
      · intro d' l' hc
        exact absurd hc hslash

theorem skipUnknown_append {u s : List Nat} (h : Segment u s) : skipUnknown (s ++ u) = u := by
  rw [skipUnknown_eq]
  exact h.skip_append (by decide)

theorem skipUnknown_stop {u : List Nat} (h : Stop pipe u) : skipUnknown u = u :=
  skipUnknown_append (.nil h)

theorem skipUnknown_alone {u s : List Nat} (h : Segment u s) : skipUnknown s = [] := by
  have hskip := skipUnknown_append h.alone
  rwa [List.append_nil] at hskip

theorem takeText_plain {c : Nat} (hslash : c ≠ slash) (hpipe : c ≠ pipe) (l : List Nat) :
    takeText (c :: l) = (c :: (takeText l).1, (takeText l).2) := by
  rw [takeText]
  · exact if_neg hpipe
  · intro n l' hc
    exact absurd hc hslash

theorem takeText_append {u s : List Nat} (h : Segment u s) :
    takeText (s ++ u) = ((takeText s).1, u) := by
  induction h with
  | nil hu =>
      cases hu with
      | nil => rfl
      | sep t => rfl
  | @plain c l hslash hpipe h ih =>
      rw [List.cons_append, takeText_plain hslash hpipe, takeText_plain hslash hpipe, ih]
  | @escaped c l h ih =>
      rw [List.cons_append, List.cons_append, takeText, takeText]
      by_cases hc : c = 0x7C ∨ c = 0x21 ∨ c = 0x5C
      · rw [if_pos hc, if_pos hc, ih]
      · obtain ⟨hpipe, -, hslash⟩ := not_or.mp hc |>.imp id not_or.mp
        rw [if_neg hc, if_neg hc, takeText_plain hslash hpipe, takeText_plain hslash hpipe, ih]
  | trailing hu =>
      rw [hu]
      rfl

/-! ### The arguments -/

theorem meganum_of_not_digit {l : List Nat} {c : Nat} (hc : c ∈ l) (hdigit : megaDigit c = none)
    (v : Int) : meganum l v = -1 := by
  induction l generalizing v with
  | nil => cases hc
  | cons d l ih =>
      rw [meganum]
      rcases List.mem_cons.mp hc with rfl | hc
      · rw [hdigit]
      · split
        · exact ih hc _
        · rfl

/-- The digits of a field that is read have no meaning of their own. -/
theorem plain_of_readNum {width : Nat} {s : List Nat} {v : Int} (h : readNum width s = some v) :
    ∀ c ∈ s.take width, c ≠ slash ∧ c ≠ pipe := by
  intro c hc
  have hdigit : megaDigit c ≠ none := by
    intro hnone
    simp [readNum, meganum_of_not_digit hc hnone] at h
  constructor
  · rintro rfl
    exact hdigit (by decide)
  · rintro rfl
    exact hdigit (by decide)

/-- A field is read from its own segment or not at all. -/
theorem readNum_append {u : List Nat} (hu : Stop pipe u) (width : Nat) (s : List Nat) :
    readNum width (s ++ u) = readNum width s := by
  by_cases hlen : s.length < width
  · have hshort : readNum width s = none := if_pos hlen
    rw [hshort]
    cases hu with
    | nil =>
        rw [List.append_nil]
        exact hshort
    | sep t =>
        by_cases hline : (s ++ pipe :: t).length < width
        · exact if_pos hline
        · have hmem : pipe ∈ (s ++ pipe :: t).take width := by
            rw [List.take_append, List.take_of_length_le (by omega)]
            obtain ⟨n, hn⟩ : ∃ n, width - s.length = n + 1 := ⟨width - s.length - 1, by omega⟩
            rw [hn, List.take_succ_cons]
            exact List.mem_append_right _ List.mem_cons_self
          rw [readNum, if_neg hline, meganum_of_not_digit hmem (by decide)]
          rfl
  · have htake : (s ++ u).take width = s.take width := List.take_append_of_le_length (by omega)
    have hline : ¬ (s ++ u).length < width := by
      rw [List.length_append]
      omega
    rw [readNum, readNum, if_neg hlen, if_neg hline, htake]

/-- The reading of arguments in the line and in the segment alone: the same arguments or the same failure,
and the line goes on inside of the segment. -/
structure InStep (u : List Nat) (st st' : Args) : Prop where
  bad : st'.bad = st.bad
  read : st.bad = false → st'.a = st.a ∧ st'.pts = st.pts ∧ st'.text = st.text
  rest : ∃ s, Segment u s ∧ st'.rest = s ++ u

variable {u s : List Nat} {st st' : Args}

/-- Where both are inside of the segment and nothing is wrong. -/
theorem InStep.of_rest (hst : Segment u st.rest)
    (hsame : st' = { st with rest := st.rest ++ u }) : InStep u st st' := by
  rw [hsame]
  exact ⟨rfl, fun _ => ⟨rfl, rfl, rfl⟩, st.rest, hst, rfl⟩

/-- Behind a field. -/
theorem drop_field (hs : Segment u s) {width : Nat} {v : Int} (hv : readNum width s = some v) :
    Segment u (s.drop width) ∧ (s ++ u).drop width = s.drop width ++ u := by
  have hlen : width ≤ s.length := by
    by_contra hno
    have hshort : readNum width s = none := if_pos (by omega)
    rw [hshort] at hv
    cases hv
  exact ⟨hs.drop width (plain_of_readNum hv), List.drop_append_of_le_length hlen⟩

theorem readPoints_inStep (n : Nat) (st : Args) (hst : Segment u st.rest) :
    InStep u (readPoints n st) (readPoints n { st with rest := st.rest ++ u }) := by
  induction n generalizing st with
  | zero => exact .of_rest hst rfl
  | succ n ih =>
      rw [readPoints, readPoints, readNum_append hst.stop]
      cases hx : readNum 2 st.rest with
      | none => exact ⟨rfl, nofun, st.rest, hst, rfl⟩
      | some x =>
          obtain ⟨hst2, hdrop2⟩ := drop_field hst hx
          simp only [hdrop2]
          rw [readNum_append hst.stop]
          cases hy : readNum 2 (st.rest.drop 2) with
          | none => exact ⟨rfl, nofun, _, hst2, rfl⟩
          | some y =>
              obtain ⟨hst4, hdrop4⟩ := drop_field hst2 hy
              have hfour : (st.rest ++ u).drop 4 = st.rest.drop 4 ++ u := by
                rw [← hdrop2, List.drop_drop] at hdrop4
                rw [hdrop4, List.drop_drop]
              simp only [hfour]
              rw [List.drop_drop] at hst4
              exact ih { st with pts := st.pts ++ [(x, y)], rest := st.rest.drop 4 } hst4

/-- A list of points that is too short fails. -/
theorem readPoints_short (n : Nat) (st : Args) (hlen : st.rest.length < n * 4) :
    (readPoints n st).bad = true := by
  induction n generalizing st with
  | zero => omega
  | succ n ih =>
      rw [readPoints]
      split
      · rfl
      · next x hx =>
          split
          · rfl
          · next y hy =>
              apply ih
              have hread : 4 ≤ st.rest.length := by
                by_contra hno
                have hnone : readNum 2 (st.rest.drop 2) = none := by
                  apply if_pos
                  rw [List.length_drop]
                  omega
                rw [hnone] at hy
                cases hy
              simp only [List.length_drop]
              omega

theorem readPoly_inStep {st : Args} (hst : Segment u st.rest) :
    InStep u (readPoly st) (readPoly { st with rest := st.rest ++ u }) := by
  rw [readPoly, readPoly, readNum_append hst.stop]
  cases hv : readNum 2 st.rest with
  | none => exact ⟨rfl, nofun, st.rest, hst, rfl⟩
  | some v =>
      obtain ⟨hst2, hdrop2⟩ := drop_field hst hv
      simp only [hdrop2]
      generalize (if v > 512 then 512 else v.toNat) = n
      have hpoints := readPoints_inStep n { st with rest := st.rest.drop 2 } hst2
      by_cases hlen : (st.rest.drop 2).length < n * 4
      · rw [if_pos hlen]
        by_cases hline : (st.rest.drop 2 ++ u).length < n * 4
        · rw [if_pos hline]
          exact ⟨rfl, nofun, _, hst2, rfl⟩
        · rw [if_neg hline]
          have hbad := readPoints_short n { st with rest := st.rest.drop 2 } hlen
          exact ⟨hpoints.bad.trans hbad, nofun, hpoints.rest⟩
      · have hline : ¬ (st.rest.drop 2 ++ u).length < n * 4 := by
          rw [List.length_append]
          omega
        rw [if_neg hlen, if_neg hline]
        exact hpoints

theorem readText_inStep {st : Args} (hst : Segment u st.rest) :
    InStep u (readText st) (readText { st with rest := st.rest ++ u }) := by
  rw [readText, readText, takeText_append hst]
  exact ⟨rfl, fun _ => ⟨rfl, rfl, rfl⟩, [], .nil hst.stop, rfl⟩

theorem readArgs_inStep (layout : List Arg) (st : Args) (hst : Segment u st.rest) :
    InStep u (readArgs layout st) (readArgs layout { st with rest := st.rest ++ u }) := by
  induction layout generalizing st with
  | nil => exact .of_rest hst rfl
  | cons arg more ih =>
      cases arg with
      | text => exact readText_inStep hst
      | poly => exact readPoly_inStep hst
      | num width =>
          rw [readArgs, readArgs, readNum_append hst.stop]
          cases hv : readNum width st.rest with
          | none => exact ⟨rfl, nofun, st.rest, hst, rfl⟩
          | some v =>
              obtain ⟨hdrop, hrest⟩ := drop_field hst hv
              simp only [hrest]
              exact ih { st with a := st.a ++ [v], rest := st.rest.drop width } hdrop

/-- A command ends with its segment, and is the command it is on its own. -/
theorem finishCommand_append (hs : Segment u s) (level : List Nat) (cmd : Nat) (layout : List Arg) :
    finishCommand level cmd (readArgs layout { rest := s ++ u }) =
      ((finishCommand level cmd (readArgs layout { rest := s })).1, u) := by
  have hargs := readArgs_inStep layout { rest := s } hs
  obtain ⟨s', hs', hrest⟩ := hargs.rest
  rw [finishCommand, finishCommand]
  cases hbad : (readArgs layout { rest := s }).bad with
  | true =>
      rw [if_pos (hargs.bad.trans hbad), hrest, skipUnknown_append hs', skipUnknown_stop hs.stop]
      rfl
  | false =>
      obtain ⟨ha, hpts, htext⟩ := hargs.read hbad
      rw [if_neg (by rw [hargs.bad, hbad]; decide), hrest, skipUnknown_append hs', ha, hpts, htext]
      rfl

theorem finishCommand_alone (hs : Segment u s) (level : List Nat) (cmd : Nat) (layout : List Arg) :
    (finishCommand level cmd (readArgs layout { rest := s })).2 = [] := by
  have halone := finishCommand_append hs.alone level cmd layout
  rw [List.append_nil] at halone
  exact congrArg Prod.snd halone

/-! ### Rounds of the loop -/

theorem skipUnknown_length_le (l : List Nat) : (skipUnknown l).length ≤ l.length := by
  fun_induction skipUnknown l with
  | case1 => exact Nat.le_refl _
  | case2 d l ih =>
      simp only [List.length_cons]
      omega
  | case3 => exact Nat.le_refl _
  | case4 c l _ _ ih =>
      rw [List.length_cons]
      omega

theorem takeText_length_le (l : List Nat) : (takeText l).2.length ≤ l.length := by
  fun_induction takeText l with
  | case1 => exact Nat.le_refl _
  | case2 n l _ ih =>
      simp only [List.length_cons]
      omega
  | case3 n l _ ih =>
      simp only [List.length_cons] at ih ⊢
      omega
  | case4 => exact Nat.le_refl _
  | case5 c l _ _ ih =>
      simp only [List.length_cons]
      omega

theorem readPoints_length_le (n : Nat) (st : Args) : (readPoints n st).rest.length ≤ st.rest.length := by
  induction n generalizing st with
  | zero => exact Nat.le_refl _
  | succ n ih =>
      rw [readPoints]
      split
      · exact Nat.le_refl _
      · split
        · exact (List.length_drop ..).trans_le (Nat.sub_le ..)
        · exact (ih _).trans ((List.length_drop ..).trans_le (Nat.sub_le ..))

theorem readArgs_length_le (layout : List Arg) (st : Args) :
    (readArgs layout st).rest.length ≤ st.rest.length := by
  induction layout generalizing st with
  | nil => exact Nat.le_refl _
  | cons arg more ih =>
      cases arg with
      | text => exact takeText_length_le _
      | poly =>
          have hdrop : (st.rest.drop 2).length ≤ st.rest.length := by
            rw [List.length_drop]
            omega
          rw [readArgs, readPoly]
          split
          · exact Nat.le_refl _
          · extract_lets n st2
            split
            · exact hdrop
            · exact (readPoints_length_le _ _).trans hdrop
      | num width =>
          rw [readArgs]
          split
          · exact Nat.le_refl _
          · exact (ih _).trans ((List.length_drop ..).trans_le (Nat.sub_le ..))

theorem finishCommand_length_le (level : List Nat) (cmd : Nat) (st : Args) :
    (finishCommand level cmd st).2.length ≤ st.rest.length := by
  rw [finishCommand]
  split
  · exact (skipUnknown_length_le _).trans (skipUnknown_length_le _)
  · exact skipUnknown_length_le _

theorem command_length_le (level : List Nat) (cmd : Nat) (layout : List Arg) (l : List Nat) :
    (finishCommand level cmd (readArgs layout { rest := l })).2.length ≤ l.length := by
  calc (finishCommand level cmd (readArgs layout { rest := l })).2.length
      ≤ (readArgs layout { rest := l }).rest.length := finishCommand_length_le _ _ _
    _ ≤ l.length := readArgs_length_le layout { rest := l }

/-- A round for every byte is enough. -/
theorem lineCommands_fuel {n m : Nat} {body : List Nat} (hn : body.length ≤ n) (hm : body.length ≤ m) :
    lineCommands n body = lineCommands m body := by
  induction n generalizing m body with
  | zero =>
      rw [List.length_eq_zero_iff.mp (Nat.le_zero.mp hn)]
      cases m <;> rfl
  | succ n ih =>
      cases body with
      | nil => cases m <;> rfl
      | cons c rest =>
          rw [List.length_cons] at hn hm
          obtain ⟨m, rfl⟩ : ∃ k, m = k + 1 := ⟨m - 1, by omega⟩
          rw [lineCommands, lineCommands]
          split_ifs
          · exact ih (by omega) (by omega)
          · rfl
          · extract_lets level
            have hdrop : (rest.drop level.length).length ≤ rest.length := by
              rw [List.length_drop]
              omega
            cases hcmd : rest.drop level.length with
            | nil => rfl
            | cons cmd more =>
                rw [hcmd, List.length_cons] at hdrop
                simp only
                cases hfind : findCmd level cmd with
                | none =>
                    have hskip := skipUnknown_length_le more
                    simp only
                    rw [ih (m := m) (by omega) (by omega)]
                | some layout =>
                    have hrest := command_length_le level cmd layout more
                    simp only
                    rw [ih (m := m) (by omega) (by omega)]

/-! ### The commands that are executed -/

def Command.isExec : Command → Bool
  | .exec .. => true
  | _ => false

/-- The commands that a body executes, with their arguments. -/
def executed (body : List Nat) : List Command :=
  (lineCommands body.length body).filter Command.isExec

theorem findCmd_slash (level : List Nat) : findCmd level slash = none := by
  rw [findCmd, Option.map_eq_none_iff, List.find?_eq_none]
  intro d hd hmatch
  have hcmd : ∀ d ∈ cmds, d.2.1 ≠ slash := by decide
  exact hcmd d hd (by simpa using (Bool.and_eq_true_iff.mp hmatch).1)

theorem findCmd_pipe (level : List Nat) : findCmd level pipe = none := by
  rw [findCmd, Option.map_eq_none_iff, List.find?_eq_none]
  intro d hd hmatch
  have hcmd : ∀ d ∈ cmds, d.2.1 ≠ pipe := by decide
  exact hcmd d hd (by simpa using (Bool.and_eq_true_iff.mp hmatch).1)

theorem filter_lineCommands {n : Nat} {body : List Nat} (hn : body.length ≤ n) :
    (lineCommands n body).filter Command.isExec = executed body := by
  rw [executed, lineCommands_fuel hn (Nat.le_refl _)]

/-- A body whose level takes everything there is. -/
theorem executed_truncated {rest : List Nat} (h : rest.drop (levelOf rest).length = []) :
    executed (pipe :: rest) = [] := by
  rw [executed, List.length_cons, lineCommands, if_neg (by decide)]
  split
  · rfl
  · simp only [h]
    rfl

/-- There is something behind the separator, and it gets shorter. -/
theorem behind_level {rest more : List Nat} {cmd : Nat}
    (h : rest.drop (levelOf rest).length = cmd :: more) : rest ≠ [] ∧ more.length < rest.length := by
  constructor
  · rintro rfl
    cases h
  · have hdrop := congrArg List.length h
    rw [List.length_drop, List.length_cons] at hdrop
    omega

theorem executed_unknown {rest more : List Nat} {cmd : Nat}
    (h : rest.drop (levelOf rest).length = cmd :: more) (hfind : findCmd (levelOf rest) cmd = none) :
    executed (pipe :: rest) = executed (skipUnknown more) := by
  obtain ⟨hne, hlen⟩ := behind_level h
  have hskip := skipUnknown_length_le more
  rw [executed, List.length_cons, lineCommands, if_neg (by decide), if_neg hne]
  simp only [h, hfind]
  rw [List.filter_cons_of_neg (by decide), filter_lineCommands (by omega)]

theorem executed_command {rest more : List Nat} {cmd : Nat} {layout : List Arg}
    (h : rest.drop (levelOf rest).length = cmd :: more)
    (hfind : findCmd (levelOf rest) cmd = some layout) :
    executed (pipe :: rest) =
      [(finishCommand (levelOf rest) cmd (readArgs layout { rest := more })).1].filter Command.isExec ++
        executed (finishCommand (levelOf rest) cmd (readArgs layout { rest := more })).2 := by
  obtain ⟨hne, hlen⟩ := behind_level h
  have hfinish := command_length_le (levelOf rest) cmd layout more
  rw [executed, List.length_cons, lineCommands, if_neg (by decide), if_neg hne]
  simp only [h, hfind]
  rw [← filter_lineCommands (hfinish.trans hlen.le), ← List.filter_append]
  rfl

/-! ### Segments that overrun -/

/-- The level of a segment does not depend on what comes behind it. -/
theorem levelOf_append (hu : Stop pipe u) (s : List Nat) : levelOf (s ++ u) = levelOf s := by
  cases s with
  | nil =>
      cases hu with
      | nil => rfl
      | sep t => rfl
  | cons c s =>
      have hstop : (u.take (9 - (c :: s).length)).takeWhile isDigit = [] := by
        cases hu with
        | nil => rw [List.take_nil, List.takeWhile_nil]
        | sep t =>
            cases 9 - (c :: s).length with
            | zero => rfl
            | succ n => rfl
      have hdigits : ((c :: s ++ u).take 9).takeWhile isDigit =
          ((c :: s).take 9).takeWhile isDigit := by
        rw [List.take_append, List.takeWhile_append, hstop, List.append_nil]
        split
        · next hall => exact (List.takeWhile_prefix _).eq_of_length hall |>.symm
        · rfl
      unfold levelOf
      simp only [List.cons_append] at hdigits ⊢
      rw [hdigits]

theorem levelOf_take (s : List Nat) : s.take (levelOf s).length = levelOf s := by
  have hpre : levelOf s <+: s := by
    unfold levelOf
    split
    · split
      · exact (List.takeWhile_prefix _).trans (List.take_prefix _ _)
      · exact List.nil_prefix
    · exact List.nil_prefix
  exact (List.prefix_iff_eq_take.mp hpre).symm

theorem levelOf_plain (s : List Nat) : ∀ c ∈ levelOf s, c ≠ slash ∧ c ≠ pipe := by
  intro c hc
  have hdigit : isDigit c = true := by
    unfold levelOf at hc
    split at hc
    · split at hc
      · exact List.all_eq_true.mp List.all_takeWhile c hc
      · cases hc
    · cases hc
  simp only [isDigit, decide_eq_true_eq] at hdigit
  exact ⟨by simp only [slash]; omega, by simp only [pipe]; omega⟩

/-- A segment without its level. -/
abbrev afterLevel (s : List Nat) : List Nat := s.drop (levelOf s).length

theorem afterLevel_cut (hs : Segment u s) : Segment u (afterLevel s) :=
  hs.drop _ fun c hc => levelOf_plain s c (by rwa [levelOf_take] at hc)

theorem afterLevel_append (hu : Stop pipe u) (s : List Nat) :
    (s ++ u).drop (levelOf (s ++ u)).length = afterLevel s ++ u := by
  have hlen : (levelOf s).length ≤ s.length := by
    rw [← levelOf_take s, List.length_take]
    exact Nat.min_le_right ..
  rw [levelOf_append hu, List.drop_append_of_le_length hlen]

/-- The backslashes a text begins with, and what comes behind them. -/
abbrev slashes (l : List Nat) : Nat := (l.takeWhile (· = slash)).length

abbrev behindSlashes (l : List Nat) : List Nat := l.dropWhile (· = slash)

theorem behindSlashes_length_le (s : List Nat) :
    (behindSlashes (afterLevel s)).length ≤ s.length := by
  have hbehind : (behindSlashes (afterLevel s)).length ≤ (afterLevel s).length :=
    (List.dropWhile_suffix _).length_le
  have hdrop : (afterLevel s).length = s.length - (levelOf s).length := List.length_drop ..
  omega

/-- The segment takes the separator behind it: there is nothing behind its level but pairs of backslashes,
or an escaped separator splits it and what is behind that overruns. -/
def overruns (s : List Nat) : Bool :=
  match _h : behindSlashes (afterLevel s) with
  | [] => slashes (afterLevel s) % 2 = 0
  | c :: t => slashes (afterLevel s) % 2 = 1 && c = pipe && overruns t
termination_by s.length
decreasing_by
  have hle := behindSlashes_length_le s
  rw [_h, List.length_cons] at hle
  omega

/-- The segment executes a command: it is one of the table and its fields are all there, or an escaped
separator splits it and what is behind that executes one. -/
def runs (s : List Nat) : Bool :=
  match afterLevel s with
  | [] => false
  | cmd :: rest =>
      match findCmd (levelOf s) cmd with
      | some layout => ! (readArgs layout { rest := rest }).bad
      | none =>
          match _h : behindSlashes (afterLevel s) with
          | [] => false
          | c :: t => slashes (afterLevel s) % 2 = 1 && c = pipe && runs t
termination_by s.length
decreasing_by
  have hle := behindSlashes_length_le s
  rw [_h, List.length_cons] at hle
  omega

/-- What a segment leaves of the line when it overruns. -/
def swallow : List Nat → List Nat
  | [] => []
  | _ :: t => skipUnknown t

/-- What skipping does behind a backslash that was taken for the command. -/
inductive Shift (u l : List Nat) : Prop
  /-- An escaped separator is none. -/
  | splits (t : List Nat) (ht : Segment u t) (hl : behindSlashes (slash :: l) = pipe :: t)
      (hodd : slashes (slash :: l) % 2 = 1) (halone : skipUnknown l = pipe :: t)
      (hline : skipUnknown (l ++ u) = pipe :: (t ++ u))
  /-- The separator of the next segment is escaped. -/
  | swallows (hl : behindSlashes (slash :: l) = []) (heven : slashes (slash :: l) % 2 = 0)
      (halone : skipUnknown l = []) (hline : skipUnknown (l ++ u) = swallow u)
  | stops (hover : behindSlashes (slash :: l) = [] → slashes (slash :: l) % 2 = 1)
      (hsplit : ∀ t, behindSlashes (slash :: l) = pipe :: t → slashes (slash :: l) % 2 = 0)
      (halone : skipUnknown l = []) (hline : skipUnknown (l ++ u) = u)

/-- An escaped character that is neither a backslash nor the separator. -/
theorem shift_of_plain {d : Nat} {l : List Nat} (hpipe : d ≠ pipe) (hslash : d ≠ slash)
    (h : Segment u l) : Shift u (d :: l) := by
  have hskip : ∀ l', skipUnknown (d :: l') = skipUnknown l' := by
    intro l'
    rw [skipUnknown, if_neg hpipe]
    intro e l'' hd
    exact absurd hd hslash
  have hbehind : behindSlashes (slash :: d :: l) = d :: l := by
    simp [behindSlashes, hslash]
  refine .stops ?_ ?_ ?_ ?_
  · rw [hbehind]
    nofun
  · intro t ht
    rw [hbehind] at ht
    exact absurd (List.cons.inj ht).1 hpipe
  · rw [hskip]
    exact skipUnknown_alone h
  · rw [List.cons_append, hskip]
    exact skipUnknown_append h

/-- An escaped backslash in front of a plain character. -/
theorem shift_of_pair {x : Nat} {l : List Nat} (hx : x ≠ slash) (h : Segment u l) :
    Shift u (slash :: x :: l) := by
  have hbehind : behindSlashes (slash :: slash :: x :: l) = x :: l := by
    simp [behindSlashes, hx]
  have hslashes : slashes (slash :: slash :: x :: l) = 2 := by
    simp [slashes, hx]
  have halone : skipUnknown (slash :: x :: l) = [] :=
    show skipUnknown l = [] from skipUnknown_alone h
  have hline : skipUnknown (slash :: x :: l ++ u) = u :=
    show skipUnknown (l ++ u) = u from skipUnknown_append h
  refine .stops ?_ ?_ halone hline
  · rw [hbehind]
    nofun
  · intro t _
    rw [hslashes]

/-- Two more backslashes change neither the parity nor what is behind them. -/
theorem Shift.pair {x : Nat} {l : List Nat} (h : Shift u (x :: l)) :
    Shift u (slash :: slash :: x :: l) := by
  have hparity : slashes (slash :: slash :: slash :: x :: l) = slashes (slash :: x :: l) + 2 := by
    simp [slashes]
  cases h with
  | splits t ht hl hodd halone hline =>
      exact .splits t ht hl (by rw [hparity]; omega) halone hline
  | swallows hl heven halone hline =>
      exact .swallows hl (by rw [hparity]; omega) halone hline
  | stops hover hsplit halone hline =>
      refine .stops ?_ ?_ halone hline
      · intro hb
        have hodd := hover hb
        rw [hparity]
        omega
      · intro t hb
        have heven := hsplit t hb
        rw [hparity]
        omega

theorem shift_of_segment {l : List Nat} (h : Segment u (slash :: l)) : Shift u l := by
  induction hn : l.length using Nat.strong_induction_on generalizing l with
  | _ n ih =>
    subst hn
    cases h with
    | plain hslash => exact absurd rfl hslash
    | trailing hu =>
        rw [hu]
        exact .stops (fun _ => rfl) nofun rfl rfl
    | @escaped d l h =>
        by_cases hpipe : d = pipe
        · subst hpipe
          exact .splits l h rfl rfl rfl rfl
        · by_cases hslash : d = slash
          · subst hslash
            cases h with
            | nil hu =>
                refine .swallows rfl rfl rfl ?_
                cases hu with
                | nil => rfl
                | sep t => rfl
            | plain hx _ h => exact shift_of_pair hx h
            | @escaped x l h =>
                have hshorter : (x :: l).length < (slash :: slash :: x :: l).length := by
                  simp only [List.length_cons]
                  omega
                exact (ih (x :: l).length hshorter (.escaped x h) rfl).pair
            | trailing hu =>
                rw [hu]
                exact .stops (fun _ => rfl) nofun rfl rfl
          · exact shift_of_plain hpipe hslash h

theorem overruns_nil (h : behindSlashes (afterLevel s) = []) :
    overruns s = decide (slashes (afterLevel s) % 2 = 0) := by
  rw [overruns]
  split
  · rfl
  · next hcons => exact nomatch h.symm.trans hcons

theorem overruns_cons {c : Nat} {t : List Nat} (h : behindSlashes (afterLevel s) = c :: t) :
    overruns s = (decide (slashes (afterLevel s) % 2 = 1) && decide (c = pipe) && overruns t) := by
  rw [overruns]
  split
  · next hnil => exact nomatch h.symm.trans hnil
  · next c' t' hcons =>
      obtain ⟨rfl, rfl⟩ := List.cons.inj (hcons.symm.trans h)
      rfl

theorem split_length_lt {c : Nat} {t : List Nat} (h : behindSlashes (afterLevel s) = c :: t) :
    t.length < s.length := by
  have hle := behindSlashes_length_le s
  rw [h, List.length_cons] at hle
  omega

/-- Without an escaped separator nothing is split. -/
theorem not_split {l t : List Nat} {c : Nat}
    (hsplit : ∀ t, behindSlashes l = pipe :: t → slashes l % 2 = 0) (hb : behindSlashes l = c :: t) :
    (decide (slashes l % 2 = 1) && decide (c = pipe)) = false := by
  by_cases hc : c = pipe
  · rw [hsplit t (hc ▸ hb)]
    rfl
  · rw [decide_eq_false hc, Bool.and_false]

section

variable {l : List Nat} (hcmd : afterLevel s = slash :: l)

include hcmd

theorem overruns_splits {t : List Nat} (hl : behindSlashes (slash :: l) = pipe :: t)
    (hodd : slashes (slash :: l) % 2 = 1) : overruns s = overruns t := by
  rw [overruns_cons (by rw [hcmd]; exact hl), hcmd, hodd, decide_eq_true rfl, decide_eq_true rfl,
    Bool.true_and, Bool.true_and]

theorem overruns_swallows (hl : behindSlashes (slash :: l) = [])
    (heven : slashes (slash :: l) % 2 = 0) : overruns s = true := by
  rw [overruns_nil (by rw [hcmd]; exact hl), hcmd, heven]
  rfl

theorem overruns_stops (hover : behindSlashes (slash :: l) = [] → slashes (slash :: l) % 2 = 1)
    (hsplit : ∀ t, behindSlashes (slash :: l) = pipe :: t → slashes (slash :: l) % 2 = 0) :
    overruns s = false := by
  rw [← hcmd] at hover hsplit
  cases hb : behindSlashes (afterLevel s) with
  | nil =>
      rw [overruns_nil hb, hover hb]
      rfl
  | cons c t => rw [overruns_cons hb, not_split hsplit hb, Bool.false_and]

end

/-- A segment whose command is no backslash overruns only when it has no command. -/
theorem overruns_of_ne {cmd : Nat} {rest : List Nat} (h : afterLevel s = cmd :: rest)
    (hcmd : cmd ≠ slash) : overruns s = false := by
  have hbehind : behindSlashes (afterLevel s) = cmd :: rest := by
    rw [h]
    simp [behindSlashes, hcmd]
  have hslashes : slashes (afterLevel s) = 0 := by
    rw [h]
    simp [slashes, hcmd]
  rw [overruns_cons hbehind, hslashes]
  rfl

theorem runs_unknown {cmd : Nat} {rest : List Nat} (h : afterLevel s = cmd :: rest)
    (hfind : findCmd (levelOf s) cmd = none) :
    runs s = match behindSlashes (afterLevel s) with
      | [] => false
      | c :: t => decide (slashes (afterLevel s) % 2 = 1) && decide (c = pipe) && runs t := by
  rw [runs]
  split
  · next hnil => exact nomatch h.symm.trans hnil
  · next cmd' rest' hcons =>
      obtain ⟨rfl, rfl⟩ := List.cons.inj (hcons.symm.trans h)
      rw [hfind]
      simp only
      split
      · next hb => rw [hb]
      · next hb => rw [hb]

theorem runs_command {cmd : Nat} {rest : List Nat} {layout : List Arg}
    (h : afterLevel s = cmd :: rest) (hfind : findCmd (levelOf s) cmd = some layout) :
    runs s = ! (readArgs layout { rest := rest }).bad := by
  rw [runs]
  split
  · next hnil => exact nomatch h.symm.trans hnil
  · next cmd' rest' hcons =>
      obtain ⟨rfl, rfl⟩ := List.cons.inj (hcons.symm.trans h)
      rw [hfind]

/-! ### A line and its segments -/

/-- A segment in front of a line: its own commands, and those of what it leaves. -/
theorem executed_append (hs : Segment u s) :
    executed (pipe :: (s ++ u)) =
      executed (pipe :: s) ++ executed (if overruns s then swallow u else u) := by
  induction hn : s.length using Nat.strong_induction_on generalizing s with
  | _ n ih =>
    subst hn
    have hafter := afterLevel_append hs.stop s
    have hcut := afterLevel_cut hs
    cases hcmd : afterLevel s with
    | nil =>
        have halone : executed (pipe :: s) = [] := executed_truncated hcmd
        have hover : overruns s = true := by
          rw [overruns_nil (by rw [hcmd]; rfl), hcmd]
          rfl
        rw [halone, if_pos hover, List.nil_append]
        rw [hcmd, List.nil_append] at hafter
        cases hs.stop with
        | nil => exact executed_truncated hafter
        | sep t => exact executed_unknown hafter (findCmd_pipe _)
    | cons cmd rest =>
        rw [hcmd] at hafter hcut
        rw [List.cons_append] at hafter
        by_cases hslash : cmd = slash
        · subst hslash
          have halone : executed (pipe :: s) = executed (skipUnknown rest) :=
            executed_unknown hcmd (findCmd_slash _)
          have hline : executed (pipe :: (s ++ u)) = executed (skipUnknown (rest ++ u)) :=
            executed_unknown hafter (findCmd_slash _)
          rw [halone, hline]
          cases shift_of_segment hcut with
          | splits t ht hl hodd hskip hskip' =>
              have hshort : t.length < s.length := split_length_lt (by rw [hcmd]; exact hl)
              rw [hskip, hskip', overruns_splits hcmd hl hodd]
              exact ih t.length hshort ht rfl
          | swallows hl heven hskip hskip' =>
              rw [hskip, hskip', if_pos (overruns_swallows hcmd hl heven)]
              rfl
          | stops hover hsplit hskip hskip' =>
              rw [hskip, hskip', overruns_stops hcmd hover hsplit]
              rfl
        · have hmore : Segment u rest := hcut.tail hslash
          rw [overruns_of_ne hcmd hslash]
          simp only [Bool.false_eq_true, if_false]
          cases hfind : findCmd (levelOf s) cmd with
          | none =>
              have hfind' : findCmd (levelOf (s ++ u)) cmd = none := by rwa [levelOf_append hs.stop]
              rw [executed_unknown hcmd hfind, executed_unknown hafter hfind', skipUnknown_alone hmore,
                skipUnknown_append hmore]
              rfl
          | some layout =>
              have hfind' : findCmd (levelOf (s ++ u)) cmd = some layout := by
                rwa [levelOf_append hs.stop]
              rw [executed_command hcmd hfind, executed_command hafter hfind', levelOf_append hs.stop,
                finishCommand_append hmore, finishCommand_alone hmore]
              simp only [executed, List.length_nil, lineCommands, List.filter_nil, List.append_nil]

/-- A segment executes something exactly when it runs. -/
theorem executed_eq_nil_iff (hs : Segment u s) : executed (pipe :: s) = [] ↔ runs s = false := by
  induction hn : s.length using Nat.strong_induction_on generalizing u s with
  | _ n ih =>
    subst hn
    have hcut := afterLevel_cut hs
    cases hcmd : afterLevel s with
    | nil =>
        have hruns : runs s = false := by
          rw [runs]
          split
          · rfl
          · next hcons => exact nomatch hcmd.symm.trans hcons
        exact iff_of_true (executed_truncated hcmd) hruns
    | cons cmd rest =>
        rw [hcmd] at hcut
        cases hfind : findCmd (levelOf s) cmd with
        | some layout =>
            have hslash : cmd ≠ slash := by
              rintro rfl
              rw [findCmd_slash] at hfind
              cases hfind
            have hmore : Segment u rest := hcut.tail hslash
            rw [executed_command hcmd hfind, finishCommand_alone hmore, runs_command hcmd hfind,
              finishCommand]
            cases (readArgs layout { rest := rest }).bad with
            | true => exact iff_of_true rfl rfl
            | false => exact iff_of_false nofun nofun
        | none =>
            rw [executed_unknown hcmd hfind, runs_unknown hcmd hfind, hcmd]
            by_cases hslash : cmd = slash
            · subst hslash
              cases shift_of_segment hcut with
              | splits t ht hl hodd hskip _ =>
                  have hshort : t.length < s.length := split_length_lt (by rw [hcmd]; exact hl)
                  rw [hskip, hl, hodd]
                  simpa using ih t.length hshort ht rfl
              | swallows hl _ hskip _ =>
                  rw [hskip, hl]
                  exact iff_of_true rfl rfl
              | stops _ hsplit hskip _ =>
                  rw [hskip]
                  refine iff_of_true rfl ?_
                  split
                  · rfl
                  · next c t hb => rw [not_split hsplit hb, Bool.false_and]
            · have hmore : Segment u rest := hcut.tail hslash
              have hbehind : behindSlashes (cmd :: rest) = cmd :: rest := by
                simp [behindSlashes, hslash]
              have hslashes : slashes (cmd :: rest) = 0 := by
                simp [slashes, hslash]
              rw [skipUnknown_alone hmore, hbehind, hslashes]
              exact iff_of_true rfl rfl

/-- The segments that a line loses: those directly behind one that overruns, from the left; a lost segment
overruns nothing. -/
def swallowed : List (List Nat) → List (List Nat)
  | [] => []
  | [_] => []
  | s :: t :: ss => if overruns s then t :: swallowed ss else swallowed (t :: ss)

/-- The segments that are left. -/
def kept : List (List Nat) → List (List Nat)
  | [] => []
  | [s] => [s]
  | s :: t :: ss => if overruns s then s :: kept ss else s :: kept (t :: ss)

theorem executed_rows {ss : List (List Nat)} (h : Cuts slash pipe ss) :
    executed (rows pipe ss) = (kept ss).flatMap fun s => executed (pipe :: s) := by
  fun_induction kept ss with
  | case1 => rfl
  | case2 s =>
      rw [rows_cons, rows_nil, List.append_nil, List.flatMap_singleton]
  | case3 s t ss hover ih =>
      have hrest : swallow (rows pipe (t :: ss)) = rows pipe ss := skipUnknown_append h.2.1
      rw [rows_cons, executed_append h.1, if_pos hover, hrest, ih h.2.2, List.flatMap_cons]
  | case4 s t ss hover ih =>
      rw [rows_cons, executed_append h.1, if_neg hover, ih h.2, List.flatMap_cons]

theorem mem_swallowed {ss : List (List Nat)} {s : List Nat} (h : s ∈ swallowed ss) : s ∈ ss := by
  fun_induction swallowed ss with
  | case1 => exact h
  | case2 => cases h
  | case3 a t ss _ ih =>
      rcases List.mem_cons.mp h with rfl | h
      · exact List.mem_cons_of_mem _ List.mem_cons_self
      · exact List.mem_cons_of_mem _ (List.mem_cons_of_mem _ (ih h))
  | case4 a t ss _ ih => exact List.mem_cons_of_mem _ (ih h)

/-- What is left and what is lost make up the line. -/
theorem length_flatMap_kept (f : List Nat → List Command) (ss : List (List Nat)) :
    (ss.flatMap f).length = ((kept ss).flatMap f).length + ((swallowed ss).flatMap f).length := by
  fun_induction kept ss with
  | case1 => rfl
  | case2 s => rfl
  | case3 s t ss hover ih =>
      rw [swallowed, if_pos hover]
      simp only [List.flatMap_cons, List.length_append] at ih ⊢
      omega
  | case4 s t ss hover ih =>
      rw [swallowed, if_neg hover]
      simp only [List.flatMap_cons, List.length_append] at ih ⊢
      omega

theorem flatMap_kept {f : List Nat → List Command} {ss : List (List Nat)}
    (h : ∀ s ∈ swallowed ss, f s = []) : (kept ss).flatMap f = ss.flatMap f := by
  fun_induction kept ss with
  | case1 => rfl
  | case2 s => rfl
  | case3 s t ss hover ih =>
      rw [swallowed, if_pos hover] at h
      have ht := h t List.mem_cons_self
      rw [List.flatMap_cons, List.flatMap_cons, List.flatMap_cons, ht, List.nil_append,
        ih fun s hs => h s (List.mem_cons_of_mem _ hs)]
  | case4 s t ss hover ih =>
      rw [swallowed, if_neg hover] at h
      rw [List.flatMap_cons, ih h]
      rfl

theorem cut_of_mem {ss : List (List Nat)} (h : Cuts slash pipe ss) {s : List Nat} (hs : s ∈ ss) :
    ∃ u, Segment u s := by
  induction ss with
  | nil => cases hs
  | cons t ss ih =>
      rcases List.mem_cons.mp hs with rfl | hs
      · exact ⟨_, h.1⟩
      · exact ih h.2 hs

/-- The segments of a line: what stands between the unescaped separators of its body; a line of raw text
has none. -/
def segmentsOf (line : List Nat) : List (List Nat) :=
  match commandBody line with
  | some (_ :: rest) => split slash pipe rest
  | _ => []

/-- A segment on a line of its own. -/
def ownLine (s : List Nat) : List Nat := 0x21 :: pipe :: s

theorem markedBody_pipe {line body : List Nat} (h : markedBody line = some body) :
    ∃ rest, body = pipe :: rest := by
  fun_induction markedBody line with
  | case1 c rest _ => exact ⟨rest, (Option.some.inj h).symm⟩
  | case2 c rest _ ih => exact ih h
  | case3 c rest _ ih => exact ih h
  | case4 => cases h

theorem commandBody_pipe {line body : List Nat} (h : commandBody line = some body) :
    ∃ rest, body = pipe :: rest := by
  unfold commandBody at h
  split at h
  · next rest => exact ⟨rest, (Option.some.inj h).symm⟩
  · exact markedBody_pipe h

/-- The commands of a line that are executed. -/
def executedOf (line : List Nat) : List Command := (commandsOf line).filter Command.isExec

/-- A line executes what its segments execute on their own, in order, exactly when no segment that executes
something stands behind one that overruns. -/
theorem segments_independent (line : List Nat) :
    executedOf line = (segmentsOf line).flatMap (fun s => executedOf (ownLine s)) ↔
      ∀ s ∈ swallowed (segmentsOf line), runs s = false := by
  have hown : (fun s => executedOf (ownLine s)) = fun s => executed (pipe :: s) := rfl
  rw [hown]
  cases hbody : commandBody line with
  | none =>
      have hsegments : segmentsOf line = [] := by rw [segmentsOf, hbody]
      have hexec : executedOf line = [] := by rw [executedOf, commandsOf, hbody]; rfl
      rw [hsegments, hexec]
      exact iff_of_true rfl nofun
  | some body =>
      obtain ⟨rest, rfl⟩ := commandBody_pipe hbody
      have hsegments : segmentsOf line = split slash pipe rest := by rw [segmentsOf, hbody]
      have hcuts : Cuts slash pipe (split slash pipe rest) := cuts_split rest
      have hexec : executedOf line =
          (kept (split slash pipe rest)).flatMap fun s => executed (pipe :: s) := by
        rw [← executed_rows hcuts, rows_split, executedOf, commandsOf, hbody, executed]
      rw [hsegments, hexec]
      constructor
      · intro heq s hs
        have hlen := length_flatMap_kept (fun s => executed (pipe :: s)) (split slash pipe rest)
        rw [heq] at hlen
        have hnone : ((swallowed (split slash pipe rest)).flatMap fun s => executed (pipe :: s)) = [] :=
          List.length_eq_zero_iff.mp (by omega)
        obtain ⟨u, hu⟩ := cut_of_mem hcuts (mem_swallowed hs)
        exact (executed_eq_nil_iff hu).mp (List.flatMap_eq_nil_iff.mp hnone s hs)
      · intro hruns
        apply flatMap_kept
        intro s hs
        obtain ⟨u, hu⟩ := cut_of_mem hcuts (mem_swallowed hs)
        exact (executed_eq_nil_iff hu).mpr (hruns s hs)

/-- `!||m0102`: the empty segment takes the move that follows. -/
theorem empty_segment_swallows :
    executedOf [0x21, 0x7C, 0x7C, 0x6D, 0x30, 0x31, 0x30, 0x32] = [] ∧
      (segmentsOf [0x21, 0x7C, 0x7C, 0x6D, 0x30, 0x31, 0x30, 0x32]).flatMap
        (fun s => executedOf (ownLine s)) = [.exec [] 0x6D [1, 2] [] []] := by
  exact ⟨rfl, rfl⟩

end UnicornSuite.Rip
