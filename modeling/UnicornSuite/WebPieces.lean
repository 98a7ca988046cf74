import UnicornSuite.WebRender
import UnicornSuite.LibParagraph

/-! The text of a block as the pieces of a paragraph. What the line breaker puts on its lines is their
packing (`textLines_packed`), and what the two estimators of a width go through are the words and the lines
of the same pieces (`le_minFlow_iff`, `le_natFlow_iff`). -/

namespace UnicornSuite.WebLayout

open CText Web Paragraph

section

variable (m : Metrics)

/-! ### Pieces -/

/-- The pieces of a text that flows. -/
def flowPieces (f : Font) : Nat → CString → List (Piece Int)
  | 0, _ => []
  | rounds + 1, s =>
      let skipped := skipSpaces s
      List.replicate skipped.1 (.space (m.spaceW f)) ++
        match skipped.2 with
        | [] => []
        | c :: rest =>
            if c = newline then .newline :: flowPieces f rounds rest
            else
              let word := takeWord (c :: rest)
              .word (m.wordW f word.1) :: flowPieces f rounds word.2

/-- The pieces of a text in a BLK_PRE. -/
def prePieces (f : Font) : Nat → CString → List (Piece Int)
  | 0, _ => []
  | rounds + 1, s =>
      let word := s.takeWhile (· ≠ newline)
      (if word ≠ [] then [.glued (m.wordW f word)] else []) ++
        match s.dropWhile (· ≠ newline) with
        | [] => []
        | _ :: rest => .newline :: prePieces f rounds rest

def runFont (type : BlockType) (r : Run) : Font := ⟨type, r.style, r.sizeDelta⟩

/-- A run, as it flows. -/
def flowRun (type : BlockType) (r : Run) : List (Piece Int) :=
  match r.imgBlk with
  | some i => [.word i.inlineW]
  | none => flowPieces m (runFont type r) r.text.length r.text

/-- A run, as it is laid out. -/
def runPieces (type : BlockType) (r : Run) : List (Piece Int) :=
  match r.imgBlk with
  | some i => [.word i.inlineW]
  | none =>
      if type = .pre then prePieces m (runFont type r) r.text.length r.text
      else flowPieces m (runFont type r) r.text.length r.text

/-- The margin of a text block: its bullet. -/
def textMargin (type : BlockType) (bulletText : Option CString) : Margin Int :=
  ⟨bulletW m type bulletText, if bulletText.isSome then 1 else 0⟩

/-- The pieces of a text block. -/
def blockPieces (type : BlockType) (runs : List Run) : List (Piece Int) := runs.flatMap (runPieces m type)

/-- Before the first of them. -/
abbrev blockStart (type : BlockType) (bulletText : Option CString) : Packing Int :=
  Packing.start (textMargin m type bulletText)

/-! ### White space and words -/

theorem layoutSpaceLen_cons_cons (c c' : UInt8) (rest : CString) : layoutSpaceLen (c :: c' :: rest) =
    if c = 0x20 ∨ c = 0x09 then 1 else if c = 0xC2 ∧ c' = 0xA0 then 2 else 0 := rfl

theorem skipSpaces_singleton (c : UInt8) :
    skipSpaces [c] = if layoutSpaceLen [c] = 1 then (1, []) else (0, [c]) := rfl

theorem skipSpaces_cons_cons (c c' : UInt8) (rest : CString) : skipSpaces (c :: c' :: rest) =
    if layoutSpaceLen (c :: c' :: rest) = 1 then
      ((skipSpaces (c' :: rest)).1 + 1, (skipSpaces (c' :: rest)).2)
    else if layoutSpaceLen (c :: c' :: rest) = 2 then ((skipSpaces rest).1 + 1, (skipSpaces rest).2)
    else (0, c :: c' :: rest) := rfl

theorem takeWord_cons (c : UInt8) (rest : CString) : takeWord (c :: rest) =
    if c = newline ∨ layoutSpaceLen (c :: rest) ≠ 0 then ([], c :: rest)
    else (c :: (takeWord rest).1, (takeWord rest).2) := rfl

theorem layoutSpaceLen_le (s : CString) : layoutSpaceLen s ≤ s.length := by
  match s with
  | [] => exact le_rfl
  | [c] =>
      change (if c = 0x20 ∨ c = 0x09 then 1 else 0) ≤ 1
      split_ifs <;> simp
  | c :: c' :: rest =>
      rw [layoutSpaceLen_cons_cons]
      split_ifs <;> simp

theorem skipSpaces_of_space {s : CString} (h : 0 < layoutSpaceLen s) :
    skipSpaces s = ((skipSpaces (s.drop (layoutSpaceLen s))).1 + 1, (skipSpaces (s.drop (layoutSpaceLen s))).2) := by
  match s with
  | [] => exact absurd h (Nat.lt_irrefl 0)
  | [c] =>
      have hlen : layoutSpaceLen [c] = 1 := le_antisymm (layoutSpaceLen_le [c]) h
      rw [hlen, skipSpaces_singleton, if_pos hlen]
      rfl
  | c :: c' :: rest =>
      by_cases hone : layoutSpaceLen (c :: c' :: rest) = 1
      · rw [hone, skipSpaces_cons_cons, if_pos hone]
        rfl
      · have htwo : layoutSpaceLen (c :: c' :: rest) = 2 := by
          rw [layoutSpaceLen_cons_cons] at h hone ⊢
          split_ifs at h hone ⊢ <;> first | rfl | omega
        rw [htwo, skipSpaces_cons_cons, if_neg hone, if_pos htwo]
        rfl

theorem skipSpaces_of_none {s : CString} (h : layoutSpaceLen s = 0) : skipSpaces s = (0, s) := by
  match s with
  | [] => rfl
  | [c] => rw [skipSpaces_singleton, h, if_neg Nat.zero_ne_one]
  | c :: c' :: rest => rw [skipSpaces_cons_cons, h, if_neg Nat.zero_ne_one, if_neg (by omega)]

theorem length_skipSpaces_le (s : CString) : (skipSpaces s).2.length ≤ s.length := by
  fun_induction skipSpaces s with
  | case1 => exact le_rfl
  | case2 c h => exact Nat.zero_le _
  | case3 c h => exact le_rfl
  | case4 c c' rest h r ih => exact ih.trans (Nat.le_succ _)
  | case5 c c' rest h h' r ih => exact ih.trans ((Nat.le_succ _).trans (Nat.le_succ _))
  | case6 c c' rest h h' => exact le_rfl

theorem layoutSpaceLen_skipSpaces (s : CString) : layoutSpaceLen (skipSpaces s).2 = 0 := by
  fun_induction skipSpaces s with
  | case1 => rfl
  | case2 c h => rfl
  | case3 c h =>
      have hle := layoutSpaceLen_le [c]
      rw [List.length_singleton] at hle
      show layoutSpaceLen [c] = 0
      omega
  | case4 c c' rest h r ih => exact ih
  | case5 c c' rest h h' r ih => exact ih
  | case6 c c' rest h h' =>
      show layoutSpaceLen (c :: c' :: rest) = 0
      rw [layoutSpaceLen_cons_cons] at h h' ⊢
      split_ifs at h h' ⊢ <;> first | rfl | omega

theorem length_takeWord_le (s : CString) : (takeWord s).2.length ≤ s.length := by
  fun_induction takeWord s with
  | case1 => exact le_rfl
  | case2 c rest h => exact le_rfl
  | case3 c rest h r ih => exact ih.trans (Nat.le_succ _)

/-- Neither white space nor a newline is first. -/
def WordFirst (s : CString) : Prop := s.head? ≠ some newline ∧ layoutSpaceLen s = 0

theorem takeWord_of_first {c : UInt8} {rest : CString} (h : WordFirst (c :: rest)) :
    takeWord (c :: rest) = (c :: (takeWord rest).1, (takeWord rest).2) := by
  have hc : ¬(c = newline ∨ layoutSpaceLen (c :: rest) ≠ 0) := by
    rintro (rfl | hne)
    · exact h.1 rfl
    · exact hne h.2
  rw [takeWord_cons, if_neg hc]

theorem takeWord_of_newline (rest : CString) : takeWord (newline :: rest) = ([], newline :: rest) := by
  rw [takeWord_cons, if_pos (Or.inl rfl)]

/-- A word takes a byte at least. -/
theorem length_takeWord_lt {c : UInt8} {rest : CString} (h : WordFirst (c :: rest)) :
    (takeWord (c :: rest)).2.length < (c :: rest).length := by
  rw [takeWord_of_first h]
  exact Nat.lt_succ_of_le (length_takeWord_le rest)

/-! ### The pieces of a text -/

variable (f : Font)

theorem flowPieces_succ (rounds : Nat) (s : CString) : flowPieces m f (rounds + 1) s =
    List.replicate (skipSpaces s).1 (.space (m.spaceW f)) ++
      match (skipSpaces s).2 with
      | [] => []
      | c :: rest =>
          if c = newline then .newline :: flowPieces m f rounds rest
          else
            .word (m.wordW f (takeWord (c :: rest)).1) ::
              flowPieces m f rounds (takeWord (c :: rest)).2 := rfl

theorem flowPieces_nil (rounds : Nat) : flowPieces m f rounds [] = [] := by
  cases rounds <;> rfl

/-- Rounds beyond the length of the text add nothing. -/
theorem flowPieces_rounds {n k : Nat} {s : CString} (hn : s.length ≤ n) (hk : s.length ≤ k) :
    flowPieces m f n s = flowPieces m f k s := by
  induction n generalizing k s with
  | zero => rw [List.length_eq_zero_iff.mp (Nat.le_zero.mp hn), flowPieces_nil, flowPieces_nil]
  | succ n ih =>
      cases k with
      | zero => rw [List.length_eq_zero_iff.mp (Nat.le_zero.mp hk), flowPieces_nil, flowPieces_nil]
      | succ k =>
          rw [flowPieces_succ, flowPieces_succ]
          have hle := length_skipSpaces_le s
          have hspace := layoutSpaceLen_skipSpaces s
          cases hrest : (skipSpaces s).2 with
          | nil => rfl
          | cons c rest =>
              rw [hrest] at hle hspace
              have hlen : rest.length < s.length := hle
              by_cases hc : c = newline
              · simp only [hc, if_true]
                rw [@ih k rest (by omega) (by omega)]
              · have hword := @length_takeWord_lt c rest
                  ⟨fun h => hc (Option.some.inj h), hspace⟩
                have hlen' : (takeWord (c :: rest)).2.length < s.length := hword.trans_le hle
                simp only [hc, if_false]
                rw [@ih k (takeWord (c :: rest)).2 (by omega) (by omega)]

/-- The pieces of a whole text. -/
abbrev textPieces (s : CString) : List (Piece Int) := flowPieces m f s.length s

theorem textPieces_skip (s : CString) : textPieces m f s =
    List.replicate (skipSpaces s).1 (.space (m.spaceW f : Int)) ++ textPieces m f (skipSpaces s).2 := by
  have hfuel := flowPieces_rounds m f (k := s.length + 1) le_rfl (Nat.le_succ s.length)
  have hfuel' := flowPieces_rounds m f (s := (skipSpaces s).2) (k := s.length + 1) le_rfl
    ((length_skipSpaces_le s).trans (Nat.le_succ _))
  change flowPieces m f s.length s = _ ++ flowPieces m f (skipSpaces s).2.length (skipSpaces s).2
  rw [hfuel, hfuel', flowPieces_succ, flowPieces_succ,
    skipSpaces_of_none (layoutSpaceLen_skipSpaces s)]
  rfl

theorem textPieces_newline (rest : CString) :
    textPieces m f (newline :: rest) = .newline :: textPieces m f rest := by
  have hnone : layoutSpaceLen (newline :: rest) = 0 := by
    cases rest <;> rfl
  change flowPieces m f (rest.length + 1) (newline :: rest) = _
  rw [flowPieces_succ, skipSpaces_of_none hnone]
  rfl

theorem textPieces_word {c : UInt8} {rest : CString} (h : WordFirst (c :: rest)) :
    textPieces m f (c :: rest) =
      .word (m.wordW f (takeWord (c :: rest)).1) :: textPieces m f (takeWord (c :: rest)).2 := by
  have hc : c ≠ newline := fun hc => h.1 (congrArg some hc)
  change flowPieces m f (rest.length + 1) (c :: rest) = _
  rw [flowPieces_succ, skipSpaces_of_none h.2]
  simp only [List.replicate_zero, List.nil_append, hc, if_false]
  rw [flowPieces_rounds m f (k := (takeWord (c :: rest)).2.length) (Nat.lt_succ_iff.mp (length_takeWord_lt h)) le_rfl]

theorem textPieces_space {s : CString} (h : 0 < layoutSpaceLen s) :
    textPieces m f s = .space (m.spaceW f : Int) :: textPieces m f (s.drop (layoutSpaceLen s)) := by
  rw [textPieces_skip m f s, skipSpaces_of_space h, textPieces_skip m f (s.drop (layoutSpaceLen s))]
  rfl

/-! ### The widest word -/

theorem wordFirst_skipBreaks {k : Nat} {s : CString} (hk : s.length ≤ k) : WordFirst (skipBreaks k s) := by
  induction k generalizing s with
  | zero =>
      rw [List.length_eq_zero_iff.mp (Nat.le_zero.mp hk)]
      exact ⟨(Option.some_ne_none newline).symm, rfl⟩
  | succ k ih =>
      rw [skipBreaks]
      split_ifs with hnl hspace
      · refine ih ?_
        rw [List.length_tail]
        omega
      · refine ih ?_
        rw [List.length_drop]
        omega
      · exact ⟨hnl, Nat.eq_zero_of_not_pos hspace⟩

theorem length_skipBreaks_le (k : Nat) (s : CString) : (skipBreaks k s).length ≤ s.length := by
  induction k generalizing s with
  | zero => exact le_rfl
  | succ k ih =>
      rw [skipBreaks]
      split_ifs
      · exact (ih _).trans (by rw [List.length_tail]; omega)
      · exact (ih _).trans (by rw [List.length_drop]; omega)
      · exact le_rfl

/-- White space and newlines hold no words. -/
theorem words_skipBreaks (k : Nat) (s : CString) :
    words (textPieces m f (skipBreaks k s)) = words (textPieces m f s) := by
  induction k generalizing s with
  | zero => rfl
  | succ k ih =>
      rw [skipBreaks]
      split_ifs with hnl hspace
      · obtain ⟨rest, rfl⟩ := List.head?_eq_some_iff.mp hnl
        rw [List.tail_cons, ih, textPieces_newline]
        rfl
      · rw [ih, textPieces_space m f hspace]
        rfl
      · rfl

theorem le_widest_iff {d w maxW : Int} : d ≤ widest w maxW ↔ d ≤ maxW ∨ d ≤ w := by
  rw [widest]
  split_ifs <;> omega

/-- The widest of the words is found. -/
theorem le_minWords_iff {rounds : Nat} {s : CString} (hrounds : s.length ≤ rounds) {d maxW : Int} :
    d ≤ minWords m f rounds s maxW ↔ d ≤ maxW ∨ ∃ w ∈ words (textPieces m f s), d ≤ w := by
  induction rounds generalizing s maxW with
  | zero =>
      rw [List.length_eq_zero_iff.mp (Nat.le_zero.mp hrounds)]
      simp [minWords, textPieces, flowPieces_nil, words]
  | succ rounds ih =>
      rw [minWords, ← words_skipBreaks m f s.length s]
      have hfirst := wordFirst_skipBreaks (le_refl s.length)
      have hle := length_skipBreaks_le s.length s
      split_ifs with hs
      · subst hs
        simp [skipBreaks, textPieces, flowPieces_nil, words]
      · cases hrest : skipBreaks s.length s with
        | nil =>
            simp only [takeWord, ne_eq, not_true_eq_false, if_false]
            rw [ih (Nat.zero_le _)]
        | cons c rest =>
            rw [hrest] at hfirst hle
            have hlt := length_takeWord_lt hfirst
            have hword : (takeWord (c :: rest)).1 ≠ [] := by
              rw [takeWord_of_first hfirst]
              exact List.cons_ne_nil _ _
            simp only [ne_eq, hword, not_false_eq_true, if_true]
            rw [ih (by omega), le_widest_iff, textPieces_word m f hfirst, or_assoc]
            simp [words]

/-! ### The widths of the lines -/

/-- What a piece adds in the loops of the estimators: the width of the line, and the widest. -/
def sumStep (w : Int × Int) : Piece Int → Int × Int
  | .space a => (w.1 + a, w.2)
  | .word a => (w.1 + a, w.2)
  | .glued a => (w.1 + a, w.2)
  | .newline => (0, widest w.1 w.2)

/-- The widest line is found. -/
theorem le_foldl_sumStep_iff (pieces : List (Piece Int)) (w : Int × Int) {d : Int} :
    d ≤ widest (pieces.foldl sumStep w).1 (pieces.foldl sumStep w).2 ↔
      d ≤ w.2 ∨ ∃ l ∈ lineSums pieces w.1, d ≤ l := by
  induction pieces generalizing w with
  | nil => simp [lineSums, le_widest_iff]
  | cons piece pieces ih =>
      rw [List.foldl_cons, ih]
      cases piece with
      | newline => simp [sumStep, lineSums, le_widest_iff, or_assoc]
      | space a => rfl
      | word a => rfl
      | glued a => rfl

theorem foldl_replicate_space (n : Nat) (a : Int) (w : Int × Int) :
    (List.replicate n (.space a)).foldl sumStep w = (w.1 + a * n, w.2) := by
  induction n generalizing w with
  | zero => simp
  | succ n ih =>
      rw [List.replicate_succ, List.foldl_cons, ih]
      simp only [sumStep, Prod.mk.injEq, and_true, Nat.cast_succ, Int.mul_add, Int.mul_one]
      omega

/-- A text without white space before it begins with a word, or with none. -/
theorem foldl_takeWord {s : CString} (hs : layoutSpaceLen s = 0) (w : Int × Int) :
    (textPieces m f s).foldl sumStep w =
      (textPieces m f (takeWord s).2).foldl sumStep (w.1 + m.wordW f (takeWord s).1, w.2) := by
  cases s with
  | nil => simp [takeWord]
  | cons c rest =>
      by_cases hc : c = newline
      · rw [hc, takeWord_of_newline]
        simp
      · rw [textPieces_word m f ⟨fun h => hc (Option.some.inj h), hs⟩]
        rfl

theorem natText_eq {rounds : Nat} {s : CString} (hrounds : s.length ≤ rounds) (w : Int × Int) :
    natText m f rounds s w = (textPieces m f s).foldl sumStep w := by
  induction rounds generalizing s w with
  | zero =>
      rw [List.length_eq_zero_iff.mp (Nat.le_zero.mp hrounds)]
      rfl
  | succ rounds ih =>
      cases s with
      | nil => rfl
      | cons c rest =>
          obtain ⟨lineW, maxW⟩ := w
          rw [natText]
          have hrest : rest.length ≤ rounds := Nat.le_of_succ_le_succ hrounds
          split_ifs with hc
          · rw [ih hrest, hc, textPieces_newline]
            rfl
          · -- the white space, and the word behind it
            have hlt : (takeWord (skipSpaces (c :: rest)).2).2.length ≤ rounds := by
              by_cases hspace : layoutSpaceLen (c :: rest) = 0
              · rw [skipSpaces_of_none hspace]
                have hword := @length_takeWord_lt c rest
                  ⟨fun h => hc (Option.some.inj h), hspace⟩
                exact Nat.lt_succ_iff.mp (hword.trans_le hrounds)
              · have hpos := Nat.pos_of_ne_zero hspace
                rw [skipSpaces_of_space hpos]
                refine (length_takeWord_le _).trans ((length_skipSpaces_le _).trans ?_)
                rw [List.length_drop]
                omega
            rw [ih hlt, textPieces_skip m f (c :: rest), List.foldl_append, foldl_replicate_space,
              foldl_takeWord m f (layoutSpaceLen_skipSpaces _)]

/-- What is behind the text of a line of a BLK_PRE. -/
theorem dropWhile_newline (s : CString) : s.dropWhile (· ≠ newline) = [] ∨
    ∃ rest, s.dropWhile (· ≠ newline) = newline :: rest ∧ rest.length < s.length := by
  induction s with
  | nil => exact .inl rfl
  | cons c s ih =>
      by_cases hc : c = newline
      · exact .inr ⟨s, by simp [hc], Nat.lt_succ_self _⟩
      · have hdrop : (c :: s).dropWhile (· ≠ newline) = s.dropWhile (· ≠ newline) := by simp [hc]
        rw [hdrop]
        obtain h | ⟨rest, h, hlt⟩ := ih
        · exact .inl h
        · exact .inr ⟨rest, h, hlt.trans (Nat.lt_succ_self _)⟩

theorem minPre_nil (rounds : Nat) (lineW maxW : Int) : minPre m f rounds [] lineW maxW = widest lineW maxW := by
  cases rounds <;> rfl

theorem minPre_eq {rounds n : Nat} {s : CString} (hrounds : s.length ≤ rounds) (hn : s.length ≤ n)
    (lineW maxW : Int) : minPre m f rounds s lineW maxW =
      widest ((prePieces m f n s).foldl sumStep (lineW, maxW)).1 ((prePieces m f n s).foldl sumStep (lineW, maxW)).2 := by
  induction n generalizing rounds s lineW maxW with
  | zero =>
      rw [List.length_eq_zero_iff.mp (Nat.le_zero.mp hn), minPre_nil]
      rfl
  | succ n ih =>
      rw [prePieces]
      -- from the end of the line on
      have htail (k : Nat) (hk : (s.dropWhile (· ≠ newline)).length ≤ k) (w : Int) :
          minPre m f k (s.dropWhile (· ≠ newline)) w maxW =
            let pieces := match s.dropWhile (· ≠ newline) with
              | [] => []
              | _ :: rest => Piece.newline :: prePieces m f n rest
            widest (pieces.foldl sumStep (w, maxW)).1 (pieces.foldl sumStep (w, maxW)).2 := by
        obtain h | ⟨rest, h, hlt⟩ := dropWhile_newline s
        · rw [h, minPre_nil]
          rfl
        · rw [h] at hk ⊢
          cases k with
          | zero => exact absurd hk (Nat.not_succ_le_zero _)
          | succ k =>
              rw [minPre, if_pos rfl, ih (Nat.le_of_succ_le_succ hk) (by omega)]
              rfl
      cases s with
      | nil => exact htail rounds (Nat.zero_le _) lineW
      | cons c rest =>
          by_cases hc : c = newline
          · have hdrop : (c :: rest).dropWhile (· ≠ newline) = c :: rest := by simp [hc]
            have htake : (c :: rest).takeWhile (· ≠ newline) = [] := by simp [hc]
            have h := htail rounds (by rw [hdrop]; exact hrounds) lineW
            rw [htake, if_neg (not_not.mpr rfl), List.nil_append]
            rwa [hdrop] at h ⊢
          · have htake : (c :: rest).takeWhile (· ≠ newline) ≠ [] := by simp [hc]
            have hlen : ((c :: rest).dropWhile (· ≠ newline)).length ≤ rest.length := by
              simp only [hc, ne_eq, not_false_eq_true, decide_true, List.dropWhile_cons_of_pos]
              exact (List.dropWhile_sublist _).length_le
            cases rounds with
            | zero => exact absurd hrounds (Nat.not_succ_le_zero _)
            | succ rounds =>
                rw [minPre, if_neg hc, htail rounds (hlen.trans (Nat.le_of_succ_le_succ hrounds)), if_pos htake]
                rfl

/-- The widest line of a run in a BLK_PRE is found. -/
theorem le_minPre_iff (s : CString) {d maxW : Int} : d ≤ minPre m f s.length s 0 maxW ↔
    d ≤ maxW ∨ ∃ l ∈ lineSums (prePieces m f s.length s) 0, d ≤ l := by
  rw [minPre_eq m f le_rfl le_rfl]
  exact le_foldl_sumStep_iff _ _

/-! ### The widths of a block -/

variable (type : BlockType)

/-- What a run does not break. -/
def runUnits (r : Run) : List Int :=
  match r.imgBlk with
  | some i => [i.inlineW]
  | none => if type = .pre then lineSums (runPieces m type r) 0 else words (runPieces m type r)

theorem le_minRun_iff (r : Run) {d maxW : Int} :
    d ≤ minRun m type maxW r ↔ d ≤ maxW ∨ ∃ u ∈ runUnits m type r, d ≤ u := by
  rw [minRun, runUnits, runPieces]
  cases r.imgBlk with
  | some i => simp [le_widest_iff]
  | none =>
      dsimp only
      split_ifs
      · exact le_minPre_iff m _ r.text
      · exact le_minWords_iff m _ le_rfl

/-- What a text block does not break. -/
def flowUnits (bulletText : Option CString) (runs : List Run) : List Int :=
  (bulletText.toList.map fun _ => bulletW m type bulletText) ++ runs.flatMap (runUnits m type)

theorem le_minFlow_iff (bulletText : Option CString) (runs : List Run) {d maxW : Int} :
    d ≤ minFlow m type bulletText runs maxW ↔ d ≤ maxW ∨ ∃ u ∈ flowUnits m type bulletText runs, d ≤ u := by
  have hruns (runs : List Run) (maxW : Int) : d ≤ runs.foldl (minRun m type) maxW ↔
      d ≤ maxW ∨ ∃ u ∈ runs.flatMap (runUnits m type), d ≤ u := by
    induction runs generalizing maxW with
    | nil => simp
    | cons r runs ih =>
        rw [List.foldl_cons, ih, le_minRun_iff, or_assoc, List.flatMap_cons]
        simp only [List.mem_append, or_and_right, exists_or]
  unfold minFlow
  rw [hruns, flowUnits]
  cases bulletText with
  | none => simp
  | some s => simp [le_widest_iff, or_assoc]

/-- The widths of the lines of a text block, its white space not compressed. -/
def flowSums (bulletText : Option CString) (runs : List Run) : List Int :=
  lineSums (runs.flatMap (flowRun m type)) (bulletW m type bulletText)

theorem natRun_eq (w : Int × Int) (r : Run) : natRun m type w r = (flowRun m type r).foldl sumStep w := by
  rw [natRun, flowRun]
  cases r.imgBlk with
  | some i => rfl
  | none => exact natText_eq m _ le_rfl w

theorem le_natFlow_iff (bulletText : Option CString) (runs : List Run) {d maxW : Int} :
    d ≤ natFlow m type bulletText runs maxW ↔ d ≤ maxW ∨ ∃ l ∈ flowSums m type bulletText runs, d ≤ l := by
  have hruns (w : Int × Int) : runs.foldl (natRun m type) w = (runs.flatMap (flowRun m type)).foldl sumStep w := by
    rw [List.foldl_flatMap]
    exact List.foldl_ext _ _ w fun w r _ => natRun_eq m type w r
  rw [natFlow, hruns, le_foldl_sumStep_iff]
  rfl

end

end UnicornSuite.WebLayout
