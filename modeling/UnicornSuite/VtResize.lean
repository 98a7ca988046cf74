import UnicornSuite.VtTermSafety

/-! What a resize keeps. The blank rows below the cursor that the page loses are given up first (`Trimmed`); of the
rest the last ones that the new buffer has room for are copied, cut or padded to the new width, and blank rows
fill the page up (`newLines_cell`). The cursor goes with its line. -/

namespace UnicornSuite.VtTerm

open CInt

variable {t : VTTerm}

/-! ### Trimming -/

/-- The line of the buffer that the cursor stands on. -/
def cursorLine (t : VTTerm) : Int := t.linesTotal - t.rows + t.cursorY

def BlankRow (t : VTTerm) (i : Int) : Prop :=
  ∀ x, 0 ≤ x → x < t.cols → (t.lines.cell i x).ch = 0x20 ∨ (t.lines.cell i x).ch = 0

theorem rowEmpty_iff (t : VTTerm) (i : Int) : rowEmpty t i = true ↔ BlankRow t i := by
  rw [rowEmpty, List.all_eq_true]
  constructor
  · intro h x hlo hhi
    have hx := h x.toNat (List.mem_range.mpr (by omega))
    rw [Int.toNat_of_nonneg hlo, Bool.or_eq_true, beq_iff_eq, beq_iff_eq] at hx
    exact hx
  · intro h x hx
    have hlt := List.mem_range.mp hx
    rw [Bool.or_eq_true, beq_iff_eq, beq_iff_eq]
    exact h x (by omega) (by omega)

/-- Up to `most` of the rows of a buffer of `total` rows are given up at the bottom: blank ones below the line
`cur`, and all there are. `src` rows are left. -/
structure Trimmed (t : VTTerm) (cur most total src : Int) : Prop where
  within : src ≤ total
  atMost : total - src ≤ most
  blank : ∀ i, src ≤ i → i < total → cur < i ∧ BlankRow t i
  maximal : total - src < most → cur < src - 1 → ¬ BlankRow t (src - 1)

theorem trimRows_trimmed (t : VTTerm) (cur : Int) (n : Nat) (src : Int) :
    Trimmed t cur n src (trimRows t cur n src) := by
  induction n generalizing src with
  | zero =>
      rw [trimRows]
      exact ⟨le_refl src, by omega, fun i hlo hhi => by omega, fun hlt => by omega⟩
  | succ n ih =>
      by_cases hgo : src - 1 > cur ∧ rowEmpty t (src - 1)
      · obtain ⟨hle, hmost, hblank, hmax⟩ := ih (src - 1)
        rw [trimRows, if_pos hgo]
        refine ⟨by omega, by omega, fun i hlo hhi => ?_, fun hlt => hmax (by omega)⟩
        by_cases hlast : i = src - 1
        · exact ⟨by omega, by rw [hlast]; exact (rowEmpty_iff t _).mp hgo.2⟩
        · exact hblank i hlo (by omega)
      · rw [trimRows, if_neg hgo]
        refine ⟨le_refl src, by omega, fun i hlo hhi => by omega, fun _ hcur hblank => hgo ⟨hcur, ?_⟩⟩
        exact (rowEmpty_iff t _).mpr hblank

/-- Nothing is given up when the page does not lose rows. -/
theorem sourceRows_trimmed (t : VTTerm) (rows : Int) :
    Trimmed t (cursorLine t) (max 0 (t.rows - rows)) t.linesTotal (sourceRows t rows) := by
  by_cases hless : rows < t.rows
  · have hmost : max 0 (t.rows - rows) = ((t.rows - rows).toNat : Int) := by omega
    rw [sourceRows, if_pos hless, hmost]
    exact trimRows_trimmed t (cursorLine t) _ _
  · rw [sourceRows, if_neg hless]
    exact ⟨le_refl _, by omega, fun i hlo hhi => by omega, fun hlt => by omega⟩

/-! ### The new buffer -/

theorem padded_cell (g : Grid Cell) {cap cols kept rows : Int} (hkept : 0 ≤ kept) (hrows : rows ≤ cap) (i j : Int) :
    (Loop.up 0 (rows - kept) (fun k g => g.fillRun ⟨0, cap, 0, cols⟩ (kept + k) 0 (cols - 1) blank) g).cell i j =
      if kept ≤ i ∧ i < rows ∧ 0 ≤ j ∧ j < cols then blank else g.cell i j := by
  by_cases hpad : rows ≤ kept
  · rw [Loop.up_of_le (by omega), if_neg (by omega)]
  · have hmem : ∀ i, kept ≤ i → i < kept + (rows - kept) → Region.MemRun ⟨0, cap, 0, cols⟩ i 0 (cols - 1) := by
      intro i hlo hhi hle
      simp only [Region.Mem]
      omega
    rw [Grid.up_fillRuns blank g kept (by omega) hmem]
    dsimp only
    by_cases hin : kept ≤ i ∧ i < rows ∧ 0 ≤ j ∧ j < cols
    · rw [if_pos hin, if_pos (by omega)]
    · rw [if_neg hin, if_neg (by omega)]

/-- The copy of the last `kept` of `src` rows, in `cols` columns, with blank rows below. -/
theorem newLines_cell (t : VTTerm) {cap cols src kept rows : Int} (hcols : 1 ≤ cols) (hkept : 0 ≤ kept ∧ kept ≤ cap)
    (hrows : rows ≤ cap) {i j : Int} (hi : 0 ≤ i ∧ (i < kept ∨ i < rows)) (hj : 0 ≤ j ∧ j < cols) :
    (newLines t ⟨0, cap, 0, cols⟩ src kept rows).cell i j =
      if i < kept ∧ j < t.cols then t.lines.cell (src - kept + i) j else blank := by
  have hmem : ∀ i j, 0 ≤ i → i < 0 + kept → 0 ≤ j → j < 0 + cols → Region.Mem ⟨0, cap, 0, cols⟩ i j := by
    intro i j hlo hhi hlo' hhi'
    simp only [Region.Mem]
    omega
  have hcopy := Grid.up_block (fun i j => if j < cols ∧ j < t.cols then t.lines.cell (src - kept + i) j else blank)
    ⟨fun _ _ => ⟨0, 0⟩, t.lines.fault⟩ 0 0 hkept.1 (by omega : 0 ≤ cols) hmem
  simp only [Int.zero_add, Int.sub_zero] at hcopy
  rw [newLines]
  dsimp only
  rw [padded_cell _ hkept.1 hrows, hcopy]
  dsimp only
  by_cases hpad : kept ≤ i
  · rw [if_pos (by omega), if_neg (by omega)]
  · rw [if_neg (by omega), if_pos (by omega)]
    by_cases hin : j < t.cols
    · rw [if_pos ⟨hj.2, hin⟩, if_pos ⟨by omega, hin⟩]
    · rw [if_neg fun h => hin h.2, if_neg fun h => hin h.2]

/-! ### The law of the resize -/

/-- What a resize to `cols` columns and `rows` rows makes of a terminal: of the `src` rows that the trimming leaves
the last `kept` ones are in the new buffer. -/
structure Resized (t t' : VTTerm) (cols rows src kept : Int) : Prop where
  size : t'.cols = cols ∧ t'.rows = rows
  trimmed : Trimmed t (cursorLine t) (max 0 (t.rows - rows)) t.linesTotal src
  fitting : kept = min src (t.scrollbackMax + rows)
  total : t'.linesTotal = max kept rows
  text : ∀ i j, 0 ≤ i → i < t'.linesTotal → 0 ≤ j → j < cols →
    t'.lines.cell i j = if i < kept ∧ j < t.cols then t.lines.cell (src - kept + i) j else blank
  /-- The line of the cursor is in the new page: the cursor stays on it. -/
  follows : t'.linesTotal - rows ≤ cursorLine t - (src - kept) → cursorLine t - (src - kept) < t'.linesTotal →
    cursorLine t' = cursorLine t - (src - kept)
  /-- The line of the cursor is above the new page. -/
  above : 0 ≤ t.cursorY → cursorLine t - (src - kept) < t'.linesTotal - rows → t'.cursorY = 0
  column : t'.cursorX = min t.cursorX (cols - 1)

theorem newCap_eq {rows : Int} (hsb : 0 ≤ t.scrollbackMax) (hrows : 1 ≤ rows)
    (hfits : t.scrollbackMax + rows ≤ maxInt32) : newCap t rows = t.scrollbackMax + rows := by
  have hexact : wrap32 (t.scrollbackMax + rows) = t.scrollbackMax + rows :=
    wrap32_of_fits ⟨by simp only [minInt32]; omega, hfits⟩
  rw [newCap, hexact, if_neg (by omega)]

theorem rebuild_resized {cols rows : Int} (hcols : 1 ≤ cols) (hrows : 1 ≤ rows) (hsb : 0 ≤ t.scrollbackMax)
    (hfits : t.scrollbackMax + rows ≤ maxInt32) (hpage : 1 ≤ t.rows ∧ t.rows ≤ t.linesTotal) :
    Resized t (rebuild t cols rows (sourceRows t rows)) cols rows (sourceRows t rows)
      (min (sourceRows t rows) (t.scrollbackMax + rows)) := by
  have htrim := sourceRows_trimmed t rows
  have hcap := newCap_eq hsb hrows hfits
  have hpos : 1 ≤ sourceRows t rows := by
    have hmost := htrim.atMost
    omega
  generalize sourceRows t rows = src at *
  have hkept : (if src > newCap t rows then newCap t rows else src) = min src (t.scrollbackMax + rows) := by
    rw [hcap]
    split_ifs <;> omega
  have htotal : ∀ kept : Int, (if kept < rows then rows else kept) = max kept rows := by
    intro kept
    split_ifs <;> omega
  have hcursorY : (rebuild t cols rows src).cursorY =
      clamp (cursorLine t - (src - min src (t.scrollbackMax + rows)) -
        (max (min src (t.scrollbackMax + rows)) rows - rows)) 0 (rows - 1) := by
    rw [← htotal, ← hkept]
    rfl
  have hlines : (rebuild t cols rows src).linesTotal = max (min src (t.scrollbackMax + rows)) rows := by
    rw [← htotal, ← hkept]
    rfl
  refine ⟨⟨rfl, rfl⟩, htrim, rfl, hlines, fun i j hi hi' hj hj' => ?_, fun hin hin' => ?_, fun hpos' hout => ?_, ?_⟩
  · have htext : (rebuild t cols rows src).lines =
        newLines t ⟨0, t.scrollbackMax + rows, 0, cols⟩ src (min src (t.scrollbackMax + rows)) rows := by
      rw [← hkept, ← hcap]
      rfl
    rw [htext]
    exact newLines_cell t hcols (by omega) (by omega) ⟨hi, by omega⟩ ⟨hj, hj'⟩
  · rw [cursorLine, hlines, hcursorY, clamp]
    rw [hlines] at hin hin'
    show max (min src (t.scrollbackMax + rows)) rows - rows + _ = _
    split_ifs <;> omega
  · rw [hcursorY, clamp]
    rw [hlines] at hout
    split_ifs <;> omega
  · show (if t.cursorX ≥ cols then cols - 1 else t.cursorX) = _
    split_ifs <;> omega

/-- A resize to another size of at least one cell keeps the last lines that fit, the cursor with them, when there is
memory for the new buffer and an `int` holds its rows; else nothing changes, and past the `int` the scrollback is
given up. -/
theorem resize_keeps (t : VTTerm) (hpage : 1 ≤ t.rows ∧ t.rows ≤ t.linesTotal) (hsb : 0 ≤ t.scrollbackMax)
    (cols rows : Int32) :
    (cols.toInt < 1 ∨ rows.toInt < 1 ∨ cols.toInt = t.cols ∧ rows.toInt = t.rows →
      ∀ calloc, resize t cols rows calloc = t) ∧
    resize t cols rows false = t ∧
    (1 ≤ cols.toInt → 1 ≤ rows.toInt → ¬(cols.toInt = t.cols ∧ rows.toInt = t.rows) →
      t.scrollbackMax + rows.toInt ≤ maxInt32 →
      ∃ src kept, Resized t (resize t cols rows true) cols.toInt rows.toInt src kept) := by
  refine ⟨fun hno calloc => ?_, ?_, fun hcols hrows hother hfits => ?_⟩
  · rw [resize]
    split_ifs with hsmall hsame
    · rfl
    · rfl
    · exact absurd hno (by tauto)
    · rfl
  · rw [resize]
    split_ifs with hsmall hsame hcalloc
    · rfl
    · rfl
    · exact hcalloc.elim
    · rfl
  · rw [resize, if_neg (by omega), if_neg hother, if_pos rfl]
    exact ⟨_, _, rebuild_resized hcols hrows hsb hfits hpage⟩

/-- Three lines of text and a cursor on the last, in two rows: in one row the lines are still there, and the
cursor is on its line. -/
theorem resize_keeps_smaller :
    ∃ src kept, Resized
      (Machine.run step (init (fun _ => true) 2 2 5) [.feed [0x41, 0x0D, 0x0A, 0x42, 0x0D, 0x0A, 0x43]])
      (resize (Machine.run step (init (fun _ => true) 2 2 5) [.feed [0x41, 0x0D, 0x0A, 0x42, 0x0D, 0x0A, 0x43]])
        3 1 true) 3 1 src kept :=
  (resize_keeps _ (by decide) (by decide) 3 1).2.2 (by decide) (by decide) (by decide)
    (by decide)

/-- Without memory for the new buffer the rows keep their width; and where the rows of the new buffer pass the `int`,
two of five lines are dropped though the scrollback has room for all. -/
theorem resize_exceptions :
    (resize (init (fun _ => true) 2 2 5) 3 1 false).cols = 2 ∧
      (Machine.run step (init (fun _ => true) 1 2 2147483645) [.feed [0x0A, 0x0A, 0x0A, 0x0A]]).linesTotal = 5 ∧
      (Machine.run step (init (fun _ => true) 1 2 2147483645)
        [.feed [0x0A, 0x0A, 0x0A, 0x0A], .resize 1 3 true]).linesTotal = 3 := by
  refine ⟨by decide, by decide, by decide⟩

end UnicornSuite.VtTerm
