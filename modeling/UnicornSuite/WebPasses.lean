import UnicornSuite.WebWidths

/-! The passes that fill the columns of a table. No row has more columns than the table, so that every
cell is seen, and both passes are folds over the cells with their places (`singles_eq`, `spans_eq`). A
column never gets narrower on the way, and every cell has the width it wants in the end. -/

namespace UnicornSuite.WebLayout

open Finset

/-! ### Places -/

/-- The cells of a row with the columns where they start. -/
def placed : List CellSpec → Nat → List (Nat × CellSpec)
  | [], _ => []
  | c :: cells, col => (col, c) :: placed cells (col + c.span)

/-- The cells of a table with their columns. -/
def allPlaced (rows : List (List CellSpec)) : List (Nat × CellSpec) := rows.flatMap (placed · 0)

/-- The columns of a row. -/
def rowSpan (cells : List CellSpec) : Nat := (cells.map CellSpec.span).sum

theorem span_pos (c : CellSpec) : 0 < c.span := by
  show 0 < spanOf c.colspan
  rw [spanOf]
  split_ifs <;> omega

theorem le_columnFold (rows : List (List CellSpec)) (n : Nat) :
    n ≤ rows.foldl (fun n cells => if (cells.map CellSpec.span).sum > n then (cells.map CellSpec.span).sum else n) n ∧
      ∀ cells ∈ rows, rowSpan cells ≤
        rows.foldl (fun n cells => if (cells.map CellSpec.span).sum > n then (cells.map CellSpec.span).sum else n) n := by
  induction rows generalizing n with
  | nil => exact ⟨le_rfl, fun _ h => absurd h List.not_mem_nil⟩
  | cons r rows ih =>
      rw [List.foldl_cons]
      obtain ⟨hle, hrows⟩ := ih (if (r.map CellSpec.span).sum > n then (r.map CellSpec.span).sum else n)
      have hstart : n ≤ (if (r.map CellSpec.span).sum > n then (r.map CellSpec.span).sum else n) ∧
          rowSpan r ≤ (if (r.map CellSpec.span).sum > n then (r.map CellSpec.span).sum else n) := by
        rw [rowSpan]
        split_ifs <;> omega
      refine ⟨le_trans hstart.1 hle, fun cells hcells => ?_⟩
      rcases List.mem_cons.mp hcells with rfl | hcells
      · exact le_trans hstart.2 hle
      · exact hrows cells hcells

/-- No row has more columns than the table. -/
theorem rowSpan_le {rows : List (List CellSpec)} {cells : List CellSpec} (h : cells ∈ rows) :
    rowSpan cells ≤ columnCount rows :=
  (le_columnFold rows 0).2 cells h

/-- The table has as many columns as its widest row. -/
theorem exists_rowSpan {rows : List (List CellSpec)} (h : 0 < columnCount rows) :
    ∃ cells ∈ rows, rowSpan cells = columnCount rows := by
  have hfold : ∀ (rows : List (List CellSpec)) (n : Nat),
      rows.foldl (fun n cells => if (cells.map CellSpec.span).sum > n then (cells.map CellSpec.span).sum else n) n = n ∨
        ∃ cells ∈ rows, rowSpan cells =
          rows.foldl (fun n cells => if (cells.map CellSpec.span).sum > n then (cells.map CellSpec.span).sum else n) n := by
    intro rows
    induction rows with
    | nil => exact fun n => .inl rfl
    | cons r rows ih =>
        intro n
        rw [List.foldl_cons]
        rcases ih (if (r.map CellSpec.span).sum > n then (r.map CellSpec.span).sum else n) with heq | ⟨cells, hcells, heq⟩
        · rw [heq]
          split_ifs
          · exact .inr ⟨r, List.mem_cons_self, rfl⟩
          · exact .inl rfl
        · exact .inr ⟨cells, List.mem_cons_of_mem _ hcells, heq⟩
  rcases hfold rows 0 with heq | hrow
  · exact absurd h (by rw [columnCount, heq]; exact lt_irrefl 0)
  · exact hrow

/-- A table with columns has a row with a cell. -/
theorem exists_placed {rows : List (List CellSpec)} (h : 0 < columnCount rows) :
    ∃ p, p ∈ allPlaced rows := by
  obtain ⟨cells, hcells, hspan⟩ := exists_rowSpan h
  cases cells with
  | nil => exact absurd hspan (Nat.ne_of_lt h)
  | cons c cells => exact ⟨(0, c), List.mem_flatMap.mpr ⟨_, hcells, List.mem_cons_self⟩⟩

theorem placed_le {cells : List CellSpec} {col : Nat} {p : Nat × CellSpec} (h : p ∈ placed cells col) :
    col ≤ p.1 ∧ p.1 + p.2.span ≤ col + rowSpan cells ∧ p.2 ∈ cells := by
  induction cells generalizing col with
  | nil => exact absurd h List.not_mem_nil
  | cons c cells ih =>
      have hspan : rowSpan (c :: cells) = c.span + rowSpan cells := List.sum_cons
      rcases List.mem_cons.mp h with rfl | h
      · exact ⟨le_rfl, by dsimp only; omega, List.mem_cons_self⟩
      · obtain ⟨hle, hend, hmem⟩ := ih h
        exact ⟨by omega, by omega, List.mem_cons_of_mem _ hmem⟩

/-- A cell stands in the columns of the table. -/
theorem allPlaced_le {rows : List (List CellSpec)} {p : Nat × CellSpec} (h : p ∈ allPlaced rows) :
    p.1 + p.2.span ≤ columnCount rows := by
  obtain ⟨cells, hcells, hp⟩ := List.mem_flatMap.mp h
  have hplaced := placed_le hp
  have hrow := rowSpan_le hcells
  omega

/-! ### Folds -/

def putSingle (want : CellSpec → Int) (w : Nat → Int) (p : Nat × CellSpec) : Nat → Int :=
  if p.2.span = 1 ∧ want p.2 > w p.1 then Function.update w p.1 (want p.2) else w

def putSpan (want : CellSpec → Int) (w : Nat → Int) (p : Nat × CellSpec) : Nat → Int :=
  if p.2.span > 1 then spread w p.1 (p.1 + p.2.span) (want p.2) else w

variable {want : CellSpec → Int} {rows : List (List CellSpec)}

theorem singlesRow_eq {ncols : Nat} {cells : List CellSpec} {col : Nat} (h : col + rowSpan cells ≤ ncols)
    (w : Nat → Int) : singlesRow ncols want cells col w = (placed cells col).foldl (putSingle want) w := by
  induction cells generalizing col w with
  | nil => rfl
  | cons c cells ih =>
      have hspan : rowSpan (c :: cells) = c.span + rowSpan cells := List.sum_cons
      have hpos := span_pos c
      rw [singlesRow, if_pos (by omega), ih (by omega), placed, List.foldl_cons]
      rfl

theorem spansRow_eq {ncols : Nat} {cells : List CellSpec} {col : Nat} (h : col + rowSpan cells ≤ ncols)
    (w : Nat → Int) : spansRow ncols want cells col w = (placed cells col).foldl (putSpan want) w := by
  induction cells generalizing col w with
  | nil => rfl
  | cons c cells ih =>
      have hspan : rowSpan (c :: cells) = c.span + rowSpan cells := List.sum_cons
      have hpos := span_pos c
      rw [spansRow, if_pos (by omega), ih (by omega), if_neg (by omega : ¬ col + c.span > ncols), placed,
        List.foldl_cons]
      rfl

/-- Pass 1a sees every cell. -/
theorem singles_eq (want : CellSpec → Int) (rows : List (List CellSpec)) :
    singles (columnCount rows) want rows = (allPlaced rows).foldl (putSingle want) 0 := by
  have hfold : ∀ (rs : List (List CellSpec)) (w : Nat → Int), (∀ cells ∈ rs, cells ∈ rows) →
      rs.foldl (fun w cells => singlesRow (columnCount rows) want cells 0 w) w =
        (rs.flatMap (placed · 0)).foldl (putSingle want) w := by
    intro rs
    induction rs with
    | nil => exact fun w _ => rfl
    | cons r rs ih =>
        intro w hrs
        have hrow := rowSpan_le (hrs r List.mem_cons_self)
        rw [List.foldl_cons, singlesRow_eq (by omega), List.flatMap_cons, List.foldl_append]
        exact ih _ fun cells hcells => hrs cells (List.mem_cons_of_mem _ hcells)
  exact hfold rows 0 fun _ h => h

/-- Pass 1b sees every cell. -/
theorem spans_eq (want : CellSpec → Int) (rows : List (List CellSpec)) (w : Nat → Int) :
    spans (columnCount rows) want rows w = (allPlaced rows).foldl (putSpan want) w := by
  have hfold : ∀ (rs : List (List CellSpec)) (w : Nat → Int), (∀ cells ∈ rs, cells ∈ rows) →
      rs.foldl (fun w cells => spansRow (columnCount rows) want cells 0 w) w =
        (rs.flatMap (placed · 0)).foldl (putSpan want) w := by
    intro rs
    induction rs with
    | nil => exact fun w _ => rfl
    | cons r rs ih =>
        intro w hrs
        have hrow := rowSpan_le (hrs r List.mem_cons_self)
        rw [List.foldl_cons, spansRow_eq (by omega), List.flatMap_cons, List.foldl_append]
        exact ih _ fun cells hcells => hrs cells (List.mem_cons_of_mem _ hcells)
  exact hfold rows w fun _ h => h

/-! ### Columns get wider -/

/-- A cell in one column makes it as wide as it wants. -/
theorem putSingle_apply (w : Nat → Int) (p : Nat × CellSpec) (k : Nat) :
    putSingle want w p k = if p.2.span = 1 ∧ k = p.1 then max (w k) (want p.2) else w k := by
  rw [putSingle]
  by_cases hone : p.2.span = 1
  · by_cases hk : k = p.1
    · subst hk
      rw [if_pos (show p.2.span = 1 ∧ p.1 = p.1 from ⟨hone, rfl⟩)]
      split_ifs with h
      · rw [Function.update_self, max_eq_right h.2.le]
      · rw [max_eq_left (not_lt.mp fun hlt => h ⟨hone, hlt⟩)]
    · rw [if_neg (show ¬ (p.2.span = 1 ∧ k = p.1) from fun h => hk h.2)]
      split_ifs
      · rw [Function.update_of_ne hk]
      · rfl
  · rw [if_neg fun h => hone h.1, if_neg fun h => hone h.1]

theorem le_putSingle (w : Nat → Int) (p : Nat × CellSpec) : w ≤ putSingle want w p := by
  intro k
  show w k ≤ putSingle want w p k
  rw [putSingle_apply]
  split_ifs
  · exact le_max_left _ _
  · exact le_rfl

theorem spread_apply (w : Nat → Int) {col stop : Nat} (hcol : col < stop) (target : Int) (k : Nat) :
    spread w col stop target k =
      if target > ∑ k ∈ Ico col stop, w k ∧ col ≤ k ∧ k < stop then
        w k + (target - ∑ k ∈ Ico col stop, w k).tdiv (stop - col : Nat) +
          if k = stop - 1 then
            target - ∑ k ∈ Ico col stop, w k -
              (target - ∑ k ∈ Ico col stop, w k).tdiv (stop - col : Nat) * (stop - col : Nat)
          else 0
      else w k := by
  unfold spread
  dsimp only
  by_cases ht : target > ∑ k ∈ Ico col stop, w k
  · rw [if_pos (show target > ∑ k ∈ Ico col stop, w k ∧ stop > col from ⟨ht, hcol⟩)]
    by_cases hk : col ≤ k ∧ k < stop
    · rw [if_pos hk, if_pos (show target > ∑ k ∈ Ico col stop, w k ∧ col ≤ k ∧ k < stop from ⟨ht, hk⟩)]
      split_ifs
      · rfl
      · rw [Int.add_zero]
    · rw [if_neg hk, if_neg fun h => hk h.2]
  · rw [if_neg fun h => ht h.1, if_neg fun h => ht h.1]

theorem le_spread (w : Nat → Int) {col stop : Nat} (hcol : col < stop) (target : Int) :
    w ≤ spread w col stop target := by
  intro k
  show w k ≤ spread w col stop target k
  rw [spread_apply w hcol]
  split_ifs with h hlast
  all_goals try exact le_rfl
  all_goals
    have hadd : 0 ≤ target - ∑ k ∈ Ico col stop, w k := by omega
    have hn : (0 : Int) < (stop - col : Nat) := by omega
    generalize target - ∑ k ∈ Ico col stop, w k = add at hadd ⊢
    have heach : 0 ≤ add.tdiv (stop - col : Nat) := Int.tdiv_nonneg hadd hn.le
  · have hrest : add.tdiv (stop - col : Nat) * (stop - col : Nat) ≤ add := by
      rw [Int.tdiv_eq_ediv_of_nonneg hadd]
      exact Int.ediv_mul_le _ (ne_of_gt hn)
    omega
  · omega

/-- The columns of a spanning cell reach what it wants. -/
theorem sum_spread (w : Nat → Int) {col stop : Nat} (hcol : col < stop) (target : Int) :
    ∑ k ∈ Ico col stop, spread w col stop target k = max (∑ k ∈ Ico col stop, w k) target := by
  by_cases ht : target > ∑ k ∈ Ico col stop, w k
  · have hcols : ∀ k ∈ Ico col stop, spread w col stop target k =
        w k + ((target - ∑ k ∈ Ico col stop, w k).tdiv (stop - col : Nat) +
          if k = stop - 1 then
            target - ∑ k ∈ Ico col stop, w k -
              (target - ∑ k ∈ Ico col stop, w k).tdiv (stop - col : Nat) * (stop - col : Nat)
          else 0) := by
      intro k hk
      rw [spread_apply w hcol, if_pos ⟨ht, mem_Ico.mp hk⟩, Int.add_assoc]
    have hlast : stop - 1 ∈ Ico col stop := mem_Ico.mpr ⟨by omega, by omega⟩
    rw [sum_congr rfl hcols, sum_add_distrib, sum_add_distrib, sum_ite_eq' _ (stop - 1), if_pos hlast, sum_const,
      Nat.card_Ico, nsmul_eq_mul, Int.mul_comm (stop - col : Nat), max_eq_right (le_of_lt ht)]
    omega
  · have hcols : ∀ k ∈ Ico col stop, spread w col stop target k = w k := by
      intro k _
      rw [spread_apply w hcol, if_neg fun h => ht h.1]
    rw [sum_congr rfl hcols, max_eq_left (not_lt.mp ht)]

theorem le_putSpan (w : Nat → Int) (p : Nat × CellSpec) : w ≤ putSpan want w p := by
  have hpos := span_pos p.2
  rw [putSpan]
  split_ifs
  · exact le_spread w (by omega) _
  · exact le_rfl

theorem le_foldl {put : (Nat → Int) → Nat × CellSpec → Nat → Int} (hput : ∀ w p, w ≤ put w p)
    (ps : List (Nat × CellSpec)) (w : Nat → Int) : w ≤ ps.foldl put w := by
  induction ps generalizing w with
  | nil => exact le_rfl
  | cons p ps ih => exact le_trans (hput w p) (ih _)

/-- What a cell has behind its turn it keeps. -/
theorem foldl_covers {put : (Nat → Int) → Nat × CellSpec → Nat → Int} (hput : ∀ w p, w ≤ put w p)
    {p : Nat × CellSpec} (hp : ∀ w, want p.2 ≤ ∑ k ∈ Ico p.1 (p.1 + p.2.span), put w p k)
    {ps : List (Nat × CellSpec)} (hmem : p ∈ ps) (w : Nat → Int) :
    want p.2 ≤ ∑ k ∈ Ico p.1 (p.1 + p.2.span), ps.foldl put w k := by
  induction ps generalizing w with
  | nil => exact absurd hmem List.not_mem_nil
  | cons q ps ih =>
      rcases List.mem_cons.mp hmem with rfl | hmem
      · exact le_trans (hp w) (sum_le_sum fun k _ => le_foldl hput ps _ k)
      · exact ih hmem _

/-- The columns of every cell are together as wide as the cell wants. -/
theorem passes_cover {p : Nat × CellSpec} (hp : p ∈ allPlaced rows) :
    want p.2 ≤ ∑ k ∈ Ico p.1 (p.1 + p.2.span),
      spans (columnCount rows) want rows (singles (columnCount rows) want rows) k := by
  have hpos := span_pos p.2
  rw [spans_eq, singles_eq]
  by_cases hone : p.2.span = 1
  · have hcover : want p.2 ≤ ∑ k ∈ Ico p.1 (p.1 + p.2.span), (allPlaced rows).foldl (putSingle want) 0 k := by
      refine foldl_covers le_putSingle (fun w => ?_) hp 0
      rw [hone, Nat.Ico_succ_singleton, sum_singleton, putSingle_apply, if_pos ⟨hone, rfl⟩]
      exact le_max_right _ _
    exact le_trans hcover (sum_le_sum fun k _ => le_foldl le_putSpan _ _ k)
  · refine foldl_covers le_putSpan (fun w => ?_) hp _
    rw [putSpan, if_pos (by omega), sum_spread w (by omega)]
    exact le_max_right _ _

theorem singles_nonneg (want : CellSpec → Int) (rows : List (List CellSpec)) (c : Nat) :
    0 ≤ singles (columnCount rows) want rows c := by
  rw [singles_eq]
  exact le_foldl le_putSingle _ 0 c

theorem passes_nonneg (want want' : CellSpec → Int) (rows : List (List CellSpec)) (c : Nat) :
    0 ≤ spans (columnCount rows) want rows (singles (columnCount rows) want' rows) c := by
  rw [spans_eq]
  exact le_trans (singles_nonneg want' rows c) (le_foldl le_putSpan _ _ c)

end UnicornSuite.WebLayout
