import UnicornSuite.WebColumns

/-! The width of a nested table as the columns around it measure it, against the width it is laid out
with. The two go apart where an explicit width of a cell is more than its contents need, where a natural
width is less than a minimum, where the minimums of spanning cells go to other columns than their
preferred widths, and where a column would be narrower than four pixels. In a table without such cells
the conditions are exact (`intrinsic_agrees`). -/

namespace UnicornSuite.WebLayout

open Finset Shares

/-! ### The passes of two algorithms -/

section

variable {rows : List (List CellSpec)} {want want' : CellSpec → Int}

theorem mem_of_allPlaced {p : Nat × CellSpec} (h : p ∈ allPlaced rows) : ∃ cells ∈ rows, p.2 ∈ cells := by
  obtain ⟨cells, hcells, hp⟩ := List.mem_flatMap.mp h
  exact ⟨cells, hcells, (placed_le hp).2.2⟩

theorem singles_congr (h : ∀ cells ∈ rows, ∀ c ∈ cells, want c = want' c) :
    singles (columnCount rows) want rows = singles (columnCount rows) want' rows := by
  rw [singles_eq, singles_eq]
  refine List.foldl_ext _ _ _ fun w p hp => ?_
  obtain ⟨cells, hcells, hc⟩ := mem_of_allPlaced hp
  rw [putSingle, putSingle, h cells hcells p.2 hc]

theorem spans_congr (h : ∀ cells ∈ rows, ∀ c ∈ cells, want c = want' c) (w : Nat → Int) :
    spans (columnCount rows) want rows w = spans (columnCount rows) want' rows w := by
  rw [spans_eq, spans_eq]
  refine List.foldl_ext _ _ _ fun w p hp => ?_
  obtain ⟨cells, hcells, hc⟩ := mem_of_allPlaced hp
  rw [putSpan, putSpan, h cells hcells p.2 hc]

/-- Columns of cells that want more are wider. -/
theorem singles_mono (h : ∀ cells ∈ rows, ∀ c ∈ cells, want c ≤ want' c) :
    singles (columnCount rows) want rows ≤ singles (columnCount rows) want' rows := by
  have hfold : ∀ (ps : List (Nat × CellSpec)), (∀ p ∈ ps, want p.2 ≤ want' p.2) → ∀ w w' : Nat → Int, w ≤ w' →
      ps.foldl (putSingle want) w ≤ ps.foldl (putSingle want') w' := by
    intro ps
    induction ps with
    | nil => exact fun _ w w' hw => hw
    | cons p ps ih =>
        intro hps w w' hw
        refine ih (fun q hq => hps q (List.mem_cons_of_mem _ hq)) _ _ fun k => ?_
        have hp := hps p List.mem_cons_self
        show putSingle want w p k ≤ putSingle want' w' p k
        rw [putSingle_apply, putSingle_apply]
        split_ifs
        · exact max_le_max (hw k) hp
        · exact hw k
  rw [singles_eq, singles_eq]
  refine hfold _ (fun p hp => ?_) 0 0 le_rfl
  obtain ⟨cells, hcells, hc⟩ := mem_of_allPlaced hp
  exact h cells hcells p.2 hc

/-- Columns of cells that want the larger of two widths have the larger of two widths. -/
theorem singles_max (want want' : CellSpec → Int) (rows : List (List CellSpec)) (c : Nat) :
    singles (columnCount rows) (fun c => max (want c) (want' c)) rows c =
      max (singles (columnCount rows) want rows c) (singles (columnCount rows) want' rows c) := by
  have hfold : ∀ (ps : List (Nat × CellSpec)) (w w' : Nat → Int),
      ps.foldl (putSingle fun c => max (want c) (want' c)) (fun k => max (w k) (w' k)) =
        fun k => max (ps.foldl (putSingle want) w k) (ps.foldl (putSingle want') w' k) := by
    intro ps
    induction ps with
    | nil => exact fun _ _ => rfl
    | cons p ps ih =>
        intro w w'
        have hput : putSingle (fun c => max (want c) (want' c)) (fun k => max (w k) (w' k)) p =
            fun k => max (putSingle want w p k) (putSingle want' w' p k) := by
          funext k
          rw [putSingle_apply, putSingle_apply, putSingle_apply]
          split_ifs
          · exact max_max_max_comm _ _ _ _
          · rfl
        rw [List.foldl_cons, List.foldl_cons, List.foldl_cons, hput]
        exact ih _ _
  rw [singles_eq, singles_eq, singles_eq]
  have hzero : (0 : Nat → Int) = fun k => max ((0 : Nat → Int) k) ((0 : Nat → Int) k) := by
    funext k
    exact (max_self _).symm
  conv_lhs => rw [hzero]
  rw [hfold]

/-- No cell spans columns. -/
def Unspanned (rows : List (List CellSpec)) : Prop := ∀ cells ∈ rows, ∀ c ∈ cells, c.span = 1

theorem spans_unspanned (h : Unspanned rows) (want : CellSpec → Int) (w : Nat → Int) :
    spans (columnCount rows) want rows w = w := by
  have hfold : ∀ ps : List (Nat × CellSpec), (∀ p ∈ ps, p.2.span = 1) → ps.foldl (putSpan want) w = w := by
    intro ps
    induction ps with
    | nil => exact fun _ => rfl
    | cons p ps ih =>
        intro hps
        have hone := hps p List.mem_cons_self
        rw [List.foldl_cons, putSpan, if_neg (by omega)]
        exact ih fun q hq => hps q (List.mem_cons_of_mem _ hq)
  rw [spans_eq]
  refine hfold _ fun p hp => ?_
  obtain ⟨cells, hcells, hc⟩ := mem_of_allPlaced hp
  exact h cells hcells p.2 hc

end

/-! ### Sums -/

section

variable {n : Nat} {f g : Nat → Int}

theorem sum_range_eq_iff (h : ∀ c < n, f c ≤ g c) :
    ∑ c ∈ range n, f c = ∑ c ∈ range n, g c ↔ ∀ c < n, f c = g c := by
  rw [sum_eq_sum_iff_of_le fun c hc => h c (mem_range.mp hc)]
  exact ⟨fun heq c hc => heq c (mem_range.mpr hc), fun heq c hc => heq c (mem_range.mp hc)⟩

end

/-! ### The narrowest table -/

section

variable (rows : List (List CellSpec))

/-- In a budget of four pixels a column the columns are at their minimums. -/
def Cramped : Prop :=
  columnCount rows * 4 ≤ sumMin rows ∨
    (sumDesired rows ≤ columnCount rows * 4 ∧ ∀ c < columnCount rows, desired rows c = minW rows c) ∨
    (columnCount rows * 4 < sumDesired rows ∧ ∀ c < columnCount rows,
      (columnCount rows * 4 - sumMin rows) * (desired rows c - minW rows c) < sumDesired rows - sumMin rows)

variable {rows} {budget : Int}

theorem resolve_tight (hpos : 0 < sumDesired rows) (hbudget : budget ≤ sumMin rows) :
    ∑ c ∈ range (columnCount rows), resolve rows false budget c = sumMin rows := by
  have hle := sumMin_le_sumDesired rows
  rcases @resolve_cases rows false budget hpos with
    ⟨h, -⟩ | ⟨h, -⟩ | ⟨hfit, -, heq⟩ | ⟨-, -, heq⟩ | ⟨-, hlt, -⟩
  · cases h
  · cases h
  · rw [heq]
    show sumDesired rows = sumMin rows
    omega
  · rw [heq]
    rfl
  · omega

theorem resolve_loose (hpos : 0 < sumDesired rows) (hbudget : sumDesired rows ≤ budget) :
    ∑ c ∈ range (columnCount rows), resolve rows false budget c = sumDesired rows := by
  rcases @resolve_cases rows false budget hpos with
    ⟨h, -⟩ | ⟨h, -⟩ | ⟨-, -, heq⟩ | ⟨hlt, -⟩ | ⟨hlt, -⟩
  · cases h
  · cases h
  · rw [heq]
    rfl
  · omega
  · omega

/-- A budget above the minimums leaves the columns at their minimums when there is nothing to give. -/
theorem resolve_between_iff (hpos : 0 < sumDesired rows) (hbudget : sumMin rows < budget) :
    ∑ c ∈ range (columnCount rows), resolve rows false budget c = sumMin rows ↔
      (sumDesired rows ≤ budget ∧ ∀ c < columnCount rows, desired rows c = minW rows c) ∨
      (budget < sumDesired rows ∧ ∀ c < columnCount rows,
        (budget - sumMin rows) * (desired rows c - minW rows c) < sumDesired rows - sumMin rows) := by
  rcases @resolve_cases rows false budget hpos with
    ⟨h, -⟩ | ⟨h, -⟩ | ⟨hfit, -, heq⟩ | ⟨-, hmin, -⟩ | ⟨hlt, -, heq⟩
  · cases h
  · cases h
  · have hsums := sum_range_eq_iff (n := columnCount rows) fun c _ => minW_le_desired rows c
    rw [heq, eq_comm, sumMin, hsums]
    constructor
    · exact fun h => .inl ⟨hfit, fun c hc => (h c hc).symm⟩
    · rintro (⟨-, h⟩ | ⟨h, -⟩)
      · exact fun c hc => (h c hc).symm
      · omega
  · omega
  · have hgive : ∀ c, 0 ≤ desired rows c - minW rows c := fun c => Int.sub_nonneg_of_le (minW_le_desired rows c)
    have hzero : ∀ c, share (budget - sumMin rows) (sumDesired rows - sumMin rows) (desired rows c - minW rows c) = 0 ↔
        (budget - sumMin rows) * (desired rows c - minW rows c) < sumDesired rows - sumMin rows :=
      fun c => share_eq_zero_iff (by omega) (by omega) (hgive c)
    have hshares := sum_eq_zero_iff_of_nonneg (s := range (columnCount rows))
      (f := fun c => share (budget - sumMin rows) (sumDesired rows - sumMin rows) (desired rows c - minW rows c))
      fun c _ => share_nonneg (by omega) (by omega) (hgive c)
    rw [heq, sum_add_distrib]
    constructor
    · intro h
      have hnone := hshares.mp (by
        show _ = _
        have hsum : sumMin rows + _ = sumMin rows := h
        omega)
      exact .inr ⟨hlt, fun c hc => (hzero c).mp (hnone c (mem_range.mpr hc))⟩
    · rintro (⟨h, -⟩ | ⟨-, h⟩)
      · omega
      · have hnone := hshares.mpr fun c hc => (hzero c).mpr (h c (mem_range.mp hc))
        show sumMin rows + _ = sumMin rows
        omega

end

/-! ### Outer widths -/

/-- The outer width of a table that is laid out; without columns it takes no room. -/
def Grid.outerW (g : Grid) : Int := if g.ncols = 0 then 0 else g.tableW

section

variable {m : Metrics} {t : Table Block} (hwidth : t.explicitW = false)

theorem outerW_eq (align : Web.HAlign) (x0 y width : Int) (v : View) (hcols : 0 < columnCount (rowSpecs m t.rows)) :
    (tableGrid m t align x0 y width v).outerW =
      ∑ c ∈ range (columnCount (rowSpecs m t.rows)), tableColumns m t width c +
        t.chrome (columnCount (rowSpecs m t.rows)) :=
  if_neg (Nat.ne_of_gt hcols)

theorem tableIntrinsicWidth_eq (wantMin : Bool) (hcols : 0 < columnCount (rowSpecs m t.rows)) :
    tableIntrinsicWidth m t wantMin =
      ∑ c ∈ range (columnCount (rowSpecs m t.rows)),
        spans (columnCount (rowSpecs m t.rows)) (CellSpec.intrinsic wantMin) (rowSpecs m t.rows)
          (singles (columnCount (rowSpecs m t.rows)) (CellSpec.intrinsic wantMin) (rowSpecs m t.rows)) c +
        t.chrome (columnCount (rowSpecs m t.rows)) :=
  if_neg (Nat.ne_of_gt hcols)

theorem chrome_nonneg {β : Type} (t : Table β) (ncols : Nat) : 0 ≤ t.chrome ncols := by
  have hpad := pad_nonneg t
  have hspc := spc_nonneg t
  rw [Table.chrome, chromeOf]
  have hgaps : 0 ≤ t.spc * (ncols + 1) := Int.mul_nonneg hspc (by omega)
  have hpads : 0 ≤ 2 * t.pad * ncols := Int.mul_nonneg (by omega) (by omega)
  omega

theorem rowSpecs_pos (hcols : 0 < columnCount (rowSpecs m t.rows)) : 0 < sumMin (rowSpecs m t.rows) :=
  sumMin_pos (fun _ hcells _ hc => lt_of_lt_of_le (by decide) (rowSpecs_min m hcells hc).1) hcols

include hwidth

theorem budget_eq (ncols : Nat) (width : Int) :
    t.budget ncols width =
      if (if width < 1 then 1 else width) - t.chrome ncols < ncols * 4 then (ncols : Int) * 4
      else (if width < 1 then 1 else width) - t.chrome ncols := by
  unfold Table.budget
  dsimp only
  rw [hwidth]
  rfl

/-- With room for what the columns want, they get it. -/
theorem outerW_loose (align : Web.HAlign) (x0 y : Int) {width : Int} (v : View)
    (hcols : 0 < columnCount (rowSpecs m t.rows))
    (hroom : sumDesired (rowSpecs m t.rows) + t.chrome (columnCount (rowSpecs m t.rows)) ≤ width) :
    (tableGrid m t align x0 y width v).outerW =
      sumDesired (rowSpecs m t.rows) + t.chrome (columnCount (rowSpecs m t.rows)) := by
  have hpos := lt_of_lt_of_le (rowSpecs_pos hcols) (sumMin_le_sumDesired (rowSpecs m t.rows))
  have hbudget : sumDesired (rowSpecs m t.rows) ≤ t.budget (columnCount (rowSpecs m t.rows)) width := by
    rw [budget_eq hwidth]
    split_ifs <;> omega
  rw [outerW_eq align x0 y width v hcols, tableColumns, hwidth, resolve_loose hpos hbudget]

/-- With less room than the minimums need, the columns are at their minimums, save in a cramped table. -/
theorem outerW_narrow_iff (align : Web.HAlign) (x0 y : Int) {width : Int} (v : View)
    (hcols : 0 < columnCount (rowSpecs m t.rows))
    (hroom : width < sumMin (rowSpecs m t.rows) + t.chrome (columnCount (rowSpecs m t.rows))) :
    (tableGrid m t align x0 y width v).outerW =
      sumMin (rowSpecs m t.rows) + t.chrome (columnCount (rowSpecs m t.rows)) ↔ Cramped (rowSpecs m t.rows) := by
  have hmin := rowSpecs_pos hcols
  have hpos := lt_of_lt_of_le hmin (sumMin_le_sumDesired (rowSpecs m t.rows))
  have hchrome := chrome_nonneg t (columnCount (rowSpecs m t.rows))
  have hbudget := budget_eq hwidth (columnCount (rowSpecs m t.rows)) width
  rw [outerW_eq align x0 y width v hcols, tableColumns, hwidth]
  by_cases hfloor : columnCount (rowSpecs m t.rows) * 4 ≤ sumMin (rowSpecs m t.rows)
  · have htight : t.budget (columnCount (rowSpecs m t.rows)) width ≤ sumMin (rowSpecs m t.rows) := by
      rw [hbudget]
      split_ifs <;> omega
    rw [resolve_tight hpos htight]
    exact ⟨fun _ => .inl hfloor, fun _ => rfl⟩
  · have hfour : t.budget (columnCount (rowSpecs m t.rows)) width = columnCount (rowSpecs m t.rows) * 4 := by
      rw [hbudget]
      split_ifs <;> omega
    rw [hfour, add_left_inj, resolve_between_iff hpos (not_le.mp hfloor), Cramped]
    exact ⟨.inr, fun h => h.resolve_left hfloor⟩

end

/-! ### Agreement -/

section

variable (m : Metrics) (t : Table Block)

/-- A table is as wide in another one as it is laid out: when there is room for all of it, and when there
is not even room for its minimums. -/
structure Agrees : Prop where
  unlimited : ∀ (align : Web.HAlign) (x0 y width : Int) (v : View),
    sumDesired (rowSpecs m t.rows) + t.chrome (columnCount (rowSpecs m t.rows)) ≤ width →
      (tableGrid m t align x0 y width v).outerW = tableIntrinsicWidth m t false
  narrow : ∀ (align : Web.HAlign) (x0 y width : Int) (v : View),
    width < sumMin (rowSpecs m t.rows) + t.chrome (columnCount (rowSpecs m t.rows)) →
      (tableGrid m t align x0 y width v).outerW = tableIntrinsicWidth m t true

end

/-- No explicit width is more than the cell needs, and every natural width is as much as it needs. -/
def Plain (rows : List (List CellSpec)) : Prop :=
  ∀ cells ∈ rows, ∀ c ∈ cells, c.widthPx ≤ c.min ∧ c.min ≤ c.nat

section

variable {rows : List (List CellSpec)}

theorem Plain.intrinsic_min (h : Plain rows) {cells : List CellSpec} (hcells : cells ∈ rows) {c : CellSpec}
    (hc : c ∈ cells) : c.intrinsic true = c.min := by
  have hplain := (h cells hcells c hc).1
  unfold CellSpec.intrinsic
  dsimp only
  rw [if_pos rfl, if_neg (by omega)]

theorem Plain.intrinsic_nat (h : Plain rows) {cells : List CellSpec} (hcells : cells ∈ rows) {c : CellSpec}
    (hc : c ∈ cells) : c.intrinsic false = c.nat ∧ c.pref = c.nat ∧ c.spanPref = c.nat := by
  obtain ⟨hpx, hnat⟩ := h cells hcells c hc
  have hpref : c.pref = c.nat := if_neg (by omega)
  refine ⟨?_, hpref, ?_⟩
  · unfold CellSpec.intrinsic
    dsimp only
    rw [if_neg Bool.false_ne_true, if_neg (by omega)]
  · rw [CellSpec.spanPref, hpref, if_neg (by omega)]

/-- In a plain table the columns that a nested measure of the minimums finds are the minimums. -/
theorem Plain.minW_eq (h : Plain rows) :
    spans (columnCount rows) (CellSpec.intrinsic true) rows
      (singles (columnCount rows) (CellSpec.intrinsic true) rows) = minW rows := by
  rw [singles_congr fun cells hcells c hc => h.intrinsic_min hcells hc,
    spans_congr fun cells hcells c hc => h.intrinsic_min hcells hc]
  rfl

theorem Plain.prefW_eq (h : Plain rows) :
    spans (columnCount rows) (CellSpec.intrinsic false) rows
      (singles (columnCount rows) (CellSpec.intrinsic false) rows) = prefW rows := by
  have hsingles : ∀ cells ∈ rows, ∀ c ∈ cells, c.intrinsic false = c.pref := fun cells hcells c hc =>
    (h.intrinsic_nat hcells hc).1.trans (h.intrinsic_nat hcells hc).2.1.symm
  have hspans : ∀ cells ∈ rows, ∀ c ∈ cells, c.intrinsic false = c.spanPref := fun cells hcells c hc =>
    (h.intrinsic_nat hcells hc).1.trans (h.intrinsic_nat hcells hc).2.2.symm
  rw [singles_congr hsingles, spans_congr hspans]
  rfl

/-- In a plain table the explicit widths are met by the minimums. -/
theorem Plain.colTgt_le (h : Plain rows) (c : Nat) : colTgt rows c ≤ minW rows c := by
  have hsingles := @singles_mono rows CellSpec.widthPx CellSpec.min
    (fun cells hcells c hc => (h cells hcells c hc).1) c
  refine le_trans hsingles ?_
  rw [minW, spans_eq]
  exact le_foldl le_putSpan _ _ c

theorem Plain.desired_eq (h : Plain rows) (c : Nat) : desired rows c = max (prefW rows c) (minW rows c) := by
  have htgt := h.colTgt_le c
  unfold desired
  dsimp only
  split_ifs <;> omega

theorem Plain.sumDesired_iff (h : Plain rows) :
    sumDesired rows = ∑ c ∈ range (columnCount rows), prefW rows c ↔
      ∀ c < columnCount rows, minW rows c ≤ prefW rows c := by
  have hsums := sum_range_eq_iff (n := columnCount rows) (f := prefW rows) (g := desired rows)
    fun c _ => by rw [h.desired_eq]; exact le_max_left _ _
  rw [sumDesired, eq_comm, hsums]
  refine forall₂_congr fun c _ => ?_
  rw [h.desired_eq, eq_comm, max_eq_left_iff]

end

/-- A plain table without a width of its own is as wide in another one as it is laid out exactly when no
column's minimum comes out above its preferred width and it is not cramped. -/
theorem plain_agrees_iff {m : Metrics} {t : Table Block} (hwidth : t.explicitW = false)
    (hplain : Plain (rowSpecs m t.rows)) :
    Agrees m t ↔ (∀ c < columnCount (rowSpecs m t.rows),
      minW (rowSpecs m t.rows) c ≤ prefW (rowSpecs m t.rows) c) ∧ Cramped (rowSpecs m t.rows) := by
  rcases Nat.eq_zero_or_pos (columnCount (rowSpecs m t.rows)) with hnone | hcols
  · have houter : ∀ align x0 y width v, (tableGrid m t align x0 y width v).outerW = 0 :=
      fun align x0 y width v => if_pos hnone
    have hintrinsic : ∀ wantMin, tableIntrinsicWidth m t wantMin = 0 := fun wantMin => if_pos hnone
    refine ⟨fun _ => ⟨fun c hc => absurd hc (by omega), .inl ?_⟩, fun _ => ⟨?_, ?_⟩⟩
    · rw [sumMin, hnone]
      simp
    · exact fun align x0 y width v _ => (houter _ _ _ _ _).trans (hintrinsic false).symm
    · exact fun align x0 y width v _ => (houter _ _ _ _ _).trans (hintrinsic true).symm
  · have hmin : tableIntrinsicWidth m t true =
        sumMin (rowSpecs m t.rows) + t.chrome (columnCount (rowSpecs m t.rows)) := by
      rw [tableIntrinsicWidth_eq true hcols, hplain.minW_eq]
      rfl
    have hnat : tableIntrinsicWidth m t false =
        ∑ c ∈ range (columnCount (rowSpecs m t.rows)), prefW (rowSpecs m t.rows) c +
          t.chrome (columnCount (rowSpecs m t.rows)) := by
      rw [tableIntrinsicWidth_eq false hcols, hplain.prefW_eq]
    have hpos := rowSpecs_pos hcols
    have hchrome := chrome_nonneg t (columnCount (rowSpecs m t.rows))
    rw [← hplain.sumDesired_iff]
    constructor
    · intro h
      have hloose := h.unlimited .left 0 0 _ {} le_rfl
      have hnarrow := h.narrow .left 0 0 0 {} (by omega)
      rw [outerW_loose hwidth _ _ _ _ hcols le_rfl, hnat, add_left_inj] at hloose
      rw [hmin] at hnarrow
      exact ⟨hloose, (outerW_narrow_iff hwidth _ _ _ _ hcols (by omega)).mp hnarrow⟩
    · rintro ⟨hsums, hcramped⟩
      refine ⟨fun align x0 y width v hroom => ?_, fun align x0 y width v hroom => ?_⟩
      · rw [outerW_loose hwidth _ _ _ _ hcols hroom, hnat, hsums]
      · rw [hmin]
        exact (outerW_narrow_iff hwidth _ _ _ _ hcols hroom).mpr hcramped

/-! ### Tables without spanning cells -/

section

variable {rows : List (List CellSpec)}

/-- The natural width of a column. -/
def natW (rows : List (List CellSpec)) : Nat → Int := singles (columnCount rows) CellSpec.nat rows

theorem Unspanned.column (h : Unspanned rows) {c : Nat} (hc : c < columnCount rows) : ∃ p ∈ allPlaced rows, p.1 = c := by
  have hrow : ∀ (cells : List CellSpec) (col : Nat), (∀ c ∈ cells, c.span = 1) → col ≤ c → c < col + rowSpan cells →
      ∃ p ∈ placed cells col, p.1 = c := by
    intro cells
    induction cells with
    | nil => exact fun col _ hle hlt => absurd hlt (not_lt.mpr hle)
    | cons c' cells ih =>
        intro col hone hle hlt
        have hspan : rowSpan (c' :: cells) = c'.span + rowSpan cells := List.sum_cons
        have hfirst := hone c' List.mem_cons_self
        by_cases hcol : col = c
        · exact ⟨(col, c'), List.mem_cons_self, hcol⟩
        · obtain ⟨p, hp, hpc⟩ := ih (col + c'.span) (fun c hc => hone c (List.mem_cons_of_mem _ hc)) (by omega) (by omega)
          exact ⟨p, List.mem_cons_of_mem _ hp, hpc⟩
  obtain ⟨cells, hcells, hspan⟩ := exists_rowSpan (Nat.zero_lt_of_lt hc)
  obtain ⟨p, hp, hpc⟩ := hrow cells 0 (h cells hcells) (Nat.zero_le c) (by omega)
  exact ⟨p, List.mem_flatMap.mpr ⟨cells, hcells, hp⟩, hpc⟩

/-- No column is less than four pixels wide. -/
theorem Unspanned.four_le (h : Unspanned rows) (hmin : ∀ cells ∈ rows, ∀ c ∈ cells, 8 ≤ c.min) :
    columnCount rows * 4 ≤ sumMin rows := by
  have hcol : ∀ c ∈ range (columnCount rows), 4 ≤ minW rows c := by
    intro c hc
    obtain ⟨p, hp, rfl⟩ := h.column (mem_range.mp hc)
    obtain ⟨cells, hcells, hmem⟩ := mem_of_allPlaced hp
    have hcover := @passes_cover CellSpec.min rows p hp
    rw [h cells hcells p.2 hmem, Nat.Ico_succ_singleton, sum_singleton] at hcover
    have hcell := hmin cells hcells p.2 hmem
    exact le_trans (by omega) hcover
  have hsum := card_nsmul_le_sum _ _ _ hcol
  rw [card_range, nsmul_eq_mul] at hsum
  exact hsum

theorem intrinsic_eq_max {wantMin : Bool} {c : CellSpec} (h : 0 ≤ if wantMin then c.min else c.nat) :
    c.intrinsic wantMin = max (if wantMin then c.min else c.nat) c.widthPx := by
  unfold CellSpec.intrinsic
  dsimp only
  generalize (if wantMin = true then c.min else c.nat) = w at h ⊢
  split_ifs <;> omega

theorem pref_eq_max (c : CellSpec) : c.pref = max c.nat c.min := by
  rw [CellSpec.pref]
  split_ifs <;> omega

variable (h : Unspanned rows) (hcells : ∀ cells ∈ rows, ∀ c ∈ cells, 8 ≤ c.min ∧ 20 ≤ c.nat)

include h

theorem Unspanned.minW_eq : minW rows = singles (columnCount rows) CellSpec.min rows := spans_unspanned h _ _

theorem Unspanned.desired_eq (c : Nat) :
    desired rows c = max (max (natW rows c) (minW rows c)) (colTgt rows c) := by
  have hpref : prefW rows c = max (natW rows c) (minW rows c) := by
    rw [prefW, spans_unspanned h, singles_congr fun _ _ c _ => pref_eq_max c, singles_max, h.minW_eq]
    rfl
  unfold desired
  dsimp only
  rw [hpref]
  split_ifs <;> omega

include hcells

/-- The columns of a nested measure are as wide as the contents or the explicit width asks. -/
theorem Unspanned.intrinsic_eq (wantMin : Bool) (c : Nat) :
    spans (columnCount rows) (CellSpec.intrinsic wantMin) rows
      (singles (columnCount rows) (CellSpec.intrinsic wantMin) rows) c =
      max (if wantMin then minW rows c else natW rows c) (colTgt rows c) := by
  have hwant : ∀ cells ∈ rows, ∀ c ∈ cells,
      c.intrinsic wantMin = max (if wantMin then c.min else c.nat) c.widthPx := by
    intro cells hrow c hc
    have hcell := hcells cells hrow c hc
    exact intrinsic_eq_max (by split_ifs <;> omega)
  rw [spans_unspanned h, singles_congr hwant, singles_max]
  cases wantMin
  · rfl
  · rw [h.minW_eq]
    rfl

end

/-- A table without spanning cells and without a width of its own is as wide in another one as it is laid
out exactly when the explicit widths do not exceed the minimums and natural or explicit widths reach
them. -/
theorem unspanned_agrees_iff {m : Metrics} {t : Table Block} (hwidth : t.explicitW = false)
    (hspan : Unspanned (rowSpecs m t.rows)) :
    Agrees m t ↔ ∀ c < columnCount (rowSpecs m t.rows),
      colTgt (rowSpecs m t.rows) c ≤ minW (rowSpecs m t.rows) c ∧
        minW (rowSpecs m t.rows) c ≤ max (natW (rowSpecs m t.rows) c) (colTgt (rowSpecs m t.rows) c) := by
  rcases Nat.eq_zero_or_pos (columnCount (rowSpecs m t.rows)) with hnone | hcols
  · have houter : ∀ align x0 y width v, (tableGrid m t align x0 y width v).outerW = 0 :=
      fun align x0 y width v => if_pos hnone
    have hintrinsic : ∀ wantMin, tableIntrinsicWidth m t wantMin = 0 := fun wantMin => if_pos hnone
    refine ⟨fun _ c hc => absurd hc (by omega), fun _ => ⟨?_, ?_⟩⟩
    · exact fun align x0 y width v _ => (houter _ _ _ _ _).trans (hintrinsic false).symm
    · exact fun align x0 y width v _ => (houter _ _ _ _ _).trans (hintrinsic true).symm
  · have hcells : ∀ cells ∈ rowSpecs m t.rows, ∀ c ∈ cells, 8 ≤ c.min ∧ 20 ≤ c.nat :=
      fun cells hcells c hc => rowSpecs_min m hcells hc
    have hcramped : Cramped (rowSpecs m t.rows) :=
      .inl (hspan.four_le fun cells hrow c hc => (hcells cells hrow c hc).1)
    have hpos := rowSpecs_pos hcols
    have hchrome := chrome_nonneg t (columnCount (rowSpecs m t.rows))
    have hnarrow : sumMin (rowSpecs m t.rows) + t.chrome (columnCount (rowSpecs m t.rows)) =
        tableIntrinsicWidth m t true ↔ ∀ c < columnCount (rowSpecs m t.rows),
          colTgt (rowSpecs m t.rows) c ≤ minW (rowSpecs m t.rows) c := by
      rw [tableIntrinsicWidth_eq true hcols, add_left_inj,
        sum_congr rfl fun c _ => hspan.intrinsic_eq hcells true c, sumMin]
      simp only [↓reduceIte]
      rw [sum_range_eq_iff fun c _ => le_max_left _ _]
      refine forall₂_congr fun c _ => ?_
      rw [eq_comm, max_eq_left_iff]
    have hloose : sumDesired (rowSpecs m t.rows) + t.chrome (columnCount (rowSpecs m t.rows)) =
        tableIntrinsicWidth m t false ↔ ∀ c < columnCount (rowSpecs m t.rows),
          minW (rowSpecs m t.rows) c ≤ max (natW (rowSpecs m t.rows) c) (colTgt (rowSpecs m t.rows) c) := by
      have hle : ∀ c < columnCount (rowSpecs m t.rows),
          max (natW (rowSpecs m t.rows) c) (colTgt (rowSpecs m t.rows) c) ≤ desired (rowSpecs m t.rows) c := by
        intro c _
        rw [hspan.desired_eq]
        omega
      rw [tableIntrinsicWidth_eq false hcols, add_left_inj,
        sum_congr rfl fun c _ => hspan.intrinsic_eq hcells false c, sumDesired, eq_comm]
      simp only [Bool.false_eq_true, ↓reduceIte]
      rw [sum_range_eq_iff hle]
      refine forall₂_congr fun c _ => ?_
      rw [hspan.desired_eq]
      omega
    have hkept : ∀ align x0 y width v, width < sumMin (rowSpecs m t.rows) +
        t.chrome (columnCount (rowSpecs m t.rows)) → (tableGrid m t align x0 y width v).outerW =
          sumMin (rowSpecs m t.rows) + t.chrome (columnCount (rowSpecs m t.rows)) :=
      fun align x0 y width v hroom => (outerW_narrow_iff hwidth align x0 y v hcols hroom).mpr hcramped
    rw [forall₂_and, ← hnarrow, ← hloose]
    constructor
    · intro h
      refine ⟨(hkept .left 0 0 0 {} (by omega)).symm.trans (h.narrow .left 0 0 0 {} (by omega)), ?_⟩
      exact (outerW_loose hwidth .left 0 0 {} hcols le_rfl).symm.trans (h.unlimited .left 0 0 _ {} le_rfl)
    · rintro ⟨hmin, hwants⟩
      exact ⟨fun align x0 y width v hroom => (outerW_loose hwidth align x0 y v hcols hroom).trans hwants,
        fun align x0 y width v hroom => (hkept align x0 y width v hroom).trans hmin⟩

/-- A table without a width of its own is as wide in another one as it is laid out: in a plain table
exactly when no minimum comes out above a preferred width and it is not cramped, and without spanning
cells exactly when each column's minimum lies between its explicit width and the larger of that and its
natural width. -/
theorem intrinsic_agrees {m : Metrics} {t : Table Block} (hwidth : t.explicitW = false) :
    (Plain (rowSpecs m t.rows) → (Agrees m t ↔ (∀ c < columnCount (rowSpecs m t.rows),
      minW (rowSpecs m t.rows) c ≤ prefW (rowSpecs m t.rows) c) ∧ Cramped (rowSpecs m t.rows))) ∧
    (Unspanned (rowSpecs m t.rows) → (Agrees m t ↔ ∀ c < columnCount (rowSpecs m t.rows),
      colTgt (rowSpecs m t.rows) c ≤ minW (rowSpecs m t.rows) c ∧
        minW (rowSpecs m t.rows) c ≤ max (natW (rowSpecs m t.rows) c) (colTgt (rowSpecs m t.rows) c))) :=
  ⟨plain_agrees_iff hwidth, unspanned_agrees_iff hwidth⟩

/-- A table of one cell, with an explicit width. -/
def labelTable (inner : List Block) (widthPx : Int) : Table Block :=
  ⟨[⟨[⟨inner, 1, .left, Web.webNoColor, widthPx⟩], Web.webNoColor⟩], 0, Web.webNoColor, 0, 0, -1, -1⟩

def label : Block := .flow .para 0 .left none [plainRun (CText.ascii "contents")]

/-- A table in a table. -/
theorem nested_agrees : Agrees fixedWidth (labelTable [.table 0 .left (labelTable [label] 0)] 0) := by
  have hspan : Unspanned (rowSpecs fixedWidth (labelTable [.table 0 .left (labelTable [label] 0)] 0).rows) := by
    unfold Unspanned
    decide +kernel
  refine ((intrinsic_agrees rfl).2 hspan).mpr ?_
  decide +kernel

/-- The cell is a hundred pixels wide in the measure, and as wide as its word in the layout. -/
theorem labelTable_disagrees : ¬ Agrees fixedWidth (labelTable [label] 100) := by
  intro h
  have hwide := h.narrow .left 0 0 0 {} (by decide +kernel)
  revert hwide
  decide +kernel

end UnicornSuite.WebLayout
