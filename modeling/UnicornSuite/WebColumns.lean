import UnicornSuite.WebPasses
import UnicornSuite.WebRender
import UnicornSuite.LibShares
import Mathlib.Tactic.Ring

/-! The widths of the columns of a table. They stay between the minimums and the budget, fill an explicit
width, and the boxes of the cells stand side by side in the table. A table that is filled leaves its sized
columns alone when a column without a width has something to grow from: columns whose cells want nothing
there do not count, and then the sized ones grow after all. -/

namespace UnicornSuite.WebLayout

open Finset Shares

section

variable (rows : List (List CellSpec))

def sumMin : Int := ∑ c ∈ range (columnCount rows), minW rows c

def sumDesired : Int := ∑ c ∈ range (columnCount rows), desired rows c

/-- What the columns without an explicit width want together. -/
def autoSum : Int := ∑ c ∈ (range (columnCount rows)).filter (fun c => colTgt rows c = 0), desired rows c

theorem minW_nonneg (c : Nat) : 0 ≤ minW rows c := passes_nonneg _ _ _ _

theorem minW_le_desired (c : Nat) : minW rows c ≤ desired rows c := by
  unfold desired
  dsimp only
  split_ifs <;> omega

theorem desired_nonneg (c : Nat) : 0 ≤ desired rows c := le_trans (minW_nonneg rows c) (minW_le_desired rows c)

theorem sumMin_le_sumDesired : sumMin rows ≤ sumDesired rows := sum_le_sum fun c _ => minW_le_desired rows c

theorem autoSum_nonneg : 0 ≤ autoSum rows := sum_nonneg fun c _ => desired_nonneg rows c

variable {rows}

/-- A table whose cells have contents is not without width. -/
theorem sumMin_pos (hmin : ∀ cells ∈ rows, ∀ c ∈ cells, 0 < c.min) (hcols : 0 < columnCount rows) :
    0 < sumMin rows := by
  obtain ⟨p, hp⟩ := exists_placed hcols
  have hcover := @passes_cover CellSpec.min rows p hp
  have hwant : 0 < p.2.min := by
    obtain ⟨cells, hcells, hmem⟩ := List.mem_flatMap.mp hp
    exact hmin cells hcells p.2 (placed_le hmem).2.2
  have hinside : Ico p.1 (p.1 + p.2.span) ⊆ range (columnCount rows) := by
    intro k hk
    have hend := allPlaced_le hp
    have hk' := mem_Ico.mp hk
    exact mem_range.mpr (by omega)
  have hsub := sum_le_sum_of_subset_of_nonneg hinside fun c _ _ => minW_nonneg rows c
  exact lt_of_lt_of_le hwant (le_trans hcover hsub)

theorem desired_pos_of_autoSum (h : 0 < autoSum rows) :
    ∃ a < columnCount rows, colTgt rows a = 0 ∧ 0 < desired rows a := by
  obtain ⟨a, ha, hpos⟩ := exists_lt_of_sum_lt (s := (range (columnCount rows)).filter fun c => colTgt rows c = 0)
    (f := fun _ => (0 : Int)) (g := desired rows) (by rw [sum_const_zero]; exact h)
  obtain ⟨hrange, htgt⟩ := mem_filter.mp ha
  exact ⟨a, mem_range.mp hrange, htgt, hpos⟩

theorem autoSum_pos {a : Nat} (ha : a < columnCount rows) (htgt : colTgt rows a = 0) (hpos : 0 < desired rows a) :
    0 < autoSum rows :=
  lt_of_lt_of_le hpos (single_le_sum (f := desired rows) (fun c _ => desired_nonneg rows c)
    (mem_filter.mpr ⟨mem_range.mpr ha, htgt⟩))

end

/-! ### Growing -/

section

variable {ncols : Nat} {d : Nat → Int} {grows : Nat → Prop} [DecidablePred grows] {total extra : Int}
  {last : Option Nat}

theorem grow_apply (c : Nat) :
    grow ncols d grows total extra last c =
      d c + (if grows c then share extra total (d c) else 0) +
        if last = some c then extra - ∑ c ∈ (range ncols).filter grows, share extra total (d c) else 0 := by
  unfold grow
  dsimp only
  split_ifs <;> simp [share]

/-- Growing gives the surplus away, to the last pixel. -/
theorem sum_grow {l : Nat} (hl : l < ncols) :
    ∑ c ∈ range ncols, grow ncols d grows total extra (some l) c = ∑ c ∈ range ncols, d c + extra := by
  have hgiven : ∑ c ∈ range ncols, (if grows c then share extra total (d c) else 0) =
      ∑ c ∈ (range ncols).filter grows, share extra total (d c) := (sum_filter _ _).symm
  have hlast : ∑ c ∈ range ncols, (if (some l : Option Nat) = some c then
      extra - ∑ c ∈ (range ncols).filter grows, share extra total (d c) else 0) =
      extra - ∑ c ∈ (range ncols).filter grows, share extra total (d c) := by
    rw [sum_eq_single l]
    · exact if_pos rfl
    · exact fun c _ hc => if_neg fun h => hc (Option.some.inj h).symm
    · exact fun h => absurd (mem_range.mpr hl) h
  rw [sum_congr rfl fun c _ => grow_apply c, sum_add_distrib, sum_add_distrib, hgiven, hlast]
  omega

theorem le_grow (hd : ∀ c, 0 ≤ d c) (hextra : 0 ≤ extra) (htotal : 0 < total)
    (hsum : ∑ c ∈ (range ncols).filter grows, d c ≤ total) (c : Nat) :
    d c ≤ grow ncols d grows total extra last c := by
  have hshare := share_nonneg hextra htotal.le (hd c)
  have hrest := remainder_nonneg hextra htotal (fun c _ => hd c) hsum
  rw [grow_apply]
  split_ifs <;> omega

theorem lastAuto_some {tgt : Nat → Int} {n l : Nat} (h : lastAuto tgt n = some l) : l < n ∧ tgt l = 0 := by
  induction n with
  | zero => cases h
  | succ n ih =>
      rw [lastAuto] at h
      split_ifs at h with htgt
      · obtain rfl := Option.some.inj h
        exact ⟨Nat.lt_succ_self n, htgt⟩
      · exact ⟨Nat.lt_succ_of_lt (ih h).1, (ih h).2⟩

theorem exists_lastAuto {tgt : Nat → Int} {n a : Nat} (ha : a < n) (htgt : tgt a = 0) :
    ∃ l, lastAuto tgt n = some l := by
  induction n with
  | zero => exact absurd ha (Nat.not_lt_zero a)
  | succ n ih =>
      rw [lastAuto]
      split_ifs with hn
      · exact ⟨n, rfl⟩
      · have hne : a ≠ n := fun h => hn (h ▸ htgt)
        exact ih (by omega)

end

/-! ### Resolving -/

/-- What the widths of the columns are to satisfy in a budget. -/
structure Resolved (rows : List (List CellSpec)) (explicitW : Bool) (budget : Int) (colW : Nat → Int) : Prop where
  min_le : ∀ c < columnCount rows, minW rows c ≤ colW c
  tight : budget ≤ sumMin rows → ∀ c < columnCount rows, colW c = minW rows c
  fits : sumMin rows < budget → ∑ c ∈ range (columnCount rows), colW c ≤ budget
  fills : sumMin rows < budget → explicitW → sumDesired rows ≤ budget →
    ∑ c ∈ range (columnCount rows), colW c = budget
  wants : explicitW = false → sumDesired rows ≤ budget → ∀ c < columnCount rows, colW c = desired rows c

/-- The columns with an explicit width keep their size while there is one without. -/
def Keeps (rows : List (List CellSpec)) (explicitW : Bool) (budget : Int) (colW : Nat → Int) : Prop :=
  explicitW → sumDesired rows ≤ budget → (∃ a < columnCount rows, colTgt rows a = 0) →
    ∀ c < columnCount rows, colTgt rows c ≠ 0 → colW c = desired rows c

/-- A column without an explicit width has something to grow from, or the surplus is less than one pixel for
each of the sized columns and the last column takes it. -/
def Absorbed (rows : List (List CellSpec)) (explicitW : Bool) (budget : Int) : Prop :=
  explicitW → sumDesired rows < budget → (∃ a < columnCount rows, colTgt rows a = 0) →
    (∃ a < columnCount rows, colTgt rows a = 0 ∧ 0 < desired rows a) ∨
      colTgt rows (columnCount rows - 1) = 0 ∧ ∀ c < columnCount rows, colTgt rows c ≠ 0 →
        (budget - sumDesired rows) * desired rows c < sumDesired rows

section

variable {rows : List (List CellSpec)} {explicitW : Bool} {budget : Int}

/-- The four ways a budget is met. -/
theorem resolve_cases (hpos : 0 < sumDesired rows) :
    (explicitW ∧ sumDesired rows < budget ∧ 0 < autoSum rows ∧
      resolve rows explicitW budget = grow (columnCount rows) (desired rows) (fun c => colTgt rows c = 0)
        (autoSum rows) (budget - sumDesired rows) (lastAuto (colTgt rows) (columnCount rows))) ∨
    (explicitW ∧ sumDesired rows < budget ∧ autoSum rows = 0 ∧
      resolve rows explicitW budget = grow (columnCount rows) (desired rows) (fun _ => True) (sumDesired rows)
        (budget - sumDesired rows) (some (columnCount rows - 1))) ∨
    (sumDesired rows ≤ budget ∧ (explicitW → sumDesired rows = budget) ∧
      resolve rows explicitW budget = desired rows) ∨
    (budget < sumDesired rows ∧ budget ≤ sumMin rows ∧ resolve rows explicitW budget = minW rows) ∨
    budget < sumDesired rows ∧ sumMin rows < budget ∧ resolve rows explicitW budget =
      fun c => minW rows c +
        share (budget - sumMin rows) (sumDesired rows - sumMin rows) (desired rows c - minW rows c) := by
  have hauto := autoSum_nonneg rows
  have hunfold : resolve rows explicitW budget =
      if sumDesired rows ≤ budget then
        if explicitW ∧ sumDesired rows > 0 ∧ budget > sumDesired rows then
          if autoSum rows > 0 then
            grow (columnCount rows) (desired rows) (fun c => colTgt rows c = 0) (autoSum rows)
              (budget - sumDesired rows) (lastAuto (colTgt rows) (columnCount rows))
          else grow (columnCount rows) (desired rows) (fun _ => True) (sumDesired rows)
            (budget - sumDesired rows) (some (columnCount rows - 1))
        else desired rows
      else if sumMin rows ≥ budget then minW rows
      else fun c => minW rows c + ((desired rows c - minW rows c) * (budget - sumMin rows)).tdiv
        (if sumDesired rows - sumMin rows > 0 then sumDesired rows - sumMin rows else 1) := rfl
  rw [hunfold]
  by_cases hfit : sumDesired rows ≤ budget
  · rw [if_pos hfit]
    by_cases hfill : explicitW ∧ sumDesired rows > 0 ∧ budget > sumDesired rows
    · rw [if_pos hfill]
      by_cases hsum : autoSum rows > 0
      · rw [if_pos hsum]
        exact .inl ⟨hfill.1, hfill.2.2, hsum, rfl⟩
      · rw [if_neg hsum]
        exact .inr (.inl ⟨hfill.1, hfill.2.2, by omega, rfl⟩)
    · rw [if_neg hfill]
      refine .inr (.inr (.inl ⟨hfit, fun hexplicit => ?_, rfl⟩))
      by_contra hne
      exact hfill ⟨hexplicit, hpos, by omega⟩
  · rw [if_neg hfit]
    by_cases hmin : sumMin rows ≥ budget
    · rw [if_pos hmin]
      exact .inr (.inr (.inr (.inl ⟨by omega, hmin, rfl⟩)))
    · rw [if_neg hmin, if_pos (by omega : sumDesired rows - sumMin rows > 0)]
      refine .inr (.inr (.inr (.inr ⟨by omega, by omega, ?_⟩)))
      funext c
      rw [share, Int.mul_comm]

theorem resolve_resolved (hpos : 0 < sumDesired rows) (hcols : 0 < columnCount rows) :
    Resolved rows explicitW budget (resolve rows explicitW budget) := by
  have hle := sumMin_le_sumDesired rows
  have hwidth : ∀ c, minW rows c ≤ desired rows c := minW_le_desired rows
  rcases @resolve_cases rows explicitW budget hpos with
    ⟨hexplicit, hlt, hsum, heq⟩ | ⟨hexplicit, hlt, hsum, heq⟩ | ⟨hfit, hexact, heq⟩ | ⟨hlt, hmin, heq⟩ | ⟨hlt, hmin, heq⟩
  · obtain ⟨a, ha, htgt, -⟩ := desired_pos_of_autoSum hsum
    obtain ⟨l, hl⟩ := exists_lastAuto ha htgt
    have htotal : ∑ c ∈ range (columnCount rows), resolve rows explicitW budget c = budget := by
      rw [heq, hl, sum_grow (lastAuto_some hl).1]
      show sumDesired rows + (budget - sumDesired rows) = budget
      omega
    refine ⟨fun c _ => ?_, fun h => absurd h (by omega), fun _ => htotal.le, fun _ _ _ => htotal,
      fun h => absurd hexplicit (by simp [h])⟩
    rw [heq]
    exact le_trans (hwidth c) (le_grow (desired_nonneg rows) (by omega) hsum le_rfl c)
  · have htotal : ∑ c ∈ range (columnCount rows), resolve rows explicitW budget c = budget := by
      rw [heq, sum_grow (by omega)]
      show sumDesired rows + (budget - sumDesired rows) = budget
      omega
    refine ⟨fun c _ => ?_, fun h => absurd h (by omega), fun _ => htotal.le, fun _ _ _ => htotal,
      fun h => absurd hexplicit (by simp [h])⟩
    rw [heq]
    refine le_trans (hwidth c) (le_grow (desired_nonneg rows) (by omega) hpos ?_ c)
    rw [filter_true]
    exact le_rfl
  · rw [heq]
    refine ⟨fun c _ => hwidth c, fun h c hc => ?_, fun _ => hfit, fun _ hexplicit _ => hexact hexplicit,
      fun _ _ _ _ => rfl⟩
    have hsums : sumMin rows = sumDesired rows := by omega
    exact (((sum_eq_sum_iff_of_le fun c _ => hwidth c).mp hsums) c (mem_range.mpr hc)).symm
  · rw [heq]
    exact ⟨fun _ _ => le_rfl, fun _ _ _ => rfl, fun h => absurd h (by omega), fun h => absurd h (by omega),
      fun _ h => absurd h (by omega)⟩
  · rw [heq]
    have hgive : ∀ c ∈ range (columnCount rows), 0 ≤ desired rows c - minW rows c :=
      fun c _ => Int.sub_nonneg_of_le (hwidth c)
    refine ⟨fun c hc => ?_, fun h => absurd h (by omega), fun _ => ?_, fun _ _ h => absurd h (by omega),
      fun _ h => absurd h (by omega)⟩
    · have hshare := @share_nonneg (budget - sumMin rows) (sumDesired rows - sumMin rows) _
        (by omega) (by omega) (hgive c (mem_range.mpr hc))
      omega
    · have hshares := @sum_share_le Nat _ _ (budget - sumMin rows) (sumDesired rows - sumMin rows)
        (by omega) (by omega) hgive (by rw [sum_sub_distrib]; exact le_rfl)
      rw [sum_add_distrib]
      show sumMin rows + _ ≤ budget
      omega

/-- Sized columns keep their size exactly when the surplus is absorbed. -/
theorem resolve_keeps_iff (hpos : 0 < sumDesired rows) (hcols : 0 < columnCount rows) :
    Keeps rows explicitW budget (resolve rows explicitW budget) ↔ Absorbed rows explicitW budget := by
  rcases @resolve_cases rows explicitW budget hpos with
    ⟨hexplicit, hlt, hsum, heq⟩ | ⟨hexplicit, hlt, hsum, heq⟩ | ⟨hfit, hexact, heq⟩ | ⟨hlt, hmin, heq⟩ | ⟨hlt, hmin, heq⟩
  · refine ⟨fun _ _ _ _ => .inl (desired_pos_of_autoSum hsum), fun _ _ _ _ c _ htgt => ?_⟩
    have hlast : lastAuto (colTgt rows) (columnCount rows) ≠ some c := fun h => htgt (lastAuto_some h).2
    rw [heq, grow_apply, if_neg htgt, if_neg hlast]
    omega
  · have hextra : 0 ≤ budget - sumDesired rows := by omega
    have hauto : ∀ a < columnCount rows, colTgt rows a = 0 → desired rows a = 0 := by
      intro a ha htgt
      by_contra hne
      have hd := desired_nonneg rows a
      have := autoSum_pos ha htgt (by omega)
      omega
    constructor
    · intro hkeeps _ _ hexists
      have hshare : ∀ c < columnCount rows, share (budget - sumDesired rows) (sumDesired rows) (desired rows c) = 0 := by
        intro c hc
        by_cases htgt : colTgt rows c = 0
        · rw [hauto c hc htgt, share_zero]
        · have hkept := hkeeps hexplicit (by omega) hexists c hc htgt
          have hnonneg := share_nonneg hextra hpos.le (desired_nonneg rows c)
          have hrest := remainder_nonneg (s := (range (columnCount rows)).filter fun _ => True) hextra hpos
            (fun c _ => desired_nonneg rows c) (by rw [filter_true]; exact le_rfl)
          rw [heq, grow_apply, if_pos trivial] at hkept
          split_ifs at hkept <;> omega
      have hgiven : ∑ c ∈ (range (columnCount rows)).filter (fun _ => True),
          share (budget - sumDesired rows) (sumDesired rows) (desired rows c) = 0 := by
        rw [filter_true]
        exact sum_eq_zero fun c hc => hshare c (mem_range.mp hc)
      refine .inr ⟨?_, fun c hc _ => ?_⟩
      · by_contra htgt
        have hkept := hkeeps hexplicit (by omega) hexists (columnCount rows - 1) (by omega) htgt
        rw [heq, grow_apply, if_pos trivial, if_pos rfl, hgiven, hshare _ (by omega)] at hkept
        omega
      · exact (share_eq_zero_iff hextra hpos (desired_nonneg rows c)).mp (hshare c hc)
    · intro habsorbed _ _ hexists c hc htgt
      rcases habsorbed hexplicit hlt hexists with ⟨a, ha, htgt, hd⟩ | ⟨hlast, hsmall⟩
      · exact absurd (hauto a ha htgt) (by omega)
      · have hne : (some (columnCount rows - 1) : Option Nat) ≠ some c := by
          rintro h
          exact htgt (Option.some.inj h ▸ hlast)
        rw [heq, grow_apply, if_pos trivial, if_neg hne,
          (share_eq_zero_iff hextra hpos (desired_nonneg rows c)).mpr (hsmall c hc htgt)]
        omega
  · refine ⟨fun _ hexplicit hlt => absurd (hexact hexplicit) (by omega), fun _ _ _ _ c _ _ => by rw [heq]⟩
  · exact ⟨fun _ _ h => absurd h (by omega), fun _ _ h => absurd h (by omega)⟩
  · exact ⟨fun _ _ h => absurd h (by omega), fun _ _ h => absurd h (by omega)⟩

end

/-! ### Boxes -/

/-- The box of a cell: its columns, and where it is painted. -/
structure CellBox where
  col : Nat
  span : Nat
  left : Int
  width : Int

namespace Grid

variable (g : Grid)

/-- The boxes of a row, from the column `col` and the position `cx` on. -/
def boxes : List CellSpec → Nat → Int → List CellBox
  | [], _, _ => []
  | c :: cells, col, cx =>
      if col < g.ncols then
        ⟨col, c.span, cx, g.boxW col c.span⟩ :: boxes cells (col + c.span) (cx + (g.boxW col c.span + g.spc))
      else []

/-- Where a column begins; behind the last column it is the right edge. -/
def edge (c : Nat) : Int := g.x + g.spc + ∑ k ∈ range c, g.colW k + (2 * g.pad + g.spc) * c

variable {g}

theorem edge_ncols : g.edge g.ncols = g.x + g.tableW := by
  rw [edge, tableW, chromeOf]
  ring

theorem edge_add {col s : Nat} (h : col + s ≤ g.ncols) : g.edge (col + s) = g.edge col + (g.boxW col s + g.spc) := by
  have hfilter : (Ico col (col + s)).filter (· < g.ncols) = Ico col (col + s) := by
    refine filter_true_of_mem fun k hk => ?_
    have hk' := mem_Ico.mp hk
    omega
  have hsum := sum_range_add_sum_Ico g.colW (Nat.le_add_right col s)
  rw [edge, edge, boxW, cellBoxW, hfilter, ← hsum]
  push_cast
  ring

theorem edge_mono {c c' : Nat} (hcol : ∀ k < g.ncols, 0 ≤ g.colW k) (hpad : 0 ≤ g.pad) (hspc : 0 ≤ g.spc)
    (h : c ≤ c') (h' : c' ≤ g.ncols) : g.edge c ≤ g.edge c' := by
  have hsum : ∑ k ∈ range c, g.colW k ≤ ∑ k ∈ range c', g.colW k := by
    refine sum_le_sum_of_subset_of_nonneg (range_subset_range.mpr h) fun k hk _ => ?_
    have hk' := mem_range.mp hk
    exact hcol k (by omega)
  have hgaps : (2 * g.pad + g.spc) * c ≤ (2 * g.pad + g.spc) * c' :=
    Int.mul_le_mul_of_nonneg_left (by omega) (by omega)
  rw [edge, edge]
  omega

/-- A box stands in its columns. -/
theorem boxes_edge {cells : List CellSpec} {col : Nat} (h : col + rowSpan cells ≤ g.ncols) {b : CellBox}
    (hb : b ∈ g.boxes cells col (g.edge col)) :
    b.left = g.edge b.col ∧ b.left + b.width + g.spc = g.edge (b.col + b.span) ∧ col ≤ b.col ∧
      b.col + b.span ≤ col + rowSpan cells := by
  induction cells generalizing col with
  | nil => exact absurd hb List.not_mem_nil
  | cons c cells ih =>
      have hspan : rowSpan (c :: cells) = c.span + rowSpan cells := List.sum_cons
      have hpos := span_pos c
      have hedge := @edge_add g col c.span (by omega)
      rw [boxes, if_pos (by omega), ← hedge] at hb
      rcases List.mem_cons.mp hb with rfl | hb
      · refine ⟨rfl, ?_, le_rfl, by dsimp only; omega⟩
        dsimp only
        rw [hedge]
        omega
      · obtain ⟨hleft, hright, hcol, hend⟩ := ih (by omega) hb
        exact ⟨hleft, hright, by omega, by omega⟩

theorem boxes_length {cells : List CellSpec} {col : Nat} (h : col + rowSpan cells ≤ g.ncols) (cx : Int) :
    (g.boxes cells col cx).length = cells.length := by
  induction cells generalizing col cx with
  | nil => rfl
  | cons c cells ih =>
      have hspan : rowSpan (c :: cells) = c.span + rowSpan cells := List.sum_cons
      have hpos := span_pos c
      rw [boxes, if_pos (by omega), List.length_cons, List.length_cons, ih (by omega)]

theorem boxes_apart {cells : List CellSpec} {col : Nat} (h : col + rowSpan cells ≤ g.ncols) :
    (g.boxes cells col (g.edge col)).Pairwise fun b b' => b.col + b.span ≤ b'.col := by
  induction cells generalizing col with
  | nil => exact List.Pairwise.nil
  | cons c cells ih =>
      have hspan : rowSpan (c :: cells) = c.span + rowSpan cells := List.sum_cons
      have hpos := span_pos c
      rw [boxes, if_pos (by omega), ← edge_add (by omega)]
      exact List.pairwise_cons.mpr ⟨fun b hb => (boxes_edge (by omega) hb).2.2.1, ih (by omega)⟩

/-- The last box of a row ends where the columns of the row do. -/
theorem boxes_last {cells : List CellSpec} {col : Nat} (h : col + rowSpan cells ≤ g.ncols) {b : CellBox}
    (hb : (g.boxes cells col (g.edge col)).getLast? = some b) : b.col + b.span = col + rowSpan cells := by
  induction cells generalizing col with
  | nil => cases hb
  | cons c cells ih =>
      have hspan : rowSpan (c :: cells) = c.span + rowSpan cells := List.sum_cons
      have hpos := span_pos c
      rw [boxes, if_pos (by omega), ← edge_add (by omega)] at hb
      cases cells with
      | nil =>
          obtain rfl := Option.some.inj hb
          exact congrArg (col + ·) (by rw [hspan]; rfl)
      | cons c' cells =>
          have hspan' : rowSpan (c' :: cells) = c'.span + rowSpan cells := List.sum_cons
          have hpos' := span_pos c'
          have hne : g.boxes (c' :: cells) (col + c.span) (g.edge (col + c.span)) ≠ [] := by
            rw [boxes, if_pos (by omega)]
            exact List.cons_ne_nil _ _
          rw [List.getLast?_cons_of_ne_nil hne] at hb
          have hlast := ih (by omega) hb
          omega

end Grid

/-- The cells of a row stand side by side in the table. -/
structure RowPlaced (g : Grid) (cells : List CellSpec) : Prop where
  /-- No cell is left out. -/
  every : (g.boxes cells 0 (g.x + g.spc)).length = cells.length
  apart : (g.boxes cells 0 (g.x + g.spc)).Pairwise fun b b' =>
    b.col + b.span ≤ b'.col ∧ b.left + b.width + g.spc ≤ b'.left
  inside : ∀ b ∈ g.boxes cells 0 (g.x + g.spc),
    b.col + b.span ≤ g.ncols ∧ g.x + g.spc ≤ b.left ∧ b.left + b.width + g.spc ≤ g.x + g.tableW
  full : rowSpan cells = g.ncols → ∀ b, (g.boxes cells 0 (g.x + g.spc)).getLast? = some b →
    b.left + b.width + g.spc = g.x + g.tableW

theorem rowPlaced {g : Grid} {cells : List CellSpec} (h : rowSpan cells ≤ g.ncols)
    (hcol : ∀ k < g.ncols, 0 ≤ g.colW k) (hpad : 0 ≤ g.pad) (hspc : 0 ≤ g.spc) : RowPlaced g cells := by
  have hstart : g.x + g.spc = g.edge 0 := by simp [Grid.edge]
  have hroom : 0 + rowSpan cells ≤ g.ncols := by omega
  rw [← Nat.zero_add (rowSpan cells)] at h
  refine ⟨?_, ?_, fun b hb => ?_, fun hfull b hb => ?_⟩
  · exact Grid.boxes_length hroom _
  · rw [hstart]
    refine List.Pairwise.imp_of_mem (fun {b b'} hb hb' hapart => ⟨hapart, ?_⟩) (Grid.boxes_apart hroom)
    obtain ⟨-, hright, -, -⟩ := Grid.boxes_edge hroom hb
    obtain ⟨hleft, -, -, hend⟩ := Grid.boxes_edge hroom hb'
    rw [hright, hleft]
    exact Grid.edge_mono hcol hpad hspc hapart (by omega)
  · rw [hstart] at hb
    obtain ⟨hleft, hright, -, hend⟩ := Grid.boxes_edge hroom hb
    rw [hright, hleft, hstart, ← Grid.edge_ncols]
    exact ⟨by omega, Grid.edge_mono hcol hpad hspc (Nat.zero_le _) (by omega),
      Grid.edge_mono hcol hpad hspc (by omega) le_rfl⟩
  · rw [hstart] at hb
    have hlast := Grid.boxes_last hroom hb
    have hmem := List.mem_of_getLast? hb
    obtain ⟨-, hright, -, -⟩ := Grid.boxes_edge hroom hmem
    rw [hright, hlast, Nat.zero_add, hfull, Grid.edge_ncols]

/-- A cell is painted in its box. -/
def paintBox (m : Metrics) (g : Grid) (rowBg : Nat) (rowTop rowH : Int) (v : View) (p : CellBox × Cell Block) : View :=
  let v := v.fill p.1.left rowTop (p.1.left + p.1.width) (rowTop + rowH) (g.fillCol p.2.bgcolor rowBg)
  (paintCell m p.2.align p.2.inner (p.1.left + g.pad) (rowTop + g.pad) (p.1.width - 2 * g.pad) v).1

/-! ### Tables -/

section

variable (m : Metrics) (t : Table Block) (align : Web.HAlign) (x0 y width : Int) (v : View)

theorem le_atLeast (least w : Int) : least ≤ atLeast least w := by
  rw [atLeast]
  split_ifs <;> omega

theorem cellSpecs_min {cells : List (Cell Block)} {c : CellSpec} (h : c ∈ cellSpecs m cells) :
    8 ≤ c.min ∧ 20 ≤ c.nat := by
  induction cells with
  | nil =>
      rw [cellSpecs] at h
      exact absurd h List.not_mem_nil
  | cons cell cells ih =>
      obtain ⟨inner, colspan, align, bgcolor, widthPx⟩ := cell
      rw [cellSpecs] at h
      rcases List.mem_cons.mp h with rfl | h
      · exact ⟨le_atLeast 8 _, le_atLeast 20 _⟩
      · exact ih h

theorem rowSpecs_min {rows : List (Row Block)} {cells : List CellSpec} (h : cells ∈ rowSpecs m rows) {c : CellSpec}
    (hc : c ∈ cells) : 8 ≤ c.min ∧ 20 ≤ c.nat := by
  induction rows with
  | nil =>
      rw [rowSpecs] at h
      exact absurd h List.not_mem_nil
  | cons r rows ih =>
      obtain ⟨rcells, bgcolor⟩ := r
      rw [rowSpecs] at h
      rcases List.mem_cons.mp h with rfl | h
      · exact cellSpecs_min m hc
      · exact ih h

theorem pad_nonneg {β : Type} (t : Table β) : 0 ≤ t.pad := by
  rw [Table.pad, padOf]
  split_ifs <;> omega

theorem spc_nonneg {β : Type} (t : Table β) : 0 ≤ t.spc := by
  rw [Table.spc, spcOf]
  split_ifs <;> omega

/-- The columns of a table are resolved in its budget and its cells stand in them. -/
structure TableResolved : Prop where
  resolved : Resolved (rowSpecs m t.rows) t.explicitW (t.budget (columnCount (rowSpecs m t.rows)) width)
    (tableGrid m t align x0 y width v).colW
  keeps : Keeps (rowSpecs m t.rows) t.explicitW (t.budget (columnCount (rowSpecs m t.rows)) width)
    (tableGrid m t align x0 y width v).colW
  placed : ∀ cells ∈ rowSpecs m t.rows, RowPlaced (tableGrid m t align x0 y width v) cells

/-- A table has its columns resolved exactly when the surplus of an explicit width is absorbed. -/
theorem tableResolved_iff :
    ((tableGrid m t align x0 y width v).ncols = 0 ∨ TableResolved m t align x0 y width v) ↔
      Absorbed (rowSpecs m t.rows) t.explicitW (t.budget (columnCount (rowSpecs m t.rows)) width) := by
  rcases Nat.eq_zero_or_pos (columnCount (rowSpecs m t.rows)) with hnone | hcols
  · refine ⟨fun _ _ _ hexists => ?_, fun _ => .inl hnone⟩
    obtain ⟨a, ha, -⟩ := hexists
    omega
  · have hmin : ∀ cells ∈ rowSpecs m t.rows, ∀ c ∈ cells, 0 < c.min := fun cells hcells c hc =>
      lt_of_lt_of_le (by decide) (rowSpecs_min m hcells hc).1
    have hpos : 0 < sumDesired (rowSpecs m t.rows) := lt_of_lt_of_le (sumMin_pos hmin hcols) (sumMin_le_sumDesired _)
    have hresolved := @resolve_resolved (rowSpecs m t.rows) t.explicitW
      (t.budget (columnCount (rowSpecs m t.rows)) width) hpos hcols
    have hplaced : ∀ cells ∈ rowSpecs m t.rows, RowPlaced (tableGrid m t align x0 y width v) cells :=
      fun cells hcells => rowPlaced (rowSpan_le hcells)
        (fun k hk => le_trans (minW_nonneg _ k) (hresolved.min_le k hk)) (pad_nonneg t) (spc_nonneg t)
    constructor
    · rintro (hnone | h)
      · exact absurd hnone (Nat.ne_of_gt hcols)
      · exact (resolve_keeps_iff hpos hcols).mp h.keeps
    · exact fun h => .inr ⟨hresolved, (resolve_keeps_iff hpos hcols).mpr h, hplaced⟩

end

/-- A sized column, and one that only a spanning cell of the next row covers. -/
def sizedTable : Table Block :=
  ⟨[⟨[⟨[], 1, .left, Web.webNoColor, 50⟩], Web.webNoColor⟩, ⟨[⟨[], 2, .left, Web.webNoColor, 0⟩], Web.webNoColor⟩],
    0, Web.webNoColor, 200, 0, 0, 0⟩

/-- The column asks for fifty pixels, and it is given two hundred. -/
theorem sized_column_grows : ¬ TableResolved fixedWidth sizedTable .left 0 0 400 {} := by
  intro h
  have hkept := h.keeps rfl (by decide +kernel) ⟨1, by decide +kernel⟩ 0 (by decide +kernel) (by decide +kernel)
  revert hkept
  decide +kernel

end UnicornSuite.WebLayout
