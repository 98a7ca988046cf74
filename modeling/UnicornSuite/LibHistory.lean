import UnicornSuite.LibGrid
import UnicornSuite.LibRounds

/-! A history of lines without end, and grids that hold the end of one. Lines are only added at the
end, and painting a set of cells changes these alone. `Tail w g n H` says that the first `n` rows of
the grid are the last `n` lines of the history, as far as its first `w` columns go; it is kept by a
write into the grid that is a painting of the history, by a row added at the end of both, and when
the first row of the grid goes. -/

/-- The lines are numbered from 0; those from `total` on are not there yet. -/
structure History (α : Type*) where
  total : Int
  line : Int → Int → α

namespace History

variable {α : Type*}

/-- The cells of a set, all of one value. -/
def paint (H : History α) (S : Int → Int → Prop) [∀ i j, Decidable (S i j)] (v : α) : History α :=
  { H with line := fun i j => if S i j then v else H.line i j }

/-- One more line. -/
def append (H : History α) (v : α) : History α where
  total := H.total + 1
  line := fun i j => if i = H.total then v else H.line i j

/-- The number in the history of row `i`, when the grid has `n` rows. -/
def index (H : History α) (n i : Int) : Int := H.total - n + i

/-- The first `n` rows of the grid are the last `n` lines of the history. -/
def Tail (w : Int) (g : Grid α) (n : Int) (H : History α) : Prop :=
  ∀ i j, 0 ≤ i → i < n → 0 ≤ j → j < w → g.cell i j = H.line (H.index n i) j

variable {w n : Int} {g : Grid α} {H : History α}

/-- A write into the grid that touches the cells of the set and no others. -/
theorem Tail.paint (h : Tail w g n H) {g' : Grid α} (S : Int → Int → Prop)
    [∀ i j, Decidable (S i j)] {v : α}
    (hin : ∀ i j, 0 ≤ i → i < n → 0 ≤ j → j < w → S (H.index n i) j → g'.cell i j = v)
    (hout : ∀ i j, 0 ≤ i → i < n → 0 ≤ j → j < w → ¬ S (H.index n i) j →
      g'.cell i j = g.cell i j) : Tail w g' n (H.paint S v) := by
  intro i j h0 hn hj hw
  have hindex : (H.paint S v).index n i = H.index n i := rfl
  rw [hindex]
  by_cases hS : S (H.index n i) j
  · rw [hin i j h0 hn hj hw hS]
    exact (if_pos hS).symm
  · rw [hout i j h0 hn hj hw hS, h i j h0 hn hj hw]
    exact (if_neg hS).symm

/-- A write into one row. -/
theorem Tail.paintRow (h : Tail w g n H) {g' : Grid α} {i : Int} (C : Int → Prop) [DecidablePred C]
    {v : α} (hcell : ∀ i' j', g'.cell i' j' = if i' = i ∧ C j' then v else g.cell i' j') :
    Tail w g' n (H.paint (fun i' j' => i' = H.index n i ∧ C j') v) := by
  apply h.paint
  · intro i' j' _ _ _ _ hS
    rw [hcell]
    exact if_pos ⟨by simp only [index] at hS; omega, hS.2⟩
  · intro i' j' _ _ _ _ hS
    rw [hcell]
    exact if_neg fun hij => hS ⟨congrArg (H.index n) hij.1, hij.2⟩

variable {R : Region}

theorem Tail.put (h : Tail w g n H) {i j : Int} (hm : R.Mem i j) (v : α) :
    Tail w (g.put R i j v) n (H.paint (fun i' j' => i' = H.index n i ∧ j' = j) v) := by
  rw [Grid.put, if_pos hm]
  exact h.paintRow (· = j) fun _ _ => rfl

theorem Tail.fillRun (h : Tail w g n H) {i lo hi : Int} (hm : R.MemRun i lo hi) (v : α) :
    Tail w (g.fillRun R i lo hi v) n
      (H.paint (fun i' j' => i' = H.index n i ∧ lo ≤ j' ∧ j' ≤ hi) v) := by
  rw [Grid.fillRun, if_pos hm]
  exact h.paintRow (fun j' => lo ≤ j' ∧ j' ≤ hi) fun _ _ => rfl

/-- Two paintings in one value are the painting of both sets. -/
theorem paint_paint (H : History α) (S T : Int → Int → Prop) [∀ i j, Decidable (S i j)]
    [∀ i j, Decidable (T i j)] (v : α) :
    (H.paint S v).paint T v = H.paint (fun i j => S i j ∨ T i j) v := by
  have hline : ((H.paint S v).paint T v).line = (H.paint (fun i j => S i j ∨ T i j) v).line := by
    funext i j
    simp only [History.paint]
    split_ifs <;> simp_all
  calc (H.paint S v).paint T v
      = { H with line := ((H.paint S v).paint T v).line } := rfl
    _ = H.paint (fun i j => S i j ∨ T i j) v := by rw [hline]; rfl

/-- Paintings of sets that agree on the rows and columns of the grid. -/
theorem Tail.congr {S T : Int → Int → Prop} [∀ i j, Decidable (S i j)] [∀ i j, Decidable (T i j)]
    {v : α} (h : Tail w g n (H.paint S v))
    (hST : ∀ i j, 0 ≤ i → i < n → 0 ≤ j → j < w → (S (H.index n i) j ↔ T (H.index n i) j)) :
    Tail w g n (H.paint T v) := by
  intro i j h0 hn hj hw
  have hiff := hST i j h0 hn hj hw
  calc g.cell i j
      = if S (H.index n i) j then v else H.line (H.index n i) j := h i j h0 hn hj hw
    _ = if T (H.index n i) j then v else H.line (H.index n i) j := if_congr hiff rfl rfl

/-- A loop over whole rows, `k + lo` to `k + hi - 1`. -/
theorem Tail.fillRows (h : Tail w g n H) {k lo hi : Int} (hle : lo ≤ hi) {v : α}
    {body : Int → Grid α → Grid α} (hbody : ∀ i g, body i g = g.fillRun R (k + i) 0 (w - 1) v)
    (hm : ∀ i, lo ≤ i → i < hi → R.MemRun (k + i) 0 (w - 1)) :
    Tail w (Loop.up lo hi body g) n
      (H.paint (fun i _ => H.index n (k + lo) ≤ i ∧ i < H.index n (k + hi)) v) := by
  have hstart :
      Tail w g n (H.paint (fun i _ => H.index n (k + lo) ≤ i ∧ i < H.index n (k + lo)) v) := by
    apply h.paint
    · intro i j _ _ _ _ hS
      omega
    · intro i j _ _ _ _ _
      rfl
  refine Loop.up_ind (I := fun m g =>
    Tail w g n (H.paint (fun i _ => H.index n (k + lo) ≤ i ∧ i < H.index n (k + m)) v))
    hle ?_ hstart
  intro m g hlo hhi hg
  have hfill := hg.fillRun (hm m hlo hhi) v
  rw [paint_paint] at hfill
  rw [hbody]
  apply hfill.congr
  intro i j h0 hn hj hw
  simp only [index, History.paint]
  omega

/-- A row at the end of the grid, with the line at the end of the history. -/
theorem Tail.append (h : Tail w g n H) (hm : R.MemRun n 0 (w - 1)) (v : α) :
    Tail w (g.fillRun R n 0 (w - 1) v) (n + 1) (H.append v) := by
  intro i j h0 hn hj hw
  have hindex : (H.append v).index (n + 1) i = H.index n i := by
    simp only [History.append, index]
    omega
  rw [hindex, Grid.fillRun, if_pos hm]
  by_cases hi : i = n
  · have hlast : H.index n i = H.total := by
      simp only [index]
      omega
    exact (if_pos ⟨hi, hj, by omega⟩).trans (if_pos hlast).symm
  · have hlast : ¬ H.index n i = H.total := by
      simp only [index]
      omega
    calc (if i = n ∧ 0 ≤ j ∧ j ≤ w - 1 then v else g.cell i j)
        = g.cell i j := if_neg fun hrun => hi hrun.1
      _ = H.line (H.index n i) j := h i j h0 (by omega) hj hw
      _ = (H.append v).line (H.index n i) j := (if_neg hlast).symm

/-- The first row of the grid goes, and the rest moves up. -/
theorem Tail.drop (h : Tail w g n H) (hn : 1 ≤ n) (hd : R.MemRows 0 (0 + (n - 1) - 1))
    (hs : R.MemRows 1 (1 + (n - 1) - 1)) : Tail w (g.moveRows R 0 1 (n - 1)) (n - 1) H := by
  intro i j h0 hi hj hw
  have hindex : H.index (n - 1) i = H.index n (i + 1) := by
    simp only [index]
    omega
  have hmove : (g.moveRows R 0 1 (n - 1)).cell i j = g.cell (i + 1) j := by
    rw [Grid.moveRows, if_pos ⟨by omega, hd, hs⟩]
    refine (if_pos ⟨h0, by omega⟩).trans ?_
    rw [Int.sub_zero]
  rw [hmove, hindex]
  exact h (i + 1) j (by omega) (by omega) hj hw

end History
