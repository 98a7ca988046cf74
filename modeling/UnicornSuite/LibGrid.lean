import UnicornSuite.LibRounds

/-! Rectangular memory. A grid holds a cell for every pair of indices, and a flag that records
whether an access has left the array it belongs to. The array is a `Region`; every write goes through
`put`, `fillRun`, `moveRun` or `moveRows`, which raise the flag instead of writing outside of the
region. `Good R P g` says that no access has left `R` and that the cells of `R` satisfy `P`. -/

/-- Rows `i0` to `i1 - 1`, columns `j0` to `j1 - 1`. -/
structure Region where
  i0 : Int
  i1 : Int
  j0 : Int
  j1 : Int

namespace Region

def Mem (R : Region) (i j : Int) : Prop := R.i0 ≤ i ∧ i < R.i1 ∧ R.j0 ≤ j ∧ j < R.j1

instance (R : Region) (i j : Int) : Decidable (R.Mem i j) :=
  inferInstanceAs (Decidable (_ ∧ _ ∧ _ ∧ _))

/-- The columns `lo` to `hi` of row `i`; an empty run lies in every region. -/
def MemRun (R : Region) (i lo hi : Int) : Prop := lo ≤ hi → R.Mem i lo ∧ R.Mem i hi

instance (R : Region) (i lo hi : Int) : Decidable (R.MemRun i lo hi) :=
  inferInstanceAs (Decidable (_ → _))

/-- The rows `lo` to `hi`. -/
def MemRows (R : Region) (lo hi : Int) : Prop := lo ≤ hi → R.i0 ≤ lo ∧ hi < R.i1

instance (R : Region) (lo hi : Int) : Decidable (R.MemRows lo hi) :=
  inferInstanceAs (Decidable (_ → _))

theorem MemRun.mem {R : Region} {i lo hi j : Int} (h : R.MemRun i lo hi) (hlo : lo ≤ j)
    (hhi : j ≤ hi) : R.Mem i j := by
  obtain ⟨⟨h0, h1, h2, _⟩, _, _, _, h3⟩ := h (by omega)
  exact ⟨h0, h1, by omega, by omega⟩

end Region

structure Grid (α : Type*) where
  cell : Int → Int → α
  fault : Bool

namespace Grid

variable {α : Type*} (R : Region)

/-- A grid with every cell equal to `v`. -/
def const (v : α) : Grid α := ⟨fun _ _ => v, false⟩

/-- Overwrite the whole array. -/
def fillAll (g : Grid α) (v : α) : Grid α :=
  { g with cell := fun i j => if R.Mem i j then v else g.cell i j }

/-- One cell. -/
def put (g : Grid α) (i j : Int) (v : α) : Grid α :=
  if R.Mem i j then
    { g with cell := fun i' j' => if i' = i ∧ j' = j then v else g.cell i' j' }
  else { g with fault := true }

/-- The columns `lo` to `hi` of row `i`. -/
def fillRun (g : Grid α) (i lo hi : Int) (v : α) : Grid α :=
  if R.MemRun i lo hi then
    { g with cell := fun i' j' => if i' = i ∧ lo ≤ j' ∧ j' ≤ hi then v else g.cell i' j' }
  else { g with fault := true }

/-- `n` cells of row `i` from column `src` to column `dst`; the two runs may overlap. A count is
unsigned in C, so a negative one is a run out of the region. -/
def moveRun (g : Grid α) (i dst src n : Int) : Grid α :=
  if 0 ≤ n ∧ R.MemRun i dst (dst + n - 1) ∧ R.MemRun i src (src + n - 1) then
    { g with cell := fun i' j' =>
        if i' = i ∧ dst ≤ j' ∧ j' ≤ dst + n - 1 then g.cell i (j' - dst + src)
        else g.cell i' j' }
  else { g with fault := true }

/-- `n` whole rows from row `src` to row `dst`; the two blocks may overlap. -/
def moveRows (g : Grid α) (dst src n : Int) : Grid α :=
  if 0 ≤ n ∧ R.MemRows dst (dst + n - 1) ∧ R.MemRows src (src + n - 1) then
    { g with cell := fun i' j' =>
        if dst ≤ i' ∧ i' ≤ dst + n - 1 then g.cell (i' - dst + src) j' else g.cell i' j' }
  else { g with fault := true }

/-- No access has left the region and every cell of the region satisfies `P`. -/
structure Good (P : Int → Int → α → Prop) (g : Grid α) : Prop where
  noFault : g.fault = false
  cells : ∀ i j, R.Mem i j → P i j (g.cell i j)

variable {R} {P : Int → Int → α → Prop} {g : Grid α}

theorem good_const {v : α} (h : ∀ i j, R.Mem i j → P i j v) : Good R P (const v) := ⟨rfl, h⟩

theorem Good.mono {Q : Int → Int → α → Prop} (hg : Good R P g)
    (h : ∀ i j v, R.Mem i j → P i j v → Q i j v) : Good R Q g :=
  ⟨hg.noFault, fun i j hm => h i j _ hm (hg.cells i j hm)⟩

theorem Good.fillAll (hg : Good R P g) {v : α} (hv : ∀ i j, R.Mem i j → P i j v) :
    Good R P (g.fillAll R v) := by
  refine ⟨hg.noFault, fun i j hm => ?_⟩
  simp only [Grid.fillAll, if_pos hm]
  exact hv i j hm

theorem Good.put (hg : Good R P g) {i j : Int} {v : α} (hm : R.Mem i j) (hv : P i j v) :
    Good R P (g.put R i j v) := by
  rw [Grid.put, if_pos hm]
  refine ⟨hg.noFault, fun i' j' hm' => ?_⟩
  dsimp only
  split
  · next h => rw [h.1, h.2]; exact hv
  · exact hg.cells i' j' hm'

theorem Good.fillRun (hg : Good R P g) {i lo hi : Int} {v : α} (hm : R.MemRun i lo hi)
    (hv : ∀ j, lo ≤ j → j ≤ hi → P i j v) : Good R P (g.fillRun R i lo hi v) := by
  rw [Grid.fillRun, if_pos hm]
  refine ⟨hg.noFault, fun i' j' hm' => ?_⟩
  dsimp only
  split
  · next h => rw [h.1]; exact hv j' h.2.1 h.2.2
  · exact hg.cells i' j' hm'

theorem Good.moveRun (hg : Good R P g) {i dst src n : Int} (hn : 0 ≤ n)
    (hd : R.MemRun i dst (dst + n - 1)) (hs : R.MemRun i src (src + n - 1))
    (hP : ∀ j v, dst ≤ j → j ≤ dst + n - 1 → P i (j - dst + src) v → P i j v) :
    Good R P (g.moveRun R i dst src n) := by
  rw [Grid.moveRun, if_pos ⟨hn, hd, hs⟩]
  refine ⟨hg.noFault, fun i' j' hm' => ?_⟩
  dsimp only
  split
  · next h =>
      rw [h.1]
      exact hP j' _ h.2.1 h.2.2 (hg.cells i _ (hs.mem (by omega) (by omega)))
  · exact hg.cells i' j' hm'

theorem Good.moveRows (hg : Good R P g) {dst src n : Int} (hn : 0 ≤ n)
    (hd : R.MemRows dst (dst + n - 1)) (hs : R.MemRows src (src + n - 1))
    (hP : ∀ i j v, dst ≤ i → i ≤ dst + n - 1 → P (i - dst + src) j v → P i j v) :
    Good R P (g.moveRows R dst src n) := by
  rw [Grid.moveRows, if_pos ⟨hn, hd, hs⟩]
  refine ⟨hg.noFault, fun i j hm => ?_⟩
  dsimp only
  split
  · next h =>
      obtain ⟨h0, h1⟩ := hs (by omega)
      refine hP i j _ h.1 h.2 (hg.cells _ j ⟨by omega, by omega, hm.2.2.1, hm.2.2.2⟩)
  · exact hg.cells i j hm

/-! ### Accesses alone

Where nothing is said about the cells. -/

theorem fault_put (hg : g.fault = false) {i j : Int} (hm : R.Mem i j) (v : α) :
    (g.put R i j v).fault = false := by
  rw [Grid.put, if_pos hm]
  exact hg

theorem fault_fillRun (hg : g.fault = false) {i lo hi : Int} (hm : R.MemRun i lo hi) (v : α) :
    (g.fillRun R i lo hi v).fault = false := by
  rw [Grid.fillRun, if_pos hm]
  exact hg

theorem fault_moveRows (hg : g.fault = false) {dst src n : Int} (hn : 0 ≤ n)
    (hd : R.MemRows dst (dst + n - 1)) (hs : R.MemRows src (src + n - 1)) :
    (g.moveRows R dst src n).fault = false := by
  rw [Grid.moveRows, if_pos ⟨hn, hd, hs⟩]
  exact hg

/-! ### Cells alone

Where nothing is said about the accesses. -/

variable (R P) in
/-- The cells of the region satisfy `P`. -/
def Cells (g : Grid α) : Prop := ∀ i j, R.Mem i j → P i j (g.cell i j)

theorem Cells.put (hg : Cells R P g) {i j : Int} {v : α} (hv : P i j v) : Cells R P (g.put R i j v) := by
  intro i' j' hm
  rw [Grid.put]
  split
  · dsimp only
    split
    · next h => rw [h.1, h.2]; exact hv
    · exact hg i' j' hm
  · exact hg i' j' hm

theorem Cells.fillRun (hg : Cells R P g) {i lo hi : Int} {v : α} (hv : ∀ j, P i j v) :
    Cells R P (g.fillRun R i lo hi v) := by
  intro i' j' hm
  rw [Grid.fillRun]
  split
  · dsimp only
    split
    · next h => rw [h.1]; exact hv j'
    · exact hg i' j' hm
  · exact hg i' j' hm

theorem cells_fillAll (g : Grid α) {v : α} (hv : ∀ i j, P i j v) : Cells R P (g.fillAll R v) := by
  intro i j hm
  simp only [Grid.fillAll, if_pos hm]
  exact hv i j

/-! ### Loops over cells -/

@[ext] theorem ext {g g' : Grid α} (hcell : ∀ i j, g.cell i j = g'.cell i j) (hfault : g.fault = g'.fault) :
    g = g' := by
  cases g
  cases g'
  congr
  funext i j
  exact hcell i j

/-- A loop that changes each cell of a run. -/
theorem up_row (f : α → α) (g : Grid α) {i lo hi : Int} (hle : lo ≤ hi) (hmem : ∀ j, lo ≤ j → j < hi → R.Mem i j) :
    Loop.up lo hi (fun j g => g.put R i j (f (g.cell i j))) g =
      { g with cell := fun i' j' => if i' = i ∧ lo ≤ j' ∧ j' < hi then f (g.cell i' j') else g.cell i' j' } := by
  refine Loop.up_ind (I := fun k g' =>
    g' = { g with cell := fun i' j' => if i' = i ∧ lo ≤ j' ∧ j' < k then f (g.cell i' j') else g.cell i' j' })
    hle (fun j g' hlo hhi hg => ?_) ?_
  · rw [hg, Grid.put, if_pos (hmem j hlo hhi)]
    ext i' j'
    · dsimp only
      by_cases hnew : i' = i ∧ j' = j
      · obtain ⟨rfl, rfl⟩ := hnew
        rw [if_pos ⟨rfl, rfl⟩, if_neg (by omega), if_pos (by omega)]
      · rw [if_neg hnew]
        by_cases hold : i' = i ∧ lo ≤ j' ∧ j' < j
        · rw [if_pos hold, if_pos (by omega)]
        · rw [if_neg hold, if_neg (by omega)]
    · rfl
  · ext i' j'
    · dsimp only
      rw [if_neg (by omega)]
    · rfl

/-- A loop that changes each cell of a rectangle. -/
theorem up_rect (f : α → α) (g : Grid α) {i0 i1 lo hi : Int} (hrows : i0 ≤ i1) (hle : lo ≤ hi)
    (hmem : ∀ i j, i0 ≤ i → i < i1 → lo ≤ j → j < hi → R.Mem i j) :
    Loop.up i0 i1 (fun i g => Loop.up lo hi (fun j g => g.put R i j (f (g.cell i j))) g) g =
      { g with
        cell := fun i j =>
          if i0 ≤ i ∧ i < i1 ∧ lo ≤ j ∧ j < hi then f (g.cell i j) else g.cell i j } := by
  refine Loop.up_ind (I := fun k g' =>
    g' = { g with
      cell := fun i j => if i0 ≤ i ∧ i < k ∧ lo ≤ j ∧ j < hi then f (g.cell i j) else g.cell i j })
    hrows (fun i g' hlo hhi hg => ?_) ?_
  · rw [up_row f g' hle fun j => hmem i j hlo hhi, hg]
    ext i' j'
    · dsimp only
      by_cases hnew : i' = i ∧ lo ≤ j' ∧ j' < hi
      · rw [if_pos hnew, if_neg (by omega), if_pos (by omega)]
      · rw [if_neg hnew]
        by_cases hold : i0 ≤ i' ∧ i' < i ∧ lo ≤ j' ∧ j' < hi
        · rw [if_pos hold, if_pos (by omega)]
        · rw [if_neg hold, if_neg (by omega)]
    · rfl
  · ext i j
    · dsimp only
      rw [if_neg (by omega)]
    · rfl

/-- A loop that writes a run. -/
theorem up_run (f : Int → α) (g : Grid α) {i lo n : Int} (hn : 0 ≤ n)
    (hmem : ∀ j, lo ≤ j → j < lo + n → R.Mem i j) :
    Loop.up 0 n (fun x g => g.put R i (lo + x) (f x)) g =
      { g with cell := fun i' j => if i' = i ∧ lo ≤ j ∧ j < lo + n then f (j - lo) else g.cell i' j } := by
  refine Loop.up_ind (I := fun k g' =>
    g' = { g with cell := fun i' j => if i' = i ∧ lo ≤ j ∧ j < lo + k then f (j - lo) else g.cell i' j })
    hn (fun x g' hlo hhi hg => ?_) ?_
  · rw [hg, Grid.put, if_pos (hmem _ (by omega) (by omega))]
    ext i' j
    · dsimp only
      by_cases hnew : i' = i ∧ j = lo + x
      · obtain ⟨rfl, rfl⟩ := hnew
        rw [if_pos ⟨rfl, rfl⟩, if_pos (by omega), show lo + x - lo = x by omega]
      · rw [if_neg hnew]
        by_cases hold : i' = i ∧ lo ≤ j ∧ j < lo + x
        · rw [if_pos hold, if_pos (by omega)]
        · rw [if_neg hold, if_neg (by omega)]
    · rfl
  · ext i' j
    · dsimp only
      rw [if_neg (by omega)]
    · rfl

/-- A loop that writes a rectangle. -/
theorem up_block (f : Int → Int → α) (g : Grid α) (top lo : Int) {h w : Int} (hh : 0 ≤ h) (hw : 0 ≤ w)
    (hmem : ∀ i j, top ≤ i → i < top + h → lo ≤ j → j < lo + w → R.Mem i j) :
    Loop.up 0 h (fun y g => Loop.up 0 w (fun x g => g.put R (top + y) (lo + x) (f y x)) g) g =
      { g with
        cell := fun i j =>
          if top ≤ i ∧ i < top + h ∧ lo ≤ j ∧ j < lo + w then f (i - top) (j - lo) else g.cell i j } := by
  refine Loop.up_ind (I := fun k g' =>
    g' = { g with
      cell := fun i j =>
        if top ≤ i ∧ i < top + k ∧ lo ≤ j ∧ j < lo + w then f (i - top) (j - lo) else g.cell i j })
    hh (fun y g' hlo hhi hg => ?_) ?_
  · rw [up_run (f y) g' hw fun j => hmem _ j (by omega) (by omega), hg]
    ext i j
    · dsimp only
      by_cases hnew : i = top + y ∧ lo ≤ j ∧ j < lo + w
      · rw [if_pos hnew, if_pos (by omega), show i - top = y by omega]
      · rw [if_neg hnew]
        by_cases hold : top ≤ i ∧ i < top + y ∧ lo ≤ j ∧ j < lo + w
        · rw [if_pos hold, if_pos (by omega)]
        · rw [if_neg hold, if_neg (by omega)]
    · rfl
  · ext i j
    · dsimp only
      rw [if_neg (by omega)]
    · rfl

/-- A loop that fills a block of rows, from one column to another. -/
theorem up_fillRuns (v : α) (g : Grid α) (top : Int) {n lo hi : Int} (hn : 0 ≤ n)
    (hmem : ∀ i, top ≤ i → i < top + n → R.MemRun i lo hi) :
    Loop.up 0 n (fun k g => g.fillRun R (top + k) lo hi v) g =
      { g with
        cell := fun i j => if top ≤ i ∧ i < top + n ∧ lo ≤ j ∧ j ≤ hi then v else g.cell i j } := by
  refine Loop.up_ind (I := fun k g' =>
    g' = { g with
      cell := fun i j => if top ≤ i ∧ i < top + k ∧ lo ≤ j ∧ j ≤ hi then v else g.cell i j })
    hn (fun k g' hlo hhi hg => ?_) ?_
  · rw [hg, Grid.fillRun, if_pos (hmem _ (by omega) (by omega))]
    ext i j
    · dsimp only
      by_cases hnew : i = top + k ∧ lo ≤ j ∧ j ≤ hi
      · rw [if_pos hnew, if_pos (by omega)]
      · rw [if_neg hnew]
        by_cases hold : top ≤ i ∧ i < top + k ∧ lo ≤ j ∧ j ≤ hi
        · rw [if_pos hold, if_pos (by omega)]
        · rw [if_neg hold, if_neg (by omega)]
    · rfl
  · ext i j
    · dsimp only
      rw [if_neg (by omega)]
    · rfl

/-! ### Rows that are left alone -/

/-- The rows of `S` hold the same cells. -/
def SameOn (S : Int → Prop) (g g' : Grid α) : Prop := ∀ i j, S i → g'.cell i j = g.cell i j

section SameOn

variable {S : Int → Prop} {g' : Grid α}

theorem SameOn.refl (S : Int → Prop) (g : Grid α) : SameOn S g g := fun _ _ _ => rfl

theorem SameOn.trans {g'' : Grid α} (h : SameOn S g g') (h' : SameOn S g' g'') : SameOn S g g'' :=
  fun i j hi => (h' i j hi).trans (h i j hi)

theorem SameOn.put (h : SameOn S g g') {i : Int} (hi : ¬ S i) (j : Int) (v : α) :
    SameOn S g (g'.put R i j v) := by
  intro i' j' hi'
  rw [Grid.put]
  split
  · have hne : ¬(i' = i ∧ j' = j) := fun heq => hi (heq.1 ▸ hi')
    simp only [if_neg hne]
    exact h i' j' hi'
  · exact h i' j' hi'

theorem SameOn.fillRun (h : SameOn S g g') {i : Int} (hi : ¬ S i) (lo hi' : Int) (v : α) :
    SameOn S g (g'.fillRun R i lo hi' v) := by
  intro i' j' hi''
  rw [Grid.fillRun]
  split
  · have hne : ¬(i' = i ∧ lo ≤ j' ∧ j' ≤ hi') := fun heq => hi (heq.1 ▸ hi'')
    simp only [if_neg hne]
    exact h i' j' hi''
  · exact h i' j' hi''

theorem SameOn.moveRun (h : SameOn S g g') {i : Int} (hi : ¬ S i) (dst src n : Int) :
    SameOn S g (g'.moveRun R i dst src n) := by
  intro i' j' hi'
  rw [Grid.moveRun]
  split
  · have hne : ¬(i' = i ∧ dst ≤ j' ∧ j' ≤ dst + n - 1) := fun heq => hi (heq.1 ▸ hi')
    simp only [if_neg hne]
    exact h i' j' hi'
  · exact h i' j' hi'

theorem SameOn.moveRows (h : SameOn S g g') {dst src n : Int}
    (hd : ∀ i, dst ≤ i → i ≤ dst + n - 1 → ¬ S i) : SameOn S g (g'.moveRows R dst src n) := by
  intro i' j' hi'
  rw [Grid.moveRows]
  split
  · have hne : ¬(dst ≤ i' ∧ i' ≤ dst + n - 1) := fun heq => hd i' heq.1 heq.2 hi'
    simp only [if_neg hne]
    exact h i' j' hi'
  · exact h i' j' hi'

end SameOn

/-! ### Columns beside the region -/

variable (R) in
/-- Every cell beside the columns of the region holds `v`. -/
def Margin (v : α) (g : Grid α) : Prop := ∀ i j, ¬(R.j0 ≤ j ∧ j < R.j1) → g.cell i j = v

theorem margin_const (v : α) : Margin R v (const v) := fun _ _ _ => rfl

variable {w : α}

theorem Margin.put (hg : Margin R w g) (i j : Int) (v : α) : Margin R w (g.put R i j v) := by
  intro i' j' hj
  rw [Grid.put]
  split
  · next hm =>
      have hne : ¬(i' = i ∧ j' = j) := fun h => hj ⟨h.2 ▸ hm.2.2.1, h.2 ▸ hm.2.2.2⟩
      simp only [if_neg hne]
      exact hg i' j' hj
  · exact hg i' j' hj

theorem Margin.fillRun (hg : Margin R w g) (i lo hi : Int) (v : α) :
    Margin R w (g.fillRun R i lo hi v) := by
  intro i' j' hj
  rw [Grid.fillRun]
  split
  · next hm =>
      have hne : ¬(i' = i ∧ lo ≤ j' ∧ j' ≤ hi) := fun h => hj (hm.mem h.2.1 h.2.2).2.2
      simp only [if_neg hne]
      exact hg i' j' hj
  · exact hg i' j' hj

theorem Margin.moveRun (hg : Margin R w g) (i dst src n : Int) :
    Margin R w (g.moveRun R i dst src n) := by
  intro i' j' hj
  rw [Grid.moveRun]
  split
  · next hm =>
      have hne : ¬(i' = i ∧ dst ≤ j' ∧ j' ≤ dst + n - 1) :=
        fun h => hj (hm.2.1.mem h.2.1 h.2.2).2.2
      simp only [if_neg hne]
      exact hg i' j' hj
  · exact hg i' j' hj

theorem Margin.moveRows (hg : Margin R w g) (dst src n : Int) :
    Margin R w (g.moveRows R dst src n) := by
  intro i' j' hj
  rw [Grid.moveRows]
  split
  · dsimp only
    split
    · exact hg _ j' hj
    · exact hg i' j' hj
  · exact hg i' j' hj

end Grid
