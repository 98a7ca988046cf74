import UnicornSuite.VtTerm

/-! The counters of the VT terminal stay in range and no row outside of the line buffer is written.
Every call keeps this from every state, except where a 32-bit sum overflows or `realloc` fails: the
conditions `InitFits` and `ByteFits` name these cases. -/

namespace UnicornSuite.VtTerm

open CInt

structure VTTerm.Ok (t : VTTerm) : Prop where
  cols : 1 ≤ t.cols ∧ t.cols ≤ maxInt32
  rows : 1 ≤ t.rows ∧ t.rows ≤ maxInt32
  scrollbackMax : 0 ≤ t.scrollbackMax ∧ t.scrollbackMax ≤ maxInt32
  cursorY : 0 ≤ t.cursorY ∧ t.cursorY < t.rows
  cursorX : 0 ≤ t.cursorX ∧ t.cursorX ≤ t.cols
  total : t.rows ≤ t.linesTotal ∧ t.linesTotal ≤ t.linesCapacity ∧
    t.linesTotal ≤ t.scrollbackMax + t.rows
  scrollOffset : 0 ≤ t.scrollOffset ∧ t.scrollOffset ≤ t.linesTotal - t.rows
  inBuffer : t.lines.fault = false

variable {t : VTTerm}

/-! ### Growing the buffer -/

theorem growCap_of_pos {want : Int} (hwant : want ≤ 2 ^ 30) (n : Nat) {cap : Int} (hcap : 1 ≤ cap)
    (hn : want ≤ cap * 2 ^ n) : ∃ c, growCap want (n + 1) cap = some c ∧ want ≤ c := by
  induction n generalizing cap with
  | zero =>
      refine ⟨cap, ?_, by omega⟩
      rw [growCap, if_neg (by omega)]
  | succ n ih =>
      by_cases hlt : cap < want
      · have hexact : wrap32 (cap * 2) = cap * 2 :=
          wrap32_of_fits ⟨by simp only [minInt32]; omega, by simp only [maxInt32]; omega⟩
        rw [growCap, if_pos hlt, if_neg (by omega), hexact]
        refine ih (by omega) ?_
        rw [Int.mul_assoc, ← Int.pow_succ']
        exact hn
      · refine ⟨cap, ?_, by omega⟩
        rw [growCap, if_neg hlt]

/-- The doubling reaches every size up to 2^30. -/
theorem growCap_of_le {want cap : Int} (hwant : want ≤ 2 ^ 30) (hcap : 0 ≤ cap) :
    ∃ c, growCap want 64 cap = some c ∧ want ≤ c := by
  by_cases hzero : cap = 0
  · by_cases hlt : cap < want
    · rw [growCap, if_pos hlt, if_pos hzero]
      exact growCap_of_pos hwant 62 (by omega) (by omega)
    · exact ⟨cap, by rw [growCap, if_neg hlt], by omega⟩
  · exact growCap_of_pos hwant 63 (by omega) (by omega)

/-- What the storage of the rows leaves alone. -/
structure SameView (t t' : VTTerm) : Prop where
  cols : t'.cols = t.cols
  rows : t'.rows = t.rows
  cursorX : t'.cursorX = t.cursorX
  cursorY : t'.cursorY = t.cursorY
  scrollbackMax : t'.scrollbackMax = t.scrollbackMax
  scrollOffset : t'.scrollOffset = t.scrollOffset

theorem SameView.trans {t t' t'' : VTTerm} (h : SameView t t') (h' : SameView t' t'') :
    SameView t t'' where
  cols := h'.cols.trans h.cols
  rows := h'.rows.trans h.rows
  cursorX := h'.cursorX.trans h.cursorX
  cursorY := h'.cursorY.trans h.cursorY
  scrollbackMax := h'.scrollbackMax.trans h.scrollbackMax
  scrollOffset := h'.scrollOffset.trans h.scrollOffset

theorem growTo_view (t : VTTerm) (want : Int) : SameView t (growTo t want) := by
  simp only [growTo]
  split
  · exact ⟨rfl, rfl, rfl, rfl, rfl, rfl⟩
  · split <;> exact ⟨rfl, rfl, rfl, rfl, rfl, rfl⟩

theorem growTo_linesTotal (t : VTTerm) (want : Int) : (growTo t want).linesTotal = t.linesTotal := by
  simp only [growTo]
  split
  · rfl
  · split <;> rfl

/-- The growth to `want` rows needs no overflow and no refused `realloc`. -/
def GrowRoom (t : VTTerm) (want : Int) : Prop :=
  want ≤ t.linesCapacity ∨ want ≤ 2 ^ 30 ∧ t.heap t.heapPos = true

instance (t : VTTerm) (want : Int) : Decidable (GrowRoom t want) :=
  inferInstanceAs (Decidable (_ ∨ _))

theorem growTo_spec (want : Int) (hcap : 0 ≤ t.linesCapacity) (htotal : want ≤ totalCap t)
    (hroom : GrowRoom t want) :
    want ≤ (growTo t want).linesCapacity ∧ t.linesCapacity ≤ (growTo t want).linesCapacity ∧
      (growTo t want).lines = t.lines := by
  by_cases hle : want ≤ t.linesCapacity
  · rw [growTo, if_pos hle]
    exact ⟨hle, Int.le_refl _, rfl⟩
  · obtain ⟨hwant, hheap⟩ := hroom.resolve_left hle
    obtain ⟨c, hgrow, hc⟩ := growCap_of_le hwant hcap
    rw [growTo, if_neg hle, hgrow]
    have hge : want ≤ (realloc t (if c > totalCap t then totalCap t else c)).linesCapacity := by
      simp only [realloc, hheap, if_true]
      split_ifs <;> omega
    exact ⟨hge, by dsimp only; omega, rfl⟩

/-- What appending needs of the storage; the visible region may still be filled up. -/
structure Storage (t : VTTerm) : Prop where
  cols : 1 ≤ t.cols
  rows : 1 ≤ t.rows
  scrollbackMax : 0 ≤ t.scrollbackMax
  total : 0 ≤ t.linesTotal ∧ t.linesTotal ≤ t.linesCapacity ∧
    t.linesTotal ≤ t.scrollbackMax + t.rows
  inBuffer : t.lines.fault = false

theorem Storage.memRow (h : Storage t) {i : Int} (hlo : 0 ≤ i) (hhi : i < t.linesCapacity) :
    (buffer t).MemRun i 0 (t.cols - 1) := by
  have hcols := h.cols
  intro _
  simp only [Region.Mem, buffer]
  omega

theorem dropOldest_view (t : VTTerm) : SameView t (dropOldestIfFull t) := by
  simp only [dropOldestIfFull]
  split <;> exact ⟨rfl, rfl, rfl, rfl, rfl, rfl⟩

theorem dropOldest_storage (h : Storage t) (hpos : 1 ≤ t.linesTotal) :
    Storage { t with
      lines := t.lines.moveRows (buffer t) 0 1 (t.linesTotal - 1)
      linesTotal := t.linesTotal - 1
      sel := selEvict t.sel } := by
  have htotal := h.total
  refine { h with total := ⟨by dsimp only; omega, by dsimp only; omega, by dsimp only; omega⟩, inBuffer := ?_ }
  refine Grid.fault_moveRows h.inBuffer (by omega) (fun _ => ?_) (fun _ => ?_)
  all_goals
    simp only [buffer]
    omega

theorem pushRow_storage (h : Storage t) (hcap : t.linesTotal < t.linesCapacity)
    (hmax : t.linesTotal < t.scrollbackMax + t.rows) : Storage (pushRow t) := by
  have htotal := h.total
  refine { h with
    total := ⟨by simp only [pushRow]; omega, by simp only [pushRow]; omega,
      by simp only [pushRow]; omega⟩
    inBuffer := ?_ }
  exact Grid.fault_fillRun h.inBuffer (h.memRow htotal.1 hcap) _

/-- A row fits in, or the buffer can grow for it, or the oldest row makes room. -/
def RowRoom (t : VTTerm) : Prop := totalCap t ≤ t.linesTotal ∨ GrowRoom t (t.linesTotal + 1)

instance (t : VTTerm) : Decidable (RowRoom t) := inferInstanceAs (Decidable (_ ∨ _))

theorem totalCap_le (h : Storage t) : totalCap t ≤ t.scrollbackMax + t.rows := by
  have hsb := h.scrollbackMax
  have hrows := h.rows
  by_cases hfits : t.scrollbackMax + t.rows ≤ maxInt32
  · exact Int.le_of_eq (wrap32_of_fits ⟨by simp only [minInt32]; omega, hfits⟩)
  · have hle := wrap32_le (t.scrollbackMax + t.rows)
    simp only [totalCap]
    omega

theorem appendBlankRow_view (t : VTTerm) : SameView t (appendBlankRow t) :=
  ((dropOldest_view t).trans (growTo_view _ _)).trans ⟨rfl, rfl, rfl, rfl, rfl, rfl⟩

/-- Below the cap a row is added. -/
theorem appendBlankRow_of_lt (h : Storage t) (hlt : t.linesTotal < totalCap t)
    (hroom : GrowRoom t (t.linesTotal + 1)) :
    Storage (appendBlankRow t) ∧ (appendBlankRow t).linesTotal = t.linesTotal + 1 ∧
      t.linesCapacity ≤ (appendBlankRow t).linesCapacity := by
  have htotal := h.total
  have hmax := totalCap_le h
  obtain ⟨hcap, hmono, hlines⟩ := growTo_spec _ (by omega) (by omega) hroom
  have hview := growTo_view t (t.linesTotal + 1)
  have hsame := growTo_linesTotal t (t.linesTotal + 1)
  have hgrown : Storage (growTo t (t.linesTotal + 1)) :=
    { cols := hview.cols ▸ h.cols
      rows := hview.rows ▸ h.rows
      scrollbackMax := hview.scrollbackMax ▸ h.scrollbackMax
      total := ⟨by omega, by omega, by rw [hsame, hview.scrollbackMax, hview.rows]; omega⟩
      inBuffer := hlines ▸ h.inBuffer }
  simp only [appendBlankRow, dropOldestIfFull, if_pos hlt]
  refine ⟨pushRow_storage hgrown (by omega) ?_, by simp only [pushRow, hsame], hmono⟩
  rw [hsame, hview.scrollbackMax, hview.rows]
  omega

/-- At the cap the oldest row goes and the number of rows stays. -/
theorem appendBlankRow_of_full (h : Storage t) (hfull : totalCap t ≤ t.linesTotal)
    (hpos : 1 ≤ t.linesTotal) :
    Storage (appendBlankRow t) ∧ (appendBlankRow t).linesTotal = t.linesTotal := by
  have htotal := h.total
  have hdrop := dropOldest_storage h hpos
  simp only [appendBlankRow, dropOldestIfFull, if_neg (by omega : ¬t.linesTotal < totalCap t)]
  rw [growTo, if_pos (by dsimp only; omega)]
  exact ⟨pushRow_storage hdrop (by dsimp only; omega) (by dsimp only; omega),
    by simp only [pushRow]; omega⟩

/-! ### The cursor -/

theorem VTTerm.Ok.storage (h : t.Ok) : Storage t where
  cols := h.cols.1
  rows := h.rows.1
  scrollbackMax := h.scrollbackMax.1
  total := ⟨by have := h.rows; have := h.total; omega, h.total.2.1, h.total.2.2⟩
  inBuffer := h.inBuffer

/-- A change of the storage that loses no rows. -/
theorem VTTerm.Ok.ofStorage (h : t.Ok) {t' : VTTerm} (hview : SameView t t') (hs : Storage t')
    (hle : t.linesTotal ≤ t'.linesTotal) : t'.Ok where
  cols := hview.cols ▸ h.cols
  rows := hview.rows ▸ h.rows
  scrollbackMax := hview.scrollbackMax ▸ h.scrollbackMax
  cursorY := by
    rw [hview.cursorY, hview.rows]
    exact h.cursorY
  cursorX := by
    rw [hview.cursorX, hview.cols]
    exact h.cursorX
  total := by
    have htotal := h.total
    exact ⟨by rw [hview.rows]; omega, hs.total.2⟩
  scrollOffset := by
    have hoff := h.scrollOffset
    rw [hview.scrollOffset, hview.rows]
    omega
  inBuffer := hs.inBuffer

theorem appendBlankRow_ok (h : t.Ok) (hroom : RowRoom t) : (appendBlankRow t).Ok := by
  have hrows := h.rows
  have htotal := h.total
  by_cases hlt : t.linesTotal < totalCap t
  · obtain ⟨hs, hsame, -⟩ :=
      appendBlankRow_of_lt h.storage hlt (hroom.resolve_left (by omega))
    exact h.ofStorage (appendBlankRow_view t) hs (by omega)
  · obtain ⟨hs, hsame⟩ := appendBlankRow_of_full h.storage (by omega) (by omega)
    exact h.ofStorage (appendBlankRow_view t) hs (by omega)

theorem moveCursor_ok (h : t.Ok) {y x : Int} (hy : 0 ≤ y ∧ y < t.rows) (hx : 0 ≤ x ∧ x ≤ t.cols) :
    (moveCursor t y x).Ok := { h with cursorY := hy, cursorX := hx }

theorem newlineWithScroll_ok (h : t.Ok) (hroom : ¬t.cursorY + 1 < t.rows → RowRoom t) :
    (newlineWithScroll t).Ok := by
  have hy := h.cursorY
  simp only [newlineWithScroll]
  split
  · exact moveCursor_ok h ⟨by omega, by omega⟩ h.cursorX
  · next hlast => exact appendBlankRow_ok h (hroom hlast)

@[simp] theorem newlineWithScroll_cols (t : VTTerm) : (newlineWithScroll t).cols = t.cols := by
  simp only [newlineWithScroll]
  split
  · rfl
  · exact (appendBlankRow_view t).cols

@[simp] theorem newlineWithScroll_cursorX (t : VTTerm) :
    (newlineWithScroll t).cursorX = t.cursorX := by
  simp only [newlineWithScroll]
  split
  · rfl
  · exact (appendBlankRow_view t).cursorX

/-- The rows of the visible region are rows of the buffer. -/
theorem VTTerm.Ok.visible (h : t.Ok) {i : Int} (hlo : 0 ≤ i) (hhi : i < t.rows) :
    0 ≤ visibleTopIndex t + i ∧ visibleTopIndex t + i < t.linesCapacity := by
  have htotal := h.total
  simp only [visibleTopIndex]
  omega

theorem writeChar_ok (h : t.Ok) (hx : t.cursorX < t.cols) (b : Nat) : (writeChar t b).Ok := by
  have hx0 := h.cursorX
  obtain ⟨hlo, hhi⟩ := h.visible h.cursorY.1 h.cursorY.2
  refine { h with
    cursorX := ⟨by simp only [writeChar]; omega, by simp only [writeChar]; omega⟩, inBuffer := ?_ }
  refine Grid.fault_put h.inBuffer ?_ _
  simp only [Region.Mem, buffer]
  omega

theorem putPrintable_ok (h : t.Ok) (b : Nat)
    (hroom : t.cols ≤ t.cursorX → ¬t.cursorY + 1 < t.rows → RowRoom t) : (putPrintable t b).Ok := by
  have hcols := h.cols
  simp only [putPrintable]
  split
  · next hwrap =>
      have hstart : (moveCursor t t.cursorY 0).Ok :=
        moveCursor_ok h h.cursorY ⟨Int.le_refl _, by omega⟩
      refine writeChar_ok (newlineWithScroll_ok hstart (hroom hwrap)) ?_ b
      simp only [newlineWithScroll_cursorX, newlineWithScroll_cols, moveCursor]
      omega
  · exact writeChar_ok h (by omega) b

theorem tab_ok (h : t.Ok) (hfits : t.cursorX.tdiv 8 * 8 + 8 ≤ maxInt32) : (tab t).Ok := by
  have hcols := h.cols
  have hx := h.cursorX
  have hdiv : 0 ≤ t.cursorX.tdiv 8 := Int.tdiv_nonneg hx.1 (by decide)
  have hexact : wrap32 (t.cursorX.tdiv 8 * 8 + 8) = t.cursorX.tdiv 8 * 8 + 8 :=
    wrap32_of_fits ⟨by simp only [minInt32]; omega, hfits⟩
  simp only [tab, hexact]
  refine moveCursor_ok h h.cursorY ?_
  split_ifs <;> omega

theorem lineFeed_ok (h : t.Ok) (hroom : ¬t.cursorY + 1 < t.rows → RowRoom t) :
    (lineFeed t).Ok := by
  have hcols := h.cols
  have hcount : VTTerm.Ok { t with statLf := t.statLf + 1 } := { h with }
  simp only [lineFeed]
  split
  · exact newlineWithScroll_ok (moveCursor_ok hcount h.cursorY ⟨Int.le_refl _, by dsimp only; omega⟩)
      hroom
  · exact newlineWithScroll_ok hcount hroom

theorem carriageReturn_ok (h : t.Ok) : (carriageReturn t).Ok := by
  have hcols := h.cols
  have hcount : VTTerm.Ok { t with statCr := t.statCr + 1 } := { h with }
  exact moveCursor_ok hcount h.cursorY ⟨Int.le_refl _, by dsimp only; omega⟩

/-! ### CSI -/

theorem eraseToEnd_fault (h : t.Ok) {g : Grid Cell} (hg : g.fault = false) :
    (eraseToEnd t g).fault = false := by
  have hx := h.cursorX
  obtain ⟨hlo, hhi⟩ := h.visible h.cursorY.1 h.cursorY.2
  refine Grid.fault_fillRun hg (fun _ => ?_) _
  simp only [Region.Mem, buffer]
  omega

theorem eraseFromStart_fault (h : t.Ok) {g : Grid Cell} (hg : g.fault = false) :
    (eraseFromStart t g).fault = false := by
  have hx := h.cursorX
  have hcols := h.cols
  obtain ⟨hlo, hhi⟩ := h.visible h.cursorY.1 h.cursorY.2
  refine Grid.fault_fillRun hg (fun _ => ?_) _
  simp only [Region.Mem, buffer]
  split_ifs <;> omega

theorem rowBlank_fault (h : t.Ok) {i : Int} (hlo : 0 ≤ i) (hhi : i < t.linesCapacity) {g : Grid Cell}
    (hg : g.fault = false) : (rowBlank t i g).fault = false :=
  Grid.fault_fillRun hg (h.storage.memRow hlo hhi) _

theorem blankRows_fault (h : t.Ok) {lo hi : Int} (hlo : 0 ≤ lo) (hhi : hi ≤ t.rows) {g : Grid Cell}
    (hg : g.fault = false) : (blankRows t lo hi g).fault = false := by
  refine Loop.up_inv (I := fun g : Grid Cell => g.fault = false) (fun i g h0 h1 hg => ?_) hg
  obtain ⟨hi0, hi1⟩ := h.visible (i := i) (by omega) (by omega)
  exact rowBlank_fault h hi0 hi1 hg

theorem eraseDisplay_fault (h : t.Ok) (mode : Int) : (eraseDisplay t mode).fault = false := by
  have hy := h.cursorY
  simp only [eraseDisplay]
  split_ifs
  · exact blankRows_fault h (by decide) (Int.le_refl _) h.inBuffer
  · exact blankRows_fault h (by omega) (Int.le_refl _) (eraseToEnd_fault h h.inBuffer)
  · exact eraseFromStart_fault h (blankRows_fault h (by decide) (by omega) h.inBuffer)
  · exact h.inBuffer

theorem eraseLine_fault (h : t.Ok) (mode : Int) : (eraseLine t mode).fault = false := by
  obtain ⟨hlo, hhi⟩ := h.visible h.cursorY.1 h.cursorY.2
  simp only [eraseLine]
  split_ifs
  · exact eraseToEnd_fault h h.inBuffer
  · exact eraseFromStart_fault h h.inBuffer
  · exact rowBlank_fault h hlo hhi h.inBuffer
  · exact h.inBuffer

theorem one_le_atLeastOne (v : Int) : 1 ≤ atLeastOne v := by
  simp only [atLeastOne]
  split_ifs <;> omega

theorem cursorTo_ok (h : t.Ok) {r c : Int} (hr : 1 ≤ r) (hc : 1 ≤ c) : (cursorTo t r c).Ok := by
  have hrows := h.rows
  have hcols := h.cols
  refine moveCursor_ok h ?_ ?_
  · split_ifs <;> omega
  · split_ifs <;> omega

/-- A count comes from an `int`. -/
def IntCount (n : Int) : Prop := 1 ≤ n ∧ n ≤ maxInt32

theorem cursorUp_ok (h : t.Ok) {n : Int} (hn : IntCount n) : (cursorUp t n).Ok := by
  have hmax : maxInt32 = 2147483647 := rfl
  have hrows := h.rows
  have hy := h.cursorY
  obtain ⟨hn1, hn2⟩ := hn
  have hexact : wrap32 (t.cursorY - n) = t.cursorY - n :=
    wrap32_of_fits ⟨by simp only [minInt32]; omega, by omega⟩
  simp only [cursorUp, hexact]
  refine moveCursor_ok h ?_ h.cursorX
  split_ifs <;> omega

theorem cursorBack_ok (h : t.Ok) {n : Int} (hn : IntCount n) : (cursorBack t n).Ok := by
  have hmax : maxInt32 = 2147483647 := rfl
  have hcols := h.cols
  have hx := h.cursorX
  obtain ⟨hn1, hn2⟩ := hn
  have hexact : wrap32 (t.cursorX - n) = t.cursorX - n :=
    wrap32_of_fits ⟨by simp only [minInt32]; omega, by omega⟩
  simp only [cursorBack, hexact]
  refine moveCursor_ok h h.cursorY ?_
  split_ifs <;> omega

theorem cursorDown_ok (h : t.Ok) {n : Int} (hn : 1 ≤ n) (hfits : t.cursorY + n ≤ maxInt32) :
    (cursorDown t n).Ok := by
  have hrows := h.rows
  have hy := h.cursorY
  have hexact : wrap32 (t.cursorY + n) = t.cursorY + n :=
    wrap32_of_fits ⟨by simp only [minInt32]; omega, hfits⟩
  simp only [cursorDown, hexact]
  refine moveCursor_ok h ?_ h.cursorX
  split_ifs <;> omega

theorem cursorForward_ok (h : t.Ok) {n : Int} (hn : 1 ≤ n) (hfits : t.cursorX + n ≤ maxInt32) :
    (cursorForward t n).Ok := by
  have hcols := h.cols
  have hx := h.cursorX
  have hexact : wrap32 (t.cursorX + n) = t.cursorX + n :=
    wrap32_of_fits ⟨by simp only [minInt32]; omega, hfits⟩
  simp only [cursorForward, hexact]
  refine moveCursor_ok h h.cursorY ?_
  split_ifs <;> omega

theorem digitsVal_le (ds : List Nat) : digitsVal ds ≤ maxInt32 := by
  rcases List.eq_nil_or_concat ds with rfl | ⟨ds, b, rfl⟩
  · decide
  · rw [digitsVal, List.concat_eq_append, List.foldl_append]
    exact wrap32_le _

/-- Every parameter is the value of an `int`. -/
theorem le_of_mem_parseCsiParams {max : Nat} {buf : List Nat} {v : Int}
    (hv : v ∈ parseCsiParams max buf) : v ≤ maxInt32 := by
  have hval : ∀ ds : List Nat, (if ds = [] then -1 else digitsVal ds) ≤ maxInt32 := by
    intro ds
    split
    · decide
    · exact digitsVal_le ds
  induction max generalizing buf with
  | zero => simp [parseCsiParams] at hv
  | succ max ih =>
      cases buf with
      | nil => simp [parseCsiParams] at hv
      | cons b buf =>
          simp only [parseCsiParams] at hv
          split at hv
          · rcases List.mem_cons.mp hv with rfl | hrest
            · exact hval _
            · exact ih hrest
          · rw [List.mem_singleton.mp hv]
            exact hval _

theorem defaultParam_le (t : VTTerm) (idx : Nat) {dflt : Int} (hd : dflt ≤ maxInt32) :
    defaultParam (csiParams t) idx dflt ≤ maxInt32 := by
  simp only [defaultParam]
  split
  · exact hd
  · next hget =>
      split
      · exact hd
      · exact le_of_mem_parseCsiParams (List.mem_of_getElem? hget)

theorem moveCount_int (t : VTTerm) : IntCount (moveCount (csiParams t)) := by
  have hle : defaultParam (csiParams t) 0 1 ≤ maxInt32 := defaultParam_le t 0 (by decide)
  refine ⟨one_le_atLeastOne _, ?_⟩
  simp only [moveCount, atLeastOne]
  split_ifs
  · decide
  · exact hle

/-- The sums of CSI B and C stay in an `int`. -/
structure CsiFits (t : VTTerm) (final : Nat) : Prop where
  down : final = 0x42 → t.cursorY + moveCount (csiParams t) ≤ maxInt32
  forward : final = 0x43 → t.cursorX + moveCount (csiParams t) ≤ maxInt32

instance (t : VTTerm) (final : Nat) : Decidable (CsiFits t final) :=
  decidable_of_iff (_ ∧ _) ⟨fun h => ⟨h.1, h.2⟩, fun h => ⟨h.down, h.forward⟩⟩

theorem dispatchCsi_ok (h : t.Ok) {final : Nat} (hfits : CsiFits t final) :
    (dispatchCsi t final).Ok := by
  have hcount := moveCount_int t
  unfold dispatchCsi
  extract_lets params
  split
  · exact { h with inBuffer := eraseDisplay_fault h _ }
  · exact cursorTo_ok h (one_le_atLeastOne _) (one_le_atLeastOne _)
  · exact cursorTo_ok h (one_le_atLeastOne _) (one_le_atLeastOne _)
  · exact cursorUp_ok h hcount
  · exact cursorDown_ok h hcount.1 (hfits.down rfl)
  · exact cursorForward_ok h hcount.1 (hfits.forward rfl)
  · exact cursorBack_ok h hcount
  · exact { h with inBuffer := eraseLine_fault h _ }
  · exact h

/-! ### The byte stream -/

/-- A byte that makes the terminal append a row. -/
def AppendsRow (t : VTTerm) (b : UInt8) : Prop :=
  t.pstate = .normal ∧
    (b.toNat = 0x0A ∨ 0x20 ≤ b.toNat ∧ b.toNat ≠ 0x7F ∧ t.cols ≤ t.cursorX) ∧
    ¬t.cursorY + 1 < t.rows

instance (t : VTTerm) (b : UInt8) : Decidable (AppendsRow t b) :=
  inferInstanceAs (Decidable (_ ∧ _ ∧ _))

/-- The byte meets no overflow and no refused `realloc`. -/
structure ByteFits (t : VTTerm) (b : UInt8) : Prop where
  room : AppendsRow t b → RowRoom t
  tab : t.pstate = .normal → b.toNat = 0x09 → t.cursorX.tdiv 8 * 8 + 8 ≤ maxInt32
  csi : t.pstate = .csiCollecting → CsiFits t b.toNat

instance (t : VTTerm) (b : UInt8) : Decidable (ByteFits t b) :=
  decidable_of_iff (_ ∧ _ ∧ _) ⟨fun h => ⟨h.1, h.2.1, h.2.2⟩, fun h => ⟨h.room, h.tab, h.csi⟩⟩

theorem handleC0_ok (h : t.Ok) {b : UInt8} (hst : t.pstate = .normal) (hfits : ByteFits t b) :
    (handleC0 t b.toNat).Ok := by
  unfold handleC0
  split
  · next hb => exact lineFeed_ok h fun hlast => hfits.room ⟨hst, .inl hb, hlast⟩
  · exact carriageReturn_ok h
  · have hx := h.cursorX
    split
    · exact moveCursor_ok h h.cursorY ⟨by omega, by omega⟩
    · exact h
  · next hb => exact tab_ok h (hfits.tab hst hb)
  · exact h

theorem setParse_ok (h : t.Ok) (pstate : Parse) (csiBuf : List Nat) :
    (setParse t pstate csiBuf).Ok := { h with }

theorem feedByte_ok (h : t.Ok) {b : UInt8} (hfits : ByteFits t b) : (feedByte t b).Ok := by
  unfold feedByte
  split
  · next hst =>
      split_ifs with hesc hc0 hdel
      · exact setParse_ok h _ _
      · exact handleC0_ok h hst hfits
      · exact h
      · exact putPrintable_ok h _ fun hwrap hlast =>
          hfits.room ⟨hst, .inr ⟨by omega, hdel, hwrap⟩, hlast⟩
  · split
    · exact setParse_ok h _ _
    · exact setParse_ok h _ _
  · next hst =>
      split_ifs
      · exact setParse_ok (dispatchCsi_ok h (hfits.csi hst)) _ _
      · exact setParse_ok h _ _
      · exact setParse_ok h _ _

theorem scrollToBottom_ok (h : t.Ok) : (scrollToBottom t).Ok := by
  have hoff := h.scrollOffset
  exact { h with scrollOffset := ⟨Int.le_refl _, by simp only [scrollToBottom]; omega⟩ }

theorem feedBytes_ok (h : t.Ok) {buf : List UInt8}
    (hfits : Machine.Guarded feedByte ByteFits (scrollToBottom t) buf) : (feedBytes t buf).Ok := by
  simp only [feedBytes]
  split
  · exact h
  · exact Machine.run_inv_of_guarded (I := VTTerm.Ok) (fun _ _ hs hb => feedByte_ok hs hb)
      (scrollToBottom_ok h) hfits

/-! ### Resize -/

theorem trimRows_bounds (t : VTTerm) (curAbs : Int) (n : Nat) (src : Int) :
    trimRows t curAbs n src ≤ src ∧ (curAbs < src → curAbs < trimRows t curAbs n src) := by
  induction n generalizing src with
  | zero => exact ⟨Int.le_refl _, id⟩
  | succ n ih =>
      simp only [trimRows]
      split
      · next hgo =>
          obtain ⟨hle, hlt⟩ := ih (src - 1)
          exact ⟨by omega, fun _ => hlt hgo.1⟩
      · exact ⟨Int.le_refl _, id⟩

/-- The row of the cursor is never given up. -/
theorem sourceRows_bounds (h : t.Ok) (rows : Int) :
    1 ≤ sourceRows t rows ∧ sourceRows t rows ≤ t.linesTotal := by
  have hrows := h.rows
  have hy := h.cursorY
  have htotal := h.total
  simp only [sourceRows]
  split
  · obtain ⟨hle, hlt⟩ := trimRows_bounds t (t.linesTotal - t.rows + t.cursorY)
      (t.rows - rows).toNat t.linesTotal
    have := hlt (by omega)
    exact ⟨by omega, hle⟩
  · exact ⟨by omega, Int.le_refl _⟩

theorem newCap_bounds (h : t.Ok) {rows : Int} (hrows : 1 ≤ rows ∧ rows ≤ maxInt32) :
    rows ≤ newCap t rows ∧ newCap t rows ≤ t.scrollbackMax + rows := by
  have hmax : maxInt32 = 2147483647 := rfl
  have hsb := h.scrollbackMax
  simp only [newCap]
  split
  · exact ⟨Int.le_refl _, by omega⟩
  · next hge =>
      refine ⟨by omega, ?_⟩
      by_cases hfits : t.scrollbackMax + rows ≤ maxInt32
      · exact Int.le_of_eq (wrap32_of_fits ⟨by simp only [minInt32]; omega, hfits⟩)
      · have hle := wrap32_le (t.scrollbackMax + rows)
        omega

theorem newLines_fault (t : VTTerm) (hg : t.lines.fault = false) {cap cols kept rows : Int}
    (src : Int) (hkept : 0 ≤ kept ∧ kept ≤ cap) (hrows : rows ≤ cap) :
    (newLines t ⟨0, cap, 0, cols⟩ src kept rows).fault = false := by
  refine Loop.up_inv (I := fun g : Grid Cell => g.fault = false) (fun k g h0 h1 hg => ?_) ?_
  · refine Grid.fault_fillRun hg (fun hle => ?_) _
    simp only [Region.Mem] at hle ⊢
    omega
  · refine Loop.up_inv (I := fun g : Grid Cell => g.fault = false) (fun i g h0 h1 hg => ?_) hg
    refine Loop.up_inv (I := fun g : Grid Cell => g.fault = false) (fun j g h2 h3 hg => ?_) hg
    refine Grid.fault_put hg ?_ _
    simp only [Region.Mem] at h3 ⊢
    omega

theorem clamp_bounds {v lo hi : Int} (h : lo ≤ hi) : lo ≤ clamp v lo hi ∧ clamp v lo hi ≤ hi := by
  simp only [clamp]
  split_ifs <;> omega

theorem rebuild_ok (h : t.Ok) {cols rows src : Int} (hcols : 1 ≤ cols ∧ cols ≤ maxInt32)
    (hrows : 1 ≤ rows ∧ rows ≤ maxInt32) (hsrc : 1 ≤ src) : (rebuild t cols rows src).Ok := by
  obtain ⟨hcap0, hcap1⟩ := newCap_bounds h hrows
  have hx := h.cursorX
  unfold rebuild
  extract_lets curAbs cap kept total off
  have hkept : 1 ≤ kept ∧ kept ≤ cap := by
    simp only [kept]
    split_ifs <;> omega
  have htotal : rows ≤ total ∧ total ≤ cap := by
    simp only [total]
    split_ifs <;> omega
  clear_value kept total
  exact
    { cols := hcols
      rows := hrows
      scrollbackMax := h.scrollbackMax
      cursorY := by
        obtain ⟨hlo, hhi⟩ := clamp_bounds (v := curAbs - (src - kept) - (total - rows))
          (by omega : (0 : Int) ≤ rows - 1)
        exact ⟨hlo, by dsimp only; omega⟩
      cursorX := by
        dsimp only
        split_ifs <;> omega
      total := ⟨htotal.1, htotal.2, by dsimp only; omega⟩
      scrollOffset := by
        dsimp only
        split_ifs <;> omega
      inBuffer := newLines_fault t h.inBuffer src ⟨by omega, hkept.2⟩ hcap0 }

theorem toInt_le (v : Int32) : v.toInt ≤ maxInt32 := by
  have := v.toInt_lt
  simp only [maxInt32]
  omega

theorem resize_ok (h : t.Ok) (cols rows : Int32) (calloc : Bool) : (resize t cols rows calloc).Ok := by
  simp only [resize]
  split_ifs
  · exact h
  · exact h
  · exact rebuild_ok h ⟨by omega, toInt_le cols⟩ ⟨by omega, toInt_le rows⟩
      (sourceRows_bounds h _).1
  · exact h

/-! ### The other calls -/

theorem home_ok (h : t.Ok) : (home t).Ok := by
  have hcols := h.cols
  have hrows := h.rows
  have htotal := h.total
  exact { h with
    cursorY := ⟨Int.le_refl _, by simp only [home]; omega⟩
    cursorX := ⟨Int.le_refl _, by simp only [home]; omega⟩
    scrollOffset := ⟨Int.le_refl _, by simp only [home]; omega⟩ }

theorem blankRun_fault (h : t.Ok) (lo hi : Int) (hlo : 0 ≤ lo) (hhi : hi ≤ t.linesCapacity) :
    (Loop.up lo hi (rowBlank t) t.lines).fault = false :=
  Loop.up_inv (I := fun g : Grid Cell => g.fault = false)
    (fun i _ h0 h1 hg => rowBlank_fault h (by omega) (by omega) hg) h.inBuffer

theorem clearVisible_ok (h : t.Ok) : (clearVisible t).Ok := by
  have htotal := h.total
  refine home_ok { h with inBuffer := blankRun_fault h _ _ ?_ htotal.2.1 }
  simp only [visibleTopIndex]
  omega

/-- The history is dropped, the view of it with it. -/
theorem clearAll_ok (h : t.Ok) : (clearAll t).Ok := by
  have hrows := h.rows
  have htotal := h.total
  have hbottom := scrollToBottom_ok h
  have hcollapse : (collapse (scrollToBottom t)).Ok := by
    refine { hbottom with total := ?_, scrollOffset := ?_ }
    · simp only [collapse, scrollToBottom]
      split_ifs <;> omega
    · simp only [collapse, scrollToBottom]
      split_ifs <;> omega
  have hblank := blankRun_fault hcollapse 0 t.rows (by decide)
    (by simp only [collapse, scrollToBottom]; omega)
  exact home_ok (t := { collapse (scrollToBottom t) with
    lines := Loop.up 0 t.rows (rowBlank (collapse (scrollToBottom t))) t.lines })
    { hcollapse with inBuffer := hblank }

theorem scrollBy_ok (h : t.Ok) (lines : Int32) : (scrollBy t lines).Ok := by
  have htotal := h.total
  refine { h with scrollOffset := ?_ }
  simp only [scrollBy, scrollbackCount]
  split_ifs <;> omega

theorem selectAll_ok (h : t.Ok) : (selectAll t).Ok := by
  simp only [selectAll]
  split
  · exact h
  · exact { h with }

/-- The condition on a call: the bytes it feeds meet no overflow and no refused `realloc`. -/
def EventFits (t : VTTerm) : Event → Prop
  | .feed buf => Machine.Guarded feedByte ByteFits (scrollToBottom t) buf
  | _ => True

instance (t : VTTerm) : (e : Event) → Decidable (EventFits t e)
  | .feed buf =>
      inferInstanceAs (Decidable (Machine.Guarded feedByte ByteFits (scrollToBottom t) buf))
  | .resize _ _ _ | .scrollBy _ | .scrollToBottom | .clearVisible | .clearAll | .setLfToCrlf _
  | .selectSet _ _ _ _ | .selectClear | .selectAll => isTrue trivial

theorem step_ok (h : t.Ok) {e : Event} (hfits : EventFits t e) : (step t e).Ok := by
  cases e with
  | feed buf => exact feedBytes_ok h hfits
  | resize cols rows calloc => exact resize_ok h cols rows calloc
  | scrollBy lines => exact scrollBy_ok h lines
  | scrollToBottom => exact scrollToBottom_ok h
  | clearVisible => exact clearVisible_ok h
  | clearAll => exact clearAll_ok h
  | setLfToCrlf enable => exact { h with }
  | selectSet => exact { h with }
  | selectClear => exact { h with }
  | selectAll => exact selectAll_ok h

/-! ### Sessions -/

/-- The buffer for the first rows meets no overflow and no refused `realloc`. -/
structure InitFits (heap : Nat → Bool) (cols rows scrollback : Int32) : Prop where
  cap : (empty heap cols.toInt rows.toInt scrollback.toInt).scrollbackMax +
    (empty heap cols.toInt rows.toInt scrollback.toInt).rows ≤ maxInt32
  rows : (empty heap cols.toInt rows.toInt scrollback.toInt).rows ≤ 2 ^ 30
  heap : heap 0 = true

/-- The first `i` rows of the visible region are there. -/
structure Filled (t₀ : VTTerm) (i : Int) (t : VTTerm) : Prop where
  storage : Storage t
  view : SameView t₀ t
  linesTotal : t.linesTotal = i
  room : t.rows ≤ t.linesCapacity

theorem Filled.append {t₀ : VTTerm} {i : Int} (h : Filled t₀ i t) (hi : i < t.rows)
    (hcap : t.scrollbackMax + t.rows ≤ maxInt32) : Filled t₀ (i + 1) (appendBlankRow t) := by
  have hsb := h.storage.scrollbackMax
  have hrows := h.storage.rows
  have hroom := h.room
  have hlines := h.linesTotal
  have hexact : totalCap t = t.scrollbackMax + t.rows :=
    wrap32_of_fits ⟨by simp only [minInt32]; omega, hcap⟩
  obtain ⟨hs, htotal, hmono⟩ := appendBlankRow_of_lt h.storage (by omega) (.inl (by omega))
  have hview := appendBlankRow_view t
  exact ⟨hs, h.view.trans hview, by omega, by rw [hview.rows]; omega⟩

theorem empty_storage (heap : Nat → Bool) (cols rows scrollback : Int) :
    Storage (empty heap cols rows scrollback) where
  cols := by
    simp only [empty]
    split_ifs <;> omega
  rows := by
    simp only [empty]
    split_ifs <;> omega
  scrollbackMax := by
    simp only [empty]
    split_ifs <;> omega
  total := by
    simp only [empty]
    split_ifs <;> omega
  inBuffer := rfl

theorem empty_filled {heap : Nat → Bool} {cols rows scrollback : Int32}
    (hfits : InitFits heap cols rows scrollback) :
    Filled (empty heap cols.toInt rows.toInt scrollback.toInt) 0
      (growTo (empty heap cols.toInt rows.toInt scrollback.toInt)
        (empty heap cols.toInt rows.toInt scrollback.toInt).rows) := by
  have hs := empty_storage heap cols.toInt rows.toInt scrollback.toInt
  have hheap : (empty heap cols.toInt rows.toInt scrollback.toInt).heap
      (empty heap cols.toInt rows.toInt scrollback.toInt).heapPos = true := hfits.heap
  have hzero : (empty heap cols.toInt rows.toInt scrollback.toInt).linesTotal = 0 := rfl
  have hcap := hfits.cap
  have hrows := hfits.rows
  generalize empty heap cols.toInt rows.toInt scrollback.toInt = t₀ at *
  have hsb := hs.scrollbackMax
  have hpos := hs.rows
  have hexact : totalCap t₀ = t₀.scrollbackMax + t₀.rows :=
    wrap32_of_fits ⟨by simp only [minInt32]; omega, hcap⟩
  have htotal := hs.total
  obtain ⟨hgrown, -, hlines⟩ :=
    growTo_spec (t := t₀) t₀.rows (by omega) (by omega) (.inr ⟨hrows, hheap⟩)
  have hview := growTo_view t₀ t₀.rows
  have hsame := growTo_linesTotal t₀ t₀.rows
  refine ⟨⟨hview.cols ▸ hs.cols, by rw [hview.rows]; exact hs.rows,
    hview.scrollbackMax ▸ hs.scrollbackMax, ⟨by omega, by omega, ?_⟩, hlines ▸ hs.inBuffer⟩,
    hview, by omega, by rw [hview.rows]; omega⟩
  rw [hview.scrollbackMax, hview.rows]
  omega

theorem init_filled {heap : Nat → Bool} {cols rows scrollback : Int32}
    (hfits : InitFits heap cols rows scrollback) :
    Filled (empty heap cols.toInt rows.toInt scrollback.toInt)
      (empty heap cols.toInt rows.toInt scrollback.toInt).rows (init heap cols rows scrollback) := by
  have hs := empty_storage heap cols.toInt rows.toInt scrollback.toInt
  have hpos := hs.rows
  simp only [init]
  refine Loop.up_ind (by omega) (fun i t hlo hhi ht => ?_) (empty_filled hfits)
  have hcap := hfits.cap
  refine ht.append (by rw [ht.view.rows]; exact hhi) ?_
  rw [ht.view.scrollbackMax, ht.view.rows]
  exact hcap

theorem init_ok {heap : Nat → Bool} {cols rows scrollback : Int32}
    (hfits : InitFits heap cols rows scrollback) : (init heap cols rows scrollback).Ok := by
  obtain ⟨hs, hview, htotal, hroom⟩ := init_filled hfits
  have hsb := hs.scrollbackMax
  have hcols := hs.cols
  have hrows := hs.rows
  have hmax : maxInt32 = 2147483647 := rfl
  have hcap := hfits.cap
  rw [← hview.scrollbackMax, ← hview.rows] at hcap
  rw [← hview.rows] at htotal
  have hcols' : (init heap cols rows scrollback).cols ≤ maxInt32 := by
    have := toInt_le cols
    rw [hview.cols]
    simp only [empty]
    split_ifs <;> omega
  exact
    { cols := ⟨hcols, hcols'⟩
      rows := ⟨hrows, by omega⟩
      scrollbackMax := ⟨hsb, by omega⟩
      cursorY := by rw [hview.cursorY]; exact ⟨Int.le_refl _, hrows⟩
      cursorX := by rw [hview.cursorX]; exact ⟨Int.le_refl _, by simp only [empty]; omega⟩
      total := ⟨by omega, hs.total.2⟩
      scrollOffset := by rw [hview.scrollOffset]; exact ⟨Int.le_refl _, by simp only [empty]; omega⟩
      inBuffer := hs.inBuffer }

/-- Every state of a session whose calls meet no overflow and no refused `realloc`. -/
theorem session_ok {heap : Nat → Bool} {cols rows scrollback : Int32}
    (hinit : InitFits heap cols rows scrollback) {events : List Event}
    (hevents : Machine.Guarded step EventFits (init heap cols rows scrollback) events) :
    (Machine.run step (init heap cols rows scrollback) events).Ok :=
  Machine.run_inv_of_guarded (I := VTTerm.Ok) (fun _ _ h hfits => step_ok h hfits) (init_ok hinit)
    hevents

theorem session_ok_resize :
    (Machine.run step (init (fun _ => true) 2 2 1)
      [.feed [0x41, 0x42, 0x43, 0x0A, 0x0A], .resize 3 1 true, .scrollBy 1, .clearAll]).Ok :=
  session_ok ⟨by decide, by decide, rfl⟩ (by decide)

/-- CSI 2147483647 B on the second row: the sum overflows and the cursor ends up far above the page. -/
theorem session_cursor_overflow :
    (Machine.run step (init (fun _ => true) 1 2 0)
      [.feed [0x0A, 0x1B, 0x5B, 0x32, 0x31, 0x34, 0x37, 0x34, 0x38, 0x33, 0x36, 0x34, 0x37,
        0x42]]).cursorY = -2147483648 := by
  decide +kernel

end UnicornSuite.VtTerm
