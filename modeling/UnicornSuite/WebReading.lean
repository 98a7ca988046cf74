import UnicornSuite.WebHtml

/-! Reading a document back. The ink of a block is its characters that are not white space, each with
the cell it stands in; the ink of a document lists them from the first block to the last, a table row
by row and cell by cell. A block appended to the last cell of a table comes behind all that the table
holds. -/

namespace UnicornSuite.Web

/-- A cell, by the number of its tag, or the top level. -/
abbrev Place := Option Nat

def ink (text : List Char) : List Char := text.filter fun c => !isLayoutWhite c

def runsInk (runs : List WebRun) : List Char := runs.flatMap fun r => ink r.text

mutual

def WebBlock.ink (p : Place) : WebBlock → List (Place × Char)
  | .flow _ _ _ _ runs => (runsInk runs).map (p, ·)
  | .hr _ => []
  | .img _ _ _ => []
  | .table _ _ ⟨_, rows⟩ => rowsInk rows

def rowsInk : List (WebRow WebBlock) → List (Place × Char)
  | [] => []
  | ⟨_, cells⟩ :: rows => cellsInk cells ++ rowsInk rows

def cellsInk : List (WebCell WebBlock) → List (Place × Char)
  | [] => []
  | ⟨number, _, _, inner⟩ :: cells => blocksInk (some number) inner ++ cellsInk cells

def blocksInk (p : Place) : List WebBlock → List (Place × Char)
  | [] => []
  | b :: blocks => b.ink p ++ blocksInk p blocks

end

example : blocksInk none [.flow .para 0 .left none [⟨['a', ' ', 'b'], styleBits {}, 0, 0, none, none⟩]]
    = [(none, 'a'), (none, 'b')] := by decide

/-! ### Runs -/

@[simp] theorem ink_append (s s' : List Char) : ink (s ++ s') = ink s ++ ink s' :=
  List.filter_append _ _

@[simp] theorem runsInk_append (rs rs' : List WebRun) :
    runsInk (rs ++ rs') = runsInk rs ++ runsInk rs' := List.flatMap_append

@[simp] theorem runsInk_singleton (r : WebRun) : runsInk [r] = ink r.text := by
  rw [runsInk, List.flatMap_singleton]

theorem ink_eq_nil {s : List Char} (h : s.all isLayoutWhite) : ink s = [] := by
  apply List.filter_eq_nil_iff.mpr
  intro c hc
  simp [List.all_eq_true.mp h c hc]

theorem runsInk_eq_nil {rs : List WebRun} (h : ∀ r ∈ rs, ink r.text = []) : runsInk rs = [] :=
  List.flatMap_eq_nil_iff.mpr h

theorem runsInk_of_white {rs : List WebRun} (h : runsAllWhitespace rs) : runsInk rs = [] := by
  apply runsInk_eq_nil
  intro r hr
  have hwhite := List.all_eq_true.mp h r hr
  exact ink_eq_nil (Bool.and_eq_true_iff.mp hwhite).2

theorem runsInk_of_empty {rs : List WebRun} (h : totalLen rs = 0) : runsInk rs = [] := by
  induction rs with
  | nil => rfl
  | cons r rs ih =>
      have hsum : r.text.length + totalLen rs = 0 := h
      have htext : r.text = [] := List.length_eq_zero_iff.mp (by omega)
      rw [← List.singleton_append, runsInk_append, runsInk_singleton, htext, ih (by omega)]
      rfl

/-- Stored text goes behind the pending text, into the last run or into one of its own. -/
theorem runsInk_storeText (d : WebDoc) (text : List Char) :
    runsInk (storeText d text).currentRuns = runsInk d.currentRuns ++ ink text := by
  have hnew (s : StyleState) : runsInk (d.currentRuns ++ [newRun s text]) =
      runsInk d.currentRuns ++ ink text := by
    rw [runsInk_append, runsInk_singleton, newRun]
  rw [storeText]
  split_ifs with hempty
  · rw [hempty]
    exact (List.append_nil _).symm
  · split
    · rename_i r hlast
      split_ifs with hmerge
      · obtain ⟨rs, hrs⟩ := List.getLast?_eq_some_iff.mp hlast
        simp only [hrs, List.dropLast_concat, runsInk_append, runsInk_singleton, ink_append,
          List.append_assoc]
      · exact hnew d.style
    · exact hnew d.style

theorem appendBlock_runs (d : WebDoc) (b : WebBlock) :
    (appendBlock d b).currentRuns = d.currentRuns := by
  rw [appendBlock]
  split <;> rfl

/-! ### Blocks, cells and rows -/

theorem blocksInk_cons (p : Place) (b : WebBlock) (bs : List WebBlock) :
    blocksInk p (b :: bs) = b.ink p ++ blocksInk p bs := rfl

theorem cellsInk_cons (c : WebCell WebBlock) (cs : List (WebCell WebBlock)) :
    cellsInk (c :: cs) = blocksInk (some c.number) c.inner ++ cellsInk cs := rfl

@[simp] theorem blocksInk_append (p : Place) (bs bs' : List WebBlock) :
    blocksInk p (bs ++ bs') = blocksInk p bs ++ blocksInk p bs' := by
  induction bs with
  | nil => rfl
  | cons b bs ih => rw [List.cons_append, blocksInk_cons, blocksInk_cons, ih, List.append_assoc]

@[simp] theorem blocksInk_singleton (p : Place) (b : WebBlock) : blocksInk p [b] = b.ink p := by
  rw [blocksInk_cons]
  exact List.append_nil _

@[simp] theorem cellsInk_append (cs cs' : List (WebCell WebBlock)) :
    cellsInk (cs ++ cs') = cellsInk cs ++ cellsInk cs' := by
  induction cs with
  | nil => rfl
  | cons c cs ih => rw [List.cons_append, cellsInk_cons, cellsInk_cons, ih, List.append_assoc]

@[simp] theorem cellsInk_singleton (c : WebCell WebBlock) :
    cellsInk [c] = blocksInk (some c.number) c.inner := by
  rw [cellsInk_cons]
  exact List.append_nil _

@[simp] theorem rowsInk_append (rs rs' : List (WebRow WebBlock)) :
    rowsInk (rs ++ rs') = rowsInk rs ++ rowsInk rs' := by
  induction rs with
  | nil => rfl
  | cons r rs ih => rw [List.cons_append, rowsInk, rowsInk, ih, List.append_assoc]

@[simp] theorem rowsInk_singleton (r : WebRow WebBlock) : rowsInk [r] = cellsInk r.cells := by
  rw [rowsInk, rowsInk, List.append_nil]

theorem table_ink (p : Place) (indent : Nat) (align : HAlign) (t : WebTable WebBlock) :
    (WebBlock.table indent align t).ink p = rowsInk t.rows := by
  rw [WebBlock.ink]

/-! ### The last cell of a table -/

/-- The cell is the last one of the last row and was opened by the tag of that number. -/
structure LastCell (t : WebTable WebBlock) (row cell number : Nat) : Prop where
  intro ::
  shape : ∃ rows r cells c, t.rows = rows ++ [r] ∧ r.cells = cells ++ [c] ∧
    rows.length = row ∧ cells.length = cell ∧ c.number = number

theorem modify_concat {α : Type} (f : α → α) (l : List α) (a : α) :
    (l ++ [a]).modify l.length f = l ++ [f a] := by
  induction l with
  | nil => rfl
  | cons b l ih => simpa using ih

section

variable {t : WebTable WebBlock} {row cell number : Nat}

theorem LastCell.appendTo (h : LastCell t row cell number) (b : WebBlock) :
    LastCell (t.appendTo row cell b) row cell number := by
  obtain ⟨rows, r, cells, c, hrows, hcells, rfl, rfl, rfl⟩ := h.shape
  refine ⟨rows, { r with cells := cells ++ [c.append b] }, cells, c.append b, ?_, rfl, rfl, rfl, rfl⟩
  simp only [WebTable.appendTo, hrows, modify_concat, hcells]

theorem LastCell.rows_ne_nil (h : LastCell t row cell number) : t.rows ≠ [] := by
  obtain ⟨rows, r, -, -, hrows, -⟩ := h.shape
  rw [hrows]
  exact List.append_ne_nil_of_right_ne_nil _ (List.cons_ne_nil _ _)

theorem LastCell.ink_appendTo (h : LastCell t row cell number) (b : WebBlock) :
    rowsInk (t.appendTo row cell b).rows = rowsInk t.rows ++ b.ink (some number) := by
  obtain ⟨rows, r, cells, c, hrows, hcells, rfl, rfl, rfl⟩ := h.shape
  simp only [WebTable.appendTo, hrows, modify_concat, hcells, WebCell.append, rowsInk_append,
    rowsInk_singleton, cellsInk_append, cellsInk_singleton, blocksInk_append, blocksInk_singleton,
    List.append_assoc]

theorem ink_addRow (t : WebTable WebBlock) (align : HAlign) :
    rowsInk (t.addRow ⟨align, []⟩).rows = rowsInk t.rows := by
  rw [WebTable.addRow, rowsInk_append, rowsInk_singleton, cellsInk, List.append_nil]

variable {rows : List (WebRow WebBlock)} {r : WebRow WebBlock}

theorem addCell_rows (hrows : t.rows = rows ++ [r]) (c : WebCell WebBlock) :
    (t.addCell c).rows = rows ++ [r.addCell c] := by
  have hlen : t.rows.length - 1 = rows.length := by
    rw [hrows, List.length_append, List.length_singleton, Nat.add_sub_cancel]
  rw [WebTable.addCell, hlen, hrows, modify_concat]

theorem ink_addCell (hrows : t.rows = rows ++ [r]) {c : WebCell WebBlock} (hc : c.inner = []) :
    rowsInk (t.addCell c).rows = rowsInk t.rows := by
  rw [addCell_rows hrows, hrows, rowsInk_append, rowsInk_append, rowsInk_singleton, rowsInk_singleton,
    WebRow.addCell, cellsInk_append, cellsInk_singleton, hc, blocksInk, List.append_nil]

theorem lastCell_addCell (hrows : t.rows = rows ++ [r]) (c : WebCell WebBlock) :
    LastCell (t.addCell c) (t.rows.length - 1) r.cells.length c.number :=
  ⟨rows, r.addCell c, r.cells, c, addCell_rows hrows c, rfl,
    by rw [hrows, List.length_append, List.length_singleton, Nat.add_sub_cancel], rfl, rfl⟩

end

end UnicornSuite.Web
