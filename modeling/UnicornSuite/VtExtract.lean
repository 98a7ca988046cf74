import Mathlib.Data.List.DropRight
import Mathlib.Data.List.Intervals
import UnicornSuite.VtTerm

/-! The text of a selection (`vt_term_select_extract`) and what is drawn as selected (`vt_term_cell_selected`). The two
read the endpoints by themselves, the one as a range of columns for each row, the other cell by cell. -/

namespace UnicornSuite.VtTerm

/-! ### The region -/

/-- `sel_normalize`: start and end in reading order. -/
structure SelRange where
  sr : Int
  sc : Int
  er : Int
  ec : Int

def selNormalize (s : Sel) : SelRange :=
  if s.anchorRow < s.leadRow ∨ s.anchorRow = s.leadRow ∧ s.anchorCol ≤ s.leadCol then
    ⟨s.anchorRow, s.anchorCol, s.leadRow, s.leadCol⟩
  else ⟨s.leadRow, s.leadCol, s.anchorRow, s.anchorCol⟩

/-- `vt_term_cell_selected`. -/
def cellSelected (t : VTTerm) (row col : Int) : Bool :=
  if t.sel.active then
    let r := selNormalize t.sel
    if row < r.sr ∨ row > r.er then false
    else if r.sr = r.er then decide (col ≥ r.sc ∧ col < r.ec)
    else if row = r.sr then decide (col ≥ r.sc)
    else if row = r.er then decide (col < r.ec)
    else true
  else false

/-! ### The text -/

/-- The buffer of the text, and how many calls of `malloc` and `realloc` there were. -/
structure Out where
  buf : List Nat
  cap : Nat
  allocs : Nat

/-- Room for four bytes more. `heap` says which of the calls succeed. -/
def reserve (heap : Nat → Bool) (o : Out) : Option Out :=
  if o.buf.length + 4 ≥ o.cap then
    if heap o.allocs then some { o with cap := o.cap * 2, allocs := o.allocs + 1 } else none
  else some o

/-- The character of a cell; what is not printable, or not in the buffer, is a space. -/
def extractChar (t : VTTerm) (row i : Int) : Nat :=
  if row < 0 ∨ row ≥ t.linesTotal then 0x20
  else
    let raw := (t.lines.cell row i).ch
    if 0x20 ≤ raw ∧ raw < 0x7F then raw else 0x20

def addChar (heap : Nat → Bool) (ch : Nat) (o : Out) : Option Out :=
  (reserve heap o).map fun o => { o with buf := o.buf ++ [ch] }

/-- The spaces at the end of the line that starts at `lineEnd`. -/
def trimLine (lineEnd : Nat) (o : Out) : Out :=
  { o with buf := o.buf.take lineEnd ++ (o.buf.drop lineEnd).rdropWhile (· = 0x20) }

def addCrLf (heap : Nat → Bool) (o : Out) : Option Out :=
  (reserve heap o).map fun o => { o with buf := o.buf ++ [0x0D, 0x0A] }

/-- The columns of a row, from the first to before the last. -/
def colLo (r : SelRange) (row : Int) : Int :=
  let lo := if row = r.sr then r.sc else 0
  if lo < 0 then 0 else lo

def colHi (t : VTTerm) (r : SelRange) (row : Int) : Int :=
  let hi := if row = r.er then r.ec else t.cols
  if hi > t.cols then t.cols else hi

/-- One round of the loop over the rows. -/
def extractRow (t : VTTerm) (heap : Nat → Bool) (r : SelRange) (row : Int) (o : Out) : Option Out :=
  let chars := Loop.up (colLo r row) (colHi t r row)
    (fun i o => o.bind (addChar heap (extractChar t row i))) (some o)
  (chars.map (trimLine o.buf.length)).bind fun o => if row < r.er then addCrLf heap o else some o

/-- `vt_term_select_extract`; `none` is the null pointer. The loop over the rows compares with `<=` and does not come
to its end when that is the greatest `int`. -/
def selectExtract (t : VTTerm) (heap : Nat → Bool) : Option (List Nat) :=
  if t.sel.active then
    let r := selNormalize t.sel
    if r.sr = r.er ∧ r.sc = r.ec then none
    else if r.er = CInt.maxInt32 then none
    else if heap 0 then
      (Loop.up r.sr (r.er + 1) (fun row o => o.bind (extractRow t heap r row)) (some ⟨[], 256, 1⟩)).bind fun o =>
        if o.buf.length + 1 ≥ o.cap then if heap o.allocs then some o.buf else none else some o.buf
    else none
  else none

/-! ### What is drawn -/

/-- The characters of the cells of a row that are drawn as selected. -/
def drawn (t : VTTerm) (row : Int) : List Nat :=
  ((List.range t.cols.toNat).filter fun (i : Nat) => cellSelected t row i).map fun (i : Nat) => extractChar t row i

/-- Less the spaces at the end. -/
def drawnLine (t : VTTerm) (row : Int) : List Nat := (drawn t row).rdropWhile (· = 0x20)

/-- The rows between the endpoints. -/
def selRows (r : SelRange) : List Int := (List.range (r.er + 1 - r.sr).toNat).map fun (k : Nat) => r.sr + k

/-- The lines of the selection, joined by CR and LF. -/
def drawnText (t : VTTerm) : List Nat :=
  List.intercalate [0x0D, 0x0A] ((selRows (selNormalize t.sel)).map (drawnLine t))

/-! ### The loops -/

/-- What an `Option` computes and, with memory, that it computes it. -/
def Gives (heap : Nat → Bool) (o : Option Out) (buf : List Nat) : Prop :=
  (∀ out, o = some out → out.buf = buf) ∧ ((∀ n, heap n = true) → o ≠ none)

variable {heap : Nat → Bool}

theorem gives_some (o : Out) : Gives heap (some o) o.buf :=
  ⟨fun _ h => by rw [Option.some.inj h], fun _ => Option.some_ne_none o⟩

theorem gives_none {buf : List Nat} (h : ¬ ∀ n, heap n = true) : Gives heap none buf := by
  constructor
  · intro out hout
    cases hout
  · exact fun hall => absurd hall h

theorem Gives.bind {o : Option Out} {buf buf' : List Nat} {f : Out → Option Out} (h : Gives heap o buf)
    (hf : ∀ out, out.buf = buf → Gives heap (f out) buf') : Gives heap (o.bind f) buf' := by
  cases o with
  | none => exact gives_none fun hall => absurd rfl (h.2 hall)
  | some out => exact hf out (h.1 out rfl)

theorem reserve_gives (o : Out) : Gives heap (reserve heap o) o.buf := by
  rw [reserve]
  split
  · by_cases hheap : heap o.allocs = true
    · rw [if_pos hheap]
      exact gives_some _
    · rw [if_neg hheap]
      exact gives_none fun hall => hheap (hall _)
  · exact gives_some o

theorem addChar_gives (ch : Nat) (o : Out) : Gives heap (addChar heap ch o) (o.buf ++ [ch]) := by
  rw [addChar, Option.map_eq_bind]
  refine (reserve_gives o).bind fun out hout => ?_
  rw [← hout]
  exact gives_some _

theorem addCrLf_gives (o : Out) : Gives heap (addCrLf heap o) (o.buf ++ [0x0D, 0x0A]) := by
  rw [addCrLf, Option.map_eq_bind]
  refine (reserve_gives o).bind fun out hout => ?_
  rw [← hout]
  exact gives_some _

/-- The characters of a run of columns. -/
theorem chars_gives (t : VTTerm) (row lo hi : Int) (o : Out) :
    Gives heap (Loop.up lo hi (fun i o => o.bind (addChar heap (extractChar t row i))) (some o))
      (o.buf ++ (List.range (hi - lo).toNat).map fun (k : Nat) => extractChar t row (lo + k)) := by
  by_cases hle : lo ≤ hi
  · refine Loop.up_ind (I := fun k out => Gives heap out
      (o.buf ++ (List.range (k - lo).toNat).map fun (k : Nat) => extractChar t row (lo + k))) hle
      (fun k out hlo hhi hout => hout.bind fun out' hbuf => ?_) ?_
    · have hnext : (k + 1 - lo).toNat = (k - lo).toNat + 1 := by omega
      have hhere : lo + ((k - lo).toNat : Int) = k := by omega
      rw [hnext, List.range_succ, List.map_append, ← List.append_assoc, ← hbuf, List.map_singleton, hhere]
      exact addChar_gives _ out'
    · rw [Int.sub_self, Int.toNat_zero, List.range_zero, List.map_nil, List.append_nil]
      exact gives_some o
  · rw [Loop.up_of_le (by omega), Int.toNat_of_nonpos (by omega), List.range_zero, List.map_nil, List.append_nil]
    exact gives_some o

/-- The characters of a row between two columns. -/
def columns (t : VTTerm) (row lo hi : Int) : List Nat :=
  (List.range (hi - lo).toNat).map fun (k : Nat) => extractChar t row (lo + k)

theorem row_gives (t : VTTerm) (r : SelRange) (row : Int) (o : Out) :
    Gives heap (extractRow t heap r row o)
      (o.buf ++ (columns t row (colLo r row) (colHi t r row)).rdropWhile (· = 0x20) ++
        if row < r.er then [0x0D, 0x0A] else []) := by
  have hchars : Gives heap
      (Loop.up (colLo r row) (colHi t r row) (fun i o => o.bind (addChar heap (extractChar t row i))) (some o))
      (o.buf ++ columns t row (colLo r row) (colHi t r row)) := chars_gives t row _ _ o
  have hline : Gives heap
      ((Loop.up (colLo r row) (colHi t r row) (fun i o => o.bind (addChar heap (extractChar t row i)))
        (some o)).map (trimLine o.buf.length))
      (o.buf ++ (columns t row (colLo r row) (colHi t r row)).rdropWhile (· = 0x20)) := by
    rw [Option.map_eq_bind]
    refine hchars.bind fun out hout => ?_
    have htrim : (trimLine o.buf.length out).buf =
        o.buf ++ (columns t row (colLo r row) (colHi t r row)).rdropWhile (· = 0x20) := by
      rw [trimLine, hout, List.take_left, List.drop_left]
    rw [← htrim]
    exact gives_some _
  refine hline.bind fun out hout => ?_
  by_cases hlast : row < r.er
  · rw [if_pos hlast, if_pos hlast, ← hout]
    exact addCrLf_gives out
  · rw [if_neg hlast, if_neg hlast, List.append_nil, ← hout]
    exact gives_some out

/-! ### The same region -/

/-- The columns of a row between the endpoints are those of the cells drawn as selected. -/
theorem cellSelected_iff {t : VTTerm} (hactive : t.sel.active = true) {row i : Int}
    (hrow : (selNormalize t.sel).sr ≤ row ∧ row ≤ (selNormalize t.sel).er) (hi : 0 ≤ i ∧ i < t.cols) :
    cellSelected t row i = true ↔ colLo (selNormalize t.sel) row ≤ i ∧ i < colHi t (selNormalize t.sel) row := by
  rw [cellSelected, if_pos hactive, colLo, colHi]
  dsimp only
  generalize selNormalize t.sel = r at *
  rw [if_neg (by omega)]
  by_cases hone : r.sr = r.er
  · have hfirst : row = r.sr := by omega
    have hlast : row = r.er := by omega
    rw [if_pos hone, decide_eq_true_iff, if_pos hfirst, if_pos hlast]
    split_ifs <;> omega
  · rw [if_neg hone]
    by_cases hfirst : row = r.sr
    · have hlast : ¬ row = r.er := by omega
      rw [if_pos hfirst, decide_eq_true_iff, if_pos hfirst, if_neg hlast]
      split_ifs <;> omega
    · rw [if_neg hfirst, if_neg hfirst]
      by_cases hlast : row = r.er
      · rw [if_pos hlast, decide_eq_true_iff, if_pos hlast]
        split_ifs <;> omega
      · rw [if_neg hlast, if_neg hlast, if_neg (by omega), if_neg (by omega)]
        exact iff_of_true rfl hi

/-- The numbers of a range between two bounds. -/
theorem filter_range_between (n : Nat) {lo hi : Int} (hlo : 0 ≤ lo) (hhi : hi ≤ n) :
    (List.range n).filter (fun i : Nat => decide (lo ≤ i ∧ i < hi)) =
      (List.range (hi - lo).toNat).map fun k => lo.toNat + k := by
  have hbounds : (List.range n).filter (fun i : Nat => decide (lo ≤ i ∧ i < hi)) =
      ((List.Ico 0 n).filter (· < hi.toNat)).filter (lo.toNat ≤ ·) := by
    rw [List.filter_filter, List.Ico.zero_bot]
    refine List.filter_congr fun i _ => ?_
    rw [← Bool.decide_and]
    exact decide_eq_decide.mpr (by omega)
  have hlen : hi.toNat - lo.toNat = (hi - lo).toNat := by omega
  rw [hbounds, List.Ico.filter_lt, List.Ico.filter_le, min_eq_right (by omega), Nat.zero_max, List.Ico,
    List.range'_eq_map_range, hlen]

theorem columns_eq_drawn {t : VTTerm} (hactive : t.sel.active = true) {row : Int}
    (hrow : (selNormalize t.sel).sr ≤ row ∧ row ≤ (selNormalize t.sel).er) :
    columns t row (colLo (selNormalize t.sel) row) (colHi t (selNormalize t.sel) row) = drawn t row := by
  have hlo : 0 ≤ colLo (selNormalize t.sel) row := by
    rw [colLo]
    split_ifs <;> omega
  have hhi : colHi t (selNormalize t.sel) row ≤ t.cols.toNat := by
    rw [colHi]
    split_ifs <;> omega
  have hfilter : (List.range t.cols.toNat).filter (fun i : Nat => cellSelected t row i) =
      (List.range t.cols.toNat).filter fun i : Nat =>
        decide (colLo (selNormalize t.sel) row ≤ i ∧ i < colHi t (selNormalize t.sel) row) := by
    refine List.filter_congr fun i hi => ?_
    have hlt := List.mem_range.mp hi
    rw [Bool.eq_iff_iff, decide_eq_true_iff]
    exact cellSelected_iff hactive hrow ⟨by omega, by omega⟩
  rw [drawn, hfilter, filter_range_between _ hlo hhi, List.map_map, columns]
  refine List.map_congr_left fun k _ => ?_
  rw [Function.comp_apply, Int.natCast_add, Int.toNat_of_nonneg hlo]

theorem selNormalize_le (s : Sel) : (selNormalize s).sr ≤ (selNormalize s).er := by
  rw [selNormalize]
  split_ifs <;> dsimp only <;> omega

/-- All lines but the last are followed by the separator. -/
theorem intercalate_concat {α : Type*} (sep : List α) (ls : List (List α)) (l : List α) :
    List.intercalate sep (ls ++ [l]) = (ls.flatMap fun l => l ++ sep) ++ l := by
  induction ls with
  | nil => rw [List.nil_append, List.intercalate_singleton, List.flatMap_nil, List.nil_append]
  | cons l' ls ih =>
      have hne : ls ++ [l] ≠ [] := List.append_ne_nil_of_right_ne_nil ls (List.cons_ne_nil l [])
      rw [List.cons_append, List.intercalate_cons_of_ne_nil hne, ih, List.flatMap_cons]
      simp only [List.append_assoc]

/-- The lines up to a row, each with what follows it. -/
def linesUpTo (t : VTTerm) (r : SelRange) (row : Int) : List Nat :=
  (List.range (row - r.sr).toNat).flatMap fun (k : Nat) =>
    drawnLine t (r.sr + k) ++ if r.sr + k < r.er then [0x0D, 0x0A] else []

theorem linesUpTo_succ (t : VTTerm) (r : SelRange) {row : Int} (hrow : r.sr ≤ row) :
    linesUpTo t r (row + 1) =
      linesUpTo t r row ++ (drawnLine t row ++ if row < r.er then [0x0D, 0x0A] else []) := by
  have hnext : (row + 1 - r.sr).toNat = (row - r.sr).toNat + 1 := by omega
  have hhere : r.sr + ((row - r.sr).toNat : Int) = row := by omega
  rw [linesUpTo, linesUpTo, hnext, List.range_succ, List.flatMap_append, List.flatMap_singleton, hhere]

theorem linesUpTo_last (t : VTTerm) : linesUpTo t (selNormalize t.sel) ((selNormalize t.sel).er + 1) = drawnText t := by
  have hle := selNormalize_le t.sel
  rw [drawnText]
  generalize selNormalize t.sel = r at *
  have hlen : (r.er + 1 - r.sr).toNat = (r.er - r.sr).toNat + 1 := by omega
  have hlast : r.sr + ((r.er - r.sr).toNat : Int) = r.er := by omega
  rw [linesUpTo_succ t r hle, if_neg (lt_irrefl _), List.append_nil, selRows, hlen, List.range_succ, List.map_append,
    List.map_append, List.map_singleton, List.map_singleton, hlast, intercalate_concat, List.map_map,
    List.flatMap_map, linesUpTo]
  congr 1
  refine List.flatMap_congr fun k hk => ?_
  have hlt := List.mem_range.mp hk
  rw [if_pos (by omega)]
  rfl

theorem rows_give {t : VTTerm} (hactive : t.sel.active = true) (o : Out) (ho : o.buf = []) :
    Gives heap (Loop.up (selNormalize t.sel).sr ((selNormalize t.sel).er + 1)
      (fun row o => o.bind (extractRow t heap (selNormalize t.sel) row)) (some o)) (drawnText t) := by
  have hle := selNormalize_le t.sel
  rw [← linesUpTo_last]
  refine Loop.up_ind (I := fun row out => Gives heap out (linesUpTo t (selNormalize t.sel) row)) (by omega)
    (fun row out hlo hhi hout => hout.bind fun out' hbuf => ?_) ?_
  · have hrow := @row_gives heap t (selNormalize t.sel) row out'
    rw [columns_eq_drawn hactive ⟨hlo, by omega⟩, hbuf, List.append_assoc] at hrow
    rw [linesUpTo_succ t _ hlo]
    exact hrow
  · rw [linesUpTo, Int.sub_self, Int.toNat_zero, List.range_zero, List.flatMap_nil, ← ho]
    exact gives_some o

/-! ### The law -/

/-- The other endpoint is the anchor. -/
def Sel.swap (s : Sel) : Sel :=
  { s with anchorRow := s.leadRow, anchorCol := s.leadCol, leadRow := s.anchorRow, leadCol := s.anchorCol }

theorem selNormalize_swap (s : Sel) : selNormalize s.swap = selNormalize s := by
  rw [selNormalize, selNormalize, Sel.swap]
  dsimp only
  split_ifs with hback hforth hforth
  · -- both orders hold only where the endpoints are one
    obtain ⟨hrow, hcol⟩ : s.anchorRow = s.leadRow ∧ s.anchorCol = s.leadCol := by omega
    rw [hrow, hcol]
  · rfl
  · rfl
  · omega

/-- The endpoints are one. -/
def Sel.ZeroWidth (s : Sel) : Prop := s.anchorRow = s.leadRow ∧ s.anchorCol = s.leadCol

theorem zeroWidth_iff (s : Sel) :
    (selNormalize s).sr = (selNormalize s).er ∧ (selNormalize s).sc = (selNormalize s).ec ↔ s.ZeroWidth := by
  rw [selNormalize, Sel.ZeroWidth]
  split_ifs <;> dsimp only <;> omega

theorem er_lt {s : Sel} (h : s.anchorRow < CInt.maxInt32 ∧ s.leadRow < CInt.maxInt32) :
    (selNormalize s).er ≠ CInt.maxInt32 := by
  rw [selNormalize]
  split_ifs <;> dsimp only <;> omega

theorem selectExtract_gives {t : VTTerm} (hactive : t.sel.active = true)
    (hwidth : ¬ t.sel.ZeroWidth) (hrows : t.sel.anchorRow < CInt.maxInt32 ∧ t.sel.leadRow < CInt.maxInt32) :
    (∀ text, selectExtract t heap = some text → text = drawnText t) ∧
      ((∀ n, heap n = true) → selectExtract t heap = some (drawnText t)) := by
  obtain ⟨hall, hsome⟩ := @rows_give heap t hactive ⟨[], 256, 1⟩ rfl
  have hzero : ¬((selNormalize t.sel).sr = (selNormalize t.sel).er ∧ (selNormalize t.sel).sc = (selNormalize t.sel).ec) :=
    fun h => hwidth ((zeroWidth_iff t.sel).mp h)
  rw [selectExtract, if_pos hactive]
  dsimp only
  rw [if_neg hzero, if_neg (er_lt hrows)]
  by_cases hmem : heap 0 = true
  · rw [if_pos hmem]
    cases hloop : Loop.up (selNormalize t.sel).sr ((selNormalize t.sel).er + 1)
        (fun row o => o.bind (extractRow t heap (selNormalize t.sel) row)) (some (⟨[], 256, 1⟩ : Out)) with
    | none =>
        rw [hloop] at hsome
        refine ⟨fun text htext => ?_, fun hheap => absurd rfl (hsome hheap)⟩
        rw [Option.bind_none] at htext
        cases htext
    | some out =>
        have hbuf := hall out hloop
        rw [Option.bind_some, hbuf]
        split_ifs with hfull hlast
        · exact ⟨fun text htext => (Option.some.inj htext).symm, fun _ => rfl⟩
        · refine ⟨fun text htext => ?_, fun hheap => absurd (hheap _) hlast⟩
          cases htext
        · exact ⟨fun text htext => (Option.some.inj htext).symm, fun _ => rfl⟩
  · rw [if_neg hmem]
    refine ⟨fun text htext => ?_, fun hheap => absurd (hheap 0) hmem⟩
    cases htext

/-- The text of a selection is that of the cells that are drawn as selected, line by line, whichever endpoint is the
anchor; there is none for a selection of no width. -/
theorem extract_agrees (t : VTTerm)
    (hrows : t.sel.anchorRow < CInt.maxInt32 ∧ t.sel.leadRow < CInt.maxInt32) (heap : Nat → Bool) :
    (t.sel.active = true → ¬ t.sel.ZeroWidth →
      (∀ text, selectExtract t heap = some text → text = drawnText t) ∧
      ((∀ n, heap n = true) → selectExtract t heap = some (drawnText t))) ∧
    (t.sel.active = false ∨ t.sel.ZeroWidth → selectExtract t heap = none) ∧
    selectExtract { t with sel := t.sel.swap } heap = selectExtract t heap ∧
    ∀ row col, cellSelected { t with sel := t.sel.swap } row col = cellSelected t row col := by
  refine ⟨fun hactive hwidth => selectExtract_gives hactive hwidth hrows, fun hnone => ?_, ?_, fun row col => ?_⟩
  · by_cases hactive : t.sel.active = true
    · have hzero := (zeroWidth_iff t.sel).mpr (hnone.resolve_left (by rw [hactive]; decide))
      rw [selectExtract, if_pos hactive]
      dsimp only
      rw [if_pos hzero]
    · rw [selectExtract, if_neg hactive]
  · rw [selectExtract, selectExtract]
    dsimp only
    rw [selNormalize_swap]
    rfl
  · rw [cellSelected, cellSelected]
    dsimp only
    rw [selNormalize_swap]
    rfl

/-- Two rows of text, selected backwards from the second into the first. -/
def twoRows : VTTerm :=
  Machine.run step (init (fun _ => true) 4 2 2)
    [.feed [0x41, 0x42, 0x0D, 0x0A, 0x20, 0x43], .selectSet 1 3 0 1]

theorem extract_agrees_two_rows :
    selectExtract twoRows (fun _ => true) = some (drawnText twoRows) ∧
    drawnText twoRows = [0x42, 0x0D, 0x0A, 0x20, 0x43] := by
  refine ⟨?_, by decide⟩
  exact ((extract_agrees twoRows (by decide) fun _ => true).1 (by decide)
    fun h => absurd h.1 (by decide)).2 fun _ => rfl

/-- A row with a character that is not ASCII, selected from its start. -/
def accented (leadRow leadCol : Int32) : VTTerm :=
  Machine.run step (init (fun _ => true) 4 2 2) [.feed [0x41, 0xE9, 0x42], .selectSet 0 0 leadRow leadCol]

/-- The character comes out as a space; a row in which nothing is drawn as selected is a line; and no text of a selection
down to the greatest row is returned. -/
theorem extract_differs :
    (cellSelected (accented 0 3) 0 1 = true ∧ ((accented 0 3).lines.cell 0 1).ch = 0xE9 ∧
      selectExtract (accented 0 3) (fun _ => true) = some [0x41, 0x20, 0x42]) ∧
    ((∀ col : Fin 4, cellSelected (accented 1 0) 1 (col : Nat) = false) ∧
      selectExtract (accented 1 0) (fun _ => true) = some [0x41, 0x20, 0x42, 0x0D, 0x0A]) ∧
    (cellSelected (accented Int32.maxValue 0) 0 0 = true ∧
      selectExtract (accented Int32.maxValue 0) (fun _ => true) = none) := by
  decide

end UnicornSuite.VtTerm
