import Mathlib.Data.List.Induction
import Mathlib.Data.List.TakeWhile
import UnicornSuite.LibHistory
import UnicornSuite.VtTerm
import UnicornSuite.VtTermSafety

/-! A terminal with the controls and the escapes of `vt_term.c` and no limits: it keeps every line,
and its parameters and its cursor are plain integers. Rows and columns of the page count from 0, and
an erasure is the set of cells of the page it blanks. -/

namespace UnicornSuite.VtTerm

structure Ideal where
  cols : Int
  rows : Int
  x : Int
  y : Int
  history : History Cell
  pstate : Parse
  csiBuf : List Nat
  lfToCrlf : Bool

namespace Ideal

/-- A page of blank lines. -/
def blankPage (rows : Int) : History Cell := ⟨rows, fun _ _ => blank⟩

def init (cols rows : Int) : Ideal where
  cols := cols
  rows := rows
  x := 0
  y := 0
  history := blankPage rows
  pstate := .normal
  csiBuf := []
  lfToCrlf := false

/-- The line of the history that is row `r` of the page. -/
def lineOf (s : Ideal) (r : Int) : Int := s.history.index s.rows r

/-! ### Writing -/

def moveTo (s : Ideal) (y x : Int) : Ideal := { s with y := y, x := x }

def newline (s : Ideal) : Ideal :=
  if s.y + 1 < s.rows then s.moveTo (s.y + 1) s.x
  else { s with history := s.history.append blank }

def write (s : Ideal) (b : Nat) : Ideal :=
  { s with
    history := s.history.paint (fun i j => i = s.lineOf s.y ∧ j = s.x) ⟨b, 0⟩
    x := s.x + 1 }

def print (s : Ideal) (b : Nat) : Ideal :=
  if s.x ≥ s.cols then (s.moveTo s.y 0).newline.write b else s.write b

/-- The next column that is a multiple of 8, within the page. -/
def tab (s : Ideal) : Ideal := s.moveTo s.y (min (s.x / 8 * 8 + 8) (s.cols - 1))

def lineFeed (s : Ideal) : Ideal := (if s.lfToCrlf then s.moveTo s.y 0 else s).newline

def control (s : Ideal) (b : Nat) : Ideal :=
  match b with
  | 0x0A => s.lineFeed
  | 0x0D => s.moveTo s.y 0
  | 0x08 => s.moveTo s.y (max (s.x - 1) 0)
  | 0x09 => s.tab
  | _ => s

/-! ### Escapes -/

/-- The number that a run of digits is. -/
def number (ds : List Nat) : Int :=
  ds.foldl (fun (val : Int) (b : Nat) => val * 10 + ((b : Int) - 0x30)) 0

/-- The numbers between the semicolons, -1 for one that is left out. -/
def numbers : Nat → List Nat → List Int
  | 0, _ => []
  | _, [] => []
  | max + 1, buf =>
      let ds := buf.takeWhile isDigit
      let val := if ds = [] then -1 else number ds
      match buf.dropWhile isDigit with
      | 0x3B :: rest => val :: numbers max rest
      | _ => [val]

def params (s : Ideal) : List Int := numbers 8 s.csiBuf

/-- The cells of the page in a set, blanked. -/
def erase (s : Ideal) (S : Int → Int → Prop) [∀ r j, Decidable (S r j)] : Ideal :=
  { s with
    history := s.history.paint
      (fun i j => s.lineOf 0 ≤ i ∧ i < s.lineOf s.rows ∧ S (i - s.lineOf 0) j) blank }

def eraseDisplay (s : Ideal) (mode : Int) : Ideal :=
  if mode = 2 then s.erase fun _ _ => True
  else if mode = 0 then s.erase fun r j => r = s.y ∧ s.x ≤ j ∨ s.y < r
  else if mode = 1 then s.erase fun r j => r < s.y ∨ r = s.y ∧ j ≤ s.x
  else s

def eraseLine (s : Ideal) (mode : Int) : Ideal :=
  if mode = 0 then s.erase fun r j => r = s.y ∧ s.x ≤ j
  else if mode = 1 then s.erase fun r j => r = s.y ∧ j ≤ s.x
  else if mode = 2 then s.erase fun r _ => r = s.y
  else s

def cursorTo (s : Ideal) (r c : Int) : Ideal :=
  s.moveTo (min (r - 1) (s.rows - 1)) (min (c - 1) (s.cols - 1))

def csi (s : Ideal) (final : Nat) : Ideal :=
  match final with
  | 0x4A => s.eraseDisplay (defaultParam s.params 0 0)
  | 0x48 =>
      s.cursorTo (atLeastOne (defaultParam s.params 0 1)) (atLeastOne (defaultParam s.params 1 1))
  | 0x66 =>
      s.cursorTo (atLeastOne (defaultParam s.params 0 1)) (atLeastOne (defaultParam s.params 1 1))
  | 0x41 => s.moveTo (max (s.y - moveCount s.params) 0) s.x
  | 0x42 => s.moveTo (min (s.y + moveCount s.params) (s.rows - 1)) s.x
  | 0x43 => s.moveTo s.y (min (s.x + moveCount s.params) (s.cols - 1))
  | 0x44 => s.moveTo s.y (max (s.x - moveCount s.params) 0)
  | 0x4B => s.eraseLine (defaultParam s.params 0 0)
  | _ => s

/-! ### Runs -/

def setParse (s : Ideal) (pstate : Parse) (csiBuf : List Nat) : Ideal :=
  { s with pstate := pstate, csiBuf := csiBuf }

def byte (s : Ideal) (b : UInt8) : Ideal :=
  match s.pstate with
  | .normal =>
      if b.toNat = 0x1B then s.setParse .escSeen s.csiBuf
      else if b.toNat < 0x20 then s.control b.toNat
      else if b.toNat = 0x7F then s
      else s.print b.toNat
  | .escSeen =>
      if b.toNat = 0x5B then s.setParse .csiCollecting [] else s.setParse .normal s.csiBuf
  | .csiCollecting =>
      if 0x40 ≤ b.toNat ∧ b.toNat ≤ 0x7E then (s.csi b.toNat).setParse .normal []
      else if s.csiBuf.length < 63 then s.setParse .csiCollecting (s.csiBuf ++ [b.toNat])
      else s.setParse .normal []

/-- What the calls do here; a scrolled view and a selection are no part of it. -/
def step (s : Ideal) : Event → Ideal
  | .feed buf => Machine.run byte s buf
  | .clearVisible => (s.erase fun _ _ => True).moveTo 0 0
  | .clearAll => { s with history := blankPage s.rows }.moveTo 0 0
  | .setLfToCrlf enable => { s with lfToCrlf := enable }
  | .resize _ _ _ | .scrollBy _ | .scrollToBottom | .selectSet _ _ _ _ | .selectClear
  | .selectAll => s

end Ideal

end UnicornSuite.VtTerm

/-! The line buffer is the end of the history of the terminal without limits. Both are driven by the
same calls; the relation `Shows` is kept by every call but a resize, across the evictions too, as long
as no `int` overflows and no growth is refused. -/

namespace UnicornSuite.VtTerm

open CInt History

/-- The buffer holds the last lines of the history, as many as there are and fit in. -/
structure Shows (t : VTTerm) (s : Ideal) : Prop where
  cols : s.cols = t.cols
  rows : s.rows = t.rows
  cursorX : s.x = t.cursorX
  cursorY : s.y = t.cursorY
  pstate : s.pstate = t.pstate
  csiBuf : s.csiBuf = t.csiBuf
  lfToCrlf : s.lfToCrlf = t.lfToCrlf
  total : t.linesTotal = min s.history.total (t.scrollbackMax + t.rows)
  lines : Tail t.cols t.lines t.linesTotal s.history

/-- With the sum that bounds the buffer in an `int`. -/
structure Sim (t : VTTerm) (s : Ideal) : Prop extends Shows t s where
  cap : t.scrollbackMax + t.rows ≤ maxInt32

variable {t : VTTerm} {s : Ideal}

/-! ### Rows -/

/-- A row of the page is the same line on both sides. -/
theorem Sim.lineOf (h : Sim t s) (r : Int) :
    s.lineOf r = s.history.index t.linesTotal (visibleTopIndex t + r) := by
  simp only [Ideal.lineOf, index, visibleTopIndex, h.rows]
  omega

theorem growTo_parse (t : VTTerm) (want : Int) :
    (growTo t want).pstate = t.pstate ∧ (growTo t want).csiBuf = t.csiBuf ∧
      (growTo t want).lfToCrlf = t.lfToCrlf := by
  simp only [growTo]
  split
  · exact ⟨rfl, rfl, rfl⟩
  · split <;> exact ⟨rfl, rfl, rfl⟩

theorem Sim.totalCap (h : Sim t s) (hok : t.Ok) : totalCap t = t.scrollbackMax + t.rows := by
  have hsb := hok.scrollbackMax
  have hrows := hok.rows
  exact wrap32_of_fits ⟨by simp only [minInt32]; omega, h.cap⟩

/-- A growth that is not refused leaves the rows alone. -/
theorem Sim.growTo (h : Sim t s) (hok : t.Ok) {want : Int} (htotal : want ≤ VtTerm.totalCap t)
    (hroom : GrowRoom t want) : Sim (growTo t want) s := by
  have hpos := hok.total
  have hrows := hok.rows
  have hview := growTo_view t want
  obtain ⟨hpstate, hbuf, hlf⟩ := growTo_parse t want
  obtain ⟨-, -, hlines⟩ := growTo_spec want (by omega) htotal hroom
  have hsame := growTo_linesTotal t want
  refine
    { cols := h.cols.trans hview.cols.symm
      rows := h.rows.trans hview.rows.symm
      cursorX := h.cursorX.trans hview.cursorX.symm
      cursorY := h.cursorY.trans hview.cursorY.symm
      pstate := h.pstate.trans hpstate.symm
      csiBuf := h.csiBuf.trans hbuf.symm
      lfToCrlf := h.lfToCrlf.trans hlf.symm
      total := ?_
      lines := ?_
      cap := ?_ }
  · rw [hsame, hview.scrollbackMax, hview.rows]
    exact h.total
  · rw [hview.cols, hsame, hlines]
    exact h.lines
  · rw [hview.scrollbackMax, hview.rows]
    exact h.cap

/-- Below the cap the row is a line more on both sides. -/
theorem Sim.pushRow (h : Sim t s) (hs : Storage t) (hcap : t.linesTotal < t.linesCapacity)
    (hmax : t.linesTotal < t.scrollbackMax + t.rows) :
    Sim (pushRow t) { s with history := s.history.append blank } := by
  have htotal := h.total
  refine { h with total := ?_, lines := h.lines.append (hs.memRow hs.total.1 hcap) blank }
  simp only [VtTerm.pushRow, History.append]
  omega

/-- What an eviction leaves. -/
theorem evict_eq (hfull : VtTerm.totalCap t ≤ t.linesTotal) :
    dropOldestIfFull t = { t with
      lines := t.lines.moveRows (buffer t) 0 1 (t.linesTotal - 1)
      linesTotal := t.linesTotal - 1
      sel := selEvict t.sel } := if_neg (by omega)

/-- At the cap the oldest line goes for it. -/
theorem Sim.evict (h : Sim t s) (hok : t.Ok) (hfull : VtTerm.totalCap t ≤ t.linesTotal) :
    Sim (appendBlankRow t) { s with history := s.history.append blank } := by
  have hrows := hok.rows
  have htotal := hok.total
  have hmin := h.total
  have hexact := h.totalCap hok
  have hs := dropOldest_storage hok.storage (by omega)
  have hmove : Tail t.cols (t.lines.moveRows (buffer t) 0 1 (t.linesTotal - 1)) (t.linesTotal - 1)
      s.history := by
    refine h.lines.drop (by omega) (fun _ => ?_) (fun _ => ?_)
    all_goals
      simp only [buffer]
      omega
  have hpush := hmove.append (hs.memRow hs.total.1 (by dsimp only; omega)) blank
  simp only [appendBlankRow, evict_eq hfull]
  rw [VtTerm.growTo, if_pos (by dsimp only; omega)]
  refine { h with total := ?_, lines := hpush }
  simp only [VtTerm.pushRow, History.append]
  omega

theorem Sim.append (h : Sim t s) (hok : t.Ok) (hroom : RowRoom t) :
    Sim (appendBlankRow t) { s with history := s.history.append blank } := by
  have hexact := h.totalCap hok
  have htotal := hok.total
  have hrows := hok.rows
  by_cases hlt : t.linesTotal < VtTerm.totalCap t
  · have hgrow := hroom.resolve_left (by omega)
    obtain ⟨hcap, -, hlines⟩ := growTo_spec _ (by omega) (by omega) hgrow
    have hview := growTo_view t (t.linesTotal + 1)
    have hsame := growTo_linesTotal t (t.linesTotal + 1)
    have hs : Storage (VtTerm.growTo t (t.linesTotal + 1)) :=
      { cols := hview.cols ▸ hok.cols.1
        rows := hview.rows ▸ hok.rows.1
        scrollbackMax := hview.scrollbackMax ▸ hok.scrollbackMax.1
        total := ⟨by omega, by omega, by rw [hsame, hview.scrollbackMax, hview.rows]; omega⟩
        inBuffer := hlines ▸ hok.inBuffer }
    simp only [appendBlankRow, dropOldestIfFull, if_pos hlt]
    apply (h.growTo hok (by omega) hgrow).pushRow hs
    · omega
    · rw [hsame, hview.scrollbackMax, hview.rows]
      omega
  · exact h.evict hok (by omega)

/-! ### The cursor -/

theorem Sim.moveCursor (h : Sim t s) (y x : Int) : Sim (moveCursor t y x) (s.moveTo y x) :=
  { h with cursorX := rfl, cursorY := rfl }

/-- The cursor of the ideal terminal where it is. -/
theorem Sim.moveCursor_of_eq (h : Sim t s) {y x y' x' : Int} (hy : y' = y) (hx : x' = x) :
    Sim (VtTerm.moveCursor t y x) (s.moveTo y' x') := by
  rw [hy, hx]
  exact h.moveCursor y x

theorem Sim.newline (h : Sim t s) (hok : t.Ok) (hroom : ¬t.cursorY + 1 < t.rows → RowRoom t) :
    Sim (newlineWithScroll t) s.newline := by
  by_cases hlast : t.cursorY + 1 < t.rows
  · have hlast' : s.y + 1 < s.rows := by
      rw [h.cursorY, h.rows]
      exact hlast
    rw [newlineWithScroll, if_pos hlast, Ideal.newline, if_pos hlast']
    exact h.moveCursor_of_eq (by rw [h.cursorY]) h.cursorX
  · have hlast' : ¬s.y + 1 < s.rows := by
      rw [h.cursorY, h.rows]
      exact hlast
    rw [newlineWithScroll, if_neg hlast, Ideal.newline, if_neg hlast']
    exact h.append hok (hroom hlast)

/-- The same character at the same place of the page. -/
theorem Sim.write (h : Sim t s) (hok : t.Ok) (hx : t.cursorX < t.cols) (b : Nat) :
    Sim (writeChar t b) (s.write b) := by
  have hx0 := hok.cursorX
  obtain ⟨hlo, hhi⟩ := hok.visible hok.cursorY.1 hok.cursorY.2
  have hm : (buffer t).Mem (visibleTopIndex t + t.cursorY) t.cursorX := by
    simp only [Region.Mem, buffer]
    omega
  refine { h with cursorX := congrArg (· + 1) h.cursorX, lines := ?_ }
  apply (h.lines.put hm ⟨b, 0⟩).congr
  intro i j _ _ _ _
  rw [h.lineOf, h.cursorX, h.cursorY]

theorem Sim.print (h : Sim t s) (hok : t.Ok) (b : Nat)
    (hroom : t.cols ≤ t.cursorX → ¬t.cursorY + 1 < t.rows → RowRoom t) :
    Sim (putPrintable t b) (s.print b) := by
  have hcols := hok.cols
  have hiff : s.x ≥ s.cols ↔ t.cursorX ≥ t.cols := by rw [h.cursorX, h.cols]
  by_cases hwrap : t.cursorX ≥ t.cols
  · have hok' : (VtTerm.moveCursor t t.cursorY 0).Ok :=
      moveCursor_ok hok hok.cursorY ⟨Int.le_refl _, by omega⟩
    have hmove : Sim (VtTerm.moveCursor t t.cursorY 0) (s.moveTo s.y 0) :=
      h.moveCursor_of_eq h.cursorY rfl
    rw [putPrintable, if_pos hwrap, Ideal.print, if_pos (hiff.mpr hwrap)]
    apply (hmove.newline hok' (hroom hwrap)).write (newlineWithScroll_ok hok' (hroom hwrap))
    simp only [newlineWithScroll_cursorX, newlineWithScroll_cols, VtTerm.moveCursor]
    omega
  · rw [putPrintable, if_neg hwrap, Ideal.print, if_neg (mt hiff.mp hwrap)]
    exact h.write hok (by omega) b

theorem Sim.tab (h : Sim t s) (hok : t.Ok) (hfits : t.cursorX.tdiv 8 * 8 + 8 ≤ maxInt32) :
    Sim (tab t) s.tab := by
  have hx := hok.cursorX
  have hdiv : t.cursorX.tdiv 8 = t.cursorX / 8 := Int.tdiv_eq_ediv_of_nonneg hx.1
  rw [hdiv] at hfits
  have hexact : wrap32 (t.cursorX / 8 * 8 + 8) = t.cursorX / 8 * 8 + 8 :=
    wrap32_of_fits ⟨by simp only [minInt32]; omega, hfits⟩
  simp only [VtTerm.tab, Ideal.tab, hdiv, hexact]
  apply h.moveCursor_of_eq h.cursorY
  rw [h.cursorX, h.cols]
  split_ifs <;> omega

theorem Sim.lineFeed (h : Sim t s) (hok : t.Ok) (hroom : ¬t.cursorY + 1 < t.rows → RowRoom t) :
    Sim (lineFeed t) s.lineFeed := by
  have hcols := hok.cols
  have hcount : Sim { t with statLf := t.statLf + 1 } s := { h with }
  have hcountOk : VTTerm.Ok { t with statLf := t.statLf + 1 } := { hok with }
  rw [VtTerm.lineFeed, Ideal.lineFeed, h.lfToCrlf]
  dsimp only
  split
  · apply (hcount.moveCursor_of_eq h.cursorY rfl).newline _ hroom
    exact moveCursor_ok hcountOk hok.cursorY ⟨Int.le_refl _, by dsimp only; omega⟩
  · exact hcount.newline hcountOk hroom

theorem Sim.carriageReturn (h : Sim t s) : Sim (carriageReturn t) (s.moveTo s.y 0) := by
  have hcount : Sim { t with statCr := t.statCr + 1 } s := { h with }
  exact hcount.moveCursor_of_eq h.cursorY rfl

/-! ### Erasures -/

/-- What an erasure of the page is worth in the buffer: the row of the cursor from its column on. -/
theorem eraseToEnd_tail (hok : t.Ok) {H : History Cell} {g : Grid Cell}
    (hg : Tail t.cols g t.linesTotal H) :
    Tail t.cols (eraseToEnd t g) t.linesTotal (H.paint (fun i j =>
      i = H.index t.linesTotal (visibleTopIndex t + t.cursorY) ∧ t.cursorX ≤ j ∧
        j ≤ t.cols - 1) blank) := by
  have hx := hok.cursorX
  obtain ⟨hlo, hhi⟩ := hok.visible hok.cursorY.1 hok.cursorY.2
  apply hg.fillRun
  intro _
  simp only [Region.Mem, buffer]
  omega

theorem eraseFromStart_tail (hok : t.Ok) {H : History Cell} {g : Grid Cell}
    (hg : Tail t.cols g t.linesTotal H) :
    Tail t.cols (eraseFromStart t g) t.linesTotal (H.paint (fun i j =>
      i = H.index t.linesTotal (visibleTopIndex t + t.cursorY) ∧ 0 ≤ j ∧
        j ≤ if t.cursorX < t.cols then t.cursorX else t.cols - 1) blank) := by
  have hx := hok.cursorX
  have hcols := hok.cols
  obtain ⟨hlo, hhi⟩ := hok.visible hok.cursorY.1 hok.cursorY.2
  apply hg.fillRun
  intro _
  simp only [Region.Mem, buffer]
  split_ifs <;> omega

theorem blankRows_tail (hok : t.Ok) (lo hi : Int) (hlo : 0 ≤ lo) (hle : lo ≤ hi) (hhi : hi ≤ t.rows)
    {H : History Cell} {g : Grid Cell} (hg : Tail t.cols g t.linesTotal H) :
    Tail t.cols (blankRows t lo hi g) t.linesTotal (H.paint (fun i _ =>
      H.index t.linesTotal (visibleTopIndex t + lo) ≤ i ∧
        i < H.index t.linesTotal (visibleTopIndex t + hi)) blank) := by
  apply hg.fillRows hle (fun _ _ => rfl)
  intro i hi0 hi1
  obtain ⟨hrow0, hrow1⟩ := hok.visible (i := i) (by omega) (by omega)
  exact hok.storage.memRow hrow0 hrow1

/-- An erasure of the page, from one of the history that agrees with it on the kept lines. -/
theorem Sim.erase (h : Sim t s) {g : Grid Cell} {T : Int → Int → Prop} [∀ i j, Decidable (T i j)]
    (hg : Tail t.cols g t.linesTotal (s.history.paint T blank)) (S : Int → Int → Prop)
    [∀ r j, Decidable (S r j)]
    (hST : ∀ r j, 0 ≤ visibleTopIndex t + r → r < t.rows → 0 ≤ j → j < t.cols →
      (T (s.history.index t.linesTotal (visibleTopIndex t + r)) j ↔ 0 ≤ r ∧ S r j)) :
    Sim { t with lines := g } (s.erase S) := by
  refine { h with lines := ?_ }
  apply hg.congr
  intro i j h0 hn hj hw
  have hrow : s.history.index t.linesTotal i - s.lineOf 0 = i - visibleTopIndex t := by
    rw [h.lineOf]
    simp only [index]
    omega
  have hiff := hST (i - visibleTopIndex t) j (by omega) (by simp only [visibleTopIndex]; omega) hj hw
  rw [show visibleTopIndex t + (i - visibleTopIndex t) = i by omega] at hiff
  rw [hiff, hrow, h.lineOf, h.lineOf, h.rows]
  simp only [index, visibleTopIndex]
  constructor
  · rintro ⟨hr, hS⟩
    exact ⟨by omega, by omega, hS⟩
  · rintro ⟨hr, -, hS⟩
    exact ⟨by omega, hS⟩

theorem Sim.eraseDisplay (h : Sim t s) (hok : t.Ok) (mode : Int) :
    Sim { t with lines := eraseDisplay t mode } (s.eraseDisplay mode) := by
  have hy := hok.cursorY
  have hrows := hok.rows
  have hx := hok.cursorX
  simp only [VtTerm.eraseDisplay, Ideal.eraseDisplay]
  split_ifs
  · apply h.erase (blankRows_tail hok 0 t.rows (Int.le_refl _) (by omega) (Int.le_refl _) h.lines)
    intro r j _ _ _ _
    simp only [index, and_true]
    omega
  · have hrow := eraseToEnd_tail hok h.lines
    have hall := blankRows_tail hok (t.cursorY + 1) t.rows (by omega) (by omega) (Int.le_refl _) hrow
    rw [paint_paint] at hall
    apply h.erase hall
    intro r j _ _ _ _
    simp only [index, History.paint, h.cursorX, h.cursorY]
    omega
  · have hrows := blankRows_tail hok 0 t.cursorY (Int.le_refl _) hy.1 (by omega) h.lines
    have hall := eraseFromStart_tail hok hrows
    rw [paint_paint] at hall
    apply h.erase hall
    intro r j _ _ _ _
    simp only [index, History.paint, h.cursorX, h.cursorY]
    split_ifs <;> omega
  · exact h

theorem Sim.eraseLine (h : Sim t s) (hok : t.Ok) (mode : Int) :
    Sim { t with lines := eraseLine t mode } (s.eraseLine mode) := by
  have hy := hok.cursorY
  have hx := hok.cursorX
  simp only [VtTerm.eraseLine, Ideal.eraseLine]
  split_ifs
  · apply h.erase (eraseToEnd_tail hok h.lines)
    intro r j _ _ _ _
    simp only [index, h.cursorX, h.cursorY]
    omega
  · apply h.erase (eraseFromStart_tail hok h.lines)
    intro r j _ _ _ _
    simp only [index, h.cursorX, h.cursorY]
    split_ifs <;> omega
  · obtain ⟨hlo, hhi⟩ := hok.visible hy.1 hy.2
    apply h.erase (h.lines.fillRun (hok.storage.memRow hlo hhi) blank)
    intro r j _ _ _ _
    simp only [index, h.cursorY]
    omega
  · exact h

/-! ### Parameters -/

/-- The parameters that a command reads. -/
def readParams (final : Nat) : List Nat :=
  match final with
  | 0x4A | 0x4B | 0x41 | 0x42 | 0x43 | 0x44 => [0]
  | 0x48 | 0x66 => [0, 1]
  | _ => []

/-- The numbers a command reads are those of an `int`. -/
def ParamFits (t : VTTerm) (final : Nat) : Prop :=
  ∀ idx ∈ readParams final, ∀ v ∈ (Ideal.numbers 8 t.csiBuf)[idx]?, v ≤ maxInt32

instance (t : VTTerm) (final : Nat) : Decidable (ParamFits t final) :=
  inferInstanceAs (Decidable (∀ idx ∈ readParams final, ∀ v ∈ _, v ≤ maxInt32))

theorem number_concat (ds : List Nat) (b : Nat) :
    Ideal.number (ds ++ [b]) = Ideal.number ds * 10 + ((b : Int) - 0x30) := by
  rw [Ideal.number, List.foldl_append]
  rfl

theorem digitsVal_concat (ds : List Nat) (b : Nat) :
    digitsVal (ds ++ [b]) = wrap32 (wrap32 (digitsVal ds * 10) + ((b : Int) - 0x30)) := by
  rw [digitsVal, List.foldl_append]
  rfl

theorem number_nonneg {ds : List Nat} (hds : ∀ b ∈ ds, isDigit b = true) : 0 ≤ Ideal.number ds := by
  induction ds using List.reverseRecOn with
  | nil => exact Int.le_refl _
  | append_singleton ds b ih =>
      have hb : 0x30 ≤ b ∧ b ≤ 0x39 := of_decide_eq_true (hds b (by simp))
      have hrest := ih fun c hc => hds c (List.mem_append_left _ hc)
      rw [number_concat]
      omega

/-- No step of the sum overflows where the number fits. -/
theorem digitsVal_eq {ds : List Nat} (hds : ∀ b ∈ ds, isDigit b = true)
    (hfits : Ideal.number ds ≤ maxInt32) : digitsVal ds = Ideal.number ds := by
  induction ds using List.reverseRecOn with
  | nil => rfl
  | append_singleton ds b ih =>
      have hb : 0x30 ≤ b ∧ b ≤ 0x39 := of_decide_eq_true (hds b (by simp))
      have hds' : ∀ c ∈ ds, isDigit c = true := fun c hc => hds c (List.mem_append_left _ hc)
      have hnonneg := number_nonneg hds'
      rw [number_concat] at hfits ⊢
      have hmin : minInt32 = -2147483648 := rfl
      have hten : wrap32 (Ideal.number ds * 10) = Ideal.number ds * 10 :=
        wrap32_of_fits ⟨by omega, by omega⟩
      rw [digitsVal_concat, ih hds' (by omega), hten]
      exact wrap32_of_fits ⟨by omega, hfits⟩

theorem paramVal_eq {buf : List Nat}
    (hfits : (if buf.takeWhile isDigit = [] then -1 else Ideal.number (buf.takeWhile isDigit)) ≤
      maxInt32) :
    (if buf.takeWhile isDigit = [] then -1 else digitsVal (buf.takeWhile isDigit)) =
      if buf.takeWhile isDigit = [] then -1 else Ideal.number (buf.takeWhile isDigit) := by
  split_ifs at hfits ⊢
  · rfl
  · exact digitsVal_eq (fun c hc => List.mem_takeWhile_imp hc) hfits

/-- A parameter that fits is read as it is written. -/
theorem parseCsiParams_getElem (max : Nat) (buf : List Nat) (idx : Nat)
    (hfits : ∀ v ∈ (Ideal.numbers max buf)[idx]?, v ≤ maxInt32) :
    (parseCsiParams max buf)[idx]? = (Ideal.numbers max buf)[idx]? := by
  fun_induction Ideal.numbers max buf generalizing idx with
  | case1 buf => simp [parseCsiParams]
  | case2 max => simp [parseCsiParams]
  | case3 max buf hne ds val rest hrest ih =>
      rw [parseCsiParams]
      · simp only [hrest]
        cases idx with
        | zero => exact congrArg some (paramVal_eq (hfits _ rfl))
        | succ idx => exact ih idx hfits
      · exact hne
  | case4 max buf hne ds val hend =>
      rw [parseCsiParams]
      · generalize hval : (if buf.takeWhile isDigit = [] then -1
          else digitsVal (buf.takeWhile isDigit)) = read
        split
        · next rest hrest => exact absurd hrest (hend rest)
        · cases idx with
          | zero => exact congrArg some (hval.symm.trans (paramVal_eq (hfits _ rfl)))
          | succ idx => rfl
      · exact hne

theorem Sim.defaultParam (h : Sim t s) {final idx : Nat} (hfits : ParamFits t final)
    (hidx : idx ∈ readParams final) (dflt : Int) :
    defaultParam s.params idx dflt = defaultParam (csiParams t) idx dflt := by
  have hsame := parseCsiParams_getElem 8 t.csiBuf idx (hfits idx hidx)
  simp only [VtTerm.defaultParam, Ideal.params, csiParams, h.csiBuf, hsame]

theorem Sim.moveCount (h : Sim t s) {final : Nat} (hfits : ParamFits t final)
    (hidx : 0 ∈ readParams final) : moveCount s.params = moveCount (csiParams t) :=
  congrArg atLeastOne (h.defaultParam hfits hidx 1)

/-! ### Commands -/

theorem Sim.cursorTo (h : Sim t s) (r c : Int) : Sim (cursorTo t r c) (s.cursorTo r c) := by
  apply h.moveCursor_of_eq
  · rw [h.rows]
    split_ifs <;> omega
  · rw [h.cols]
    split_ifs <;> omega

theorem Sim.position (h : Sim t s) {final : Nat} (hfits : ParamFits t final)
    (h0 : 0 ∈ readParams final) (h1 : 1 ∈ readParams final) :
    Sim (VtTerm.cursorTo t (atLeastOne (VtTerm.defaultParam (csiParams t) 0 1))
        (atLeastOne (VtTerm.defaultParam (csiParams t) 1 1)))
      (s.cursorTo (atLeastOne (VtTerm.defaultParam s.params 0 1))
        (atLeastOne (VtTerm.defaultParam s.params 1 1))) := by
  rw [h.defaultParam hfits h0, h.defaultParam hfits h1]
  exact h.cursorTo _ _

theorem Sim.up (h : Sim t s) (hok : t.Ok) {n : Int} (hn : IntCount n) :
    Sim (cursorUp t n) (s.moveTo (max (s.y - n) 0) s.x) := by
  have hmax : maxInt32 = 2147483647 := rfl
  have hrows := hok.rows
  have hy := hok.cursorY
  obtain ⟨hn1, hn2⟩ := hn
  have hexact : wrap32 (t.cursorY - n) = t.cursorY - n :=
    wrap32_of_fits ⟨by simp only [minInt32]; omega, by omega⟩
  simp only [cursorUp, hexact]
  apply h.moveCursor_of_eq _ h.cursorX
  rw [h.cursorY]
  split_ifs <;> omega

theorem Sim.back (h : Sim t s) (hok : t.Ok) {n : Int} (hn : IntCount n) :
    Sim (cursorBack t n) (s.moveTo s.y (max (s.x - n) 0)) := by
  have hmax : maxInt32 = 2147483647 := rfl
  have hcols := hok.cols
  have hx := hok.cursorX
  obtain ⟨hn1, hn2⟩ := hn
  have hexact : wrap32 (t.cursorX - n) = t.cursorX - n :=
    wrap32_of_fits ⟨by simp only [minInt32]; omega, by omega⟩
  simp only [cursorBack, hexact]
  apply h.moveCursor_of_eq h.cursorY
  rw [h.cursorX]
  split_ifs <;> omega

theorem Sim.down (h : Sim t s) (hok : t.Ok) {n : Int} (hn : 1 ≤ n)
    (hfits : t.cursorY + n ≤ maxInt32) :
    Sim (cursorDown t n) (s.moveTo (min (s.y + n) (s.rows - 1)) s.x) := by
  have hy := hok.cursorY
  have hexact : wrap32 (t.cursorY + n) = t.cursorY + n :=
    wrap32_of_fits ⟨by simp only [minInt32]; omega, hfits⟩
  simp only [cursorDown, hexact]
  apply h.moveCursor_of_eq _ h.cursorX
  rw [h.cursorY, h.rows]
  split_ifs <;> omega

theorem Sim.forward (h : Sim t s) (hok : t.Ok) {n : Int} (hn : 1 ≤ n)
    (hfits : t.cursorX + n ≤ maxInt32) :
    Sim (cursorForward t n) (s.moveTo s.y (min (s.x + n) (s.cols - 1))) := by
  have hx := hok.cursorX
  have hexact : wrap32 (t.cursorX + n) = t.cursorX + n :=
    wrap32_of_fits ⟨by simp only [minInt32]; omega, hfits⟩
  simp only [cursorForward, hexact]
  apply h.moveCursor_of_eq h.cursorY
  rw [h.cursorX, h.cols]
  split_ifs <;> omega

theorem Sim.csi (h : Sim t s) (hok : t.Ok) {final : Nat} (hfits : CsiFits t final)
    (hparams : ParamFits t final) : Sim (dispatchCsi t final) (s.csi final) := by
  have hcount := moveCount_int t
  unfold Ideal.csi
  split
  · rw [h.defaultParam hparams (by decide)]
    exact h.eraseDisplay hok _
  · exact h.position hparams (by decide) (by decide)
  · exact h.position hparams (by decide) (by decide)
  · rw [h.moveCount hparams (by decide)]
    exact h.up hok hcount
  · rw [h.moveCount hparams (by decide)]
    exact h.down hok hcount.1 (hfits.down rfl)
  · rw [h.moveCount hparams (by decide)]
    exact h.forward hok hcount.1 (hfits.forward rfl)
  · rw [h.moveCount hparams (by decide)]
    exact h.back hok hcount
  · rw [h.defaultParam hparams (by decide)]
    exact h.eraseLine hok _
  · have hskip : dispatchCsi t final = t := by
      unfold dispatchCsi
      extract_lets params
      split <;> first | rfl | contradiction
    rw [hskip]
    exact h

/-! ### The byte stream -/

theorem Sim.setParse (h : Sim t s) (pstate : Parse) (csiBuf : List Nat) :
    Sim (setParse t pstate csiBuf) (s.setParse pstate csiBuf) :=
  { h with pstate := rfl, csiBuf := rfl }

/-- The byte meets no overflow, in the parameters of a command neither, and no refused `realloc`. -/
structure StreamByteFits (t : VTTerm) (b : UInt8) : Prop extends ByteFits t b where
  params : t.pstate = .csiCollecting → ParamFits t b.toNat

instance (t : VTTerm) (b : UInt8) : Decidable (StreamByteFits t b) :=
  decidable_of_iff (ByteFits t b ∧ (t.pstate = .csiCollecting → ParamFits t b.toNat))
    ⟨fun h => ⟨h.1, h.2⟩, fun h => ⟨h.toByteFits, h.params⟩⟩

theorem Sim.control (h : Sim t s) (hok : t.Ok) {b : Nat}
    (hroom : b = 0x0A → ¬t.cursorY + 1 < t.rows → RowRoom t)
    (htab : b = 0x09 → t.cursorX.tdiv 8 * 8 + 8 ≤ maxInt32) :
    Sim (handleC0 t b) (s.control b) := by
  have hx := hok.cursorX
  unfold Ideal.control
  split
  · exact h.lineFeed hok (hroom rfl)
  · exact h.carriageReturn
  · simp only [handleC0]
    split
    · apply h.moveCursor_of_eq h.cursorY
      rw [h.cursorX]
      omega
    · have hstay : Sim (VtTerm.moveCursor t t.cursorY t.cursorX) (s.moveTo s.y (max (s.x - 1) 0)) := by
        apply h.moveCursor_of_eq h.cursorY
        rw [h.cursorX]
        omega
      exact hstay
  · exact h.tab hok (htab rfl)
  · have hskip : handleC0 t b = t := by
      unfold handleC0
      split <;> first | rfl | contradiction
    rw [hskip]
    exact h

theorem Sim.byte (h : Sim t s) (hok : t.Ok) {b : UInt8} (hfits : StreamByteFits t b) :
    Sim (feedByte t b) (s.byte b) := by
  unfold feedByte Ideal.byte
  rw [h.pstate, h.csiBuf]
  cases hst : t.pstate with
  | normal =>
      dsimp only
      split_ifs with hesc hc0 hdel
      · exact h.setParse _ _
      · exact h.control hok (fun hb hlast => hfits.room ⟨hst, .inl hb, hlast⟩) (hfits.tab hst)
      · exact h
      · exact h.print hok _ fun hwrap hlast =>
          hfits.room ⟨hst, .inr ⟨by omega, hdel, hwrap⟩, hlast⟩
  | escSeen =>
      dsimp only
      split_ifs
      · exact h.setParse _ _
      · exact h.setParse _ _
  | csiCollecting =>
      dsimp only
      split_ifs
      · exact (h.csi hok (hfits.csi hst) (hfits.params hst)).setParse _ _
      · exact h.setParse _ _
      · exact h.setParse _ _

/-- With the counters in range. -/
structure Follows (t : VTTerm) (s : Ideal) : Prop where
  sim : Sim t s
  ok : t.Ok

/-- The condition on a call: it is no resize, and what it feeds meets no overflow and no refused
`realloc`. -/
def StreamFits (t : VTTerm) : Event → Prop
  | .feed buf => Machine.Guarded feedByte StreamByteFits (scrollToBottom t) buf
  | .resize _ _ _ => False
  | _ => True

instance (t : VTTerm) : (e : Event) → Decidable (StreamFits t e)
  | .feed buf =>
      inferInstanceAs (Decidable (Machine.Guarded feedByte StreamByteFits (scrollToBottom t) buf))
  | .resize _ _ _ => isFalse id
  | .scrollBy _ | .scrollToBottom | .clearVisible | .clearAll | .setLfToCrlf _
  | .selectSet _ _ _ _ | .selectClear | .selectAll => isTrue trivial

theorem Follows.feed (h : Follows t s) {buf : List UInt8}
    (hfits : Machine.Guarded feedByte StreamByteFits (scrollToBottom t) buf) :
    Follows (feedBytes t buf) (Machine.run Ideal.byte s buf) := by
  have hbottom : Follows (scrollToBottom t) s := ⟨{ h.sim with }, scrollToBottom_ok h.ok⟩
  have hbyte : ∀ t s b, Follows t s → StreamByteFits t b → Follows (feedByte t b) (s.byte b) :=
    fun _ _ _ hf hb => ⟨hf.sim.byte hf.ok hb, feedByte_ok hf.ok hb.toByteFits⟩
  simp only [feedBytes]
  split
  · next hnil =>
      rw [hnil]
      exact h
  · exact Machine.run_rel_of_guarded hbyte hbottom hfits

theorem Sim.clearVisible (h : Sim t s) (hok : t.Ok) :
    Sim (clearVisible t) ((s.erase fun _ _ => True).moveTo 0 0) := by
  have hrows := hok.rows
  have htotal := hok.total
  have hblank : Tail t.cols (Loop.up (visibleTopIndex t) t.linesTotal (rowBlank t) t.lines)
      t.linesTotal (s.history.paint (fun i _ =>
        s.history.index t.linesTotal (0 + visibleTopIndex t) ≤ i ∧
          i < s.history.index t.linesTotal (0 + t.linesTotal)) blank) := by
    apply h.lines.fillRows (R := buffer t)
    · simp only [visibleTopIndex]
      omega
    · intro i g
      rw [Int.zero_add]
      rfl
    · intro i hlo hhi
      apply hok.storage.memRow
      · simp only [visibleTopIndex] at hlo
        omega
      · omega
  have herase := h.erase hblank (fun _ _ => True) fun r j _ hhi _ _ => by
    simp only [index, visibleTopIndex, and_true]
    omega
  exact { herase with cursorX := rfl, cursorY := rfl }

theorem Sim.clearAll (h : Sim t s) (hok : t.Ok) :
    Sim (clearAll t) ({ s with history := Ideal.blankPage s.rows }.moveTo 0 0) := by
  have hrows := hok.rows
  have hsb := hok.scrollbackMax
  have htotal := hok.total
  have hcollapse : (collapse t).linesTotal = t.rows := by
    simp only [collapse]
    split_ifs <;> omega
  refine { h with cursorX := rfl, cursorY := rfl, total := ?_, lines := ?_ }
  · simp only [VtTerm.clearAll, home, Ideal.moveTo, Ideal.blankPage, h.rows]
    rw [hcollapse]
    dsimp only [collapse]
    omega
  · have hstart : Tail t.cols t.lines t.rows ⟨t.rows, t.lines.cell⟩ := by
      intro i j _ _ _ _
      simp only [index, Int.sub_self, Int.zero_add]
    have hfill : Tail t.cols (Loop.up 0 t.rows (rowBlank (collapse t)) t.lines) t.rows
        (History.paint ⟨t.rows, t.lines.cell⟩ (fun i _ =>
          History.index (⟨t.rows, t.lines.cell⟩ : History Cell) t.rows (0 + 0) ≤ i ∧
            i < History.index (⟨t.rows, t.lines.cell⟩ : History Cell) t.rows (0 + t.rows)) blank) := by
      apply hstart.fillRows (R := buffer t) (by omega)
      · intro i g
        rw [Int.zero_add]
        rfl
      · intro i hlo hhi
        exact hok.storage.memRow (by omega) (by omega)
    intro i j h0 hn hj hw
    simp only [VtTerm.clearAll, home] at hn
    rw [hcollapse] at hn
    refine (hfill i j h0 hn hj hw).trans (if_pos ?_)
    simp only [index, History.paint]
    omega

theorem Follows.step (h : Follows t s) {e : Event} (hfits : StreamFits t e) :
    Follows (step t e) (s.step e) := by
  have htotal := h.ok.total
  cases e with
  | feed buf => exact h.feed hfits
  | resize cols rows calloc => exact hfits.elim
  | scrollBy lines => exact ⟨{ h.sim with }, scrollBy_ok h.ok lines⟩
  | scrollToBottom => exact ⟨{ h.sim with }, scrollToBottom_ok h.ok⟩
  | clearVisible => exact ⟨h.sim.clearVisible h.ok, clearVisible_ok h.ok⟩
  | clearAll => exact ⟨h.sim.clearAll h.ok, clearAll_ok h.ok⟩
  | setLfToCrlf enable => exact ⟨{ h.sim with lfToCrlf := rfl }, { h.ok with }⟩
  | selectSet => exact ⟨{ h.sim with }, { h.ok with }⟩
  | selectClear => exact ⟨{ h.sim with }, { h.ok with }⟩
  | selectAll =>
      have hpos : ¬ t.linesTotal ≤ 0 := by
        have hrows := h.ok.rows
        omega
      simp only [VtTerm.step, selectAll, if_neg hpos]
      exact ⟨{ h.sim with }, { h.ok with }⟩

/-! ### Sessions -/

/-- The ideal terminal of the size that `vt_term_init` settles on. -/
def idealInit (cols rows : Int32) : Ideal :=
  Ideal.init (if cols.toInt < 1 then 80 else cols.toInt) (if rows.toInt < 1 then 24 else rows.toInt)

/-- The first `i` rows are blank. -/
structure Blank (t₀ : VTTerm) (i : Int) (t : VTTerm) : Prop extends Filled t₀ i t where
  parse : t.pstate = t₀.pstate ∧ t.csiBuf = t₀.csiBuf ∧ t.lfToCrlf = t₀.lfToCrlf
  cells : ∀ r j, 0 ≤ r → r < i → 0 ≤ j → j < t.cols → t.lines.cell r j = blank

theorem Blank.append {t₀ : VTTerm} {i : Int} (h : Blank t₀ i t) (hi : i < t.rows)
    (hcap : t.scrollbackMax + t.rows ≤ maxInt32) : Blank t₀ (i + 1) (appendBlankRow t) := by
  have hsb := h.storage.scrollbackMax
  have hrows := h.storage.rows
  have hroom := h.room
  have hlines := h.linesTotal
  have htotal := h.storage.total
  have hexact : totalCap t = t.scrollbackMax + t.rows :=
    wrap32_of_fits ⟨by simp only [minInt32]; omega, hcap⟩
  have hgrow : growTo t (t.linesTotal + 1) = t := if_pos (by omega)
  have hpush : appendBlankRow t = pushRow t := by
    simp only [appendBlankRow, dropOldestIfFull]
    rw [if_pos (by omega), hgrow]
  have hfilled := h.toFilled.append hi hcap
  refine { toFilled := hfilled, parse := ?_, cells := ?_ }
  · rw [hpush]
    exact h.parse
  · rw [hpush]
    intro r j h0 hr hj hw
    have hm := h.storage.memRow htotal.1 (by omega)
    simp only [pushRow, rowBlank]
    rw [Grid.fillRun, if_pos hm]
    dsimp only [pushRow] at hw ⊢
    split_ifs with hrun
    · rfl
    · exact h.cells r j h0 (by omega) hj hw

theorem init_blank {heap : Nat → Bool} {cols rows scrollback : Int32}
    (hfits : InitFits heap cols rows scrollback) :
    Blank (empty heap cols.toInt rows.toInt scrollback.toInt)
      (empty heap cols.toInt rows.toInt scrollback.toInt).rows (init heap cols rows scrollback) := by
  have hpos := (empty_storage heap cols.toInt rows.toInt scrollback.toInt).rows
  have hstart : Blank (empty heap cols.toInt rows.toInt scrollback.toInt) 0
      (growTo (empty heap cols.toInt rows.toInt scrollback.toInt)
        (empty heap cols.toInt rows.toInt scrollback.toInt).rows) :=
    { toFilled := empty_filled hfits
      parse := growTo_parse _ _
      cells := fun r j h0 hr => by omega }
  simp only [init]
  refine Loop.up_ind (by omega) (fun i t hlo hhi ht => ?_) hstart
  have hcap := hfits.cap
  refine ht.append (by rw [ht.view.rows]; exact hhi) ?_
  rw [ht.view.scrollbackMax, ht.view.rows]
  exact hcap

theorem init_follows {heap : Nat → Bool} {cols rows scrollback : Int32}
    (hfits : InitFits heap cols rows scrollback) :
    Follows (init heap cols rows scrollback) (idealInit cols rows) := by
  have hok := init_ok hfits
  have hblank := init_blank hfits
  have hview := hblank.view
  obtain ⟨hpstate, hbuf, hlf⟩ := hblank.parse
  have hcap := hfits.cap
  have hsb := hok.scrollbackMax
  have hlines := hblank.linesTotal
  have htotal : (idealInit cols rows).history.total =
      (empty heap cols.toInt rows.toInt scrollback.toInt).rows := rfl
  refine ⟨⟨⟨hview.cols.symm, hview.rows.symm, hview.cursorX.symm, hview.cursorY.symm, hpstate.symm,
    hbuf.symm, hlf.symm, ?_, ?_⟩, ?_⟩, hok⟩
  · rw [htotal, hlines, hview.rows]
    omega
  · intro i j h0 hi hj hw
    exact hblank.cells i j h0 (by omega) hj hw
  · rw [hview.scrollbackMax, hview.rows]
    exact hcap

/-- An eviction drops the oldest line, keeps the others in their order and the cursor in its place of
the page. -/
structure Evicts (t t' : VTTerm) : Prop where
  kept : ∀ i j, 0 ≤ i → i < t.linesTotal - 1 → 0 ≤ j → j < t.cols →
    t'.lines.cell i j = t.lines.cell (i + 1) j
  linesTotal : t'.linesTotal = t.linesTotal
  rows : t'.rows = t.rows
  cursorY : t'.cursorY = t.cursorY
  cursorX : t'.cursorX = t.cursorX

theorem VTTerm.Ok.evicts (h : t.Ok) (hfull : totalCap t ≤ t.linesTotal) :
    Evicts t (appendBlankRow t) := by
  have hrows := h.rows
  have htotal := h.total
  have hview := appendBlankRow_view t
  refine
    { kept := ?_
      linesTotal := (appendBlankRow_of_full h.storage hfull (by omega)).2
      rows := hview.rows
      cursorY := hview.cursorY
      cursorX := hview.cursorX }
  intro i j h0 hi hj hw
  have hs := dropOldest_storage h.storage (by omega)
  have hm := hs.memRow hs.total.1 (by dsimp only; omega)
  have hdst : (buffer t).MemRows 0 (0 + (t.linesTotal - 1) - 1) := by
    intro _
    simp only [buffer]
    omega
  have hsrc : (buffer t).MemRows 1 (1 + (t.linesTotal - 1) - 1) := by
    intro _
    simp only [buffer]
    omega
  simp only [appendBlankRow, evict_eq hfull]
  rw [growTo, if_pos (by dsimp only; omega)]
  calc (rowBlank { t with
          lines := t.lines.moveRows (buffer t) 0 1 (t.linesTotal - 1)
          linesTotal := t.linesTotal - 1
          sel := selEvict t.sel } (t.linesTotal - 1)
        (t.lines.moveRows (buffer t) 0 1 (t.linesTotal - 1))).cell i j
      = (t.lines.moveRows (buffer t) 0 1 (t.linesTotal - 1)).cell i j := by
        rw [rowBlank, Grid.fillRun, if_pos hm]
        exact if_neg (by omega)
    _ = t.lines.cell (i + 1) j := by
        rw [Grid.moveRows, if_pos ⟨by omega, hdst, hsrc⟩]
        refine (if_pos ⟨h0, by omega⟩).trans ?_
        rw [Int.sub_zero]

/-- After any calls but a resize, with no overflow and no refused `realloc`, the buffer holds the last
lines of the ideal terminal and the cursor is where it is there; an eviction changes no line that is
kept. -/
theorem session_shows {heap : Nat → Bool} {cols rows scrollback : Int32}
    (hinit : InitFits heap cols rows scrollback) {events : List Event}
    (hevents : Machine.Guarded step StreamFits (init heap cols rows scrollback) events) :
    Shows (Machine.run step (init heap cols rows scrollback) events)
        (Machine.run Ideal.step (idealInit cols rows) events) ∧
      (totalCap (Machine.run step (init heap cols rows scrollback) events) ≤
          (Machine.run step (init heap cols rows scrollback) events).linesTotal →
        Evicts (Machine.run step (init heap cols rows scrollback) events)
          (appendBlankRow (Machine.run step (init heap cols rows scrollback) events))) := by
  have hrun : Follows (Machine.run step (init heap cols rows scrollback) events)
      (Machine.run Ideal.step (idealInit cols rows) events) :=
    Machine.run_rel_of_guarded (fun _ _ _ h hfits => h.step hfits) (init_follows hinit) hevents
  exact ⟨hrun.sim.toShows, hrun.ok.evicts⟩

/-- Five lines on a page of two, with one line of scrollback. -/
theorem session_shows_evicted :
    Shows (Machine.run step (init (fun _ => true) 2 2 1)
        [.feed [0x41, 0x42, 0x43, 0x0A, 0x0A, 0x0A, 0x44], .clearVisible])
      (Machine.run Ideal.step (idealInit 2 2)
        [.feed [0x41, 0x42, 0x43, 0x0A, 0x0A, 0x0A, 0x44], .clearVisible]) :=
  (session_shows ⟨by decide, by decide, rfl⟩ (by decide)).1

/-- CSI 2147483647 B on the second row of two: the sum overflows and the cursor leaves the page, on
whose last row it belongs. -/
theorem session_leaves_page :
    ¬ Shows (Machine.run step (init (fun _ => true) 1 2 0)
        [.feed [0x0A, 0x1B, 0x5B, 0x32, 0x31, 0x34, 0x37, 0x34, 0x38, 0x33, 0x36, 0x34, 0x37, 0x42]])
      (Machine.run Ideal.step (idealInit 1 2)
        [.feed [0x0A, 0x1B, 0x5B, 0x32, 0x31, 0x34, 0x37, 0x34, 0x38, 0x33, 0x36, 0x34, 0x37,
          0x42]]) := by
  intro h
  have hideal : (Machine.run Ideal.step (idealInit 1 2)
      [.feed [0x0A, 0x1B, 0x5B, 0x32, 0x31, 0x34, 0x37, 0x34, 0x38, 0x33, 0x36, 0x34, 0x37,
        0x42]]).y = 1 := by
    decide
  have hcode : (Machine.run step (init (fun _ => true) 1 2 0)
      [.feed [0x0A, 0x1B, 0x5B, 0x32, 0x31, 0x34, 0x37, 0x34, 0x38, 0x33, 0x36, 0x34, 0x37,
        0x42]]).cursorY = -2147483648 := by
    decide +kernel
  have hy := h.cursorY
  omega

end UnicornSuite.VtTerm
