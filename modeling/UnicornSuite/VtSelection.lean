import UnicornSuite.LibSlice
import UnicornSuite.VtResize

/-! The lines that a selection denotes. Each line of the buffer has a number, given when it is appended; a terminal is
followed along with the numbers of its rows (`Traced`). The calls that move rows to other indices are the
eviction of the oldest line, the resize and `vt_term_clear_all`; the eviction moves the selection along, the
others do not. -/

namespace UnicornSuite.VtTerm

open CInt Slice

/-! ### What the rows depend on -/

/-- The part of a terminal that says how many rows there are, and which of them are selected. -/
structure Store where
  total : Int
  rows : Int
  scrollbackMax : Int
  sel : Sel

def store (t : VTTerm) : Store := ⟨t.linesTotal, t.rows, t.scrollbackMax, t.sel⟩

/-- `append_blank_row`. -/
def Store.append (s : Store) : Store :=
  if s.total < wrap32 (s.scrollbackMax + s.rows) then { s with total := s.total + 1 }
  else { s with sel := selEvict s.sel }

theorem growTo_store (t : VTTerm) (want : Int) : store (growTo t want) = store t := by
  rw [growTo]
  split
  · rfl
  · split
    · rfl
    · rfl

theorem pushRow_store (t : VTTerm) : store (pushRow t) = { store t with total := t.linesTotal + 1 } := rfl

theorem appendBlankRow_store (t : VTTerm) : store (appendBlankRow t) = (store t).append := by
  rw [appendBlankRow, Store.append, pushRow_store, growTo_store, growTo_linesTotal, dropOldestIfFull]
  by_cases hfull : t.linesTotal < totalCap t
  · have hfull' : (store t).total < wrap32 ((store t).scrollbackMax + (store t).rows) := hfull
    rw [if_pos hfull, if_pos hfull']
    rfl
  · have hfull' : ¬ (store t).total < wrap32 ((store t).scrollbackMax + (store t).rows) := hfull
    rw [if_neg hfull, if_neg hfull']
    dsimp only [store]
    rw [Int.sub_add_cancel]

/-- A row is appended when the cursor is on the last one. -/
theorem newline_store (t : VTTerm) :
    store (newlineWithScroll t) = if ¬t.cursorY + 1 < t.rows then (store t).append else store t := by
  rw [newlineWithScroll]
  by_cases hlast : t.cursorY + 1 < t.rows
  · rw [if_pos hlast, if_neg (not_not.mpr hlast)]
    rfl
  · rw [if_neg hlast, if_pos hlast]
    exact appendBlankRow_store t

theorem putPrintable_store (t : VTTerm) (b : Nat) :
    store (putPrintable t b) =
      if t.cols ≤ t.cursorX ∧ ¬t.cursorY + 1 < t.rows then (store t).append else store t := by
  rw [putPrintable]
  by_cases hwrap : t.cursorX ≥ t.cols
  · have hwrite : store (writeChar (newlineWithScroll (moveCursor t t.cursorY 0)) b) =
        store (newlineWithScroll (moveCursor t t.cursorY 0)) := rfl
    rw [if_pos hwrap, hwrite, newline_store]
    show (if ¬t.cursorY + 1 < t.rows then (store t).append else store t) = _
    by_cases hlast : ¬t.cursorY + 1 < t.rows
    · rw [if_pos hlast, if_pos ⟨hwrap, hlast⟩]
    · rw [if_neg hlast, if_neg fun h => hlast h.2]
  · rw [if_neg hwrap, if_neg fun h => hwrap h.1]
    rfl

theorem lineFeed_store (t : VTTerm) :
    store (lineFeed t) = if ¬t.cursorY + 1 < t.rows then (store t).append else store t := by
  rw [lineFeed]
  dsimp only
  split
  · exact newline_store _
  · exact newline_store _

theorem dispatchCsi_store (t : VTTerm) (final : Nat) : store (dispatchCsi t final) = store t := by
  unfold dispatchCsi
  split <;> rfl

theorem handleC0_store (t : VTTerm) (b : Nat) :
    store (handleC0 t b) = if b = 0x0A ∧ ¬t.cursorY + 1 < t.rows then (store t).append else store t := by
  unfold handleC0
  split
  · rw [lineFeed_store]
    exact if_congr (and_iff_right rfl).symm rfl rfl
  · rfl
  · split
    · rfl
    · rfl
  · rfl
  · next hlf _ _ _ => rw [if_neg fun h => hlf h.1]

theorem setParse_store (t : VTTerm) (pstate : Parse) (csiBuf : List Nat) :
    store (setParse t pstate csiBuf) = store t := rfl

theorem feedByte_store (t : VTTerm) (b : UInt8) :
    store (feedByte t b) = if AppendsRow t b then (store t).append else store t := by
  cases hst : t.pstate with
  | normal =>
      simp only [feedByte, hst]
      by_cases hesc : b.toNat = 0x1B
      · rw [if_pos hesc, setParse_store, if_neg]
        rintro ⟨-, hkind, -⟩
        omega
      rw [if_neg hesc]
      by_cases hc0 : b.toNat < 0x20
      · rw [if_pos hc0, handleC0_store]
        refine if_congr ⟨fun h => ⟨hst, Or.inl h.1, h.2⟩, ?_⟩ rfl rfl
        rintro ⟨-, hkind, hlast⟩
        exact ⟨by omega, hlast⟩
      rw [if_neg hc0]
      by_cases hdel : b.toNat = 0x7F
      · rw [if_pos hdel, if_neg]
        rintro ⟨-, hkind, -⟩
        omega
      rw [if_neg hdel, putPrintable_store]
      refine if_congr ⟨fun h => ⟨hst, Or.inr ⟨by omega, hdel, h.1⟩, h.2⟩, ?_⟩ rfl rfl
      rintro ⟨-, hkind, hlast⟩
      exact ⟨by omega, hlast⟩
  | escSeen =>
      have hno : ¬ AppendsRow t b := fun h => by rw [AppendsRow, hst] at h; cases h.1
      simp only [feedByte, hst]
      rw [if_neg hno]
      split
      · rfl
      · rfl
  | csiCollecting =>
      have hno : ¬ AppendsRow t b := fun h => by rw [AppendsRow, hst] at h; cases h.1
      simp only [feedByte, hst]
      rw [if_neg hno]
      split_ifs
      · rw [setParse_store, dispatchCsi_store]
      · rfl
      · rfl

/-! ### Lines and their numbers -/

/-- The number of the line at each row of the buffer, and that of the next new line. -/
structure Traced where
  term : VTTerm
  ids : List Nat
  next : Nat

/-- At the cap the oldest line goes; the new one is the last. -/
def appendIds (s : Traced) : List Nat :=
  (if s.term.linesTotal < totalCap s.term then s.ids else s.ids.drop 1) ++ [s.next]

def traceByte (s : Traced) (b : UInt8) : Traced :=
  if AppendsRow s.term b then { term := feedByte s.term b, ids := appendIds s, next := s.next + 1 }
  else { s with term := feedByte s.term b }

def traceFeed (s : Traced) (buf : List UInt8) : Traced :=
  if buf = [] then s else Machine.run traceByte { s with term := scrollToBottom s.term } buf

/-- How many of the rows that the trimming leaves are in the new buffer. -/
def keptRows (t : VTTerm) (rows : Int) : Int :=
  if sourceRows t rows > newCap t rows then newCap t rows else sourceRows t rows

/-- The lines that are copied, and new ones for the rows that fill the page up. -/
def resizeIds (s : Traced) (rows : Int) : List Nat :=
  let src := sourceRows s.term rows
  let kept := keptRows s.term rows
  (s.ids.take src.toNat).drop (src - kept).toNat ++ List.range' s.next (rows - kept).toNat

/-- The call makes a new buffer. -/
def Rebuilds (t : VTTerm) (cols rows : Int32) (calloc : Bool) : Prop :=
  1 ≤ cols.toInt ∧ 1 ≤ rows.toInt ∧ ¬(cols.toInt = t.cols ∧ rows.toInt = t.rows) ∧ calloc = true

instance (t : VTTerm) (cols rows : Int32) (calloc : Bool) : Decidable (Rebuilds t cols rows calloc) :=
  inferInstanceAs (Decidable (_ ∧ _ ∧ _ ∧ _))

def traceResize (s : Traced) (cols rows : Int32) (calloc : Bool) : Traced :=
  if Rebuilds s.term cols rows calloc then
    { term := resize s.term cols rows calloc
      ids := resizeIds s rows.toInt
      next := s.next + (rows.toInt - keptRows s.term rows.toInt).toNat }
  else { s with term := resize s.term cols rows calloc }

/-- The lines before the page are dropped, those of the page are blank. -/
def traceClearAll (s : Traced) : Traced :=
  { s with term := clearAll s.term, ids := s.ids.drop (s.term.linesTotal - s.term.rows).toNat }

def traceStep (s : Traced) : Event → Traced
  | .feed buf => traceFeed s buf
  | .resize cols rows calloc => traceResize s cols rows calloc
  | .clearAll => traceClearAll s
  | e => { s with term := step s.term e }

/-- The lines of a new terminal. -/
def traceInit (heap : Nat → Bool) (cols rows scrollback : Int32) : Traced where
  term := init heap cols rows scrollback
  ids := List.range (init heap cols rows scrollback).linesTotal.toNat
  next := (init heap cols rows scrollback).linesTotal.toNat

/-! ### The selection -/

def selTop (s : Sel) : Int := min s.anchorRow s.leadRow

def selBottom (s : Sel) : Int := max s.anchorRow s.leadRow

/-- The line is one of those that the selection spans. -/
def Selects (s : Traced) (line : Nat) : Prop := Has s.ids (selTop s.term.sel) (selBottom s.term.sel) line

/-- After a step the selection is inactive, or spans the lines it has spanned, less those that are gone. -/
structure Sticks (s s' : Traced) : Prop where
  sel : s'.term.sel.active = true →
    s.term.sel.active = true ∧ ∀ line, Selects s' line ↔ Selects s line ∧ line ∈ s'.ids
  old : ∀ line ∈ s'.ids, line ∈ s.ids ∨ s.next ≤ line
  next : s.next ≤ s'.next

/-- The numbers are those of the rows, and the page lies in the buffer. -/
structure Traced.Ok (s : Traced) : Prop where
  length : (s.ids.length : Int) = s.term.linesTotal
  nodup : s.ids.Nodup
  fresh : ∀ line ∈ s.ids, line < s.next
  page : 1 ≤ s.term.rows ∧ s.term.rows ≤ s.term.linesTotal ∧ s.term.linesTotal ≤ maxInt32
  sel : s.term.sel.anchorRow ≤ maxInt32 ∧ s.term.sel.leadRow ≤ maxInt32

theorem Sticks.refl (s : Traced) : Sticks s s where
  sel h := ⟨h, fun _ => ⟨fun hline => ⟨hline, hline.mem⟩, fun hline => hline.1⟩⟩
  old _ h := Or.inl h
  next := le_refl _

theorem Sticks.trans {s s' s'' : Traced} (hok : s.Ok) (h : Sticks s s') (h' : Sticks s' s'') : Sticks s s'' where
  sel hactive := by
    obtain ⟨hactive', hsel'⟩ := h'.sel hactive
    obtain ⟨hactive₀, hsel⟩ := h.sel hactive'
    refine ⟨hactive₀, fun line => ?_⟩
    rw [hsel', hsel, and_assoc]
    refine and_congr_right fun hline => and_iff_right_of_imp fun hlast => ?_
    -- a line that is gone does not come back
    rcases h'.old line hlast with hmem | hnew
    · exact hmem
    · have hfresh := hok.fresh line hline.mem
      have hnext := h.next
      omega
  old line hline := by
    have hnext := h.next
    rcases h'.old line hline with hmem | hnew
    · exact h.old line hmem
    · exact Or.inr (by omega)
  next := h.next.trans h'.next

/-! ### Bytes -/

/-- The rows `lo` to `hi - 1` are beside the selection. -/
def Beside (s : Sel) (lo hi : Int) : Prop := hi ≤ selTop s ∨ selBottom s < lo

instance (s : Sel) (lo hi : Int) : Decidable (Beside s lo hi) := inferInstanceAs (Decidable (_ ∨ _))

/-- The row that the byte appends is beside the selection, whose rows an eviction can count down. -/
def ByteKeeps (t : VTTerm) (b : UInt8) : Prop :=
  AppendsRow t b → t.sel.active = true →
    Beside t.sel t.linesTotal (t.linesTotal + 1) ∧
      (totalCap t ≤ t.linesTotal → minInt32 < t.sel.anchorRow ∧ minInt32 < t.sel.leadRow)

instance (t : VTTerm) (b : UInt8) : Decidable (ByteKeeps t b) := inferInstanceAs (Decidable (_ → _ → _))

theorem wrap32_pred {v : Int} (hlo : minInt32 < v) (hhi : v ≤ maxInt32) : wrap32 (v - 1) = v - 1 :=
  wrap32_of_fits ⟨by omega, by omega⟩

theorem selEvict_le (s : Sel) (h : s.anchorRow ≤ maxInt32 ∧ s.leadRow ≤ maxInt32) :
    (selEvict s).anchorRow ≤ maxInt32 ∧ (selEvict s).leadRow ≤ maxInt32 := by
  rw [selEvict]
  dsimp only
  split_ifs
  · exact ⟨by decide, by decide⟩
  · exact ⟨wrap32_le _, wrap32_le _⟩
  · exact h

/-- A selection that is still there has moved along with its rows. -/
theorem selEvict_active {s : Sel} (h : (selEvict s).active = true) (hle : s.anchorRow ≤ maxInt32 ∧ s.leadRow ≤ maxInt32)
    (hmin : minInt32 < s.anchorRow ∧ minInt32 < s.leadRow) :
    s.active = true ∧ selTop (selEvict s) = selTop s - 1 ∧ selBottom (selEvict s) = selBottom s - 1 := by
  rw [selEvict, wrap32_pred hmin.1 hle.1, wrap32_pred hmin.2 hle.2] at h ⊢
  dsimp only at h ⊢
  split_ifs at h ⊢ with hactive hgone
  · rw [selTop, selTop, selBottom, selBottom]
    exact ⟨hactive, by dsimp only; omega, by dsimp only; omega⟩
  · exact absurd h hactive

theorem store_inj {t t' : VTTerm} (h : store t = store t') :
    t.linesTotal = t'.linesTotal ∧ t.rows = t'.rows ∧ t.sel = t'.sel :=
  ⟨congrArg Store.total h, congrArg Store.rows h, congrArg Store.sel h⟩

variable {s : Traced}

/-- The numbers after a change that leaves the rows and the selection alone. -/
theorem Traced.Ok.same (h : s.Ok) {t : VTTerm} (hstore : store t = store s.term) : ({ s with term := t } : Traced).Ok := by
  obtain ⟨htotal, hrows, hsel⟩ := store_inj hstore
  refine ⟨h.length.trans htotal.symm, h.nodup, h.fresh, ?_, ?_⟩
  · rw [htotal, hrows]
    exact h.page
  · rw [hsel]
    exact h.sel

theorem sticks_same {t : VTTerm} (hstore : store t = store s.term) : Sticks s { s with term := t } := by
  obtain ⟨-, -, hsel⟩ := store_inj hstore
  refine ⟨fun h => ?_, fun _ h => Or.inl h, le_refl _⟩
  dsimp only at h ⊢
  rw [hsel] at h
  refine ⟨h, fun line => ?_⟩
  rw [Selects, hsel]
  exact ⟨fun hline => ⟨hline, hline.mem⟩, fun hline => hline.1⟩

/-- New numbers behind old ones. -/
theorem numbers_append {l : List Nat} {next : Nat} (hnodup : l.Nodup) (hfresh : ∀ line ∈ l, line < next) (n : Nat) :
    (l ++ List.range' next n).Nodup ∧ ∀ line ∈ l ++ List.range' next n, line < next + n := by
  constructor
  · refine List.nodup_append.mpr ⟨hnodup, List.nodup_range', fun a ha b hb => ?_⟩
    have hold := hfresh a ha
    have hnew := (List.mem_range'_1.mp hb).1
    omega
  · intro line hline
    rcases List.mem_append.mp hline with hmem | hmem
    · have hold := hfresh line hmem
      omega
    · exact (List.mem_range'_1.mp hmem).2

/-- The lines that an append keeps. -/
def survivors (s : Traced) : List Nat := if s.term.linesTotal < totalCap s.term then s.ids else s.ids.drop 1

theorem appendIds_eq (s : Traced) : appendIds s = survivors s ++ List.range' s.next 1 := rfl

theorem survivors_sublist (s : Traced) : (survivors s).Sublist s.ids := by
  rw [survivors]
  split
  · exact List.Sublist.refl _
  · exact List.drop_sublist 1 _

theorem appendIds_ok (h : s.Ok) {t : VTTerm} (hstore : store t = (store s.term).append) :
    ({ term := t, ids := appendIds s, next := s.next + 1 } : Traced).Ok := by
  obtain ⟨hlength, hnodup, hfresh, hpage, hsel⟩ := h
  have hsub := survivors_sublist s
  obtain ⟨hnodup', hfresh'⟩ := numbers_append (hnodup.sublist hsub) (fun line hline => hfresh line (hsub.subset hline)) 1
  rw [← appendIds_eq] at hnodup' hfresh'
  have hlen : (appendIds s).length = (survivors s).length + 1 := List.length_append
  rw [Store.append] at hstore
  by_cases hlt : s.term.linesTotal < totalCap s.term
  · have hcap := wrap32_le (s.term.scrollbackMax + s.term.rows)
    have hsurv : (survivors s).length = s.ids.length := by rw [survivors, if_pos hlt]
    rw [totalCap] at hlt
    have hlt' : (store s.term).total < wrap32 ((store s.term).scrollbackMax + (store s.term).rows) := hlt
    rw [if_pos hlt'] at hstore
    have htotal : t.linesTotal = s.term.linesTotal + 1 := congrArg Store.total hstore
    have hrows : t.rows = s.term.rows := congrArg Store.rows hstore
    have hsame : t.sel = s.term.sel := congrArg Store.sel hstore
    refine ⟨by dsimp only; omega, hnodup', hfresh', by dsimp only; omega, ?_⟩
    dsimp only
    rwa [hsame]
  · have hsurv : (survivors s).length = s.ids.length - 1 := by rw [survivors, if_neg hlt, List.length_drop]
    rw [totalCap] at hlt
    have hlt' : ¬ (store s.term).total < wrap32 ((store s.term).scrollbackMax + (store s.term).rows) := hlt
    rw [if_neg hlt'] at hstore
    have htotal : t.linesTotal = s.term.linesTotal := congrArg Store.total hstore
    have hrows : t.rows = s.term.rows := congrArg Store.rows hstore
    have hsame : t.sel = selEvict s.term.sel := congrArg Store.sel hstore
    refine ⟨by dsimp only; omega, hnodup', hfresh', by dsimp only; omega, ?_⟩
    dsimp only
    rw [hsame]
    exact selEvict_le _ hsel

/-- A new line is no selected one. -/
theorem selects_append_iff (h : s.Ok) {l m : List Nat} (hm : ∀ line ∈ m, s.next ≤ line) {a b : Int} (line : Nat) :
    (Has s.ids a b line ∧ line ∈ l) ↔ Has s.ids a b line ∧ line ∈ l ++ m := by
  refine and_congr_right fun hline => ⟨List.mem_append_left m, fun hmem => ?_⟩
  rcases List.mem_append.mp hmem with hl | hnew
  · exact hl
  · have hold := h.fresh line hline.mem
    have hle := hm line hnew
    omega

theorem appendIds_sticks (h : s.Ok) {t : VTTerm} (hstore : store t = (store s.term).append)
    (hbeside : s.term.sel.active = true → Beside s.term.sel s.term.linesTotal (s.term.linesTotal + 1))
    (hmin : s.term.sel.active = true → totalCap s.term ≤ s.term.linesTotal →
      minInt32 < s.term.sel.anchorRow ∧ minInt32 < s.term.sel.leadRow) :
    Sticks s { term := t, ids := appendIds s, next := s.next + 1 } := by
  have hlength := h.length
  have hpage := h.page
  have hnew : ∀ line ∈ List.range' s.next 1, s.next ≤ line := fun line hline => (List.mem_range'_1.mp hline).1
  refine ⟨fun hactive => ?_, fun line hline => ?_, Nat.le_succ _⟩
  · dsimp only at hactive ⊢
    rw [Store.append] at hstore
    by_cases hlt : s.term.linesTotal < totalCap s.term
    · have hlt' : (store s.term).total < wrap32 ((store s.term).scrollbackMax + (store s.term).rows) := hlt
      rw [if_pos hlt'] at hstore
      have hsame : t.sel = s.term.sel := congrArg Store.sel hstore
      rw [hsame] at hactive
      have hsurv : survivors s = s.ids := if_pos hlt
      have hout := hbeside hactive
      rw [Beside] at hout
      refine ⟨hactive, fun line => ?_⟩
      rw [Selects, Selects, appendIds_eq, hsame, hsurv, slice_append (by rw [List.length_range']; omega),
        ← selects_append_iff h hnew]
      exact ⟨fun hline => ⟨hline, hline.mem⟩, fun hline => hline.1⟩
    · have hlt' : ¬ (store s.term).total < wrap32 ((store s.term).scrollbackMax + (store s.term).rows) := hlt
      rw [if_neg hlt'] at hstore
      have hmoved : t.sel = selEvict s.term.sel := congrArg Store.sel hstore
      rw [hmoved] at hactive
      have hwas : s.term.sel.active = true := by
        rw [selEvict] at hactive
        by_contra hno
        rw [if_neg hno] at hactive
        exact hno hactive
      obtain ⟨-, htop, hbottom⟩ := selEvict_active hactive h.sel (hmin hwas (not_lt.mp hlt))
      have hsurv : survivors s = s.ids.drop 1 := if_neg hlt
      have hout := hbeside hwas
      rw [Beside] at hout
      refine ⟨hwas, fun line => ?_⟩
      rw [Selects, Selects, appendIds_eq, hmoved, hsurv, htop, hbottom,
        slice_append (by rw [List.length_range', List.length_drop]; omega), ← selects_append_iff h hnew]
      exact slice_drop h.nodup 1
  · rw [appendIds_eq] at hline
    rcases List.mem_append.mp hline with hmem | hmem
    · exact Or.inl ((survivors_sublist s).subset hmem)
    · exact Or.inr (hnew line hmem)

theorem traceByte_ok (h : s.Ok) (b : UInt8) : (traceByte s b).Ok := by
  have hstore := feedByte_store s.term b
  rw [traceByte]
  by_cases happ : AppendsRow s.term b
  · rw [if_pos happ] at hstore ⊢
    exact appendIds_ok h hstore
  · rw [if_neg happ] at hstore ⊢
    exact h.same hstore

theorem traceByte_sticks (h : s.Ok) {b : UInt8} (hkeeps : ByteKeeps s.term b) : Sticks s (traceByte s b) := by
  have hstore := feedByte_store s.term b
  rw [traceByte]
  by_cases happ : AppendsRow s.term b
  · rw [if_pos happ] at hstore ⊢
    exact appendIds_sticks h hstore (fun hactive => (hkeeps happ hactive).1) fun hactive => (hkeeps happ hactive).2
  · rw [if_neg happ] at hstore ⊢
    exact sticks_same hstore

/-! ### The calls that drop lines -/

/-- The selection spans the same of the lines that are kept, and the rows that fill the page up are beside it. -/
def ResizeKeeps (t : VTTerm) (cols rows : Int32) (calloc : Bool) : Prop :=
  Rebuilds t cols rows calloc → t.sel.active = true →
    Stays (selTop t.sel) (selBottom t.sel) (sourceRows t rows.toInt - keptRows t rows.toInt).toNat
        (sourceRows t rows.toInt).toNat ∧
      (keptRows t rows.toInt < rows.toInt → Beside t.sel (keptRows t rows.toInt) rows.toInt)

instance (t : VTTerm) (cols rows : Int32) (calloc : Bool) : Decidable (ResizeKeeps t cols rows calloc) :=
  inferInstanceAs (Decidable (_ → _ → _))

/-- The same of the lines of the page. -/
def ClearKeeps (t : VTTerm) : Prop :=
  t.sel.active = true →
    Stays (selTop t.sel) (selBottom t.sel) (t.linesTotal - t.rows).toNat t.linesTotal.toNat

instance (t : VTTerm) : Decidable (ClearKeeps t) := inferInstanceAs (Decidable (_ → _))

theorem selTop_le_selBottom (s : Sel) : selTop s ≤ selBottom s := by
  rw [selTop, selBottom]
  omega

/-- The lines from the front on that stay, where the selection is not moved. -/
theorem has_drop_stays {l : List Nat} (hl : l.Nodup) {sel : Sel} {n : Nat} (hlen : n < l.length)
    (hstays : Stays (selTop sel) (selBottom sel) n l.length) (line : Nat) :
    Has (l.drop n) (selTop sel) (selBottom sel) line ↔
      Has l (selTop sel) (selBottom sel) line ∧ line ∈ l.drop n :=
  (slice_stays hl (selTop_le_selBottom sel) hlen).mpr hstays line

section Resize

variable {rows : Int}

theorem keptRows_bounds (t : VTTerm) (hpage : 1 ≤ t.rows ∧ t.rows ≤ t.linesTotal ∧ t.linesTotal ≤ maxInt32)
    (hrows : 1 ≤ rows ∧ rows ≤ maxInt32) :
    1 ≤ keptRows t rows ∧ keptRows t rows ≤ sourceRows t rows ∧ sourceRows t rows ≤ t.linesTotal ∧
      keptRows t rows ≤ maxInt32 := by
  have htrim := sourceRows_trimmed t rows
  have hle := htrim.within
  have hmost := htrim.atMost
  have hwrap := wrap32_le (t.scrollbackMax + rows)
  rw [keptRows, newCap]
  split_ifs <;> omega

theorem rebuild_store (t : VTTerm) (cols rows : Int) :
    store (rebuild t cols rows (sourceRows t rows)) =
      { store t with
        total := if keptRows t rows < rows then rows else keptRows t rows
        rows := rows } := rfl

theorem resize_store {t : VTTerm} {cols rows : Int32} {calloc : Bool} (h : Rebuilds t cols rows calloc) :
    store (resize t cols rows calloc) =
      { store t with
        total := if keptRows t rows.toInt < rows.toInt then rows.toInt else keptRows t rows.toInt
        rows := rows.toInt } := by
  obtain ⟨hcols, hrows, hother, hcalloc⟩ := h
  rw [resize, if_neg (by omega), if_neg hother, if_pos hcalloc]
  exact rebuild_store t cols.toInt rows.toInt

theorem resize_store_of_not {t : VTTerm} {cols rows : Int32} {calloc : Bool} (h : ¬ Rebuilds t cols rows calloc) :
    store (resize t cols rows calloc) = store t := by
  rw [resize]
  split_ifs with hsmall hsame hcalloc
  · rfl
  · rfl
  · exact absurd ⟨by omega, by omega, hsame, hcalloc⟩ h
  · rfl

/-- The lines of the new buffer: those that are kept, and the new ones. -/
def keptIds (s : Traced) (rows : Int) : List Nat :=
  (s.ids.take (sourceRows s.term rows).toNat).drop (sourceRows s.term rows - keptRows s.term rows).toNat

theorem resizeIds_eq (s : Traced) (rows : Int) :
    resizeIds s rows = keptIds s rows ++ List.range' s.next (rows - keptRows s.term rows).toNat := rfl

theorem keptIds_sublist (s : Traced) (rows : Int) : (keptIds s rows).Sublist s.ids :=
  (List.drop_sublist _ _).trans (List.take_sublist _ _)

theorem keptIds_length (h : s.Ok) (hrows : 1 ≤ rows ∧ rows ≤ maxInt32) :
    ((keptIds s rows).length : Int) = keptRows s.term rows := by
  obtain ⟨hpos, hle, hsrc, -⟩ := keptRows_bounds s.term h.page hrows
  have hlength := h.length
  rw [keptIds, List.length_drop, List.length_take]
  omega

theorem traceResize_ok (h : s.Ok) (cols rows : Int32) (calloc : Bool) : (traceResize s cols rows calloc).Ok := by
  rw [traceResize]
  by_cases hre : Rebuilds s.term cols rows calloc
  · have hrows : 1 ≤ rows.toInt ∧ rows.toInt ≤ maxInt32 := ⟨hre.2.1, toInt_le rows⟩
    obtain ⟨hpos, hle, hsrc, hmax⟩ := keptRows_bounds s.term h.page hrows
    have hsub := keptIds_sublist s rows.toInt
    have hlen := keptIds_length h hrows
    obtain ⟨hnodup, hfresh⟩ := numbers_append (h.nodup.sublist hsub) (fun line hline => h.fresh line (hsub.subset hline))
      (rows.toInt - keptRows s.term rows.toInt).toNat
    rw [← resizeIds_eq] at hnodup hfresh
    have hstore := resize_store hre
    have htotal : (resize s.term cols rows calloc).linesTotal =
        if keptRows s.term rows.toInt < rows.toInt then rows.toInt else keptRows s.term rows.toInt :=
      congrArg Store.total hstore
    have hsize : (resize s.term cols rows calloc).rows = rows.toInt := congrArg Store.rows hstore
    have hsel : (resize s.term cols rows calloc).sel = s.term.sel := congrArg Store.sel hstore
    rw [if_pos hre]
    refine ⟨?_, hnodup, hfresh, ?_, ?_⟩
    · dsimp only
      rw [htotal, resizeIds_eq, List.length_append, List.length_range']
      split_ifs <;> omega
    · dsimp only
      rw [htotal, hsize]
      split_ifs <;> omega
    · dsimp only
      rw [hsel]
      exact h.sel
  · rw [if_neg hre]
    exact h.same (resize_store_of_not hre)

theorem traceResize_sticks (h : s.Ok) {cols rows : Int32} {calloc : Bool}
    (hkeeps : ResizeKeeps s.term cols rows calloc) : Sticks s (traceResize s cols rows calloc) := by
  rw [traceResize]
  by_cases hre : Rebuilds s.term cols rows calloc
  · have hrows : 1 ≤ rows.toInt ∧ rows.toInt ≤ maxInt32 := ⟨hre.2.1, toInt_le rows⟩
    obtain ⟨hpos, hle, hsrc, -⟩ := keptRows_bounds s.term h.page hrows
    have hlen := keptIds_length h hrows
    have hlength := h.length
    have hsel : (resize s.term cols rows calloc).sel = s.term.sel := congrArg Store.sel (resize_store hre)
    have hnew : ∀ line ∈ List.range' s.next (rows.toInt - keptRows s.term rows.toInt).toNat, s.next ≤ line :=
      fun line hline => (List.mem_range'_1.mp hline).1
    rw [if_pos hre]
    refine ⟨fun hactive => ?_, fun line hline => ?_, Nat.le_add_right _ _⟩
    · dsimp only at hactive ⊢
      rw [hsel] at hactive
      obtain ⟨hstays, hpad⟩ := hkeeps hre hactive
      refine ⟨hactive, fun line => ?_⟩
      have hsource : (s.ids.take (sourceRows s.term rows.toInt).toNat).length =
          (sourceRows s.term rows.toInt).toNat := by
        rw [List.length_take]
        omega
      have hout : ((keptIds s rows.toInt).length : Int) +
          (List.range' s.next (rows.toInt - keptRows s.term rows.toInt).toNat).length ≤ selTop s.term.sel ∨
          selBottom s.term.sel < (keptIds s rows.toInt).length ∨
          List.range' s.next (rows.toInt - keptRows s.term rows.toInt).toNat = [] := by
        by_cases hless : keptRows s.term rows.toInt < rows.toInt
        · have hbeside := hpad hless
          rw [Beside] at hbeside
          rw [List.length_range', hlen]
          omega
        · refine Or.inr (Or.inr ?_)
          rw [show (rows.toInt - keptRows s.term rows.toInt).toNat = 0 by omega]
          rfl
      rw [Selects, Selects, resizeIds_eq, hsel, slice_append hout, ← selects_append_iff h hnew, keptIds,
        has_drop_stays (h.nodup.sublist (List.take_sublist _ _)) (by omega) (by rwa [hsource]),
        slice_take h.nodup, and_assoc]
      exact and_congr_right fun _ => and_iff_right_of_imp fun hmem => List.mem_of_mem_drop hmem
    · rw [resizeIds_eq] at hline
      rcases List.mem_append.mp hline with hmem | hmem
      · exact Or.inl ((keptIds_sublist s _).subset hmem)
      · exact Or.inr (hnew line hmem)
  · rw [if_neg hre]
    exact sticks_same (resize_store_of_not hre)

end Resize

theorem clearAll_store {t : VTTerm} (hpage : t.rows ≤ t.linesTotal) :
    store (clearAll t) = { store t with total := t.rows } := by
  have htotal : (collapse t).linesTotal = t.rows := by
    rw [collapse]
    dsimp only
    split_ifs <;> omega
  rw [← htotal]
  rfl

theorem traceClearAll_ok (h : s.Ok) : (traceClearAll s).Ok := by
  have hlength := h.length
  have hpage := h.page
  have hstore := clearAll_store hpage.2.1
  have hsub := List.drop_sublist (s.term.linesTotal - s.term.rows).toNat s.ids
  have htotal : (clearAll s.term).linesTotal = s.term.rows := congrArg Store.total hstore
  have hrows : (clearAll s.term).rows = s.term.rows := congrArg Store.rows hstore
  rw [traceClearAll]
  refine ⟨?_, h.nodup.sublist hsub, fun line hline => h.fresh line (hsub.subset hline), ?_, h.sel⟩
  · dsimp only
    rw [htotal, List.length_drop]
    omega
  · dsimp only
    rw [htotal, hrows]
    omega

theorem traceClearAll_sticks (h : s.Ok) (hkeeps : ClearKeeps s.term) : Sticks s (traceClearAll s) := by
  have hlength := h.length
  have hpage := h.page
  have hlen : s.ids.length = s.term.linesTotal.toNat := by omega
  refine ⟨fun hactive => ⟨hactive, fun line => ?_⟩, fun line hline => Or.inl (List.mem_of_mem_drop hline), le_refl _⟩
  have hstays := hkeeps hactive
  rw [← hlen] at hstays
  exact has_drop_stays h.nodup (by omega) hstays line

/-! ### Calls -/

/-- The condition on a call. -/
def EventKeeps (t : VTTerm) : Event → Prop
  | .feed buf => Machine.Guarded feedByte ByteKeeps (scrollToBottom t) buf
  | .resize cols rows calloc => ResizeKeeps t cols rows calloc
  | .clearAll => ClearKeeps t
  | _ => True

instance (t : VTTerm) : (e : Event) → Decidable (EventKeeps t e)
  | .feed buf => inferInstanceAs (Decidable (Machine.Guarded feedByte ByteKeeps (scrollToBottom t) buf))
  | .resize cols rows calloc => inferInstanceAs (Decidable (ResizeKeeps t cols rows calloc))
  | .clearAll => inferInstanceAs (Decidable (ClearKeeps t))
  | .scrollBy _ | .scrollToBottom | .clearVisible | .setLfToCrlf _
  | .selectSet _ _ _ _ | .selectClear | .selectAll => isTrue trivial

/-- The calls that choose the lines of the selection. -/
def Event.Selects : Event → Prop
  | .selectSet _ _ _ _ | .selectAll => True
  | _ => False

theorem traceByte_term (s : Traced) (b : UInt8) : (traceByte s b).term = feedByte s.term b := by
  rw [traceByte]
  split <;> rfl

theorem traceFeed_term (s : Traced) (buf : List UInt8) : (traceFeed s buf).term = feedBytes s.term buf := by
  rw [traceFeed, feedBytes]
  by_cases hnil : buf = []
  · rw [if_pos hnil, if_pos hnil]
  rw [if_neg hnil, if_neg hnil]
  refine Machine.run_rel (R := fun (s : Traced) t => s.term = t) ?_ rfl buf
  rintro s t b rfl
  exact traceByte_term s b

theorem traceFeed_ok (h : s.Ok) (buf : List UInt8) : (traceFeed s buf).Ok := by
  rw [traceFeed]
  split
  · exact h
  · exact Machine.run_inv (I := Traced.Ok) (fun _ b hok => traceByte_ok hok b)
      (h.same (t := scrollToBottom s.term) rfl) buf

theorem traceFeed_sticks (h : s.Ok) {buf : List UInt8}
    (hkeeps : Machine.Guarded feedByte ByteKeeps (scrollToBottom s.term) buf) : Sticks s (traceFeed s buf) := by
  rw [traceFeed]
  split
  · exact Sticks.refl s
  · have hbottom : store (scrollToBottom s.term) = store s.term := rfl
    rw [← Machine.guarded_map (f := Traced.term) traceByte_term ⟨scrollToBottom s.term, s.ids, s.next⟩] at hkeeps
    have hrun := Machine.run_inv_of_guarded (I := fun s' : Traced => s'.Ok ∧ Sticks s s')
      (fun s' b hs' hb => ⟨traceByte_ok hs'.1 b, hs'.2.trans h (traceByte_sticks hs'.1 hb)⟩)
      ⟨h.same hbottom, sticks_same hbottom⟩ hkeeps
    exact hrun.2

/-- The numbers do not change what the terminal does. -/
theorem traceStep_term (s : Traced) (e : Event) : (traceStep s e).term = step s.term e := by
  cases e with
  | feed buf => exact traceFeed_term s buf
  | resize cols rows calloc =>
      rw [traceStep, traceResize]
      split <;> rfl
  | scrollBy => rfl
  | scrollToBottom => rfl
  | clearVisible => rfl
  | clearAll => rfl
  | setLfToCrlf => rfl
  | selectSet => rfl
  | selectClear => rfl
  | selectAll => rfl

theorem traceStep_ok (h : s.Ok) (e : Event) : (traceStep s e).Ok := by
  have hzero : (0 : Int) ≤ maxInt32 := by decide
  cases e with
  | feed buf => exact traceFeed_ok h buf
  | resize cols rows calloc => exact traceResize_ok h cols rows calloc
  | scrollBy => exact h.same rfl
  | scrollToBottom => exact h.same rfl
  | clearVisible => exact h.same rfl
  | clearAll => exact traceClearAll_ok h
  | setLfToCrlf => exact h.same rfl
  | selectSet ar ac lr lc => exact ⟨h.length, h.nodup, h.fresh, h.page, toInt_le ar, toInt_le lr⟩
  | selectClear => exact ⟨h.length, h.nodup, h.fresh, h.page, hzero, hzero⟩
  | selectAll =>
      have hpage := h.page
      have hpos : ¬ s.term.linesTotal ≤ 0 := by omega
      simp only [traceStep, step, selectAll, if_neg hpos]
      exact ⟨h.length, h.nodup, h.fresh, h.page, hzero, by dsimp only; omega⟩

theorem traceStep_sticks (h : s.Ok) {e : Event} (hkeeps : EventKeeps s.term e) (hnew : ¬ e.Selects) :
    Sticks s (traceStep s e) := by
  cases e with
  | feed buf => exact traceFeed_sticks h hkeeps
  | resize cols rows calloc => exact traceResize_sticks h hkeeps
  | scrollBy => exact sticks_same rfl
  | scrollToBottom => exact sticks_same rfl
  | clearVisible => exact sticks_same rfl
  | clearAll => exact traceClearAll_sticks h hkeeps
  | setLfToCrlf => exact sticks_same rfl
  | selectSet => exact absurd trivial hnew
  | selectClear =>
      exact ⟨fun hactive => absurd hactive Bool.false_ne_true, fun _ hline => Or.inl hline, le_refl _⟩
  | selectAll => exact absurd trivial hnew

/-! ### Sessions -/

theorem init_store (heap : Nat → Bool) {cols rows scrollback : Int32}
    (hcap : (empty heap cols.toInt rows.toInt scrollback.toInt).scrollbackMax +
      (empty heap cols.toInt rows.toInt scrollback.toInt).rows ≤ maxInt32) :
    store (init heap cols rows scrollback) =
      { store (empty heap cols.toInt rows.toInt scrollback.toInt) with
        total := (empty heap cols.toInt rows.toInt scrollback.toInt).rows } := by
  have hs := empty_storage heap cols.toInt rows.toInt scrollback.toInt
  have hstart : store (empty heap cols.toInt rows.toInt scrollback.toInt) =
      { store (empty heap cols.toInt rows.toInt scrollback.toInt) with total := 0 } := rfl
  rw [init]
  dsimp only
  generalize empty heap cols.toInt rows.toInt scrollback.toInt = t₀ at *
  have hpos := hs.rows
  have hsb := hs.scrollbackMax
  refine Loop.up_ind (I := fun i t => store t = { store t₀ with total := i }) (by omega) (fun i t hlo hhi ht => ?_)
    ((growTo_store t₀ t₀.rows).trans hstart)
  have hexact : wrap32 (t₀.scrollbackMax + t₀.rows) = t₀.scrollbackMax + t₀.rows :=
    wrap32_of_fits ⟨by simp only [minInt32]; omega, hcap⟩
  have hlt : i < wrap32 (t₀.scrollbackMax + t₀.rows) := by omega
  rw [appendBlankRow_store, ht, Store.append]
  exact if_pos hlt

theorem traceInit_ok (heap : Nat → Bool) {cols rows scrollback : Int32}
    (hcap : (empty heap cols.toInt rows.toInt scrollback.toInt).scrollbackMax +
      (empty heap cols.toInt rows.toInt scrollback.toInt).rows ≤ maxInt32) :
    (traceInit heap cols rows scrollback).Ok := by
  have hs := empty_storage heap cols.toInt rows.toInt scrollback.toInt
  have hpos := hs.rows
  have hsb := hs.scrollbackMax
  have hstore := init_store heap hcap
  have htotal : (init heap cols rows scrollback).linesTotal = _ := congrArg Store.total hstore
  have hrows : (init heap cols rows scrollback).rows = _ := congrArg Store.rows hstore
  have hsel : (init heap cols rows scrollback).sel = {} := congrArg Store.sel hstore
  dsimp only [store] at htotal hrows
  rw [traceInit]
  refine ⟨?_, List.nodup_range, fun line hline => List.mem_range.mp hline, ?_, ?_⟩
  · dsimp only
    rw [List.length_range]
    omega
  · dsimp only
    omega
  · dsimp only
    rw [hsel]
    exact ⟨by decide, by decide⟩

/-- In a session whose calls meet the conditions every call but a new selection leaves the selection on the lines it
has spanned, less those that are gone, or inactive. -/
theorem selection_sticks {heap : Nat → Bool} {cols rows scrollback : Int32}
    (hcap : (empty heap cols.toInt rows.toInt scrollback.toInt).scrollbackMax +
      (empty heap cols.toInt rows.toInt scrollback.toInt).rows ≤ maxInt32) {events : List Event}
    (hevents : Machine.Guarded step EventKeeps (init heap cols rows scrollback) events) :
    (Machine.run traceStep (traceInit heap cols rows scrollback) events).term =
      Machine.run step (init heap cols rows scrollback) events ∧
    Machine.Guarded traceStep (fun s e => ¬ e.Selects → Sticks s (traceStep s e))
      (traceInit heap cols rows scrollback) events := by
  have hinit := traceInit_ok heap hcap
  refine ⟨?_, ?_⟩
  · refine Machine.run_rel (R := fun (s : Traced) t => s.term = t) ?_ rfl events
    rintro s t e rfl
    exact traceStep_term s e
  · have htraced : Machine.Guarded traceStep (fun s e => EventKeeps s.term e) (traceInit heap cols rows scrollback)
        events := (Machine.guarded_map traceStep_term _ events).mpr hevents
    exact Machine.Guarded.imp (I := Traced.Ok) (fun _ e hok _ => traceStep_ok hok e) (fun _ e hok hkeeps => traceStep_sticks hok hkeeps)
      hinit htraced

/-- A selected line scrolls up out of the page, and another row is appended behind it; the selection keeps to it. -/
theorem selection_sticks_scrolled :
    Machine.Guarded traceStep (fun s e => ¬ e.Selects → Sticks s (traceStep s e)) (traceInit (fun _ => true) 2 2 1)
      [.feed [0x41, 0x0D, 0x0A, 0x42], .selectSet 1 0 1 1, .feed [0x0D, 0x0A, 0x43, 0x0D, 0x0A, 0x44],
        .resize 3 2 true] :=
  (selection_sticks (by decide) (by decide)).2

/-- The lines `A`, `B` and `C`, two of them on the page, and `B` selected. -/
def threeLines : Traced :=
  Machine.run traceStep (traceInit (fun _ => true) 2 2 1)
    [.feed [0x41, 0x0D, 0x0A, 0x42, 0x0D, 0x0A, 0x43], .selectSet 1 0 1 1]

/-- When the page becomes one row, `A` is dropped and the selection is on `C`; and when everything is cleared, it is on
the line after its own too. -/
theorem selection_slips :
    (Has threeLines.ids (selTop threeLines.term.sel) (selBottom threeLines.term.sel) 1 ∧
      threeLines.term.lines.cell 1 0 = ⟨0x42, 0⟩) ∧
    ((resize threeLines.term 2 1 true).sel.active = true ∧
      (resize threeLines.term 2 1 true).sel.anchorRow = 1 ∧
      (resize threeLines.term 2 1 true).lines.cell 1 0 = ⟨0x43, 0⟩) ∧
    ¬ Sticks threeLines (traceStep threeLines (.resize 2 1 true)) ∧
    ¬ Sticks threeLines (traceStep threeLines .clearAll) := by
  have hother : ¬ Selects threeLines 2 := by
    rintro ⟨r, hr, ha, hb⟩
    have hone : r = 1 := by
      have htop : selTop threeLines.term.sel = 1 := by decide
      have hbottom : selBottom threeLines.term.sel = 1 := by decide
      omega
    rw [hone] at hr
    revert hr
    decide
  refine ⟨⟨⟨1, by decide⟩, by decide⟩, ⟨by decide, by decide, by decide⟩,
    fun h => ?_, fun h => ?_⟩
  · have hsel := (h.sel (by decide)).2 2
    exact hother (hsel.mp ⟨1, by decide⟩).1
  · have hsel := (h.sel (by decide)).2 2
    exact hother (hsel.mp ⟨1, by decide⟩).1

end UnicornSuite.VtTerm
