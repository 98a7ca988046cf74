import Mathlib.Algebra.Order.Monoid.Defs
import Mathlib.Algebra.Order.Group.Unbundled.Basic
import Mathlib.Data.List.Basic

/-! Breaking paragraphs into lines, greedily. A paragraph is a list of pieces; a word that does not fit behind
what its line holds goes to the next line. Whether a line is broken at all is read off the lines as they are
without breaking (`breaks_pack_eq_iff`), and whether every line fits, off the words that begin one
(`pack_lines_le`, `stands_le`). -/

namespace Paragraph

variable {α : Type*}

/-- Of two spaces in a row the last one counts; what is glued stays behind what is before it. -/
inductive Piece (α : Type*) where
  | space (w : α)
  | word (w : α)
  | glued (w : α)
  | newline

/-- Lines begin at `indent`, and `least` pieces on a line count as its indent. -/
structure Margin (α : Type*) where
  indent : α
  least : Nat

/-- The line that is filled, and the widths of those before it. -/
structure Packing (α : Type*) where
  x : α
  owed : α
  count : Nat
  breaks : Nat := 0
  lines : List α := []

/-- Before the first piece. -/
def Packing.start [Zero α] (b : Margin α) : Packing α := { x := b.indent, owed := 0, count := b.least }

/-- A line without pieces leaves nothing. -/
def Packing.emit [Zero α] (b : Margin α) (p : Packing α) : Packing α :=
  { p with
    x := b.indent, owed := 0, count := 0, lines := if 0 < p.count then p.lines ++ [p.x] else p.lines }

section Definitions

variable [AddCommGroup α] [LinearOrder α]

/-- The line holds more than its indent. -/
def Packing.Begun (b : Margin α) (p : Packing α) : Prop := b.indent < p.x ∨ b.least < p.count

instance (b : Margin α) (p : Packing α) : Decidable (p.Begun b) := by
  unfold Packing.Begun
  infer_instance

/-- A piece is put on the line, whether it fits or not. -/
def Packing.put (b : Margin α) (p : Packing α) : Piece α → Packing α
  | .space w => { p with owed := w }
  | .word w => { p with x := p.x + p.owed + w, owed := 0, count := p.count + 1 }
  | .glued w => { p with x := p.x + w, count := p.count + 1 }
  | .newline => p.emit b

/-- The line goes out before a word that does not fit. -/
def Packing.wrap (width : α) (b : Margin α) (p : Packing α) : Piece α → Packing α
  | .word w =>
      if width < p.x + p.owed + w ∧ p.Begun b then { p.emit b with breaks := p.breaks + 1 } else p
  | _ => p

def Packing.pack (width : α) (b : Margin α) (p : Packing α) (piece : Piece α) : Packing α :=
  (p.wrap width b piece).put b piece

/-- The widths of the lines, the last one included. -/
def packedLines (width : α) (b : Margin α) (pieces : List (Piece α)) (p : Packing α) : List α :=
  ((pieces.foldl (Packing.pack width b) p).emit b).lines

/-- The widths of the lines that end at newlines only. -/
def wholeLines (b : Margin α) (pieces : List (Piece α)) (p : Packing α) : List α :=
  ((pieces.foldl (Packing.put b) p).emit b).lines

/-- Where a word ends, if it is not the first of its line. -/
def Packing.ends (b : Margin α) (p : Packing α) : Piece α → List α
  | .word w => if p.Begun b then [p.x + p.owed + w] else []
  | _ => []

/-- Where the words that are not the first of such a line end. -/
def wordEnds (b : Margin α) : List (Piece α) → Packing α → List α
  | [], _ => []
  | piece :: pieces, p => p.ends b piece ++ wordEnds b pieces (p.put b piece)

/-- Where the words end that begin a line. Only the first one after a newline keeps the space before it,
and one that has nothing but pieces without width before it. -/
def stands (b : Margin α) : List (Piece α) → (owed : α) → (alone : Bool) → List α
  | [], _, _ => []
  | .space w :: pieces, _, alone => stands b pieces w alone
  | .word w :: pieces, owed, alone =>
      (b.indent + (if alone then owed else 0) + w) :: stands b pieces 0 (w = 0)
  | .glued w :: pieces, owed, _ => stands b pieces owed (w = 0)
  | .newline :: pieces, _, _ => stands b pieces 0 true

/-- The widths of the lines, each piece with all of its width. -/
def lineSums : List (Piece α) → α → List α
  | [], x => [x]
  | .newline :: pieces, x => x :: lineSums pieces 0
  | .space w :: pieces, x => lineSums pieces (x + w)
  | .word w :: pieces, x => lineSums pieces (x + w)
  | .glued w :: pieces, x => lineSums pieces (x + w)

end Definitions

/-- The widths of the words. -/
def words (pieces : List (Piece α)) : List α :=
  pieces.filterMap fun
    | .word w => some w
    | _ => none

/-- No piece has a negative width. -/
def Piece.Nonneg [Zero α] [LE α] : Piece α → Prop
  | .space w => 0 ≤ w
  | .word w => 0 ≤ w
  | .glued w => 0 ≤ w
  | .newline => True

def Piece.Loose : Piece α → Prop
  | .glued _ => False
  | _ => True

/-- A word is wider than nothing. -/
def Piece.Solid [Zero α] [LT α] : Piece α → Prop
  | .word w => 0 < w
  | _ => True

/-! ### Lines that are not broken -/

section

variable [AddCommGroup α] [LinearOrder α] {width : α} {b : Margin α}

omit [LinearOrder α] in
@[simp] theorem Packing.put_breaks (p : Packing α) (piece : Piece α) : (p.put b piece).breaks = p.breaks := by
  cases piece <;> rfl

/-- Of a row of spaces one is owed. -/
theorem Packing.foldl_pack_spaces (n : Nat) (w : α) (p : Packing α) :
    (List.replicate n (.space w)).foldl (Packing.pack width b) p = if 0 < n then { p with owed := w } else p := by
  induction n generalizing p with
  | zero => rfl
  | succ n ih =>
      rw [List.replicate_succ, List.foldl_cons, ih, if_pos n.succ_pos]
      split_ifs <;> rfl

/-- A line is broken for a word only, and only when the word ends behind the margin. -/
theorem Packing.wrap_cases (p : Packing α) (width : α) (b : Margin α) (piece : Piece α) :
    (p.wrap width b piece = p ∧ ∀ e ∈ p.ends b piece, e ≤ width) ∨
      (p.wrap width b piece = { p.emit b with breaks := p.breaks + 1 } ∧ ∃ w, piece = .word w ∧ p.Begun b ∧
        width < p.x + p.owed + w) := by
  cases piece with
  | word w =>
      by_cases hbegun : p.Begun b
      · by_cases hover : width < p.x + p.owed + w
        · exact .inr ⟨if_pos ⟨hover, hbegun⟩, w, rfl, hbegun, hover⟩
        · refine .inl ⟨if_neg fun h => hover h.1, fun e he => ?_⟩
          rw [ends, if_pos hbegun, List.mem_singleton] at he
          exact he ▸ not_lt.mp hover
      · refine .inl ⟨if_neg fun h => hbegun h.2, fun e he => ?_⟩
        rw [ends, if_neg hbegun] at he
        exact absurd he List.not_mem_nil
  | space w => exact .inl ⟨rfl, fun e he => absurd he List.not_mem_nil⟩
  | glued w => exact .inl ⟨rfl, fun e he => absurd he List.not_mem_nil⟩
  | newline => exact .inl ⟨rfl, fun e he => absurd he List.not_mem_nil⟩

theorem Packing.breaks_le_pack (p : Packing α) (piece : Piece α) : p.breaks ≤ (p.pack width b piece).breaks := by
  rw [pack, put_breaks]
  obtain ⟨h, -⟩ | ⟨h, -⟩ := p.wrap_cases width b piece
  · rw [h]
  · rw [h]
    exact Nat.le_succ _

theorem breaks_le_foldl (width : α) (b : Margin α) (pieces : List (Piece α)) (p : Packing α) :
    p.breaks ≤ (pieces.foldl (Packing.pack width b) p).breaks := by
  induction pieces generalizing p with
  | nil => exact le_rfl
  | cons piece pieces ih => exact (p.breaks_le_pack piece).trans (ih _)

theorem Packing.pack_eq_put {p : Packing α} {piece : Piece α} (h : ∀ e ∈ p.ends b piece, e ≤ width) :
    p.pack width b piece = p.put b piece := by
  obtain ⟨hwrap, -⟩ | ⟨-, w, rfl, hbegun, hover⟩ := p.wrap_cases width b piece
  · rw [pack, hwrap]
  · have hend := h (p.x + p.owed + w) (by rw [ends, if_pos hbegun]; exact List.mem_singleton_self _)
    exact absurd hover (not_lt.mpr hend)

/-- What is packed without a break is not packed at all. -/
theorem foldl_pack_eq_put (pieces : List (Piece α)) (p : Packing α) (h : ∀ e ∈ wordEnds b pieces p, e ≤ width) :
    pieces.foldl (Packing.pack width b) p = pieces.foldl (Packing.put b) p := by
  induction pieces generalizing p with
  | nil => rfl
  | cons piece pieces ih =>
      rw [wordEnds, List.forall_mem_append] at h
      rw [List.foldl_cons, List.foldl_cons, Packing.pack_eq_put h.1]
      exact ih _ h.2

theorem packedLines_eq_wholeLines {pieces : List (Piece α)} {p : Packing α}
    (h : ∀ e ∈ wordEnds b pieces p, e ≤ width) : packedLines width b pieces p = wholeLines b pieces p := by
  rw [packedLines, wholeLines, foldl_pack_eq_put pieces p h]

/-- No line is broken exactly when no word of a whole line ends behind the margin. -/
theorem breaks_pack_eq_iff (width : α) (b : Margin α) (pieces : List (Piece α)) (p : Packing α) :
    (pieces.foldl (Packing.pack width b) p).breaks = p.breaks ↔ ∀ e ∈ wordEnds b pieces p, e ≤ width := by
  induction pieces generalizing p with
  | nil => exact ⟨fun _ e he => absurd he List.not_mem_nil, fun _ => rfl⟩
  | cons piece pieces ih =>
      rw [List.foldl_cons, wordEnds, List.forall_mem_append]
      obtain ⟨hwrap, hends⟩ | ⟨hwrap, w, rfl, hbegun, hover⟩ := p.wrap_cases width b piece
      · rw [Packing.pack_eq_put hends, ← ih, Packing.put_breaks, and_iff_right hends]
      · have hle := breaks_le_foldl width b pieces (p.pack width b (.word w))
        have hbreaks : (p.pack width b (.word w)).breaks = p.breaks + 1 := by
          rw [Packing.pack, Packing.put_breaks, hwrap]
        refine ⟨fun heq => by omega, fun h => ?_⟩
        have hend := h.1 (p.x + p.owed + w)
          (by rw [Packing.ends, if_pos hbegun]; exact List.mem_singleton_self _)
        exact absurd hover (not_lt.mpr hend)

end

/-! ### Lines grow -/

section

variable [AddCommGroup α] [LinearOrder α] {width : α} {b : Margin α}

/-- What was on a line is still there, or the line went out with it. -/
structure Packing.Onward (p p' : Packing α) : Prop where
  owed : 0 ≤ p'.owed
  kept : ∀ l ∈ p.lines, l ∈ p'.lines
  held : 0 < p.count → (∃ l ∈ p'.lines, p.x ≤ l) ∨ 0 < p'.count ∧ p.x ≤ p'.x

theorem Packing.Onward.trans {p p' p'' : Packing α} (h : p.Onward p') (h' : p'.Onward p'') : p.Onward p'' where
  owed := h'.owed
  kept := fun l hl => h'.kept l (h.kept l hl)
  held := by
    intro hcount
    obtain ⟨l, hl, hle⟩ | ⟨hcount', hle⟩ := h.held hcount
    · exact .inl ⟨l, h'.kept l hl, hle⟩
    · obtain ⟨l, hl, hle'⟩ | ⟨hcount'', hle'⟩ := h'.held hcount'
      · exact .inl ⟨l, hl, hle.trans hle'⟩
      · exact .inr ⟨hcount'', hle.trans hle'⟩

theorem Packing.onward_refl {p : Packing α} (h : 0 ≤ p.owed) : p.Onward p :=
  ⟨h, fun _ hl => hl, fun hcount => .inr ⟨hcount, le_rfl⟩⟩

theorem Packing.onward_emit (p : Packing α) : p.Onward (p.emit b) where
  owed := le_rfl
  kept := by
    intro l hl
    show l ∈ if 0 < p.count then p.lines ++ [p.x] else p.lines
    split_ifs
    · exact List.mem_append_left _ hl
    · exact hl
  held := by
    intro hcount
    refine .inl ⟨p.x, ?_, le_rfl⟩
    show p.x ∈ if 0 < p.count then p.lines ++ [p.x] else p.lines
    rw [if_pos hcount]
    exact List.mem_append_right _ (List.mem_singleton_self _)

/-- A line that holds something goes out with it in the end. -/
theorem Packing.Onward.exists_line {p p' : Packing α} (h : p.Onward p') (hcount : 0 < p.count) :
    ∃ l ∈ (p'.emit b).lines, p.x ≤ l := by
  obtain ⟨l, hl, hle⟩ | ⟨hcount', hle⟩ := (h.trans (p'.onward_emit (b := b))).held hcount
  · exact ⟨l, hl, hle⟩
  · exact absurd hcount' (Nat.lt_irrefl 0)

variable [IsOrderedAddMonoid α]

theorem Packing.onward_put {p : Packing α} {piece : Piece α} (howed : 0 ≤ p.owed) (hpiece : piece.Nonneg) :
    p.Onward (p.put b piece) := by
  cases piece with
  | space w => exact ⟨hpiece, fun _ hl => hl, fun hcount => .inr ⟨hcount, le_rfl⟩⟩
  | word w =>
      have hle : p.x ≤ p.x + p.owed + w := by
        rw [add_assoc]
        exact le_add_of_nonneg_right (add_nonneg howed hpiece)
      exact ⟨le_rfl, fun _ hl => hl, fun _ => .inr ⟨Nat.succ_pos _, hle⟩⟩
  | glued w => exact ⟨howed, fun _ hl => hl, fun _ => .inr ⟨Nat.succ_pos _, le_add_of_nonneg_right hpiece⟩⟩
  | newline => exact p.onward_emit

theorem Packing.onward_pack (width : α) (b : Margin α) {p : Packing α} {piece : Piece α} (howed : 0 ≤ p.owed)
    (hpiece : piece.Nonneg) : p.Onward (p.pack width b piece) := by
  obtain ⟨hwrap, -⟩ | ⟨hwrap, -⟩ := p.wrap_cases width b piece
  · rw [pack, hwrap]
    exact onward_put howed hpiece
  · have hout : p.Onward { p.emit b with breaks := p.breaks + 1 } :=
      ⟨(p.onward_emit (b := b)).owed, (p.onward_emit (b := b)).kept, (p.onward_emit (b := b)).held⟩
    rw [pack, hwrap]
    exact hout.trans (onward_put le_rfl hpiece)

theorem onward_foldl_put {pieces : List (Piece α)} (hpieces : ∀ piece ∈ pieces, piece.Nonneg) {p : Packing α}
    (howed : 0 ≤ p.owed) : p.Onward (pieces.foldl (Packing.put b) p) := by
  induction pieces generalizing p with
  | nil => exact Packing.onward_refl howed
  | cons piece pieces ih =>
      rw [List.forall_mem_cons] at hpieces
      have hput := Packing.onward_put (b := b) howed hpieces.1
      exact hput.trans (ih hpieces.2 hput.owed)

theorem onward_foldl_pack (width : α) (b : Margin α) {pieces : List (Piece α)}
    (hpieces : ∀ piece ∈ pieces, piece.Nonneg) {p : Packing α} (howed : 0 ≤ p.owed) :
    p.Onward (pieces.foldl (Packing.pack width b) p) := by
  induction pieces generalizing p with
  | nil => exact Packing.onward_refl howed
  | cons piece pieces ih =>
      rw [List.forall_mem_cons] at hpieces
      have hpack := Packing.onward_pack width b howed hpieces.1
      exact hpack.trans (ih hpieces.2 hpack.owed)

/-- A word that is not the first of its line ends where some line ends, or before that. -/
theorem exists_wholeLine {pieces : List (Piece α)} (hpieces : ∀ piece ∈ pieces, piece.Nonneg) {p : Packing α}
    (howed : 0 ≤ p.owed) {e : α} (he : e ∈ wordEnds b pieces p) : ∃ l ∈ wholeLines b pieces p, e ≤ l := by
  induction pieces generalizing p with
  | nil => exact absurd he List.not_mem_nil
  | cons piece pieces ih =>
      rw [List.forall_mem_cons] at hpieces
      have hput := Packing.onward_put (b := b) howed hpieces.1
      rw [wordEnds, List.mem_append] at he
      obtain he | he := he
      · cases piece with
        | word w =>
            rw [Packing.ends] at he
            split_ifs at he with hbegun
            · rw [List.mem_singleton.mp he]
              exact (onward_foldl_put hpieces.2 hput.owed).exists_line (Nat.succ_pos _)
            · exact absurd he List.not_mem_nil
        | space w => exact absurd he List.not_mem_nil
        | glued w => exact absurd he List.not_mem_nil
        | newline => exact absurd he List.not_mem_nil
      · exact ih hpieces.2 hput.owed he

/-- Whole lines that fit are not broken. -/
theorem wordEnds_le {pieces : List (Piece α)} (hpieces : ∀ piece ∈ pieces, piece.Nonneg) {p : Packing α}
    (howed : 0 ≤ p.owed) (hlines : ∀ l ∈ wholeLines b pieces p, l ≤ width) :
    ∀ e ∈ wordEnds b pieces p, e ≤ width := by
  intro e he
  obtain ⟨l, hl, hle⟩ := exists_wholeLine hpieces howed he
  exact hle.trans (hlines l hl)

end

/-! ### Lines that fit -/

section

variable [AddCommGroup α] [LinearOrder α] [IsOrderedAddMonoid α] {width : α} {b : Margin α}

/-- So far every line fits; `alone` says that the line may hold nothing but its indent. -/
structure Packing.Fits (width : α) (b : Margin α) (alone : Bool) (p : Packing α) : Prop where
  owed : 0 ≤ p.owed
  le_x : b.indent ≤ p.x
  x_le : p.x ≤ width
  lines : ∀ l ∈ p.lines, l ≤ width
  begun : ¬p.Begun b → alone = true

omit [IsOrderedAddMonoid α] in
theorem Packing.start_fits (hindent : b.indent ≤ width) : (Packing.start b).Fits width b true :=
  ⟨le_rfl, le_rfl, hindent, fun _ hl => absurd hl List.not_mem_nil, fun _ => rfl⟩

omit [IsOrderedAddMonoid α] in
theorem Packing.start_not_begun : ¬(Packing.start b).Begun b :=
  fun h => h.elim (lt_irrefl b.indent) (Nat.lt_irrefl b.least)

omit [IsOrderedAddMonoid α] in
theorem Packing.Fits.emit {alone : Bool} {p : Packing α} (h : p.Fits width b alone) (hindent : b.indent ≤ width) :
    (p.emit b).Fits width b true where
  owed := le_rfl
  le_x := le_rfl
  x_le := hindent
  lines := by
    show ∀ l ∈ if 0 < p.count then p.lines ++ [p.x] else p.lines, l ≤ width
    split_ifs
    · exact List.forall_mem_append.mpr ⟨h.lines, List.forall_mem_singleton.mpr h.x_le⟩
    · exact h.lines
  begun := fun _ => rfl

/-- A word behind what the line holds. -/
theorem Packing.Fits.put_word {alone : Bool} {p : Packing α} (h : p.Fits width b alone) {w : α} (hw : 0 ≤ w)
    (hle : p.x + p.owed + w ≤ width) : (p.put b (.word w)).Fits width b (w = 0) where
  owed := le_rfl
  le_x := by
    show b.indent ≤ p.x + p.owed + w
    rw [add_assoc]
    exact h.le_x.trans (le_add_of_nonneg_right (add_nonneg h.owed hw))
  x_le := hle
  lines := h.lines
  begun := by
    intro hbegun
    -- a word with a width begins the line
    have hx : p.x + p.owed + w ≤ b.indent := not_lt.mp fun hlt => hbegun (.inl hlt)
    have hsum : p.owed + w ≤ 0 := by
      rw [add_assoc] at hx
      exact nonpos_of_add_le_right (hx.trans h.le_x)
    exact decide_eq_true (le_antisymm ((le_add_of_nonneg_left h.owed).trans hsum) hw)

/-- One piece. -/
theorem Packing.Fits.pack {alone : Bool} {p : Packing α} (h : p.Fits width b alone) {piece : Piece α}
    {pieces : List (Piece α)} (hnonneg : piece.Nonneg) (hloose : piece.Loose) (hindent : b.indent ≤ width)
    (hstands : ∀ s ∈ stands b (piece :: pieces) p.owed alone, s ≤ width) :
    ∃ alone', (p.pack width b piece).Fits width b alone' ∧
      ∀ s ∈ stands b pieces (p.pack width b piece).owed alone', s ≤ width := by
  cases piece with
  | space w => exact ⟨alone, ⟨hnonneg, h.le_x, h.x_le, h.lines, h.begun⟩, hstands⟩
  | glued w => exact hloose.elim
  | newline => exact ⟨true, h.emit hindent, hstands⟩
  | word w =>
      rw [stands, List.forall_mem_cons] at hstands
      refine ⟨decide (w = 0), ?_, hstands.2⟩
      by_cases hbegun : p.Begun b
      · by_cases hover : width < p.x + p.owed + w
        · -- the word goes to the next line, where no space is before it
          rw [Packing.pack, wrap, if_pos ⟨hover, hbegun⟩]
          have hout : Packing.Fits width b true { p.emit b with breaks := p.breaks + 1 } :=
            ⟨le_rfl, le_rfl, hindent, (h.emit hindent).lines, fun _ => rfl⟩
          refine hout.put_word hnonneg ?_
          refine le_trans ?_ hstands.1
          show b.indent + 0 + w ≤ b.indent + (if alone then p.owed else 0) + w
          split_ifs
          · gcongr
            exact h.owed
          · exact le_rfl
        · rw [Packing.pack, wrap, if_neg fun hc => hover hc.1]
          exact h.put_word hnonneg (not_lt.mp hover)
      · -- the word begins the line, behind the space that is owed
        rw [Packing.pack, wrap, if_neg fun hc => hbegun hc.2]
        have hx : p.x = b.indent := le_antisymm (not_lt.mp fun hlt => hbegun (.inl hlt)) h.le_x
        have hstand := hstands.1
        rw [h.begun hbegun, if_pos rfl] at hstand
        exact h.put_word hnonneg (hx ▸ hstand)

/-- Every line fits when the words fit that begin one. -/
theorem packedLines_le {pieces : List (Piece α)} (hnonneg : ∀ piece ∈ pieces, piece.Nonneg)
    (hloose : ∀ piece ∈ pieces, piece.Loose) (hindent : b.indent ≤ width) {alone : Bool} {p : Packing α}
    (h : p.Fits width b alone) (hstands : ∀ s ∈ stands b pieces p.owed alone, s ≤ width) :
    ∀ l ∈ packedLines width b pieces p, l ≤ width := by
  induction pieces generalizing alone p with
  | nil => exact (h.emit hindent).lines
  | cons piece pieces ih =>
      rw [List.forall_mem_cons] at hnonneg hloose
      obtain ⟨alone', h', hstands'⟩ := h.pack hnonneg.1 hloose.1 hindent hstands
      exact ih hnonneg.2 hloose.2 h' hstands'

/-- A word ends behind where it would end at the beginning of a line. -/
theorem Packing.stand_le_pack {alone : Bool} {p : Packing α} {w : α} (howed : 0 ≤ p.owed) (hx : b.indent ≤ p.x)
    (halone : alone = true → ¬p.Begun b) :
    b.indent + (if alone then p.owed else 0) + w ≤ (p.pack width b (.word w)).x := by
  by_cases hover : width < p.x + p.owed + w ∧ p.Begun b
  · have hput : (p.pack width b (.word w)).x = b.indent + 0 + w := by
      rw [pack, wrap, if_pos hover]
      rfl
    rw [hput, if_neg fun h => halone h hover.2]
  · have hput : (p.pack width b (.word w)).x = p.x + p.owed + w := by
      rw [pack, wrap, if_neg hover]
      rfl
    rw [hput]
    gcongr
    split_ifs
    · exact le_rfl
    · exact howed

/-- When every line fits, and every word has a width, the words fit that begin one. -/
theorem stands_le {pieces : List (Piece α)} (hnonneg : ∀ piece ∈ pieces, piece.Nonneg)
    (hloose : ∀ piece ∈ pieces, piece.Loose) (hsolid : ∀ piece ∈ pieces, piece.Solid) {alone : Bool}
    {p : Packing α} (howed : 0 ≤ p.owed) (hx : b.indent ≤ p.x) (halone : alone = true → ¬p.Begun b)
    (hlines : ∀ l ∈ packedLines width b pieces p, l ≤ width) :
    ∀ s ∈ stands b pieces p.owed alone, s ≤ width := by
  induction pieces generalizing alone p with
  | nil => exact fun s hs => absurd hs List.not_mem_nil
  | cons piece pieces ih =>
      rw [List.forall_mem_cons] at hnonneg hloose hsolid
      have ih := @ih hnonneg.2 hloose.2 hsolid.2
      cases piece with
      | space w => exact @ih alone { p with owed := w } hnonneg.1 hx halone hlines
      | glued w => exact hloose.1.elim
      | newline =>
          refine @ih true (p.emit b) le_rfl le_rfl (fun _ hbegun => ?_) hlines
          exact hbegun.elim (lt_irrefl b.indent) (Nat.not_lt_zero b.least)
      | word w =>
          have hpack := Packing.onward_pack width b howed hnonneg.1
          obtain ⟨l, hl, hle⟩ := (onward_foldl_pack width b hnonneg.2 hpack.owed).exists_line (b := b) (Nat.succ_pos _)
          have hword : (p.pack width b (.word w)).x ≤ width := hle.trans (hlines l hl)
          refine List.forall_mem_cons.mpr ⟨(Packing.stand_le_pack howed hx halone).trans hword, ?_⟩
          -- a word with a width begins the line
          have hlt : b.indent < (p.pack width b (.word w)).x := by
            refine lt_of_lt_of_le (lt_add_of_pos_right b.indent hsolid.1) ?_
            refine le_trans ?_ (Packing.stand_le_pack howed hx halone)
            gcongr
            refine le_add_of_nonneg_right ?_
            split_ifs
            · exact howed
            · exact le_rfl
          refine @ih (decide (w = 0)) (p.pack width b (.word w)) hpack.owed hlt.le (fun hzero => ?_) hlines
          exact absurd (of_decide_eq_true hzero) (ne_of_gt hsolid.1)

end

end Paragraph
