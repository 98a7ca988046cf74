import UnicornSuite.WebPacking

/-! The widths of the contents of a cell against their layout. A block is laid out beside its indent and
its bullet, and never narrower than 60 pixels; the two estimators count the widest piece and the widest line
without any of these. What a cell holds at least (`HasUnit`, `HasLine`) says when its widths are enough
(`contentWidths_suffice_iff`). -/

namespace UnicornSuite.WebLayout

open CText Web Paragraph

section

variable (m : Metrics)

/-! ### What a cell holds -/

/-- The widths of what is not broken in a block. -/
def Block.units : Block → List Int
  | .flow type _ _ bulletText runs => flowUnits m type bulletText runs
  | .hr _ _ => []
  | .img _ _ image => [image.blockW]
  | .table _ _ t => [tableIntrinsicWidth m t true]

/-- The widths of the lines of a block; a BLK_HR counts as an empty one. -/
def Block.lines : Block → List Int
  | .flow type _ _ bulletText runs => flowSums m type bulletText runs
  | .hr _ _ => [0]
  | .img _ _ image => [image.blockW]
  | .table _ _ t => [tableIntrinsicWidth m t false]

/-- Something in the cell that is not broken is `w` wide, if `w` is more than a cell has in any case. -/
def HasUnit (blks : List Block) (w : Int) : Prop := w ≤ 8 ∨ ∃ b ∈ blks, ∃ u ∈ b.units m, w ≤ u

/-- Some line in the cell is `w` wide, if `w` is more than a cell has in any case. -/
def HasLine (blks : List Block) (w : Int) : Prop := w ≤ 20 ∨ ∃ b ∈ blks, ∃ l ∈ b.lines m, w ≤ l

instance (blks : List Block) (w : Int) : Decidable (HasUnit m blks w) := by
  unfold HasUnit
  infer_instance

instance (blks : List Block) (w : Int) : Decidable (HasLine m blks w) := by
  unfold HasLine
  infer_instance

theorem le_minBlocks_iff (blks : List Block) {w maxW : Int} :
    w ≤ minBlocks m blks maxW ↔ w ≤ maxW ∨ ∃ b ∈ blks, ∃ u ∈ b.units m, w ≤ u := by
  induction blks generalizing maxW with
  | nil => simp [minBlocks]
  | cons b blks ih =>
      simp only [List.mem_cons, exists_eq_or_imp]
      rw [← or_assoc]
      cases b with
      | flow type indent align bulletText runs => rw [minBlocks, ih, le_minFlow_iff, Block.units]
      | hr indent align => simp [minBlocks, ih, Block.units]
      | img indent align image => simp [minBlocks, ih, Block.units, le_widest_iff]
      | table indent align t =>
          obtain ⟨rows, border, bgcolor, widthPx, widthPct, cellpadding, cellspacing⟩ := t
          rw [minBlocks, ih, le_widest_iff, Block.units]
          simp only [List.mem_singleton, exists_eq_left]
          rfl

theorem le_natBlocks_iff (blks : List Block) {w maxW : Int} :
    w ≤ natBlocks m blks maxW ↔ w ≤ maxW ∨ ∃ b ∈ blks, ∃ l ∈ b.lines m, w ≤ l := by
  induction blks generalizing maxW with
  | nil => simp [natBlocks]
  | cons b blks ih =>
      simp only [List.mem_cons, exists_eq_or_imp]
      rw [← or_assoc]
      cases b with
      | flow type indent align bulletText runs => rw [natBlocks, ih, le_natFlow_iff, Block.lines]
      | hr indent align => simp [natBlocks, ih, Block.lines, le_widest_iff]
      | img indent align image => simp [natBlocks, ih, Block.lines, le_widest_iff]
      | table indent align t =>
          obtain ⟨rows, border, bgcolor, widthPx, widthPct, cellpadding, cellspacing⟩ := t
          rw [natBlocks, ih, le_widest_iff, Block.lines]
          simp only [List.mem_singleton, exists_eq_left]
          rfl

theorem le_atLeast_iff {least w d : Int} : d ≤ atLeast least w ↔ d ≤ least ∨ d ≤ w := by
  rw [atLeast]
  split_ifs <;> omega

theorem le_blocksMinWidth_iff (blks : List Block) {w : Int} : w ≤ blocksMinWidth m blks ↔ HasUnit m blks w := by
  rw [blocksMinWidth, le_atLeast_iff, le_minBlocks_iff, ← or_assoc, HasUnit]
  exact or_congr_left ⟨fun h => by omega, .inl⟩

theorem le_blocksNaturalWidth_iff (blks : List Block) {w : Int} :
    w ≤ blocksNaturalWidth m blks ↔ HasLine m blks w := by
  rw [blocksNaturalWidth, le_atLeast_iff, le_natBlocks_iff, ← or_assoc, HasLine]
  exact or_congr_left ⟨fun h => by omega, .inl⟩

end

/-! ### The width of a block -/

section

variable {indent W : Int}

/-- A block is as wide as its cell without its indent, or 60 pixels. -/
theorem le_innerWidth_iff {d : Int} : d ≤ innerWidth indent W ↔ d ≤ 60 ∨ d + indent * indentPx ≤ W := by
  unfold innerWidth
  dsimp only
  split_ifs <;> omega

theorem startX_add (align : HAlign) (x0 d width w : Int) :
    startX align (x0 + d) width w = startX align x0 width w + d := by
  unfold startX
  cases align <;> dsimp only <;> split_ifs <;> omega

/-- Something of width `w` ends in the cell: in the block, if the cell has 60 pixels for it, or else where it
stands in 60 pixels. `room` says what the cell is wide. -/
def Held (room : Int → Prop) (align : HAlign) (indent w : Int) : Prop :=
  (room (60 + indent * indentPx) ∧ room (w + indent * indentPx)) ∨
    room (startX align 0 60 w + w + indent * indentPx)

theorem held_iff (align : HAlign) (x0 w : Int) : Held (· ≤ W) align indent w ↔
    startX align (x0 + indent * indentPx) (innerWidth indent W) w + w ≤ x0 + W := by
  have hstart := startX_add align 0 (x0 + indent * indentPx) (innerWidth indent W) w
  rw [Int.zero_add] at hstart
  rw [hstart, Held]
  by_cases hroom : 60 + indent * indentPx ≤ W
  · have hwidth : innerWidth indent W = W - indent * indentPx := if_neg (by omega)
    have hle := le_startX align 0 60 w
    have hle' := le_startX align 0 (W - indent * indentPx) w
    rw [hwidth]
    constructor
    · intro h
      have hfits := @startX_add_le align 0 (W - indent * indentPx) w (by omega)
      omega
    · exact fun h => .inl ⟨hroom, by omega⟩
  · have hwidth : innerWidth indent W = 60 := if_pos (by omega)
    rw [hwidth]
    exact ⟨fun h => by omega, fun h => .inr (by omega)⟩

end

/-! ### What is painted of a cell -/

section

variable (m : Metrics)

/-- The text of an image that is not decoded. -/
def Image.placeholderW (i : Image) : Int := m.wordW ⟨.para, italic, 0⟩ i.placeholder

/-- A block at `x0` ends by the right edge of a cell that is `W` wide. -/
def Block.EndsIn (align : HAlign) (x0 W : Int) : Block → Prop
  | .flow type indent _ bulletText runs =>
      ∀ w ∈ blockLines m type bulletText runs (innerWidth indent W),
        startX align (x0 + indent * indentPx) (innerWidth indent W) w + w ≤ x0 + W
  | .hr _ _ => True
  | .img indent _ i =>
      if i.hbm then
        startX align (x0 + indent * indentPx) (innerWidth indent W) (i.size (innerWidth indent W)).1 +
          (i.size (innerWidth indent W)).1 ≤ x0 + W
      else x0 + indent * indentPx + i.placeholderW m ≤ x0 + W
  | .table _ _ _ => True

theorem View.endsBy_isPre {right : Int} {v : View} (isPre : Bool) :
    { v with curIsPre := isPre }.EndsBy right ↔ v.EndsBy right :=
  ⟨fun h => ⟨h.selMap, h.drawn⟩, fun h => ⟨h.selMap, h.drawn⟩⟩

theorem renderTextBlock_endsBy (v : View) (type : BlockType) (align : HAlign) (bulletText : Option CString)
    (runs : List Run) (x0 y width right : Int) :
    (renderTextBlock m v type align bulletText runs x0 y width false).1.EndsBy right ↔
      v.EndsBy right ∧ ∀ w ∈ blockLines m type bulletText runs width, startX align x0 width w + w ≤ right := by
  rw [renderTextBlock]
  split_ifs with hempty
  · obtain ⟨rfl, rfl⟩ := hempty
    exact (and_iff_left fun w hw => absurd hw List.not_mem_nil).symm
  · exact textLines_endsBy m type bulletText runs x0 y width align v right

theorem renderImage_endsBy (v : View) (i : Image) (align : HAlign) (x0 y width right : Int) :
    (renderImage m v i align x0 y width false).1.EndsBy right ↔
      v.EndsBy right ∧
        if i.hbm then startX align x0 width (i.size width).1 + (i.size width).1 ≤ right
        else x0 + i.placeholderW m ≤ right := by
  unfold renderImage
  simp only [Bool.false_eq_true, if_false]
  split_ifs
  · rw [View.endsBy_addLinkRect, View.endsBy_draw]
    exact Iff.rfl
  · rw [View.endsBy_addLinkRect, View.endsBy_draw]
    exact Iff.rfl

theorem renderBlockInto_endsBy (align : HAlign) {b : Block} (hb : b.kind ≠ .table) (x0 y W : Int) (v : View) :
    (renderBlockInto m align b x0 y W false v).1.EndsBy (x0 + W) ↔
      v.EndsBy (x0 + W) ∧ b.EndsIn m align x0 W := by
  cases b with
  | flow type indent align' bulletText runs =>
      rw [renderBlockInto, inMargins]
      dsimp only
      rw [View.endsBy_isPre, renderTextBlock_endsBy, View.endsBy_isPre]
      rfl
  | hr indent align' =>
      rw [renderBlockInto, inMargins]
      simp only [Bool.false_eq_true, if_false]
      rw [View.endsBy_isPre, View.endsBy_draw, View.endsBy_isPre]
      rfl
  | img indent align' i =>
      rw [renderBlockInto, inMargins]
      dsimp only
      rw [View.endsBy_isPre, renderImage_endsBy, View.endsBy_isPre]
      rfl
  | table indent align' t => exact absurd rfl hb

theorem paintCell_endsBy (cellAlign : HAlign) {blks : List Block} (hblks : ∀ b ∈ blks, b.kind ≠ .table)
    (x0 y W : Int) (v : View) :
    (paintCell m cellAlign blks x0 y W v).1.EndsBy (x0 + W) ↔
      v.EndsBy (x0 + W) ∧ ∀ b ∈ blks, b.EndsIn m (lentAlign cellAlign b.align) x0 W := by
  induction blks generalizing y v with
  | nil =>
      rw [paintCell]
      exact (and_iff_left fun b hb => absurd hb List.not_mem_nil).symm
  | cons b blks ih =>
      rw [List.forall_mem_cons] at hblks
      rw [paintCell, ih hblks.2, renderBlockInto_endsBy m _ hblks.1, and_assoc, List.forall_mem_cons]

/-! ### What fits -/

/-- The block suits a cell: its lines end in the cell as they are; or there is room for its indent, for its
bullet and for each word that begins a line behind the bullet. -/
def Block.Suits (room : Int → Prop) (align : HAlign) : Block → Prop
  | .flow type indent _ bulletText runs =>
      (∀ w ∈ wholeLines (textMargin m type bulletText) (blockPieces m type runs) (blockStart m type bulletText),
        Held room align indent w) ∨
      (type ≠ .pre ∧ room (60 + indent * indentPx) ∧ room (bulletW m type bulletText + indent * indentPx) ∧
        ∀ w ∈ stands (textMargin m type bulletText) (blockPieces m type runs) 0 true,
          room (w + indent * indentPx))
  | .hr _ _ => True
  | .img indent _ i =>
      if i.hbm then
        room (60 + indent * indentPx) ∨
          room (startX align 0 60 (i.size 60).1 + (i.size 60).1 + indent * indentPx)
      else room (i.placeholderW m + indent * indentPx)
  | .table _ _ _ => True

instance (room : Int → Prop) [DecidablePred room] (align : HAlign) (indent w : Int) :
    Decidable (Held room align indent w) := by
  unfold Held
  infer_instance

instance (room : Int → Prop) [DecidablePred room] (align : HAlign) (b : Block) :
    Decidable (b.Suits m room align) := by
  cases b <;> unfold Block.Suits <;> infer_instance

/-- The words of a text block that are not the first of a line end in the room. -/
def Block.Unbroken (room : Int → Prop) : Block → Prop
  | .flow type indent _ bulletText runs =>
      ∀ e ∈ wordEnds (textMargin m type bulletText) (blockPieces m type runs) (blockStart m type bulletText),
        e ≤ 60 ∨ room (e + indent * indentPx)
  | _ => True

instance (room : Int → Prop) [DecidablePred room] (b : Block) : Decidable (b.Unbroken m room) := by
  cases b <;> unfold Block.Unbroken <;> infer_instance

/-- No line is broken; or the block has its own width, is not a BLK_PRE, and every word is wider than
nothing. -/
def Block.Regular (room : Int → Prop) (b : Block) : Prop :=
  b.Unbroken m room ∨
    match b with
    | .flow type indent _ _ runs =>
        type ≠ .pre ∧ room (60 + indent * indentPx) ∧ ∀ piece ∈ blockPieces m type runs, piece.Solid
    | _ => True

/-! ### The pieces of a run -/

theorem flowPieces_nonneg (f : Font) (rounds : Nat) (s : CString) :
    ∀ piece ∈ flowPieces m f rounds s, piece.Nonneg ∧ piece.Loose := by
  induction rounds generalizing s with
  | zero => exact fun piece h => absurd h List.not_mem_nil
  | succ rounds ih =>
      rw [flowPieces, List.forall_mem_append]
      constructor
      · intro piece hpiece
        rw [List.eq_of_mem_replicate hpiece]
        exact ⟨Int.natCast_nonneg _, trivial⟩
      · cases (skipSpaces s).2 with
        | nil => exact fun piece h => absurd h List.not_mem_nil
        | cons c rest =>
            dsimp only
            split_ifs
            · exact List.forall_mem_cons.mpr ⟨⟨trivial, trivial⟩, ih rest⟩
            · exact List.forall_mem_cons.mpr ⟨⟨m.wordW_nonneg f _, trivial⟩, ih _⟩

theorem prePieces_nonneg (f : Font) (rounds : Nat) (s : CString) :
    ∀ piece ∈ prePieces m f rounds s, piece.Nonneg := by
  induction rounds generalizing s with
  | zero => exact fun piece h => absurd h List.not_mem_nil
  | succ rounds ih =>
      rw [prePieces, List.forall_mem_append]
      constructor
      · split_ifs
        · exact List.forall_mem_singleton.mpr (m.wordW_nonneg f _)
        · exact fun piece h => absurd h List.not_mem_nil
      · cases s.dropWhile (· ≠ newline) with
        | nil => exact fun piece h => absurd h List.not_mem_nil
        | cons c rest => exact List.forall_mem_cons.mpr ⟨trivial, ih rest⟩

/-- No piece has a negative width, and but for a BLK_PRE nothing is glued. -/
theorem blockPieces_nonneg (type : BlockType) (runs : List Run) :
    ∀ piece ∈ blockPieces m type runs, piece.Nonneg ∧ (type ≠ .pre → piece.Loose) := by
  intro piece hpiece
  rw [blockPieces, List.mem_flatMap] at hpiece
  obtain ⟨r, -, hpiece⟩ := hpiece
  rw [runPieces] at hpiece
  cases himg : r.imgBlk with
  | some i =>
      rw [himg, List.mem_singleton] at hpiece
      rw [hpiece]
      exact ⟨i.inlineW_pos.le, fun _ => trivial⟩
  | none =>
      simp only [himg] at hpiece
      split_ifs at hpiece with htype
      · exact ⟨prePieces_nonneg m _ _ _ piece hpiece, fun hne => absurd htype hne⟩
      · exact ⟨(flowPieces_nonneg m _ _ _ piece hpiece).1, fun _ => (flowPieces_nonneg m _ _ _ piece hpiece).2⟩

/-! ### Enough width -/

variable {W : Int}

theorem Image.size_le (i : Image) (width : Int) : (i.size width).1 ≤ width := by
  unfold size
  dsimp only
  split_ifs <;> dsimp only <;> omega

/-- A decoded image ends in a block that has its own width, or where it stands in 60 pixels. -/
theorem Image.endsIn_iff (i : Image) (align : HAlign) (indent x0 : Int) :
    60 + indent * indentPx ≤ W ∨ startX align 0 60 (i.size 60).1 + (i.size 60).1 + indent * indentPx ≤ W ↔
      startX align (x0 + indent * indentPx) (innerWidth indent W) (i.size (innerWidth indent W)).1 +
        (i.size (innerWidth indent W)).1 ≤ x0 + W := by
  by_cases hroom : 60 + indent * indentPx ≤ W
  · have hwidth : innerWidth indent W = W - indent * indentPx := if_neg (by omega)
    have hend := @startX_add_le align (x0 + indent * indentPx) _ _ (i.size_le (W - indent * indentPx))
    rw [hwidth]
    exact ⟨fun _ => by omega, fun _ => .inl hroom⟩
  · have hwidth : innerWidth indent W = 60 := if_pos (by omega)
    have hstart := startX_add align 0 (x0 + indent * indentPx) 60 (i.size 60).1
    rw [Int.zero_add] at hstart
    rw [hwidth, hstart]
    exact ⟨fun h => by omega, fun h => .inr (by omega)⟩

/-- Words that begin a line end in a block that has its own width. -/
theorem blockLines_le {type : BlockType} (htype : type ≠ .pre) {bulletText : Option CString} {runs : List Run}
    {width : Int} (hbullet : bulletW m type bulletText ≤ width)
    (hstands : ∀ w ∈ stands (textMargin m type bulletText) (blockPieces m type runs) 0 true, w ≤ width) :
    ∀ w ∈ blockLines m type bulletText runs width, w ≤ width := by
  have hpieces := blockPieces_nonneg m type runs
  exact packedLines_le (fun piece hp => (hpieces piece hp).1) (fun piece hp => (hpieces piece hp).2 htype) hbullet
    (Packing.start_fits hbullet) hstands

/-- What suits a cell ends in it. -/
theorem Block.endsIn_of_suits {b : Block} {align : HAlign} (h : b.Suits m (· ≤ W) align) (x0 : Int) :
    b.EndsIn m align x0 W := by
  cases b with
  | flow type indent align' bulletText runs =>
      intro w hw
      obtain hwhole | ⟨htype, hroom, hbullet, hstands⟩ := h
      · -- the lines are not broken
        have hpieces := blockPieces_nonneg m type runs
        have hends := @wordEnds_le Int _ _ (innerWidth indent W) (textMargin m type bulletText) _
          (blockPieces m type runs) (fun piece hp => (hpieces piece hp).1) (blockStart m type bulletText) le_rfl
          fun l hl => by
            have hend := (held_iff align 0 l).mp (hwhole l hl)
            have hstart := le_startX align (0 + indent * indentPx) (innerWidth indent W) l
            rw [le_innerWidth_iff]
            omega
        rw [blockLines, packedLines_eq_wholeLines hends] at hw
        exact (held_iff align x0 w).mp (hwhole w hw)
      · have hwidth : innerWidth indent W = W - indent * indentPx := if_neg (by omega)
        rw [hwidth] at hw ⊢
        have hle := @blockLines_le m type htype bulletText runs (W - indent * indentPx) (by omega)
          (fun w hw => by have hstand := hstands w hw; omega) w hw
        have hend := @startX_add_le align (x0 + indent * indentPx) (W - indent * indentPx) w hle
        omega
  | hr indent align' => exact trivial
  | img indent align' i =>
      rw [Suits] at h
      rw [EndsIn]
      split_ifs at h ⊢ with hbm
      · exact (i.endsIn_iff align indent x0).mp h
      · omega
  | table indent align' t => exact trivial

/-- A bullet stands on some line. -/
theorem bulletW_le {type : BlockType} {bulletText : Option CString} {runs : List Run} {width : Int}
    (hwidth : 0 ≤ width) (hlines : ∀ w ∈ blockLines m type bulletText runs width, w ≤ width) :
    bulletW m type bulletText ≤ width := by
  cases bulletText with
  | none => exact hwidth
  | some s =>
      have hpieces := blockPieces_nonneg m type runs
      have hon := onward_foldl_pack width (textMargin m type (some s)) (fun piece hp => (hpieces piece hp).1)
        (p := blockStart m type (some s)) le_rfl
      obtain ⟨l, hl, hle⟩ := hon.exists_line (b := textMargin m type (some s)) Nat.one_pos
      exact hle.trans (hlines l hl)

/-- What ends in a cell suits it, if no line is broken or the block has its own width. -/
theorem Block.suits_of_endsIn {b : Block} {align : HAlign} (hreg : b.Regular m (· ≤ W)) {x0 : Int}
    (h : b.EndsIn m align x0 W) : b.Suits m (· ≤ W) align := by
  cases b with
  | flow type indent align' bulletText runs =>
      have hpieces := blockPieces_nonneg m type runs
      obtain hends | ⟨htype, hroom, hsolid⟩ := hreg
      · refine .inl fun w hw => (held_iff align x0 w).mpr (h w ?_)
        have hends' : ∀ e ∈ wordEnds (textMargin m type bulletText) (blockPieces m type runs)
            (blockStart m type bulletText), e ≤ innerWidth indent W :=
          fun e he => le_innerWidth_iff.mpr (hends e he)
        rwa [blockLines, packedLines_eq_wholeLines hends']
      · have hwidth : innerWidth indent W = W - indent * indentPx := if_neg (by omega)
        have hlines : ∀ w ∈ blockLines m type bulletText runs (W - indent * indentPx),
            w ≤ W - indent * indentPx := by
          intro w hw
          have hend := h w (hwidth.symm ▸ hw)
          have hstart := le_startX align (x0 + indent * indentPx) (innerWidth indent W) w
          omega
        have hbullet := bulletW_le m (by omega) hlines
        have hstands := @stands_le Int _ _ _ (W - indent * indentPx) (textMargin m type bulletText) _
          (fun piece hp => (hpieces piece hp).1) (fun piece hp => (hpieces piece hp).2 htype) hsolid true
          (blockStart m type bulletText) le_rfl le_rfl (fun _ => Packing.start_not_begun) hlines
        refine .inr ⟨htype, hroom, by omega, fun w hw => ?_⟩
        have hstand := hstands w hw
        omega
  | hr indent align' => exact trivial
  | img indent align' i =>
      rw [EndsIn] at h
      rw [Suits]
      split_ifs at h ⊢ with hbm
      · exact (i.endsIn_iff align indent x0).mpr h
      · omega
  | table indent align' t => exact trivial

/-! ### Lines that are not broken -/

/-- In a cell `W` wide the block breaks no line but at a newline. -/
def Block.KeepsLines (W : Int) : Block → Prop
  | .flow type indent _ bulletText runs =>
      ∀ (v : View) (x0 y : Int) (align : HAlign) (measureOnly : Bool),
        (textLines m v type bulletText runs
          ⟨x0, innerWidth indent W, align, bulletText.isSome, measureOnly⟩ y).wraps = 0
  | _ => True

theorem Block.keepsLines_iff (b : Block) : b.KeepsLines m W ↔ b.Unbroken m (· ≤ W) := by
  cases b with
  | flow type indent align bulletText runs =>
      have hbreaks := breaks_pack_eq_iff (innerWidth indent W) (textMargin m type bulletText)
        (blockPieces m type runs) (blockStart m type bulletText)
      have hends : (∀ e ∈ wordEnds (textMargin m type bulletText) (blockPieces m type runs)
          (blockStart m type bulletText), e ≤ innerWidth indent W) ↔
            (Block.flow type indent align bulletText runs).Unbroken m (· ≤ W) :=
        forall₂_congr fun e he => le_innerWidth_iff
      rw [← hends, ← hbreaks, KeepsLines]
      constructor
      · intro h
        have hline := h {} 0 0 align true
        rwa [textLines_wraps] at hline
      · intro h v x0 y align measureOnly
        rw [textLines_wraps]
        exact h
  | hr indent align => exact Iff.rfl
  | img indent align i => exact Iff.rfl
  | table indent align t => exact Iff.rfl

/-! ### The widths of a cell -/

/-- Painted at its minimum width, a cell puts nothing behind its right edge. -/
def MinWidthSuffices (cellAlign : HAlign) (blks : List Block) : Prop :=
  ∀ (x0 y : Int) (v : View), v.EndsBy (x0 + blocksMinWidth m blks) →
    (paintCell m cellAlign blks x0 y (blocksMinWidth m blks) v).1.EndsBy (x0 + blocksMinWidth m blks)

/-- At its natural width, a cell breaks no line but at a newline. -/
def NaturalWidthSuffices (blks : List Block) : Prop :=
  ∀ b ∈ blks, b.KeepsLines m (blocksNaturalWidth m blks)

/-- The two widths of a cell are enough when something in it is wide enough for each block with its indent and
its bullet; lines are not broken only then, and if no line is broken or every block has its own width, nothing
is behind the edge only then. -/
theorem contentWidths_suffice_iff (cellAlign : HAlign) {blks : List Block}
    (hcell : ∀ b ∈ blks, b.kind ≠ .table) :
    ((∀ b ∈ blks, b.Suits m (HasUnit m blks) (lentAlign cellAlign b.align) ∧ b.Unbroken m (HasLine m blks)) →
      MinWidthSuffices m cellAlign blks ∧ NaturalWidthSuffices m blks) ∧
    (NaturalWidthSuffices m blks → ∀ b ∈ blks, b.Unbroken m (HasLine m blks)) ∧
    ((∀ b ∈ blks, b.Regular m (HasUnit m blks)) → MinWidthSuffices m cellAlign blks →
      ∀ b ∈ blks, b.Suits m (HasUnit m blks) (lentAlign cellAlign b.align)) := by
  have hunit : HasUnit m blks = (· ≤ blocksMinWidth m blks) :=
    funext fun w => propext (le_blocksMinWidth_iff m blks).symm
  have hline : HasLine m blks = (· ≤ blocksNaturalWidth m blks) :=
    funext fun w => propext (le_blocksNaturalWidth_iff m blks).symm
  rw [hunit, hline]
  refine ⟨fun h => ⟨fun x0 y v hv => ?_, fun b hb => (b.keepsLines_iff m).mpr (h b hb).2⟩,
    fun h b hb => (b.keepsLines_iff m).mp (h b hb), fun hreg h b hb => ?_⟩
  · exact (paintCell_endsBy m cellAlign hcell x0 y _ v).mpr
      ⟨hv, fun b hb => Block.endsIn_of_suits m (h b hb).1 x0⟩
  · have hpaint := h 0 0 {} ⟨fun t ht => absurd ht List.not_mem_nil, fun d hd => absurd hd List.not_mem_nil⟩
    exact Block.suits_of_endsIn m (hreg b hb) (((paintCell_endsBy m cellAlign hcell 0 0 _ {}).mp hpaint).2 b hb)

end

/-- A list item, with its bullet. -/
def listItem (text : CString) : Block := .flow .li 0 .left (some [0xE2, 0x80, 0xA2, 0x20]) [plainRun text]

/-- The word of a paragraph is wide enough for an item that has its bullet beside it. -/
theorem contentWidths_suffice_item :
    MinWidthSuffices fixedWidth .left [.flow .para 0 .left none [plainRun (ascii "encyclopedia")], listItem (ascii "entry")] ∧
      NaturalWidthSuffices fixedWidth
        [.flow .para 0 .left none [plainRun (ascii "encyclopedia")], listItem (ascii "entry")] :=
  (contentWidths_suffice_iff fixedWidth .left (by decide)).1 (by decide)

/-- An item alone is as wide as its word, without the bullet. -/
theorem item_clipped : ¬ MinWidthSuffices fixedWidth .left [listItem (ascii "encyclopedia")] := by
  intro h
  have hpaint := h 0 0 {} ⟨fun t ht => absurd ht List.not_mem_nil, fun d hd => absurd hd List.not_mem_nil⟩
  have hmap := hpaint.selMap
  revert hmap
  decide +kernel

end UnicornSuite.WebLayout
