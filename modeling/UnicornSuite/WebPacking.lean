import UnicornSuite.WebPieces

/-! The lines of a text block are the packing of its pieces, and nothing that is painted of it ends behind a
given edge exactly when no line of the packing does (`textLines_wraps`, `textLines_endsBy`). -/

namespace UnicornSuite.WebLayout

open CText Web Paragraph

/-! ### The right edge -/

/-- Texts and images end at `right`, or before that. -/
def Drawing.EndsBy (right : Int) : Drawing → Prop
  | .text x _ w _ _ _ => x + w ≤ right
  | .image x _ w _ => x + w ≤ right
  | .line _ _ _ _ _ => True
  | .fill _ _ _ _ _ => True

/-- No token, text or image ends behind `right`. -/
structure View.EndsBy (right : Int) (v : View) : Prop where
  selMap : ∀ t ∈ v.selMap, t.x + t.w ≤ right
  drawn : ∀ d ∈ v.drawn, d.EndsBy right

section

variable {right : Int} {v : View}

theorem View.endsBy_draw (d : Drawing) : (v.draw d).EndsBy right ↔ v.EndsBy right ∧ d.EndsBy right := by
  constructor
  · intro h
    have hdrawn := List.forall_mem_append.mp h.drawn
    exact ⟨⟨h.selMap, hdrawn.1⟩, hdrawn.2 d (List.mem_singleton_self d)⟩
  · rintro ⟨h, hd⟩
    exact ⟨h.selMap, List.forall_mem_append.mpr ⟨h.drawn, List.forall_mem_singleton.mpr hd⟩⟩

theorem View.endsBy_addLinkRect (x y w h : Int) (href : Option CString) :
    (addLinkRect v x y w h href).EndsBy right ↔ v.EndsBy right := by
  cases href with
  | none => exact Iff.rfl
  | some href => exact ⟨fun hv => ⟨hv.selMap, hv.drawn⟩, fun hv => ⟨hv.selMap, hv.drawn⟩⟩

/-- A token draws itself, or nothing. -/
theorem View.endsBy_drawTok (v : View) (right x curY lineMaxH : Int) (t : LineTok) :
    ((drawTok x curY lineMaxH v t).EndsBy right → v.EndsBy right) ∧
      (x + t.xOff + t.w ≤ right → v.EndsBy right → (drawTok x curY lineMaxH v t).EndsBy right) := by
  rw [drawTok, endsBy_addLinkRect]
  cases t.image with
  | some hbm =>
      dsimp only
      split_ifs
      · rw [endsBy_draw]
        exact ⟨fun h => h.1, fun ht hv => ⟨hv, ht⟩⟩
      · exact ⟨id, fun _ => id⟩
  | none =>
      cases t.f with
      | some f =>
          dsimp only
          rw [endsBy_draw]
          exact ⟨fun h => h.1, fun ht hv => ⟨hv, ht⟩⟩
      | none => exact ⟨id, fun _ => id⟩

theorem View.endsBy_drawToks (v : View) (right x curY lineMaxH : Int) (toks : List LineTok) :
    ((toks.foldl (drawTok x curY lineMaxH) v).EndsBy right → v.EndsBy right) ∧
      ((∀ t ∈ toks, x + t.xOff + t.w ≤ right) → v.EndsBy right →
        (toks.foldl (drawTok x curY lineMaxH) v).EndsBy right) := by
  induction toks generalizing v with
  | nil => exact ⟨id, fun _ => id⟩
  | cons t toks ih =>
      have htok := v.endsBy_drawTok right x curY lineMaxH t
      refine ⟨fun h => htok.1 ((ih _).1 h), fun hends hv => ?_⟩
      rw [List.forall_mem_cons] at hends
      exact (ih _).2 hends.2 (htok.2 hends.1 hv)

theorem View.endsBy_drawSpans (v : View) (right x curY lineMaxH : Int) (spans : List (LineTok × LineTok)) :
    (spans.foldl (drawSpan x curY lineMaxH) v).EndsBy right ↔ v.EndsBy right := by
  induction spans generalizing v with
  | nil => exact Iff.rfl
  | cons span spans ih =>
      rw [List.foldl_cons, ih, drawSpan, endsBy_draw]
      exact and_iff_left trivial

/-- A line ends by the edge exactly when its tokens do. -/
theorem emitLine_endsBy (toks : List LineTok) (x0 width curY lineMaxH : Int) (align : HAlign) :
    (emitLine v toks x0 width curY lineMaxH align false).1.EndsBy right ↔
      v.EndsBy right ∧ ∀ t ∈ toks, startX align x0 width (lineWidth toks) + t.xOff + t.w ≤ right := by
  have htoks := v.endsBy_drawToks right (startX align x0 width (lineWidth toks)) curY lineMaxH toks
  have hspans (v : View) :=
    v.endsBy_drawSpans right (startX align x0 width (lineWidth toks)) curY lineMaxH (linkSpans none toks)
  unfold emitLine
  simp only [Bool.false_eq_true, if_false]
  constructor
  · intro h
    have hmap := List.forall_mem_append.mp h.selMap
    exact ⟨htoks.1 ((hspans _).mp ⟨hmap.1, h.drawn⟩), fun t ht => hmap.2 _ (List.mem_map_of_mem ht)⟩
  · rintro ⟨hv, hends⟩
    have h := (hspans _).mpr (htoks.2 hends hv)
    exact ⟨List.forall_mem_append.mpr ⟨h.selMap, List.forall_mem_map.mpr hends⟩, h.drawn⟩

end

/-! ### The width of a line -/

theorem lineWidth_append (toks : List LineTok) (t : LineTok) : lineWidth (toks ++ [t]) =
    if t.xOff + t.w > lineWidth toks then t.xOff + t.w else lineWidth toks := by
  rw [lineWidth, lineWidth, List.foldl_append]
  rfl

/-- What a line that ends at `x` is wide. -/
structure ToksEnd (toks : List LineTok) (x : Int) : Prop where
  le : ∀ t ∈ toks, t.xOff + t.w ≤ x
  width_le : lineWidth toks ≤ x
  last : toks ≠ [] → lineWidth toks = x ∧ ∃ t ∈ toks, t.xOff + t.w = x

theorem ToksEnd.nil {x : Int} (hx : 0 ≤ x) : ToksEnd [] x :=
  ⟨fun _ h => absurd h List.not_mem_nil, hx, fun h => absurd rfl h⟩

theorem ToksEnd.push {toks : List LineTok} {x gap : Int} (h : ToksEnd toks x) (t : LineTok) (hgap : 0 ≤ gap)
    (ht : 0 ≤ t.w) : ToksEnd (toks ++ [{ t with xOff := x + gap }]) (x + gap + t.w) := by
  have hwidth : lineWidth (toks ++ [{ t with xOff := x + gap }]) = x + gap + t.w := by
    have hle := h.width_le
    rw [lineWidth_append]
    dsimp only
    split_ifs <;> omega
  refine ⟨List.forall_mem_append.mpr ⟨fun t' ht' => ?_, List.forall_mem_singleton.mpr le_rfl⟩, hwidth.le,
    fun _ => ⟨hwidth, _, List.mem_append_right _ (List.mem_singleton_self _), rfl⟩⟩
  have hle := h.le t' ht'
  omega

/-! ### Lines and their packing -/

def Box.margin (bx : Box) (bulletIndent : Int) : Margin Int := ⟨bulletIndent, if bx.bulleted then 1 else 0⟩

/-- Where a line of width `w` ends. -/
def Box.lineEnd (bx : Box) (w : Int) : Int := startX bx.align bx.x0 bx.width w + w

/-- The line is where the packing is, and the view holds what its lines hold, besides `v`. -/
structure Line.Packed (bx : Box) (indent right : Int) (v : View) (l : Line) (p : Packing Int) : Prop where
  xOff : l.xOff = p.x
  pendingSpace : l.pendingSpace = p.owed
  count : l.toks.length = p.count
  wraps : l.wraps = p.breaks
  bulletIndent : l.bulletIndent = indent
  indent_nonneg : 0 ≤ indent
  owed_nonneg : 0 ≤ p.owed
  ends : ToksEnd l.toks l.xOff
  view : bx.measureOnly = false →
    (l.view.EndsBy right ↔ v.EndsBy right ∧ ∀ w ∈ p.lines, bx.lineEnd w ≤ right)

section

variable {bx : Box} {indent right : Int} {v : View} {l : Line} {p : Packing Int}

theorem Line.Packed.raise (h : l.Packed bx indent right v p) (k : Int) :
    (l.raise k).Packed bx indent right v p := by
  rw [Line.raise]
  split_ifs
  · exact ⟨h.xOff, h.pendingSpace, h.count, h.wraps, h.bulletIndent, h.indent_nonneg, h.owed_nonneg, h.ends,
      h.view⟩
  · exact h

/-- The line that goes out ends where its last token does. -/
theorem Line.Packed.emit (h : l.Packed bx indent right v p) :
    (l.emit bx).Packed bx indent right v (p.emit (bx.margin indent)) where
  xOff := h.bulletIndent
  pendingSpace := rfl
  count := rfl
  wraps := h.wraps
  bulletIndent := h.bulletIndent
  indent_nonneg := h.indent_nonneg
  owed_nonneg := le_rfl
  ends := by
    refine ToksEnd.nil ?_
    show 0 ≤ l.bulletIndent
    rw [h.bulletIndent]
    exact h.indent_nonneg
  view := by
    intro hpaint
    show (emitLine l.view l.toks bx.x0 bx.width l.curY l.lineMaxH bx.align bx.measureOnly).1.EndsBy right ↔
      v.EndsBy right ∧ ∀ w ∈ if 0 < p.count then p.lines ++ [p.x] else p.lines, bx.lineEnd w ≤ right
    rw [hpaint, emitLine_endsBy, h.view hpaint, and_assoc, ← h.count]
    refine and_congr_right fun _ => ?_
    cases htoks : l.toks with
    | nil => simp
    | cons t toks =>
        obtain ⟨hwidth, t', ht', hend⟩ := h.ends.last (by rw [htoks]; exact List.cons_ne_nil _ _)
        rw [← htoks, hwidth, if_pos (by rw [htoks]; exact Nat.succ_pos _), List.forall_mem_append,
          List.forall_mem_singleton, Box.lineEnd, ← h.xOff]
        refine and_congr_right fun _ => ⟨fun hends => ?_, fun hend t ht => ?_⟩
        · have hlast := hends t' ht'
          omega
        · have hle := h.ends.le t ht
          omega

theorem Line.Packed.owe (h : l.Packed bx indent right v p) (found : Nat) {w : Int} (hw : 0 ≤ w) :
    (l.owe found w).Packed bx indent right v
      ((List.replicate found (.space w)).foldl (Packing.pack bx.width (bx.margin indent)) p) := by
  rw [Packing.foldl_pack_spaces, Line.owe]
  split_ifs
  · exact ⟨h.xOff, rfl, h.count, h.wraps, h.bulletIndent, h.indent_nonneg, hw, h.ends, h.view⟩
  · exact h

theorem Line.Packed.overflows_iff (h : l.Packed bx indent right v p) (w : Int) :
    l.Overflows bx w ↔ bx.width < p.x + p.owed + w ∧ p.Begun (bx.margin indent) := by
  rw [Line.Overflows, Packing.Begun, h.xOff, h.pendingSpace, h.bulletIndent, h.count]
  exact Iff.rfl

theorem Line.Packed.wrap (h : l.Packed bx indent right v p) (w k : Int) :
    (l.wrap bx w k).Packed bx indent right v (p.wrap bx.width (bx.margin indent) (.word w)) := by
  rw [Line.wrap, Packing.wrap]
  by_cases hover : l.Overflows bx w
  · rw [if_pos hover, if_pos ((h.overflows_iff w).mp hover)]
    have hout := h.emit.raise k
    exact ⟨hout.xOff, hout.pendingSpace, hout.count, congrArg (· + 1) h.wraps, hout.bulletIndent,
      h.indent_nonneg, hout.owed_nonneg, hout.ends, hout.view⟩
  · rw [if_neg hover, if_neg fun hover' => hover ((h.overflows_iff w).mpr hover')]
    exact h

/-- A word goes behind the space that is owed. -/
theorem Line.Packed.putWord (h : l.Packed bx indent right v p) (t : LineTok) (ht : 0 ≤ t.w) :
    (l.takeSpace.push t).Packed bx indent right v (p.put (bx.margin indent) (.word t.w)) where
  xOff := by
    show l.xOff + l.pendingSpace + t.w = p.x + p.owed + t.w
    rw [h.xOff, h.pendingSpace]
  pendingSpace := rfl
  count := by
    show (l.toks ++ [_]).length = p.count + 1
    rw [List.length_append, h.count]
    rfl
  wraps := h.wraps
  bulletIndent := h.bulletIndent
  indent_nonneg := h.indent_nonneg
  owed_nonneg := le_rfl
  ends := h.ends.push t (h.pendingSpace ▸ h.owed_nonneg) ht
  view := h.view

theorem Line.Packed.putGlued (h : l.Packed bx indent right v p) (t : LineTok) (ht : 0 ≤ t.w) :
    (l.push t).Packed bx indent right v (p.put (bx.margin indent) (.glued t.w)) where
  xOff := by
    show l.xOff + t.w = p.x + t.w
    rw [h.xOff]
  pendingSpace := h.pendingSpace
  count := by
    show (l.toks ++ [_]).length = p.count + 1
    rw [List.length_append, h.count]
    rfl
  wraps := h.wraps
  bulletIndent := h.bulletIndent
  indent_nonneg := h.indent_nonneg
  owed_nonneg := h.owed_nonneg
  ends := by
    have hends := h.ends.push t (le_refl 0) ht
    rwa [Int.add_zero] at hends
  view := h.view

end

/-! ### Runs -/

section

variable (m : Metrics) {bx : Box} {indent right : Int} {v : View} {l : Line} {p : Packing Int}

theorem Line.Packed.preText (f : Font) (r : Run) (rounds : Nat) (s : CString)
    (h : l.Packed bx indent right v p) : (preText m bx f r rounds s l).Packed bx indent right v
      ((prePieces m f rounds s).foldl (Packing.pack bx.width (bx.margin indent)) p) := by
  induction rounds generalizing s l p with
  | zero => exact h
  | succ rounds ih =>
      rw [WebLayout.preText, prePieces, List.foldl_append]
      have hpush : Line.Packed bx indent right v
          (if s.takeWhile (· ≠ newline) ≠ [] then l.push (textTok m f r (s.takeWhile (· ≠ newline))) else l)
          ((if s.takeWhile (· ≠ newline) ≠ [] then [Piece.glued (m.wordW f (s.takeWhile (· ≠ newline)))]
            else []).foldl (Packing.pack bx.width (bx.margin indent)) p) := by
        split_ifs
        · exact h.putGlued (textTok m f r (s.takeWhile (· ≠ newline))) (m.wordW_nonneg f _)
        · exact h
      cases s.dropWhile (· ≠ newline) with
      | nil => exact hpush
      | cons c rest => exact ih rest (hpush.emit.raise _)

theorem Line.Packed.flowText (f : Font) (r : Run) (rounds : Nat) (s : CString)
    (h : l.Packed bx indent right v p) : (flowText m bx f r rounds s l).Packed bx indent right v
      ((flowPieces m f rounds s).foldl (Packing.pack bx.width (bx.margin indent)) p) := by
  induction rounds generalizing s l p with
  | zero => exact h
  | succ rounds ih =>
      rw [WebLayout.flowText, flowPieces, List.foldl_append]
      have howe := h.owe (skipSpaces s).1 (Int.natCast_nonneg (m.spaceW f))
      cases (skipSpaces s).2 with
      | nil => exact howe
      | cons c rest =>
          dsimp only
          split_ifs
          · exact ih rest (howe.emit.raise _)
          · refine ih _ ((howe.wrap _ _).putWord (textTok m f r (takeWord (c :: rest)).1) ?_)
            exact m.wordW_nonneg f _

theorem Image.inlineW_pos (i : Image) : 0 < i.inlineW := by
  unfold inlineW
  dsimp only
  split_ifs <;> omega

theorem Line.Packed.renderRun (type : BlockType) (r : Run) (h : l.Packed bx indent right v p) :
    (renderRun m bx type l r).Packed bx indent right v
      ((runPieces m type r).foldl (Packing.pack bx.width (bx.margin indent)) p) := by
  rw [WebLayout.renderRun, runPieces]
  have hraise := h.raise (m.textH (runFont type r))
  cases r.imgBlk with
  | some i => exact (((hraise.wrap i.inlineW 0).putWord (imageTok r i) i.inlineW_pos.le).raise _)
  | none =>
      dsimp only
      split_ifs
      · exact hraise.preText m _ r _ r.text
      · exact hraise.flowText m _ r _ r.text

/-! ### Text blocks -/

variable (type : BlockType) (bulletText : Option CString) (runs : List Run) (x0 y width : Int) (align : HAlign)
  (measureOnly : Bool)

/-- The bullet is the indent of the first line. -/
theorem firstLine_packed (v : View) (right : Int) :
    (firstLine m v type bulletText y).Packed ⟨x0, width, align, bulletText.isSome, measureOnly⟩
      (bulletW m type bulletText) right v (blockStart m type bulletText) := by
  have hview (v : View) : v.EndsBy right ↔
      v.EndsBy right ∧ ∀ w ∈ ([] : List Int), Box.lineEnd ⟨x0, width, align, bulletText.isSome, measureOnly⟩ w ≤ right :=
    (and_iff_left fun w hw => absurd hw List.not_mem_nil).symm
  cases bulletText with
  | none => exact ⟨rfl, rfl, rfl, rfl, rfl, le_rfl, le_rfl, ToksEnd.nil le_rfl, fun _ => hview v⟩
  | some s =>
      have hw := m.wordW_nonneg ⟨type, plain, 0⟩ s
      have hends := (ToksEnd.nil (le_refl 0)).push (bulletTok m ⟨type, plain, 0⟩ s) (le_refl 0) hw
      rw [Int.add_zero] at hends
      have hx : (0 : Int) + m.wordW ⟨type, plain, 0⟩ s = m.wordW ⟨type, plain, 0⟩ s := Int.zero_add _
      unfold firstLine
      simp only [Line.raise]
      split_ifs
      · exact ⟨hx, rfl, rfl, rfl, rfl, hw, le_rfl, hends, fun _ => hview v⟩
      · exact ⟨hx, rfl, rfl, rfl, rfl, hw, le_rfl, hends, fun _ => hview v⟩

theorem Line.Packed.renderRuns {bx : Box} {indent right : Int} {v : View} {l : Line} {p : Packing Int}
    (h : l.Packed bx indent right v p) : (runs.foldl (WebLayout.renderRun m bx type) l).Packed bx indent right v
      ((runs.flatMap (runPieces m type)).foldl (Packing.pack bx.width (bx.margin indent)) p) := by
  induction runs generalizing l p with
  | nil => exact h
  | cons r runs ih =>
      rw [List.flatMap_cons, List.foldl_append]
      exact ih (h.renderRun m type r)

/-- The widths of the lines of a text block. -/
def blockLines (runs : List Run) (width : Int) : List Int :=
  packedLines width (textMargin m type bulletText) (blockPieces m type runs)
    (blockStart m type bulletText)

/-- How many lines are broken is what the packing says. -/
theorem textLines_wraps (v : View) :
    (textLines m v type bulletText runs ⟨x0, width, align, bulletText.isSome, measureOnly⟩ y).wraps =
      ((blockPieces m type runs).foldl (Packing.pack width (textMargin m type bulletText))
        (blockStart m type bulletText)).breaks := by
  have h := (firstLine_packed m type bulletText x0 y width align measureOnly v 0).renderRuns m type runs
  rw [textLines]
  split_ifs
  · exact h.wraps
  · exact h.wraps

/-- A text block is painted up to the edge exactly when its lines end there. -/
theorem textLines_endsBy (v : View) (right : Int) :
    (textLines m v type bulletText runs ⟨x0, width, align, bulletText.isSome, false⟩ y).view.EndsBy right ↔
      v.EndsBy right ∧
        ∀ w ∈ blockLines m type bulletText runs width, startX align x0 width w + w ≤ right := by
  have h := (firstLine_packed m type bulletText x0 y width align false v right).renderRuns m type runs
  rw [textLines]
  split_ifs with hcount
  · exact h.emit.view rfl
  · rw [h.view rfl, blockLines, packedLines, Packing.emit]
    rw [h.count] at hcount
    exact (if_neg hcount).symm ▸ Iff.rfl

end

end UnicornSuite.WebLayout
