import UnicornSuite.WebPlacement

/-! Text placement over whole pages. One event keeps the document under construction true to the
outline as long as the pages stay tidy, and at the end of a page that closes its tables the document
holds every character in its place. The page `<TABLE><TR><TD>a<TD>b</TABLE>` is allowed and not tidy:
its first cell stays empty and the second one holds the text of both. -/

namespace UnicornSuite.Web

open Delivery Machine

/-- The steps that lose or move no text: no text but white space is pending at TR, TD and TH, and the
table stack takes a further table. -/
def Tidy (d : WebDoc) : Event → Prop
  | .start e _ =>
      (e = .table → d.tableStack.length < webStack) ∧
        (e = .tr ∨ e = .td ∨ e = .th → runsInk d.currentRuns = [])
  | .stop _ | .text _ => True

instance (d : WebDoc) : ∀ e, Decidable (Tidy d e)
  | .start _ _ => inferInstanceAs (Decidable (_ ∧ _))
  | .stop _ | .text _ => inferInstanceAs (Decidable True)

/-! ### One event -/

section

variable {d : WebDoc} {o : Outline} {es : List (Option Place × Char)} {s : Site}

/-- The elements that are neither part of a table nor hide text. -/
def Element.inFlow : Element → Bool
  | .style | .script | .title | .table | .tr | .td | .th => false
  | _ => true

theorem Holds.beginImage (h : Holds d o es s) (a : Attrs) : Holds (beginImage d a) o es s := by
  rw [Web.beginImage]
  split
  · split_ifs
    · apply h.calm
      simp only [core, addImageRun, runsInk_append, runsInk_singleton]
      rw [ink_eq_nil rfl, List.append_nil]
    · exact h.emit fun p => rfl
  · exact h

theorem Holds.beginFlow (h : Holds d o es s) {e : Element} (he : e.inFlow) (a : Attrs) :
    Holds (beginElement d e a) o es s := by
  have hstyle (f : StyleState → StyleState) : Holds (onStyle d f) o es s := h.calm rfl
  cases e with
  | style | script | title | table | tr | td | th => cases he
  | p | div => exact (h.startBlock .para).calm rfl
  | h level => exact (h.startBlock (.h level)).calm rfl
  | blockquote | center => exact (hstyle _).startBlock .para
  | dd => exact (hstyle _).startBlock .dd
  | pre => exact h.startBlock .pre
  | dt => exact h.startBlock .dt
  | caption => exact (h.startBlock .para).calm rfl
  | li => exact h.flush.1.calm rfl
  | br => exact h.br
  | hr => exact h.emit fun p => rfl
  | img => exact h.beginImage a
  | other => exact h
  | _ => exact h.calm rfl

theorem Holds.endFlow (h : Holds d o es s) {e : Element} (he : e.inFlow) :
    Holds (endElement d e) o es s := by
  have hstyle (f : StyleState → StyleState) : Holds (onStyle d f) o es s := h.calm rfl
  cases e with
  | style | script | title | table | tr | td | th => cases he
  | p | div | h | pre | li | dt => exact h.startBlock .para
  | blockquote | dl | dd | center | ul | ol | caption => exact (hstyle _).startBlock .para
  | br | hr | img | other => exact h
  | _ => exact h.calm rfl

theorem Holds.beginElement (h : Holds d o es s) {e : Element} {a : Attrs}
    (hallows : o.Allows (.start e a)) (htidy : Tidy d (.start e a)) :
    ∃ s', Holds (beginElement d e a) (o.next (.start e a)) es s' := by
  cases e with
  | style =>
      exact ⟨s, { h.sound with style := congrArg (· + 1) h.sound.style }, h.served⟩
  | script =>
      exact ⟨s, { h.sound with script := congrArg (· + 1) h.sound.script }, h.served⟩
  | title =>
      exact ⟨s, { h.sound with title := congrArg (· + 1) h.sound.title }, h.served⟩
  | table => exact ⟨_, h.beginTable hallows (htidy.1 rfl) a⟩
  | tr => exact ⟨_, h.beginRow hallows (htidy.2 (Or.inl rfl)) a⟩
  | td => exact ⟨_, h.beginCell hallows (htidy.2 (Or.inr (Or.inl rfl))) false a⟩
  | th => exact ⟨_, h.beginCell hallows (htidy.2 (Or.inr (Or.inr rfl))) true a⟩
  | _ => exact ⟨s, h.beginFlow rfl a⟩

theorem Holds.endElement (h : Holds d o es s) {e : Element} (hallows : o.Allows (.stop e)) :
    ∃ s', Holds (endElement d e) (o.next (.stop e)) es s' := by
  cases e with
  | style =>
      exact ⟨s, { h.sound with style := congrArg (· - 1) h.sound.style }, h.served⟩
  | script =>
      exact ⟨s, { h.sound with script := congrArg (· - 1) h.sound.script }, h.served⟩
  | title =>
      exact ⟨s, { h.sound with title := congrArg (· - 1) h.sound.title }, h.served⟩
  | table =>
      obtain ⟨p, hp⟩ := h.endTable hallows
      exact ⟨.here p, hp⟩
  | tr => exact ⟨s, h.endRow hallows⟩
  | td | th => exact ⟨_, h.endCell hallows⟩
  | _ => exact ⟨s, h.endFlow rfl⟩

/-- What one event of a tidy page adds to the document is what the event calls for. -/
theorem Holds.step (h : Holds d o es s) {e : Event} (hallows : o.Allows e) (htidy : Tidy d e) :
    ∃ s', Holds (onEvent d e) (o.next e) (es ++ o.expects e) s' := by
  cases e with
  | start e a =>
      have hnone : o.expects (.start e a) = [] := rfl
      rw [hnone, List.append_nil]
      exact h.beginElement hallows htidy
  | stop e =>
      have hnone : o.expects (.stop e) = [] := rfl
      rw [hnone, List.append_nil]
      exact h.endElement hallows
  | text t => exact ⟨s, h.appendText t⟩

end

/-! ### Pages -/

theorem Holds.run {d : WebDoc} {o : Outline} {es : List (Option Place × Char)} {s : Site}
    (h : Holds d o es s) {evs : List Event} (hallows : Guarded Outline.next Outline.Allows o evs)
    (htidy : Guarded onEvent Tidy d evs) :
    ∃ s', Holds (run onEvent d evs) (run Outline.next o evs) (es ++ o.expected evs) s' := by
  induction evs generalizing d o es s with
  | nil => exact ⟨s, (List.append_nil es).symm ▸ h⟩
  | cons e evs ih =>
      obtain ⟨s', hstep⟩ := h.step hallows.1 htidy.1
      rw [Outline.expected, ← List.append_assoc]
      exact ih hstep hallows.2 htidy.2

theorem holds_start : Holds {} {} [] (.here none) :=
  ⟨⟨trivial, nofun, rfl, rfl, rfl, rfl, rfl, ⟨rfl, rfl, rfl⟩, rfl⟩, .nil⟩

/-- A tidy page keeps its text: every character that is due somewhere is in the document once, in its
place and in the order of the page. -/
theorem text_placed (evs : List Event) (hallows : Guarded Outline.next Outline.Allows {} evs)
    (hclosed : (run Outline.next {} evs).levels = []) (htidy : Guarded onEvent Tidy {} evs) :
    Served (Outline.expected {} evs) (blocksInk none (build evs).blocks) := by
  obtain ⟨s, h⟩ := holds_start.run hallows htidy
  obtain rfl := h.sound.site_of_nil hclosed
  obtain ⟨hf, hruns⟩ := h.flush
  obtain ⟨-, -, hstack⟩ := hf.sound.stands
  have hserved := hf.served
  rw [pendingInk_nil (by rw [hruns]; rfl), docInk, hstack, tablesInk] at hserved
  simp only [List.nil_append, List.append_nil] at hserved
  exact hserved

/-- A row of two cells with their end tags. -/
def endedCells : List Event :=
  [.text ['x', ' '], .start .table {}, .start .tr {}, .start .td {}, .text ['a'], .stop .td,
    .start .td {}, .text ['b'], .stop .td, .stop .tr, .stop .table, .text ['y']]

theorem text_placed_ended :
    Served (Outline.expected {} endedCells) (blocksInk none (build endedCells).blocks) :=
  text_placed endedCells (by decide) rfl (by decide)

/-- The same row without them. -/
def openCells : List Event :=
  [.start .table {}, .start .tr {}, .start .td {}, .text ['a'], .start .td {}, .text ['b'],
    .stop .table]

theorem cell_text_moves :
    ¬∀ evs : List Event, Guarded Outline.next Outline.Allows {} evs →
      (run Outline.next {} evs).levels = [] →
        Served (Outline.expected {} evs) (blocksInk none (build evs).blocks) := by
  intro hall
  have hserved := hall openCells (by decide) rfl
  have hexpected : Outline.expected {} openCells = [(some (some 0), 'a'), (some (some 1), 'b')] := by
    decide
  have hfound : blocksInk none (build openCells).blocks = [(some 1, 'a'), (some 1, 'b')] := by
    decide
  rw [hexpected, hfound] at hserved
  exact absurd (hserved.eq_due (by decide)) (by decide)

end UnicornSuite.Web
