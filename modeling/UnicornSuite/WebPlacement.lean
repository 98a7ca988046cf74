import UnicornSuite.LibDelivery
import UnicornSuite.WebReading

/-! Where the text of a page belongs, told from its tags alone. The outline of a page holds its open
tables and, for each, whether a row is open and which cell is; STYLE, SCRIPT and TITLE hide the text
inside them. End tags of cells and rows may be missing: the next TD, TH or TR tag ends a cell as well.
Elements that are no part of a table may stand anywhere. -/

namespace UnicornSuite.Web

open Machine

structure Level where
  /-- A row is open. -/
  row : Bool
  /-- The open cell, by the number of its tag. -/
  cell : Option Nat

structure Outline where
  /-- The open tables, the innermost first. -/
  levels : List Level := []
  style : Nat := 0
  script : Nat := 0
  title : Nat := 0
  /-- The TD and TH tags so far. -/
  tags : Nat := 0

namespace Outline

variable (o : Outline)

/-- A change of the innermost open table. -/
def onTop (f : Level → Level) : Outline :=
  match o.levels with
  | l :: ls => { o with levels := f l :: ls }
  | [] => o

def next : Event → Outline
  | .start .style _ => { o with style := o.style + 1 }
  | .start .script _ => { o with script := o.script + 1 }
  | .start .title _ => { o with title := o.title + 1 }
  | .stop .style => { o with style := o.style - 1 }
  | .stop .script => { o with script := o.script - 1 }
  | .stop .title => { o with title := o.title - 1 }
  | .start .table _ => { o with levels := ⟨false, none⟩ :: o.levels }
  | .start .tr _ => o.onTop fun _ => ⟨true, none⟩
  | .start .td _ | .start .th _ =>
      { o.onTop fun l => { l with cell := some o.tags } with tags := o.tags + 1 }
  | .stop .td | .stop .th => o.onTop fun l => { l with cell := none }
  | .stop .tr => o.onTop fun _ => ⟨false, none⟩
  | .stop .table => { o with levels := o.levels.tail }
  | _ => o

/-- What HTML 3.2 asks of the tags of tables: a table stands in the flow or in an open cell, a row in
a table, a cell in an open row, and what is ended is open. -/
def Allows : Event → Prop
  | .start .table _ => ∀ l ∈ o.levels.head?, l.cell.isSome
  | .start .tr _ => o.levels ≠ []
  | .start .td _ | .start .th _ => ∃ l ∈ o.levels.head?, l.row
  | .stop .td | .stop .th => ∃ l ∈ o.levels.head?, l.cell.isSome
  | .stop .tr => ∃ l ∈ o.levels.head?, l.row
  | .stop .table => o.levels ≠ []
  | _ => True

def hidden : Bool := o.style > 0 ∨ o.script > 0 ∨ o.title > 0

/-- Where text belongs: to the top level outside of every table, else to the open cell of the
innermost table, and nowhere in a table without one. -/
def due : Option Place :=
  match o.levels with
  | [] => some none
  | l :: _ => l.cell.map some

/-- The characters of an event with their places. -/
def expects : Event → List (Option Place × Char)
  | .text s => if o.hidden then [] else (ink s).map (o.due, ·)
  | _ => []

/-- The characters of a page with their places. -/
def expected : Outline → List Event → List (Option Place × Char)
  | _, [] => []
  | o, e :: evs => o.expects e ++ expected (o.next e) evs

end Outline

instance (o : Outline) (e : Event) : Decidable (o.Allows e) := by
  unfold Outline.Allows
  split <;> infer_instance

end UnicornSuite.Web

/-! Where the text of a page ends up. Pending runs go where the open cell and the parse mode are when
something flushes them, and neither TD and TH nor TR flushes what the cell before them has pending. In
a page where nothing is pending at these tags, and where no more tables are nested than the table
stack takes, every character is stored in its place, once and in order. -/

namespace UnicornSuite.Web

open Delivery Machine

/-! ### The document under construction -/

/-- The ink of the open tables, the outermost first. -/
def tablesInk (heap : Nat → WebTable WebBlock) : List (Nat × Option CellRef) → List (Place × Char)
  | [] => []
  | (t, _) :: stack => tablesInk heap stack ++ rowsInk (heap t).rows

/-- The ink of the blocks and of the open tables; pending runs are not part of it. -/
def docInk (d : WebDoc) : List (Place × Char) := blocksInk none d.blocks ++ tablesInk d.heap d.tableStack

/-- A table of the stack is nested in the open cell of the table below it. -/
def NestedIn (heap : Nat → WebTable WebBlock) (parent : Option CellRef) :
    List (Nat × Option CellRef) → List Level → Prop
  | (t, _) :: _, l :: _ =>
      ∃ c n, parent = some c ∧ c.table = t ∧ l.cell = some n ∧ LastCell (heap t) c.row c.cell n
  | [], [] => parent = none
  | _, _ => False

/-- The table stack follows the outline: each table is nested in the one below it and was made after
it. -/
def Linked (heap : Nat → WebTable WebBlock) : List (Nat × Option CellRef) → List Level → Prop
  | (t, parent) :: stack, l :: levels =>
      (l.row → (heap t).rows ≠ []) ∧ NestedIn heap parent stack levels ∧ (∀ e ∈ stack, e.1 < t) ∧
        Linked heap stack levels
  | [], [] => True
  | _, _ => False

/-- Where the next block goes: to a place, or nowhere between the cells of a table. -/
inductive Site where
  | here (p : Place)
  | between

/-- The code is at that site. -/
def Stands (d : WebDoc) : Site → Prop
  | .here none => d.parseMode = .normal ∧ d.openCell = none ∧ d.tableStack = []
  | .here (some n) =>
      d.parseMode = .inCell ∧ ∃ c, d.openCell = some c ∧ d.tableStack.head?.map Prod.fst = some c.table ∧
        LastCell (d.heap c.table) c.row c.cell n
  | .between => d.parseMode = .inTable ∧ runsInk d.currentRuns = []

/-- The site agrees with the outline. After a missing end tag of a cell the code stays in it. -/
def Agrees (o : Outline) : Site → Prop
  | .here none => o.levels = []
  | .here (some n) => ∃ l ∈ o.levels.head?, l.cell = none ∨ l.cell = some n
  | .between => ∃ l ∈ o.levels.head?, l.cell = none

def pendingInk (d : WebDoc) : Site → List (Place × Char)
  | .here p => (runsInk d.currentRuns).map (p, ·)
  | .between => []

/-- The document under construction follows the outline, and the code is at the site. -/
structure Sound (d : WebDoc) (o : Outline) (s : Site) : Prop where
  linked : Linked d.heap d.tableStack o.levels
  fresh : ∀ e ∈ d.tableStack, e.1 < d.nextTable
  openTable : d.openTable = d.tableStack.head?.map Prod.fst
  style : d.inStyle = o.style
  script : d.inScript = o.script
  title : d.inTitle = o.title
  tags : d.cellTags = o.tags
  stands : Stands d s
  agrees : Agrees o s

/-- It holds the expected characters `es` of the page so far. -/
structure Holds (d : WebDoc) (o : Outline) (es : List (Option Place × Char)) (s : Site) : Prop where
  sound : Sound d o s
  served : Served es (docInk d ++ pendingInk d s)

/-! ### Tables and the heap -/

section

variable {heap heap' : Nat → WebTable WebBlock} {stack : List (Nat × Option CellRef)}
  {levels : List Level}

theorem tablesInk_congr (h : ∀ e ∈ stack, heap' e.1 = heap e.1) :
    tablesInk heap' stack = tablesInk heap stack := by
  induction stack with
  | nil => rfl
  | cons e stack ih =>
      rw [tablesInk, tablesInk, h e List.mem_cons_self,
        ih fun e' he' => h e' (List.mem_cons_of_mem _ he')]

theorem NestedIn.congr {parent : Option CellRef} (h : ∀ e ∈ stack, heap' e.1 = heap e.1)
    (hn : NestedIn heap parent stack levels) : NestedIn heap' parent stack levels := by
  match stack, levels with
  | (t, p) :: stack, l :: levels =>
      obtain ⟨c, n, hparent, htable, hcell, hlast⟩ := hn
      exact ⟨c, n, hparent, htable, hcell, (h (t, p) List.mem_cons_self).symm ▸ hlast⟩
  | [], [] => exact hn

theorem Linked.congr (h : ∀ e ∈ stack, heap' e.1 = heap e.1) (hl : Linked heap stack levels) :
    Linked heap' stack levels := by
  induction stack generalizing levels with
  | nil =>
      cases levels with
      | nil => trivial
      | cons => exact hl
  | cons e stack ih =>
      cases levels with
      | nil => exact hl
      | cons l levels =>
          obtain ⟨hrows, hnested, hless, hrest⟩ := hl
          have hbelow : ∀ e' ∈ stack, heap' e'.1 = heap e'.1 :=
            fun e' he' => h e' (List.mem_cons_of_mem _ he')
          refine ⟨?_, hnested.congr hbelow, hless, ih hbelow hrest⟩
          rw [h e List.mem_cons_self]
          exact hrows

variable {t : Nat} {parent : Option CellRef} {l : Level} {x : WebTable WebBlock}

/-- Nothing below the innermost table is concerned by a change of it. -/
theorem Linked.below (hl : Linked heap ((t, parent) :: stack) levels) :
    ∀ e ∈ stack, Function.update heap t x e.1 = heap e.1 := by
  intro e he
  cases levels with
  | nil => exact hl.elim
  | cons l levels => exact Function.update_of_ne (Nat.ne_of_lt (hl.2.2.1 e he)) x heap

theorem Linked.top {l' : Level} (hl : Linked heap ((t, parent) :: stack) (l :: levels))
    (hx : l'.row → x.rows ≠ []) :
    Linked (Function.update heap t x) ((t, parent) :: stack) (l' :: levels) := by
  obtain ⟨-, hnested, hless, hrest⟩ := id hl
  refine ⟨?_, hnested.congr hl.below, hless, hrest.congr hl.below⟩
  rw [Function.update_self]
  exact hx

theorem Linked.tablesInk_top (hl : Linked heap ((t, parent) :: stack) levels) :
    tablesInk (Function.update heap t x) ((t, parent) :: stack) =
      tablesInk heap stack ++ rowsInk x.rows := by
  rw [tablesInk, tablesInk_congr hl.below, Function.update_self]

end

/-! ### Appending and flushing -/

section

variable {d d' : WebDoc} {o : Outline} {es : List (Option Place × Char)} {s : Site}

/-- All that placement depends on. -/
def core (d : WebDoc) :=
  (d.blocks, d.heap, d.nextTable, d.openTable, d.tableStack, d.openCell, d.parseMode, d.inStyle,
    d.inScript, d.inTitle, d.cellTags, runsInk d.currentRuns)

/-- A change of types, bullets and styles moves no character. -/
theorem Holds.calm (h : Holds d o es s) (he : core d' = core d) : Holds d' o es s := by
  simp only [core, Prod.mk.injEq] at he
  obtain ⟨hblocks, hheap, hnext, hopen, hstack, hcell, hmode, hstyle, hscript, htitle, htags, hruns⟩ := he
  obtain ⟨⟨h1, h2, h3, h4, h5, h6, h7, h8, h9⟩, hserved⟩ := h
  have hstands : Stands d' s := by
    cases s with
    | here p => cases p <;> simpa only [Stands, hmode, hcell, hstack, hheap] using h8
    | between => simpa only [Stands, hmode, hruns] using h8
  have hink : docInk d' ++ pendingInk d' s = docInk d ++ pendingInk d s := by
    cases s <;> simp only [docInk, pendingInk, hblocks, hheap, hstack, hruns]
  refine ⟨⟨?_, ?_, ?_, ?_, ?_, ?_, ?_, hstands, h9⟩, hink ▸ hserved⟩
  · rwa [hheap, hstack]
  · rwa [hstack, hnext]
  · rwa [hopen, hstack]
  · rwa [hstyle]
  · rwa [hscript]
  · rwa [htitle]
  · rwa [htags]

theorem appendBlock_blocks (h : d.parseMode ≠ .inCell) (b : WebBlock) :
    appendBlock d b = { d with blocks := d.blocks ++ [b] } := by
  rw [appendBlock]
  split
  · contradiction
  · rfl

theorem appendBlock_cell (h : d.parseMode = .inCell) {c : CellRef} (hc : d.openCell = some c)
    (b : WebBlock) :
    appendBlock d b =
      { d with heap := Function.update d.heap c.table ((d.heap c.table).appendTo c.row c.cell b) } := by
  rw [appendBlock, h, hc]

/-- The innermost table of the outline is on top of the table stack. -/
theorem Sound.top (h : Sound d o s) {l : Level} (hl : l ∈ o.levels.head?) :
    ∃ t parent stack levels, d.tableStack = (t, parent) :: stack ∧ o.levels = l :: levels ∧
      Linked d.heap ((t, parent) :: stack) (l :: levels) ∧ d.openTable = some t := by
  obtain ⟨levels, hlevels⟩ := List.head?_eq_some_iff.mp hl
  have hlinked := h.linked
  rw [hlevels] at hlinked
  cases hstack : d.tableStack with
  | nil => exact (hstack ▸ hlinked : Linked d.heap [] (l :: levels)).elim
  | cons e stack =>
      refine ⟨e.1, e.2, stack, levels, rfl, hlevels, hstack ▸ hlinked, ?_⟩
      rw [h.openTable, hstack]
      rfl

/-- A block appended at a place comes behind all that the document holds. -/
theorem Sound.append {p : Place} (h : Sound d o (.here p)) (b : WebBlock) :
    Sound (appendBlock d b) o (.here p) ∧ docInk (appendBlock d b) = docInk d ++ b.ink p := by
  cases p with
  | none =>
      obtain ⟨hmode, hcell, hstack⟩ := h.stands
      rw [appendBlock_blocks (by rw [hmode]; decide)]
      refine ⟨{ h with }, ?_⟩
      simp only [docInk, hstack, tablesInk, List.append_nil, blocksInk_append, blocksInk_singleton]
  | some n =>
      obtain ⟨hmode, c, hcell, htop, hlast⟩ := h.stands
      obtain ⟨l, hl, -⟩ := h.agrees
      obtain ⟨t, parent, stack, levels, hstack, hlevels, hlinked, -⟩ := h.top hl
      obtain rfl : t = c.table := by simpa [hstack] using htop
      have hlast' := hlast.appendTo b
      have hrows : ((d.heap c.table).appendTo c.row c.cell b).rows ≠ [] := hlast'.rows_ne_nil
      rw [appendBlock_cell hmode hcell]
      refine ⟨{ h with linked := ?_, stands := ?_ }, ?_⟩
      · rw [hstack, hlevels]
        exact hlinked.top fun _ => hrows
      · refine ⟨hmode, c, hcell, htop, ?_⟩
        simp only [Function.update_self]
        exact hlast'
      · simp only [docInk, hstack]
        calc blocksInk none d.blocks ++ tablesInk (Function.update d.heap c.table
              ((d.heap c.table).appendTo c.row c.cell b)) ((c.table, parent) :: stack)
            = blocksInk none d.blocks ++ (tablesInk d.heap stack ++
                (rowsInk (d.heap c.table).rows ++ b.ink (some n))) := by
              rw [hlinked.tablesInk_top, hlast.ink_appendTo]
          _ = blocksInk none d.blocks ++ tablesInk d.heap ((c.table, parent) :: stack) ++
                b.ink (some n) := by
              rw [tablesInk, List.append_assoc, List.append_assoc]

/-- A block without ink may be appended anywhere. -/
theorem Sound.append_bare (h : Sound d o s) {b : WebBlock} (hb : ∀ p, b.ink p = []) :
    Sound (appendBlock d b) o s ∧ docInk (appendBlock d b) = docInk d := by
  cases s with
  | here p =>
      obtain ⟨hs, hink⟩ := h.append b
      exact ⟨hs, by rw [hink, hb, List.append_nil]⟩
  | between =>
      obtain ⟨hmode, hruns⟩ := h.stands
      rw [appendBlock_blocks (by rw [hmode]; decide)]
      refine ⟨{ h with }, ?_⟩
      simp only [docInk, blocksInk_append, blocksInk_singleton, hb, List.append_nil]

theorem Sound.dropCurrent (h : Sound d o s) : Sound (dropCurrent d) o s := by
  have hstands : Stands (Web.dropCurrent d) s := by
    cases s with
    | here p => cases p <;> exact h.stands
    | between => exact ⟨h.stands.1, rfl⟩
  exact { h with stands := hstands }

/-- A flush moves the pending characters into the document, where they are read at the site. -/
theorem Holds.flush (h : Holds d o es s) :
    Holds (flushCurrent d) o es s ∧ (flushCurrent d).currentRuns = [] := by
  rw [flushCurrent]
  split_ifs with hdrop
  · have hruns : runsInk d.currentRuns = [] := hdrop.1.elim runsInk_of_empty runsInk_of_white
    have hcore : core (Web.dropCurrent d) = core d := by
      simp only [core, Web.dropCurrent, hruns]
      rfl
    exact ⟨h.calm hcore, rfl⟩
  · refine ⟨?_, rfl⟩
    have hserved := h.served
    cases s with
    | here p =>
        obtain ⟨hs, hink⟩ := h.sound.append
          (.flow d.currentType d.currentIndent d.currentAlign d.currentBullet d.currentRuns)
        refine ⟨hs.dropCurrent, ?_⟩
        rw [pendingInk, ← WebBlock.ink, ← hink] at hserved
        exact (List.append_nil _).symm ▸ hserved
    | between =>
        obtain ⟨hs, hink⟩ := h.sound.append_bare (b := .flow d.currentType d.currentIndent
          d.currentAlign d.currentBullet d.currentRuns) fun p => by
            rw [WebBlock.ink, h.sound.stands.2]
            rfl
        refine ⟨hs.dropCurrent, ?_⟩
        rw [← hink] at hserved
        exact hserved

theorem Holds.startBlock (h : Holds d o es s) (type : BlockType) :
    Holds (startBlock d type) o es s := h.flush.1.calm rfl

/-- HR and an image on its own. -/
theorem Holds.emit (h : Holds d o es s) {b : WebBlock} (hb : ∀ p, b.ink p = []) :
    Holds { appendBlock (flushCurrent d) b with currentType := .para } o es s := by
  have hf := h.flush.1
  obtain ⟨hs, hink⟩ := hf.sound.append_bare hb
  have hpending : pendingInk (appendBlock (flushCurrent d) b) s = pendingInk (flushCurrent d) s := by
    cases s
    · rw [pendingInk, pendingInk, appendBlock_runs]
    · rfl
  have happended : Holds (appendBlock (flushCurrent d) b) o es s := by
    refine ⟨hs, ?_⟩
    rw [hink, hpending]
    exact hf.served
  exact happended.calm rfl

theorem storeText_eq (d : WebDoc) (text : List Char) :
    storeText d text = { d with currentRuns := (storeText d text).currentRuns } := by
  rw [storeText]
  split_ifs
  · rfl
  · split
    · split_ifs <;> rfl
    · rfl

theorem due_of_top {l : Level} (hl : l ∈ o.levels.head?) : o.due = l.cell.map some := by
  obtain ⟨levels, hlevels⟩ := List.head?_eq_some_iff.mp hl
  rw [Outline.due, hlevels]

theorem due_of_agrees {p : Place} (h : Agrees o (.here p)) : o.due = none ∨ o.due = some p := by
  cases p with
  | none =>
      have hlevels : o.levels = [] := h
      exact Or.inr (by rw [Outline.due, hlevels])
  | some n =>
      obtain ⟨l, hl, hcell | hcell⟩ := h
      · exact Or.inl (by rw [due_of_top hl, hcell]; rfl)
      · exact Or.inr (by rw [due_of_top hl, hcell]; rfl)

theorem due_of_between (h : Agrees o .between) : o.due = none := by
  obtain ⟨l, hl, hcell⟩ := h
  rw [due_of_top hl, hcell]
  rfl

/-- Text that is not hidden goes behind the pending text, or nowhere between the cells of a table. -/
theorem Holds.store (h : Holds d o es s) (text : List Char) :
    Holds (if d.parseMode = .inTable then d else storeText d text) o
      (es ++ (ink text).map (o.due, ·)) s := by
  cases s with
  | between =>
      rw [if_pos h.sound.stands.1, due_of_between h.sound.agrees]
      refine ⟨h.sound, ?_⟩
      rw [← List.append_nil (docInk d ++ _)]
      exact h.served.append (served_left _)
  | here p =>
      have hmode : d.parseMode ≠ .inTable := by
        have hstands := h.sound.stands
        cases p <;> rw [hstands.1] <;> decide
      rw [if_neg hmode]
      have hstands : Stands (storeText d text) (.here p) := by
        rw [storeText_eq]
        cases p <;> exact h.sound.stands
      have hdoc : docInk (storeText d text) = docInk d := by
        rw [storeText_eq]
        rfl
      have hpending : docInk (storeText d text) ++ pendingInk (storeText d text) (.here p) =
          docInk d ++ pendingInk d (.here p) ++ (ink text).map (p, ·) := by
        calc docInk (storeText d text) ++ (runsInk (storeText d text).currentRuns).map (p, ·)
            = docInk d ++ ((runsInk d.currentRuns).map (p, ·) ++ (ink text).map (p, ·)) := by
              rw [hdoc, runsInk_storeText, List.map_append]
          _ = docInk d ++ (runsInk d.currentRuns).map (p, ·) ++ (ink text).map (p, ·) :=
              (List.append_assoc _ _ _).symm
      have hserved : Served ((ink text).map (o.due, ·)) ((ink text).map (p, ·)) := by
        rcases due_of_agrees h.sound.agrees with hdue | hdue
        · rw [hdue]
          exact served_kept p _
        · rw [hdue]
          exact served_due p _
      refine ⟨?_, ?_⟩
      · rw [storeText_eq] at hstands ⊢
        exact { h.sound with stands := hstands }
      · rw [hpending]
        exact h.served.append hserved

theorem Sound.hidden (h : Sound d o s) :
    (d.inStyle > 0 ∨ d.inScript > 0 ∨ d.inTitle > 0) ↔ o.hidden = true := by
  rw [Outline.hidden, h.style, h.script, h.title, decide_eq_true_iff]

theorem Holds.appendText (h : Holds d o es s) (text : List Char) :
    Holds (appendText d text) o (es ++ o.expects (.text text)) s := by
  rw [Web.appendText, Outline.expects]
  by_cases hhidden : o.hidden = true
  · rw [if_pos (h.sound.hidden.mpr hhidden), if_pos hhidden, List.append_nil]
    exact h
  · rw [if_neg (mt h.sound.hidden.mp hhidden), if_neg hhidden]
    exact h.store text

/-- A line break is white space. -/
theorem Holds.br (h : Holds d o es s) : Holds (Web.appendText d ['\n']) o es s := by
  have hnone : o.expects (.text ['\n']) = [] := ite_self []
  have hbr := h.appendText ['\n']
  rwa [hnone, List.append_nil] at hbr

/-! ### The tags of tables -/

theorem pendingInk_nil (hruns : runsInk d.currentRuns = []) (s : Site) : pendingInk d s = [] := by
  cases s with
  | here p => rw [pendingInk, hruns, List.map_nil]
  | between => rfl

theorem flushCurrent_stack (d : WebDoc) : (flushCurrent d).tableStack = d.tableStack := by
  have happend (b : WebBlock) : (appendBlock d b).tableStack = d.tableStack := by
    rw [appendBlock]
    split <;> rfl
  rw [flushCurrent]
  split_ifs
  · rfl
  · exact happend _

/-- Outside of every table the code is at the top level. -/
theorem Sound.site_of_nil (h : Sound d o s) (hlevels : o.levels = []) : s = .here none := by
  have hagrees := h.agrees
  match s with
  | .here none => rfl
  | .here (some n) =>
      obtain ⟨l, hl, -⟩ := hagrees
      simp [hlevels] at hl
  | .between =>
      obtain ⟨l, hl, -⟩ := hagrees
      simp [hlevels] at hl

/-- In an open cell the code is at that cell. -/
theorem Sound.site_of_cell (h : Sound d o s) {l : Level} (hl : l ∈ o.levels.head?) {n : Nat}
    (hcell : l.cell = some n) : s = .here (some n) := by
  have hagrees := h.agrees
  match s with
  | .here none =>
      have hlevels : o.levels = [] := hagrees
      simp [hlevels] at hl
  | .here (some m) =>
      obtain ⟨l', hl', hnone | hsome⟩ := hagrees
      · obtain rfl := Option.mem_unique hl hl'
        rw [hcell] at hnone
        cases hnone
      · obtain rfl := Option.mem_unique hl hl'
        rw [hcell] at hsome
        cases hsome
        rfl
  | .between =>
      obtain ⟨l', hl', hnone⟩ := hagrees
      obtain rfl := Option.mem_unique hl hl'
      rw [hcell] at hnone
      cases hnone

/-- A table that opens here is nested in the cell the code is in. -/
theorem Sound.nestedIn (h : Sound d o s) (hflow : ∀ l ∈ o.levels.head?, l.cell.isSome) :
    NestedIn d.heap d.openCell d.tableStack o.levels := by
  cases hlevels : o.levels with
  | nil =>
      have hs := h.site_of_nil hlevels
      subst hs
      obtain ⟨-, hcell, hstack⟩ := h.stands
      rw [hcell, hstack]
      rfl
  | cons l levels =>
      have hl : l ∈ o.levels.head? := by rw [hlevels]; rfl
      obtain ⟨n, hn⟩ := Option.isSome_iff_exists.mp (hflow l hl)
      have hs := h.site_of_cell hl hn
      subst hs
      obtain ⟨-, c, hcell, htop, hlast⟩ := h.stands
      obtain ⟨t, parent, stack, levels', hstack, -⟩ := h.top hl
      rw [hstack] at htop ⊢
      obtain rfl : t = c.table := Option.some.inj htop
      exact ⟨c, n, hcell, rfl, hn, hlast⟩

theorem Holds.beginTable (h : Holds d o es s) (hflow : ∀ l ∈ o.levels.head?, l.cell.isSome)
    (hroom : d.tableStack.length < webStack) (a : Attrs) :
    Holds (beginTable d a) { o with levels := ⟨false, none⟩ :: o.levels } es .between := by
  obtain ⟨hf, hruns⟩ := h.flush
  have hroom' : (flushCurrent d).tableStack.length < webStack := by
    rw [flushCurrent_stack]
    exact hroom
  have hbelow (x : WebTable WebBlock) : ∀ e ∈ (flushCurrent d).tableStack,
      Function.update (flushCurrent d).heap (flushCurrent d).nextTable x e.1 =
        (flushCurrent d).heap e.1 := fun e he =>
    Function.update_of_ne (Nat.ne_of_lt (hf.sound.fresh e he)) x (flushCurrent d).heap
  rw [Web.beginTable]
  simp only [if_pos hroom']
  refine ⟨⟨⟨nofun, (hf.sound.nestedIn hflow).congr (hbelow _), hf.sound.fresh,
    hf.sound.linked.congr (hbelow _)⟩, ?_, rfl, hf.sound.style, hf.sound.script, hf.sound.title,
    hf.sound.tags, ⟨rfl, ?_⟩, ⟨_, rfl, rfl⟩⟩, ?_⟩
  · intro e he
    rcases List.mem_cons.mp he with rfl | he
    · exact Nat.lt_succ_self _
    · exact Nat.lt_succ_of_lt (hf.sound.fresh e he)
  · rw [hruns]
    rfl
  · have hserved := hf.served
    rw [pendingInk_nil (by rw [hruns]; rfl)] at hserved
    simp only [docInk, pendingInk, tablesInk, tablesInk_congr (hbelow _), Function.update_self,
      rowsInk, List.append_nil] at hserved ⊢
    exact hserved

theorem head?_of_ne_nil {levels : List Level} (h : levels ≠ []) : ∃ l, l ∈ levels.head? :=
  ⟨levels.head h, List.head?_eq_some_head h⟩

theorem Outline.onTop_eq {l : Level} {levels : List Level} (hlevels : o.levels = l :: levels)
    (f : Level → Level) : o.onTop f = { o with levels := f l :: levels } := by
  rw [Outline.onTop, hlevels]

theorem beginRow_eq {t : Nat} (hopen : d.openTable = some t) (a : Attrs) :
    beginRow d a =
      { d with
        heap := Function.update d.heap t ((d.heap t).addRow ⟨a.align.getD .left, []⟩)
        parseMode := .inTable } := by
  rw [Web.beginRow, hopen]

theorem Holds.beginRow (h : Holds d o es s) (hlevels : o.levels ≠ [])
    (hruns : runsInk d.currentRuns = []) (a : Attrs) :
    Holds (beginRow d a) (o.onTop fun _ => ⟨true, none⟩) es .between := by
  obtain ⟨l, hl⟩ := head?_of_ne_nil hlevels
  obtain ⟨t, parent, stack, levels, hstack, hlevels, hlinked, hopen⟩ := h.sound.top hl
  have hrows (x : WebTable WebBlock) (r : WebRow WebBlock) : (x.addRow r).rows ≠ [] :=
    List.append_ne_nil_of_right_ne_nil _ (List.cons_ne_nil _ _)
  have hserved := h.served
  rw [pendingInk_nil hruns] at hserved
  rw [Outline.onTop_eq hlevels, beginRow_eq hopen]
  refine ⟨{ h.sound with linked := ?_, stands := ⟨rfl, hruns⟩, agrees := ⟨_, rfl, rfl⟩ }, ?_⟩
  · rw [hstack]
    exact hlinked.top fun _ => hrows _ _
  · simp only [docInk, pendingInk, hstack] at hserved ⊢
    rw [hlinked.tablesInk_top, ink_addRow]
    exact hserved

theorem beginCell_eq {t : Nat} (hopen : d.openTable = some t) {row : WebRow WebBlock}
    (hlast : (d.heap t).rows.getLast? = some row) (isHeader : Bool) (a : Attrs) :
    beginCell d isHeader a =
      openCellIn { d with cellTags := d.cellTags + 1 } t row d.cellTags isHeader a := by
  simp only [Web.beginCell]
  rw [hopen]
  dsimp only
  rw [hlast]

theorem Holds.beginCell (h : Holds d o es s) (hrow : ∃ l ∈ o.levels.head?, l.row)
    (hruns : runsInk d.currentRuns = []) (isHeader : Bool) (a : Attrs) :
    Holds (beginCell d isHeader a)
      { o.onTop fun l => { l with cell := some o.tags } with tags := o.tags + 1 } es
      (.here (some o.tags)) := by
  obtain ⟨l, hl, hopenRow⟩ := hrow
  obtain ⟨t, parent, stack, levels, hstack, hlevels, hlinked, hopen⟩ := h.sound.top hl
  obtain ⟨rows, r, hrows⟩ : ∃ rows r, (d.heap t).rows = rows ++ [r] :=
    ⟨_, _, (List.dropLast_concat_getLast (hlinked.1 hopenRow)).symm⟩
  have hlast : (d.heap t).rows.getLast? = some r := by rw [hrows, List.getLast?_concat]
  have hcell := lastCell_addCell hrows ⟨d.cellTags, isHeader, cellAlignOf r isHeader a, []⟩
  have hserved := h.served
  rw [pendingInk_nil hruns] at hserved
  rw [Outline.onTop_eq hlevels, beginCell_eq hopen hlast, ← h.sound.tags, openCellIn]
  refine ⟨{ h.sound with
    linked := ?_, tags := rfl, stands := ⟨rfl, _, rfl, ?_, ?_⟩, agrees := ⟨_, rfl, Or.inr rfl⟩ }, ?_⟩
  · rw [hstack]
    exact hlinked.top fun _ => hcell.rows_ne_nil
  · rw [hstack]
    rfl
  · simp only [Function.update_self]
    exact hcell
  · simp only [docInk, pendingInk, hstack, hruns, List.map_nil] at hserved ⊢
    rw [hlinked.tablesInk_top, ink_addCell hrows rfl]
    exact hserved

theorem Holds.endCell (h : Holds d o es s) (hcell : ∃ l ∈ o.levels.head?, l.cell.isSome) :
    Holds (endCell d) (o.onTop fun l => { l with cell := none }) es .between := by
  obtain ⟨l, hl, hsome⟩ := hcell
  obtain ⟨n, hn⟩ := Option.isSome_iff_exists.mp hsome
  have hs := h.sound.site_of_cell hl hn
  subst hs
  obtain ⟨-, c, hcell, -, -⟩ := h.sound.stands
  obtain ⟨_, _, _, _, -, -, -, hopen⟩ := h.sound.top hl
  obtain ⟨hf, hruns⟩ := h.flush
  obtain ⟨t, parent, stack, levels, hstack, hlevels, hlinked, -⟩ := hf.sound.top hl
  have hserved := hf.served
  rw [pendingInk_nil (by rw [hruns]; rfl)] at hserved
  rw [Outline.onTop_eq hlevels, Web.endCell, hcell]
  refine ⟨{ hf.sound with linked := ?_, stands := ⟨?_, ?_⟩, agrees := ⟨_, rfl, rfl⟩ }, hserved⟩
  · rw [hstack]
    exact ⟨hlinked.1, hlinked.2⟩
  · rw [hopen]
    rfl
  · rw [hruns]
    rfl

theorem Holds.endRow (h : Holds d o es s) (hrow : ∃ l ∈ o.levels.head?, l.row) :
    Holds d (o.onTop fun _ => ⟨false, none⟩) es s := by
  obtain ⟨l, hl, -⟩ := hrow
  obtain ⟨t, parent, stack, levels, hstack, hlevels, hlinked, -⟩ := h.sound.top hl
  rw [Outline.onTop_eq hlevels]
  refine ⟨{ h.sound with linked := ?_, agrees := ?_ }, h.served⟩
  · rw [hstack]
    exact ⟨nofun, hlinked.2⟩
  · match s with
    | .here none =>
        have hnil : o.levels = [] := h.sound.agrees
        rw [hlevels] at hnil
        cases hnil
    | .here (some n) => exact ⟨_, rfl, Or.inl rfl⟩
    | .between => exact ⟨_, rfl, rfl⟩

theorem endTable_eq {t : Nat} {parent : Option CellRef} {stack : List (Nat × Option CellRef)}
    (hstack : (flushCurrent d).tableStack = (t, parent) :: stack) :
    ∃ indent align, endTable d =
      { appendBlock (leaveTable (flushCurrent d) parent stack)
          (.table indent align ((flushCurrent d).heap t)) with currentType := .para } := by
  simp only [endTable, hstack]
  exact ⟨_, _, rfl⟩

/-- Behind the end tag of a table the code is at the top level or in the cell the table stands in. -/
theorem Sound.leaveTable {t : Nat} {parent : Option CellRef} {stack : List (Nat × Option CellRef)}
    {l : Level} {levels : List Level} (h : Sound d o s)
    (hstack : d.tableStack = (t, parent) :: stack) (hlevels : o.levels = l :: levels) :
    ∃ p, Sound (leaveTable d parent stack) { o with levels := levels } (.here p) := by
  have hlinked := h.linked
  rw [hstack, hlevels] at hlinked
  obtain ⟨-, hnested, -, hrest⟩ := hlinked
  have hfresh : ∀ e ∈ stack, e.1 < d.nextTable := by
    intro e he
    apply h.fresh
    rw [hstack]
    exact List.mem_cons_of_mem _ he
  match stack, levels with
  | [], [] =>
      obtain rfl : parent = none := hnested
      exact ⟨none, { h with
        linked := trivial, fresh := hfresh, openTable := rfl, stands := ⟨rfl, rfl, rfl⟩, agrees := rfl }⟩
  | (t', parent') :: stack, l' :: levels =>
      obtain ⟨c, n, rfl, rfl, hcell, hlast⟩ := hnested
      exact ⟨some n, { h with
        linked := hrest, fresh := hfresh, openTable := rfl, stands := ⟨rfl, c, rfl, rfl, hlast⟩
        agrees := ⟨l', rfl, Or.inr hcell⟩ }⟩

theorem Holds.endTable (h : Holds d o es s) (hlevels : o.levels ≠ []) :
    ∃ p, Holds (endTable d) { o with levels := o.levels.tail } es (.here p) := by
  obtain ⟨l, hl⟩ := head?_of_ne_nil hlevels
  obtain ⟨hf, hruns⟩ := h.flush
  obtain ⟨t, parent, stack, levels, hstack, hlevels, -, -⟩ := hf.sound.top hl
  obtain ⟨indent, align, hend⟩ := endTable_eq hstack
  obtain ⟨p, hleft⟩ := hf.sound.leaveTable hstack hlevels
  obtain ⟨hs, hink⟩ := hleft.append (.table indent align ((flushCurrent d).heap t))
  have hserved := hf.served
  rw [pendingInk_nil (by rw [hruns]; rfl), docInk, hstack, tablesInk] at hserved
  rw [hend, hlevels, List.tail_cons]
  refine ⟨p, Holds.calm ⟨hs, ?_⟩ rfl⟩
  rw [pendingInk_nil (by rw [appendBlock_runs, Web.leaveTable, hruns]; rfl), hink, table_ink, docInk]
  simp only [List.append_nil, List.append_assoc] at hserved ⊢
  exact hserved

end

end UnicornSuite.Web
