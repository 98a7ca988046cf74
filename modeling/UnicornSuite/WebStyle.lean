import UnicornSuite.LibNesting
import UnicornSuite.WebReading

/-! The style state while a page is read. What an event does to it depends on the style state alone
(`nextStyle`), and the elements that push onto it have an end tag that pops. The two are no inverses
where FONT asks for a fixed pitch face, where a stack of sixteen is full, for a CAPTION under CENTER and
for a link inside of a link. -/

namespace UnicornSuite.Web

open Machine Nesting

/-! ### What an event does to the style -/

def startStyle (s : StyleState) (e : Element) (a : Attrs) : StyleState :=
  match e with
  | .blockquote | .dl | .dd => { s with indentDepth := s.indentDepth + 1 }
  | .center => { s with centerDepth := s.centerDepth + 1 }
  | .b | .strong => { s with boldDepth := s.boldDepth + 1 }
  | .i | .em => { s with italicDepth := s.italicDepth + 1 }
  | .u => { s with underlineDepth := s.underlineDepth + 1 }
  | .tt | .code | .kbd | .samp => { s with monoDepth := s.monoDepth + 1 }
  | .sub => { s with subDepth := s.subDepth + 1 }
  | .sup => { s with supDepth := s.supDepth + 1 }
  | .small => { s with smallDepth := s.smallDepth + 1 }
  | .a => beginAnchor s a
  | .font => beginFont s a
  | .ul => beginList s .unordered
  | .ol => beginList s .ordered
  | .li => { s with listStack := (liBullet s.listStack).2 }
  | .caption => { s with centerDepth := if s.centerDepth = 0 then 1 else s.centerDepth }
  | _ => s

def stopStyle (s : StyleState) (e : Element) : StyleState :=
  match e with
  | .blockquote | .dl | .dd => { s with indentDepth := s.indentDepth - 1 }
  | .center | .caption => { s with centerDepth := s.centerDepth - 1 }
  | .b | .strong => { s with boldDepth := s.boldDepth - 1 }
  | .i | .em => { s with italicDepth := s.italicDepth - 1 }
  | .u => { s with underlineDepth := s.underlineDepth - 1 }
  | .tt | .code | .kbd | .samp => { s with monoDepth := s.monoDepth - 1 }
  | .sub => { s with subDepth := s.subDepth - 1 }
  | .sup => { s with supDepth := s.supDepth - 1 }
  | .small => { s with smallDepth := s.smallDepth - 1 }
  | .a => endAnchor s
  | .font => endFont s
  | .ul | .ol => endList s
  | _ => s

def nextStyle (s : StyleState) : Event → StyleState
  | .start e a => startStyle s e a
  | .stop e => stopStyle s e
  | .text _ => s

section

variable (d : WebDoc)

@[simp] theorem appendBlock_style (b : WebBlock) : (appendBlock d b).style = d.style := by
  rw [appendBlock]
  split <;> rfl

@[simp] theorem flushCurrent_style : (flushCurrent d).style = d.style := by
  rw [flushCurrent]
  split_ifs
  · rfl
  · exact appendBlock_style d _

@[simp] theorem startBlock_style (type : BlockType) : (startBlock d type).style = d.style :=
  flushCurrent_style d

@[simp] theorem storeText_style (text : List Char) : (storeText d text).style = d.style := by
  rw [storeText]
  split_ifs
  · rfl
  · split
    · split_ifs <;> rfl
    · rfl

@[simp] theorem appendText_style (text : List Char) : (appendText d text).style = d.style := by
  rw [appendText]
  split_ifs
  · rfl
  · rfl
  · exact storeText_style d text

theorem beginImage_style (a : Attrs) : (beginImage d a).style = d.style := by
  rw [beginImage]
  split
  · split_ifs
    · rfl
    · exact (appendBlock_style (flushCurrent d) _).trans (flushCurrent_style d)
  · rfl

theorem beginRow_style (a : Attrs) : (beginRow d a).style = d.style := by
  rw [beginRow]
  split <;> rfl

theorem beginCell_style (isHeader : Bool) (a : Attrs) : (beginCell d isHeader a).style = d.style := by
  simp only [beginCell]
  split
  · split <;> rfl
  · rfl

theorem endTable_style : (endTable d).style = d.style := by
  simp only [endTable]
  split
  · exact flushCurrent_style d
  · exact (appendBlock_style _ _).trans (flushCurrent_style d)

theorem endCell_style : (endCell d).style = d.style := by
  rw [endCell]
  split
  · exact flushCurrent_style d
  · rfl

theorem beginElement_style (e : Element) (a : Attrs) :
    (beginElement d e a).style = startStyle d.style e a := by
  cases e with
  | p | div => exact startBlock_style d .para
  | pre => exact startBlock_style d .pre
  | dt => exact startBlock_style d .dt
  | h level => exact startBlock_style d (.h level)
  | blockquote | center | dd => exact startBlock_style _ _
  | br => exact appendText_style d _
  | hr => exact (appendBlock_style (flushCurrent d) _).trans (flushCurrent_style d)
  | li => simp only [beginElement, startLi, flushCurrent_style, startStyle]
  | table => exact flushCurrent_style d
  | caption => simp only [beginElement, beginCaption, onStyle, startBlock_style, startStyle]
  | tr => exact beginRow_style d a
  | td | th => exact beginCell_style d _ a
  | img => exact beginImage_style d a
  | _ => rfl

theorem endElement_style (e : Element) : (endElement d e).style = stopStyle d.style e := by
  cases e with
  | p | div | h | pre | li | dt => exact startBlock_style d _
  | blockquote | dl | dd | center | ul | ol | caption => exact startBlock_style _ _
  | table => exact endTable_style d
  | td | th => exact endCell_style d
  | _ => rfl

theorem onEvent_style (e : Event) : (onEvent d e).style = nextStyle d.style e := by
  cases e with
  | start e a => exact beginElement_style d e a
  | stop e => exact endElement_style d e
  | text t => exact appendText_style d t

end

/-! ### Styles up to list counters -/

/-- A list without the counter of its items. -/
def forgetCounter : ListKind × Nat → ListKind × Nat
  | (.ordered, _) => (.ordered, 0)
  | (.unordered, n) => (.unordered, n)

def StyleState.forget (s : StyleState) : StyleState :=
  { s with listStack := s.listStack.map forgetCounter }

/-- The two agree on everything but the item counters of open ordered lists. -/
def StyleState.Same (s s' : StyleState) : Prop := s.forget = s'.forget

variable {s s' : StyleState}

theorem StyleState.Same.intro {lists : List (ListKind × Nat)}
    (h : lists.map forgetCounter = s.listStack.map forgetCounter) :
    s.Same { s with listStack := lists } := by
  rw [StyleState.Same, StyleState.forget, StyleState.forget, h]

theorem StyleState.Same.elim (h : s.Same s') : ∃ lists, s' = { s with listStack := lists } ∧
    lists.map forgetCounter = s.listStack.map forgetCounter := by
  obtain ⟨⟩ := s
  obtain ⟨⟩ := s'
  simp only [StyleState.Same, StyleState.forget, StyleState.mk.injEq] at h
  refine ⟨_, ?_, h.2.2.2.2.2.2.2.2.2.2.2.2.2.symm⟩
  simp only [h]

theorem same_equivalence : Equivalence fun d d' : WebDoc => d.style.Same d'.style :=
  ⟨fun _ => rfl, Eq.symm, Eq.trans⟩

theorem forget_liBullet (lists : List (ListKind × Nat)) :
    (liBullet lists).2.map forgetCounter = lists.map forgetCounter := by
  match lists with
  | [] | (.unordered, _) :: _ | (.ordered, _) :: _ => rfl

theorem forget_pushCapped {lists lists' : List (ListKind × Nat)}
    (h : lists'.map forgetCounter = lists.map forgetCounter) (kind : ListKind) :
    (pushCapped lists' (kind, 1)).map forgetCounter =
      (pushCapped lists (kind, 1)).map forgetCounter := by
  have hlen : lists'.length = lists.length := by
    rw [← List.length_map, h, List.length_map]
  rw [pushCapped, pushCapped, hlen]
  split_ifs
  · rw [List.map_cons, List.map_cons, h]
  · exact h

theorem forget_tail {lists lists' : List (ListKind × Nat)}
    (h : lists'.map forgetCounter = lists.map forgetCounter) :
    lists'.tail.map forgetCounter = lists.tail.map forgetCounter := by
  rw [List.map_tail, h, List.map_tail]

/-- No event can tell two styles apart that are the same up to counters. -/
theorem StyleState.Same.next (h : s.Same s') (e : Event) : (nextStyle s e).Same (nextStyle s' e) := by
  obtain ⟨lists, rfl, hlists⟩ := h.elim
  cases e with
  | start e a =>
      cases e with
      | ul | ol => exact StyleState.Same.intro (forget_pushCapped hlists _)
      | li =>
          refine StyleState.Same.intro ?_
          exact (forget_liBullet _).trans (hlists.trans (forget_liBullet _).symm)
      | _ => exact StyleState.Same.intro hlists
  | stop e =>
      cases e with
      | ul | ol => exact StyleState.Same.intro (forget_tail hlists)
      | _ => exact StyleState.Same.intro hlists
  | text t => exact h

/-! ### Elements that give the style back -/

/-- In that style the end tag of the element undoes its start tag. -/
def Returns (s : StyleState) (e : Element) (a : Attrs) : Prop :=
  (e = .font → a.monoFace = false ∧ s.colorStack.length < webStack ∧
    s.sizeStack.length < webStack) ∧
  (e = .ul ∨ e = .ol → s.listStack.length < webStack) ∧
  (e = .caption → s.centerDepth = 0) ∧
  (e = .a → s.linkDepth > 0 → ∀ href ∈ a.href, s.currentHref = some href)

instance (s : StyleState) (e : Element) (a : Attrs) : Decidable (Returns s e a) :=
  inferInstanceAs (Decidable (_ ∧ _ ∧ _ ∧ _))

/-- Without an open link there is no current one. -/
def NoLink (s : StyleState) : Prop := s.linkDepth = 0 → s.currentHref = none

theorem tail_pushCapped_eq_iff {α : Type} {l : List α} {v : α} :
    (pushCapped l v).tail = l ↔ l.length < webStack := by
  rw [pushCapped]
  split_ifs with hroom
  · exact iff_of_true rfl hroom
  · refine iff_of_false (fun h => hroom ?_) hroom
    have hlen := congrArg List.length h
    rw [List.length_tail] at hlen
    have hempty : l.length = 0 := by omega
    rw [hempty]
    decide

theorem forget_tail_pushCapped_iff {l : List (ListKind × Nat)} {kind : ListKind} :
    ((pushCapped l (kind, 1)).tail.map forgetCounter = l.map forgetCounter) ↔
      l.length < webStack := by
  constructor
  · intro h
    by_contra hroom
    have hlen := congrArg List.length h
    rw [pushCapped, if_neg hroom, List.length_map, List.length_map, List.length_tail] at hlen
    have hempty : l.length = 0 := by omega
    exact hroom (by rw [hempty]; decide)
  · intro hroom
    rw [tail_pushCapped_eq_iff.mpr hroom]

theorem font_returns (s : StyleState) (a : Attrs) :
    s.Same (endFont (beginFont s a)) ↔
      a.monoFace = false ∧ s.colorStack.length < webStack ∧ s.sizeStack.length < webStack := by
  have hmono : (s.monoDepth = if a.monoFace = true then s.monoDepth + 1 else s.monoDepth) ↔
      a.monoFace = false := by
    cases a.monoFace <;> simp
  rw [StyleState.Same]
  simp only [StyleState.forget, endFont, beginFont, StyleState.mk.injEq, true_and, and_true]
  rw [hmono, eq_comm (a := s.colorStack), tail_pushCapped_eq_iff, eq_comm (a := s.sizeStack),
    tail_pushCapped_eq_iff]

theorem list_returns (s : StyleState) (kind : ListKind) :
    s.Same (endList (beginList s kind)) ↔ s.listStack.length < webStack := by
  rw [StyleState.Same]
  simp only [StyleState.forget, endList, beginList, StyleState.mk.injEq, true_and,
    Nat.add_sub_cancel]
  rw [eq_comm, forget_tail_pushCapped_iff]

theorem anchor_returns (hlink : NoLink s) (a : Attrs) :
    s.Same (endAnchor (beginAnchor s a)) ↔
      (s.linkDepth > 0 → ∀ href ∈ a.href, s.currentHref = some href) := by
  rw [StyleState.Same]
  simp only [StyleState.forget, endAnchor, beginAnchor, StyleState.mk.injEq, true_and, and_true,
    Nat.add_sub_cancel]
  by_cases hdepth : s.linkDepth = 0
  · rw [if_pos hdepth, hlink hdepth]
    exact iff_of_true rfl fun hno => absurd hno (by omega)
  · rw [if_neg hdepth]
    cases a.href with
    | none => exact iff_of_true rfl fun _ => nofun
    | some href =>
        constructor
        · rintro h - _ hmem
          obtain rfl := Option.some.inj hmem
          exact h
        · intro h
          exact h (Nat.pos_of_ne_zero hdepth) href rfl

theorem caption_returns (s : StyleState) (a : Attrs) :
    s.Same (stopStyle (startStyle s .caption a) .caption) ↔ s.centerDepth = 0 := by
  rw [StyleState.Same]
  simp only [StyleState.forget, stopStyle, startStyle, StyleState.mk.injEq, true_and, and_true]
  split_ifs <;> omega

/-- An element around nothing gives the style back exactly where it should. -/
theorem returns_iff (hlink : NoLink s) (e : Element) (a : Attrs) :
    Returns s e a ↔ s.Same (stopStyle (startStyle s e a) e) := by
  have hflat : ∀ {e : Element}, e ≠ .font → e ≠ .ul → e ≠ .ol → e ≠ .caption → e ≠ .a →
      Returns s e a := fun h1 h2 h3 h4 h5 =>
    ⟨fun h => absurd h h1, fun h => h.elim (absurd · h2) (absurd · h3), fun h => absurd h h4,
      fun h => absurd h h5⟩
  cases e with
  | font =>
      refine Iff.trans ?_ (font_returns s a).symm
      exact ⟨fun h => h.1 rfl, fun h => ⟨fun _ => h, nofun, nofun, nofun⟩⟩
  | ul =>
      refine Iff.trans ?_ (list_returns s .unordered).symm
      exact ⟨fun h => h.2.1 (Or.inl rfl), fun h => ⟨nofun, fun _ => h, nofun, nofun⟩⟩
  | ol =>
      refine Iff.trans ?_ (list_returns s .ordered).symm
      exact ⟨fun h => h.2.1 (Or.inr rfl), fun h => ⟨nofun, fun _ => h, nofun, nofun⟩⟩
  | caption =>
      refine Iff.trans ?_ (caption_returns s a).symm
      exact ⟨fun h => h.2.2.1 rfl, fun h => ⟨nofun, nofun, fun _ => h, nofun⟩⟩
  | a =>
      refine Iff.trans ?_ (anchor_returns hlink a).symm
      exact ⟨fun h => h.2.2.2 rfl, fun h => ⟨nofun, nofun, nofun, fun _ => h⟩⟩
  | li =>
      exact iff_of_true (hflat nofun nofun nofun nofun nofun)
        (StyleState.Same.intro (forget_liBullet _))
  | _ => exact iff_of_true (hflat nofun nofun nofun nofun nofun) (StyleState.Same.intro rfl)

/-- It stays so. -/
theorem NoLink.next (h : NoLink s) (e : Event) : NoLink (nextStyle s e) := by
  cases e with
  | start e a =>
      cases e with
      | a => exact fun hno => absurd hno (Nat.succ_ne_zero _)
      | _ => exact h
  | stop e =>
      cases e with
      | a => exact fun hzero => if_pos hzero
      | _ => exact h
  | text t => exact h

end UnicornSuite.Web
