import UnicornSuite.GopherUndot
import Mathlib.Data.List.TakeWhile

/-! What arrives of a menu: the lines are sent with their periods doubled, the reply is un-stuffed and
`gophermap_parse` reads what is left. Both know the line with a single period as the end; to the second it
is a line of the menu. -/

namespace UnicornSuite.Gopher

open CText

/-! ### Menus as they are sent -/

/-- The text of a field. -/
structure MenuField where
  text : List UInt8
  noTab : tab ∉ text
  noReturn : carriageReturn ∉ text
  noNewline : newline ∉ text

/-- A line of a menu: one without a tab, or a type, a display and a selector, behind which the host, the
port and further fields may follow. -/
inductive MenuLine where
  | plain (text : List UInt8) (noTab : tab ∉ text) (noNewline : newline ∉ text)
  | item (type : UInt8) (display selector : MenuField) (more : List MenuField) (noNewline : type ≠ newline)

/-- Fields, each behind a tab. -/
def fieldBytes (fs : List MenuField) : List UInt8 := fs.flatMap fun f => tab :: f.text

def MenuLine.text : MenuLine → List UInt8
  | plain text _ _ => text
  | item type display selector more _ => type :: (display.text ++ fieldBytes (selector :: more))

/-- The port that a field names. -/
def fieldPort : Option MenuField → Nat
  | none => gopherDefaultPort
  | some f => portOf (atoi f.text)

/-- The item that a line stands for. -/
def MenuLine.meant : MenuLine → GopherItem
  | plain text _ _ => ⟨typeInfo, text, [], [], gopherDefaultPort⟩
  | item type display selector more _ =>
      ⟨type, display.text, selector.text, (more[0]?.map MenuField.text).getD [], fieldPort more[1]?⟩

/-- Empty lines stand for nothing. -/
def MenuLine.sent (l : MenuLine) : Option GopherItem := if l.text = [] then none else some l.meant

theorem newline_notMem_fieldBytes (fs : List MenuField) : newline ∉ fieldBytes fs := by
  intro hmem
  obtain ⟨f, -, hf⟩ := List.mem_flatMap.mp hmem
  rcases List.mem_cons.mp hf with heq | hf
  · exact absurd heq (by decide)
  · exact f.noNewline hf

theorem MenuLine.newline_notMem (l : MenuLine) : newline ∉ l.text := by
  cases l with
  | plain text htab hnewline => exact hnewline
  | item type display selector more htype =>
      simp only [MenuLine.text, List.mem_cons, List.mem_append, not_or]
      exact ⟨Ne.symm htype, display.noNewline, newline_notMem_fieldBytes _⟩

def MenuLine.textLine (l : MenuLine) : TextLine := ⟨l.text, .crlf, l.newline_notMem⟩

/-- The items that the menu view is given (`gopher_fetch_sync`, `gopher_on_fetch_done`). -/
def delivered (reply : List UInt8) : List GopherItem :=
  gophermapParse ((gopherUndotInplace reply).1.take (gopherUndotInplace reply).2)

/-- The reply with the menu, and what ends it. -/
def menuReply (ls : List MenuLine) (t : Terminator) : List UInt8 :=
  stuffed (ls.map MenuLine.textLine) ++ t.bytes

/-! ### Ports -/

section Ports

variable {p x : List UInt8}

/-- White space is passed over. -/
theorem atoi_blank (hp : ∀ c ∈ p, isSpace c = true) : atoi (p ++ x) = atoi x := by
  rw [atoi, List.dropWhile_append_of_pos hp]
  rfl

/-- Behind something that is not white space a number ends with what is no digit. -/
theorem atoi_append (hp : ¬ ∀ c ∈ p, isSpace c = true) (hx : ∀ c ∈ x.head?, isDigit c = false) :
    atoi (p ++ x) = atoi p := by
  have hne : p.dropWhile isSpace ≠ [] := fun hnil => hp (List.dropWhile_eq_nil_iff.mp hnil)
  obtain ⟨c, q, hq⟩ := List.exists_cons_of_ne_nil hne
  have hdrop : (p ++ x).dropWhile isSpace = c :: (q ++ x) := by
    rw [List.dropWhile_append, hq]
    rfl
  have hrun (s : List UInt8) : (s ++ x).takeWhile isDigit = s.takeWhile isDigit := by
    induction s with
    | nil =>
        cases x with
        | nil => rfl
        | cons d x => exact List.takeWhile_cons_of_neg (by simp [hx d rfl])
    | cons d s ih =>
        rw [List.cons_append, List.takeWhile_cons, List.takeWhile_cons, ih]
  have hdigits :
      (if c = 0x2B ∨ c = 0x2D then q ++ x else c :: (q ++ x)).takeWhile isDigit =
        (if c = 0x2B ∨ c = 0x2D then q else c :: q).takeWhile isDigit := by
    split
    · exact hrun q
    · exact hrun (c :: q)
  rw [atoi, atoi, hdrop, hq]
  simp only [List.head?_cons, List.tail_cons, Option.some.injEq, hdigits]

/-- The port field says its port in the 15 bytes that are looked at: one with more bytes has the same
port there, and behind a blank one no other number follows. -/
def PortFits (port behind : List UInt8) : Prop :=
  (15 < port.length → portOf (atoi (port.take 15)) = portOf (atoi port)) ∧
    ((∀ c ∈ port, isSpace c = true) → port.length ≤ 15 →
      portOf (atoi (behind.take (15 - port.length))) = gopherDefaultPort)

theorem portFits_iff (hx : ∀ c ∈ x.head?, isDigit c = false) :
    portOf (atoi ((p ++ x).take 15)) = portOf (atoi p) ↔ PortFits p x := by
  by_cases hlen : 15 < p.length
  · have htake : (p ++ x).take 15 = p.take 15 := List.take_append_of_le_length (by omega)
    rw [htake]
    exact ⟨fun h => ⟨fun _ => h, fun _ hle => absurd hle (by omega)⟩, fun h => h.1 hlen⟩
  · have htake : (p ++ x).take 15 = p ++ x.take (15 - p.length) := by
      rw [List.take_append, List.take_of_length_le (by omega)]
    have hhead : ∀ c ∈ (x.take (15 - p.length)).head?, isDigit c = false := by
      intro c hc
      rw [List.head?_take] at hc
      split at hc
      · cases hc
      · exact hx c hc
    rw [htake]
    by_cases hblank : ∀ c ∈ p, isSpace c = true
    · have hzero : portOf (atoi p) = gopherDefaultPort := by
        rw [← List.append_nil p, atoi_blank hblank]
        rfl
      rw [atoi_blank hblank, hzero]
      exact ⟨fun h => ⟨fun hlt => absurd hlt hlen, fun _ _ => h⟩, fun h => h.2 hblank (by omega)⟩
    · rw [atoi_append hblank hhead]
      exact iff_of_true rfl ⟨fun hlt => absurd hlt hlen, fun h => absurd h hblank⟩

end Ports

/-! ### Lines -/

/-- The line is not a single period, no field has a zero byte, and the port is found. -/
def MenuLine.Sound : MenuLine → Prop
  | plain text _ _ => text ≠ [period] ∧ 0 ∉ text
  | item _ display selector more _ =>
      0 ∉ display.text ∧ 0 ∉ selector.text ∧ (∀ host ∈ more[0]?, 0 ∉ host.text) ∧
        ∀ port ∈ more[1]?, PortFits port.text (fieldBytes (more.drop 2))

section Lines

theorem cstr_eq_self_iff {s : List UInt8} : cstr s = s ↔ 0 ∉ s := by
  rw [cstr, List.takeWhile_eq_self_iff]
  constructor
  · exact fun h hmem => absurd (h 0 hmem) (by decide)
  · exact fun h c hc => decide_eq_true fun heq => h (heq ▸ hc)

theorem head?_fieldBytes (fs : List MenuField) : ∀ c ∈ (fieldBytes fs).head?, c = tab := by
  cases fs with
  | nil => exact fun c hc => absurd hc (by simp [fieldBytes])
  | cons f fs => exact fun c hc => (Option.some.inj hc).symm

theorem fieldBytes_cons (f : MenuField) (fs : List MenuField) :
    fieldBytes (f :: fs) = tab :: (f.text ++ fieldBytes fs) := List.flatMap_cons

/-- A field ends at the tab in front of the next. -/
theorem field_text (f : MenuField) (fs : List MenuField) :
    field (f.text ++ fieldBytes fs) = cstr f.text ∧
      behindTab (f.text ++ fieldBytes fs) = (fieldBytes fs).tail := by
  have htext : ∀ c ∈ f.text, decide (c ≠ tab) = true :=
    fun c hc => decide_eq_true fun heq => f.noTab (heq ▸ hc)
  have hnext : ∀ c ∈ (fieldBytes fs).head?, decide (c ≠ tab) = false :=
    fun c hc => decide_eq_false (not_not.mpr (head?_fieldBytes fs c hc))
  rw [field, behindTab, takeWhile_append htext hnext, dropWhile_append htext hnext]
  exact ⟨rfl, rfl⟩

/-- A line with a tab is read as its item where it is sound. -/
theorem gopherItem_item_iff (type : UInt8) (display selector : MenuField) (more : List MenuField)
    (htype : type ≠ newline) :
    gopherItem (MenuLine.item type display selector more htype).text =
        (MenuLine.item type display selector more htype).meant ↔
      (MenuLine.item type display selector more htype).Sound := by
  have htab : tab ∈ (MenuLine.item type display selector more htype).text := by
    simp [MenuLine.text, fieldBytes_cons]
  have hdisplay := field_text display (selector :: more)
  have hselector := field_text selector more
  rw [fieldBytes_cons, List.tail_cons] at hdisplay
  rw [gopherItem, if_neg (not_not.mpr htab)]
  simp only [MenuLine.text, List.tail_cons, List.headD_cons, fieldBytes_cons, hdisplay, hselector]
  cases more with
  | nil =>
      have hnone : field (fieldBytes ([] : List MenuField)).tail = [] := rfl
      have hport : portOf (atoi ((behindTab (fieldBytes ([] : List MenuField)).tail).take 15)) =
          gopherDefaultPort := rfl
      rw [hnone, hport]
      simp [MenuLine.meant, MenuLine.Sound, fieldPort, cstr_eq_self_iff]
  | cons host more =>
      have hhost := field_text host more
      simp only [fieldBytes_cons, List.tail_cons, hhost]
      cases more with
      | nil =>
          have hport : portOf (atoi ((fieldBytes ([] : List MenuField)).tail.take 15)) =
              gopherDefaultPort := rfl
          rw [hport]
          simp [MenuLine.meant, MenuLine.Sound, fieldPort, cstr_eq_self_iff]
      | cons port more =>
          have hdigit : ∀ c ∈ (fieldBytes more).head?, isDigit c = false := by
            intro c hc
            rw [head?_fieldBytes more c hc]
            decide
          have hport := portFits_iff (p := port.text) hdigit
          simp only [fieldBytes_cons, List.tail_cons]
          simp [MenuLine.meant, MenuLine.Sound, fieldPort, cstr_eq_self_iff, hport]

theorem gopherItem_iff (l : MenuLine) (hperiod : l.text ≠ [period]) :
    gopherItem l.text = l.meant ↔ l.Sound := by
  cases l with
  | plain text htab hnewline =>
      rw [MenuLine.text, gopherItem, if_pos htab]
      simp only [MenuLine.meant, MenuLine.Sound, GopherItem.mk.injEq, cstr_eq_self_iff, true_and, and_true]
      exact (and_iff_right hperiod).symm
  | item type display selector more htype => exact gopherItem_item_iff type display selector more htype

theorem MenuLine.sound_of_empty {l : MenuLine} (hempty : l.text = []) : l.Sound := by
  cases l with
  | plain text htab hnewline =>
      obtain rfl : text = [] := hempty
      exact ⟨by decide, List.not_mem_nil⟩
  | item type display selector more htype => cases hempty

theorem MenuLine.not_sound_of_period {l : MenuLine} (hperiod : l.text = [period]) : ¬ l.Sound := by
  cases l with
  | plain text htab hnewline => exact fun h => h.1 hperiod
  | item type display selector more htype =>
      have hlen := congrArg List.length hperiod
      simp [MenuLine.text, fieldBytes_cons] at hlen

/-- What the parser makes of a line. -/
theorem gophermapParse_line (l : MenuLine) (s : List UInt8) :
    gophermapParse (l.textLine.bytes ++ s) =
      if l.text = [] then gophermapParse s
      else if l.text = [period] then []
      else gopherItem l.text :: gophermapParse s := by
  have hbytes : l.textLine.bytes ++ s = (l.text ++ [carriageReturn]) ++ newline :: s := by
    simp [TextLine.bytes, MenuLine.textLine, LineEnd.bytes]
  have hne : ∀ c ∈ l.text ++ [carriageReturn], decide (c ≠ newline) = true := by
    intro c hc
    rw [List.mem_append, List.mem_singleton] at hc
    rcases hc with hc | rfl
    · exact decide_eq_true fun heq => l.newline_notMem (heq ▸ hc)
    · decide
  have htrim : trimReturn (l.text ++ [carriageReturn]) = l.text := by
    rw [trimReturn, List.getLast?_concat, if_pos rfl, List.dropLast_concat]
  rw [hbytes, gophermapParse, dif_neg (by simp), takeWhile_append hne (by simp),
    dropWhile_append hne (by simp), htrim]
  rfl

end Lines

/-! ### Menus -/

theorem delivered_menuReply (ls : List MenuLine) (t : Terminator) :
    delivered (menuReply ls t) = gophermapParse (textBytes (ls.map MenuLine.textLine)) := by
  rw [delivered, menuReply, gopherUndotInplace_unstuff, unstuff_stuffed]

/-- The items of the menu are those that were sent, in order, if and only if every line is sound. -/
theorem delivered_iff (ls : List MenuLine) (t : Terminator) :
    delivered (menuReply ls t) = ls.filterMap MenuLine.sent ↔ ∀ l ∈ ls, l.Sound := by
  rw [delivered_menuReply]
  induction ls with
  | nil =>
      refine iff_of_true ?_ fun l hl => absurd hl List.not_mem_nil
      rw [List.map_nil, textBytes, List.flatMap_nil, gophermapParse, dif_pos rfl, List.filterMap_nil]
  | cons l ls ih =>
      have hbytes : textBytes ((l :: ls).map MenuLine.textLine) =
          l.textLine.bytes ++ textBytes (ls.map MenuLine.textLine) := rfl
      rw [hbytes, gophermapParse_line, List.filterMap_cons, List.forall_mem_cons]
      by_cases hempty : l.text = []
      · rw [if_pos hempty, MenuLine.sent, if_pos hempty]
        exact ih.trans (and_iff_right (MenuLine.sound_of_empty hempty)).symm
      · rw [if_neg hempty, MenuLine.sent, if_neg hempty]
        by_cases hperiod : l.text = [period]
        · rw [if_pos hperiod]
          refine iff_of_false (by simp) fun h => MenuLine.not_sound_of_period hperiod h.1
        · rw [if_neg hperiod, ← gopherItem_iff l hperiod, ← ih]
          exact List.cons.injEq .. ▸ Iff.rfl

/-- A line with a period between two others ends the menu. -/
theorem period_line_ends_menu :
    ¬ (delivered (menuReply
          [.plain (ascii "a") (by decide) (by decide), .plain [period] (by decide) (by decide),
            .plain (ascii "b") (by decide) (by decide)] (.line .crlf [])) =
        [.plain (ascii "a") (by decide) (by decide), .plain [period] (by decide) (by decide),
          .plain (ascii "b") (by decide) (by decide)].filterMap MenuLine.sent) := by
  rw [delivered_menuReply]
  decide +kernel

end UnicornSuite.Gopher
