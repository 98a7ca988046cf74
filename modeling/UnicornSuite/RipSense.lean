import UnicornSuite.RipPress

/-! The auto-sensing sequences in a stream: what is left of it when they are taken out, with the bytes while
the parser is off withheld, and the queries in it. A matcher that at every byte knows the longest end of the
stream that begins a sequence finds the same. -/

namespace UnicornSuite.RipCanvas

/-! ### The stream -/

/-- The bytes that are meant for the parser: the sequences are taken out, and while the parser is off, or
from ESC [ 1 ! to the next ESC [ 2 !, the bytes are withheld. -/
def filtered : Bool → List UInt8 → List UInt8
  | _, [] => []
  | on, 0x1B :: 0x5B :: 0x21 :: bs => filtered on bs
  | on, 0x1B :: 0x5B :: 0x30 :: 0x21 :: bs => filtered on bs
  | _, 0x1B :: 0x5B :: 0x31 :: 0x21 :: bs => filtered false bs
  | _, 0x1B :: 0x5B :: 0x32 :: 0x21 :: bs => filtered true bs
  | on, b :: bs => if on then b :: filtered on bs else filtered on bs

/-- The number of queries, ESC [ ! and ESC [ 0 !. -/
def queries : List UInt8 → Nat
  | [] => 0
  | 0x1B :: 0x5B :: 0x21 :: bs => queries bs + 1
  | 0x1B :: 0x5B :: 0x30 :: 0x21 :: bs => queries bs + 1
  | _ :: bs => queries bs

/-! ### The matcher -/

/-- The bytes of a sequence that have come. -/
def Esc.text : Esc → List UInt8
  | .none => []
  | .esc => [0x1B]
  | .bracket => [0x1B, 0x5B]
  | .digit d => [0x1B, 0x5B, d]

inductive Sense where
  | query | off | on
  deriving DecidableEq

/-- A digit that can be held. -/
def Esc.Valid : Esc → Prop
  | .digit d => d = 0x30 ∨ d = 0x31 ∨ d = 0x32
  | _ => True

/-- What a byte makes of the bytes that have come: a longer beginning, a whole sequence, or neither. -/
inductive Match where
  | more (e : Esc)
  | whole (s : Sense)
  | neither

def Esc.next : Esc → UInt8 → Match
  | .none, b => if b = 0x1B then .more .esc else .neither
  | .esc, b => if b = 0x5B then .more .bracket else .neither
  | .bracket, b =>
      if b = 0x21 then .whole .query else if 0x30 ≤ b ∧ b ≤ 0x32 then .more (.digit b) else .neither
  | .digit d, b =>
      if b = 0x21 then .whole (if d = 0x30 then .query else if d = 0x31 then .off else .on) else .neither

/-- The flag after a sequence. -/
def Sense.enabled : Sense → Bool → Bool
  | query, flag => flag
  | off, _ => false
  | on, _ => true

def Sense.answers : Sense → Nat
  | query => 1
  | _ => 0

/-- The bytes that are meant for the parser so far, without the beginning that has come. -/
structure Matcher where
  esc : Esc := .none
  enabled : Bool := true
  kept : List UInt8 := []
  answers : Nat := 0

/-- Bytes while the parser is on. -/
def passed (on : Bool) (bs : List UInt8) : List UInt8 := if on then bs else []

/-- A byte that does not go on with the beginning may start the next one. -/
def Matcher.step (m : Matcher) (b : UInt8) : Matcher :=
  match m.esc.next b with
  | .more e => { m with esc := e }
  | .whole s => { m with esc := .none, enabled := s.enabled m.enabled, answers := m.answers + s.answers }
  | .neither =>
      if b = 0x1B then { m with esc := .esc, kept := m.kept ++ passed m.enabled m.esc.text }
      else { m with esc := .none, kept := m.kept ++ passed m.enabled (m.esc.text ++ [b]) }

/-- The bytes so far, the beginning among them. -/
def Matcher.total (m : Matcher) : List UInt8 := m.kept ++ passed m.enabled m.esc.text

section Matcher

variable {e e' : Esc} {b : UInt8} {s : Sense} (on : Bool) (bs : List UInt8)

theorem passed_append (on : Bool) (bs bs' : List UInt8) :
    passed on (bs ++ bs') = passed on bs ++ passed on bs' := by
  cases on <;> rfl

@[simp] theorem passed_nil (on : Bool) : passed on [] = [] := by
  cases on <;> rfl

@[simp] theorem text_none : Esc.none.text = [] := rfl

@[simp] theorem text_esc : Esc.esc.text = [0x1B] := rfl

theorem next_more_text (h : e.next b = .more e') : e'.text = e.text ++ [b] := by
  cases e <;> simp only [Esc.next] at h <;> split_ifs at h <;> cases h <;> simp_all [Esc.text]

theorem next_more_valid (h : e.next b = .more e') : e'.Valid := by
  cases e with
  | bracket =>
      simp only [Esc.next] at h
      split_ifs at h with hquery hdigit
      obtain rfl := Match.more.inj h
      simp only [UInt8.le_iff_toNat_le, UInt8.reduceToNat] at hdigit
      simp only [Esc.Valid, ← UInt8.toNat_inj, UInt8.reduceToNat]
      omega
  | digit d =>
      simp only [Esc.next] at h
      split_ifs at h
  | _ =>
      simp only [Esc.next] at h
      split_ifs at h
      obtain rfl := Match.more.inj h
      trivial

/-! ### A byte at the head of the stream -/

/-- Where no sequence starts, the first byte is meant for the parser. -/
theorem filtered_plain {t : List UInt8} (h0 : ∀ bs, b :: t ≠ 0x1B :: 0x5B :: 0x21 :: bs)
    (h1 : ∀ d bs, d = 0x30 ∨ d = 0x31 ∨ d = 0x32 → b :: t ≠ 0x1B :: 0x5B :: d :: 0x21 :: bs) :
    filtered on (b :: t) = passed on [b] ++ filtered on t ∧ queries (b :: t) = queries t := by
  constructor
  · rw [filtered]
    · cases on <;> rfl
    · exact fun bs hb ht => h0 bs (by rw [hb, ht])
    · exact fun bs hb ht => h1 0x30 bs (by decide) (by rw [hb, ht])
    · exact fun bs hb ht => h1 0x31 bs (by decide) (by rw [hb, ht])
    · exact fun bs hb ht => h1 0x32 bs (by decide) (by rw [hb, ht])
  · rw [queries]
    · exact fun bs hb ht => h0 bs (by rw [hb, ht])
    · exact fun bs hb ht => h1 0x30 bs (by decide) (by rw [hb, ht])

theorem filtered_byte (hb : b ≠ 0x1B) :
    filtered on (b :: bs) = passed on [b] ++ filtered on bs ∧ queries (b :: bs) = queries bs :=
  filtered_plain on (by simp [hb]) (by simp [hb])

theorem filtered_esc (hb : b ≠ 0x5B) :
    filtered on (0x1B :: b :: bs) = passed on [0x1B] ++ filtered on (b :: bs) ∧
      queries (0x1B :: b :: bs) = queries (b :: bs) :=
  filtered_plain on (by simp [hb]) (by simp [hb])

theorem filtered_bracket (hquery : b ≠ 0x21) (hdigit : ¬(0x30 ≤ b ∧ b ≤ 0x32)) :
    filtered on (0x1B :: 0x5B :: b :: bs) = passed on [0x1B, 0x5B] ++ filtered on (b :: bs) ∧
      queries (0x1B :: 0x5B :: b :: bs) = queries (b :: bs) := by
  have hdigits : b ≠ 0x30 ∧ b ≠ 0x31 ∧ b ≠ 0x32 := by
    refine ⟨?_, ?_, ?_⟩
    all_goals
      rintro rfl
      exact hdigit (by decide)
  obtain ⟨hbracket, hcount⟩ := filtered_byte on (b :: bs) (show (0x5B : UInt8) ≠ 0x1B by decide)
  obtain ⟨hesc, hall⟩ := @filtered_plain 0x1B on (0x5B :: b :: bs) (by simp [hquery]) (by
    rintro d t (rfl | rfl | rfl) <;> simp [hdigits])
  rw [hesc, hall, hbracket, hcount]
  exact ⟨by cases on <;> rfl, rfl⟩

theorem filtered_digit {d : UInt8} (hd : d = 0x30 ∨ d = 0x31 ∨ d = 0x32) (hquery : b ≠ 0x21) :
    filtered on (0x1B :: 0x5B :: d :: b :: bs) = passed on [0x1B, 0x5B, d] ++ filtered on (b :: bs) ∧
      queries (0x1B :: 0x5B :: d :: b :: bs) = queries (b :: bs) := by
  have hesc : d ≠ 0x1B := by
    rcases hd with rfl | rfl | rfl <;> decide
  have hd' : d ≠ 0x21 := by
    rcases hd with rfl | rfl | rfl <;> decide
  obtain ⟨hdigit, hdigitCount⟩ := filtered_byte on (b :: bs) hesc
  obtain ⟨hbracket, hcount⟩ := filtered_byte on (d :: b :: bs) (show (0x5B : UInt8) ≠ 0x1B by decide)
  obtain ⟨hfirst, hall⟩ :=
    @filtered_plain 0x1B on (0x5B :: d :: b :: bs) (by simp [hd']) (by simp [hquery])
  rw [hfirst, hall, hbracket, hcount, hdigit, hdigitCount]
  exact ⟨by cases on <;> rfl, rfl⟩

/-! ### A beginning at the head of the stream -/

theorem filtered_whole (hvalid : e.Valid) (h : e.next b = .whole s) :
    filtered on (e.text ++ b :: bs) = filtered (s.enabled on) bs ∧
      queries (e.text ++ b :: bs) = queries bs + s.answers := by
  cases e with
  | none =>
      simp only [Esc.next] at h
      split_ifs at h
  | esc =>
      simp only [Esc.next] at h
      split_ifs at h
  | bracket =>
      simp only [Esc.next] at h
      split_ifs at h with hquery
      subst hquery
      cases h
      exact ⟨rfl, rfl⟩
  | digit d =>
      by_cases hquery : b = 0x21
      · subst hquery
        rcases hvalid with rfl | rfl | rfl
        all_goals
          obtain rfl := Match.whole.inj h
          exact ⟨rfl, rfl⟩
      · rw [Esc.next, if_neg hquery] at h
        cases h

theorem filtered_again (hvalid : e.Valid) (h : e.next b = .neither) :
    filtered on (e.text ++ b :: bs) = passed on e.text ++ filtered on (b :: bs) ∧
      queries (e.text ++ b :: bs) = queries (b :: bs) := by
  cases e with
  | none => exact ⟨by cases on <;> rfl, rfl⟩
  | esc =>
      simp only [Esc.next] at h
      split_ifs at h with hb
      exact filtered_esc on bs hb
  | bracket =>
      simp only [Esc.next] at h
      split_ifs at h with hquery hdigit
      exact filtered_bracket on bs hquery hdigit
  | digit d =>
      simp only [Esc.next] at h
      split_ifs at h with hquery
      exact filtered_digit on bs hvalid hquery

theorem filtered_text (hvalid : e.Valid) : filtered on e.text = passed on e.text ∧ queries e.text = 0 := by
  cases e with
  | none => exact ⟨by cases on <;> rfl, rfl⟩
  | esc => exact ⟨by cases on <;> rfl, rfl⟩
  | bracket => exact ⟨by cases on <;> rfl, rfl⟩
  | digit d => rcases hvalid with rfl | rfl | rfl <;> exact ⟨by cases on <;> rfl, rfl⟩

/-! ### The matcher on a stream -/

theorem Matcher.step_valid (m : Matcher) (b : UInt8) : (m.step b).esc.Valid := by
  rw [Matcher.step]
  cases hnext : m.esc.next b with
  | more e => exact next_more_valid hnext
  | whole s => trivial
  | neither =>
      dsimp only
      split_ifs <;> trivial

/-- What the matcher has, with what is still to come, is what the stream has. -/
theorem Matcher.run_total (m : Matcher) (hvalid : m.esc.Valid) (bs : List UInt8) :
    (Machine.run Matcher.step m bs).total = m.kept ++ filtered m.enabled (m.esc.text ++ bs) ∧
      (Machine.run Matcher.step m bs).answers = m.answers + queries (m.esc.text ++ bs) := by
  induction bs generalizing m with
  | nil =>
      obtain ⟨hkept, hcount⟩ := filtered_text m.enabled hvalid
      rw [List.append_nil, hkept, hcount]
      exact ⟨rfl, rfl⟩
  | cons b bs ih =>
      obtain ⟨hkept, hcount⟩ := ih (m.step b) (m.step_valid b)
      rw [Machine.run_cons, hkept, hcount, Matcher.step]
      cases hnext : m.esc.next b with
      | more e =>
          have htext : e.text ++ bs = m.esc.text ++ b :: bs := by
            rw [next_more_text hnext, List.append_assoc, List.singleton_append]
          dsimp only
          rw [htext]
          exact ⟨rfl, rfl⟩
      | whole s =>
          obtain ⟨hwhole, hone⟩ := filtered_whole m.enabled bs hvalid hnext
          dsimp only
          rw [hwhole, hone]
          refine ⟨rfl, ?_⟩
          rw [text_none, List.nil_append]
          omega
      | neither =>
          obtain ⟨hagain, hcount⟩ := filtered_again m.enabled bs hvalid hnext
          dsimp only
          rw [hagain, hcount]
          by_cases hb : b = 0x1B
          · subst hb
            rw [if_pos rfl]
            exact ⟨List.append_assoc _ _ _, rfl⟩
          · obtain ⟨hbyte, hnone⟩ := filtered_byte m.enabled bs hb
            rw [if_neg hb, hbyte, hnone]
            exact ⟨by simp [passed_append], rfl⟩

/-- A byte that ends no sequence is one more, whether it is held or kept. -/
theorem Matcher.total_step (m : Matcher) (b : UInt8) (h : ∀ s, m.esc.next b ≠ .whole s) :
    (m.step b).total = m.total ++ passed m.enabled [b] ∧ (m.step b).enabled = m.enabled ∧
      (m.step b).answers = m.answers := by
  rw [Matcher.step]
  cases hnext : m.esc.next b with
  | more e =>
      have htext := next_more_text hnext
      simp [Matcher.total, htext, passed_append]
  | whole s => exact absurd hnext (h s)
  | neither =>
      by_cases hb : b = 0x1B
      · simp [Matcher.total, hb]
      · simp [Matcher.total, hb, passed_append]

end Matcher

end UnicornSuite.RipCanvas
