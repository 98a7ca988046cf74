import UnicornSuite.GopherUrl
import UnicornSuite.LibInPlace
import Mathlib.Logic.Relation

/-! A reply of a Gopher server (`gopher_undot_inplace` of `gopher_protocol.c`): lines that start with a
period are sent with two, and a line with a single period ends the text. The code undoes this in the
buffer of the reply itself. -/

namespace UnicornSuite.Gopher

open InPlace

def period : UInt8 := 0x2E

/-! ### The code -/

/-- The buffer with the positions of the reader and of the writer. -/
structure Undot where
  buf : List UInt8
  r : Nat
  w : Nat

/-- Where the line that starts at `r` ends, its LF taken in. -/
def lineEnd (buf : List UInt8) (len r : Nat) : Nat :=
  let e := r + (((buf.take len).drop r).takeWhile (· ≠ newline)).length
  if e < len then e + 1 else e

def isTerminator (line : List UInt8) : Bool :=
  line = [period, newline] ∨ line = [period, carriageReturn, newline] ∨ line = [period]

/-- One line of the buffer, where there is one and it does not end the text. -/
def undotStep (len : Nat) (s : Undot) : Option Undot :=
  if s.r < len then
    let e := lineEnd s.buf len s.r
    let n := e - s.r
    let line := (s.buf.drop s.r).take n
    if isTerminator line then none
    else if 2 ≤ n ∧ line.take 2 = [period, period] then
      some ⟨move s.buf s.w (s.r + 1) (n - 1), e, s.w + (n - 1)⟩
    else some ⟨if s.w ≠ s.r then move s.buf s.w s.r n else s.buf, e, s.w + n⟩
  else none

theorem lt_lineEnd {len r : Nat} (buf : List UInt8) (hr : r < len) : r < lineEnd buf len r := by
  simp only [lineEnd]
  split <;> omega

/-- What a line of the buffer comes to. -/
theorem undotStep_some {len : Nat} {s t : Undot} (h : undotStep len s = some t) :
    ∃ e n line, e = lineEnd s.buf len s.r ∧ n = e - s.r ∧ line = (s.buf.drop s.r).take n ∧ s.r < len ∧
      isTerminator line = false ∧
      (2 ≤ n ∧ line.take 2 = [period, period] ∧
          t = ⟨move s.buf s.w (s.r + 1) (n - 1), e, s.w + (n - 1)⟩ ∨
        ¬ (2 ≤ n ∧ line.take 2 = [period, period]) ∧
          t = ⟨if s.w ≠ s.r then move s.buf s.w s.r n else s.buf, e, s.w + n⟩) := by
  simp only [undotStep] at h
  split at h
  · rename_i hr
    split at h
    · cases h
    · rename_i hend
      refine ⟨_, _, _, rfl, rfl, rfl, hr, Bool.eq_false_iff.mpr hend, ?_⟩
      split at h
      · rename_i hdots
        exact Or.inl ⟨hdots.1, hdots.2, (Option.some.inj h).symm⟩
      · rename_i hdots
        exact Or.inr ⟨hdots, (Option.some.inj h).symm⟩
  · cases h

theorem undotStep_r {len : Nat} {s t : Undot} (h : undotStep len s = some t) :
    s.r < len ∧ t.r = lineEnd s.buf len s.r := by
  obtain ⟨e, n, line, rfl, -, -, hr, -, ⟨-, -, rfl⟩ | ⟨-, rfl⟩⟩ := undotStep_some h
  · exact ⟨hr, rfl⟩
  · exact ⟨hr, rfl⟩

def undotLoop (len : Nat) (s : Undot) : Undot :=
  match _ : undotStep len s with
  | some t => undotLoop len t
  | none => s
termination_by len - s.r
decreasing_by
  obtain ⟨hr, ht⟩ := undotStep_r ‹_›
  have hlt := lt_lineEnd s.buf hr
  omega

/-- `gopher_undot_inplace`, with the buffer it leaves. -/
def gopherUndotInplace (buf : List UInt8) : List UInt8 × Nat :=
  let s := undotLoop buf.length ⟨buf, 0, 0⟩
  (s.buf, s.w)

/-- What the code goes through on the way, for the reply `buf`. -/
def Undotting (buf : List UInt8) : Undot → Prop :=
  Relation.ReflTransGen (fun s t => undotStep buf.length s = some t) ⟨buf, 0, 0⟩

/-! ### The text of a reply -/

/-- The first line of a text, with its LF where it has one. -/
def firstLine (s : List UInt8) : List UInt8 :=
  s.takeWhile (· ≠ newline) ++ (s.dropWhile (· ≠ newline)).take 1

def unstuffLine (line : List UInt8) : List UInt8 :=
  if line.take 2 = [period, period] then line.tail else line

/-- A text with the periods taken out, up to the line that ends it. -/
def unstuff (s : List UInt8) : List UInt8 :=
  if s = [] then []
  else
    let line := firstLine s
    if isTerminator line then [] else unstuffLine line ++ unstuff (s.drop (max 1 line.length))
termination_by s.length
decreasing_by
  have hpos := List.length_pos_iff.mpr ‹_›
  rw [List.length_drop]
  omega

section Lines

variable {l : List UInt8}

theorem firstLine_append (hl : newline ∉ l) (s : List UInt8) :
    firstLine (l ++ newline :: s) = l ++ [newline] := by
  have hne : ∀ c ∈ l, decide (c ≠ newline) = true :=
    fun c hc => decide_eq_true fun heq => hl (heq ▸ hc)
  rw [firstLine, CText.takeWhile_append hne (by simp), CText.dropWhile_append hne (by simp)]
  rfl

theorem firstLine_begins (s : List UInt8) : firstLine s <+: s := by
  refine ⟨(s.dropWhile (· ≠ newline)).drop 1, ?_⟩
  rw [firstLine, List.append_assoc, List.take_append_drop, List.takeWhile_append_dropWhile]

theorem firstLine_length (s : List UInt8) :
    (firstLine s).length =
      if (s.takeWhile (· ≠ newline)).length < s.length then (s.takeWhile (· ≠ newline)).length + 1
      else (s.takeWhile (· ≠ newline)).length := by
  have hcut := congrArg List.length
    (List.takeWhile_append_dropWhile (p := fun c => decide (c ≠ newline)) (l := s))
  rw [List.length_append] at hcut
  rw [firstLine, List.length_append, List.length_take]
  split <;> omega

theorem firstLine_pos {s : List UInt8} (hs : s ≠ []) : 0 < (firstLine s).length := by
  have hpos := List.length_pos_iff.mpr hs
  rw [firstLine_length]
  split <;> omega

/-- The first line comes out without the period that was put before it, and then the rest. -/
theorem unstuff_cons {s : List UInt8} (hs : s ≠ []) :
    unstuff s =
      if isTerminator (firstLine s) then []
      else unstuffLine (firstLine s) ++ unstuff (s.drop (firstLine s).length) := by
  have hmax : max 1 (firstLine s).length = (firstLine s).length := Nat.max_eq_right (firstLine_pos hs)
  rw [unstuff, if_neg hs]
  simp only [hmax]

theorem unstuff_append (hl : newline ∉ l) (s : List UInt8) :
    unstuff (l ++ newline :: s) =
      if isTerminator (l ++ [newline]) then [] else unstuffLine (l ++ [newline]) ++ unstuff s := by
  have hdrop : (l ++ newline :: s).drop (l ++ [newline]).length = s := by
    rw [List.append_cons l newline s]
    exact List.drop_left
  rw [unstuff_cons (by simp), firstLine_append hl, hdrop]

end Lines

/-! ### The buffer while it is rewritten -/

section Steps

variable {src out : List UInt8} {s t : Undot}

/-- The code finds the line that the text behind the reader starts with. -/
theorem line_at (h : Rewriting src s.buf s.r s.w out) :
    lineEnd s.buf src.length s.r = s.r + (firstLine (src.drop s.r)).length ∧
      (s.buf.drop s.r).take (firstLine (src.drop s.r)).length = firstLine (src.drop s.r) := by
  have hbound := h.bound
  have hlen : (src.drop s.r).length = src.length - s.r := List.length_drop
  constructor
  · simp only [lineEnd]
    rw [firstLine_length, ← h.length, List.take_length, h.unread, h.length, hlen]
    split <;> split <;> omega
  · rw [h.unread]
    exact (List.prefix_iff_eq_take.mp (firstLine_begins _)).symm

/-- A line that the code passes over is written without the period that was put before it. -/
theorem undotStep_rewrites (h : Rewriting src s.buf s.r s.w out) (hstep : undotStep src.length s = some t) :
    Rewriting src t.buf t.r t.w (out ++ unstuffLine (firstLine (src.drop s.r))) ∧
      unstuff (src.drop s.r) = unstuffLine (firstLine (src.drop s.r)) ++ unstuff (src.drop t.r) := by
  obtain ⟨e, n, line, he, hn, hline, hr, hend, hcase⟩ := undotStep_some hstep
  obtain ⟨hlineEnd, htake⟩ := line_at h
  rw [hlineEnd] at he
  have hne : src.drop s.r ≠ [] := by
    rw [← List.length_pos_iff, List.length_drop]
    omega
  have hfits := (firstLine_begins (src.drop s.r)).length_le
  rw [List.length_drop] at hfits
  have hlen : n = (firstLine (src.drop s.r)).length := by omega
  rw [hlen, htake] at hline
  have hread : (src.drop s.r).take n = line := by
    rw [hline, hlen]
    exact (List.prefix_iff_eq_take.mp (firstLine_begins _)).symm
  have hdrop : unstuff (src.drop s.r) = unstuffLine line ++ unstuff (src.drop e) := by
    rw [unstuff_cons hne, ← hline, if_neg (by simp [hend]), he, List.drop_drop, hline]
  have hnext : s.r + n = e := by omega
  have hbound : s.r + n ≤ src.length := by omega
  rw [← hline]
  rcases hcase with ⟨htwo, hdots, rfl⟩ | ⟨hdots, rfl⟩
  · have hmove := h.move (k := 1) (by omega) hbound
    rw [hread, List.drop_one, hnext] at hmove
    have hunstuff : unstuffLine line = line.tail := if_pos hdots
    rw [hunstuff] at hdrop ⊢
    exact ⟨hmove, hdrop⟩
  · have hmove := h.move (k := 0) (Nat.zero_le n) hbound
    rw [hread, List.drop_zero, hnext, Nat.sub_zero, Nat.add_zero] at hmove
    have hunstuff : unstuffLine line = line := by
      refine if_neg fun htake => hdots ⟨?_, htake⟩
      have hlen2 := congrArg List.length htake
      rw [List.length_take, ← hread, List.length_take] at hlen2
      simp only [List.length_cons, List.length_nil] at hlen2
      omega
    have hself : (if s.w ≠ s.r then move s.buf s.w s.r n else s.buf) = move s.buf s.w s.r n := by
      split
      · rfl
      · rename_i heq
        rw [not_not.mp heq, move_self]
    rw [hunstuff] at hdrop ⊢
    rw [hself]
    exact ⟨hmove, hdrop⟩

theorem undotStep_none (h : Rewriting src s.buf s.r s.w out) (hstep : undotStep src.length s = none) :
    unstuff (src.drop s.r) = [] := by
  obtain ⟨hlineEnd, htake⟩ := line_at h
  by_cases hr : s.r < src.length
  · have hne : src.drop s.r ≠ [] := by
      rw [← List.length_pos_iff, List.length_drop]
      omega
    simp only [undotStep, if_pos hr, hlineEnd, Nat.add_sub_cancel_left, htake] at hstep
    split at hstep
    · rename_i hend
      rw [unstuff_cons hne, if_pos hend]
    · split at hstep <;> cases hstep
  · rw [List.drop_of_length_le (by omega), unstuff, if_pos rfl]

/-- In every state on the way the reader is ahead, and what it has not read is as it was. -/
theorem undotting_rewrites {buf : List UInt8} (h : Undotting buf s) :
    ∃ out, Rewriting buf s.buf s.r s.w out := by
  induction h with
  | refl => exact ⟨[], Rewriting.start buf⟩
  | tail _ hstep ih =>
      obtain ⟨out, hout⟩ := ih
      exact ⟨_, (undotStep_rewrites hout hstep).1⟩

theorem undotLoop_rewrites (h : Rewriting src s.buf s.r s.w out) :
    (undotLoop src.length s).buf.take (undotLoop src.length s).w = out ++ unstuff (src.drop s.r) := by
  induction hn : src.length - s.r using Nat.strongRecOn generalizing s out with
  | ind n ih =>
      subst hn
      rw [undotLoop]
      split
      · rename_i t hstep
        obtain ⟨hnext, hunstuff⟩ := undotStep_rewrites h hstep
        obtain ⟨hr, ht⟩ := undotStep_r hstep
        have hlt := lt_lineEnd s.buf hr
        rw [ih (src.length - t.r) (by omega) hnext rfl, hunstuff, List.append_assoc]
      · rename_i hstep
        rw [undotStep_none h hstep, List.append_nil]
        exact h.written

/-- What stands in front of the writer in the end is the text. -/
theorem gopherUndotInplace_unstuff (buf : List UInt8) :
    (gopherUndotInplace buf).1.take (gopherUndotInplace buf).2 = unstuff buf :=
  undotLoop_rewrites (s := ⟨buf, 0, 0⟩) (Rewriting.start buf)

end Steps

/-! ### Texts as they are sent -/

inductive LineEnd where
  | lf
  | crlf

def LineEnd.bytes : LineEnd → List UInt8
  | lf => [newline]
  | crlf => [carriageReturn, newline]

structure TextLine where
  text : List UInt8
  ending : LineEnd
  noNewline : newline ∉ text

def TextLine.bytes (l : TextLine) : List UInt8 := l.text ++ l.ending.bytes

/-- A line that starts with a period is sent with two. -/
def stuffLine (line : List UInt8) : List UInt8 :=
  if line.head? = some period then period :: line else line

/-- The line that ends a text, and what stands behind it; without a line end it is the last of the reply. -/
inductive Terminator where
  | line (ending : LineEnd) (extra : List UInt8)
  | bare

def Terminator.bytes : Terminator → List UInt8
  | line ending extra => period :: (ending.bytes ++ extra)
  | bare => [period]

/-- The lines as they stand in the text. -/
def textBytes (ls : List TextLine) : List UInt8 := ls.flatMap TextLine.bytes

def stuffed (ls : List TextLine) : List UInt8 := ls.flatMap fun l => stuffLine l.bytes

theorem unstuff_terminator (t : Terminator) : unstuff t.bytes = [] := by
  cases t with
  | bare =>
      have hne : [period] ≠ [] := List.cons_ne_nil _ _
      exact (unstuff_cons hne).trans (if_pos (by decide))
  | line ending extra =>
      cases ending with
      | lf =>
          have hl : newline ∉ [period] := by decide
          exact (unstuff_append hl extra).trans (if_pos (by decide))
      | crlf =>
          have hl : newline ∉ [period, carriageReturn] := by decide
          exact (unstuff_append hl extra).trans (if_pos (by decide))

theorem TextLine.exists_bytes (l : TextLine) : ∃ u, newline ∉ u ∧ l.bytes = u ++ [newline] := by
  obtain ⟨text, ending, hnewline⟩ := l
  cases ending with
  | lf => exact ⟨text, hnewline, rfl⟩
  | crlf =>
      refine ⟨text ++ [carriageReturn], ?_, (List.append_cons text carriageReturn [newline])⟩
      rw [List.mem_append, not_or]
      exact ⟨hnewline, by decide⟩

theorem head?_of_isTerminator {line : List UInt8} (h : isTerminator line = true) :
    line.head? = some period := by
  simp only [isTerminator, decide_eq_true_eq] at h
  rcases h with rfl | rfl | rfl <;> rfl

/-- A line with its first period doubled comes back. -/
theorem unstuff_stuffLine (l : TextLine) (s : List UInt8) :
    unstuff (stuffLine l.bytes ++ s) = l.bytes ++ unstuff s := by
  obtain ⟨u, hu, hbytes⟩ := l.exists_bytes
  rw [hbytes]
  by_cases hhead : (u ++ [newline]).head? = some period
  · have hu' : newline ∉ period :: u := List.not_mem_cons_of_ne_of_not_mem (by decide) hu
    have hend : isTerminator (period :: u ++ [newline]) = false := by
      cases u with
      | nil => cases hhead
      | cons c u =>
          obtain rfl : c = period := Option.some.inj hhead
          have hne : ¬ period = newline ∧ ¬ period = carriageReturn := by decide
          simp [isTerminator, hne]
    have hdots : (period :: u ++ [newline]).take 2 = [period, period] := by
      cases u with
      | nil => cases hhead
      | cons c u =>
          obtain rfl : c = period := Option.some.inj hhead
          rfl
    have hsplit : stuffLine (u ++ [newline]) ++ s = period :: u ++ newline :: s := by
      rw [stuffLine, if_pos hhead, List.cons_append, List.cons_append, List.append_cons u newline s]
    rw [hsplit, unstuff_append hu', hend, if_neg Bool.false_ne_true, unstuffLine, if_pos hdots]
    rfl
  · have hend : ¬ isTerminator (u ++ [newline]) = true := fun h => hhead (head?_of_isTerminator h)
    have hdots : ¬ (u ++ [newline]).take 2 = [period, period] := by
      intro htake
      have hfirst := congrArg List.head? htake
      rw [List.head?_take, if_neg (by decide)] at hfirst
      exact hhead hfirst
    have hsplit : stuffLine (u ++ [newline]) ++ s = u ++ newline :: s := by
      rw [stuffLine, if_neg hhead, List.append_assoc, List.singleton_append]
    rw [hsplit, unstuff_append hu, if_neg hend, unstuffLine, if_neg hdots]

/-- A text that is sent with its periods doubled comes back. -/
theorem unstuff_stuffed (ls : List TextLine) (t : Terminator) :
    unstuff (stuffed ls ++ t.bytes) = textBytes ls := by
  induction ls with
  | nil => exact unstuff_terminator t
  | cons l ls ih =>
      rw [stuffed, textBytes, List.flatMap_cons, List.flatMap_cons, List.append_assoc,
        unstuff_stuffLine]
      exact congrArg (l.bytes ++ ·) ih

/-- The code gives back the text that was sent; the writer never passes the reader, and what is not read
yet is as it came. -/
theorem gopherUndot_stuffed (ls : List TextLine) (t : Terminator) :
    (gopherUndotInplace (stuffed ls ++ t.bytes)).1.take (gopherUndotInplace (stuffed ls ++ t.bytes)).2 =
        textBytes ls ∧
      ∀ s, Undotting (stuffed ls ++ t.bytes) s →
        s.w ≤ s.r ∧ s.r ≤ s.buf.length ∧ s.buf.length = (stuffed ls ++ t.bytes).length ∧
          s.buf.drop s.r = (stuffed ls ++ t.bytes).drop s.r := by
  constructor
  · rw [gopherUndotInplace_unstuff, unstuff_stuffed]
  · intro s hs
    obtain ⟨out, hout⟩ := undotting_rewrites hs
    exact ⟨hout.le, hout.length ▸ hout.bound, hout.length, hout.unread⟩

/-- Lines of one and of two periods, and one that ends with LF alone. -/
example :
    unstuff (CText.ascii "..
...
a
.
left") = CText.ascii ".
..
a
" := by
  decide +kernel

end UnicornSuite.Gopher
