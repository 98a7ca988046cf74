import Mathlib.Tactic.Common
import Mathlib.Data.List.TakeWhile

/-! Lines of a byte stream, each ended by CR LF: the split of a text into its lines, and a reader
that takes lines up to the first one that is a given stop line. -/

namespace Crlf

abbrev Bytes := List UInt8

def cr : UInt8 := 0x0D
def lf : UInt8 := 0x0A
def crlf : Bytes := [cr, lf]

/-- The line a stream starts with, and what follows the CR LF that ends it. -/
def splitLine : Bytes → Bytes × Option Bytes
  | [] => ([], none)
  | c :: s =>
      if c = cr ∧ s.head? = some lf then ([], some s.tail)
      else (c :: (splitLine s).1, (splitLine s).2)

section Split

variable {s line rest : Bytes}

theorem splitLine_none (h : splitLine s = (line, none)) :
    line = s ∧ ∀ t, splitLine (s ++ crlf ++ t) = (s, some t) := by
  induction s generalizing line with
  | nil =>
      cases h
      exact ⟨rfl, fun t => rfl⟩
  | cons c s ih =>
      rw [splitLine] at h
      split_ifs at h with hend
      · cases (Prod.mk.inj h).2
      · obtain ⟨hline, hnone⟩ := Prod.mk.inj h
        obtain ⟨heq, happend⟩ := ih (Prod.ext rfl hnone)
        refine ⟨hline ▸ congrArg (c :: ·) heq, ?_⟩
        intro t
        have hhead : ¬ (c = cr ∧ (s ++ crlf ++ t).head? = some lf) := by
          rintro ⟨hc, hlf⟩
          cases s with
          | nil => cases hlf
          | cons d s => exact hend ⟨hc, hlf⟩
        rw [List.cons_append, List.cons_append, splitLine, if_neg hhead, happend t]

theorem splitLine_some (h : splitLine s = (line, some rest)) :
    s = line ++ crlf ++ rest ∧ splitLine line = (line, none) ∧
      ∀ t, splitLine (s ++ t) = (line, some (rest ++ t)) := by
  induction s generalizing line with
  | nil => cases h
  | cons c s ih =>
      rw [splitLine] at h
      split_ifs at h with hend
      · obtain ⟨rfl, hs⟩ := hend
        obtain ⟨rfl, rfl⟩ : line = [] ∧ rest = s.tail := by
          simpa [eq_comm] using h
        cases s with
        | nil => cases hs
        | cons d s =>
            cases hs
            exact ⟨rfl, rfl, fun t => rfl⟩
      · obtain ⟨rfl, hrest⟩ := Prod.mk.inj h
        obtain ⟨heq, hfree, happend⟩ := ih (Prod.ext rfl hrest)
        refine ⟨congrArg (c :: ·) heq, ?_, ?_⟩
        · rw [splitLine, hfree, if_neg]
          rintro ⟨hc, hlf⟩
          rw [heq] at hend
          cases hline : (splitLine s).1 with
          | nil => simp [hline] at hlf
          | cons d line => exact hend ⟨hc, by simpa [hline] using hlf⟩
        · intro t
          have hhead : ¬ (c = cr ∧ (s ++ t).head? = some lf) := by
            rintro ⟨hc, hlf⟩
            cases s with
            | nil => cases hrest
            | cons d s => exact hend ⟨hc, hlf⟩
          rw [List.cons_append, splitLine, if_neg hhead, happend t]

theorem splitLine_rest_lt (h : splitLine s = (line, some rest)) : rest.length < s.length := by
  obtain ⟨heq, -, -⟩ := splitLine_some h
  rw [heq, List.length_append, List.length_append]
  show rest.length < line.length + 2 + rest.length
  omega

end Split

/-- The lines of a text; the last one is not ended, and is empty behind a final CR LF. -/
def lines (s : Bytes) : List Bytes :=
  match h : splitLine s with
  | (line, none) => [line]
  | (line, some rest) =>
      have := splitLine_rest_lt h
      line :: lines rest
termination_by s.length

/-- Lines, each with its end. -/
def unlines (ls : List Bytes) : Bytes := ls.flatMap (· ++ crlf)

@[simp] theorem unlines_nil : unlines [] = [] := rfl

@[simp] theorem unlines_cons (line : Bytes) (ls : List Bytes) :
    unlines (line :: ls) = line ++ crlf ++ unlines ls := by
  simp [unlines]

theorem unlines_append (ls ms : List Bytes) : unlines (ls ++ ms) = unlines ls ++ unlines ms := by
  simp [unlines]

theorem lines_of_none {s line : Bytes} (h : splitLine s = (line, none)) : lines s = [s] := by
  obtain ⟨rfl, -⟩ := splitLine_none h
  rw [lines]
  split
  · next h' => exact congrArg (fun l => [l]) (Prod.mk.inj (h'.symm.trans h)).1
  · next h' => cases h'.symm.trans h

theorem lines_of_some {s line rest : Bytes} (h : splitLine s = (line, some rest)) :
    lines s = line :: lines rest := by
  rw [lines]
  split
  · next h' => cases h'.symm.trans h
  · next h' =>
      obtain ⟨rfl, hrest⟩ := Prod.mk.inj (h'.symm.trans h)
      cases hrest
      rfl

/-- The two ways a text splits, for inductions along its lines. -/
theorem lines_induction {motive : Bytes → Prop}
    (last : ∀ s, splitLine s = (s, none) → motive s)
    (line : ∀ s line rest, splitLine s = (line, some rest) → motive rest → motive s)
    (s : Bytes) : motive s := by
  induction hn : s.length using Nat.strongRecOn generalizing s with
  | ind n ih =>
      rcases h : splitLine s with ⟨l, _ | rest⟩
      · obtain ⟨rfl, -⟩ := splitLine_none h
        exact last l h
      · exact line s l rest h (ih _ (hn ▸ splitLine_rest_lt h) rest rfl)

theorem unlines_lines (s : Bytes) : unlines (lines s) = s ++ crlf := by
  induction s using lines_induction with
  | last s h => simp [lines_of_none h]
  | line s line rest h ih =>
      obtain ⟨heq, -, -⟩ := splitLine_some h
      rw [lines_of_some h, unlines_cons, ih, heq, List.append_assoc (line ++ crlf)]

theorem lines_append_crlf (s : Bytes) : lines (s ++ crlf) = lines s ++ [[]] := by
  induction s using lines_induction with
  | last s h =>
      have hsplit := (splitLine_none h).2 []
      rw [List.append_nil] at hsplit
      rw [lines_of_some hsplit, lines_of_none h, lines_of_none (s := []) rfl, List.singleton_append]
  | line s line rest h ih =>
      obtain ⟨-, -, happend⟩ := splitLine_some h
      rw [lines_of_some (happend crlf), lines_of_some h, ih, List.cons_append]

/-- No line holds a CR LF. -/
theorem splitLine_of_mem {s line : Bytes} (h : line ∈ lines s) : splitLine line = (line, none) := by
  induction s using lines_induction with
  | last s hs =>
      rw [lines_of_none hs, List.mem_singleton] at h
      rw [h, hs]
  | line s l rest hs ih =>
      rw [lines_of_some hs, List.mem_cons] at h
      rcases h with rfl | h
      · exact (splitLine_some hs).2.1
      · exact ih h

/-- A reader that takes whole lines up to the first `stop`: the text read, and what is left of the
stream. Without a stop line it waits for more. -/
def readText (stop s : Bytes) : Option (Bytes × Bytes) :=
  match h : splitLine s with
  | (_, none) => none
  | (line, some rest) =>
      have := splitLine_rest_lt h
      if line = stop then some ([], rest)
      else (readText stop rest).map fun r => (line ++ crlf ++ r.1, r.2)
termination_by s.length

section Read

variable {stop s line rest : Bytes}

theorem readText_of_none (h : splitLine s = (line, none)) : readText stop s = none := by
  rw [readText]
  split
  · rfl
  · next h' => cases h'.symm.trans h

theorem readText_of_some (h : splitLine s = (line, some rest)) :
    readText stop s = if line = stop then some ([], rest)
      else (readText stop rest).map fun r => (line ++ crlf ++ r.1, r.2) := by
  rw [readText]
  split
  · next h' => cases h'.symm.trans h
  · next h' =>
      obtain ⟨rfl, hrest⟩ := Prod.mk.inj (h'.symm.trans h)
      cases hrest
      rfl

/-- Lines other than the stop line are the text of the stream that ends them with it. -/
theorem readText_unlines {ls : List Bytes} (hls : ∀ line ∈ ls, splitLine line = (line, none))
    (hstop : splitLine stop = (stop, none)) (hmem : stop ∉ ls) (rest : Bytes) :
    readText stop (unlines ls ++ (stop ++ crlf) ++ rest) = some (unlines ls, rest) := by
  induction ls with
  | nil =>
      have hsplit := (splitLine_none hstop).2 rest
      rw [unlines_nil, List.nil_append, readText_of_some hsplit, if_pos rfl]
  | cons line ls ih =>
      have hne : line ≠ stop := fun heq => hmem (heq ▸ List.mem_cons_self)
      have hrest := ih (fun l hl => hls l (List.mem_cons_of_mem _ hl))
        (fun h => hmem (List.mem_cons_of_mem _ h))
      have hsplit := (splitLine_none (hls line List.mem_cons_self)).2
        (unlines ls ++ (stop ++ crlf) ++ rest)
      rw [show unlines (line :: ls) ++ (stop ++ crlf) ++ rest =
          line ++ crlf ++ (unlines ls ++ (stop ++ crlf) ++ rest) by simp,
        readText_of_some hsplit, if_neg hne, hrest, unlines_cons]
      rfl

/-- Once the text is complete, further bytes are only left over. -/
theorem readText_append {text : Bytes} (h : readText stop s = some (text, rest)) (t : Bytes) :
    readText stop (s ++ t) = some (text, rest ++ t) := by
  induction s using lines_induction generalizing text with
  | last s hs =>
      rw [readText_of_none hs] at h
      cases h
  | line s line more hs ih =>
      obtain ⟨-, -, happend⟩ := splitLine_some hs
      rw [readText_of_some hs] at h
      rw [readText_of_some (happend t)]
      split_ifs at h ⊢
      · cases h
        rfl
      · obtain ⟨⟨text', rest'⟩, hmore, heq⟩ := Option.map_eq_some_iff.mp h
        cases heq
        rw [ih hmore]
        rfl

/-- A stream whose last byte ends the text is read to no text before that byte. -/
theorem readText_of_prefix {text sent : Bytes} (h : readText stop s = some (text, []))
    (hsent : sent <+: s) : readText stop sent = if sent = s then some (text, []) else none := by
  split_ifs with heq
  · rw [heq, h]
  · obtain ⟨t, rfl⟩ := hsent
    rcases hread : readText stop sent with _ | ⟨text', rest'⟩
    · rfl
    · have happend := readText_append hread t
      rw [h] at happend
      obtain ⟨-, hnil⟩ := Prod.mk.inj (Option.some.inj happend)
      obtain ⟨-, rfl⟩ := List.append_eq_nil_iff.mp hnil.symm
      exact absurd (List.append_nil sent).symm heq

end Read

end Crlf
