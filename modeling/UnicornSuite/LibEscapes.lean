import Mathlib.Tactic.Common

/-! Transducers: machines that give out something at every step. The output of a stream does not depend on
how it is cut into chunks (`runChunks_eq`). A code made of items is read by giving, for each item, the
output of its encoding from a state between two items (`Reads`); the outputs of a list of items then follow
one another (`run_encode`). -/

namespace Transducer

variable {σ ε ο ι : Type*} (step : σ → ε → σ × List ο)

/-- The state after a stream and what it has given out. -/
def run : σ → List ε → σ × List ο
  | s, [] => (s, [])
  | s, e :: es =>
      let r := step s e
      let t := run r.1 es
      (t.1, r.2 ++ t.2)

/-- The same, for a stream that arrives in chunks. -/
def runChunks : σ → List (List ε) → σ × List ο
  | s, [] => (s, [])
  | s, c :: cs =>
      let r := run step s c
      let t := runChunks r.1 cs
      (t.1, r.2 ++ t.2)

@[simp] theorem run_nil (s : σ) : run step s [] = (s, []) := rfl

theorem run_cons (s : σ) (e : ε) (es : List ε) :
    run step s (e :: es) =
      ((run step (step s e).1 es).1, (step s e).2 ++ (run step (step s e).1 es).2) := rfl

theorem run_append (s : σ) (es es' : List ε) :
    run step s (es ++ es') =
      ((run step (run step s es).1 es').1,
        (run step s es).2 ++ (run step (run step s es).1 es').2) := by
  induction es generalizing s with
  | nil => rfl
  | cons e es ih =>
      simp only [List.cons_append, run_cons, List.append_assoc]
      rw [ih]

/-- A cut of the stream is no event. -/
theorem runChunks_eq (s : σ) (cs : List (List ε)) :
    runChunks step s cs = run step s cs.flatten := by
  induction cs generalizing s with
  | nil => rfl
  | cons c cs ih =>
      rw [List.flatten_cons, run_append, runChunks, ih]

/-- Between two items a state is ready, and the encoding of an item leads to the next such state. -/
structure Reads (ready : σ → Prop) (encode : ι → List ε) (output : ι → List ο)
    (after : σ → ι → σ) : Prop where
  run : ∀ s i, ready s → run step s (encode i) = (after s i, output i)
  ready : ∀ s i, ready s → ready (after s i)

variable {step} {ready : σ → Prop} {encode : ι → List ε} {output : ι → List ο} {after : σ → ι → σ}

theorem Reads.run_encode (h : Reads step ready encode output after) {s : σ} (hs : ready s)
    (items : List ι) :
    Transducer.run step s (items.flatMap encode) =
      (items.foldl after s, items.flatMap output) := by
  induction items generalizing s with
  | nil => rfl
  | cons i items ih =>
      have hhead := h.run s i hs
      have htail := ih (h.ready s i hs)
      rw [List.flatMap_cons, run_append, hhead, htail, List.flatMap_cons, List.foldl_cons]

/-- What of a kind every event gives out in every state is what the stream gives out of it. -/
theorem filter_run {q : ο → Bool} {f : ε → List ο} (hstep : ∀ s e, (step s e).2.filter q = f e) (s : σ)
    (es : List ε) : (Transducer.run step s es).2.filter q = es.flatMap f := by
  induction es generalizing s with
  | nil => rfl
  | cons e es ih => rw [run_cons, List.filter_append, hstep, ih, List.flatMap_cons]

end Transducer

/-! Lists in pieces with a separator between them that an escape takes the meaning of. `split` cuts a list
at its separators, `skip` goes to the next one. `Cut u s` says that the piece `s` ends where `u` begins:
read from its start it has no separator of its own and ends outside of an escape, except at the end of
everything. -/

namespace Escapes

variable {α : Type*}

section Pieces

variable (esc sep : α)

/-- Every piece behind a separator. -/
def rows (ss : List (List α)) : List α := ss.flatMap fun s => sep :: s

@[simp] theorem rows_nil : rows sep ([] : List (List α)) = [] := rfl

@[simp] theorem rows_cons (s : List α) (ss : List (List α)) :
    rows sep (s :: ss) = sep :: (s ++ rows sep ss) := rfl

/-- Nothing, or something behind a separator. -/
inductive Stop : List α → Prop
  | nil : Stop []
  | sep (t : List α) : Stop (sep :: t)

inductive Cut (u : List α) : List α → Prop
  | nil (hu : Stop sep u) : Cut u []
  | plain {c : α} {l : List α} (hesc : c ≠ esc) (hsep : c ≠ sep) (h : Cut u l) : Cut u (c :: l)
  | escaped (c : α) {l : List α} (h : Cut u l) : Cut u (esc :: c :: l)
  | trailing (hu : u = []) : Cut u [esc]

/-- The pieces of a list, each in front of what stands behind it. -/
def Cuts : List (List α) → Prop
  | [] => True
  | s :: ss => Cut esc sep (rows sep ss) s ∧ Cuts ss

variable {esc sep} {u s : List α}

theorem Cut.stop (h : Cut esc sep u s) : Stop sep u := by
  induction h with
  | nil hu => exact hu
  | plain _ _ _ ih => exact ih
  | escaped _ _ ih => exact ih
  | trailing hu =>
      rw [hu]
      exact .nil

/-- A piece is a piece on its own. -/
theorem Cut.alone (h : Cut esc sep u s) : Cut esc sep [] s := by
  induction h with
  | nil _ => exact .nil .nil
  | plain hesc hsep _ ih => exact .plain hesc hsep ih
  | escaped c _ ih => exact .escaped c ih
  | trailing _ => exact .trailing rfl

/-- Behind characters without a meaning of their own a piece goes on. -/
theorem Cut.drop (h : Cut esc sep u s) (n : Nat) (hplain : ∀ c ∈ s.take n, c ≠ esc ∧ c ≠ sep) :
    Cut esc sep u (s.drop n) := by
  induction n generalizing s with
  | zero => exact h
  | succ n ih =>
      cases h with
      | nil hu => exact .nil hu
      | plain hesc hsep h => exact ih h fun c hc => hplain c (List.mem_cons_of_mem _ hc)
      | escaped c h => exact absurd rfl (hplain esc List.mem_cons_self).1
      | trailing hu => exact absurd rfl (hplain esc List.mem_cons_self).1

/-- A piece goes on behind its first character, unless that one escapes the next. -/
theorem Cut.tail {c : α} (h : Cut esc sep u (c :: s)) (hesc : c ≠ esc) : Cut esc sep u s := by
  cases h with
  | plain _ _ h => exact h
  | escaped _ _ => exact absurd rfl hesc
  | trailing _ => exact absurd rfl hesc

end Pieces

variable [DecidableEq α] (esc sep : α)

/-- What is left from the next separator on. -/
def skip : List α → List α
  | [] => []
  | [c] => if c = sep then [c] else []
  | c :: d :: l => if c = esc then skip l else if c = sep then c :: d :: l else skip (d :: l)

/-- Put in front of the first piece. -/
def ahead (l : List α) : List (List α) → List (List α)
  | [] => [l]
  | s :: ss => (l ++ s) :: ss

/-- The pieces of a list. -/
def split : List α → List (List α)
  | [] => [[]]
  | [c] => if c = sep then [[], []] else [[c]]
  | c :: d :: l =>
      if c = esc then ahead [c, d] (split l)
      else if c = sep then [] :: split (d :: l)
      else ahead [c] (split (d :: l))

theorem skip_cons_cons (c d : α) (l : List α) : skip esc sep (c :: d :: l) =
    if c = esc then skip esc sep l
    else if c = sep then c :: d :: l else skip esc sep (d :: l) := rfl

variable {esc sep} {u s : List α}

theorem skip_stop (hne : esc ≠ sep) (h : Stop sep u) : skip esc sep u = u := by
  cases h with
  | nil => rfl
  | sep t =>
      cases t with
      | nil => exact if_pos rfl
      | cons d l => rw [skip_cons_cons, if_neg hne.symm, if_pos rfl]

theorem Cut.skip_append (hne : esc ≠ sep) (h : Cut esc sep u s) : skip esc sep (s ++ u) = u := by
  induction h with
  | nil hu => exact skip_stop hne hu
  | @plain c l hesc hsep h ih =>
      rw [List.cons_append]
      cases hl : l ++ u with
      | nil =>
          rw [hl] at ih
          exact (if_neg hsep).trans ih
      | cons d l' => rw [skip_cons_cons, if_neg hesc, if_neg hsep, ← hl, ih]
  | escaped c h ih => rw [List.cons_append, List.cons_append, skip_cons_cons, if_pos rfl, ih]
  | trailing hu =>
      rw [hu]
      exact if_neg hne

omit [DecidableEq α] in
theorem ahead_ne_nil (l : List α) (ss : List (List α)) : ahead l ss ≠ [] := by
  cases ss <;> nofun

theorem split_ne_nil (l : List α) : split esc sep l ≠ [] := by
  fun_cases split esc sep l
  · nofun
  · nofun
  · nofun
  · exact ahead_ne_nil _ _
  · nofun
  · exact ahead_ne_nil _ _

omit [DecidableEq α] in
theorem rows_ahead (l : List α) {ss : List (List α)} {t : List α} (h : rows sep ss = sep :: t) :
    rows sep (ahead l ss) = sep :: (l ++ t) := by
  cases ss with
  | nil => cases h
  | cons s ss =>
      rw [rows_cons] at h
      change sep :: (l ++ s ++ rows sep ss) = _
      rw [List.append_assoc, (List.cons.inj h).2]

/-- The pieces make up the list. -/
theorem rows_split (l : List α) : rows sep (split esc sep l) = sep :: l := by
  fun_induction split esc sep l with
  | case1 => rfl
  | case2 => rfl
  | case3 => rfl
  | case4 d l ih => exact rows_ahead _ ih
  | case5 d l _ ih => rw [rows_cons, ih, List.nil_append]
  | case6 c d l _ _ ih => exact rows_ahead _ ih

omit [DecidableEq α] in
theorem Cuts.ahead {ss : List (List α)} (h : Cuts esc sep ss) (hne : ss ≠ []) {l : List α}
    (hl : ∀ u s, Cut esc sep u s → Cut esc sep u (l ++ s)) : Cuts esc sep (ahead l ss) := by
  cases ss with
  | nil => exact absurd rfl hne
  | cons s ss => exact ⟨hl _ _ h.1, h.2⟩

theorem cuts_split (l : List α) : Cuts esc sep (split esc sep l) := by
  fun_induction split esc sep l with
  | case1 => exact ⟨.nil .nil, trivial⟩
  | case2 => exact ⟨.nil (.sep _), .nil .nil, trivial⟩
  | case3 c hsep =>
      refine ⟨?_, trivial⟩
      by_cases hesc : c = esc
      · rw [hesc]
        exact .trailing rfl
      · exact .plain hesc hsep (.nil .nil)
  | case4 d l ih => exact ih.ahead (split_ne_nil l) fun u s hs => .escaped d hs
  | case5 d l _ ih =>
      refine ⟨.nil ?_, ih⟩
      rw [rows_split]
      exact .sep _
  | case6 c d l hesc hsep ih =>
      exact ih.ahead (split_ne_nil _) fun u s hs => .plain hesc hsep hs

end Escapes
