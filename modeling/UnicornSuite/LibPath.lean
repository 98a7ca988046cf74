import Mathlib.Tactic.Common
import Mathlib.Data.List.Basic

/-! Paths. A path is a string in which some characters separate components; `tokens` are its
components, empty ones left out. A component stays where it is, goes up, or names an entry; `walk`
follows such steps from a directory, which is the list of the names that lead to it from the root, and
never leaves the root. `walkMax` is the walk that gives up where a directory gets too deep. -/

namespace Path

section Tokens

variable {α : Type*} {sep : α → Bool}

/-- What has been read of a component, when it ends. -/
def ended : List α → List (List α)
  | [] => []
  | c :: w => [c :: w]

theorem ended_of_ne_nil {w : List α} (hw : w ≠ []) : ended w = [w] := by
  cases w with
  | nil => exact absurd rfl hw
  | cons c w => rfl

/-- The components of a string, `cur` being what has been read of the first one. -/
def tokensFrom (sep : α → Bool) (cur : List α) : List α → List (List α)
  | [] => ended cur
  | c :: s => if sep c then ended cur ++ tokensFrom sep [] s else tokensFrom sep (cur ++ [c]) s

/-- The components between the separators. -/
def tokens (sep : α → Bool) (s : List α) : List (List α) := tokensFrom sep [] s

theorem tokensFrom_append {c : α} (hc : sep c = true) (cur s s' : List α) :
    tokensFrom sep cur (s ++ c :: s') = tokensFrom sep cur s ++ tokens sep s' := by
  induction s generalizing cur with
  | nil => exact if_pos hc
  | cons d s ih =>
      rw [List.cons_append, tokensFrom, tokensFrom, ih, ih]
      split
      · rw [List.append_assoc]
      · rfl

/-- A separator ends one path and starts the next. -/
theorem tokens_append {c : α} (hc : sep c = true) (s s' : List α) :
    tokens sep (s ++ c :: s') = tokens sep s ++ tokens sep s' := tokensFrom_append hc [] s s'

/-- A separator in front adds nothing. -/
theorem tokens_cons {c : α} (hc : sep c = true) (s : List α) : tokens sep (c :: s) = tokens sep s :=
  tokens_append hc [] s

theorem tokensFrom_word {w : List α} (hw : ∀ c ∈ w, sep c = false) (cur : List α) :
    tokensFrom sep cur w = ended (cur ++ w) := by
  induction w generalizing cur with
  | nil => rw [tokensFrom, List.append_nil]
  | cons c w ih =>
      have hc : ¬ sep c = true := by simp [hw c List.mem_cons_self]
      rw [tokensFrom, if_neg hc, ih fun d hd => hw d (List.mem_cons_of_mem _ hd), List.append_assoc]
      rfl

/-- Not empty, and without a separator. -/
def Component (sep : α → Bool) (w : List α) : Prop := w ≠ [] ∧ ∀ c ∈ w, sep c = false

theorem tokens_component {w : List α} (hw : Component sep w) : tokens sep w = [w] := by
  rw [tokens, tokensFrom_word hw.2, List.nil_append]
  exact ended_of_ne_nil hw.1

/-- Components with a separator before each are read back. -/
theorem tokens_flatMap {c : α} (hc : sep c = true) {ws : List (List α)}
    (hws : ∀ w ∈ ws, Component sep w) : tokens sep (ws.flatMap (c :: ·)) = ws := by
  induction ws with
  | nil => rfl
  | cons w ws ih =>
      have hw := hws w List.mem_cons_self
      have hrest := ih fun v hv => hws v (List.mem_cons_of_mem _ hv)
      cases ws with
      | nil =>
          rw [List.flatMap_cons, List.flatMap_nil, List.append_nil, tokens_cons hc]
          exact tokens_component hw
      | cons v vs =>
          calc tokens sep ((w :: v :: vs).flatMap (c :: ·))
              = tokens sep (w ++ (v :: vs).flatMap (c :: ·)) := tokens_cons hc _
            _ = tokens sep w ++ tokens sep (v ++ vs.flatMap (c :: ·)) := tokens_append hc _ _
            _ = [w] ++ tokens sep ((v :: vs).flatMap (c :: ·)) :=
              congrArg₂ (· ++ ·) (tokens_component hw) (tokens_cons hc _).symm
            _ = w :: v :: vs := by rw [hrest]; rfl

end Tokens

/-! ### Steps -/

section Walk

variable {ν : Type*}

inductive Step (ν : Type*) where
  | same
  | up
  | name (v : ν)
  deriving DecidableEq

/-- The directory one step on; the root is its own parent. -/
def go (d : List ν) : Step ν → List ν
  | .same => d
  | .up => d.dropLast
  | .name v => d ++ [v]

/-- The directory at the end of a path from `d`. -/
def walk (d : List ν) (path : List (Step ν)) : List ν := path.foldl go d

@[simp] theorem walk_nil (d : List ν) : walk d [] = d := rfl

@[simp] theorem walk_cons (d : List ν) (s : Step ν) (path : List (Step ν)) :
    walk d (s :: path) = walk (go d s) path := rfl

/-- Names lead down. -/
theorem walk_names (d vs : List ν) : walk d (vs.map .name) = d ++ vs := by
  induction vs generalizing d with
  | nil => exact (List.append_nil d).symm
  | cons v vs ih => rw [List.map_cons, walk_cons, ih, go, List.append_assoc]; rfl

/-- The walk that gives up before a directory deeper than `max`. -/
def walkMax (max : Nat) (d : List ν) : List (Step ν) → Option (List ν)
  | [] => some d
  | .same :: path => walkMax max d path
  | .up :: path => walkMax max d.dropLast path
  | .name v :: path => if d.length ≥ max then none else walkMax max (d ++ [v]) path

/-- It is the walk where no directory on the way is too deep. -/
theorem walkMax_eq_some {max : Nat} {d e : List ν} (hd : d.length ≤ max) {path : List (Step ν)} :
    walkMax max d path = some e ↔
      e = walk d path ∧ ∀ way, way <+: path → (walk d way).length ≤ max := by
  induction path generalizing d with
  | nil =>
      simp only [walkMax, Option.some.injEq, walk_nil, List.prefix_nil]
      constructor
      · rintro rfl
        exact ⟨rfl, fun way hway => hway ▸ hd⟩
      · rintro ⟨rfl, -⟩
        rfl
  | cons s path ih =>
      -- The first directory on the way is `d`, the others are on the way from `go d s`.
      have hways : (∀ way, way <+: s :: path → (walk d way).length ≤ max) ↔
          ∀ way, way <+: path → (walk (go d s) way).length ≤ max := by
        constructor
        · intro h way hway
          exact h (s :: way) (List.cons_prefix_cons.mpr ⟨rfl, hway⟩)
        · intro h way hway
          cases way with
          | nil => exact hd
          | cons s' way =>
              obtain ⟨rfl, hrest⟩ := List.cons_prefix_cons.mp hway
              exact h way hrest
      rw [hways, walk_cons]
      cases s with
      | same => exact ih hd
      | up =>
          apply ih
          rw [List.length_dropLast]
          omega
      | name v =>
          rw [walkMax]
          split
          · next hfull =>
              constructor
              · intro h
                cases h
              · rintro ⟨-, h⟩
                have hfirst := h [] List.nil_prefix
                simp only [go, walk_nil, List.length_append, List.length_singleton] at hfirst
                omega
          · next hroom =>
              apply ih
              simp only [List.length_append, List.length_singleton]
              omega

end Walk

end Path
