import Mathlib.Data.List.Infix

/-! Records that stand one behind another: each is found at a position and says where the next one is.
The records from a position on are determined, so that of two lists of them one starts with the other, and
a property is met first by at most one list. -/

namespace Chain

variable {ρ : Type*} {find : Nat → Option ρ} {next : ρ → Nat} {p : Nat} {cs cs' : List ρ}

/-- The records of the list stand behind one another from position `p` on. -/
inductive From (find : Nat → Option ρ) (next : ρ → Nat) : Nat → List ρ → Prop
  | nil (p : Nat) : From find next p []
  | cons {p : Nat} {c : ρ} {cs : List ρ} (found : find p = some c) (rest : From find next (next c) cs) :
      From find next p (c :: cs)

theorem from_cons_iff {c : ρ} :
    From find next p (c :: cs) ↔ find p = some c ∧ From find next (next c) cs := by
  constructor
  · rintro (_ | ⟨found, rest⟩)
    exact ⟨found, rest⟩
  · rintro ⟨found, rest⟩
    exact .cons found rest

/-- Every record of the list is found somewhere. -/
theorem From.exists_find (h : From find next p cs) {c : ρ} (hc : c ∈ cs) : ∃ q, find q = some c := by
  induction h with
  | nil p => exact absurd hc List.not_mem_nil
  | cons found rest ih =>
      rcases List.mem_cons.mp hc with rfl | hc
      · exact ⟨_, found⟩
      · exact ih hc

theorem From.comparable (h : From find next p cs) (h' : From find next p cs') :
    cs <+: cs' ∨ cs' <+: cs := by
  induction h generalizing cs' with
  | nil p => exact Or.inl List.nil_prefix
  | cons found rest ih =>
      cases h' with
      | nil => exact Or.inr List.nil_prefix
      | cons found' rest' =>
          obtain rfl := Option.some.inj (found.symm.trans found')
          rcases ih rest' with hprefix | hprefix
          · exact Or.inl (List.cons_prefix_cons.mpr ⟨rfl, hprefix⟩)
          · exact Or.inr (List.cons_prefix_cons.mpr ⟨rfl, hprefix⟩)

/-- The property holds of the list, and of no shorter one that it starts with. -/
def Shortest (P : List ρ → Prop) (cs : List ρ) : Prop := P cs ∧ ∀ cs', cs' <+: cs → P cs' → cs' = cs

theorem Shortest.unique {P : List ρ → Prop} (hP : ∀ cs, P cs → From find next p cs)
    (h : Shortest P cs) (h' : Shortest P cs') : cs = cs' := by
  rcases (hP cs h.1).comparable (hP cs' h'.1) with hprefix | hprefix
  · exact h'.2 cs hprefix h.1
  · exact (h.2 cs' hprefix h'.1).symm

/-- Where nothing is needed the empty list is the shortest. -/
theorem shortest_nil {P : List ρ → Prop} (h : P []) : Shortest P [] :=
  ⟨h, fun _ hprefix _ => List.prefix_nil.mp hprefix⟩

/-- A list that has to start with `c` is the shortest if what follows is. -/
theorem shortest_cons {P Q : List ρ → Prop} {c : ρ} (hPQ : ∀ cs, P (c :: cs) ↔ Q cs) (hnil : ¬ P [])
    (h : Shortest Q cs) : Shortest P (c :: cs) := by
  refine ⟨(hPQ cs).mpr h.1, fun cs' hprefix hcs' => ?_⟩
  cases cs' with
  | nil => exact absurd hcs' hnil
  | cons c' cs' =>
      obtain ⟨rfl, htail⟩ := List.cons_prefix_cons.mp hprefix
      rw [h.2 cs' htail ((hPQ cs').mp hcs')]

end Chain
