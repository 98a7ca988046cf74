import UnicornSuite.LibRun

/-! Words of brackets, and machines that read them. A bracket is closed where what is between it and
its closer is nested as well. A machine scopes what a relation on its states looks at when every
closer takes it back to where it was before the bracket; for a machine that cannot tell related
states apart this is a condition on the states in front of the opening brackets alone. -/

namespace Nesting

open Machine

variable {σ ε : Type*}

/-- Every bracket of the word is closed, in the order of the brackets. -/
inductive Nested (flat : ε → Prop) (closes : ε → ε → Prop) : List ε → Prop
  | nil : Nested flat closes []
  | flat {e : ε} {es : List ε} (he : flat e) (h : Nested flat closes es) :
      Nested flat closes (e :: es)
  | pair {o c : ε} {inner es : List ε} (hc : closes o c) (hinner : Nested flat closes inner)
      (h : Nested flat closes es) : Nested flat closes (o :: (inner ++ c :: es))

/-- After each closed bracket of the word the machine is where it was before it. -/
def Scoped (step : σ → ε → σ) (R : σ → σ → Prop) (flat : ε → Prop) (closes : ε → ε → Prop) (s : σ)
    (es : List ε) : Prop :=
  ∀ before o inner c after, es = before ++ o :: (inner ++ c :: after) → closes o c →
    Nested flat closes inner →
      R (run step s before) (run step s (before ++ o :: (inner ++ [c])))

/-- From the states of the invariant the machine cannot tell related states apart, and a bracket around
nothing is scoped exactly when the state in front of it is good. -/
structure Scopes (step : σ → ε → σ) (I : σ → Prop) (R : σ → σ → Prop) (flat : ε → Prop)
    (closes : ε → ε → Prop) (good : σ → ε → Prop) : Prop where
  inv : ∀ (s : σ) (e : ε), I s → I (step s e)
  equiv : Equivalence R
  congr : ∀ {s s' : σ} (e : ε), R s s' → R (step s e) (step s' e)
  flat_step : ∀ (s : σ) {e : ε}, flat e → R s (step s e)
  flat_good : ∀ (s : σ) {e : ε}, flat e → good s e
  closer_good : ∀ (s : σ) {o c : ε}, closes o c → good s c
  good_iff : ∀ {s : σ} {o c : ε}, I s → closes o c → (good s o ↔ R s (step (step s o) c))

section

variable {step : σ → ε → σ} {I : σ → Prop} {R : σ → σ → Prop} {flat : ε → Prop}
  {closes : ε → ε → Prop} {good : σ → ε → Prop} {s : σ} {es : List ε}

theorem Scoped.tail {e : ε} (h : Scoped step R flat closes s (e :: es)) :
    Scoped step R flat closes (step s e) es := by
  intro before o inner c after hes hc hinner
  exact h (e :: before) o inner c after (by rw [hes]; rfl) hc hinner

theorem Scoped.drop {es' : List ε} (h : Scoped step R flat closes s (es ++ es')) :
    Scoped step R flat closes (run step s es) es' := by
  induction es generalizing s with
  | nil => exact h
  | cons e es ih => exact ih h.tail

theorem Scoped.take {es' : List ε} (h : Scoped step R flat closes s (es ++ es')) :
    Scoped step R flat closes s es := by
  intro before o inner c after hes hc hinner
  refine h before o inner c (after ++ es') ?_ hc hinner
  rw [hes]
  simp only [List.append_assoc, List.cons_append]

variable (h : Scopes step I R flat closes good) (hs : I s)

include h hs

/-- A nested word takes the machine back to where it was. -/
theorem Scopes.restores (hes : Nested flat closes es) (hgood : Guarded step good s es) :
    R s (run step s es) := by
  induction hes generalizing s with
  | nil => exact h.equiv.refl s
  | flat he _ ih => exact h.equiv.trans (h.flat_step s he) (ih (h.inv _ _ hs) hgood.2)
  | @pair o c inner es hc _ _ ihinner ihes =>
      obtain ⟨ho, hrest⟩ := hgood
      obtain ⟨hinner, -, hes⟩ := guarded_append.mp hrest
      have hopen : I (step s o) := h.inv _ _ hs
      have hclosed : R s (step (run step (step s o) inner) c) :=
        h.equiv.trans ((h.good_iff hs hc).mp ho) (h.congr c (ihinner hopen hinner))
      rw [run_cons, run_append, run_cons]
      exact h.equiv.trans hclosed (ihes (h.inv _ _ (run_inv h.inv hopen inner)) hes)

/-- A nested word is scoped exactly when the state in front of each of its brackets is good. -/
theorem Scopes.scoped_iff (hes : Nested flat closes es) :
    Scoped step R flat closes s es ↔ Guarded step good s es := by
  constructor
  · intro hscoped
    induction hes generalizing s with
    | nil => trivial
    | flat he _ ih => exact ⟨h.flat_good s he, ih (h.inv _ _ hs) hscoped.tail⟩
    | @pair o c inner es hc hnested _ ihinner ihes =>
        have hopen : I (step s o) := h.inv _ _ hs
        have hinner : Guarded step good (step s o) inner := ihinner hopen hscoped.tail.take
        have hback := hscoped [] o inner c es rfl hc hnested
        simp only [List.nil_append, run_nil, run_cons, run_append] at hback
        -- What is inside has left the machine where the bracket took it.
        have hsame : R (step (run step (step s o) inner) c) (step (step s o) c) :=
          h.congr c (h.equiv.symm (h.restores hopen hnested hinner))
        have ho : good s o := (h.good_iff hs hc).mpr (h.equiv.trans hback hsame)
        have hafter : I (step (run step (step s o) inner) c) :=
          h.inv _ _ (run_inv h.inv hopen inner)
        exact ⟨ho, guarded_append.mpr
          ⟨hinner, h.closer_good _ hc, ihes hafter hscoped.tail.drop.tail⟩⟩
  · intro hgood before o inner c after hsplit hc hnested
    rw [hsplit] at hgood
    obtain ⟨-, ho, hrest⟩ := guarded_append.mp hgood
    obtain ⟨hinner, -, -⟩ := guarded_append.mp hrest
    have hbefore : I (run step s before) := run_inv h.inv hs before
    rw [run_append, run_cons, run_append, run_cons, run_nil]
    exact h.equiv.trans ((h.good_iff hbefore hc).mp ho)
      (h.congr c (h.restores (h.inv _ _ hbefore) hnested hinner))

end

end Nesting
