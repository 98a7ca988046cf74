import Mathlib.Tactic.Common

/-! Machines given by a step function and the runs they make over a list of events. An invariant is
proved for one step and holds in every state of every run (`run_inv`); where a step keeps it only
under a condition on the state and the event, it holds along the runs whose steps all meet the
condition (`run_inv_of_guarded`), and along no other run where to miss the condition is to lose what
the invariant is for (`safe_iff_guarded`). Two machines whose steps keep a relation run in step
(`run_rel`), under a condition where the steps need one (`run_rel_of_guarded`). -/

namespace Machine

variable {σ τ ε : Type*}

/-- The state after the events of a list. -/
def run (step : σ → ε → σ) (s : σ) (es : List ε) : σ := es.foldl step s

section Run

variable (step : σ → ε → σ)

@[simp] theorem run_nil (s : σ) : run step s [] = s := rfl

@[simp] theorem run_cons (s : σ) (e : ε) (es : List ε) :
    run step s (e :: es) = run step (step s e) es := rfl

theorem run_append (s : σ) (es es' : List ε) :
    run step s (es ++ es') = run step (run step s es) es' := List.foldl_append

end Run

/-- Every step of the run from `s` meets the condition. -/
def Guarded (step : σ → ε → σ) (guard : σ → ε → Prop) : σ → List ε → Prop
  | _, [] => True
  | s, e :: es => guard s e ∧ Guarded step guard (step s e) es

theorem guarded_cons {step : σ → ε → σ} {guard : σ → ε → Prop} {s : σ} {e : ε} {es : List ε} :
    Guarded step guard s (e :: es) ↔ guard s e ∧ Guarded step guard (step s e) es := Iff.rfl

instance Guarded.decidable {step : σ → ε → σ} {guard : σ → ε → Prop}
    [∀ s e, Decidable (guard s e)] : ∀ (s : σ) (es : List ε), Decidable (Guarded step guard s es)
  | _, [] => isTrue trivial
  | s, e :: es =>
      have : Decidable (Guarded step guard (step s e) es) := decidable (step s e) es
      inferInstanceAs (Decidable (guard s e ∧ Guarded step guard (step s e) es))

section Invariant

variable {step : σ → ε → σ} {I : σ → Prop} {s : σ}

theorem run_inv (hstep : ∀ s e, I s → I (step s e)) (h : I s) (es : List ε) :
    I (run step s es) := by
  induction es generalizing s with
  | nil => exact h
  | cons e es ih => exact ih (hstep s e h)

theorem run_step_comm (hstep : ∀ s e, I s → I (step s e))
    (hcomm : ∀ s e e', I s → step (step s e) e' = step (step s e') e) (h : I s) (e : ε) (es : List ε) :
    step (run step s es) e = run step (step s e) es := by
  induction es generalizing s with
  | nil => rfl
  | cons e' es ih => rw [run_cons, run_cons, hcomm s e e' h, ih (hstep s e' h)]

/-- Events that commute and each undo themselves leave nothing behind when they come twice. -/
theorem run_twice (hstep : ∀ s e, I s → I (step s e))
    (hcomm : ∀ s e e', I s → step (step s e) e' = step (step s e') e)
    (hself : ∀ s e, I s → step (step s e) e = s) (h : I s) (es : List ε) :
    run step (run step s es) es = s := by
  induction es generalizing s with
  | nil => rfl
  | cons e es ih =>
      calc
        run step (step (run step (step s e) es) e) es =
            run step (run step (step (step s e) e) es) es := by
          rw [run_step_comm hstep hcomm (hstep s e h)]
        _ = run step (run step s es) es := by rw [hself s e h]
        _ = s := ih h

variable {guard : σ → ε → Prop}

theorem run_inv_of_guarded (hstep : ∀ s e, I s → guard s e → I (step s e)) (h : I s)
    {es : List ε} (hes : Guarded step guard s es) : I (run step s es) := by
  induction es generalizing s with
  | nil => exact h
  | cons e es ih => exact ih (hstep s e h hes.1) hes.2

/-- The same where the condition is on the event alone. -/
theorem run_inv_of_forall {K : ε → Prop} (hstep : ∀ s e, K e → I s → I (step s e)) (h : I s)
    {es : List ε} (hes : ∀ e ∈ es, K e) : I (run step s es) := by
  induction es generalizing s with
  | nil => exact h
  | cons e es ih =>
      exact ih (hstep s e (hes e List.mem_cons_self) h) fun e' he' => hes e' (List.mem_cons_of_mem e he')

theorem guarded_append {es es' : List ε} :
    Guarded step guard s (es ++ es') ↔
      Guarded step guard s es ∧ Guarded step guard (run step s es) es' := by
  induction es generalizing s with
  | nil => exact (true_and (Guarded step guard s es')).to_iff.symm
  | cons e es ih => simp only [List.cons_append, guarded_cons, run_cons, ih, and_assoc]

/-- A run meets two conditions exactly if it meets both at once. -/
theorem guarded_and {guard' : σ → ε → Prop} {es : List ε} :
    Guarded step (fun s e => guard s e ∧ guard' s e) s es ↔
      Guarded step guard s es ∧ Guarded step guard' s es := by
  induction es generalizing s with
  | nil => exact (and_self_iff).symm
  | cons e es ih => rw [guarded_cons, guarded_cons, guarded_cons, ih, and_and_and_comm]

theorem Guarded.and {guard' : σ → ε → Prop} {es : List ε} (h : Guarded step guard s es)
    (h' : Guarded step guard' s es) : Guarded step (fun s e => guard s e ∧ guard' s e) s es :=
  guarded_and.mpr ⟨h, h'⟩

/-- A condition that the invariant makes a stronger one is met wherever the run meets it. -/
theorem Guarded.imp {guard' : σ → ε → Prop} (hstep : ∀ s e, I s → guard s e → I (step s e))
    (himp : ∀ s e, I s → guard s e → guard' s e) (h : I s) {es : List ε}
    (hes : Guarded step guard s es) : Guarded step guard' s es := by
  induction es generalizing s with
  | nil => trivial
  | cons e es ih => exact ⟨himp s e h hes.1, ih (hstep s e h hes.1) hes.2⟩

/-- Two conditions that the invariant makes one are met by the same runs. -/
theorem guarded_congr {guard' : σ → ε → Prop} (hstep : ∀ s e, I s → guard s e → I (step s e))
    (hiff : ∀ s e, I s → (guard s e ↔ guard' s e)) (h : I s) (es : List ε) :
    Guarded step guard s es ↔ Guarded step guard' s es := by
  constructor
  · exact Guarded.imp hstep (fun s e hs => (hiff s e hs).mp) h
  · exact Guarded.imp (fun s e hs hg => hstep s e hs ((hiff s e hs).mpr hg))
      (fun s e hs => (hiff s e hs).mpr) h

/-- Over events of a kind the condition may as well ask for the kind. -/
theorem guarded_and_iff {K : ε → Prop} {es : List ε} (hes : ∀ e ∈ es, K e) :
    Guarded step (fun s e => K e ∧ guard s e) s es ↔ Guarded step guard s es := by
  induction es generalizing s with
  | nil => exact Iff.rfl
  | cons e es ih =>
      rw [guarded_cons, guarded_cons, ih fun e' he' => hes e' (List.mem_cons_of_mem e he')]
      exact and_congr_left fun _ => and_iff_right (hes e List.mem_cons_self)

/-- Where the invariant gives `P` and an event that misses the condition leaves a state without `P`,
the runs over events of a kind that are in `P` all along are those whose steps meet the condition. -/
theorem safe_iff_guarded_of {P : σ → Prop} {K : ε → Prop}
    (hstep : ∀ s e, K e → I s → guard s e → I (step s e)) (hsafe : ∀ s, I s → P s)
    (hmiss : ∀ s e, K e → I s → ¬ guard s e → ¬ P (step s e)) (h : I s) {es : List ε}
    (hes : ∀ e ∈ es, K e) :
    (∀ es', es' <+: es → P (run step s es')) ↔ Guarded step guard s es := by
  induction es generalizing s with
  | nil =>
      refine iff_of_true (fun es' hes' => ?_) trivial
      rw [List.prefix_nil.mp hes']
      exact hsafe s h
  | cons e es ih =>
      have hkind := hes e List.mem_cons_self
      have hrest (hguard : guard s e) := ih (hstep s e hkind h hguard)
        fun e' he' => hes e' (List.mem_cons_of_mem e he')
      constructor
      · intro hall
        have hguard : guard s e := by
          by_contra hno
          exact hmiss s e hkind h hno (hall [e] ⟨es, rfl⟩)
        refine ⟨hguard, (hrest hguard).mp fun es' hes' => ?_⟩
        exact hall (e :: es') (List.cons_prefix_cons.mpr ⟨rfl, hes'⟩)
      · rintro ⟨hguard, hgood⟩ es' hes'
        cases es' with
        | nil => exact hsafe s h
        | cons e' es' =>
            obtain ⟨rfl, hprefix⟩ := List.cons_prefix_cons.mp hes'
            exact (hrest hguard).mpr hgood es' hprefix

/-- The same over events of every kind. -/
theorem safe_iff_guarded {P : σ → Prop} (hstep : ∀ s e, I s → guard s e → I (step s e))
    (hsafe : ∀ s, I s → P s) (hmiss : ∀ s e, I s → ¬ guard s e → ¬ P (step s e)) (h : I s)
    (es : List ε) : (∀ es', es' <+: es → P (run step s es')) ↔ Guarded step guard s es :=
  safe_iff_guarded_of (K := fun _ => True) (fun s e _ => hstep s e) hsafe
    (fun s e _ => hmiss s e) h fun _ _ => trivial

end Invariant

/-- Steps that keep a relation between two machines keep it along a run. -/
theorem run_rel {step : σ → ε → σ} {step' : τ → ε → τ} {R : σ → τ → Prop}
    (hstep : ∀ s t e, R s t → R (step s e) (step' t e)) {s : σ} {t : τ} (h : R s t)
    (es : List ε) : R (run step s es) (run step' t es) := by
  induction es generalizing s t with
  | nil => exact h
  | cons e es ih => exact ih (hstep s t e h)

/-- The same along the runs whose steps meet a condition. -/
theorem run_rel_of_guarded {step : σ → ε → σ} {step' : τ → ε → τ} {guard : σ → ε → Prop}
    {R : σ → τ → Prop} (hstep : ∀ s t e, R s t → guard s e → R (step s e) (step' t e)) {s : σ}
    {t : τ} (h : R s t) {es : List ε} (hes : Guarded step guard s es) :
    R (run step s es) (run step' t es) := by
  induction es generalizing s t with
  | nil => exact h
  | cons e es ih => exact ih (hstep s t e h hes.1) hes.2

/-- A condition on a part of the state that runs by itself. -/
theorem guarded_map {step : σ → ε → σ} {step' : τ → ε → τ} {f : σ → τ} {guard : τ → ε → Prop}
    (hf : ∀ s e, f (step s e) = step' (f s) e) (s : σ) (es : List ε) :
    Guarded step (fun s e => guard (f s) e) s es ↔ Guarded step' guard (f s) es := by
  induction es generalizing s with
  | nil => exact Iff.rfl
  | cons e es ih => rw [guarded_cons, guarded_cons, ih, hf]

end Machine
