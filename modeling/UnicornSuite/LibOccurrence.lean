import Mathlib.Data.List.Infix
import Mathlib.Data.Nat.Find
import Mathlib.Data.Set.Insert
import Mathlib.Tactic.Common
import UnicornSuite.LibRun

/-! The first occurrence of a pattern in a list, as a scan from left to right finds it: what stands
behind it. What cannot start an occurrence is passed over, and what stands behind an occurrence that is
found does not matter. -/

namespace Search

variable {α : Type*} [DecidableEq α]

/-- What stands behind the first occurrence of a pattern. -/
def behind (pat : List α) : List α → Option (List α)
  | [] => none
  | c :: s => if pat <+: c :: s then some ((c :: s).drop pat.length) else behind pat s

variable {pat r s t : List α} {c : α}

theorem behind_of_prefix (h : pat <+: c :: s) : behind pat (c :: s) = some ((c :: s).drop pat.length) :=
  if_pos h

theorem behind_cons (h : ¬ pat <+: c :: s) : behind pat (c :: s) = behind pat s := if_neg h

theorem behind_self (hne : pat ≠ []) (t : List α) : behind pat (pat ++ t) = some t := by
  obtain ⟨c, p, rfl⟩ := List.exists_cons_of_ne_nil hne
  have hpre : c :: p <+: c :: (p ++ t) := List.prefix_append (c :: p) t
  rw [List.cons_append, behind_of_prefix hpre, ← List.cons_append, List.drop_left]

/-- What does not start like the pattern is passed over. -/
theorem behind_append_of_ne (hs : ∀ c ∈ s, pat.head? ≠ some c) (hne : pat ≠ []) (t : List α) :
    behind pat (s ++ t) = behind pat t := by
  induction s with
  | nil => rfl
  | cons c s ih =>
      rw [List.cons_append, behind_cons, ih fun d hd => hs d (List.mem_cons_of_mem c hd)]
      intro hpre
      obtain ⟨d, p, rfl⟩ := List.exists_cons_of_ne_nil hne
      exact hs c List.mem_cons_self (congrArg some (List.cons_prefix_cons.mp hpre).1)

theorem suffix_of_behind (h : behind pat s = some r) : pat ++ r <:+ s := by
  induction s with
  | nil => cases h
  | cons c s ih =>
      rw [behind] at h
      split at h
      · rename_i hpre
        obtain ⟨t, ht⟩ := hpre
        cases h
        rw [← ht, List.drop_left]
      · exact (ih h).trans (List.suffix_cons c s)

theorem behind_append (h : behind pat s = some r) (t : List α) : behind pat (s ++ t) = some (r ++ t) := by
  induction s with
  | nil => cases h
  | cons c s ih =>
      rw [behind] at h
      split at h
      · rename_i hpre
        cases h
        have hpre' : pat <+: c :: (s ++ t) := hpre.trans (List.prefix_append (c :: s) t)
        rw [List.cons_append, behind_of_prefix hpre', ← List.cons_append,
          List.drop_append_of_le_length hpre.length_le]
      · rename_i hpre
        rw [List.cons_append, behind_cons, ih h]
        intro hpre'
        have hlen := (suffix_of_behind h).length_le
        rw [List.length_append] at hlen
        exact hpre (List.prefix_of_prefix_length_le hpre' (List.prefix_append (c :: s) t)
          (by rw [List.length_cons]; omega))

end Search

/-! Where a pattern first ends in a stream. A stream that has the pattern has one shortest part, from its
beginning on, that ends with it (`exists_first`, `First.eq`); where the pattern is not in what has come so
far, that part ends in what comes next (`First.in_tail`). A machine that looks out for several patterns at
once knows, as long as none has ended, how the stream ends (`Free.run`), and is done where the first of
them ends (`FirstOf.run`). -/

namespace Occurrence

variable {α : Type*} {pat s t u : List α}

/-- `s` ends with the pattern, and no shorter part does. -/
def First (pat s : List α) : Prop := pat <:+ s ∧ ∀ t, t <+: s → pat <:+ t → t = s

theorem isInfix_of_ends (h : pat <:+ t) (ht : t <+: s) : pat <:+: s :=
  h.isInfix.trans ht.isInfix

theorem exists_first (h : pat <:+: s) : ∃ t, t <+: s ∧ First pat t := by
  classical
  have hsome : ∃ n, pat <:+ s.take n := by
    obtain ⟨a, b, rfl⟩ := h
    refine ⟨(a ++ pat).length, ?_⟩
    rw [List.take_left]
    exact List.suffix_append a pat
  refine ⟨s.take (Nat.find hsome), List.take_prefix _ s, Nat.find_spec hsome, fun t ht hends => ?_⟩
  have hwhole : s.take t.length = t := by
    have hbegins := ht.trans (List.take_prefix _ s)
    exact (List.prefix_iff_eq_take.mp hbegins).symm
  have hleast : Nat.find hsome ≤ t.length := by
    apply Nat.find_min'
    rw [hwhole]
    exact hends
  apply ht.eq_of_length_le
  exact (List.length_take_le _ s).trans hleast

/-- A stream has one first occurrence. -/
theorem First.eq (h : First pat t) (h' : First pat u) (ht : t <+: s) (hu : u <+: s) : t = u := by
  obtain hle | hge := List.prefix_or_prefix_of_prefix ht hu
  · exact h'.2 t hle h.1
  · exact (h.2 u hge h'.1).symm

/-- The first occurrence ends behind a part that does not have the pattern. -/
theorem First.in_tail {a d : List α} (h : First pat t) (ha : ¬pat <:+: a) (ht : t <+: a ++ d) :
    ∃ k, t = a ++ d.take k := by
  obtain hle | ⟨c, rfl⟩ := List.prefix_or_prefix_of_prefix ht (List.prefix_append a d)
  · exact absurd (isInfix_of_ends h.1 hle) ha
  · have hc : c <+: d := (List.prefix_append_right_inj a).mp ht
    exact ⟨c.length, congrArg (a ++ ·) (List.prefix_iff_eq_take.mp hc)⟩

/-! ### One of several patterns -/

/-- `s` ends with one of the patterns. -/
def Ends (P : Set (List α)) (s : List α) : Prop := ∃ pat ∈ P, pat <:+ s

/-- None of the patterns is in `s`. -/
def Free (P : Set (List α)) (s : List α) : Prop := ∀ t, t <+: s → ¬ Ends P t

/-- `s` ends with one of the patterns, and no shorter part does. -/
def FirstOf (P : Set (List α)) (s : List α) : Prop := Ends P s ∧ ∀ t, t <+: s → Ends P t → t = s

instance {P : Set (List α)} {s : List α} [∀ t, Decidable (Ends P t)] : Decidable (Free P s) :=
  decidable_of_iff (∀ t ∈ s.inits, ¬ Ends P t) (by simp [Free])

instance {P : Set (List α)} {s : List α} [DecidableEq α] [∀ t, Decidable (Ends P t)] :
    Decidable (FirstOf P s) :=
  decidable_of_iff (Ends P s ∧ ∀ t ∈ s.inits, Ends P t → t = s) (by simp [FirstOf])

theorem concat_suffix_concat (pat s : List α) {a b : α} : pat ++ [a] <:+ s ++ [b] ↔ b = a ∧ pat <:+ s := by
  constructor
  · rintro ⟨u, hu⟩
    rw [← List.append_assoc] at hu
    obtain ⟨hs, hab⟩ := List.append_inj' hu rfl
    exact ⟨(List.cons.inj hab).1.symm, u, hs⟩
  · rintro ⟨rfl, u, rfl⟩
    exact ⟨u, by rw [List.append_assoc]⟩

variable {P : Set (List α)} {a : α}

theorem Free.of_concat (h : Free P (s ++ [a])) : Free P s :=
  fun t ht => h t (ht.trans (List.prefix_append s [a]))

/-- Before the end of the first of the patterns there is none. -/
theorem FirstOf.free_of_concat (h : FirstOf P (s ++ [a])) : Free P s := by
  intro t ht hends
  have hwhole := h.2 t (ht.trans (List.prefix_append s [a])) hends
  have hlong := congrArg List.length hwhole
  have hshort := ht.length_le
  rw [List.length_append, List.length_singleton] at hlong
  omega

variable {σ : Type*} {step : σ → α → σ} {I : List α → σ → Prop} {x : σ}

/-- What a step makes of the part so far, the machine knows as long as no pattern has ended. -/
theorem Free.run (hstep : ∀ s x a, I s x → ¬ Ends P (s ++ [a]) → I (s ++ [a]) (step x a))
    (hstart : I [] x) (h : Free P s) : I s (Machine.run step x s) := by
  induction s using List.reverseRecOn with
  | nil => exact hstart
  | append_singleton s a ih =>
      rw [Machine.run_append]
      exact hstep s _ a (ih h.of_concat) (h _ (List.prefix_refl _))

theorem FirstOf.run {J : List α → σ → Prop}
    (hstep : ∀ s x a, I s x → ¬ Ends P (s ++ [a]) → I (s ++ [a]) (step x a))
    (hdone : ∀ s x a, I s x → Ends P (s ++ [a]) → J (s ++ [a]) (step x a))
    (hstart : I [] x) (hne : [] ∉ P) (h : FirstOf P s) : J s (Machine.run step x s) := by
  induction s using List.reverseRecOn with
  | nil =>
      obtain ⟨pat, hmem, hpat⟩ := h.1
      rw [List.suffix_nil.mp hpat] at hmem
      exact absurd hmem hne
  | append_singleton s a _ =>
      rw [Machine.run_append]
      exact hdone s _ a (h.free_of_concat.run hstep hstart) h.1

end Occurrence
