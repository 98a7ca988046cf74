import Mathlib.Data.List.Induction
import Mathlib.Data.List.Nodup
import Mathlib.Data.List.Perm.Subperm
import Mathlib.Tactic.Common
import UnicornSuite.LibRun

/-! The latest of a kind in a list. `last? f l` is the value of the last element that has one, and `since p l`
what comes behind the last element of a kind. A machine that takes over a value where an element has one,
and else keeps what it has, holds the latest value at the end of every run (`run_latest`). -/

namespace Latest

variable {α β σ : Type*}

def last? (f : α → Option β) (l : List α) : Option β := (l.filterMap f).getLast?

def since (p : α → Bool) (l : List α) : List α := (l.reverse.takeWhile fun a => !p a).reverse

variable {f : α → Option β} {p : α → Bool}

@[simp] theorem last?_nil : last? f [] = none := rfl

theorem last?_concat (l : List α) (a : α) : last? f (l ++ [a]) = (f a).or (last? f l) := by
  rw [last?, last?, List.filterMap_append]
  cases h : f a with
  | none => simp [h]
  | some v => simp [h]

theorem last?_append (l m : List α) : last? f (l ++ m) = (last? f m).or (last? f l) := by
  rw [last?, last?, last?, List.filterMap_append, List.getLast?_append]

@[simp] theorem since_nil : since p [] = [] := rfl

theorem since_concat (l : List α) (a : α) :
    since p (l ++ [a]) = if p a then [] else since p l ++ [a] := by
  rw [since, since, List.reverse_append, List.reverse_singleton, List.singleton_append,
    List.takeWhile_cons]
  cases p a <;> simp

theorem last?_eq_none {l : List α} : last? f l = none ↔ ∀ x ∈ l, f x = none := by
  rw [last?, List.getLast?_eq_none_iff, List.filterMap_eq_nil_iff]

/-- What stands before an element that has a value does not count. -/
theorem last?_append_of_some {l : List α} {x : α} (hx : x ∈ l) (hval : f x ≠ none) (m m' : List α) :
    last? f (m ++ l) = last? f (m' ++ l) := by
  rw [last?_append, last?_append]
  cases h : last? f l with
  | none => exact absurd (last?_eq_none.mp h x hx) hval
  | some v => rfl

/-- Elements that have no value do not count. -/
theorem last?_append_of_none {l : List α} (hl : ∀ x ∈ l, f x = none) (m : List α) :
    last? f (m ++ l) = last? f m := by
  rw [last?_append, last?_eq_none.mpr hl, Option.none_or]

/-- What a machine holds that takes over the value of each element that has one. -/
theorem run_latest {step : σ → α → σ} (view : σ → β)
    (hstep : ∀ s a, view (step s a) = (f a).getD (view s)) (s : σ) (l : List α) :
    view (Machine.run step s l) = (last? f l).getD (view s) := by
  induction l using List.reverseRecOn with
  | nil => rfl
  | append_singleton l a ih =>
      rw [Machine.run_append, Machine.run_cons, Machine.run_nil, hstep, ih, last?_concat]
      cases f a <;> rfl

end Latest

/-! First arrivals. Of values that come with keys, in any order and with repetitions, the first value
of each key counts: the keys in the order they first come, and the value each of them has. -/

namespace Firsts

section Distinct

variable {κ : Type} [DecidableEq κ]

theorem eraseDups_concat (l : List κ) (k : κ) :
    (l ++ [k]).eraseDups = if k ∈ l then l.eraseDups else l.eraseDups ++ [k] := by
  rw [List.eraseDups_append]
  split_ifs with hk
  · rw [show [k].removeAll l = [] by simp [List.removeAll, hk]]
    exact List.append_nil _
  · rw [show [k].removeAll l = [k] by simp [List.removeAll, hk]]
    rfl

theorem nodup_eraseDups (l : List κ) : l.eraseDups.Nodup := by
  induction l using List.reverseRecOn with
  | nil => exact List.nodup_nil
  | append_singleton l k ih =>
      rw [eraseDups_concat]
      split_ifs with hk
      · exact ih
      · refine List.nodup_append.mpr ⟨ih, List.nodup_singleton k, ?_⟩
        rintro a ha b hb rfl
        rw [List.mem_singleton.mp hb, List.mem_eraseDups] at ha
        exact hk ha

omit [DecidableEq κ] in
/-- A list without repetitions that is as long as one it is part of holds all of it. -/
theorem subset_of_length_le {l m : List κ} (hl : l.Nodup) (hsub : l ⊆ m)
    (hlength : m.length ≤ l.length) : m ⊆ l :=
  ((List.subperm_of_subset hl hsub).perm_of_length_le hlength).symm.subset

end Distinct

section Keyed

variable {α β κ : Type} [DecidableEq κ] (key : α → κ) (val : α → β)

/-- The keys of the values, in the order they first come. -/
def keys (l : List α) : List κ := (l.map key).eraseDups

/-- The first value that came with a key. -/
def firstFor (l : List α) (k : κ) : Option β := (l.find? (key · = k)).map val

variable {key val}

theorem mem_keys {l : List α} {k : κ} : k ∈ keys key l ↔ ∃ a ∈ l, key a = k := by
  rw [keys, List.mem_eraseDups, List.mem_map]

theorem nodup_keys (l : List α) : (keys key l).Nodup := nodup_eraseDups _

theorem keys_concat (l : List α) (a : α) :
    keys key (l ++ [a]) = if key a ∈ keys key l then keys key l else keys key l ++ [key a] := by
  unfold keys
  rw [List.map_append, List.map_singleton, eraseDups_concat]
  simp only [List.mem_eraseDups]

theorem prefix_keys {l m : List α} (h : l <+: m) : keys key l <+: keys key m := by
  obtain ⟨t, rfl⟩ := h
  unfold keys
  rw [List.map_append, List.eraseDups_append]
  exact List.prefix_append _ _

theorem firstFor_eq_none {l : List α} {k : κ} : firstFor key val l k = none ↔ k ∉ keys key l := by
  rw [firstFor, Option.map_eq_none_iff, List.find?_eq_none, mem_keys]
  simp

/-- What comes later does not replace it. -/
theorem firstFor_of_prefix {l m : List α} (h : l <+: m) {k : κ} (hk : k ∈ keys key l) :
    firstFor key val m k = firstFor key val l k := by
  obtain ⟨t, rfl⟩ := h
  obtain ⟨a, ha⟩ : ∃ a, l.find? (key · = k) = some a := by
    apply Option.ne_none_iff_exists'.mp
    intro hnone
    obtain ⟨a, hmem, hkey⟩ := mem_keys.mp hk
    simpa [hkey] using List.find?_eq_none.mp hnone a hmem
  unfold firstFor
  rw [List.find?_append, ha, Option.some_or]

/-- A further value counts when its key is new. -/
theorem firstFor_concat (l : List α) (a : α) (k : κ) :
    firstFor key val (l ++ [a]) k =
      if key a = k ∧ k ∉ keys key l then some (val a) else firstFor key val l k := by
  have hfound : firstFor key val (l ++ [a]) k =
      (firstFor key val l k).or (if key a = k then some (val a) else none) := by
    unfold firstFor
    rw [List.find?_append, Option.map_or]
    by_cases hk : key a = k <;> simp [hk]
  rw [hfound]
  by_cases hnew : k ∈ keys key l
  · obtain ⟨v, hv⟩ := Option.ne_none_iff_exists'.mp (mt firstFor_eq_none.mp (not_not.mpr hnew))
    rw [hv, Option.some_or, if_neg (fun h : key a = k ∧ k ∉ keys key l => h.2 hnew)]
  · rw [firstFor_eq_none.mpr hnew, Option.none_or]
    by_cases hk : key a = k
    · rw [if_pos hk, if_pos ⟨hk, hnew⟩]
    · rw [if_neg hk, if_neg (fun h : key a = k ∧ k ∉ keys key l => hk h.1)]

end Keyed

end Firsts
