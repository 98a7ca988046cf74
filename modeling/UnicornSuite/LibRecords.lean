import Mathlib.Tactic.Common
import Mathlib.Data.List.Basic

/-! The records of a stream, each ended by a delimiter; what comes behind the last delimiter belongs
to none. Two readers of records, of which one gives for each record what the other gives or nothing,
give the same for a stream exactly where they do for every record (`flatMap_eq_iff`). In a list where
some elements are heads and others are items, the items up to the next stop belong to a head
(`groups`). -/

namespace Records

variable {α β : Type*}

section Ended

variable [DecidableEq α] {d : α} {l : List α}

/-- The records that are ended in a stream. -/
def ended (d : α) : List α → List (List α)
  | [] => []
  | c :: s =>
      if c = d then [] :: ended d s
      else
        match ended d s with
        | [] => []
        | l :: ls => (c :: l) :: ls

theorem ended_of_notMem (hl : d ∉ l) : ended d l = [] := by
  induction l with
  | nil => rfl
  | cons c l ih =>
      have hrest := ih (List.not_mem_of_not_mem_cons hl)
      exact (if_neg (List.ne_of_not_mem_cons hl).symm).trans (by rw [hrest])

theorem ended_append (hl : d ∉ l) (s : List α) : ended d (l ++ d :: s) = l :: ended d s := by
  induction l with
  | nil => exact if_pos rfl
  | cons c l ih =>
      have hrest := ih (List.not_mem_of_not_mem_cons hl)
      exact (if_neg (List.ne_of_not_mem_cons hl).symm).trans (by rw [List.append_eq, hrest])

/-- A stream is its first record, ended, and a stream, or nothing is ended in it. -/
theorem cases_record (d : α) (s : List α) : d ∉ s ∨ ∃ l t, d ∉ l ∧ s = l ++ d :: t := by
  by_cases hd : d ∈ s
  · obtain ⟨l, t, hs, hl⟩ := List.eq_append_cons_of_mem hd
    exact Or.inr ⟨l, t, hl, hs⟩
  · exact Or.inl hd

theorem notMem_of_mem_ended {s : List α} (h : l ∈ ended d s) : d ∉ l := by
  induction s generalizing l with
  | nil => cases h
  | cons c s ih =>
      rw [ended] at h
      split at h
      · rcases List.mem_cons.mp h with rfl | h
        · exact List.not_mem_nil
        · exact ih h
      · rename_i hne
        split at h
        · cases h
        · rename_i m ms heq
          rcases List.mem_cons.mp h with rfl | h
          · exact List.not_mem_cons_of_ne_of_not_mem (Ne.symm hne) (ih (heq ▸ List.mem_cons_self))
          · exact ih (heq ▸ List.mem_cons_of_mem m h)

/-- Induction on the records of a stream. -/
theorem induction_records {motive : List α → Prop} (d : α) (last : ∀ l, d ∉ l → motive l)
    (record : ∀ l s, d ∉ l → motive s → motive (l ++ d :: s)) (s : List α) : motive s := by
  induction hn : s.length using Nat.strongRecOn generalizing s with
  | _ n ih =>
      rcases cases_record d s with hs | ⟨l, t, hl, rfl⟩
      · exact last s hs
      · rw [List.length_append, List.length_cons] at hn
        exact record l t hl (ih t.length (by omega) t rfl)

/-- A stream that ends with the delimiter is its records. -/
theorem flatMap_ended (s : List α) : (ended d (s ++ [d])).flatMap (· ++ [d]) = s ++ [d] := by
  induction s using induction_records d with
  | last l hl =>
      rw [ended_append hl]
      exact List.append_nil _
  | record l s hl ih =>
      rw [List.append_assoc, List.cons_append, ended_append hl, List.flatMap_cons, ih,
        List.append_assoc, List.singleton_append]

end Ended

section Readers

variable {f g : α → List β}

theorem length_flatMap_le (hle : ∀ a, f a = g a ∨ f a = []) (l : List α) :
    (l.flatMap f).length ≤ (l.flatMap g).length := by
  induction l with
  | nil => exact Nat.le_refl _
  | cons a l ih =>
      rw [List.flatMap_cons, List.flatMap_cons, List.length_append, List.length_append]
      rcases hle a with ha | ha
      · rw [ha]
        omega
      · rw [ha, List.length_nil]
        omega

theorem flatMap_filter (p : α → Bool) (f : α → List β) (l : List α) :
    (l.filter p).flatMap f = l.flatMap fun a => if p a then f a else [] := by
  induction l with
  | nil => rfl
  | cons a l ih =>
      rw [List.filter_cons, List.flatMap_cons, ← ih]
      split
      · exact List.flatMap_cons
      · rfl

theorem flatMap_eq_iff (hle : ∀ a, f a = g a ∨ f a = []) (l : List α) :
    l.flatMap f = l.flatMap g ↔ ∀ a ∈ l, f a = g a := by
  constructor
  · intro heq
    induction l with
    | nil => exact fun a ha => absurd ha List.not_mem_nil
    | cons a l ih =>
        rw [List.flatMap_cons, List.flatMap_cons] at heq
        have hrest := length_flatMap_le hle l
        have hlen := congrArg List.length heq
        rw [List.length_append, List.length_append] at hlen
        have ha : f a = g a := by
          rcases hle a with ha | ha
          · exact ha
          · rw [ha, List.length_nil] at hlen
            rw [ha]
            exact (List.eq_nil_of_length_eq_zero (by omega)).symm
        rw [ha] at heq
        intro b hb
        rcases List.mem_cons.mp hb with rfl | hb
        · exact ha
        · exact ih (List.append_cancel_left heq) b hb
  · exact fun hall => List.flatMap_congr hall

end Readers

section Groups

variable {γ δ : Type*} (head : α → Option β) (stop : α → Bool) (item : α → Option γ)

/-- The items of a list before the first element that stops them. -/
def items (l : List α) : List γ := (l.takeWhile fun a => !stop a).filterMap item

/-- The heads of a list, each with the items that follow it. -/
def groups : List α → List (β × List γ)
  | [] => []
  | a :: l =>
      match head a with
      | some b => (b, items stop item l) :: groups l
      | none => groups l

variable {head stop item}

theorem groups_cons_some {a : α} {b : β} (h : head a = some b) (l : List α) :
    groups head stop item (a :: l) = (b, items stop item l) :: groups head stop item l := by
  rw [groups, h]

theorem groups_cons_none {a : α} (h : head a = none) (l : List α) :
    groups head stop item (a :: l) = groups head stop item l := by
  rw [groups, h]

/-- The items up to one stop are those up to an earlier one and those from there. -/
theorem items_append {stop' : α → Bool} (hstop : ∀ a, stop a = true → stop' a = true) (l : List α) :
    items stop item l =
      items stop' item l ++ items stop item (l.dropWhile fun a => !stop' a) := by
  induction l with
  | nil => rfl
  | cons a l ih =>
      cases ha : stop' a with
      | true => simp [items, ha]
      | false =>
          have hgo : stop a = false := Bool.eq_false_iff.mpr fun hs => by simp [hstop a hs] at ha
          rw [items, items] at ih ⊢
          rw [List.takeWhile_cons, List.takeWhile_cons, List.dropWhile_cons, ha, hgo]
          cases hitem : item a with
          | none => simpa [hitem] using ih
          | some c => simpa [hitem] using ih

theorem forall_suffix_cons {P : α → List α → Prop} (c : α) (l : List α) :
    (∀ a post, (a :: post) <:+ c :: l → P a post) ↔
      P c l ∧ ∀ a post, (a :: post) <:+ l → P a post := by
  constructor
  · exact fun h => ⟨h c l (List.suffix_refl _),
      fun a post hs => h a post (hs.trans (List.suffix_cons c l))⟩
  · rintro ⟨hhead, htail⟩ a post hs
    rcases List.suffix_cons_iff.mp hs with heq | hs
    · obtain ⟨rfl, rfl⟩ := List.cons.inj heq
      exact hhead
    · exact htail a post hs

/-- Two ways to end the groups of a list come to the same exactly where they do for every head. -/
theorem map_groups_eq_iff {stop' : α → Bool} (f : β × List γ → δ) (l : List α) :
    (groups head stop item l).map f = (groups head stop' item l).map f ↔
      ∀ a post, (a :: post) <:+ l → ∀ b, head a = some b →
        f (b, items stop item post) = f (b, items stop' item post) := by
  induction l with
  | nil => exact iff_of_true rfl fun a post hsuffix => by simp at hsuffix
  | cons c l ih =>
      rw [forall_suffix_cons, ← ih]
      cases hc : head c with
      | none =>
          rw [groups_cons_none hc, groups_cons_none hc]
          exact (and_iff_right fun b hb => nomatch hb).symm
      | some b =>
          rw [groups_cons_some hc, groups_cons_some hc, List.map_cons, List.map_cons, List.cons.injEq]
          refine and_congr_left fun _ => ⟨?_, fun h => h b rfl⟩
          rintro heq b' hb'
          obtain rfl := Option.some.inj hb'
          exact heq

end Groups

end Records
