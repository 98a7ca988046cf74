import Mathlib.Data.List.Basic
import Mathlib.Data.List.Nodup

/-! A range of indices into a list that changes at its ends. `Has l a b x` says that `x` stands in `l` at an index
between `a` and `b`; the bounds are integers and may lie outside of the list. What the range takes in is kept by
a list that grows behind it, and by one that loses elements at the front when the range moves along
(`slice_drop`); when it does not, `Stays` says where it is kept all the same (`slice_stays`). -/

namespace Slice

variable {α : Type*}

def Has (l : List α) (a b : Int) (x : α) : Prop := ∃ r : Nat, l[r]? = some x ∧ a ≤ r ∧ r ≤ b

variable {l m : List α} {a b : Int} {x : α}

theorem Has.mem (h : Has l a b x) : x ∈ l := by
  obtain ⟨r, hr, -⟩ := h
  exact List.mem_of_getElem? hr

theorem slice_iff (hl : l.Nodup) {r : Nat} (hr : l[r]? = some x) : Has l a b x ↔ a ≤ r ∧ r ≤ b := by
  constructor
  · rintro ⟨k, hk, ha, hb⟩
    have hlt : k < l.length := (List.getElem?_eq_some_iff.mp hk).1
    have heq : k = r := (List.getElem?_inj hlt hl).mp (hk.trans hr.symm)
    exact ⟨by omega, by omega⟩
  · rintro ⟨ha, hb⟩
    exact ⟨r, hr, ha, hb⟩

/-- New elements at the back, beside the range. -/
theorem slice_append (hout : (l.length : Int) + m.length ≤ a ∨ b < l.length ∨ m = []) :
    Has (l ++ m) a b x ↔ Has l a b x := by
  constructor
  · rintro ⟨r, hr, ha, hb⟩
    have hlt : r < (l ++ m).length := (List.getElem?_eq_some_iff.mp hr).1
    rw [List.length_append] at hlt
    have hlow : r < l.length := by
      rcases hout with h | h | rfl
      · omega
      · omega
      · exact hlt
    rw [List.getElem?_append_left hlow] at hr
    exact ⟨r, hr, ha, hb⟩
  · rintro ⟨r, hr, ha, hb⟩
    have hlow : r < l.length := (List.getElem?_eq_some_iff.mp hr).1
    exact ⟨r, by rw [List.getElem?_append_left hlow]; exact hr, ha, hb⟩

theorem getElem?_of_mem_drop {n : Nat} (h : x ∈ l.drop n) : ∃ k, (l.drop n)[k]? = some x ∧ l[n + k]? = some x := by
  obtain ⟨k, hk⟩ := List.getElem?_of_mem h
  exact ⟨k, hk, by rw [← List.getElem?_drop]; exact hk⟩

/-- The range moves along with what is left. -/
theorem slice_drop (hl : l.Nodup) (n : Nat) :
    Has (l.drop n) (a - n) (b - n) x ↔ Has l a b x ∧ x ∈ l.drop n := by
  by_cases hmem : x ∈ l.drop n
  · obtain ⟨k, hk, hkn⟩ := getElem?_of_mem_drop hmem
    rw [slice_iff (hl.sublist (List.drop_sublist n l)) hk, slice_iff hl hkn, and_iff_left hmem]
    omega
  · exact iff_of_false (fun h => hmem h.mem) fun h => hmem h.2

/-- Elements go at the back. -/
theorem slice_take (hl : l.Nodup) (n : Nat) : Has (l.take n) a b x ↔ Has l a b x ∧ x ∈ l.take n := by
  by_cases hmem : x ∈ l.take n
  · obtain ⟨k, hk⟩ := List.getElem?_of_mem hmem
    have hlt : k < (l.take n).length := (List.getElem?_eq_some_iff.mp hk).1
    rw [List.length_take] at hlt
    have hkl : l[k]? = some x := by rwa [List.getElem?_take_of_lt (by omega)] at hk
    rw [slice_iff (hl.sublist (List.take_sublist n l)) hk, slice_iff hl hkl, and_iff_left hmem]
  · exact iff_of_false (fun h => hmem h.mem) fun h => hmem h.2

/-- Of the last `len - n` elements of a list of `len` the range from `a` to `b` takes in the same as of the list: none
went, or it takes in all, or none before and none after. -/
def Stays (a b : Int) (n len : Nat) : Prop :=
  n = 0 ∨ a ≤ 0 ∧ len ≤ b + 1 ∨ b < 0 ∨ len ≤ a ∨ len ≤ a + n ∧ b < n

instance (a b : Int) (n len : Nat) : Decidable (Stays a b n len) := inferInstanceAs (Decidable (_ ∨ _))

theorem stays_iff {n len : Nat} (hab : a ≤ b) (hlen : n < len) :
    Stays a b n len ↔ ∀ k : Nat, k < len - n → ((a ≤ k ∧ k ≤ b) ↔ (a ≤ (n + k : Nat) ∧ (n + k : Nat) ≤ b)) := by
  rw [Stays]
  constructor
  · intro h k hk
    omega
  · intro h
    -- the first index of the range, the first that comes into it, and the last
    have hfirst := h a.toNat
    have hnew := h (a - n).toNat
    have hlast := h (min b.toNat (len - n - 1))
    omega

/-- Elements go at the front and the range stays where it is. -/
theorem slice_stays (hl : l.Nodup) (hab : a ≤ b) {n : Nat} (hlen : n < l.length) :
    (∀ x, Has (l.drop n) a b x ↔ Has l a b x ∧ x ∈ l.drop n) ↔ Stays a b n l.length := by
  rw [stays_iff hab hlen]
  constructor
  · intro h k hk
    have hkn : l[n + k]? = some l[n + k] := List.getElem?_eq_getElem (by omega)
    have hkd : (l.drop n)[k]? = some l[n + k] := by rw [List.getElem?_drop, hkn]
    have hx := h l[n + k]
    rw [slice_iff (hl.sublist (List.drop_sublist n l)) hkd, slice_iff hl hkn,
      and_iff_left (List.mem_of_getElem? hkd)] at hx
    exact hx
  · intro h x
    by_cases hmem : x ∈ l.drop n
    · obtain ⟨k, hk, hkn⟩ := getElem?_of_mem_drop hmem
      have hlt : k < (l.drop n).length := (List.getElem?_eq_some_iff.mp hk).1
      rw [List.length_drop] at hlt
      rw [slice_iff (hl.sublist (List.drop_sublist n l)) hk, slice_iff hl hkn, and_iff_left hmem]
      exact h k hlt
    · exact iff_of_false (fun h => hmem h.mem) fun h => hmem h.2

end Slice
