import Mathlib.Tactic.Common

/-! The connection ids of the Archie client (`archie_next_cid`): a 32-bit counter of which the low
half goes out, 1 in place of 0. So the half that wraps gives 1 twice, except where the whole counter
wraps with it and is seeded again. -/

namespace UnicornSuite.ArchieCid

/-- The seed from the tick count. -/
def seed (tick : UInt32) : UInt32 := (tick &&& 0x7FFF) + 1

/-- The counter that a call increments: a counter of 0 is seeded first. -/
def seeded (tick counter : UInt32) : UInt32 := if counter = 0 then seed tick else counter

/-- The id that goes out for an incremented counter. -/
def wireId (counter : UInt32) : UInt16 :=
  let v := counter &&& 0xFFFF
  (if v = 0 then 1 else v).toUInt16

/-- The id, and the counter it leaves. -/
def archieNextCid (tick counter : UInt32) : UInt16 × UInt32 :=
  let v := seeded tick counter + 1
  (wireId v, v)

section Run

variable (start : UInt32) (tick : Nat → UInt32)

/-- The counter before each call of a run. -/
def counterAt : Nat → UInt32
  | 0 => start
  | n + 1 => (archieNextCid (tick n) (counterAt n)).2

def cidAt (n : Nat) : UInt16 := (archieNextCid (tick n) (counterAt start tick n)).1

/-- The counter that call `n` increments. -/
def seededAt (n : Nat) : UInt32 := seeded (tick n) (counterAt start tick n)

end Run

/-- The low half of the counter wraps with the next call, and the counter does not. -/
def HalfWraps (counter : UInt32) : Prop := counter &&& 0xFFFF = 0xFFFF ∧ counter ≠ 0xFFFFFFFF

theorem low_toNat (c : UInt32) : (c &&& 0xFFFF).toNat = c.toNat % 65536 := by
  rw [UInt32.toNat_and]
  exact Nat.and_two_pow_sub_one_eq_mod c.toNat 16

theorem halfWraps_iff (c : UInt32) :
    HalfWraps c ↔ c.toNat % 65536 = 65535 ∧ c.toNat ≠ 4294967295 := by
  rw [HalfWraps, ← UInt32.toNat_inj, low_toNat, ne_eq, ← UInt32.toNat_inj]
  exact Iff.rfl

theorem succ_toNat (c : UInt32) : (c + 1).toNat = (c.toNat + 1) % 4294967296 := UInt32.toNat_add c 1

theorem wireId_toNat (c : UInt32) :
    (wireId c).toNat = if c.toNat % 65536 = 0 then 1 else c.toNat % 65536 := by
  unfold wireId
  dsimp only
  have hzero : c &&& 0xFFFF = 0 ↔ c.toNat % 65536 = 0 := by
    rw [← UInt32.toNat_inj, low_toNat]
    exact Iff.rfl
  by_cases h : c.toNat % 65536 = 0
  · rw [if_pos h, if_pos (hzero.mpr h)]
    rfl
  · rw [if_neg h, if_neg (mt hzero.mp h), UInt32.toNat_toUInt16, low_toNat]
    exact Nat.mod_eq_of_lt (Nat.mod_lt _ (by decide))

theorem seed_toNat (tick : UInt32) : 1 ≤ (seed tick).toNat ∧ (seed tick).toNat ≤ 32768 := by
  have hlow : (tick &&& 0x7FFF).toNat ≤ 32767 := by
    rw [UInt32.toNat_and]
    exact Nat.and_le_right
  rw [seed, succ_toNat, Nat.mod_eq_of_lt (by omega)]
  omega

theorem seeded_toNat (tick c : UInt32) :
    c.toNat = 0 ∧ 1 ≤ (seeded tick c).toNat ∧ (seeded tick c).toNat ≤ 32768 ∨
      c.toNat ≠ 0 ∧ seeded tick c = c := by
  by_cases h : c = 0
  · rw [seeded, if_pos h]
    exact Or.inl ⟨congrArg UInt32.toNat h, seed_toNat tick⟩
  · rw [seeded, if_neg h]
    exact Or.inr ⟨fun hzero => h (UInt32.toNat_inj.mp hzero), rfl⟩

section Run

variable (start : UInt32) (tick : Nat → UInt32)

theorem seededAt_pos (n : Nat) : 1 ≤ (seededAt start tick n).toNat := by
  rcases seeded_toNat (tick n) (counterAt start tick n) with ⟨_, hpos, _⟩ | ⟨hpos, heq⟩
  · exact hpos
  · rw [seededAt, heq]
    omega

/-- From one call to the next the counter goes up by one, or round to a seed. -/
theorem seededAt_succ (n : Nat) :
    (seededAt start tick n).toNat = 4294967295 ∧ (seededAt start tick (n + 1)).toNat ≤ 32768 ∨
      (seededAt start tick (n + 1)).toNat = (seededAt start tick n).toNat + 1 := by
  have hnext : (counterAt start tick (n + 1)).toNat =
      ((seededAt start tick n).toNat + 1) % 4294967296 := succ_toNat _
  have hlt := (seededAt start tick n).toNat_lt
  rcases seeded_toNat (tick (n + 1)) (counterAt start tick (n + 1)) with ⟨hzero, _, hle⟩ | ⟨hpos, heq⟩
  · exact Or.inl ⟨by omega, hle⟩
  · refine Or.inr ?_
    rw [seededAt, heq]
    omega

theorem cidAt_toNat (n : Nat) :
    (cidAt start tick n).toNat = if ((seededAt start tick n).toNat + 1) % 65536 = 0 then 1
      else ((seededAt start tick n).toNat + 1) % 65536 := by
  have hlow : ((seededAt start tick n).toNat + 1) % 4294967296 % 65536 =
      ((seededAt start tick n).toNat + 1) % 65536 := by omega
  have hcid : cidAt start tick n = wireId (seededAt start tick n + 1) := rfl
  rw [hcid, wireId_toNat, succ_toNat, hlow]

theorem cidAt_ne_zero (n : Nat) : cidAt start tick n ≠ 0 := by
  have hcid := cidAt_toNat start tick n
  intro hzero
  rw [hzero] at hcid
  split at hcid
  · exact absurd hcid (by decide)
  · rename_i hlow
    exact hlow hcid.symm

theorem cidAt_eq_succ_iff (n : Nat) :
    cidAt start tick n = cidAt start tick (n + 1) ↔ HalfWraps (seededAt start tick n) := by
  have hpos := seededAt_pos start tick (n + 1)
  rw [← UInt16.toNat_inj, cidAt_toNat, cidAt_toNat, halfWraps_iff]
  rcases seededAt_succ start tick n with ⟨hall, hle⟩ | hsucc
  · rw [hall]
    split <;> split <;> omega
  · have hlt := (seededAt start tick (n + 1)).toNat_lt
    rw [hsucc]
    split <;> split <;> omega

/-- As long as the counter does not wrap, it counts the calls. -/
theorem seededAt_add (n k : Nat) (h : (seededAt start tick n).toNat + k < 4294967296) :
    (seededAt start tick (n + k)).toNat = (seededAt start tick n).toNat + k := by
  induction k with
  | zero => rfl
  | succ k ih =>
      have hk := ih (by omega)
      rcases seededAt_succ start tick (n + k) with ⟨hall, _⟩ | hsucc
      · omega
      · rw [Nat.add_succ, hsucc]
        omega

/-- Every run comes to a call with which the low half wraps alone. -/
theorem exists_halfWraps : ∃ n, HalfWraps (seededAt start tick n) := by
  have hlt := (seededAt start tick 0).toNat_lt
  obtain ⟨k, hk⟩ : ∃ k, (seededAt start tick 0).toNat + k =
      (seededAt start tick 0).toNat / 65536 * 65536 + 65535 :=
    ⟨65535 - (seededAt start tick 0).toNat % 65536, by omega⟩
  have hat := seededAt_add start tick 0 k (by omega)
  by_cases hall : (seededAt start tick (0 + k)).toNat = 4294967295
  · have hle : (seededAt start tick (0 + k + 1)).toNat ≤ 32768 := by
      rcases seededAt_succ start tick (0 + k) with ⟨_, hle⟩ | hsucc
      · exact hle
      · have hlt' := (seededAt start tick (0 + k + 1)).toNat_lt
        omega
    obtain ⟨j, hj⟩ : ∃ j, (seededAt start tick (0 + k + 1)).toNat + j = 65535 :=
      ⟨65535 - (seededAt start tick (0 + k + 1)).toNat, by omega⟩
    have hseed := seededAt_add start tick (0 + k + 1) j (by omega)
    exact ⟨0 + k + 1 + j, (halfWraps_iff _).mpr ⟨by omega, by omega⟩⟩
  · exact ⟨0 + k, (halfWraps_iff _).mpr ⟨by omega, hall⟩⟩

/-- No id is 0. Two calls in a row give one id exactly where the low half wraps alone between them, and
every run that goes on comes to two such calls. -/
theorem cid_fresh_iff :
    (∀ n, cidAt start tick n ≠ 0) ∧
      (∀ k, (∀ n < k, cidAt start tick n ≠ cidAt start tick (n + 1)) ↔
        ∀ n < k, ¬ HalfWraps (seededAt start tick n)) ∧
      ¬ ∀ n, cidAt start tick n ≠ cidAt start tick (n + 1) := by
  refine ⟨cidAt_ne_zero start tick, fun k => forall₂_congr fun n _ =>
    not_congr (cidAt_eq_succ_iff start tick n), fun hall => ?_⟩
  obtain ⟨n, hn⟩ := exists_halfWraps start tick
  exact hall n ((cidAt_eq_succ_iff start tick n).mpr hn)

end Run

/-- The call that wraps the low half gives 1, and so does the next. -/
theorem cid_repeats :
    ¬ ∀ (start : UInt32) (tick : Nat → UInt32) (n : Nat), cidAt start tick n ≠ 0 ∧
      cidAt start tick n ≠ cidAt start tick (n + 1) := by
  intro hall
  exact absurd (hall 0xFFFF (fun _ => 0) 0).2 (by decide)

end UnicornSuite.ArchieCid
