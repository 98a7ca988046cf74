import UnicornSuite.LibOccurrence
import UnicornSuite.MinitelRow0

/-! Screen transparency looks out for the two sequences that end it. Its states say how the bytes so far
end (`Watches`), so that no terminator is missed behind a false start; nothing but the counters changes
until the first of them has come. -/

namespace UnicornSuite.Minitel

open Occurrence

/-- The 7 bits of each byte. -/
def codes (buf : List UInt8) : List Nat := buf.map (·.toNat % 128)

/-- ESC 2/5 4/0 and ESC 2/F 3/F, each byte in either parity. -/
def terminators : Set (List UInt8) :=
  {w | codes w = [0x1B, 0x25, 0x40] ∨ codes w = [0x1B, 0x2F, 0x3F]}

/-- The same decoder but for its state and the counters. -/
def Frozen (D D' : Decoder) : Prop :=
  D' = { D with st := D'.st, scr := { D.scr with stats := D'.scr.stats } }

variable {D D' : Decoder} {s : List UInt8} {b : UInt8}

theorem codes_concat (s : List UInt8) (b : UInt8) : codes (s ++ [b]) = codes s ++ [b.toNat % 128] :=
  List.map_append

theorem ends_terminators :
    Ends terminators s ↔ [0x1B, 0x25, 0x40] <:+ codes s ∨ [0x1B, 0x2F, 0x3F] <:+ codes s := by
  constructor
  · rintro ⟨w, hw | hw, hends⟩
    · exact .inl (hw ▸ hends.map _)
    · exact .inr (hw ▸ hends.map _)
  · rintro (hends | hends)
    · obtain ⟨w, hw, hcodes⟩ := List.suffix_map_iff.mp hends
      exact ⟨w, .inl hcodes.symm, hw⟩
    · obtain ⟨w, hw, hcodes⟩ := List.suffix_map_iff.mp hends
      exact ⟨w, .inr hcodes.symm, hw⟩

instance (s : List UInt8) : Decidable (Ends terminators s) := decidable_of_iff _ ends_terminators.symm

theorem Frozen.refl (D : Decoder) : Frozen D D := rfl

/-- What the state of transparency says about the bytes so far. -/
structure Watches (s : List UInt8) (st : St) : Prop where
  inside : Transparent st
  esc : st = .transpEsc ↔ [0x1B] <:+ codes s
  esc25 : st = .transpEsc25 ↔ [0x1B, 0x25] <:+ codes s
  esc2F : st = .transpEsc2F ↔ [0x1B, 0x2F] <:+ codes s

/-- A byte inside of transparency, by its code. -/
def watch (st : St) (c : Nat) : St :=
  match st with
  | .transpEsc =>
      if c = 0x25 then .transpEsc25
      else if c = 0x2F then .transpEsc2F
      else if c ≠ 0x1B then .transp else .transpEsc
  | .transpEsc25 => if c = 0x40 then .ground else if c = 0x1B then .transpEsc else .transp
  | .transpEsc2F => if c = 0x3F then .ground else if c = 0x1B then .transpEsc else .transp
  | _ => if c = 0x1B then .transpEsc else .transp

theorem feedByte_transparent (hst : Transparent D.st) (c : Nat) :
    (feedByte D c).st = watch D.st c ∧ Frozen D (feedByte D c) := by
  unfold feedByte watch
  obtain h | h | h | h := hst
  · rw [h]
    dsimp only
    split_ifs
    · exact ⟨rfl, rfl⟩
    · exact ⟨h, rfl⟩
  · rw [h]
    dsimp only
    split_ifs
    · exact ⟨rfl, rfl⟩
    · exact ⟨rfl, rfl⟩
    · exact ⟨rfl, rfl⟩
    · exact ⟨h, rfl⟩
  · rw [h]
    dsimp only
    split_ifs <;> exact ⟨rfl, rfl⟩
  · rw [h]
    dsimp only
    split_ifs <;> exact ⟨rfl, rfl⟩

theorem feedOne_transparent (hst : Transparent D.st) (b : UInt8) :
    (feedOne D b).st = watch D.st (b.toNat % 128) ∧ Frozen D (feedOne D b) := by
  have hcount : Transparent (onScreen D (countByte b)).st := hst
  obtain ⟨hnext, hsame⟩ := feedByte_transparent hcount (b.toNat % 128)
  refine ⟨hnext, ?_⟩
  unfold feedOne
  rw [hsame]
  rfl

/-- Outside of transparency every byte but the padding is carried out. -/
theorem feedOne_outside (hst : ¬ Transparent D.st) (b : UInt8) :
    feedOne D b =
      if b.toNat % 128 = 0 then onScreen D (countByte b)
      else feedCode (begun D b) (b.toNat % 128) := by
  have hopen : ¬ Transparent (onScreen D (countByte b)).st := hst
  unfold feedOne feedByte
  split
  · next h => exact absurd (.inl h) hopen
  · next h => exact absurd (.inr (.inl h)) hopen
  · next h => exact absurd (.inr (.inr (.inl h))) hopen
  · next h => exact absurd (.inr (.inr (.inr h))) hopen
  · rfl

section

variable {st : St} {c : Nat}

theorem watch_ground (hst : Transparent st) :
    watch st c = .ground ↔ c = 0x40 ∧ st = .transpEsc25 ∨ c = 0x3F ∧ st = .transpEsc2F := by
  obtain rfl | rfl | rfl | rfl := hst <;> grind [watch]

theorem watch_inside (hst : Transparent st) (hstays : watch st c ≠ .ground) :
    Transparent (watch st c) := by
  obtain rfl | rfl | rfl | rfl := hst <;> grind [watch, Transparent]

theorem watch_esc (hst : Transparent st) : watch st c = .transpEsc ↔ c = 0x1B := by
  obtain rfl | rfl | rfl | rfl := hst <;> grind [watch]

theorem watch_esc25 (hst : Transparent st) :
    watch st c = .transpEsc25 ↔ c = 0x25 ∧ st = .transpEsc := by
  obtain rfl | rfl | rfl | rfl := hst <;> grind [watch]

theorem watch_esc2F (hst : Transparent st) :
    watch st c = .transpEsc2F ↔ c = 0x2F ∧ st = .transpEsc := by
  obtain rfl | rfl | rfl | rfl := hst <;> grind [watch]

end

/-! ### What the bytes so far end with -/

variable {st : St}

theorem single_suffix_concat (c : Nat) (s : List UInt8) (b : UInt8) :
    [c] <:+ codes (s ++ [b]) ↔ b.toNat % 128 = c := by
  rw [codes_concat, ← List.nil_append [c], concat_suffix_concat]
  exact and_iff_left (List.nil_suffix)

theorem pair_suffix_concat (c c' : Nat) (s : List UInt8) (b : UInt8) :
    [c, c'] <:+ codes (s ++ [b]) ↔ b.toNat % 128 = c' ∧ [c] <:+ codes s := by
  rw [codes_concat]
  exact concat_suffix_concat [c] _

theorem triple_suffix_concat (c c' c'' : Nat) (s : List UInt8) (b : UInt8) :
    [c, c', c''] <:+ codes (s ++ [b]) ↔ b.toNat % 128 = c'' ∧ [c, c'] <:+ codes s := by
  rw [codes_concat]
  exact concat_suffix_concat [c, c'] _

theorem Watches.start : Watches [] .transp := by
  refine ⟨.inl rfl, ?_, ?_, ?_⟩ <;> simp [codes]

/-- A terminator has ended exactly where the ground state is reached. -/
theorem Watches.ground_iff (h : Watches s st) (b : UInt8) :
    watch st (b.toNat % 128) = .ground ↔ Ends terminators (s ++ [b]) := by
  rw [watch_ground h.inside, ends_terminators, triple_suffix_concat, triple_suffix_concat, ← h.esc25,
    ← h.esc2F]

theorem Watches.next (h : Watches s st) (hends : ¬ Ends terminators (s ++ [b])) :
    Watches (s ++ [b]) (watch st (b.toNat % 128)) where
  inside := watch_inside h.inside (mt (h.ground_iff b).mp hends)
  esc := by rw [watch_esc h.inside, single_suffix_concat]
  esc25 := by rw [watch_esc25 h.inside, pair_suffix_concat, h.esc]
  esc2F := by rw [watch_esc2F h.inside, pair_suffix_concat, h.esc]

/-! ### A stream -/

theorem Frozen.trans {D'' : Decoder} (h : Frozen D D') (h' : Frozen D' D'') : Frozen D D'' := by
  rw [Frozen, h', h]

/-- From the moment transparency is entered: as long as none of the terminators is in the bytes, nothing
but the counters changes and transparency goes on; where the first of them ends, the decoder is in the
ground state, as it was but for the counters, and carries out what follows from there. -/
theorem transparency_ends (D : Decoder) (hst : D.st = .transp) (buf : List UInt8) :
    (∀ p, p <+: buf → Free terminators p → Transparent (feed D p).st ∧ Frozen D (feed D p)) ∧
    (∀ p rest, buf = p ++ rest → FirstOf terminators p →
      (feed D p).st = .ground ∧ Frozen D (feed D p) ∧ feed D buf = feed (feed D p) rest) := by
  have hstep : ∀ s E b, Watches s E.st ∧ Frozen D E → ¬ Ends terminators (s ++ [b]) →
      Watches (s ++ [b]) (feedOne E b).st ∧ Frozen D (feedOne E b) := by
    intro s E b hE hends
    obtain ⟨hnext, hsame⟩ := feedOne_transparent hE.1.inside b
    exact ⟨hnext ▸ hE.1.next hends, hE.2.trans hsame⟩
  have hdone : ∀ s E b, Watches s E.st ∧ Frozen D E → Ends terminators (s ++ [b]) →
      (feedOne E b).st = .ground ∧ Frozen D (feedOne E b) := by
    intro s E b hE hends
    obtain ⟨hnext, hsame⟩ := feedOne_transparent hE.1.inside b
    exact ⟨hnext.trans ((hE.1.ground_iff b).mpr hends), hE.2.trans hsame⟩
  have hstart : Watches [] D.st ∧ Frozen D D := ⟨hst ▸ .start, .refl D⟩
  constructor
  · intro p _ hfree
    have hrun := hfree.run hstep hstart
    exact ⟨hrun.1.inside, hrun.2⟩
  · rintro p rest rfl hfirst
    have hne : [] ∉ terminators := by
      rintro (hno | hno) <;> cases hno
    have hrun := hfirst.run (J := fun _ E => E.st = .ground ∧ Frozen D E) hstep hdone hstart hne
    exact ⟨hrun.1, hrun.2, List.foldl_append⟩

/-- ESC ESC 2/5 4/0: the second ESC starts the terminator. -/
theorem transparency_ends_restart :
    Transparent (feed (feed reset [0x1B, 0x25]) [0x1B, 0x1B, 0x25]).st ∧
      (feed (feed reset [0x1B, 0x25]) [0x1B, 0x1B, 0x25, 0x40]).st = .ground :=
  have hends := transparency_ends (feed reset [0x1B, 0x25]) rfl [0x1B, 0x1B, 0x25, 0x40, 0x41]
  ⟨(hends.1 [0x1B, 0x1B, 0x25] (by decide) (by decide)).1,
    (hends.2 [0x1B, 0x1B, 0x25, 0x40] [0x41] rfl (by decide)).1⟩

end UnicornSuite.Minitel
