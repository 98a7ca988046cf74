import UnicornSuite.LibRing
import UnicornSuite.NaplpsDrift
import Mathlib.Data.List.Chain
import Mathlib.Data.Set.Insert
import Mathlib.Tactic.Linarith

/-! The polygon fill. What it paints is the set of the pixels between every other pair of crossings
(`fillPoly_eq`); the crossings of a line are the edges whose ends lie on its two sides, an even number,
and no more than the ring has vertices. The product a crossing is computed from stays in range where the
one at the far end of its edge does (`scan_line_law_iff`). -/

namespace UnicornSuite.Naplps

open CInt

/-! ### Painting a set of pixels -/

/-- What `mask_put` leaves in a pixel. -/
def ink (mask : Option Mask) (addr : Nat) (x y : Int) (old : Nat) : Nat :=
  match mask with
  | none => addr % cmapSize
  | some m =>
      if maskTest m x y then addr % cmapSize
      else if 0 ≤ m.offAddr then (m.offAddr % 16).toNat
      else old

theorem ink_ink (mask : Option Mask) (addr : Nat) (x y : Int) (old : Nat) :
    ink mask addr x y (ink mask addr x y old) = ink mask addr x y old := by
  unfold ink
  cases mask with
  | none => rfl
  | some m =>
      dsimp only
      split_ifs <;> rfl

open Classical in
/-- The surface with `mask_put` done on each pixel of a set. -/
noncomputable def inked (s : Surface) (mask : Option Mask) (addr : Nat) (S : Set (Int × Int)) :
    Surface :=
  { s with pix.cell := fun y x =>
      if (x, y) ∈ S then ink mask addr x y (s.pix.cell y x) else s.pix.cell y x }

section

variable {s : Surface} {mask : Option Mask} {addr : Nat}

theorem inked_eq {t : Surface} {S : Set (Int × Int)} (hcmap : t.cmap = s.cmap)
    (hfault : t.pix.fault = s.pix.fault)
    (hin : ∀ x y, (x, y) ∈ S → t.pix.cell y x = ink mask addr x y (s.pix.cell y x))
    (hout : ∀ x y, (x, y) ∉ S → t.pix.cell y x = s.pix.cell y x) : t = inked s mask addr S := by
  obtain ⟨⟨cell, fault⟩, cmap⟩ := t
  obtain rfl : cmap = s.cmap := hcmap
  obtain rfl : fault = s.pix.fault := hfault
  unfold inked
  congr 2
  funext y x
  split_ifs with hmem
  · exact hin x y hmem
  · exact hout x y hmem

theorem inked_empty : inked s mask addr ∅ = s :=
  (inked_eq rfl rfl (fun _ _ h => absurd h (Set.notMem_empty _)) fun _ _ _ => rfl).symm

theorem inked_inked (S T : Set (Int × Int)) :
    inked (inked s mask addr S) mask addr T = inked s mask addr (S ∪ T) := by
  refine inked_eq rfl rfl (fun x y hmem => ?_) fun x y hmem => ?_
  · by_cases hS : (x, y) ∈ S <;> by_cases hT : (x, y) ∈ T
    · simp only [inked, if_pos hS, if_pos hT, ink_ink]
    · simp only [inked, if_pos hS, if_neg hT]
    · simp only [inked, if_neg hS, if_pos hT]
    · exact absurd hmem (not_or.mpr ⟨hS, hT⟩)
  · have hno := not_or.mp hmem
    simp only [inked, if_neg hno.1, if_neg hno.2]

theorem maskPut_eq {x y : Int} (h : screen.Mem y x) :
    maskPut s mask x y addr = inked s mask addr {(x, y)} := by
  have hput (v : Nat) (hv : v = ink mask addr x y (s.pix.cell y x)) :
      { s with pix := s.pix.put screen y x v } = inked s mask addr {(x, y)} := by
    rw [Grid.put, if_pos h]
    refine inked_eq rfl rfl (fun x' y' hmem => ?_) fun x' y' hmem => ?_
    · obtain ⟨rfl, rfl⟩ := Prod.mk.inj (Set.mem_singleton_iff.mp hmem)
      simp [hv]
    · refine if_neg fun heq => hmem ?_
      rw [heq.1, heq.2]
      rfl
  unfold maskPut
  cases mask with
  | none => exact hput _ rfl
  | some m =>
      dsimp only
      split_ifs with hon hoff
      · exact hput _ (if_pos hon).symm
      · exact hput _ ((if_neg hon).trans (if_pos hoff)).symm
      · refine inked_eq rfl rfl (fun x' y' hmem => ?_) fun _ _ _ => rfl
        obtain ⟨rfl, rfl⟩ := Prod.mk.inj (Set.mem_singleton_iff.mp hmem)
        exact ((if_neg hon).trans (if_neg hoff)).symm

/-! ### Spans -/

/-- The pixels of a set on line `y`. -/
def onLine (y : Int) (P : Int → Prop) : Set (Int × Int) := {p | p.2 = y ∧ screen.Mem p.2 p.1 ∧ P p.1}

theorem maskLine_eq {y lo hi : Int} (hline : ∀ x, lo ≤ x → x < hi → screen.Mem y x) :
    Loop.up lo hi (fun x s => maskPut s mask x y addr) s
      = inked s mask addr (onLine y fun x => lo ≤ x ∧ x < hi) := by
  by_cases hle : lo ≤ hi
  · refine Loop.up_ind (I := fun i t => t = inked s mask addr (onLine y fun x => lo ≤ x ∧ x < i)) hle
      (fun i t hlo hhi ht => ?_) ?_
    · subst ht
      rw [maskPut_eq (hline i hlo hhi), inked_inked]
      congr 1
      ext ⟨x, y'⟩
      have hmem := hline i hlo hhi
      simp only [onLine, Set.mem_union, Set.mem_ofPred_eq, Set.mem_singleton_iff, Prod.mk.injEq,
        Region.Mem] at *
      omega
    · have hnone : onLine y (fun x => lo ≤ x ∧ x < lo) = ∅ :=
        Set.eq_empty_of_forall_notMem fun p hp => absurd hp.2.2 (by omega)
      rw [hnone, inked_empty]
  · have hnone : onLine y (fun x => lo ≤ x ∧ x < hi) = ∅ :=
      Set.eq_empty_of_forall_notMem fun p hp => hle (by have := hp.2.2; omega)
    rw [hnone, inked_empty, Loop.up, Int.toNat_of_nonpos (by omega)]
    rfl

theorem fillSpan_eq {y : Int} (hy : 0 ≤ y ∧ y < height) (xs xe : Int) :
    fillSpan s y xs xe addr mask = inked s mask addr (onLine y fun x => xs ≤ x ∧ x ≤ xe) := by
  unfold fillSpan
  by_cases hclip : xe < 0 ∨ xs ≥ width
  · have hnone : onLine y (fun x => xs ≤ x ∧ x ≤ xe) = ∅ :=
      Set.eq_empty_of_forall_notMem fun p hp => by
        have hmem := hp.2
        simp only [Region.Mem] at hmem
        omega
    rw [if_pos hclip, hnone, inked_empty]
  · rw [if_neg hclip]
    dsimp only
    rw [maskLine_eq]
    · congr 1
      ext ⟨x, y'⟩
      simp only [onLine, Set.mem_ofPred_eq, Region.Mem]
      split_ifs <;> omega
    · intro x hlo hhi
      simp only [Region.Mem]
      split_ifs at hlo hhi <;> omega

/-- The spans of a list of crossings, from each even place to the next, cover `x`. -/
def Covers (cross : List Int) (x : Int) : Prop :=
  ∃ k, 2 * k + 1 < cross.length ∧ cross.getD (2 * k) 0 ≤ x ∧ x ≤ cross.getD (2 * k + 1) 0

theorem covers_cons {a b x : Int} {rest : List Int} :
    Covers (a :: b :: rest) x ↔ a ≤ x ∧ x ≤ b ∨ Covers rest x := by
  constructor
  · rintro ⟨k, hlen, hlo, hhi⟩
    cases k with
    | zero => exact Or.inl ⟨hlo, hhi⟩
    | succ k => exact Or.inr ⟨k, by simp only [List.length_cons] at hlen; omega, hlo, hhi⟩
  · rintro (hin | ⟨k, hlen, hlo, hhi⟩)
    · exact ⟨0, by simp, hin⟩
    · exact ⟨k + 1, by simp only [List.length_cons]; omega, hlo, hhi⟩

theorem fillSpans_eq {y : Int} (hy : 0 ≤ y ∧ y < height) (cross : List Int) :
    fillSpans y addr mask cross s = inked s mask addr (onLine y (Covers cross)) := by
  induction cross, s using fillSpans.induct y addr mask with
  | case1 xs xe rest s ih =>
      rw [fillSpans, ih, fillSpan_eq hy, inked_inked]
      congr 1
      ext ⟨x, y'⟩
      simp only [onLine, Set.mem_union, Set.mem_ofPred_eq, covers_cons]
      tauto
  | case2 cross s hshort =>
      have hnone : onLine y (Covers cross) = ∅ := by
        refine Set.eq_empty_of_forall_notMem fun p hp => ?_
        obtain ⟨k, hlen, -⟩ := hp.2.2
        rcases cross with _ | ⟨a, _ | ⟨b, rest⟩⟩
        · exact Nat.not_lt_zero _ hlen
        · simp at hlen
        · exact hshort a b rest rfl
      rw [hnone, inked_empty, fillSpans]
      exact hshort

end

/-! ### The crossings of a line -/

/-- The crossings of a scan line in ascending order. -/
def ascending (cross : List Int) : List Int := cross.insertionSort (· ≤ ·)

/-- The crossings the fill records; a ring of fewer than three vertices is not filled. -/
def recorded (pts : List (Int × Int)) (y : Int) : List Int :=
  if pts.length < 3 then [] else crossings pts y

/-- The pixels between every other pair of crossings of their line. -/
def spanned (pts : List (Int × Int)) : Set (Int × Int) :=
  {p | screen.Mem p.2 p.1 ∧ Covers (ascending (recorded pts p.2)) p.1}

theorem fillPoly_eq (s : Surface) (pts : List (Int × Int)) (addr : Nat) (mask : Option Mask) :
    fillPoly s pts addr mask = inked s mask addr (spanned pts) := by
  unfold fillPoly
  by_cases hfew : pts.length < 3
  · have hnone : spanned pts = ∅ := by
      refine Set.eq_empty_of_forall_notMem fun p hp => ?_
      obtain ⟨k, hlen, -⟩ := hp.2
      rw [recorded, if_pos hfew] at hlen
      exact absurd hlen (Nat.not_lt_zero _)
    rw [if_pos hfew, hnone, inked_empty]
  · rw [if_neg hfew]
    have hrec (y : Int) : recorded pts y = crossings pts y := if_neg hfew
    have hlines : Loop.up 0 height (fun y s => fillSpans y addr mask (ascending (crossings pts y)) s) s
        = inked s mask addr {p | p ∈ spanned pts ∧ p.2 < height} := by
      refine Loop.up_ind (I := fun i t => t = inked s mask addr {p | p ∈ spanned pts ∧ p.2 < i})
        (by decide) (fun i t hlo hhi ht => ?_) ?_
      · subst ht
        rw [fillSpans_eq ⟨hlo, hhi⟩, inked_inked, ← hrec]
        congr 1
        ext ⟨x, y⟩
        simp only [onLine, spanned, Set.mem_union, Set.mem_ofPred_eq, Region.Mem]
        constructor
        · rintro (⟨hin, hlt⟩ | ⟨rfl, hin⟩)
          · exact ⟨hin, by omega⟩
          · exact ⟨hin, by omega⟩
        · rintro ⟨hin, hlt⟩
          by_cases heq : y = i
          · exact Or.inr ⟨heq, heq ▸ hin⟩
          · exact Or.inl ⟨hin, by omega⟩
      · have hnone : {p | p ∈ spanned pts ∧ p.2 < 0} = ∅ :=
          Set.eq_empty_of_forall_notMem fun p hp => by
            have hmem := hp.1.1
            have hneg := hp.2
            simp only [Region.Mem] at hmem
            omega
        rw [hnone, inked_empty]
    refine hlines.trans (congrArg _ ?_)
    ext ⟨x, y⟩
    simp only [spanned, Set.mem_ofPred_eq, Region.Mem]
    tauto

/-- The vertex lies above the middle of the scan line. -/
def above (y : Int) (p : Int × Int) : Bool := decide (y < p.2)

/-- The product the crossing of an edge with a scan line is computed from. -/
def product (y : Int) (e : (Int × Int) × (Int × Int)) : Int :=
  (e.2.1 - e.1.1) * (2 * y + 1 - 2 * e.1.2)

/-- The edges of the ring that a scan line meets. -/
def met (pts : List (Int × Int)) (y : Int) : List ((Int × Int) × (Int × Int)) :=
  if pts.length < 3 then [] else (ringEdges pts).filter fun e => above y e.1 != above y e.2

/-- The pixel column of the crossing. -/
def crossAt (y : Int) (e : (Int × Int) × (Int × Int)) : Int :=
  e.1.1 + (wrap32 (product y e)).tdiv ((e.2.2 - e.1.2) * 2)

section

variable {pts : List (Int × Int)}

/-- An edge has a crossing where its ends lie on the two sides of the scan line. -/
theorem crossing_eq (y : Int) (e : (Int × Int) × (Int × Int)) :
    crossing (2 * y + 1) e.1 e.2 =
      if above y e.1 != above y e.2 then some (crossAt y e) else none := by
  have hmiss : (2 * (if e.1.2 < e.2.2 then e.1.2 else e.2.2) > 2 * y + 1 ∨
      2 * (if e.1.2 < e.2.2 then e.2.2 else e.1.2) ≤ 2 * y + 1) ↔ above y e.1 = above y e.2 := by
    simp only [above, decide_eq_decide]
    split_ifs <;> omega
  unfold crossing
  dsimp only
  by_cases hsame : above y e.1 = above y e.2
  · rw [if_pos (hmiss.mpr hsame), if_neg (by simp [hsame])]
  · have hne : e.1.2 ≠ e.2.2 := fun heq => hsame (by rw [above, above, heq])
    rw [if_neg (mt hmiss.mp hsame), if_neg hne, if_pos (by simpa using hsame)]
    rfl

theorem recorded_eq (hlen : pts.length ≤ maxPts) (y : Int) :
    recorded pts y = (met pts y).map (crossAt y) := by
  unfold recorded met
  split_ifs with hfew
  · rfl
  · have hall : ((ringEdges pts).filterMap fun e => crossing (2 * y + 1) e.1 e.2) =
        ((ringEdges pts).filter fun e => above y e.1 != above y e.2).map (crossAt y) := by
      rw [← List.filterMap_eq_map, List.filterMap_filter]
      exact List.filterMap_congr fun e _ => crossing_eq y e
    have hroom : ((ringEdges pts).filter fun e => above y e.1 != above y e.2).length ≤ maxCross := by
      refine (List.length_filter_le _ _).trans ?_
      rw [show (ringEdges pts).length = pts.length from Circular.length_links pts]
      exact hlen.trans (by decide)
    rw [crossings, hall, List.take_of_length_le (by rwa [List.length_map])]

theorem even_met (y : Int) : Even (met pts y).length := by
  unfold met
  split_ifs
  · exact Even.zero
  · rw [← List.countP_eq_length_filter]
    exact Circular.even_changes (above y) pts

end

/-! ### The scan-line law -/

/-- On every line of the display the recorded crossings are even in number and those of all edges the
line meets, the fill paints the pixels between every other pair of them, and no product leaves the range
of its type. -/
structure ScanLineLaw (pts : List (Int × Int)) : Prop where
  even : ∀ y, 0 ≤ y → y < height → Even (recorded pts y).length
  kept : ∀ y, 0 ≤ y → y < height → (recorded pts y).length = (met pts y).length
  spans : ∀ s addr mask, fillPoly s pts addr mask = inked s mask addr (spanned pts)
  fits : ∀ y, 0 ≤ y → y < height → ∀ e ∈ met pts y, Fits32 (product y e)

/-- The scan line of the display next to the other end of an edge. -/
def farLine (e : (Int × Int) × (Int × Int)) : Int :=
  if e.1.2 < e.2.2 then min (height - 1) (e.2.2 - 1) else max 0 e.2.2

/-- Where the edge is met on the display, the product is in range on that line. -/
def EdgeFits (e : (Int × Int) × (Int × Int)) : Prop :=
  0 ≤ farLine e ∧ farLine e < height ∧ above (farLine e) e.1 ≠ above (farLine e) e.2 →
    Fits32 (product (farLine e) e)

instance (e : (Int × Int) × (Int × Int)) : Decidable (EdgeFits e) :=
  inferInstanceAs (Decidable (_ → _))

/-- A factor that moves away from zero carries the product with it. -/
theorem fits_of_between {u v w : Int} (hw : 0 ≤ v ∧ v ≤ w ∨ w ≤ v ∧ v ≤ 0) (h : Fits32 (u * w)) :
    Fits32 (u * v) := by
  obtain ⟨hmin, hmax⟩ := h
  have hzero : minInt32 ≤ 0 ∧ 0 ≤ maxInt32 := by decide
  rcases le_total 0 u with hu | hu <;> rcases hw with ⟨hv, hvw⟩ | ⟨hvw, hv⟩
  · have hlo := Int.mul_nonneg hu hv
    have hhi := mul_le_mul_of_nonneg_left hvw hu
    exact ⟨by omega, by omega⟩
  · have hhi := Int.mul_nonpos_of_nonneg_of_nonpos hu hv
    have hlo := mul_le_mul_of_nonneg_left hvw hu
    exact ⟨by omega, by omega⟩
  · have hhi := Int.mul_nonpos_of_nonpos_of_nonneg hu hv
    have hlo := mul_le_mul_of_nonpos_left hvw hu
    exact ⟨by omega, by omega⟩
  · have hlo := Int.mul_nonneg_of_nonpos_of_nonpos hu hv
    have hhi := mul_le_mul_of_nonpos_left hvw hu
    exact ⟨by omega, by omega⟩

theorem product_fits {e : (Int × Int) × (Int × Int)} (hfar : EdgeFits e) {y : Int} (h0 : 0 ≤ y)
    (h1 : y < height) (hmet : above y e.1 ≠ above y e.2) : Fits32 (product y e) := by
  have hne (z : Int) : above z e.1 ≠ above z e.2 ↔
      min e.1.2 e.2.2 ≤ z ∧ z < max e.1.2 e.2.2 := by
    simp only [above, ne_eq, decide_eq_decide]
    omega
  have hline := (hne y).mp hmet
  unfold EdgeFits at hfar
  rw [hne] at hfar
  unfold farLine at hfar
  split_ifs at hfar with hup
  · exact fits_of_between (Or.inl ⟨by omega, by omega⟩) (hfar (by omega))
  · exact fits_of_between (Or.inr ⟨by omega, by omega⟩) (hfar (by omega))

/-! ### The rings of POLYGON -/

/-- The start point of a polygon: transmitted, or the drawing point. -/
def polyStart (d : Display) (op : Nat) (p : Nat → Nat) : Int × Int :=
  startPoint d p (op = 0x36 ∨ op = 0x37)

/-- Its vertices. -/
def polyRing (d : Display) (op : Nat) (p : Nat → Nat) (n : Nat) : List (Int × Int) :=
  let first := if op = 0x36 ∨ op = 0x37 then 1 else 0
  let s := polyStart d op p
  (relVertices d.dom p true (blocks d.dom.mvLen n - first) first s.1 s.2
    [(fxToPx s.1, fxToPx s.2)]).1

/-! ### The law -/

theorem scan_line_law_iff {pts : List (Int × Int)} (hlen : pts.length ≤ maxPts) :
    ScanLineLaw pts ↔ (3 ≤ pts.length → ∀ e ∈ ringEdges pts, EdgeFits e) := by
  have hmem {y : Int} {e : (Int × Int) × (Int × Int)} : e ∈ met pts y ↔
      3 ≤ pts.length ∧ e ∈ ringEdges pts ∧ above y e.1 ≠ above y e.2 := by
    unfold met
    split_ifs with hfew
    · exact iff_of_false List.not_mem_nil fun h => by omega
    · simp [List.mem_filter, not_lt.mp hfew]
  constructor
  · rintro hlaw hmany e he ⟨h0, h1, hmet⟩
    exact hlaw.fits _ h0 h1 e (hmem.mpr ⟨hmany, he, hmet⟩)
  · intro hfar
    have hrec := recorded_eq hlen
    refine ⟨fun y _ _ => ?_, fun y _ _ => ?_, fun s addr mask => fillPoly_eq s pts addr mask,
      fun y h0 h1 e he => ?_⟩
    · rw [hrec, List.length_map]
      exact even_met y
    · rw [hrec, List.length_map]
    · obtain ⟨hmany, hin, hmet⟩ := hmem.mp he
      exact product_fits (hfar hmany e hin) h0 h1 hmet

/-- A triangle. -/
theorem scan_line_law_triangle : ScanLineLaw [(0, 0), (10, 20), (30, 5)] :=
  (scan_line_law_iff (by decide)).mpr fun _ => by decide

/-- DOMAIN with operands of one byte, and relative points down to the left. -/
def farStart : List UInt8 := [0x0E, 0x21, 0x40, 0x25] ++ List.replicate 128 0x64

/-- From there 175 displacements up to the right: the closing edge spans the whole way. -/
theorem scan_line_law_overflow :
    ¬∀ (arc : ArcPoints) (es : List Event) (op : Nat) (p : Nat → Nat) (n : Nat), n ≤ opbufMax →
      ScanLineLaw (polyRing (Machine.run (step arc) create es).disp op p n) := by
  intro hall
  have hlaw := hall noArc [.feed farStart] 0x35 (fun _ => 0x5B) 175 (by decide)
  have hfar := (scan_line_law_iff (by decide +kernel)).mp hlaw
  revert hfar
  decide +kernel

end UnicornSuite.Naplps
