import UnicornSuite.NaplpsFill
import Mathlib.Tactic.Ring

/-! The order of the vertices of a filled polygon. Where the ring starts does not matter. Which way it is
walked does: the crossing of an edge is rounded towards the end the walk comes from last, so that it comes
out the same from both ends only where it is a whole pixel (`vertex_order_iff`). -/

namespace UnicornSuite.Naplps

open CInt

/-- Each crossing with a scan line of the display is a whole pixel. -/
def Exact (pts : List (Int × Int)) : Prop :=
  ∀ y, 0 ≤ y → y < height → ∀ e ∈ met pts y, (e.2.2 - e.1.2) * 2 ∣ product y e

section

variable {pts pts' : List (Int × Int)} {y : Int} {e : (Int × Int) × (Int × Int)}

theorem mem_met : e ∈ met pts y ↔
    3 ≤ pts.length ∧ e ∈ ringEdges pts ∧ above y e.1 ≠ above y e.2 := by
  unfold met
  split_ifs with hfew
  · exact iff_of_false List.not_mem_nil fun h => by omega
  · simp [List.mem_filter, not_lt.mp hfew]

theorem ascending_perm {cross cross' : List Int} (h : cross.Perm cross') :
    ascending cross = ascending cross' := by
  have hperm : (ascending cross).Perm (ascending cross') :=
    (List.perm_insertionSort _ _).trans (h.trans (List.perm_insertionSort _ _).symm)
  exact hperm.eq_of_sortedLE List.sortedLE_insertionSort List.sortedLE_insertionSort

/-- The same crossings in any order, the same pixels. -/
theorem fillPoly_congr (h : ∀ y, 0 ≤ y → y < height → (recorded pts y).Perm (recorded pts' y))
    (s : Surface) (addr : Nat) (mask : Option Mask) :
    fillPoly s pts addr mask = fillPoly s pts' addr mask := by
  rw [fillPoly_eq, fillPoly_eq]
  congr 1
  ext ⟨x, y⟩
  refine and_congr_right fun hmem => ?_
  rw [ascending_perm (h y hmem.1 hmem.2.1)]

theorem met_rotate_perm (k : Nat) : (met (pts.rotate k) y).Perm (met pts y) := by
  unfold met
  rw [List.length_rotate]
  split_ifs
  · exact List.Perm.refl _
  · exact (Circular.links_rotate_perm pts k).filter _

theorem met_reverse_perm : (met pts.reverse y).Perm ((met pts y).map Prod.swap) := by
  unfold met
  rw [List.length_reverse]
  split_ifs
  · exact List.Perm.refl _
  · refine ((Circular.links_reverse_perm pts).filter _).trans (List.Perm.of_eq ?_)
    rw [List.filter_map]
    exact congrArg _ (List.filter_congr fun e _ => bne_comm)

theorem fillPoly_rotate (hlen : pts.length ≤ maxPts) (k : Nat) (s : Surface) (addr : Nat)
    (mask : Option Mask) : fillPoly s (pts.rotate k) addr mask = fillPoly s pts addr mask := by
  refine fillPoly_congr (fun y _ _ => ?_) s addr mask
  rw [recorded_eq hlen, recorded_eq (by rwa [List.length_rotate])]
  exact (met_rotate_perm k).map _

theorem recorded_reverse_perm (hlen : pts.length ≤ maxPts) :
    (recorded pts.reverse y).Perm ((met pts y).map fun e => crossAt y e.swap) := by
  rw [recorded_eq (by rwa [List.length_reverse])]
  exact (met_reverse_perm.map _).trans (by rw [List.map_map]; exact List.Perm.refl _)

/-- The crossing comes out the same from both ends of the edge exactly where it is a whole pixel. -/
theorem crossAt_swap_iff (hmet : above y e.1 ≠ above y e.2) (hfits : Fits32 (product y e))
    (hswap : Fits32 (product y e.swap)) :
    crossAt y e.swap = crossAt y e ↔ (e.2.2 - e.1.2) * 2 ∣ product y e := by
  obtain ⟨⟨px, py⟩, qx, qy⟩ := e
  simp only [above, ne_eq, decide_eq_decide] at hmet
  have hsum : product y ((px, py), qx, qy) + product y ((qx, qy), px, py) =
      (qy - py) * 2 * (qx - px) := by
    unfold product
    ring
  have hsign : 0 ≤ product y ((px, py), qx, qy) ∧ 0 ≤ product y ((qx, qy), px, py) ∨
      product y ((px, py), qx, qy) ≤ 0 ∧ product y ((qx, qy), px, py) ≤ 0 := by
    -- The line runs between the ends, so that its distances from them have opposite signs.
    unfold product
    dsimp only
    have hcases : 0 ≤ 2 * y + 1 - 2 * py ∧ 2 * y + 1 - 2 * qy ≤ 0 ∨
        2 * y + 1 - 2 * py ≤ 0 ∧ 0 ≤ 2 * y + 1 - 2 * qy := by omega
    rcases hcases with ⟨hp, hq⟩ | ⟨hp, hq⟩ <;> rcases le_total px qx with hx | hx
    · exact Or.inl ⟨Int.mul_nonneg (by omega) hp, Int.mul_nonneg_of_nonpos_of_nonpos (by omega) hq⟩
    · exact Or.inr ⟨Int.mul_nonpos_of_nonpos_of_nonneg (by omega) hp,
        Int.mul_nonpos_of_nonneg_of_nonpos (by omega) hq⟩
    · exact Or.inr ⟨Int.mul_nonpos_of_nonneg_of_nonpos (by omega) hp,
        Int.mul_nonpos_of_nonpos_of_nonneg (by omega) hq⟩
    · exact Or.inl ⟨Int.mul_nonneg_of_nonpos_of_nonpos (by omega) hp, Int.mul_nonneg (by omega) hq⟩
  have hiff := tdiv_add_tdiv_iff (by omega) hsum hsign
  rw [Prod.swap_prod_mk] at hswap ⊢
  rw [← hiff, crossAt, crossAt]
  rw [wrap32_of_fits hfits, wrap32_of_fits hswap, show (py - qy) * 2 = -((qy - py) * 2) by omega,
    Int.tdiv_neg]
  dsimp only
  omega

end

/-- The fill paints the same pixels whichever vertex the ring starts with. It paints them whichever way
the ring is walked, the crossings coming out the same from both ends of their edges, exactly where each
crossing is a whole pixel. -/
theorem vertex_order_iff {pts : List (Int × Int)} (hlen : pts.length ≤ maxPts)
    (hfits : ∀ e ∈ ringEdges pts, EdgeFits e ∧ EdgeFits e.swap) :
    ((∀ k s addr mask, fillPoly s (pts.rotate k) addr mask = fillPoly s pts addr mask) ∧
        (∀ s addr mask, fillPoly s pts.reverse addr mask = fillPoly s pts addr mask) ∧
        ∀ y, 0 ≤ y → y < height → ∀ e ∈ met pts y, crossAt y e.swap = crossAt y e) ↔
      Exact pts := by
  have hiff {y : Int} (h0 : 0 ≤ y) (h1 : y < height) {e : (Int × Int) × (Int × Int)}
      (he : e ∈ met pts y) : crossAt y e.swap = crossAt y e ↔ (e.2.2 - e.1.2) * 2 ∣ product y e := by
    obtain ⟨-, hedge, hmet⟩ := mem_met.mp he
    obtain ⟨hfar, hback⟩ := hfits e hedge
    exact crossAt_swap_iff hmet (product_fits hfar h0 h1 hmet) (product_fits hback h0 h1 hmet.symm)
  constructor
  · rintro ⟨-, -, hends⟩ y h0 h1 e he
    exact (hiff h0 h1 he).mp (hends y h0 h1 e he)
  · intro hexact
    have hends (y : Int) (h0 : 0 ≤ y) (h1 : y < height) (e) (he : e ∈ met pts y) :
        crossAt y e.swap = crossAt y e := (hiff h0 h1 he).mpr (hexact y h0 h1 e he)
    refine ⟨fun k s addr mask => fillPoly_rotate hlen k s addr mask, fun s addr mask => ?_, hends⟩
    refine fillPoly_congr (fun y h0 h1 => ?_) s addr mask
    rw [recorded_eq hlen]
    exact (recorded_reverse_perm hlen).trans (List.Perm.of_eq (List.map_congr_left (hends y h0 h1)))

/-- A rectangle on an empty display. -/
theorem vertex_order_rectangle :
    fillPoly create.disp.surf [(0, 5), (10, 5), (10, 0), (0, 0)] 5 none =
      fillPoly create.disp.surf [(0, 0), (10, 0), (10, 5), (0, 5)] 5 none := by
  refine ((@vertex_order_iff [(0, 0), (10, 0), (10, 5), (0, 5)] (by decide) (by decide)).mpr
    fun y _ _ e he => ?_).2.1 create.disp.surf 5 none
  obtain ⟨-, hedge, hmet⟩ := mem_met.mp he
  have hupright : ∀ e ∈ ringEdges [(0, 0), (10, 0), (10, 5), (0, 5)],
      e.2.1 = e.1.1 ∨ e.2.2 = e.1.2 := by decide
  rcases hupright e hedge with hx | hy
  · rw [product, hx, sub_self, zero_mul]
    exact dvd_zero _
  · exact absurd (by rw [above, above, hy]) hmet

/-- SET & POLYGON FILLED with the vertices (0, 0), (5, 3) and (0, 3). -/
def slanted : Nat → Nat := fun i =>
  [0x40, 0x40, 0x40, 0x40, 0x40, 0x6B, 0x78, 0x78, 0x58].getD i 0x40

/-- Walked the one way the slanted edge crosses the lowest line at column 1, the other way at
column 0. -/
theorem vertex_order_slanted :
    ¬∀ (arc : ArcPoints) (es : List Event) (op : Nat) (p : Nat → Nat) (n : Nat) (s : Surface)
      (addr : Nat) (mask : Option Mask), n ≤ opbufMax →
      fillPoly s (polyRing (Machine.run (step arc) create es).disp op p n).reverse addr mask =
        fillPoly s (polyRing (Machine.run (step arc) create es).disp op p n) addr mask := by
  intro hall
  have hsame := hall noArc [] 0x37 slanted 9 create.disp.surf 5 none (by decide)
  have hpixel := congrArg (fun s : Surface => s.pix.cell 0 1) hsame
  revert hpixel
  decide +kernel

end UnicornSuite.Naplps
