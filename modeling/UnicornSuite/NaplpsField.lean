import UnicornSuite.NaplpsInvariant
import UnicornSuite.NaplpsRange

/-! The FIELD command. The active field is the rectangle between the origin and the far corner, whichever
corners they are. The drawing point goes to the corner the rectangle is kept by, which is the transmitted
origin only where no dimension is negative (`field_origin_iff`). -/

namespace UnicornSuite.Naplps

open CInt

/-- The origin of the field a command describes: transmitted, the drawing point, or the origin of the
unit screen. -/
def fieldOrigin (d : Display) (p : Nat → Nat) (n : Nat) : Int × Int :=
  match blocks d.dom.mvLen n with
  | 0 => (0, 0)
  | 1 => (d.draw.dpx, d.draw.dpy)
  | _ => unpackMulti d.dom p

/-- Its dimensions. -/
def fieldSize (d : Display) (p : Nat → Nat) (n : Nat) : Int × Int :=
  match blocks d.dom.mvLen n with
  | 0 => (fxOne, fxOne)
  | 1 => unpackMulti d.dom p
  | _ => unpackMulti d.dom (ptr p d.dom.mvLen)

/-- The rectangle between a corner and the opposite one. -/
structure Spans (f : ActiveField) (origin size : Int × Int) : Prop where
  x : f.x = min origin.1 (origin.1 + size.1)
  y : f.y = min origin.2 (origin.2 + size.2)
  w : f.w = |size.1|
  h : f.h = |size.2|

/-- The far edge of a dimension that is negative is a 32-bit coordinate. -/
def FarFits (origin size : Int) : Prop := size < 0 → Fits32 (origin + size)

section

variable {d : Display}

theorem absFx_eq_abs {k v : Int} (hv : Within k v) (hk : k ≤ maxInt32) : absFx v = |v| := by
  unfold absFx
  split_ifs with hneg
  · rw [wrap32_of_fits (hv.neg.fits hk), abs_of_neg hneg]
  · exact (abs_of_nonneg (by omega)).symm

theorem corner_eq_min_iff (origin size : Int) :
    (if size < 0 then wrap32 (origin + size) else origin) = min origin (origin + size) ↔
      FarFits origin size := by
  unfold FarFits
  split_ifs with hneg
  · rw [min_eq_right (by omega)]
    constructor
    · intro heq _
      rw [← heq]
      exact wrap32_fits _
    · exact fun hfits => wrap32_of_fits (hfits hneg)
  · rw [min_eq_left (by omega)]
    simp [hneg]

theorem setField_spans_iff (d : Display) {origin size : Int × Int} (hw : Within 65536 size.1)
    (hh : Within 65536 size.2) :
    Spans (setField d origin size).af origin size ↔
      FarFits origin.1 size.1 ∧ FarFits origin.2 size.2 := by
  constructor
  · intro h
    exact ⟨(corner_eq_min_iff _ _).mp h.x, (corner_eq_min_iff _ _).mp h.y⟩
  · rintro ⟨hx, hy⟩
    exact ⟨(corner_eq_min_iff _ _).mpr hx, (corner_eq_min_iff _ _).mpr hy,
      absFx_eq_abs hw (by decide), absFx_eq_abs hh (by decide)⟩

theorem setDp_af (d : Display) (x y : Int) : (setDp d x y).af = d.af := by
  rw [setDp, dpMoved]
  split_ifs <;> rfl

theorem setDp_point (d : Display) (x y : Int) :
    ((setDp d x y).draw.dpx, (setDp d x y).draw.dpy) = (x, y) := by
  rw [setDp, dpMoved]
  split_ifs <;> rfl

/-- An operand and a dimension add up without overflow. -/
theorem farFits_operand {o s : Int} (ho : Within 65536 o) (hs : Within 65536 s) : FarFits o s :=
  fun _ => (ho.add hs).fits (by decide)

/-- The corner the field is kept by is the origin where the dimension is not negative. -/
theorem corner_eq_iff {o s : Int} (ho : Within 65536 o) (hs : Within 65536 s) :
    (if s < 0 then wrap32 (o + s) else o) = o ↔ 0 ≤ s := by
  split_ifs with hneg
  · rw [wrap32_of_fits ((ho.add hs).fits (by decide))]
    omega
  · omega

end

/-- The origin a quarter in, the field half a screen to its left. -/
def leftField : Nat → Nat := fun i => [0x48, 0x40, 0x40, 0x71, 0x40, 0x40].getD i 0x40

end UnicornSuite.Naplps
