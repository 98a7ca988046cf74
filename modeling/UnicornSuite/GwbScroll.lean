import UnicornSuite.LibInPlace
import UnicornSuite.LibRun
import Mathlib.Data.UInt
import Mathlib.Order.Interval.Set.Basic
import Mathlib.Tactic.IntervalCases

/-! The screen of the machine that runs GW-BASIC (`gwb_machine.c`): the video modes, the addresses of
text cells and scan lines, and the scroll of a window. A text cell is a character and an attribute; a
character cell of a graphics mode is eight scan lines of one or two bytes, the scan lines in two banks. -/

namespace UnicornSuite.Gwb

open InPlace

/-- The megabyte of the machine, by address. -/
abbrev Mem := Nat → UInt8

/-- `VRAM_BASE` -/
abbrev vramBase : Nat := 0xB8000

/-- `GWB_VRAM_BYTES` -/
abbrev vramBytes : Nat := 0x4000

/-- The BIOS data area, `BDA`. -/
abbrev bda : Nat := 0x400

def rb (m : Mem) (a : Nat) : UInt8 := m (a % 0x100000)

def rw (m : Mem) (a : Nat) : UInt16 := (rb m a).toUInt16 ||| ((rb m (a + 1)).toUInt16 <<< 8)

def wb (m : Mem) (a : Nat) (v : UInt8) : Mem := Function.update m (a % 0x100000) v

def ww (m : Mem) (a : Nat) (v : UInt16) : Mem := wb (wb m a v.toUInt8) (a + 1) (v >>> 8).toUInt8

def memset (m : Mem) (d : Nat) (v : UInt8) (n : Nat) : Mem := fun a => if d ≤ a ∧ a < d + n then v else m a

def memmove (m : Mem) (d s n : Nat) : Mem := fun a => if d ≤ a ∧ a < d + n then m (s + (a - d)) else m a

/-! ### Modes and addresses -/

def vmode (m : Mem) : UInt8 := rb m (bda + 0x49)

def vcols (m : Mem) : Nat := if rb m (bda + 0x4A) ≠ 0 then (rb m (bda + 0x4A)).toNat else 80

def vtext (m : Mem) : Bool := decide (vmode m ≤ 3 ∨ vmode m = 7)

def vpageSize (m : Mem) : Nat := (rw m (bda + 0x4C)).toNat

def textAddr (m : Mem) (page row col : Nat) : Nat :=
  vramBase + (page * vpageSize m + (row * vcols m + col) * 2) % 0x4000

/-- `gfx_line` -/
def gfxLine (y : Nat) : Nat := vramBase + y % 2 * 0x2000 + y / 2 * 80

/-- The mode that `set_mode` enters: the CGA has no other than 0 to 6. -/
def modeOf (al : UInt8) : UInt8 := if al &&& 0x7F > 6 then 3 else al &&& 0x7F

def colsOf (mode : UInt8) : UInt8 := if mode = 0 ∨ mode = 1 ∨ mode = 4 ∨ mode = 5 then 40 else 80

def pageSizeOf (mode : UInt8) : UInt16 := if mode ≤ 1 then 0x800 else if mode ≤ 3 then 0x1000 else 0x4000

def modeControl : List UInt8 := [0x2C, 0x28, 0x2D, 0x29, 0x2A, 0x2E, 0x1E, 0x29]

/-- The screen that a mode begins with, unless bit 7 asks to keep the old one. -/
def clearScreen (m : Mem) (mode : UInt8) : Mem :=
  if mode ≤ 3 then (List.range (vramBytes / 2)).foldl (fun m i => ww m (vramBase + 2 * i) 0x0720) m
  else memset m vramBase 0 vramBytes

/-- What `set_mode` writes to the BIOS data area. -/
def enterMode (m : Mem) (mode : UInt8) : Mem :=
  let m := wb m (bda + 0x49) mode
  let m := wb m (bda + 0x4A) (colsOf mode)
  let m := ww m (bda + 0x4C) (pageSizeOf mode)
  let m := ww m (bda + 0x4E) 0
  let m := (List.range 16).foldl (fun m i => wb m (bda + 0x50 + i) 0) m
  let m := wb m (bda + 0x60) 7
  let m := wb m (bda + 0x61) 6
  let m := wb m (bda + 0x62) 0
  let m := ww m (bda + 0x63) 0x3D4
  let m := wb m (bda + 0x65) (modeControl.getD mode.toNat 0)
  let m := wb m (bda + 0x66) (if mode = 6 then 0x3F else 0x30)
  wb m (bda + 0x84) 24

/-- `set_mode`, of which the registers of the adapter are left out. -/
def setMode (m : Mem) (al : UInt8) : Mem :=
  if al &&& 0x80 = 0 then clearScreen (enterMode m (modeOf al)) (modeOf al) else enterMode m (modeOf al)

/-! ### The scroll -/

/-- One row of a text window. -/
def scrollTextRow (page dst src : Nat) (clear : Bool) (attr : UInt8) (c0 c1 : Nat) (m : Mem) : Mem :=
  (List.range' c0 (c1 + 1 - c0)).foldl (fun m c =>
    let d := textAddr m page dst c
    if clear then wb (wb m d 0x20) (d + 1) attr
    else ww m d (rw m (textAddr m page src c))) m

/-- One row of a window in a graphics mode. -/
def scrollGfxRow (dst src : Nat) (clear : Bool) (fill : UInt8) (bpc c0 c1 : Nat) (m : Mem) : Mem :=
  (List.range 8).foldl (fun m y =>
    let d := gfxLine (dst * 8 + y) + c0 * bpc
    if clear then memset m d fill ((c1 - c0 + 1) * bpc)
    else memmove m d (gfxLine (src * 8 + y) + c0 * bpc) ((c1 - c0 + 1) * bpc)) m

def gfxFill (mode attr : UInt8) : UInt8 :=
  if mode = 6 then (if attr ≠ 0 then 0xFF else 0) else (attr &&& 3) * 0x55

/-- The rounds of the loop over the rows of a window, from the row that is left first. A cleared row has
no source; what `src` is there is not read. -/
def scrollRows (up : Bool) (lines r0 r1 : Nat) (row : Nat → Nat → Bool → Mem → Mem) (m : Mem) : Mem :=
  let h := r1 - r0 + 1
  (List.range h).foldl (fun m r =>
    let dst := if up then r0 + r else r1 - r
    let src := if up then dst + lines else dst - lines
    row dst src (decide (r ≥ h - lines)) m) m

def scroll (m : Mem) (up : Bool) (lines : Nat) (attr : UInt8) (r0 c0 r1 c1 : Nat) : Mem :=
  let cols := vcols m
  let page := (rb m (bda + 0x62)).toNat
  let r1 := if r1 > 24 then 24 else r1
  let c1 := if c1 ≥ cols then cols - 1 else c1
  if r0 > r1 ∨ c0 > c1 then m
  else
    let h := r1 - r0 + 1
    let lines := if lines = 0 ∨ lines > h then h else lines
    if vtext m then
      scrollRows up lines r0 r1 (fun dst src clear => scrollTextRow page dst src clear attr c0 c1) m
    else
      scrollRows up lines r0 r1
        (fun dst src clear => scrollGfxRow dst src clear (gfxFill (vmode m) attr)
          (if vmode m = 6 then 1 else 2) c0 c1) m

/-! ### What the rows of a window become -/

/-- The row whose contents come to `row` when a window is scrolled by `lines`. -/
def sourceOf (up : Bool) (lines r0 r1 row : Nat) : Option Nat :=
  if up then (if row + lines ≤ r1 then some (row + lines) else none)
  else if r0 + lines ≤ row then some (row - lines) else none

section Rows

variable (I : Mem → Prop) (T : Nat → Set Nat) (f : Nat → Nat → UInt8) (mv : Nat → Nat → Nat → Nat)
  (row : Nat → Nat → Bool → Mem → Mem) (up : Bool) {lines r0 r1 : Nat} {m : Mem}

/-- The loop leaves every row before it takes the place of another. -/
theorem scrollRows_writes
    (hrow : ∀ m dst src clear, dst ≤ 24 → (clear = false → src ≤ 24 ∧ src ≠ dst) → I m →
      I (row dst src clear m) ∧
        Writes (T dst) (fun a => if clear then f dst a else m (mv dst src a)) m (row dst src clear m))
    (hmv : ∀ dst src a, dst ≤ 24 → src ≤ 24 → a ∈ T dst → mv dst src a ∈ T src)
    (hapart : ∀ i j, i ≤ 24 → j ≤ 24 → i ≠ j → Disjoint (T i) (T j))
    (hr : r0 ≤ r1) (hr1 : r1 ≤ 24) (hlines : 0 < lines ∧ lines ≤ r1 - r0 + 1) (h : I m) :
    (∀ i, r0 ≤ i → i ≤ r1 → ∀ a ∈ T i, scrollRows up lines r0 r1 row m a =
        match sourceOf up lines r0 r1 i with
        | some src => m (mv i src a)
        | none => f i a) ∧
      ∀ a, (∀ i, r0 ≤ i → i ≤ r1 → a ∉ T i) → scrollRows up lines r0 r1 row m a = m a := by
  let dst (r : Nat) := if up then r0 + r else r1 - r
  let src (r : Nat) := if up then dst r + lines else dst r - lines
  let clear (r : Nat) : Bool := decide (r ≥ r1 - r0 + 1 - lines)
  have hdst : ∀ r, r < r1 - r0 + 1 → r0 ≤ dst r ∧ dst r ≤ r1 := by
    intro r hr
    simp only [dst]
    split_ifs <;> omega
  have hsrc : ∀ r, r < r1 - r0 + 1 → clear r = false → src r ≤ 24 ∧ src r ≠ dst r := by
    intro r hr hclear
    have hkeep := of_decide_eq_false hclear
    simp only [src, dst]
    split_ifs <;> omega
  have hall := foldl_writes (fun m r => row (dst r) (src r) (clear r) m) (fun r => T (dst r))
    (fun r => if clear r then ∅ else T (src r))
    (fun r m a => if clear r then f (dst r) a else m (mv (dst r) (src r) a)) I
    (List.range (r1 - r0 + 1)) ?_ ?_ ?_ h
  · obtain ⟨-, hinside, houtside⟩ := hall
    constructor
    · intro i hlo hhi a ha
      obtain ⟨r, hr, rfl⟩ : ∃ r, r < r1 - r0 + 1 ∧ dst r = i := by
        refine ⟨if up then i - r0 else r1 - i, ?_, ?_⟩
        · split_ifs <;> omega
        · simp only [dst]
          split_ifs <;> omega
      refine (hinside r (List.mem_range.mpr hr) a ha).trans ?_
      have hsource : sourceOf up lines r0 r1 (dst r) = if clear r then none else some (src r) := by
        simp only [sourceOf, clear, src, dst, decide_eq_true_eq]
        split_ifs <;> first | rfl | omega
      rw [hsource]
      cases clear r <;> rfl
    · intro a ha
      refine houtside a fun r hr => ?_
      have hbounds := hdst r (List.mem_range.mp hr)
      exact ha _ hbounds.1 hbounds.2
  · intro m r hr hI
    have hbounds := hdst r (List.mem_range.mp hr)
    exact hrow m (dst r) (src r) (clear r) (by omega) (hsrc r (List.mem_range.mp hr)) hI
  · intro r hr m m' hagree a ha
    cases hclear : clear r with
    | true => rfl
    | false =>
        have hbounds := hdst r (List.mem_range.mp hr)
        have hfrom := hsrc r (List.mem_range.mp hr) hclear
        simp only [hclear] at hagree
        exact hagree _ (hmv _ _ _ (by omega) hfrom.1 ha)
  · refine (List.pairwise_lt_range).imp_of_mem fun {r r'} hr hr' hlt => ?_
    have hr := List.mem_range.mp hr
    have hr' := List.mem_range.mp hr'
    have hd := hdst r hr
    have hd' := hdst r' hr'
    refine ⟨hapart _ _ (by omega) (by omega) ?_, ?_⟩
    · simp only [dst]
      split_ifs <;> omega
    · cases hclear : clear r' with
      | true => exact Set.disjoint_empty _
      | false =>
          have hfrom := hsrc r' hr' hclear
          have hkeep := of_decide_eq_false hclear
          refine hapart _ _ (by omega) hfrom.1 ?_
          simp only [dst, src]
          split_ifs <;> omega

end Rows

/-! ### Text cells -/

/-- The memory below the screen, the BIOS data area with it, is that of `m`. -/
def BelowScreen (m m' : Mem) : Prop := ∀ a < 0xB8000, m' a = m a

theorem rb_of_lt (m : Mem) {a : Nat} (ha : a < 0x100000) : rb m a = m a := by rw [rb, Nat.mod_eq_of_lt ha]

section Words

/-- A word is its two bytes. -/
theorem word_toNat (x y : UInt8) :
    (x.toUInt16 ||| (y.toUInt16 <<< 8)).toNat = y.toNat * 256 + x.toNat := by
  have hx := x.toNat_lt
  have hy := y.toNat_lt
  have hshift : (y.toUInt16 <<< 8).toNat = y.toNat <<< 8 := by
    have height : UInt16.toNat 8 % 16 = 8 := rfl
    rw [UInt16.toNat_shiftLeft, UInt8.toNat_toUInt16, Nat.shiftLeft_eq, Nat.shiftLeft_eq, height]
    omega
  rw [UInt16.toNat_or, hshift, Nat.or_comm, UInt8.toNat_toUInt16, ← Nat.shiftLeft_add_eq_or_of_lt hx,
    Nat.shiftLeft_eq]

theorem ww_rw (m : Mem) (d s : Nat) : ww m d (rw m s) = wb (wb m d (rb m s)) (d + 1) (rb m (s + 1)) := by
  have hx := (rb m s).toNat_lt
  have hy := (rb m (s + 1)).toNat_lt
  have hlo : (rw m s).toUInt8 = rb m s := by
    apply UInt8.toNat_inj.mp
    rw [UInt16.toNat_toUInt8, rw, word_toNat]
    omega
  have hhi : (rw m s >>> 8).toUInt8 = rb m (s + 1) := by
    have height : UInt16.toNat 8 % 16 = 8 := rfl
    apply UInt8.toNat_inj.mp
    rw [UInt16.toNat_toUInt8, UInt16.toNat_shiftRight, rw, word_toNat, height, Nat.shiftRight_eq_div_pow]
    omega
  rw [ww, hlo, hhi]

theorem writes_pair {d : Nat} (hd : d + 1 < 0x100000) (x y : UInt8) (m : Mem) :
    Writes (Set.Ico d (d + 2)) (fun a => if a = d then x else y) m (wb (wb m d x) (d + 1) y) := by
  rw [wb, wb, Nat.mod_eq_of_lt hd, Nat.mod_eq_of_lt (by omega)]
  constructor
  · rintro a ⟨hlo, hhi⟩
    obtain rfl | rfl : a = d ∨ a = d + 1 := by omega
    · rw [Function.update_of_ne (by omega), Function.update_self, if_pos rfl]
    · rw [Function.update_self, if_neg (by omega)]
  · intro a ha
    rw [Set.mem_Ico] at ha
    rw [Function.update_of_ne (by omega), Function.update_of_ne (by omega)]

end Words

section Text

variable {m m' : Mem} {page base cols : Nat}

/-- Where the cells of a page stand. -/
structure TextGeometry (m : Mem) (page base cols : Nat) : Prop where
  vcols : vcols m = cols
  narrow : cols = 40 ∨ cols = 80
  addr : ∀ row col, row ≤ 24 → col < cols → textAddr m page row col = base + (row * cols + col) * 2
  lo : 0xB8000 ≤ base
  hi : base + 25 * cols * 2 ≤ 0xBC000
  aligned : (cols = 40 ∧ base % 0x800 = 0) ∨ (cols = 80 ∧ base % 0x1000 = 0)

theorem textAddr_of_below (h : BelowScreen m m') (page row col : Nat) :
    textAddr m' page row col = textAddr m page row col := by
  have hbyte : ∀ a, a < 0xB8000 → rb m' a = rb m a := fun a ha => by
    rw [rb_of_lt m' (by omega), rb_of_lt m (by omega)]
    exact h a ha
  have hcols : Gwb.vcols m' = Gwb.vcols m := by rw [Gwb.vcols, Gwb.vcols, hbyte _ (by decide)]
  have hsize : vpageSize m' = vpageSize m := by
    rw [vpageSize, vpageSize, rw, rw, hbyte _ (by decide), hbyte _ (by decide)]
  rw [textAddr, textAddr, hcols, hsize]

/-- The bytes of the columns `c0` to `c1` of a row. -/
def textSpan (base cols c0 c1 row : Nat) : Set Nat :=
  Set.Ico (base + (row * cols + c0) * 2) (base + (row * cols + c1) * 2 + 2)

theorem textSpan_disjoint (hcols : cols = 40 ∨ cols = 80) {c0 c1 : Nat} (hc1 : c1 < cols) {i j : Nat}
    (hij : i ≠ j) : Disjoint (textSpan base cols c0 c1 i) (textSpan base cols c0 c1 j) := by
  rw [Set.disjoint_left]
  rintro a ⟨hlo, hhi⟩ ⟨hlo', hhi'⟩
  rcases hcols with rfl | rfl <;> omega

theorem scrollTextRow_writes (hg : TextGeometry m page base cols) (h : BelowScreen m m')
    {dst src c0 c1 : Nat} {clear : Bool} {attr : UInt8} (hdst : dst ≤ 24)
    (hsrc : clear = false → src ≤ 24 ∧ src ≠ dst) (hc : c0 ≤ c1) (hc1 : c1 < cols) :
    BelowScreen m (scrollTextRow page dst src clear attr c0 c1 m') ∧
      Writes (textSpan base cols c0 c1 dst)
        (fun a => if clear then (if (a - base) % 2 = 0 then 0x20 else attr)
          else m' (a + src * cols * 2 - dst * cols * 2))
        m' (scrollTextRow page dst src clear attr c0 c1 m') := by
  have hlo := hg.lo
  have hhi := hg.hi
  have hbounds : ∀ row c, row ≤ 24 → c < cols → base + (row * cols + c) * 2 + 2 ≤ 0xBC000 := by
    intro row c hrow hc
    rcases hg.narrow with rfl | rfl <;> omega
  obtain ⟨hbelow, hinside, houtside⟩ := foldl_writes
    (fun m c =>
      let d := textAddr m page dst c
      if clear then wb (wb m d 0x20) (d + 1) attr
      else ww m d (rw m (textAddr m page src c)))
    (fun c => Set.Ico (base + (dst * cols + c) * 2) (base + (dst * cols + c) * 2 + 2))
    (fun c => if clear then ∅
      else Set.Ico (base + (src * cols + c) * 2) (base + (src * cols + c) * 2 + 2))
    (fun c m a => if clear then (if (a - base) % 2 = 0 then 0x20 else attr)
      else m (a + src * cols * 2 - dst * cols * 2))
    (BelowScreen m) (List.range' c0 (c1 + 1 - c0))
    (by
      intro m₁ c hc hm₁
      have hcol : c < cols := by
        rw [List.mem_range'_1] at hc
        omega
      have hd := hbounds dst c hdst hcol
      rw [textAddr_of_below hm₁, textAddr_of_below hm₁, hg.addr dst c hdst hcol]
      generalize hD : base + (dst * cols + c) * 2 = d at *
      have hkeeps : ∀ x y, BelowScreen m (wb (wb m₁ d x) (d + 1) y) := fun x y a ha => by
        rw [(writes_pair (by omega) x y m₁).outside a (by rw [Set.mem_Ico]; omega)]
        exact hm₁ a ha
      cases clear with
      | true =>
          refine ⟨hkeeps _ _, fun a ha => ?_, (writes_pair (by omega) _ _ m₁).outside⟩
          refine ((writes_pair (by omega) _ _ m₁).inside a ha).trans ?_
          obtain ⟨hlo', hhi'⟩ := ha
          simp only [↓reduceIte]
          split_ifs <;> first | rfl | omega
      | false =>
          obtain ⟨hsrc24, -⟩ := hsrc rfl
          have hs := hbounds src c hsrc24 hcol
          rw [hg.addr src c hsrc24 hcol]
          simp only [Bool.false_eq_true, ↓reduceIte]
          rw [ww_rw, rb_of_lt m₁ (by omega), rb_of_lt m₁ (by omega)]
          refine ⟨hkeeps _ _, fun a ha => ?_, (writes_pair (by omega) _ _ m₁).outside⟩
          refine ((writes_pair (by omega) _ _ m₁).inside a ha).trans ?_
          obtain ⟨hlo', hhi'⟩ := ha
          split_ifs with had
          · refine congrArg m₁ ?_
            rcases hg.narrow with rfl | rfl <;> omega
          · refine congrArg m₁ ?_
            rcases hg.narrow with rfl | rfl <;> omega)
    (by
      intro c hc m₁ m₂ hagree a ha
      have hcol : c < cols := by
        rw [List.mem_range'_1] at hc
        omega
      cases clear with
      | true => rfl
      | false =>
          refine hagree _ ?_
          obtain ⟨hlo', hhi'⟩ := ha
          rw [if_neg (by decide), Set.mem_Ico]
          rcases hg.narrow with rfl | rfl <;> omega)
    (by
      have hlt : (List.range' c0 (c1 + 1 - c0)).Pairwise (· < ·) := List.pairwise_lt_range'
      refine hlt.imp_of_mem fun {c c'} hmem hmem' hlt => ?_
      rw [List.mem_range'_1] at hmem hmem'
      constructor
      · rw [Set.disjoint_left]
        rintro a ⟨hlo', hhi'⟩ ⟨hlo'', hhi''⟩
        omega
      · cases clear with
        | true => exact Set.disjoint_empty _
        | false =>
            obtain ⟨-, hne⟩ := hsrc rfl
            rw [if_neg (by decide), Set.disjoint_left]
            rintro a ⟨hlo', hhi'⟩ ⟨hlo'', hhi''⟩
            rcases hg.narrow with rfl | rfl <;> omega)
    h
  refine ⟨hbelow, fun a ha => ?_, fun a ha => ?_⟩
  · obtain ⟨hlo', hhi'⟩ := ha
    refine hinside (c0 + (a - (base + (dst * cols + c0) * 2)) / 2) ?_ a ?_
    · rw [List.mem_range'_1]
      omega
    · rw [Set.mem_Ico]
      omega
  · refine houtside a fun c hc hmem => ha ?_
    rw [List.mem_range'_1] at hc
    obtain ⟨hlo', hhi'⟩ := hmem
    rw [textSpan, Set.mem_Ico]
    omega

end Text

/-! ### Scan lines -/

section Graphics

variable {m : Mem}

/-- The bytes of `w` bytes from byte `k` on of the eight scan lines of a row. -/
def gfxSpan (k w row : Nat) : Set Nat :=
  {a | ∃ y < 8, gfxLine (row * 8 + y) + k ≤ a ∧ a < gfxLine (row * 8 + y) + k + w}

/-- Rows are 320 bytes apart in either bank. -/
theorem gfxLine_row (row y : Nat) : gfxLine (row * 8 + y) = gfxLine y + row * 320 := by
  simp only [gfxLine]
  omega

/-- No byte belongs to two scan lines. -/
theorem gfxLine_unique {k w a i j y y' : Nat} (hw : k + w ≤ 80) (hi : i ≤ 24) (hj : j ≤ 24) (hy : y < 8)
    (hy' : y' < 8) (ha : gfxLine (i * 8 + y) + k ≤ a ∧ a < gfxLine (i * 8 + y) + k + w)
    (ha' : gfxLine (j * 8 + y') + k ≤ a ∧ a < gfxLine (j * 8 + y') + k + w) : i = j ∧ y = y' := by
  rw [gfxLine_row, gfxLine] at ha ha'
  generalize vramBase = v at ha ha'
  have hsplit : y = y / 2 * 2 + y % 2 := by omega
  have hsplit' : y' = y' / 2 * 2 + y' % 2 := by omega
  have hline : 4 * i + y / 2 ≤ 99 := by omega
  have hline' : 4 * j + y' / 2 ≤ 99 := by omega
  have hquarter : y / 2 < 4 := by omega
  have hquarter' : y' / 2 < 4 := by omega
  rw [hsplit, hsplit']
  generalize y / 2 = q at *
  generalize y' / 2 = q' at *
  rcases Nat.mod_two_eq_zero_or_one y with hb | hb <;> rcases Nat.mod_two_eq_zero_or_one y' with hb' | hb' <;>
    rw [hb] at ha ⊢ <;> rw [hb'] at ha' ⊢ <;> omega

theorem gfxSpan_disjoint {k w : Nat} (hw : k + w ≤ 80) {i j : Nat} (hi : i ≤ 24) (hj : j ≤ 24)
    (hij : i ≠ j) : Disjoint (gfxSpan k w i) (gfxSpan k w j) := by
  rw [Set.disjoint_left]
  rintro a ⟨y, hy, ha⟩ ⟨y', hy', ha'⟩
  exact hij (gfxLine_unique hw hi hj hy hy' ha ha').1

theorem gfxSpan_move {k w dst src a : Nat} (ha : a ∈ gfxSpan k w dst) :
    a + src * 320 - dst * 320 ∈ gfxSpan k w src := by
  obtain ⟨y, hy, hlo, hhi⟩ := ha
  refine ⟨y, hy, ?_⟩
  rw [gfxLine_row] at hlo hhi ⊢
  omega

theorem scrollGfxRow_writes {m' : Mem} (h : BelowScreen m m') {dst src bpc c0 c1 : Nat} {clear : Bool}
    {fill : UInt8} (hdst : dst ≤ 24) (hsrc : clear = false → src ≤ 24 ∧ src ≠ dst)
    (hw : c0 * bpc + (c1 - c0 + 1) * bpc ≤ 80) :
    BelowScreen m (scrollGfxRow dst src clear fill bpc c0 c1 m') ∧
      Writes (gfxSpan (c0 * bpc) ((c1 - c0 + 1) * bpc) dst)
        (fun a => if clear then fill else m' (a + src * 320 - dst * 320))
        m' (scrollGfxRow dst src clear fill bpc c0 c1 m') := by
  rw [scrollGfxRow]
  generalize c0 * bpc = k at *
  generalize (c1 - c0 + 1) * bpc = w at *
  obtain ⟨hbelow, hinside, houtside⟩ := foldl_writes
    (fun m y =>
      let d := gfxLine (dst * 8 + y) + k
      if clear then memset m d fill w else memmove m d (gfxLine (src * 8 + y) + k) w)
    (fun y => Set.Ico (gfxLine (dst * 8 + y) + k) (gfxLine (dst * 8 + y) + k + w))
    (fun y => if clear then ∅
      else Set.Ico (gfxLine (src * 8 + y) + k) (gfxLine (src * 8 + y) + k + w))
    (fun y m a => if clear then fill else m (a + src * 320 - dst * 320))
    (BelowScreen m) (List.range 8)
    (by
      intro m₁ y hy hm₁
      have hlow : 0xB8000 ≤ gfxLine (dst * 8 + y) := by
        have hbase : vramBase = 0xB8000 := rfl
        simp only [gfxLine]
        omega
      cases clear with
      | true =>
          refine ⟨fun a ha => ?_, fun a ha => if_pos ha, fun a ha => if_neg ha⟩
          exact (if_neg (by omega)).trans (hm₁ a ha)
      | false =>
          refine ⟨fun a ha => ?_, fun a ha => ?_, fun a ha => if_neg ha⟩
          · exact (if_neg (by omega)).trans (hm₁ a ha)
          · refine (if_pos ha).trans (congrArg m₁ ?_)
            obtain ⟨hlo, hhi⟩ := ha
            rw [gfxLine_row] at hlo hhi ⊢
            rw [gfxLine_row]
            omega)
    (by
      intro y hy m₁ m₂ hagree a ha
      cases clear with
      | true => rfl
      | false =>
          refine hagree _ ?_
          obtain ⟨hlo, hhi⟩ := ha
          rw [if_neg (by decide), Set.mem_Ico]
          rw [gfxLine_row] at hlo hhi ⊢
          omega)
    (by
      refine (List.pairwise_lt_range (n := 8)).imp_of_mem fun {y y'} hy hy' hlt => ?_
      rw [List.mem_range] at hy hy'
      constructor
      · rw [Set.disjoint_left]
        intro a ha ha'
        exact hlt.ne (gfxLine_unique hw hdst hdst hy hy' ha ha').2
      · cases clear with
        | true => exact Set.disjoint_empty _
        | false =>
            obtain ⟨hsrc24, hne⟩ := hsrc rfl
            rw [if_neg (by decide), Set.disjoint_left]
            intro a ha ha'
            exact hne (gfxLine_unique hw hdst hsrc24 hy hy' ha ha').1.symm)
    h
  refine ⟨hbelow, ?_, fun a ha => ?_⟩
  · rintro a ⟨y, hy, ha⟩
    exact hinside y (List.mem_range.mpr hy) a ha
  · exact houtside a fun y hy hmem => ha ⟨y, List.mem_range.mp hy, hmem⟩

end Graphics

/-! ### The state a mode leaves -/

/-- The mode of the machine is one that `set_mode` has set. The page shown and all the rest of the
memory may have changed since. -/
structure SetBy (al : UInt8) (m : Mem) : Prop where
  mode : vmode m = modeOf al
  cols : rb m (bda + 0x4A) = colsOf (modeOf al)
  pageSize : rw m (bda + 0x4C) = pageSizeOf (modeOf al)

theorem modeOf_le (al : UInt8) : (modeOf al).toNat ≤ 6 := by
  rw [modeOf]
  split_ifs with hover
  · decide
  · have hle := UInt8.not_lt.mp hover
    exact UInt8.le_iff_toNat_le.mp hle

/-- The modes of the adapter: text of two widths, graphics of two. -/
theorem modeOf_cases (al : UInt8) :
    (modeOf al ≤ 3 ∧ colsOf (modeOf al) = 40 ∧ pageSizeOf (modeOf al) = 0x800) ∨
      (modeOf al ≤ 3 ∧ colsOf (modeOf al) = 80 ∧ pageSizeOf (modeOf al) = 0x1000) ∨
      (¬ modeOf al ≤ 3 ∧ modeOf al ≠ 7 ∧ modeOf al ≠ 6 ∧ colsOf (modeOf al) = 40) ∨
      (¬ modeOf al ≤ 3 ∧ modeOf al = 6 ∧ colsOf (modeOf al) = 80) := by
  have hle := modeOf_le al
  generalize modeOf al = mode at *
  obtain ⟨n, hn, rfl⟩ : ∃ n ≤ 6, mode = UInt8.ofNat n := ⟨mode.toNat, hle, by simp⟩
  interval_cases n <;> decide

section Modes

variable {al : UInt8} {m : Mem}

theorem SetBy.geometry (h : SetBy al m) (htext : vtext m = true) (page : Nat) :
    TextGeometry m page (vramBase + page * vpageSize m % 0x4000) (vcols m) := by
  have hmode := of_decide_eq_true htext
  rw [h.mode] at hmode
  have hsize : (vcols m = 40 ∧ vpageSize m = 0x800) ∨ (vcols m = 80 ∧ vpageSize m = 0x1000) := by
    rw [vcols, vpageSize, h.cols, h.pageSize]
    rcases modeOf_cases al with ⟨-, hc, hp⟩ | ⟨-, hc, hp⟩ | ⟨hno, hno', -⟩ | ⟨hno, hsix, -⟩
    · rw [hc, hp]
      decide
    · rw [hc, hp]
      decide
    · exact absurd hmode (not_or.mpr ⟨hno, hno'⟩)
    · rw [hsix] at hmode
      exact absurd hmode (by decide)
  have hbase : vramBase = 0xB8000 := rfl
  refine ⟨rfl, hsize.imp And.left And.left, fun row col hrow hcol => ?_, by omega, ?_, ?_⟩
  · rw [textAddr]
    rcases hsize with ⟨hc, hp⟩ | ⟨hc, hp⟩ <;> rw [hc] at hcol ⊢ <;> rw [hp] <;> omega
  · rcases hsize with ⟨hc, hp⟩ | ⟨hc, hp⟩ <;> rw [hc, hp] <;> omega
  · rcases hsize with ⟨hc, hp⟩ | ⟨hc, hp⟩ <;> rw [hc, hp] <;> omega

/-- A character cell of a graphics mode is of two bytes, or of one where there are eighty of them. -/
theorem SetBy.bytesPerCell (h : SetBy al m) (htext : vtext m = false) :
    vcols m * (if vmode m = 6 then 1 else 2) = 80 := by
  have hmode := of_decide_eq_false htext
  rw [h.mode] at hmode
  rw [vcols, h.cols, h.mode]
  rcases modeOf_cases al with ⟨hno, -⟩ | ⟨hno, -⟩ | ⟨-, -, hsix, hc⟩ | ⟨-, hsix, hc⟩
  · exact absurd (.inl hno) hmode
  · exact absurd (.inl hno) hmode
  · rw [hc, if_neg hsix]
    decide
  · rw [hc, if_pos hsix]
    decide

end Modes

/-! ### The window -/

/-- A cell of the screen that the window covers. -/
def InWindow (cols r0 c0 r1 c1 row col : Nat) : Prop :=
  r0 ≤ row ∧ row ≤ r1 ∧ row ≤ 24 ∧ c0 ≤ col ∧ col ≤ c1 ∧ col < cols

def lastRow (r1 : Nat) : Nat := if r1 > 24 then 24 else r1

def lastCol (cols c1 : Nat) : Nat := if c1 ≥ cols then cols - 1 else c1

/-- By how many lines a window is scrolled: 0 and too many mean all of them. -/
def linesOf (lines r0 r1 : Nat) : Nat :=
  if lines = 0 ∨ lines > lastRow r1 - r0 + 1 then lastRow r1 - r0 + 1 else lines

def scrolledFrom (up : Bool) (lines r0 r1 row : Nat) : Option Nat :=
  sourceOf up (linesOf lines r0 r1) r0 (lastRow r1) row

def textCell (m : Mem) (page row col : Nat) : UInt8 × UInt8 :=
  (rb m (textAddr m page row col), rb m (textAddr m page row col + 1))

/-- The colour of a pixel: one bit of the byte in mode 6, two bits otherwise. -/
def pixel (m : Mem) (x y : Nat) : Nat :=
  if vmode m = 6 then (rb m (gfxLine y + x / 8)).toNat / 2 ^ (7 - x % 8) % 2
  else (rb m (gfxLine y + x / 4)).toNat / 2 ^ (6 - x % 4 * 2) % 4

/-- The byte that holds a pixel. -/
def pixelAddr (m : Mem) (x y : Nat) : Nat := gfxLine y + x / (if vmode m = 6 then 8 else 4)

def fillPixel (mode attr : UInt8) : Nat :=
  if mode = 6 then (if attr ≠ 0 then 1 else 0) else attr.toNat % 4

/-- What a scroll makes of text on `page`. -/
structure ScrolledText (m m' : Mem) (page : Nat) (source : Nat → Option Nat) (attr : UInt8)
    (window : Nat → Nat → Prop) : Prop where
  inside : ∀ row col, window row col → textCell m' page row col =
    match source row with
    | some src => textCell m page src col
    | none => (0x20, attr)
  outside : ∀ page' row col, row ≤ 24 → col < vcols m →
    ¬ (textAddr m page' 0 0 = textAddr m page 0 0 ∧ window row col) →
    textCell m' page' row col = textCell m page' row col
  memory : ∀ a, (∀ row col, window row col →
    a ≠ textAddr m page row col ∧ a ≠ textAddr m page row col + 1) → m' a = m a

/-- What a scroll makes of a picture. -/
structure ScrolledPicture (m m' : Mem) (source : Nat → Option Nat) (fill : Nat)
    (window : Nat → Nat → Prop) : Prop where
  inside : ∀ x y, window (y / 8) (x / 8) → pixel m' x y =
    match source (y / 8) with
    | some src => pixel m x (src * 8 + y % 8)
    | none => fill
  outside : ∀ x y, x < vcols m * 8 → y < 200 → ¬ window (y / 8) (x / 8) → pixel m' x y = pixel m x y
  memory : ∀ a, (∀ x y, window (y / 8) (x / 8) → a ≠ pixelAddr m x y) → m' a = m a

section Windows

variable {al attr : UInt8} {m : Mem} {up : Bool} {lines r0 c0 r1 c1 : Nat}

theorem sourceOf_le {n last row src : Nat} (h : sourceOf up n r0 last row = some src) (hrow : row ≤ last) :
    src ≤ last := by
  simp only [sourceOf] at h
  split_ifs at h <;> injection h <;> omega

theorem lastRow_le (r1 : Nat) : lastRow r1 ≤ 24 := by
  rw [lastRow]
  split_ifs <;> omega

theorem linesOf_bounds (lines r0 r1 : Nat) :
    0 < linesOf lines r0 r1 ∧ linesOf lines r0 r1 ≤ lastRow r1 - r0 + 1 := by
  rw [linesOf]
  split_ifs <;> omega

theorem inWindow_iff {cols row col : Nat} (hcols : 0 < cols) :
    InWindow cols r0 c0 r1 c1 row col ↔
      (r0 ≤ row ∧ row ≤ lastRow r1) ∧ c0 ≤ col ∧ col ≤ lastCol cols c1 := by
  simp only [InWindow, lastRow, lastCol]
  split_ifs <;> omega

/-- A window that has no cell is left alone. -/
theorem scroll_empty (h : r0 > lastRow r1 ∨ c0 > lastCol (vcols m) c1) :
    scroll m up lines attr r0 c0 r1 c1 = m := if_pos h

theorem scroll_text_rows (h : ¬ (r0 > lastRow r1 ∨ c0 > lastCol (vcols m) c1)) (htext : vtext m = true) :
    scroll m up lines attr r0 c0 r1 c1 =
      scrollRows up (linesOf lines r0 r1) r0 (lastRow r1)
        (fun dst src clear => scrollTextRow (rb m (bda + 0x62)).toNat dst src clear attr c0
          (lastCol (vcols m) c1)) m := (if_neg h).trans (if_pos htext)

theorem scroll_gfx_rows (h : ¬ (r0 > lastRow r1 ∨ c0 > lastCol (vcols m) c1)) (htext : vtext m = false) :
    scroll m up lines attr r0 c0 r1 c1 =
      scrollRows up (linesOf lines r0 r1) r0 (lastRow r1)
        (fun dst src clear => scrollGfxRow dst src clear (gfxFill (vmode m) attr)
          (if vmode m = 6 then 1 else 2) c0 (lastCol (vcols m) c1)) m :=
  (if_neg h).trans (if_neg (by rw [htext]; decide))

theorem scroll_text (h : SetBy al m) (htext : vtext m = true) :
    ScrolledText m (scroll m up lines attr r0 c0 r1 c1) (rb m (bda + 0x62)).toNat
      (scrolledFrom up lines r0 r1) attr (InWindow (vcols m) r0 c0 r1 c1) := by
  have hg := h.geometry htext (rb m (bda + 0x62)).toNat
  have hlo := hg.lo
  have hhi := hg.hi
  have hcols : 0 < vcols m := by rcases hg.narrow with hc | hc <;> rw [hc] <;> decide
  by_cases hempty : r0 > lastRow r1 ∨ c0 > lastCol (vcols m) c1
  · have hnone : ∀ row col, ¬ InWindow (vcols m) r0 c0 r1 c1 row col := by
      intro row col hin
      rw [inWindow_iff hcols] at hin
      omega
    rw [scroll_empty hempty]
    exact ⟨fun row col hin => absurd hin (hnone row col), fun _ _ _ _ _ _ => rfl, fun _ _ => rfl⟩
  · rw [scroll_text_rows hempty htext]
    have hlast := lastRow_le r1
    have hcol : lastCol (vcols m) c1 < vcols m := by
      rw [lastCol]
      split_ifs <;> omega
    generalize hpage : (rb m (bda + 0x62)).toNat = page at *
    generalize hbase : vramBase + page * vpageSize m % 0x4000 = base at *
    obtain ⟨hinside, houtside⟩ := scrollRows_writes (BelowScreen m)
      (textSpan base (vcols m) c0 (lastCol (vcols m) c1))
      (fun _ a => if (a - base) % 2 = 0 then 0x20 else attr)
      (fun dst src a => a + src * vcols m * 2 - dst * vcols m * 2)
      (fun dst src clear => scrollTextRow page dst src clear attr c0 (lastCol (vcols m) c1)) up
      (fun m' dst src clear hdst hsrc hm' => scrollTextRow_writes hg hm' hdst hsrc (by omega) hcol)
      (by
        rintro dst src a hdst hsrc ⟨hlo', hhi'⟩
        rw [textSpan, Set.mem_Ico]
        rcases hg.narrow with hc | hc <;> rw [hc] at hlo' hhi' ⊢ <;> omega)
      (fun i j _ _ hij => textSpan_disjoint hg.narrow hcol hij)
      (by omega : r0 ≤ lastRow r1) hlast (linesOf_bounds lines r0 r1) (m := m) (fun _ _ => rfl)
    generalize hm' : scrollRows up (linesOf lines r0 r1) r0 (lastRow r1)
      (fun dst src clear => scrollTextRow page dst src clear attr c0 (lastCol (vcols m) c1)) m = m' at *
    have hmemory : ∀ a, (∀ row col, InWindow (vcols m) r0 c0 r1 c1 row col →
        a ≠ textAddr m page row col ∧ a ≠ textAddr m page row col + 1) → m' a = m a := by
      intro a ha
      refine houtside a fun row hr hr' hmem => ?_
      obtain ⟨hlo', hhi'⟩ := hmem
      have hin : InWindow (vcols m) r0 c0 r1 c1 row
          (c0 + (a - (base + (row * vcols m + c0) * 2)) / 2) := by
        rw [inWindow_iff hcols]
        omega
      have hne := ha _ _ hin
      rw [hg.addr _ _ hin.2.2.1 hin.2.2.2.2.2] at hne
      omega
    have hbelow : BelowScreen m m' := by
      intro a ha
      refine hmemory a fun row col hin => ?_
      rw [hg.addr _ _ hin.2.2.1 hin.2.2.2.2.2]
      omega
    refine ⟨fun row col hin => ?_, fun page' row col hrow hcol' hout => ?_, hmemory⟩
    · have hwhere := (inWindow_iff hcols).mp hin
      have hrow : row ≤ 24 := hin.2.2.1
      have hcol' : col < vcols m := hin.2.2.2.2.2
      have haddr := hg.addr row col hrow hcol'
      have hmem : ∀ k < 2, base + (row * vcols m + col) * 2 + k ∈
          textSpan base (vcols m) c0 (lastCol (vcols m) c1) row := by
        intro k hk
        rw [textSpan, Set.mem_Ico]
        omega
      have hfirst := hinside row hwhere.1.1 hwhere.1.2 _ (hmem 0 (by decide))
      have hsecond := hinside row hwhere.1.1 hwhere.1.2 _ (hmem 1 (by decide))
      have hend : base + (row * vcols m + col) * 2 + 2 ≤ 0xBC000 := by
        rcases hg.narrow with hc | hc <;> rw [hc] at hhi hcol' ⊢ <;> omega
      rw [textCell, textAddr_of_below hbelow, haddr, rb_of_lt _ (by omega), rb_of_lt _ (by omega)]
      rw [Nat.add_zero] at hfirst
      rw [hfirst, hsecond, scrolledFrom]
      cases hsource : sourceOf up (linesOf lines r0 r1) r0 (lastRow r1) row with
      | none =>
          refine Prod.ext (if_pos (by omega)) (if_neg (by omega))
      | some src =>
          have hsrc := sourceOf_le hsource hwhere.1.2
          have haddr' := hg.addr src col (by omega) hcol'
          have hend' : base + (src * vcols m + col) * 2 + 2 ≤ 0xBC000 := by
            rcases hg.narrow with hc | hc <;> rw [hc] at hhi hcol' ⊢ <;> omega
          dsimp only
          rw [textCell, haddr', rb_of_lt _ (by omega), rb_of_lt _ (by omega)]
          refine Prod.ext (congrArg m ?_) (congrArg m ?_)
          · rcases hg.narrow with hc | hc <;> rw [hc] <;> omega
          · rcases hg.narrow with hc | hc <;> rw [hc] <;> omega
    · have hg' := h.geometry htext page'
      have hlo' := hg'.lo
      have hhi' := hg'.hi
      have haligned := hg.aligned
      have haligned' := hg'.aligned
      rw [hg'.addr 0 0 (by omega) hcols, hg.addr 0 0 (by omega) hcols] at hout
      generalize vramBase + page' * vpageSize m % 0x4000 = base' at *
      have haddr := hg'.addr row col hrow hcol'
      have happart : ∀ k < 2, m' (base' + (row * vcols m + col) * 2 + k) =
          m (base' + (row * vcols m + col) * 2 + k) := by
        intro k hk
        refine hmemory _ fun row₂ col₂ hin => ?_
        have hrow₂ : row₂ ≤ 24 := hin.2.2.1
        have hcol₂ : col₂ < vcols m := hin.2.2.2.2.2
        rw [hg.addr _ _ hrow₂ hcol₂]
        by_contra hmeet
        have hpages : base' = base := by
          rcases haligned with ⟨hc, ha⟩ | ⟨hc, ha⟩ <;> rw [hc] at hmeet haligned' hcol' hcol₂ <;> omega
        have hcell : row₂ = row ∧ col₂ = col := by
          rw [hpages] at hmeet
          rcases hg.narrow with hc | hc <;> rw [hc] at hmeet hcol' hcol₂ <;> omega
        rw [hcell.1, hcell.2] at hin
        exact hout ⟨by rw [hpages], hin⟩
      have hend : base' + (row * vcols m + col) * 2 + 2 ≤ 0xBC000 := by
        rcases hg.narrow with hc | hc <;> rw [hc] at hhi' hcol' ⊢ <;> omega
      rw [textCell, textCell, textAddr_of_below hbelow, haddr, rb_of_lt _ (by omega), rb_of_lt _ (by omega),
        rb_of_lt _ (by omega), rb_of_lt _ (by omega)]
      exact Prod.ext (happart 0 (by decide)) (happart 1 (by decide))

/-- The byte of a pixel of a character cell. -/
theorem pixel_of_byte {m m' : Mem} (hmode : vmode m' = vmode m) {x x' y y' : Nat}
    (h : rb m' (pixelAddr m x y) = rb m (pixelAddr m x' y')) (hx : x % 8 = x' % 8) :
    pixel m' x y = pixel m x' y' := by
  rw [pixelAddr, pixelAddr] at h
  rw [pixel, pixel, hmode]
  split_ifs at h ⊢ with hsix
  · rw [h, hx]
  · have hx4 : x % 4 = x' % 4 := by omega
    rw [h, hx4]

/-- Every pixel of a filled byte has the colour of the fill. -/
theorem pixel_of_fill {m m' : Mem} (hmode : vmode m' = vmode m) {x y : Nat}
    (h : rb m' (pixelAddr m x y) = gfxFill (vmode m) attr) : pixel m' x y = fillPixel (vmode m) attr := by
  rw [pixelAddr] at h
  rw [gfxFill] at h
  rw [pixel, hmode, fillPixel]
  split_ifs at h ⊢ with hsix hattr
  · rw [h]
    have hbit : x % 8 < 8 := Nat.mod_lt _ (by decide)
    generalize x % 8 = k at hbit ⊢
    interval_cases k <;> rfl
  · rw [h]
    exact (congrArg (· % 2) (Nat.zero_div _)).trans rfl
  · have hmask : (attr &&& 3).toNat = attr.toNat % 4 := by
      rw [UInt8.toNat_and]
      exact Nat.and_two_pow_sub_one_eq_mod _ 2
    have hlt : attr.toNat % 4 < 4 := Nat.mod_lt _ (by decide)
    have hbit : x % 4 < 4 := Nat.mod_lt _ (by decide)
    rw [h, UInt8.toNat_mul, hmask]
    generalize x % 4 = k at hbit ⊢
    generalize attr.toNat % 4 = c at hlt ⊢
    interval_cases k <;> interval_cases c <;> rfl

theorem scroll_picture (h : SetBy al m) (htext : vtext m = false) :
    ScrolledPicture m (scroll m up lines attr r0 c0 r1 c1) (scrolledFrom up lines r0 r1)
      (fillPixel (vmode m) attr) (InWindow (vcols m) r0 c0 r1 c1) := by
  have hcell := h.bytesPerCell htext
  have hcols : 0 < vcols m := Nat.pos_of_ne_zero fun hzero => by
    rw [hzero, Nat.zero_mul] at hcell
    cases hcell
  have hbase : vramBase = 0xB8000 := rfl
  by_cases hempty : r0 > lastRow r1 ∨ c0 > lastCol (vcols m) c1
  · have hnone : ∀ row col, ¬ InWindow (vcols m) r0 c0 r1 c1 row col := by
      intro row col hin
      rw [inWindow_iff hcols] at hin
      omega
    rw [scroll_empty hempty]
    exact ⟨fun x y hin => absurd hin (hnone _ _), fun _ _ _ _ _ => rfl, fun _ _ => rfl⟩
  · rw [scroll_gfx_rows hempty htext]
    have hlast := lastRow_le r1
    have hcol : lastCol (vcols m) c1 < vcols m := by
      rw [lastCol]
      split_ifs <;> omega
    generalize hbpc : (if vmode m = 6 then 1 else 2) = bpc at *
    have hppb : (vcols m = 80 ∧ bpc = 1 ∧ (if vmode m = 6 then 8 else 4) = 8) ∨
        (vcols m = 40 ∧ bpc = 2 ∧ (if vmode m = 6 then 8 else 4) = 4) := by
      split_ifs at hbpc ⊢ <;> subst hbpc <;> omega
    have hw : c0 * bpc + (lastCol (vcols m) c1 - c0 + 1) * bpc ≤ 80 := by
      rcases hppb with ⟨hc, hb, -⟩ | ⟨hc, hb, -⟩ <;> rw [hb] <;> omega
    obtain ⟨hinside, houtside⟩ := scrollRows_writes (BelowScreen m)
      (gfxSpan (c0 * bpc) ((lastCol (vcols m) c1 - c0 + 1) * bpc))
      (fun _ _ => gfxFill (vmode m) attr) (fun dst src a => a + src * 320 - dst * 320)
      (fun dst src clear => scrollGfxRow dst src clear (gfxFill (vmode m) attr) bpc c0
        (lastCol (vcols m) c1)) up
      (fun m' dst src clear hdst hsrc hm' => scrollGfxRow_writes hm' hdst hsrc hw)
      (fun dst src a _ _ ha => gfxSpan_move ha)
      (fun i j hi hj hij => gfxSpan_disjoint hw hi hj hij)
      (by omega : r0 ≤ lastRow r1) hlast (linesOf_bounds lines r0 r1) (m := m) (fun _ _ => rfl)
    generalize scrollRows up (linesOf lines r0 r1) r0 (lastRow r1)
      (fun dst src clear => scrollGfxRow dst src clear (gfxFill (vmode m) attr) bpc c0
        (lastCol (vcols m) c1)) m = m' at *
    have hmemory : ∀ a, (∀ x y, InWindow (vcols m) r0 c0 r1 c1 (y / 8) (x / 8) → a ≠ pixelAddr m x y) →
        m' a = m a := by
      intro a ha
      refine houtside a fun row hr hr' hmem => ?_
      obtain ⟨y, hy, hlo, hhi⟩ := hmem
      have hoff : ∃ k, a = gfxLine (row * 8 + y) + k ∧ c0 * bpc ≤ k ∧
          k < c0 * bpc + (lastCol (vcols m) c1 - c0 + 1) * bpc := ⟨a - gfxLine (row * 8 + y), by omega⟩
      obtain ⟨k, rfl, hk, hk'⟩ := hoff
      rcases hppb with ⟨hc, rfl, hp⟩ | ⟨hc, rfl, hp⟩
      · refine ha (k * 8) (row * 8 + y) ?_ ?_
        · rw [inWindow_iff hcols]
          omega
        · rw [pixelAddr, hp]
          omega
      · refine ha (k * 4) (row * 8 + y) ?_ ?_
        · rw [inWindow_iff hcols]
          omega
        · rw [pixelAddr, hp]
          omega
    have hbelow : BelowScreen m m' := by
      intro a ha
      refine hmemory a fun x y _ => ?_
      have hlow : vramBase ≤ pixelAddr m x y := by
        rw [pixelAddr, gfxLine, Nat.add_assoc, Nat.add_assoc]
        exact Nat.le_add_right _ _
      omega
    have hmode : vmode m' = vmode m := by
      rw [vmode, vmode, rb_of_lt _ (by decide), rb_of_lt _ (by decide)]
      exact hbelow _ (by decide)
    have hline : ∀ y, gfxLine y = gfxLine (y % 8) + y / 8 * 320 := by
      intro y
      have hrow := gfxLine_row (y / 8) (y % 8)
      rwa [show y / 8 * 8 + y % 8 = y by omega] at hrow
    have hbyte : ∀ x y, x < vcols m * 8 → y < 200 → gfxLine y ≤ pixelAddr m x y ∧
        pixelAddr m x y < gfxLine y + 80 ∧ pixelAddr m x y < 0x100000 := by
      intro x y hx hy
      have hhigh : gfxLine y ≤ 0xBC000 := by
        simp only [gfxLine]
        omega
      rw [pixelAddr]
      rcases hppb with ⟨hc, -, hp⟩ | ⟨hc, -, hp⟩ <;> rw [hc] at hx <;> rw [hp] <;> omega
    refine ⟨fun x y hin => ?_, fun x y hx hy hout => ?_, hmemory⟩
    · have hwhere := (inWindow_iff hcols).mp hin
      have hrow : y / 8 ≤ 24 := hin.2.2.1
      have hcol' : x / 8 < vcols m := hin.2.2.2.2.2
      have haddr := hbyte x y (by omega) (by omega)
      have hmem : pixelAddr m x y ∈
          gfxSpan (c0 * bpc) ((lastCol (vcols m) c1 - c0 + 1) * bpc) (y / 8) := by
        refine ⟨y % 8, Nat.mod_lt _ (by decide), ?_⟩
        rw [show y / 8 * 8 + y % 8 = y by omega, pixelAddr]
        rcases hppb with ⟨hc, hb, hp⟩ | ⟨hc, hb, hp⟩ <;> rw [hb, hp] <;> omega
      have hvalue := hinside (y / 8) hwhere.1.1 hwhere.1.2 _ hmem
      rw [scrolledFrom]
      cases hsource : sourceOf up (linesOf lines r0 r1) r0 (lastRow r1) (y / 8) with
      | none =>
          rw [hsource] at hvalue
          exact pixel_of_fill hmode ((rb_of_lt _ haddr.2.2).trans hvalue)
      | some src =>
          have hsrc := sourceOf_le hsource hwhere.1.2
          rw [hsource] at hvalue
          have haddr' := hbyte x (src * 8 + y % 8) (by omega) (by omega)
          refine pixel_of_byte hmode ?_ rfl
          rw [rb_of_lt _ haddr.2.2, rb_of_lt _ haddr'.2.2, hvalue]
          refine congrArg m ?_
          rw [pixelAddr, pixelAddr, gfxLine_row, hline y]
          generalize x / (if vmode m = 6 then 8 else 4) = b
          omega
    · have haddr := hbyte x y hx hy
      refine pixel_of_byte hmode ?_ rfl
      rw [rb_of_lt _ haddr.2.2, rb_of_lt _ haddr.2.2]
      refine hmemory _ fun x₂ y₂ hin hmeet => hout ?_
      have hrow₂ : y₂ / 8 ≤ 24 := hin.2.2.1
      have hcol₂ : x₂ / 8 < vcols m := hin.2.2.2.2.2
      have haddr₂ := hbyte x₂ y₂ (by omega) (by omega)
      have hon : gfxLine (y / 8 * 8 + y % 8) + 0 ≤ pixelAddr m x y ∧
          pixelAddr m x y < gfxLine (y / 8 * 8 + y % 8) + 0 + 80 := by
        rw [show y / 8 * 8 + y % 8 = y by omega]
        omega
      have hon₂ : gfxLine (y₂ / 8 * 8 + y₂ % 8) + 0 ≤ pixelAddr m x y ∧
          pixelAddr m x y < gfxLine (y₂ / 8 * 8 + y₂ % 8) + 0 + 80 := by
        rw [show y₂ / 8 * 8 + y₂ % 8 = y₂ by omega, hmeet]
        omega
      have hsame := gfxLine_unique (by decide) (by omega) hrow₂ (Nat.mod_lt _ (by decide))
        (Nat.mod_lt _ (by decide)) hon hon₂
      obtain rfl : y = y₂ := by omega
      have hx₂ : x / 8 = x₂ / 8 := by
        rw [pixelAddr, pixelAddr] at hmeet
        rcases hppb with ⟨-, -, hp⟩ | ⟨-, -, hp⟩ <;> rw [hp] at hmeet <;> omega
      rwa [hx₂]

end Windows

/-! ### Setting a mode -/

section SetMode

variable {al : UInt8} {m : Mem}

theorem rw_ww (m : Mem) {a : Nat} (ha : a + 1 < 0x100000) (v : UInt16) : rw (ww m a v) a = v := by
  have hlo : rb (ww m a v) a = v.toUInt8 := by
    rw [rb_of_lt _ (by omega), ww, wb, wb, Nat.mod_eq_of_lt ha, Nat.mod_eq_of_lt (by omega),
      Function.update_of_ne (by omega), Function.update_self]
  have hhi : rb (ww m a v) (a + 1) = (v >>> 8).toUInt8 := by
    rw [rb_of_lt _ (by omega), ww, wb, Nat.mod_eq_of_lt ha, Function.update_self]
  have height : UInt16.toNat 8 % 16 = 8 := rfl
  have hlt := v.toNat_lt
  apply UInt16.toNat_inj.mp
  rw [rw, hlo, hhi, word_toNat, UInt16.toNat_toUInt8, UInt16.toNat_toUInt8, UInt16.toNat_shiftRight,
    height, Nat.shiftRight_eq_div_pow]
  omega

/-- The bytes by which the mode of the screen is known. -/
def ModeByte (a : Nat) : Prop := 0x449 ≤ a ∧ a ≤ 0x44D

theorem SetBy.of_bytes {m' : Mem} (h : SetBy al m) (hkeep : ∀ a, ModeByte a → rb m' a = rb m a) :
    SetBy al m' := by
  refine ⟨(hkeep _ ⟨by decide, by decide⟩).trans h.mode, (hkeep _ ⟨by decide, by decide⟩).trans h.cols, ?_⟩
  rw [rw, hkeep _ ⟨by decide, by decide⟩, hkeep _ ⟨by decide, by decide⟩]
  exact h.pageSize

theorem SetBy.wb (h : SetBy al m) {a : Nat} (ha : a < 0x100000) (hother : ¬ ModeByte a) (v : UInt8) :
    SetBy al (wb m a v) := by
  refine h.of_bytes fun b hb => ?_
  have hne : b ≠ a := fun heq => hother (heq ▸ hb)
  obtain ⟨hlo, hhi⟩ := hb
  rw [rb_of_lt _ (by omega), rb_of_lt _ (by omega), Gwb.wb, Nat.mod_eq_of_lt ha]
  exact Function.update_of_ne hne _ _

theorem SetBy.ww (h : SetBy al m) {a : Nat} (ha : a + 1 < 0x100000) (hother : ¬ ModeByte a)
    (hother' : ¬ ModeByte (a + 1)) (v : UInt16) : SetBy al (ww m a v) :=
  (h.wb (by omega) hother _).wb ha hother' _

theorem SetBy.clearScreen (h : SetBy al m) (mode : UInt8) : SetBy al (clearScreen m mode) := by
  have hbase : vramBase = 0xB8000 := rfl
  rw [Gwb.clearScreen]
  split_ifs
  · have hcells : SetBy al (Machine.run (fun m i => Gwb.ww m (vramBase + 2 * i) 0x0720) m
        (List.range (vramBytes / 2))) := by
      refine Machine.run_inv_of_forall (fun m i hi hm => ?_) h fun i hi => List.mem_range.mp hi
      have hbytes : vramBytes = 0x4000 := rfl
      refine hm.ww (by omega) ?_ ?_ _
      · rw [ModeByte]
        omega
      · rw [ModeByte]
        omega
    exact hcells
  · refine h.of_bytes fun b hb => ?_
    obtain ⟨hlo, hhi⟩ := hb
    rw [rb_of_lt _ (by omega), rb_of_lt _ (by omega)]
    exact if_neg (by omega)

theorem enterMode_setBy (m : Mem) (al : UInt8) : SetBy al (enterMode m (modeOf al)) := by
  have hnot : ∀ a, 0x44D < a → ¬ ModeByte a := fun a ha h => by
    have hhi := h.2
    omega
  have hstart : SetBy al (Gwb.ww (Gwb.wb (Gwb.wb m (bda + 0x49) (modeOf al)) (bda + 0x4A) (colsOf (modeOf al)))
      (bda + 0x4C) (pageSizeOf (modeOf al))) := ⟨rfl, rfl, rw_ww _ (by decide) _⟩
  have hpage := hstart.ww (a := bda + 0x4E) (by decide) (hnot _ (by decide)) (hnot _ (by decide)) 0
  have hcursors : SetBy al (Machine.run (fun m i => Gwb.wb m (bda + 0x50 + i) 0)
      (Gwb.ww (Gwb.ww (Gwb.wb (Gwb.wb m (bda + 0x49) (modeOf al)) (bda + 0x4A) (colsOf (modeOf al)))
        (bda + 0x4C) (pageSizeOf (modeOf al))) (bda + 0x4E) 0) (List.range 16)) := by
    refine Machine.run_inv_of_forall (fun m i hi hm => ?_) hpage fun i hi => List.mem_range.mp hi
    have hbda : bda = 0x400 := rfl
    exact hm.wb (by omega) (hnot _ (by omega)) 0
  have hshape := (hcursors.wb (a := bda + 0x60) (by decide) (hnot _ (by decide)) 7).wb
    (a := bda + 0x61) (by decide) (hnot _ (by decide)) 6
  have hport := (hshape.wb (a := bda + 0x62) (by decide) (hnot _ (by decide)) 0).ww
    (a := bda + 0x63) (by decide) (hnot _ (by decide)) (hnot _ (by decide)) 0x3D4
  have hcontrol := (hport.wb (a := bda + 0x65) (by decide) (hnot _ (by decide))
    (modeControl.getD (modeOf al).toNat 0)).wb (a := bda + 0x66) (by decide) (hnot _ (by decide))
    (if modeOf al = 6 then 0x3F else 0x30)
  exact hcontrol.wb (a := bda + 0x84) (by decide) (hnot _ (by decide)) 24

theorem setMode_setBy (m : Mem) (al : UInt8) : SetBy al (setMode m al) := by
  rw [setMode]
  split_ifs
  · exact (enterMode_setBy m al).clearScreen _
  · exact enterMode_setBy m al

end SetMode

/-- Wherever the machine stands since a mode was set, a scroll moves the rows of the window, clears those
that are left, and touches nothing else. -/
theorem scroll_window {al : UInt8} {m : Mem} (h : SetBy al m) (up : Bool) (lines : Nat) (attr : UInt8)
    (r0 c0 r1 c1 : Nat) :
    (vtext m = true → ScrolledText m (scroll m up lines attr r0 c0 r1 c1) (rb m (bda + 0x62)).toNat
        (scrolledFrom up lines r0 r1) attr (InWindow (vcols m) r0 c0 r1 c1)) ∧
      (vtext m = false → ScrolledPicture m (scroll m up lines attr r0 c0 r1 c1) (scrolledFrom up lines r0 r1)
        (fillPixel (vmode m) attr) (InWindow (vcols m) r0 c0 r1 c1)) :=
  ⟨scroll_text h, scroll_picture h⟩

/-- A picture of mode 4, a window of which is scrolled down by one line. -/
def picture : Mem := setMode (fun _ => 0) 4

theorem scroll_window_picture :
    (vtext picture = true → ScrolledText picture (scroll picture false 1 2 5 10 20 30)
        (rb picture (bda + 0x62)).toNat (scrolledFrom false 1 5 20) 2
        (InWindow (vcols picture) 5 10 20 30)) ∧
      (vtext picture = false → ScrolledPicture picture (scroll picture false 1 2 5 10 20 30)
        (scrolledFrom false 1 5 20) (fillPixel (vmode picture) 2)
        (InWindow (vcols picture) 5 10 20 30)) :=
  scroll_window (setMode_setBy (fun _ => 0) 4) false 1 2 5 10 20 30

end UnicornSuite.Gwb
