import UnicornSuite.MinitelRender
import UnicornSuite.MinitelDecode

/-! The serial attributes of the Minitel. The scan of a row carries the zone from cell to cell; the zone a cell is
painted in is read off the cells on its left (`zone_eq`): the paper is that of the nearest delimiter or mosaic,
the masking that of the nearest delimiter up to the cell itself, the lining that of the nearest delimiter
or mosaic. The raster is painted with it (`renderBgra_cell`). Writing over a delimiter changes the zones
of the cells up to the next delimiter only. -/

namespace UnicornSuite.Minitel

open Latest

/-! ### Attributes of a cell -/

namespace Cell

/-- The paper for what follows. -/
def paper? (c : Cell) : Option Nat := if c.kind = .alpha then none else some c.bg

def mask? (c : Cell) : Option Bool := if c.kind = .delim then some c.flags.zmask else none

/-- A mosaic ends the lining. -/
def ul? (c : Cell) : Option Bool :=
  match c.kind with
  | .delim => some c.flags.zunder
  | .mosaic => some false
  | .alpha => none

end Cell

/-- The zone at the end of a row of cells, in closed form. -/
def zoneOf (l : List Cell) : Zone :=
  ⟨(last? Cell.paper? l).getD black, (last? Cell.mask? l).getD false, (last? Cell.ul? l).getD false⟩

/-- The cells of a row on the left of a column. -/
def leftOf (d : Screen) (row col : Int) : List Cell :=
  (List.range (col - 1).toNat).map fun (k : Nat) => cell d row ((k : Int) + 1)

/-- The zone of a column, in closed form. -/
def zone (d : Screen) (row col : Int) : Zone :=
  { zoneOf (leftOf d row col) with
    mask := (last? Cell.mask? (leftOf d row col ++ [cell d row col])).getD false }

/-! ### The scan -/

def scan (z : Zone) (c : Cell) : Zone := closeZone (openZone z c) c

theorem scan_bg (z : Zone) (c : Cell) : (scan z c).bg = c.paper?.getD z.bg := by
  rw [scan, openZone, closeZone, Cell.paper?]
  cases h : c.kind <;> rfl

theorem scan_mask (z : Zone) (c : Cell) : (scan z c).mask = c.mask?.getD z.mask := by
  rw [scan, openZone, closeZone, Cell.mask?]
  cases h : c.kind <;> rfl

theorem scan_ul (z : Zone) (c : Cell) : (scan z c).ul = c.ul?.getD z.ul := by
  rw [scan, openZone, closeZone, Cell.ul?]
  cases h : c.kind <;> rfl

/-- The running state of the scan is the closed form. -/
theorem run_scan (l : List Cell) : Machine.run scan {} l = zoneOf l := by
  have hbg := run_latest Zone.bg scan_bg {} l
  have hmask := run_latest Zone.mask scan_mask {} l
  have hul := run_latest Zone.ul scan_ul {} l
  rw [zoneOf, ← hbg, ← hmask, ← hul]

theorem zoneOf_concat (l : List Cell) (c : Cell) : zoneOf (l ++ [c]) = scan (zoneOf l) c := by
  rw [← run_scan, ← run_scan, Machine.run_append, Machine.run_cons, Machine.run_nil]

theorem leftOf_succ (d : Screen) (row : Int) {col : Int} (hcol : 1 ≤ col) :
    leftOf d row (col + 1) = leftOf d row col ++ [cell d row col] := by
  obtain ⟨n, rfl⟩ : ∃ n : Nat, col = n + 1 := ⟨(col - 1).toNat, by omega⟩
  have hnext : ((n : Int) + 1 + 1 - 1).toNat = n + 1 := by omega
  have hhere : ((n : Int) + 1 - 1).toNat = n := by omega
  rw [leftOf, leftOf, hnext, hhere, List.range_succ, List.map_append, List.map_singleton]

/-- A cell is painted the same in the zone the scan has opened and in the closed form: neither a mosaic
nor a delimiter looks at the paper and the lining of the zone. -/
theorem look_zone (d : Screen) (m : Bool) (row col : Int) :
    look (openZone (zoneOf (leftOf d row col)) (cell d row col)) m (cell d row col) =
      look (zone d row col) m (cell d row col) := by
  rw [zone, last?_concat, Cell.mask?, look, look, openZone]
  cases h : (cell d row col).kind with
  | alpha => rfl
  | mosaic => rfl
  | delim => rfl

theorem cellDot_zone (d : Screen) (o : RenderOpts) (row col : Int) :
    cellDot d o (openZone (zoneOf (leftOf d row col)) (cell d row col)) row col =
      cellDot d o (zone d row col) row col := by
  funext x y
  rw [cellDot, cellDot, cellLook, cellLook, look_zone]

/-! ### The raster -/

theorem raster_mem {i j : Int} : raster.Mem i j ↔ 0 ≤ i ∧ i < 250 ∧ 0 ≤ j ∧ j < 320 := Iff.rfl

/-- The dot of the raster at line `i` and column `j`, painted in the zone of its cell. -/
def pageDot (d : Screen) (o : RenderOpts) (i j : Int) : Pixel :=
  let row := i / 10
  let col := j / 8 + 1
  pixelOf (cellDot d o (zone d row col) row col (j % 8).toNat (i % 10).toNat)

theorem pageDot_cell (d : Screen) (o : RenderOpts) (row col : Int) {x y : Nat} (hx : x < 8) (hy : y < 10) :
    pageDot d o (row * 10 + y) ((col - 1) * 8 + x) =
      pixelOf (cellDot d o (zone d row col) row col x y) := by
  have hrow : (row * 10 + y) / 10 = row := by omega
  have hcol : ((col - 1) * 8 + x) / 8 + 1 = col := by omega
  have hxx : (((col - 1) * 8 + x) % 8).toNat = x := by omega
  have hyy : ((row * 10 + y) % 10).toNat = y := by omega
  rw [pageDot, hrow, hcol, hxx, hyy]

theorem paintCell_eq (d : Screen) (o : RenderOpts) (z : Zone) {row col : Int} (out : Grid Pixel)
    (hrow : 0 ≤ row ∧ row < 25) (hcol : 1 ≤ col ∧ col < 41) :
    paintCell d o z row col out =
      { out with
        cell := fun i j =>
          if row * 10 ≤ i ∧ i < row * 10 + 10 ∧ (col - 1) * 8 ≤ j ∧ j < (col - 1) * 8 + 8 then
            pixelOf (cellDot d o z row col (j - (col - 1) * 8).toNat (i - row * 10).toNat)
          else out.cell i j } := by
  refine Grid.up_block (h := 10) (w := 8) (fun y x => pixelOf (cellDot d o z row col x.toNat y.toNat)) out
    (row * 10) ((col - 1) * 8) (by decide) (by decide) fun i j hi hi' hj hj' => ?_
  exact raster_mem.mpr (by omega)

/-- One column: the zone moves on and the cell is painted in its closed form. -/
theorem renderCell_eq (d : Screen) (o : RenderOpts) {row col : Int} (out : Grid Pixel)
    (hcol : 1 ≤ col) :
    renderCell d o row col (zoneOf (leftOf d row col), out) =
      (zoneOf (leftOf d row (col + 1)), paintCell d o (zone d row col) row col out) := by
  rw [leftOf_succ d row hcol, zoneOf_concat, renderCell, scan, paintCell, paintCell, cellDot_zone]

theorem renderRow_eq (d : Screen) (o : RenderOpts) {row : Int} (out : Grid Pixel) (hrow : 0 ≤ row ∧ row < 25) :
    renderRow d o row out =
      { out with
        cell := fun i j =>
          if row * 10 ≤ i ∧ i < row * 10 + 10 ∧ 0 ≤ j ∧ j < 320 then pageDot d o i j
          else out.cell i j } := by
  rw [renderRow]
  refine congrArg Prod.snd (Loop.up_ind (I := fun col (s : Zone × Grid Pixel) =>
      s = (zoneOf (leftOf d row col),
        { out with
          cell := fun i j =>
            if row * 10 ≤ i ∧ i < row * 10 + 10 ∧ 0 ≤ j ∧ j < (col - 1) * 8 then pageDot d o i j
            else out.cell i j })) (show 1 ≤ cols + 1 by decide) ?_ ?_)
  · rintro col s hlo hhi rfl
    rw [renderCell_eq d o _ hlo, paintCell_eq d o _ _ hrow ⟨hlo, hhi⟩]
    refine congrArg (Prod.mk _) (Grid.ext (fun i j => ?_) rfl)
    dsimp only
    by_cases hnew : row * 10 ≤ i ∧ i < row * 10 + 10 ∧ (col - 1) * 8 ≤ j ∧
        j < (col - 1) * 8 + 8
    · have hi : i / 10 = row := by omega
      have hj : j / 8 + 1 = col := by omega
      have hx : j - (col - 1) * 8 = j % 8 := by omega
      have hy : i - row * 10 = i % 10 := by omega
      rw [if_pos hnew, if_pos (by omega), pageDot, hi, hj, hx, hy]
    · rw [if_neg hnew]
      by_cases hold : row * 10 ≤ i ∧ i < row * 10 + 10 ∧ 0 ≤ j ∧ j < (col - 1) * 8
      · rw [if_pos hold, if_pos (by omega)]
      · rw [if_neg hold, if_neg (by omega)]
  · refine congrArg (Prod.mk _) (Grid.ext (fun i j => ?_) rfl)
    dsimp only
    rw [if_neg (by omega)]

/-- The raster before the state letter. -/
theorem renderRows_eq (d : Screen) (o : RenderOpts) (out : Grid Pixel) :
    Loop.up 0 25 (renderRow d o) out =
      { out with
        cell := fun i j => if raster.Mem i j then pageDot d o i j else out.cell i j } := by
  refine Loop.up_ind (I := fun row g =>
      g = { out with
        cell := fun i j =>
          if 0 ≤ i ∧ i < row * 10 ∧ 0 ≤ j ∧ j < 320 then pageDot d o i j else out.cell i j })
    (show (0 : Int) ≤ 25 by decide) (fun row g hlo hhi hg => ?_) ?_
  · rw [renderRow_eq d o g ⟨hlo, hhi⟩, hg]
    ext i j
    · dsimp only
      by_cases hnew : row * 10 ≤ i ∧ i < row * 10 + 10 ∧ 0 ≤ j ∧ j < 320
      · rw [if_pos hnew, if_pos (by omega)]
      · rw [if_neg hnew]
        by_cases hold : 0 ≤ i ∧ i < row * 10 ∧ 0 ≤ j ∧ j < 320
        · rw [if_pos hold, if_pos (by omega)]
        · rw [if_neg hold, if_neg (by omega)]
    · rfl
  · ext i j
    · dsimp only
      rw [if_neg (by omega)]
    · rfl

/-- The dots of the state letter. -/
def InStatus (status : Nat) (i j : Int) : Prop :=
  status ≠ 0 ∧ 0 ≤ i ∧ i < 10 ∧ 38 * 8 ≤ j ∧ j < 38 * 8 + 8

instance (status : Nat) (i j : Int) : Decidable (InStatus status i j) :=
  inferInstanceAs (Decidable (_ ∧ _ ∧ _ ∧ _ ∧ _))

def statusDot (mono : Bool) (status : Nat) (i j : Int) : Pixel :=
  pixelOf (minitelRgb (if glyphDot status (j - 38 * 8).toNat i.toNat then black else white) mono)

theorem renderStatus_eq (mono : Bool) (status : Nat) (out : Grid Pixel) :
    renderStatus mono status out =
      { out with
        cell := fun i j => if InStatus status i j then statusDot mono status i j else out.cell i j } := by
  by_cases hs : status = 0
  · rw [renderStatus, if_pos hs]
    ext i j
    · dsimp only
      rw [if_neg fun h => h.1 hs]
    · rfl
  · have hblock := Grid.up_block (R := raster) (h := 10) (w := 8)
      (fun y x => pixelOf (minitelRgb (if glyphDot status x.toNat y.toNat then black else white) mono)) out
      0 (38 * 8) (by decide) (by decide) fun i j hi hi' hj hj' => raster_mem.mpr (by omega)
    simp only [Int.zero_add] at hblock
    rw [renderStatus, if_neg hs]
    refine hblock.trans ?_
    ext i j
    · dsimp only
      by_cases hin : InStatus status i j
      · rw [if_pos hin, if_pos (by obtain ⟨-, h⟩ := hin; exact h), statusDot, Int.sub_zero]
      · rw [if_neg hin, if_neg fun h => hin ⟨hs, h⟩]
    · rfl

/-- The raster: the state letter, and each dot else painted in the zone of its cell. -/
theorem renderBgra_cell (d : Screen) (status : Nat) (o : RenderOpts) (out : Grid Pixel) (i j : Int) :
    (renderBgra d status o out).cell i j =
      if InStatus status i j then statusDot o.mono status i j
      else if raster.Mem i j then pageDot d o i j else out.cell i j := by
  rw [renderBgra, renderStatus_eq, renderRows_eq]

/-! ### Overwriting a cell -/

def overwrite (d : Screen) (row col : Int) (c : Cell) : Screen := { d with mem := d.mem.put page row col c }

variable {d : Screen} {row k : Int} {new : Cell}

theorem cell_overwrite (hrow : 0 ≤ row ∧ row ≤ 24) (hk : 1 ≤ k ∧ k ≤ 40) {r c : Int} (hr : 0 ≤ r ∧ r ≤ 24)
    (hc : 1 ≤ c ∧ c ≤ 40) :
    cell (overwrite d row k new) r c = if r = row ∧ c = k then new else cell d r c := by
  have hmem : page.Mem row k := ⟨hrow.1, Int.lt_add_one_of_le hrow.2, hk.1, Int.lt_add_one_of_le hk.2⟩
  have hr0 : ¬ r < 0 := by omega
  have hr1 : ¬ r > 24 := by omega
  have hc0 : ¬ c < 1 := by omega
  have hc1 : ¬ c > cols := not_lt.mpr hc.2
  rw [cell, cell, overwrite, Grid.put, if_pos hmem]
  simp only [if_neg hr0, if_neg hr1, if_neg hc0, if_neg hc1]

/-- The cells between two columns. -/
def between (d : Screen) (row k col : Int) : List Cell :=
  (List.range (col - 1 - k).toNat).map fun (n : Nat) => cell d row (k + 1 + n)

theorem mem_between {col : Int} {c : Cell} :
    c ∈ between d row k col ↔ ∃ j, k < j ∧ j < col ∧ cell d row j = c := by
  rw [between, List.mem_map]
  constructor
  · rintro ⟨n, hn, rfl⟩
    have hlt := List.mem_range.mp hn
    exact ⟨k + 1 + n, by omega, by omega, rfl⟩
  · rintro ⟨j, hlo, hhi, rfl⟩
    refine ⟨(j - k - 1).toNat, List.mem_range.mpr (by omega), ?_⟩
    rw [show k + 1 + ((j - k - 1).toNat : Int) = j by omega]

theorem leftOf_split (d : Screen) (row : Int) {k col : Int} (hk : 1 ≤ k) (hcol : k < col) :
    leftOf d row col = leftOf d row k ++ cell d row k :: between d row k col := by
  obtain ⟨n, rfl⟩ : ∃ n : Nat, col = k + 1 + n := ⟨(col - k - 1).toNat, by omega⟩
  have hlen : (k + 1 + (n : Int) - 1).toNat = (k - 1).toNat + 1 + n := by omega
  have hlen' : (k + 1 + (n : Int) - 1 - k).toNat = n := by omega
  have hhere : (((k - 1).toNat : Nat) : Int) + 1 = k := by omega
  rw [leftOf, leftOf, between, hlen, hlen', List.range_add, List.range_succ, List.map_append, List.map_append,
    List.map_singleton, hhere, List.append_assoc, List.singleton_append, List.map_map]
  congr 2
  refine List.map_congr_left fun n _ => ?_
  rw [Function.comp_apply, show (((k - 1).toNat + 1 + n : Nat) : Int) + 1 = k + 1 + n by omega]

/-- What stands on the left is not touched. -/
theorem leftOf_overwrite (hrow : 0 ≤ row ∧ row ≤ 24) (hk : 1 ≤ k ∧ k ≤ 40) {r c : Int} (hr : 0 ≤ r ∧ r ≤ 24)
    (hc : c ≤ 41) (haway : r ≠ row ∨ c ≤ k) : leftOf (overwrite d row k new) r c = leftOf d r c := by
  rw [leftOf, leftOf]
  refine List.map_congr_left fun n hn => ?_
  have hlt := List.mem_range.mp hn
  rw [cell_overwrite hrow hk hr ⟨by omega, by omega⟩, if_neg (by omega)]

theorem between_overwrite (hrow : 0 ≤ row ∧ row ≤ 24) (hk : 1 ≤ k ∧ k ≤ 40) {c : Int} (hc : c ≤ 41) :
    between (overwrite d row k new) row k c = between d row k c := by
  rw [between, between]
  refine List.map_congr_left fun n hn => ?_
  have hlt := List.mem_range.mp hn
  rw [cell_overwrite hrow hk hrow ⟨by omega, by omega⟩, if_neg (by omega)]

theorem leftOf_overwritten (hrow : 0 ≤ row ∧ row ≤ 24) (hk : 1 ≤ k ∧ k ≤ 40) {c : Int} (hc : k < c ∧ c ≤ 41) :
    leftOf (overwrite d row k new) row c = leftOf d row k ++ new :: between d row k c := by
  rw [leftOf_split _ row hk.1 hc.1, leftOf_overwrite hrow hk hrow (by omega) (Or.inr (le_refl k)),
    between_overwrite hrow hk hc.2, cell_overwrite hrow hk hrow hk, if_pos ⟨rfl, rfl⟩]

/-! ### Zones behind an overwritten cell -/

theorem paper?_ne_none {c : Cell} (h : c.kind ≠ .alpha) : c.paper? ≠ none := by
  rw [Cell.paper?, if_neg h]
  exact Option.some_ne_none _

theorem ul?_ne_none {c : Cell} (h : c.kind ≠ .alpha) : c.ul? ≠ none := by
  rw [Cell.ul?]
  cases hkind : c.kind with
  | alpha => exact absurd hkind h
  | mosaic => exact Option.some_ne_none _
  | delim => exact Option.some_ne_none _

theorem mask?_eq_none {c : Cell} (h : c.kind ≠ .delim) : c.mask? = none := by
  rw [Cell.mask?, if_neg h]

theorem mask?_ne_none {c : Cell} (h : c.kind = .delim) : c.mask? ≠ none := by
  rw [Cell.mask?, if_pos h]
  exact Option.some_ne_none _

/-- Characters keep the zone. -/
theorem zoneOf_alphas {b : List Cell} (hb : ∀ c ∈ b, c.kind = .alpha) (l : List Cell) :
    zoneOf (l ++ b) = zoneOf l := by
  have hpaper : ∀ c ∈ b, c.paper? = none := fun c hc => by rw [Cell.paper?, if_pos (hb c hc)]
  have hmask : ∀ c ∈ b, c.mask? = none := fun c hc => by rw [Cell.mask?, hb c hc, if_neg (by decide)]
  have hul : ∀ c ∈ b, c.ul? = none := fun c hc => by rw [Cell.ul?, hb c hc]
  rw [zoneOf, zoneOf, last?_append_of_none hpaper, last?_append_of_none hmask, last?_append_of_none hul]

/-- Nor does the masking end before a delimiter. -/
theorem zoneOf_mask {b : List Cell} (hb : ∀ c ∈ b, c.kind ≠ .delim) (l : List Cell) :
    (zoneOf (l ++ b)).mask = (zoneOf l).mask := by
  rw [zoneOf, zoneOf, last?_append_of_none fun c hc => mask?_eq_none (hb c hc)]

/-- Behind a mosaic or a delimiter the paper and the lining do not depend on what stands before it. -/
theorem zoneOf_bg_ul {b : List Cell} {c : Cell} (hc : c ∈ b) (hkind : c.kind ≠ .alpha) (l l' : List Cell) :
    (zoneOf (l ++ b)).bg = (zoneOf (l' ++ b)).bg ∧ (zoneOf (l ++ b)).ul = (zoneOf (l' ++ b)).ul := by
  rw [zoneOf, zoneOf]
  dsimp only
  rw [last?_append_of_some hc (paper?_ne_none hkind) l l', last?_append_of_some hc (ul?_ne_none hkind) l l']
  exact ⟨rfl, rfl⟩

/-- Behind a delimiter nothing of the zone does. -/
theorem zoneOf_delim {b : List Cell} {c : Cell} (hc : c ∈ b) (hkind : c.kind = .delim) (l l' : List Cell) :
    zoneOf (l ++ b) = zoneOf (l' ++ b) := by
  have hne : c.kind ≠ .alpha := by rw [hkind]; decide
  rw [zoneOf, zoneOf, last?_append_of_some hc (paper?_ne_none hne) l l',
    last?_append_of_some hc (mask?_ne_none hkind) l l', last?_append_of_some hc (ul?_ne_none hne) l l']

/-- The masking of a cell that is no delimiter is that of the cells on its left. -/
theorem zone_of_not_delim {d : Screen} {row col : Int} (h : (cell d row col).kind ≠ .delim) :
    zone d row col = zoneOf (leftOf d row col) := by
  rw [zone, last?_concat, mask?_eq_none h, Option.none_or]
  rfl

/-! ### The law of the serial attributes -/

/-- Behind the next delimiter the zone is as it was, and so is the delimiter itself. -/
theorem look_overwrite (hrow : 0 ≤ row ∧ row ≤ 24) (hk : 1 ≤ k ∧ k ≤ 40) {r c : Int} (hr : 0 ≤ r ∧ r ≤ 24)
    (hc : 1 ≤ c ∧ c ≤ 40)
    (haway : r ≠ row ∨ c < k ∨ ∃ m, k < m ∧ m ≤ c ∧ (cell d row m).kind = .delim) (m : Bool) :
    look (zone (overwrite d row k new) r c) m (cell d r c) = look (zone d r c) m (cell d r c) := by
  by_cases hleft : r ≠ row ∨ c < k
  · have hcell : cell (overwrite d row k new) r c = cell d r c := by
      rw [cell_overwrite hrow hk hr hc, if_neg (by omega)]
    rw [zone, zone, hcell, leftOf_overwrite hrow hk hr (by omega) (by omega)]
  · obtain ⟨rfl, hle⟩ : r = row ∧ k ≤ c := by omega
    obtain ⟨j, hj, hjc, hdelim⟩ : ∃ m, k < m ∧ m ≤ c ∧ (cell d r m).kind = .delim := by
      rcases haway with h | h | h
      · exact absurd rfl h
      · exact absurd hle (by omega)
      · exact h
    have hcell : cell (overwrite d r k new) r c = cell d r c := by
      rw [cell_overwrite hrow hk hr hc, if_neg (by omega)]
    have hbefore : leftOf (overwrite d r k new) r c = leftOf d r k ++ [new] ++ between d r k c := by
      rw [leftOf_overwritten hrow hk (by omega), List.append_assoc, List.singleton_append]
    have hwas : leftOf d r c = leftOf d r k ++ [cell d r k] ++ between d r k c := by
      rw [leftOf_split d r hk.1 (by omega), List.append_assoc, List.singleton_append]
    rcases Int.lt_or_eq_of_le hjc with hlt | rfl
    · have hmem : cell d r j ∈ between d r k c := mem_between.mpr ⟨j, hj, hlt, rfl⟩
      have hsame : zoneOf (leftOf (overwrite d r k new) r c) = zoneOf (leftOf d r c) := by
        rw [hbefore, hwas]
        exact zoneOf_delim hmem hdelim _ _
      have hmask : (zoneOf (leftOf (overwrite d r k new) r c)).mask = (zoneOf (leftOf d r c)).mask := by
        rw [hsame]
      rw [zone, zone, hcell, last?_concat, last?_concat, hsame]
      cases (cell d r c).mask? with
      | some v => rfl
      | none =>
          simp only [Option.none_or]
          exact congrArg (fun b => look { zoneOf (leftOf d r c) with mask := b } m (cell d r c)) hmask
    · -- the delimiter looks at nothing but the masking, and that is its own
      rw [zone, zone, hcell, last?_concat, last?_concat, Cell.mask?, if_pos hdelim, look, look, hdelim]
      rfl

theorem cellDot_overwrite {z z' : Zone} {o : RenderOpts} {r c : Int}
    (hcell : cell (overwrite d row k new) r c = cell d r c)
    (hlook : look z' d.screenMask (cell d r c) = look z d.screenMask (cell d r c)) :
    cellDot (overwrite d row k new) o z' r c = cellDot d o z r c := by
  have hshown : cellLook (overwrite d row k new) o z' r c = cellLook d o z r c := by
    rw [cellLook, cellLook, hcell, ← hlook]
    rfl
  funext x y
  rw [cellDot, cellDot, hshown, hcell]

/-- A dot outside of the zone that has changed. -/
theorem renderBgra_overwrite (hrow : 0 ≤ row ∧ row ≤ 24) (hk : 1 ≤ k ∧ k ≤ 40) (status : Nat) (o : RenderOpts)
    (out : Grid Pixel) {i j : Int}
    (haway : i / 10 ≠ row ∨ j / 8 + 1 < k ∨ ∃ m, k < m ∧ m ≤ j / 8 + 1 ∧ (cell d row m).kind = .delim) :
    (renderBgra (overwrite d row k new) status o out).cell i j = (renderBgra d status o out).cell i j := by
  rw [renderBgra_cell, renderBgra_cell]
  by_cases hmem : raster.Mem i j
  · obtain ⟨hi, hi', hj, hj'⟩ := raster_mem.mp hmem
    have hr : 0 ≤ i / 10 ∧ i / 10 ≤ 24 := by omega
    have hc : 1 ≤ j / 8 + 1 ∧ j / 8 + 1 ≤ 40 := by omega
    have hcell : cell (overwrite d row k new) (i / 10) (j / 8 + 1) = cell d (i / 10) (j / 8 + 1) := by
      rw [cell_overwrite hrow hk hr hc, if_neg]
      rintro ⟨hir, hjk⟩
      rcases haway with h | h | ⟨m, hm, hmj, -⟩
      · exact h hir
      · omega
      · omega
    have hdot : pageDot (overwrite d row k new) o i j = pageDot d o i j := by
      rw [pageDot, pageDot, cellDot_overwrite hcell (look_overwrite hrow hk hr hc haway _)]
    rw [hdot]
  · rw [if_neg hmem, if_neg hmem]

/-- The cell that has been overwritten lies in the zone on its left. -/
theorem zone_overwritten (hrow : 0 ≤ row ∧ row ≤ 24) (hk : 1 ≤ k ∧ k ≤ 40) (hnew : new.kind ≠ .delim) :
    zone (overwrite d row k new) row k = zoneOf (leftOf d row k) := by
  have hcell : cell (overwrite d row k new) row k = new := by
    rw [cell_overwrite hrow hk hrow hk, if_pos ⟨rfl, rfl⟩]
  rw [zone_of_not_delim (by rwa [hcell]), leftOf_overwrite hrow hk hrow (by omega) (Or.inr (le_refl k))]

section Behind

variable {c : Int} (hrow : 0 ≤ row ∧ row ≤ 24) (hk : 1 ≤ k ∧ k ≤ 40) (hc : k < c ∧ c ≤ 40)
  (hzone : ∀ j, k < j → j ≤ c → (cell d row j).kind ≠ .delim)

include hrow hk hc hzone

theorem zone_behind :
    zone (overwrite d row k new) row c = zoneOf (leftOf d row k ++ [new] ++ between d row k c) := by
  have hcell : cell (overwrite d row k new) row c = cell d row c := by
    rw [cell_overwrite hrow hk hrow ⟨by omega, hc.2⟩, if_neg (by omega)]
  have hdelim : (cell (overwrite d row k new) row c).kind ≠ .delim := by
    rw [hcell]
    exact hzone c hc.1 (le_refl c)
  rw [zone_of_not_delim hdelim, leftOf_overwritten hrow hk ⟨hc.1, by omega⟩, List.append_assoc,
    List.singleton_append]

/-- The masking is that of the zone on the left. -/
theorem mask_behind (hnew : new.kind ≠ .delim) :
    (zone (overwrite d row k new) row c).mask = (zoneOf (leftOf d row k)).mask := by
  have hnone : ∀ x ∈ [new] ++ between d row k c, x.kind ≠ .delim := by
    intro x hx
    rcases List.mem_append.mp hx with h | h
    · obtain rfl := List.mem_singleton.mp h
      exact hnew
    · obtain ⟨j, hj, hjc, rfl⟩ := mem_between.mp h
      exact hzone j hj hjc.le
  rw [zone_behind hrow hk hc hzone, List.append_assoc, zoneOf_mask hnone]

/-- Up to the next mosaic everything is as the cell that has been written leaves it. -/
theorem zone_behind_alphas (halpha : ∀ j, k < j → j < c → (cell d row j).kind = .alpha) :
    zone (overwrite d row k new) row c = scan (zoneOf (leftOf d row k)) new := by
  have hall : ∀ x ∈ between d row k c, x.kind = .alpha := by
    intro x hx
    obtain ⟨j, hj, hjc, rfl⟩ := mem_between.mp hx
    exact halpha j hj hjc
  rw [zone_behind hrow hk hc hzone, zoneOf_alphas hall, zoneOf_concat]

/-- Behind a mosaic the paper and the lining stay. -/
theorem zone_behind_mosaic (hmosaic : ∃ j, k < j ∧ j < c ∧ (cell d row j).kind = .mosaic) :
    (zone (overwrite d row k new) row c).bg = (zone d row c).bg ∧
      (zone (overwrite d row k new) row c).ul = (zone d row c).ul := by
  obtain ⟨j, hj, hjc, hkind⟩ := hmosaic
  have hmem : cell d row j ∈ between d row k c := mem_between.mpr ⟨j, hj, hjc, rfl⟩
  have hwas : zone d row c = zoneOf (leftOf d row k ++ [cell d row k] ++ between d row k c) := by
    rw [zone_of_not_delim (hzone c hc.1 (le_refl c)), leftOf_split d row hk.1 hc.1, List.append_assoc,
      List.singleton_append]
  rw [zone_behind hrow hk hc hzone, hwas]
  exact zoneOf_bg_ul hmem (by rw [hkind]; decide) _ _

end Behind

/-- The raster shows each cell in the zone read off the cells on its left. Where a delimiter is overwritten with
another cell, that cell lies in the zone on the left; the cells up to the next delimiter take the masking of that
zone, and up to the next mosaic its paper and lining too, as far as the new cell is no mosaic itself; behind a
mosaic the paper and the lining stay; and no other dot changes. -/
theorem serial_attributes (d : Screen) (status : Nat) (o : RenderOpts) (out : Grid Pixel) (row : Int)
    (hrow : 0 ≤ row ∧ row ≤ 24) :
    (∀ (c : Int) (x y : Nat), 1 ≤ c ∧ c ≤ 40 → x < 8 → y < 10 →
      ¬ InStatus status (row * 10 + y) ((c - 1) * 8 + x) →
      (renderBgra d status o out).cell (row * 10 + y) ((c - 1) * 8 + x) =
        pixelOf (cellDot d o (zone d row c) row c x y)) ∧
    (∀ (k : Int) (new : Cell), 1 ≤ k ∧ k ≤ 40 → (cell d row k).kind = .delim → new.kind ≠ .delim →
      zone (overwrite d row k new) row k = zoneOf (leftOf d row k) ∧
      (∀ c, k < c ∧ c ≤ 40 → (∀ j, k < j → j ≤ c → (cell d row j).kind ≠ .delim) →
        (zone (overwrite d row k new) row c).mask = (zoneOf (leftOf d row k)).mask ∧
        ((∀ j, k < j → j < c → (cell d row j).kind = .alpha) →
          zone (overwrite d row k new) row c = closeZone (zoneOf (leftOf d row k)) new) ∧
        ((∃ j, k < j ∧ j < c ∧ (cell d row j).kind = .mosaic) →
          (zone (overwrite d row k new) row c).bg = (zone d row c).bg ∧
          (zone (overwrite d row k new) row c).ul = (zone d row c).ul)) ∧
      ∀ i j, i / 10 ≠ row ∨ j / 8 + 1 < k ∨ (∃ m, k < m ∧ m ≤ j / 8 + 1 ∧ (cell d row m).kind = .delim) →
        (renderBgra (overwrite d row k new) status o out).cell i j = (renderBgra d status o out).cell i j) := by
  refine ⟨fun c x y hc hx hy hstatus => ?_, fun k new hk _ hnew => ⟨?_, fun c hc hzone => ⟨?_, ?_, ?_⟩, ?_⟩⟩
  · rw [renderBgra_cell, if_neg hstatus, if_pos (raster_mem.mpr (by omega)), pageDot_cell d o row c hx hy]
  · exact zone_overwritten hrow hk hnew
  · exact mask_behind hrow hk hc hzone hnew
  · intro halpha
    rw [zone_behind_alphas hrow hk hc hzone halpha, scan, openZone]
    cases h : new.kind with
    | delim => exact absurd h hnew
    | alpha => rfl
    | mosaic => rfl
  · exact zone_behind_mosaic hrow hk hc hzone
  · exact fun i j haway => renderBgra_overwrite hrow hk status o out haway

/-- A blue delimiter, a mosaic on red paper and an `A`. -/
def legend : Screen := (feed reset [0x1B, 0x54, 0x20, 0x0E, 0x1B, 0x51, 0x21, 0x0F, 0x41]).scr

/-- The `X` written over the delimiter of `legend` lies on black, and the masking is off up to the end of the row. -/
theorem serial_attributes_legend :
    zone (overwrite legend 1 1 (alphaCell attrDefault 0x58)) 1 1 = {} ∧
      (zone (overwrite legend 1 1 (alphaCell attrDefault 0x58)) 1 3).mask = false := by
  have hlaw := ((serial_attributes legend 0 ⟨false, false, false⟩ (Grid.const ⟨0, 0, 0, 0⟩) 1
    ⟨by decide, by decide⟩).2 1 (alphaCell attrDefault 0x58) ⟨by decide, by decide⟩ (by decide)
    (by decide))
  refine ⟨hlaw.1, ?_⟩
  have hzone : ∀ j, 1 < j → j ≤ 3 → (cell legend 1 j).kind ≠ .delim := by
    intro j hj hj'
    obtain rfl | rfl : j = 2 ∨ j = 3 := by omega
    · decide
    · decide
  exact (hlaw.2.1 3 ⟨by decide, by decide⟩ hzone).1

/-- When an `X` is written over the delimiter of `legend`, the `A` keeps the red paper of the mosaic between them,
and does not go to the black of the zone on the left. -/
theorem serial_attributes_mosaic :
    ¬ ∀ (d : Screen) (o : RenderOpts) (out : Grid Pixel) (row k c : Int) (new : Cell) (x y : Nat),
      0 ≤ row ∧ row ≤ 24 → 1 ≤ k ∧ k ≤ c ∧ c ≤ 40 → (cell d row k).kind = .delim → new.kind ≠ .delim →
      (∀ j, k < j → j ≤ c → (cell d row j).kind ≠ .delim) → x < 8 → y < 10 →
      (renderBgra (overwrite d row k new) 0 o out).cell (row * 10 + y) ((c - 1) * 8 + x) =
        pixelOf (cellDot (overwrite d row k new) o (zoneOf (leftOf d row k)) row c x y) := by
  intro hclaim
  have hzone : ∀ j, 1 < j → j ≤ 3 → (cell legend 1 j).kind ≠ .delim := by
    intro j hj hj'
    obtain rfl | rfl : j = 2 ∨ j = 3 := by omega
    · decide
    · decide
  have hpaper := hclaim legend ⟨false, false, false⟩ (Grid.const ⟨0, 0, 0, 0⟩) 1 1 3 (alphaCell attrDefault 0x58)
    0 0 ⟨by decide, by decide⟩ ⟨by decide, by decide, by decide⟩ (by decide) (by decide) hzone
    (by decide) (by decide)
  rw [renderBgra_cell, if_neg (by decide), if_pos (by decide)] at hpaper
  revert hpaper
  decide

end UnicornSuite.Minitel
