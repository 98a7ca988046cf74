import UnicornSuite.LibRun
import Mathlib.Data.Set.Lattice
import Mathlib.Order.Bounds.Basic
import Mathlib.Order.CompletePartialOrder
import Mathlib.Order.Interval.Set.Basic

/-! The memory of the DOS that GW-BASIC runs on (`gwb_machine.c`): the calls of `INT 21h` that allocate
a block (48h) and resize one (4Ah). The machine keeps one pointer, the first paragraph it has not handed
out. It never takes a block back, so a block keeps the paragraphs it was handed out with, whatever it is
resized to. Sizes are in paragraphs. -/

namespace UnicornSuite.Gwb

open Machine

/-- `PSP_SEG`. -/
abbrev pspSeg : UInt16 := 0x00A0

/-- `MEM_TOP_SEG`. -/
abbrev memTopSeg : UInt16 := 0xA000

/-! ### The calls -/

structure Regs where
  ax : UInt16
  bx : UInt16
  es : UInt16
  carry : Bool

/-- AH = 48h. -/
def allocate (heapSeg : UInt16) (r : Regs) : UInt16 × Regs :=
  if heapSeg.toNat + r.bx.toNat ≤ memTopSeg.toNat then
    (heapSeg + r.bx, { r with ax := heapSeg, carry := false })
  else (heapSeg, { r with bx := memTopSeg - heapSeg, ax := 8, carry := true })

/-- AH = 4Ah. Any segment but the program's own is granted what it asks for. -/
def resize (heapSeg : UInt16) (r : Regs) : UInt16 × Regs :=
  if r.es = pspSeg then
    if pspSeg.toNat + r.bx.toNat > memTopSeg.toNat then
      (heapSeg, { r with bx := memTopSeg - pspSeg, ax := 8, carry := true })
    else (pspSeg + r.bx, { r with carry := false })
  else (heapSeg, { r with carry := false })

inductive Service where
  | allocate | resize
  deriving DecidableEq

/-- A call with the registers it is made with. -/
structure MemoryCall where
  service : Service
  regs : Regs

def serve (heapSeg : UInt16) (c : MemoryCall) : UInt16 × Regs :=
  match c.service with
  | .allocate => allocate heapSeg c.regs
  | .resize => resize heapSeg c.regs

/-! ### What has been handed out -/

/-- A block as it was handed out, and the size it was last granted. -/
structure Block where
  seg : Nat
  extent : Nat
  size : Nat
  deriving DecidableEq

def Block.held (b : Block) : Set Nat := Set.Ico b.seg (b.seg + b.size)

def Block.reserved (b : Block) : Set Nat := Set.Ico b.seg (b.seg + b.extent)

/-- The pointer, and what the calls so far were granted: the size of the program's block and the blocks
allocated. -/
structure Dos where
  heapSeg : UInt16
  own : Nat
  blocks : List Block

def Dos.program (s : Dos) : Set Nat := Set.Ico pspSeg.toNat (pspSeg.toNat + s.own)

/-- `load_exe`: the program owns everything until it shrinks. -/
def loaded : Dos := ⟨memTopSeg, memTopSeg.toNat - pspSeg.toNat, []⟩

def answer (s : Dos) (c : MemoryCall) : Regs := (serve s.heapSeg c).2

def Dos.call (s : Dos) (c : MemoryCall) : Dos :=
  let heapSeg := (serve s.heapSeg c).1
  if (answer s c).carry then { s with heapSeg := heapSeg }
  else
    match c.service with
    | .allocate =>
        ⟨heapSeg, s.own, s.blocks ++ [⟨(answer s c).ax.toNat, c.regs.bx.toNat, c.regs.bx.toNat⟩]⟩
    | .resize =>
        if c.regs.es = pspSeg then ⟨heapSeg, c.regs.bx.toNat, s.blocks⟩
        else
          ⟨heapSeg, s.own, s.blocks.map fun b =>
            if b.seg = c.regs.es.toNat then { b with size := c.regs.bx.toNat } else b⟩

/-- Nothing handed out meets anything else that is, and all of it lies below the top of memory. -/
structure Separate (s : Dos) : Prop where
  blocks : s.blocks.Pairwise fun b b' => Disjoint b.held b'.held
  program : ∀ b ∈ s.blocks, Disjoint b.held s.program
  blocksBelow : ∀ b ∈ s.blocks, b.seg + b.size ≤ memTopSeg.toNat
  programBelow : pspSeg.toNat + s.own ≤ memTopSeg.toNat

/-- The sizes a call could be granted: those of the runs of free paragraphs, or those the program's block
can have where it stands. -/
def available (s : Dos) : Service → Set Nat
  | .allocate => {n | ∃ seg, pspSeg.toNat ≤ seg ∧ seg + n ≤ memTopSeg.toNat ∧
      Disjoint (Set.Ico seg (seg + n)) s.program ∧
      ∀ b ∈ s.blocks, Disjoint (Set.Ico seg (seg + n)) b.reserved}
  | .resize => {n | pspSeg.toNat + n ≤ memTopSeg.toNat ∧
      ∀ b ∈ s.blocks, Disjoint (Set.Ico pspSeg.toNat (pspSeg.toNat + n)) b.reserved}

/-- A call that fails changes nothing and says how much there is. -/
def Honest (s : Dos) (c : MemoryCall) : Prop :=
  (answer s c).carry = true → s.call c = s ∧ IsGreatest (available s c.service) (answer s c).bx.toNat

/-- The program is resized while no paragraph is handed out, and a block to no more than it was handed
out with. -/
def Fits (s : Dos) (c : MemoryCall) : Prop :=
  match c.service with
  | .allocate => True
  | .resize =>
      if c.regs.es = pspSeg then ∀ b ∈ s.blocks, b.extent = 0
      else ∀ b ∈ s.blocks, b.seg = c.regs.es.toNat → c.regs.bx.toNat ≤ b.extent

instance (s : Dos) (c : MemoryCall) : Decidable (Fits s c) :=
  match hservice : c.service with
  | .allocate => isTrue (by simp only [Fits, hservice])
  | .resize =>
      if hes : c.regs.es = pspSeg then
        decidable_of_iff (∀ b ∈ s.blocks, b.extent = 0) (by simp only [Fits, hservice, hes, ↓reduceIte])
      else
        decidable_of_iff (∀ b ∈ s.blocks, b.seg = c.regs.es.toNat → c.regs.bx.toNat ≤ b.extent)
          (by simp only [Fits, hservice, hes, ↓reduceIte])

/-! ### The invariant -/

/-- Below the pointer stand the program and the blocks, without a gap; the pointer has passed nothing
else. -/
structure Laid (s : Dos) : Prop where
  top : s.heapSeg.toNat ≤ memTopSeg.toNat
  own : pspSeg.toNat + s.own ≤ s.heapSeg.toNat
  within : ∀ b ∈ s.blocks, b.extent ≠ 0 →
    pspSeg.toNat + s.own ≤ b.seg ∧ b.seg + b.extent ≤ s.heapSeg.toNat
  below : ∀ b ∈ s.blocks, b.seg ≤ memTopSeg.toNat
  size : ∀ b ∈ s.blocks, b.size ≤ b.extent
  apart : s.blocks.Pairwise fun b b' => Disjoint b.reserved b'.reserved
  covered : ∀ p, pspSeg.toNat ≤ p → p < s.heapSeg.toNat →
    p ∈ s.program ∨ ∃ b ∈ s.blocks, p ∈ b.reserved

theorem loaded_laid : Laid loaded where
  top := le_rfl
  own := by decide
  within := nofun
  below := nofun
  size := nofun
  apart := .nil
  covered p hp hp' := .inl ⟨hp, by
    have htop : loaded.heapSeg.toNat = pspSeg.toNat + loaded.own := rfl
    omega⟩

theorem Block.held_subset {b : Block} (h : b.size ≤ b.extent) : b.held ⊆ b.reserved :=
  Set.Ico_subset_Ico_right (Nat.add_le_add_left h _)

theorem Laid.separate {s : Dos} (h : Laid s) : Separate s where
  blocks := by
    refine h.apart.imp_of_mem fun hb hb' hdisj => ?_
    exact hdisj.mono (Block.held_subset (h.size _ hb)) (Block.held_subset (h.size _ hb'))
  program b hb := by
    have hsize := h.size b hb
    rw [Set.disjoint_left]
    rintro p ⟨hlo, hhi⟩ ⟨-, hown⟩
    have hwithin := h.within b hb (by omega)
    omega
  blocksBelow b hb := by
    have hsize := h.size b hb
    by_cases hempty : b.extent = 0
    · have hbelow := h.below b hb
      omega
    · have hwithin := h.within b hb hempty
      have htop := h.top
      omega
  programBelow := h.own.trans h.top

section Steps

variable {s : Dos} {c : MemoryCall}

theorem call_of_carry (h : (answer s c).carry = true) (hheap : (serve s.heapSeg c).1 = s.heapSeg) :
    s.call c = s := by
  rw [Dos.call, if_pos h, hheap]

/-- What an allocation does, by what there is left. -/
theorem allocate_cases (hservice : c.service = .allocate) :
    (s.heapSeg.toNat + c.regs.bx.toNat ≤ memTopSeg.toNat ∧
        (answer s c).carry = false ∧
        s.call c = ⟨s.heapSeg + c.regs.bx, s.own,
          s.blocks ++ [⟨s.heapSeg.toNat, c.regs.bx.toNat, c.regs.bx.toNat⟩]⟩) ∨
      (memTopSeg.toNat < s.heapSeg.toNat + c.regs.bx.toNat ∧
        (answer s c).bx = memTopSeg - s.heapSeg ∧ s.call c = s) := by
  by_cases hroom : s.heapSeg.toNat + c.regs.bx.toNat ≤ memTopSeg.toNat
  · have hserve : serve s.heapSeg c =
        (s.heapSeg + c.regs.bx, { c.regs with ax := s.heapSeg, carry := false }) := by
      rw [serve, hservice]
      exact if_pos hroom
    refine .inl ⟨hroom, by rw [answer, hserve], ?_⟩
    simp only [Dos.call, answer, hserve, hservice, Bool.false_eq_true, ↓reduceIte]
  · have hserve : serve s.heapSeg c =
        (s.heapSeg, { c.regs with bx := memTopSeg - s.heapSeg, ax := 8, carry := true }) := by
      rw [serve, hservice]
      exact if_neg hroom
    refine .inr ⟨by omega, by rw [answer, hserve], ?_⟩
    exact call_of_carry (by rw [answer, hserve]) (by rw [hserve])

/-- What a resize does: to the program's block, or to another. -/
theorem resize_cases (hservice : c.service = .resize) :
    (c.regs.es = pspSeg ∧ pspSeg.toNat + c.regs.bx.toNat ≤ memTopSeg.toNat ∧
        (answer s c).carry = false ∧
        s.call c = ⟨pspSeg + c.regs.bx, c.regs.bx.toNat, s.blocks⟩) ∨
      (c.regs.es = pspSeg ∧ (answer s c).bx = memTopSeg - pspSeg ∧ s.call c = s) ∨
      (c.regs.es ≠ pspSeg ∧ (answer s c).carry = false ∧
        s.call c = ⟨s.heapSeg, s.own, s.blocks.map fun b =>
          if b.seg = c.regs.es.toNat then { b with size := c.regs.bx.toNat } else b⟩) := by
  by_cases hes : c.regs.es = pspSeg
  · by_cases hroom : pspSeg.toNat + c.regs.bx.toNat > memTopSeg.toNat
    · have hserve : serve s.heapSeg c =
          (s.heapSeg, { c.regs with bx := memTopSeg - pspSeg, ax := 8, carry := true }) := by
        rw [serve, hservice]
        exact (if_pos hes).trans (if_pos hroom)
      refine .inr (.inl ⟨hes, by rw [answer, hserve], ?_⟩)
      exact call_of_carry (by rw [answer, hserve]) (by rw [hserve])
    · have hserve : serve s.heapSeg c = (pspSeg + c.regs.bx, { c.regs with carry := false }) := by
        rw [serve, hservice]
        exact (if_pos hes).trans (if_neg hroom)
      refine .inl ⟨hes, by omega, by rw [answer, hserve], ?_⟩
      simp only [Dos.call, answer, hserve, hservice, hes, Bool.false_eq_true, ↓reduceIte]
  · have hserve : serve s.heapSeg c = (s.heapSeg, { c.regs with carry := false }) := by
      rw [serve, hservice]
      exact if_neg hes
    refine .inr (.inr ⟨hes, by rw [answer, hserve], ?_⟩)
    simp only [Dos.call, answer, hserve, hservice, hes, Bool.false_eq_true, ↓reduceIte]

theorem Laid.call_allocate (h : Laid s) (hservice : c.service = .allocate) : Laid (s.call c) := by
  rcases allocate_cases (s := s) hservice with ⟨hroom, -, hcall⟩ | ⟨-, -, hcall⟩
  · rw [hcall]
    have hheap : (s.heapSeg + c.regs.bx).toNat = s.heapSeg.toNat + c.regs.bx.toNat := by
      have htop : memTopSeg.toNat < 2 ^ 16 := by decide
      rw [UInt16.toNat_add, Nat.mod_eq_of_lt (by omega)]
    have hown := h.own
    refine ⟨?_, ?_, ?_, ?_, ?_, ?_, ?_⟩
    · rw [hheap]
      exact hroom
    · rw [hheap]
      exact hown.trans (Nat.le_add_right _ _)
    · intro b hb hextent
      rw [hheap]
      rcases List.mem_append.mp hb with hb | hb
      · have hwithin := h.within b hb hextent
        exact ⟨hwithin.1, hwithin.2.trans (Nat.le_add_right _ _)⟩
      · obtain rfl := List.mem_singleton.mp hb
        exact ⟨hown, le_rfl⟩
    · intro b hb
      rcases List.mem_append.mp hb with hb | hb
      · exact h.below b hb
      · obtain rfl := List.mem_singleton.mp hb
        exact h.top
    · intro b hb
      rcases List.mem_append.mp hb with hb | hb
      · exact h.size b hb
      · obtain rfl := List.mem_singleton.mp hb
        exact le_rfl
    · rw [List.pairwise_append]
      refine ⟨h.apart, List.pairwise_singleton _ _, fun b hb b' hb' => ?_⟩
      obtain rfl := List.mem_singleton.mp hb'
      rw [Set.disjoint_left]
      rintro p ⟨hlo, hhi⟩ ⟨hlo', -⟩
      have hwithin := h.within b hb (by omega)
      dsimp only at hlo'
      omega
    · intro p hlo hhi
      rw [hheap] at hhi
      by_cases hp : p < s.heapSeg.toNat
      · refine (h.covered p hlo hp).imp_right ?_
        rintro ⟨b, hb, hmem⟩
        exact ⟨b, List.mem_append_left _ hb, hmem⟩
      · refine .inr ⟨_, List.mem_append_right _ (List.mem_singleton_self _), ?_, ?_⟩
        · dsimp only
          omega
        · exact hhi
  · rw [hcall]
    exact h

theorem Laid.call_resize (h : Laid s) (hservice : c.service = .resize) (hfits : Fits s c) :
    Laid (s.call c) := by
  rw [Fits, hservice] at hfits
  rcases resize_cases (s := s) hservice with ⟨hes, hroom, -, hcall⟩ | ⟨-, -, hcall⟩ | ⟨hes, -, hcall⟩
  · have hempty := (if_pos hes).mp hfits
    rw [hcall]
    have hheap : (pspSeg + c.regs.bx).toNat = pspSeg.toNat + c.regs.bx.toNat := by
      have htop : memTopSeg.toNat < 2 ^ 16 := by decide
      rw [UInt16.toNat_add, Nat.mod_eq_of_lt (by omega)]
    refine ⟨?_, ?_, ?_, h.below, h.size, h.apart, ?_⟩
    · rw [hheap]
      exact hroom
    · rw [hheap]
    · intro b hb hextent
      exact absurd (hempty b hb) hextent
    · intro p hlo hhi
      rw [hheap] at hhi
      exact .inl ⟨hlo, hhi⟩
  · rw [hcall]
    exact h
  · have hfit := (if_neg hes).mp hfits
    rw [hcall]
    have hreserved : ∀ b : Block, (if b.seg = c.regs.es.toNat then { b with size := c.regs.bx.toNat } else b).reserved =
        b.reserved := by
      intro b
      split <;> rfl
    have hkept : ∀ {P : Block → Prop}, (∀ b ∈ s.blocks, P b) →
        (∀ b ∈ s.blocks, b.seg = c.regs.es.toNat → P { b with size := c.regs.bx.toNat }) →
        ∀ b ∈ s.blocks.map (fun b => if b.seg = c.regs.es.toNat then { b with size := c.regs.bx.toNat } else b),
          P b := by
      intro P hold hnew b hb
      obtain ⟨b', hb', rfl⟩ := List.mem_map.mp hb
      split
      · next hseg => exact hnew b' hb' hseg
      · exact hold b' hb'
    refine ⟨h.top, h.own, hkept h.within fun b hb _ => h.within b hb,
      hkept h.below fun b hb _ => h.below b hb, hkept h.size fun b hb hseg => hfit b hb hseg, ?_, ?_⟩
    · rw [List.pairwise_map]
      exact h.apart.imp fun hdisj => by rwa [hreserved, hreserved]
    · intro p hlo hhi
      refine (h.covered p hlo hhi).imp_right ?_
      rintro ⟨b, hb, hmem⟩
      exact ⟨_, List.mem_map_of_mem hb, by rwa [hreserved]⟩

theorem Laid.call (h : Laid s) (hfits : Fits s c) : Laid (s.call c) := by
  cases hservice : c.service with
  | allocate => exact h.call_allocate hservice
  | resize => exact h.call_resize hservice hfits

/-- A failed allocation is told the paragraphs from the pointer up to the top. -/
theorem Laid.honest_allocate (h : Laid s) (hservice : c.service = .allocate) : Honest s c := by
  intro hcarry
  rcases allocate_cases (s := s) hservice with ⟨-, hdone, -⟩ | ⟨-, hbx, hcall⟩
  · rw [hdone] at hcarry
    cases hcarry
  · have hleft : (memTopSeg - s.heapSeg).toNat = memTopSeg.toNat - s.heapSeg.toNat :=
      UInt16.toNat_sub_of_le _ _ (UInt16.le_iff_toNat_le.mpr h.top)
    have htop := h.top
    have hown := h.own
    rw [hbx, hleft, hservice]
    refine ⟨hcall, ⟨s.heapSeg.toNat, by omega, by omega, ?_, fun b hb => ?_⟩, ?_⟩
    · rw [Set.disjoint_left]
      rintro p ⟨hlo, -⟩ ⟨-, hhi⟩
      omega
    · rw [Set.disjoint_left]
      rintro p ⟨hlo, -⟩ ⟨hlo', hhi⟩
      have hwithin := h.within b hb (by omega)
      omega
    · rintro n ⟨seg, hpsp, hbelow, hprogram, hblocks⟩
      by_contra hmore
      have hseg : seg < s.heapSeg.toNat := by omega
      have hmem : seg ∈ Set.Ico seg (seg + n) := ⟨le_rfl, by omega⟩
      rcases h.covered seg hpsp hseg with hp | ⟨b, hb, hp⟩
      · exact Set.disjoint_left.mp hprogram hmem hp
      · exact Set.disjoint_left.mp (hblocks b hb) hmem hp

theorem honest_resize (hservice : c.service = .resize) (hfits : Fits s c) : Honest s c := by
  intro hcarry
  rw [Fits, hservice] at hfits
  rcases resize_cases (s := s) hservice with ⟨-, -, hdone, -⟩ | ⟨hes, hbx, hcall⟩ | ⟨-, hdone, -⟩
  · rw [hdone] at hcarry
    cases hcarry
  · have hempty := (if_pos hes).mp hfits
    have hall : (memTopSeg - pspSeg).toNat = memTopSeg.toNat - pspSeg.toNat := by decide
    have hpsp : pspSeg.toNat ≤ memTopSeg.toNat := by decide
    rw [hbx, hall, hservice]
    refine ⟨hcall, ⟨by omega, fun b hb => ?_⟩, ?_⟩
    · rw [Set.disjoint_right]
      rintro p ⟨hlo, hhi⟩
      rw [hempty b hb] at hhi
      omega
    · rintro n ⟨hbelow, -⟩
      omega
  · rw [hdone] at hcarry
    cases hcarry

end Steps

/-- Along the calls that fit, what is handed out stays apart and every failure is reported truly. -/
theorem memory_separate {calls : List MemoryCall} (hfits : Guarded Dos.call Fits loaded calls) :
    Separate (run Dos.call loaded calls) ∧
      ∀ c, Fits (run Dos.call loaded calls) c → Honest (run Dos.call loaded calls) c := by
  have hlaid : Laid (run Dos.call loaded calls) :=
    run_inv_of_guarded (fun _ _ h hfit => h.call hfit) loaded_laid hfits
  refine ⟨hlaid.separate, fun c hfit => ?_⟩
  cases hservice : c.service with
  | allocate => exact hlaid.honest_allocate hservice
  | resize => exact honest_resize hservice hfit

def allocateCall (size : UInt16) : MemoryCall := ⟨.allocate, ⟨0x4800, size, pspSeg, false⟩⟩

def resizeCall (seg size : UInt16) : MemoryCall := ⟨.resize, ⟨0x4A00, size, seg, false⟩⟩

/-- The program shrinks, is given a block and grows over it; a block grows into the next one. -/
theorem memory_overlaps :
    ¬ Separate (run Dos.call loaded
        [resizeCall pspSeg 0x1000, allocateCall 0x100, resizeCall pspSeg 0x2000]) ∧
      ¬ Separate (run Dos.call loaded
        [resizeCall pspSeg 0x1000, allocateCall 0x10, resizeCall 0x10A0 0x20, allocateCall 0x10]) := by
  constructor
  · intro h
    have hdisj := h.program ⟨0x10A0, 0x100, 0x100⟩ (by decide)
    have hmem : 0x10A0 ∈ (⟨0x10A0, 0x100, 0x100⟩ : Block).held := ⟨by decide, by decide⟩
    exact Set.disjoint_left.mp hdisj hmem ⟨by decide, by decide⟩
  · intro h
    have hblocks : (run Dos.call loaded [resizeCall pspSeg 0x1000, allocateCall 0x10,
        resizeCall 0x10A0 0x20, allocateCall 0x10]).blocks = [⟨0x10A0, 0x10, 0x20⟩, ⟨0x10B0, 0x10, 0x10⟩] := by
      rfl
    have hpair := h.blocks
    rw [hblocks, List.pairwise_pair] at hpair
    have hmem : 0x10B0 ∈ (⟨0x10A0, 0x10, 0x20⟩ : Block).held := ⟨by decide, by decide⟩
    exact Set.disjoint_left.mp hpair hmem ⟨by decide, by decide⟩

/-- The program shrinks, is given a block that later shrinks too, and asks for more than there is. -/
theorem memory_separate_shrunk :
    Separate (run Dos.call loaded
        [resizeCall pspSeg 0x1000, allocateCall 0x100, resizeCall 0x10A0 0x80, allocateCall 0x9000]) ∧
      ∀ c, Fits (run Dos.call loaded
          [resizeCall pspSeg 0x1000, allocateCall 0x100, resizeCall 0x10A0 0x80, allocateCall 0x9000]) c →
        Honest (run Dos.call loaded
          [resizeCall pspSeg 0x1000, allocateCall 0x100, resizeCall 0x10A0 0x80, allocateCall 0x9000]) c :=
  memory_separate (by decide)

end UnicornSuite.Gwb
