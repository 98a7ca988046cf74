import UnicornSuite.NaplpsPalette
import Mathlib.Data.List.Induction

/-! Colour mode 0 over a whole run. A colour that is found in the map is not marked as used, so that a
later colour may be given its address. A run from a reset of the map keeps what is on the screen in
its colours exactly if no SET COLOR takes an address that a drawing colour has had. -/

namespace UnicornSuite.Naplps

/-! ### Commands -/

/-- An instruction other than RESET and SELECT COLOR. -/
structure DrawOp where
  op : Nat
  noReset : op ≠ 0x20
  noSelect : op ≠ 0x3E

/-- SET COLOR and the other instructions, graphic characters and SPACE. -/
inductive Command where
  | pdi (op : DrawOp) (p : Nat → Nat) (n rep : Nat)
  | char (ch : Nat)
  | space

def command (arc : ArcPoints) (d : Display) : Command → Display
  | .pdi op p n rep => pdiSwitch arc d op.op p n rep
  | .char ch => drawChar d ch
  | .space => spaceChar d

/-- The colour a SET COLOR sets. -/
def colorSet (d : Display) : Command → Option Color
  | .pdi op p _ _ => if op.op = 0x3C then some (unpackColor d.dom p) else none
  | _ => none

/-- The lowest address that holds the colour. -/
def holder (d : Display) (c : Color) : Option Nat :=
  (List.range cmapSize).find? fun i => d.surf.cmap i = c

/-- The lowest address without a mark that is not nominal black or white. -/
def freeAddr (d : Display) : Option Nat :=
  (List.range cmapSize).find? fun i =>
    !d.draw.cmapUsed i && i != d.draw.addrBlack && i != d.draw.addrWhite

/-- The address that a command gives a new colour. -/
def taken (d : Display) (cmd : Command) : Option Nat :=
  (colorSet d cmd).bind fun c => if (holder d c).isSome then none else freeAddr d

/-- A command that gives address `i` the colour `c`, which no address has had. -/
structure Takes (d d' : Display) (i : Nat) (c : Color) : Prop where
  addr : i < cmapSize
  fresh : ∀ k, k < cmapSize → d.surf.cmap k ≠ c
  cmap : d'.surf.cmap = Function.update d.surf.cmap i c
  drawAddr : d'.draw.drawAddr = i
  drawValue : d'.draw.drawValue = c

variable {d : Display}

theorem holder_eq_none {c : Color} (h : holder d c = none) :
    ∀ k, k < cmapSize → d.surf.cmap k ≠ c := by
  intro k hk heq
  have hno := List.find?_eq_none.mp h k (List.mem_range.mpr hk)
  exact hno (decide_eq_true heq)

/-- The three cases of SET COLOR, in two: an address is taken or the map stays. -/
theorem mode0SetColor_cases (d : Display) (c : Color) :
    (if (holder d c).isSome then none else freeAddr d) = none ∧
        (mode0SetColor d c).surf.cmap = d.surf.cmap ∨
      ∃ i, (if (holder d c).isSome then none else freeAddr d) = some i ∧
        Takes d (mode0SetColor d c) i c := by
  cases hfound : holder d c with
  | some k =>
      left
      have hset : mode0SetColor d c = { d with draw.drawValue := c, draw.drawAddr := k } := by
        unfold mode0SetColor
        rw [holder] at hfound
        simp only [hfound]
      rw [hset]
      exact ⟨rfl, rfl⟩
  | none =>
      cases hfree : freeAddr d with
      | none =>
          left
          have hset : mode0SetColor d c = skipped { d with draw.drawValue := c } := by
            unfold mode0SetColor
            rw [holder] at hfound
            rw [freeAddr] at hfree
            simp only [hfound, hfree]
          rw [hset]
          exact ⟨rfl, rfl⟩
      | some i =>
          right
          have hset : mode0SetColor d c = { d with
              surf.cmap := Function.update d.surf.cmap i c
              draw.drawValue := c
              draw.cmapUsed := Function.update d.draw.cmapUsed i true
              draw.drawAddr := i } := by
            unfold mode0SetColor
            rw [holder] at hfound
            rw [freeAddr] at hfree
            simp only [hfound, hfree]
          have hi : i < cmapSize := List.mem_range.mp (List.mem_of_find?_eq_some hfree)
          refine ⟨i, rfl, hi, holder_eq_none hfound, ?_, ?_, ?_⟩
          all_goals rw [hset]

theorem mode0SetColor_colorMode (d : Display) (c : Color) :
    (mode0SetColor d c).draw.colorMode = d.draw.colorMode := by
  simp only [mode0SetColor]
  split
  · rfl
  · split
    · rfl
    · rfl

/-- In colour mode 0 a command takes an address or leaves the map alone. -/
theorem command_cases (arc : ArcPoints) (hmode : d.draw.colorMode = 0) (cmd : Command) :
    taken d cmd = none ∧ (command arc d cmd).surf.cmap = d.surf.cmap ∨
      ∃ i c, taken d cmd = some i ∧ Takes d (command arc d cmd) i c := by
  have hhas : Has (palette d) d := rfl
  have hkept : ∀ d', Has (palette d) d' → d'.surf.cmap = d.surf.cmap :=
    fun d' h => congrArg Palette.cmap h
  cases cmd with
  | char ch => exact .inl ⟨rfl, hkept _ (hhas.drawChar ch)⟩
  | space => exact .inl ⟨rfl, hkept _ hhas.spaceChar⟩
  | pdi op p n rep =>
      by_cases hset : op.op = 0x3C
      · have hcommand : command arc d (.pdi op p n rep) =
            { mode0SetColor d (unpackColor d.dom p) with
              st.pdiExecuted := (mode0SetColor d (unpackColor d.dom p)).st.pdiExecuted + 1 } := by
          rw [command, hset]
          show (fun d : Display => { d with st.pdiExecuted := d.st.pdiExecuted + 1 })
            (execSetColor d p rep) = _
          rw [execSetColor]
          dsimp only
          rw [if_pos hmode]
        have htaken : taken d (.pdi op p n rep) =
            if (holder d (unpackColor d.dom p)).isSome then none else freeAddr d := by
          rw [taken, colorSet, if_pos hset]
          rfl
        rw [hcommand, htaken]
        rcases mode0SetColor_cases d (unpackColor d.dom p) with hstay | ⟨i, hi, htakes⟩
        · exact .inl hstay
        · exact .inr ⟨i, _, hi, { htakes with }⟩
      · have htaken : taken d (.pdi op p n rep) = none := by
          rw [taken, colorSet, if_neg hset]
          rfl
        exact .inl ⟨htaken, hkept _ (hhas.pdiSwitch arc op.noReset hset op.noSelect p n rep)⟩

theorem command_colorMode (arc : ArcPoints) (hmode : d.draw.colorMode = 0) (cmd : Command) :
    (command arc d cmd).draw.colorMode = 0 := by
  have hhas : Has (palette d) d := rfl
  have hkept : ∀ d', Has (palette d) d' → d'.draw.colorMode = 0 :=
    fun d' h => (congrArg Palette.colorMode h).trans hmode
  cases cmd with
  | char ch => exact hkept _ (hhas.drawChar ch)
  | space => exact hkept _ hhas.spaceChar
  | pdi op p n rep =>
      by_cases hset : op.op = 0x3C
      · rw [command, hset]
        show (execSetColor d p rep).draw.colorMode = 0
        rw [execSetColor, if_pos hmode, mode0SetColor_colorMode, hmode]
      · exact hkept _ (hhas.pdiSwitch arc op.noReset hset op.noSelect p n rep)

/-! ### Runs -/

/-- The drawing colour is in the map at its address. -/
def Resolved (d : Display) : Prop := d.surf.cmap d.draw.drawAddr = d.draw.drawValue

instance (d : Display) : Decidable (Resolved d) := inferInstanceAs (Decidable (_ = _))

/-- What a pixel shows. -/
def shown (d : Display) (y x : Int) : Color := d.surf.cmap (d.surf.pix.cell y x)

/-- The display after the first `k` commands. -/
def after (arc : ArcPoints) (d : Display) (cmds : List Command) (k : Nat) : Display :=
  Machine.run (command arc) d (cmds.take k)

/-- A drawing colour that has been resolved stays at its address, and so a pixel that has the address
shows the colour until it is painted again. -/
structure Stable (arc : ArcPoints) (d : Display) (cmds : List Command) : Prop where
  map : ∀ i j, i ≤ j → j ≤ cmds.length → Resolved (after arc d cmds i) →
    (after arc d cmds j).surf.cmap (after arc d cmds i).draw.drawAddr =
      (after arc d cmds i).draw.drawValue
  pixel : ∀ i j y x, i ≤ j → j ≤ cmds.length → Resolved (after arc d cmds i) →
    (after arc d cmds i).surf.pix.cell y x = (after arc d cmds i).draw.drawAddr →
    (∀ k, i ≤ k → k ≤ j →
      (after arc d cmds k).surf.pix.cell y x = (after arc d cmds i).surf.pix.cell y x) →
    shown (after arc d cmds j) y x = (after arc d cmds i).draw.drawValue

/-- The display, and the addresses the drawing colour has had with the colours it had there. -/
structure Tracked where
  disp : Display
  used : List (Nat × Color)

def noted (d : Display) (used : List (Nat × Color)) : List (Nat × Color) :=
  if Resolved d then (d.draw.drawAddr, d.draw.drawValue) :: used else used

def Tracked.start (d : Display) : Tracked := ⟨d, noted d []⟩

def Tracked.step (arc : ArcPoints) (t : Tracked) (cmd : Command) : Tracked :=
  ⟨command arc t.disp cmd, noted (command arc t.disp cmd) t.used⟩

/-- The address that the command takes has not been a drawing colour's. -/
def Spared (t : Tracked) (cmd : Command) : Prop :=
  ∀ i, taken t.disp cmd = some i → ∀ v, (i, v) ∉ t.used

/-- Every colour is still where it was. -/
def Kept (t : Tracked) : Prop := ∀ e ∈ t.used, t.disp.surf.cmap e.1 = e.2

theorem mem_noted {d : Display} {used : List (Nat × Color)} {e : Nat × Color} :
    e ∈ noted d used ↔ Resolved d ∧ e = (d.draw.drawAddr, d.draw.drawValue) ∨ e ∈ used := by
  rw [noted]
  split
  · next h =>
      rw [List.mem_cons]
      exact or_congr_left (and_iff_right h).symm
  · next h => exact ⟨.inr, fun hmem => hmem.resolve_left fun hres => h hres.1⟩

/-- A step that spares the colours keeps them. -/
theorem kept_step (arc : ArcPoints) {t : Tracked} (hmode : t.disp.draw.colorMode = 0) (h : Kept t)
    {cmd : Command} (hspared : Spared t cmd) : Kept (t.step arc cmd) := by
  intro e he
  rcases mem_noted.mp he with ⟨hres, rfl⟩ | hold
  · exact hres
  · rcases command_cases arc hmode cmd with ⟨-, hcmap⟩ | ⟨i, c, htaken, htakes⟩
    · exact (congrFun hcmap e.1).trans (h e hold)
    · have hne : e.1 ≠ i := by
        rintro rfl
        exact hspared e.1 htaken e.2 hold
      show (command arc t.disp cmd).surf.cmap e.1 = e.2
      rw [htakes.cmap, Function.update_of_ne hne]
      exact h e hold

/-- A step that does not gives an address a colour other than the one it had. -/
theorem not_kept_step (arc : ArcPoints) {t : Tracked} (hmode : t.disp.draw.colorMode = 0) (h : Kept t)
    {cmd : Command} (hmiss : ¬ Spared t cmd) : ¬ Kept (t.step arc cmd) := by
  intro hkept
  unfold Spared at hmiss
  push Not at hmiss
  obtain ⟨i, htaken, v, hv⟩ := hmiss
  rcases command_cases arc hmode cmd with ⟨hnone, -⟩ | ⟨k, c, hsome, htakes⟩
  · rw [hnone] at htaken
    cases htaken
  · rw [hsome] at htaken
    cases htaken
    have hnew : (command arc t.disp cmd).surf.cmap i = v := hkept _ (mem_noted.mpr (.inr hv))
    rw [htakes.cmap, Function.update_self] at hnew
    have hold : t.disp.surf.cmap i = v := h _ hv
    exact htakes.fresh i htakes.addr (hold.trans hnew.symm)

theorem run_disp (arc : ArcPoints) (t : Tracked) (cmds : List Command) :
    (Machine.run (Tracked.step arc) t cmds).disp = Machine.run (command arc) t.disp cmds := by
  induction cmds generalizing t with
  | nil => rfl
  | cons cmd cmds ih => exact ih _

/-- The entries are the drawing colours at the times when they were resolved. -/
theorem mem_used (arc : ArcPoints) (d : Display) (cmds : List Command) (e : Nat × Color) :
    e ∈ (Machine.run (Tracked.step arc) (Tracked.start d) cmds).used ↔
      ∃ i, i ≤ cmds.length ∧ Resolved (after arc d cmds i) ∧
        e = ((after arc d cmds i).draw.drawAddr, (after arc d cmds i).draw.drawValue) := by
  induction cmds using List.reverseRecOn with
  | nil =>
      constructor
      · intro he
        obtain ⟨hres, heq⟩ := (mem_noted.mp he).resolve_right List.not_mem_nil
        exact ⟨0, Nat.le_refl _, hres, heq⟩
      · rintro ⟨i, -, hres, heq⟩
        have hafter : after arc d [] i = d := by rw [after, List.take_nil]; rfl
        rw [hafter] at hres heq
        exact mem_noted.mpr (.inl ⟨hres, heq⟩)
  | append_singleton cmds cmd ih =>
      have hlast : after arc d (cmds ++ [cmd]) (cmds.length + 1) =
          command arc (Machine.run (command arc) d cmds) cmd := by
        rw [after, List.take_of_length_le (by simp), Machine.run_append]
        rfl
      have hfirst : ∀ i, i ≤ cmds.length → after arc d (cmds ++ [cmd]) i = after arc d cmds i := by
        intro i hi
        rw [after, after, List.take_append_of_le_length hi]
      have hdisp : (Machine.run (Tracked.step arc) (Tracked.start d) cmds).disp =
          Machine.run (command arc) d cmds := run_disp arc _ _
      rw [Machine.run_append, Machine.run_cons, Machine.run_nil]
      simp only [Tracked.step]
      rw [mem_noted, ih, hdisp, ← hlast]
      constructor
      · rintro (⟨hres, heq⟩ | ⟨i, hi, hres, heq⟩)
        · exact ⟨cmds.length + 1, by simp, hres, heq⟩
        · rw [← hfirst i hi] at hres heq
          exact ⟨i, by rw [List.length_append]; omega, hres, heq⟩
      · rintro ⟨i, hi, hres, heq⟩
        by_cases hle : i ≤ cmds.length
        · rw [hfirst i hle] at hres heq
          exact .inr ⟨i, hle, hres, heq⟩
        · have hi' : i = cmds.length + 1 := by
            rw [List.length_append, List.length_singleton] at hi
            omega
          rw [hi'] at hres heq
          exact .inl ⟨hres, heq⟩

/-- A run is stable if each of its states has kept every colour. -/
theorem stable_iff_kept (arc : ArcPoints) (d : Display) (cmds : List Command) :
    Stable arc d cmds ↔
      ∀ es, es <+: cmds → Kept (Machine.run (Tracked.step arc) (Tracked.start d) es) := by
  have hway : ∀ j, j ≤ cmds.length → ∀ i, i ≤ j →
      after arc d (cmds.take j) i = after arc d cmds i := by
    intro j _ i hi
    rw [after, after, List.take_take, Nat.min_eq_left hi]
  have hstate : ∀ es, (Machine.run (Tracked.step arc) (Tracked.start d) es).disp =
      Machine.run (command arc) d es := fun es => run_disp arc _ es
  constructor
  · intro h es hes e he
    obtain ⟨i, hi, hres, rfl⟩ := (mem_used arc d es e).mp he
    have htake : es = cmds.take es.length := List.prefix_iff_eq_take.mp hes
    have hlen := hes.length_le
    rw [htake, hway es.length hlen i hi] at hres
    rw [hstate]
    have hmap := h.map i es.length hi hlen hres
    rw [after, ← htake] at hmap
    have hsame : after arc d es i = after arc d cmds i := by
      rw [htake]
      exact hway es.length hlen i hi
    rw [hsame]
    exact hmap
  · intro h
    have hmap : ∀ i j, i ≤ j → j ≤ cmds.length → Resolved (after arc d cmds i) →
        (after arc d cmds j).surf.cmap (after arc d cmds i).draw.drawAddr =
          (after arc d cmds i).draw.drawValue := by
      intro i j hij hj hres
      have hkept := h (cmds.take j) (List.take_prefix j cmds)
      have hmem := (mem_used arc d (cmds.take j)
        ((after arc d cmds i).draw.drawAddr, (after arc d cmds i).draw.drawValue)).mpr
          ⟨i, by rw [List.length_take]; omega, by rw [hway j hj i hij]; exact hres,
            by rw [hway j hj i hij]⟩
      have heq := hkept _ hmem
      rw [hstate] at heq
      exact heq
    refine ⟨hmap, fun i j y x hij hj hres hpix hsame => ?_⟩
    rw [shown, hsame j hij (Nat.le_refl _), hpix]
    exact hmap i j hij hj hres

theorem resetColor_colorMode (d : Display) (toDefaultMap : Bool) :
    (resetColor d toDefaultMap).draw.colorMode = 0 := rfl

theorem start_kept (d : Display) : Kept (Tracked.start d) := by
  intro e he
  obtain ⟨hres, rfl⟩ := (mem_noted.mp he).resolve_right List.not_mem_nil
  exact hres

/-- A run from a reset of the colour map is stable exactly if no SET COLOR of it takes an address that
has been a drawing colour's since. -/
theorem mode0_stable_iff (arc : ArcPoints) (d : Display) (cmds : List Command) :
    Stable arc (resetColor d true) cmds ↔
      Machine.Guarded (Tracked.step arc) Spared (Tracked.start (resetColor d true)) cmds := by
  rw [stable_iff_kept]
  apply Machine.safe_iff_guarded (I := fun t => Kept t ∧ t.disp.draw.colorMode = 0)
  · rintro t cmd ⟨hkept, hmode⟩ hspared
    exact ⟨kept_step arc hmode hkept hspared, command_colorMode arc hmode cmd⟩
  · intro t h
    exact h.1
  · rintro t cmd ⟨hkept, hmode⟩ hmiss
    exact not_kept_step arc hmode hkept hmiss
  · exact ⟨start_kept _, resetColor_colorMode d true⟩

/-- The operand of a SET COLOR of three bytes. -/
def colorOperand (b0 b1 b2 : Nat) : Nat → Nat
  | 0 => b0
  | 1 => b1
  | _ => b2

def setColorCmd (b0 b1 b2 : Nat) : Command :=
  .pdi ⟨0x3C, by decide, by decide⟩ (colorOperand b0 b1 b2) 3 0

/-- No vertices: arcs play no part. -/
def noArcs : ArcPoints := ⟨fun _ _ _ _ _ _ => [], fun _ _ _ _ _ _ => Nat.zero_le _⟩

/-- The first gray of the default map is found at address 1, and a point is drawn in it. The next
colour is not in the map and is given address 1. -/
theorem found_color_overwritten :
    ¬ Stable noArcs (resetColor create.disp true)
      [setColorCmd 0x40 0x78 0x40, .pdi ⟨0x26, by decide, by decide⟩ (fun _ => 0x40) 3 0,
        setColorCmd 0x43 0x68 0x40] := by
  intro h
  have hres : Resolved (after noArcs (resetColor create.disp true)
      [setColorCmd 0x40 0x78 0x40, .pdi ⟨0x26, by decide, by decide⟩ (fun _ => 0x40) 3 0,
        setColorCmd 0x43 0x68 0x40] 2) := by
    decide
  have hmap := h.map 2 3 (by decide) (by decide) hres
  revert hmap
  decide

end UnicornSuite.Naplps
