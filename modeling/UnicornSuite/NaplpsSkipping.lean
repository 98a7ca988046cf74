import UnicornSuite.LibRun
import UnicornSuite.NaplpsRegular
import UnicornSuite.NaplpsSegmentation

/-! The skipping of a definition body. While a macro, DRCS or texture definition is skipped, most ways
into the decoder are closed by `swallow`; two are not, the locking shifts and the printing of the ASCII
mode. Along the runs that use neither, nothing but the statistics and the escape state changes until a
control ends the definition (`skipping_frame`). -/

namespace UnicornSuite.Naplps

open Machine

section

variable {arc : ArcPoints} {d e f : Decoder} {b : Nat}

/-- A definition body is being skipped. -/
structure Skipping (d : Decoder) : Prop where
  swallow : d.code.swallow = true
  op : d.pdi.op = none
  pend : d.code.pend = .none

/-- The picture, the attributes and the code tables are the same. -/
structure Untouched (d e : Decoder) : Prop where
  surf : e.disp.surf = d.disp.surf
  draw : e.disp.draw = d.disp.draw
  tex : e.disp.tex = d.disp.tex
  text : e.disp.text = d.disp.text
  dom : e.disp.dom = d.disp.dom
  af : e.disp.af = d.disp.af
  gset : e.code.gset = d.code.gset
  gl : e.code.gl = d.code.gl
  gr : e.code.gr = d.code.gr
  singleShift : e.code.singleShift = d.code.singleShift

theorem Untouched.refl (d : Decoder) : Untouched d d :=
  ⟨rfl, rfl, rfl, rfl, rfl, rfl, rfl, rfl, rfl, rfl⟩

theorem Untouched.trans (h : Untouched d e) (h' : Untouched e f) : Untouched d f where
  surf := h'.surf.trans h.surf
  draw := h'.draw.trans h.draw
  tex := h'.tex.trans h.tex
  text := h'.text.trans h.text
  dom := h'.dom.trans h.dom
  af := h'.af.trans h.af
  gset := h'.gset.trans h.gset
  gl := h'.gl.trans h.gl
  gr := h'.gr.trans h.gr
  singleShift := h'.singleShift.trans h.singleShift

/-- The row of the C1 control that the byte completes, where it is one that ends a definition. -/
def endsDefinition (d : Decoder) (b : Nat) : Option Nat :=
  if d.code.escstate = .seen then
    if d.code.esclen = 0 ∧ 0x40 ≤ b % 128 ∧ b % 128 ≤ 0x45 then some (b % 128 - 0x40) else none
  else if d.code.mode = .naplps ∧ 0x80 ≤ b ∧ b ≤ 0x85 then some (b - 0x80)
  else none

/-- The body that follows the control is skipped. DEFP MACRO has its body executed, and after END
there is none. -/
def bodySkipped (row : Nat) : Bool := row ≠ 5 ∧ row ≠ 1

/-- The locking shift with this final, if it is one, invokes the set that is invoked already. -/
def KeepsInvocation (c : CodeState) (b : Nat) : Prop :=
  (b = 0x6E → c.gl = 2) ∧ (b = 0x6F → c.gl = 3) ∧ (b = 0x7E ∨ b = 0x6B → c.gr = 1) ∧
    (b = 0x7D ∨ b = 0x6C → c.gr = 2) ∧ (b = 0x7C ∨ b = 0x6D → c.gr = 3)

instance (c : CodeState) (b : Nat) : Decidable (KeepsInvocation c b) :=
  inferInstanceAs (Decidable (_ ∧ _))

/-- The byte is neither a locking shift to another set nor printed in the ASCII mode. -/
def Closed (d : Decoder) (b : Nat) : Prop :=
  (d.code.escstate = .seen → d.code.esclen = 0 → KeepsInvocation d.code (b % 128)) ∧
    (d.code.escstate ≠ .seen → d.code.mode = .ascii → ¬(0x20 ≤ b ∧ b ≤ 0x7E))

instance (d : Decoder) (b : Nat) : Decidable (Closed d b) := inferInstanceAs (Decidable (_ ∧ _))

/-! ### One byte -/

/-- Nothing happens but that an escape sequence may open. -/
theorem handleC0_skipping (h : Skipping d) (b : Nat) :
    handleC0 arc d b = d ∨ handleC0 arc d b = openEsc d := by
  unfold handleC0
  split
  · exact .inl rfl
  · split
    · exact .inr rfl
    · dsimp only
      rw [pdiTerminate_of_closed h.op, if_pos h.swallow]
      exact .inl rfl

theorem feedMain_skipping (h : Skipping d) (hquiet : d.code.mode = .ascii → ¬(0x20 ≤ b ∧ b ≤ 0x7E)) :
    feedMain arc d b = d ∨ feedMain arc d b = openEsc d ∨
      (d.code.mode = .naplps ∧ 0x80 ≤ b ∧ b ≤ 0x85) ∧ feedMain arc d b = doC1 d 4 (b - 0x80) := by
  unfold feedMain
  split
  · next hmode =>
      have hprint := hquiet hmode
      split_ifs
      · exact .inr (.inl rfl)
      · exact (handleC0_skipping h b).imp_right .inl
      · exact .inl rfl
      · omega
  · next hmode =>
      have hnaplps : d.code.mode = .naplps := by
        cases hm : d.code.mode with
        | naplps => rfl
        | ascii => exact absurd hm hmode
      split_ifs with _ hc1
      · exact (handleC0_skipping h b).imp_right .inl
      · dsimp only
        split_ifs with hoff
        · exact .inl rfl
        · -- Only the first six controls of column 8 pass.
          have hend : b / 16 % 16 - 4 = 4 ∧ isDefTerminator (b % 16) := by
            by_contra hno
            exact hoff ⟨h.swallow, hno⟩
          simp only [isDefTerminator, decide_eq_true_eq] at hend
          rw [pdiTerminate_of_closed h.op, hend.1, show b % 16 = b - 0x80 by omega]
          exact .inr (.inr ⟨⟨hnaplps, by omega, by omega⟩, rfl⟩)
      · exact .inl rfl
      all_goals exact absurd h.swallow ‹_›

theorem feedMain_ends (h : Skipping d) (hmode : d.code.mode = .naplps)
    (hbit : d.code.eightbit = true) (hlo : 0x80 ≤ b) (hhi : b ≤ 0x85) :
    feedMain arc d b = doC1 d 4 (b - 0x80) := by
  have hcol : b / 16 % 16 - 4 = 4 := by omega
  have hrow : b % 16 = b - 0x80 := by omega
  have hend : isDefTerminator (b - 0x80) = true := by
    simp only [isDefTerminator, decide_eq_true_eq]
    omega
  unfold feedMain
  rw [if_neg (by simp [hmode]), if_neg (by omega), if_pos ⟨hbit, hlo, by omega⟩]
  dsimp only
  rw [hcol, hrow, if_neg (by simp [hend]), pdiTerminate_of_closed h.op]

/-- The controls that end a definition change nothing but the skipping. -/
theorem doC1_ends (h : Skipping d) {row : Nat} (hrow : row ≤ 5) :
    Untouched d (doC1 d 4 row) ∧ (doC1 d 4 row).code.swallow = decide (row ≠ 5) ∧
      (doC1 d 4 row).pdi.op = none ∧ (doC1 d 4 row).code.pend = .none := by
  obtain rfl | rfl | rfl | rfl | rfl | rfl : row = 0 ∨ row = 1 ∨ row = 2 ∨ row = 3 ∨ row = 4 ∨
    row = 5 := by omega
  case inr.inl =>
    exact ⟨⟨rfl, rfl, rfl, rfl, rfl, rfl, rfl, rfl, rfl, rfl⟩, h.swallow, h.op, h.pend⟩
  all_goals exact ⟨⟨rfl, rfl, rfl, rfl, rfl, rfl, rfl, rfl, rfl, rfl⟩, rfl, h.op, h.pend⟩

theorem escPlainFinal_ends (h : Skipping d) (hlo : 0x40 ≤ b) (hhi : b ≤ 0x45) :
    escPlainFinal arc d b = doC1 d 4 (b - 0x40) := by
  obtain rfl | rfl | rfl | rfl | rfl | rfl : b = 0x40 ∨ b = 0x41 ∨ b = 0x42 ∨ b = 0x43 ∨ b = 0x44 ∨
    b = 0x45 := by omega
  all_goals
    simp only [escPlainFinal, isDefTerminator]
    rw [if_pos (by decide), if_neg (by simp), pdiTerminate_of_closed h.op]

theorem escPlainFinal_skipping (h : Skipping d) (hkeep : KeepsInvocation d.code b)
    (hno : ¬(0x40 ≤ b ∧ b ≤ 0x45)) :
    Skipping (escPlainFinal arc d b) ∧ Untouched d (escPlainFinal arc d b) := by
  have hgl {slot : Nat} (hslot : d.code.gl = slot) :
      Skipping (lockGl d slot) ∧ Untouched d (lockGl d slot) :=
    ⟨{ h with }, { Untouched.refl d with gl := hslot.symm }⟩
  have hgr {slot : Nat} (hslot : d.code.gr = slot) :
      Skipping (lockGr d slot) ∧ Untouched d (lockGr d slot) :=
    ⟨{ h with }, { Untouched.refl d with gr := hslot.symm }⟩
  unfold escPlainFinal
  rw [pdiTerminate_of_closed h.op]
  split
  · exact hgl (hkeep.1 rfl)
  · exact hgl (hkeep.2.1 rfl)
  iterate 2 exact hgr (hkeep.2.2.1 (by decide))
  iterate 2 exact hgr (hkeep.2.2.2.1 (by decide))
  iterate 2 exact hgr (hkeep.2.2.2.2 (by decide))
  · dsimp only
    split_ifs with hrange hoff
    · exact ⟨h, .refl d⟩
    · exfalso
      refine hoff ⟨h.swallow, fun hend => hno ?_⟩
      have hrow : b % 16 ≤ 5 := by simpa [isDefTerminator] using hend.2
      omega
    · exact ⟨{ h with }, ⟨rfl, rfl, rfl, rfl, rfl, rfl, rfl, rfl, rfl, rfl⟩⟩

theorem escFinal_skipping (h : Skipping d) (i0 b : Nat) : escFinal arc d i0 b = d := by
  unfold escFinal
  exact if_pos h.swallow

theorem escByte_skipping (h : Skipping d)
    (hkeep : d.code.esclen = 0 → KeepsInvocation d.code b) (hb : b < 128) :
    (¬(d.code.esclen = 0 ∧ 0x40 ≤ b ∧ b ≤ 0x45) →
        Skipping (escByte arc d b) ∧ Untouched d (escByte arc d b)) ∧
      ((d.code.esclen = 0 ∧ 0x40 ≤ b ∧ b ≤ 0x45) →
        escByte arc d b = doC1 (closeEsc d) 4 (b - 0x40)) := by
  have hclose : Skipping (closeEsc d) := { h with }
  have hsame : Untouched d (closeEsc d) := { Untouched.refl d with }
  unfold escByte
  refine ⟨fun hno => ?_, fun hend => ?_⟩
  · split_ifs with hinter hroom hfinal hplain
    · exact ⟨{ h with }, { Untouched.refl d with }⟩
    · exact ⟨h, .refl d⟩
    · obtain ⟨hs, hu⟩ := @escPlainFinal_skipping arc _ _ hclose (hkeep hplain)
        fun hr => hno ⟨hplain, hr⟩
      exact ⟨hs, hsame.trans hu⟩
    · rw [escFinal_skipping hclose]
      exact ⟨hclose, hsame⟩
    · have hbad : Skipping (escMalformed (closeEsc d)) := { hclose with }
      have hpend : ¬(escMalformed (closeEsc d)).code.pend ≠ .none := fun hne => hne h.pend
      have hbase : Untouched d (escMalformed (closeEsc d)) := { Untouched.refl d with }
      rw [feedPlain, if_neg hpend]
      rcases @feedMain_skipping arc _ b hbad fun _ => by omega with hkeep | hesc | hend
      · rw [hkeep]
        exact ⟨hbad, hbase⟩
      · rw [hesc]
        exact ⟨{ hbad with }, { hbase with }⟩
      · omega
  · rw [if_neg (by omega), if_pos (by omega), if_pos hend.1]
    exact escPlainFinal_ends hclose hend.2.1 hend.2.2

theorem feedByte_skipping (h : Skipping d) (hb : b < 256) (hclosed : Closed d b) :
    (endsDefinition d b = none →
        Skipping (feedByte arc d b) ∧ Untouched d (feedByte arc d b)) ∧
      ∀ row, endsDefinition d b = some row →
        row ≤ 5 ∧ ∃ e, Skipping e ∧ Untouched d e ∧ feedByte arc d b = doC1 e 4 row := by
  have hselect : Skipping (selectEnvironment d b) := { h with }
  have hsame : Untouched d (selectEnvironment d b) := { Untouched.refl d with }
  rw [feedByte_raw d hb]
  unfold endsDefinition
  by_cases hesc : d.code.escstate = .seen
  · rw [if_pos hesc, if_pos hesc]
    obtain ⟨hstay, hend⟩ := @escByte_skipping arc _ (b % 128) hselect (hclosed.1 hesc)
      (by omega)
    constructor
    · intro hnone
      have hno : ¬(d.code.esclen = 0 ∧ 0x40 ≤ b % 128 ∧ b % 128 ≤ 0x45) := by
        intro hyes
        rw [if_pos hyes] at hnone
        cases hnone
      obtain ⟨hs, hu⟩ := hstay hno
      exact ⟨hs, hsame.trans hu⟩
    · intro row hrow
      split_ifs at hrow with hyes
      obtain rfl := Option.some.inj hrow
      exact ⟨by omega, closeEsc (selectEnvironment d b), { hselect with }, { hsame with },
        hend hyes⟩
  · rw [if_neg hesc, if_neg hesc]
    have hpend : ¬(selectEnvironment d b).code.pend ≠ .none := fun hne => hne h.pend
    rw [feedPlain, if_neg hpend]
    have hmain := @feedMain_skipping arc _ _ hselect (hclosed.2 hesc)
    constructor
    · intro hnone
      rcases hmain with hkeep | hopen | ⟨hend, _⟩
      · rw [hkeep]
        exact ⟨hselect, hsame⟩
      · rw [hopen]
        exact ⟨{ hselect with }, { hsame with }⟩
      · have hyes : d.code.mode = .naplps ∧ 0x80 ≤ b ∧ b ≤ 0x85 := hend
        rw [if_pos hyes] at hnone
        cases hnone
    · intro row hrow
      split_ifs at hrow with hyes
      obtain rfl := Option.some.inj hrow
      have hbit : (selectEnvironment d b).code.eightbit = true := by
        simp only [selectEnvironment, Bool.or_eq_true, beq_iff_eq]
        omega
      exact ⟨by omega, selectEnvironment d b, hselect, hsame,
        feedMain_ends hselect hyes.1 hbit hyes.2.1 hyes.2.2⟩

/-- A control that ends a definition goes through every closed way. -/
theorem closed_of_ends {row : Nat} (hend : endsDefinition d b = some row) : Closed d b := by
  unfold endsDefinition at hend
  unfold Closed KeepsInvocation
  split_ifs at hend with hesc hyes hyes
  · exact ⟨fun _ _ => by omega, fun hno => absurd hesc hno⟩
  · exact ⟨fun hseen => absurd hseen hesc, fun _ _ => by omega⟩

theorem feedOne_skipping (h : Skipping d) {b : UInt8} (hclosed : Closed d b.toNat) :
    (endsDefinition d b.toNat = none →
        Skipping (feedOne arc d b) ∧ Untouched d (feedOne arc d b)) ∧
      ∀ row, endsDefinition d b.toNat = some row →
        Untouched d (feedOne arc d b) ∧ (feedOne arc d b).code.swallow = decide (row ≠ 5) := by
  have hcount : Skipping (onDisplay d countByte) := { h with }
  have hsame : Untouched d (onDisplay d countByte) := { Untouched.refl d with }
  obtain ⟨hstay, hend⟩ := @feedByte_skipping arc _ _ hcount b.toNat_lt hclosed
  constructor
  · intro hnone
    obtain ⟨hs, hu⟩ := hstay hnone
    exact ⟨hs, hsame.trans hu⟩
  · intro row hrow
    obtain ⟨hle, e, he, hu, heq⟩ := hend row hrow
    obtain ⟨hu', hswallow, _⟩ := doC1_ends he hle
    rw [feedOne, heq]
    exact ⟨hsame.trans (hu.trans hu'), hswallow⟩

/-! ### Runs -/

theorem skipping_of_regular (h : d.Regular) (hskip : d.code.swallow = true) : Skipping d :=
  ⟨hskip, (h.skip hskip).1, (h.skip hskip).2⟩

/-- From any reachable state in which a definition is skipped, the bytes that end no definition and
do not use one of the two open ways leave the picture, the attributes and the code tables as they
were, and the skipping on. The first control that ends the definition does so too, and afterwards a
body is skipped where there is one to skip: DEFP MACRO is the only control after which the decoder
goes on skipping although it should not. -/
theorem skipping_frame (arc : ArcPoints) (es : List Event) (d : Decoder)
    (hd : d = run (step arc) create es) (hskip : d.code.swallow = true) (buf : List UInt8)
    (hbuf : Guarded (feedOne arc)
      (fun d b => endsDefinition d b.toNat = none ∧ Closed d b.toNat) d buf) :
    (Untouched d (feed arc d buf) ∧ (feed arc d buf).code.swallow = true) ∧
      ∀ b row, endsDefinition (feed arc d buf) b.toNat = some row →
        Untouched d (feedOne arc (feed arc d buf) b) ∧
          ((feedOne arc (feed arc d buf) b).code.swallow = bodySkipped row ↔ row ≠ 1) := by
  have hstart : Skipping d := skipping_of_regular (hd ▸ run_regular arc es) hskip
  have hrun : Skipping (feed arc d buf) ∧ Untouched d (feed arc d buf) :=
    run_inv_of_guarded (I := fun e => Skipping e ∧ Untouched d e)
      (fun e b h hb => by
        obtain ⟨hs, hu⟩ := (@feedOne_skipping arc _ h.1 _ hb.2).1 hb.1
        exact ⟨hs, h.2.trans hu⟩)
      ⟨hstart, .refl d⟩ hbuf
  refine ⟨⟨hrun.2, hrun.1.swallow⟩, fun b row hend => ?_⟩
  obtain ⟨hu, hswallow⟩ := (@feedOne_skipping arc _ hrun.1 _ (closed_of_ends hend)).2 row hend
  refine ⟨hrun.2.trans hu, ?_⟩
  rw [hswallow]
  by_cases h1 : row = 1
  · subst h1
    decide
  · simp [bodySkipped, h1]

end

/-- The body of DEF MACRO here is a shift, an opcode and an operand; END follows. -/
theorem skipping_frame_macro :
    (feed noArc (run (step noArc) create [.feed [0x1B, 0x40]]) [0x0E, 0x33, 0x40]).code.swallow =
      true ∧
    endsDefinition (feed noArc (run (step noArc) create [.feed [0x1B, 0x40]]) [0x0E, 0x33, 0x40])
      0x85 = some 5 := by
  have h := skipping_frame noArc [.feed [0x1B, 0x40]] _ rfl (by decide) [0x0E, 0x33, 0x40]
    (by decide)
  exact ⟨h.1.2, by decide⟩

/-- LS2 in the body of DEF MACRO invokes G2. -/
theorem skipping_lockingShift : ¬∀ (arc : ArcPoints) (es : List Event) (buf : List UInt8),
    (run (step arc) create es).code.swallow = true →
    Guarded (feedOne arc) (fun d b => endsDefinition d b.toNat = none)
      (run (step arc) create es) buf →
    Untouched (run (step arc) create es) (feed arc (run (step arc) create es) buf) := by
  intro hall
  have hsame := hall noArc [.feed [0x1B, 0x40]] [0x1B, 0x6E] (by decide)
    (by decide)
  have hgl := hsame.gl
  revert hgl
  decide

end UnicornSuite.Naplps
