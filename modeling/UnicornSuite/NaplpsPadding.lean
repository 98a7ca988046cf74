import UnicornSuite.NaplpsCounters
import UnicornSuite.NaplpsSegmentation

/-! The padding of a short final operand. A sequence of a repeating opcode that ends inside of a set is
executed as if the missing bytes had arrived as zeros, except that its execution is the first of the
sequence and not the next one. Only SET COLOR asks which it is (`padding_iff`). -/

namespace UnicornSuite.Naplps

open Blocks

section

variable {arc : ArcPoints} {d e : Decoder} {op need : Nat}

/-- The bytes of the numeric data section, one after the other. -/
def operands (arc : ArcPoints) (d : Decoder) (ops : List Nat) : Decoder :=
  ops.foldl (pdiOperand arc) d

theorem operands_concat (ops : List Nat) (b : Nat) :
    operands arc d (ops ++ [b]) = pdiOperand arc (operands arc d ops) b := by
  rw [operands, operands, List.foldl_append, List.foldl_cons, List.foldl_nil]

/-! ### An open sequence -/

/-- The sequence of a repeating opcode that takes `need` bytes a set is open. -/
structure Repeating (d : Decoder) (op need : Nat) : Prop where
  isOpen : d.pdi.op = some op
  rep : (pdiDesc op).mode = .rep
  size : setBytes d.disp.dom op = need
  room : need ≤ 64
  short : d.pdi.oplen < need

theorem Repeating.fill (h : Repeating d op need) (hlt : d.pdi.oplen + 1 < need) (b : Nat) :
    pdiOperand arc d b = { d with pdi := storeOperand d.pdi b } :=
  pdiOperand_of_lt h.isOpen h.rep h.size (h.room.trans (by decide)) hlt b

theorem Repeating.complete (h : Repeating d op need) (hfull : d.pdi.oplen + 1 = need) (b : Nat) :
    pdiOperand arc d b =
      { pdiExecuteSet arc { d with pdi := storeOperand d.pdi b } op (storeOperand d.pdi b).opbuf
          need d.pdi.reps with
        pdi := shiftSet (storeOperand d.pdi b) need } :=
  pdiOperand_of_eq h.isOpen h.rep h.size (h.room.trans (by decide)) hfull b

theorem Repeating.stored (h : Repeating d op need) (hlt : d.pdi.oplen + 1 < need) (b : Nat) :
    Repeating { d with pdi := storeOperand d.pdi b } op need :=
  { h with short := hlt }

theorem Repeating.operand (h : Repeating d op need) (b : Nat) :
    Repeating (pdiOperand arc d b) op need := by
  by_cases hfull : d.pdi.oplen + 1 = need
  · rw [h.complete hfull]
    refine ⟨h.isOpen, h.rep, ?_, h.room, ?_⟩
    · simp only [pdiExecuteSet, pdiSwitch_dom_of_rep arc h.rep]
      exact h.size
    · simp only [shiftSet, storeOperand]
      omega
  · have hlt : d.pdi.oplen + 1 < need := by
      have := h.short
      omega
    rw [h.fill hlt]
    exact h.stored hlt b

/-- Where a sequence is after some of its bytes. -/
theorem Repeating.operands (h : Repeating d op need) (hstart : d.pdi.oplen = 0 ∧ d.pdi.reps = 0)
    (ops : List Nat) :
    Repeating (operands arc d ops) op need ∧
      (Naplps.operands arc d ops).pdi.oplen = ops.length % need ∧
      (Naplps.operands arc d ops).pdi.reps = ops.length / need := by
  have hpos : 0 < need := by
    have := h.short
    omega
  have hlength (ops : List Nat) : ops.length % need = (remainder need ops).length :=
    (length_remainder ops).symm
  induction ops using List.reverseRecOn with
  | nil => exact ⟨h, by simp [Naplps.operands, hstart], by simp [Naplps.operands, hstart]⟩
  | append_singleton ops b ih =>
      obtain ⟨hopen, hlen, hreps⟩ := ih
      rw [operands_concat]
      refine ⟨hopen.operand b, ?_⟩
      by_cases hfull : ops.length % need + 1 = need
      · rw [hopen.complete (by omega), hlength, remainder_concat_full hpos hfull,
          List.length_append, List.length_singleton, div_succ_of_full hpos hfull]
        simp only [shiftSet, storeOperand, hlen, hreps, List.length_nil, and_true]
        omega
      · have hmod := Nat.mod_lt ops.length hpos
        have hlt : ops.length % need + 1 < need := by omega
        rw [hopen.fill (by omega), hlength, remainder_concat_lt hpos hlt, List.length_append,
          List.length_append, List.length_singleton, div_succ_of_lt hpos hlt, ← hlength]
        exact ⟨congrArg (· + 1) hlen, hreps⟩

/-! ### The missing bytes -/

/-- The store after `m` zeros. -/
def fillStore (q : PdiSeq) (m : Nat) : PdiSeq :=
  { q with
    opbuf := fun i => if q.oplen ≤ i ∧ i < q.oplen + m then 0x40 else q.opbuf i
    oplen := q.oplen + m }

theorem fillStore_succ (q : PdiSeq) (m : Nat) :
    storeOperand (fillStore q m) 0x40 = fillStore q (m + 1) := by
  have hbuf : Function.update (fillStore q m).opbuf (q.oplen + m) 0x40 =
      (fillStore q (m + 1)).opbuf := by
    funext i
    simp only [Function.update_apply, fillStore]
    split_ifs <;> first | rfl | omega
  exact congrArg (fun f => { fillStore q (m + 1) with opbuf := f }) hbuf

/-- Up to a full set the store is the padded one. -/
theorem fillStore_agree {q : PdiSeq} {m : Nat} (h : q.oplen + m = need) :
    AgreeTo need (fillStore q m).opbuf (padSet q) := by
  intro i hi
  simp only [fillStore, padSet]
  split_ifs <;> first | rfl | omega

/-- All but the last of the missing bytes are only stored. -/
theorem Repeating.zeros (h : Repeating d op need) {m : Nat} (hm : d.pdi.oplen + m < need) :
    Naplps.operands arc d (List.replicate m 0x40) = { d with pdi := fillStore d.pdi m } := by
  induction m with
  | zero =>
      have hnone : fillStore d.pdi 0 = d.pdi := by
        have hbuf : (fillStore d.pdi 0).opbuf = d.pdi.opbuf := by
          funext i
          exact if_neg (by omega)
        exact congrArg (fun f => { d.pdi with opbuf := f }) hbuf
      rw [hnone]
      rfl
  | succ m ih =>
      have hfill : Repeating { d with pdi := fillStore d.pdi m } op need :=
        { h with short := (by omega : d.pdi.oplen + m < need) }
      rw [List.replicate_succ', operands_concat, ih (by omega), hfill.fill hm, fillStore_succ]

/-- The last one has the padded set executed under the running count. -/
theorem Repeating.filled (h : Repeating d op need) :
    Naplps.operands arc d (List.replicate (need - d.pdi.oplen) 0x40) =
      { pdiExecuteSet arc d op (padSet d.pdi) need d.pdi.reps with
        pdi := shiftSet (fillStore d.pdi (need - d.pdi.oplen)) need } := by
  have hshort := h.short
  obtain ⟨m, hm⟩ : ∃ m, need - d.pdi.oplen = m + 1 := ⟨need - d.pdi.oplen - 1, by omega⟩
  have hfill : Repeating { d with pdi := fillStore d.pdi m } op need :=
    { h with short := (by omega : d.pdi.oplen + m < need) }
  have hagree := @fillStore_agree need d.pdi (m + 1) (by omega)
  rw [hm, List.replicate_succ', operands_concat, h.zeros (by omega),
    hfill.complete (by omega : d.pdi.oplen + m + 1 = need), fillStore_succ]
  simp only [pdiExecuteSet, pdiSwitch_congr arc hagree fun _ => h.size.le, hagree.map_range]
  rfl

/-! ### The end of the sequence -/

/-- The display less the short-operand counter. -/
def lessShort (d : Display) : Display := { d with st.operandShort := 0 }

theorem lessShort_count (d : Display) (n : UInt32) :
    lessShort (d.count { operandShort := n }) = lessShort d := by
  simp [lessShort, Display.count, Stats.plus]

/-- A short set is executed as the first one of its sequence. -/
theorem Repeating.terminate_short (h : Repeating d op need) (hsome : 0 < d.pdi.oplen) :
    pdiTerminate arc d =
      emptyStore (pdiExecuteSet arc (onDisplay (setOpenOp d none) operandShort) op (padSet d.pdi)
        need 0) := by
  have hsize : setBytes (setOpenOp d none).disp.dom op = need := h.size
  have hlen : (setOpenOp d none).pdi.oplen > 0 := hsome
  have hroom := h.room
  rw [pdiTerminate, h.isOpen]
  dsimp only
  rw [executeRest, h.rep, if_neg (by decide), if_pos hlen, hsize, if_neg (by omega)]
  rfl

/-- Without a rest nothing is executed. -/
theorem terminate_of_empty (hopen : d.pdi.op = some op) (hrep : (pdiDesc op).mode = .rep)
    (hempty : d.pdi.oplen = 0) : pdiTerminate arc d = emptyStore (setOpenOp d none) := by
  have hne : op ≠ 0x20 ∧ op ≠ 0x3E := by
    refine ⟨?_, ?_⟩ <;> rintro rfl <;> cases hrep
  have hmulti : (pdiDesc op).nmulti ≠ 0 := by
    unfold pdiDesc at hrep ⊢
    split at hrep <;> revert hrep <;> decide
  have hlen : ¬(setOpenOp d none).pdi.oplen > 0 := by
    rw [show (setOpenOp d none).pdi.oplen = d.pdi.oplen from rfl, hempty]
    decide
  rw [pdiTerminate, hopen]
  dsimp only
  rw [executeRest, hrep, if_neg (by decide), if_neg hlen, if_neg (by tauto), if_neg (by tauto)]

/-- The state less the short-operand counter, up to the bytes behind the length of the store. -/
def SameButShort (d e : Decoder) : Prop := (onDisplay d lessShort).Same (onDisplay e lessShort)

/-- The two ends of a sequence differ in the count the padded set is executed under. -/
theorem Repeating.sameButShort_iff (h : Repeating d op need) (hsome : 0 < d.pdi.oplen) :
    SameButShort (pdiTerminate arc d) (pdiTerminate arc
        (Naplps.operands arc d (List.replicate (need - d.pdi.oplen) 0x40))) ↔
      lessShort (pdiSwitch arc d.disp op (padSet d.pdi) need 0) =
        lessShort (pdiSwitch arc d.disp op (padSet d.pdi) need d.pdi.reps) := by
  have hcounted : pdiSwitch arc (operandShort d.disp) op (padSet d.pdi) need 0 =
      (pdiSwitch arc d.disp op (padSet d.pdi) need 0).count { operandShort := 1 } := by
    refine pdiSwitch_counted arc ?_ op (padSet d.pdi) need 0
    simp [Counted, operandShort, Display.count, Stats.plus]
  have hshort : lessShort (pdiSwitch arc (operandShort d.disp) op (padSet d.pdi) need 0) =
      lessShort (pdiSwitch arc d.disp op (padSet d.pdi) need 0) := by
    rw [hcounted, lessShort_count]
  have hlen : (shiftSet (fillStore d.pdi (need - d.pdi.oplen)) need).oplen = 0 := by
    have := h.short
    simp only [shiftSet, fillStore]
    omega
  have hclosed := @terminate_of_empty arc
    { pdiExecuteSet arc d op (padSet d.pdi) need d.pdi.reps with
      pdi := shiftSet (fillStore d.pdi (need - d.pdi.oplen)) need } _ h.isOpen h.rep hlen
  rw [h.terminate_short hsome, h.filled, hclosed, ← hshort]
  constructor
  · intro hsame
    exact hsame.disp.symm
  · intro hdisp
    refine ⟨_, congrArg (fun disp => (⟨disp, d.code, ⟨none, _, 0, 0⟩, _⟩ : Decoder)) hdisp.symm, ?_⟩
    exact ⟨rfl, rfl, rfl, fun i hi => absurd hi (Nat.not_lt_zero i)⟩

/-! ### SET COLOR -/

theorem pdiSwitch_rep (hop : op ≠ 0x3C) (d : Display) (p : Nat → Nat) (n rep : Nat) :
    pdiSwitch arc d op p n rep = pdiSwitch arc d op p n 0 := by
  unfold pdiSwitch
  split <;> first | rfl | exact absurd rfl hop

/-- The place of an address in the order SET COLOR counts in. -/
def addrRank (a : Nat) : Nat := a % 2 * 8 + a / 2 % 2 * 4 + a / 4 % 2 * 2 + a / 8 % 2

theorem cmapNextAddr_rank {a b : Nat} (ha : a < cmapSize) (h : cmapNextAddr a = some b) :
    b < cmapSize ∧ addrRank b = addrRank a + 1 := by
  have hall : ∀ a < 16, ∀ b, cmapNextAddr a = some b → b < 16 ∧ addrRank b = addrRank a + 1 := by
    decide
  exact hall a ha b h

theorem cmapWalk_rank {rep a b : Nat} (ha : a < cmapSize) (h : cmapWalk rep a = some b) :
    b < cmapSize ∧ addrRank b = addrRank a + rep := by
  induction rep generalizing a with
  | zero =>
      cases h
      exact ⟨ha, rfl⟩
  | succ rep ih =>
      cases hnext : cmapNextAddr a with
      | none =>
          rw [cmapWalk, hnext] at h
          cases h
      | some a' =>
          rw [cmapWalk, hnext] at h
          have hstep := cmapNextAddr_rank ha hnext
          have hrest := ih hstep.1 h
          exact ⟨hrest.1, by omega⟩

/-- An entry that holds the colour and counts as used. -/
def Loaded (d : Display) (c : Color) (a : Nat) : Prop :=
  d.surf.cmap a = c ∧ d.draw.cmapUsed a = true

theorem loadCmap_of_loaded {d : Display} {c : Color} {a : Nat} (ha : a < cmapSize)
    (h : Loaded d c a) : loadCmap d a c = markDrew (findBw d) := by
  have hcmap : Function.update d.surf.cmap (a % cmapSize) c = d.surf.cmap := by
    rw [Nat.mod_eq_of_lt ha, ← h.1, Function.update_eq_self]
  have hused : Function.update d.draw.cmapUsed (a % cmapSize) true = d.draw.cmapUsed := by
    rw [Nat.mod_eq_of_lt ha, ← h.2, Function.update_eq_self]
  rw [loadCmap, hcmap, hused]

theorem loaded_of_update {d : Display} {c : Color} {a b : Nat} (hne : a ≠ b)
    (hcmap : Function.update d.surf.cmap a c = Function.update d.surf.cmap b c)
    (hused : Function.update d.draw.cmapUsed a true = Function.update d.draw.cmapUsed b true) :
    Loaded d c a := by
  have hcolor := congrFun hcmap a
  have hmark := congrFun hused a
  rw [Function.update_self, Function.update_of_ne hne] at hcolor hmark
  exact ⟨hcolor.symm, hmark.symm⟩

/-- What SET COLOR leaves with a colour map in use, but for the count of its executions. -/
theorem setColor_short_iff {d : Display} {p : Nat → Nat} {n rep : Nat} (hok : d.Ok)
    (hmode : d.draw.colorMode ≠ 0) (hrep : 0 < rep) :
    lessShort (pdiSwitch arc d 0x3C p n 0) = lessShort (pdiSwitch arc d 0x3C p n rep) ↔
      ∃ a, cmapWalk rep d.draw.drawAddr = some a ∧ Loaded d (unpackColor d.dom p) a ∧
        Loaded d (unpackColor d.dom p) d.draw.drawAddr := by
  simp only [pdiSwitch, execSetColor, if_neg hmode, cmapWalk]
  cases hwalk : cmapWalk rep d.draw.drawAddr with
  | none =>
      -- The sequence has run out of entries: the set is only counted.
      refine ⟨fun heq => ?_, fun hno => ?_⟩
      swap
      · obtain ⟨_, hnone, _⟩ := hno
        cases hnone
      have hskip : d.st.pdiSkipped = d.st.pdiSkipped + 1 := congrArg (·.st.pdiSkipped) heq
      simp at hskip
  | some a =>
      have hrank := cmapWalk_rank hok.drawAddr hwalk
      have hne : a ≠ d.draw.drawAddr := by
        rintro rfl
        omega
      have hmod := Nat.mod_eq_of_lt hok.drawAddr
      have hmod' := Nat.mod_eq_of_lt hrank.1
      constructor
      · intro heq
        have hcmap := congrArg (·.surf.cmap) heq
        have hused := congrArg (·.draw.cmapUsed) heq
        simp only [lessShort, loadCmap, markDrew, findBw, hmod, hmod'] at hcmap hused
        exact ⟨a, rfl, loaded_of_update hne hcmap.symm hused.symm,
          loaded_of_update hne.symm hcmap hused⟩
      · intro hloaded
        obtain ⟨b, hb, ha, hdraw⟩ := hloaded
        obtain rfl := Option.some.inj hb
        dsimp only
        rw [loadCmap_of_loaded hok.drawAddr hdraw, loadCmap_of_loaded hrank.1 ha]

/-- In the modes without a colour map address the executions of SET COLOR are alike. -/
theorem setColor_mode0 {d : Display} (hmode : d.draw.colorMode = 0) (p : Nat → Nat) (n rep : Nat) :
    pdiSwitch arc d 0x3C p n 0 = pdiSwitch arc d 0x3C p n rep := by
  simp only [pdiSwitch, execSetColor, if_pos hmode]

/-! ### Whole sequences -/

/-- The bytes that complete the last set of a sequence. -/
def missing (need : Nat) (ops : List Nat) : List Nat :=
  List.replicate (need - ops.length % need) 0x40

theorem pdiOpcode_repeating (hok : d.Ok) (hrep : (pdiDesc op).mode = .rep) :
    Repeating (pdiOpcode arc d op) op (setBytes (pdiOpcode arc d op).disp.dom op) := by
  have hterm := (@pdiTerminate_ok arc _ hok).disp
  exact
    { isOpen := rfl, rep := hrep, size := rfl
      room := (setBytes_le hterm.mvLen.2 hterm.svLen.2 op).trans (by decide)
      short := setSize_pos (l := ⟨_, (pdiTerminate arc d).disp.dom.mvLen⟩) hrep hterm.mvLen.1 }

theorem operands_disp_ok (hok : d.disp.Ok) (hopen : Repeating d op need) (ops : List Nat) :
    (operands arc d ops).disp.Ok := by
  induction ops generalizing d with
  | nil => exact hok
  | cons b ops ih =>
      refine ih ?_ (hopen.operand b)
      by_cases hfull : d.pdi.oplen + 1 = need
      · rw [hopen.complete hfull]
        exact pdiSwitch_ok arc hok _ _ _ _
      · rw [hopen.fill (by have := hopen.short; omega)]
        exact hok

/-- A sequence of a repeating opcode that ends inside of a set leaves the state that the missing
bytes, fed as zeros, would have left. Only SET COLOR does not, in the modes with a colour map and after
a full set: the rest loads the entry at the drawing address and not the one the sequence has reached.
There the two agree where both entries already hold the colour. -/
theorem padding_iff (arc : ArcPoints) (d : Decoder) (hok : d.Ok) (op : Nat)
    (hrep : (pdiDesc op).mode = .rep) (need : Nat)
    (hneed : need = setBytes (pdiOpcode arc d op).disp.dom op) (ops : List Nat)
    (hpart : ops.length % need ≠ 0) (e : Decoder)
    (he : e = operands arc (pdiOpcode arc d op) ops) :
    SameButShort (pdiTerminate arc e) (pdiTerminate arc (operands arc e (missing need ops))) ↔
      op ≠ 0x3C ∨ ops.length < need ∨ e.disp.draw.colorMode = 0 ∨
        ∃ a, cmapWalk (ops.length / need) e.disp.draw.drawAddr = some a ∧
          Loaded e.disp (unpackColor e.disp.dom (padSet e.pdi)) a ∧
          Loaded e.disp (unpackColor e.disp.dom (padSet e.pdi)) e.disp.draw.drawAddr := by
  have hstart : Repeating (pdiOpcode arc d op) op need := hneed ▸ pdiOpcode_repeating hok hrep
  have hpos : 0 < need := Nat.zero_lt_of_lt hstart.short
  obtain ⟨hopen, hlen, hreps⟩ := hstart.operands ⟨rfl, rfl⟩ ops
  have hdisp : e.disp.Ok :=
    he ▸ operands_disp_ok (d := pdiOpcode arc d op) (@pdiTerminate_ok arc _ hok).disp hstart
      ops
  rw [← he] at hopen hlen hreps
  have hmissing : missing need ops = List.replicate (need - e.pdi.oplen) 0x40 := by
    rw [missing, hlen]
  rw [hmissing, hopen.sameButShort_iff (by omega), hreps]
  by_cases hop : op = 0x3C
  · subst hop
    by_cases hfirst : ops.length < need
    · rw [Nat.div_eq_of_lt hfirst]
      simp [hfirst]
    · by_cases hmode : e.disp.draw.colorMode = 0
      · simp only [setColor_mode0 hmode _ _ (ops.length / need), hmode, true_or, or_true]
      · rw [setColor_short_iff hdisp hmode (Nat.div_pos (Nat.not_lt.mp hfirst) hpos)]
        simp only [ne_eq, not_true_eq_false, hfirst, hmode, false_or]
  · rw [pdiSwitch_rep hop _ _ _ (ops.length / need)]
    simp [hop]

end

/-- Colour mode 1 with drawing address 0. -/
def paletteDecoder : Decoder := feed noArc create [0x0E, 0x3E, 0x40]

/-- A POINT that is cut off after its first byte is padded. -/
theorem padding_point :
    SameButShort (pdiTerminate noArc (operands noArc (pdiOpcode noArc create 0x24) [0x61]))
      (pdiTerminate noArc (operands noArc (operands noArc (pdiOpcode noArc create 0x24) [0x61])
        (missing 3 [0x61]))) :=
  (padding_iff noArc create create_ok 0x24 rfl 3 rfl [0x61] (by decide) _ rfl).mpr
    (.inl (by decide))

/-- The second, short set of SET COLOR loads the first entry again. -/
theorem padding_setColor : ¬∀ (arc : ArcPoints) (d : Decoder), d.Ok → ∀ op,
    (pdiDesc op).mode = .rep → ∀ ops : List Nat,
    ops.length % setBytes (pdiOpcode arc d op).disp.dom op ≠ 0 →
    SameButShort (pdiTerminate arc (operands arc (pdiOpcode arc d op) ops))
      (pdiTerminate arc (operands arc (operands arc (pdiOpcode arc d op) ops)
        (missing (setBytes (pdiOpcode arc d op).disp.dom op) ops))) := by
  intro hall
  have hsame := hall noArc paletteDecoder (feed_ok create_ok _) 0x3C rfl [0x7F, 0x7F, 0x7F, 0x7F]
    (by decide)
  have hcmap := congrArg (fun disp => disp.surf.cmap 0) hsame.disp
  revert hcmap
  decide

end UnicornSuite.Naplps
