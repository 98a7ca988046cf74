import UnicornSuite.LibBlocks
import UnicornSuite.NaplpsOperands

/-! Segmentation of the picture description instructions. `reference` is the grammar: a stream of
opcodes and operands falls into sequences, an accumulating opcode is executed once with all of its
operands when the next opcode arrives, a repeating opcode once for each full set and once more for a
short rest. `feed_trace` says that the executions of the decoder are the ones of the grammar. -/

namespace UnicornSuite.Naplps

open Blocks

/-! ### The grammar -/

/-- The lengths of single-value and multi-value operands. -/
structure Lengths where
  sv : Nat
  mv : Nat

/-- The bytes of a full set of operands. -/
def Lengths.setSize (l : Lengths) (op : Nat) : Nat :=
  (pdiDesc op).nfixed + (pdiDesc op).nmulti * l.mv + (pdiDesc op).nsingle * l.sv

/-- The lengths after a sequence: DOMAIN sets them, RESET restores the defaults. -/
def Lengths.after (l : Lengths) (op : Nat) (ops : List Nat) : Lengths :=
  match op, ops with
  | 0x20, b1 :: _ => if b1 % 2 = 1 then ⟨1, 3⟩ else l
  | 0x21, b1 :: _ => ⟨b1 % 4 + 1, b1 / 4 % 8 + 1⟩
  | _, _ => l

/-- Each opcode of a stream with the operands up to the next one. Operands before the first opcode
belong to none. -/
def segments : List Nat → List (Nat × List Nat)
  | [] => []
  | b :: bs =>
      if b < 0x40 then (b, bs.takeWhile (0x40 ≤ ·)) :: segments bs else segments bs

/-- A set of operands padded to `n` bytes. -/
def padded (n : Nat) (ops : List Nat) : List Nat := ops ++ List.replicate (n - ops.length) 0x40

/-- The executions of a sequence that is still open. -/
def openTrace (l : Lengths) (op : Nat) (ops : List Nat) : List (Nat × List Nat) :=
  match (pdiDesc op).mode with
  | .rep => (fullBlocks (l.setSize op) ops).map (op, ·)
  | .accum => []

/-- The executions that its end adds. -/
def closingTrace (l : Lengths) (op : Nat) (ops : List Nat) : List (Nat × List Nat) :=
  match (pdiDesc op).mode with
  | .rep =>
      if remainder (l.setSize op) ops = [] then []
      else [(op, padded (l.setSize op) (remainder (l.setSize op) ops))]
  | .accum => [(op, ops.take opbufMax)]

/-- The executions of a whole sequence. -/
def sequenceTrace (l : Lengths) (op : Nat) (ops : List Nat) : List (Nat × List Nat) :=
  openTrace l op ops ++ closingTrace l op ops

/-- The executions of a list of sequences of which the last is open. -/
def reference (l : Lengths) : List (Nat × List Nat) → List (Nat × List Nat)
  | [] => []
  | [(op, ops)] => openTrace l op ops
  | (op, ops) :: seq :: seqs =>
      sequenceTrace l op ops ++ reference (l.after op ops) (seq :: seqs)

/-- The operands of a sequence that are executed: all of them, up to the size of the store where they
have to wait for the end. -/
def executedOps (op : Nat) (ops : List Nat) : List Nat :=
  match (pdiDesc op).mode with
  | .rep => ops
  | .accum => ops.take opbufMax

/-- The executions of a sequence are of its own opcode. -/
theorem sequenceTrace_op {l : Lengths} {op : Nat} {ops : List Nat} {e : Nat × List Nat}
    (he : e ∈ sequenceTrace l op ops) : e.1 = op := by
  rw [sequenceTrace, List.mem_append] at he
  unfold openTrace closingTrace at he
  split at he
  · rcases he with he | he
    · obtain ⟨block, _, rfl⟩ := List.mem_map.mp he
      rfl
    · split_ifs at he
      · cases he
      · rw [List.mem_singleton.mp he]
  · simp_all

/-- They use each operand once and in order, and nothing else but padding at the end. -/
theorem sequenceTrace_operands (l : Lengths) (op : Nat) (ops : List Nat) :
    ∃ pad, ((sequenceTrace l op ops).map Prod.snd).flatten =
      executedOps op ops ++ List.replicate pad 0x40 := by
  unfold sequenceTrace openTrace closingTrace executedOps
  split
  · have hblocks : (((fullBlocks (l.setSize op) ops).map (op, ·)).map Prod.snd).flatten ++
        remainder (l.setSize op) ops = ops := by
      rw [List.map_map, Function.comp_def, List.map_id']
      exact flatten_fullBlocks ops
    split_ifs with hrest
    · refine ⟨0, ?_⟩
      rw [hrest] at hblocks
      simpa using hblocks
    · refine ⟨l.setSize op - (remainder (l.setSize op) ops).length, ?_⟩
      rw [List.map_append, List.flatten_append]
      simp only [List.map_cons, List.map_nil, List.flatten_cons, List.flatten_nil, List.append_nil,
        padded]
      rw [← List.append_assoc, hblocks]
  · exact ⟨0, by simp⟩

/-! ### The operand store as a list -/

def storeList (q : PdiSeq) : List Nat := (List.range q.oplen).map q.opbuf

theorem length_storeList (q : PdiSeq) : (storeList q).length = q.oplen := by simp [storeList]

theorem storeList_storeOperand (q : PdiSeq) (b : Nat) :
    storeList (storeOperand q b) = storeList q ++ [b] := by
  simp only [storeList, storeOperand, List.range_succ, List.map_append, List.map_cons,
    List.map_nil, Function.update_self]
  refine congrArg (· ++ [b]) (List.map_congr_left fun i hi => ?_)
  exact Function.update_of_ne (List.mem_range.mp hi).ne _ _

theorem storeList_shiftSet {q : PdiSeq} {need : Nat} (h : q.oplen = need) :
    storeList (shiftSet q need) = [] := by
  have hlen : (shiftSet q need).oplen = 0 := by simp only [shiftSet, h, Nat.sub_self]
  rw [storeList, hlen]
  rfl

theorem map_range_opbuf {q : PdiSeq} {n : Nat} (hn : n = q.oplen) :
    (List.range n).map q.opbuf = storeList q := by rw [hn, storeList]

theorem map_range_padSet {q : PdiSeq} {n : Nat} (hn : q.oplen ≤ n) :
    (List.range n).map (padSet q) = padded n (storeList q) := by
  refine List.ext_getElem ?_ fun i hi hi' => ?_
  · simp [padded, length_storeList, hn]
  · simp only [List.getElem_map, List.getElem_range, padSet, padded, List.getElem_append,
      length_storeList]
    split_ifs
    · simp [storeList]
    · simp

/-! ### Executing sets -/

section

variable {arc : ArcPoints} {d : Decoder}

theorem executeSets_of_lt {op need : Nat} (rounds : Nat) (h : d.pdi.oplen < need) :
    executeSets arc op need rounds d = d := by
  cases rounds with
  | zero => rfl
  | succ rounds => rw [executeSets, if_neg (by omega)]

/-- A store that holds exactly one set is executed and emptied. -/
theorem executeSets_of_eq {op need : Nat} (hpos : 0 < need) (h : d.pdi.oplen = need) :
    executeSets arc op need d.pdi.oplen d =
      { pdiExecuteSet arc d op d.pdi.opbuf need d.pdi.reps with pdi := shiftSet d.pdi need } := by
  obtain ⟨rounds, hrounds⟩ : ∃ rounds, d.pdi.oplen = rounds + 1 := ⟨d.pdi.oplen - 1, by omega⟩
  rw [hrounds, executeSets, if_pos (by omega)]
  exact executeSets_of_lt rounds (by simp only [shiftSet, pdiExecuteSet]; omega)

theorem pdiOperand_rep {op need : Nat} (hop : d.pdi.op = some op) (hrep : (pdiDesc op).mode = .rep)
    (hneed : setBytes d.disp.dom op = need) (hsize : need ≤ opbufMax) (hlt : d.pdi.oplen < need)
    (b : Nat) :
    pdiOperand arc d b = executeSets arc op need (d.pdi.oplen + 1)
      { d with pdi := storeOperand d.pdi b } := by
  unfold pdiOperand
  simp only [hop, hrep, hneed, ne_eq, not_true_eq_false, if_false]
  rw [if_pos (by omega), if_neg (by omega)]
  rfl

/-- An operand of a repeating opcode that leaves its set short is stored. -/
theorem pdiOperand_of_lt {op need : Nat} (hop : d.pdi.op = some op)
    (hrep : (pdiDesc op).mode = .rep) (hneed : setBytes d.disp.dom op = need)
    (hsize : need ≤ opbufMax) (hlt : d.pdi.oplen + 1 < need) (b : Nat) :
    pdiOperand arc d b = { d with pdi := storeOperand d.pdi b } := by
  rw [pdiOperand_rep hop hrep hneed hsize (by omega)]
  exact executeSets_of_lt _ (by simp only [storeOperand]; omega)

/-- One that completes its set has it executed. -/
theorem pdiOperand_of_eq {op need : Nat} (hop : d.pdi.op = some op)
    (hrep : (pdiDesc op).mode = .rep) (hneed : setBytes d.disp.dom op = need)
    (hsize : need ≤ opbufMax) (hfull : d.pdi.oplen + 1 = need) (b : Nat) :
    pdiOperand arc d b =
      { pdiExecuteSet arc { d with pdi := storeOperand d.pdi b } op (storeOperand d.pdi b).opbuf
          need d.pdi.reps with
        pdi := shiftSet (storeOperand d.pdi b) need } := by
  rw [pdiOperand_rep hop hrep hneed hsize (by omega)]
  exact executeSets_of_eq (d := { d with pdi := storeOperand d.pdi b }) (by omega) hfull

/-! ### Bytes of the PDI set -/

/-- The PDI set is in use on the left side and nothing waits for the next byte. -/
structure CodeState.Ready (c : CodeState) : Prop where
  mode : c.mode = .naplps
  gset : c.gset (c.gl % 4) = .pdi
  singleShift : c.singleShift = none
  escstate : c.escstate = .none
  pend : c.pend = .none
  swallow : c.swallow = false

theorem selectEnvironment_of_lt {b : Nat} (hb : b < 128) : selectEnvironment d b = d := by
  have hbit : (b / 128 % 2 == 1) = false := by
    rw [Nat.div_eq_of_lt hb]
    rfl
  simp only [selectEnvironment, hbit, Bool.or_false]

theorem setShift_of_ready (hr : d.code.Ready) : setShift d none = d := by
  rw [setShift, ← hr.singleShift]

theorem feedByte_of_ready (hr : d.code.Ready) {b : Nat} (hb : b < 128) :
    feedByte arc d b = feedMain arc d b := by
  unfold feedByte
  rw [selectEnvironment_of_lt hb, Nat.mod_eq_of_lt hb]
  simp [hr.escstate, feedPlain, hr.pend]

theorem feedOne_transparent (hr : d.code.Ready) {b : UInt8} (hb : transparentC0 b.toNat = true) :
    feedOne arc d b = onDisplay d countByte := by
  have hlow : b.toNat < 0x20 := by
    simp only [transparentC0, Bool.or_eq_true, Bool.and_eq_true, decide_eq_true_eq] at hb
    omega
  rw [feedOne, feedByte_of_ready (d := onDisplay d countByte) hr (by omega), feedMain]
  simp [onDisplay, hr.mode, hlow, handleC0, hb]

/-- The bytes of columns 2 to 7 go to the two handlers of the PDI set. -/
theorem feedOne_graphic (hr : d.code.Ready) {b : UInt8} (hlo : 0x20 ≤ b.toNat)
    (hhi : b.toNat < 0x80) :
    feedOne arc d b =
      if b.toNat / 64 % 2 = 1 then pdiOperand arc (onDisplay d countByte) b.toNat
      else pdiOpcode arc (onDisplay d countByte) b.toNat := by
  have hr' : (onDisplay d countByte).code.Ready := hr
  rw [feedOne, feedByte_of_ready hr' hhi, feedMain]
  simp only [hr'.mode, reduceCtorEq, if_false, if_neg (Nat.not_lt.mpr hlo), hr'.swallow,
    Bool.false_eq_true, hr'.singleShift, Option.getD_none]
  rw [if_neg (by omega), if_neg (by omega), handleGraphic, setShift_of_ready hr']
  simp only [hr'.gset]

/-! ### Following the grammar -/

/-- What the store holds of the operands of the open sequence. -/
def stored (l : Lengths) (op : Nat) (ops : List Nat) : List Nat :=
  match (pdiDesc op).mode with
  | .rep => remainder (l.setSize op) ops
  | .accum => ops.take opbufMax

/-- The executions so far of the open sequence. -/
def currentTrace (l : Lengths) : Option (Nat × List Nat) → List (Nat × List Nat)
  | none => []
  | some (op, ops) => openTrace l op ops

/-- The decoder has executed `done` for the closed sequences, its operand lengths are `l` and the
open sequence is `cur`. -/
structure Tracks (d : Decoder) (done : List (Nat × List Nat)) (l : Lengths)
    (cur : Option (Nat × List Nat)) : Prop where
  ok : d.Ok
  ready : d.code.Ready
  lengths : (⟨d.disp.dom.svLen, d.disp.dom.mvLen⟩ : Lengths) = l
  op : d.pdi.op = cur.map Prod.fst
  store : ∀ op ops, cur = some (op, ops) → storeList d.pdi = stored l op ops
  trace : d.trace = done ++ currentTrace l cur

variable {done : List (Nat × List Nat)} {l : Lengths} {cur : Option (Nat × List Nat)}

theorem Tracks.countByte (h : Tracks d done l cur) : Tracks (onDisplay d countByte) done l cur :=
  { h with ok := countByte_ok h.ok }

theorem Tracks.setBytes_eq (h : Tracks d done l cur) (op : Nat) :
    setBytes d.disp.dom op = l.setSize op := by
  rw [← h.lengths]
  rfl

/-- A repeating opcode takes one operand at least. -/
theorem setSize_pos {op : Nat} (hrep : (pdiDesc op).mode = .rep) (hmv : 1 ≤ l.mv) :
    0 < l.setSize op := by
  have hmulti : 1 ≤ (pdiDesc op).nmulti := by
    unfold pdiDesc at hrep ⊢
    split at hrep <;> revert hrep <;> decide
  have := Nat.mul_le_mul hmulti hmv
  simp only [Lengths.setSize]
  omega

theorem Tracks.mv_pos (h : Tracks d done l cur) : 1 ≤ l.mv := by
  rw [← h.lengths]
  exact h.ok.disp.mvLen.1

/-! ### The lengths after a sequence -/

theorem after_eq_self {op : Nat} (hreset : op ≠ 0x20) (hdomain : op ≠ 0x21) (l : Lengths)
    (ops : List Nat) : l.after op ops = l := by
  unfold Lengths.after
  split
  · exact absurd rfl hreset
  · exact absurd rfl hdomain
  · rfl

theorem after_take (l : Lengths) (op : Nat) (ops : List Nat) {k : Nat} (hk : 0 < k) :
    l.after op (ops.take k) = l.after op ops := by
  obtain ⟨k, rfl⟩ : ∃ m, k = m + 1 := ⟨k - 1, by omega⟩
  cases ops with
  | nil => rfl
  | cons b1 ops => rw [List.take_succ_cons]; unfold Lengths.after; split <;> simp_all

theorem cursorMoved_dom (d : Display) : (cursorMoved d).dom = d.dom := by
  rw [cursorMoved]
  split_ifs <;> rfl

theorem resetColorBits_dom (d : Display) (bits : Nat) : (resetColorBits d bits).dom = d.dom := by
  unfold resetColorBits
  split <;> rfl

theorem clearBits_dom (d : Display) (bits : Nat) : (clearBits d bits).dom = d.dom := by
  unfold clearBits
  split <;> rfl

theorem execReset_dom (d : Display) (p : Nat → Nat) (n : Nat) :
    (execReset d p n).dom =
      if (if n > 0 then p 0 % 64 else 0) % 2 = 1 then (resetDomain d).dom else d.dom := by
  unfold execReset
  extract_lets b1 b2 d1 d2 d3
  have h1 : d1.dom = if b1 % 2 = 1 then (resetDomain d).dom else d.dom := by
    simp only [d1]
    split_ifs <;> rfl
  have h2 : d2.dom = d1.dom := (clearBits_dom _ _).trans (resetColorBits_dom _ _)
  have h3 : d3.dom = d2.dom := by
    simp only [d3]
    split_ifs
    · exact cursorMoved_dom _
    · rfl
  rw [← h1, ← h2, ← h3]
  split_ifs <;> rfl

theorem execDomain_lengths (d : Display) (p : Nat → Nat) {n : Nat} (hn : 0 < n) :
    (execDomain d p n).dom.svLen = p 0 % 64 % 4 + 1 ∧
      (execDomain d p n).dom.mvLen = p 0 % 64 / 4 % 8 + 1 := by
  unfold execDomain
  rw [if_neg (by omega)]
  dsimp only
  split_ifs <;> exact ⟨rfl, rfl⟩

/-- An execution changes the operand lengths the way the grammar says. -/
theorem pdiSwitch_lengths (arc : ArcPoints) (d : Display) (op : Nat) (p : Nat → Nat) (n rep : Nat) :
    (⟨(pdiSwitch arc d op p n rep).dom.svLen, (pdiSwitch arc d op p n rep).dom.mvLen⟩ : Lengths) =
      (⟨d.dom.svLen, d.dom.mvLen⟩ : Lengths).after op ((List.range n).map p) := by
  by_cases hreset : op = 0x20
  · subst hreset
    simp only [pdiSwitch, execReset_dom]
    cases n with
    | zero => simp [Lengths.after]
    | succ n =>
        simp only [List.range_succ_eq_map, List.map_cons, Lengths.after, Nat.succ_pos, if_true]
        rw [Nat.mod_mod_of_dvd _ (by decide)]
        split_ifs <;> rfl
  · by_cases hdomain : op = 0x21
    · subst hdomain
      cases n with
      | zero => simp [pdiSwitch, execDomain, Lengths.after]
      | succ n =>
          obtain ⟨hsv, hmv⟩ := execDomain_lengths d p n.succ_pos
          simp only [pdiSwitch, hsv, hmv, List.range_succ_eq_map, List.map_cons, Lengths.after,
            Lengths.mk.injEq]
          omega
    · rw [pdiSwitch_dom arc hreset hdomain, after_eq_self hreset hdomain]

/-! ### One byte -/

/-- An operand of an accumulating opcode is stored while there is room. -/
theorem Tracks.operand_accum {op : Nat} {ops : List Nat} (h : Tracks d done l (some (op, ops)))
    (haccum : (pdiDesc op).mode = .accum) (b : Nat) :
    Tracks (pdiOperand arc d b) done l (some (op, ops ++ [b])) := by
  have hop : d.pdi.op = some op := h.op
  have hstore : storeList d.pdi = ops.take opbufMax := by
    rw [h.store op ops rfl, stored, haccum]
  have htrace : d.trace = done ++ openTrace l op (ops ++ [b]) := by
    simpa only [currentTrace, openTrace, haccum] using h.trace
  have hlen : d.pdi.oplen = min opbufMax ops.length := by
    rw [← length_storeList, hstore, List.length_take]
  have hresult : pdiOperand arc d b =
      if d.pdi.oplen < opbufMax then { d with pdi := storeOperand d.pdi b } else d := by
    unfold pdiOperand
    simp [hop, haccum]
  refine
    { ok := pdiOperand_ok h.ok b, ready := ?_, lengths := ?_, op := ?_, store := ?_, trace := ?_ }
    <;> rw [hresult]
  · split_ifs <;> exact h.ready
  · split_ifs <;> exact h.lengths
  · split_ifs <;> exact h.op
  · rintro op' ops' ⟨⟩
    rw [stored, haccum]
    split_ifs with hroom
    · rw [storeList_storeOperand, hstore, List.take_of_length_le (by omega),
        List.take_of_length_le (by rw [List.length_append, List.length_singleton]; omega)]
    · rw [hstore, List.take_append_of_le_length (by omega)]
  · split_ifs <;> exact htrace

/-- An operand of a repeating opcode is stored, or completes a set that is executed at once. -/
theorem Tracks.operand_rep {op : Nat} {ops : List Nat} (h : Tracks d done l (some (op, ops)))
    (hrep : (pdiDesc op).mode = .rep) (b : Nat) :
    Tracks (pdiOperand arc d b) done l (some (op, ops ++ [b])) := by
  have hop : d.pdi.op = some op := h.op
  have hpos := setSize_pos hrep h.mv_pos
  have hstore : storeList d.pdi = remainder (l.setSize op) ops := by
    rw [h.store op ops rfl, stored, hrep]
  have htrace : d.trace = done ++ (fullBlocks (l.setSize op) ops).map (op, ·) := by
    simpa only [currentTrace, openTrace, hrep] using h.trace
  have hlen : d.pdi.oplen = ops.length % l.setSize op := by
    rw [← length_storeList, hstore, length_remainder]
  have hlt : d.pdi.oplen < l.setSize op := by
    rw [hlen]
    exact Nat.mod_lt _ hpos
  have hsize : l.setSize op ≤ 24 := by
    rw [← h.setBytes_eq]
    exact setBytes_le h.ok.disp.mvLen.2 h.ok.disp.svLen.2 op
  have hroom : l.setSize op ≤ opbufMax := by
    simp only [opbufMax]
    omega
  have hstored : storeList (storeOperand d.pdi b) = remainder (l.setSize op) ops ++ [b] := by
    rw [storeList_storeOperand, hstore]
  by_cases hfull : d.pdi.oplen + 1 = l.setSize op
  · have hmod : ops.length % l.setSize op + 1 = l.setSize op := by rw [← hlen, hfull]
    have hexec := @pdiOperand_of_eq arc _ _ _ hop hrep (h.setBytes_eq op) hroom hfull b
    have hops : (List.range (l.setSize op)).map (storeOperand d.pdi b).opbuf =
        remainder (l.setSize op) ops ++ [b] := by
      rw [map_range_opbuf (by rw [← hfull]; rfl), hstored]
    refine
      { ok := pdiOperand_ok h.ok b, ready := ?_, lengths := ?_, op := ?_, store := ?_, trace := ?_ }
      <;> rw [hexec]
    · exact h.ready
    · rw [← h.lengths]
      simp only [pdiExecuteSet, pdiSwitch_dom_of_rep arc hrep]
    · exact h.op
    · rintro op' ops' ⟨⟩
      rw [stored, hrep]
      simp only [remainder_concat_full hpos hmod]
      exact storeList_shiftSet hfull
    · simp only [pdiExecuteSet, hops, htrace, currentTrace, openTrace, hrep,
        fullBlocks_concat_full hpos hmod, List.map_append, List.map_cons, List.map_nil,
        List.append_assoc]
  · have hmod : ops.length % l.setSize op + 1 < l.setSize op := by omega
    have hkeep := @pdiOperand_of_lt arc _ _ _ hop hrep (h.setBytes_eq op) hroom (by omega) b
    refine
      { ok := pdiOperand_ok h.ok b, ready := ?_, lengths := ?_, op := ?_, store := ?_, trace := ?_ }
      <;> rw [hkeep]
    · exact h.ready
    · exact h.lengths
    · exact h.op
    · rintro op' ops' ⟨⟩
      rw [stored, hrep, hstored, remainder_concat_lt hpos hmod]
    · simp only [htrace, currentTrace, openTrace, hrep, fullBlocks_concat_lt hpos hmod]

theorem Tracks.operand {op : Nat} {ops : List Nat} (h : Tracks d done l (some (op, ops))) (b : Nat) :
    Tracks (pdiOperand arc d b) done l (some (op, ops ++ [b])) := by
  cases hmode : (pdiDesc op).mode with
  | rep => exact h.operand_rep hmode b
  | accum => exact h.operand_accum hmode b

variable (arc) in
/-- What the end of a sequence executes. -/
theorem Tracks.executeRest_trace {op : Nat} {ops : List Nat} (h : Tracks d done l (some (op, ops))) :
    (executeRest arc (setOpenOp d none) op).trace = d.trace ++ closingTrace l op ops ∧
      (⟨(executeRest arc (setOpenOp d none) op).disp.dom.svLen,
        (executeRest arc (setOpenOp d none) op).disp.dom.mvLen⟩ : Lengths) = l.after op ops := by
  have hstore := h.store op ops rfl
  have hsize := setBytes_le h.ok.disp.mvLen.2 h.ok.disp.svLen.2 op
  unfold executeRest
  cases hmode : (pdiDesc op).mode with
  | accum =>
      rw [stored, hmode] at hstore
      have hops : (List.range d.pdi.oplen).map d.pdi.opbuf = ops.take opbufMax := hstore
      simp only [if_true, closingTrace, hmode, pdiExecuteSet, pdiSwitch_lengths]
      refine ⟨by simp only [setOpenOp, hops], ?_⟩
      simp only [setOpenOp, hops, h.lengths]
      exact after_take l op ops (by decide)
  | rep =>
      rw [stored, hmode] at hstore
      have hne : op ≠ 0x20 ∧ op ≠ 0x21 ∧ op ≠ 0x3E := by
        refine ⟨?_, ?_, ?_⟩ <;> rintro rfl <;> cases hmode
      have hset := h.setBytes_eq op
      have hpos := setSize_pos hmode h.mv_pos
      have hlen : d.pdi.oplen = (remainder (l.setSize op) ops).length := by
        rw [← length_storeList, hstore]
      have hdesc : ¬((pdiDesc op).nfixed = 0 ∧ (pdiDesc op).nmulti = 0 ∧ (pdiDesc op).nsingle = 0) := by
        rintro ⟨h1, h2, h3⟩
        simp [Lengths.setSize, h1, h2, h3] at hpos
      rw [after_eq_self hne.1 hne.2.1, closingTrace, hmode]
      dsimp only
      simp only [hmode, reduceCtorEq, if_false, if_neg hdesc, hne.1, hne.2.2, or_self]
      by_cases hrest : remainder (l.setSize op) ops = []
      · have hzero : ¬(setOpenOp d none).pdi.oplen > 0 := by
          rw [show (setOpenOp d none).pdi.oplen = d.pdi.oplen from rfl, hlen, hrest]
          decide
        rw [if_neg hzero]
        simp only [hrest, if_true, List.append_nil]
        exact ⟨rfl, h.lengths⟩
      · have hsome : (setOpenOp d none).pdi.oplen > 0 := by
          rw [show (setOpenOp d none).pdi.oplen = d.pdi.oplen from rfl, hlen]
          exact List.length_pos_iff.mpr hrest
        have hfit : (setOpenOp d none).pdi.oplen ≤ l.setSize op := by
          have := length_remainder_lt hpos ops
          rw [show (setOpenOp d none).pdi.oplen = d.pdi.oplen from rfl]
          omega
        rw [if_pos hsome, show setBytes (setOpenOp d none).disp.dom op = l.setSize op from hset,
          if_neg (by omega)]
        simp only [if_neg hrest, pdiExecuteSet, pdiSwitch_dom_of_rep arc hmode,
          map_range_padSet hfit]
        refine ⟨?_, h.lengths⟩
        exact congrArg (fun s => d.trace ++ [(op, padded (l.setSize op) s)]) hstore

theorem Tracks.terminate {op : Nat} {ops : List Nat} (h : Tracks d done l (some (op, ops))) :
    Tracks (pdiTerminate arc d) (done ++ sequenceTrace l op ops)
      (l.after op ops) none := by
  have hop : d.pdi.op = some op := h.op
  have hresult : pdiTerminate arc d = emptyStore (executeRest arc (setOpenOp d none) op) := by
    rw [pdiTerminate, hop]
  obtain ⟨htrace, hlengths⟩ := h.executeRest_trace arc
  have hcode : (executeRest arc (setOpenOp d none) op).code = d.code := executeRest_code _ _
  have hpdi : (executeRest arc (setOpenOp d none) op).pdi.op = none :=
    congrArg PdiSeq.op (executeRest_pdi _ _)
  refine
    { ok := pdiTerminate_ok h.ok, ready := ?_, lengths := ?_, op := ?_, store := nofun, trace := ?_ }
    <;> rw [hresult]
  · show (executeRest arc (setOpenOp d none) op).code.Ready
    rw [hcode]
    exact h.ready
  · exact hlengths
  · exact hpdi
  · show (executeRest arc (setOpenOp d none) op).trace = _
    rw [htrace, h.trace]
    simp only [currentTrace, sequenceTrace, List.append_nil, List.append_assoc]

theorem Tracks.openOp (h : Tracks d done l none) {b : Nat} (hlo : 0x20 ≤ b) (hhi : b ≤ 0x3F) :
    Tracks (emptyStore (setOpenOp d (some b))) done l (some (b, [])) where
  ok := emptyStore_ok (setOpenOp_ok h.ok fun _ hb => by cases hb; exact ⟨hlo, hhi⟩)
  ready := h.ready
  lengths := h.lengths
  op := rfl
  store := by
    rintro op ops ⟨⟩
    unfold stored
    split <;> simp [storeList, emptyStore]
  trace := by
    have htrace : d.trace = done := by simpa [currentTrace] using h.trace
    simp only [currentTrace, openTrace, fullBlocks_nil, List.map_nil]
    split <;> simp [emptyStore, setOpenOp, htrace]

/-! ### Whole streams -/

/-- What is still to be executed for a stream that continues the open sequence `cur`. -/
def continued (cur : Option (Nat × List Nat)) (bs : List Nat) : List (Nat × List Nat) :=
  match cur with
  | none => segments bs
  | some (op, ops) => (op, ops ++ bs.takeWhile (0x40 ≤ ·)) :: segments bs

/-- The bytes of a stream that are not transparent. -/
def pdiBytes (buf : List UInt8) : List Nat := (buf.map UInt8.toNat).filter (!transparentC0 ·)

/-- A byte of the PDI set or a transparent control. -/
def PdiStream (buf : List UInt8) : Prop :=
  ∀ b ∈ buf, transparentC0 b.toNat = true ∨ 0x20 ≤ b.toNat ∧ b.toNat < 0x80

theorem transparentC0_eq_false {b : Nat} (hb : 0x20 ≤ b) : transparentC0 b = false := by
  simp only [transparentC0, Bool.or_eq_false_iff, decide_eq_false_iff_not, Bool.and_eq_false_iff]
  omega

theorem feed_cons (b : UInt8) (buf : List UInt8) :
    feed arc d (b :: buf) = feed arc (feedOne arc d b) buf := rfl

theorem Tracks.feed {buf : List UInt8} (h : Tracks d done l cur) (hbuf : PdiStream buf) :
    (feed arc d buf).trace = done ++ reference l (continued cur (pdiBytes buf)) := by
  induction buf generalizing d done l cur with
  | nil =>
      rw [show (Naplps.feed arc d []).trace = d.trace from rfl, h.trace]
      cases cur with
      | none => rfl
      | some s => simp [currentTrace, continued, pdiBytes, segments, reference]
  | cons b buf ih =>
      have hrest : PdiStream buf := fun b' hb' => hbuf b' (List.mem_cons_of_mem _ hb')
      rw [feed_cons]
      rcases hbuf b List.mem_cons_self with htrans | ⟨hlo, hhi⟩
      · have hskip : pdiBytes (b :: buf) = pdiBytes buf := by simp [pdiBytes, htrans]
        rw [feedOne_transparent h.ready htrans, hskip]
        exact ih h.countByte hrest
      · have hkeep : pdiBytes (b :: buf) = b.toNat :: pdiBytes buf := by
          simp [pdiBytes, transparentC0_eq_false hlo]
        rw [feedOne_graphic h.ready hlo hhi, hkeep]
        by_cases hnum : b.toNat / 64 % 2 = 1
        · -- An operand lengthens the open sequence; without one it is dropped.
          have hge : ¬b.toNat < 0x40 := by omega
          rw [if_pos hnum]
          cases cur with
          | none =>
              have hop : (onDisplay d Naplps.countByte).pdi.op = none := h.op
              have hdrop : pdiOperand arc (onDisplay d Naplps.countByte) b.toNat =
                  onDisplay d Naplps.countByte := by rw [pdiOperand, hop]
              rw [hdrop, ih h.countByte hrest]
              simp only [continued, segments, if_neg hge]
          | some s =>
              rw [ih (h.countByte.operand b.toNat) hrest]
              simp only [continued, segments, if_neg hge, List.takeWhile_cons,
                decide_eq_true (Nat.not_lt.mp hge), if_true, List.append_assoc,
                List.singleton_append]
        · -- An opcode closes the open sequence and opens its own.
          have hlt : b.toNat < 0x40 := by omega
          rw [if_neg hnum]
          cases cur with
          | none =>
              have hop : (onDisplay d Naplps.countByte).pdi.op = none := h.op
              have hclosed : pdiTerminate arc (onDisplay d Naplps.countByte) =
                  onDisplay d Naplps.countByte := by rw [pdiTerminate, hop]
              rw [pdiOpcode, hclosed, ih (h.countByte.openOp hlo (by omega)) hrest]
              simp only [continued, segments, if_pos hlt, List.nil_append]
          | some s =>
              rw [pdiOpcode, ih (h.countByte.terminate.openOp hlo (by omega)) hrest]
              simp only [continued, segments, if_pos hlt, List.nil_append, List.append_assoc]
              rw [List.takeWhile_cons_of_neg (by simp; omega), List.append_nil]
              simp only [reference]

theorem Tracks.of_closed (hok : d.Ok) (hready : d.code.Ready) (hclosed : d.pdi.op = none) :
    Tracks d d.trace ⟨d.disp.dom.svLen, d.disp.dom.mvLen⟩ none where
  ok := hok
  ready := hready
  lengths := rfl
  op := hclosed
  store := nofun
  trace := (List.append_nil _).symm

/-- The executions of the decoder over a stream of the PDI set are the ones of the grammar. The
stream is arbitrary, so they are after each of its bytes. A sequence is executed under its own opcode
and its executions use its operands once and in order. -/
theorem feed_segmentation (arc : ArcPoints) (d : Decoder) (hok : d.Ok) (hready : d.code.Ready)
    (hclosed : d.pdi.op = none) (buf : List UInt8) (hbuf : PdiStream buf) :
    (feed arc d buf).trace =
        d.trace ++ reference ⟨d.disp.dom.svLen, d.disp.dom.mvLen⟩ (segments (pdiBytes buf)) ∧
      ∀ l op ops, (∀ e ∈ sequenceTrace l op ops, e.1 = op) ∧
        ∃ pad, ((sequenceTrace l op ops).map Prod.snd).flatten =
          executedOps op ops ++ List.replicate pad 0x40 :=
  ⟨(Tracks.of_closed hok hready hclosed).feed hbuf,
    fun l op ops => ⟨fun _ he => sequenceTrace_op he, sequenceTrace_operands l op ops⟩⟩

end

/-- An arc function that draws nothing. -/
def noArc : ArcPoints := ⟨fun _ _ _ _ _ _ => [], fun _ _ _ _ _ _ => Nat.zero_le _⟩

/-- DOMAIN sets the multi-value length to two; of the three operands of POINT a pair is executed at
once and the third at the next opcode. A NUL between them has no effect. -/
theorem feed_segmentation_domain :
    (feed noArc (feed noArc create [0x0E]) [0x21, 0x44, 0x24, 0x60, 0x00, 0x61, 0x62, 0x24]).trace =
      [(0x21, [0x44]), (0x24, [0x60, 0x61]), (0x24, [0x62, 0x40])] := by
  have h := feed_segmentation noArc (feed noArc create [0x0E]) (feed_ok create_ok _)
    ⟨rfl, rfl, rfl, rfl, rfl, rfl⟩ rfl [0x21, 0x44, 0x24, 0x60, 0x00, 0x61, 0x62, 0x24]
    (by unfold PdiStream; decide +kernel)
  rw [h.1]
  rfl

end UnicornSuite.Naplps
