import UnicornSuite.NaplpsInvariant

/-! No operand byte of another sequence is ever read. An executor gives the same result for two
pointers that agree on its own operands (`pdiSwitch_congr`), and two decoders that differ only in the
bytes of the operand store behind its length stay so along every run (`Decoder.Same`). A coordinate
operand is, for each axis, the two's complement fraction of the bits the axis has in its bytes. -/

namespace UnicornSuite.Naplps

/-! ### Executors -/

/-- The first `n` bytes behind two pointers are the same. -/
def AgreeTo (n : Nat) (p q : Nat → Nat) : Prop := ∀ i, i < n → p i = q i

variable {p q : Nat → Nat} {n : Nat}

theorem AgreeTo.mono (h : AgreeTo n p q) {m : Nat} (hm : m ≤ n) : AgreeTo m p q :=
  fun i hi => h i (hi.trans_le hm)

theorem AgreeTo.ptr (h : AgreeTo n p q) {k m : Nat} (hm : k + m ≤ n) :
    AgreeTo m (ptr p k) (ptr q k) := fun i hi => h (k + i) (by omega)

theorem AgreeTo.map_range (h : AgreeTo n p q) : (List.range n).map p = (List.range n).map q :=
  List.map_congr_left fun i hi => h i (List.mem_range.mp hi)

theorem foldl_range_congr {α : Type*} {f : Nat → α → Nat → α} (h : AgreeTo n p q) (a : α) :
    (List.range n).foldl (fun a i => f (p i) a i) a =
      (List.range n).foldl (fun a i => f (q i) a i) a :=
  List.foldl_ext _ _ _ fun a i hi => by rw [h i (List.mem_range.mp hi)]

theorem unpackMulti_congr {dom : Domain} (h : AgreeTo dom.mvLen p q) :
    unpackMulti dom p = unpackMulti dom q := by
  simp only [unpackMulti]
  rw [foldl_range_congr (f := fun v (raw : Nat × Nat) _ =>
    if dom.dims = 3 then (raw.1 * 4 + v % 64 / 16 % 4, raw.2 * 4 + v % 64 / 4 % 4)
    else (raw.1 * 8 + v % 64 / 8 % 8, raw.2 * 8 + v % 64 % 8)) h]

theorem unpackColor_congr {dom : Domain} (h : AgreeTo dom.mvLen p q) :
    unpackColor dom p = unpackColor dom q := by
  simp only [unpackColor]
  rw [foldl_range_congr (f := fun v (raw : Color) _ =>
    { g := raw.g * 4 + v % 64 / 32 % 2 * 2 + v % 64 / 4 % 2
      r := raw.r * 4 + v % 64 / 16 % 2 * 2 + v % 64 / 2 % 2
      b := raw.b * 4 + v % 64 / 8 % 2 * 2 + v % 64 % 2 }) h]

theorem unpackAddr_congr {len : Nat} (h : AgreeTo len p q) : unpackAddr p len = unpackAddr q len := by
  simp only [unpackAddr, unpackSingle]
  rw [foldl_range_congr (f := fun v raw _ => raw * 64 + v % 64) h]

theorem blocks_mul_le (len n : Nat) : blocks len n * len ≤ n := by
  rw [blocks]
  split_ifs
  · exact Nat.div_mul_le_self n len
  · omega

/-- The block `k` of the operands lies within them. -/
theorem AgreeTo.block (h : AgreeTo n p q) {len k : Nat} (hk : k < blocks len n) :
    AgreeTo len (Naplps.ptr p (k * len)) (Naplps.ptr q (k * len)) := by
  refine h.ptr ?_
  calc k * len + len = (k + 1) * len := (Nat.succ_mul k len).symm
    _ ≤ blocks len n * len := Nat.mul_le_mul_right len hk
    _ ≤ n := blocks_mul_le len n

theorem AgreeTo.firstBlock (h : AgreeTo n p q) {len : Nat} (hk : 0 < blocks len n) :
    AgreeTo len p q := by
  have hle : 1 * len ≤ blocks len n * len := Nat.mul_le_mul_right len hk
  have := blocks_mul_le len n
  exact h.mono (by omega)

variable {d : Display}

theorem execReset_congr (h : AgreeTo n p q) : execReset d p n = execReset d q n := by
  have h0 : (if n > 0 then p 0 % 64 else 0) = if n > 0 then q 0 % 64 else 0 := by
    split_ifs with hn
    · rw [h 0 hn]
    · rfl
  have h1 : (if n > 1 then p 1 % 64 else 0) = if n > 1 then q 1 % 64 else 0 := by
    split_ifs with hn
    · rw [h 1 hn]
    · rfl
  unfold execReset
  rw [h0, h1]

theorem execDomain_congr (h : AgreeTo n p q) : execDomain d p n = execDomain d q n := by
  unfold execDomain
  split_ifs with hn
  · rfl
  · dsimp only
    rw [h 0 (by omega)]
    split_ifs with hlen
    · rw [unpackMulti_congr (h.ptr (by omega))]
    · rfl

theorem execText_congr (h : AgreeTo n p q) : execText d p n = execText d q n := by
  have h1 : (if n > 1 then p 1 % 64 else 0) = if n > 1 then q 1 % 64 else 0 := by
    split_ifs with hn
    · rw [h 1 hn]
    · rfl
  unfold execText
  by_cases hn : n < 1
  · rw [if_pos hn, if_pos hn]
  · rw [if_neg hn, if_neg hn, h 0 (by omega), h1]
    extract_lets d1 d2 mv
    by_cases hlen : mv ≥ d2.dom.mvLen
    · have hfit : 2 + d2.dom.mvLen ≤ n ∨ d2.dom.mvLen = 0 := by
        simp only [mv] at hlen
        split_ifs at hlen <;> omega
      rw [if_pos hlen, if_pos hlen]
      rcases hfit with hfit | hzero
      · rw [unpackMulti_congr (h.ptr hfit)]
      · rw [unpackMulti_congr (q := Naplps.ptr q 2) fun i hi => absurd hi (by omega)]
    · rw [if_neg hlen, if_neg hlen]

theorem execTexture_congr (h : AgreeTo n p q) : execTexture d p n = execTexture d q n := by
  unfold execTexture
  split_ifs with hn
  · rfl
  · rw [h 0 (by omega)]

theorem execWait_congr (h : AgreeTo n p q) : execWait d p n = execWait d q n := by
  unfold execWait
  by_cases hn : n < 1
  · rw [if_pos hn, if_pos hn]
  · rw [if_neg hn, if_neg hn, h 0 (by omega)]
    split_ifs
    · rfl
    · exact List.foldl_ext _ _ _ fun d i hi => by
        rw [h (i + 1) (by have := List.mem_range.mp hi; omega)]

theorem execSelectColor_congr (h : AgreeTo n p q) :
    execSelectColor d p n = execSelectColor d q n := by
  unfold execSelectColor
  extract_lets nops d1 d2
  by_cases hzero : nops = 0
  · rw [if_pos hzero, if_pos hzero]
  · have hfirst : unpackAddr p d.dom.svLen = unpackAddr q d.dom.svLen :=
      unpackAddr_congr (h.firstBlock (by omega))
    rw [if_neg hzero, if_neg hzero, hfirst]
    by_cases hone : nops = 1
    · rw [if_pos hone, if_pos hone]
    · have hsecond : unpackAddr (Naplps.ptr p (1 * d.dom.svLen)) d.dom.svLen =
          unpackAddr (Naplps.ptr q (1 * d.dom.svLen)) d.dom.svLen :=
        unpackAddr_congr (h.block (k := 1) (by omega))
      rw [if_neg hone, if_neg hone]
      simp only [d2]
      rw [Nat.one_mul] at hsecond
      rw [hfirst, hsecond]

theorem execField_congr (h : AgreeTo n p q) : execField d p n = execField d q n := by
  unfold execField
  extract_lets nblk d1 d2
  by_cases hzero : nblk = 0
  · rw [if_pos hzero, if_pos hzero]
  · have hfirst : unpackMulti d.dom p = unpackMulti d.dom q :=
      unpackMulti_congr (h.firstBlock (by omega))
    rw [if_neg hzero, if_neg hzero, hfirst]
    by_cases hone : nblk = 1
    · rw [if_pos hone, if_pos hone]
    · have hsecond : unpackMulti d.dom (Naplps.ptr p (1 * d.dom.mvLen)) =
          unpackMulti d.dom (Naplps.ptr q (1 * d.dom.mvLen)) :=
        unpackMulti_congr (h.block (k := 1) (by omega))
      rw [Nat.one_mul] at hsecond
      rw [if_neg hone, if_neg hone]
      simp only [d1, d2]
      rw [hfirst, hsecond]

theorem execSetColor_congr {rep : Nat} (h : AgreeTo d.dom.mvLen p q) :
    execSetColor d p rep = execSetColor d q rep := by
  unfold execSetColor
  rw [unpackColor_congr h]

theorem primPoint_congr {op : Nat} (h : AgreeTo d.dom.mvLen p q) :
    primPoint d op p = primPoint d op q := by
  unfold primPoint
  rw [unpackMulti_congr h]

theorem primLine_congr {op : Nat} (hop : op = 0x28 ∨ op = 0x29 ∨ AgreeTo (2 * d.dom.mvLen) p q)
    (h : AgreeTo d.dom.mvLen p q) : primLine d op p = primLine d op q := by
  unfold primLine
  rw [unpackMulti_congr h]
  by_cases hrel : op = 0x28 ∨ op = 0x29
  · simp only [if_pos hrel]
  · have htwo : AgreeTo (2 * d.dom.mvLen) p q := by tauto
    rw [unpackMulti_congr (htwo.ptr (m := d.dom.mvLen) (by omega))]

theorem primRect_congr {op : Nat} (hop : op = 0x30 ∨ op = 0x31 ∨ AgreeTo (2 * d.dom.mvLen) p q)
    (h : AgreeTo d.dom.mvLen p q) : primRect d op p = primRect d op q := by
  unfold primRect
  rw [unpackMulti_congr h]
  by_cases hrel : op = 0x30 ∨ op = 0x31
  · simp only [if_pos hrel]
  · have htwo : AgreeTo (2 * d.dom.mvLen) p q := by tauto
    rw [unpackMulti_congr (htwo.ptr (m := d.dom.mvLen) (by omega))]

theorem relVertices_congr {dom : Domain} (h : AgreeTo n p q) (skipZero : Bool) {rounds blk : Nat}
    (hblk : blk + rounds ≤ blocks dom.mvLen n) (x y : Int) (pts : List (Int × Int)) :
    relVertices dom p skipZero rounds blk x y pts =
      relVertices dom q skipZero rounds blk x y pts := by
  induction rounds generalizing blk x y pts with
  | zero => rfl
  | succ rounds ih =>
      rw [relVertices, relVertices, unpackMulti_congr (h.block (k := blk) (by omega))]
      by_cases hroom : pts.length < maxPts - 1
      · rw [if_pos hroom, if_pos hroom]
        dsimp only
        split
        · exact ih (by omega) _ _ _
        · exact ih (by omega) _ _ _
      · rw [if_neg hroom, if_neg hroom]

theorem startPoint_congr {setform : Bool} (h : setform = true → AgreeTo d.dom.mvLen p q) :
    startPoint d p setform = startPoint d q setform := by
  cases setform with
  | false => rfl
  | true => exact unpackMulti_congr (h rfl)

theorem arcThrough_congr (arc : ArcPoints) {filled : Bool} {first : Nat} {s : Int × Int}
    (h : AgreeTo n p q) (hfirst : first < blocks d.dom.mvLen n) :
    arcThrough arc d p filled first (blocks d.dom.mvLen n) s =
      arcThrough arc d q filled first (blocks d.dom.mvLen n) s := by
  unfold arcThrough
  rw [unpackMulti_congr (h.block hfirst)]
  by_cases hend : blocks d.dom.mvLen n ≥ first + 2
  · rw [unpackMulti_congr (h.block (k := first + 1) (by omega))]
  · simp only [if_neg hend]

theorem primArc_congr (arc : ArcPoints) {op : Nat} (h : AgreeTo n p q) :
    primArc arc d op p n = primArc arc d op q n := by
  unfold primArc
  extract_lets nblk filled setform first
  by_cases hshort : nblk < first + 1
  · rw [if_pos hshort, if_pos hshort]
  · have hstart : startPoint d p setform = startPoint d q setform :=
      startPoint_congr fun _ => h.firstBlock (by omega)
    rw [if_neg hshort, if_neg hshort, hstart]
    by_cases hspline : nblk > first + 2
    · rw [if_pos hspline, if_pos hspline]
      unfold arcSpline
      rw [relVertices_congr h false (by omega)]
    · rw [if_neg hspline, if_neg hspline]
      exact arcThrough_congr arc h (by omega)

theorem primPoly_congr {op : Nat} (h : AgreeTo n p q) : primPoly d op p n = primPoly d op q n := by
  unfold primPoly
  dsimp only
  by_cases hshort : blocks d.dom.mvLen n < 1
  · rw [if_pos hshort, if_pos hshort]
  · have hstart : startPoint d p (op = 0x36 ∨ op = 0x37) = startPoint d q (op = 0x36 ∨ op = 0x37) :=
      startPoint_congr fun _ => h.firstBlock (by omega)
    have hfirst : (if op = 0x36 ∨ op = 0x37 then 1 else 0) ≤ 1 := by split_ifs <;> omega
    rw [if_neg hshort, if_neg hshort, hstart, relVertices_congr h true (by omega)]

/-- An executor is called with all of its operands: the ones of an accumulating opcode are as many as
there are, the ones of a repeating opcode a full set. -/
def Complete (dom : Domain) (op n : Nat) : Prop :=
  (pdiDesc op).mode = .rep → setBytes dom op ≤ n

theorem pdiSwitch_congr (arc : ArcPoints) {op rep : Nat} (h : AgreeTo n p q)
    (hn : Complete d.dom op n) : pdiSwitch arc d op p n rep = pdiSwitch arc d op q n rep := by
  unfold pdiSwitch
  dsimp only
  split
  · rw [execReset_congr h]
  · rw [execDomain_congr h]
  · rw [execText_congr h]
  · rw [execTexture_congr h]
  iterate 4
    · have hset : d.dom.mvLen ≤ n := by simpa [setBytes, pdiDesc] using hn rfl
      rw [primPoint_congr (h.mono hset)]
  iterate 2
    · have hset : d.dom.mvLen ≤ n := by simpa [setBytes, pdiDesc] using hn rfl
      rw [primLine_congr (by tauto) (h.mono hset)]
  iterate 2
    · have hset : 2 * d.dom.mvLen ≤ n := by simpa [setBytes, pdiDesc] using hn rfl
      rw [primLine_congr (.inr (.inr (h.mono hset))) (h.mono (by omega))]
  iterate 4 rw [primArc_congr arc h]
  iterate 2
    · have hset : d.dom.mvLen ≤ n := by simpa [setBytes, pdiDesc] using hn rfl
      rw [primRect_congr (by tauto) (h.mono hset)]
  iterate 2
    · have hset : 2 * d.dom.mvLen ≤ n := by simpa [setBytes, pdiDesc] using hn rfl
      rw [primRect_congr (.inr (.inr (h.mono hset))) (h.mono (by omega))]
  iterate 4 rw [primPoly_congr h]
  · rw [execField_congr h]
  · have hset : d.dom.mvLen ≤ n := by simpa [setBytes, pdiDesc] using hn rfl
    rw [execSetColor_congr (h.mono hset)]
  · rw [execWait_congr h]
  · rw [execSelectColor_congr h]
  · rfl

/-! ### Operand lengths -/

theorem mode0SetColor_dom (d : Display) (c : Color) : (mode0SetColor d c).dom = d.dom := by
  unfold mode0SetColor
  dsimp only
  split
  · rfl
  · split <;> rfl

theorem execSetColor_dom (d : Display) (p : Nat → Nat) (rep : Nat) :
    (execSetColor d p rep).dom = d.dom := by
  unfold execSetColor
  split
  · exact mode0SetColor_dom _ _
  · split <;> rfl

theorem execSelectColor_dom (d : Display) (p : Nat → Nat) (n : Nat) :
    (execSelectColor d p n).dom = d.dom := by
  unfold execSelectColor
  dsimp only
  split
  · exact mode0SetColor_dom _ _
  · split
    · rfl
    · split <;> rfl

theorem setDp_dom (d : Display) (x y : Int) : (setDp d x y).dom = d.dom := by
  rw [setDp, dpMoved]
  split_ifs <;> rfl

theorem paintPath_dom (d : Display) (pts : List (Int × Int)) (filled closed : Bool) :
    (paintPath d pts filled closed).dom = d.dom := by
  rw [paintPath]
  split_ifs <;> rfl

theorem paintLongPath_dom (d : Display) (pts : List (Int × Int)) (filled closed : Bool) :
    (paintLongPath d pts filled closed).dom = d.dom := by
  rw [paintLongPath]
  split_ifs
  · exact paintPath_dom _ _ _ _
  · rfl

theorem paintRect_dom (d : Display) (filled : Bool) (px py pw ph : Int) :
    (paintRect d filled px py pw ph).dom = d.dom := by
  rw [paintRect]
  split_ifs
  · rfl
  · exact paintPath_dom _ _ _ _

theorem primPoint_dom (d : Display) (op : Nat) (p : Nat → Nat) : (primPoint d op p).dom = d.dom := by
  rw [primPoint, setDp_dom]
  split_ifs <;> rfl

theorem primArc_dom (arc : ArcPoints) (d : Display) (op : Nat) (p : Nat → Nat) (n : Nat) :
    (primArc arc d op p n).dom = d.dom := by
  unfold primArc
  extract_lets nblk filled setform first
  split
  · rfl
  · split
    · exact (setDp_dom _ _ _).trans (paintPath_dom _ _ _ _)
    · exact (setDp_dom _ _ _).trans (paintLongPath_dom _ _ _ _)

theorem primPoly_dom (d : Display) (op : Nat) (p : Nat → Nat) (n : Nat) :
    (primPoly d op p n).dom = d.dom := by
  unfold primPoly
  dsimp only
  split
  · rfl
  · exact (setDp_dom _ _ _).trans (paintLongPath_dom _ _ _ _)

theorem execField_dom (d : Display) (p : Nat → Nat) (n : Nat) : (execField d p n).dom = d.dom := by
  unfold execField
  dsimp only
  split
  · exact setDp_dom _ _ _
  · split
    · exact setDp_dom _ _ _
    · rw [setDp_dom]
      split_ifs <;> rfl

theorem execText_dom (d : Display) (p : Nat → Nat) (n : Nat) : (execText d p n).dom = d.dom := by
  unfold execText
  split
  · rfl
  · extract_lets d1 d2 mv
    have h2 : d2.dom = d.dom := by
      simp only [d2]
      split_ifs <;> rfl
    split
    · exact h2
    · exact h2

theorem execTexture_dom (d : Display) (p : Nat → Nat) (n : Nat) :
    (execTexture d p n).dom = d.dom := by
  unfold execTexture
  split_ifs <;> rfl

theorem execWait_dom (d : Display) (p : Nat → Nat) (n : Nat) : (execWait d p n).dom = d.dom := by
  unfold execWait
  split_ifs
  · rfl
  · rfl
  · generalize List.range (n - 1) = is
    induction is generalizing d with
    | nil => rfl
    | cons i is ih => exact ih _

/-- Only RESET and DOMAIN change the operand lengths. -/
theorem pdiSwitch_dom (arc : ArcPoints) {op : Nat} (hreset : op ≠ 0x20) (hdomain : op ≠ 0x21)
    (d : Display) (p : Nat → Nat) (n rep : Nat) : (pdiSwitch arc d op p n rep).dom = d.dom := by
  unfold pdiSwitch
  dsimp only
  split
  · exact absurd rfl hreset
  · exact absurd rfl hdomain
  · exact execText_dom d p n
  · exact execTexture_dom d p n
  iterate 4 exact primPoint_dom d _ p
  iterate 4 exact setDp_dom _ _ _
  iterate 4 exact primArc_dom arc d _ p n
  iterate 4 exact (setDp_dom _ _ _).trans (paintRect_dom _ _ _ _ _ _)
  iterate 4 exact primPoly_dom d _ p n
  · exact execField_dom d p n
  · exact execSetColor_dom d p rep
  · exact execWait_dom d p n
  · exact execSelectColor_dom d p n
  · rfl

/-- So the sets of a repeating opcode all have one size. -/
theorem pdiSwitch_dom_of_rep (arc : ArcPoints) {op : Nat} (hrep : (pdiDesc op).mode = .rep)
    (d : Display) (p : Nat → Nat) (n rep : Nat) : (pdiSwitch arc d op p n rep).dom = d.dom :=
  pdiSwitch_dom arc (fun h => by rw [h] at hrep; cases hrep) (fun h => by rw [h] at hrep; cases hrep)
    d p n rep

/-! ### Decoders -/

/-- Two sequences that differ only in the bytes behind the length of the store. -/
structure PdiSeq.Same (a b : PdiSeq) : Prop where
  op : a.op = b.op
  oplen : a.oplen = b.oplen
  reps : a.reps = b.reps
  opbuf : AgreeTo a.oplen a.opbuf b.opbuf

theorem PdiSeq.Same.padSet {a b : PdiSeq} (h : a.Same b) : padSet a = padSet b := by
  funext i
  simp only [Naplps.padSet, h.oplen]
  split_ifs with hi
  · exact h.opbuf i (h.oplen ▸ hi)
  · rfl

/-- `e` is `d` up to the bytes behind the length of its operand store. -/
def Decoder.Same (d e : Decoder) : Prop := ∃ q, e = { d with pdi := q } ∧ d.pdi.Same q

section

variable {arc : ArcPoints} {d e : Decoder}

theorem Decoder.Same.disp (h : d.Same e) : e.disp = d.disp := by
  obtain ⟨q, rfl, _⟩ := h
  rfl

theorem Decoder.Same.code (h : d.Same e) : e.code = d.code := by
  obtain ⟨q, rfl, _⟩ := h
  rfl

theorem Decoder.Same.pdi (h : d.Same e) : d.pdi.Same e.pdi := by
  obtain ⟨q, rfl, hq⟩ := h
  exact hq

theorem Decoder.Same.mapDisp (h : d.Same e) (f : Display → Display) :
    (onDisplay d f).Same (onDisplay e f) := by
  obtain ⟨q, rfl, hq⟩ := h
  exact ⟨q, rfl, hq⟩

theorem Decoder.Same.mapCode (h : d.Same e) (f : CodeState → CodeState) :
    Decoder.Same { d with code := f d.code } { e with code := f e.code } := by
  obtain ⟨q, rfl, hq⟩ := h
  exact ⟨q, rfl, hq⟩

variable (arc) in
theorem pdiExecuteSet_same (rep : Nat) (h : d.Same e) {op : Nat} {p q : Nat → Nat} {n : Nat}
    (hpq : AgreeTo n p q) (hn : Complete d.disp.dom op n) :
    (pdiExecuteSet arc d op p n rep).Same (pdiExecuteSet arc e op q n rep) := by
  obtain ⟨r, rfl, hr⟩ := h
  refine ⟨r, ?_, hr⟩
  simp only [pdiExecuteSet, pdiSwitch_congr arc hpq hn, hpq.map_range]

theorem setOpenOp_same (h : d.Same e) (op : Option Nat) :
    (setOpenOp d op).Same (setOpenOp e op) := by
  obtain ⟨q, rfl, hq⟩ := h
  exact ⟨_, rfl, ⟨rfl, hq.oplen, rfl, hq.opbuf⟩⟩

theorem emptyStore_same (h : d.Same e) : (emptyStore d).Same (emptyStore e) := by
  obtain ⟨q, rfl, hq⟩ := h
  exact ⟨_, rfl, ⟨hq.op, rfl, hq.reps, fun i hi => absurd hi (Nat.not_lt_zero i)⟩⟩

/-- No full set is longer than the buffer a short one is padded in. -/
theorem setBytes_le {dom : Domain} (hmv : dom.mvLen ≤ 8) (hsv : dom.svLen ≤ 4) (op : Nat) :
    setBytes dom op ≤ 24 := by
  unfold setBytes pdiDesc
  split <;> simp only <;> omega

theorem executeRest_same (hd : d.disp.Ok) (h : d.Same e) (op : Nat) :
    (executeRest arc d op).Same (executeRest arc e op) := by
  obtain ⟨q, rfl, hq⟩ := h
  have hself : d.Same { d with pdi := q } := ⟨q, rfl, hq⟩
  have hset := setBytes_le hd.mvLen.2 hd.svLen.2 op
  unfold executeRest
  dsimp only
  rw [← hq.oplen, ← hq.padSet]
  split_ifs with haccum hrest hlong
  · exact pdiExecuteSet_same arc _ hself hq.opbuf fun hrep => by rw [haccum] at hrep; cases hrep
  · omega
  · exact pdiExecuteSet_same arc _ (hself.mapDisp operandShort) (fun _ _ => rfl) fun _ => le_rfl
  · exact pdiExecuteSet_same arc _ hself (fun i hi => absurd hi (Nat.not_lt_zero i)) fun hrep => by
      simp_all [setBytes]
  · refine pdiExecuteSet_same arc _ hself (fun i hi => absurd hi (Nat.not_lt_zero i)) fun hrep => ?_
    rename_i hbare
    rcases hbare with rfl | rfl <;> cases hrep
  · exact hself

theorem pdiTerminate_same (hd : d.Ok) (h : d.Same e) :
    (pdiTerminate arc d).Same (pdiTerminate arc e) := by
  unfold pdiTerminate
  rw [← h.pdi.op]
  split
  · exact h
  · exact emptyStore_same (executeRest_same (d := setOpenOp d none) hd.disp (setOpenOp_same h none) _)

theorem pdiOpcode_same (hd : d.Ok) (h : d.Same e) (b : Nat) :
    (pdiOpcode arc d b).Same (pdiOpcode arc e b) :=
  emptyStore_same (setOpenOp_same (pdiTerminate_same hd h) _)

theorem storeOperand_same {a c : PdiSeq} (h : a.Same c) (b : Nat) :
    (storeOperand a b).Same (storeOperand c b) := by
  refine ⟨h.op, congrArg (· + 1) h.oplen, h.reps, fun i hi => ?_⟩
  simp only [storeOperand, ← h.oplen] at hi ⊢
  by_cases hlast : i = a.oplen
  · rw [hlast, Function.update_self, Function.update_self]
  · rw [Function.update_of_ne hlast, Function.update_of_ne hlast]
    exact h.opbuf i (by omega)

theorem shiftSet_same {a c : PdiSeq} (h : a.Same c) {need : Nat} (hneed : need ≤ a.oplen) :
    (shiftSet a need).Same (shiftSet c need) := by
  refine ⟨h.op, congrArg (· - need) h.oplen, congrArg (· + 1) h.reps, fun i hi => ?_⟩
  simp only [shiftSet] at hi
  simp only [shiftSet, ← h.oplen, if_pos hi]
  exact h.opbuf _ (by omega)

theorem Decoder.Same.consume (h : d.Same e) {need : Nat} (hneed : need ≤ d.pdi.oplen) :
    Decoder.Same { d with pdi := shiftSet d.pdi need } { e with pdi := shiftSet e.pdi need } := by
  obtain ⟨q, rfl, hq⟩ := h
  exact ⟨_, rfl, shiftSet_same hq hneed⟩

theorem executeSets_same {op need : Nat} (hrep : (pdiDesc op).mode = .rep) (rounds : Nat)
    (hneed : setBytes d.disp.dom op = need) (h : d.Same e) :
    (executeSets arc op need rounds d).Same (executeSets arc op need rounds e) := by
  induction rounds generalizing d e with
  | zero => exact h
  | succ rounds ih =>
      have hpdi := h.pdi
      rw [executeSets, executeSets, ← hpdi.oplen, ← hpdi.reps]
      split
      · next hfull =>
          have hexec := pdiExecuteSet_same arc d.pdi.reps h
            (hpdi.opbuf.mono hfull) fun _ => hneed.le
          refine ih ?_ (hexec.consume hfull)
          exact (congrArg (setBytes · op) (pdiSwitch_dom_of_rep arc hrep _ _ _ _)).trans hneed
      · exact h

theorem pdiOperand_same (h : d.Same e) (b : Nat) : (pdiOperand arc d b).Same (pdiOperand arc e b) := by
  obtain ⟨q, rfl, hq⟩ := h
  have hself : d.Same { d with pdi := q } := ⟨q, rfl, hq⟩
  have hstore : Decoder.Same { d with pdi := storeOperand d.pdi b }
      { d with pdi := storeOperand q b } := ⟨_, rfl, storeOperand_same hq b⟩
  unfold pdiOperand
  dsimp only
  rw [← hq.op, ← hq.oplen, ← (storeOperand_same hq b).oplen]
  split
  · exact hself
  · split
    · split
      · exact hstore
      · next hrep =>
          split
          · exact hstore
          · exact executeSets_same (by simpa using hrep) _ rfl hstore
    · exact hself

/-! ### Dispatch -/

theorem openPend_same (h : d.Same e) (kind : Pend) : (openPend d kind).Same (openPend e kind) :=
  h.mapCode fun c => { c with pend := kind, pendlen := 0 }

theorem doC1_same (h : d.Same e) (col row : Nat) : (doC1 d col row).Same (doC1 e col row) := by
  obtain ⟨q, rfl, hq⟩ := h
  unfold doC1
  split
  · split
    iterate 7 exact ⟨q, rfl, hq⟩
    · dsimp only
      split <;> exact ⟨q, rfl, hq⟩
    iterate 9 exact ⟨q, rfl, hq⟩
  · split <;> exact ⟨q, rfl, hq⟩

theorem setShift_same (h : d.Same e) (slot : Option Nat) : (setShift d slot).Same (setShift e slot) :=
  h.mapCode fun c => { c with singleShift := slot }

theorem handleGraphic_same (hd : d.Ok) (h : d.Same e) (b slot : Nat) :
    (handleGraphic arc d b slot).Same (handleGraphic arc e b slot) := by
  have hshift := setShift_same h none
  have hterm : (pdiTerminate arc (setShift d none)).Same (pdiTerminate arc (setShift e none)) :=
    pdiTerminate_same (setShift_ok hd none) hshift
  unfold handleGraphic
  dsimp only
  rw [hshift.code]
  split
  · split_ifs
    · exact hshift
    · exact hshift.mapDisp spaceChar
    · exact hshift.mapDisp fun disp => drawChar disp b
  · split_ifs
    · exact pdiOperand_same hshift b
    · exact pdiOpcode_same (setShift_ok hd none) hshift b
  iterate 4 exact hterm.mapDisp skipped
  · exact hterm

theorem lockGl_same (h : d.Same e) (slot : Nat) : (lockGl d slot).Same (lockGl e slot) :=
  h.mapCode fun c => { c with gl := slot }

theorem lockGr_same (h : d.Same e) (slot : Nat) : (lockGr d slot).Same (lockGr e slot) :=
  h.mapCode fun c => { c with gr := slot }

theorem openEsc_same (h : d.Same e) : (openEsc d).Same (openEsc e) :=
  h.mapCode fun c => { c with escstate := .seen, esclen := 0 }

theorem handleC0_same (hd : d.Ok) (h : d.Same e) (b : Nat) :
    (handleC0 arc d b).Same (handleC0 arc e b) := by
  have hterm : (pdiTerminate arc d).Same (pdiTerminate arc e) := pdiTerminate_same hd h
  unfold handleC0
  split
  · exact h
  · split
    · exact openEsc_same h
    · dsimp only
      rw [hterm.code]
      split
      · exact hterm
      · split
        · exact hterm.mapDisp textBs
        · exact hterm.mapDisp textAdvance
        · exact hterm.mapDisp textLf
        · exact hterm.mapDisp textRlf
        · exact hterm.mapDisp clearScreen
        · exact hterm.mapDisp textCr
        · exact lockGl_same hterm 1
        · exact lockGl_same hterm 0
        · exact setShift_same hterm _
        · exact openPend_same hterm .aps
        · exact setShift_same hterm _
        · exact hterm.mapDisp textHome
        · exact openPend_same hterm .nsr
        · exact hterm

theorem nsrReset_same (h : d.Same e) : (nsrReset d).Same (nsrReset e) := by
  obtain ⟨q, rfl, hq⟩ := h
  exact ⟨q, rfl, hq⟩

theorem beginTextPresentation_same (h : d.Same e) :
    (beginTextPresentation d).Same (beginTextPresentation e) :=
  (nsrReset_same h).mapDisp fun disp =>
    { disp with surf := surfaceClear disp.surf disp.draw.addrBlack }

theorem feedMain_same (hd : d.Ok) (h : d.Same e) (b : Nat) :
    (feedMain arc d b).Same (feedMain arc e b) := by
  unfold feedMain
  rw [h.code]
  split
  · split_ifs
    · exact openEsc_same h
    · exact handleC0_same hd h b
    · exact h
    · exact h.mapDisp fun disp => drawChar disp b
  · split_ifs
    · exact handleC0_same hd h b
    · dsimp only
      split_ifs
      · exact h
      · exact doC1_same (pdiTerminate_same hd h) _ _
    · exact h
    · exact handleGraphic_same hd h _ _
    · exact handleGraphic_same hd h _ _

theorem handleRepeat_same (hd : d.Ok) (h : d.Same e) (b : Nat) (isCtrl : Bool) :
    (handleRepeat arc d b isCtrl).Same (handleRepeat arc e b isCtrl) := by
  unfold handleRepeat
  rw [h.disp]
  split_ifs
  · exact feedMain_same (hd.withDisp (skipped_ok hd.disp)) (h.mapDisp skipped) b
  · exact h.mapDisp (repeatChar _)
  · exact h.mapDisp skipped

theorem nsrAddress_same (h : d.Same e) (b0 b1 : Nat) :
    (nsrAddress d b0 b1).Same (nsrAddress e b0 b1) := by
  unfold nsrAddress
  dsimp only
  split
  · exact nsrReset_same h
  · exact (nsrReset_same h).mapDisp _

theorem apsAddress_same (h : d.Same e) (b0 b1 : Nat) :
    (apsAddress d b0 b1).Same (apsAddress e b0 b1) := by
  unfold apsAddress
  dsimp only
  split
  · exact h
  · split
    · exact h
    · rw [h.disp]
      exact h.mapDisp _

theorem storePend_same (h : d.Same e) (v : Nat) : (storePend d v).Same (storePend e v) :=
  h.mapCode fun c =>
    { c with pendbuf := Function.update c.pendbuf c.pendlen v, pendlen := c.pendlen + 1 }

theorem dropPend_same (h : d.Same e) : (dropPend d).Same (dropPend e) :=
  h.mapCode fun c => { c with pend := .none }

theorem handlePending_same (hd : d.Ok) (h : d.Same e) (b : Nat) :
    (handlePending arc d b).Same (handlePending arc e b) := by
  have hclosed := openPend_same h .none
  have hstored := storePend_same h (b % 128)
  unfold handlePending
  dsimp only
  rw [h.code, hstored.code]
  split_ifs
  · exact handleRepeat_same (d := dropPend d) { hd with } (dropPend_same h) b _
  · exact feedMain_same (nsrReset_ok (openPend_ok hd .none)) (nsrReset_same hclosed) b
  · exact feedMain_same (openPend_ok hd .none) hclosed b
  · exact hstored
  · exact nsrAddress_same (openPend_same hstored .none) _ _
  · exact apsAddress_same (openPend_same hstored .none) _ _

theorem feedPlain_same (hd : d.Ok) (h : d.Same e) (b : Nat) :
    (feedPlain arc d b).Same (feedPlain arc e b) := by
  rw [feedPlain, feedPlain, h.code]
  split_ifs
  · exact handlePending_same hd h b
  · exact feedMain_same hd h b

theorem escUnknown_same (h : d.Same e) : (escUnknown d).Same (escUnknown e) :=
  h.mapDisp fun disp => { disp with st.escUnknown := disp.st.escUnknown + 1 }

theorem escPlainFinal_same (hd : d.Ok) (h : d.Same e) (b : Nat) :
    (escPlainFinal arc d b).Same (escPlainFinal arc e b) := by
  have hterm : (pdiTerminate arc d).Same (pdiTerminate arc e) := pdiTerminate_same hd h
  unfold escPlainFinal
  split
  iterate 2 exact lockGl_same hterm _
  iterate 6 exact lockGr_same hterm _
  · dsimp only
    rw [h.code]
    split
    · split
      · exact h
      · exact doC1_same hterm _ _
    · exact escUnknown_same h

theorem setMode_same (h : d.Same e) (mode : Mode) : (setMode d mode).Same (setMode e mode) :=
  h.mapCode fun c => { c with mode := mode }

theorem escCompleteCode_same (hd : d.Ok) (h : d.Same e) (b : Nat) :
    (escCompleteCode arc d b).Same (escCompleteCode arc e b) := by
  have hterm : (pdiTerminate arc d).Same (pdiTerminate arc e) := pdiTerminate_same hd h
  unfold escCompleteCode
  dsimp only
  rw [hterm.code]
  split_ifs
  · exact setMode_same hterm _
  · exact setMode_same (beginTextPresentation_same hterm) _
  · exact setMode_same hterm _
  · exact escUnknown_same hterm

theorem designate_same (hd : d.Ok) (h : d.Same e) (slot b : Nat) :
    (designate arc d slot b).Same (designate arc e slot b) :=
  (pdiTerminate_same hd h).mapCode fun c =>
    { c with gset := Function.update c.gset slot (designated b) }

theorem escFinal_same (hd : d.Ok) (h : d.Same e) (i0 b : Nat) :
    (escFinal arc d i0 b).Same (escFinal arc e i0 b) := by
  unfold escFinal
  rw [h.code]
  split
  · exact h
  · split
    · exact escCompleteCode_same hd h b
    iterate 7 exact designate_same hd h _ b
    iterate 2 exact h
    · exact escUnknown_same h

theorem closeEsc_same (h : d.Same e) : (closeEsc d).Same (closeEsc e) :=
  h.mapCode fun c => { c with escstate := .none, esclen := 0 }

theorem escMalformed_same (h : d.Same e) : (escMalformed d).Same (escMalformed e) :=
  h.mapDisp fun disp => { disp with st.escMalformed := disp.st.escMalformed + 1 }

theorem escByte_same (hd : d.Ok) (h : d.Same e) (b : Nat) :
    (escByte arc d b).Same (escByte arc e b) := by
  have hclose := closeEsc_same h
  unfold escByte
  rw [h.code]
  split_ifs
  · exact h.mapCode fun c =>
      { c with escbuf := Function.update c.escbuf c.esclen b, esclen := c.esclen + 1 }
  · exact h
  · exact escPlainFinal_same (closeEsc_ok hd) hclose b
  · exact escFinal_same (closeEsc_ok hd) hclose _ b
  · exact feedPlain_same (escMalformed_ok (closeEsc_ok hd)) (escMalformed_same hclose) b

theorem selectEnvironment_same (h : d.Same e) (b : Nat) :
    (selectEnvironment d b).Same (selectEnvironment e b) :=
  h.mapCode fun c => { c with eightbit := c.eightbit || b / 128 % 2 == 1 }

theorem feedByte_same (hd : d.Ok) (h : d.Same e) (b : Nat) :
    (feedByte arc d b).Same (feedByte arc e b) := by
  have henv := selectEnvironment_same h b
  have hok := selectEnvironment_ok hd b
  unfold feedByte
  dsimp only
  rw [henv.code]
  split
  · exact escByte_same hok henv _
  · exact feedPlain_same hok henv _

theorem feedOne_same (hd : d.Ok) (h : d.Same e) (b : UInt8) :
    (feedOne arc d b).Same (feedOne arc e b) :=
  feedByte_same (countByte_ok hd) (h.mapDisp countByte) _

theorem reset_same (h : d.Same e) : (reset d).Same (reset e) := by
  obtain ⟨q, rfl, hq⟩ := h
  exact ⟨_, rfl, rfl, rfl, hq.reps, fun i hi => absurd hi (Nat.not_lt_zero i)⟩

end

/-! ### Runs -/

inductive Event where
  | feed (buf : List UInt8)
  | flush
  | reset
  | takeWait

def step (arc : ArcPoints) (d : Decoder) : Event → Decoder
  | .feed buf => feed arc d buf
  | .flush => flush arc d
  | .reset => reset d
  | .takeWait => takeWait d

variable {arc : ArcPoints}

theorem step_ok {d : Decoder} (h : d.Ok) (ev : Event) : (step arc d ev).Ok := by
  cases ev with
  | feed buf => exact feed_ok h buf
  | flush => exact pdiTerminate_ok h
  | reset => exact reset_ok h.disp.surf.pix.noFault
  | takeWait => exact h.withDisp { h.disp with }

theorem feed_same {d e : Decoder} (hd : d.Ok) (h : d.Same e) (buf : List UInt8) :
    (feed arc d buf).Same (feed arc e buf) := by
  have hrun : (feed arc d buf).Ok ∧ (feed arc d buf).Same (feed arc e buf) :=
    Machine.run_rel (R := fun d e : Decoder => d.Ok ∧ d.Same e)
      (fun _ _ b hs => ⟨feedOne_ok hs.1 b, feedOne_same hs.1 hs.2 b⟩) ⟨hd, h⟩ buf
  exact hrun.2

theorem step_same {d e : Decoder} (hd : d.Ok) (h : d.Same e) (ev : Event) :
    (step arc d ev).Same (step arc e ev) := by
  cases ev with
  | feed buf => exact feed_same hd h buf
  | flush => exact pdiTerminate_same hd h
  | reset => exact reset_same h
  | takeWait => exact h.mapDisp fun disp => { disp with waitTenths := 0 }

theorem run_ok {d : Decoder} (h : d.Ok) (es : List Event) : (Machine.run (step arc) d es).Ok :=
  Machine.run_inv (I := Decoder.Ok) (fun _ ev h => step_ok h ev) h es

theorem run_same {d e : Decoder} (hd : d.Ok) (h : d.Same e) (es : List Event) :
    (Machine.run (step arc) d es).Same (Machine.run (step arc) e es) := by
  have hrun : (Machine.run (step arc) d es).Ok ∧
      (Machine.run (step arc) d es).Same (Machine.run (step arc) e es) :=
    Machine.run_rel (R := fun d e : Decoder => d.Ok ∧ d.Same e)
      (fun _ _ ev hs => ⟨step_ok hs.1 ev, step_same hs.1 hs.2 ev⟩) ⟨hd, h⟩ es
  exact hrun.2

/-- In every reachable state the decoder is well formed, an executor reads its own operands only,
and the rest of the store has no influence on what follows. -/
theorem reachable_structure (arc : ArcPoints) (es : List Event) :
    (Machine.run (step arc) create es).Ok ∧
      (∀ op n rep p q, Complete (Machine.run (step arc) create es).disp.dom op n →
        AgreeTo n p q →
        pdiSwitch arc (Machine.run (step arc) create es).disp op p n rep =
          pdiSwitch arc (Machine.run (step arc) create es).disp op q n rep) ∧
      ∀ e, (Machine.run (step arc) create es).Same e → ∀ es',
        (Machine.run (step arc) (Machine.run (step arc) create es) es').Same
          (Machine.run (step arc) e es') := by
  have hok : (Machine.run (step arc) create es).Ok := run_ok create_ok es
  refine ⟨hok, fun op n rep p q hn hpq => pdiSwitch_congr arc hpq hn, fun e he es' => ?_⟩
  exact run_same hok he es'

/-! ### Coordinates as fractions -/

inductive Axis where
  | x | y

/-- The bits of a byte that belong to an axis, the most significant first: three of six in two dimensions
and two of six in three, where the last two belong to Z. -/
def Axis.bits : Axis → (dims b : Nat) → List Bool
  | x, dims, b =>
      if dims = 3 then [b.testBit 5, b.testBit 4] else [b.testBit 5, b.testBit 4, b.testBit 3]
  | y, dims, b =>
      if dims = 3 then [b.testBit 3, b.testBit 2] else [b.testBit 2, b.testBit 1, b.testBit 0]

/-- The bits of an axis in the first `len` bytes of an operand. -/
def Axis.field (a : Axis) (dims len : Nat) (p : Nat → Nat) : List Bool :=
  (List.range len).flatMap fun i => a.bits dims (p i)

/-- The two's complement number of some bits. -/
def signed (bits : List Bool) : Int := (BitVec.ofBoolListBE bits).toInt

/-- The number without a sign. -/
def unsigned (bits : List Bool) : Nat := (BitVec.ofBoolListBE bits).toNat

/-- The fraction with the point behind the sign, in 16.16. -/
def fraction (bits : List Bool) : Int := 65536 * signed bits / 2 ^ (bits.length - 1)

theorem Axis.field_succ (a : Axis) (dims len : Nat) (p : Nat → Nat) :
    a.field dims (len + 1) p = a.field dims len p ++ a.bits dims (p len) := by
  rw [field, List.range_succ, List.flatMap_append, List.flatMap_singleton]
  rfl

theorem Axis.bits_length (a : Axis) (dims b : Nat) : (a.bits dims b).length = if dims = 3 then 2 else 3 := by
  cases a
  all_goals
    simp only [bits]
    split_ifs <;> rfl

theorem Axis.field_length (a : Axis) (dims len : Nat) (p : Nat → Nat) :
    (a.field dims len p).length = (if dims = 3 then 2 else 3) * len := by
  induction len with
  | zero => rfl
  | succ len ih => rw [field_succ, List.length_append, ih, bits_length, Nat.mul_succ]

theorem unsigned_cons (b : Bool) (l : List Bool) :
    unsigned (b :: l) = b.toNat * 2 ^ l.length + unsigned l := by
  rw [unsigned, BitVec.ofBoolListBE, BitVec.toNat_cons', Nat.shiftLeft_eq, unsigned]

theorem unsigned_concat (l : List Bool) (b : Bool) : unsigned (l ++ [b]) = unsigned l * 2 + b.toNat := by
  induction l with
  | nil => cases b <;> rfl
  | cons c l ih =>
      rw [List.cons_append, unsigned_cons, unsigned_cons, ih, List.length_append, List.length_singleton,
        Nat.pow_succ, ← Nat.mul_assoc, Nat.add_mul, Nat.add_assoc]

theorem unsigned_zeros (l : List Bool) (k : Nat) :
    unsigned (l ++ List.replicate k false) = unsigned l * 2 ^ k := by
  induction k with
  | zero => rw [List.replicate_zero, List.append_nil, Nat.pow_zero, Nat.mul_one]
  | succ k ih =>
      rw [List.replicate_succ', ← List.append_assoc, unsigned_concat, ih, Bool.toNat_false, Nat.add_zero,
        Nat.pow_succ, Nat.mul_assoc]

/-- The sign is the first bit. -/
theorem signed_cons (b : Bool) (l : List Bool) :
    signed (b :: l) = if b then (unsigned (b :: l) : Int) - 2 ^ (l.length + 1) else unsigned (b :: l) := by
  have hmsb : (BitVec.ofBoolListBE (b :: l)).msb = b := BitVec.msb_cons
  rw [signed, BitVec.toInt_eq_msb_cond, hmsb, Nat.cast_pow]
  rfl

theorem unsigned_testBit (b : Bool) (l : List Bool) : (unsigned (b :: l)).testBit l.length = b := by
  rw [unsigned, BitVec.testBit_toNat, BitVec.getLsbD_ofBoolListBE]
  simp

/-- What the code computes of the bits of an axis. -/
theorem unpackFrac_eq (bits : List Bool) : unpackFrac (unsigned bits) bits.length = fraction bits := by
  cases bits with
  | nil => rfl
  | cons b l =>
      have hpos (n : Nat) : (0 : Int) < 2 ^ n := Int.pow_pos (by decide)
      simp only [unpackFrac, fraction, List.length_cons, Nat.add_one_ne_zero, if_false, Nat.add_sub_cancel,
        unsigned_testBit, ← signed_cons]
      split_ifs with hsmall
      · have hscale : (65536 : Int) = 2 ^ (16 - l.length) * 2 ^ l.length := by
          rw [← Int.pow_add, Nat.sub_add_cancel hsmall]
          rfl
        rw [hscale, Int.mul_right_comm, Int.mul_ediv_cancel _ (hpos l.length).ne', Int.mul_comm]
      · have hscale : (2 : Int) ^ l.length = 65536 * 2 ^ (l.length - 16) := by
          rw [show (65536 : Int) = 2 ^ 16 from rfl, ← Int.pow_add, Nat.add_sub_cancel' (by omega)]
        rw [hscale, Int.mul_ediv_mul_of_pos _ _ (by decide)]

theorem unpackMulti_eq (dom : Domain) (p : Nat → Nat) : unpackMulti dom p =
    (fraction (Axis.x.field dom.dims dom.mvLen p), fraction (Axis.y.field dom.dims dom.mvLen p)) := by
  have hfold (n : Nat) : (List.range n).foldl (fun (raw : Nat × Nat) i =>
      let v := p i % 64
      if dom.dims = 3 then (raw.1 * 4 + v / 16 % 4, raw.2 * 4 + v / 4 % 4)
      else (raw.1 * 8 + v / 8 % 8, raw.2 * 8 + v % 8)) (0, 0) =
      (unsigned (Axis.x.field dom.dims n p), unsigned (Axis.y.field dom.dims n p)) := by
    induction n with
    | zero => rfl
    | succ n ih =>
        rw [List.range_succ, List.foldl_append, ih, Axis.field_succ, Axis.field_succ]
        simp only [List.foldl_cons, List.foldl_nil, Axis.bits]
        split_ifs
        · have hpair (l : List Bool) (b c : Bool) : l ++ [b, c] = l ++ [b] ++ [c] := by simp
          rw [hpair, hpair, unsigned_concat, unsigned_concat, unsigned_concat, unsigned_concat]
          simp only [Nat.toNat_testBit]
          refine Prod.ext ?_ ?_ <;> dsimp only <;> omega
        · have htriple (l : List Bool) (b c d : Bool) : l ++ [b, c, d] = l ++ [b] ++ [c] ++ [d] := by simp
          rw [htriple, htriple, unsigned_concat, unsigned_concat, unsigned_concat, unsigned_concat,
            unsigned_concat, unsigned_concat]
          simp only [Nat.toNat_testBit]
          refine Prod.ext ?_ ?_ <;> dsimp only <;> omega
  have hlength (a : Axis) := a.field_length dom.dims dom.mvLen p
  simp only [unpackMulti]
  rw [hfold, ← unpackFrac_eq, ← unpackFrac_eq, hlength, hlength]

theorem fraction_range (bits : List Bool) : -65536 ≤ fraction bits ∧ fraction bits ≤ 65535 := by
  have hpos : (0 : Int) < 2 ^ (bits.length - 1) := Int.pow_pos (by decide)
  have hlo : -2 ^ (bits.length - 1) ≤ signed bits := BitVec.le_toInt _
  have hhi : signed bits < 2 ^ (bits.length - 1) := BitVec.toInt_lt
  unfold fraction
  constructor
  · exact (Int.le_ediv_iff_mul_le hpos).mpr (by omega)
  · exact Int.lt_add_one_iff.mp (Int.ediv_lt_of_lt_mul hpos (by omega))

/-- Zeros behind the last bit do not change a fraction. -/
theorem fraction_zeros {bits : List Bool} (hne : bits ≠ []) (k : Nat) :
    fraction (bits ++ List.replicate k false) = fraction bits := by
  obtain ⟨b, l, rfl⟩ := List.exists_cons_of_ne_nil hne
  have hsigned : signed (b :: l ++ List.replicate k false) = signed (b :: l) * 2 ^ k := by
    have hzeros := unsigned_zeros (b :: l) k
    rw [List.cons_append] at hzeros ⊢
    rw [signed_cons, signed_cons, hzeros, List.length_append, List.length_replicate]
    push_cast
    split_ifs
    · rw [Int.sub_mul, ← Int.pow_add, Nat.add_right_comm]
    · rfl
  have hpos : (0 : Int) < 2 ^ k := Int.pow_pos (by decide)
  rw [fraction, fraction, hsigned, List.cons_append, List.length_cons, List.length_cons, List.length_append,
    List.length_replicate, Nat.add_sub_cancel, Nat.add_sub_cancel, Int.pow_add, ← Int.mul_assoc,
    Int.mul_ediv_mul_of_pos_left _ _ hpos]

/-- A longer operand with the same payload in front and none behind has the same bits and zeros. -/
theorem Axis.field_padded (a : Axis) (dims : Nat) {len more : Nat} {p q : Nat → Nat}
    (hfront : ∀ i < len, q i % 64 = p i % 64) (hbehind : ∀ i < more, q (len + i) % 64 = 0) :
    ∃ k, a.field dims (len + more) q = a.field dims len p ++ List.replicate k false := by
  have hbits {b c : Nat} (h : b % 64 = c % 64) : a.bits dims b = a.bits dims c := by
    have htest {i : Nat} (hi : i < 6) : b.testBit i = c.testBit i := by
      have hmod := congrArg (Nat.testBit · i) h
      rw [show 64 = 2 ^ 6 from rfl] at hmod
      simpa only [Nat.testBit_mod_two_pow, hi, decide_true, Bool.true_and] using hmod
    cases a <;> simp only [bits, htest (show 5 < 6 by decide), htest (show 4 < 6 by decide),
      htest (show 3 < 6 by decide), htest (show 2 < 6 by decide), htest (show 1 < 6 by decide),
      htest (show 0 < 6 by decide)]
  induction more with
  | zero =>
      refine ⟨0, ?_⟩
      rw [List.replicate_zero, List.append_nil, Nat.add_zero, field, field]
      exact List.flatMap_congr fun i hi => hbits (hfront i (List.mem_range.mp hi))
  | succ more ih =>
      obtain ⟨k, hk⟩ := ih fun i hi => hbehind i (hi.trans (Nat.lt_succ_self more))
      have hzero : a.bits dims (q (len + more)) = List.replicate (if dims = 3 then 2 else 3) false := by
        rw [hbits (c := 0) (hbehind more (Nat.lt_succ_self more))]
        cases a
        all_goals
          simp only [bits]
          split_ifs <;> rfl
      refine ⟨k + if dims = 3 then 2 else 3, ?_⟩
      rw [← Nat.add_assoc, field_succ, hk, hzero, List.append_assoc, List.replicate_append_replicate]

/-- A coordinate operand is the pair of the two's complement fractions of the bits each axis has, at most
24 of them; both lie in the unit interval, and payload bytes without a bit behind them change nothing. -/
theorem unpackMulti_fraction {dom : Domain} (hlen : 1 ≤ dom.mvLen ∧ dom.mvLen ≤ 8) (p : Nat → Nat) :
    unpackMulti dom p =
      (fraction (Axis.x.field dom.dims dom.mvLen p), fraction (Axis.y.field dom.dims dom.mvLen p)) ∧
    (∀ a : Axis, (a.field dom.dims dom.mvLen p).length ≤ 24 ∧
      -65536 ≤ fraction (a.field dom.dims dom.mvLen p) ∧
        fraction (a.field dom.dims dom.mvLen p) ≤ 65535) ∧
    ∀ len q, dom.mvLen ≤ len → len ≤ 8 → (∀ i < dom.mvLen, q i = p i) →
      (∀ i, dom.mvLen ≤ i → i < len → q i % 64 = 0) →
        unpackMulti { dom with mvLen := len } q = unpackMulti dom p := by
  have hne (a : Axis) : a.field dom.dims dom.mvLen p ≠ [] := by
    intro hnil
    have hlength := a.field_length dom.dims dom.mvLen p
    rw [hnil, List.length_nil] at hlength
    split_ifs at hlength <;> omega
  refine ⟨unpackMulti_eq dom p, fun a => ⟨?_, fraction_range _⟩, ?_⟩
  · rw [a.field_length]
    split_ifs <;> omega
  · intro len q hle _ hfront hbehind
    obtain ⟨more, rfl⟩ := Nat.exists_eq_add_of_le hle
    have hfield (a : Axis) : fraction (a.field dom.dims (dom.mvLen + more) q) =
        fraction (a.field dom.dims dom.mvLen p) := by
      obtain ⟨k, hk⟩ := a.field_padded dom.dims (p := p) (fun i hi => by rw [hfront i hi])
        fun i hi => hbehind (dom.mvLen + i) (Nat.le_add_right _ _) (Nat.add_lt_add_left hi _)
      rw [hk, fraction_zeros (hne a)]
    rw [unpackMulti_eq, unpackMulti_eq, hfield, hfield]

/-- In two dimensions the bits 111000 and 100101, with three bytes of zeros behind them. -/
theorem unpackMulti_fraction_two :
    unpackMulti ⟨1, 5, 2, 0, 0⟩ (fun i => [0x7C, 0x45].getD i 0x40) = (-16384, -55296) := by
  have h := @unpackMulti_fraction ⟨1, 2, 2, 0, 0⟩ (by decide) fun i => [0x7C, 0x45].getD i 0
  have hzeros := h.2.2 5 (fun i => [0x7C, 0x45].getD i 0x40) (by decide) (by decide) (by decide) (by decide)
  exact hzeros.trans (by decide)

end UnicornSuite.Naplps
