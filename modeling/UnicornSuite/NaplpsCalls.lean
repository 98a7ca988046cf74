import UnicornSuite.LibRun
import UnicornSuite.NaplpsDecode

/-! What a byte does to the display. The byte automaton reaches the display through a fixed set of
calls (the executors, the cursor controls, `draw_char`, the attribute controls and the counters), so
that a byte stream comes down to the list of calls it makes, `streamCalls`. The display after the
stream is the display before it with these calls made one after the other (`feed_disp`), and what
each call keeps is kept by every stream. -/

namespace UnicornSuite.Naplps

open CInt Machine

/-! ### Calls -/

/-- The text sizes of the C1 controls. -/
inductive CharSize where
  | small | medium | normal | dblhi | dblsz

def CharSize.dx : CharSize → Int
  | .small => cfSmallDx
  | .medium => cfMediumDx
  | .normal => cfNormalDx
  | .dblhi => cfDblhiDx
  | .dblsz => cfDblszDx

def CharSize.dy : CharSize → Int
  | .small => cfSmallDy
  | .medium => cfMediumDy
  | .normal => cfNormalDy
  | .dblhi => cfDblhiDy
  | .dblsz => cfDblszDy

/-- The calls the byte automaton makes on the display. -/
inductive Call where
  | pdi (op : Nat) (p : Nat → Nat) (n rep : Nat)
  | skipped
  | operandShort
  | escUnknown
  | escMalformed
  | countByte
  | char (ch : Nat)
  | space
  /-- One copy of the last character, for REPEAT. -/
  | again
  /-- One round of REPEAT TO EOL. -/
  | fill
  | bs
  | advance
  | lf
  | rlf
  | cr
  | home
  | clearScreen
  | clearBlack
  | nsrReset
  | nsrAddress (b0 b1 : Nat)
  | apsAddress (b0 b1 : Nat)
  | charField (size : CharSize)
  | reverseVideo (on : Bool)
  | wordWrap (on : Bool)
  | scroll (on : Bool)
  | underline (on : Bool)

/-- The cursor position of the two bytes of NSR, row 0 at the top. -/
def nsrX (b1 : Nat) : Int := (b1 % 64 : Nat) * cfNormalDx

def nsrY (b0 : Nat) : Int :=
  let rows := visYFx / cfNormalDy
  let row : Int := (b0 % 64 : Nat)
  let row := if row ≥ rows then rows - 1 else row
  let row := if row < 0 then 0 else row
  visYFx - (row + 1) * cfNormalDy

/-- The row or column of a byte of APS. -/
def apsIndex (b : Nat) : Int := (b % 128 : Nat) - 32

section

variable (arc : ArcPoints)

def call (d : Display) : Call → Display
  | .pdi op p n rep => pdiSwitch arc d op p n rep
  | .skipped => skipped d
  | .operandShort => operandShort d
  | .escUnknown => { d with st.escUnknown := d.st.escUnknown + 1 }
  | .escMalformed => { d with st.escMalformed := d.st.escMalformed + 1 }
  | .countByte => countByte d
  | .char ch => drawChar d ch
  | .space => spaceChar d
  | .again => drawChar d d.text.lastSpacingChar
  | .fill => if atPathEnd d then d else drawChar d d.text.lastSpacingChar
  | .bs => textBs d
  | .advance => textAdvance d
  | .lf => textLf d
  | .rlf => textRlf d
  | .cr => textCr d
  | .home => textHome d
  | .clearScreen => clearScreen d
  | .clearBlack => { d with surf := surfaceClear d.surf d.draw.addrBlack }
  | .nsrReset => nsrDisplay d
  | .nsrAddress b0 b1 => placeCursor d (nsrX b1) (nsrY b0) cfNormalDx cfNormalDy
  | .apsAddress b0 b1 =>
      placeCursor d (wrap32 (apsIndex b1 * cfW d)) (wrap32 (apsIndex b0 * cfH d)) (cfW d) (cfH d)
  | .charField size => setCharField d size.dx size.dy
  | .reverseVideo on => { d with text.reverseVideo := on }
  | .wordWrap on => { d with text.wordWrap := on }
  | .scroll on => { d with text.scroll := on }
  | .underline on => { d with text.underline := on }

/-! ### The calls of a byte -/

/-- The calls of `executeRest`. -/
def restCalls (d : Decoder) (op : Nat) : List Call :=
  let k := pdiDesc op
  let need := setBytes d.disp.dom op
  if k.mode = .accum then [.pdi op d.pdi.opbuf d.pdi.oplen 0]
  else if d.pdi.oplen > 0 then
    [.operandShort, .pdi op (padSet d.pdi) (if need > 64 then 64 else need) 0]
  else if k.nfixed = 0 ∧ k.nmulti = 0 ∧ k.nsingle = 0 then [.pdi op d.pdi.opbuf 0 0]
  else if op = 0x20 ∨ op = 0x3E then [.pdi op d.pdi.opbuf 0 0]
  else []

def terminateCalls (d : Decoder) : List Call :=
  match d.pdi.op with
  | none => []
  | some op => restCalls d op

/-- The calls of `executeSets`. -/
def setsCalls (op need : Nat) : Nat → PdiSeq → List Call
  | 0, _ => []
  | rounds + 1, q =>
      if q.oplen ≥ need then
        .pdi op q.opbuf need q.reps :: setsCalls op need rounds (shiftSet q need)
      else []

def operandCalls (d : Decoder) (b : Nat) : List Call :=
  match d.pdi.op with
  | none => []
  | some op =>
      if d.pdi.oplen < opbufMax ∧ (pdiDesc op).mode = .rep ∧ setBytes d.disp.dom op ≠ 0 then
        setsCalls op (setBytes d.disp.dom op) (d.pdi.oplen + 1) (storeOperand d.pdi b)
      else []

/-- The rounds of `repeatToEol`; each begins with the test for the end of the path. -/
def fillCalls : Nat → Display → List Call
  | 0, _ => []
  | rounds + 1, d =>
      if atPathEnd d then [.fill]
      else
        let d' := drawChar d d.text.lastSpacingChar
        .fill :: if pathPos d' = pathPos d then [] else fillCalls rounds d'

def c1Calls (d : Display) (col row : Nat) : List Call :=
  if col = 4 then
    match row with
    | 0 | 1 | 2 | 3 | 4 | 14 => [.skipped]
    | 7 => if d.text.haveLastSpacing then fillCalls 256 d else [.skipped]
    | 8 => [.reverseVideo true]
    | 9 => [.reverseVideo false]
    | 10 => [.charField .small]
    | 11 => [.charField .medium]
    | 12 => [.charField .normal]
    | 13 => [.charField .dblhi]
    | 15 => [.charField .dblsz]
    | _ => []
  else
    match row with
    | 0 | 15 => [.skipped]
    | 5 => [.wordWrap true]
    | 6 => [.wordWrap false]
    | 7 => [.scroll true]
    | 8 => [.scroll false]
    | 9 => [.underline true]
    | 10 => [.underline false]
    | _ => []

def graphicCalls (d : Decoder) (b slot : Nat) : List Call :=
  match d.code.gset (slot % 4) with
  | .primary => if b = 0x7F then [] else if b = 0x20 then [.space] else [.char b]
  | .pdi => if b / 64 % 2 = 1 then operandCalls d b else terminateCalls d
  | .supp | .mosaic | .macros | .drcs => terminateCalls d ++ [.skipped]
  | .null => terminateCalls d

def c0Calls (d : Decoder) (b : Nat) : List Call :=
  if transparentC0 b then []
  else if b = 0x1B then []
  else
    terminateCalls d ++
      if d.code.swallow then []
      else
        match b with
        | 0x08 => [.bs]
        | 0x09 => [.advance]
        | 0x0A => [.lf]
        | 0x0B => [.rlf]
        | 0x0C => [.clearScreen]
        | 0x0D => [.cr]
        | 0x1E => [.home]
        | _ => []

def c1After (d : Decoder) (col row : Nat) : List Call :=
  if d.code.swallow ∧ ¬(col = 4 ∧ isDefTerminator row) then []
  else terminateCalls d ++ c1Calls (pdiTerminate arc d).disp col row

def mainCalls (d : Decoder) (b : Nat) : List Call :=
  if d.code.mode = .ascii then
    if b = 0x1B then []
    else if b < 0x20 then c0Calls d b
    else if b = 0x7F ∨ b ≥ 0x80 then []
    else [.char b]
  else if b < 0x20 then c0Calls d b
  else if d.code.eightbit ∧ b ≥ 0x80 ∧ b ≤ 0x9F then c1After arc d (b / 16 % 16 - 4) (b % 16)
  else if d.code.swallow then []
  else if d.code.eightbit ∧ b ≥ 0xA0 then
    graphicCalls d (b % 128) (d.code.singleShift.getD d.code.gr)
  else graphicCalls d b (d.code.singleShift.getD d.code.gl)

/-- The calls of the count byte of REPEAT. -/
def repeatCalls (d : Decoder) (b : Nat) (isCtrl : Bool) : List Call :=
  if isCtrl ∨ b % 128 < 0x40 then .skipped :: mainCalls arc (onDisplay d skipped) b
  else if d.disp.text.haveLastSpacing then List.replicate (b % 128 % 64) .again
  else [.skipped]

/-- The calls of the two bytes of NSR and APS. -/
def nsrCalls (b0 b1 : Nat) : List Call :=
  if b0 < 0x40 ∨ b1 < 0x40 then [.nsrReset] else [.nsrReset, .nsrAddress b0 b1]

def apsCalls (b0 b1 : Nat) : List Call :=
  if b0 = 0x7F ∨ b1 = 0x7F then []
  else if apsIndex b0 < 0 ∨ apsIndex b1 < 0 then []
  else [.apsAddress b0 b1]

def pendingCalls (d : Decoder) (b : Nat) : List Call :=
  let isCtrl := decide (b < 0x20 ∨ (d.code.eightbit ∧ b ≥ 0x80 ∧ b ≤ 0x9F))
  if d.code.pend = .rep then repeatCalls arc (dropPend d) b isCtrl
  else if isCtrl then
    let d' := openPend d .none
    if d.code.pend = .nsr then .nsrReset :: mainCalls arc (nsrReset d') b else mainCalls arc d' b
  else
    let d := storePend d (b % 128)
    if d.code.pendlen < 2 then []
    else if d.code.pend = .nsr then nsrCalls (d.code.pendbuf 0) (d.code.pendbuf 1)
    else apsCalls (d.code.pendbuf 0) (d.code.pendbuf 1)

def plainCalls (d : Decoder) (b : Nat) : List Call :=
  if d.code.pend ≠ .none then pendingCalls arc d b else mainCalls arc d b

def escPlainCalls (d : Decoder) (b : Nat) : List Call :=
  match b with
  | 0x6E | 0x6F | 0x7E | 0x6B | 0x7D | 0x6C | 0x7C | 0x6D => terminateCalls d
  | _ =>
      if b ≥ 0x40 ∧ b ≤ 0x5F then c1After arc d (b / 16 % 16) (b % 16) else [.escUnknown]

/-- The calls of ESC 2/5 F. -/
def escCodeCalls (d : Decoder) (b : Nat) : List Call :=
  terminateCalls d ++
    if b = 0x41 then []
    else if b = 0x40 then
      if d.code.mode = .naplps then [.nsrReset, .clearBlack] else []
    else [.escUnknown]

def escFinalCalls (d : Decoder) (i0 b : Nat) : List Call :=
  if d.code.swallow then []
  else
    match i0 with
    | 0x25 => escCodeCalls d b
    | 0x28 | 0x29 | 0x2D | 0x2A | 0x2E | 0x2B | 0x2F => terminateCalls d
    | 0x21 | 0x22 => []
    | _ => [.escUnknown]

def escCalls (d : Decoder) (b : Nat) : List Call :=
  if 0x20 ≤ b ∧ b ≤ 0x2F then []
  else if 0x30 ≤ b ∧ b ≤ 0x7E then
    if d.code.esclen = 0 then escPlainCalls arc (closeEsc d) b
    else escFinalCalls (closeEsc d) (d.code.escbuf 0) b
  else .escMalformed :: plainCalls arc (escMalformed (closeEsc d)) b

def byteCalls (d : Decoder) (b : Nat) : List Call :=
  let d := selectEnvironment d b
  let b := if d.code.eightbit then b else b % 128
  if d.code.escstate = .seen then escCalls arc d (b % 128) else plainCalls arc d b

/-- The calls of one byte of the stream. -/
def calls (d : Decoder) (b : UInt8) : List Call :=
  .countByte :: byteCalls arc (onDisplay d countByte) b.toNat

/-- The calls of a byte stream. -/
def streamCalls : Decoder → List UInt8 → List Call
  | _, [] => []
  | d, b :: buf => calls arc d b ++ streamCalls (feedOne arc d b) buf

/-- The calls of a byte stream with `flush` at its end. -/
def flushedCalls (d : Decoder) (buf : List UInt8) : List Call :=
  streamCalls arc d buf ++ terminateCalls (feed arc d buf)

/-! ### The display is what the calls make of it -/

variable (d : Decoder)

theorem executeRest_disp (op : Nat) :
    (executeRest arc d op).disp = run (call arc) d.disp (restCalls d op) := by
  unfold executeRest restCalls
  simp only
  split_ifs <;> rfl

theorem terminate_disp : (pdiTerminate arc d).disp = run (call arc) d.disp (terminateCalls d) := by
  unfold pdiTerminate terminateCalls
  cases d.pdi.op with
  | none => rfl
  | some op => exact executeRest_disp arc (setOpenOp d none) op

theorem executeSets_disp (op need rounds : Nat) :
    (executeSets arc op need rounds d).disp
      = run (call arc) d.disp (setsCalls op need rounds d.pdi) := by
  induction rounds generalizing d with
  | zero => rfl
  | succ rounds ih =>
      rw [executeSets, setsCalls]
      split_ifs
      · rw [ih, run_cons]
        rfl
      · rfl

theorem operand_disp (b : Nat) :
    (pdiOperand arc d b).disp = run (call arc) d.disp (operandCalls d b) := by
  unfold pdiOperand operandCalls
  cases d.pdi.op with
  | none => rfl
  | some op =>
      by_cases hroom : d.pdi.oplen < opbufMax
      · by_cases hmode : (pdiDesc op).mode = .rep
        · by_cases hneed : setBytes d.disp.dom op = 0
          · simp [hroom, hmode, hneed]
          · simp only [hroom, hmode, hneed, ne_eq, not_true_eq_false, if_true, if_false, not_false_eq_true,
              and_self]
            exact executeSets_disp arc _ op _ _
        · simp [hroom, hmode]
      · simp [hroom]

theorem run_fillCalls (rounds : Nat) (disp : Display) :
    repeatToEol rounds disp = run (call arc) disp (fillCalls rounds disp) := by
  induction rounds generalizing disp with
  | zero => rfl
  | succ rounds ih =>
      rw [repeatToEol, fillCalls]
      by_cases hend : atPathEnd disp
      · simp [hend, call]
      · simp only [hend, Bool.false_eq_true, if_false, run_cons, call]
        split_ifs
        · rfl
        · exact ih _

theorem doC1_disp (col row : Nat) :
    (doC1 d col row).disp = run (call arc) d.disp (c1Calls d.disp col row) := by
  unfold doC1 c1Calls
  by_cases hcol : col = 4
  · simp only [if_pos hcol]
    match row with
    | 7 =>
        split_ifs
        · exact run_fillCalls arc 256 d.disp
        · rfl
    | 0 | 1 | 2 | 3 | 4 | 5 | 6 | 8 | 9 | 10 | 11 | 12 | 13 | 14 | 15 => rfl
    | _ + 16 => rfl
  · simp only [if_neg hcol]
    match row with
    | 0 | 1 | 2 | 3 | 4 | 5 | 6 | 7 | 8 | 9 | 10 | 11 | 12 | 13 | 14 | 15 => rfl
    | _ + 16 => rfl

theorem terminate_skipped_disp :
    skipped (pdiTerminate arc d).disp = run (call arc) d.disp (terminateCalls d ++ [.skipped]) := by
  rw [run_append, ← terminate_disp]
  rfl

theorem handleGraphic_disp (b slot : Nat) :
    (handleGraphic arc d b slot).disp = run (call arc) d.disp (graphicCalls d b slot) := by
  -- The single shift that is dropped first plays no part in the calls.
  let d' := setShift d none
  unfold handleGraphic graphicCalls
  simp only [show (setShift d none).code.gset = d.code.gset from rfl]
  cases d.code.gset (slot % 4) with
  | primary =>
      dsimp only
      split_ifs <;> rfl
  | pdi =>
      dsimp only
      split_ifs
      · exact operand_disp arc d' b
      · exact terminate_disp arc d'
  | supp => exact terminate_skipped_disp arc d'
  | mosaic => exact terminate_skipped_disp arc d'
  | macros => exact terminate_skipped_disp arc d'
  | drcs => exact terminate_skipped_disp arc d'
  | null => exact terminate_disp arc d'

theorem handleC0_disp (b : Nat) :
    (handleC0 arc d b).disp = run (call arc) d.disp (c0Calls d b) := by
  unfold handleC0 c0Calls
  by_cases hplain : transparentC0 b
  · simp [hplain]
  by_cases hesc : b = 0x1B
  · subst hesc
    rfl
  simp only [hplain, hesc, if_false, Bool.false_eq_true, run_append, ← terminate_disp,
    pdiTerminate_code]
  by_cases hswallow : d.code.swallow
  · simp [hswallow]
  simp only [hswallow, if_false, Bool.false_eq_true]
  match b with
  | 0x08 | 0x09 | 0x0A | 0x0B | 0x0C | 0x0D | 0x0E | 0x0F | 0x19 | 0x1C | 0x1D | 0x1E | 0x1F => rfl
  | 0 | 1 | 2 | 3 | 4 | 5 | 6 | 7 | 16 | 17 | 18 | 20 | 21 | 22 | 23 | 24 | 26 | 27 => rfl
  | _ + 32 => rfl

theorem c1After_disp {col row : Nat}
    (hopen : ¬(d.code.swallow ∧ ¬(col = 4 ∧ isDefTerminator row))) :
    (doC1 (pdiTerminate arc d) col row).disp = run (call arc) d.disp (c1After arc d col row) := by
  rw [c1After, if_neg hopen, run_append, ← terminate_disp]
  exact doC1_disp arc (pdiTerminate arc d) col row

theorem feedMain_disp (b : Nat) :
    (feedMain arc d b).disp = run (call arc) d.disp (mainCalls arc d b) := by
  unfold feedMain mainCalls
  dsimp only
  split_ifs with hmode hesc hlow hdrop hlow hc1 hskip hswallow hhigh
  · rfl
  · exact handleC0_disp arc d b
  · rfl
  · rfl
  · exact handleC0_disp arc d b
  · rw [c1After, if_pos hskip]
    rfl
  · exact c1After_disp arc d hskip
  · rfl
  · exact handleGraphic_disp arc d _ _
  · exact handleGraphic_disp arc d _ _

theorem run_again (count : Nat) (disp : Display) :
    repeatChar count disp = run (call arc) disp (List.replicate count .again) := by
  induction count generalizing disp with
  | zero => rfl
  | succ count ih => exact ih _

theorem handleRepeat_disp (b : Nat) (isCtrl : Bool) :
    (handleRepeat arc d b isCtrl).disp = run (call arc) d.disp (repeatCalls arc d b isCtrl) := by
  unfold handleRepeat repeatCalls
  split_ifs
  · exact feedMain_disp arc (onDisplay d skipped) b
  · exact run_again arc _ d.disp
  · rfl

theorem nsrAddress_disp (b0 b1 : Nat) :
    (nsrAddress d b0 b1).disp = run (call arc) d.disp (nsrCalls b0 b1) := by
  unfold nsrAddress nsrCalls
  by_cases hshort : b0 < 0x40 ∨ b1 < 0x40
  · simp only [if_pos hshort]
    rfl
  · simp only [if_neg hshort]
    rfl

theorem apsAddress_disp (b0 b1 : Nat) :
    (apsAddress d b0 b1).disp = run (call arc) d.disp (apsCalls b0 b1) := by
  unfold apsAddress apsCalls apsIndex
  dsimp only
  split_ifs <;> rfl

theorem handlePending_disp (b : Nat) :
    (handlePending arc d b).disp = run (call arc) d.disp (pendingCalls arc d b) := by
  unfold handlePending pendingCalls
  dsimp only
  split_ifs with hrep hctrl hnsr hlen hnsr
  · exact handleRepeat_disp arc (dropPend d) b _
  · exact feedMain_disp arc (nsrReset (openPend d .none)) b
  · exact feedMain_disp arc (openPend d .none) b
  · rfl
  · exact nsrAddress_disp arc (openPend (storePend d (b % 128)) .none) _ _
  · exact apsAddress_disp arc (openPend (storePend d (b % 128)) .none) _ _

theorem feedPlain_disp (b : Nat) :
    (feedPlain arc d b).disp = run (call arc) d.disp (plainCalls arc d b) := by
  unfold feedPlain plainCalls
  split_ifs
  · exact handlePending_disp arc d b
  · exact feedMain_disp arc d b

theorem escPlainFinal_disp (b : Nat) :
    (escPlainFinal arc d b).disp = run (call arc) d.disp (escPlainCalls arc d b) := by
  fun_cases escPlainCalls arc d b with
  | case9 =>
      unfold escPlainFinal
      simp only [if_pos ‹b ≥ 0x40 ∧ b ≤ 0x5F›]
      split_ifs with hskip
      · rw [c1After, if_pos hskip]
        rfl
      · exact c1After_disp arc d hskip
  | case10 =>
      unfold escPlainFinal
      simp only [if_neg ‹¬(b ≥ 0x40 ∧ b ≤ 0x5F)›]
      rfl
  | _ => exact terminate_disp arc d

theorem escCompleteCode_disp (b : Nat) :
    (escCompleteCode arc d b).disp = run (call arc) d.disp (escCodeCalls d b) := by
  unfold escCompleteCode escCodeCalls
  simp only [run_append, ← terminate_disp, pdiTerminate_code]
  split_ifs <;> rfl

theorem escFinal_disp (i0 b : Nat) :
    (escFinal arc d i0 b).disp = run (call arc) d.disp (escFinalCalls d i0 b) := by
  by_cases hswallow : d.code.swallow
  · simp [escFinal, escFinalCalls, hswallow]
  fun_cases escFinal arc d i0 b with
  | case1 => contradiction
  | case2 =>
      rw [escFinalCalls, if_neg hswallow]
      exact escCompleteCode_disp arc d b
  | case10 | case11 =>
      rw [escFinalCalls, if_neg hswallow]
      rfl
  | case12 =>
      rw [escFinalCalls, if_neg hswallow]
      · rfl
      all_goals assumption
  | _ =>
      rw [escFinalCalls, if_neg hswallow]
      exact terminate_disp arc d

theorem escByte_disp (b : Nat) :
    (escByte arc d b).disp = run (call arc) d.disp (escCalls arc d b) := by
  unfold escByte escCalls
  split_ifs
  · rfl
  · rfl
  · exact escPlainFinal_disp arc (closeEsc d) b
  · exact escFinal_disp arc (closeEsc d) _ b
  · exact feedPlain_disp arc (escMalformed (closeEsc d)) b

theorem feedByte_disp (b : Nat) :
    (feedByte arc d b).disp = run (call arc) d.disp (byteCalls arc d b) := by
  unfold feedByte byteCalls
  dsimp only
  by_cases hseen : (selectEnvironment d b).code.escstate = .seen
  · simp only [if_pos hseen]
    exact escByte_disp arc (selectEnvironment d b) _
  · simp only [if_neg hseen]
    exact feedPlain_disp arc (selectEnvironment d b) _

theorem feedOne_disp (b : UInt8) :
    (feedOne arc d b).disp = run (call arc) d.disp (calls arc d b) :=
  feedByte_disp arc (onDisplay d countByte) b.toNat

/-- The display after a byte stream is made by the calls of the stream. -/
theorem feed_disp (buf : List UInt8) :
    (feed arc d buf).disp = run (call arc) d.disp (streamCalls arc d buf) := by
  induction buf generalizing d with
  | nil => rfl
  | cons b buf ih =>
      rw [streamCalls, run_append, ← feedOne_disp]
      exact ih (feedOne arc d b)

theorem streamCalls_append (buf buf' : List UInt8) :
    streamCalls arc d (buf ++ buf') =
      streamCalls arc d buf ++ streamCalls arc (feed arc d buf) buf' := by
  induction buf generalizing d with
  | nil => rfl
  | cons b buf ih =>
      rw [List.cons_append, streamCalls, streamCalls, ih, List.append_assoc]
      rfl

end

end UnicornSuite.Naplps
