import UnicornSuite.NaplpsPdi

/-! The byte automaton of the NAPLPS decoder: the accumulation of picture description sequences, the
control characters, escape sequences, pending operands and the dispatch of graphic characters. A
handler of the source that gives a byte back to `feed_byte` does so in a state where the escape and
pending states are closed, so the recursion is unrolled: `feedMain` is the part of `feed_byte` after
both tests, `handlePending` falls back on it and `escByte` on the two of them. -/

namespace UnicornSuite.Naplps

open CInt

section

variable (arc : ArcPoints)

def onDisplay (d : Decoder) (f : Display → Display) : Decoder := { d with disp := f d.disp }

/-! ### PDI sequences -/

/-- `pdi_execute_set`, with the call of the trace callback that comes first. -/
def pdiExecuteSet (d : Decoder) (op : Nat) (p : Nat → Nat) (n rep : Nat) : Decoder :=
  { d with
    disp := pdiSwitch arc d.disp op p n rep
    trace := d.trace ++ [(op, (List.range n).map p)] }

/-- The operands in the store, padded to a full set. -/
def padSet (q : PdiSeq) : Nat → Nat := fun i => if i < q.oplen then q.opbuf i else 0x40

/-- What `pdi_terminate` executes for the opcode whose sequence it closes. -/
def executeRest (d : Decoder) (op : Nat) : Decoder :=
  let k := pdiDesc op
  let need := setBytes d.disp.dom op
  if k.mode = .accum then pdiExecuteSet arc d op d.pdi.opbuf d.pdi.oplen 0
  else if d.pdi.oplen > 0 then
    pdiExecuteSet arc (onDisplay d operandShort) op (padSet d.pdi)
      (if need > 64 then 64 else need) 0
  else if k.nfixed = 0 ∧ k.nmulti = 0 ∧ k.nsingle = 0 then
    pdiExecuteSet arc d op d.pdi.opbuf 0 0
  else if op = 0x20 ∨ op = 0x3E then pdiExecuteSet arc d op d.pdi.opbuf 0 0
  else d

def setOpenOp (d : Decoder) (op : Option Nat) : Decoder :=
  { d with pdi.op := op, pdi.reps := 0 }

def emptyStore (d : Decoder) : Decoder := { d with pdi.oplen := 0 }

/-- Close the open sequence. -/
def pdiTerminate (d : Decoder) : Decoder :=
  match d.pdi.op with
  | none => d
  | some op => emptyStore (executeRest arc (setOpenOp d none) op)

def pdiOpcode (d : Decoder) (b : Nat) : Decoder :=
  emptyStore (setOpenOp (pdiTerminate arc d) (some b))

/-- `memmove(opbuf, opbuf + need, oplen - need)`, with one more execution counted. -/
def shiftSet (q : PdiSeq) (need : Nat) : PdiSeq :=
  { q with
    opbuf := fun i => if i < q.oplen - need then q.opbuf (need + i) else q.opbuf i
    oplen := q.oplen - need
    reps := q.reps + 1 }

/-- The loop of `pdi_operand` that executes the full sets in the store. Every round takes at least
one byte, so as many rounds as there are bytes are enough. -/
def executeSets (op need : Nat) : Nat → Decoder → Decoder
  | 0, d => d
  | rounds + 1, d =>
      if d.pdi.oplen ≥ need then
        let d := pdiExecuteSet arc d op d.pdi.opbuf need d.pdi.reps
        executeSets op need rounds { d with pdi := shiftSet d.pdi need }
      else d

def storeOperand (q : PdiSeq) (b : Nat) : PdiSeq :=
  { q with opbuf := Function.update q.opbuf q.oplen b, oplen := q.oplen + 1 }

def pdiOperand (d : Decoder) (b : Nat) : Decoder :=
  match d.pdi.op with
  | none => d
  | some op =>
      if d.pdi.oplen < opbufMax then
        let d := { d with pdi := storeOperand d.pdi b }
        if (pdiDesc op).mode ≠ .rep then d
        else
          let need := setBytes d.disp.dom op
          if need = 0 then d else executeSets arc op need d.pdi.oplen d
      else d

/-! ### C1 controls -/

/-- Wait for the operand of a control. -/
def openPend (d : Decoder) (kind : Pend) : Decoder :=
  { d with code.pend := kind, code.pendlen := 0 }

def dropPend (d : Decoder) : Decoder := { d with code.pend := .none }

def setSwallow (d : Decoder) (swallow : Bool) : Decoder := { d with code.swallow := swallow }

/-- The C1 controls that end a definition body. -/
def isDefTerminator (row : Nat) : Bool := row ≤ 5

/-- The cursor coordinate along the character path. -/
def pathPos (d : Display) : Int := if d.text.path < 2 then d.text.cx else d.text.cy

/-- The cursor is at the last character position along the path. -/
def atPathEnd (d : Display) : Bool :=
  match d.text.path with
  | 0 => wrap32 (d.text.cx + wrap32 (2 * cfW d)) > fxOne
  | 1 => wrap32 (d.text.cx - cfW d) < 0
  | 2 => wrap32 (d.text.cy + wrap32 (2 * cfH d)) > visYFx
  | 3 => wrap32 (d.text.cy - cfH d) < 0
  | _ => false

/-- REPEAT TO EOL: up to `rounds` more copies of the last character along the path. -/
def repeatToEol : Nat → Display → Display
  | 0, d => d
  | rounds + 1, d =>
      if atPathEnd d then d
      else
        let d' := drawChar d d.text.lastSpacingChar
        if pathPos d' = pathPos d then d' else repeatToEol rounds d'

def setCharField (d : Display) (dx dy : Int) : Display :=
  { d with text.cfDx := dx, text.cfDy := dy }

def doC1 (d : Decoder) (col row : Nat) : Decoder :=
  if col = 4 then
    match row with
    | 0 | 2 | 3 | 4 => setSwallow (onDisplay d skipped) true
    | 1 => onDisplay d skipped
    | 5 => setSwallow d false
    | 6 => openPend d .rep
    | 7 =>
        if d.disp.text.haveLastSpacing then onDisplay d (repeatToEol 256)
        else onDisplay d skipped
    | 8 => onDisplay d fun disp => { disp with text.reverseVideo := true }
    | 9 => onDisplay d fun disp => { disp with text.reverseVideo := false }
    | 10 => onDisplay d (setCharField · cfSmallDx cfSmallDy)
    | 11 => onDisplay d (setCharField · cfMediumDx cfMediumDy)
    | 12 => onDisplay d (setCharField · cfNormalDx cfNormalDy)
    | 13 => onDisplay d (setCharField · cfDblhiDx cfDblhiDy)
    | 14 => onDisplay d skipped
    | 15 => onDisplay d (setCharField · cfDblszDx cfDblszDy)
    | _ => d
  else
    match row with
    | 0 => onDisplay d skipped
    | 5 => onDisplay d fun disp => { disp with text.wordWrap := true }
    | 6 => onDisplay d fun disp => { disp with text.wordWrap := false }
    | 7 => onDisplay d fun disp => { disp with text.scroll := true }
    | 8 => onDisplay d fun disp => { disp with text.scroll := false }
    | 9 => onDisplay d fun disp => { disp with text.underline := true }
    | 10 => onDisplay d fun disp => { disp with text.underline := false }
    | 15 => onDisplay d skipped
    | _ => d

/-! ### Graphic characters -/

/-- The G slot for the next graphic character only. -/
def setShift (d : Decoder) (slot : Option Nat) : Decoder := { d with code.singleShift := slot }

def noteSpace (d : Display) : Display :=
  { d with text.lastSpacingChar := 0x20, text.haveLastSpacing := true }

/-- SPACE of the primary set. It is drawn where the character field is painted. -/
def spaceChar (d : Display) : Display :=
  let d := noteSpace d
  if d.draw.colorMode = 2 ∨ d.text.reverseVideo ∨ d.text.underline then drawChar d 0x20
  else textAdvance d

def handleGraphic (d : Decoder) (b slot : Nat) : Decoder :=
  let d := setShift d none
  match d.code.gset (slot % 4) with
  | .primary =>
      if b = 0x7F then d
      else if b = 0x20 then onDisplay d spaceChar
      else onDisplay d (drawChar · b)
  | .pdi => if b / 64 % 2 = 1 then pdiOperand arc d b else pdiOpcode arc d b
  | .supp | .mosaic | .macros | .drcs =>
      let d := pdiTerminate arc d
      onDisplay d skipped
  | .null => pdiTerminate arc d

/-! ### C0 controls -/

def lockGl (d : Decoder) (slot : Nat) : Decoder := { d with code.gl := slot }

def lockGr (d : Decoder) (slot : Nat) : Decoder := { d with code.gr := slot }

def openEsc (d : Decoder) : Decoder := { d with code.escstate := .seen, code.esclen := 0 }

/-- The transmission and device controls and NUL, which have no effect on this layer. -/
def transparentC0 (b : Nat) : Bool := b ≤ 0x06 || (0x10 ≤ b && b ≤ 0x17)

def clearScreen (d : Display) : Display :=
  markDrew (textHome { d with surf := surfaceClear d.surf (clearAddr d) })

def handleC0 (d : Decoder) (b : Nat) : Decoder :=
  if transparentC0 b then d
  else if b = 0x1B then openEsc d
  else
    let d := pdiTerminate arc d
    if d.code.swallow then d
    else
      match b with
      | 0x08 => onDisplay d textBs
      | 0x09 => onDisplay d textAdvance
      | 0x0A => onDisplay d textLf
      | 0x0B => onDisplay d textRlf
      | 0x0C => onDisplay d clearScreen
      | 0x0D => onDisplay d textCr
      | 0x0E => lockGl d 1
      | 0x0F => lockGl d 0
      | 0x19 => setShift d (some 2)
      | 0x1C => openPend d .aps
      | 0x1D => setShift d (some 3)
      | 0x1E => onDisplay d textHome
      | 0x1F => openPend d .nsr
      | _ => d

/-! ### Resets inside the stream -/

/-- The part of NSR that concerns the display; the colour map stays. -/
def nsrDisplay (d : Display) : Display :=
  let d := resetTexture (resetText (resetDomain d))
  let d := findBw { d with
    draw.colorMode := 0, draw.drawValue := ⟨primaryMax, primaryMax, primaryMax⟩ }
  textHome { d with draw.drawAddr := d.draw.addrWhite, draw.bgAddr := d.draw.addrBlack }

def nsrReset (d : Decoder) : Decoder :=
  { d with
    code := { d.code with gset := defaultGset, gl := 0, gr := 1, singleShift := none }
    disp := nsrDisplay d.disp }

def beginTextPresentation (d : Decoder) : Decoder :=
  let d := nsrReset d
  onDisplay d fun disp => { disp with surf := surfaceClear disp.surf disp.draw.addrBlack }

/-! ### Byte dispatch -/

/-- `feed_byte` from the mode test on. -/
def feedMain (d : Decoder) (b : Nat) : Decoder :=
  if d.code.mode = .ascii then
    if b = 0x1B then openEsc d
    else if b < 0x20 then handleC0 arc d b
    else if b = 0x7F ∨ b ≥ 0x80 then d
    else onDisplay d (drawChar · b)
  else if b < 0x20 then handleC0 arc d b
  else if d.code.eightbit ∧ b ≥ 0x80 ∧ b ≤ 0x9F then
    let col := b / 16 % 16 - 4
    let row := b % 16
    if d.code.swallow ∧ ¬(col = 4 ∧ isDefTerminator row) then d
    else doC1 (pdiTerminate arc d) col row
  else if d.code.swallow then d
  else if d.code.eightbit ∧ b ≥ 0xA0 then
    handleGraphic arc d (b % 128) (d.code.singleShift.getD d.code.gr)
  else handleGraphic arc d b (d.code.singleShift.getD d.code.gl)

/-- `count` copies of the last character. -/
def repeatChar : Nat → Display → Display
  | 0, d => d
  | count + 1, d => repeatChar count (drawChar d d.text.lastSpacingChar)

/-- The cursor at `(cx, cy)`, clamped so that a cell of `cw` by `ch` lies on the screen. -/
def placeCursor (d : Display) (cx cy cw ch : Int) : Display :=
  let cx := if cw > 0 ∧ wrap32 (cx + cw) > fxOne then wrap32 (fxOne - cw) else cx
  let cy := if ch > 0 ∧ wrap32 (cy + ch) > visYFx then wrap32 (visYFx - ch) else cy
  cursorMoved { d with
    text.cx := if cx < 0 then 0 else cx, text.cy := if cy < 0 then 0 else cy }

/-- The two bytes of NSR: bits `b6` to `b1`, row 0 at the top, cells of the default size. -/
def nsrAddress (d : Decoder) (b0 b1 : Nat) : Decoder :=
  let d := nsrReset d
  if b0 < 0x40 ∨ b1 < 0x40 then d
  else
    let rows := visYFx / cfNormalDy
    let row : Int := (b0 % 64 : Nat)
    let row := if row ≥ rows then rows - 1 else row
    let row := if row < 0 then 0 else row
    let cx := (b1 % 64 : Nat) * cfNormalDx
    let cy := visYFx - (row + 1) * cfNormalDy
    onDisplay d (placeCursor · cx cy cfNormalDx cfNormalDy)

/-- The two bytes of APS: seven bits less 32, row 0 at the bottom, cells of the current size. -/
def apsAddress (d : Decoder) (b0 b1 : Nat) : Decoder :=
  if b0 = 0x7F ∨ b1 = 0x7F then d
  else
    let row : Int := (b0 % 128 : Nat) - 32
    let col : Int := (b1 % 128 : Nat) - 32
    if row < 0 ∨ col < 0 then d
    else
      let cw := cfW d.disp
      let ch := cfH d.disp
      onDisplay d (placeCursor · (wrap32 (col * cw)) (wrap32 (row * ch)) cw ch)

/-- The count byte of REPEAT, or the byte that shows there is none. -/
def handleRepeat (d : Decoder) (b : Nat) (isCtrl : Bool) : Decoder :=
  if isCtrl ∨ b % 128 < 0x40 then feedMain arc (onDisplay d skipped) b
  else if d.disp.text.haveLastSpacing then onDisplay d (repeatChar (b % 128 % 64))
  else onDisplay d skipped

def storePend (d : Decoder) (v : Nat) : Decoder :=
  { d with
    code.pendbuf := Function.update d.code.pendbuf d.code.pendlen v
    code.pendlen := d.code.pendlen + 1 }

def handlePending (d : Decoder) (b : Nat) : Decoder :=
  let isCtrl := decide (b < 0x20 ∨ (d.code.eightbit ∧ b ≥ 0x80 ∧ b ≤ 0x9F))
  if d.code.pend = .rep then handleRepeat arc (dropPend d) b isCtrl
  else if isCtrl then
    let d' := openPend d .none
    feedMain arc (if d.code.pend = .nsr then nsrReset d' else d') b
  else
    let d := storePend d (b % 128)
    if d.code.pendlen < 2 then d
    else if d.code.pend = .nsr then
      nsrAddress (openPend d .none) (d.code.pendbuf 0) (d.code.pendbuf 1)
    else apsAddress (openPend d .none) (d.code.pendbuf 0) (d.code.pendbuf 1)

/-- `feed_byte` where no escape sequence is open. -/
def feedPlain (d : Decoder) (b : Nat) : Decoder :=
  if d.code.pend ≠ .none then handlePending arc d b else feedMain arc d b

/-! ### Escape sequences -/

/-- The set a designating final names. -/
def designated (b : Nat) : GSet :=
  match b with
  | 0x42 => .primary
  | 0x7C => .supp
  | 0x57 => .pdi
  | 0x7D => .mosaic
  | 0x7A => .macros
  | 0x7B => .drcs
  | _ => .null

def escUnknown (d : Decoder) : Decoder :=
  onDisplay d fun disp => { disp with st.escUnknown := disp.st.escUnknown + 1 }

/-- A final without intermediates: a locking shift or a C1 control. -/
def escPlainFinal (d : Decoder) (b : Nat) : Decoder :=
  match b with
  | 0x6E => lockGl (pdiTerminate arc d) 2
  | 0x6F => lockGl (pdiTerminate arc d) 3
  | 0x7E | 0x6B => lockGr (pdiTerminate arc d) 1
  | 0x7D | 0x6C => lockGr (pdiTerminate arc d) 2
  | 0x7C | 0x6D => lockGr (pdiTerminate arc d) 3
  | _ =>
      if b ≥ 0x40 ∧ b ≤ 0x5F then
        let col := b / 16 % 16
        let row := b % 16
        if d.code.swallow ∧ ¬(col = 4 ∧ isDefTerminator row) then d
        else doC1 (pdiTerminate arc d) col row
      else escUnknown d

def setMode (d : Decoder) (mode : Mode) : Decoder := { d with code.mode := mode }

/-- ESC 2/5 F: into and out of NAPLPS. -/
def escCompleteCode (d : Decoder) (b : Nat) : Decoder :=
  let d := pdiTerminate arc d
  if b = 0x41 then setMode d .naplps
  else if b = 0x40 then
    setMode (if d.code.mode = .naplps then beginTextPresentation d else d) .ascii
  else escUnknown d

def designate (d : Decoder) (slot b : Nat) : Decoder :=
  let d := pdiTerminate arc d
  { d with code.gset := Function.update d.code.gset slot (designated b) }

/-- A final after the intermediate `i0`. -/
def escFinal (d : Decoder) (i0 b : Nat) : Decoder :=
  if d.code.swallow then d
  else
    match i0 with
    | 0x25 => escCompleteCode arc d b
    | 0x28 => designate arc d 0 b
    | 0x29 | 0x2D => designate arc d 1 b
    | 0x2A | 0x2E => designate arc d 2 b
    | 0x2B | 0x2F => designate arc d 3 b
    | 0x21 | 0x22 => d
    | _ => escUnknown d

/-- The end of an escape sequence. -/
def closeEsc (d : Decoder) : Decoder := { d with code.escstate := .none, code.esclen := 0 }

def storeIntermediate (d : Decoder) (b : Nat) : Decoder :=
  { d with
    code.escbuf := Function.update d.code.escbuf d.code.esclen b
    code.esclen := d.code.esclen + 1 }

def escMalformed (d : Decoder) : Decoder :=
  onDisplay d fun disp => { disp with st.escMalformed := disp.st.escMalformed + 1 }

/-- The length is cleared after the final has acted; nothing that it does reads it again. -/
def escByte (d : Decoder) (b : Nat) : Decoder :=
  if 0x20 ≤ b ∧ b ≤ 0x2F then
    if d.code.esclen < escbufMax then storeIntermediate d b else d
  else if 0x30 ≤ b ∧ b ≤ 0x7E then
    if d.code.esclen = 0 then escPlainFinal arc (closeEsc d) b
    else escFinal arc (closeEsc d) (d.code.escbuf 0) b
  else feedPlain arc (escMalformed (closeEsc d)) b

/-- A byte with bit 8 set selects the 8-bit environment for good. -/
def selectEnvironment (d : Decoder) (b : Nat) : Decoder :=
  { d with code.eightbit := d.code.eightbit || b / 128 % 2 == 1 }

def feedByte (d : Decoder) (b : Nat) : Decoder :=
  let d := selectEnvironment d b
  let b := if d.code.eightbit then b else b % 128
  if d.code.escstate = .seen then escByte arc d (b % 128) else feedPlain arc d b

/-! ### Entry points -/

def countByte (d : Display) : Display := { d with st.bytesIn := d.st.bytesIn + 1 }

def feedOne (d : Decoder) (b : UInt8) : Decoder :=
  feedByte arc (onDisplay d countByte) b.toNat

def feed (d : Decoder) (buf : List UInt8) : Decoder := buf.foldl (feedOne arc) d

def flush (d : Decoder) : Decoder := pdiTerminate arc d

/-- `naplps_take_wait`, less the value it returns. -/
def takeWait (d : Decoder) : Decoder := onDisplay d fun disp => { disp with waitTenths := 0 }

end

/-! ### What closing a sequence leaves alone -/

section

variable {arc : ArcPoints}

theorem executeRest_code (d : Decoder) (op : Nat) : (executeRest arc d op).code = d.code := by
  unfold executeRest
  dsimp only
  split_ifs <;> rfl

theorem executeRest_pdi (d : Decoder) (op : Nat) : (executeRest arc d op).pdi = d.pdi := by
  unfold executeRest
  dsimp only
  split_ifs <;> rfl

theorem pdiTerminate_code (d : Decoder) : (pdiTerminate arc d).code = d.code := by
  unfold pdiTerminate
  split
  · rfl
  · exact executeRest_code _ _

end

end UnicornSuite.Naplps
