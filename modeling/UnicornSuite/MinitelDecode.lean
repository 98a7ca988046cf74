import UnicornSuite.LibCInt
import UnicornSuite.MinitelScreen

/-! The byte automaton of the Minitel decoder: attributes, control codes, addressing, CSI and
protocol sequences. The accumulators of unfinished sequences are arrays of four elements; an index
outside of them raises the fault flag of the array. -/

namespace UnicornSuite.Minitel

open CInt

/-- The parser states. -/
inductive St where
  | ground | esc | iso | csi | us1 | us2 | rep | ss2 | ss2Acc | skip1 | pro
  | transp | transpEsc | transpEsc25 | transpEsc2F
  deriving DecidableEq

/-- `iso[4]`, `csi_p[4]` and `pro[4]`. -/
abbrev arr4 : Region := ⟨0, 1, 0, 4⟩

structure IsoSeq where
  iso : Grid Nat
  /-- An `int` that counts the intermediates. -/
  isoN : Int

structure CsiSeq where
  csiP : Grid Int
  csiNp : Int
  csiBad : Bool
  csiPriv : Bool

structure ProSeq where
  pro : Grid Nat
  proN : Int
  proLeft : Int

structure Decoder where
  scr : Screen
  st : St
  usR : Nat
  acc : Nat
  iso : IsoSeq
  csi : CsiSeq
  pro : ProSeq

def onScreen (d : Decoder) (f : Screen → Screen) : Decoder := { d with scr := f d.scr }

def setSt (d : Decoder) (st : St) : Decoder := { d with st := st }

/-! ### G2 -/

def g2Glyph (b : Nat) : Option Nat :=
  match b with
  | 0x23 => some Ext.pound.code
  | 0x24 => some 0x24
  | 0x26 => some 0x23
  | 0x27 => some Ext.section_.code
  | 0x2C => some Ext.arrowL.code
  | 0x2D => some Ext.arrowU.code
  | 0x2E => some Ext.arrowR.code
  | 0x2F => some Ext.arrowD.code
  | 0x30 => some Ext.degree.code
  | 0x31 => some Ext.plusminus.code
  | 0x38 => some Ext.divide.code
  | 0x3C => some Ext.quarter.code
  | 0x3D => some Ext.half.code
  | 0x3E => some Ext.threeQuarter.code
  | 0x6A => some Ext.oeUc.code
  | 0x7A => some Ext.oeLc.code
  | 0x7B => some Ext.beta.code
  | _ => none

def isAccent (b : Nat) : Bool := b = 0x41 ∨ b = 0x42 ∨ b = 0x43 ∨ b = 0x48 ∨ b = 0x4B

/-- The accented letters, by accent and letter. -/
def compose (acc letter : Nat) : Option Nat :=
  match acc, letter with
  | 0x41, 0x61 => some Ext.aGrave.code
  | 0x41, 0x65 => some Ext.eGrave.code
  | 0x41, 0x75 => some Ext.uGrave.code
  | 0x42, 0x65 => some Ext.eAcute.code
  | 0x43, 0x61 => some Ext.aCirc.code
  | 0x43, 0x65 => some Ext.eCirc.code
  | 0x43, 0x69 => some Ext.iCirc.code
  | 0x43, 0x6F => some Ext.oCirc.code
  | 0x43, 0x75 => some Ext.uCirc.code
  | 0x48, 0x61 => some Ext.aDiaer.code
  | 0x48, 0x65 => some Ext.eDiaer.code
  | 0x48, 0x69 => some Ext.iDiaer.code
  | 0x48, 0x6F => some Ext.oDiaer.code
  | 0x48, 0x75 => some Ext.uDiaer.code
  | 0x4B, 0x63 => some Ext.cCedil.code
  | _, _ => none

/-! ### Attributes -/

def serialDef (a : Attr) (other : Bool) : Attr :=
  { a with sPending := true, sPendingOther := a.sPendingOther || other }

def setAttr (d : Screen) (a : Attr) : Screen := { d with a := a }

def doAttribute (d : Screen) (x : Nat) : Screen :=
  if 0x40 ≤ x ∧ x ≤ 0x47 then setAttr d { d.a with fg := x - 0x40 }
  else if 0x50 ≤ x ∧ x ≤ 0x57 then setAttr d (serialDef { d.a with sBg := x - 0x50 } false)
  else
    match x with
    | 0x48 => setAttr d { d.a with flash := true }
    | 0x49 => setAttr d { d.a with flash := false }
    | 0x4C => if d.a.g1 then d else setAttr d { d.a with size := {} }
    | 0x4D =>
        if d.a.g1 ∨ d.inRow0 ∨ d.row < 2 then filtered d
        else setAttr d { d.a with size := { dh := true } }
    | 0x4E =>
        if d.a.g1 ∨ d.inRow0 then filtered d else setAttr d { d.a with size := { dw := true } }
    | 0x4F =>
        if d.a.g1 ∨ d.inRow0 ∨ d.row < 2 then filtered d
        else setAttr d { d.a with size := { dw := true, dh := true } }
    | 0x58 => setAttr d (serialDef { d.a with sMask := true } true)
    | 0x5F => setAttr d (serialDef { d.a with sMask := false } true)
    | 0x59 =>
        if d.a.g1 then setAttr d { d.a with separated := false }
        else setAttr d (serialDef { d.a with sUl := false } true)
    | 0x5A =>
        if d.a.g1 then setAttr d { d.a with separated := true }
        else setAttr d (serialDef { d.a with sUl := true } true)
    | 0x5C => if d.a.g1 then d else setAttr d { d.a with invert := false }
    | 0x5D => if d.a.g1 then filtered d else setAttr d { d.a with invert := true }
    | _ => filtered d

/-! ### C0 -/

/-- FF: rows 1 to 24 are erased. -/
def doFf (d : Screen) : Screen :=
  let d := { d with mem := clearRows d.mem 1 24 }
  markEver (separatorReset (moveTo (leaveRow0 d) 1 1))

def doCr (d : Screen) : Screen := moveTo d d.row 1

/-- SO cancels size, inversion and underline for good. -/
def doSo (d : Screen) : Screen :=
  setAttr d { d.a with g1 := true, size := {}, invert := false, sUl := false }

def doSi (d : Screen) : Screen := setAttr d { d.a with g1 := false, separated := false }

/-- CAN fills with spaces of the current set, which are no delimiters. -/
def canCell (a : Attr) : Cell :=
  if a.g1 then { mosaicCell a 0 with flags := { separated := a.separated } }
  else { spaceCell a with size := {} }

def doCan (d : Screen) : Screen :=
  let col := if d.col > cols then cols else d.col
  let r := if d.inRow0 then 0 else d.row
  markEver { d with
    mem := Loop.up col (cols + 1) (fun c g => g.put page r c (canCell d.a)) d.mem }

def doSub (d : Screen) : Screen :=
  let d := { d with stats.errors := d.stats.errors + 1 }
  if d.a.g1 then putG1 d 0x5F else putGlyph d gFullblock

def doRs (d : Screen) : Screen := separatorReset (moveTo (leaveRow0 d) 1 1)

def countBell (d : Screen) : Screen := { d with stats.bells := d.stats.bells + 1 }

def showCursor (d : Screen) (on : Bool) : Screen := { d with cursorOn := on }

def doC0 (d : Decoder) (b : Nat) : Decoder :=
  match b with
  | 0x07 => onScreen d countBell
  | 0x08 => onScreen d doBs
  | 0x09 => onScreen d doHt
  | 0x0A => onScreen d doLf
  | 0x0B => onScreen d doVt
  | 0x0C => onScreen d doFf
  | 0x0D => onScreen d doCr
  | 0x0E => onScreen d doSo
  | 0x0F => onScreen d doSi
  | 0x11 => onScreen d (showCursor · true)
  | 0x12 => setSt d .rep
  | 0x13 => setSt d .skip1
  | 0x14 => onScreen d (showCursor · false)
  | 0x18 => onScreen d doCan
  | 0x19 => if d.scr.a.g1 then d else setSt d .ss2
  | 0x1A => onScreen d doSub
  | 0x1B => setSt d .esc
  | 0x1D => setSt d .skip1
  | 0x1E => onScreen d doRs
  | 0x1F => setSt d .us1
  | _ => d

/-! ### US -/

/-- The way into row 0 saves the position and the attributes, unless they are saved already. -/
def enterRow0 (d : Screen) : Screen :=
  if d.inRow0 then d
  else
    { d with
      svRow := d.row, svCol := if d.col > cols then cols else d.col, svA := d.a, inRow0 := true }

def doUs (d : Screen) (r c : Nat) : Screen :=
  if r < 0x40 ∨ c < 0x40 then usIgnored d
  else if r - 0x40 > 24 ∨ c - 0x40 < 1 ∨ c - 0x40 > 40 then usIgnored d
  else if r - 0x40 = 0 then separatorReset (moveTo (enterRow0 d) 0 (c - 0x40 : Nat))
  else separatorReset (moveTo (leaveRow0 d) (r - 0x40 : Nat) (c - 0x40 : Nat))

/-! ### CSI -/

def csiArg (q : CsiSeq) (i dflt : Int) : Int :=
  if i ≥ q.csiNp ∨ q.csiP.cell 0 i < 0 then dflt else q.csiP.cell 0 i

def eraseScreen (d : Screen) (p0 : Int) : Screen :=
  markEver <|
    if p0 = 0 then
      let g := clearRow d.mem d.row d.col cols
      { d with mem := if d.row < 24 then clearRows g (d.row + 1) 24 else g }
    else if p0 = 1 then
      let g := if d.row > 1 then clearRows d.mem 1 (d.row - 1) else d.mem
      { d with mem := clearRow g d.row 1 d.col }
    else if p0 = 2 then { d with mem := clearRows d.mem 1 24 }
    else filtered d

def eraseLine (d : Screen) (p0 : Int) : Screen :=
  markEver <|
    if p0 = 0 then { d with mem := clearRow d.mem d.row d.col cols }
    else if p0 = 1 then { d with mem := clearRow d.mem d.row 1 d.col }
    else if p0 = 2 then { d with mem := clearRow d.mem d.row 1 cols }
    else filtered d

/-- The number of characters CSI P and CSI @ move within the row. -/
def clampChars (d : Screen) (n : Int) : Int :=
  if n > cols - d.col + 1 then cols - d.col + 1 else n

def deleteChars (d : Screen) (n : Int) : Screen :=
  let g := d.mem.moveRun page d.row d.col (d.col + n) (cols - d.col + 1 - n)
  { d with mem := clearRow g d.row (cols - n + 1) cols }

def insertChars (d : Screen) (n : Int) : Screen :=
  let g := d.mem.moveRun page d.row (d.col + n) d.col (cols - d.col + 1 - n)
  { d with mem := clearRow g d.row d.col (d.col + n - 1) }

def clampRows (d : Screen) (n : Int) : Int := if n > 25 - d.row then 25 - d.row else n

def setInsert (d : Screen) (p0 : Int) (on : Bool) : Screen :=
  if p0 = 4 then { d with insert := on } else filtered d

def addressCursor (d : Screen) (r c : Int) : Screen :=
  if r < 1 ∨ r > 24 ∨ c < 1 ∨ c > cols then filtered d else moveTo d r c

/-- The functions of CSI by their final, for arguments that are in order. -/
def csiFunction (d : Screen) (q : CsiSeq) (final : Nat) (n p0 : Int) : Screen :=
  match final with
  | 0x41 => moveTo d (if d.row - n < 1 then 1 else d.row - n) d.col
  | 0x42 => moveTo d (if d.row + n > 24 then 24 else d.row + n) d.col
  | 0x43 => moveTo d d.row (if d.col + n > cols then cols else d.col + n)
  | 0x44 => moveTo d d.row (if d.col - n < 1 then 1 else d.col - n)
  | 0x48 => addressCursor d (csiArg q 0 1) (csiArg q 1 1)
  | 0x4A => eraseScreen d p0
  | 0x4B => eraseLine d p0
  | 0x50 => deleteChars d (clampChars d n)
  | 0x40 => insertChars d (clampChars d n)
  | 0x4D => scrollUp d d.row 24 (clampRows d n)
  | 0x4C => scrollDown d d.row 24 (clampRows d n)
  | 0x68 => setInsert d p0 true
  | 0x6C => setInsert d p0 false
  | _ => filtered d

def doCsi (d : Screen) (q : CsiSeq) (final : Nat) : Screen :=
  if d.inRow0 ∨ q.csiBad ∨ q.csiPriv then filtered d
  else
    let n := csiArg q 0 1
    csiFunction (settleCol d) q final (if n < 1 then 1 else n) (csiArg q 0 0)

/-! ### Protocol -/

/-- PRO1 RESET: the screen is not cleared. -/
def proReset (d : Screen) : Screen :=
  { d with a := attrDefault, cursorOn := false, scroll := false, insert := false }

def setScroll (d : Screen) (on : Bool) : Screen := { d with scroll := on }

def doPro (d : Screen) (q : ProSeq) : Screen :=
  let d := protocol d
  if q.proN = 1 then
    if q.pro.cell 0 0 = 0x7B then sendReply d [0x01, 0x4D, 0x47, 0x53, 0x04]
    else if q.pro.cell 0 0 = 0x7F then proReset d
    else d
  else if q.proN = 2 ∧ q.pro.cell 0 1 = 0x43 then
    if q.pro.cell 0 0 = 0x69 then setScroll d true
    else if q.pro.cell 0 0 = 0x6A then setScroll d false
    else d
  else d

/-! ### The byte loop -/

/-- `csi_p` filled with -1. -/
def csiOpen (q : CsiSeq) : CsiSeq :=
  { csiP := q.csiP.fillRun arr4 0 0 3 (-1), csiNp := 0, csiBad := false, csiPriv := false }

def csiDigit (q : CsiSeq) (b : Nat) : CsiSeq :=
  let np := if q.csiNp = 0 then 1 else q.csiNp
  let v := if q.csiP.cell 0 (np - 1) < 0 then 0 else q.csiP.cell 0 (np - 1)
  { q with
    csiNp := np
    csiP := q.csiP.put arr4 0 (np - 1) (if v < 1000 then v * 10 + ((b : Int) - 0x30) else v) }

def csiNext (q : CsiSeq) : CsiSeq :=
  let np := if q.csiNp = 0 then 1 else q.csiNp
  if np < 4 then { q with csiNp := np + 1 } else { q with csiNp := np, csiBad := true }

def isoOpen (q : IsoSeq) (b : Nat) : IsoSeq := { iso := q.iso.put arr4 0 0 b, isoN := 1 }

def isoStore (q : IsoSeq) (b : Nat) : IsoSeq :=
  { iso := if q.isoN < 4 then q.iso.put arr4 0 q.isoN b else q.iso
    isoN := wrap32 (q.isoN + 1) }

def proOpen (q : ProSeq) (b : Nat) : ProSeq := { q with proN := 0, proLeft := (b : Int) - 0x38 }

def proStore (q : ProSeq) (b : Nat) : ProSeq :=
  { pro := if q.proN < 4 then q.pro.put arr4 0 q.proN b else q.pro
    proN := q.proN + 1
    proLeft := q.proLeft - 1 }

/-- The answer to the cursor position request. -/
def reportCursor (d : Screen) : Screen :=
  let col := if d.col > cols then cols else d.col
  let row := if d.inRow0 then 0 else d.row
  protocol (sendReply d [0x1F, ((0x40 + row) % 256).toNat, ((0x40 + col) % 256).toNat])

def escCode (d : Decoder) (b : Nat) : Decoder :=
  if 0x40 ≤ b ∧ b ≤ 0x5F ∧ b ≠ 0x5B then onScreen d (doAttribute · b)
  else if b = 0x5B then { setSt d .csi with csi := csiOpen d.csi }
  else if b = 0x25 then setSt d .transp
  else if 0x20 ≤ b ∧ b ≤ 0x2F then { setSt d .iso with iso := isoOpen d.iso b }
  else if b = 0x35 ∨ b = 0x36 ∨ b = 0x37 then setSt d .skip1
  else if b = 0x39 ∨ b = 0x3A ∨ b = 0x3B then { setSt d .pro with pro := proOpen d.pro b }
  else if b = 0x61 then onScreen d reportCursor
  else onScreen d filtered

def maskScreen (d : Screen) (on : Bool) : Screen := { d with screenMask := on }

def isoCode (d : Decoder) (b : Nat) : Decoder :=
  if 0x20 ≤ b ∧ b ≤ 0x2F then { d with iso := isoStore d.iso b }
  else
    let d := setSt d .ground
    if d.iso.isoN = 2 ∧ d.iso.iso.cell 0 0 = 0x23 ∧ d.iso.iso.cell 0 1 = 0x20 ∧ b = 0x58 then
      onScreen d (maskScreen · true)
    else if d.iso.isoN = 2 ∧ d.iso.iso.cell 0 0 = 0x23 ∧ d.iso.iso.cell 0 1 = 0x20 ∧ b = 0x5F then
      onScreen d (maskScreen · false)
    else onScreen d filtered

def csiCode (d : Decoder) (b : Nat) : Decoder :=
  if 0x30 ≤ b ∧ b ≤ 0x39 then { d with csi := csiDigit d.csi b }
  else if b = 0x3B then { d with csi := csiNext d.csi }
  else if 0x3C ≤ b ∧ b ≤ 0x3F then { d with csi.csiPriv := true }
  else if b = 0x3A ∨ 0x20 ≤ b ∧ b ≤ 0x2F then { d with csi.csiBad := true }
  else onScreen (setSt d .ground) (doCsi · d.csi b)

def ss2Code (d : Decoder) (b : Nat) : Decoder :=
  if isAccent b then { setSt d .ss2Acc with acc := b }
  else
    match g2Glyph b with
    | some g => onScreen (setSt d .ground) (putGlyph · g)
    | none => onScreen (setSt d .ground) fun s => putGlyph (unrepresent s) gLowbar

/-- An accent that does not go with its letter is dropped. -/
def ss2AccCode (d : Decoder) (b : Nat) : Decoder :=
  match compose d.acc b with
  | some g => onScreen (setSt d .ground) (putGlyph · g)
  | none => onScreen (setSt d .ground) (putPrintable · b)

def proCode (d : Decoder) (b : Nat) : Decoder :=
  let d := { d with pro := proStore d.pro b }
  if d.pro.proLeft ≤ 0 then onScreen (setSt d .ground) (doPro · d.pro) else d

/-- Everything outside of screen transparency, after the resynchronisation. -/
def feedCode (d : Decoder) (b : Nat) : Decoder :=
  match d.st with
  | .ground => if b < 0x20 then doC0 d b else onScreen d (putPrintable · b)
  | .esc => escCode (setSt d .ground) b
  | .iso => isoCode d b
  | .csi => csiCode d b
  | .us1 => { setSt d .us2 with usR := b }
  | .us2 => onScreen (setSt d .ground) (doUs · d.usR b)
  | .rep =>
      if b < 0x40 then onScreen (setSt d .ground) filtered
      else onScreen (setSt d .ground) (repeatLast (b % 64))
  | .ss2 => ss2Code d b
  | .ss2Acc => ss2AccCode d b
  | .skip1 => onScreen (setSt d .ground) filtered
  | .pro => proCode d b
  | _ => setSt d .ground

def countResync (d : Screen) : Screen := { d with stats.resync := d.stats.resync + 1 }

/-- A C0 code inside of a sequence abandons the sequence. -/
def resync (d : Decoder) (b : Nat) : Decoder :=
  if b < 0x20 ∧ d.st ≠ .ground then onScreen (setSt d .ground) countResync else d

def feedByte (d : Decoder) (b : Nat) : Decoder :=
  match d.st with
  | .transp => onScreen (if b = 0x1B then setSt d .transpEsc else d) filtered
  | .transpEsc =>
      if b = 0x25 then setSt d .transpEsc25
      else if b = 0x2F then setSt d .transpEsc2F
      else if b ≠ 0x1B then setSt d .transp
      else d
  | .transpEsc25 =>
      if b = 0x40 then setSt d .ground
      else setSt d (if b = 0x1B then .transpEsc else .transp)
  | .transpEsc2F =>
      if b = 0x3F then setSt d .ground
      else setSt d (if b = 0x1B then .transpEsc else .transp)
  | _ => if b = 0 then d else feedCode (resync d b) b

/-! ### Entry points -/

/-- The zeroed memory and the power-on state. -/
def reset : Decoder where
  scr :=
    { mem := clearRows (.const ⟨.alpha, 0, 0, 0, {}, {}⟩) 0 24
      row := 1, col := 1, a := attrDefault, inRow0 := false, svRow := 0, svCol := 0
      svA := { attrDefault with fg := 0 }
      cursorOn := false, screenMask := true, scroll := false, insert := false
      lastKind := .none, lastCode := 0, ever := false, stats := {}, replies := [], rolled := false }
  st := .ground
  usR := 0
  acc := 0
  iso := { iso := .const 0, isoN := 0 }
  csi := { csiP := .const 0, csiNp := 0, csiBad := false, csiPriv := false }
  pro := { pro := .const 0, proN := 0, proLeft := 0 }

/-- The parity bit is folded away and counted. -/
def countByte (b : UInt8) (d : Screen) : Screen :=
  { d with
    stats.bytesIn := d.stats.bytesIn + 1
    stats.bit8 := if b.toNat ≥ 0x80 then d.stats.bit8 + 1 else d.stats.bit8 }

def feedOne (d : Decoder) (b : UInt8) : Decoder :=
  feedByte (onScreen d (countByte b)) (b.toNat % 128)

def feed (d : Decoder) (buf : List UInt8) : Decoder := buf.foldl feedOne d

end UnicornSuite.Minitel
