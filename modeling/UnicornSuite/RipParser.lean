import UnicornSuite.LibCInt
import UnicornSuite.LibRun
import UnicornSuite.RipText

/-! The RIPscrip wire parser (`rip_parser.c`). Bytes are assembled into lines; the body of a command
line is cut into commands by a descriptor table of argument layouts, and each command is executed
against the graphics state and the surface. How a line is cut up does not depend on the state, so it is
a function of its own (`lineCommands`) and running a line is a fold of `runCommand` over its commands. -/

namespace UnicornSuite.Rip

open CInt

structure Stats where
  commands : UInt32 := 0
  drawn : UInt32 := 0
  textCmds : UInt32 := 0
  fontCmds : UInt32 := 0
  arcCmds : UInt32 := 0
  bezierCmds : UInt32 := 0
  floodCmds : UInt32 := 0
  level1Cmds : UInt32 := 0
  regionCmds : UInt32 := 0
  buttonCmds : UInt32 := 0
  buttonUndrawn : UInt32 := 0
  ttyCmds : UInt32 := 0
  unknownCmds : UInt32 := 0
  rawTextLines : UInt32 := 0
  unsupFillPat : UInt32 := 0
  unsupLineStyle : UInt32 := 0
  malformed : UInt32 := 0

/-- `RipButton`: a region that can be clicked, and the part of it that inverts. -/
structure Button where
  rect : Rect
  image : Rect
  hotkey : Int
  flags : Int
  invert : Bool
  label : List Nat
  command : List Nat
  deriving DecidableEq

structure RipParser where
  surf : RipEga
  drawColor : Nat
  fillPattern : Int
  fillColor : Nat
  lineStyle : Int
  lineThick : Int
  font : Int
  fontDir : Dir
  fontSize : Int
  curX : Int
  curY : Int
  line : List Nat
  continued : Bool
  lastWasCr : Bool
  buttons : List Button
  btnStyle : ButtonStyle
  stats : Stats
  /-- What the call of `rip_parser_feed` that is running will return. -/
  drew : Bool

/-! ### MegaNums and the descriptor table -/

/-- The digits of a MegaNum, in either case. -/
def megaDigit (c : Nat) : Option Int :=
  if 0x30 ≤ c ∧ c ≤ 0x39 then some (c - 0x30 : Nat)
  else if 0x41 ≤ c ∧ c ≤ 0x5A then some (c - 0x41 + 10 : Nat)
  else if 0x61 ≤ c ∧ c ≤ 0x7A then some (c - 0x61 + 10 : Nat)
  else none

/-- `rip_meganum` of the bytes of a field, in an `int`; -1 if one of them is no digit. -/
def meganum : List Nat → Int → Int
  | [], v => v
  | c :: cs, v =>
      match megaDigit c with
      | some d => meganum cs (wrap32 (wrap32 (v * 36) + d))
      | none => -1

/-- One letter of an argument layout. -/
inductive Arg where
  | num (width : Nat)
  | poly
  | text

def nums (widths : List Nat) : List Arg := widths.map .num

/-- `RIP_CMDS`: level, command and layout. -/
def cmds : List (List Nat × Nat × List Arg) :=
  [([], 0x77, nums [2, 2, 2, 2, 1, 1]),
    ([], 0x76, nums [2, 2, 2, 2]),
    ([], 0x2A, []),
    ([], 0x65, []),
    ([], 0x45, []),
    ([], 0x67, nums [2, 2]),
    ([], 0x48, []),
    ([], 0x3E, []),
    ([], 0x63, nums [2]),
    ([], 0x51, nums (List.replicate 16 2)),
    ([], 0x61, nums [2, 2]),
    ([], 0x57, nums [2]),
    ([], 0x6D, nums [2, 2]),
    ([], 0x54, [.text]),
    ([], 0x40, [.num 2, .num 2, .text]),
    ([], 0x59, nums [2, 2, 2, 2]),
    ([], 0x58, nums [2, 2]),
    ([], 0x4C, nums [2, 2, 2, 2]),
    ([], 0x52, nums [2, 2, 2, 2]),
    ([], 0x42, nums [2, 2, 2, 2]),
    ([], 0x43, nums [2, 2, 2]),
    ([], 0x4F, nums [2, 2, 2, 2, 2, 2]),
    ([], 0x6F, nums [2, 2, 2, 2]),
    ([], 0x41, nums [2, 2, 2, 2, 2]),
    ([], 0x56, nums [2, 2, 2, 2, 2, 2]),
    ([], 0x49, nums [2, 2, 2, 2, 2]),
    ([], 0x69, nums [2, 2, 2, 2, 2, 2]),
    ([], 0x5A, nums (List.replicate 9 2)),
    ([], 0x50, [.poly]),
    ([], 0x70, [.poly]),
    ([], 0x6C, [.poly]),
    ([], 0x46, nums [2, 2, 2]),
    ([], 0x3D, nums [2, 4, 2]),
    ([], 0x53, nums [2, 2]),
    ([], 0x73, nums (List.replicate 9 2)),
    ([], 0x23, []),
    ([0x31], 0x4D, nums [2, 2, 2, 2, 2, 1, 1, 5] ++ [.text]),
    ([0x31], 0x4B, []),
    ([0x31], 0x54, nums [2, 2, 2, 2, 2]),
    ([0x31], 0x74, [.num 1, .text]),
    ([0x31], 0x45, []),
    ([0x31], 0x43, nums [2, 2, 2, 2, 1]),
    ([0x31], 0x50, nums [2, 2, 2, 1]),
    ([0x31], 0x57, [.num 1, .text]),
    ([0x31], 0x49, nums [2, 2, 2, 1, 2] ++ [.text]),
    ([0x31], 0x42, nums [2, 2, 2, 4, 2, 2, 2, 2, 2, 2, 2, 2, 2, 2, 6]),
    ([0x31], 0x55, nums [2, 2, 2, 2, 2, 1, 1] ++ [.text]),
    ([0x31], 0x44, [.num 3, .num 2, .text]),
    ([0x31], 0x47, nums [2, 2, 2, 2, 2, 2]),
    ([0x31], 0x52, [.num 8, .text]),
    ([0x31], 0x46, [.num 2, .num 4, .text]),
    ([0x31], 0x1B, [.num 1, .num 3, .text]),
    ([0x39], 0x1B, nums [1, 1, 2, 4])]

def findCmd (level : List Nat) (cmd : Nat) : Option (List Arg) :=
  (cmds.find? fun d => d.2.1 == cmd && d.1 == level).map fun d => d.2.2

/-! ### Cutting a line into commands -/

/-- `rip_take_text`: the text up to an unescaped `|`, and what is left. -/
def takeText : List Nat → List Nat × List Nat
  | [] => ([], [])
  | 0x5C :: n :: rest =>
      if n = 0x7C ∨ n = 0x21 ∨ n = 0x5C then ((n :: (takeText rest).1), (takeText rest).2)
      else (0x5C :: (takeText (n :: rest)).1, (takeText (n :: rest)).2)
  | c :: rest =>
      if c = 0x7C then ([], c :: rest) else (c :: (takeText rest).1, (takeText rest).2)

/-- `rip_skip_unknown`: what is left from the next unescaped `|` on. -/
def skipUnknown : List Nat → List Nat
  | [] => []
  | 0x5C :: _ :: rest => skipUnknown rest
  | c :: rest => if c = 0x7C then c :: rest else skipUnknown rest

/-- The arguments read so far and the bytes left to read. -/
structure Args where
  a : List Int := []
  pts : List (Int × Int) := []
  text : List Nat := []
  rest : List Nat
  bad : Bool := false

/-- A field of `width` digits. -/
def readNum (width : Nat) (rest : List Nat) : Option Int :=
  if rest.length < width then none
  else
    let v := meganum (rest.take width) 0
    if v < 0 then none else some v

def readPoints : Nat → Args → Args
  | 0, st => st
  | n + 1, st =>
      match readNum 2 st.rest with
      | none => { st with bad := true }
      | some x =>
          match readNum 2 (st.rest.drop 2) with
          | none => { st with bad := true, rest := st.rest.drop 2 }
          | some y => readPoints n { st with pts := st.pts ++ [(x, y)], rest := st.rest.drop 4 }

/-- At most `RIP_MAX_POLY_POINTS` points. -/
def readPoly (st : Args) : Args :=
  match readNum 2 st.rest with
  | none => { st with bad := true }
  | some v =>
      let n := if v > 512 then 512 else v.toNat
      let st := { st with rest := st.rest.drop 2 }
      if st.rest.length < n * 4 then { st with bad := true } else readPoints n st

/-- The text is a C string and ends at a zero byte. -/
def readText (st : Args) : Args :=
  { st with text := (takeText st.rest).1.takeWhile (· ≠ 0), rest := (takeText st.rest).2 }

def readArgs : List Arg → Args → Args
  | [], st => st
  | .text :: _, st => readText st
  | .poly :: _, st => readPoly st
  | .num width :: more, st =>
      match readNum width st.rest with
      | none => { st with bad := true }
      | some v => readArgs more { st with a := st.a ++ [v], rest := st.rest.drop width }

/-- A command of a line; `truncated` is a level without a command. -/
inductive Command where
  | truncated
  | unknown
  | malformed
  | exec (level : List Nat) (cmd : Nat) (a : List Int) (pts : List (Int × Int)) (text : List Nat)

def isDigit (c : Nat) : Bool := decide (0x30 ≤ c ∧ c ≤ 0x39)

/-- The level prefix: at most nine digits, the first of them not zero. -/
def levelOf (rest : List Nat) : List Nat :=
  match rest with
  | c :: _ => if 0x31 ≤ c ∧ c ≤ 0x39 then (rest.take 9).takeWhile isDigit else []
  | [] => []

/-- The command of which `args` has been read, and what is left of the line. -/
def finishCommand (level : List Nat) (cmd : Nat) (st : Args) : Command × List Nat :=
  if st.bad then (.malformed, skipUnknown (skipUnknown st.rest))
  else (.exec level cmd st.a st.pts st.text, skipUnknown st.rest)

/-- The loop of `rip_run_line`; every round takes a byte at least, so a round for every byte is
enough. -/
def lineCommands : Nat → List Nat → List Command
  | 0, _ => []
  | _, [] => []
  | n + 1, c :: rest =>
      if c ≠ 0x7C then lineCommands n rest
      else if rest = [] then []
      else
        let level := levelOf rest
        match rest.drop level.length with
        | [] => [.truncated]
        | cmd :: rest =>
            match findCmd level cmd with
            | none => .unknown :: lineCommands n (skipUnknown rest)
            | some layout =>
                let r := finishCommand level cmd (readArgs layout { rest := rest })
                r.1 :: lineCommands n r.2

/-! ### Regions -/

/-- `rip_expand_caret` into a buffer of `cap` bytes. -/
def expandCaret : Nat → List Nat → List Nat
  | 0, _ => []
  | _, [] => []
  | n + 1, 0x5E :: c :: rest =>
      (if c = 0x5E then 0x5E else asciiUpper c % 32) :: expandCaret n rest
  | n + 1, c :: rest => c :: expandCaret n rest

/-- The host command of a region, a C string again. -/
def commandText (s : List Nat) : List Nat := (expandCaret 47 s).takeWhile (· ≠ 0)

/-- The bytes before the first `<>` and those after it. -/
def cutField : List Nat → List Nat × Option (List Nat)
  | [] => ([], none)
  | 0x3C :: 0x3E :: rest => ([], some rest)
  | c :: rest => (c :: (cutField rest).1, (cutField rest).2)

/-- `rip_split3`: label and command of `icon<>label<>command`, each cut to its buffer. -/
def split3 (s : List Nat) : List Nat × List Nat :=
  match (cutField s).2 with
  | none => ([], [])
  | some rest =>
      match (cutField rest).2 with
      | none => (rest.take 47, [])
      | some cmd => ((cutField rest).1.take 47, cmd.take 47)

/-- `RIP_MAX_BUTTONS`. -/
abbrev maxButtons : Nat := 64

def Rect.normal (r : Rect) : Rect :=
  ⟨lower r.x0 r.x1, lower r.y0 r.y1, upper r.x0 r.x1, upper r.y0 r.y1⟩

def addRegion (p : RipParser) (b : Button) : RipParser :=
  if p.buttons.length ≥ maxButtons ∨ b.command = [] then p
  else
    { p with
      buttons := p.buttons ++ [{ b with rect := b.rect.normal, image := b.image.normal }] }

/-- `rip_button_at`: the last of the first `n` regions that holds the point. -/
def buttonBelow (bs : List Button) (x y : Int) : Nat → Option Nat
  | 0 => none
  | n + 1 =>
      match bs[n]? with
      | some b =>
          if x ≥ b.rect.x0 ∧ x ≤ b.rect.x1 ∧ y ≥ b.rect.y0 ∧ y ≤ b.rect.y1 then some n
          else buttonBelow bs x y n
      | none => buttonBelow bs x y n

def buttonAt (p : RipParser) (x y : Int) : Option Nat := buttonBelow p.buttons x y p.buttons.length

def ripAsciiUpper (c : Int) : Int := if 0x61 ≤ c ∧ c ≤ 0x7A then c - 32 else c

def buttonByHotkey (p : RipParser) (ascii : Int) : Option Nat :=
  if ascii = 0 then none
  else p.buttons.findIdx? fun b => decide (b.hotkey ≠ 0 ∧ ripAsciiUpper b.hotkey = ripAsciiUpper ascii)

/-- `rip_command_is_download`: the command begins with RGET. -/
def commandIsDownload (cmd : List Nat) : Bool := cmd.take 4 == [0x52, 0x47, 0x45, 0x54]

/-! ### Executing a command -/

/-- The tables that the model takes as given. -/
structure Tables where
  curves : Curves
  fonts : Fonts

variable (T : Tables)

def parserReset (p : RipParser) : RipParser :=
  { p with
    drawColor := 15, fillPattern := 1, fillColor := 15, lineStyle := 0, lineThick := 1
    font := 0, fontDir := .horiz, fontSize := 1, curX := 0, curY := 0
    buttons := [], btnStyle := {}, surf := reset p.surf }

def onStats (p : RipParser) (f : Stats → Stats) : RipParser := { p with stats := f p.stats }

def countMalformed (st : Stats) : Stats := { st with malformed := st.malformed + 1 }

def countArc (st : Stats) : Stats := { st with arcCmds := st.arcCmds + 1 }

def onSurf (p : RipParser) (f : RipEga → RipEga) : RipParser := { p with surf := f p.surf }

/-- Argument `i`, once the number of arguments has been checked. -/
def arg (a : List Int) (i : Nat) : Int := a.getD i 0

/-- The low bits of a colour argument. -/
def argColor (a : List Int) (i : Nat) : Nat := (arg a i % 16).toNat

/-- A command that needs `n` arguments and has been given `a`. -/
def needs (n : Nat) (a : List Int) (p : RipParser) (run : RipParser × Bool) : RipParser × Bool :=
  if a.length < n then (onStats p countMalformed, false) else run

def buttonStyleOf (a : List Int) : ButtonStyle where
  wid := arg a 0
  hgt := arg a 1
  orient := arg a 2
  flags := (arg a 3).toNat
  bevsize := arg a 4
  dfore := argColor a 5
  dback := argColor a 6
  bright := argColor a 7
  dark := argColor a 8
  surface := argColor a 9
  grpNo := arg a 10
  flags2 := (arg a 11).toNat
  ulineCol := argColor a 12
  cornerCol := argColor a 13

/-- RIP_BUTTON: drawn, and registered in any case. -/
def execButton (p : RipParser) (a : List Int) (text : List Nat) : RipParser × Bool :=
  let r : Rect := ⟨arg a 0, arg a 1, arg a 2, arg a 3⟩
  let label := (split3 text).1
  let d := buttonDraw T.fonts p.surf p.btnStyle r label (arg a 4) p.font p.fontSize
  let p := addRegion { p with surf := d.1 }
    { rect := outerRect p.btnStyle r
      image := imageRect p.btnStyle r
      hotkey := arg a 4
      flags := arg a 5
      invert := p.btnStyle.invertable && p.btnStyle.mouse
      label := label
      command := commandText (split3 text).2 }
  (onStats p fun st =>
    if d.2 then { st with buttonCmds := st.buttonCmds + 1 }
    else { st with buttonUndrawn := st.buttonUndrawn + 1 }, d.2)

/-- RIP_MOUSE. -/
def execMouse (p : RipParser) (a : List Int) (text : List Nat) : RipParser :=
  let r : Rect := ⟨arg a 1, arg a 2, arg a 3, arg a 4⟩
  addRegion p
    { rect := r
      image := r
      hotkey := 0
      flags := 0
      invert := decide (arg a 5 ≠ 0)
      label := []
      command := commandText text }

def countRegion (st : Stats) : Stats := { st with regionCmds := st.regionCmds + 1 }

def countLevel1 (st : Stats) : Stats := { st with level1Cmds := st.level1Cmds + 1 }

def execLevel1 (p : RipParser) (cmd : Nat) (a : List Int) (text : List Nat) : RipParser × Bool :=
  match cmd with
  | 0x42 => needs 14 a p ({ p with btnStyle := buttonStyleOf a }, false)
  | 0x55 => needs 7 a p (execButton T p a text)
  | 0x4D => needs 7 a p (onStats (execMouse p a text) countRegion, false)
  | 0x4B => (onStats { p with buttons := [] } countRegion, false)
  | _ => (onStats p countLevel1, false)

/-- RIP_TEXT at the current position, which moves behind the text. -/
def execText (p : RipParser) (text : List Nat) : RipParser × Bool :=
  let d := textDraw T.fonts p.surf p.font p.fontDir p.fontSize p.curX p.curY text p.drawColor
  let p := { p with
    surf := d.1
    curX := if p.fontDir = .vert then p.curX else wrap32 (p.curX + d.2)
    curY := if p.fontDir = .vert then wrap32 (p.curY - d.2) else p.curY }
  (onStats p fun st => { st with textCmds := st.textCmds + 1 }, true)

def fontStyle (p : RipParser) (a : List Int) : RipParser :=
  let p := { p with
    font := if arg a 0 < 0 ∨ arg a 0 > 10 then 0 else arg a 0
    fontDir := if arg a 1 = 1 then .vert else .horiz
    fontSize := if arg a 2 < 1 then 1 else if arg a 2 > 10 then 10 else arg a 2 }
  onStats p fun st => { st with fontCmds := st.fontCmds + 1 }

def fillStyle (p : RipParser) (a : List Int) : RipParser :=
  let p := { p with fillPattern := arg a 0, fillColor := argColor a 1 }
  if 2 ≤ arg a 0 ∧ arg a 0 ≤ 11 then
    onStats p fun st => { st with unsupFillPat := st.unsupFillPat + 1 }
  else p

def lineStyleCmd (p : RipParser) (a : List Int) : RipParser :=
  let p := { p with lineStyle := arg a 0, lineThick := arg a 2 }
  if arg a 0 ≠ 0 then onStats p fun st => { st with unsupLineStyle := st.unsupLineStyle + 1 }
  else p

def setWriteMode (s : RipEga) (v : Int) : RipEga :=
  { s with writeMode := if v = 1 then .xor else .copy }

def moveTo (p : RipParser) (x y : Int) : RipParser := { p with curX := x, curY := y }

/-- A command that needs two points. -/
def needsPoints (pts : List (Int × Int)) (p : RipParser) (run : RipParser × Bool) :
    RipParser × Bool :=
  if pts.length < 2 then (onStats p countMalformed, false) else run

/-- A curve is counted. -/
def drawCurve (p : RipParser) (f : RipEga → RipEga) : RipParser × Bool :=
  (onStats (onSurf p f) countArc, true)

def countTty (st : Stats) : Stats := { st with ttyCmds := st.ttyCmds + 1 }

/-- The commands of level 0. -/
def execLevel0 (p : RipParser) (cmd : Nat) (a : List Int) (pts : List (Int × Int))
    (text : List Nat) : RipParser × Bool :=
  match cmd with
  | 0x2A => (parserReset p, true)
  | 0x45 => (onSurf p eraseView, true)
  | 0x76 => needs 4 a p (onSurf p (setViewport · (arg a 0) (arg a 1) (arg a 2) (arg a 3)), false)
  | 0x57 => needs 1 a p (onSurf p (setWriteMode · (arg a 0)), false)
  | 0x63 => needs 1 a p ({ p with drawColor := argColor a 0 }, false)
  | 0x53 => needs 2 a p (fillStyle p a, false)
  | 0x3D => needs 3 a p (lineStyleCmd p a, false)
  | 0x51 =>
      needs 16 a p (onSurf p (setPalette16 · ((a.take 16).map fun v => (v % 64).toNat)), true)
  | 0x61 => needs 2 a p (onSurf p (setOnePalette · (arg a 0) (arg a 1)), true)
  | 0x58 => needs 2 a p (onSurf p (pixel · (arg a 0) (arg a 1) p.drawColor), true)
  | 0x4C =>
      needs 4 a p
        (onSurf p (line · (arg a 0) (arg a 1) (arg a 2) (arg a 3) p.drawColor p.lineThick), true)
  | 0x52 =>
      needs 4 a p
        (onSurf p (rect · (arg a 0) (arg a 1) (arg a 2) (arg a 3) p.drawColor p.lineThick), true)
  | 0x42 =>
      needs 4 a p
        (onSurf p (bar · (arg a 0) (arg a 1) (arg a 2) (arg a 3) p.fillPattern p.fillColor), true)
  | 0x50 => needsPoints pts p (onSurf p (polygon · pts p.drawColor p.lineThick), true)
  | 0x70 =>
      needsPoints pts p
        (onSurf p fun s =>
          polygon (fillPolygon s pts p.fillPattern p.fillColor) pts p.drawColor p.lineThick, true)
  | 0x6C => needsPoints pts p (onSurf p (polyline · pts p.drawColor p.lineThick), true)
  | 0x59 => needs 3 a p (fontStyle p a, false)
  | 0x54 => execText T p text
  | 0x40 => needs 2 a p (execText T (moveTo p (arg a 0) (arg a 1)) text)
  | 0x6D => needs 2 a p (moveTo p (arg a 0) (arg a 1), false)
  | 0x43 =>
      needs 3 a p
        (drawCurve p (circle T.curves · (arg a 0) (arg a 1) (arg a 2) p.drawColor p.lineThick))
  | 0x4F =>
      needs 6 a p (drawCurve p (arc T.curves · (arg a 0) (arg a 1) (arg a 2) (arg a 3) (arg a 4)
        (arg a 5) p.drawColor p.lineThick))
  | 0x6F =>
      needs 4 a p (drawCurve p fun s =>
        ellipse T.curves
          (fillEllipse T.curves s (arg a 0) (arg a 1) (arg a 2) (arg a 3) p.fillPattern p.fillColor)
          (arg a 0) (arg a 1) (arg a 2) (arg a 3) p.drawColor p.lineThick)
  | 0x41 =>
      needs 5 a p (drawCurve p (arc T.curves · (arg a 0) (arg a 1) (arg a 2) (arg a 3) (arg a 4)
        (aspectY (arg a 4)) p.drawColor p.lineThick))
  | 0x56 =>
      needs 6 a p (drawCurve p (arc T.curves · (arg a 0) (arg a 1) (arg a 2) (arg a 3) (arg a 4)
        (arg a 5) p.drawColor p.lineThick))
  | 0x49 =>
      needs 5 a p (drawCurve p (pie T.curves · (arg a 0) (arg a 1) (arg a 2) (arg a 3) (arg a 4)
        (aspectY (arg a 4)) p.fillPattern p.fillColor p.drawColor p.lineThick))
  | 0x69 =>
      needs 6 a p (drawCurve p (pie T.curves · (arg a 0) (arg a 1) (arg a 2) (arg a 3) (arg a 4)
        (arg a 5) p.fillPattern p.fillColor p.drawColor p.lineThick))
  | 0x5A => (onStats p fun st => { st with bezierCmds := st.bezierCmds + 1 }, false)
  | 0x46 => (onStats p fun st => { st with floodCmds := st.floodCmds + 1 }, false)
  | 0x77 => (onStats p countTty, false)
  | 0x65 => (onStats p countTty, false)
  | 0x67 => (onStats p countTty, false)
  | 0x48 => (onStats p countTty, false)
  | 0x3E => (onStats p countTty, false)
  | 0x23 => (onStats p countTty, false)
  | 0x73 => (onStats p fun st => { st with unsupFillPat := st.unsupFillPat + 1 }, false)
  | _ => (onStats p fun st => { st with unknownCmds := st.unknownCmds + 1 }, false)

/-- `rip_exec`; the flag says whether pixels may have changed. -/
def ripExec (p : RipParser) (level : List Nat) (cmd : Nat) (a : List Int)
    (pts : List (Int × Int)) (text : List Nat) : RipParser × Bool :=
  if level.head? = some 0x31 then execLevel1 T p cmd a text
  else if level.head? = some 0x39 then (onStats p countLevel1, false)
  else execLevel0 T p cmd a pts text

def countCommand (st : Stats) : Stats := { st with commands := st.commands + 1 }

def countUnknown (st : Stats) : Stats := { st with unknownCmds := st.unknownCmds + 1 }

def countDrawn (p : RipParser) : RipParser :=
  onStats { p with drew := true } fun st => { st with drawn := st.drawn + 1 }

def runCommand (p : RipParser) : Command → RipParser
  | .truncated => onStats p countMalformed
  | .unknown => onStats (onStats p countCommand) countUnknown
  | .malformed => onStats (onStats p countCommand) countMalformed
  | .exec level cmd a pts text =>
      let r := ripExec T (onStats p countCommand) level cmd a pts text
      if r.2 then countDrawn r.1 else r.1

/-! ### Lines and the byte feed -/

/-- SOH or STX may stand for the `!`, in any column. -/
def markedBody : List Nat → Option (List Nat)
  | c :: 0x7C :: rest =>
      if c = 0x01 ∨ c = 0x02 then some (0x7C :: rest) else markedBody (0x7C :: rest)
  | _ :: rest => markedBody rest
  | [] => none

/-- The body of a command line, from its first `|` on. -/
def commandBody : List Nat → Option (List Nat)
  | 0x21 :: 0x7C :: rest => some (0x7C :: rest)
  | line => markedBody line

/-- The commands of a line; a line of raw text has none. -/
def commandsOf (line : List Nat) : List Command :=
  match commandBody line with
  | some body => lineCommands body.length body
  | none => []

def countRaw (st : Stats) : Stats := { st with rawTextLines := st.rawTextLines + 1 }

/-- `rip_handle_line`. -/
def handleLine (p : RipParser) (line : List Nat) : RipParser :=
  match commandBody line with
  | some body => (lineCommands body.length body).foldl (runCommand T) p
  | none => if line = [] then p else onStats p countRaw

def trailingBackslashes (line : List Nat) : Nat := (line.reverse.takeWhile (· == 0x5C)).length

def clearLine (p : RipParser) : RipParser := { p with line := [], continued := false }

def noteCr (p : RipParser) (b : Nat) : RipParser := { p with lastWasCr := b == 0x0D }

/-- The end of a physical line, CR or LF, apart from the LF of a CRLF. -/
def endLine (p : RipParser) : RipParser :=
  if p.line = [] ∧ ¬p.continued then p
  else if trailingBackslashes p.line % 2 = 1 then
    { p with line := p.line.dropLast, continued := true }
  else clearLine (handleLine T p p.line)

/-- An overlong line is cut; the byte that did not fit is lost. -/
def putByte (p : RipParser) (b : Nat) : RipParser :=
  if p.line.length < 8191 then { p with line := p.line ++ [b] }
  else clearLine (onStats (handleLine T p p.line) countMalformed)

def feedByte (p : RipParser) (b : UInt8) : RipParser :=
  if b.toNat = 0x0D ∨ b.toNat = 0x0A then
    if b.toNat = 0x0A ∧ p.lastWasCr then { p with lastWasCr := false }
    else endLine T (noteCr p b.toNat)
  else putByte T { p with lastWasCr := false } b.toNat

def feed (p : RipParser) (data : List UInt8) : RipParser :=
  Machine.run (feedByte T) { p with drew := false } data

/-- `rip_parser_init` on a surface that holds any pixels. -/
def init (cells : Int → Int → Nat) : RipParser :=
  parserReset
    { surf :=
        { pix := ⟨cells, false⟩
          pal16 := fun _ => 0
          vx0 := 0, vy0 := 0, vx1 := 0, vy1 := 0, viewportDisabled := false, writeMode := .copy }
      drawColor := 0, fillPattern := 0, fillColor := 0, lineStyle := 0, lineThick := 0
      font := 0, fontDir := .horiz, fontSize := 0, curX := 0, curY := 0
      line := [], continued := false, lastWasCr := false
      buttons := [], btnStyle := {}, stats := {}, drew := false }

end UnicornSuite.Rip
