import UnicornSuite.NaplpsSurface

/-! The state of the NAPLPS decoder (`struct naplps_decoder`) and its resets. The record is split
the way its fields are used: `Display` is what the executors and the text functions read and write,
`CodeState` is the code extension state and `PdiSeq` the sequence being accumulated. `trace` collects
what an installed trace callback is called with. A `long` and an `int` have 32 bits. -/

namespace UnicornSuite.Naplps

open CInt

/-! ### Fixed point -/

/-- `FX_ONE`, the coordinate 1.0 in 16.16 fixed point. -/
abbrev fxOne : Int := 65536

/-- `FX_TO_PX`: one pixel is 1/256 of the unit screen. -/
def fxToPx (v : Int) : Int := v / 256

/-- `VIS_Y_FX`, the top of the display area. -/
abbrev visYFx : Int := 200 * fxOne / 256

/-- The five text sizes, `CF_*_DX` and `CF_*_DY`. -/
abbrev cfSmallDx : Int := fxOne / 80

abbrev cfSmallDy : Int := fxOne * 5 / 128

abbrev cfMediumDx : Int := fxOne / 32

abbrev cfMediumDy : Int := fxOne * 3 / 64

abbrev cfNormalDx : Int := fxOne / 40

abbrev cfNormalDy : Int := fxOne * 5 / 128

abbrev cfDblhiDx : Int := fxOne / 40

abbrev cfDblhiDy : Int := fxOne * 5 / 64

abbrev cfDblszDx : Int := fxOne / 20

abbrev cfDblszDy : Int := fxOne * 5 / 64

/-- `v < 0 ? -v : v` on a `long`. -/
def absFx (v : Int) : Int := if v < 0 then wrap32 (-v) else v

/-! ### State -/

/-- Which set is designated into a G slot. -/
inductive GSet where
  | primary | supp | pdi | mosaic | macros | drcs | null
  deriving DecidableEq

inductive EscState where
  | none | seen
  deriving DecidableEq

/-- The pending multi-byte C0 operand. -/
inductive Pend where
  | none | aps | nsr | rep
  deriving DecidableEq

inductive Mode where
  | naplps | ascii
  deriving DecidableEq

/-- `OPBUF_MAX` and `MAX_PTS`. -/
abbrev opbufMax : Nat := 4096

abbrev maxPts : Nat := 512

/-- The size of `escbuf` and of `pendbuf`. -/
abbrev escbufMax : Nat := 8

abbrev pendbufMax : Nat := 2

structure Stats where
  bytesIn : UInt32 := 0
  charsDrawn : UInt32 := 0
  pdiExecuted : UInt32 := 0
  pdiSkipped : UInt32 := 0
  escUnknown : UInt32 := 0
  escMalformed : UInt32 := 0
  operandShort : UInt32 := 0
  waits : UInt32 := 0
  waitsMalformed : UInt32 := 0

/-- DOMAIN state. -/
structure Domain where
  svLen : Nat
  mvLen : Nat
  dims : Nat
  pelDx : Int
  pelDy : Int

/-- Drawing point and colour. -/
structure Drawing where
  dpx : Int
  dpy : Int
  colorMode : Nat
  drawValue : Color
  drawAddr : Nat
  bgAddr : Nat
  cmapUsed : Nat → Bool
  addrBlack : Nat
  addrWhite : Nat

structure Texture where
  areaPattern : Nat
  lineTexture : Nat

structure TextState where
  cx : Int
  cy : Int
  cfDx : Int
  cfDy : Int
  rotation : Nat
  /-- 0 right, 1 left, 2 up, 3 down. -/
  path : Nat
  icsNum : Int
  icsDen : Int
  propSpacing : Bool
  irsNum : Int
  irsDen : Int
  reverseVideo : Bool
  underline : Bool
  wordWrap : Bool
  scroll : Bool
  cursorLead : Bool
  dpLead : Bool
  lastSpacingChar : Nat
  haveLastSpacing : Bool

/-- The active field, with the origin at the lower left. -/
structure ActiveField where
  x : Int
  y : Int
  w : Int
  h : Int
  set : Bool

structure Display where
  surf : Surface
  st : Stats
  everDrew : Bool
  waitTenths : Int
  dom : Domain
  draw : Drawing
  tex : Texture
  text : TextState
  af : ActiveField

structure CodeState where
  mode : Mode
  gset : Nat → GSet
  gl : Nat
  gr : Nat
  /-- The G slot for the next byte only. -/
  singleShift : Option Nat
  eightbit : Bool
  escstate : EscState
  escbuf : Nat → Nat
  esclen : Nat
  /-- A definition body is being skipped. -/
  swallow : Bool
  pend : Pend
  pendbuf : Nat → Nat
  pendlen : Nat

structure PdiSeq where
  /-- `none` is the `-1` of the source: no sequence is open. -/
  op : Option Nat
  opbuf : Nat → Nat
  oplen : Nat
  reps : Nat

structure Decoder where
  disp : Display
  code : CodeState
  pdi : PdiSeq
  trace : List (Nat × List Nat)

/-! ### Defaults -/

def findBw (d : Display) : Display :=
  let black := (List.range cmapSize).find? fun i => d.surf.cmap i = ⟨0, 0, 0⟩
  let white := (List.range cmapSize).find? fun i =>
    d.surf.cmap i = ⟨primaryMax, primaryMax, primaryMax⟩
  { d with draw.addrBlack := black.getD 0, draw.addrWhite := white.getD (cmapSize - 1) }

def resetDomain (d : Display) : Display :=
  { d with dom := { svLen := 1, mvLen := 3, dims := 2, pelDx := 0, pelDy := 0 } }

def resetField (d : Display) : Display :=
  { d with af := { x := 0, y := 0, w := fxOne, h := fxOne, set := false } }

def resetText (d : Display) : Display :=
  let d := resetField d
  { d with text :=
    { d.text with
      cfDx := cfNormalDx, cfDy := cfNormalDy
      rotation := 0, path := 0
      icsNum := 1, icsDen := 1, propSpacing := false
      irsNum := 1, irsDen := 1
      reverseVideo := false, underline := false, wordWrap := false, scroll := false
      cursorLead := false, dpLead := false
      haveLastSpacing := false
      cx := 0, cy := wrap32 (visYFx - absFx cfNormalDy) } }

def resetTexture (d : Display) : Display :=
  { d with tex := { areaPattern := 0, lineTexture := 0xFFFF } }

def resetColor (d : Display) (toDefaultMap : Bool) : Display :=
  let d :=
    if toDefaultMap then
      findBw { d with surf := surfaceDefaultCmap d.surf, draw.cmapUsed := fun _ => false }
    else d
  { d with draw :=
    { d.draw with
      colorMode := 0
      drawValue := ⟨primaryMax, primaryMax, primaryMax⟩
      drawAddr := d.draw.addrWhite
      bgAddr := d.draw.addrBlack } }

/-- The G sets of the default state: primary, PDI, supplementary and mosaic. -/
def defaultGset : Nat → GSet
  | 0 => .primary
  | 1 => .pdi
  | 2 => .supp
  | _ => .mosaic

/-- The cleared statistics, surface and colour map. -/
def initDisplay (d : Display) : Display :=
  { d with st := {}, everDrew := false, waitTenths := 0, surf := surfaceInit d.surf }

def resetDisplay (d : Display) : Display :=
  let d := resetColor (resetTexture (resetDomain (findBw (initDisplay d)))) true
  { resetText d with draw := { d.draw with dpx := 0, dpy := 0 } }

/-- `naplps_reset`. The operand store, the execution count and the escape and pending buffers keep
their bytes; their lengths say that none is in use. -/
def reset (d : Decoder) : Decoder :=
  { d with
    disp := resetDisplay d.disp
    code := { d.code with
      mode := .naplps
      gset := defaultGset
      gl := 0, gr := 1, eightbit := false, singleShift := none
      escstate := .none, esclen := 0, swallow := false, pend := .none, pendlen := 0 }
    pdi := { d.pdi with op := none, oplen := 0 } }

/-- The zeroed memory `calloc` returns. -/
def zeroDecoder : Decoder where
  disp :=
    { surf := { pix := .const 0, cmap := fun _ => ⟨0, 0, 0⟩ }
      st := {}, everDrew := false, waitTenths := 0
      dom := { svLen := 0, mvLen := 0, dims := 0, pelDx := 0, pelDy := 0 }
      draw :=
        { dpx := 0, dpy := 0, colorMode := 0, drawValue := ⟨0, 0, 0⟩, drawAddr := 0, bgAddr := 0
          cmapUsed := fun _ => false, addrBlack := 0, addrWhite := 0 }
      tex := { areaPattern := 0, lineTexture := 0 }
      text :=
        { cx := 0, cy := 0, cfDx := 0, cfDy := 0, rotation := 0, path := 0, icsNum := 0
          icsDen := 0, propSpacing := false, irsNum := 0, irsDen := 0, reverseVideo := false
          underline := false, wordWrap := false, scroll := false, cursorLead := false
          dpLead := false, lastSpacingChar := 0, haveLastSpacing := false }
      af := { x := 0, y := 0, w := 0, h := 0, set := false } }
  code :=
    { mode := .naplps, gset := fun _ => .primary, gl := 0, gr := 0, singleShift := some 0
      eightbit := false, escstate := .none, escbuf := fun _ => 0, esclen := 0, swallow := false
      pend := .none, pendbuf := fun _ => 0, pendlen := 0 }
  pdi := { op := some 0, opbuf := fun _ => 0, oplen := 0, reps := 0 }
  trace := []

/-- `naplps_create`. -/
def create : Decoder := reset zeroDecoder

end UnicornSuite.Naplps
