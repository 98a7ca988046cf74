import UnicornSuite.NaplpsText

/-! The operands of the picture description instructions, the table that says how many each opcode
takes and the executors. An executor reads its operands through a pointer `p`, which is the whole
store from some byte on, and is told how many of them are its own by `n`. The circular arc is drawn
through vertices that `arc_points` computes in floating point: `ArcPoints` stands for that function,
of which only the number of vertices is known. -/

namespace UnicornSuite.Naplps

open CInt

/-- `arc_points` with `maxpts` equal to `MAX_PTS`. -/
structure ArcPoints where
  vertices : (x0 y0 x1 y1 x2 y2 : Int) → List (Int × Int)
  length_le : ∀ x0 y0 x1 y1 x2 y2, (vertices x0 y0 x1 y1 x2 y2).length ≤ maxPts

/-- The pointer `p + k`. -/
def ptr (p : Nat → Nat) (k : Nat) : Nat → Nat := fun i => p (k + i)

/-! ### Operand unpacking -/

/-- A signed two's complement fraction of `nbits` bits, scaled to 16.16. -/
def unpackFrac (raw nbits : Nat) : Int :=
  if nbits = 0 then 0
  else
    let v : Int := if raw.testBit (nbits - 1) then raw - 2 ^ nbits else raw
    if nbits - 1 ≤ 16 then v * 2 ^ (16 - (nbits - 1)) else v / 2 ^ (nbits - 1 - 16)

/-- A multi-value coordinate operand: the six payload bits of each byte are split between the axes,
three and three in two dimensions, two, two and two in three. -/
def unpackMulti (dom : Domain) (p : Nat → Nat) : Int × Int :=
  let per := if dom.dims = 3 then 2 else 3
  let raw := (List.range dom.mvLen).foldl
    (fun (raw : Nat × Nat) i =>
      let v := p i % 64
      if dom.dims = 3 then (raw.1 * 4 + v / 16 % 4, raw.2 * 4 + v / 4 % 4)
      else (raw.1 * 8 + v / 8 % 8, raw.2 * 8 + v % 8)) (0, 0)
  (unpackFrac raw.1 (per * dom.mvLen), unpackFrac raw.2 (per * dom.mvLen))

/-- The three most significant bits of an `nbits`-bit primary, padded with zeros. -/
def primaryBits (raw nbits : Nat) : Nat :=
  if nbits ≥ 3 then raw / 2 ^ (nbits - 3) % 8 else raw * 2 ^ (3 - nbits) % 8

/-- A multi-value operand used as a colour value: each byte carries `G R B G R B`. -/
def unpackColor (dom : Domain) (p : Nat → Nat) : Color :=
  let raw := (List.range dom.mvLen).foldl
    (fun (raw : Color) i =>
      let v := p i % 64
      { g := raw.g * 4 + v / 32 % 2 * 2 + v / 4 % 2
        r := raw.r * 4 + v / 16 % 2 * 2 + v / 2 % 2
        b := raw.b * 4 + v / 8 % 2 * 2 + v % 2 }) ⟨0, 0, 0⟩
  let nbits := 2 * dom.mvLen
  ⟨primaryBits raw.g nbits, primaryBits raw.r nbits, primaryBits raw.b nbits⟩

def unpackSingle (p : Nat → Nat) (len : Nat) : Nat :=
  (List.range len).foldl (fun v i => v * 64 + p i % 64) 0

/-- A colour map address: the four top bits of the operand. -/
def unpackAddr (p : Nat → Nat) (len : Nat) : Nat :=
  let v := unpackSingle p len
  let nbits := 6 * len
  if nbits ≥ 4 then v / 2 ^ (nbits - 4) % cmapSize else v * 2 ^ (4 - nbits) % cmapSize

/-- The number of whole operands of `len` bytes among `n` bytes. -/
def blocks (len n : Nat) : Nat := if len > 0 then n / len else 0

/-! ### The descriptor table -/

/-- `M_REPEAT` and `M_ACCUM`. -/
inductive PdiMode where
  | rep | accum
  deriving DecidableEq

structure PdiDesc where
  nfixed : Nat
  nmulti : Nat
  nsingle : Nat
  mode : PdiMode

/-- `pdi_desc`, by opcode. -/
def pdiDesc (op : Nat) : PdiDesc :=
  match op with
  | 0x20 => ⟨2, 0, 0, .accum⟩
  | 0x21 => ⟨1, 1, 0, .accum⟩
  | 0x22 => ⟨2, 1, 0, .accum⟩
  | 0x23 => ⟨1, 1, 0, .accum⟩
  | 0x24 | 0x25 | 0x26 | 0x27 => ⟨0, 1, 0, .rep⟩
  | 0x28 | 0x29 => ⟨0, 1, 0, .rep⟩
  | 0x2A | 0x2B => ⟨0, 2, 0, .rep⟩
  | 0x2C | 0x2D => ⟨0, 2, 0, .accum⟩
  | 0x2E | 0x2F => ⟨0, 3, 0, .accum⟩
  | 0x30 | 0x31 => ⟨0, 1, 0, .rep⟩
  | 0x32 | 0x33 => ⟨0, 2, 0, .rep⟩
  | 0x34 | 0x35 => ⟨0, 1, 0, .accum⟩
  | 0x36 | 0x37 => ⟨0, 2, 0, .accum⟩
  | 0x38 => ⟨0, 2, 0, .accum⟩
  | 0x39 => ⟨1, 0, 0, .accum⟩
  | 0x3A | 0x3B => ⟨0, 1, 0, .accum⟩
  | 0x3C => ⟨0, 1, 0, .rep⟩
  | 0x3D => ⟨2, 0, 0, .accum⟩
  | 0x3E => ⟨0, 0, 1, .accum⟩
  | _ => ⟨1, 0, 1, .accum⟩

def setBytes (dom : Domain) (op : Nat) : Nat :=
  (pdiDesc op).nfixed + (pdiDesc op).nmulti * dom.mvLen + (pdiDesc op).nsingle * dom.svLen

/-! ### State commands -/

/-- Bits `b3 b2` of RESET: the colour mode and the default colour map. -/
def resetColorBits (d : Display) (bits : Nat) : Display :=
  match bits with
  | 0 => d
  | 1 => { resetColor d true with draw.colorMode := 0 }
  | _ => { resetColor d true with draw.colorMode := 1 }

/-- Bits `b6 b5 b4` of RESET: clear to nominal black or to the drawing colour. The border is not
drawn. -/
def clearBits (d : Display) (bits : Nat) : Display :=
  match bits with
  | 0 | 3 | 4 => d
  | 1 | 7 => markDrew { d with surf := surfaceClear d.surf d.draw.addrBlack }
  | _ => markDrew { d with surf := surfaceClear d.surf (fg d) }

def execReset (d : Display) (p : Nat → Nat) (n : Nat) : Display :=
  let b1 := if n > 0 then p 0 % 64 else 0
  let b2 := if n > 1 then p 1 % 64 else 0
  let d := if b1 % 2 = 1 then resetDomain d else d
  let d := clearBits (resetColorBits d (b1 / 2 % 4)) (b1 / 8 % 8)
  let d := if b2 % 2 = 1 then textHome (resetText d) else d
  if b2 / 8 % 2 = 1 then resetTexture d else d

/-- The operand lengths are the bit patterns plus one. -/
def setLengths (d : Display) (b1 : Nat) : Display :=
  { d with
    dom.svLen := b1 % 4 + 1
    dom.mvLen := b1 / 4 % 8 + 1
    dom.dims := if b1 / 32 % 2 = 1 then 3 else 2 }

def setPel (d : Display) (pel : Int × Int) : Display :=
  { d with dom.pelDx := pel.1, dom.pelDy := pel.2 }

/-- The new multi-value length already holds for the logical pel of the same command. -/
def execDomain (d : Display) (p : Nat → Nat) (n : Nat) : Display :=
  if n < 1 then d
  else
    let d := setLengths d (p 0 % 64)
    if n - 1 ≥ d.dom.mvLen then setPel d (unpackMulti d.dom (ptr p 1)) else d

def spNum : List Int := [1, 5, 3, 1]

def spDen : List Int := [1, 4, 2, 1]

def irNum : List Int := [1, 5, 3, 2]

def irDen : List Int := [1, 4, 2, 1]

/-- The two fixed operands of TEXT. -/
def setTextAttributes (d : Display) (b1 b2 : Nat) : Display :=
  { d with text :=
    { d.text with
      rotation := b1 % 4 * 90
      path := b1 / 4 % 4
      icsNum := spNum.getD (b1 / 16 % 4) 1
      icsDen := spDen.getD (b1 / 16 % 4) 1
      propSpacing := b1 / 16 % 4 = 3
      irsNum := irNum.getD (b2 % 4) 1
      irsDen := irDen.getD (b2 % 4) 1
      cursorLead := b2 / 4 % 4 = 1 ∨ b2 / 4 % 4 = 3
      dpLead := b2 / 4 % 4 = 2 ∨ b2 / 4 % 4 = 3 } }

/-- A dimension of zero is ignored. -/
def setCharSize (d : Display) (dim : Int × Int) : Display :=
  { d with
    text.cfDx := if dim.1 ≠ 0 then dim.1 else d.text.cfDx
    text.cfDy := if dim.2 ≠ 0 then dim.2 else d.text.cfDy }

def execText (d : Display) (p : Nat → Nat) (n : Nat) : Display :=
  if n < 1 then d
  else
    let d := setTextAttributes d (p 0 % 64) (if n > 1 then p 1 % 64 else 0)
    let d := if d.text.rotation ≠ 0 then skipped d else d
    let mv := if n > 2 then n - 2 else 0
    if mv ≥ d.dom.mvLen then setCharSize d (unpackMulti d.dom (ptr p 2)) else d

/-- Solid, dotted, dashed and dotted-dashed lines. -/
def lineTextures : List Nat := [0xFFFF, 0xCCCC, 0xF0F0, 0xFAFA]

def execTexture (d : Display) (p : Nat → Nat) (n : Nat) : Display :=
  if n < 1 then d
  else
    let b1 := p 0 % 64
    { d with tex := { lineTexture := lineTextures.getD (b1 % 4) 0, areaPattern := b1 / 8 % 8 } }

def execWait (d : Display) (p : Nat → Nat) (n : Nat) : Display :=
  if n < 1 then d
  else if p 0 % 64 ≠ 0x1C then { d with st.waitsMalformed := d.st.waitsMalformed + 1 }
  else
    (List.range (n - 1)).foldl
      (fun d i => { d with
        waitTenths := wrap32 (d.waitTenths + (p (i + 1) % 64 : Nat)), st.waits := d.st.waits + 1 }) d

def useAddr (d : Display) (addr : Nat) : Display :=
  { d with draw.cmapUsed := Function.update d.draw.cmapUsed addr true }

/-- Colour mode 1: the drawing colour is a colour map address. -/
def selectOne (d : Display) (a : Nat) : Display :=
  useAddr { d with draw.colorMode := 1, draw.drawAddr := a } a

/-- Colour mode 2: a drawing and a background address. Where the two are equal the drawing address
stays. -/
def selectPair (d : Display) (a b : Nat) : Display :=
  let d := { d with
    draw.colorMode := 2, draw.drawAddr := if a = b then d.draw.drawAddr else a, draw.bgAddr := b }
  useAddr (useAddr d d.draw.drawAddr) d.draw.bgAddr

/-- The number of operands chooses the colour mode. -/
def execSelectColor (d : Display) (p : Nat → Nat) (n : Nat) : Display :=
  let nops := blocks d.dom.svLen n
  if nops = 0 then mode0SetColor { d with draw.colorMode := 0 } d.draw.drawValue
  else if nops = 1 then selectOne d (unpackAddr p d.dom.svLen)
  else
    let d := selectPair d (unpackAddr p d.dom.svLen) (unpackAddr (ptr p d.dom.svLen) d.dom.svLen)
    if nops > 2 then skipped d else d

/-- The most significant zero becomes a one and the ones to its left become zeros. -/
def cmapNextAddr (a : Nat) : Option Nat :=
  ([3, 2, 1, 0].find? fun bit => !a.testBit bit).map fun bit =>
    (a + 2 ^ bit) / 16 * 16 + (a + 2 ^ bit) % 2 ^ (bit + 1)

/-- The address reached by the counter after `rep` steps. -/
def cmapWalk : Nat → Nat → Option Nat
  | 0, a => some a
  | rep + 1, a => (cmapNextAddr a).bind (cmapWalk rep)

def loadCmap (d : Display) (addr : Nat) (c : Color) : Display :=
  markDrew (findBw { d with
    surf.cmap := Function.update d.surf.cmap (addr % cmapSize) c
    draw.cmapUsed := Function.update d.draw.cmapUsed (addr % cmapSize) true })

def execSetColor (d : Display) (p : Nat → Nat) (rep : Nat) : Display :=
  let c := unpackColor d.dom p
  if d.draw.colorMode = 0 then mode0SetColor d c
  else
    match cmapWalk rep d.draw.drawAddr with
    | some a => loadCmap d a c
    | none => skipped d

/-- The active field with its origin at the lower left; FIELD allows either sign in its size. -/
def setField (d : Display) (origin size : Int × Int) : Display :=
  { d with af :=
    { x := if size.1 < 0 then wrap32 (origin.1 + size.1) else origin.1
      y := if size.2 < 0 then wrap32 (origin.2 + size.2) else origin.2
      w := absFx size.1
      h := absFx size.2
      set := absFx size.1 > 0 ∧ absFx size.2 > 0 } }

def execField (d : Display) (p : Nat → Nat) (n : Nat) : Display :=
  let nblk := blocks d.dom.mvLen n
  if nblk = 0 then setDp (resetField d) 0 0
  else if nblk = 1 then
    -- The size alone: the origin is the drawing point, which does not move.
    setDp (setField d (d.draw.dpx, d.draw.dpy) (unpackMulti d.dom p)) d.draw.dpx d.draw.dpy
  else
    let d' := setField (if nblk > 2 then skipped d else d) (unpackMulti d.dom p)
      (unpackMulti d.dom (ptr p d.dom.mvLen))
    setDp d' d'.af.x d'.af.y

/-! ### Geometric primitives -/

def primPoint (d : Display) (op : Nat) (p : Nat → Nat) : Display :=
  let v := unpackMulti d.dom p
  let x := if op = 0x24 ∨ op = 0x26 then v.1 else wrap32 (d.draw.dpx + v.1)
  let y := if op = 0x24 ∨ op = 0x26 then v.2 else wrap32 (d.draw.dpy + v.2)
  let d :=
    if op = 0x26 ∨ op = 0x27 then
      markDrew { d with
        surf := drawPoint d.surf (fxToPx x) (fxToPx y) (pelw d) (pelh d) (fg d) }
    else d
  setDp d x y

/-- SET & LINE is not a polyline: each set of two operands is a segment of its own. -/
def primLine (d : Display) (op : Nat) (p : Nat → Nat) : Display :=
  let first := unpackMulti d.dom p
  let a := if op = 0x28 ∨ op = 0x29 then (d.draw.dpx, d.draw.dpy) else first
  let v := if op = 0x28 ∨ op = 0x29 then first else unpackMulti d.dom (ptr p d.dom.mvLen)
  let bx := if op = 0x29 ∨ op = 0x2B then wrap32 (v.1 + a.1) else v.1
  let by' := if op = 0x29 ∨ op = 0x2B then wrap32 (v.2 + a.2) else v.2
  let d := markDrew { d with
    surf := drawLine d.surf (fxToPx a.1) (fxToPx a.2) (fxToPx bx) (fxToPx by')
      (pelw d) (pelh d) (fg d) d.tex.lineTexture }
  setDp d bx by'

/-- A ring or a path of vertices, filled or stroked. -/
def paintPath (d : Display) (pts : List (Int × Int)) (filled closed : Bool) : Display :=
  if filled then { d with surf := fillPoly d.surf pts (fg d) (some (areaMask d)) }
  else { d with
    surf := strokePoly d.surf pts closed (pelw d) (pelh d) (fg d) d.tex.lineTexture }

/-- The corners of the outline of a rectangle, the far ones on its last pixels. -/
def rectPath (px py pw ph : Int) : List (Int × Int) :=
  let x1 := px + (if pw > 0 then pw - 1 else pw + 1)
  let y1 := py + (if ph > 0 then ph - 1 else ph + 1)
  [(px, py), (x1, py), (x1, y1), (px, y1)]

def paintRect (d : Display) (filled : Bool) (px py pw ph : Int) : Display :=
  if filled then { d with surf := fillRect d.surf px py pw ph (fg d) (some (areaMask d)) }
  else paintPath d (rectPath px py pw ph) false true

def primRect (d : Display) (op : Nat) (p : Nat → Nat) : Display :=
  let first := unpackMulti d.dom p
  let a := if op = 0x30 ∨ op = 0x31 then (d.draw.dpx, d.draw.dpy) else first
  let v := if op = 0x30 ∨ op = 0x31 then first else unpackMulti d.dom (ptr p d.dom.mvLen)
  let px := fxToPx a.1
  let py := fxToPx a.2
  let pw := fxToPx (wrap32 (a.1 + v.1)) - px
  let ph := fxToPx (wrap32 (a.2 + v.2)) - py
  let d := paintRect d (op = 0x31 ∨ op = 0x33) px py pw ph
  setDp (markDrew d) (wrap32 (a.1 + v.1)) a.2

/-- The vertices given by relative displacements, block after block, from `(x, y)` on. POLYGON skips
a displacement of magnitude zero. The list of pixels is bounded by the array it is built in. -/
def relVertices (dom : Domain) (p : Nat → Nat) (skipZero : Bool) :
    (rounds blk : Nat) → (x y : Int) → List (Int × Int) → List (Int × Int) × Int × Int
  | 0, _, x, y, pts => (pts, x, y)
  | rounds + 1, blk, x, y, pts =>
      if pts.length < maxPts - 1 then
        let v := unpackMulti dom (ptr p (blk * dom.mvLen))
        if skipZero ∧ v.1 = 0 ∧ v.2 = 0 then relVertices dom p skipZero rounds (blk + 1) x y pts
        else
          let x := wrap32 (x + v.1)
          let y := wrap32 (y + v.2)
          relVertices dom p skipZero rounds (blk + 1) x y (pts ++ [(fxToPx x, fxToPx y)])
      else (pts, x, y)

/-- The start point of the forms that set it and of those that do not. -/
def startPoint (d : Display) (p : Nat → Nat) (setform : Bool) : Int × Int :=
  if setform then unpackMulti d.dom p else (d.draw.dpx, d.draw.dpy)

/-- More than three points: the polyline through them, counted as not smoothed. -/
def arcSpline (d : Display) (p : Nat → Nat) (filled : Bool) (first nblk : Nat) (s : Int × Int) :
    Display :=
  let walk := relVertices d.dom p false (nblk - first) first s.1 s.2 [(fxToPx s.1, fxToPx s.2)]
  setDp (skipped (markDrew (paintPath d walk.1 filled false))) walk.2.1 walk.2.2

/-- A path is drawn where it has two vertices at least. -/
def paintLongPath (d : Display) (pts : List (Int × Int)) (filled closed : Bool) : Display :=
  if pts.length ≥ 2 then markDrew (paintPath d pts filled closed) else d

/-- The arc from `s` through an intermediate point. Without an end point the start point is meant
and a circle is drawn. -/
def arcThrough (arc : ArcPoints) (d : Display) (p : Nat → Nat) (filled : Bool) (first nblk : Nat)
    (s : Int × Int) : Display :=
  let r := unpackMulti d.dom (ptr p (first * d.dom.mvLen))
  let ix := wrap32 (s.1 + r.1)
  let iy := wrap32 (s.2 + r.2)
  let e :=
    if nblk ≥ first + 2 then
      let r := unpackMulti d.dom (ptr p ((first + 1) * d.dom.mvLen))
      (wrap32 (ix + r.1), wrap32 (iy + r.2))
    else s
  setDp (paintLongPath d (arc.vertices s.1 s.2 ix iy e.1 e.2) filled false) e.1 e.2

def primArc (arc : ArcPoints) (d : Display) (op : Nat) (p : Nat → Nat) (n : Nat) : Display :=
  let nblk := blocks d.dom.mvLen n
  let filled := op = 0x2D ∨ op = 0x2F
  let setform := op = 0x2E ∨ op = 0x2F
  let first := if setform then 1 else 0
  if nblk < first + 1 then operandShort d
  else if nblk > first + 2 then arcSpline d p filled first nblk (startPoint d p setform)
  else arcThrough arc d p filled first nblk (startPoint d p setform)

def primPoly (d : Display) (op : Nat) (p : Nat → Nat) (n : Nat) : Display :=
  let nblk := blocks d.dom.mvLen n
  let filled := op = 0x35 ∨ op = 0x37
  let setform := op = 0x36 ∨ op = 0x37
  if nblk < 1 then operandShort d
  else
    let first := if setform then 1 else 0
    let s := startPoint d p setform
    let walk := relVertices d.dom p true (nblk - first) first s.1 s.2 [(fxToPx s.1, fxToPx s.2)]
    setDp (paintLongPath d walk.1 filled true) s.1 s.2

/-! ### Dispatch -/

/-- The switch of `pdi_execute_set`. -/
def pdiSwitch (arc : ArcPoints) (d : Display) (op : Nat) (p : Nat → Nat) (n rep : Nat) :
    Display :=
  let executed (d : Display) : Display := { d with st.pdiExecuted := d.st.pdiExecuted + 1 }
  match op with
  | 0x20 => executed (execReset d p n)
  | 0x21 => executed (execDomain d p n)
  | 0x22 => executed (execText d p n)
  | 0x23 => executed (execTexture d p n)
  | 0x24 | 0x25 | 0x26 | 0x27 => executed (primPoint d op p)
  | 0x28 | 0x29 | 0x2A | 0x2B => executed (primLine d op p)
  | 0x2C | 0x2D | 0x2E | 0x2F => executed (primArc arc d op p n)
  | 0x30 | 0x31 | 0x32 | 0x33 => executed (primRect d op p)
  | 0x34 | 0x35 | 0x36 | 0x37 => executed (primPoly d op p n)
  | 0x38 => executed (execField d p n)
  | 0x3C => executed (execSetColor d p rep)
  | 0x3D => executed (execWait d p n)
  | 0x3E => executed (execSelectColor d p n)
  | _ => skipped d

end UnicornSuite.Naplps
