import UnicornSuite.RipHandover
import UnicornSuite.RipParser

/-! The canvas of the RIPscrip tab (`ripscrip_module.c`): the scene that the service draws, its mouse
regions, and the region that is pressed. The pressed look is an inversion of the surface that the scene
itself does not have. Beside the tab runs a parser that gets the same bytes and is never inverted. -/

namespace UnicornSuite.RipCanvas

open Rip

/-! ### Pointer -/

/-- A mouse message: the size of the client area and the point in it. -/
structure Pointer where
  cw : Int
  ch : Int
  px : Int
  py : Int
  deriving DecidableEq

/-- `RIP_ASPECT_W` and `RIP_ASPECT_H`. -/
abbrev aspectW : Int := 640

abbrev aspectH : Int := 480

/-- `rip_dest_rect`: the largest rectangle of the aspect that fits, centred. -/
def destRect (cw ch : Int) : Rect :=
  if cw ≤ 0 ∨ ch ≤ 0 then ⟨0, 0, 0, 0⟩
  else
    let tall := (cw * aspectH).tdiv aspectW
    let dw := if tall > ch then (ch * aspectW).tdiv aspectH else cw
    let dh := if tall > ch then ch else tall
    let left := (cw - dw).tdiv 2
    let top := (ch - dh).tdiv 2
    ⟨left, top, left + dw, top + dh⟩

/-- `rip_client_to_surface`; a point beside the picture has no place on the surface. -/
def clientToSurface (m : Pointer) : Option (Int × Int) :=
  let dst := destRect m.cw m.ch
  let dw := dst.x1 - dst.x0
  let dh := dst.y1 - dst.y0
  if m.cw ≤ 0 ∨ m.ch ≤ 0 ∨ dw ≤ 0 ∨ dh ≤ 0 then none
  else if m.px < dst.x0 ∨ m.px ≥ dst.x1 ∨ m.py < dst.y0 ∨ m.py ≥ dst.y1 then none
  else
    let sx := ((m.px - dst.x0) * egaW).tdiv dw
    let sy := ((m.py - dst.y0) * egaH).tdiv dh
    some (lower (upper sx 0) (egaW - 1), lower (upper sy 0) (egaH - 1))

/-- The region under the pointer. -/
def regionUnder (p : RipParser) (m : Pointer) : Option Nat :=
  (clientToSurface m).bind fun at' => buttonAt p at'.1 at'.2

/-! ### Bytes for the scene -/

/-- What is held back of an auto-sensing sequence. -/
inductive Esc where
  | none | esc | bracket
  | digit (d : UInt8)

/-- What the bytes act on: the parser with its surface, and the filter before it. -/
structure Scene where
  parser : RipParser
  esc : Esc := .none
  ripEnabled : Bool := true

/-- The size of `out` in `rip_consume`. -/
abbrev outBytes : Nat := 8192

/-- The loop of `rip_consume`: the scene, the bytes that wait for the parser, and the answers sent. -/
structure Filter where
  scene : Scene
  out : List UInt8 := []
  answers : Nat := 0

variable (T : Tables)

def Filter.flush (f : Filter) : Filter :=
  { f with
    scene := { f.scene with parser := if f.scene.ripEnabled then feed T f.scene.parser f.out else f.scene.parser }
    out := [] }

/-- Bytes that do not fit any more are lost. -/
def Filter.append (f : Filter) (bytes : List UInt8) : Filter :=
  if f.out.length + bytes.length ≤ outBytes then { f with out := f.out ++ bytes } else f

def Filter.hold (f : Filter) (held : Esc) : Filter := { f with scene := { f.scene with esc := held } }

/-- The byte goes to the parser, behind what was held back. -/
def Filter.pass (f : Filter) (held : List UInt8) (b : UInt8) : Filter :=
  let f := ((f.hold .none).append held).append [b]
  if f.out.length = outBytes then f.flush T else f

def Filter.answer (f : Filter) : Filter := { f.hold .none with answers := f.answers + 1 }

/-- A byte in `rip_consume`. -/
def consumeByte (f : Filter) (b : UInt8) : Filter :=
  match f.scene.esc with
  | .none => if b = 0x1B then f.hold .esc else f.pass T [] b
  | .esc => if b = 0x5B then f.hold .bracket else f.pass T [0x1B] b
  | .bracket =>
      if b = 0x21 then f.answer
      else if 0x30 ≤ b ∧ b ≤ 0x32 then f.hold (.digit b)
      else f.pass T [0x1B, 0x5B] b
  | .digit d =>
      if b = 0x21 then
        if d = 0x30 then f.answer
        else if d = 0x31 then { f with scene := { f.scene with esc := .none, ripEnabled := false } }
        else { f with scene := { f.scene with esc := .none, ripEnabled := true } }
      else f.pass T [0x1B, 0x5B, d] b

/-- `rip_consume`: the scene afterwards and the number of answers. -/
def consume (s : Scene) (data : List UInt8) : Scene × Nat :=
  let f := Machine.run (consumeByte T) { scene := s } data
  let f := if f.out = [] then f else f.flush T
  (f.scene, f.answers)

/-! ### The tab -/

/-- What a command was sent by: the release of the mouse, with the region under it, or a hot key. -/
inductive Sender where
  | mouse (under : Option Nat)
  | key
  deriving DecidableEq

/-- A host command that was sent: the region, what it was when the mouse or the key went down, and what it
is now. -/
structure Sent where
  sender : Sender
  idx : Nat
  command : List Nat
  pressed : Option Button
  now : Option Button
  deriving DecidableEq

structure Tab where
  scene : Scene
  telnet : Bool := false
  connected : Bool := false
  zmr : Bool := false
  zmodemActive : Bool := false
  zsigLen : Nat := 0
  pressIdx : Option Nat := none
  pressIn : Bool := false
  pressArmed : Bool := false
  captured : Bool := false
  flashIdx : Option Nat := none
  flashCmd : List Nat := []
  wire : List Nat := []
  /-- The parser alone. -/
  alone : Scene
  /-- The region that the mouse or the key went down on, and the last mouse message of the press. -/
  pressed : Option Button := none
  pointer : Option Pointer := none
  sent : List Sent := []

def Tab.buttons (t : Tab) : List Button := t.scene.parser.buttons

/-! ### The pressed look -/

/-- `rip_press_flip_quiet`; a region that did not ask for the look is left alone. `rip_press_flip` paints
the canvas besides. -/
def pressFlip (p : RipParser) (idx : Option Nat) : RipParser :=
  match idx.bind (p.buttons[·]?) with
  | none => p
  | some b =>
      if ¬b.invert then p
      else if b.image.x1 < b.image.x0 ∨ b.image.y1 < b.image.y0 then p
      else onSurf p (invertRect · b.image.x0 b.image.y0 b.image.x1 b.image.y1)

def Scene.flip (s : Scene) (idx : Option Nat) : Scene := { s with parser := pressFlip s.parser idx }

def Tab.flip (t : Tab) : Tab := { t with scene := t.scene.flip t.pressIdx }

/-- The look comes off, if it is on. -/
def Tab.lift (t : Tab) : Tab :=
  { t with scene := if t.pressIn then t.scene.flip t.pressIdx else t.scene }

def pressClear (t : Tab) : Tab := { t.lift with pressIdx := none, pressIn := false, pressArmed := false }

def pressAbandon (t : Tab) : Tab :=
  { t with flashIdx := none, flashCmd := [], pressIdx := none, pressIn := false, pressArmed := false }

def pressCancelForRedraw (t : Tab) : Tab :=
  if t.pressIdx = none ∧ t.flashIdx = none then t else pressAbandon t.lift

/-- `RipPressSaved`. -/
def pressSaved (t : Tab) : Option (Nat × Button) :=
  if t.pressIn then t.pressIdx.bind fun i => t.buttons[i]?.map fun b => (i, b) else none

def pressSuspend (t : Tab) : Tab :=
  match pressSaved t with
  | none => t
  | some _ => t.flip

/-- The comparison of `rip_press_resume`. -/
def sameRegion (b now : Button) : Bool :=
  now.image == b.image && now.invert == b.invert && now.command == b.command

def pressResume (saved : Option (Nat × Button)) (t : Tab) : Tab :=
  match saved with
  | none => t
  | some (i, b) =>
      match t.buttons[i]? with
      | none => pressAbandon t
      | some now =>
          if sameRegion b now then { t with scene := t.scene.flip (some i) } else pressAbandon t

/-! ### Sending -/

def sendRaw (t : Tab) (bytes : List Nat) : Tab :=
  { t with wire := if t.telnet then t.wire ++ bytes else t.wire }

/-- `rip_zmodem_begin`, where the receiver can be started or not. -/
def zmodemBegin (t : Tab) (starts : Bool) : Tab × Bool :=
  if t.zmodemActive ∨ t.zmr then (t, false)
  else if ¬t.connected ∨ ¬t.telnet then (t, false)
  else
    let t := pressCancelForRedraw t
    if starts then ({ t with zmr := true, zmodemActive := true, zsigLen := 0 }, true) else (t, false)

/-- The command as it goes out: a carriage return is added where it has none. -/
def terminated (cmd : List Nat) : List Nat :=
  if cmd.getLast? = some 0x0D ∨ cmd.getLast? = some 0x0A then cmd else cmd ++ [0x0D]

def sendCommand (t : Tab) (cmd : List Nat) (starts : Bool) : Tab × Bool :=
  if ¬t.connected ∨ ¬t.telnet ∨ cmd = [] then (t, false)
  else if t.zmodemActive then (t, false)
  else if commandIsDownload cmd then
    let begun := zmodemBegin t starts
    if begun.2 then (sendRaw begun.1 (terminated cmd), true) else begun
  else (sendRaw t (terminated cmd), true)

/-- A command for region `idx` that goes out is recorded. -/
def sendFor (t : Tab) (sender : Sender) (idx : Nat) (cmd : List Nat) (starts : Bool) : Tab :=
  let out := sendCommand t cmd starts
  if out.2 then
    { out.1 with sent := out.1.sent ++ [⟨sender, idx, cmd, t.pressed, t.buttons[idx]?⟩] }
  else out.1

def activateRegion (t : Tab) (sender : Sender) (idx : Nat) (starts : Bool) : Tab :=
  match t.buttons[idx]? with
  | none => t
  | some b => sendFor t sender idx b.command starts

/-- The buffer of the flash takes the whole command. -/
def hotkeyActivate (t : Tab) (idx : Nat) (starts : Bool) : Tab :=
  match t.buttons[idx]? with
  | none => t
  | some b =>
      let t := { pressCancelForRedraw t with pressed := some b }
      if ¬b.invert then activateRegion t .key idx starts
      else
        Tab.flip
          { t with
            flashCmd := b.command, flashIdx := some idx
            pressIdx := some idx, pressIn := true, pressArmed := false }

/-! ### The session -/

/-- `RIP_VERSION_ANSWER`. -/
def versionAnswer : List Nat := [0x52, 0x49, 0x50, 0x53, 0x43, 0x52, 0x49, 0x50, 0x30, 0x31, 0x35, 0x34, 0x30, 0x30]

/-- Bytes for the scene, which the parser alone gets too. -/
def ripConsume (t : Tab) (data : List UInt8) : Tab :=
  let out := consume T t.scene data
  sendRaw { t with scene := out.1, alone := (consume T t.alone data).1 }
    (List.replicate out.2 versionAnswer).flatten

/-- The service draws on the true scene. -/
def draw (t : Tab) (data : List UInt8) : Tab :=
  pressResume (pressSaved t) (ripConsume T (pressSuspend t) data)

def onData (t : Tab) (data : List UInt8) (starts : Bool) : Tab :=
  if t.zmodemActive ∨ data = [] then t
  else
    match RipStream.scanForZmodem t.zsigLen data with
    | (none, len) => draw T { t with zsigLen := len } data
    | (some at', len) =>
        let begun := zmodemBegin (draw T { t with zsigLen := len } (data.take at')) starts
        if begun.2 ∨ data.drop at' = [] then begun.1 else draw T begun.1 (data.drop at')

/-- `rip_on_zmr_done`, with the bytes that the receiver left unread. -/
def onZmrDone (t : Tab) (tail : List UInt8) : Tab :=
  if t.zmr then
    let t := { t with zmr := false, zmodemActive := false, zsigLen := 0 }
    if tail = [] then t else draw T t tail
  else { t with zmodemActive := false }

def zmodemAbandon (t : Tab) : Tab :=
  if t.zmr then { t with zmr := false, zmodemActive := false, zsigLen := 0 }
  else { t with zmodemActive := false }

def closeSession (t : Tab) : Tab :=
  let t := if t.zmodemActive ∨ t.zmr then zmodemAbandon t else t
  let t := pressCancelForRedraw t
  { t with
    telnet := false, connected := false, zsigLen := 0
    scene := { t.scene with esc := .none }
    alone := { t.alone with esc := .none } }

/-- A fresh scene. -/
def Scene.renew (s : Scene) : Scene := { s with parser := init s.parser.surf.pix.cell, ripEnabled := true }

/-- `rip_do_connect` with a host, where the connection can be opened or not. -/
def doConnect (t : Tab) (opens : Bool) : Tab :=
  if t.connected ∨ t.telnet then t
  else
    let t := pressCancelForRedraw t
    { t with scene := t.scene.renew, alone := t.alone.renew, zsigLen := 0, telnet := opens }

/-! ### Messages -/

inductive Event where
  | mouseDown (m : Pointer)
  | mouseMove (m : Pointer)
  | mouseUp (m : Pointer) (starts : Bool)
  | captureLost
  /-- The character of a key, zero for a key that has none. -/
  | key (c : Nat) (starts : Bool)
  /-- The flash timer; a message that was in the queue when the timer was killed still comes. -/
  | flashTick (starts : Bool)
  | data (bytes : List UInt8) (starts : Bool)
  | zmrDone (tail : List UInt8)
  | connect (opens : Bool)
  | connected
  /-- The service or the user ends the session. -/
  | closed

def mouseDown (t : Tab) (m : Pointer) : Tab :=
  if ¬t.connected ∨ t.zmodemActive then t
  else
    let t := pressCancelForRedraw t
    match regionUnder t.scene.parser m with
    | none => t
    | some i =>
        Tab.flip
          { t with
            pressIdx := some i, pressArmed := true, pressIn := true, captured := true
            pressed := t.buttons[i]?, pointer := some m }

def mouseMove (t : Tab) (m : Pointer) : Tab :=
  if ¬t.pressArmed ∨ t.pressIdx = none then t
  else
    let t := { t with pointer := some m }
    let inside := decide (regionUnder t.scene.parser m = t.pressIdx)
    if inside ≠ t.pressIn then { t.flip with pressIn := inside } else t

/-- A canvas that gives up the capture is told that it has lost it. -/
def captureLost (t : Tab) : Tab := pressClear { t with captured := false }

def mouseUp (t : Tab) (m : Pointer) (starts : Bool) : Tab :=
  let after := pressClear (if t.captured then captureLost t else t)
  match t.pressIdx with
  | none => after
  | some i =>
      if t.pressArmed ∧ t.pressIn then
        activateRegion after (.mouse (regionUnder t.scene.parser m)) i starts
      else after

def keyDown (t : Tab) (c : Nat) (starts : Bool) : Tab :=
  if ¬t.connected ∨ ¬t.telnet ∨ t.zmodemActive ∨ c = 0 then t
  else
    match buttonByHotkey t.scene.parser c with
    | some i => hotkeyActivate t i starts
    | none => if t.buttons = [] then sendRaw t [c] else t

def flashTick (t : Tab) (starts : Bool) : Tab :=
  let t := pressClear t
  match t.flashIdx with
  | none => t
  | some i =>
      if t.flashCmd = [] then { t with flashIdx := none }
      else sendFor { t with flashIdx := none, flashCmd := [] } .key i t.flashCmd starts

def step (t : Tab) : Event → Tab
  | .mouseDown m => mouseDown t m
  | .mouseMove m => mouseMove t m
  | .mouseUp m starts => mouseUp t m starts
  | .captureLost => captureLost t
  | .key c starts => keyDown t c starts
  | .flashTick starts => flashTick t starts
  | .data bytes starts => onData T t bytes starts
  | .zmrDone tail => onZmrDone T t tail
  | .connect opens => doConnect t opens
  | .connected => { t with connected := true }
  | .closed => closeSession t

/-- The tab on a surface that holds any pixels. -/
def start (cells : Int → Int → Nat) : Tab :=
  { scene := { parser := init cells }, alone := { parser := init cells } }

end UnicornSuite.RipCanvas
