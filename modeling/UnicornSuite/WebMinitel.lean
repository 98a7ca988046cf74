import UnicornSuite.LibRun
import Mathlib.Data.Rat.Floor

/-! The page of the web Minitel (`minitel.js`): the socket, the queue of bytes that are drawn at the pace of
a Minitel, the goodbye and logoff timers and the keys. The terminal itself is a parameter. A socket has
the number of its session, and a timer has a number of its own; beside the page goes a record of the bytes
received, fed and sent and of the ends of sessions. -/

namespace UnicornSuite.WebMinitel

/-- The terminal (`engine.wasm`); a feed gives the answers that it has to send. -/
structure Engine (ε : Type) where
  reset : ε → ε
  setReply : ε → Bool → ε
  setStatus : ε → UInt8 → ε
  feed : ε → List UInt8 → ε × List UInt8

/-- The variable `state`. -/
inductive Line where
  | idle | connecting | connected
  deriving DecidableEq

/-- How a session ends: the service says goodbye, the host closes, the terminal hangs up. -/
inductive Why where
  | goodbye | host | hangup
  deriving DecidableEq

/-- What went up the line, with the socket and the state of the line at that moment. -/
structure Sent where
  session : Nat
  ws : Option Nat
  line : Line
  bytes : List UInt8

/-- What the page has done so far. -/
structure Record where
  received : List (Nat × UInt8) := []
  fed : List (Nat × UInt8) := []
  sent : List Sent := []
  ends : List (Nat × Why) := []

structure Page (ε : Type) where
  engine : Option ε := none
  ws : Option Nat := none
  line : Line := .idle
  opened : Bool := false
  lastWasCnx : Bool := false
  rxSinceTx : Bool := false
  lastRx : ℚ := 0
  logoffTimer : Option Nat := none
  rxQueue : List (List UInt8) := []
  rxQueued : Nat := 0
  paceCredit : ℚ := 0
  paceLast : Option ℚ := none
  hostClosedAt : Option ℚ := none
  connectWhenReady : Bool := false
  goodbyeSeen : Bool := false
  goodbyeTimer : Option Nat := none
  /-- The sockets that may still call back, and those that have opened. -/
  live : List Nat := []
  openSockets : List Nat := []
  /-- The timers that run. -/
  logoffLive : List Nat := []
  goodbyeLive : List Nat := []
  timers : Nat := 0
  /-- In the cache of the browser, where nothing runs. -/
  frozen : Bool := false
  session : Nat := 0
  record : Record := {}

abbrev goodbyeMs : ℚ := 3000

abbrev paceHz : ℚ := 30

abbrev paceBps : ℚ := 120

abbrev paceBacklog : Nat := 120

section

variable {ε : Type} (eng : Engine ε)

/-! ### Timers and sockets -/

def clearLogoffTimer (p : Page ε) : Page ε :=
  { p with logoffLive := p.logoffLive.filter (some · ≠ p.logoffTimer), logoffTimer := none }

/-- The logoff timer is set: the start screen comes back after five seconds. -/
def armLogoff (p : Page ε) : Page ε :=
  let p := clearLogoffTimer p
  { p with
    logoffTimer := some p.timers, logoffLive := p.logoffLive ++ [p.timers], timers := p.timers + 1 }

def clearGoodbye (p : Page ε) : Page ε :=
  { p with
    goodbyeSeen := false
    goodbyeLive := p.goodbyeLive.filter (some · ≠ p.goodbyeTimer)
    goodbyeTimer := none }

def armGoodbyeClose (p : Page ε) : Page ε :=
  { p with
    goodbyeLive := p.goodbyeLive.filter (some · ≠ p.goodbyeTimer) ++ [p.timers]
    goodbyeTimer := some p.timers
    timers := p.timers + 1 }

def clearRxQueue (p : Page ε) : Page ε :=
  { p with rxQueue := [], rxQueued := 0, paceCredit := 0, hostClosedAt := none }

/-- The socket closes, or is closed without its handlers. -/
def dropSocket (p : Page ε) (w : Nat) : Page ε :=
  { p with live := p.live.filter (· ≠ w), openSockets := p.openSockets.filter (· ≠ w) }

/-- The page closes its own socket. -/
def closeWs (p : Page ε) : Page ε :=
  { p.ws.elim p (dropSocket p) with ws := none }

/-! ### The line -/

def sendBytes (p : Page ε) (bytes : List UInt8) : Page ε :=
  if p.ws.isNone ∨ p.line ≠ .connected then p
  else
    { p with
      record.sent := p.record.sent ++ [⟨p.session, p.ws, p.line, bytes.map (· &&& 0x7F)⟩]
      rxSinceTx := false }

/-- Bytes for the terminal; its answers go up the line. -/
def feed (p : Page ε) (bytes : List UInt8) : Page ε :=
  match p.engine with
  | some e =>
      if bytes = [] then p
      else
        let out := eng.feed e bytes
        let p := { p with engine := some out.1 }
        if out.2 = [] then p else sendBytes p out.2
  | none => p

def host : String := "videotex.greektimes.ca"

def textBytes (s : String) : List UInt8 := s.toList.map fun c => UInt8.ofNat c.toNat

/-- A line of text in the middle of a row. -/
def centred (row : UInt8) (s : String) : List UInt8 :=
  [0x1F, 0x40 + row, 0x40 + 1 + UInt8.ofNat ((40 - s.length) / 2)] ++ textBytes s

/-- The page of `drawLogoff`. -/
def logoffPage : List UInt8 := [0x0C, 0x14] ++ centred 11 "Disconnected from" ++ centred 13 host

/-- The line is down; bytes that are still queued are drawn unless the terminal hangs up. -/
def lineDown (p : Page ε) (why : Why) : Page ε :=
  let p := clearGoodbye (if why = .hangup then clearRxQueue p else p)
  { p with
    line := .idle
    lastWasCnx := false
    engine := p.engine.map fun e => eng.setStatus (eng.setReply e false) 70
    record.ends := p.record.ends ++ [(p.session, why)] }

/-- The last bytes were the goodbye of the service, which stays on the screen. -/
def saidGoodbye (p : Page ε) (why : Why) (closedAt : Option ℚ) (now : ℚ) : Bool :=
  why = .goodbye ∨ why = .host ∧ p.rxSinceTx ∧ closedAt.getD now - p.lastRx ≤ goodbyeMs

def endSession (p : Page ε) (why : Why) (closedAt : Option ℚ) (now : ℚ) : Page ε :=
  let q := lineDown eng p why
  if p.line = .connected then
    armLogoff (if saidGoodbye p why closedAt now then q else feed eng q logoffPage)
  else q

def finishHostClose (p : Page ε) (now : ℚ) : Page ε :=
  let p' := { p with hostClosedAt := none }
  if p.line ≠ .connected then p'
  else endSession eng p' (if p.goodbyeSeen then .goodbye else .host) p.hostClosedAt now

/-- What ends with the queue empty ends at once. -/
def hostClosed (p : Page ε) (now : ℚ) : Page ε :=
  let p := { p with hostClosedAt := some now }
  if p.rxQueued = 0 then finishHostClose eng p now else p

def hangUp (p : Page ε) (now : ℚ) : Page ε := endSession eng (closeWs p) .hangup none now

/-- A character above 0xFF is no byte: the error symbol. -/
def toByte (c : Nat) : UInt8 := if c > 0xFF then 0x1A else UInt8.ofNat c

def onData (p : Page ε) (data : List Nat) (now : ℚ) : Page ε :=
  let bytes := data.map toByte
  if bytes = [] then
    if p.line = .connected then armGoodbyeClose { p with goodbyeSeen := true } else p
  else
    let p :=
      { p with
        rxQueue := p.rxQueue ++ [bytes]
        rxQueued := p.rxQueued + bytes.length
        rxSinceTx := true
        lastRx := now
        record.received := p.record.received ++ bytes.map (p.session, ·) }
    if p.goodbyeSeen then armGoodbyeClose p else p

def closeAfterGoodbye (p : Page ε) (now : ℚ) : Page ε :=
  let p := { p with goodbyeTimer := none }
  if p.ws.isNone ∨ p.line ≠ .connected then p else hostClosed eng (closeWs p) now

/-- `takeQueued`: the first bytes of the queue and what is left of it. -/
def takeChunks : Nat → List (List UInt8) → List UInt8 × List (List UInt8)
  | _, [] => ([], [])
  | n, head :: rest =>
      if n = 0 then ([], head :: rest)
      else if head.length ≤ n then
        let out := takeChunks (n - head.length) rest
        (head ++ out.1, out.2)
      else (head.take n, head.drop n :: rest)

/-- The credit of a tick `dt` milliseconds after the one before. -/
def paceGrows (p : Page ε) (docHidden : Bool) (dt : ℚ) : ℚ :=
  if docHidden then p.rxQueued
  else
    let credit := p.paceCredit + dt * paceBps / 1000
    if p.rxQueued > paceBacklog then credit + (p.rxQueued - paceBacklog : ℚ) / 8 else credit

/-- The bytes that the credit buys go to the terminal. -/
def drawQueued (p : Page ε) (credit : ℚ) : Page ε :=
  let n := min credit.floor.toNat p.rxQueued
  let out := takeChunks n p.rxQueue
  feed eng
    { p with
      paceCredit := min 8 (credit - credit.floor)
      rxQueue := out.2
      rxQueued := p.rxQueued - n
      record.fed := p.record.fed ++ out.1.map (p.session, ·) }
    out.1

def pace (p : Page ε) (docHidden : Bool) (now : ℚ) : Page ε :=
  let dt := p.paceLast.elim (1000 / paceHz) (now - ·)
  let p := { p with paceLast := some now }
  if p.rxQueued = 0 then
    let p := { p with paceCredit := 0 }
    if p.hostClosedAt.isSome then finishHostClose eng p now else p
  else
    let credit := paceGrows p docHidden dt
    if credit.floor < 1 then { p with paceCredit := credit }
    else
      let p := drawQueued eng p credit
      if p.rxQueued = 0 ∧ p.hostClosedAt.isSome then finishHostClose eng p now else p

/-! ### Sessions -/

/-- `connect`, with whether the socket can be made. -/
def connect (p : Page ε) (made : Bool) : Page ε :=
  match p.engine with
  | none => { p with connectWhenReady := true }
  | some e =>
      if p.ws.isSome ∨ p.line ≠ .idle then p
      else
        let e := eng.setStatus (eng.setReply (eng.reset e) true) 70
        let p := clearGoodbye (clearRxQueue (clearLogoffTimer p))
        let p :=
          { p with
            opened := false, lastWasCnx := false, rxSinceTx := false, session := p.session + 1 }
        if made then
          { p with
            engine := some e
            line := .connecting
            ws := some p.session
            live := p.live ++ [p.session] }
        else { p with engine := some (eng.setReply e false), line := .idle }

def onOpen (p : Page ε) (w : Nat) : Page ε :=
  let p := { p with openSockets := p.openSockets ++ [w] }
  if p.ws ≠ some w then p
  else { p with opened := true, line := .connected, engine := p.engine.map (eng.setStatus · 67) }

def onClose (p : Page ε) (w : Nat) (now : ℚ) : Page ε :=
  let p := dropSocket p w
  if p.ws ≠ some w then p
  else
    let p := { p with ws := none }
    if p.opened then hostClosed eng p now
    else { p with line := .idle, engine := p.engine.map (eng.setReply · false) }

def startScreen (p : Page ε) : Page ε :=
  let p := { p with logoffTimer := none }
  match p.engine with
  | none => p
  | some e =>
      if p.line ≠ .idle then p
      else { p with engine := some (eng.setReply (eng.reset e) false), lastWasCnx := false }

/-! ### Keys and the page -/

/-- The letter of CONNEXION/FIN. -/
abbrev cnxFin : UInt8 := 0x49

def pressSep (p : Page ε) (code : UInt8) (made : Bool) (now : ℚ) : Page ε :=
  if p.goodbyeSeen then p
  else if code = cnxFin ∧ p.line = .idle then connect eng p made
  else if code = cnxFin ∧ p.line = .connecting then p
  else if code = cnxFin ∧ p.lastWasCnx then hangUp eng p now
  else if p.line ≠ .connected then p
  else { sendBytes p [0x13, code] with lastWasCnx := code = cnxFin }

def pressChar (p : Page ε) (ch : UInt8) : Page ε :=
  if p.line ≠ .connected ∨ p.goodbyeSeen then p
  else { sendBytes p [ch] with lastWasCnx := false }

def onPagehide (p : Page ε) : Page ε :=
  let p := { p with frozen := true }
  if p.ws.isNone then p
  else clearLogoffTimer (clearGoodbye (clearRxQueue { closeWs p with line := .idle }))

/-- `pageshow` of a page that comes out of the cache. -/
def onPageshow (p : Page ε) : Page ε :=
  let p := { p with frozen := false }
  match p.engine with
  | none => p
  | some e => startScreen eng { p with line := .idle, engine := some (eng.setStatus e 70) }

/-- What happens to the page, with the time where it matters. -/
inductive Event (ε : Type) where
  | open (w : Nat)
  | message (w : Nat) (data : List Nat) (now : ℚ)
  | close (w : Nat) (now : ℚ)
  | error (w : Nat)
  | pace (docHidden : Bool) (now : ℚ)
  | logoffFires (id : Nat)
  | goodbyeFires (id : Nat) (now : ℚ)
  | sep (code : UInt8) (made : Bool) (now : ℚ)
  | char (ch : UInt8)
  /-- A click on the screen, and one on the start panel. -/
  | click (made : Bool)
  | startClick (made : Bool)
  | engineReady (e : ε) (made : Bool)
  | pagehide
  | pageshow

/-- A socket calls back while it is live, with messages once it is open; a timer that runs fires once. -/
def handle (p : Page ε) : Event ε → Page ε
  | .open w => if w ∈ p.live ∧ w ∉ p.openSockets then onOpen eng p w else p
  | .message w data now =>
      if w ∈ p.live ∧ w ∈ p.openSockets ∧ p.ws = some w then onData p data now else p
  | .close w now => if w ∈ p.live then onClose eng p w now else p
  | .error _ => p
  | .pace docHidden now => pace eng p docHidden now
  | .logoffFires id =>
      if id ∈ p.logoffLive then
        startScreen eng { p with logoffLive := p.logoffLive.filter (· ≠ id) }
      else p
  | .goodbyeFires id now =>
      if id ∈ p.goodbyeLive then
        closeAfterGoodbye eng { p with goodbyeLive := p.goodbyeLive.filter (· ≠ id) } now
      else p
  | .sep code made now => pressSep eng p code made now
  | .char ch => pressChar p ch
  | .click made => if p.line = .idle then connect eng p made else p
  | .startClick made => connect eng p made
  | .engineReady e made =>
      if p.engine.isSome then p
      else
        let p := { p with engine := some e }
        if p.connectWhenReady then connect eng { p with connectWhenReady := false } made else p
  | .pagehide => onPagehide p
  | .pageshow => p

/-- A page in the cache of the browser waits to be shown again. -/
def step (p : Page ε) (e : Event ε) : Page ε :=
  if p.frozen then
    match e with
    | .pageshow => onPageshow eng p
    | _ => p
  else handle eng p e

end

end UnicornSuite.WebMinitel
