import UnicornSuite.LibRun

/-! The serial bridge of the NABU module (`nabu_serial.c`) with the channel exchange it runs first
(`nabu_channel.c`). The exchange and the relay share one socket. A phase says which call the bridge
is in; between its turns bytes of the server reach the socket. -/

namespace UnicornSuite.Nabu

def msgChangeChannel : UInt8 := 0x85
def msgEscape : UInt8 := 0x10
def statusGood : UInt8 := 0x06
def stateConfirmed : UInt8 := 0xE4

def nabuChannelMin : Nat := 1
def nabuChannelMax : Nat := 256

/-- The size of `buf` in `nabu_serial_pump`. -/
def pumpBuf : Nat := 4096

/-- A byte from the server. Whether the server sent it as an answer to the exchange is for an
observer to tell: no branch of the code reads `answer`. -/
structure ServerByte where
  byte : UInt8
  answer : Bool
  deriving DecidableEq

/-- What `send` answers. -/
inductive SendResult where
  | sent (n : Nat)
  | wouldBlock
  | error

/-- What the calls of one turn answer. -/
structure Turn where
  /-- The stop event of the worker is set. -/
  stop : Bool := false
  /-- `ch_write` sends its byte. -/
  asks : Bool := true
  /-- The deadline of `ch_read` is over. -/
  deadline : Bool := false
  /-- `recv` fails with something else than `WSAEWOULDBLOCK`. -/
  broken : Bool := false
  /-- `ReadFile` on the cable. -/
  read : Option (List UInt8) := some []
  send : SendResult := .wouldBlock
  /-- How many bytes `recv` hands over, of those there are. -/
  recv : Nat := 1
  /-- `WriteFile` on the cable, with the count it wrote. -/
  write : Option Nat := some 0

inductive Event where
  | arrive (b : ServerByte)
  | hangUp
  | turn (t : Turn)

/-- Where the bridge is: in one of the six calls of `nabu_channel_select`, in `ReadFile`, in the
`send` loop with the bytes left and the count read, in `recv`, in the `WriteFile` loop, or closed. -/
inductive Phase where
  | ask | ack | good | low | high | confirm
  | cable
  | sending (rest : List UInt8) (got : Nat)
  | socket
  | writing (rest : List ServerByte) (got : Nat)
  | closed
  deriving DecidableEq

/-- The session. `cableRead`, `toServer` and `onCable` are all the bytes that were read from the
cable, relayed to the server and written to the cable; `sent` is all that the server has sent. -/
structure Bridge where
  phase : Phase
  channel : Nat
  queue : List ServerByte
  hungUp : Bool
  asked : List UInt8
  gToNabu : Nat
  gToServer : Nat
  cableRead : List UInt8
  toServer : List UInt8
  onCable : List ServerByte
  sent : List ServerByte

namespace Bridge

variable (s : Bridge)

def goto (p : Phase) : Bridge := { s with phase := p }

/-- `nabu_channel_select` returns, with the channel or without, and the relay begins. -/
def exchangeOver : Bridge := s.goto .cable

def chWrite (t : Turn) (b : UInt8) (next : Phase) : Bridge :=
  if t.asks then { s with asked := s.asked ++ [b], phase := next } else s.exchangeOver

/-- `ch_read` and the comparison behind it. -/
def chRead (t : Turn) (want : UInt8) (next : Phase) : Bridge :=
  if t.broken then s.exchangeOver
  else
    match s.queue with
    | b :: rest =>
        let s := { s with queue := rest }
        if b.byte = want then s.goto next else s.exchangeOver
    | [] => if s.hungUp ∨ t.deadline then s.exchangeOver else s

def readCable (t : Turn) : Bridge :=
  if t.stop then s.goto .closed
  else
    match t.read with
    | none => s.goto .closed
    | some data =>
        let data := data.take pumpBuf
        if data = [] then s.goto .socket
        else { s with cableRead := s.cableRead ++ data, phase := .sending data data.length }

def sendRest (t : Turn) (rest : List UInt8) (got : Nat) : Bridge :=
  match t.send with
  | .error => s.goto .closed
  | .wouldBlock => s
  | .sent n =>
      let s := { s with toServer := s.toServer ++ rest.take n }
      if rest.drop n = [] then { s with gToServer := s.gToServer + got, phase := .socket }
      else s.goto (.sending (rest.drop n) got)

/-- How many bytes `recv` takes from a queue that is not empty. -/
def recvCount (t : Turn) (n : Nat) : Nat := max 1 (min t.recv (min pumpBuf n))

def readSocket (t : Turn) : Bridge :=
  if t.broken then s.goto .closed
  else if s.queue = [] then
    if s.hungUp then s.goto .closed else s.goto .cable
  else
    let n := recvCount t s.queue.length
    { s with queue := s.queue.drop n, phase := .writing (s.queue.take n) (min n s.queue.length) }

def writeRest (t : Turn) (rest : List ServerByte) (got : Nat) : Bridge :=
  match t.write with
  | none => s.goto .closed
  | some n =>
      if n = 0 then s.goto .closed
      else
        let s := { s with onCable := s.onCable ++ rest.take n }
        if rest.drop n = [] then { s with gToNabu := s.gToNabu + got, phase := .cable }
        else s.goto (.writing (rest.drop n) got)

def act (t : Turn) : Bridge :=
  match s.phase with
  | .ask => s.chWrite t msgChangeChannel .ack
  | .ack => s.chRead t msgEscape .good
  | .good => s.chRead t statusGood .low
  | .low => s.chWrite t (UInt8.ofNat (s.channel &&& 0xFF)) .high
  | .high => s.chWrite t (UInt8.ofNat ((s.channel >>> 8) &&& 0xFF)) .confirm
  | .confirm => s.chRead t stateConfirmed .cable
  | .cable => s.readCable t
  | .sending rest got => s.sendRest t rest got
  | .socket => s.readSocket t
  | .writing rest got => s.writeRest t rest got
  | .closed => s

def step (s : Bridge) : Event → Bridge
  | .arrive b => { s with queue := s.queue ++ [b], sent := s.sent ++ [b] }
  | .hangUp => { s with hungUp := true }
  | .turn t => s.act t

end Bridge

/-- `nabu_serial_open` once both ends are open; the exchange is run for a channel in range. -/
def openBridge (channel : Nat) : Bridge where
  phase := if nabuChannelMin ≤ channel ∧ channel ≤ nabuChannelMax then .ask else .cable
  channel := channel
  queue := []
  hungUp := false
  asked := []
  gToNabu := 0
  gToServer := 0
  cableRead := []
  toServer := []
  onCable := []
  sent := []

/-! ### What the bridge promises -/

/-- The bytes the server sent outside the exchange. -/
def outside (bs : List ServerByte) : List ServerByte := bs.filter fun b => !b.answer

/-- The bytes of its answer. -/
def answers (bs : List ServerByte) : List UInt8 := (bs.filter (·.answer)).map (·.byte)

namespace Phase

/-- What has been taken from one side and not yet given to the other. -/
def toSend : Phase → List UInt8
  | .sending rest _ => rest
  | _ => []

def toWrite : Phase → List ServerByte
  | .writing rest _ => rest
  | _ => []

/-- The exchange has not returned. -/
def asking : Phase → Bool
  | .ask | .ack | .good | .low | .high | .confirm => true
  | _ => false

end Phase

namespace Bridge

/-- Towards the server nothing is lost, doubled or changed until the session ends. -/
structure Upstream (s : Bridge) : Prop where
  ordered : s.toServer <+: s.cableRead
  whole : s.phase ≠ .closed → s.toServer ++ s.phase.toSend = s.cableRead

/-- Towards the cable: no byte of the exchange, and of the others nothing lost, doubled or changed
until the session ends. -/
structure Downstream (s : Bridge) : Prop where
  clean : ∀ b ∈ s.onCable, b.answer = false
  ordered : s.onCable <+: outside s.sent
  whole : s.phase ≠ .closed → s.onCable ++ s.phase.toWrite ++ outside s.queue = outside s.sent

structure Transparent (s : Bridge) : Prop where
  upstream : s.Upstream
  downstream : s.Downstream

/-- The server may still add to this answer: so far it is what the exchange waits for. -/
def awaits (l : List UInt8) : Bool :=
  l = [] ∨ l = [msgEscape] ∨ l = [msgEscape, statusGood]

/-- The turn is one in which the exchange gives up without a byte: its own byte cannot be sent, or
the socket breaks. -/
def givesUp (s : Bridge) (t : Turn) : Bool :=
  match s.phase with
  | .ask | .low | .high => !t.asks
  | .ack | .good | .confirm => t.broken
  | _ => false

/-- The server keeps its answer and the relay apart: it adds to the answer only while the exchange
goes on and waits for more, sends anything else only behind a complete answer or behind the
exchange, and no byte of the answer is still unread when the exchange gives up. -/
def Orderly (s : Bridge) : Event → Prop
  | .arrive b =>
      if b.answer then s.phase.asking = true ∧ awaits (answers s.sent) = true
      else s.phase.asking = true → awaits (answers s.sent) = false
  | .hangUp => True
  | .turn t => s.givesUp t = true → ∀ b ∈ s.queue, b.answer = false

end Bridge

end UnicornSuite.Nabu
