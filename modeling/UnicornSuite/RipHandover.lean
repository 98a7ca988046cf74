import UnicornSuite.LibRun

/-! The payload stream of the RIPscrip tab (`ripscrip_module.c`), which goes to the parser of the scene or to
a Zmodem receiver (the ring of `zmodem_recv.c`). The chunks of the telnet layer and the message that a
receiver is done come through one queue. A byte of the stream carries its place. -/

namespace UnicornSuite.RipStream

structure Byte where
  pos : Nat
  val : UInt8
  deriving DecidableEq

/-- A message to the canvas. -/
inductive Message where
  | data (bytes : List Byte)
  | done

/-- The ring of a receiver, and whether its thread has ended. -/
structure Receiver where
  ring : List Byte := []
  ended : Bool := false

/-- The tab, with a record of the stream: what has arrived, and of this what the parser and the receivers
took and what was dropped or lost. -/
structure Tab where
  zmr : Option Receiver := none
  active : Bool := false
  zsigLen : Nat := 0
  queue : List Message := []
  arrived : List Byte := []
  consumed : List Byte := []
  read : List Byte := []
  dropped : List Byte := []
  lost : List Byte := []
  /-- The scene since it was last switched to, and of this what the scanner has looked at since it last began
  anew. -/
  scene : List UInt8 := []
  scanned : List UInt8 := []
  /-- The scene at each signature that the scanner found. -/
  found : List (List UInt8) := []

/-! ### The ring -/

abbrev ringBytes : Nat := 1024 * 1024

/-- A push waits for two seconds, fifty milliseconds at a time. -/
abbrev pushWaits : Nat := 40

/-- As many bytes as there is room for go into the ring. -/
def fill (ring data : List Byte) : List Byte × List Byte :=
  let room := ringBytes - ring.length
  (ring ++ data.take room, data.drop room)

/-- `zmodem_recv_push`, with the number of bytes that the receiver reads at each wait: the ring afterwards,
the bytes read and those dropped. -/
def zmodemRecvPush : List Nat → List Byte → List Byte → List Byte × List Byte × List Byte
  | [], ring, data => ((fill ring data).1, [], (fill ring data).2)
  | n :: waits, ring, data =>
      let filled := fill ring data
      if filled.2 = [] then (filled.1, [], [])
      else
        let out := zmodemRecvPush waits (filled.1.drop n) filled.2
        (out.1, filled.1.take n ++ out.2.1, out.2.2)

/-! ### The scanner -/

/-- ZPAD, ZDLE and the letter of a hex header. -/
abbrev star : UInt8 := 0x2A

abbrev zdle : UInt8 := 0x18

abbrev hexHeader : UInt8 := 0x42

def sig : List UInt8 := [star, star, zdle, hexHeader]

/-- `rip_scan_for_zmodem`: the offset behind the signature, where one ends, and what is held of the next. -/
def scanForZmodem (len : Nat) : List UInt8 → Option Nat × Nat
  | [] => (none, len)
  | b :: rest =>
      if sig[len]? = some b then
        if len + 1 = 4 then (some 1, 0)
        else
          let out := scanForZmodem (len + 1) rest
          (out.1.map (· + 1), out.2)
      else
        let out := scanForZmodem (if b = star then 1 else 0) rest
        (out.1.map (· + 1), out.2)

/-! ### The hand-over -/

/-- The receiver that is running, and what it still has. -/
def Tab.ring (t : Tab) : List Byte := (t.zmr.map Receiver.ring).getD []

/-- `rip_zmodem_begin` of a connected tab, where the receiver can be started or not. -/
def zmodemBegin (t : Tab) (starts : Bool) : Tab × Bool :=
  if t.active ∨ t.zmr.isSome ∨ ¬starts then (t, false)
  else ({ t with zmr := some {}, active := true, zsigLen := 0, scene := [], scanned := [] }, true)

/-- Bytes for the receiver. -/
def pushChunk (t : Tab) (data : List Byte) (waits : List Nat) : Tab :=
  match t.zmr with
  | none => t
  | some z =>
      let reads := (waits.take pushWaits).map fun n => if z.ended then 0 else n
      let out := zmodemRecvPush reads z.ring data
      { t with
        zmr := some { z with ring := out.1 }
        read := t.read ++ out.2.1
        dropped := t.dropped ++ out.2.2 }

/-- `rip_consume`: bytes for the parser. -/
def consume (t : Tab) (data : List Byte) : Tab :=
  { t with consumed := t.consumed ++ data, scene := t.scene ++ data.map Byte.val }

/-- `rip_on_data`. -/
def onData (t : Tab) (data : List Byte) (starts : Bool) (waits : List Nat) : Tab :=
  if t.active then pushChunk t data waits
  else
    match scanForZmodem t.zsigLen (data.map Byte.val) with
    | (none, len) =>
        { consume t data with zsigLen := len, scanned := t.scanned ++ data.map Byte.val }
    | (some at', len) =>
        let t := consume { t with zsigLen := len } (data.take at')
        let t := { t with found := t.found ++ [t.scene] }
        let out := zmodemBegin t starts
        if out.2 then pushChunk out.1 (data.drop at') waits
        else consume { t with scene := [], scanned := [] } (data.drop at')

/-- `rip_on_zmr_done`, where the unread bytes can be handed over or not. -/
def onZmrDone (t : Tab) (drained : Bool) : Tab :=
  match t.zmr with
  | none => { t with active := false }
  | some z =>
      let t := { t with zmr := none, active := false, zsigLen := 0, scene := [], scanned := [] }
      if drained then consume t z.ring else { t with lost := t.lost ++ z.ring }

/-- A chunk that has arrived, with the places of its bytes. -/
def chunk (n : Nat) (bytes : List UInt8) : List Byte := bytes.mapIdx fun i b => ⟨n + i, b⟩

inductive Event where
  /-- The telnet layer posts a chunk. -/
  | arrive (bytes : List UInt8)
  /-- The canvas takes the next message. -/
  | handle (starts drained : Bool) (waits : List Nat)
  /-- The thread of the receiver reads, and ends. -/
  | read (n : Nat)
  | finish
  /-- A region's download command. -/
  | download (starts : Bool)

def step (t : Tab) : Event → Tab
  | .arrive bytes =>
      let data := chunk t.arrived.length bytes
      { t with queue := t.queue ++ [.data data], arrived := t.arrived ++ data }
  | .handle starts drained waits =>
      match t.queue with
      | [] => t
      | .data data :: rest => onData { t with queue := rest } data starts waits
      | .done :: rest => onZmrDone { t with queue := rest } drained
  | .read n =>
      match t.zmr with
      | none => t
      | some z =>
          if z.ended then t
          else { t with zmr := some { z with ring := z.ring.drop n }, read := t.read ++ z.ring.take n }
  | .finish =>
      match t.zmr with
      | none => t
      | some z =>
          if z.ended then t
          else { t with zmr := some { z with ended := true }, queue := t.queue ++ [.done] }
  | .download starts => if t.active then t else (zmodemBegin t starts).1

end UnicornSuite.RipStream
