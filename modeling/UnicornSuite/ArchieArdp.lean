import Mathlib.Tactic.Common

/-! The ARDP transport of the Archie client (`archie_ardp.c`), from the first `send` of
`archie_query` to the body `parse_body` is called with. `malloc` tells of each allocation in turn
whether it succeeds. -/

namespace UnicornSuite.Archie

abbrev Bytes := List UInt8

/-- `ARCHIE_MAX_PKTS` -/
def archieMaxPkts : Nat := 1024
/-- `ARCHIE_RETRIES` -/
def archieRetries : Nat := 3
/-- `n <= 0`: an empty datagram is a `recv` of 0, and one longer than `buf` makes it fail. -/
def recvFails (d : Bytes) : Bool := d.length = 0 ∨ 2048 < d.length

def get16 (b : Bytes) : Nat := (b.getD 0 0).toNat <<< 8 ||| (b.getD 1 0).toNat

/-- A packet that passes the checks on its header. The connection id is not part of it: "every query
has its own socket". -/
structure Packet where
  seq : Nat
  tot : Nat
  payload : Bytes
  one_le_seq : 1 ≤ seq
  seq_le_tot : seq ≤ tot
  tot_le : tot ≤ archieMaxPkts
  deriving DecidableEq

/-- `seq`, `tot` and `off` of a datagram, by its first octet. -/
def header (d : Bytes) : Option (Nat × Nat × Nat) :=
  let o := d.headD 0
  if o = 1 ∨ o = 3 then some (1, 1, o.toNat)
  else if o = 7 then
    if d.length < 7 then none else some (get16 (d.drop 3), get16 (d.drop 5), 7)
  else none

def frame (d : Bytes) : Option Packet :=
  match header d with
  | none => none
  | some (seq, tot, off) =>
      if h : (1 ≤ tot ∧ tot ≤ archieMaxPkts) ∧ 1 ≤ seq ∧ seq ≤ tot then
        some ⟨seq, tot, d.drop off, h.2.1, h.2.2, h.1.2⟩
      else none

/-- `pkt_data` with `pkt_len`, `total` and `got`. `heard` is the packets taken in so far, which the
code does not keep. -/
structure Reassembly where
  slots : Nat → Option Bytes
  total : Nat
  got : Nat
  heard : List Packet

def Reassembly.start : Reassembly := ⟨fun _ => none, 0, 0, []⟩

section Query

variable (malloc : Nat → Bool)

/-- A packet that is numbered within its own total. The first one sets `total`; `none` is
`ARCHIE_ERR_NOMEM`. -/
def accept (p : Packet) (r : Reassembly) : Option Reassembly :=
  let r := { r with total := if r.total = 0 then p.tot else r.total, heard := r.heard ++ [p] }
  if r.slots (p.seq - 1) = none then
    if malloc r.got then
      some { r with slots := fun i => if i = p.seq - 1 then some p.payload else r.slots i,
                    got := r.got + 1 }
    else none
  else some r

/-- How the receive loop is left. -/
inductive Receive where
  | nomem
  | waiting (r : Reassembly)
  | complete (r : Reassembly)

/-- The inner loop, on the datagrams that come before `recv` times out. -/
def receive (r : Reassembly) : List Bytes → Receive
  | [] => .waiting r
  | d :: ds =>
      if recvFails d then .waiting r
      else
        match frame d with
        | none => receive r ds
        | some p =>
            match accept malloc p r with
            | none => .nomem
            | some r' => if 0 < r'.total ∧ r'.total ≤ r'.got then .complete r' else receive r' ds

/-- The attempts: of each, what `recv` delivers when the request went out. -/
def attemptLoop (r : Reassembly) : List (Option (List Bytes)) → Receive
  | [] => .waiting r
  | none :: attempts => attemptLoop r attempts
  | some ds :: attempts =>
      match receive malloc r ds with
      | .waiting r' => attemptLoop r' attempts
      | left => left

/-- The payloads in the order of their numbers, as far as they are there. -/
def assemble (r : Reassembly) : Bytes := (List.range r.total).flatMap fun i => (r.slots i).getD []

inductive Reply where
  | nomem
  | timeout
  | parse (heard : List Packet) (body : Bytes)
  deriving DecidableEq

/-- `archie_query`, to the call of `parse_body`. -/
def query (attempts : List (Option (List Bytes))) : Reply :=
  match attemptLoop malloc .start (attempts.take (archieRetries + 1)) with
  | .nomem => .nomem
  | .waiting _ => .timeout
  | .complete r => if malloc r.got then .parse r.heard (assemble r) else .nomem

end Query

end UnicornSuite.Archie
