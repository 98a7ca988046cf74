import UnicornSuite.LibEscapes

/-! The Telnet client (`telnet_proto.c`): the IAC parser with the replies it sends, and the escaping of what
the user sends. The socket is the stream of the bytes handed to it. -/

namespace UnicornSuite.Telnet

abbrev iac : UInt8 := 0xFF

abbrev dont : UInt8 := 0xFE

abbrev do_ : UInt8 := 0xFD

abbrev wont : UInt8 := 0xFC

abbrev will : UInt8 := 0xFB

abbrev sb : UInt8 := 0xFA

abbrev se : UInt8 := 0xF0

abbrev optEcho : UInt8 := 1

abbrev optSga : UInt8 := 3

abbrev optTtype : UInt8 := 24

abbrev optNaws : UInt8 := 31

inductive IacState where
  | normal | iac | verb | sb | sbIac
  deriving DecidableEq

/-- `sizeof sb_buf`. -/
abbrev sbBufMax : Nat := 256

structure TelnetProto where
  /-- Whether `sock` is a socket, and the bytes sent through it. -/
  sock : Bool
  sent : List UInt8
  isState : IacState
  /-- The WILL, WONT, DO or DONT byte. -/
  verb : UInt8
  sbBuf : List UInt8
  serverEcho : Bool
  deriving DecidableEq

/-! ### Replies -/

/-- `send_all` on the socket, if there is one. -/
def sendAll (t : TelnetProto) (buf : List UInt8) : TelnetProto :=
  if t.sock then { t with sent := t.sent ++ buf } else t

def sendIac2 (t : TelnetProto) (b1 b2 : UInt8) : TelnetProto := sendAll t [iac, b1, b2]

/-- `"vt220"`. -/
def vt220 : List UInt8 := [0x76, 0x74, 0x32, 0x32, 0x30]

/-- Three calls of `send_all`. -/
def sendIacTtypeIsVt220 (t : TelnetProto) : TelnetProto :=
  sendAll (sendAll (sendAll t [iac, sb, optTtype, 0]) vt220) [iac, se]

def sendIacNaws80x24 (t : TelnetProto) : TelnetProto :=
  sendAll t [iac, sb, optNaws, 0, 80, 0, 24, iac, se]

/-! ### IAC parser -/

def setState (t : TelnetProto) (isState : IacState) : TelnetProto := { t with isState := isState }

def setServerEcho (t : TelnetProto) (on : Bool) : TelnetProto := { t with serverEcho := on }

/-- The option byte of a negotiation. -/
def onVerb (t : TelnetProto) (opt : UInt8) : TelnetProto :=
  if t.verb = will then
    if opt = optEcho then setServerEcho (sendIac2 t do_ optEcho) true
    else if opt = optSga then sendIac2 t do_ optSga
    else sendIac2 t dont opt
  else if t.verb = do_ then
    if opt = optTtype then sendIac2 t will optTtype
    else if opt = optNaws then sendIacNaws80x24 (sendIac2 t will optNaws)
    else if opt = optSga then sendIac2 t will optSga
    else sendIac2 t wont opt
  else if t.verb = wont then
    sendIac2 (if opt = optEcho then setServerEcho t false else t) dont opt
  else if t.verb = dont then sendIac2 t wont opt
  else t

/-- A byte of a subnegotiation; one that does not fit is dropped. -/
def storeSb (t : TelnetProto) (b : UInt8) : TelnetProto :=
  if t.sbBuf.length < sbBufMax then { t with sbBuf := t.sbBuf ++ [b] } else t

def clearSb (t : TelnetProto) : TelnetProto := { t with sbBuf := [] }

/-- The end of a subnegotiation: only TTYPE SEND is answered. -/
def dispatchSb (t : TelnetProto) : TelnetProto :=
  match t.sbBuf with
  | opt :: cmd :: _ => if opt = optTtype ∧ cmd = 1 then sendIacTtypeIsVt220 t else t
  | _ => t

/-- One round of the loop of `parse_chunk`: the state and the byte put into `out`, if any. -/
def parseByte (t : TelnetProto) (b : UInt8) : TelnetProto × List UInt8 :=
  match t.isState with
  | .normal => if b = iac then (setState t .iac, []) else (t, [b])
  | .iac =>
      if b = iac then (setState t .normal, [iac])
      else if b = will ∨ b = wont ∨ b = do_ ∨ b = dont then (setState { t with verb := b } .verb, [])
      else if b = sb then (setState (clearSb t) .sb, [])
      else (setState t .normal, [])
  | .verb => (setState (onVerb t b) .normal, [])
  | .sb => if b = iac then (setState t .sbIac, []) else (storeSb t b, [])
  | .sbIac =>
      if b = se then (setState (clearSb (dispatchSb t)) .normal, [])
      else if b = iac then (setState (storeSb t iac) .sb, [])
      else (setState (clearSb t) .normal, [])

/-- `parse_chunk`: what is left in `out`. -/
def parseChunk (t : TelnetProto) (chunk : List UInt8) : TelnetProto × List UInt8 :=
  Transducer.run parseByte t chunk

/-- The chunks that the worker thread reads, one after another. -/
def parseChunks (t : TelnetProto) (chunks : List (List UInt8)) : TelnetProto × List UInt8 :=
  Transducer.runChunks parseByte t chunks

/-! ### Sending -/

/-- The loop of `telnet_proto_send`, which doubles IAC. -/
def escape : List UInt8 → List UInt8
  | [] => []
  | b :: bs => if b = iac then iac :: iac :: escape bs else b :: escape bs

/-- `telnet_proto_send` with its return value; `alloc` and `sends` say whether `malloc` and `send_all`
succeed. -/
def telnetProtoSend (t : TelnetProto) (buf : List UInt8) (alloc sends : Bool) : TelnetProto × Int :=
  if buf = [] then (t, 1)
  else if ¬ alloc then (t, 2)
  else if ¬ t.sock then (t, 3)
  else if ¬ sends then (t, 4)
  else (sendAll t (escape buf), 0)

/-- The handle once its socket is connected. -/
def connected : TelnetProto where
  sock := true
  sent := []
  isState := .normal
  verb := 0
  sbBuf := []
  serverEcho := false

end UnicornSuite.Telnet

/-! The parser is transparent. A stream of telnet items, cut into chunks at any byte, gives the data of the
items and the replies of the option matrix at the head of `telnet_proto.c`, and what `telnet_proto_send`
escapes comes back as it was. -/

namespace UnicornSuite.Telnet

/-! ### Items -/

inductive Verb where
  | will | wont | do_ | dont
  deriving DecidableEq

def Verb.byte : Verb → UInt8
  | .will => Telnet.will
  | .wont => Telnet.wont
  | .do_ => Telnet.do_
  | .dont => Telnet.dont

/-- What a server sends, one piece at a time. -/
inductive Item where
  | data (b : UInt8) (ne_iac : b ≠ iac)
  | escaped
  | command (c : UInt8) (two_byte : c ∉ [iac, will, wont, do_, dont, sb])
  | negotiation (verb : Verb) (opt : UInt8)
  | subnegotiation (body : List UInt8)
  deriving DecidableEq

def Item.encode : Item → List UInt8
  | .data b _ => [b]
  | .escaped => [iac, iac]
  | .command c _ => [iac, c]
  | .negotiation verb opt => [iac, verb.byte, opt]
  | .subnegotiation body => [iac, sb] ++ escape body ++ [iac, se]

/-- The user data of an item. -/
def Item.userData : Item → List UInt8
  | .data b _ => [b]
  | .escaped => [iac]
  | _ => []

/-- The rows of the matrix for the four verbs. -/
def Verb.replies : Verb → UInt8 → List UInt8
  | .will, opt => if opt = optEcho ∨ opt = optSga then [iac, Telnet.do_, opt] else [iac, Telnet.dont, opt]
  | .do_, opt =>
      if opt = optTtype ∨ opt = optSga then [iac, Telnet.will, opt]
      else if opt = optNaws then
        [iac, Telnet.will, opt] ++ [iac, sb, optNaws, 0, 80, 0, 24, iac, se]
      else [iac, Telnet.wont, opt]
  | .wont, opt => [iac, Telnet.dont, opt]
  | .dont, opt => [iac, Telnet.wont, opt]

/-- The replies that the matrix prescribes: `TTYPE SEND` is the subnegotiation that begins with these two
bytes. -/
def Item.replies : Item → List UInt8
  | .negotiation verb opt => verb.replies opt
  | .subnegotiation body =>
      if body.take 2 = [optTtype, 1] then [iac, sb, optTtype, 0] ++ vt220 ++ [iac, se] else []
  | _ => []

/-! ### One item -/

/-- Between two items, with a socket to answer through. -/
structure Ready (t : TelnetProto) : Prop where
  sock : t.sock = true
  isState : t.isState = .normal

/-- The handle after an item. -/
def after (t : TelnetProto) : Item → TelnetProto
  | .negotiation verb opt => setState (onVerb (setState { t with verb := verb.byte } .verb) opt) .normal
  | .subnegotiation body =>
      setState (clearSb (dispatchSb (setState { t with sbBuf := body.take sbBufMax } .sbIac))) .normal
  | _ => t

theorem sendAll_eq {t : TelnetProto} (h : t.sock = true) (buf : List UInt8) :
    sendAll t buf = { t with sent := t.sent ++ buf } := if_pos h

theorem storeSb_eq (t : TelnetProto) (b : UInt8) (h : t.sbBuf.length ≤ sbBufMax) :
    storeSb t b = { t with sbBuf := (t.sbBuf ++ [b]).take sbBufMax } := by
  rw [storeSb]
  split
  · next hroom =>
      rw [List.take_of_length_le (by simp only [List.length_append, List.length_singleton]; omega)]
  · next hfull =>
      rw [List.take_append_of_le_length (by omega), List.take_of_length_le h]

theorem storeSb_setState (t : TelnetProto) (s : IacState) (b : UInt8) :
    storeSb (setState t s) b = setState (storeSb t b) s := by
  by_cases hroom : t.sbBuf.length < sbBufMax
  · rw [storeSb, storeSb, if_pos hroom, if_pos (show (setState t s).sbBuf.length < _ from hroom)]
    rfl
  · rw [storeSb, storeSb, if_neg hroom, if_neg (show ¬ (setState t s).sbBuf.length < _ from hroom)]

theorem take_take_append {α : Type*} (n : Nat) (l m : List α) :
    (l.take n ++ m).take n = (l ++ m).take n := by
  rw [List.take_append, List.take_append, List.take_take, Nat.min_self, List.length_take]
  congr 2
  omega

/-- The body of a subnegotiation goes into the buffer, up to its size. -/
theorem run_escape_sb (body : List UInt8) {t : TelnetProto} (hstate : t.isState = .sb)
    (hlen : t.sbBuf.length ≤ sbBufMax) :
    Transducer.run parseByte t (escape body) =
      ({ t with sbBuf := (t.sbBuf ++ body).take sbBufMax }, []) := by
  induction body generalizing t with
  | nil =>
      rw [List.append_nil, List.take_of_length_le hlen]
      rfl
  | cons b body ih =>
      have hstore := storeSb_eq t b hlen
      have hrest := ih (t := storeSb t b) (by rw [hstore]; exact hstate)
        (by rw [hstore]; exact List.length_take_le ..)
      have hfinal : { storeSb t b with sbBuf := ((storeSb t b).sbBuf ++ body).take sbBufMax } =
          { t with sbBuf := (t.sbBuf ++ b :: body).take sbBufMax } := by
        rw [hstore]
        simp only [take_take_append, List.append_assoc, List.singleton_append]
      rw [hfinal] at hrest
      by_cases hb : b = iac
      · have hfirst : parseByte t iac = (setState t .sbIac, []) := by
          rw [parseByte, hstate]
          rfl
        have hsecond : parseByte (setState t .sbIac) iac = (storeSb t b, []) := by
          change (setState (storeSb (setState t .sbIac) iac) .sb, _) = _
          rw [storeSb_setState, ← hb, hstore, ← hstate]
          rfl
        rw [escape, if_pos hb, Transducer.run_cons, hfirst, Transducer.run_cons, hsecond, hrest]
        rfl
      · have hfirst : parseByte t b = (storeSb t b, []) := by
          rw [parseByte, hstate]
          exact if_neg hb
        rw [escape, if_neg hb, Transducer.run_cons, hfirst, hrest]
        rfl

theorem parseByte_iac {t : TelnetProto} (h : Ready t) :
    parseByte t iac = (setState t .iac, []) := by
  rw [parseByte, h.isState]
  rfl

theorem setState_normal {t : TelnetProto} (h : Ready t) : setState t .normal = t := by
  rw [setState, ← h.isState]

theorem run_negotiation {t : TelnetProto} (h : Ready t) (verb : Verb) (opt : UInt8) :
    Transducer.run parseByte t [iac, verb.byte, opt] =
      (setState (onVerb (setState { t with verb := verb.byte } .verb) opt) .normal, []) := by
  have hverb : parseByte (setState t .iac) verb.byte =
      (setState { t with verb := verb.byte } .verb, []) := by
    cases verb <;> rfl
  rw [Transducer.run_cons, parseByte_iac h, Transducer.run_cons, hverb]
  rfl

theorem run_subnegotiation {t : TelnetProto} (h : Ready t) (body : List UInt8) :
    Transducer.run parseByte t ([iac, sb] ++ escape body ++ [iac, se]) =
      (setState (clearSb (dispatchSb (setState { t with sbBuf := body.take sbBufMax } .sbIac)))
        .normal, []) := by
  have hbegin : Transducer.run parseByte t [iac, sb] = (setState (clearSb t) .sb, []) := by
    rw [Transducer.run_cons, parseByte_iac h]
    rfl
  have hbody := run_escape_sb body (t := setState (clearSb t) .sb) rfl (Nat.zero_le _)
  have hend : ∀ u : TelnetProto, u.isState = .sb → Transducer.run parseByte u [iac, se] =
      (setState (clearSb (dispatchSb (setState u .sbIac))) .normal, []) := by
    intro u hu
    have hiac : parseByte u iac = (setState u .sbIac, []) := by
      rw [parseByte, hu]
      rfl
    rw [Transducer.run_cons, hiac]
    rfl
  rw [Transducer.run_append, Transducer.run_append, hbegin, hbody, hend _ rfl]
  rfl

theorem run_item {t : TelnetProto} (h : Ready t) (item : Item) :
    Transducer.run parseByte t item.encode = (after t item, item.userData) := by
  cases item with
  | data b ne_iac =>
      have hbyte : parseByte t b = (t, [b]) := by
        rw [parseByte, h.isState]
        exact if_neg ne_iac
      rw [Item.encode, Transducer.run_cons, hbyte]
      rfl
  | escaped =>
      have hsecond : parseByte (setState t .iac) iac = (setState t .normal, [iac]) := rfl
      rw [Item.encode, Transducer.run_cons, parseByte_iac h, Transducer.run_cons, hsecond,
        setState_normal h]
      rfl
  | command c two_byte =>
      have hsecond : parseByte (setState t .iac) c = (setState t .normal, []) := by
        simp only [List.mem_cons, List.not_mem_nil, not_or, not_false_eq_true, and_true] at two_byte
        obtain ⟨hiac, hwill, hwont, hdo, hdont, hsb⟩ := two_byte
        change (if c = iac then _ else _) = _
        rw [if_neg hiac, if_neg (by simp only [hwill, hwont, hdo, hdont, or_self, not_false_eq_true]),
          if_neg hsb]
        rfl
      rw [Item.encode, Transducer.run_cons, parseByte_iac h, Transducer.run_cons, hsecond,
        setState_normal h]
      rfl
  | negotiation verb opt => exact run_negotiation h verb opt
  | subnegotiation body => exact run_subnegotiation h body

/-! ### The replies -/

theorem sendIac2_eq {t : TelnetProto} (h : t.sock = true) (b1 b2 : UInt8) :
    sendIac2 t b1 b2 = { t with sent := t.sent ++ [iac, b1, b2] } := sendAll_eq h _

theorem sendIacTtypeIsVt220_eq {t : TelnetProto} (h : t.sock = true) :
    sendIacTtypeIsVt220 t =
      { t with sent := t.sent ++ ([iac, sb, optTtype, 0] ++ vt220 ++ [iac, se]) } := by
  simp only [sendIacTtypeIsVt220, sendAll, h, if_true, List.append_assoc]

/-- What an operation adds to the stream of an open socket. -/
def Sends (t t' : TelnetProto) (reply : List UInt8) : Prop :=
  t'.sock = true ∧ t'.sent = t.sent ++ reply

theorem onVerb_sends {t : TelnetProto} (h : t.sock = true) (verb : Verb) (opt : UInt8)
    (hverb : t.verb = verb.byte) : Sends t (onVerb t opt) (verb.replies opt) := by
  cases verb with
  | will =>
      have hwill : t.verb = Telnet.will := hverb
      rw [onVerb, if_pos hwill, Verb.replies, sendIac2_eq h, sendIac2_eq h, sendIac2_eq h]
      by_cases hecho : opt = optEcho
      · rw [if_pos hecho, if_pos (Or.inl hecho), hecho]
        exact ⟨h, rfl⟩
      · by_cases hsga : opt = optSga
        · rw [if_neg hecho, if_pos hsga, if_pos (Or.inr hsga), hsga]
          exact ⟨h, rfl⟩
        · rw [if_neg hecho, if_neg hsga, if_neg (by rintro (h | h) <;> contradiction)]
          exact ⟨h, rfl⟩
  | do_ =>
      have hdo : t.verb = Telnet.do_ := hverb
      rw [onVerb, if_neg (by rw [hdo]; decide), if_pos hdo, Verb.replies, sendIac2_eq h,
        sendIac2_eq h, sendIac2_eq h, sendIac2_eq h]
      by_cases httype : opt = optTtype
      · rw [if_pos httype, if_pos (Or.inl httype), httype]
        exact ⟨h, rfl⟩
      · by_cases hsga : opt = optSga
        · rw [if_neg httype, if_neg (by rw [hsga]; decide), if_pos hsga, if_pos (Or.inr hsga), hsga]
          exact ⟨h, rfl⟩
        · rw [if_neg httype, if_neg (not_or.mpr ⟨httype, hsga⟩), if_neg hsga]
          by_cases hnaws : opt = optNaws
          · rw [if_pos hnaws, if_pos hnaws, sendIacNaws80x24, sendAll_eq (by exact h), hnaws]
            exact ⟨h, List.append_assoc ..⟩
          · rw [if_neg hnaws, if_neg hnaws]
            exact ⟨h, rfl⟩
  | wont =>
      have hwont : t.verb = Telnet.wont := hverb
      rw [onVerb, if_neg (by rw [hwont]; decide), if_neg (by rw [hwont]; decide), if_pos hwont,
        Verb.replies, sendIac2_eq (by split <;> exact h)]
      split <;> exact ⟨h, rfl⟩
  | dont =>
      have hdont : t.verb = Telnet.dont := hverb
      rw [onVerb, if_neg (by rw [hdont]; decide), if_neg (by rw [hdont]; decide),
        if_neg (by rw [hdont]; decide), if_pos hdont, Verb.replies, sendIac2_eq h]
      exact ⟨h, rfl⟩

/-- Only the first two bytes of the body count, so it does not matter that the buffer is bounded. -/
theorem dispatchSb_sends {t : TelnetProto} (h : t.sock = true) (body : List UInt8)
    (hbuf : t.sbBuf = body.take sbBufMax) :
    Sends t (dispatchSb t) (Item.subnegotiation body).replies := by
  have hempty : Sends t t [] := ⟨h, (List.append_nil _).symm⟩
  rw [dispatchSb, hbuf]
  match body with
  | [] => exact hempty
  | [_] =>
      rw [Item.replies, if_neg (by simp)]
      exact hempty
  | opt :: cmd :: _ =>
      change Sends t (if opt = optTtype ∧ cmd = 1 then _ else t)
        (if [opt, cmd] = [optTtype, 1] then _ else [])
      by_cases hsend : opt = optTtype ∧ cmd = 1
      · rw [if_pos hsend, if_pos (by rw [hsend.1, hsend.2]), sendIacTtypeIsVt220_eq h]
        exact ⟨h, rfl⟩
      · rw [if_neg hsend, if_neg (by simpa using hsend)]
        exact hempty

theorem after_sends {t : TelnetProto} (h : Ready t) (item : Item) :
    Sends t (after t item) item.replies := by
  cases item with
  | negotiation verb opt =>
      exact onVerb_sends (t := setState { t with verb := verb.byte } .verb) h.sock verb opt rfl
  | subnegotiation body =>
      exact dispatchSb_sends (t := setState { t with sbBuf := body.take sbBufMax } .sbIac) h.sock body
        rfl
  | data _ _ => exact ⟨h.sock, (List.append_nil _).symm⟩
  | escaped => exact ⟨h.sock, (List.append_nil _).symm⟩
  | command _ _ => exact ⟨h.sock, (List.append_nil _).symm⟩

theorem after_ready {t : TelnetProto} (h : Ready t) (item : Item) : Ready (after t item) where
  sock := (after_sends h item).1
  isState := by
    cases item with
    | negotiation verb opt => rfl
    | subnegotiation body => rfl
    | data _ _ => exact h.isState
    | escaped => exact h.isState
    | command _ _ => exact h.isState

theorem reads_item : Transducer.Reads parseByte Ready Item.encode Item.userData after where
  run _ item h := run_item h item
  ready _ item h := after_ready h item

theorem foldl_after_sent {t : TelnetProto} (h : Ready t) (items : List Item) :
    (items.foldl after t).sent = t.sent ++ items.flatMap Item.replies := by
  induction items generalizing t with
  | nil => exact (List.append_nil _).symm
  | cons item items ih =>
      rw [List.foldl_cons, ih (after_ready h item), (after_sends h item).2, List.flatMap_cons,
        List.append_assoc]

/-! ### The sender -/

/-- An escaped byte, as the receiver sees it. -/
def Item.ofByte (b : UInt8) : Item := if h : b = iac then .escaped else .data b h

theorem escape_eq_flatMap (buf : List UInt8) :
    escape buf = (buf.map Item.ofByte).flatMap Item.encode := by
  induction buf with
  | nil => rfl
  | cons b buf ih =>
      rw [escape, List.map_cons, List.flatMap_cons, ← ih]
      by_cases hb : b = iac
      · rw [if_pos hb, Item.ofByte, dif_pos hb]
        rfl
      · rw [if_neg hb, Item.ofByte, dif_neg hb]
        rfl

/-- Data takes the handle nowhere and comes out as it is. -/
theorem ofByte_spec (t : TelnetProto) (b : UInt8) :
    after t (Item.ofByte b) = t ∧ (Item.ofByte b).userData = [b] := by
  by_cases hb : b = iac
  · rw [Item.ofByte, dif_pos hb, hb]
    exact ⟨rfl, rfl⟩
  · rw [Item.ofByte, dif_neg hb]
    exact ⟨rfl, rfl⟩

theorem run_escape {t : TelnetProto} (h : Ready t) (buf : List UInt8) :
    Transducer.run parseByte t (escape buf) = (t, buf) := by
  have hstay : (buf.map Item.ofByte).foldl after t = t := by
    induction buf with
    | nil => rfl
    | cons b buf ih => rw [List.map_cons, List.foldl_cons, (ofByte_spec t b).1, ih]
  have hdata : (buf.map Item.ofByte).flatMap Item.userData = buf := by
    rw [List.flatMap_map]
    calc buf.flatMap (fun b => (Item.ofByte b).userData)
        = buf.flatMap (fun b => [b]) := by
          congr 1
          funext b
          exact (ofByte_spec t b).2
      _ = buf := List.flatMap_singleton' buf
  rw [escape_eq_flatMap, reads_item.run_encode h, hstay, hdata]

/-- The bytes that a call of `telnet_proto_send` puts on the wire. -/
def wireBytes (s : TelnetProto) (buf : List UInt8) : List UInt8 :=
  (telnetProtoSend s buf true true).1.sent.drop s.sent.length

theorem wireBytes_eq {s : TelnetProto} (h : s.sock = true) (buf : List UInt8) :
    wireBytes s buf = escape buf := by
  rw [wireBytes, telnetProtoSend]
  by_cases hempty : buf = []
  · rw [if_pos hempty, hempty]
    exact List.drop_length
  · rw [if_neg hempty, if_neg (by simp), if_neg (by simp [h]), if_neg (by simp), sendAll_eq h]
    exact List.drop_left

/-! ### Streams -/

/-- Whatever the items and wherever the stream is cut: the data of the items comes out, the replies of the
matrix are sent, and the next item may follow; and what another handle sends comes out as it was. -/
theorem stream_transparent (t : TelnetProto) (h : Ready t) (chunks : List (List UInt8)) :
    (∀ items : List Item, chunks.flatten = items.flatMap Item.encode →
      (parseChunks t chunks).2 = items.flatMap Item.userData ∧
      (parseChunks t chunks).1.sent = t.sent ++ items.flatMap Item.replies ∧
      Ready (parseChunks t chunks).1) ∧
    ∀ (s : TelnetProto) (buf : List UInt8), s.sock = true → chunks.flatten = wireBytes s buf →
      parseChunks t chunks = (t, buf) := by
  constructor
  · intro items hitems
    have hrun : parseChunks t chunks = (items.foldl after t, items.flatMap Item.userData) := by
      rw [parseChunks, Transducer.runChunks_eq, hitems, reads_item.run_encode h]
    rw [hrun]
    refine ⟨rfl, foldl_after_sent h items, ?_⟩
    clear hrun hitems
    induction items generalizing t with
    | nil => exact h
    | cons item items ih => exact ih _ (after_ready h item)
  · intro s buf hs hwire
    rw [parseChunks, Transducer.runChunks_eq, hwire, wireBytes_eq hs, run_escape h]

/-- A negotiation cut in its middle, an escape cut between its two bytes, and a `TTYPE SEND`. -/
theorem stream_transparent_cut :
    (parseChunks connected [[0x41, 0xFF, 0xFD], [24, 0xFF], [0xFF, 0xFF, 0xFA, 24, 1, 0xFF], [0xF0]]).2 =
        [0x41, 0xFF] ∧
      (parseChunks connected [[0xFF], [0xFF, 0x42]]) = (connected, [0xFF, 0x42]) :=
  ⟨((stream_transparent connected ⟨rfl, rfl⟩ _).1
      [.data 0x41 (by decide), .negotiation .do_ 24, .escaped, .subnegotiation [24, 1]] (by decide)).1,
    (stream_transparent connected ⟨rfl, rfl⟩ _).2 connected [0xFF, 0x42] rfl (by decide)⟩

end UnicornSuite.Telnet
