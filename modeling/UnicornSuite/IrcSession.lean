import Mathlib.Data.List.Infix
import UnicornSuite.IrcLines

/-! The IRC client behind its line buffer (`irc_client.c`): `handle_line` with the registration, the
capability handshake, the banner and the messages it forwards, and a session. What is sent and posted is
a list, in order. -/

namespace UnicornSuite.Irc

open CText

def space : UInt8 := 0x20
def colon : UInt8 := 0x3A
def letterX : UInt8 := 0x58

/-- What `_snprintf` leaves in a buffer of `n` bytes that is terminated behind it. -/
def printed (n : Nat) (s : CString) : CString := s.take (n - 1)

/-! ### Parsing -/

def skipSpaces (s : CString) : CString := s.dropWhile (· = space)

/-- `get_tag` on the segments of the blob. -/
def tagOf (key : CString) : List CString → CString
  | [] => []
  | seg :: segs =>
      if (0x3D : UInt8) ∈ seg then
        if seg.takeWhile (· ≠ 0x3D) = key then (seg.dropWhile (· ≠ 0x3D)).tail else tagOf key segs
      else if seg = key then []
      else tagOf key segs

/-- `get_tag` -/
def getTag (blob key : CString) (cap : Nat) : CString := printed cap (tagOf key (blob.splitOn 0x3B))

/-- The tags in front of a line and the line behind them; none if nothing follows them. -/
def cutTags (line : CString) : Option (CString × CString) :=
  if line.head? = some 0x40 then
    if space ∈ line.tail then
      some (printed ircLineMax (line.tail.takeWhile (· ≠ space)), skipSpaces (line.tail.dropWhile (· ≠ space)))
    else none
  else some ([], line)

/-- The nick of the sender and the line behind it. -/
def cutSource (p : CString) : Option (CString × CString) :=
  if p.head? = some colon then
    if space ∈ p.tail then
      some (printed 64 ((printed 256 (p.tail.takeWhile (· ≠ space))).takeWhile fun c => c ≠ 0x21 ∧ c ≠ 0x40),
        skipSpaces (p.tail.dropWhile (· ≠ space)))
    else none
  else some ([], p)

/-- A line as `handle_line` takes it apart. -/
structure Parsed where
  time : CString
  msgid : CString
  nick : CString
  cmd : CString
  rest : CString

def parseLine (line : CString) : Option Parsed :=
  match cutTags line with
  | none => none
  | some (tags, p) =>
      match cutSource p with
      | none => none
      | some (nick, p) =>
          some
            { time := getTag tags (ascii "time") 64
              msgid := getTag tags (ascii "msgid") 64
              nick := nick
              cmd := p.takeWhile (· ≠ space)
              rest := skipSpaces (p.dropWhile (· ≠ space)) }

/-! ### What the worker does -/

inductive MsgKind
  | privmsg
  | notice
deriving DecidableEq

/-- `IrcMessage` of a PRIVMSG or a NOTICE; `timeTag` is what its time is taken from. -/
structure Message where
  kind : MsgKind
  nick : CString
  target : CString
  msgid : CString
  text : CString
  timeTag : CString
deriving DecidableEq

/-- What is sent and what is posted to the window; `wait` is a backoff. -/
inductive Out
  | send (line : CString)
  | message (m : Message)
  | system (text : CString)
  | failed (text : CString)
  | registered
  | wait (ms : Nat)
deriving DecidableEq

/-- `send_line` -/
def sendLine (line : CString) : Out := .send (printed ircLineMax (line ++ [cr, lf]))

/-- `emit_line` of a line of the banner. -/
def emitSystem (text : CString) : Out := .system (printed 1024 text)

/-- What the caller of `irc_client_open` gives, and the values of `rand`. -/
structure Config where
  host : CString
  port : Nat
  channel : CString
  nickPattern : CString
  rand : Nat → Nat

/-- The flags of the client and of its session; `drawn` counts the calls of `rand`. -/
structure State where
  everRegistered : Bool
  bannerPending : Bool
  drawn : Nat
  nick : CString
  capReqSent : Bool
  capEndSent : Bool
  reachedReg : Bool
  banner : Bool

def digit (cfg : Config) (i : Nat) : UInt8 := UInt8.ofNat (0x30 + cfg.rand i % 10)

/-- Every `X` of a pattern becomes a digit. -/
def fillDigits (cfg : Config) : Nat → CString → CString × Nat
  | n, [] => ([], n)
  | n, c :: p =>
      if c = letterX then (digit cfg n :: (fillDigits cfg (n + 1) p).1, (fillDigits cfg (n + 1) p).2)
      else (c :: (fillDigits cfg n p).1, (fillDigits cfg n p).2)

/-- `gen_nick` into an array of 64: the nick, and how often `rand` has been called then. -/
def genNick (cfg : Config) (n : Nat) : CString × Nat :=
  let r := fillDigits cfg n (printed 64 cfg.nickPattern)
  if letterX ∈ printed 64 cfg.nickPattern then r
  else
    let more := min 4 (63 - r.1.length)
    (r.1 ++ (List.range more).map fun i => digit cfg (r.2 + i), r.2 + more)

/-! ### One line -/

/-- `strstr` finds the word. -/
abbrev Has (word : String) (s : CString) : Prop := ascii word <:+: s

/-- `is_numeric_cmd` -/
def isNumericCmd (cmd : CString) : Bool := cmd.length = 3 ∧ cmd.all isDigit

/-- `is_join_error` -/
def isJoinError (cmd : CString) : Bool :=
  ["403", "405", "437", "471", "472", "473", "474", "475", "476", "477", "479"].any (cmd = ascii ·)

/-- The text of a numeric, behind the nick and the colon. -/
def numericText (rest : CString) : CString :=
  let p := skipSpaces (rest.dropWhile (· ≠ space))
  if p.head? = some colon then p.tail else p

/-- `forward_numeric` -/
def forwardNumeric (rest : CString) : Out := emitSystem (numericText rest)

def pong (rest : CString) : Out :=
  sendLine (printed 600 (ascii "PONG " ++ if rest = [] then ascii ":" else rest))

def capReq : Out := sendLine (ascii "CAP REQ :server-time batch message-tags")

def capEnd : Out := sendLine (ascii "CAP END")

def join (cfg : Config) : Out := sendLine (printed 128 (ascii "JOIN " ++ cfg.channel))

def nickLine (nick : CString) : Out := sendLine (printed 128 (ascii "NICK " ++ nick))

/-- The last line of a list of capabilities. -/
def FinalLs (rest : CString) : Prop := Has " LS " rest ∧ ¬Has " LS * " rest

/-- The answer to a request. -/
def CapAnswer (rest : CString) : Prop := Has " ACK " rest ∨ Has " NAK " rest

instance (rest : CString) : Decidable (FinalLs rest) := inferInstanceAs (Decidable (_ ∧ _))

instance (rest : CString) : Decidable (CapAnswer rest) := inferInstanceAs (Decidable (_ ∨ _))

/-- The banner line of a CAP. -/
def capBanner (rest : CString) : List Out :=
  let caps := if colon ∈ rest then (rest.dropWhile (· ≠ colon)).tail else rest
  if CapAnswer rest then [emitSystem (printed 1200 (ascii "Capabilities acknowledged: " ++ caps))]
  else if Has " LS " rest then [emitSystem (printed 1200 (ascii "Capabilities supported: " ++ caps))]
  else []

/-- The request and the end of the negotiation. -/
def capReply (s : State) (rest : CString) : State × List Out :=
  if s.capReqSent = false ∧ FinalLs rest then ({ s with capReqSent := true }, [capReq])
  else if s.capReqSent ∧ s.capEndSent = false ∧ CapAnswer rest then ({ s with capEndSent := true }, [capEnd])
  else (s, [])

def handleCap (s : State) (rest : CString) : State × List Out :=
  ((capReply s rest).1, (capReply s rest).2 ++ if s.banner then capBanner rest else [])

/-- The message of a PRIVMSG or NOTICE with a target. -/
def messageOf (kind : MsgKind) (l : Parsed) : List Out :=
  if space ∈ l.rest then
    let text := skipSpaces (l.rest.dropWhile (· ≠ space)).tail
    [.message
      { kind := kind
        nick := l.nick
        target := printed 64 (l.rest.takeWhile (· ≠ space))
        msgid := l.msgid
        text := printed 1024 (if text.head? = some colon then text.tail else text)
        timeTag := l.time }]
  else []

/-- A numeric other than 001 and 433. -/
def handleNumeric (s : State) (l : Parsed) : State × List Out :=
  if isJoinError l.cmd then (s, [forwardNumeric l.rest])
  else if l.cmd = ascii "353" ∨ l.cmd = ascii "366" then (s, [])
  else if s.banner then
    if l.cmd = ascii "376" ∨ l.cmd = ascii "422" then
      ({ s with banner := false, bannerPending := false }, [forwardNumeric l.rest])
    else (s, [forwardNumeric l.rest])
  else (s, [])

/-- `handle_line` behind the parsing. -/
def handleParsed (cfg : Config) (s : State) (l : Parsed) : State × List Out :=
  if l.cmd = ascii "PING" then (s, [pong l.rest])
  else if l.cmd = ascii "CAP" then handleCap s l.rest
  else if l.cmd = ascii "001" then
    ({ s with reachedReg := true, everRegistered := true },
      [.registered, join cfg] ++ if s.banner then [forwardNumeric l.rest] else [])
  else if l.cmd = ascii "433" then
    ({ s with nick := (genNick cfg s.drawn).1, drawn := (genNick cfg s.drawn).2 },
      [nickLine (genNick cfg s.drawn).1])
  else if isNumericCmd l.cmd then handleNumeric s l
  else if l.cmd = ascii "PRIVMSG" then (s, messageOf .privmsg l)
  else if l.cmd = ascii "NOTICE" then (s, messageOf .notice l)
  else (s, [])

/-- `handle_line` -/
def handleLine (cfg : Config) (s : State) (line : CString) : State × List Out :=
  match parseLine line with
  | none => (s, [])
  | some l => handleParsed cfg s l

/-! ### A session -/

/-- What a session starts from. -/
def beginSession (cfg : Config) (s : State) : State :=
  { s with
    nick := (genNick cfg s.drawn).1
    drawn := (genNick cfg s.drawn).2
    capReqSent := false
    capEndSent := false
    reachedReg := false
    banner := s.bannerPending }

def greeting (nick : CString) : List Out :=
  [sendLine (ascii "CAP LS 302"), nickLine nick,
    sendLine (printed 192 (ascii "USER " ++ nick ++ ascii " 0 * :MGT Unicorn Viewer"))]

/-- `run_session`, by what each `recv` gives. -/
def runIrc (cfg : Config) (s : State) (recvs : List Bytes) : State × List Out :=
  let s := beginSession cfg s
  let r := Transducer.run (handleLine cfg) s (runSession recvs)
  (r.1, greeting s.nick ++ r.2)

/-! ### By command -/

section Commands

variable (cfg : Config) (s : State) {l : Parsed}

theorem cmd_cases (cmd : CString) :
    cmd = ascii "PING" ∨ cmd = ascii "CAP" ∨ cmd = ascii "001" ∨ cmd = ascii "433" ∨
      (isNumericCmd cmd = true ∧ cmd ≠ ascii "001" ∧ cmd ≠ ascii "433") ∨ cmd = ascii "PRIVMSG" ∨
      cmd = ascii "NOTICE" ∨
      (isNumericCmd cmd = false ∧ cmd ∉ ["PING", "CAP", "PRIVMSG", "NOTICE"].map ascii) := by
  by_cases hnum : isNumericCmd cmd = true
  · tauto
  · rw [Bool.not_eq_true] at hnum
    have hlist : cmd ∉ ["PING", "CAP", "PRIVMSG", "NOTICE"].map ascii ↔
        cmd ≠ ascii "PING" ∧ cmd ≠ ascii "CAP" ∧ cmd ≠ ascii "PRIVMSG" ∧ cmd ≠ ascii "NOTICE" := by
      simp
    tauto

theorem ne_of_numeric {cmd : CString} {b : Bool} (h : isNumericCmd cmd = b) {w : String}
    (hw : isNumericCmd (ascii w) = !b) : cmd ≠ ascii w := by
  rintro rfl
  rw [h] at hw
  cases b <;> cases hw

theorem handleParsed_ping (h : l.cmd = ascii "PING") : handleParsed cfg s l = (s, [pong l.rest]) := if_pos h

theorem handleParsed_cap (h : l.cmd = ascii "CAP") : handleParsed cfg s l = handleCap s l.rest := by
  rw [handleParsed, h]
  rfl

theorem handleParsed_welcome (h : l.cmd = ascii "001") :
    handleParsed cfg s l =
      ({ s with reachedReg := true, everRegistered := true },
        [.registered, join cfg] ++ if s.banner then [forwardNumeric l.rest] else []) := by
  rw [handleParsed, h]
  rfl

theorem handleParsed_nick (h : l.cmd = ascii "433") :
    handleParsed cfg s l =
      ({ s with nick := (genNick cfg s.drawn).1, drawn := (genNick cfg s.drawn).2 },
        [nickLine (genNick cfg s.drawn).1]) := by
  rw [handleParsed, h]
  rfl

theorem handleParsed_numeric (hnum : isNumericCmd l.cmd = true) (h001 : l.cmd ≠ ascii "001")
    (h433 : l.cmd ≠ ascii "433") : handleParsed cfg s l = handleNumeric s l := by
  rw [handleParsed, if_neg (ne_of_numeric hnum rfl), if_neg (ne_of_numeric hnum rfl), if_neg h001, if_neg h433,
    if_pos hnum]

theorem handleParsed_privmsg (h : l.cmd = ascii "PRIVMSG") :
    handleParsed cfg s l = (s, messageOf .privmsg l) := by
  rw [handleParsed, h]
  rfl

theorem handleParsed_notice (h : l.cmd = ascii "NOTICE") :
    handleParsed cfg s l = (s, messageOf .notice l) := by
  rw [handleParsed, h]
  rfl

theorem ne_of_notMem {cmd w : CString} {ws : List CString} (h : cmd ∉ ws) (hw : w ∈ ws) : cmd ≠ w := by
  rintro rfl
  exact h hw

theorem handleParsed_other (hnum : isNumericCmd l.cmd = false)
    (h : l.cmd ∉ ["PING", "CAP", "PRIVMSG", "NOTICE"].map ascii) : handleParsed cfg s l = (s, []) := by
  rw [handleParsed, if_neg (ne_of_notMem h (by decide)), if_neg (ne_of_notMem h (by decide)),
    if_neg (ne_of_numeric hnum rfl), if_neg (ne_of_numeric hnum rfl), hnum, if_neg Bool.false_ne_true,
    if_neg (ne_of_notMem h (by decide)), if_neg (ne_of_notMem h (by decide))]

end Commands

/-! ### Kinds of output -/

/-- The command of a line that is sent. -/
def Out.hasWord (word : String) : Out → Bool
  | .send line => line.takeWhile (· ≠ space) = ascii word
  | _ => false

def Out.isMessage : Out → Bool
  | .message _ => true
  | _ => false

def Out.isSystem : Out → Bool
  | .system _ => true
  | _ => false

/-- What a line of the command is answered with. -/
def answering (cmd : String) (reply : Parsed → List Out) (line : CString) : List Out :=
  (parseLine line).elim [] fun l => if l.cmd = ascii cmd then reply l else []

def pongFor : CString → List Out := answering "PING" fun l => [pong l.rest]

def joinFor (cfg : Config) : CString → List Out := answering "001" fun _ => [join cfg]

/-- The message of a line. -/
def messageFor (line : CString) : List Out :=
  (parseLine line).elim [] fun l =>
    (if l.cmd = ascii "PRIVMSG" then messageOf .privmsg l else []) ++
      if l.cmd = ascii "NOTICE" then messageOf .notice l else []

section Kinds

variable {q : Out → Bool} (cfg : Config) (s : State) (l : Parsed) (rest : CString)

theorem filter_emitSystem (hq : ∀ t, q (.system t) = false) (t : CString) : [emitSystem t].filter q = [] := by
  rw [List.filter_cons, emitSystem, hq]
  rfl

theorem filter_handleCap (hq : ∀ t, q (.system t) = false) :
    (handleCap s rest).2.filter q = (capReply s rest).2.filter q := by
  have hshown : (if s.banner then capBanner rest else []).filter q = [] := by
    rw [capBanner]
    split_ifs
    all_goals first | exact filter_emitSystem hq _ | rfl
  rw [handleCap, List.filter_append, hshown, List.append_nil]

theorem filter_capReply (hreq : q capReq = false) (hend : q capEnd = false) :
    (capReply s rest).2.filter q = [] := by
  rw [capReply]
  split_ifs
  · rw [List.filter_cons, hreq]
    rfl
  · rw [List.filter_cons, hend]
    rfl
  · rfl

theorem filter_handleNumeric (hq : ∀ t, q (.system t) = false) : (handleNumeric s l).2.filter q = [] := by
  rw [handleNumeric]
  split_ifs
  all_goals first | exact filter_emitSystem hq _ | rfl

theorem filter_messageOf (kind : MsgKind) (hq : ∀ m, q (.message m) = false) :
    (messageOf kind l).filter q = [] := by
  rw [messageOf]
  split_ifs
  · rw [List.filter_cons, hq]
    rfl
  · rfl

/-- Only four commands are answered with a line that is sent. -/
theorem filter_hasWord (word : String) : (handleParsed cfg s l).2.filter (Out.hasWord word) =
    if l.cmd = ascii "PING" then [pong l.rest].filter (Out.hasWord word)
    else if l.cmd = ascii "CAP" then (capReply s l.rest).2.filter (Out.hasWord word)
    else if l.cmd = ascii "001" then [join cfg].filter (Out.hasWord word)
    else if l.cmd = ascii "433" then [nickLine (genNick cfg s.drawn).1].filter (Out.hasWord word)
    else [] := by
  rcases cmd_cases l.cmd with h | h | h | h | ⟨hnum, h001, h433⟩ | h | h | ⟨hnum, h⟩
  · rw [handleParsed_ping cfg s h, if_pos h]
  · rw [handleParsed_cap cfg s h, filter_handleCap s l.rest fun _ => rfl, h]
    rfl
  · rw [handleParsed_welcome cfg s h, h]
    cases s.banner <;> rfl
  · rw [handleParsed_nick cfg s h, h]
    rfl
  · rw [handleParsed_numeric cfg s hnum h001 h433, if_neg (ne_of_numeric hnum rfl), if_neg (ne_of_numeric hnum rfl),
      if_neg h001, if_neg h433]
    exact filter_handleNumeric s l fun _ => rfl
  · rw [handleParsed_privmsg cfg s h, h]
    exact filter_messageOf l .privmsg fun _ => rfl
  · rw [handleParsed_notice cfg s h, h]
    exact filter_messageOf l .notice fun _ => rfl
  · rw [handleParsed_other cfg s hnum h, if_neg (ne_of_notMem h (by decide)), if_neg (ne_of_notMem h (by decide)),
      if_neg (ne_of_numeric hnum rfl), if_neg (ne_of_numeric hnum rfl)]
    rfl

theorem filter_pong : (handleParsed cfg s l).2.filter (Out.hasWord "PONG") =
    if l.cmd = ascii "PING" then [pong l.rest] else [] := by
  rw [filter_hasWord]
  split_ifs
  · rfl
  · exact filter_capReply s l.rest rfl rfl
  all_goals rfl

theorem filter_join : (handleParsed cfg s l).2.filter (Out.hasWord "JOIN") =
    if l.cmd = ascii "001" then [join cfg] else [] := by
  rw [filter_hasWord]
  by_cases h : l.cmd = ascii "001"
  · rw [h]
    rfl
  · rw [if_neg h, if_neg h]
    split_ifs
    · rfl
    · exact filter_capReply s l.rest rfl rfl
    all_goals rfl

theorem filter_cap : (handleParsed cfg s l).2.filter (Out.hasWord "CAP") =
    if l.cmd = ascii "CAP" then (capReply s l.rest).2 else [] := by
  rw [filter_hasWord]
  by_cases h : l.cmd = ascii "CAP"
  · rw [h, if_neg (by decide), if_pos rfl, if_pos rfl, capReply]
    split_ifs <;> rfl
  · rw [if_neg h, if_neg h]
    split_ifs <;> rfl

theorem filter_message : (handleParsed cfg s l).2.filter Out.isMessage =
    (if l.cmd = ascii "PRIVMSG" then messageOf .privmsg l else []) ++
      if l.cmd = ascii "NOTICE" then messageOf .notice l else [] := by
  have hall (kind : MsgKind) : (messageOf kind l).filter Out.isMessage = messageOf kind l := by
    rw [messageOf]
    split_ifs <;> rfl
  rcases cmd_cases l.cmd with h | h | h | h | ⟨hnum, h001, h433⟩ | h | h | ⟨hnum, h⟩
  · rw [handleParsed_ping cfg s h, h]
    rfl
  · rw [handleParsed_cap cfg s h, filter_handleCap s l.rest fun _ => rfl, h]
    exact filter_capReply s l.rest rfl rfl
  · rw [handleParsed_welcome cfg s h, h]
    cases s.banner <;> rfl
  · rw [handleParsed_nick cfg s h, h]
    rfl
  · rw [handleParsed_numeric cfg s hnum h001 h433, if_neg (ne_of_numeric hnum rfl),
      if_neg (ne_of_numeric hnum rfl)]
    exact filter_handleNumeric s l fun _ => rfl
  · rw [handleParsed_privmsg cfg s h, h]
    exact (hall .privmsg).trans (List.append_nil _).symm
  · rw [handleParsed_notice cfg s h, h]
    exact hall .notice
  · rw [handleParsed_other cfg s hnum h, if_neg (ne_of_notMem h (by decide)),
      if_neg (ne_of_notMem h (by decide))]
    rfl

end Kinds

/-! ### Every line of a session -/

/-- The lines of a run give out what of a kind each of them does. -/
theorem filter_session {q : Out → Bool} {f : Parsed → List Out} (cfg : Config)
    (h : ∀ s l, (handleParsed cfg s l).2.filter q = f l) (s : State) (ls : List CString) :
    (Transducer.run (handleLine cfg) s ls).2.filter q = ls.flatMap fun line => (parseLine line).elim [] f := by
  refine Transducer.filter_run (fun s line => ?_) s ls
  rw [handleLine]
  cases parseLine line with
  | none => rfl
  | some l => exact h s l

/-- What the capability lines of a session say. -/
def capRest (line : CString) : Option CString :=
  (parseLine line).bind fun l => if l.cmd = ascii "CAP" then some l.rest else none

/-- The request follows the first end of a list, and the end of the negotiation the first answer behind
that. -/
def capReplies (rests : List CString) : List Out :=
  match rests.dropWhile fun r => ¬FinalLs r with
  | [] => []
  | _ :: more => capReq :: if ∃ r ∈ more, CapAnswer r then [capEnd] else []

section Caps

variable (cfg : Config) {s : State}

theorem filter_cap_line (s : State) (line : CString) :
    (handleLine cfg s line).2.filter (Out.hasWord "CAP") = ((capRest line).elim [] fun r => (capReply s r).2) := by
  rw [handleLine, capRest]
  cases parseLine line with
  | none => rfl
  | some l =>
      dsimp only [Option.bind_some]
      rw [filter_cap]
      split_ifs <;> rfl

/-- The flags of the negotiation. -/
def State.caps (s : State) : Bool × Bool := (s.capReqSent, s.capEndSent)

theorem caps_line (s : State) (line : CString) :
    (handleLine cfg s line).1.caps = ((capRest line).elim s fun r => (capReply s r).1).caps := by
  rw [handleLine, capRest]
  cases parseLine line with
  | none => rfl
  | some l =>
      dsimp only [Option.bind_some]
      rcases cmd_cases l.cmd with h | h | h | h | ⟨hnum, h001, h433⟩ | h | h | ⟨hnum, h⟩
      · rw [handleParsed_ping cfg s h, h]
        rfl
      · rw [handleParsed_cap cfg s h, if_pos h]
        rfl
      · rw [handleParsed_welcome cfg s h, h]
        rfl
      · rw [handleParsed_nick cfg s h, h]
        rfl
      · rw [handleParsed_numeric cfg s hnum h001 h433, if_neg (ne_of_numeric hnum rfl),
          handleNumeric]
        split_ifs <;> rfl
      · rw [handleParsed_privmsg cfg s h, h]
        rfl
      · rw [handleParsed_notice cfg s h, h]
        rfl
      · rw [handleParsed_other cfg s hnum h, if_neg (ne_of_notMem h (by decide))]
        rfl

theorem caps_done (h : s.caps = (true, true)) (ls : List CString) :
    (Transducer.run (handleLine cfg) s ls).2.filter (Out.hasWord "CAP") = [] := by
  induction ls generalizing s with
  | nil => rfl
  | cons line ls ih =>
      obtain ⟨hreq, hend⟩ := Prod.mk.inj h
      have hreply (r : CString) : capReply s r = (s, []) := by
        rw [capReply, if_neg (by simp [hreq]), if_neg (by simp [hend])]
      have hline := filter_cap_line cfg s line
      have hcaps := caps_line cfg s line
      simp only [hreply] at hline hcaps
      have hnil : (handleLine cfg s line).2.filter (Out.hasWord "CAP") = [] := by
        rw [hline]
        cases capRest line <;> rfl
      have hsame : (handleLine cfg s line).1.caps = (true, true) := by
        rw [hcaps, ← h]
        cases capRest line <;> rfl
      rw [Transducer.run_cons, List.filter_append, hnil, ih hsame]
      rfl

theorem caps_requested (h : s.caps = (true, false)) (ls : List CString) :
    (Transducer.run (handleLine cfg) s ls).2.filter (Out.hasWord "CAP") =
      if ∃ r ∈ ls.filterMap capRest, CapAnswer r then [capEnd] else [] := by
  induction ls generalizing s with
  | nil => rfl
  | cons line ls ih =>
      obtain ⟨hreq, hend⟩ := Prod.mk.inj h
      have hline := filter_cap_line cfg s line
      have hcaps := caps_line cfg s line
      rw [Transducer.run_cons, List.filter_append, hline]
      cases hrest : capRest line with
      | none =>
          rw [hrest] at hcaps
          rw [ih (hcaps.trans h), List.filterMap_cons_none hrest]
          rfl
      | some r =>
          rw [hrest, Option.elim_some, capReply, if_neg (by simp [hreq])] at hcaps
          rw [Option.elim_some, capReply, if_neg (by simp [hreq]), List.filterMap_cons_some hrest]
          by_cases hans : CapAnswer r
          · rw [if_pos ⟨hreq, hend, hans⟩] at hcaps ⊢
            rw [caps_done cfg (hcaps.trans (by rw [State.caps]; exact congrArg (·, true) hreq)),
              if_pos ⟨r, List.mem_cons_self, hans⟩]
            rfl
          · rw [if_neg (by simp [hans])] at hcaps ⊢
            rw [ih (hcaps.trans h)]
            simp only [List.exists_mem_cons_iff, hans, false_or]
            rfl

theorem caps_fresh (h : s.caps = (false, false)) (ls : List CString) :
    (Transducer.run (handleLine cfg) s ls).2.filter (Out.hasWord "CAP") = capReplies (ls.filterMap capRest) := by
  induction ls generalizing s with
  | nil => rfl
  | cons line ls ih =>
      obtain ⟨hreq, hend⟩ := Prod.mk.inj h
      have hline := filter_cap_line cfg s line
      have hcaps := caps_line cfg s line
      rw [Transducer.run_cons, List.filter_append, hline]
      cases hrest : capRest line with
      | none =>
          rw [hrest] at hcaps
          rw [ih (hcaps.trans h), List.filterMap_cons_none hrest]
          rfl
      | some r =>
          rw [hrest, Option.elim_some, capReply] at hcaps
          rw [Option.elim_some, capReply, List.filterMap_cons_some hrest]
          by_cases hls : FinalLs r
          · rw [if_pos ⟨hreq, hls⟩] at hcaps ⊢
            rw [caps_requested cfg (hcaps.trans (by rw [State.caps]; exact congrArg (true, ·) hend)), capReplies,
              List.dropWhile_cons_of_neg (by simpa using hls)]
            rfl
          · rw [if_neg (by simp [hls]), if_neg (by simp [hreq])] at hcaps ⊢
            rw [ih (hcaps.trans h), capReplies, capReplies, List.dropWhile_cons_of_pos (by simpa using hls)]
            rfl

end Caps

/-! ### The banner -/

/-- The line of a numeric that refuses a JOIN. -/
def joinErrorFor (line : CString) : List Out :=
  (parseLine line).elim [] fun l => if isJoinError l.cmd then [forwardNumeric l.rest] else []

/-- The numerics that are never shown: a nick in use, and the names of a channel. -/
def isNameReply (cmd : CString) : Bool := ["433", "353", "366"].any (cmd = ascii ·)

/-- What a line adds to the banner. -/
def bannerFor (line : CString) : List Out :=
  (parseLine line).elim [] fun l =>
    if l.cmd = ascii "CAP" then capBanner l.rest
    else if isNumericCmd l.cmd ∧ ¬isNameReply l.cmd then [forwardNumeric l.rest]
    else []

/-- The end of the MOTD. -/
def endsBanner (line : CString) : Bool :=
  (parseLine line).elim false fun l => l.cmd = ascii "376" ∨ l.cmd = ascii "422"

/-- What a session with a banner shows of its lines. -/
def shown : List CString → List Out
  | [] => []
  | line :: ls => bannerFor line ++ if endsBanner line then ls.flatMap joinErrorFor else shown ls

section Banner

variable (cfg : Config) {s : State}

theorem filter_messageOf_system (kind : MsgKind) (l : Parsed) : (messageOf kind l).filter Out.isSystem = [] :=
  filter_messageOf l kind fun _ => rfl

theorem filter_capBanner_system (rest : CString) : (capBanner rest).filter Out.isSystem = capBanner rest := by
  rw [capBanner]
  split_ifs <;> rfl

/-- The numerics that refuse a JOIN are none that means something else. -/
theorem joinError_numeric {cmd : CString} (h : isJoinError cmd = true) :
    isNumericCmd cmd = true ∧ cmd ∉ ["001", "433", "353", "366", "376", "422"].map ascii := by
  have hall : ∀ n ∈ ["403", "405", "437", "471", "472", "473", "474", "475", "476", "477", "479"],
      isNumericCmd (ascii n) = true ∧ ascii n ∉ ["001", "433", "353", "366", "376", "422"].map ascii := by decide
  obtain ⟨n, hn, hcmd⟩ := List.any_eq_true.mp h
  exact of_decide_eq_true hcmd ▸ hall n hn

theorem isNameReply_iff {cmd : CString} :
    isNameReply cmd = true ↔ cmd = ascii "433" ∨ cmd = ascii "353" ∨ cmd = ascii "366" := by
  simp [isNameReply]

/-- Without a banner only the refusals are shown. -/
theorem quiet_parsed (hb : s.banner = false) (l : Parsed) :
    (handleParsed cfg s l).2.filter Out.isSystem = (if isJoinError l.cmd then [forwardNumeric l.rest] else []) ∧
      (handleParsed cfg s l).1.banner = false ∧ (handleParsed cfg s l).1.bannerPending = s.bannerPending := by
  rcases cmd_cases l.cmd with h | h | h | h | ⟨hnum, h001, h433⟩ | h | h | ⟨hnum, h⟩
  · rw [handleParsed_ping cfg s h, h]
    exact ⟨rfl, hb, rfl⟩
  · rw [handleParsed_cap cfg s h, h, handleCap, hb, if_neg Bool.false_ne_true, List.append_nil]
    refine ⟨filter_capReply s l.rest rfl rfl, ?_, ?_⟩
    · rw [capReply]
      split_ifs <;> exact hb
    · rw [capReply]
      split_ifs <;> rfl
  · rw [handleParsed_welcome cfg s h, h, hb]
    exact ⟨rfl, rfl, rfl⟩
  · rw [handleParsed_nick cfg s h, h]
    exact ⟨rfl, hb, rfl⟩
  · rw [handleParsed_numeric cfg s hnum h001 h433, handleNumeric, hb]
    by_cases hjoin : isJoinError l.cmd = true
    · rw [if_pos hjoin, if_pos hjoin]
      exact ⟨rfl, hb, rfl⟩
    · rw [if_neg hjoin, if_neg hjoin, if_neg Bool.false_ne_true]
      split_ifs <;> exact ⟨rfl, hb, rfl⟩
  · rw [handleParsed_privmsg cfg s h, h]
    exact ⟨filter_messageOf_system .privmsg l, hb, rfl⟩
  · rw [handleParsed_notice cfg s h, h]
    exact ⟨filter_messageOf_system .notice l, hb, rfl⟩
  · rw [handleParsed_other cfg s hnum h, if_neg fun hjoin => ?_]
    · exact ⟨rfl, hb, rfl⟩
    · rw [(joinError_numeric hjoin).1] at hnum
      cases hnum

/-- With one, a line is shown as what it adds, and the end of the MOTD takes the banner away. -/
theorem banner_parsed (hb : s.banner = true) (l : Parsed) :
    (handleParsed cfg s l).2.filter Out.isSystem =
        (if l.cmd = ascii "CAP" then capBanner l.rest
          else if isNumericCmd l.cmd ∧ ¬isNameReply l.cmd then [forwardNumeric l.rest]
          else []) ∧
      if l.cmd = ascii "376" ∨ l.cmd = ascii "422" then
        (handleParsed cfg s l).1.banner = false ∧ (handleParsed cfg s l).1.bannerPending = false
      else (handleParsed cfg s l).1.banner = true ∧ (handleParsed cfg s l).1.bannerPending = s.bannerPending := by
  rcases cmd_cases l.cmd with h | h | h | h | ⟨hnum, h001, h433⟩ | h | h | ⟨hnum, h⟩
  · rw [handleParsed_ping cfg s h, h]
    exact ⟨rfl, hb, rfl⟩
  · rw [handleParsed_cap cfg s h, h, handleCap, hb, if_pos rfl, List.filter_append, filter_capReply s l.rest rfl rfl,
      filter_capBanner_system]
    have hflags : (capReply s l.rest).1.banner = true ∧ (capReply s l.rest).1.bannerPending = s.bannerPending := by
      rw [capReply]
      split_ifs <;> exact ⟨hb, rfl⟩
    exact ⟨rfl, hflags⟩
  · rw [handleParsed_welcome cfg s h, h, hb]
    exact ⟨rfl, rfl, rfl⟩
  · rw [handleParsed_nick cfg s h, h]
    exact ⟨rfl, hb, rfl⟩
  · rw [handleParsed_numeric cfg s hnum h001 h433, handleNumeric, if_neg (ne_of_numeric hnum rfl), hb]
    by_cases hjoin : isJoinError l.cmd = true
    · obtain ⟨-, hnot⟩ := joinError_numeric hjoin
      have hplain : ¬isNameReply l.cmd = true := fun hmem => by
        rcases isNameReply_iff.mp hmem with heq | heq | heq <;> exact ne_of_notMem hnot (by decide) heq
      rw [if_pos hjoin, if_pos ⟨hnum, hplain⟩, if_neg (not_or.mpr
        ⟨ne_of_notMem hnot (by decide), ne_of_notMem hnot (by decide)⟩)]
      exact ⟨rfl, hb, rfl⟩
    · rw [if_neg hjoin]
      by_cases hnames : l.cmd = ascii "353" ∨ l.cmd = ascii "366"
      · rw [if_pos hnames]
        rcases hnames with heq | heq <;> rw [heq] <;> exact ⟨rfl, hb, rfl⟩
      · have hplain : isNumericCmd l.cmd = true ∧ ¬isNameReply l.cmd = true :=
          ⟨hnum, fun hmem => (isNameReply_iff.mp hmem).elim h433 hnames⟩
        rw [if_neg hnames, if_pos rfl, if_pos hplain]
        split_ifs
        · exact ⟨rfl, rfl, rfl⟩
        · exact ⟨rfl, hb, rfl⟩
  · rw [handleParsed_privmsg cfg s h, h]
    exact ⟨filter_messageOf_system .privmsg l, hb, rfl⟩
  · rw [handleParsed_notice cfg s h, h]
    exact ⟨filter_messageOf_system .notice l, hb, rfl⟩
  · rw [handleParsed_other cfg s hnum h, if_neg (ne_of_notMem h (by decide)), if_neg fun hand => by simp [hnum] at hand,
      if_neg (not_or.mpr ⟨ne_of_numeric hnum rfl, ne_of_numeric hnum rfl⟩)]
    exact ⟨rfl, hb, rfl⟩

theorem quiet_run (hb : s.banner = false) (ls : List CString) :
    (Transducer.run (handleLine cfg) s ls).2.filter Out.isSystem = ls.flatMap joinErrorFor ∧
      (Transducer.run (handleLine cfg) s ls).1.bannerPending = s.bannerPending := by
  induction ls generalizing s with
  | nil => exact ⟨rfl, rfl⟩
  | cons line ls ih =>
      have hline : (handleLine cfg s line).2.filter Out.isSystem = joinErrorFor line ∧
          (handleLine cfg s line).1.banner = false ∧
          (handleLine cfg s line).1.bannerPending = s.bannerPending := by
        rw [handleLine, joinErrorFor]
        cases parseLine line with
        | none => exact ⟨rfl, hb, rfl⟩
        | some l => exact quiet_parsed cfg hb l
      obtain ⟨hshown, hquiet, hpending⟩ := hline
      obtain ⟨hrest, hlast⟩ := ih hquiet
      rw [Transducer.run_cons, List.filter_append, hshown, hrest, List.flatMap_cons]
      exact ⟨rfl, hlast.trans hpending⟩

theorem banner_run (hb : s.banner = true) (ls : List CString) :
    (Transducer.run (handleLine cfg) s ls).2.filter Out.isSystem = shown ls ∧
      (Transducer.run (handleLine cfg) s ls).1.bannerPending = (s.bannerPending && !ls.any endsBanner) := by
  induction ls generalizing s with
  | nil => exact ⟨rfl, (Bool.and_true _).symm⟩
  | cons line ls ih =>
      have hline : (handleLine cfg s line).2.filter Out.isSystem = bannerFor line ∧
          if endsBanner line = true then
            (handleLine cfg s line).1.banner = false ∧ (handleLine cfg s line).1.bannerPending = false
          else (handleLine cfg s line).1.banner = true ∧
            (handleLine cfg s line).1.bannerPending = s.bannerPending := by
        rw [handleLine, bannerFor, endsBanner]
        cases parseLine line with
        | none => exact ⟨rfl, hb, rfl⟩
        | some l =>
            simp only [Option.elim_some, decide_eq_true_eq]
            exact banner_parsed cfg hb l
      obtain ⟨hshown, hafter⟩ := hline
      rw [Transducer.run_cons, List.filter_append, hshown, shown]
      by_cases hend : endsBanner line = true
      · rw [if_pos hend] at hafter
        obtain ⟨hquiet, hlast⟩ := quiet_run cfg hafter.1 ls
        rw [hquiet, if_pos hend, List.any_cons, hend, Bool.true_or, Bool.not_true, Bool.and_false]
        exact ⟨rfl, hlast.trans hafter.2⟩
      · rw [if_neg hend] at hafter
        obtain ⟨hrest, hlast⟩ := ih hafter.1
        rw [hrest, if_neg hend, List.any_cons, (Bool.not_eq_true _).mp hend, Bool.false_or, ← hafter.2]
        exact ⟨rfl, hlast⟩

end Banner

/-! ### The session as a whole -/

/-- The welcome of the server. -/
def welcomes (line : CString) : Bool := (parseLine line).elim false fun l => l.cmd = ascii "001"

section Session

variable (cfg : Config) (s : State)

theorem registered_line (line : CString) :
    (handleLine cfg s line).1.reachedReg = (s.reachedReg || welcomes line) ∧
      (handleLine cfg s line).1.everRegistered = (s.everRegistered || welcomes line) := by
  have hsame : ∀ b : Bool, b = (b || false) := fun b => (Bool.or_false b).symm
  rw [handleLine, welcomes]
  cases parseLine line with
  | none => exact ⟨hsame _, hsame _⟩
  | some l =>
      dsimp only [Option.elim_some]
      rcases cmd_cases l.cmd with h | h | h | h | ⟨hnum, h001, h433⟩ | h | h | ⟨hnum, h⟩
      · rw [handleParsed_ping cfg s h, h]
        exact ⟨hsame _, hsame _⟩
      · rw [handleParsed_cap cfg s h, h, handleCap, capReply]
        split_ifs <;> exact ⟨hsame _, hsame _⟩
      · rw [handleParsed_welcome cfg s h, h]
        exact ⟨(Bool.or_true _).symm, (Bool.or_true _).symm⟩
      · rw [handleParsed_nick cfg s h, h]
        exact ⟨hsame _, hsame _⟩
      · rw [handleParsed_numeric cfg s hnum h001 h433, decide_eq_false h001, handleNumeric]
        split_ifs <;> exact ⟨hsame _, hsame _⟩
      · rw [handleParsed_privmsg cfg s h, h]
        exact ⟨hsame _, hsame _⟩
      · rw [handleParsed_notice cfg s h, h]
        exact ⟨hsame _, hsame _⟩
      · rw [handleParsed_other cfg s hnum h, decide_eq_false (ne_of_numeric hnum rfl)]
        exact ⟨hsame _, hsame _⟩

theorem registered_run (ls : List CString) :
    (Transducer.run (handleLine cfg) s ls).1.reachedReg = (s.reachedReg || ls.any welcomes) ∧
      (Transducer.run (handleLine cfg) s ls).1.everRegistered = (s.everRegistered || ls.any welcomes) := by
  induction ls generalizing s with
  | nil => exact ⟨(Bool.or_false _).symm, (Bool.or_false _).symm⟩
  | cons line ls ih =>
      obtain ⟨hreached, hever⟩ := registered_line cfg s line
      obtain ⟨hreached', hever'⟩ := ih (handleLine cfg s line).1
      rw [Transducer.run_cons, List.any_cons, ← Bool.or_assoc, ← Bool.or_assoc, ← hreached, ← hever]
      exact ⟨hreached', hever'⟩

/-- What a session does, of each kind in order, is what its lines ask for: every PING has its PONG, every
welcome its JOIN, the negotiation is requested once and ended once, every message is passed on, and what
is shown is the banner up to the end of the MOTD or, without a banner, the refusals of a JOIN. -/
theorem session_replies (recvs : List Bytes) :
    (runIrc cfg s recvs).2.filter (Out.hasWord "PONG") = (runSession recvs).flatMap pongFor ∧
      (runIrc cfg s recvs).2.filter (Out.hasWord "JOIN") = (runSession recvs).flatMap (joinFor cfg) ∧
      (runIrc cfg s recvs).2.filter (Out.hasWord "CAP") =
        sendLine (ascii "CAP LS 302") :: capReplies ((runSession recvs).filterMap capRest) ∧
      (runIrc cfg s recvs).2.filter Out.isMessage = (runSession recvs).flatMap messageFor ∧
      (runIrc cfg s recvs).2.filter Out.isSystem =
        if s.bannerPending then shown (runSession recvs) else (runSession recvs).flatMap joinErrorFor := by
  rw [runIrc]
  dsimp only
  simp only [List.filter_append]
  refine ⟨?_, ?_, ?_, ?_, ?_⟩
  · rw [filter_session cfg (filter_pong cfg)]
    rfl
  · rw [filter_session cfg (filter_join cfg)]
    rfl
  · rw [caps_fresh cfg rfl]
    rfl
  · rw [filter_session cfg (filter_message cfg)]
    rfl
  · have hgreeting : (greeting (beginSession cfg s).nick).filter Out.isSystem = [] := rfl
    rw [hgreeting, List.nil_append]
    cases hb : s.bannerPending with
    | true => exact (banner_run cfg hb (runSession recvs)).1
    | false => exact (quiet_run cfg hb (runSession recvs)).1

end Session

end UnicornSuite.Irc
