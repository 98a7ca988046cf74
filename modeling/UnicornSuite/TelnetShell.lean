import UnicornSuite.LibText

/-! The terminal (`telnet_module.c`): the shell with its line editor and its commands, the shortcut buttons
with their automatic Enter, and the Telnet, Finger and raw sessions that the commands open. What is printed,
the status line, and the bytes that an active Telnet session sends are left out; whether an open succeeds is
an argument of the event. -/

namespace UnicornSuite.TelnetShell

open CText

/-- `F6Mode`. -/
inductive Mode where
  | shell | telnetConnecting | telnetActive | fingerReading | qotdReading
  deriving DecidableEq

/-- What a session was opened with. -/
structure Session where
  host : CString
  port : Nat
  user : CString
  deriving DecidableEq

/-- How far the thread of a session is. -/
inductive Phase where
  | starting | running | ended
  deriving DecidableEq

/-- `TELNET_EVT_*`. -/
inductive Note where
  | connected | data | error | closed
  deriving DecidableEq

structure State where
  mode : Mode
  activeTelnet : Option Session
  activeFinger : Option Session
  activeQotd : Option Session
  /-- Whether the shortcut buttons are enabled. -/
  buttons : Bool
  /-- The shell line and the place of its cursor. -/
  shellInput : CString
  shellPos : Nat
  macroPending : Bool
  /-- `ID_TIMER_MACRO_AUTOENTER` is set; a `WM_TIMER` of it waits in the queue. -/
  timerSet : Bool
  timerPosted : Bool
  swallowNextChar : Bool
  /-- What is left of the text of a paste, and its `skip_lf`. -/
  pasting : CString
  skipLf : Bool
  /-- The thread of the session that is open, and the notes it has posted. -/
  worker : Option Phase
  notes : List Note
  /-- The command of the last shortcut, and the lines that a `WM_TIMER` committed, each with the command
  whose automatic Enter was pending. -/
  injected : CString
  autos : List (Option CString × CString)
  deriving DecidableEq

/-- The module once its controls are there. -/
def start : State :=
  { mode := .shell, activeTelnet := none, activeFinger := none, activeQotd := none, buttons := true,
    shellInput := [], shellPos := 0, macroPending := false, timerSet := false, timerPosted := false,
    swallowNextChar := false, pasting := [], skipLf := false, worker := none, notes := [],
    injected := [], autos := [] }

def enableMacroButtons (s : State) (on : Bool) : State := { s with buttons := on }

/-- `KillTimer` leaves a `WM_TIMER` that waits already. -/
def cancelMacroTimer (s : State) : State :=
  if s.macroPending then { s with timerSet := false, macroPending := false } else s

/-! ### Modes and sessions -/

def enterShellMode (s : State) : State :=
  enableMacroButtons { s with mode := .shell, shellInput := [], shellPos := 0 } true

/-- The host with its room, and the port; `none` where there is no host. -/
def parseHostPort (spec : CString) (hostCap : Nat) (defaultPort : Nat) : Option (CString × Nat) :=
  if spec = [] then none
  else
    let host := (spec.takeWhile (· ≠ 0x3A)).take (hostCap - 1)
    let port := atoi (spec.dropWhile (· ≠ 0x3A)).tail
    let port := if 0x3A ∈ spec ∧ 0 < port ∧ port ≤ 65535 then port.toNat else defaultPort
    if host = [] then none else some (host, port)

def openTelnet (s : State) (spec : CString) (opens : Bool) : State :=
  match parseHostPort spec 256 23 with
  | none => enterShellMode s
  | some (host, port) =>
      if opens then
        enableMacroButtons
          { s with
            activeTelnet := some { host := host, port := port, user := [] }
            worker := some .starting
            mode := .telnetConnecting } false
      else enterShellMode { s with activeTelnet := none }

def openFinger (s : State) (userAtHost : CString) (opens : Bool) : State :=
  let user := (userAtHost.takeWhile (· ≠ 0x40)).take 127
  let host := ((userAtHost.dropWhile (· ≠ 0x40)).tail).take 255
  if 0x40 ∉ userAtHost then enterShellMode s
  else if host = [] then enterShellMode s
  else if opens then
    enableMacroButtons
      { s with
        activeFinger := some { host := host, port := 79, user := user }
        worker := some .starting
        mode := .fingerReading } false
  else enterShellMode { s with activeFinger := none }

def openQotdRaw (s : State) (host : CString) (port : Nat) (opens : Bool) : State :=
  if opens then
    enableMacroButtons
      { s with
        activeQotd := some { host := host, port := port, user := [] }
        worker := some .starting
        mode := .qotdReading } false
  else enterShellMode { s with activeQotd := none }

/-- Every session that is open is closed, and its thread waited for. -/
def closeSessions (s : State) : State :=
  { s with activeTelnet := none, activeFinger := none, activeQotd := none, worker := none }

def closeActiveSession (s : State) : State := enterShellMode (closeSessions s)

/-! ### The commands of the shell -/

def rtrim (s : CString) : CString :=
  (s.reverse.dropWhile fun c => c = 0x20 ∨ c = 0x09 ∨ c = 0x0D).reverse

def skipWs (s : CString) : CString := s.dropWhile isBlank

/-- The word at the front, as far as there is room for it, and what follows it. -/
def copyToken (s : CString) (cap : Nat) : CString × CString :=
  let s := skipWs s
  let word := (s.takeWhile fun c => !isBlank c).take (cap - 1)
  (word, s.drop word.length)

def shellDispatch (s : State) (cmd : CString) (opens : Bool) : State :=
  let line := skipWs (rtrim (cmd.take 1023))
  let (verb, p) := copyToken line 32
  if line = [] then s
  else if verb = ascii "help" then s
  else if verb = ascii "clear" then s
  else if verb = ascii "exit" ∨ verb = ascii "quit" then
    if s.activeTelnet.isSome ∨ s.activeFinger.isSome ∨ s.activeQotd.isSome then closeActiveSession s
    else s
  else if verb = ascii "telnet" then
    let hostSpec := (copyToken p 300).1
    if hostSpec = [] then s else openTelnet s hostSpec opens
  else if verb = ascii "finger" then
    let target := (copyToken p 300).1
    if target = [] then s else openFinger s target opens
  else if verb = ascii "nc" then
    let (host, p) := copyToken p 256
    let portstr := (copyToken p 16).1
    if host = [] ∨ portstr = [] then s
    else if atoi portstr ≤ 0 ∨ 65535 < atoi portstr then s
    else openQotdRaw s host (atoi portstr).toNat opens
  else s

/-! ### The shortcut buttons -/

inductive Shortcut where
  | telnetNews | fingerNews | fingerWeather | qotd | archie
  deriving DecidableEq

def Shortcut.command : Shortcut → CString
  | telnetNews => ascii "telnet telnet.greektimes.ca"
  | fingerNews => ascii "finger news@finger.greektimes.ca"
  | fingerWeather => ascii "finger weather@finger.greektimes.ca"
  | qotd => ascii "nc qotd.greektimes.ca 17"
  | archie => ascii "telnet archie.greektimes.ca:2323"

def macroInject (s : State) (text : CString) : State :=
  if s.mode ≠ .shell then s
  else
    let line := text.take 1023
    let s := cancelMacroTimer { s with shellInput := line, shellPos := line.length, injected := text }
    { s with timerSet := true, macroPending := true }

/-- A button that is disabled is not clicked. -/
def triggerShortcut (s : State) (b : Shortcut) : State :=
  if s.buttons then macroInject (enableMacroButtons s false) b.command else s

def shellCommitEnter (s : State) (opens : Bool) : State :=
  let s := cancelMacroTimer s
  shellDispatch { s with shellInput := [], shellPos := 0 } s.shellInput opens

/-! ### Keys -/

/-- What the editor makes of the line and the cursor, for a character that is not Enter. -/
def editLine (line : CString) (pos : Nat) (ch : UInt8) : CString × Nat :=
  if ch = 0x08 ∨ ch = 0x7F then
    if 0 < pos then (line.eraseIdx (pos - 1), pos - 1) else (line, pos)
  else if ch = 0x03 then ([], 0)
  else if 0x20 ≤ ch ∧ ch < 0x7F then
    if line.length < 1023 then (line.insertIdx pos ch, pos + 1) else (line, pos)
  else (line, pos)

def handleCharShell (s : State) (ch : UInt8) (opens : Bool) : State :=
  let s := cancelMacroTimer s
  if ch = 0x0D then shellCommitEnter s opens
  else
    let (line, pos) := editLine s.shellInput s.shellPos ch
    { s with shellInput := line, shellPos := pos }

/-- The virtual keys that are told apart. -/
inductive Vk where
  | left | right | home | end_
  /-- Up, Down, Page Up and Page Down: they scroll, or are sent to the server. -/
  | scroll
  | letter (upper : UInt8)
  | digit (c : UInt8)
  | space
  | other
  deriving DecidableEq

structure Key where
  vk : Vk
  ctrl : Bool
  shift : Bool
  caps : Bool
  /-- Whether a selection is shown. -/
  selection : Bool
  /-- The text of the clipboard. -/
  clipboard : CString
  deriving DecidableEq

def handleVkArrow (s : State) (vk : Vk) : State :=
  if s.mode = .shell then
    match vk with
    | .left => { s with shellPos := s.shellPos - 1 }
    | .right => if s.shellPos < s.shellInput.length then { s with shellPos := s.shellPos + 1 } else s
    | .home => { s with shellPos := 0 }
    | .end_ => { s with shellPos := max s.shellPos s.shellInput.length }
    | _ => s
  else s

/-- The character that a key gives the shell by itself. -/
def Key.derived (k : Key) : Option UInt8 :=
  match k.vk with
  | .letter upper => some (if k.shift ≠ k.caps then upper else upper + 32)
  | .digit c => if k.shift then none else some c
  | .space => some 0x20
  | _ => none

/-- `telnet_module_paste` begins; its bytes are handled one by one. -/
def startPaste (s : State) (text : CString) : State :=
  { s with pasting := cstr text, skipLf := false }

/-- `WM_KEYDOWN`. -/
def keyDown (s : State) (k : Key) (opens : Bool) : State :=
  if k.ctrl ∧ k.vk = .letter 0x41 then s
  else if k.ctrl ∧ k.vk = .letter 0x43 then
    if ¬ k.selection ∧ s.mode = .shell then handleCharShell s 0x03 opens else s
  else if k.ctrl ∧ k.vk = .letter 0x56 then startPaste s k.clipboard
  else
    match k.derived with
    | some ch =>
        if s.mode = .shell then { handleCharShell s ch opens with swallowNextChar := true } else s
    | none => handleVkArrow s k.vk

/-- `WM_CHAR`. -/
def charMsg (s : State) (ch : UInt8) (opens : Bool) : State :=
  if s.swallowNextChar then { s with swallowNextChar := false }
  else if s.mode = .shell then handleCharShell s ch opens
  else s

/-- The next byte of a paste. -/
def pasteNext (s : State) (opens : Bool) : State :=
  match s.pasting with
  | [] => s
  | c :: rest =>
      if s.skipLf ∧ c = 0x0A then { s with pasting := rest, skipLf := false }
      else
        let s := { s with pasting := rest, skipLf := decide (c = 0x0D) }
        if s.mode ≠ .shell then s
        else if c = 0x0D ∨ c = 0x0A then handleCharShell s 0x0D opens
        else if 0x20 ≤ c ∧ c < 0x7F then handleCharShell s c opens
        else s

/-! ### The timer and the sessions -/

/-- `WM_TIMER` of the automatic Enter, with a record of the line it commits. -/
def timerMsg (s : State) (opens : Bool) : State :=
  let due := if s.macroPending then some s.injected else none
  let s := { s with timerSet := false, timerPosted := false, macroPending := false }
  if s.mode = .shell then
    shellCommitEnter { s with autos := s.autos ++ [(due, s.shellInput)] } opens
  else s

/-- What the thread of a session does. -/
inductive WorkerAct where
  | connect | fail | receive | finish
  deriving DecidableEq

def workerStep (s : State) (a : WorkerAct) : State :=
  match s.worker, a with
  | some .starting, .connect =>
      { s with worker := some .running, notes := s.notes ++ [.connected] }
  | some .starting, .fail => { s with worker := some .ended, notes := s.notes ++ [.error, .closed] }
  | some .running, .receive => { s with notes := s.notes ++ [.data] }
  | some .running, .finish => { s with worker := some .ended, notes := s.notes ++ [.closed] }
  | _, _ => s

def onEvtConnected (s : State) : State :=
  if s.mode = .telnetConnecting then { s with mode := .telnetActive } else s

def onEvtClosed (s : State) : State := enterShellMode (closeSessions s)

/-- `WM_TELNET_NOTIFY`; the notes are taken in the order they were posted. -/
def notifyMsg (s : State) : State :=
  match s.notes with
  | [] => s
  | .connected :: rest => onEvtConnected { s with notes := rest }
  | .closed :: rest => onEvtClosed { s with notes := rest }
  | .data :: rest => { s with notes := rest }
  | .error :: rest => { s with notes := rest }

inductive Event where
  | click (b : Shortcut)
  | key (k : Key) (opens : Bool)
  | char (ch : UInt8) (opens : Bool)
  /-- Paste from the menu of the terminal. -/
  | paste (text : CString)
  | pasteNext (opens : Bool)
  /-- The interval of the timer is over. -/
  | expire
  | timer (opens : Bool)
  | worker (a : WorkerAct)
  | notify
  deriving DecidableEq

/-- A message is taken once the one before has been handled: while bytes of a paste are left, only they
are, whereas the timer and the threads go on. -/
def step (s : State) (e : Event) : State :=
  match e with
  | .pasteNext opens => pasteNext s opens
  | .expire => { s with timerPosted := s.timerPosted || s.timerSet }
  | .worker a => workerStep s a
  | .click b => if s.pasting = [] then triggerShortcut s b else s
  | .key k opens => if s.pasting = [] then keyDown s k opens else s
  | .char ch opens => if s.pasting = [] then charMsg s ch opens else s
  | .paste text => if s.pasting = [] then startPaste s text else s
  | .timer opens => if s.pasting = [] ∧ s.timerPosted then timerMsg s opens else s
  | .notify => if s.pasting = [] then notifyMsg s else s

end UnicornSuite.TelnetShell
