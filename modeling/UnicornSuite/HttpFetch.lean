import UnicornSuite.LibRounds
import UnicornSuite.LibText

/-! The Suite's one HTTPS GET (`http_fetch.c`), over what WinHTTP, the heap, the file system and the
progress callback answer: once for the calls of `hf_open`, and for each round of the read loop. A fetch
whose rounds run out is still under way. -/

namespace UnicornSuite.HttpFetch

open CText

abbrev Bytes := List UInt8

/-- The `HTTP_FETCH_` codes; `client` is `HTTP_FETCH_OPEN`. -/
inductive Code where
  | ok | badArg | badUrl | client | connect | request | send | response | httpStatus | read | memory
  | fileIo | cancelled | tooBig
  deriving DecidableEq

/-- A message that ends with `GetLastError`. -/
def withError (text : CString) (lastError : Nat) : CString :=
  text ++ ascii " (err " ++ decimalText lastError ++ ascii ")."

/-- `hf_err`; `errcap` is 0 where there is no buffer. -/
def hfErr (errcap : Nat) (text : CString) : CString := text.take (errcap - 1)

/-- The answers to the calls of `hf_open`. -/
structure OpenCalls where
  crack : Bool := true
  https : Bool := true
  ses : Bool := true
  con : Bool := true
  req : Bool := true
  sent : Bool := true
  responds : Bool := true
  status : Option Nat := some 200
  host : CString := []
  lastError : Nat := 0

/-- `ERROR_WINHTTP_TIMEOUT` -/
def errorWinhttpTimeout : Nat := 12002

/-- The message of a call that may have timed out. -/
def timeoutOr (text : CString) (lastError : Nat) : CString :=
  if lastError = errorWinhttpTimeout then ascii "The server did not answer in time."
  else withError text lastError

def hfOpen (o : OpenCalls) : Except (Code × CString) Unit :=
  if !o.crack then .error (.badUrl, withError (ascii "The address could not be parsed") o.lastError)
  else if !o.https then .error (.badUrl, ascii "Only https addresses are allowed.")
  else if !o.ses then .error (.client, withError (ascii "Could not start the web client") o.lastError)
  else if !o.con then .error (.connect, withError (ascii "Could not reach " ++ o.host) o.lastError)
  else if !o.req then .error (.request, withError (ascii "Could not build the request") o.lastError)
  else if !o.sent then .error (.send, timeoutOr (ascii "The request could not be sent") o.lastError)
  else if !o.responds then
    .error (.response, timeoutOr (ascii "No response from the server") o.lastError)
  else
    let status := o.status.getD 0
    if status < 200 ∨ 300 ≤ status then
      .error (.httpStatus, ascii "The server answered HTTP " ++ decimalText status ++ ascii ".")
    else .ok ()

/-- `hf_content_length`, of the header's text: 0 without a header, or where it does not fit in `buf`. -/
def hfContentLength (header : Option CString) : Nat :=
  match header with
  | none => 0
  | some text => if 63 < text.length then 0 else decimal 0 (text.takeWhile isDigit) % 2 ^ 64

/-- The answers in one round of the read loop: the bytes WinHTTP says there are, those it has to give
when it is asked to read, whether there is memory for a larger block, what `WriteFile` answers, and
whether the callback cancels. Where it applies, `none` is a call that fails. -/
structure Round where
  avail : Option UInt32
  bytes : Option Bytes := none
  alloc : Bool := true
  writeOk : Bool := true
  written : Nat := 0
  cancel : Bool := false
  lastError : Nat := 0

/-- `WinHttpReadData`, asked for `n` bytes. -/
def readData (r : Round) (n : Nat) : Option Bytes := r.bytes.map (·.take n)

/-! ### To memory -/

def dword (n : Nat) : Nat := n % 2 ^ 32

/-- The loop that doubles `new_cap`. What is not there after 32 doublings is 0, and stays so. -/
def doubleUpTo (need : Nat) : Nat → Nat → Option Nat
  | 0, _ => none
  | fuel + 1, newCap =>
      if newCap < need then doubleUpTo need fuel (dword (newCap * 2)) else some newCap

/-- `new_cap`; `none` where its loop does not end. -/
def newCap (cap need : Nat) : Option Nat :=
  doubleUpTo need 33 (if cap = 0 then 8192 else dword (cap * 2))

/-- `buf_cap` and the first `buf_used` bytes of `buf`, which is NULL while `buf_cap` is 0. `chunks` is
what has been read, which the code does not keep. -/
structure MemLoop where
  cap : Nat := 0
  buf : Bytes := []
  chunks : List Bytes := []

/-- How the loop is left. `ended` is whether WinHTTP said that there is no more. -/
inductive MemExit where
  | done (s : MemLoop) (ended : Bool)
  | failed (code : Code) (err : CString)
  | overrun
  | stuck

def memRead (s : MemLoop) (r : Round) (avail : Nat) : Except MemExit MemLoop :=
  match readData r avail with
  | none => .error (.done s false)
  | some got =>
      if got = [] then .error (.done s false)
      else if s.cap < s.buf.length + got.length then .error .overrun
      else .ok { s with buf := s.buf ++ got, chunks := s.chunks ++ [got] }

def limitMessage (maxBytes : Nat) : CString :=
  ascii "The reply is larger than the " ++ decimalText maxBytes ++ ascii " byte limit."

def memRound (maxBytes : Nat) (s : MemLoop) (r : Round) : Except MemExit MemLoop :=
  match r.avail with
  | none => .error (.failed .read (withError (ascii "The transfer was interrupted") r.lastError))
  | some a =>
      let avail := a.toNat
      if avail = 0 then .error (.done s true)
      else if maxBytes ≠ 0 ∧ maxBytes < s.buf.length + avail then
        .error (.failed .tooBig (limitMessage maxBytes))
      else
        let need := dword (s.buf.length + avail + 1)
        if s.cap < need then
          match newCap s.cap need with
          | none => .error .stuck
          | some cap =>
              if r.alloc then memRead { s with cap := cap } r avail
              else .error (.failed .memory (ascii "Out of memory."))
        else memRead s r avail

/-- What a call returns: `*out_data` with the NUL behind it, and `*out_len`. The last two are of the
transfer. -/
structure MemResult where
  code : Code
  data : Option Bytes := none
  outLen : Nat := 0
  err : CString := []
  ended : Bool := false
  chunks : List Bytes := []

inductive MemOutcome where
  | returns (r : MemResult)
  | overrun
  | stuck

/-- What follows the loop. -/
def memFinish (errcap : Nat) (lastAlloc : Bool) (s : MemLoop) (ended : Bool) : MemOutcome :=
  let result : MemResult :=
    { code := .ok
      data := some (s.buf ++ [0])
      outLen := s.buf.length
      ended := ended
      chunks := s.chunks }
  if s.cap = 0 then
    if lastAlloc then .returns result
    else .returns { code := .memory, err := hfErr errcap (ascii "Out of memory.") }
  else if s.cap ≤ s.buf.length then .overrun
  else .returns result

def memLeave (errcap : Nat) (lastAlloc : Bool) : MemExit → MemOutcome
  | .done s ended => memFinish errcap lastAlloc s ended
  | .failed code err => .returns { code := code, err := hfErr errcap err }
  | .overrun => .overrun
  | .stuck => .stuck

/-- `http_fetch_to_memory`; `args` is whether `url` and `out_data` are there, and `lastAlloc` whether
there is memory for the block of an empty body. `none` is a fetch under way. -/
def httpFetchToMemory (args : Bool) (o : OpenCalls) (rounds : List Round) (lastAlloc : Bool)
    (maxBytes errcap : Nat) : Option MemOutcome :=
  if !args then some (.returns { code := .badArg })
  else
    match hfOpen o with
    | .error (code, err) => some (.returns { code := code, err := hfErr errcap err })
    | .ok () =>
        match Exit.loop (memRound maxBytes) {} rounds with
        | .error e => some (memLeave errcap lastAlloc e)
        | .ok _ => none

/-! ### To a file -/

/-- `sizeof(chunk)` -/
def chunkSize : Nat := 32768

structure FileLoop where
  gotTotal : Nat := 0
  file : Bytes := []
  chunks : List Bytes := []

/-- How the loop is left, with the file as it is then. -/
inductive FileExit where
  | done (s : FileLoop) (ended : Bool)
  | failed (code : Code) (err : CString) (file : Bytes)

/-- A chunk that was read is written. -/
def fileWrite (maxBytes : Nat) (s : FileLoop) (r : Round) (got : Bytes) : Except FileExit FileLoop :=
  let file := s.file ++ got.take r.written
  if maxBytes ≠ 0 ∧ maxBytes < s.gotTotal + got.length then
    .error (.failed .tooBig
      (ascii "The download ran past the " ++ decimalText maxBytes ++ ascii " byte limit.") s.file)
  else if !r.writeOk ∨ r.written ≠ got.length then
    .error (.failed .fileIo (withError (ascii "Writing the download failed") r.lastError) file)
  else if r.cancel then .error (.failed .cancelled [] file)
  else
    .ok { gotTotal := s.gotTotal + got.length, file := file, chunks := s.chunks ++ [got] }

def fileRound (maxBytes : Nat) (s : FileLoop) (r : Round) : Except FileExit FileLoop :=
  match r.avail with
  | none =>
      .error (.failed .read (withError (ascii "The transfer was interrupted") r.lastError) s.file)
  | some a =>
      if a.toNat = 0 then .error (.done s true)
      else
        match readData r (min a.toNat chunkSize) with
        | none => .error (.done s false)
        | some got => if got = [] then .error (.done s false) else fileWrite maxBytes s r got

/-- What a call returns, and the file at `out_path` then. The last three are of the transfer;
`created` is whether the call made the file. -/
structure FileResult where
  code : Code
  err : CString := []
  file : Option Bytes
  created : Bool := false
  ended : Bool := false
  chunks : List Bytes := []

/-- The answers of the file system outside of the rounds, what is at `out_path` before the call, and
whether the callback cancels at the start. -/
structure FileCalls where
  before : Option Bytes := none
  creates : Bool := true
  deletes : Bool := true
  cancel : Bool := false
  lastError : Nat := 0

/-- The `done` label with an error: the file is deleted. -/
def fileFail (f : FileCalls) (errcap : Nat) (code : Code) (err : CString) (created : Bool)
    (file : Option Bytes) : FileResult :=
  { code := code
    err := hfErr errcap err
    file := if f.deletes then none else file
    created := created }

def shortMessage (gotTotal expect : Nat) : CString :=
  ascii "The download stopped short: " ++ decimalText gotTotal ++ ascii " of " ++ decimalText expect ++
    ascii " bytes."

/-- What follows the loop. -/
def fileLeave (f : FileCalls) (errcap expect : Nat) : FileExit → FileResult
  | .done s ended =>
      if expect ≠ 0 ∧ s.gotTotal ≠ expect then
        fileFail f errcap .read (shortMessage s.gotTotal expect) true (some s.file)
      else
        { code := .ok, file := some s.file, created := true, ended := ended, chunks := s.chunks }
  | .failed code err file => fileFail f errcap code err true (some file)

/-- `http_fetch_to_file`; `header` is the text of the Content-Length. -/
def httpFetchToFile (args : Bool) (o : OpenCalls) (header : Option CString) (f : FileCalls)
    (rounds : List Round) (maxBytes errcap : Nat) : Option FileResult :=
  if !args then some { code := .badArg, file := f.before }
  else
    match hfOpen o with
    | .error (code, err) => some { code := code, err := hfErr errcap err, file := f.before }
    | .ok () =>
        let expect := hfContentLength header
        if maxBytes ≠ 0 ∧ maxBytes < expect then
          some (fileFail f errcap .tooBig
            (ascii "The download is " ++ decimalText expect ++ ascii " bytes, over the " ++
              decimalText maxBytes ++ ascii " byte limit.") false f.before)
        else if !f.creates then
          some (fileFail f errcap .fileIo
            (withError (ascii "Could not create the local file") f.lastError) false f.before)
        else if f.cancel then some (fileFail f errcap .cancelled [] true (some []))
        else
          match Exit.loop (fileRound maxBytes) {} rounds with
          | .error e => some (fileLeave f errcap expect e)
          | .ok _ => none

end UnicornSuite.HttpFetch
