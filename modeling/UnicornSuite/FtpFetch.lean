import UnicornSuite.FtpReply
import UnicornSuite.LibRounds

/-! One download (`ftp_fetch_file`): the commands up to PASV, then the local file is opened, and RETR, the
data connection and the reply at its end follow. All failures behind the connect meet at one clean-up,
which removes what is at the local path, so that a failure before the file is opened removes a file
that is not of this download. -/

namespace UnicornSuite.Ftp

open CText

/-- `%d` of `sscanf`, without the bounds of an `int`. -/
def scanInt (s : CString) : Option (Int × CString) :=
  let s := s.dropWhile isSpace
  let digits := if s.head? = some 0x2B ∨ s.head? = some 0x2D then s.tail else s
  let n : Int := decimal 0 (digits.takeWhile isDigit)
  if digits.takeWhile isDigit = [] then none
  else some (if s.head? = some 0x2D then -n else n, digits.dropWhile isDigit)

/-- `%d,%d,...` with `n` commas. -/
def scanInts : Nat → CString → Option (List Int)
  | 0, s => (scanInt s).map fun p => [p.1]
  | n + 1, s =>
      match scanInt s with
      | some (v, 0x2C :: s) => (scanInts n s).map (v :: ·)
      | _ => none

/-- `ftp_parse_pasv` -/
def ftpParsePasv (line : CString) : Option Int :=
  let p :=
    match line.dropWhile (· ≠ 0x28) with
    | _ :: p => p
    | [] => (line.dropWhile (· ≠ sp)).dropWhile fun c => !isDigit c
  match scanInts 5 p with
  | some [_, _, _, _, p1, p2] =>
      if p1 < 0 ∨ 255 < p1 ∨ p2 < 0 ∨ 255 < p2 then none else some (p1 * 256 + p2)
  | _ => none

inductive Command where
  | user | pass | type | pasv | retr

/-- The answers in one round of the data loop: `recv`, where `none` is an error and no bytes are the end,
and `fwrite`. -/
structure DataRound where
  recv : Option Bytes
  written : Nat := 0

/-- The arguments, of which NULL is the empty string, what is at the local path before the call, and
the answers of the network, the heap and the file system. -/
structure Answers where
  host : CString
  remotePath : CString
  localPath : CString
  before : Option Bytes := none
  connects : Bool := true
  ctrl : Socket := []
  sends : Command → Bool := fun _ => true
  dataConnects : Int → Bool := fun _ => true
  opens : Bool := true
  malloc : Bool := true
  rounds : List DataRound := []
  closes : Bool := true
  removes : Bool := true

/-- `ftp_cmd` -/
def ftpCmd (sent : Bool) (c : Ctrl) : Int × Ctrl := if sent then ftpReply lineSize c else (-1, c)

/-- `%.180s` of the last line. -/
def withLine (text : String) (c : Ctrl) : CString := ascii text ++ c.last.take 180

/-- The session up to the local file; an error is the message of the failure. -/
def ftpPrepare (a : Answers) : Except CString Ctrl := do
  let (code, c) := ftpReply lineSize { sock := a.ctrl }
  if code.tdiv 100 ≠ 2 then throw (ascii "No FTP greeting from server.")
  let (code, c) := ftpCmd (a.sends .user) c
  if code ≠ 331 ∧ code.tdiv 100 ≠ 2 then throw (withLine "USER rejected: " c)
  let (code, c) := if code = 331 then ftpCmd (a.sends .pass) c else (code, c)
  if code.tdiv 100 ≠ 2 then throw (withLine "Anonymous login failed: " c)
  let (code, c) := ftpCmd (a.sends .type) c
  if code.tdiv 100 ≠ 2 then throw (ascii "Server refused binary mode.")
  let (code, c) := ftpCmd (a.sends .pasv) c
  match if code = 227 then ftpParsePasv c.last else none with
  | none => throw (ascii "Server refused passive mode.")
  | some dport =>
      if !a.dataConnects dport then throw (ascii "Cannot open data connection.")
      return c

/-- `FTP_RECV_CHUNK` -/
def ftpRecvChunk : Nat := 32768

/-- The state of the data loop: the file and `total`, and the chunks that were received. -/
structure DataLoop where
  total : Int32 := 0
  file : Bytes := []
  chunks : List Bytes := []

inductive DataExit where
  | done (s : DataLoop)
  | failed (err : CString) (file : Bytes)

def dataRound (s : DataLoop) (r : DataRound) : Except DataExit DataLoop :=
  match r.recv.map (·.take ftpRecvChunk) with
  | none => .error (.failed (ascii "Data connection dropped.") s.file)
  | some got =>
      if got = [] then .error (.done s)
      else if r.written ≠ got.length then
        .error (.failed (ascii "Cannot write to local file.") (s.file ++ got.take r.written))
      else
        .ok { total := s.total + Int32.ofNat got.length
              file := s.file ++ got
              chunks := s.chunks ++ [got] }

/-- What a call returns, the text for `errbuf` before it is cut to size, and what is at the local path
then. The last four are of the transfer: whether the local file was opened, the replies to RETR and at
the end, and what was received on a data connection that was read to its end. -/
structure FetchResult where
  ok : Bool
  err : CString := []
  outTotal : Int32 := 0
  file : Option Bytes
  opened : Bool
  retr : Option Int := none
  completion : Option Int := none
  received : Option Bytes := none

/-- The `done` label on a failure. -/
def cleanUp (a : Answers) (err : CString) (opened : Bool) (file : Option Bytes) : FetchResult :=
  { ok := false
    err := err
    file := if a.removes then none else file
    opened := opened }

/-- What follows the data loop. -/
def ftpComplete (a : Answers) (c : Ctrl) (retr : Int) : DataExit → FetchResult
  | .failed err file => cleanUp a err true (some file)
  | .done s =>
      if !a.closes then cleanUp a (ascii "Cannot flush local file.") true (some s.file)
      else
        let (code, c) := ftpReply lineSize c
        if code.tdiv 100 ≠ 2 then
          cleanUp a (withLine "Transfer incomplete: " c) true (some s.file)
        else
          { ok := true
            outTotal := s.total
            file := some s.file
            opened := true
            retr := some retr
            completion := some code
            received := some s.chunks.flatten }

/-- The session behind `fopen`. `none` is a transfer under way. -/
def ftpTransfer (a : Answers) (c : Ctrl) : Option FetchResult :=
  let (code, c) := ftpCmd (a.sends .retr) c
  if code.tdiv 100 ≠ 1 then some (cleanUp a (withLine "RETR failed: " c) true (some []))
  else if !a.malloc then some (cleanUp a (ascii "Out of memory.") true (some []))
  else
    match Exit.loop dataRound {} a.rounds with
    | .error e => some (ftpComplete a c code e)
    | .ok _ => none

def badArgs (a : Answers) : Bool := a.host = [] ∨ a.remotePath = [] ∨ a.localPath = []

/-- `ftp_fetch_file` -/
def ftpFetchFile (a : Answers) : Option FetchResult :=
  if badArgs a then
    some { ok := false, err := ascii "Bad download parameters.", file := a.before, opened := false }
  else if !a.connects then
    some { ok := false, err := ascii "Cannot connect to " ++ a.host ++ ascii ".", file := a.before,
           opened := false }
  else
    match ftpPrepare a with
    | .error err => some (cleanUp a err false a.before)
    | .ok c =>
        if !a.opens then
          some (cleanUp a (ascii "Cannot create " ++ a.localPath ++ ascii ".") false a.before)
        else ftpTransfer a c

/-! ### Atomicity -/

/-- A success has RETR accepted, the data connection read to its end, a completion reply, and all that
was received in the file. A failure leaves no file that this download has opened, and any other as it
was. -/
def FetchSound (a : Answers) (r : FetchResult) : Prop :=
  (r.ok = true → (∃ code, r.retr = some code ∧ code.tdiv 100 = 1) ∧
    (∃ code, r.completion = some code ∧ code.tdiv 100 = 2) ∧
    ∃ bytes, r.received = some bytes ∧ r.file = some bytes) ∧
  (r.ok = false → r.file = if r.opened then none else a.before)

/-- The clean-up has nothing to spoil before the local file is opened, and removes it after that. -/
def CleanUpFits (a : Answers) : Prop :=
  badArgs a = false → a.connects = true →
    match ftpPrepare a with
    | .error _ => a.before = none ∨ a.removes = false
    | .ok c =>
        if a.opens then a.removes = true ∨ ∀ r, ftpTransfer a c = some r → r.ok = true
        else a.before = none ∨ a.removes = false

section Atomicity

variable {a : Answers} {s s' : DataLoop} {r : DataRound}

theorem cleanUp_sound_iff (err : CString) (opened : Bool) (file : Option Bytes) :
    FetchSound a (cleanUp a err opened file) ↔
      (if a.removes then none else file) = if opened then none else a.before :=
  ⟨fun h => h.2 rfl, fun h => ⟨nofun, fun _ => h⟩⟩

/-- Before the file is opened, what is there is what was there. -/
theorem cleanUp_before_iff (err : CString) :
    FetchSound a (cleanUp a err false a.before) ↔ a.before = none ∨ a.removes = false := by
  rw [cleanUp_sound_iff]
  cases a.removes <;> simp [eq_comm]

theorem cleanUp_opened_iff (err : CString) (file : Bytes) :
    FetchSound a (cleanUp a err true (some file)) ↔ a.removes = true := by
  rw [cleanUp_sound_iff]
  cases a.removes <;> simp

theorem dataRound_holds (h : s.file = s.chunks.flatten) (hround : dataRound s r = .ok s') :
    s'.file = s'.chunks.flatten := by
  unfold dataRound at hround
  split at hround
  · cases hround
  · split at hround
    · cases hround
    · split at hround
      · cases hround
      · cases hround
        dsimp only
        rw [List.flatten_append, List.flatten_singleton, h]

/-- The loop is left at the end of the data with all of it in the file. -/
theorem dataLoop_done {rounds : List DataRound}
    (hloop : Exit.loop dataRound {} rounds = .error (.done s)) : s.file = s.chunks.flatten := by
  have hleave (s₁ : DataLoop) (r : DataRound) (e : DataExit) (h : s₁.file = s₁.chunks.flatten)
      (he : dataRound s₁ r = .error e) : ∀ s, e = .done s → s.file = s.chunks.flatten := by
    rintro s rfl
    unfold dataRound at he
    split at he
    · cases he
    · split at he
      · cases he
        exact h
      · split at he <;> cases he
  exact Exit.leaves_good (I := fun s => s.file = s.chunks.flatten) (fun _ _ _ => dataRound_holds) hleave rfl
    hloop s rfl

theorem ftpComplete_sound_iff {c : Ctrl} {retr : Int} {e : DataExit} (hretr : retr.tdiv 100 = 1)
    (hdone : ∀ s, e = .done s → s.file = s.chunks.flatten) :
    FetchSound a (ftpComplete a c retr e) ↔ a.removes = true ∨ (ftpComplete a c retr e).ok = true := by
  have hfailed (err : CString) (file : Bytes) : FetchSound a (cleanUp a err true (some file)) ↔
      a.removes = true ∨ (cleanUp a err true (some file)).ok = true :=
    (cleanUp_opened_iff err file).trans (or_iff_left (nofun)).symm
  unfold ftpComplete
  cases e with
  | failed err file => exact hfailed err file
  | done s =>
      dsimp only
      split
      · exact hfailed _ _
      · split
        · exact hfailed _ _
        · rename_i hcode
          refine iff_of_true ⟨fun _ => ⟨⟨_, rfl, hretr⟩, ⟨_, rfl, not_not.mp hcode⟩, _, rfl, ?_⟩, nofun⟩
            (Or.inr rfl)
          rw [hdone s rfl]

theorem ftpTransfer_sound_iff (a : Answers) (c : Ctrl) :
    (∀ r, ftpTransfer a c = some r → FetchSound a r) ↔
      a.removes = true ∨ ∀ r, ftpTransfer a c = some r → r.ok = true := by
  unfold ftpTransfer
  dsimp only
  split
  · simp only [Option.some.injEq, forall_eq', cleanUp_opened_iff]
    exact (or_iff_left (nofun)).symm
  · rename_i hretr
    split
    · simp only [Option.some.injEq, forall_eq', cleanUp_opened_iff]
      exact (or_iff_left (nofun)).symm
    · split
      · rename_i e he
        simp only [Option.some.injEq, forall_eq']
        exact ftpComplete_sound_iff (not_not.mp hretr) fun s hs => dataLoop_done (hs ▸ he)
      · exact iff_of_true nofun (Or.inr nofun)

/-- A download is atomic exactly if the clean-up, where the session comes to it, has something of its
own to remove or nothing at all. -/
theorem fetch_atomic_iff (a : Answers) :
    (∀ r, ftpFetchFile a = some r → FetchSound a r) ↔ CleanUpFits a := by
  unfold ftpFetchFile CleanUpFits
  cases hargs : badArgs a with
  | true =>
      refine iff_of_true ?_ nofun
      rintro r ⟨⟩
      exact ⟨nofun, fun _ => rfl⟩
  | false =>
      rw [forall_prop_of_true rfl, if_neg (by decide)]
      cases hconnects : a.connects with
      | false =>
          refine iff_of_true ?_ nofun
          rintro r ⟨⟩
          exact ⟨nofun, fun _ => rfl⟩
      | true =>
          rw [forall_prop_of_true rfl, if_neg (by decide)]
          cases ftpPrepare a with
          | error err =>
              simp only [Option.some.injEq, forall_eq']
              exact cleanUp_before_iff err
          | ok c =>
              dsimp only
              cases hopens : a.opens with
              | false =>
                  rw [if_pos (by decide), if_neg (by decide)]
                  simp only [Option.some.injEq, forall_eq']
                  exact cleanUp_before_iff _
              | true =>
                  rw [if_neg (by decide), if_pos rfl]
                  exact ftpTransfer_sound_iff a c

/-- A server that closes the connection at once, and a file of the same name that is there. -/
def closedServer : Answers :=
  { host := ascii "ftp"
    remotePath := ascii "/a"
    localPath := ascii "a"
    before := some (ascii "mine") }

theorem ftpPrepare_closedServer :
    ftpPrepare closedServer = .error (ascii "No FTP greeting from server.") := by
  have hreply : ftpReply lineSize { sock := [] } = (-1, { sock := [] }) := by
    rw [ftpReply, ftpReadLine]
    rfl
  unfold ftpPrepare
  rw [show closedServer.ctrl = [] from rfl, hreply]
  rfl

/-- The file is gone, though the download never came to it. -/
theorem closedServer_removes : ¬ ∀ r, ftpFetchFile closedServer = some r → FetchSound closedServer r := by
  intro h
  have hreturns : ftpFetchFile closedServer =
      some (cleanUp closedServer (ascii "No FTP greeting from server.") false closedServer.before) := by
    unfold ftpFetchFile
    rw [ftpPrepare_closedServer]
    rfl
  exact nomatch (h _ hreturns).2 rfl

end Atomicity

end UnicornSuite.Ftp
