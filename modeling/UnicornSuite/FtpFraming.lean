import UnicornSuite.FtpReply
import UnicornSuite.LibRecords
import Mathlib.Logic.Function.Iterate

/-! Commands and replies in step: whether each call of `ftp_reply` takes one reply of RFC 959 off the
control connection. The lines of such a reply end with CRLF, but `ftp_read_line` ends one at every LF
and leaves out every CR, and the line that ends a reply of several is told by a sum over its first three
characters, which need not be digits. -/

namespace UnicornSuite.Ftp

open CText Records

/-! ### Replies -/

structure ReplyCode where
  hundreds : Fin 10
  tens : Fin 10
  units : Fin 10

def digit (n : Fin 10) : UInt8 := 48 + UInt8.ofNat n

def ReplyCode.digits (code : ReplyCode) : Bytes :=
  [digit code.hundreds, digit code.tens, digit code.units]

def ReplyCode.value (code : ReplyCode) : Int :=
  code.hundreds.val * 100 + code.tens.val * 10 + code.units.val

/-- The text of a line, which ends at the first CRLF. -/
structure Text where
  bytes : Bytes
  inLine : ¬ [cr, lf] <:+: bytes

def hyphen : UInt8 := 0x2D

/-- The well-formed replies: one that has several lines ends at the first later line that starts with
its code and a space. -/
inductive Reply where
  | single (code : ReplyCode) (text : Text)
  | multi (code : ReplyCode) (text : Text) (lines : List Text) (last : Text)
      (later : ∀ l ∈ lines, ¬ (code.digits ++ [sp]) <+: l.bytes)

def Reply.code : Reply → ReplyCode
  | single code _ => code
  | multi code _ _ _ _ => code

def Reply.lines : Reply → List Bytes
  | single code text => [code.digits ++ sp :: text.bytes]
  | multi code text lines last _ =>
      (code.digits ++ hyphen :: text.bytes) :: lines.map Text.bytes ++ [code.digits ++ sp :: last.bytes]

def crlfLine (l : Bytes) : Bytes := l ++ [cr, lf]

def Reply.bytes (r : Reply) : Bytes := r.lines.flatMap crlfLine

/-- The lines of a reply as `ftp_read_line` divides them. -/
def Reply.lfLines (r : Reply) : List Bytes := r.lines.flatMap fun l => ended lf (crlfLine l)

/-- A line that `ftp_reply` takes for the last one of a reply with this code. -/
abbrev Closes (code : ReplyCode) (l : Bytes) : Prop := EndsReply code.value (kept lineSize l)

/-- The replies that are read as they are meant: no LF stands alone in the text of a single line, and no
line between the first and the last closes the reply. -/
def Reply.Framed : Reply → Prop
  | single _ text => lf ∉ text.bytes
  | r@(multi code _ _ _ _) => ∀ l ∈ r.lfLines.tail.dropLast, ¬ Closes code l

section Lines

variable {code : ReplyCode} {r : Reply} {l s : Bytes}

theorem flatMap_lfLines (r : Reply) : r.lfLines.flatMap (· ++ [lf]) = r.bytes := by
  unfold Reply.lfLines Reply.bytes
  rw [List.flatMap_assoc]
  refine List.flatMap_congr fun l _ => ?_
  rw [crlfLine, List.append_cons]
  exact flatMap_ended (l ++ [cr])

theorem notMem_of_mem_lfLines (h : l ∈ r.lfLines) : lf ∉ l := by
  obtain ⟨line, _, hl⟩ := List.mem_flatMap.mp h
  exact notMem_of_mem_ended hl

/-- A line is cut at the first LF in it, alone or at its end. -/
theorem exists_ended_crlfLine {head : Bytes} (hhead : lf ∉ head) (text : Bytes) :
    ∃ l more, ended lf (crlfLine (head ++ text)) = (head ++ l) :: more := by
  rcases cases_record lf (text ++ [cr, lf]) with hnone | ⟨l, t, hl, heq⟩
  · exact absurd (List.mem_append_right _ (by decide)) hnone
  · refine ⟨l, ended lf t, ?_⟩
    rw [crlfLine, List.append_assoc, heq, ← List.append_assoc]
    exact ended_append (by simp [hhead, hl]) t

theorem digit_ne (n : Fin 10) : digit n ≠ lf ∧ digit n ≠ cr := by
  revert n
  decide

theorem charValue_digit (n : Fin 10) : charValue (digit n) - 48 = n.val := by
  revert n
  decide

theorem isDigit_digit (n : Fin 10) : isDigit (digit n) = true := by
  revert n
  decide

theorem lf_notMem_head (code : ReplyCode) {c : UInt8} (hc : c ≠ lf) : lf ∉ code.digits ++ [c] := by
  simp [ReplyCode.digits, hc.symm, (digit_ne _).1.symm]

/-- The head of a reply's line is in the buffer as it stands in the line. -/
theorem kept_head (code : ReplyCode) {c : UInt8} (hc : c ≠ cr) (l : Bytes) :
    kept lineSize (code.digits ++ [c] ++ l) =
      code.digits ++ c :: (l.filter (· ≠ cr)).take (lineSize - 5) := by
  simp [kept, ReplyCode.digits, lineSize, hc, (digit_ne _).2]

theorem codeOf_digits (code : ReplyCode) (l : Bytes) : codeOf (code.digits ++ l) = code.value := by
  have hhundreds := charValue_digit code.hundreds
  have htens := charValue_digit code.tens
  have hunits := charValue_digit code.units
  simp [codeOf, ReplyCode.digits, ReplyCode.value, hhundreds, htens, hunits]

theorem closes_head (code : ReplyCode) (l : Bytes) : Closes code (code.digits ++ [sp] ++ l) := by
  refine ⟨?_, ?_, ?_⟩
  · rw [kept_head code (by decide)]
    simp [ReplyCode.digits]
  · rw [kept_head code (by decide)]
    rfl
  · rw [kept_head code (by decide), codeOf_digits]

end Lines

/-! ### Calls -/

section Calls

variable {code : ReplyCode} {c : Ctrl} {s : Bytes}

/-- The lines behind the first one are read up to the first one that closes the reply. -/
theorem ftpReplyMore_lines (lastSz : Nat) {lines : List Bytes} (hlines : ∀ l ∈ lines, lf ∉ l)
    (hcloses : ∃ l ∈ lines, Closes code l) (hs : c.sock.flatten = lines.flatMap (· ++ [lf]) ++ s) :
    (ftpReplyMore lastSz code.value c).1 = code.value ∧
      ((ftpReplyMore lastSz code.value c).2.sock.flatten = s ↔ ∀ l ∈ lines.dropLast, ¬ Closes code l) := by
  induction lines generalizing c with
  | nil => exact absurd hcloses (by simp)
  | cons l lines ih =>
      rw [List.flatMap_cons, List.append_assoc, List.append_assoc, List.singleton_append] at hs
      obtain ⟨c', hc', hread⟩ :=
        ftpReplyMore_line lastSz code.value (hlines l List.mem_cons_self) hs
      rw [hread]
      by_cases hl : Closes code l
      · rw [if_pos hl]
        refine ⟨rfl, ?_⟩
        cases lines with
        | nil => exact iff_of_true hc' (by simp)
        | cons m lines =>
            refine iff_of_false ?_ fun hall => hall l (by simp) hl
            intro hleft
            have hlen := congrArg List.length (hc'.symm.trans hleft)
            simp at hlen
            omega
      · rw [if_neg hl]
        obtain ⟨m, hm, hclose⟩ := hcloses
        rcases List.mem_cons.mp hm with rfl | hm
        · exact absurd hclose hl
        · have hne : lines ≠ [] := List.ne_nil_of_mem hm
          rw [List.dropLast_cons_of_ne_nil hne, List.forall_mem_cons]
          have hrest := ih (fun l hmem => hlines l (List.mem_cons_of_mem _ hmem)) ⟨m, hm, hclose⟩ hc'
          exact ⟨hrest.1, hrest.2.trans (and_iff_right hl).symm⟩

theorem ftpReply_head (lastSz : Nat) {x : UInt8} (hcr : x ≠ cr) {l t : Bytes} (hl : lf ∉ code.digits ++ [x] ++ l)
    (hs : c.sock.flatten = code.digits ++ [x] ++ l ++ lf :: t) :
    ∃ c' : Ctrl, c'.sock.flatten = t ∧
      ftpReply lastSz c =
        if x = sp then (code.value, c') else ftpReplyMore lastSz code.value c' := by
  have hkept := kept_head code hcr l
  have hlen : 4 ≤ (kept lineSize (code.digits ++ [x] ++ l)).length := by
    rw [hkept]
    simp [ReplyCode.digits]
  have hdigit : isDigit ((kept lineSize (code.digits ++ [x] ++ l)).getD 0 0) = true := by
    rw [hkept]
    exact isDigit_digit _
  obtain ⟨c', hc', hread⟩ := ftpReply_line lastSz hl hs hlen hdigit
  refine ⟨c', hc', hread.trans ?_⟩
  rw [hkept, codeOf_digits]
  rfl

/-- A call returns the code of the reply it is at, and takes it off whole if it is read as it is meant. -/
theorem ftpReply_reply (lastSz : Nat) (r : Reply) (hs : c.sock.flatten = r.bytes ++ s) :
    (ftpReply lastSz c).1 = r.code.value ∧
      ((ftpReply lastSz c).2.sock.flatten = s ↔ r.Framed) := by
  cases r with
  | single code text =>
      have hbytes : c.sock.flatten = code.digits ++ [sp] ++ (text.bytes ++ [cr, lf] ++ s) := by
        rw [hs]
        simp [Reply.bytes, Reply.lines, crlfLine]
      by_cases hmem : lf ∈ text.bytes
      · obtain ⟨a, b, htext, ha⟩ := List.eq_append_cons_of_mem hmem
        have hline : lf ∉ code.digits ++ [sp] ++ a :=
          List.not_mem_append (lf_notMem_head code (by decide)) ha
        have hcut : c.sock.flatten = code.digits ++ [sp] ++ a ++ lf :: (b ++ [cr, lf] ++ s) := by
          rw [hbytes, htext]
          simp
        obtain ⟨c', hc', hread⟩ := ftpReply_head lastSz (by decide) hline hcut
        rw [hread, if_pos rfl]
        refine ⟨rfl, iff_of_false ?_ (not_not.mpr hmem)⟩
        intro hleft
        have hlen := congrArg List.length (hc'.symm.trans hleft)
        simp at hlen
        omega
      · have hline : lf ∉ code.digits ++ [sp] ++ (text.bytes ++ [cr]) :=
          List.not_mem_append (lf_notMem_head code (by decide))
            (List.not_mem_append hmem (by decide))
        have hcut : c.sock.flatten = code.digits ++ [sp] ++ (text.bytes ++ [cr]) ++ lf :: s := by
          rw [hbytes]
          simp
        obtain ⟨c', hc', hread⟩ := ftpReply_head lastSz (by decide) hline hcut
        rw [hread, if_pos rfl]
        exact ⟨rfl, iff_of_true hc' hmem⟩
  | multi code text lines last later =>
      obtain ⟨l, more, hfirst⟩ :=
        exists_ended_crlfLine (lf_notMem_head code (c := hyphen) (by decide)) text.bytes
      obtain ⟨m, more', hlast⟩ :=
        exists_ended_crlfLine (lf_notMem_head code (c := sp) (by decide)) last.bytes
      let rest := more ++ (lines.map Text.bytes).flatMap (fun l => ended lf (crlfLine l)) ++
        (code.digits ++ [sp] ++ m) :: more'
      have hlines : (Reply.multi code text lines last later).lfLines =
          (code.digits ++ [hyphen] ++ l) :: rest := by
        rw [Reply.lfLines, Reply.lines, List.flatMap_append, List.flatMap_cons, List.flatMap_singleton,
          List.append_cons code.digits hyphen, List.append_cons code.digits sp, hfirst, hlast]
        simp [rest]
      have hmem : ∀ x ∈ (code.digits ++ [hyphen] ++ l) :: rest, lf ∉ x := by
        rw [← hlines]
        exact fun x => notMem_of_mem_lfLines
      have hcut : c.sock.flatten =
          code.digits ++ [hyphen] ++ l ++ lf :: (rest.flatMap (· ++ [lf]) ++ s) := by
        rw [hs, ← flatMap_lfLines, hlines, List.flatMap_cons]
        simp
      obtain ⟨c', hc', hread⟩ := ftpReply_head lastSz (by decide)
        (hmem _ List.mem_cons_self) hcut
      have hcloses : ∃ x ∈ rest, Closes code x :=
        ⟨_, List.mem_append_right _ List.mem_cons_self, closes_head code m⟩
      rw [hread, if_neg (by decide), Reply.Framed, hlines]
      exact ftpReplyMore_lines lastSz (fun x hx => hmem x (List.mem_cons_of_mem _ hx)) hcloses hc'

end Calls

/-! ### Sessions -/

/-- The call of `ftp_reply` that follows `k` calls. -/
def nthCall (lastSz : Nat) (c : Ctrl) (k : Nat) : Int × Ctrl :=
  ftpReply lastSz ((fun c => (ftpReply lastSz c).2)^[k] c)

/-- Each call returns the code of its own reply and leaves the replies behind it. -/
def InStep (lastSz : Nat) (replies : List Reply) (c : Ctrl) : Prop :=
  ∀ k (hk : k < replies.length), (nthCall lastSz c k).1 = (replies[k]).code.value ∧
    (nthCall lastSz c k).2.sock.flatten = (replies.drop (k + 1)).flatMap Reply.bytes

section Sessions

variable {lastSz : Nat} {r : Reply} {replies : List Reply} {c : Ctrl}

theorem inStep_cons :
    InStep lastSz (r :: replies) c ↔
      ((ftpReply lastSz c).1 = r.code.value ∧
        (ftpReply lastSz c).2.sock.flatten = replies.flatMap Reply.bytes) ∧
      InStep lastSz replies (ftpReply lastSz c).2 := by
  constructor
  · intro h
    exact ⟨h 0 (Nat.succ_pos _), fun k hk => h (k + 1) (Nat.succ_lt_succ hk)⟩
  · rintro ⟨hfirst, hrest⟩ k hk
    cases k with
    | zero => exact hfirst
    | succ k => exact hrest k (Nat.lt_of_succ_lt_succ hk)

/-- A greeting of one line, in two receives. -/
def greeting : Reply := .single ⟨2, 2, 0⟩ ⟨ascii "ready", by decide +kernel⟩

/-- A greeting with a schedule in it. -/
def scheduleGreeting : Reply :=
  .multi ⟨2, 2, 0⟩ ⟨ascii "Uploads close at", by decide +kernel⟩
    [⟨ascii "21: every day", by decide +kernel⟩] ⟨ascii "ready", by decide +kernel⟩ (by decide +kernel)

end Sessions

end UnicornSuite.Ftp
