import UnicornSuite.LibText
import Mathlib.Data.List.Flatten

/-! The control connection of the FTP retrieve service (`ftp_fetch.c`): a line, read byte by byte, and
a reply, of one line or of several. A socket is what its receives have to give, in the order it arrives;
behind that the connection is closed. -/

namespace UnicornSuite.Ftp

open CText

abbrev Bytes := List UInt8

abbrev Socket := List Bytes

def lf : UInt8 := 0x0A
def cr : UInt8 := 0x0D
def sp : UInt8 := 0x20

/-- `recv` of one byte. -/
def recvByte : Socket → Option (UInt8 × Socket)
  | [] => none
  | [] :: s => recvByte s
  | (c :: chunk) :: s => some (c, chunk :: s)

theorem recvByte_some {s s' : Socket} {c : UInt8} (h : recvByte s = some (c, s')) :
    s.flatten = c :: s'.flatten := by
  induction s with
  | nil => cases h
  | cons chunk s ih =>
      cases chunk with
      | nil => simpa using ih h
      | cons d chunk =>
          cases h
          rfl

theorem recvByte_none {s : Socket} (h : recvByte s = none) : s.flatten = [] := by
  induction s with
  | nil => rfl
  | cons chunk s ih =>
      cases chunk with
      | nil => simpa using ih h
      | cons d chunk => cases h

/-- `ftp_read_line`, from what is in `buf`; `none` is -1. -/
def ftpReadLine (sz : Nat) (s : Socket) (buf : Bytes) : Option (Bytes × Socket) :=
  match _h : recvByte s with
  | none => none
  | some (c, s') =>
      if c = lf then some (buf, s')
      else ftpReadLine sz s' (if c ≠ cr ∧ buf.length < sz - 1 then buf ++ [c] else buf)
termination_by s.flatten.length
decreasing_by
  rw [recvByte_some _h]
  exact Nat.lt_succ_self _

/-- What a line leaves in a buffer. -/
def kept (sz : Nat) (l : Bytes) : Bytes := (l.filter (· ≠ cr)).take (sz - 1)

section Line

variable {sz : Nat} {s s' : Socket} {buf l t : Bytes}

theorem ftpReadLine_append (hbuf : buf.length ≤ sz - 1) (hl : lf ∉ l) (hs : s.flatten = l ++ lf :: t) :
    ∃ s', s'.flatten = t ∧
      ftpReadLine sz s buf = some ((buf ++ l.filter (· ≠ cr)).take (sz - 1), s') := by
  induction l generalizing s buf with
  | nil =>
      rw [List.nil_append] at hs
      cases hrecv : recvByte s with
      | none =>
          rw [recvByte_none hrecv] at hs
          cases hs
      | some p =>
          obtain ⟨c, s'⟩ := p
          rw [recvByte_some hrecv] at hs
          obtain ⟨rfl, hrest⟩ := List.cons.inj hs
          refine ⟨s', hrest, ?_⟩
          rw [ftpReadLine]
          split
          · rename_i hnone
            cases hrecv.symm.trans hnone
          · rename_i hsome
            cases hrecv.symm.trans hsome
            rw [if_pos rfl, List.filter_nil, List.append_nil, List.take_of_length_le hbuf]
  | cons c l ih =>
      cases hrecv : recvByte s with
      | none =>
          rw [recvByte_none hrecv] at hs
          cases hs
      | some p =>
          obtain ⟨d, s₁⟩ := p
          rw [recvByte_some hrecv, List.cons_append] at hs
          obtain ⟨rfl, hrest⟩ := List.cons.inj hs
          have hne : d ≠ lf := (List.ne_of_not_mem_cons hl).symm
          have hread : ftpReadLine sz s buf =
              ftpReadLine sz s₁ (if d ≠ cr ∧ buf.length < sz - 1 then buf ++ [d] else buf) := by
            rw [ftpReadLine]
            split
            · rename_i hnone
              cases hrecv.symm.trans hnone
            · rename_i hsome
              cases hrecv.symm.trans hsome
              rw [if_neg hne]
          rw [hread]
          by_cases hcr : d = cr
          · rw [if_neg fun h => h.1 hcr, List.filter_cons_of_neg (by simp [hcr])]
            exact ih hbuf (List.not_mem_of_not_mem_cons hl) hrest
          · rw [List.filter_cons_of_pos (by simp [hcr])]
            by_cases hroom : buf.length < sz - 1
            · rw [if_pos ⟨hcr, hroom⟩, List.append_cons buf d (l.filter _)]
              refine ih ?_ (List.not_mem_of_not_mem_cons hl) hrest
              rw [List.length_append, List.length_singleton]
              omega
            · -- The buffer is full: nothing of the rest of the line gets in.
              rw [if_neg fun h => hroom h.2]
              obtain ⟨s', hs', hline⟩ := ih hbuf (List.not_mem_of_not_mem_cons hl) hrest
              refine ⟨s', hs', hline.trans ?_⟩
              rw [List.take_append_of_le_length (by omega), List.take_append_of_le_length (by omega)]

theorem ftpReadLine_line (sz : Nat) (hl : lf ∉ l) (hs : s.flatten = l ++ lf :: t) :
    ∃ s', s'.flatten = t ∧ ftpReadLine sz s [] = some (kept sz l, s') :=
  ftpReadLine_append (Nat.zero_le _) hl hs

theorem ftpReadLine_lt {line : Bytes} (h : ftpReadLine sz s buf = some (line, s')) :
    s'.flatten.length < s.flatten.length := by
  induction hn : s.flatten.length using Nat.strongRecOn generalizing s buf with
  | _ n ih =>
      rw [ftpReadLine] at h
      split at h
      · cases h
      · rename_i c s₁ hrecv
        have hlen := congrArg List.length (recvByte_some hrecv)
        rw [List.length_cons] at hlen
        split at h
        · cases h
          omega
        · have hrest := ih s₁.flatten.length (by omega) h rfl
          omega

end Line

/-- A `char` as the number it stands for. -/
def charValue (c : UInt8) : Int := c.toInt8.toInt

/-- The number of the first three characters of a line. -/
def codeOf (line : Bytes) : Int :=
  (charValue (line.getD 0 0) - 48) * 100 + (charValue (line.getD 1 0) - 48) * 10 +
    (charValue (line.getD 2 0) - 48)

/-- A control connection, and the text of the last line that was read from it. -/
structure Ctrl where
  sock : Socket
  last : CString := []

/-- `strncpy` to `last`, which is there if `last_sz` is not 0. -/
def copyLast (lastSz : Nat) (last line : CString) : CString :=
  if lastSz = 0 then last else (cstr line).take (lastSz - 1)

/-- `sizeof line` -/
def lineSize : Nat := 1024

/-- The test for the last line of a reply of several lines. -/
def EndsReply (code : Int) (line : Bytes) : Prop :=
  4 ≤ line.length ∧ line.getD 3 0 = sp ∧ codeOf line = code

instance (code : Int) (line : Bytes) : Decidable (EndsReply code line) := by
  unfold EndsReply
  infer_instance

/-- The lines behind the first one of a reply with this code. -/
def ftpReplyMore (lastSz : Nat) (code : Int) (c : Ctrl) : Int × Ctrl :=
  match h : ftpReadLine lineSize c.sock [] with
  | none => (-1, { c with sock := [] })
  | some (line, s) =>
      let c' : Ctrl := { sock := s, last := copyLast lastSz c.last line }
      if EndsReply code line then (code, c')
      else ftpReplyMore lastSz code c'
termination_by c.sock.flatten.length
decreasing_by exact ftpReadLine_lt h

/-- `ftp_reply` -/
def ftpReply (lastSz : Nat) (c : Ctrl) : Int × Ctrl :=
  match ftpReadLine lineSize c.sock [] with
  | none => (-1, { c with sock := [] })
  | some (line, s) =>
      let c' : Ctrl := { sock := s, last := copyLast lastSz c.last line }
      let code := if 3 ≤ line.length ∧ isDigit (line.getD 0 0) then codeOf line else 0
      if 4 ≤ line.length ∧ line.getD 3 0 = sp then (code, c')
      else if line.length < 4 then (code, c')
      else ftpReplyMore lastSz code c'

section Reply

variable {c : Ctrl} {l t : Bytes}

theorem ftpReplyMore_line (lastSz : Nat) (code : Int) (hl : lf ∉ l) (hs : c.sock.flatten = l ++ lf :: t) :
    ∃ c' : Ctrl, c'.sock.flatten = t ∧
      ftpReplyMore lastSz code c =
        if EndsReply code (kept lineSize l) then (code, c') else ftpReplyMore lastSz code c' := by
  obtain ⟨s', hs', hline⟩ := ftpReadLine_line lineSize hl hs
  refine ⟨{ sock := s', last := copyLast lastSz c.last (kept lineSize l) }, hs', ?_⟩
  rw [ftpReplyMore]
  split
  · rename_i hnone
    cases hline.symm.trans hnone
  · rename_i hsome
    cases hline.symm.trans hsome
    rfl

theorem ftpReply_line (lastSz : Nat) (hl : lf ∉ l) (hs : c.sock.flatten = l ++ lf :: t)
    (hlen : 4 ≤ (kept lineSize l).length) (hdigit : isDigit ((kept lineSize l).getD 0 0) = true) :
    ∃ c' : Ctrl, c'.sock.flatten = t ∧
      ftpReply lastSz c =
        if (kept lineSize l).getD 3 0 = sp then (codeOf (kept lineSize l), c')
        else ftpReplyMore lastSz (codeOf (kept lineSize l)) c' := by
  obtain ⟨s', hs', hline⟩ := ftpReadLine_line lineSize hl hs
  refine ⟨{ sock := s', last := copyLast lastSz c.last (kept lineSize l) }, hs', ?_⟩
  rw [ftpReply, hline]
  dsimp only
  rw [if_pos (show 3 ≤ (kept lineSize l).length ∧ isDigit ((kept lineSize l).getD 0 0) = true from
    ⟨by omega, hdigit⟩)]
  by_cases hsp : (kept lineSize l).getD 3 0 = sp
  · rw [if_pos ⟨hlen, hsp⟩, if_pos hsp]
  · rw [if_neg fun h => hsp h.2, if_neg (by omega), if_neg hsp]

end Reply

end UnicornSuite.Ftp
