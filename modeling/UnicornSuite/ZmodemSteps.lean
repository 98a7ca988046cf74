import UnicornSuite.ZmodemRecv

/-! What one step of the receive worker can do to the files and to the counters. Most branches only
move the phase, count errors or answer the sender (`Keeps`); the rest are named by the operation
they perform (`Moves`, `step_moves`). The invariants of the session are read off these cases. -/

namespace UnicornSuite.Zmodem

variable {κ : Type}

namespace Session

/-- The worker is in the loop over the subpackets of a ZDATA frame. -/
def InData (s : Session κ) : Prop := s.phase = .dataTop ∨ s.phase = .data

/-- The files, the record of them and the write position are the same. -/
structure SameData (s s' : Session κ) : Prop where
  files : s'.files = s.files
  ledger : s'.ledger = s.ledger
  received : s'.received = s.received
  path : s'.path = s.path
  out : s'.out = s.out

/-- The step did nothing but move on, answer or give up: it neither opened a data frame nor called
the session a success. -/
structure Keeps (s s' : Session κ) : Prop extends SameData s s' where
  running : s'.Running → s.Running
  data : s'.InData → s.InData
  live : s'.status = .ok → s.status = .ok
  undone : s'.phase ≠ .done → s.phase ≠ .done

section Keeps

variable {s s' s'' : Session κ}

theorem SameData.refl (s : Session κ) : SameData s s := ⟨rfl, rfl, rfl, rfl, rfl⟩

theorem SameData.trans (h : SameData s s') (h' : SameData s' s'') : SameData s s'' :=
  ⟨h'.files.trans h.files, h'.ledger.trans h.ledger, h'.received.trans h.received,
    h'.path.trans h.path, h'.out.trans h.out⟩

theorem Keeps.refl (s : Session κ) : Keeps s s := ⟨SameData.refl s, id, id, id, id⟩

theorem Keeps.trans (h : Keeps s s') (h' : Keeps s' s'') : Keeps s s'' :=
  ⟨h.toSameData.trans h'.toSameData, fun hr => h.running (h'.running hr),
    fun hd => h.data (h'.data hd), fun hl => h.live (h'.live hl),
    fun hn => h.undone (h'.undone hn)⟩

theorem running_of_phase {p : Phase} (hp : s.phase = p) (h : p ≠ .exit ∧ p ≠ .done) : s.Running := by
  unfold Running
  rwa [hp]

theorem Running.undone (h : s.Running) : s.phase ≠ .done := h.2

theorem InData.running (h : s.InData) : s.Running := by
  rcases h with h | h
  · exact running_of_phase h (by decide)
  · exact running_of_phase h (by decide)

variable (os : Os) (r : Reply) {st : Status} (d : String)

theorem keeps_goto {p : Phase} (hr : s.Running) (hp : p = .top ∨ p = .header ∨ p = .sinit ∨ p = .file ∨
    p = .exit ∨ s.InData ∧ p ≠ .done) : Keeps s (goto p s) := by
  refine ⟨⟨rfl, rfl, rfl, rfl, rfl⟩, fun _ => hr, ?_, id, fun _ => hr.undone⟩
  intro hd
  rcases hp with rfl | rfl | rfl | rfl | rfl | hp
  all_goals try (rcases hd with hd | hd <;> cases hd; done)
  exact hp.1

theorem keeps_stop (hs : st ≠ .ok) (hr : s.Running) : Keeps s (stop st d s) := by
  refine ⟨⟨rfl, rfl, rfl, rfl, rfl⟩, fun _ => hr, ?_, fun h => absurd h hs, fun _ => hr.undone⟩
  intro hd
  rcases hd with hd | hd <;> cases hd

theorem keeps_zsend : Keeps s (zsend r os s) := ⟨⟨rfl, rfl, rfl, rfl, rfl⟩, id, id, id, id⟩

theorem keeps_zsendCancel : Keeps s (zsendCancel s) := ⟨⟨rfl, rfl, rfl, rfl, rfl⟩, id, id, id, id⟩

theorem keeps_errors (n : Nat) : Keeps s { s with errors := n } :=
  ⟨⟨rfl, rfl, rfl, rfl, rfl⟩, id, id, id, id⟩

theorem keeps_cancelled (hr : s.Running) : Keeps s (cancelled s) :=
  keeps_zsendCancel.trans (keeps_stop _ (by decide) hr)

theorem keeps_ownCancelOr (hs : st ≠ .ok) (hr : s.Running) : Keeps s (ownCancelOr st d s) := by
  unfold ownCancelOr
  split_ifs
  · exact keeps_cancelled hr
  · exact keeps_stop d hs hr

theorem keeps_retry (hr : s.Running) : Keeps s (retry d r os s) := by
  unfold retry
  split_ifs
  · exact (keeps_errors _).trans (keeps_stop d (by decide) hr)
  · exact ((keeps_errors _).trans (keeps_zsend os r)).trans (keeps_goto hr (.inl rfl))

theorem keeps_reply (hr : s.Running) : Keeps s (goto .top (zsend r os s)) :=
  (keeps_zsend os r).trans (keeps_goto hr (.inl rfl))

theorem keeps_refuse (hs : st ≠ .ok) (hr : s.Running) : Keeps s (stop st d (zsendCancel s)) :=
  keeps_zsendCancel.trans (keeps_stop d hs hr)

theorem keeps_loopTop (hr : s.Running) : Keeps s (loopTop s) := by
  unfold loopTop
  split_ifs
  · exact keeps_cancelled hr
  · exact keeps_stop _ (by decide) hr
  · exact keeps_goto hr (.inr (.inl rfl))

theorem keeps_dataTop (hd : s.InData) : Keeps s (dataTop s) := by
  unfold dataTop
  split_ifs
  · exact keeps_cancelled hd.running
  · exact keeps_goto hd.running (by simp [hd])

theorem keeps_onSinit (b : Except ZError Subpacket) (hr : s.Running) : Keeps s (onSinit b os s) := by
  unfold onSinit
  split
  · exact keeps_ownCancelOr _ (by decide) hr
  · exact keeps_reply os _ hr

theorem keeps_afterBlock (e : FrameEnd) (hd : s.InData) : Keeps s (afterBlock e os s) := by
  have hr := hd.running
  cases e with
  | crce => exact keeps_goto hr (.inl rfl)
  | crcg => exact keeps_goto hr (by simp [hd])
  | crcq =>
      exact (keeps_zsend os _).trans
        (keeps_goto hr (.inr (.inr (.inr (.inr (.inr ⟨hd, by decide⟩))))))
  | crcw => exact keeps_reply os _ hr

theorem not_running_stop : ¬ (stop st d s).Running := fun h => h.1 rfl

end Keeps

end Session

/-! The files of the record are the same whatever is noted about the current one. -/

namespace Ledger

variable (l : Ledger κ)

@[simp] theorem created_eof (p : Nat) : (l.eof p).created = l.created := by
  unfold created all eof
  cases l.current <;> rfl

@[simp] theorem created_wrote (b : Subpacket) (n : Nat) : (l.wrote b n).created = l.created := by
  unfold created all wrote
  cases l.current <;> rfl

end Ledger

namespace Session

section Operations

variable [DecidableEq κ] (key : CString → κ)

/-- The ZEOF of a position is noted. -/
def mark (p : Nat) (s : Session κ) : Session κ := { s with ledger := s.ledger.eof p }

/-- The stream of an accepted ZDATA header begins. -/
def frame (p : Nat) (s : Session κ) : Session κ :=
  { s with ledger := s.ledger.frame p, phase := .dataTop }

theorem writeBlock_errors (b : Subpacket) (n m : Nat) (s : Session κ) :
    writeBlock b n { s with errors := m } = { writeBlock b n s with errors := m } := by
  obtain ⟨⟩ := s
  rename_i out _ _ _
  cases out <;> rfl

theorem writeBlock_phase (b : Subpacket) (n : Nat) (s : Session κ) :
    (writeBlock b n s).phase = s.phase := by
  unfold writeBlock
  split <;> rfl

theorem writeBlock_of_open (b : Subpacket) (n : Nat) {s : Session κ} {k : κ} (h : s.out = some k) :
    writeBlock b n s =
      { s with
        files := Function.update s.files k ((s.files k).map (· ++ b.payload.take n))
        ledger := s.ledger.wrote b n } := by
  unfold writeBlock
  rw [h]

theorem writeBlock_written (b : Subpacket) (n : Nat) (s : Session κ) :
    (writeBlock b n s).ledger.written ≤ s.ledger.written + n := by
  unfold writeBlock
  split
  · exact Nat.le_add_right _ _
  · exact Nat.le_refl _

theorem writeBlock_received (b : Subpacket) (n : Nat) (s : Session κ) :
    (writeBlock b n s).received = s.received := by
  unfold writeBlock
  split <;> rfl

theorem cleanUp_ledger (os : Os) (s : Session κ) : (cleanUp key os s).ledger = s.ledger := by
  unfold cleanUp
  simp only
  split_ifs <;> rfl

theorem cleanUp_phase (os : Os) (s : Session κ) : (cleanUp key os s).phase = .done := by
  unfold cleanUp
  simp only
  split_ifs <;> rfl

end Operations

end Session

open Session

variable [DecidableEq κ] (key : CString → κ)

def Event.isHeader : Event → Bool
  | .header _ _ => true
  | _ => false

/-- What a step can do. -/
inductive Moves (s : Session κ) (e : Event) (s' : Session κ) : Prop where
  | keeps (h : Keeps s s')
  | success (hr : s.Running) (hf : finishes s e = true) (hd : SameData s s') (hs : ¬ s'.Running)
  | marked (he : e.isHeader) (hr : s.Running) (p : Nat) (h : Keeps (mark p s) s')
  | framed (he : e.isHeader) (hr : s.Running) (hopen : s.out.isSome) (h : Keeps (frame s.received s) s')
  | refused (name : CString) (n : Nat) (ho : offers s e = some name) (hp : s.phase = .file)
      (h : Keeps (claimPath key name n s) s') (hs : ¬ s'.Running)
  | opened (name : CString) (n : Nat) (ho : offers s e = some name) (hp : s.phase = .file)
      (hfree : s.files (key (claimPath key name n s).path) = none)
      (h : Keeps (createFile key (claimPath key name n s)) s')
  | wrote (b : Subpacket) (hb : delivers s e = some b) (hd : s.InData)
      (hle : s.received + b.payload.length ≤ zmrMaxBytes)
      (h : Keeps (advance b.payload.length (writeBlock b b.payload.length s)) s')
  | short (b : Subpacket) (n : Nat) (hb : delivers s e = some b) (hd : s.InData)
      (hle : s.received + b.payload.length ≤ zmrMaxBytes) (hn : n ≤ b.payload.length)
      (h : Keeps (writeBlock b n s) s') (hs : ¬ s'.Running)
  | cleaned (os : Os) (he : e = .turn os) (hp : s.phase = .exit) (h : s' = cleanUp key os s)

theorem Os.fwrite_le (os : Os) (n : Nat) : os.fwrite n ≤ n := by
  unfold Os.fwrite
  split
  · exact Nat.le_refl n
  · exact Nat.min_le_right _ n

section Handlers

variable {s : Session κ} (os : Os)

theorem onFile_moves (r : Except ZError Subpacket) (hp : s.phase = .file) :
    Moves key s (.block r os) (onFile key r os s) := by
  have hr : s.Running := running_of_phase hp (by decide)
  unfold onFile
  split
  · exact .keeps (keeps_ownCancelOr _ (by decide) hr)
  · exact .keeps (keeps_retry os _ _ hr)
  · rename_i b
    by_cases hadv : (parseZfile b.payload).2 > zmrMaxBytes
    · simp only [hadv, ↓reduceIte]
      exact .keeps (keeps_refuse _ (by decide) hr)
    · have ho : offers s (.block (.ok b) os) = some (parseZfile b.payload).1 := by
        rw [offers, if_pos ⟨hp, by omega⟩]
      simp only [hadv, ↓reduceIte]
      split_ifs with hfound hopen
      · exact .refused _ _ ho hp (keeps_refuse _ (by decide) hr) (not_running_stop _)
      · exact .refused _ _ ho hp (keeps_refuse _ (by decide) hr) (not_running_stop _)
      · have hfree := buildUniquePath_free (Bool.not_eq_false _ |>.mp hfound)
        exact .opened _ (parseZfile b.payload).2 ho hp
          (Option.not_isSome_iff_eq_none.mp (Bool.not_eq_true _ |>.mpr hfree))
          (keeps_reply os _ hr)

theorem onData_moves (r : Except ZError Subpacket) (hp : s.phase = .data) :
    Moves key s (.block r os) (onData r os s) := by
  have hd : s.InData := .inr hp
  have hr := hd.running
  unfold onData
  split
  · exact .keeps (keeps_ownCancelOr _ (by decide) hr)
  · exact .keeps (keeps_ownCancelOr _ (by decide) hr)
  · exact .keeps (keeps_retry os _ _ hr)
  · rename_i b
    have hb : delivers s (.block (.ok b) os) = some b := if_pos hp
    simp only
    split_ifs with hmax hshort
    · exact .keeps ((keeps_errors 0).trans (keeps_refuse _ (by decide) hr))
    · have hw : (writeBlock b (os.fwrite b.payload.length) s).Running :=
        running_of_phase ((writeBlock_phase b _ s).trans hp) (by decide)
      rw [writeBlock_errors]
      exact .short b _ hb hd (by omega) (os.fwrite_le _)
        ((keeps_errors 0).trans (keeps_refuse _ (by decide) hw)) (not_running_stop _)
    · have hw : (advance b.payload.length (writeBlock b b.payload.length s)).InData :=
        .inr ((writeBlock_phase b _ s).trans hp)
      rw [writeBlock_errors]
      exact .wrote b hb hd (by omega) ((keeps_errors 0).trans (keeps_afterBlock os _ hw))

theorem onEof_moves {e : Event} (he : e.isHeader) (p : UInt32) (hr : s.Running) : Moves key s e (onEof p os s) := by
  unfold onEof
  simp only
  split_ifs
  · exact .marked he hr p.toNat (keeps_stop _ (by decide) hr)
  · exact .marked he hr p.toNat (keeps_reply os _ hr)

theorem onFin_moves {e : Event} (hf : finishes s e = true) (hr : s.Running) :
    Moves key s e (onFin os s) := by
  unfold onFin
  simp only
  split_ifs
  · exact .success hr hf ⟨rfl, rfl, rfl, rfl, rfl⟩ (not_running_stop _)
  · exact .keeps ((keeps_zsend os _).trans (keeps_stop _ (by decide) hr))
  · exact .keeps ((keeps_zsend os _).trans (keeps_goto hr (by simp)))

theorem onDataHeader_moves {e : Event} (he : e.isHeader) (p : Nat) (hr : s.Running) :
    Moves key s e (onDataHeader p os s) := by
  unfold onDataHeader
  split_ifs with hopen hpos
  · exact .keeps (keeps_reply os _ hr)
  · exact .keeps (keeps_reply os _ hr)
  · obtain rfl : p = s.received := Decidable.not_not.mp hpos
    exact .framed he hr (Option.isSome_iff_ne_none.mpr (fun h => hopen (by simp [h]))) (Keeps.refl _)

theorem onFrame_moves {e : Event} {hdr : Header} (he : e.isHeader)
    (hf : FrameType.ofByte hdr.type = .zfin → finishes s e = true) (hr : s.Running) :
    Moves key s e (onFrame hdr os s) := by
  unfold onFrame
  split
  · exact .keeps (keeps_refuse _ (by decide) hr)
  · exact .keeps (keeps_refuse _ (by decide) hr)
  · exact .keeps (keeps_reply os _ hr)
  · exact .keeps (keeps_goto hr (by simp))
  · exact .keeps (keeps_reply os _ hr)
  · exact .keeps (keeps_reply os _ hr)
  · exact .keeps (keeps_goto hr (by simp))
  · exact onDataHeader_moves key os he _ hr
  · exact onEof_moves key os he _ hr
  · rename_i hfin
    exact onFin_moves key os (hf hfin) hr
  · exact .keeps (keeps_stop _ (by decide) hr)
  · exact .keeps (keeps_stop _ (by decide) hr)
  · exact .keeps (keeps_stop _ (by decide) hr)
  · exact .keeps (keeps_stop _ (by decide) hr)
  · exact .keeps (keeps_retry os _ _ hr)

/-- The error count, which a good header clears, plays no part in what a header does. -/
theorem moves_of_errors {s' : Session κ} {r : Except ZError Header}
    (h : Moves key { s with errors := 0 } (.header r os) s') : Moves key s (.header r os) s' := by
  cases h with
  | keeps h => exact .keeps ((keeps_errors 0).trans h)
  | success hr hf hd hs => exact .success hr hf ((keeps_errors 0).toSameData.trans hd) hs
  | marked he hr p h => exact .marked he hr p ((keeps_errors (s := mark p s) 0).trans h)
  | framed he hr hopen h => exact .framed he hr hopen ((keeps_errors (s := frame _ s) 0).trans h)
  | refused _ _ ho => cases ho
  | opened _ _ ho => cases ho
  | wrote _ hb => cases hb
  | short _ _ hb => cases hb
  | cleaned _ he => cases he

end Handlers

theorem step_moves (s : Session κ) (e : Event) : Moves key s e (step key s e) := by
  cases e with
  | cancel => exact .keeps ⟨⟨rfl, rfl, rfl, rfl, rfl⟩, id, id, id, id⟩
  | turn os =>
      unfold step
      simp only
      split
      · rename_i hp
        exact .keeps (keeps_loopTop (running_of_phase hp (by decide)))
      · rename_i hp
        exact .keeps (keeps_dataTop (.inl hp))
      · rename_i hp
        exact .cleaned os rfl hp rfl
      · exact .keeps (Keeps.refl s)
  | header r os =>
      unfold step
      simp only
      split_ifs with hp
      · have hr : s.Running := running_of_phase hp (by decide)
        unfold onHeader
        split
        · exact .keeps (keeps_ownCancelOr _ (by decide) hr)
        · exact .keeps (keeps_ownCancelOr _ (by decide) hr)
        · exact .keeps (keeps_retry os _ _ hr)
        · rename_i hdr
          refine moves_of_errors key os (onFrame_moves key os rfl ?_ hr)
          intro hfin
          simp [finishes, hp, hfin]
      · exact .keeps (Keeps.refl s)
  | block r os =>
      unfold step
      simp only
      split
      · rename_i hp
        exact .keeps (keeps_onSinit os r (running_of_phase hp (by decide)))
      · rename_i hp
        exact onFile_moves key os r hp
      · rename_i hp
        exact onData_moves key os r hp
      · exact .keeps (Keeps.refl s)

end UnicornSuite.Zmodem
