import UnicornSuite.MinitelRun

/-! What is left in the accumulators of the parser is never read, and a control code ends whatever sequence
it comes in. The counters and what has been answered so far play no part (`Tally`): the screen is what it
would be from a start without them. -/

namespace UnicornSuite.Minitel

open CInt

/-! ### Counters and answers -/

/-- The fields of a screen that are only added to. -/
structure Tally where
  stats : Stats
  replies : List (List Nat)
  ever : Bool
  rolled : Bool

def Stats.plus (a b : Stats) : Stats where
  bytesIn := a.bytesIn + b.bytesIn
  chars := a.chars + b.chars
  filtered := a.filtered + b.filtered
  resync := a.resync + b.resync
  errors := a.errors + b.errors
  row0 := a.row0 + b.row0
  protocol := a.protocol + b.protocol
  unrepresent := a.unrepresent + b.unrepresent
  bit8 := a.bit8 + b.bit8
  bells := a.bells + b.bells
  usIgnored := a.usIgnored + b.usIgnored

namespace Tally

def ofScreen (s : Screen) : Tally := ⟨s.stats, s.replies, s.ever, s.rolled⟩

/-- The screen on top of what was counted before. -/
def add (k : Tally) (s : Screen) : Screen :=
  { s with
    stats := k.stats.plus s.stats
    replies := k.replies ++ s.replies
    ever := k.ever || s.ever
    rolled := k.rolled || s.rolled }

/-- The screen without its tally. -/
def clear (s : Screen) : Screen :=
  { s with stats := {}, replies := [], ever := false, rolled := false }

variable (k : Tally) (s : Screen)

theorem add_clear : (ofScreen s).add (clear s) = s := by
  simp [ofScreen, add, clear, Stats.plus]

@[simp] theorem add_mem : (k.add s).mem = s.mem := rfl

@[simp] theorem add_row : (k.add s).row = s.row := rfl

@[simp] theorem add_col : (k.add s).col = s.col := rfl

@[simp] theorem add_a : (k.add s).a = s.a := rfl

@[simp] theorem add_inRow0 : (k.add s).inRow0 = s.inRow0 := rfl

@[simp] theorem add_scroll : (k.add s).scroll = s.scroll := rfl

@[simp] theorem add_insert : (k.add s).insert = s.insert := rfl

@[simp] theorem add_lastKind : (k.add s).lastKind = s.lastKind := rfl

@[simp] theorem add_lastCode : (k.add s).lastCode = s.lastCode := rfl

/-! What the screen does is the same on top of any tally. -/

@[simp] theorem filtered_add : filtered (k.add s) = k.add (filtered s) := by
  simp only [filtered, add, Stats.plus, UInt32.add_assoc]

@[simp] theorem unrepresent_add : unrepresent (k.add s) = k.add (unrepresent s) := by
  simp only [unrepresent, add, Stats.plus, UInt32.add_assoc]

@[simp] theorem protocol_add : protocol (k.add s) = k.add (protocol s) := by
  simp only [protocol, add, Stats.plus, UInt32.add_assoc]

@[simp] theorem usIgnored_add : usIgnored (k.add s) = k.add (usIgnored s) := by
  simp only [usIgnored, add, Stats.plus, UInt32.add_assoc]

@[simp] theorem countChar_add : countChar (k.add s) = k.add (countChar s) := by
  simp only [countChar, add, Stats.plus, UInt32.add_assoc]

@[simp] theorem countBell_add : countBell (k.add s) = k.add (countBell s) := by
  simp only [countBell, add, Stats.plus, UInt32.add_assoc]

@[simp] theorem countResync_add : countResync (k.add s) = k.add (countResync s) := by
  simp only [countResync, add, Stats.plus, UInt32.add_assoc]

@[simp] theorem countByte_add (b : UInt8) : countByte b (k.add s) = k.add (countByte b s) := by
  simp only [countByte, add, Stats.plus, UInt32.add_assoc]
  split_ifs <;> rfl

@[simp] theorem sendReply_add (b : List Nat) : sendReply (k.add s) b = k.add (sendReply s b) := by
  simp only [sendReply, add, List.append_assoc]

@[simp] theorem markEver_add : markEver (k.add s) = k.add (markEver s) := by
  simp only [markEver, add, Bool.or_true]

variable {k s} in
theorem markEver_of {t : Screen} (h : t = k.add s) : markEver t = k.add (markEver s) := by
  rw [h, markEver_add]

@[simp] theorem scrollUp_add (top bottom n : Int) :
    scrollUp (k.add s) top bottom n = k.add (scrollUp s top bottom n) := by
  simp only [scrollUp, add, Bool.or_assoc]

@[simp] theorem scrollDown_add (top bottom n : Int) :
    scrollDown (k.add s) top bottom n = k.add (scrollDown s top bottom n) := rfl

@[simp] theorem settleCol_add : settleCol (k.add s) = k.add (settleCol s) := rfl

@[simp] theorem moveTo_add (row col : Int) : moveTo (k.add s) row col = k.add (moveTo s row col) := rfl

@[simp] theorem restoreSaved_add : restoreSaved (k.add s) = k.add (restoreSaved s) := rfl

@[simp] theorem setAttr_add (a : Attr) : setAttr (k.add s) a = k.add (setAttr s a) := rfl

@[simp] theorem separatorReset_add : separatorReset (k.add s) = k.add (separatorReset s) := rfl

@[simp] theorem leaveRow0_add : leaveRow0 (k.add s) = k.add (leaveRow0 s) := rfl

@[simp] theorem setLast_add (kind : LastKind) (code : Nat) :
    setLast (k.add s) kind code = k.add (setLast s kind code) := rfl

@[simp] theorem clearPending_add : clearPending (k.add s) = k.add (clearPending s) := rfl

@[simp] theorem openColumn_add : openColumn (k.add s) = k.add (openColumn s) := rfl

@[simp] theorem withMem_add (mem : Grid Cell) :
    { k.add s with mem := mem } = k.add { s with mem := mem } := rfl

theorem add_ite (c : Prop) [Decidable c] (s t : Screen) :
    k.add (if c then s else t) = if c then k.add s else k.add t := apply_ite k.add c s t

@[simp] theorem doLf_add : doLf (k.add s) = k.add (doLf s) := by
  simp [doLf, add_ite]

@[simp] theorem doVt_add : doVt (k.add s) = k.add (doVt s) := by
  simp only [doVt, settleCol_add, add_inRow0, add_row, add_col, add_scroll, scrollDown_add, moveTo_add,
    add_ite]
  rfl

@[simp] theorem doBs_add : doBs (k.add s) = k.add (doBs s) := by
  simp [doBs, add_ite]

@[simp] theorem doHt_add : doHt (k.add s) = k.add (doHt s) := by
  simp only [doHt, settleCol_add, add_inRow0, add_row, add_col, moveTo_add, add_ite]
  rfl

@[simp] theorem putRow0_add (c : Cell) : putRow0 (k.add s) c = k.add (putRow0 s c) := by
  simp only [putRow0, countChar, add, Stats.plus, UInt32.add_assoc]
  rfl

@[simp] theorem wrapPending_add (dh : Bool) : wrapPending (k.add s) dh = k.add (wrapPending s dh) := by
  simp [wrapPending, add_ite]

@[simp] theorem placeCell_add (c : Cell) (size : Size) :
    placeCell (k.add s) c size = k.add (placeCell s c size) := by
  simp only [placeCell, countChar, add, Stats.plus, UInt32.add_assoc]
  rfl

@[simp] theorem fitSize_add (size : Size) : fitSize (k.add s) size = fitSize s size := rfl

@[simp] theorem putCell_add (c : Cell) : putCell (k.add s) c = k.add (putCell s c) := by
  simp only [putCell, markEver_add, add_ite, add_inRow0, wrapPending_add, fitSize_add, add_insert,
    openColumn_add, putRow0_add]
  split_ifs <;> simp

@[simp] theorem validatePaper_add : validatePaper (k.add s) = k.add (validatePaper s) := by
  unfold validatePaper
  rw [add_ite]
  rfl

@[simp] theorem putMosaic_add (bits : Nat) : putMosaic (k.add s) bits = k.add (putMosaic s bits) := by
  simp [putMosaic]

@[simp] theorem putG1_add (b : Nat) : putG1 (k.add s) b = k.add (putG1 s b) := by
  simp [putG1, add_ite]

@[simp] theorem putSpace_add : putSpace (k.add s) = k.add (putSpace s) := by
  simp [putSpace, add_ite]

@[simp] theorem putGlyph_add (glyph : Nat) : putGlyph (k.add s) glyph = k.add (putGlyph s glyph) := by
  simp [putGlyph]

@[simp] theorem putPrintable_add (b : Nat) : putPrintable (k.add s) b = k.add (putPrintable s b) := by
  simp [putPrintable, putDel, putG0, add_ite]

@[simp] theorem repeatLast_add (n : Nat) : repeatLast n (k.add s) = k.add (repeatLast n s) := by
  induction n generalizing s with
  | zero => rfl
  | succ n ih =>
      simp only [repeatLast, add_lastKind, add_lastCode, add_a]
      cases s.lastKind with
      | g0 =>
          simp only [putSpace_add, putCell_add]
          rw [← add_ite, ih]
      | g1 => simp only [putG1_add, ih]
      | glyph => simp only [putGlyph_add, ih]
      | none => exact ih s

@[simp] theorem doAttribute_add (x : Nat) : doAttribute (k.add s) x = k.add (doAttribute s x) := by
  unfold doAttribute
  simp only [setAttr_add, filtered_add, add_a, add_inRow0, add_row]
  split
  · rfl
  · split
    · rfl
    · split <;> simp only [add_ite] <;> rfl

@[simp] theorem doFf_add : doFf (k.add s) = k.add (doFf s) := markEver_of rfl

@[simp] theorem doCr_add : doCr (k.add s) = k.add (doCr s) := rfl

@[simp] theorem doSo_add : doSo (k.add s) = k.add (doSo s) := rfl

@[simp] theorem doSi_add : doSi (k.add s) = k.add (doSi s) := rfl

@[simp] theorem doCan_add : doCan (k.add s) = k.add (doCan s) := markEver_of rfl

/-- The error that SUB counts. -/
theorem countError_add :
    { k.add s with stats.errors := (k.add s).stats.errors + 1 } =
      k.add { s with stats.errors := s.stats.errors + 1 } := by
  simp only [add, Stats.plus, UInt32.add_assoc]

@[simp] theorem doSub_add : doSub (k.add s) = k.add (doSub s) := by
  have hsub : doSub (k.add s) =
      if s.a.g1 then putG1 { k.add s with stats.errors := (k.add s).stats.errors + 1 } 0x5F
      else putGlyph { k.add s with stats.errors := (k.add s).stats.errors + 1 } gFullblock := rfl
  rw [hsub, countError_add, putG1_add, putGlyph_add, ← add_ite]
  rfl

@[simp] theorem doRs_add : doRs (k.add s) = k.add (doRs s) := rfl

@[simp] theorem showCursor_add (on : Bool) : showCursor (k.add s) on = k.add (showCursor s on) := rfl

@[simp] theorem enterRow0_add : enterRow0 (k.add s) = k.add (enterRow0 s) := by
  simp only [enterRow0, add_ite]
  rfl

@[simp] theorem doUs_add (r c : Nat) : doUs (k.add s) r c = k.add (doUs s r c) := by
  simp [doUs, add_ite]

/-! The functions of CSI. -/

@[simp] theorem eraseScreen_add (p0 : Int) : eraseScreen (k.add s) p0 = k.add (eraseScreen s p0) := by
  refine markEver_of ?_
  simp only [filtered_add, add_ite]
  rfl

@[simp] theorem eraseLine_add (p0 : Int) : eraseLine (k.add s) p0 = k.add (eraseLine s p0) := by
  refine markEver_of ?_
  simp only [filtered_add, add_ite]
  rfl

@[simp] theorem deleteChars_add (n : Int) : deleteChars (k.add s) n = k.add (deleteChars s n) := rfl

@[simp] theorem insertChars_add (n : Int) : insertChars (k.add s) n = k.add (insertChars s n) := rfl

@[simp] theorem clampChars_add (n : Int) : clampChars (k.add s) n = clampChars s n := rfl

@[simp] theorem clampRows_add (n : Int) : clampRows (k.add s) n = clampRows s n := rfl

@[simp] theorem setInsert_add (p0 : Int) (on : Bool) :
    setInsert (k.add s) p0 on = k.add (setInsert s p0 on) := by
  simp only [setInsert, filtered_add, add_ite]
  rfl

@[simp] theorem addressCursor_add (r c : Int) :
    addressCursor (k.add s) r c = k.add (addressCursor s r c) := by
  simp only [addressCursor, filtered_add, moveTo_add, add_ite]

@[simp] theorem csiFunction_add (q : CsiSeq) (final : Nat) (n p0 : Int) :
    csiFunction (k.add s) q final n p0 = k.add (csiFunction s q final n p0) := by
  unfold csiFunction
  split
  · exact moveTo_add ..
  · exact moveTo_add ..
  · exact moveTo_add ..
  · exact moveTo_add ..
  · exact addressCursor_add ..
  · exact eraseScreen_add ..
  · exact eraseLine_add ..
  · exact deleteChars_add ..
  · exact insertChars_add ..
  · exact scrollUp_add ..
  · exact scrollDown_add ..
  · exact setInsert_add ..
  · exact setInsert_add ..
  · exact filtered_add ..

@[simp] theorem doCsi_add (q : CsiSeq) (final : Nat) : doCsi (k.add s) q final = k.add (doCsi s q final) := by
  simp only [doCsi, add_inRow0, filtered_add, settleCol_add, csiFunction_add, add_ite]

/-! The protocol. -/

@[simp] theorem doPro_add (q : ProSeq) : doPro (k.add s) q = k.add (doPro s q) := by
  have hreset : proReset (k.add (protocol s)) = k.add (proReset (protocol s)) := rfl
  have hscroll : ∀ on, setScroll (k.add (protocol s)) on = k.add (setScroll (protocol s) on) :=
    fun _ => rfl
  simp only [doPro, protocol_add, sendReply_add, hreset, hscroll, add_ite]

@[simp] theorem reportCursor_add : reportCursor (k.add s) = k.add (reportCursor s) := by
  simp only [reportCursor, sendReply_add, protocol_add]
  rfl

@[simp] theorem maskScreen_add (on : Bool) : maskScreen (k.add s) on = k.add (maskScreen s on) := rfl

end Tally

/-! ### Accumulators -/

/-- The elements that have been stored in the sequence that is read now. -/
def SameStored (n : Int) (g g' : Grid Nat) : Prop :=
  ∀ j, 0 ≤ j → j < n → j < 4 → g'.cell 0 j = g.cell 0 j

/-- The next element, where it still fits into the array. -/
theorem SameStored.store {n : Int} {g g' : Grid Nat} (h : SameStored n g g') (b : Nat) :
    SameStored (n + 1) (if n < 4 then g.put arr4 0 n b else g)
      (if n < 4 then g'.put arr4 0 n b else g') := by
  intro j h0 hn h4
  by_cases hfull : n < 4
  · rw [if_pos hfull, if_pos hfull, Grid.put, Grid.put]
    by_cases hm : arr4.Mem 0 n
    · rw [if_pos hm, if_pos hm]
      by_cases hj : j = n
      · simp only [hj, and_self, if_true]
      · simp only [hj, and_false, if_false]
        exact h j h0 (by omega) h4
    · rw [if_neg hm, if_neg hm]
      refine h j h0 ?_ h4
      by_contra hno
      apply hm
      simp only [Region.Mem]
      omega
  · rw [if_neg hfull, if_neg hfull]
    exact h j h0 (by omega) h4

structure IsoSeq.Alike (q q' : IsoSeq) : Prop where
  isoN : q'.isoN = q.isoN
  fits : Fits32 q.isoN
  stored : SameStored q.isoN q.iso q'.iso

structure ProSeq.Alike (q q' : ProSeq) : Prop where
  proN : q'.proN = q.proN
  proLeft : q'.proLeft = q.proLeft
  stored : SameStored q.proN q.pro q'.pro

structure CsiSeq.Alike (q q' : CsiSeq) : Prop where
  csiNp : q'.csiNp = q.csiNp
  csiBad : q'.csiBad = q.csiBad
  csiPriv : q'.csiPriv = q.csiPriv
  args : ∀ j, 0 ≤ j → j < 4 → q'.csiP.cell 0 j = q.csiP.cell 0 j
  np : 0 ≤ q.csiNp ∧ q.csiNp ≤ 4

theorem isoOpen_alike (q q' : IsoSeq) (b : Nat) : (isoOpen q b).Alike (isoOpen q' b) := by
  refine ⟨rfl, (by decide : Fits32 1), ?_⟩
  intro j h0 h1 _
  have hj : j = 0 := by
    simp only [isoOpen] at h1
    omega
  have hm : arr4.Mem 0 0 := by decide
  simp only [isoOpen, Grid.put, if_pos hm, hj, and_self, if_true]

/-- A counter that goes over the top counts nothing as stored. -/
theorem isoStore_alike {q q' : IsoSeq} (h : q.Alike q') (b : Nat) :
    (isoStore q b).Alike (isoStore q' b) := by
  have hstore := h.stored.store b
  have hnext : wrap32 (q.isoN + 1) ≤ q.isoN + 1 := by
    by_cases hfits : Fits32 (q.isoN + 1)
    · exact Int.le_of_eq (wrap32_of_fits hfits)
    · have hn := h.fits
      have hwrap := wrap32_le (q.isoN + 1)
      simp only [Fits32, minInt32, maxInt32] at hn hfits hwrap
      omega
  refine ⟨by simp only [isoStore, h.isoN], wrap32_fits _, ?_⟩
  simp only [isoStore, h.isoN]
  intro j h0 hn h4
  exact hstore j h0 (by omega) h4

theorem proOpen_alike (q q' : ProSeq) (b : Nat) : (proOpen q b).Alike (proOpen q' b) :=
  ⟨rfl, rfl, fun j h0 hn _ => absurd hn (by simp only [proOpen]; omega)⟩

theorem proStore_alike {q q' : ProSeq} (h : q.Alike q') (b : Nat) :
    (proStore q b).Alike (proStore q' b) := by
  have hstore := h.stored.store b
  refine ⟨by simp only [proStore, h.proN], by simp only [proStore, h.proLeft], ?_⟩
  simp only [proStore, h.proN]
  exact hstore

theorem csiOpen_alike (q q' : CsiSeq) : (csiOpen q).Alike (csiOpen q') := by
  have hrun : arr4.MemRun 0 0 3 := by decide
  refine ⟨rfl, rfl, rfl, ?_, (by decide : (0 : Int) ≤ 0 ∧ (0 : Int) ≤ 4)⟩
  intro j h0 h4
  have hj : j ≤ 3 := by omega
  simp only [csiOpen, Grid.fillRun, if_pos hrun, h0, hj, and_self, if_true]

theorem csiDigit_alike {q q' : CsiSeq} (h : q.Alike q') (b : Nat) :
    (csiDigit q b).Alike (csiDigit q' b) := by
  have hnp := h.np
  have hnp' : 1 ≤ (if q.csiNp = 0 then 1 else q.csiNp) ∧ (if q.csiNp = 0 then 1 else q.csiNp) ≤ 4 := by
    split_ifs <;> omega
  have hargs := h.args
  simp only [csiDigit, h.csiNp]
  generalize (if q.csiNp = 0 then 1 else q.csiNp) = np at hnp'
  have hm : arr4.Mem 0 (np - 1) := by
    simp only [Region.Mem]
    omega
  refine ⟨rfl, h.csiBad, h.csiPriv, ?_, by simp only; omega⟩
  intro j h0 h4
  simp only [Grid.put, if_pos hm, hargs (np - 1) (by omega) (by omega)]
  split
  · rfl
  · exact hargs j h0 h4

theorem csiNext_alike {q q' : CsiSeq} (h : q.Alike q') : (csiNext q).Alike (csiNext q') := by
  have hnp := h.np
  have hnp' : 1 ≤ (if q.csiNp = 0 then 1 else q.csiNp) ∧ (if q.csiNp = 0 then 1 else q.csiNp) ≤ 4 := by
    split_ifs <;> omega
  simp only [csiNext, h.csiNp]
  generalize (if q.csiNp = 0 then 1 else q.csiNp) = np at hnp'
  by_cases hroom : np < 4
  · rw [if_pos hroom, if_pos hroom]
    exact ⟨rfl, h.csiBad, h.csiPriv, h.args, by simp only; omega⟩
  · rw [if_neg hroom, if_neg hroom]
    exact ⟨rfl, rfl, h.csiPriv, h.args, by simp only; omega⟩

/-- The functions read the arguments there are. -/
theorem csiArg_alike {q q' : CsiSeq} (h : q.Alike q') {i : Int} (h0 : 0 ≤ i) (dflt : Int) :
    csiArg q' i dflt = csiArg q i dflt := by
  have hnp := h.np
  rw [csiArg, csiArg, h.csiNp]
  by_cases hi : i ≥ q.csiNp
  · rw [if_pos (.inl hi), if_pos (.inl hi)]
  · rw [h.args i h0 (by omega)]

theorem doCsi_alike {q q' : CsiSeq} (h : q.Alike q') (s : Screen) (final : Nat) :
    doCsi s q' final = doCsi s q final := by
  have hfun : ∀ d n p0, csiFunction d q' final n p0 = csiFunction d q final n p0 := by
    intro d n p0
    unfold csiFunction
    rw [csiArg_alike h (by decide), csiArg_alike h (by decide)]
  simp only [doCsi, h.csiBad, h.csiPriv, csiArg_alike h (Int.le_refl 0), hfun]

/-- PRO1 reads one byte and PRO2 two. -/
theorem doPro_alike {q q' : ProSeq} (h : q.Alike q') (s : Screen) : doPro s q' = doPro s q := by
  simp only [doPro, h.proN]
  by_cases hone : q.proN = 1
  · rw [if_pos hone, if_pos hone, h.stored 0 (by decide) (by omega) (by decide)]
  · rw [if_neg hone, if_neg hone]
    by_cases htwo : q.proN = 2
    · rw [h.stored 0 (by decide) (by omega) (by decide), h.stored 1 (by decide) (by omega) (by decide)]
    · rw [if_neg fun hno => htwo hno.1, if_neg fun hno => htwo hno.1]

/-! ### Two decoders -/

/-- The same state, and the same screen up to the tallies; of the accumulators only what belongs to the
sequence that is being read. -/
structure Twins (k k' : Tally) (D D' : Decoder) : Prop where
  st : D'.st = D.st
  scr : ∃ s, D.scr = k.add s ∧ D'.scr = k'.add s
  usR : D.st = .us2 → D'.usR = D.usR
  acc : D.st = .ss2Acc → D'.acc = D.acc
  iso : D.st = .iso → D.iso.Alike D'.iso
  csi : D.st = .csi → D.csi.Alike D'.csi
  pro : D.st = .pro → D.pro.Alike D'.pro

variable {k k' : Tally} {D D' : Decoder}

/-- What the screen does, whatever it has counted. -/
def Blind (f : Screen → Screen) : Prop := ∀ (k : Tally) (s : Screen), f (k.add s) = k.add (f s)

/-- The states of a sequence in which something has been stored already. -/
def Stores (st : St) : Prop :=
  st = .us2 ∨ st = .ss2Acc ∨ st = .iso ∨ st = .csi ∨ st = .pro

instance (st : St) : Decidable (Stores st) := inferInstanceAs (Decidable (_ ∨ _))

theorem Twins.onScreen (h : Twins k k' D D') {f : Screen → Screen} (hf : Blind f) :
    Twins k k' (onScreen D f) (onScreen D' f) := by
  obtain ⟨s, hs, hs'⟩ := h.scr
  refine ⟨h.st, ⟨f s, ?_, ?_⟩, h.usR, h.acc, h.iso, h.csi, h.pro⟩
  · change f D.scr = _
    rw [hs, hf]
  · change f D'.scr = _
    rw [hs', hf]

/-- Where nothing is stored, nothing of the accumulators counts. -/
theorem Twins.of_idle (hst : D'.st = D.st) (hscr : ∃ s, D.scr = k.add s ∧ D'.scr = k'.add s)
    (hidle : ¬ Stores D.st) : Twins k k' D D' where
  st := hst
  scr := hscr
  usR hno := absurd (.inl hno) hidle
  acc hno := absurd (.inr (.inl hno)) hidle
  iso hno := absurd (.inr (.inr (.inl hno))) hidle
  csi hno := absurd (.inr (.inr (.inr (.inl hno)))) hidle
  pro hno := absurd (.inr (.inr (.inr (.inr hno)))) hidle

theorem Twins.setSt (h : Twins k k' D D') {st : St} (hidle : ¬ Stores st) :
    Twins k k' (setSt D st) (setSt D' st) := .of_idle rfl h.scr hidle

/-- The same, and the way back to the ground state. -/
theorem Twins.finish (h : Twins k k' D D') {f : Screen → Screen} (hf : Blind f) :
    Twins k k' (Minitel.onScreen (Minitel.setSt D .ground) f)
      (Minitel.onScreen (Minitel.setSt D' .ground) f) :=
  have hground : Twins k k' (Minitel.setSt D .ground) (Minitel.setSt D' .ground) :=
    h.setSt (by decide)
  hground.onScreen hf

theorem Twins.a_eq (h : Twins k k' D D') : D'.scr.a = D.scr.a := by
  obtain ⟨s, hs, hs'⟩ := h.scr
  rw [hs, hs', Tally.add_a, Tally.add_a]

theorem Twins.doC0 (h : Twins k k' D D') (b : Nat) : Twins k k' (doC0 D b) (doC0 D' b) := by
  unfold Minitel.doC0
  split
  · exact h.onScreen Tally.countBell_add
  · exact h.onScreen Tally.doBs_add
  · exact h.onScreen Tally.doHt_add
  · exact h.onScreen Tally.doLf_add
  · exact h.onScreen Tally.doVt_add
  · exact h.onScreen Tally.doFf_add
  · exact h.onScreen Tally.doCr_add
  · exact h.onScreen Tally.doSo_add
  · exact h.onScreen Tally.doSi_add
  · exact h.onScreen fun k s => Tally.showCursor_add k s true
  · exact h.setSt (by decide)
  · exact h.setSt (by decide)
  · exact h.onScreen fun k s => Tally.showCursor_add k s false
  · exact h.onScreen Tally.doCan_add
  · rw [h.a_eq]
    split
    · exact h
    · exact h.setSt (by decide)
  · exact h.onScreen Tally.doSub_add
  · exact h.setSt (by decide)
  · exact h.setSt (by decide)
  · exact h.onScreen Tally.doRs_add
  · exact h.setSt (by decide)
  · exact h

/-- Every way into a sequence sets up what the sequence reads. -/
theorem Twins.escCode (h : Twins k k' D D') (b : Nat) : Twins k k' (escCode D b) (escCode D' b) := by
  simp only [Minitel.escCode]
  split_ifs
  · exact h.onScreen fun k s => Tally.doAttribute_add k s b
  · refine ⟨rfl, h.scr, ?_, ?_, ?_, fun _ => csiOpen_alike _ _, ?_⟩
    all_goals
      intro hno
      cases hno
  · exact h.setSt (by decide)
  · refine ⟨rfl, h.scr, ?_, ?_, fun _ => isoOpen_alike _ _ b, ?_, ?_⟩
    all_goals
      intro hno
      cases hno
  · exact h.setSt (by decide)
  · refine ⟨rfl, h.scr, ?_, ?_, ?_, ?_, fun _ => proOpen_alike _ _ b⟩
    all_goals
      intro hno
      cases hno
  · exact h.onScreen Tally.reportCursor_add
  · exact h.onScreen Tally.filtered_add

/-- What the final of an ISO sequence does. -/
def isoFinal (q : IsoSeq) (b : Nat) : Screen → Screen :=
  if q.isoN = 2 ∧ q.iso.cell 0 0 = 0x23 ∧ q.iso.cell 0 1 = 0x20 ∧ b = 0x58 then (maskScreen · true)
  else if q.isoN = 2 ∧ q.iso.cell 0 0 = 0x23 ∧ q.iso.cell 0 1 = 0x20 ∧ b = 0x5F then
    (maskScreen · false)
  else filtered

theorem isoCode_final (D : Decoder) {b : Nat} (hb : ¬ (0x20 ≤ b ∧ b ≤ 0x2F)) :
    isoCode D b = onScreen (setSt D .ground) (isoFinal D.iso b) := by
  have hfinal : isoCode D b =
      if D.iso.isoN = 2 ∧ D.iso.iso.cell 0 0 = 0x23 ∧ D.iso.iso.cell 0 1 = 0x20 ∧ b = 0x58 then
        onScreen (setSt D .ground) (maskScreen · true)
      else if D.iso.isoN = 2 ∧ D.iso.iso.cell 0 0 = 0x23 ∧ D.iso.iso.cell 0 1 = 0x20 ∧ b = 0x5F then
        onScreen (setSt D .ground) (maskScreen · false)
      else onScreen (setSt D .ground) filtered := if_neg hb
  rw [hfinal, isoFinal]
  split_ifs <;> rfl

theorem isoFinal_blind (q : IsoSeq) (b : Nat) : Blind (isoFinal q b) := by
  unfold isoFinal
  split_ifs
  · exact fun k s => Tally.maskScreen_add k s true
  · exact fun k s => Tally.maskScreen_add k s false
  · exact Tally.filtered_add

theorem isoFinal_alike {q q' : IsoSeq} (h : q.Alike q') (b : Nat) : isoFinal q' b = isoFinal q b := by
  by_cases htwo : q.isoN = 2
  · rw [isoFinal, isoFinal, h.isoN, h.stored 0 (by decide) (by omega) (by decide),
      h.stored 1 (by decide) (by omega) (by decide)]
  · have hne : ¬ q'.isoN = 2 := by rwa [h.isoN]
    simp only [isoFinal, htwo, hne, false_and, if_false]

theorem Twins.isoCode (h : Twins k k' D D') (hst : D.st = .iso) (b : Nat) :
    Twins k k' (isoCode D b) (isoCode D' b) := by
  have hiso := h.iso hst
  by_cases hb : 0x20 ≤ b ∧ b ≤ 0x2F
  · rw [Minitel.isoCode, Minitel.isoCode, if_pos hb, if_pos hb]
    refine ⟨h.st, h.scr, ?_, ?_, fun _ => isoStore_alike hiso b, ?_, ?_⟩
    all_goals
      intro hno
      rw [hst] at hno
      cases hno
  · rw [isoCode_final D hb, isoCode_final D' hb, isoFinal_alike hiso]
    exact h.finish (isoFinal_blind _ b)

/-- A byte inside of a CSI sequence. -/
theorem Twins.inCsi (h : Twins k k' D D') (hst : D.st = .csi) {q q' : CsiSeq} (hq : q.Alike q') :
    Twins k k' { D with csi := q } { D' with csi := q' } := by
  refine ⟨h.st, h.scr, ?_, ?_, ?_, fun _ => hq, ?_⟩
  all_goals
    intro hno
    exact nomatch hst.symm.trans hno

theorem Twins.csiCode (h : Twins k k' D D') (hst : D.st = .csi) (b : Nat) :
    Twins k k' (csiCode D b) (csiCode D' b) := by
  have hcsi := h.csi hst
  unfold Minitel.csiCode
  split_ifs
  · exact h.inCsi hst (csiDigit_alike hcsi b)
  · exact h.inCsi hst (csiNext_alike hcsi)
  · exact h.inCsi hst ⟨hcsi.csiNp, hcsi.csiBad, rfl, hcsi.args, hcsi.np⟩
  · exact h.inCsi hst ⟨hcsi.csiNp, rfl, hcsi.csiPriv, hcsi.args, hcsi.np⟩
  · have hfun : (doCsi · D'.csi b) = (doCsi · D.csi b) := by
      funext s
      exact doCsi_alike hcsi s b
    rw [hfun]
    exact h.finish fun k s => Tally.doCsi_add k s D.csi b

theorem Twins.ss2Code (h : Twins k k' D D') (b : Nat) : Twins k k' (ss2Code D b) (ss2Code D' b) := by
  unfold Minitel.ss2Code
  split
  · exact ⟨rfl, h.scr, nofun, fun _ => rfl, nofun, nofun, nofun⟩
  · split
    · next g _ => exact h.finish fun k s => Tally.putGlyph_add k s g
    · exact h.finish fun k s => by rw [Tally.unrepresent_add, Tally.putGlyph_add]

theorem Twins.ss2AccCode (h : Twins k k' D D') (hst : D.st = .ss2Acc) (b : Nat) :
    Twins k k' (ss2AccCode D b) (ss2AccCode D' b) := by
  unfold Minitel.ss2AccCode
  rw [h.acc hst]
  split
  · next g _ => exact h.finish fun k s => Tally.putGlyph_add k s g
  · exact h.finish fun k s => Tally.putPrintable_add k s b

theorem Twins.proCode (h : Twins k k' D D') (hst : D.st = .pro) (b : Nat) :
    Twins k k' (proCode D b) (proCode D' b) := by
  have hpro := proStore_alike (h.pro hst) b
  have hstored : Twins k k' { D with pro := proStore D.pro b } { D' with pro := proStore D'.pro b } := by
    refine ⟨h.st, h.scr, ?_, ?_, ?_, ?_, fun _ => hpro⟩
    all_goals
      intro hno
      exact nomatch hst.symm.trans hno
  unfold Minitel.proCode
  simp only [hpro.proLeft]
  split
  · have hfun : (doPro · (proStore D'.pro b)) = (doPro · (proStore D.pro b)) := by
      funext s
      exact doPro_alike hpro s
    rw [hfun]
    exact hstored.finish fun k s => Tally.doPro_add k s _
  · exact hstored

theorem Twins.feedCode (h : Twins k k' D D') (b : Nat) : Twins k k' (feedCode D b) (feedCode D' b) := by
  unfold Minitel.feedCode
  rw [h.st]
  split
  · split
    · exact h.doC0 b
    · exact h.onScreen fun k s => Tally.putPrintable_add k s b
  · exact (h.setSt (by decide)).escCode b
  · next hst => exact h.isoCode hst b
  · next hst => exact h.csiCode hst b
  · exact ⟨rfl, h.scr, fun _ => rfl, nofun, nofun, nofun, nofun⟩
  · next hst =>
      rw [h.usR hst]
      exact h.finish fun k s => Tally.doUs_add k s _ b
  · split
    · exact h.finish Tally.filtered_add
    · exact h.finish fun k s => Tally.repeatLast_add k s _
  · exact h.ss2Code b
  · next hst => exact h.ss2AccCode hst b
  · exact h.finish Tally.filtered_add
  · next hst => exact h.proCode hst b
  · exact h.setSt (by decide)

theorem Twins.resync (h : Twins k k' D D') (b : Nat) : Twins k k' (resync D b) (resync D' b) := by
  unfold Minitel.resync
  rw [h.st]
  split
  · exact h.finish Tally.countResync_add
  · exact h

theorem Twins.feedByte (h : Twins k k' D D') (b : Nat) : Twins k k' (feedByte D b) (feedByte D' b) := by
  unfold Minitel.feedByte
  rw [h.st]
  split
  · split
    · exact (h.setSt (by decide)).onScreen Tally.filtered_add
    · exact h.onScreen Tally.filtered_add
  · split_ifs
    · exact h.setSt (by decide)
    · exact h.setSt (by decide)
    · exact h.setSt (by decide)
    · exact h
  · split_ifs
    · exact h.setSt (by decide)
    · exact h.setSt (by decide)
    · exact h.setSt (by decide)
  · split_ifs
    · exact h.setSt (by decide)
    · exact h.setSt (by decide)
    · exact h.setSt (by decide)
  · split
    · exact h
    · exact (h.resync b).feedCode b

theorem Twins.feed (h : Twins k k' D D') (buf : List UInt8) : Twins k k' (feed D buf) (feed D' buf) :=
  Machine.run_rel (R := Twins k k')
    (fun _ _ b h => (h.onScreen fun k s => Tally.countByte_add k s b).feedByte (b.toNat % 128)) h buf

/-! ### Resynchronisation -/

/-- A sequence is unfinished, and the screen is not in transparency. -/
def Unfinished (st : St) : Prop :=
  st ≠ .ground ∧ st ≠ .transp ∧ st ≠ .transpEsc ∧ st ≠ .transpEsc25 ∧ st ≠ .transpEsc2F

instance (st : St) : Decidable (Unfinished st) := inferInstanceAs (Decidable (_ ∧ _))

/-- A code of C0, in either parity. -/
def ControlByte (b : UInt8) : Prop := b.toNat % 128 < 0x20

instance (b : UInt8) : Decidable (ControlByte b) := inferInstanceAs (Decidable (_ < _))

/-- NUL, in either parity. -/
def NulByte (b : UInt8) : Prop := b.toNat % 128 = 0

instance (b : UInt8) : Decidable (NulByte b) := inferInstanceAs (Decidable (_ = _))

/-- The two decoders show the same screen, each on top of what it had counted and answered before, and are
in the same state. -/
def Follows (D D' E E' : Decoder) : Prop :=
  E'.st = E.st ∧ ∃ s, E.scr = (Tally.ofScreen D.scr).add s ∧ E'.scr = (Tally.ofScreen D'.scr).add s

/-- Outside of transparency, every byte but NUL is carried out. -/
theorem feedByte_open {D : Decoder} (hst : D.st = .ground ∨ Unfinished D.st) {b : Nat} (hb : b ≠ 0) :
    feedByte D b = Minitel.feedCode (Minitel.resync D b) b := by
  unfold Minitel.feedByte
  split
  · next h => rcases hst with hst | hst <;> simp_all [Unfinished]
  · next h => rcases hst with hst | hst <;> simp_all [Unfinished]
  · next h => rcases hst with hst | hst <;> simp_all [Unfinished]
  · next h => rcases hst with hst | hst <;> simp_all [Unfinished]
  · exact if_neg hb

/-- One sequence abandoned, and nothing else counted. -/
def oneResync : Tally := ⟨{ resync := 1 }, [], false, false⟩

/-- Nothing counted. -/
def noTally : Tally := ⟨{}, [], false, false⟩

theorem oneResync_add (s : Screen) : oneResync.add s = countResync s := by
  simp [oneResync, Tally.add, Stats.plus, countResync, UInt32.add_comm]

theorem noTally_add (s : Screen) : noTally.add s = s := by
  simp [noTally, Tally.add, Stats.plus]

/-- The code has the effect it has in the ground state, and the sequence is counted. -/
theorem feedOne_unfinished {D : Decoder} (hst : Unfinished D.st) {b : UInt8} (hb : ControlByte b)
    (hnul : ¬ NulByte b) :
    Twins oneResync noTally (feedOne D b) (feedOne (setSt D .ground) b) := by
  let E := onScreen D (countByte b)
  have hE : Unfinished E.st := hst
  have hleft : feedOne D b = Minitel.doC0 (onScreen (setSt E .ground) countResync) (b.toNat % 128) := by
    have hresync : Minitel.resync E (b.toNat % 128) = onScreen (setSt E .ground) countResync :=
      if_pos ⟨hb, hst.1⟩
    have hopen := feedByte_open (.inr hE) hnul
    rw [hresync] at hopen
    exact hopen.trans (if_pos hb)
  have hright : feedOne (setSt D .ground) b = Minitel.doC0 (setSt E .ground) (b.toNat % 128) := by
    have hresync : Minitel.resync (setSt E .ground) (b.toNat % 128) = setSt E .ground :=
      if_neg fun hno => hno.2 rfl
    have hopen := feedByte_open (D := setSt E .ground) (.inl rfl) hnul
    rw [hresync] at hopen
    exact hopen.trans (if_pos hb)
  have hstart : Twins oneResync noTally (onScreen (setSt E .ground) countResync) (setSt E .ground) := by
    refine .of_idle rfl ⟨E.scr, (oneResync_add _).symm, (noTally_add _).symm⟩ ?_
    change ¬ Stores .ground
    decide
  rw [hleft, hright]
  exact hstart.doC0 _

/-- In the ground state nothing of the accumulators counts, whatever follows; in an unfinished sequence a
control code other than NUL does what it does in the ground state, now and for all that follows, and is
counted; and NUL is padding. -/
theorem resynchronisation (D : Decoder) :
    (D.st = .ground → ∀ D' : Decoder, D'.st = .ground → Tally.clear D'.scr = Tally.clear D.scr →
      ∀ buf, Follows D D' (feed D buf) (feed D' buf)) ∧
    (Unfinished D.st → ∀ b : UInt8, ControlByte b → ¬ NulByte b → ∀ buf,
      (feed D (b :: buf)).st = (feed (setSt D .ground) (b :: buf)).st ∧
      (feed D (b :: buf)).scr = countResync (feed (setSt D .ground) (b :: buf)).scr) ∧
    (Unfinished D.st → ∀ b : UInt8, NulByte b → feedOne D b = onScreen D (countByte b)) := by
  refine ⟨?_, ?_, ?_⟩
  · intro hst D' hst' hclear buf
    have hscr : ∃ s, D.scr = (Tally.ofScreen D.scr).add s ∧ D'.scr = (Tally.ofScreen D'.scr).add s :=
      ⟨Tally.clear D.scr, (Tally.add_clear _).symm, by rw [← hclear, Tally.add_clear]⟩
    have htwins : Twins (Tally.ofScreen D.scr) (Tally.ofScreen D'.scr) D D' :=
      .of_idle (hst'.trans hst.symm) hscr (by rw [hst]; decide)
    have hfed := htwins.feed buf
    exact ⟨hfed.st, hfed.scr⟩
  · intro hst b hb hnul buf
    have hfed := (feedOne_unfinished hst hb hnul).feed buf
    obtain ⟨s, hs, hs'⟩ := hfed.scr
    refine ⟨hfed.st.symm, ?_⟩
    rw [noTally_add] at hs'
    rw [oneResync_add, ← hs'] at hs
    exact hs
  · intro hst b hb
    change feedByte (onScreen D (countByte b)) (b.toNat % 128) = _
    rw [hb]
    unfold Minitel.feedByte
    split
    · next h => exact absurd h hst.2.1
    · next h => exact absurd h hst.2.2.1
    · next h => exact absurd h hst.2.2.2.1
    · next h => exact absurd h hst.2.2.2.2
    · rfl

/-- ESC NUL A: the sequence goes on behind NUL, and the A is a colour. -/
theorem nul_keeps_sequence :
    (feed reset [0x1B, 0x00]).st = .esc ∧ (feed reset [0x1B, 0x00, 0x41]).scr.a.fg = 1 ∧
      (feed (setSt (feed reset [0x1B]) .ground) [0x00, 0x41]).scr.a.fg = 7 := by
  decide

/-- An argument of an abandoned CSI sequence is left over, and a BEL comes in a sequence. -/
theorem resynchronisation_confirmed :
    (feed reset [0x1B, 0x5B, 0x34, 0x0D]).csi.csiNp = 1 ∧ (feed reset [0x0D]).csi.csiNp = 0 ∧
      (∀ buf, Follows (feed reset [0x1B, 0x5B, 0x34, 0x0D]) (feed reset [0x0D])
        (feed (feed reset [0x1B, 0x5B, 0x34, 0x0D]) buf) (feed (feed reset [0x0D]) buf)) ∧
      (feed (feed reset [0x1B]) [0x07]).st = .ground ∧
      feedOne (feed reset [0x1B]) 0x80 = onScreen (feed reset [0x1B]) (countByte 0x80) :=
  ⟨rfl, rfl, (resynchronisation _).1 rfl _ rfl rfl,
    ((resynchronisation (feed reset [0x1B])).2.1 (by decide) 0x07 (by decide) (by decide) []).1.trans rfl,
    (resynchronisation (feed reset [0x1B])).2.2 (by decide) 0x80 (by decide)⟩

end UnicornSuite.Minitel
