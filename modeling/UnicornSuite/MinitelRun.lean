import UnicornSuite.LibRun
import UnicornSuite.MinitelDecode
import UnicornSuite.MinitelInvariant

/-! The controls and the byte automaton keep the invariant of the Minitel terminal, so every state
that a byte stream can reach from the reset satisfies it. The accumulator of ISO sequences is a case
of its own: its counter is an `int` that nothing bounds. -/

namespace UnicornSuite.Minitel

open CInt

variable {d : Screen}

/-! ### Attributes and control codes -/

theorem protocol_ok (h : d.Ok) : (protocol d).Ok := { h with }

theorem usIgnored_ok (h : d.Ok) : (usIgnored d).Ok := { h with }

theorem sendReply_ok (h : d.Ok) (b : List Nat) : (sendReply d b).Ok := { h with }

theorem serialDef_ok {a : Attr} (ha : a.Ok) (other : Bool) : (serialDef a other).Ok := { ha with }

theorem setZone_ok (h : d.Ok) (sMask sUl other : Bool) :
    (setAttr d (serialDef { d.a with sMask := sMask, sUl := sUl } other)).Ok :=
  setAttr_ok h { h.a with }

/-- The sizes are not taken outside of G0. -/
theorem setSize_ok (h : d.Ok) (hg1 : d.a.g1 = false) {size : Size}
    (hparts : size.right = false ∧ size.top = false) :
    (setAttr d { d.a with size := size }).Ok := by
  refine setAttr_ok h { h.a with parts := hparts, inG1 := fun hon => ?_ }
  rw [hg1] at hon
  cases hon

theorem doAttribute_ok (h : d.Ok) (x : Nat) : (doAttribute d x).Ok := by
  have ha := h.a
  unfold doAttribute
  split
  · exact setAttr_ok h { ha with fg := (by omega : x - 0x40 < 8) }
  split
  · exact setAttr_ok h (serialDef_ok (a := { d.a with sBg := x - 0x50 })
      { ha with sBg := (by omega : x - 0x50 < 8) } _)
  split
  · exact setAttr_ok h { ha with }
  · exact setAttr_ok h { ha with }
  · split
    · exact h
    · exact setSize_ok h (by simp_all) ⟨rfl, rfl⟩
  · split
    · exact filtered_ok h
    · exact setSize_ok h (by simp_all) ⟨rfl, rfl⟩
  · split
    · exact filtered_ok h
    · exact setSize_ok h (by simp_all) ⟨rfl, rfl⟩
  · split
    · exact filtered_ok h
    · exact setSize_ok h (by simp_all) ⟨rfl, rfl⟩
  · exact setZone_ok h _ _ _
  · exact setZone_ok h _ _ _
  · split
    · exact setAttr_ok h { ha with outG1 := fun _ => rfl }
    · exact setZone_ok h _ _ _
  · split
    · exact setAttr_ok h { ha with outG1 := fun _ => by simp_all }
    · exact setZone_ok h _ _ _
  · split
    · exact h
    · exact setAttr_ok h { ha with inG1 := fun _ => by simp_all }
  · split
    · exact filtered_ok h
    · exact setAttr_ok h { ha with inG1 := fun _ => by simp_all }
  · exact filtered_ok h

theorem doFf_ok (h : d.Ok) : (doFf d).Ok := by
  have hclear := h.withMem (h.mem.clearRows 1 24 (by decide) (by decide))
  refine markEver_ok (separatorReset_ok (leaveRow0_moveTo_ok hclear ?_ ?_)) <;> decide

theorem doRs_ok (h : d.Ok) : (doRs d).Ok :=
  separatorReset_ok (leaveRow0_moveTo_ok h ⟨by decide, by decide⟩ ⟨by decide, by decide⟩)

theorem doCr_ok (h : d.Ok) : (doCr d).Ok := moveCol_ok h ⟨by decide, by decide⟩

theorem doSo_ok (h : d.Ok) : (doSo d).Ok :=
  setAttr_ok h { h.a with parts := ⟨rfl, rfl⟩, inG1 := fun _ => ⟨rfl, rfl⟩, outG1 := nofun }

theorem doSi_ok (h : d.Ok) : (doSi d).Ok :=
  setAttr_ok h { h.a with inG1 := nofun, outG1 := fun _ => rfl }

theorem doCan_ok (h : d.Ok) : (doCan d).Ok := by
  have hcols : cols = 40 := rfl
  have hrow := h.row
  have hcol := h.col
  have hcan := canCell_ok h.a
  have hplain : (canCell d.a).size = {} := by
    simp only [canCell]
    split <;> rfl
  refine markEver_ok (h.withMem ?_)
  refine Loop.up_inv (I := PageOk d.rolled) (fun c g hlo hhi hg => hg.put ?_ ?_) h.mem
  · simp only [Region.Mem]
    split_ifs at * <;> omega
  · exact ⟨hcan, fun _ => hplain, fun _ _ hdh => by simp [hplain] at hdh⟩

theorem doSub_ok (h : d.Ok) : (doSub d).Ok := by
  have he : Screen.Ok { d with stats.errors := d.stats.errors + 1 } := { h with }
  simp only [doSub]
  split
  · exact putG1_ok he _
  · exact putGlyph_ok he (by decide)

theorem showCursor_ok (h : d.Ok) (on : Bool) : (showCursor d on).Ok := { h with }

theorem countBell_ok (h : d.Ok) : (countBell d).Ok := { h with }

/-! ### Addressing -/

theorem enterRow0_moveTo_ok (h : d.Ok) {col : Int} (hcol : 1 ≤ col ∧ col ≤ 41) :
    (moveTo (enterRow0 d) 0 col).Ok := by
  have hcols : cols = 40 := rfl
  have hcol' := h.col
  have hrow := h.row
  simp only [enterRow0]
  split
  · next hin =>
      refine { h with row := ⟨Int.le_refl _, (by decide : (0 : Int) ≤ 24)⟩, inRow0 := ?_, col := hcol }
      simp [moveTo, hin]
  · next hin =>
      have hpos := h.row_pos (by simpa using hin)
      refine { h with
        row := ⟨Int.le_refl _, (by decide : (0 : Int) ≤ 24)⟩, inRow0 := ?_, col := hcol
        saved := .inr ⟨⟨hpos, hrow.2⟩, ?_⟩, svA := h.a }
      · simp [moveTo]
      · simp only [moveTo]
        split_ifs <;> omega

theorem doUs_ok (h : d.Ok) (r c : Nat) : (doUs d r c).Ok := by
  simp only [doUs]
  split_ifs
  · exact usIgnored_ok h
  · exact usIgnored_ok h
  · exact separatorReset_ok (enterRow0_moveTo_ok h ⟨by omega, by omega⟩)
  · exact separatorReset_ok (leaveRow0_moveTo_ok h ⟨by omega, by omega⟩ ⟨by omega, by omega⟩)

/-! ### CSI -/

variable {n : Int}

/-- Where the functions of CSI start: not in row 0, no wrap pending. -/
structure CsiReady (d : Screen) : Prop where
  ok : d.Ok
  out : d.inRow0 = false
  col : d.col ≤ cols

theorem CsiReady.row_pos (h : CsiReady d) : 1 ≤ d.row := h.ok.row_pos h.out

theorem CsiReady.clearLine (h : CsiReady d) {g : Grid Cell} (hg : PageOk d.rolled g) (c0 c1 : Int) :
    PageOk d.rolled (clearRow g d.row c0 c1) := hg.clearRow h.ok.row.1 h.ok.row.2 c0 c1

theorem eraseScreen_ok (h : CsiReady d) (p0 : Int) : (eraseScreen d p0).Ok := by
  have hrow := h.ok.row
  have hpos := h.row_pos
  refine markEver_ok ?_
  split_ifs with h0 hlast h1 hfirst h2
  · exact h.ok.withMem ((h.clearLine h.ok.mem _ _).clearRows _ _ (by omega) (by decide))
  · exact h.ok.withMem (h.clearLine h.ok.mem _ _)
  · exact h.ok.withMem (h.clearLine (h.ok.mem.clearRows _ _ (by decide) (by omega)) _ _)
  · exact h.ok.withMem (h.clearLine h.ok.mem _ _)
  · exact h.ok.withMem (h.ok.mem.clearRows _ _ (by decide) (by decide))
  · exact filtered_ok h.ok

theorem eraseLine_ok (h : CsiReady d) (p0 : Int) : (eraseLine d p0).Ok := by
  refine markEver_ok ?_
  split_ifs
  · exact h.ok.withMem (h.clearLine h.ok.mem _ _)
  · exact h.ok.withMem (h.clearLine h.ok.mem _ _)
  · exact h.ok.withMem (h.clearLine h.ok.mem _ _)
  · exact filtered_ok h.ok

theorem clampChars_le (d : Screen) (n : Int) : clampChars d n ≤ cols - d.col + 1 := by
  simp only [clampChars]
  split_ifs <;> omega

theorem le_clampChars (h : CsiReady d) (hn : 1 ≤ n) : 1 ≤ clampChars d n := by
  have hcol := h.col
  simp only [clampChars]
  split_ifs <;> omega

theorem deleteChars_ok (h : CsiReady d) (hlo : 1 ≤ n) (hhi : n ≤ cols - d.col + 1) :
    (deleteChars d n).Ok := by
  have hcols : cols = 40 := rfl
  have hrow := h.ok.row
  have hcol := h.ok.col
  refine h.ok.withMem (h.clearLine (h.ok.mem.moveRun (by omega) ?_ ?_) _ _)
  all_goals
    intro _
    simp only [Region.Mem]
    omega

theorem insertChars_ok (h : CsiReady d) (hlo : 1 ≤ n) (hhi : n ≤ cols - d.col + 1) :
    (insertChars d n).Ok := by
  have hcols : cols = 40 := rfl
  have hrow := h.ok.row
  have hcol := h.ok.col
  refine h.ok.withMem (h.clearLine (h.ok.mem.moveRun (by omega) ?_ ?_) _ _)
  all_goals
    intro _
    simp only [Region.Mem]
    omega

theorem addressCursor_ok (h : CsiReady d) (r c : Int) : (addressCursor d r c).Ok := by
  have hcols : cols = 40 := rfl
  simp only [addressCursor]
  split
  · exact filtered_ok h.ok
  · exact moveTo_ok h.ok h.out ⟨by omega, by omega⟩ ⟨by omega, by omega⟩

theorem setInsert_ok (h : d.Ok) (p0 : Int) (on : Bool) : (setInsert d p0 on).Ok := by
  simp only [setInsert]
  split
  · exact { h with }
  · exact filtered_ok h

theorem csiFunction_ok (h : CsiReady d) (q : CsiSeq) (final : Nat) (hn : 1 ≤ n) (p0 : Int) :
    (csiFunction d q final n p0).Ok := by
  have hcols : cols = 40 := rfl
  have hrow := h.ok.row
  have hpos := h.row_pos
  have hcol := h.ok.col
  unfold csiFunction
  split
  · refine moveTo_ok h.ok h.out ?_ h.ok.col
    split_ifs <;> omega
  · refine moveTo_ok h.ok h.out ?_ h.ok.col
    split_ifs <;> omega
  · refine moveCol_ok h.ok ?_
    split_ifs <;> omega
  · refine moveCol_ok h.ok ?_
    split_ifs <;> omega
  · exact addressCursor_ok h _ _
  · exact eraseScreen_ok h p0
  · exact eraseLine_ok h p0
  · exact deleteChars_ok h (le_clampChars h hn) (clampChars_le d n)
  · exact insertChars_ok h (le_clampChars h hn) (clampChars_le d n)
  · exact scrollUp_ok h.ok hpos ⟨by decide, by decide⟩
  · exact scrollDown_ok h.ok ⟨hpos, hrow.2⟩ (by decide)
  · exact setInsert_ok h.ok p0 _
  · exact setInsert_ok h.ok p0 _
  · exact filtered_ok h.ok

theorem doCsi_ok (h : d.Ok) (q : CsiSeq) (final : Nat) : (doCsi d q final).Ok := by
  simp only [doCsi]
  split
  · exact filtered_ok h
  · next hout =>
      have hready : CsiReady (settleCol d) :=
        ⟨settleCol_ok h, by simp only [settleCol]; simp_all, settleCol_col_le h⟩
      refine csiFunction_ok hready q final ?_ _
      split_ifs <;> omega

/-! ### Protocol -/

theorem doPro_ok (h : d.Ok) (q : ProSeq) : (doPro d q).Ok := by
  have hp := protocol_ok h
  rw [doPro]
  split
  · split_ifs
    · exact sendReply_ok hp _
    · exact { hp with a := attrDefault_ok }
    · exact hp
  · split_ifs
    · exact { hp with }
    · exact { hp with }
    · exact hp
    · exact hp

theorem reportCursor_ok (h : d.Ok) : (reportCursor d).Ok := protocol_ok (sendReply_ok h _)

/-! ### The byte automaton -/

/-- The arguments of a CSI sequence: at most four, small enough that no sum with them overflows. -/
structure CsiSeq.Ok (q : CsiSeq) : Prop where
  args : q.csiP.Good arr4 fun _ _ v => -1 ≤ v ∧ v ≤ 9999
  np : 0 ≤ q.csiNp ∧ q.csiNp ≤ 4

/-- The bytes of a protocol sequence; `open_` says whether one is being read. -/
structure ProSeq.Ok (open_ : Prop) (q : ProSeq) : Prop where
  bytes : q.pro.Good arr4 fun _ _ _ => True
  proN : 0 ≤ q.proN ∧ q.proN ≤ 3
  left : open_ → 1 ≤ q.proLeft ∧ q.proN + q.proLeft ≤ 3

structure IsoSeq.Ok (q : IsoSeq) : Prop where
  bytes : q.iso.Good arr4 fun _ _ _ => True
  isoN : 0 ≤ q.isoN

variable {D : Decoder}

structure Decoder.Ok (D : Decoder) : Prop where
  scr : D.scr.Ok
  csi : D.csi.Ok
  pro : D.pro.Ok (D.st = .pro)

theorem csiOpen_ok {q : CsiSeq} (h : q.Ok) : (csiOpen q).Ok := by
  refine ⟨?_, (by decide : (0 : Int) ≤ 0 ∧ (0 : Int) ≤ 4)⟩
  have hrun : arr4.MemRun 0 0 3 := by decide
  exact h.args.fillRun hrun fun _ _ _ => (by decide : (-1 : Int) ≤ -1 ∧ (-1 : Int) ≤ 9999)

theorem csiDigit_ok {q : CsiSeq} (h : q.Ok) {b : Nat} (hb : 0x30 ≤ b ∧ b ≤ 0x39) :
    (csiDigit q b).Ok := by
  have hnp := h.np
  have hnp' : 1 ≤ (if q.csiNp = 0 then 1 else q.csiNp) ∧
      (if q.csiNp = 0 then 1 else q.csiNp) ≤ 4 := by
    split_ifs <;> omega
  simp only [csiDigit]
  generalize (if q.csiNp = 0 then 1 else q.csiNp) = np at hnp'
  have hmem : arr4.Mem 0 (np - 1) := by
    simp only [Region.Mem]
    omega
  have hcell := h.args.cells 0 (np - 1) hmem
  refine ⟨h.args.put hmem ?_, ⟨by simp only; omega, by simp only; omega⟩⟩
  split_ifs <;> omega

theorem csiNext_ok {q : CsiSeq} (h : q.Ok) : (csiNext q).Ok := by
  have hnp := h.np
  simp only [csiNext]
  by_cases hfirst : q.csiNp = 0
  · simp only [hfirst, if_true, (by decide : (1 : Int) < 4)]
    exact ⟨h.args, by simp only; omega⟩
  · simp only [if_neg hfirst]
    split
    · exact ⟨h.args, by simp only; omega⟩
    · exact ⟨h.args, hnp⟩

theorem proStore_ok {q : ProSeq} (h : q.Ok True) (b : Nat) :
    (proStore q b).Ok (¬(proStore q b).proLeft ≤ 0) := by
  have hn := h.proN
  have hleft := h.left trivial
  refine ⟨?_, ⟨by simp only [proStore]; omega, by simp only [proStore]; omega⟩, fun hopen => ?_⟩
  · simp only [proStore]
    split
    · refine h.bytes.put ?_ trivial
      simp only [Region.Mem]
      omega
    · exact h.bytes
  · simp only [proStore] at hopen ⊢
    omega

theorem Decoder.Ok.onScreen (h : D.Ok) {f : Screen → Screen} (hf : D.scr.Ok → (f D.scr).Ok) :
    (onScreen D f).Ok := { h with scr := hf h.scr }

/-- A sequence that ends or begins, protocol apart, leaves the accumulators as they are. -/
theorem Decoder.Ok.setSt (h : D.Ok) (st : St) (hst : st ≠ .pro) : (setSt D st).Ok :=
  { h with pro := { h.pro with left := fun hp => absurd hp hst } }

theorem Ext.alphaGlyph (e : Ext) : AlphaGlyph e.code := by
  cases e <;> decide

theorem g2Glyph_ok {b g : Nat} (hg : g2Glyph b = some g) : AlphaGlyph g := by
  unfold g2Glyph at hg
  split at hg
  all_goals cases hg
  all_goals first | exact Ext.alphaGlyph _ | decide

theorem compose_ok {acc letter g : Nat} (hg : compose acc letter = some g) : AlphaGlyph g := by
  unfold compose at hg
  split at hg
  all_goals cases hg
  all_goals exact Ext.alphaGlyph _

theorem doC0_ok (h : D.Ok) (b : Nat) : (doC0 D b).Ok := by
  unfold doC0
  split
  · exact h.onScreen countBell_ok
  · exact h.onScreen doBs_ok
  · exact h.onScreen doHt_ok
  · exact h.onScreen doLf_ok
  · exact h.onScreen doVt_ok
  · exact h.onScreen doFf_ok
  · exact h.onScreen doCr_ok
  · exact h.onScreen doSo_ok
  · exact h.onScreen doSi_ok
  · exact h.onScreen fun hs => showCursor_ok hs _
  · exact h.setSt _ nofun
  · exact h.setSt _ nofun
  · exact h.onScreen fun hs => showCursor_ok hs _
  · exact h.onScreen doCan_ok
  · split
    · exact h
    · exact h.setSt _ nofun
  · exact h.onScreen doSub_ok
  · exact h.setSt _ nofun
  · exact h.setSt _ nofun
  · exact h.onScreen doRs_ok
  · exact h.setSt _ nofun
  · exact h

theorem escCode_ok (h : D.Ok) (b : Nat) : (escCode D b).Ok := by
  simp only [escCode]
  split_ifs
  · exact h.onScreen fun hs => doAttribute_ok hs b
  · exact { h.setSt .csi nofun with csi := csiOpen_ok h.csi }
  · exact h.setSt _ nofun
  · exact { h.setSt .iso nofun with }
  · exact h.setSt _ nofun
  · refine { h with
      pro := ⟨h.pro.bytes, ⟨by simp only [proOpen]; omega, by simp only [proOpen]; omega⟩, ?_⟩ }
    intro _
    simp only [proOpen]
    omega
  · exact h.onScreen reportCursor_ok
  · exact h.onScreen filtered_ok

theorem maskScreen_ok (h : d.Ok) (on : Bool) : (maskScreen d on).Ok := { h with }

theorem isoCode_ok (h : D.Ok) (b : Nat) : (isoCode D b).Ok := by
  have hground := h.setSt .ground nofun
  simp only [isoCode]
  split_ifs
  · exact { h with }
  · exact hground.onScreen fun hs => maskScreen_ok hs _
  · exact hground.onScreen fun hs => maskScreen_ok hs _
  · exact hground.onScreen filtered_ok

theorem csiCode_ok (h : D.Ok) (b : Nat) : (csiCode D b).Ok := by
  simp only [csiCode]
  split_ifs with hdigit
  · exact { h with csi := csiDigit_ok h.csi hdigit }
  · exact { h with csi := csiNext_ok h.csi }
  · exact { h with csi := { h.csi with } }
  · exact { h with csi := { h.csi with } }
  · exact (h.setSt .ground nofun).onScreen fun hs => doCsi_ok hs _ b

theorem ss2Code_ok (h : D.Ok) (b : Nat) : (ss2Code D b).Ok := by
  have hground := h.setSt .ground nofun
  simp only [ss2Code]
  split
  · exact { h.setSt .ss2Acc nofun with }
  · split
    · next hg => exact hground.onScreen fun hs => putGlyph_ok hs (g2Glyph_ok hg)
    · exact hground.onScreen fun hs => putGlyph_ok (unrepresent_ok hs) (by decide)

theorem ss2AccCode_ok (h : D.Ok) {b : Nat} (hlo : 0x20 ≤ b) (hhi : b < 128) :
    (ss2AccCode D b).Ok := by
  have hground := h.setSt .ground nofun
  simp only [ss2AccCode]
  split
  · next hg => exact hground.onScreen fun hs => putGlyph_ok hs (compose_ok hg)
  · exact hground.onScreen fun hs => putPrintable_ok hs hlo hhi

theorem proCode_ok (h : D.Ok) (hst : D.st = .pro) (b : Nat) : (proCode D b).Ok := by
  have hstore := proStore_ok { h.pro with left := fun _ => h.pro.left hst } b
  simp only [proCode]
  split
  · have hground : Decoder.Ok (setSt { D with pro := proStore D.pro b } .ground) :=
      { h with pro := { hstore with left := nofun } }
    exact hground.onScreen fun hs => doPro_ok hs _
  · next hopen => exact { h with pro := { hstore with left := fun _ => hstore.left hopen } }

theorem repCode_ok (h : D.Ok) (b : Nat) :
    (if b < 0x40 then Minitel.onScreen (Minitel.setSt D .ground) filtered
      else Minitel.onScreen (Minitel.setSt D .ground) (repeatLast (b % 64))).Ok := by
  have hground := h.setSt .ground nofun
  split
  · exact hground.onScreen filtered_ok
  · exact hground.onScreen fun hs => repeatLast_ok hs _

/-- Outside of the ground state a byte below 0x20 does not come here. -/
theorem feedCode_ok (h : D.Ok) {b : Nat} (hlo : D.st ≠ .ground → 0x20 ≤ b) (hhi : b < 128) :
    (feedCode D b).Ok := by
  have hground := h.setSt .ground nofun
  unfold feedCode
  split
  · split
    · exact doC0_ok h b
    · exact h.onScreen fun hs => putPrintable_ok hs (by omega) hhi
  · exact escCode_ok hground b
  · exact isoCode_ok h b
  · exact csiCode_ok h b
  · exact { h.setSt .us2 nofun with }
  · exact hground.onScreen fun hs => doUs_ok hs _ b
  · exact repCode_ok h b
  · exact ss2Code_ok h b
  · next hst => exact ss2AccCode_ok h (hlo (by rw [hst]; nofun)) hhi
  · exact hground.onScreen filtered_ok
  · next hst => exact proCode_ok h hst b
  · exact hground

theorem countResync_ok (h : d.Ok) : (countResync d).Ok := { h with }

theorem resync_ok (h : D.Ok) (b : Nat) : (resync D b).Ok := by
  simp only [resync]
  split
  · exact (h.setSt .ground nofun).onScreen countResync_ok
  · exact h

theorem resync_le {b : Nat} (hst : (resync D b).st ≠ .ground) : 0x20 ≤ b := by
  simp only [resync] at hst
  split at hst
  · exact absurd rfl hst
  · next hno => exact Nat.le_of_not_lt fun hb => hno ⟨hb, hst⟩

theorem feedByte_ok (h : D.Ok) {b : Nat} (hb : b < 128) : (feedByte D b).Ok := by
  unfold feedByte
  split
  · refine Decoder.Ok.onScreen ?_ filtered_ok
    split
    · exact h.setSt _ nofun
    · exact h
  · split_ifs
    · exact h.setSt _ nofun
    · exact h.setSt _ nofun
    · exact h.setSt _ nofun
    · exact h
  · split_ifs
    · exact h.setSt _ nofun
    · exact h.setSt _ nofun
    · exact h.setSt _ nofun
  · split_ifs
    · exact h.setSt _ nofun
    · exact h.setSt _ nofun
    · exact h.setSt _ nofun
  · split
    · exact h
    · exact feedCode_ok (resync_ok h b) resync_le hb

theorem countByte_ok (h : d.Ok) (b : UInt8) : (countByte b d).Ok := { h with }

theorem feedOne_ok (h : D.Ok) (b : UInt8) : (feedOne D b).Ok :=
  feedByte_ok (h.onScreen fun hs => countByte_ok hs b) (Nat.mod_lt _ (by decide))

/-! ### The intermediates of ISO sequences -/

/-- The three things a byte can do to the intermediates. -/
def IsoStep (q q' : IsoSeq) (b : Nat) : Prop := q' = q ∨ q' = isoOpen q b ∨ q' = isoStore q b

theorem doC0_iso (D : Decoder) (b : Nat) : (doC0 D b).iso = D.iso := by
  unfold doC0
  split
  case h_15 => split <;> rfl
  all_goals rfl

theorem escCode_iso (D : Decoder) (b : Nat) : IsoStep D.iso (escCode D b).iso b := by
  simp only [escCode]
  split_ifs
  case pos => exact .inl rfl
  case pos => exact .inl rfl
  case pos => exact .inl rfl
  case pos => exact .inr (.inl rfl)
  all_goals exact .inl rfl

theorem isoCode_iso (D : Decoder) (b : Nat) : IsoStep D.iso (isoCode D b).iso b := by
  simp only [isoCode]
  split_ifs
  · exact .inr (.inr rfl)
  all_goals exact .inl rfl

theorem csiCode_iso (D : Decoder) (b : Nat) : (csiCode D b).iso = D.iso := by
  simp only [csiCode]
  split_ifs <;> rfl

theorem ss2Code_iso (D : Decoder) (b : Nat) : (ss2Code D b).iso = D.iso := by
  simp only [ss2Code]
  split
  · rfl
  · split <;> rfl

theorem ss2AccCode_iso (D : Decoder) (b : Nat) : (ss2AccCode D b).iso = D.iso := by
  simp only [ss2AccCode]
  split <;> rfl

theorem proCode_iso (D : Decoder) (b : Nat) : (proCode D b).iso = D.iso := by
  simp only [proCode]
  split <;> rfl

theorem feedCode_iso (D : Decoder) (b : Nat) : IsoStep D.iso (feedCode D b).iso b := by
  unfold feedCode
  split
  · split
    · exact .inl (doC0_iso D b)
    · exact .inl rfl
  · exact escCode_iso (setSt D .ground) b
  · exact isoCode_iso D b
  · exact .inl (csiCode_iso D b)
  · exact .inl rfl
  · exact .inl rfl
  · split <;> exact .inl rfl
  · exact .inl (ss2Code_iso D b)
  · exact .inl (ss2AccCode_iso D b)
  · exact .inl rfl
  · exact .inl (proCode_iso D b)
  · exact .inl rfl

theorem resync_iso (D : Decoder) (b : Nat) : (resync D b).iso = D.iso := by
  simp only [resync]
  split <;> rfl

theorem feedByte_iso (D : Decoder) (b : Nat) : IsoStep D.iso (feedByte D b).iso b := by
  unfold feedByte
  split
  · refine .inl ?_
    split <;> rfl
  · refine .inl ?_
    split_ifs <;> rfl
  · refine .inl ?_
    split_ifs <;> rfl
  · refine .inl ?_
    split_ifs <;> rfl
  · split
    · exact .inl rfl
    · have hcode := feedCode_iso (resync D b) b
      rwa [resync_iso] at hcode

theorem IsoStep.ok {q q' : IsoSeq} {b : Nat} (hstep : IsoStep q q' b) (h : q.Ok)
    (hn : q.isoN < maxInt32) : q'.Ok := by
  have hn0 := h.isoN
  rcases hstep with rfl | rfl | rfl
  · exact h
  · exact ⟨h.bytes.put (i := 0) (j := 0) (v := b) (by decide) trivial, (by decide : (0 : Int) ≤ 1)⟩
  · refine ⟨?_, ?_⟩
    · simp only [isoStore]
      split
      · refine h.bytes.put ?_ trivial
        simp only [Region.Mem]
        omega
      · exact h.bytes
    · simp only [isoStore, maxInt32] at hn ⊢
      rw [wrap32_of_fits ⟨by simp only [minInt32]; omega, by simp only [maxInt32]; omega⟩]
      omega

/-! ### Every byte of every stream -/

theorem reset_ok : reset.Ok where
  scr :=
    { mem := PageOk.erased
      row := ⟨by decide, by decide⟩
      inRow0 := by decide
      col := ⟨by decide, by decide⟩
      saved := .inl (by decide)
      a := attrDefault_ok
      svA := { attrDefault_ok with fg := (by decide : 0 < 8) }
      lastG0 := nofun
      lastGlyph := nofun }
  csi := ⟨Grid.good_const fun _ _ _ => ⟨by decide, by decide⟩, ⟨by decide, by decide⟩⟩
  pro := ⟨Grid.good_const fun _ _ _ => trivial, ⟨by decide, by decide⟩, nofun⟩

theorem reset_iso_ok : reset.iso.Ok := ⟨Grid.good_const fun _ _ _ => trivial, by decide⟩

theorem feed_ok (h : D.Ok) (buf : List UInt8) : (feed D buf).Ok :=
  Machine.run_inv (I := Decoder.Ok) (fun _ b hd => feedOne_ok hd b) h buf

/-- The counter of intermediates can still go up. -/
def IsoRoom (D : Decoder) (_ : UInt8) : Prop := D.iso.isoN < maxInt32

theorem feed_iso_ok (h : D.iso.Ok) {buf : List UInt8} (hroom : Machine.Guarded feedOne IsoRoom D buf) :
    (feed D buf).iso.Ok :=
  Machine.run_inv_of_guarded (I := fun D => D.iso.Ok)
    (fun D b hd hn => (feedByte_iso (onScreen D (countByte b)) _).ok hd hn) h hroom

/-- The terminal invariant. The intermediates of an ISO sequence stay in their array as long as the
`int` that counts them has room. -/
theorem terminal_invariant (buf : List UInt8) :
    (feed reset buf).Ok ∧
      (Machine.Guarded feedOne IsoRoom reset buf → (feed reset buf).iso.Ok) :=
  ⟨feed_ok reset_ok buf, feed_iso_ok reset_iso_ok⟩

/-- LF, a character of double height, CSI H and CSI M: the lower half of the character alone ends up in
row 1. The position to return to from row 0 is no position of the page all along. -/
theorem terminal_invariant_limits :
    let d := (feed reset [0x0A, 0x1B, 0x4D, 0x41, 0x1B, 0x5B, 0x48, 0x1B, 0x5B, 0x4D]).scr
    ((d.mem.cell 1 1).size.dh = true ∧ (d.mem.cell 1 1).size.top = false) ∧
      d.svRow = 0 ∧ d.svCol = 0 := by
  decide

end UnicornSuite.Minitel
