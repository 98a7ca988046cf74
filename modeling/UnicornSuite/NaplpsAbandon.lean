import UnicornSuite.NaplpsCounters
import UnicornSuite.NaplpsRegular
import UnicornSuite.NaplpsSegmentation

/-! The two forms of a C1 control. In the 8-bit environment a control comes as one byte of columns 8
and 9 or as ESC and a final of columns 4 and 5. Both cancel the operand that is awaited and then do the
same (`c1_forms`). -/

namespace UnicornSuite.Naplps

section

variable {arc : ArcPoints} {d : Decoder} {b : Nat}

/-- A control arrives where an operand is awaited. -/
def cancelPend (d : Decoder) : Decoder :=
  match d.code.pend with
  | .none => d
  | .rep => onDisplay (dropPend d) skipped
  | .nsr => nsrReset (openPend d .none)
  | .aps => openPend d .none

/-- What a C1 control does while no operand is awaited. -/
def actC1 (arc : ArcPoints) (d : Decoder) (col row : Nat) : Decoder :=
  if d.code.swallow ∧ ¬(col = 4 ∧ isDefTerminator row) then d else doC1 (pdiTerminate arc d) col row

theorem cancelPend_eq (d : Decoder) :
    (cancelPend d).code.mode = d.code.mode ∧ (cancelPend d).code.eightbit = d.code.eightbit ∧
      (cancelPend d).code.escstate = d.code.escstate ∧
      (cancelPend d).code.esclen = d.code.esclen ∧
      (cancelPend d).code.swallow = d.code.swallow := by
  unfold cancelPend
  split <;> exact ⟨rfl, rfl, rfl, rfl, rfl⟩

/-- Every control cancels the operand and is then executed. -/
theorem feedPlain_control (d : Decoder)
    (hctrl : b < 0x20 ∨ (d.code.eightbit ∧ b ≥ 0x80 ∧ b ≤ 0x9F)) :
    feedPlain arc d b = feedMain arc (cancelPend d) b := by
  unfold feedPlain handlePending handleRepeat cancelPend
  cases hpend : d.code.pend with
  | none => simp
  | aps | nsr | rep => simp [hctrl]

theorem feedMain_esc (hmode : d.code.mode = .naplps) : feedMain arc d 0x1B = openEsc d := by
  unfold feedMain handleC0
  rw [if_neg (by simp [hmode]), if_pos (by decide), if_neg (by decide), if_pos rfl]

theorem feedMain_c1 (hmode : d.code.mode = .naplps) (hbit : d.code.eightbit = true)
    (hlo : 0x80 ≤ b) (hhi : b ≤ 0x9F) :
    feedMain arc d b = actC1 arc d (b / 16 % 16 - 4) (b % 16) := by
  unfold feedMain
  rw [if_neg (by simp [hmode]), if_neg (by omega), if_pos ⟨hbit, hlo, hhi⟩]
  rfl

theorem escPlainFinal_c1 (hlo : 0x40 ≤ b) (hhi : b ≤ 0x5F) :
    escPlainFinal arc d b = actC1 arc d (b / 16 % 16) (b % 16) := by
  unfold escPlainFinal
  split
  iterate 8 omega
  · rw [if_pos ⟨hlo, hhi⟩]
    rfl

theorem actC1_counted {k : Stats} {e : Decoder} (h : Decoder.Counted k d e) (col row : Nat) :
    Decoder.Counted k (actC1 arc d col row) (actC1 arc e col row) := by
  have hdo := doC1_counted (@pdiTerminate_counted arc _ _ _ h) col row
  subst h
  exact .ite rfl rfl hdo

theorem closeEsc_openEsc (hesc : d.code.escstate = .none) (hlen : d.code.esclen = 0) :
    closeEsc (openEsc d) = d := by
  have hcode : (closeEsc (openEsc d)).code = d.code := by
    rw [closeEsc, openEsc, ← hesc, ← hlen]
  exact congrArg (fun code => { d with code := code }) hcode

theorem selectEnvironment_of_bit (hbit : d.code.eightbit = true) (b : Nat) :
    selectEnvironment d b = d := by
  have hor : (d.code.eightbit || b / 128 % 2 == 1) = d.code.eightbit := by
    rw [hbit, Bool.true_or]
  exact congrArg (fun bit => { d with code.eightbit := bit }) hor

/-- The 8-bit form. -/
theorem feedByte_c1 (hmode : d.code.mode = .naplps) (hbit : d.code.eightbit = true)
    (hesc : d.code.escstate = .none) {k : Nat} (hk : k < 32) :
    feedByte arc d (0x80 + k) = actC1 arc (cancelPend d) (4 + k / 16) (k % 16) := by
  obtain ⟨hmode', hbit', _⟩ := cancelPend_eq d
  rw [feedByte_raw d (by omega), if_neg (by simp [hesc]), selectEnvironment_of_bit hbit,
    feedPlain_control d (.inr ⟨hbit, by omega, by omega⟩),
    feedMain_c1 (hmode'.trans hmode) (hbit'.trans hbit) (by omega) (by omega)]
  congr 1 <;> omega

/-- The 7-bit form: ESC cancels the operand and the final acts. -/
theorem feedByte_esc (hmode : d.code.mode = .naplps) (hbit : d.code.eightbit = true)
    (hesc : d.code.escstate = .none) : feedByte arc d 0x1B = openEsc (cancelPend d) := by
  obtain ⟨hmode', _⟩ := cancelPend_eq d
  rw [feedByte_raw d (by omega), if_neg (by simp [hesc]), selectEnvironment_of_bit hbit,
    feedPlain_control d (.inl (by decide)), feedMain_esc (hmode'.trans hmode)]

theorem feedByte_final (hbit : d.code.eightbit = true) (hseen : d.code.escstate = .seen)
    (hlen : d.code.esclen = 0) {k : Nat} (hk : k < 32) :
    feedByte arc d (0x40 + k) = actC1 arc (closeEsc d) (4 + k / 16) (k % 16) := by
  rw [feedByte_raw d (by omega), if_pos hseen, selectEnvironment_of_bit hbit, escByte,
    if_neg (by omega), if_pos (by omega), if_pos hlen, escPlainFinal_c1 (by omega) (by omega)]
  congr 1 <;> omega

/-- In every reachable state of the 8-bit environment in which no escape sequence is open, ESC and the
final leave the state that the single byte leaves, with one byte more counted. -/
theorem c1_forms (arc : ArcPoints) (es : List Event) (d : Decoder)
    (hd : d = Machine.run (step arc) create es) (hmode : d.code.mode = .naplps)
    (hbit : d.code.eightbit = true) (hesc : d.code.escstate = .none) (k : Nat) (hk : k < 32) :
    feedOne arc (feedOne arc d 0x1B) (UInt8.ofNat (0x40 + k)) =
      onDisplay (feedOne arc d (UInt8.ofNat (0x80 + k))) countByte := by
  have hreg : d.Regular := hd ▸ run_regular arc es
  obtain ⟨_, hbit', hesc', hlen', _⟩ := cancelPend_eq (onDisplay d countByte)
  have hclose := closeEsc_openEsc (hesc'.trans hesc) (hlen'.trans (hreg.esclen hesc))
  have hcount (disp : Display) : countByte disp = disp.count { bytesIn := 1 } := by
    simp [countByte, Display.count, Stats.plus]
  have hfinal : (UInt8.ofNat (0x40 + k)).toNat = 0x40 + k := by
    rw [UInt8.toNat_ofNat', Nat.mod_eq_of_lt (by omega)]
  have hbyte : (UInt8.ofNat (0x80 + k)).toNat = 0x80 + k := by
    rw [UInt8.toNat_ofNat', Nat.mod_eq_of_lt (by omega)]
  calc feedOne arc (feedOne arc d 0x1B) (UInt8.ofNat (0x40 + k))
      = feedByte arc (onDisplay (openEsc (cancelPend (onDisplay d countByte))) countByte)
          (0x40 + k) := by
        rw [feedOne, feedOne, hfinal]
        exact congrArg (fun e => feedByte arc (onDisplay e countByte) (0x40 + k))
          (feedByte_esc hmode hbit hesc)
    _ = actC1 arc (onDisplay (cancelPend (onDisplay d countByte)) countByte) (4 + k / 16)
          (k % 16) := by
        rw [feedByte_final (d := onDisplay (openEsc (cancelPend (onDisplay d countByte))) countByte)
          (hbit'.trans hbit) rfl rfl hk]
        exact congrArg (fun e => actC1 arc (onDisplay e countByte) (4 + k / 16) (k % 16)) hclose
    _ = onDisplay (actC1 arc (cancelPend (onDisplay d countByte)) (4 + k / 16) (k % 16))
          countByte := by
        rw [show countByte = (Display.count · { bytesIn := 1 }) from funext hcount]
        exact actC1_counted rfl _ _
    _ = onDisplay (feedOne arc d (UInt8.ofNat (0x80 + k))) countByte := by
        rw [feedOne, hbyte, feedByte_c1 (d := onDisplay d countByte) hmode hbit hesc hk]

end

/-- An 8-bit END while a REPEAT waits for its count. -/
theorem c1_forms_end :
    feedOne noArc (feedOne noArc (feed noArc create [0x86]) 0x1B) (UInt8.ofNat (0x40 + 5)) =
      onDisplay (feedOne noArc (feed noArc create [0x86]) (UInt8.ofNat (0x80 + 5))) countByte :=
  c1_forms noArc [.feed [0x86]] _ rfl (by decide) (by decide +kernel) (by decide)
    5 (by decide)

end UnicornSuite.Naplps

/-! The byte that breaks an escape sequence off. A byte of the 7-bit code that can neither continue nor
end the sequence is executed as if the sequence had not been there. A byte with bit 8 set loses that bit
on its way into `esc_byte`, and so its meaning (`abandon_iff`). -/

namespace UnicornSuite.Naplps

section

variable {arc : ArcPoints} {d : Decoder} {b : Nat}

/-- The state less the count of malformed escape sequences. -/
def lessMalformed (d : Decoder) : Decoder :=
  onDisplay d fun disp => { disp with st.escMalformed := 0 }

theorem lessMalformed_count (d : Decoder) (n : UInt32) :
    lessMalformed (onDisplay d (Display.count · { escMalformed := n })) = lessMalformed d := by
  simp [lessMalformed, onDisplay, Display.count, Stats.plus]

/-- The sequence is discarded and the byte executed, and the one is counted. -/
theorem feedByte_abandon (hseen : d.code.escstate = .seen) (hb : b < 0x20 ∨ b = 0x7F) :
    feedByte arc d b =
      onDisplay (feedByte arc (closeEsc d) b) (Display.count · { escMalformed := 1 }) := by
  have hcount : escMalformed (closeEsc (selectEnvironment d b)) =
      onDisplay (closeEsc (selectEnvironment d b)) (Display.count · { escMalformed := 1 }) := by
    simp [escMalformed, onDisplay, Display.count, Stats.plus]
  have hnone : ¬(closeEsc d).code.escstate = .seen := by simp [closeEsc]
  rw [feedByte_raw d (by omega), if_pos hseen, Nat.mod_eq_of_lt (by omega), escByte,
    if_neg (by omega), if_neg (by omega), hcount, feedByte_raw (closeEsc d) (by omega), if_neg hnone]
  exact feedPlain_counted rfl b

/-! ### Bytes with bit 8 -/

/-- Reverse video, scrolling and underlining are on, the cursor is not at home, a POINT is open in the
8-bit environment and an escape sequence has begun. -/
def openEscape : List UInt8 := [0x88, 0x97, 0x99, 0x09, 0xA4, 0x1B]

/-- Some of what a control, an opcode or an operand changes. -/
structure Marks where
  op : Option Nat
  oplen : Nat
  escstate : EscState
  pend : Pend
  gl : Nat
  singleShift : Option Nat
  cursor : Int × Int
  cfDx : Int
  reverseVideo : Bool
  scroll : Bool
  underline : Bool
  skipped : UInt32
  everDrew : Bool
  deriving DecidableEq

def marks (d : Decoder) : Marks where
  op := d.pdi.op
  oplen := d.pdi.oplen
  escstate := d.code.escstate
  pend := d.code.pend
  gl := d.code.gl
  singleShift := d.code.singleShift
  cursor := (d.disp.text.cx, d.disp.text.cy)
  cfDx := d.disp.text.cfDx
  reverseVideo := d.disp.text.reverseVideo
  scroll := d.disp.text.scroll
  underline := d.disp.text.underline
  skipped := d.disp.st.pdiSkipped
  everDrew := d.disp.everDrew

theorem marks_lessMalformed (d : Decoder) : marks (lessMalformed d) = marks d := rfl

theorem openEscape_marks : ∀ n < 128,
    marks (feedOne noArc (feed noArc create openEscape) (UInt8.ofNat (128 + n))) ≠
      marks (feedOne noArc (closeEsc (feed noArc create openEscape)) (UInt8.ofNat (128 + n))) := by
  decide +kernel

theorem feedOne_abandon (hseen : d.code.escstate = .seen) {b : UInt8}
    (hb : b.toNat < 0x20 ∨ b.toNat = 0x7F) :
    lessMalformed (feedOne arc d b) = lessMalformed (feedOne arc (closeEsc d) b) := by
  rw [feedOne, feedByte_abandon (d := onDisplay d countByte) hseen hb, lessMalformed_count]
  rfl

/-- A byte that breaks an escape sequence off is executed as it would be without the sequence, in every
reachable state, if and only if it is one of the 7-bit code. -/
theorem abandon_iff (b : UInt8) (hb : ¬(0x20 ≤ b.toNat ∧ b.toNat ≤ 0x7E)) :
    (∀ (arc : ArcPoints) (es : List Event) (d : Decoder), d = Machine.run (step arc) create es →
        d.code.escstate = .seen →
        lessMalformed (feedOne arc d b) = lessMalformed (feedOne arc (closeEsc d) b)) ↔
      b.toNat < 0x80 := by
  constructor
  · intro hall
    by_contra hbit
    have hn := b.toNat_lt
    have hbyte : UInt8.ofNat (128 + (b.toNat - 128)) = b := by
      rw [show 128 + (b.toNat - 128) = b.toNat by omega, UInt8.ofNat_toNat]
    have hdiff := openEscape_marks (b.toNat - 128) (by omega)
    rw [hbyte] at hdiff
    have hrun : feed noArc create openEscape =
        Machine.run (step noArc) create [.feed openEscape] := by
      rw [Machine.run_cons, Machine.run_nil, step]
    have hsame := hall noArc _ _ hrun (by decide)
    have hmarks := congrArg marks hsame
    rw [marks_lessMalformed, marks_lessMalformed] at hmarks
    exact hdiff hmarks
  · intro hlow arc es d _ hseen
    exact feedOne_abandon hseen (by omega)

end

/-- A line feed after ESC is a line feed. -/
theorem abandon_lf : lessMalformed (feedOne noArc (feed noArc create [0x1B]) 0x0A) =
    lessMalformed (feedOne noArc (closeEsc (feed noArc create [0x1B])) 0x0A) :=
  (abandon_iff 0x0A (by decide)).mpr (by decide) noArc [.feed [0x1B]] _ rfl (by decide)

/-- REVERSE VIDEO after ESC moves the cursor back. -/
theorem abandon_reverse : ¬∀ (arc : ArcPoints) (es : List Event) (b : UInt8),
    ¬(0x20 ≤ b.toNat ∧ b.toNat ≤ 0x7E) →
    (Machine.run (step arc) create es).code.escstate = .seen →
    lessMalformed (feedOne arc (Machine.run (step arc) create es) b) =
      lessMalformed (feedOne arc (closeEsc (Machine.run (step arc) create es)) b) := by
  intro hall
  have hsame := hall noArc [.feed [0x1B]] 0x88 (by decide) (by decide)
  have hreverse := congrArg (fun d => d.disp.text.reverseVideo) hsame
  revert hreverse
  decide

end UnicornSuite.Naplps
