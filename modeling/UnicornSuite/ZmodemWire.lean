import UnicornSuite.LibCrc
import UnicornSuite.ZmodemRecv

/-! The serial layer of the vendored core (`zserial.c` with `crc16.c`, `crc32.c`): escapes, data
subpackets and their checks. A line is what `zm_recv` returns call after call; behind its end the
transport is closed. `Sent` says which bytes stand for a value on the wire, whatever a sender chose to
escape, and the readers are shown to take exactly those. -/

namespace UnicornSuite.Zmodem

open Crc

/-! ### The checks -/

/-- The inner loop of `crc16_build`. -/
def crc16Bit (r : BitVec 16) : BitVec 16 :=
  if r &&& 0x8000#16 ≠ 0 then (r <<< 1) ^^^ 0x1021#16 else r <<< 1

def crc16tbl (i : BitVec 8) : BitVec 16 := crc16Bit^[8] (i.setWidth 16 <<< 8)

def ucrc16 (ch : UInt8) (crc : BitVec 16) : BitVec 16 :=
  crc16tbl (((crc >>> 8) &&& 0xff#16).setWidth 8 ^^^ ch.toBitVec) ^^^ (crc <<< 8)

def crc32Bit (r : BitVec 32) : BitVec 32 :=
  if r &&& 1#32 ≠ 0 then (r >>> 1) ^^^ 0xEDB88320#32 else r >>> 1

def crc32tbl (i : BitVec 8) : BitVec 32 := crc32Bit^[8] (i.setWidth 32)

def ucrc32 (ch : UInt8) (crc : BitVec 32) : BitVec 32 :=
  crc32tbl (((crc ^^^ ch.toBitVec.setWidth 32) &&& 0xff#32).setWidth 8) ^^^ (crc >>> 8)

def crcStartXmodem : BitVec 16 := 0#16

def crcStart32 : BitVec 32 := ~~~0#32

def zmCalcDataCrc (buf : List UInt8) : BitVec 16 := buf.foldl (fun crc b => ucrc16 b crc) crcStartXmodem

def zmCalcDataCrc32 (buf : List UInt8) : BitVec 32 :=
  ~~~buf.foldl (fun crc b => ucrc32 b crc) crcStart32

/-- `CRC` -/
def btow (b1 b2 : UInt8) : BitVec 16 :=
  b1.toBitVec.setWidth 16 <<< 8 ||| b2.toBitVec.setWidth 16

/-- `CRC32` -/
def btodw (b1 b2 b3 b4 : UInt8) : BitVec 32 :=
  b4.toBitVec.setWidth 32 <<< 24 ||| b3.toBitVec.setWidth 32 <<< 16 |||
    b2.toBitVec.setWidth 32 <<< 8 ||| b1.toBitVec.setWidth 32

/-- The registers the two checks are. -/
def xmodem : Register 16 := left 0x1021#16 (by decide)

def ieee : Register 32 := right 0xEDB88320#32 (by decide)

theorem crc16Bit_eq : crc16Bit = shiftLeft 0x1021#16 := by
  funext r
  have h : (r &&& 0x8000#16 ≠ 0) ↔ r.msb = true := by
    rw [show 0x8000#16 = BitVec.twoPow 16 15 by rfl, BitVec.and_twoPow, BitVec.msb_eq_getLsbD_last]
    cases r.getLsbD 15 <;> simp
  simp only [crc16Bit, shiftLeft, h]

theorem crc32Bit_eq : crc32Bit = shiftRight 0xEDB88320#32 := by
  funext r
  have h : (r &&& 1#32 ≠ 0) ↔ r.getLsbD 0 = true := by
    rw [BitVec.and_one_eq_setWidth_ofBool_getLsbD]
    cases r.getLsbD 0 <;> simp
  simp only [crc32Bit, shiftRight, h]

theorem getLsbD_ff {n i : Nat} (hi : i < n) : (BitVec.ofNat n 0xff).getLsbD i = decide (i < 8) := by
  rw [BitVec.getLsbD_ofNat, show (0xff : Nat) = 2 ^ 8 - 1 by rfl, Nat.testBit_two_pow_sub_one]
  simp [hi]

theorem ucrc16_eq (ch : UInt8) (crc : BitVec 16) : ucrc16 ch crc = xmodem.run crc (msbFirst ch.toBitVec) := by
  have h8 : ((crc >>> 8) &&& 0xff#16).setWidth 8 = (crc >>> 8).setWidth 8 := by
    apply BitVec.eq_of_getLsbD_eq
    intro i hi
    rw [BitVec.getLsbD_setWidth, BitVec.getLsbD_setWidth, BitVec.getLsbD_and, getLsbD_ff (by omega)]
    simp [hi]
  have hi : ((crc >>> 8).setWidth 8 ^^^ ch.toBitVec).setWidth 16 = (crc >>> 8) ^^^ ch.toBitVec.setWidth 16 := by
    apply BitVec.eq_of_getLsbD_eq
    intro i hi
    by_cases h : i < 8
    · simp [h, hi]
    · have h1 : ¬8 + i < 16 := by omega
      simp [h, hi, BitVec.getLsbD_of_ge crc (8 + i) (by omega), BitVec.getLsbD_of_ge ch.toBitVec i (by omega)]
  rw [xmodem, run_word_left _ _ crc ch.toBitVec (by decide), ucrc16, crc16tbl, crc16Bit_eq, h8, hi]

theorem ucrc32_eq (ch : UInt8) (crc : BitVec 32) : ucrc32 ch crc = ieee.run crc (lsbFirst ch.toBitVec) := by
  have h : ((((crc ^^^ ch.toBitVec.setWidth 32) &&& 0xff#32).setWidth 8).setWidth 32 : BitVec 32) =
      (crc ^^^ ch.toBitVec.setWidth 32) &&& (BitVec.allOnes 32 >>> (32 - 8)) := by
    apply BitVec.eq_of_getLsbD_eq
    intro i hi
    rw [BitVec.getLsbD_setWidth, BitVec.getLsbD_setWidth, BitVec.getLsbD_and, BitVec.getLsbD_and,
      getLsbD_ff hi, BitVec.getLsbD_ushiftRight, BitVec.getLsbD_allOnes]
    by_cases h : i < 8
    · have h1 : 32 - 8 + i < 32 := by omega
      simp [h, h1, hi]
    · have h1 : ¬32 - 8 + i < 32 := by omega
      simp [h, h1]
  rw [ieee, run_word_right _ _ crc ch.toBitVec (by decide), ucrc32, crc32tbl, crc32Bit_eq, h]

/-- The bits of a message in the order the check takes them. -/
def bits16 (bytes : List UInt8) : List Bool := bytes.flatMap fun b => msbFirst b.toBitVec

def bits32 (bytes : List UInt8) : List Bool := bytes.flatMap fun b => lsbFirst b.toBitVec

theorem foldl_ucrc16 (bytes : List UInt8) (s : BitVec 16) :
    bytes.foldl (fun crc b => ucrc16 b crc) s = xmodem.run s (bits16 bytes) := by
  induction bytes generalizing s with
  | nil => rfl
  | cons b bytes ih =>
      rw [List.foldl_cons, ih, ucrc16_eq, ← Register.run_append]
      rfl

theorem foldl_ucrc32 (bytes : List UInt8) (s : BitVec 32) :
    bytes.foldl (fun crc b => ucrc32 b crc) s = ieee.run s (bits32 bytes) := by
  induction bytes generalizing s with
  | nil => rfl
  | cons b bytes ih =>
      rw [List.foldl_cons, ih, ucrc32_eq, ← Register.run_append]
      rfl

theorem btow_eq (b1 b2 : UInt8) : btow b1 b2 = b1.toBitVec ++ b2.toBitVec := by
  apply BitVec.eq_of_getLsbD_eq
  intro i hi
  rw [BitVec.getLsbD_append, btow]
  by_cases h : i < 8
  · simp [h, hi]
  · simp [h, hi, BitVec.getLsbD_of_ge b2.toBitVec i (by omega)]

theorem btodw_eq (b1 b2 b3 b4 : UInt8) :
    btodw b1 b2 b3 b4 = (b4.toBitVec ++ b3.toBitVec ++ b2.toBitVec ++ b1.toBitVec : BitVec 32) := by
  apply BitVec.eq_of_getLsbD_eq
  intro i hi
  simp only [BitVec.getLsbD_append, btodw, BitVec.getLsbD_or, BitVec.getLsbD_shiftLeft,
    BitVec.getLsbD_setWidth, hi, decide_true, Bool.true_and]
  -- only the byte the bit lies in has it
  by_cases h1 : i < 8
  · have h2 : i < 16 := by omega
    have h3 : i < 24 := by omega
    simp [h1, h2, h3]
  · have g1 := BitVec.getLsbD_of_ge b1.toBitVec i (by omega)
    by_cases h2 : i < 16
    · have h3 : i < 24 := by omega
      have h4 : i - 8 < 8 := by omega
      simp [h1, h2, h3, h4, g1]
      omega
    · have g2 := BitVec.getLsbD_of_ge b2.toBitVec (i - 8) (by omega)
      by_cases h3 : i < 24
      · have h4 : ¬i - 8 < 8 := by omega
        have h5 : i - 8 - 8 = i - 16 := by omega
        have h6 : i - 16 < 8 := by omega
        simp [h1, h2, h3, h4, h5, h6, g1, g2]
        omega
      · have g3 := BitVec.getLsbD_of_ge b3.toBitVec (i - 16) (by omega)
        have h4 : ¬i - 8 < 8 := by omega
        have h5 : ¬i - 8 - 8 < 8 := by omega
        have h6 : i - 8 - 8 - 8 = i - 24 := by omega
        simp [h1, h2, h3, h4, h5, h6, g1, g2, g3]
        omega

/-- The bytes the check is taken over and the check bytes behind them. -/
def codeBits (wide : Bool) (bytes : List UInt8) : List Bool :=
  if wide then bits32 bytes else bits16 bytes

/-- The comparison of the received check with the computed one; `wide` is `in_32bit_block`. -/
def checkGood (wide : Bool) (buf check : List UInt8) : Bool :=
  match wide, check with
  | false, [c1, c2] => btow c1 c2 == zmCalcDataCrc buf
  | true, [c1, c2, c3, c4] => btodw c1 c2 c3 c4 == zmCalcDataCrc32 buf
  | _, _ => false

def checkLen (wide : Bool) : Nat := if wide then 4 else 2

/-- What is left in either register behind a good check. -/
theorem run16_of_good {buf : List UInt8} {c1 c2 : UInt8} (h : btow c1 c2 = zmCalcDataCrc buf) :
    xmodem.run crcStartXmodem (bits16 (buf ++ [c1, c2])) = 0#16 := by
  have hbits : bits16 (buf ++ [c1, c2]) = bits16 buf ++ msbFirst (zmCalcDataCrc buf) := by
    rw [← h, btow_eq, msbFirst_append]
    simp [bits16]
  rw [hbits, Register.run_append, zmCalcDataCrc, foldl_ucrc16]
  exact run_self_left _ _ _

theorem run32_of_good {buf : List UInt8} {c1 c2 c3 c4 : UInt8}
    (h : btodw c1 c2 c3 c4 = zmCalcDataCrc32 buf) :
    ieee.run crcStart32 (bits32 (buf ++ [c1, c2, c3, c4])) = (shiftRight 0xEDB88320#32)^[32] (~~~0#32) := by
  have hbits : bits32 (buf ++ [c1, c2, c3, c4]) = bits32 buf ++ lsbFirst (zmCalcDataCrc32 buf) := by
    rw [← h, btodw_eq, lsbFirst_append, lsbFirst_append, lsbFirst_append]
    simp [bits32]
  have hmask : zmCalcDataCrc32 buf = ieee.run crcStart32 (bits32 buf) ^^^ ~~~0#32 := by
    rw [zmCalcDataCrc32, foldl_ucrc32]
    exact (BitVec.xor_allOnes).symm
  rw [hbits, Register.run_append, hmask]
  exact run_mask_right _ _ _ _

/-- How many bits in a row the check sees. -/
def checkBits (wide : Bool) : Nat := if wide then 32 else 16

/-- Two blocks with good checks that differ in a burst only are one block. -/
theorem eq_of_good_burst {wide : Bool} {buf buf' check check' : List UInt8} (h : checkGood wide buf check)
    (h' : checkGood wide buf' check') {p q as bs : List Bool} (hl : as.length = bs.length)
    (hn : as.length ≤ checkBits wide) (e : codeBits wide (buf ++ check) = p ++ as ++ q)
    (e' : codeBits wide (buf' ++ check') = p ++ bs ++ q) : as = bs := by
  cases wide with
  | false =>
      match check, check', h, h' with
      | [c1, c2], [d1, d2], h, h' =>
          apply xmodem.burst crcStartXmodem p q as bs hl hn
          rw [← (show bits16 _ = _ from e), ← (show bits16 _ = _ from e'), run16_of_good (beq_iff_eq.mp h),
            run16_of_good (beq_iff_eq.mp h')]
  | true =>
      match check, check', h, h' with
      | [c1, c2, c3, c4], [d1, d2, d3, d4], h, h' =>
          apply ieee.burst crcStart32 p q as bs hl hn
          rw [← (show bits32 _ = _ from e), ← (show bits32 _ = _ from e'), run32_of_good (beq_iff_eq.mp h),
            run32_of_good (beq_iff_eq.mp h')]

/-! ### Escapes -/

abbrev Line := List (Except ZError UInt8)

def zmRecv : Line → Except ZError UInt8 × Line
  | [] => (.error .closed, [])
  | r :: l => (r, l)

def xon : UInt8 := 0x11
def xoff : UInt8 := 0x13
/-- `CAN` is the same byte. -/
def zdle : UInt8 := 0x18

/-- `NONCONTROL` -/
def noncontrol (c : UInt8) : Bool := c &&& 0xe0 ≠ 0

/-- `ZCRCE`, `ZCRCG`, `ZCRCQ`, `ZCRCW` -/
def FrameEnd.byte : FrameEnd → UInt8
  | .crce => 0x68
  | .crcg => 0x69
  | .crcq => 0x6a
  | .crcw => 0x6b

/-- A `ZRESULT` that is no error: a byte, or `FIN` with a frame end. -/
inductive Escaped where
  | value (b : UInt8)
  | fin (f : FrameEnd)
  deriving DecidableEq

def Escaped.zvalue : Escaped → UInt8
  | .value b => b
  | .fin f => f.byte

/-- The switch behind `gotzdle`. -/
def unescape (c : UInt8) : Except ZError Escaped :=
  if c = zdle then .error .cancelled
  else if c = 0x68 then .ok (.fin .crce)
  else if c = 0x69 then .ok (.fin .crcg)
  else if c = 0x6a then .ok (.fin .crcq)
  else if c = 0x6b then .ok (.fin .crcw)
  else if c = 0x6c then .ok (.value 0x7f)
  else if c = 0x6d then .ok (.value 0xff)
  else if c &&& 0x60 = 0x40 then .ok (.value (c ^^^ 0x40))
  else .error .badEscape

/-- A byte, and while it is CAN the next, as many more as are given. -/
def recvPastCan : Nat → Line → Except ZError UInt8 × Line
  | 0, l => zmRecv l
  | n + 1, l =>
      match zmRecv l with
      | (.ok c, l) => if c = zdle then recvPastCan n l else (.ok c, l)
      | (.error e, l) => (.error e, l)

def zmReadEscaped : Line → Except ZError Escaped × Line
  | [] => (.error .closed, [])
  | .error e :: l => (.error e, l)
  | .ok c :: l =>
      if noncontrol c then (.ok (.value c), l)
      else if c = xon ∨ c = xon ||| 0x80 ∨ c = xoff ∨ c = xoff ||| 0x80 then zmReadEscaped l
      else if c = zdle then
        match recvPastCan 3 l with
        | (.ok c, l) => (unescape c, l)
        | (.error e, l) => (.error e, l)
      else (.ok (.value c), l)

/-- What a value may be on the wire: itself, or a ZDLE, up to three more CANs and a byte that escapes
it; flow control may stand before it. -/
inductive Sent : Escaped → List UInt8 → Prop
  | plain (c : UInt8) (h : c ≠ xon ∧ c ≠ xoff ∧ c ≠ zdle) : Sent (.value c) [c]
  | escaped (k : Nat) (hk : k ≤ 3) (c : UInt8) (v : Escaped) (h : unescape c = .ok v) :
      Sent v (zdle :: (List.replicate k zdle ++ [c]))
  | flow (c : UInt8) (hc : c = xon ∨ c = xoff) {v : Escaped} {bs : List UInt8} (h : Sent v bs) :
      Sent v (c :: bs)

/-- Values one after the other. -/
inductive SentAll : List Escaped → List UInt8 → Prop
  | nil : SentAll [] []
  | cons {v : Escaped} {bs : List UInt8} {vs : List Escaped} {cs : List UInt8} (h : Sent v bs)
      (hs : SentAll vs cs) : SentAll (v :: vs) (bs ++ cs)

theorem SentAll.append {vs ws : List Escaped} {bs cs : List UInt8} (h : SentAll vs bs)
    (hw : SentAll ws cs) : SentAll (vs ++ ws) (bs ++ cs) := by
  induction h with
  | nil => exact hw
  | cons hv _ ih =>
      rw [List.append_assoc]
      exact .cons hv ih

theorem SentAll.split {vs ws : List Escaped} {bs : List UInt8} (h : SentAll (vs ++ ws) bs) :
    ∃ cs ds, bs = cs ++ ds ∧ SentAll vs cs ∧ SentAll ws ds := by
  induction vs generalizing bs with
  | nil => exact ⟨[], bs, rfl, .nil, h⟩
  | cons v vs ih =>
      match h with
      | .cons hv hs =>
          obtain ⟨cs, ds, rfl, hc, hd⟩ := ih hs
          exact ⟨_, ds, (List.append_assoc _ _ _).symm, .cons hv hc, hd⟩

/-- The bytes as a line that goes on. -/
def onLine (bs : List UInt8) (l : Line) : Line := bs.map .ok ++ l

@[simp] theorem onLine_nil (l : Line) : onLine [] l = l := rfl

@[simp] theorem onLine_cons (b : UInt8) (bs : List UInt8) (l : Line) :
    onLine (b :: bs) l = .ok b :: onLine bs l := rfl

theorem onLine_append (bs cs : List UInt8) (l : Line) :
    onLine (bs ++ cs) l = onLine bs (onLine cs l) := by
  simp [onLine]

/-- The control bytes the switch of `zm_read_escaped` names; those with the top bit set never come to it. -/
theorem control_cases (c : UInt8) :
    (noncontrol c = true ∧ c ≠ xon ∧ c ≠ xoff ∧ c ≠ zdle) ∨
      (noncontrol c = false ∧ c ≠ xon ||| 0x80 ∧ c ≠ xoff ||| 0x80) := by
  have h : ∀ x : BitVec 8, (noncontrol ⟨x⟩ = true ∧ (⟨x⟩ : UInt8) ≠ xon ∧ ⟨x⟩ ≠ xoff ∧ ⟨x⟩ ≠ zdle) ∨
      (noncontrol ⟨x⟩ = false ∧ (⟨x⟩ : UInt8) ≠ xon ||| 0x80 ∧ ⟨x⟩ ≠ xoff ||| 0x80) := by
    decide +kernel
  exact h c.toBitVec

theorem length_of_checkGood {wide : Bool} {buf check : List UInt8} (h : checkGood wide buf check) :
    check.length = checkLen wide := by
  match wide, check, h with
  | false, [_, _], _ => rfl
  | true, [_, _, _, _], _ => rfl

theorem unescape_zdle {c : UInt8} {v : Escaped} (h : unescape c = .ok v) : c ≠ zdle := by
  rintro rfl
  cases h

theorem recvPastCan_replicate {k n : Nat} (hk : k ≤ n) {c : UInt8} (hc : c ≠ zdle) (l : Line) :
    recvPastCan n (onLine (List.replicate k zdle ++ [c]) l) = (.ok c, l) := by
  induction k generalizing n with
  | zero =>
      cases n with
      | zero => rfl
      | succ n => simp [recvPastCan, zmRecv, hc]
  | succ k ih =>
      cases n with
      | zero => omega
      | succ n =>
          rw [List.replicate_succ, List.cons_append, onLine_cons, recvPastCan, zmRecv]
          simpa using ih (by omega)

theorem recvPastCan_ok {n : Nat} {l rest : Line} {c : UInt8} (h : recvPastCan n l = (.ok c, rest)) :
    ∃ k, k ≤ n ∧ l = onLine (List.replicate k zdle ++ [c]) rest := by
  induction n generalizing l with
  | zero =>
      match l, h with
      | .ok d :: l, h =>
          cases h
          exact ⟨0, Nat.le_refl 0, rfl⟩
  | succ n ih =>
      match l, h with
      | .ok d :: l, h =>
          rw [recvPastCan, zmRecv] at h
          by_cases hd : d = zdle
          · obtain ⟨k, hk, rfl⟩ := ih ((if_pos hd).symm.trans h)
            exact ⟨k + 1, by omega, by rw [hd, List.replicate_succ, List.cons_append, onLine_cons]⟩
          · cases (if_neg hd).symm.trans h
            exact ⟨0, by omega, rfl⟩

/-- **An item is read as it was sent**, whatever was escaped. -/
theorem zmReadEscaped_sent {v : Escaped} {bs : List UInt8} (h : Sent v bs) (l : Line) :
    zmReadEscaped (onLine bs l) = (.ok v, l) := by
  induction h with
  | plain c h =>
      obtain ⟨h1, h2, h3⟩ := h
      rw [onLine_cons, zmReadEscaped]
      rcases control_cases c with ⟨hn, -⟩ | ⟨hn, h4, h5⟩
      · simp [hn]
      · simp [hn, h1, h2, h3, h4, h5]
  | escaped k hk c v h =>
      rw [onLine_cons, zmReadEscaped, if_neg (by decide), if_neg (by decide), if_pos rfl,
        recvPastCan_replicate hk (unescape_zdle h)]
      simp only [h]
  | flow c hc _ ih =>
      have hn : noncontrol c = false := by
        rcases hc with rfl | rfl <;> decide
      rw [onLine_cons, zmReadEscaped, if_neg (by simp [hn]), if_pos (by tauto)]
      exact ih

/-- What is read was sent. -/
theorem sent_of_zmReadEscaped {v : Escaped} {l rest : Line} (h : zmReadEscaped l = (.ok v, rest)) :
    ∃ bs, Sent v bs ∧ l = onLine bs rest := by
  induction l with
  | nil => cases h
  | cons r l ih =>
      cases r with
      | error e => cases h
      | ok c =>
          rw [zmReadEscaped] at h
          rcases control_cases c with ⟨hn, hp⟩ | ⟨hn, h4, h5⟩
          · rw [if_pos hn] at h
            cases h
            exact ⟨[c], .plain c hp, rfl⟩
          · rw [if_neg (by simp [hn])] at h
            by_cases hf : c = xon ∨ c = xoff
            · rw [if_pos (by tauto)] at h
              obtain ⟨bs, hs, rfl⟩ := ih h
              exact ⟨c :: bs, .flow c hf hs, rfl⟩
            · rw [if_neg (by tauto)] at h
              by_cases hz : c = zdle
              · rw [if_pos hz] at h
                cases hr : recvPastCan 3 l with
                | mk r m =>
                    rw [hr] at h
                    cases r with
                    | error e => cases h
                    | ok d =>
                        obtain ⟨hu, rfl⟩ := Prod.mk.inj h
                        obtain ⟨k, hk, rfl⟩ := recvPastCan_ok hr
                        rw [hz]
                        exact ⟨_, .escaped k hk d v hu, rfl⟩
              · rw [if_neg hz] at h
                cases h
                exact ⟨[c], .plain c ⟨fun e => hf (.inl e), fun e => hf (.inr e), hz⟩, rfl⟩

/-! ### Data subpackets -/

/-- `recv_data_block`: the result, the bytes stored, and the line behind. -/
def recvDataBlock : Nat → Line → Except ZError FrameEnd × List UInt8 × Line
  | 0, l => (.error .outOfSpace, [], l)
  | max + 1, l =>
      match zmReadEscaped l with
      | (.error e, l) => (.error e, [], l)
      | (.ok (.fin f), l) => (.ok f, [f.byte], l)
      | (.ok (.value b), l) =>
          let (r, buf, l) := recvDataBlock max l
          (r, b :: buf, l)

/-- So many escaped bytes, each taken by its value; those before an error are kept. -/
def readValues : Nat → Line → Except ZError Unit × List UInt8 × Line
  | 0, l => (.ok (), [], l)
  | n + 1, l =>
      match zmReadEscaped l with
      | (.error e, l) => (.error e, [], l)
      | (.ok v, l) =>
          let (r, bs, l) := readValues n l
          (r, v.zvalue :: bs, l)

def zmReadDataBlock (wide : Bool) (max : Nat) (l : Line) : Except ZError FrameEnd × List UInt8 × Line :=
  match recvDataBlock max l with
  | (.error e, buf, l) => (.error e, buf, l)
  | (.ok f, buf, l) =>
      match readValues (checkLen wide) l with
      | (.error e, _, l) => (.error e, buf, l)
      | (.ok (), check, l) => (if checkGood wide buf check then .ok f else .error .badCrc, buf, l)

theorem recvDataBlock_value {max : Nat} {l m : Line} {b : UInt8}
    (h : zmReadEscaped l = (.ok (.value b), m)) :
    recvDataBlock (max + 1) l =
      ((recvDataBlock max m).1, b :: (recvDataBlock max m).2.1, (recvDataBlock max m).2.2) := by
  rw [recvDataBlock, h]

theorem readValues_succ {n : Nat} {l m : Line} {v : Escaped} (h : zmReadEscaped l = (.ok v, m)) :
    readValues (n + 1) l =
      ((readValues n m).1, v.zvalue :: (readValues n m).2.1, (readValues n m).2.2) := by
  rw [readValues, h]

/-- Where the check bytes came, the comparison decides. -/
theorem zmReadDataBlock_check {wide : Bool} {max : Nat} {l m rest : Line} {f : FrameEnd}
    {buf check : List UInt8} {r : Except ZError FrameEnd} (hb : recvDataBlock max l = (.ok f, buf, m))
    (hv : readValues (checkLen wide) m = (.ok (), check, rest))
    (hr : (if checkGood wide buf check then .ok f else .error .badCrc) = r) :
    zmReadDataBlock wide max l = (r, buf, rest) := by
  simp only [zmReadDataBlock, hb, hv, hr]

theorem recvDataBlock_iff {max : Nat} {l rest : Line} {f : FrameEnd} {buf : List UInt8} :
    recvDataBlock max l = (.ok f, buf, rest) ↔
      ∃ payload bs, SentAll (payload.map .value ++ [.fin f]) bs ∧ l = onLine bs rest ∧
        payload.length < max ∧ buf = payload ++ [f.byte] := by
  constructor
  · intro h
    induction max generalizing l buf with
    | zero => cases h
    | succ max ih =>
        cases hr : zmReadEscaped l with
        | mk r m =>
            match r, hr with
            | .error e, hr =>
                rw [recvDataBlock, hr] at h
                cases h
            | .ok (.fin g), hr =>
                rw [recvDataBlock, hr] at h
                cases h
                obtain ⟨bs, hs, rfl⟩ := sent_of_zmReadEscaped hr
                refine ⟨[], bs, ?_, rfl, Nat.succ_pos _, rfl⟩
                simpa using SentAll.cons hs .nil
            | .ok (.value b), hr =>
                rw [recvDataBlock_value hr] at h
                obtain ⟨bs, hs, rfl⟩ := sent_of_zmReadEscaped hr
                rcases hb : recvDataBlock max m with ⟨r', buf', m'⟩
                rw [hb] at h
                cases h
                obtain ⟨payload, cs, hc, rfl, hlen, rfl⟩ := ih hb
                exact ⟨b :: payload, bs ++ cs, .cons hs hc, (onLine_append _ _ _).symm,
                  Nat.succ_lt_succ hlen, rfl⟩
  · rintro ⟨payload, bs, hs, rfl, hlen, rfl⟩
    induction payload generalizing max bs with
    | nil =>
        obtain ⟨max, rfl⟩ := Nat.exists_eq_add_one.mpr hlen
        match hs with
        | .cons h .nil => rw [recvDataBlock, onLine_append, zmReadEscaped_sent h]; rfl
    | cons b payload ih =>
        match hs with
        | .cons h hs =>
            obtain ⟨max, rfl⟩ := Nat.exists_eq_add_one.mpr (Nat.zero_lt_of_lt hlen)
            rw [onLine_append, recvDataBlock_value (zmReadEscaped_sent h _),
              ih _ hs (Nat.lt_of_succ_lt_succ hlen)]
            rfl

theorem readValues_iff {n : Nat} {l rest : Line} {bs : List UInt8} :
    readValues n l = (.ok (), bs, rest) ↔
      ∃ vs cs, SentAll vs cs ∧ l = onLine cs rest ∧ vs.length = n ∧ bs = vs.map Escaped.zvalue := by
  constructor
  · intro h
    induction n generalizing l bs with
    | zero =>
        cases h
        exact ⟨[], [], .nil, rfl, rfl, rfl⟩
    | succ n ih =>
        cases hr : zmReadEscaped l with
        | mk r m =>
            match r, hr with
            | .error e, hr =>
                rw [readValues, hr] at h
                cases h
            | .ok v, hr =>
                rw [readValues_succ hr] at h
                obtain ⟨cs, hs, rfl⟩ := sent_of_zmReadEscaped hr
                rcases hb : readValues n m with ⟨r', bs', m'⟩
                rw [hb] at h
                cases h
                obtain ⟨vs, ds, hd, rfl, hlen, rfl⟩ := ih hb
                exact ⟨v :: vs, cs ++ ds, .cons hs hd, (onLine_append _ _ _).symm,
                  congrArg (· + 1) hlen, rfl⟩
  · rintro ⟨vs, cs, hs, rfl, rfl, rfl⟩
    induction hs with
    | nil => rfl
    | cons h _ ih =>
        rw [List.length_cons, onLine_append, readValues_succ (zmReadEscaped_sent h _), ih]
        rfl

/-- **A subpacket is taken exactly when one was sent**: its bytes as the sender escaped them, a frame end
and a check that is good for both, with room for all of it. -/
theorem zmReadDataBlock_iff (wide : Bool) (max : Nat) (l rest : Line) (f : FrameEnd) (buf : List UInt8) :
    zmReadDataBlock wide max l = (.ok f, buf, rest) ↔
      ∃ payload check bs, SentAll (payload.map .value ++ .fin f :: check) bs ∧ l = onLine bs rest ∧
        payload.length < max ∧ buf = payload ++ [f.byte] ∧
        checkGood wide buf (check.map Escaped.zvalue) := by
  have hassoc (payload : List UInt8) (check : List Escaped) :
      payload.map Escaped.value ++ .fin f :: check = (payload.map Escaped.value ++ [.fin f]) ++ check :=
    List.append_cons _ _ _
  constructor
  · intro h
    rcases hb : recvDataBlock max l with ⟨r, buf', m⟩
    cases r with
    | error e =>
        rw [zmReadDataBlock, hb] at h
        cases h
    | ok g =>
        rcases hv : readValues (checkLen wide) m with ⟨r', check, m'⟩
        cases r' with
        | error e =>
            simp only [zmReadDataBlock, hb, hv] at h
            cases h
        | ok u =>
            rw [zmReadDataBlock_check hb hv rfl] at h
            by_cases hg : checkGood wide buf' check
            · rw [if_pos hg] at h
              cases h
              obtain ⟨payload, bs, hs, rfl, hlen, rfl⟩ := recvDataBlock_iff.mp hb
              obtain ⟨vs, cs, hc, rfl, -, rfl⟩ := readValues_iff.mp hv
              refine ⟨payload, vs, bs ++ cs, ?_, (onLine_append _ _ _).symm, hlen, rfl, hg⟩
              rw [hassoc]
              exact hs.append hc
            · rw [if_neg hg] at h
              cases h
  · rintro ⟨payload, check, bs, hs, rfl, hlen, rfl, hg⟩
    rw [hassoc] at hs
    obtain ⟨cs, ds, rfl, hc, hd⟩ := hs.split
    have hb : recvDataBlock max (onLine (cs ++ ds) rest) = (.ok f, payload ++ [f.byte], onLine ds rest) :=
      recvDataBlock_iff.mpr ⟨payload, cs, hc, onLine_append _ _ _, hlen, rfl⟩
    have hv : readValues (checkLen wide) (onLine ds rest) = (.ok (), check.map Escaped.zvalue, rest) :=
      readValues_iff.mpr ⟨check, ds, hd, rfl, by simpa using length_of_checkGood hg, rfl⟩
    exact zmReadDataBlock_check hb hv (if_pos hg)

/-- **A burst is refused.** Two subpackets come with their checks, the first is taken, and the bits of
their bytes with the check bytes differ within a run no longer than the check: then the second is
refused for its check. -/
theorem zmReadDataBlock_burst (wide : Bool) (max : Nat) {l l' m m' rest rest' : Line} {f f' : FrameEnd}
    {buf buf' check check' : List UInt8} (hb : recvDataBlock max l = (.ok f, buf, m))
    (hv : readValues (checkLen wide) m = (.ok (), check, rest))
    (hb' : recvDataBlock max l' = (.ok f', buf', m'))
    (hv' : readValues (checkLen wide) m' = (.ok (), check', rest'))
    (hgood : zmReadDataBlock wide max l = (.ok f, buf, rest)) {p q as bs : List Bool}
    (e : codeBits wide (buf ++ check) = p ++ as ++ q) (e' : codeBits wide (buf' ++ check') = p ++ bs ++ q)
    (hl : as.length = bs.length) (hn : as.length ≤ checkBits wide) (hne : as ≠ bs) :
    zmReadDataBlock wide max l' = (.error .badCrc, buf', rest') := by
  have hg : checkGood wide buf check = true := by
    by_contra hg
    rw [zmReadDataBlock_check hb hv (if_neg hg)] at hgood
    cases hgood
  have hg' : ¬checkGood wide buf' check' = true := fun hg' => hne (eq_of_good_burst hg hg' hl hn e e')
  exact zmReadDataBlock_check hb' hv' (if_neg hg')

/-- A block of one byte, and the same with two bits of it changed. -/
theorem zmReadDataBlock_burst_bits :
    zmReadDataBlock false 8 (onLine [0x44, 0x18, 0x68, 0xd3, 0x53] []) =
      (.error .badCrc, [0x44, 0x68], []) :=
  @zmReadDataBlock_burst false 8 (onLine [0x41, 0x18, 0x68, 0xd3, 0x53] []) _
    (onLine [0xd3, 0x53] []) (onLine [0xd3, 0x53] []) [] [] .crce .crce [0x41, 0x68] _ [0xd3, 0x53] [0xd3, 0x53]
    (by rfl) (by rfl) (by rfl) (by rfl)
    (zmReadDataBlock_check (by rfl) (by rfl) (if_pos (by decide +kernel)))
    [false, true, false, false, false] (codeBits false [0x68, 0xd3, 0x53])
    [false, false, true] [true, false, false] (by decide) (by decide) (by rfl) (by decide) (by decide)

/-! ### The events of the worker -/

/-- What the worker gets of a line for a block: with the frame-end byte it fits the buffer. -/
def blockOf (wide : Bool) (stream before : Nat) (l : Line) : Except ZError Subpacket × Line :=
  match h : zmReadDataBlock wide zmrBlockBuf l with
  | (.error e, _, l) => (.error e, l)
  | (.ok f, buf, rest) =>
      (.ok ⟨buf.dropLast, by
        obtain ⟨payload, _, _, -, -, hlen, rfl, -⟩ := (zmReadDataBlock_iff ..).mp h
        simpa using hlen, f, stream, before⟩, rest)

/-- **A subpacket reaches the worker exactly when one was sent**: its bytes as the sender escaped them, its
frame end and a check that is good for both. -/
theorem blockOf_iff (wide : Bool) (stream before : Nat) (l rest : Line) (b : Subpacket) :
    blockOf wide stream before l = (.ok b, rest) ↔ b.stream = stream ∧ b.before = before ∧
      ∃ check bs, SentAll (b.payload.map .value ++ .fin b.frameEnd :: check) bs ∧ l = onLine bs rest ∧
        checkGood wide (b.payload ++ [b.frameEnd.byte]) (check.map Escaped.zvalue) := by
  constructor
  · intro h
    unfold blockOf at h
    split at h
    · cases h
    · next f buf m hr =>
        obtain ⟨payload, check, bs, hs, rfl, hlen, rfl, hg⟩ := (zmReadDataBlock_iff ..).mp hr
        cases h
        simp only [List.dropLast_concat]
        exact ⟨trivial, trivial, check, bs, hs, rfl, hg⟩
  · rintro ⟨rfl, rfl, check, bs, hs, rfl, hg⟩
    have hr := (zmReadDataBlock_iff wide zmrBlockBuf (onLine bs rest) rest b.frameEnd _).mpr
      ⟨b.payload, check, bs, hs, rfl, b.fits, rfl, hg⟩
    unfold blockOf
    split
    · next h =>
        rw [hr] at h
        cases h
    · next h =>
        rw [hr] at h
        cases h
        simp

end UnicornSuite.Zmodem
