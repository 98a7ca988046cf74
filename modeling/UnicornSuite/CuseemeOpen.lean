import UnicornSuite.Cuseeme
import UnicornSuite.LibText
import Mathlib.Data.UInt

/-! The OpenContinue packet of CU-SeeMe (`cuseeme_proto.c`): the builder that writes it into the caller's
buffer, and what the parser of received packets reads back. The slices that the parser reports are here
the offset and length it computes; `cusmParse` has the bytes they hold. -/

namespace UnicornSuite.Cuseeme

open CText

/-! ### Slices -/

/-- A pointer into the packet and the length that goes with it, both of the type `int`. -/
structure Span where
  off : Int
  len : Int

def videoSpan (buf : List UInt8) : Span :=
  let n : Int := buf.length
  let vlen : Int := rd16 buf cusmVidOffLen
  let vlen := if cusmVidOffData + vlen > n then n - cusmVidOffData else vlen
  let vlen := if vlen < 0 then 0 else vlen
  ⟨cusmVidOffData, vlen⟩

def audioSpan (buf : List UInt8) : Span :=
  let n : Int := buf.length
  let dataOff : Int := cusmVatOffNsid + cusmVatHdrLen + 4 * nsid buf
  let dataOff := if dataOff > n then n else dataOff
  ⟨dataOff, n - dataOff⟩

/-- The slice lies inside of the packet. -/
def Span.Inside (s : Span) (buf : List UInt8) : Prop := 0 ≤ s.off ∧ 0 ≤ s.len ∧ s.off + s.len ≤ buf.length

def Span.bytes (s : Span) (buf : List UInt8) : List UInt8 := (buf.drop s.off.toNat).take s.len.toNat

theorem videoSpan_inside {buf : List UInt8} (h : cusmVidOffData ≤ buf.length) : (videoSpan buf).Inside buf := by
  rw [videoSpan, Span.Inside]
  dsimp only
  split_ifs <;> omega

theorem audioSpan_inside (buf : List UInt8) : (audioSpan buf).Inside buf := by
  rw [audioSpan, Span.Inside]
  dsimp only
  split_ifs <;> omega

theorem videoSpan_bytes {buf : List UInt8} (h : cusmVidOffData ≤ buf.length) :
    (videoSpan buf).bytes buf = (buf.drop cusmVidOffData).take
      (if cusmVidOffData + rd16 buf cusmVidOffLen > buf.length then buf.length - cusmVidOffData
        else rd16 buf cusmVidOffLen) := by
  have hlen : (videoSpan buf).len.toNat =
      if cusmVidOffData + rd16 buf cusmVidOffLen > buf.length then buf.length - cusmVidOffData
        else rd16 buf cusmVidOffLen := by
    rw [videoSpan]
    dsimp only
    split_ifs <;> omega
  rw [Span.bytes, hlen]
  rfl

theorem audioSpan_bytes (buf : List UInt8) :
    (audioSpan buf).bytes buf = buf.drop
      (if cusmVatOffNsid + cusmVatHdrLen + 4 * nsid buf > buf.length then buf.length
        else cusmVatOffNsid + cusmVatHdrLen + 4 * nsid buf) := by
  have hoff : (audioSpan buf).off.toNat =
      if cusmVatOffNsid + cusmVatHdrLen + 4 * nsid buf > buf.length then buf.length
        else cusmVatOffNsid + cusmVatHdrLen + 4 * nsid buf := by
    rw [audioSpan]
    dsimp only
    split_ifs <;> omega
  have hinside := audioSpan_inside buf
  rw [Span.bytes, hoff]
  refine List.take_of_length_le ?_
  rw [List.length_drop]
  rw [Span.Inside] at hinside
  have hlen : (audioSpan buf).len = buf.length - (audioSpan buf).off := rfl
  omega

/-- A packet of video or audio that parses has its slice inside of what was received, and no other packet
has one. -/
theorem cusmParse_slices {buf : List UInt8} {pk : Packet} (h : cusmParse buf = some pk) :
    (if pk.dataType = cusmDtVideoSmall ∨ pk.dataType = cusmDtVideoBig then
        (videoSpan buf).Inside buf ∧ pk.vidData = (videoSpan buf).bytes buf
      else pk.vidData = []) ∧
      if pk.dataType = cusmDtAudio then
        (audioSpan buf).Inside buf ∧ pk.audData = (audioSpan buf).bytes buf
      else pk.audData = [] := by
  unfold cusmParse at h
  dsimp only at h
  by_cases hhdr : buf.length < cusmHdrLen
  · rw [if_pos hhdr] at h
    cases h
  rw [if_neg hhdr] at h
  by_cases hvideo : rd16 buf 0x16 = cusmDtVideoSmall ∨ rd16 buf 0x16 = cusmDtVideoBig
  · rw [if_pos hvideo] at h
    by_cases hshort : buf.length < cusmVidOffData
    · rw [if_pos hshort] at h
      cases h
    · rw [if_neg hshort] at h
      obtain rfl := Option.some.inj h
      have haudio : rd16 buf 0x16 ≠ cusmDtAudio := fun haudio => audio_not_video (haudio ▸ hvideo)
      have hdata := not_lt.mp hshort
      refine ⟨(if_pos hvideo).mpr ⟨videoSpan_inside hdata, ?_⟩, (if_neg haudio).mpr rfl⟩
      exact (videoSpan_bytes hdata).symm
  · rw [if_neg hvideo] at h
    by_cases haudio : rd16 buf 0x16 = cusmDtAudio
    · rw [if_pos haudio] at h
      by_cases hshort : buf.length < cusmVatOffNsid + cusmVatHdrLen
      · rw [if_pos hshort] at h
        cases h
      · rw [if_neg hshort] at h
        obtain rfl := Option.some.inj h
        exact ⟨(if_neg hvideo).mpr rfl, (if_pos haudio).mpr ⟨audioSpan_inside buf, (audioSpan_bytes buf).symm⟩⟩
    · rw [if_neg haudio] at h
      by_cases hopen : rd16 buf 0x16 = cusmDtOpencontinue ∧ buf.length ≥ cusmOcOffClientinfo
      · rw [if_pos hopen] at h
        obtain rfl := Option.some.inj h
        exact ⟨(if_neg hvideo).mpr rfl, (if_neg haudio).mpr rfl⟩
      · rw [if_neg hopen] at h
        obtain rfl := Option.some.inj h
        exact ⟨(if_neg hvideo).mpr rfl, (if_neg haudio).mpr rfl⟩

/-! ### The builder -/

/-- The memory from the caller's buffer on. -/
abbrev Buffer := Nat → UInt8

def wr16 (b : Buffer) (off : Nat) (v : UInt16) : Buffer :=
  Function.update (Function.update b off (v >>> 8).toUInt8) (off + 1) (v &&& 0xFF).toUInt8

def wr32 (b : Buffer) (off : Nat) (v : UInt32) : Buffer :=
  Function.update (Function.update (Function.update (Function.update b off (v >>> 24).toUInt8)
    (off + 1) (v >>> 16).toUInt8) (off + 2) (v >>> 8).toUInt8) (off + 3) (v &&& 0xFF).toUInt8

def wr8 (b : Buffer) (off : Nat) (v : UInt8) : Buffer := Function.update b off v

/-- `CUSM_OC_MAX_LEN` -/
def cusmOcMaxLen : Nat := cusmOcOffClientinfo + 12

def memset0 (b : Buffer) (n : Nat) : Buffer := fun i => if i < n then 0 else b i

def memcpyAt (b : Buffer) (off : Nat) (data : List UInt8) : Buffer :=
  fun i => if off ≤ i ∧ i < off + data.length then data.getD (i - off) 0 else b i

/-- The characters of a name that the field takes. -/
def nameLen : CString → Nat → Nat
  | [], ul => ul
  | c :: name, ul => if c ≠ 0 ∧ ul < 19 then nameLen name (ul + 1) else ul

/-- The header of an OpenContinue packet. -/
def writeHeader (b : Buffer) (seq myIp : UInt32) (myPort : UInt16) (doClose : Int) : Buffer :=
  let b := wr16 b 0x00 2
  let b := wr16 b 0x02 0
  let b := wr32 b 0x04 0
  let b := wr16 b 0x08 1
  let b := wr16 b 0x0A (if myPort ≠ 0 then myPort else 7648)
  let b := wr32 b 0x0C myIp
  let b := wr32 b 0x10 seq
  let b := wr16 b 0x14 (if doClose ≠ 0 then 6 else 1)
  wr16 b 0x16 (UInt16.ofNat cusmDtOpencontinue)

/-- Its body: the number of subscriptions, the user's name as a Pascal string, and the modes. -/
def writeBody (b : Buffer) (seq : UInt32) (userName : Option CString) (wantAudio : Int)
    (subscribeIp : UInt32) : Buffer :=
  let b := wr16 b 0x1A (if subscribeIp ≠ 0 then 1 else 0)
  let b := wr32 b 0x1C seq
  let name := (userName.getD []).take (nameLen (userName.getD []) 0)
  let b := wr8 b 0x20 (UInt8.ofNat name.length)
  let b := memcpyAt b 0x21 name
  let b := wr8 b 0x34 0
  let b := wr8 b 0x35 1
  let b := wr8 b 0x36 (0x08 ||| (if wantAudio ≠ 0 then 0x01 else 0))
  wr8 b 0x37 0x01

/-- The entry that subscribes to a sender. -/
def writeClient (b : Buffer) (wantAudio : Int) (subscribeIp : UInt32) : Buffer :=
  let b := wr32 b 0x38 subscribeIp
  let b := wr8 b 0x3C (if wantAudio ≠ 0 then 0x01 else 0)
  let b := wr8 b 0x3D 0
  let b := wr8 b 0x3E 1
  wr8 b 0x3F 0

/-- `cusm_build_opencontinue`: the buffer, and the length of the packet in it. -/
def cusmBuildOpencontinue (b : Buffer) (seq myIp : UInt32) (myPort : UInt16) (userName : Option CString)
    (wantAudio doClose : Int) (subscribeIp : UInt32) : Buffer × Nat :=
  let b := memset0 b cusmOcMaxLen
  let b := writeHeader b seq myIp myPort doClose
  let b := writeBody b seq userName wantAudio subscribeIp
  if subscribeIp ≠ 0 then
    let plen := cusmOcOffClientinfo + 12
    (wr16 (writeClient b wantAudio subscribeIp) 0x18 (UInt16.ofNat plen), plen)
  else (wr16 b 0x18 (UInt16.ofNat cusmOcOffClientinfo), cusmOcOffClientinfo)

/-! ### Reading back -/

theorem wr16_apply (b : Buffer) (off : Nat) (v : UInt16) (i : Nat) :
    wr16 b off v i =
      if i = off + 1 then (v &&& 0xFF).toUInt8 else if i = off then (v >>> 8).toUInt8 else b i := by
  rw [wr16, Function.update_apply, Function.update_apply]

theorem wr32_apply (b : Buffer) (off : Nat) (v : UInt32) (i : Nat) :
    wr32 b off v i =
      if i = off + 3 then (v &&& 0xFF).toUInt8 else if i = off + 2 then (v >>> 8).toUInt8
      else if i = off + 1 then (v >>> 16).toUInt8 else if i = off then (v >>> 24).toUInt8 else b i := by
  rw [wr32, Function.update_apply, Function.update_apply, Function.update_apply, Function.update_apply]

theorem wr8_apply (b : Buffer) (off : Nat) (v : UInt8) (i : Nat) :
    wr8 b off v i = if i = off then v else b i := by
  rw [wr8, Function.update_apply]

/-- The two bytes of a number, in network order. -/
theorem bytes16 (v : UInt16) : (v >>> 8).toUInt8.toNat * 256 + (v &&& 0xFF).toUInt8.toNat = v.toNat := by
  have hv := v.toNat_lt
  have hhigh : (v >>> 8).toUInt8.toNat = v.toNat / 256 % 256 := by
    rw [UInt16.toNat_toUInt8, UInt16.toNat_shiftRight, Nat.shiftRight_eq_div_pow]
    rfl
  have hlow : (v &&& 0xFF).toUInt8.toNat = v.toNat % 256 := by
    rw [UInt16.toNat_toUInt8, UInt16.toNat_and]
    have hmask : v.toNat &&& (0xFF : UInt16).toNat = v.toNat % 2 ^ 8 := Nat.and_two_pow_sub_one_eq_mod v.toNat 8
    rw [hmask]
    omega
  omega

/-- The four bytes of a number, in network order. -/
theorem bytes32 (v : UInt32) :
    UInt32.ofNat (((v >>> 24).toUInt8.toNat * 256 + (v >>> 16).toUInt8.toNat) * 65536 +
      ((v >>> 8).toUInt8.toNat * 256 + (v &&& 0xFF).toUInt8.toNat)) = v := by
  have hv := v.toNat_lt
  have hone : (v >>> 24).toUInt8.toNat = v.toNat / 16777216 % 256 := by
    rw [UInt32.toNat_toUInt8, UInt32.toNat_shiftRight, Nat.shiftRight_eq_div_pow]
    rfl
  have htwo : (v >>> 16).toUInt8.toNat = v.toNat / 65536 % 256 := by
    rw [UInt32.toNat_toUInt8, UInt32.toNat_shiftRight, Nat.shiftRight_eq_div_pow]
    rfl
  have hthree : (v >>> 8).toUInt8.toNat = v.toNat / 256 % 256 := by
    rw [UInt32.toNat_toUInt8, UInt32.toNat_shiftRight, Nat.shiftRight_eq_div_pow]
    rfl
  have hfour : (v &&& 0xFF).toUInt8.toNat = v.toNat % 256 := by
    rw [UInt32.toNat_toUInt8, UInt32.toNat_and]
    have hmask : v.toNat &&& (0xFF : UInt32).toNat = v.toNat % 2 ^ 8 := Nat.and_two_pow_sub_one_eq_mod v.toNat 8
    rw [hmask]
    omega
  have hwhole : ((v >>> 24).toUInt8.toNat * 256 + (v >>> 16).toUInt8.toNat) * 65536 +
      ((v >>> 8).toUInt8.toNat * 256 + (v &&& 0xFF).toUInt8.toNat) = v.toNat := by omega
  rw [hwhole, UInt32.ofNat_toNat]

/-- The field takes the characters before the NUL, the first nineteen of them. -/
theorem take_nameLen (name : CString) (k : Nat) (h : k ≤ 19) :
    name.take (nameLen name k - k) = (cstr name).take (19 - k) ∧ k ≤ nameLen name k := by
  induction name generalizing k with
  | nil => exact ⟨by simp [cstr], le_rfl⟩
  | cons c name ih =>
      rw [nameLen, cstr, List.takeWhile_cons]
      by_cases hc : c ≠ 0
      · by_cases hk : k < 19
        · obtain ⟨htake, hle⟩ := ih (k + 1) hk
          rw [if_pos ⟨hc, hk⟩, if_pos (decide_eq_true hc)]
          have hrest : nameLen name (k + 1) - k = nameLen name (k + 1) - (k + 1) + 1 := by omega
          have hroom : 19 - k = 19 - (k + 1) + 1 := by omega
          refine ⟨?_, by omega⟩
          rw [hrest, hroom, List.take_succ_cons, List.take_succ_cons, htake, cstr]
        · have hroom : 19 - k = 0 := by omega
          rw [if_neg (fun h => hk h.2), hroom, Nat.sub_self]
          exact ⟨rfl, le_rfl⟩
      · rw [if_neg (fun h => hc h.1), if_neg (by simpa using hc), Nat.sub_self]
        exact ⟨List.take_nil.symm, le_rfl⟩

/-- The name as the packet holds it. -/
def sentName (userName : Option CString) : CString := (cstr (userName.getD [])).take 19

theorem sentName_length (userName : Option CString) : (sentName userName).length ≤ 19 := by
  rw [sentName, List.length_take]
  omega

theorem sentName_eq (userName : Option CString) :
    (userName.getD []).take (nameLen (userName.getD []) 0) = sentName userName :=
  (take_nameLen (userName.getD []) 0 (by omega)).1

/-! ### What is written where -/

/-- A number of two bytes in a buffer. -/
def word16 (b : Buffer) (off : Nat) : Nat := (b off).toNat * 256 + (b (off + 1)).toNat

/-- A number of four bytes in a buffer. -/
def word32 (b : Buffer) (off : Nat) : UInt32 := UInt32.ofNat (word16 b off * 65536 + word16 b (off + 2))

theorem word16_congr {b b' : Buffer} {off : Nat} (h : ∀ i, off ≤ i → i < off + 2 → b i = b' i) :
    word16 b off = word16 b' off := by
  rw [word16, word16, h off le_rfl (by omega), h (off + 1) (by omega) (by omega)]

theorem word32_congr {b b' : Buffer} {off : Nat} (h : ∀ i, off ≤ i → i < off + 4 → b i = b' i) :
    word32 b off = word32 b' off := by
  have hhigh : word16 b off = word16 b' off := word16_congr fun i hi hi' => h i hi (by omega)
  have hlow : word16 b (off + 2) = word16 b' (off + 2) :=
    word16_congr fun i hi hi' => h i (by omega) (by omega)
  rw [word32, word32, hhigh, hlow]

theorem word16_wr16 (b : Buffer) (off : Nat) (v : UInt16) : word16 (wr16 b off v) off = v.toNat := by
  rw [word16, wr16_apply, wr16_apply, if_neg (by omega), if_pos rfl, if_pos rfl, bytes16]

theorem word32_wr32 (b : Buffer) (off : Nat) (v : UInt32) : word32 (wr32 b off v) off = v := by
  have hbytes : ∀ i, wr32 b off v i = _ := wr32_apply b off v
  rw [word32, word16, word16]
  simp (disch := omega) only [hbytes, if_neg]
  exact bytes32 v

theorem word16_wr16_of_ne (b : Buffer) {off off' : Nat} (v : UInt16) (h : off + 2 ≤ off' ∨ off' + 2 ≤ off) :
    word16 (wr16 b off' v) off = word16 b off :=
  word16_congr fun i _ _ => by rw [wr16_apply, if_neg (by omega), if_neg (by omega)]

theorem word16_wr32_of_ne (b : Buffer) {off off' : Nat} (v : UInt32) (h : off + 2 ≤ off' ∨ off' + 4 ≤ off) :
    word16 (wr32 b off' v) off = word16 b off :=
  word16_congr fun i _ _ => by
    rw [wr32_apply, if_neg (by omega), if_neg (by omega), if_neg (by omega), if_neg (by omega)]

theorem word32_wr16_of_ne (b : Buffer) {off off' : Nat} (v : UInt16) (h : off + 4 ≤ off' ∨ off' + 2 ≤ off) :
    word32 (wr16 b off' v) off = word32 b off :=
  word32_congr fun i _ _ => by rw [wr16_apply, if_neg (by omega), if_neg (by omega)]

theorem word32_wr32_of_ne (b : Buffer) {off off' : Nat} (v : UInt32) (h : off + 4 ≤ off' ∨ off' + 4 ≤ off) :
    word32 (wr32 b off' v) off = word32 b off :=
  word32_congr fun i _ _ => by
    rw [wr32_apply, if_neg (by omega), if_neg (by omega), if_neg (by omega), if_neg (by omega)]

section Packets

variable (b : Buffer) (seq myIp : UInt32) (myPort : UInt16) (userName : Option CString)
  (wantAudio doClose : Int) (subscribeIp : UInt32)

theorem writeHeader_frame {i : Nat} (h : 0x18 ≤ i) : writeHeader b seq myIp myPort doClose i = b i := by
  rw [writeHeader]
  simp (disch := omega) only [wr16_apply, wr32_apply, if_neg]

theorem writeHeader_fields :
    word16 (writeHeader b seq myIp myPort doClose) 0x00 = 2 ∧
      word32 (writeHeader b seq myIp myPort doClose) 0x0C = myIp ∧
      word32 (writeHeader b seq myIp myPort doClose) 0x10 = seq ∧
      word16 (writeHeader b seq myIp myPort doClose) 0x14 = (if doClose ≠ 0 then 6 else 1) ∧
      word16 (writeHeader b seq myIp myPort doClose) 0x16 = cusmDtOpencontinue := by
  rw [writeHeader]
  simp (disch := omega) only [word16_wr16_of_ne, word16_wr32_of_ne, word32_wr16_of_ne, word32_wr32_of_ne,
    word16_wr16, word32_wr32]
  refine ⟨rfl, trivial, trivial, ?_, rfl⟩
  split_ifs <;> rfl

theorem sentName_frame {i : Nat} (h : i < 0x21 ∨ 0x34 ≤ i) : memcpyAt b 0x21 (sentName userName) i = b i := by
  have hlen := sentName_length userName
  rw [memcpyAt, if_neg (by omega)]

theorem writeBody_frame {i : Nat} (h : i < 0x1A ∨ 0x38 ≤ i) :
    writeBody b seq userName wantAudio subscribeIp i = b i := by
  rw [writeBody]
  simp (disch := omega) only [sentName_eq, wr16_apply, wr32_apply, wr8_apply, if_neg, sentName_frame]

theorem writeBody_modes :
    writeBody b seq userName wantAudio subscribeIp 0x34 = 0 ∧
      writeBody b seq userName wantAudio subscribeIp 0x35 = 1 ∧
      writeBody b seq userName wantAudio subscribeIp 0x36 = 0x08 ||| (if wantAudio ≠ 0 then 0x01 else 0) := by
  rw [writeBody]
  simp (disch := omega) only [wr8_apply, if_neg, if_true]
  exact ⟨trivial, trivial, trivial⟩

theorem writeBody_name :
    (writeBody b seq userName wantAudio subscribeIp 0x20).toNat = (sentName userName).length ∧
      ∀ k < 19, writeBody b seq userName wantAudio subscribeIp (0x21 + k) =
        if k < (sentName userName).length then (sentName userName).getD k 0 else b (0x21 + k) := by
  have hlen := sentName_length userName
  rw [writeBody]
  constructor
  · simp (disch := omega) only [sentName_eq, wr8_apply, if_neg, if_true, sentName_frame]
    exact UInt8.toNat_ofNat_of_lt' (by rw [UInt8.size]; omega)
  · intro k hk
    simp (disch := omega) only [sentName_eq, wr16_apply, wr32_apply, wr8_apply, if_neg, memcpyAt,
      Nat.le_add_right, true_and, Nat.add_lt_add_iff_left, Nat.add_sub_cancel_left]

theorem writeClient_frame {i : Nat} (h : i < 0x38 ∨ 0x40 ≤ i) : writeClient b wantAudio subscribeIp i = b i := by
  rw [writeClient]
  simp (disch := omega) only [wr32_apply, wr8_apply, if_neg]

theorem writeClient_address : word32 (writeClient b wantAudio subscribeIp) 0x38 = subscribeIp := by
  refine (word32_congr fun i _ _ => ?_).trans (word32_wr32 b 0x38 subscribeIp)
  rw [writeClient]
  simp (disch := omega) only [wr8_apply, if_neg]

/-! ### Round trip -/

/-- The packet as it is sent. -/
def sentPacket : List UInt8 :=
  let r := cusmBuildOpencontinue b seq myIp myPort userName wantAudio doClose subscribeIp
  (List.range r.2).map r.1

/-- The name that a packet holds, a length and the characters. -/
def pascalName (pkt : List UInt8) : CString := (pkt.drop 0x21).take (byteAt pkt 0x20)

theorem cusmBuildOpencontinue_length :
    (cusmBuildOpencontinue b seq myIp myPort userName wantAudio doClose subscribeIp).2 =
      if subscribeIp ≠ 0 then cusmOcMaxLen else cusmOcOffClientinfo := by
  rw [cusmBuildOpencontinue]
  dsimp only
  split_ifs <;> rfl

theorem cusmBuildOpencontinue_fst :
    (cusmBuildOpencontinue b seq myIp myPort userName wantAudio doClose subscribeIp).1 =
      wr16 (if subscribeIp ≠ 0 then
          writeClient (writeBody (writeHeader (memset0 b cusmOcMaxLen) seq myIp myPort doClose) seq userName
            wantAudio subscribeIp) wantAudio subscribeIp
        else writeBody (writeHeader (memset0 b cusmOcMaxLen) seq myIp myPort doClose) seq userName wantAudio
          subscribeIp) 0x18
        (UInt16.ofNat
          (cusmBuildOpencontinue b seq myIp myPort userName wantAudio doClose subscribeIp).2) := by
  rw [cusmBuildOpencontinue]
  dsimp only
  split_ifs <;> rfl

theorem built_header {i : Nat} (h : i < 0x18) :
    (cusmBuildOpencontinue b seq myIp myPort userName wantAudio doClose subscribeIp).1 i =
      writeHeader (memset0 b cusmOcMaxLen) seq myIp myPort doClose i := by
  rw [cusmBuildOpencontinue_fst, wr16_apply, if_neg (by omega), if_neg (by omega)]
  split_ifs
  · rw [writeClient_frame _ _ _ (by omega), writeBody_frame _ _ _ _ _ (by omega)]
  · rw [writeBody_frame _ _ _ _ _ (by omega)]

theorem built_body {i : Nat} (h : 0x1A ≤ i) (h' : i < 0x38) :
    (cusmBuildOpencontinue b seq myIp myPort userName wantAudio doClose subscribeIp).1 i =
      writeBody (writeHeader (memset0 b cusmOcMaxLen) seq myIp myPort doClose) seq userName wantAudio
        subscribeIp i := by
  rw [cusmBuildOpencontinue_fst, wr16_apply, if_neg (by omega), if_neg (by omega)]
  split_ifs
  · rw [writeClient_frame _ _ _ (by omega)]
  · rfl

/-- Nothing is written behind the longest packet. -/
theorem built_frame {i : Nat} (h : cusmOcMaxLen ≤ i) :
    (cusmBuildOpencontinue b seq myIp myPort userName wantAudio doClose subscribeIp).1 i = b i := by
  have hmax : cusmOcMaxLen = 0x44 := rfl
  have hset : memset0 b cusmOcMaxLen i = b i := if_neg (by omega)
  rw [cusmBuildOpencontinue_fst, wr16_apply, if_neg (by omega), if_neg (by omega)]
  split_ifs
  · rw [writeClient_frame _ _ _ (by omega), writeBody_frame _ _ _ _ _ (by omega),
      writeHeader_frame _ _ _ _ _ (by omega), hset]
  · rw [writeBody_frame _ _ _ _ _ (by omega), writeHeader_frame _ _ _ _ _ (by omega), hset]

theorem sentPacket_length :
    (sentPacket b seq myIp myPort userName wantAudio doClose subscribeIp).length =
      if subscribeIp ≠ 0 then cusmOcMaxLen else cusmOcOffClientinfo := by
  rw [sentPacket, List.length_map, List.length_range, cusmBuildOpencontinue_length]

theorem sentPacket_long :
    cusmOcOffClientinfo ≤ (sentPacket b seq myIp myPort userName wantAudio doClose subscribeIp).length := by
  rw [sentPacket_length]
  split_ifs <;> decide

theorem sentPacket_getElem {i : Nat}
    (h : i < (sentPacket b seq myIp myPort userName wantAudio doClose subscribeIp).length) :
    (sentPacket b seq myIp myPort userName wantAudio doClose subscribeIp)[i] =
      (cusmBuildOpencontinue b seq myIp myPort userName wantAudio doClose subscribeIp).1 i := by
  simp only [sentPacket, List.getElem_map, List.getElem_range]

theorem byteAt_sentPacket {i : Nat}
    (h : i < (sentPacket b seq myIp myPort userName wantAudio doClose subscribeIp).length) :
    byteAt (sentPacket b seq myIp myPort userName wantAudio doClose subscribeIp) i =
      ((cusmBuildOpencontinue b seq myIp myPort userName wantAudio doClose subscribeIp).1 i).toNat := by
  rw [byteAt, List.getD_eq_getElem?_getD, List.getElem?_eq_getElem h, Option.getD_some, sentPacket_getElem]

theorem rd16_sentPacket {off : Nat} (h : off + 2 ≤ cusmOcOffClientinfo) :
    rd16 (sentPacket b seq myIp myPort userName wantAudio doClose subscribeIp) off =
      word16 (cusmBuildOpencontinue b seq myIp myPort userName wantAudio doClose subscribeIp).1 off := by
  have hlong := sentPacket_long b seq myIp myPort userName wantAudio doClose subscribeIp
  rw [rd16, byteAt_sentPacket _ _ _ _ _ _ _ _ (by omega), byteAt_sentPacket _ _ _ _ _ _ _ _ (by omega), word16]

theorem rd32_sentPacket {off : Nat} (h : off + 4 ≤ cusmOcOffClientinfo) :
    rd32 (sentPacket b seq myIp myPort userName wantAudio doClose subscribeIp) off =
      word32 (cusmBuildOpencontinue b seq myIp myPort userName wantAudio doClose subscribeIp).1 off := by
  rw [rd32, rd16_sentPacket _ _ _ _ _ _ _ _ (by omega), rd16_sentPacket _ _ _ _ _ _ _ _ (by omega), word32]

/-- The name of the packet is the one given, cut to the nineteen characters of the field. -/
theorem pascalName_sentPacket :
    pascalName (sentPacket b seq myIp myPort userName wantAudio doClose subscribeIp) = sentName userName := by
  have hlong := sentPacket_long b seq myIp myPort userName wantAudio doClose subscribeIp
  have hfield : cusmOcOffClientinfo = 0x38 := rfl
  have hlen := sentName_length userName
  obtain ⟨hcount, hchars⟩ := writeBody_name (writeHeader (memset0 b cusmOcMaxLen) seq myIp myPort doClose) seq
    userName wantAudio subscribeIp
  rw [pascalName, byteAt_sentPacket _ _ _ _ _ _ _ _ (by omega),
    built_body _ _ _ _ _ _ _ _ (by omega) (by omega), hcount]
  refine List.ext_getElem (by rw [List.length_take, List.length_drop]; omega) fun k hk hk' => ?_
  rw [List.getElem_take, List.getElem_drop, sentPacket_getElem,
    built_body _ _ _ _ _ _ _ _ (by omega) (by omega), hchars k (by omega), if_pos hk',
    List.getD_eq_getElem?_getD, List.getElem?_eq_getElem hk', Option.getD_some]

/-- Behind the name the field is filled with zeros. -/
theorem sentPacket_padding {i : Nat} (h : 0x21 + (sentName userName).length ≤ i) (h' : i < 0x34) :
    byteAt (sentPacket b seq myIp myPort userName wantAudio doClose subscribeIp) i = 0 := by
  have hlong := sentPacket_long b seq myIp myPort userName wantAudio doClose subscribeIp
  have hfield : cusmOcOffClientinfo = 0x38 := rfl
  have hmax : cusmOcMaxLen = 0x44 := rfl
  have hset : memset0 b cusmOcMaxLen i = 0 := if_pos (by omega)
  obtain ⟨k, rfl⟩ := Nat.exists_eq_add_of_le (show 0x21 ≤ i by omega)
  rw [byteAt_sentPacket _ _ _ _ _ _ _ _ (by omega), built_body _ _ _ _ _ _ _ _ (by omega) (by omega),
    (writeBody_name _ _ _ _ _).2 k (by omega), if_neg (by omega), writeHeader_frame _ _ _ _ _ (by omega), hset]
  rfl

/-- A packet that subscribes names the sender. -/
theorem sentPacket_subscribed (h : subscribeIp ≠ 0) :
    rd32 (sentPacket b seq myIp myPort userName wantAudio doClose subscribeIp) 0x38 = subscribeIp := by
  have hlen := sentPacket_length b seq myIp myPort userName wantAudio doClose subscribeIp
  have hmax : cusmOcMaxLen = 0x44 := rfl
  rw [if_pos h, hmax] at hlen
  rw [rd32, rd16, rd16, byteAt_sentPacket _ _ _ _ _ _ _ _ (by omega), byteAt_sentPacket _ _ _ _ _ _ _ _ (by omega),
    byteAt_sentPacket _ _ _ _ _ _ _ _ (by omega), byteAt_sentPacket _ _ _ _ _ _ _ _ (by omega)]
  have hword := writeClient_address (writeBody (writeHeader (memset0 b cusmOcMaxLen) seq myIp myPort doClose) seq
    userName wantAudio subscribeIp) wantAudio subscribeIp
  rw [word32, word16, word16] at hword
  rw [cusmBuildOpencontinue_fst, if_pos h]
  simp (disch := omega) only [wr16_apply, if_neg]
  exact hword

/-- What the header of the packet and its mode fields read as. -/
theorem sentPacket_fields :
    rd16 (sentPacket b seq myIp myPort userName wantAudio doClose subscribeIp) 0x00 = 2 ∧
      rd32 (sentPacket b seq myIp myPort userName wantAudio doClose subscribeIp) 0x0C = myIp ∧
      rd32 (sentPacket b seq myIp myPort userName wantAudio doClose subscribeIp) 0x10 = seq ∧
      rd16 (sentPacket b seq myIp myPort userName wantAudio doClose subscribeIp) 0x14 =
        (if doClose ≠ 0 then 6 else 1) ∧
      rd16 (sentPacket b seq myIp myPort userName wantAudio doClose subscribeIp) 0x16 = cusmDtOpencontinue := by
  have hfield : cusmOcOffClientinfo = 0x38 := rfl
  obtain ⟨hfamily, haddr, hseq, hmessage, htype⟩ :=
    writeHeader_fields (memset0 b cusmOcMaxLen) seq myIp myPort doClose
  refine ⟨?_, ?_, ?_, ?_, ?_⟩
  · rw [rd16_sentPacket _ _ _ _ _ _ _ _ (by omega), ← hfamily]
    exact word16_congr fun i _ _ => built_header _ _ _ _ _ _ _ _ (by omega)
  · rw [rd32_sentPacket _ _ _ _ _ _ _ _ (by omega)]
    exact (word32_congr fun i _ _ => built_header _ _ _ _ _ _ _ _ (by omega)).trans haddr
  · rw [rd32_sentPacket _ _ _ _ _ _ _ _ (by omega)]
    exact (word32_congr fun i _ _ => built_header _ _ _ _ _ _ _ _ (by omega)).trans hseq
  · rw [rd16_sentPacket _ _ _ _ _ _ _ _ (by omega), ← hmessage]
    exact word16_congr fun i _ _ => built_header _ _ _ _ _ _ _ _ (by omega)
  · rw [rd16_sentPacket _ _ _ _ _ _ _ _ (by omega), ← htype]
    exact word16_congr fun i _ _ => built_header _ _ _ _ _ _ _ _ (by omega)

theorem sentPacket_plen :
    rd16 (sentPacket b seq myIp myPort userName wantAudio doClose subscribeIp) 0x18 =
      (sentPacket b seq myIp myPort userName wantAudio doClose subscribeIp).length := by
  rw [rd16_sentPacket _ _ _ _ _ _ _ _ (by decide), cusmBuildOpencontinue_fst, word16_wr16,
    cusmBuildOpencontinue_length, sentPacket_length]
  split_ifs <;> rfl

theorem sentPacket_modes :
    byteAt (sentPacket b seq myIp myPort userName wantAudio doClose subscribeIp) 0x34 = 0 ∧
      byteAt (sentPacket b seq myIp myPort userName wantAudio doClose subscribeIp) 0x35 = 1 ∧
      byteAt (sentPacket b seq myIp myPort userName wantAudio doClose subscribeIp) 0x36 =
        (if wantAudio ≠ 0 then 9 else 8) := by
  have hlong := sentPacket_long b seq myIp myPort userName wantAudio doClose subscribeIp
  have hfield : cusmOcOffClientinfo = 0x38 := rfl
  obtain ⟨hsend, hrecv, hflags⟩ := writeBody_modes (writeHeader (memset0 b cusmOcMaxLen) seq myIp myPort doClose)
    seq userName wantAudio subscribeIp
  refine ⟨?_, ?_, ?_⟩
  · rw [byteAt_sentPacket _ _ _ _ _ _ _ _ (by omega), built_body _ _ _ _ _ _ _ _ (by omega) (by omega), hsend]
    rfl
  · rw [byteAt_sentPacket _ _ _ _ _ _ _ _ (by omega), built_body _ _ _ _ _ _ _ _ (by omega) (by omega), hrecv]
    rfl
  · rw [byteAt_sentPacket _ _ _ _ _ _ _ _ (by omega), built_body _ _ _ _ _ _ _ _ (by omega) (by omega), hflags]
    split_ifs <;> rfl

end Packets

/-- The parser of an OpenContinue packet with its fixed body. -/
theorem cusmParse_open {buf : List UInt8} (htype : rd16 buf 0x16 = cusmDtOpencontinue)
    (hlen : cusmOcOffClientinfo ≤ buf.length) :
    cusmParse buf = some
      { destFamily := rd16 buf 0x00, srcAddr := rd32 buf 0x0C, seq := rd32 buf 0x10,
        message := rd16 buf 0x14, dataType := rd16 buf 0x16, plen := rd16 buf 0x18,
        ocSendmode := byteAt buf 0x34, ocRecvmode := byteAt buf 0x35, ocFlags := byteAt buf 0x36 } := by
  have hshort : ¬ buf.length < cusmHdrLen := not_lt.mpr (le_trans (by decide) hlen)
  have hvideo : ¬ (rd16 buf 0x16 = cusmDtVideoSmall ∨ rd16 buf 0x16 = cusmDtVideoBig) := by
    rw [htype]
    decide
  have haudio : ¬ rd16 buf 0x16 = cusmDtAudio := by
    rw [htype]
    decide
  unfold cusmParse
  dsimp only
  rw [if_neg hshort, if_neg hvideo, if_neg haudio, if_pos ⟨htype, hlen⟩]

/-- Every slice that the parser reports lies inside of what was received, and an OpenContinue packet is
read back as it was built, its name cut to the nineteen characters of the field. -/
theorem opencontinue_roundTrip :
    (∀ (buf : List UInt8) (pk : Packet), cusmParse buf = some pk →
      (if pk.dataType = cusmDtVideoSmall ∨ pk.dataType = cusmDtVideoBig then
          (videoSpan buf).Inside buf ∧ pk.vidData = (videoSpan buf).bytes buf
        else pk.vidData = []) ∧
      if pk.dataType = cusmDtAudio then
          (audioSpan buf).Inside buf ∧ pk.audData = (audioSpan buf).bytes buf
        else pk.audData = []) ∧
      ∀ (b : Buffer) (seq myIp : UInt32) (myPort : UInt16) (userName : Option CString) (wantAudio doClose : Int)
        (subscribeIp : UInt32) (pkt : List UInt8),
        pkt = sentPacket b seq myIp myPort userName wantAudio doClose subscribeIp →
        (∃ pk, cusmParse pkt = some pk ∧ pk.seq = seq ∧ pk.srcAddr = myIp ∧ pk.dataType = cusmDtOpencontinue ∧
          pk.plen = pkt.length ∧ pk.destFamily = 2 ∧ pk.message = (if doClose ≠ 0 then 6 else 1) ∧
          pk.ocSendmode = 0 ∧ pk.ocRecvmode = 1 ∧ pk.ocFlags = (if wantAudio ≠ 0 then 9 else 8)) ∧
          pkt.length = (if subscribeIp ≠ 0 then cusmOcMaxLen else cusmOcOffClientinfo) ∧
          pascalName pkt = (cstr (userName.getD [])).take 19 ∧
          (∀ i, 0x21 + (pascalName pkt).length ≤ i → i < 0x34 → byteAt pkt i = 0) ∧
          (subscribeIp ≠ 0 → rd32 pkt 0x38 = subscribeIp) ∧
          ∀ i, cusmOcMaxLen ≤ i →
            (cusmBuildOpencontinue b seq myIp myPort userName wantAudio doClose subscribeIp).1 i = b i := by
  refine ⟨fun buf pk h => cusmParse_slices h, ?_⟩
  rintro b seq myIp myPort userName wantAudio doClose subscribeIp pkt rfl
  have hname := pascalName_sentPacket b seq myIp myPort userName wantAudio doClose subscribeIp
  obtain ⟨hfamily, haddr, hseq, hmessage, htype⟩ :=
    sentPacket_fields b seq myIp myPort userName wantAudio doClose subscribeIp
  obtain ⟨hsend, hrecv, hflags⟩ := sentPacket_modes b seq myIp myPort userName wantAudio doClose subscribeIp
  have hlong := sentPacket_long b seq myIp myPort userName wantAudio doClose subscribeIp
  refine ⟨⟨_, cusmParse_open htype hlong, hseq, haddr, htype, ?_, hfamily, hmessage, hsend, hrecv, hflags⟩,
    sentPacket_length _ _ _ _ _ _ _ _, hname, ?_, sentPacket_subscribed _ _ _ _ _ _ _ _, ?_⟩
  · exact sentPacket_plen _ _ _ _ _ _ _ _
  · rw [hname]
    exact fun i hi hi' => sentPacket_padding _ _ _ _ _ _ _ _ hi hi'
  · exact fun i hi => built_frame _ _ _ _ _ _ _ _ hi

end UnicornSuite.Cuseeme
