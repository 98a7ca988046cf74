import UnicornSuite.LibCInt
import UnicornSuite.LibText

/-! Sun audio in the player (`audio_service.c`): the header of a file, and the branch of the worker that
makes samples of its bytes. The sizes are of 32 bits and wrap. An access outside of the file or of the
sample buffer is a fault. -/

namespace UnicornSuite.Au

open CText CInt

/-! ### The code -/

/-- `au_header_t` -/
structure AuHeader where
  dataOffset : Nat
  dataSize : Nat
  encoding : Nat
  sampleRate : Nat
  channels : Nat
  deriving DecidableEq

/-- The bytes the worker is handed, with a length that is an `int`. -/
structure Input where
  bytes : List UInt8
  fits : bytes.length ≤ 2147483647

section Code

variable (buf : List UInt8)

def readBe32 (p : Nat) : Nat := ((buf.drop p).take 4).foldl (fun v c => v * 256 + c.toNat) 0

/-- `au_parse_header`; the offset is compared with the length as a signed number. -/
def auParseHeader : Option AuHeader :=
  if buf.length < 24 then none
  else if buf.take 4 ≠ [0x2E, 0x73, 0x6E, 0x64] then none
  else
    let out : AuHeader :=
      { dataOffset := readBe32 buf 4
        dataSize := readBe32 buf 8
        encoding := readBe32 buf 12
        sampleRate := readBe32 buf 16
        channels := readBe32 buf 20 }
    if out.dataOffset < 24 ∨ wrap32 out.dataOffset > buf.length then none else some out

/-- What the worker says of a header it does not play. -/
def unsupported (hdr : AuHeader) : Option CString :=
  if hdr.encoding ≠ 1 then
    some (ascii "Unsupported encoding " ++ decimalText hdr.encoding ++ ascii " (only 8-bit mu-law=1).")
  else if hdr.channels < 1 ∨ hdr.channels > 2 then
    some (ascii "Unsupported channel count " ++ decimalText hdr.channels ++ ascii ".")
  else if hdr.sampleRate < 4000 ∨ hdr.sampleRate > 96000 then
    some (ascii "Unsupported sample rate " ++ decimalText hdr.sampleRate ++ ascii ".")
  else none

/-- `data_avail`, an unsigned difference. -/
def dataAvail (len : Nat) (hdr : AuHeader) : Nat := (len + 4294967296 - hdr.dataOffset) % 4294967296

/-- `pcm_samples` -/
def pcmSamples (len : Nat) (hdr : AuHeader) : Nat :=
  let avail := dataAvail len hdr
  if hdr.dataSize = 0 ∨ hdr.dataSize > avail then avail else hdr.dataSize

/-- `g_pcm_bytes` -/
def pcmBytes (samples : Nat) : Nat := samples * 2 % 4294967296

/-- `mulaw_to_pcm16`, the entries of the table. -/
def mulawToPcm16 (u : UInt8) : Int :=
  let u := ~~~u
  let sign : Int := if u &&& 0x80 ≠ 0 then -1 else 1
  let exponent := (u >>> 4 &&& 0x07).toNat
  let mantissa := (u &&& 0x0F).toNat
  let sample : Int := (((mantissa ||| 0x10) <<< (exponent + 3) : Nat) : Int) - 0x84
  sign * sample

/-- The loop of the decoder from a counter on, for `n` more samples into a buffer of `room` bytes. -/
def decode (offset room : Nat) : Nat → Nat → Option (List Int)
  | _, 0 => some []
  | i, n + 1 =>
      (buf[offset + i]?).bind fun u =>
        if 2 * (i + 1) ≤ room then (decode offset room (i + 1) n).map (mulawToPcm16 u :: ·) else none

inductive Outcome where
  | failed (err : CString)
  | decoded (pcmBytes : Nat) (pcm : List Int) (rate channels : Nat)
  | fault
  deriving DecidableEq

/-- The branch of `audio_worker`; `alloc` is whether so many bytes can be had. -/
def auWorker (alloc : Nat → Bool) (input : Input) : Outcome :=
  match auParseHeader input.bytes with
  | none => .failed (ascii "Not a valid Sun .au file (.snd magic missing).")
  | some hdr =>
      match unsupported hdr with
      | some err => .failed err
      | none =>
          let samples := pcmSamples input.bytes.length hdr
          if samples = 0 then .failed (ascii "Empty audio payload.")
          else if ¬alloc (pcmBytes samples) then .failed (ascii "Out of memory for PCM buffer.")
          else
            match decode input.bytes hdr.dataOffset (pcmBytes samples) 0 samples with
            | none => .fault
            | some pcm => .decoded (pcmBytes samples) pcm hdr.sampleRate hdr.channels

end Code

/-! ### What is claimed -/

/-- The bytes that are to be decoded: from the offset on as many as declared, all of them where none are
declared. -/
def payload (buf : List UInt8) (hdr : AuHeader) : List UInt8 :=
  let rest := buf.drop hdr.dataOffset
  if hdr.dataSize = 0 then rest else rest.take hdr.dataSize

/-- A file that is played is decoded from the payload alone, and no size wraps. -/
structure Exact (alloc : Nat → Bool) (input : Input) (hdr : AuHeader) : Prop where
  avail : (dataAvail input.bytes.length hdr : Int) = input.bytes.length - hdr.dataOffset
  samples : pcmSamples input.bytes.length hdr = (payload input.bytes hdr).length
  bytes : pcmBytes (payload input.bytes hdr).length = 2 * (payload input.bytes hdr).length
  run : auWorker alloc input =
    if payload input.bytes hdr = [] then .failed (ascii "Empty audio payload.")
    else if alloc (2 * (payload input.bytes hdr).length) then
      .decoded (2 * (payload input.bytes hdr).length) ((payload input.bytes hdr).map mulawToPcm16)
        hdr.sampleRate hdr.channels
    else .failed (ascii "Out of memory for PCM buffer.")

/-- The header is accepted, and the file is of a kind that is played. -/
def Accepted (input : Input) (hdr : AuHeader) : Prop :=
  auParseHeader input.bytes = some hdr ∧ unsupported hdr = none

/-! ### The header -/

section Header

variable {buf : List UInt8} {hdr : AuHeader}

theorem foldl_be_lt (l : List UInt8) (v : Nat) :
    l.foldl (fun v c => v * 256 + c.toNat) v < (v + 1) * 256 ^ l.length := by
  induction l generalizing v with
  | nil => simp
  | cons c l ih =>
      have hc : v * 256 + c.toNat + 1 ≤ (v + 1) * 256 := by
        have := c.toNat_lt
        omega
      calc (c :: l).foldl (fun v c => v * 256 + c.toNat) v
          < (v * 256 + c.toNat + 1) * 256 ^ l.length := ih _
        _ ≤ (v + 1) * 256 * 256 ^ l.length := Nat.mul_le_mul_right _ hc
        _ = (v + 1) * 256 ^ (c :: l).length := by rw [List.length_cons, pow_succ', mul_assoc]

theorem readBe32_lt (buf : List UInt8) (p : Nat) : readBe32 buf p < 4294967296 := by
  have hlen : ((buf.drop p).take 4).length ≤ 4 := List.length_take_le _ _
  calc readBe32 buf p < (0 + 1) * 256 ^ ((buf.drop p).take 4).length := foldl_be_lt _ 0
    _ ≤ (0 + 1) * 256 ^ 4 := Nat.mul_le_mul_left _ (Nat.pow_le_pow_right (by decide) hlen)
    _ = 4294967296 := rfl

/-- An accepted header: its fields are of 32 bits, and the offset lies in the file unless it is negative
as an `int`. -/
theorem auParseHeader_some (h : auParseHeader buf = some hdr) :
    24 ≤ buf.length ∧ hdr.dataOffset < 4294967296 ∧
      (hdr.dataOffset < 2147483648 → hdr.dataOffset ≤ buf.length) := by
  unfold auParseHeader at h
  dsimp only at h
  split_ifs at h with hlen hmagic hoff
  obtain rfl := Option.some.inj h
  refine ⟨not_lt.mp hlen, readBe32_lt buf 4, fun hpos => ?_⟩
  dsimp only at hpos ⊢
  have hfits : Fits32 (readBe32 buf 4 : Int) := by
    constructor <;> simp only [minInt32, maxInt32] <;> omega
  rw [wrap32_of_fits hfits] at hoff
  omega

end Header

/-! ### The decoder -/

section Decoder

variable {alloc : Nat → Bool} {input : Input} {hdr : AuHeader}

theorem decode_inside (buf : List UInt8) (offset room i n : Nat) (hbuf : offset + i + n ≤ buf.length)
    (hroom : 2 * (i + n) ≤ room) :
    decode buf offset room i n = some (((buf.drop (offset + i)).take n).map mulawToPcm16) := by
  induction n generalizing i with
  | zero => simp [decode]
  | succ n ih =>
      have hlt : offset + i < buf.length := by omega
      rw [decode, List.getElem?_eq_getElem hlt, Option.bind_some, if_pos (by omega),
        ih (i + 1) (by omega) (by omega), List.drop_eq_getElem_cons hlt, List.take_succ_cons,
        List.map_cons]
      rfl

theorem decode_outside (buf : List UInt8) (offset room i n : Nat) (hbuf : buf.length ≤ offset + i) :
    decode buf offset room i (n + 1) = none := by
  rw [decode, List.getElem?_eq_none hbuf, Option.bind_none]

theorem payload_length (buf : List UInt8) (hdr : AuHeader) :
    (payload buf hdr).length =
      if hdr.dataSize = 0 ∨ hdr.dataSize > buf.length - hdr.dataOffset then buf.length - hdr.dataOffset
      else hdr.dataSize := by
  unfold payload
  split_ifs
  all_goals simp_all
  omega

theorem payload_eq_take (buf : List UInt8) (hdr : AuHeader) :
    payload buf hdr = (buf.drop hdr.dataOffset).take (payload buf hdr).length := by
  unfold payload
  split_ifs
  · exact (List.take_length).symm
  · rw [List.length_take, List.take_eq_take_min]

theorem exact_of_offset (h : Accepted input hdr) (hpos : hdr.dataOffset < 2147483648) :
    Exact alloc input hdr := by
  obtain ⟨hhdr, hsupp⟩ := h
  obtain ⟨_, _, hoff⟩ := auParseHeader_some hhdr
  have hoff := hoff hpos
  have hfits := input.fits
  have havail : dataAvail input.bytes.length hdr = input.bytes.length - hdr.dataOffset := by
    unfold dataAvail
    omega
  have hsamples : pcmSamples input.bytes.length hdr = (payload input.bytes hdr).length := by
    rw [pcmSamples, havail, payload_length]
  have hle : hdr.dataOffset + (payload input.bytes hdr).length ≤ input.bytes.length := by
    rw [payload_length]
    split_ifs <;> omega
  have hbytes : pcmBytes (payload input.bytes hdr).length = 2 * (payload input.bytes hdr).length := by
    unfold pcmBytes
    omega
  refine ⟨by omega, hsamples, hbytes, ?_⟩
  have hdecode : decode input.bytes hdr.dataOffset (2 * (payload input.bytes hdr).length) 0
      (payload input.bytes hdr).length = some ((payload input.bytes hdr).map mulawToPcm16) := by
    rw [decode_inside _ _ _ _ _ (by omega) (by omega), Nat.add_zero, ← payload_eq_take]
  simp only [auWorker, hhdr, hsupp, hsamples, hbytes, hdecode, List.length_eq_zero_iff]
  split_ifs <;> simp_all

/-- Every file that is played is decoded from its payload alone, exactly where the offset of an accepted
header is below `2^31`. -/
theorem exact_iff_offset (alloc : Nat → Bool) (input : Input) :
    (∀ hdr, Accepted input hdr → Exact alloc input hdr) ↔
      ∀ hdr, Accepted input hdr → hdr.dataOffset < 2147483648 := by
  refine forall₂_congr fun hdr hacc => ⟨fun h => ?_, exact_of_offset hacc⟩
  have havail := h.avail
  have hfits := input.fits
  omega

/-- Behind a negative offset the first read is outside of the file. -/
theorem auWorker_fault (h : Accepted input hdr) (hneg : 2147483648 ≤ hdr.dataOffset)
    (halloc : ∀ n, alloc n = true) : auWorker alloc input = .fault := by
  obtain ⟨hhdr, hsupp⟩ := h
  obtain ⟨_, hlt, _⟩ := auParseHeader_some hhdr
  have hfits := input.fits
  have hpos : 0 < pcmSamples input.bytes.length hdr := by
    unfold pcmSamples dataAvail
    dsimp only
    split_ifs <;> omega
  obtain ⟨n, hn⟩ := Nat.exists_eq_succ_of_ne_zero hpos.ne'
  have hdecode : decode input.bytes hdr.dataOffset (pcmBytes (n + 1)) 0 (n + 1) = none :=
    decode_outside _ _ _ _ _ (by omega)
  simp only [auWorker, hhdr, hsupp, hn, Nat.succ_eq_add_one, hdecode, halloc]
  rfl

/-- A header without bytes behind it, with the offset `2^31`. -/
def hugeOffset : Input where
  bytes := ascii ".snd" ++
    [0x80, 0, 0, 0, 0, 0, 0, 0, 0, 0, 0, 1, 0, 0, 0x1F, 0x40, 0, 0, 0, 1]
  fits := by decide

def hugeHeader : AuHeader := ⟨2147483648, 0, 1, 8000, 1⟩

/-- The sizes wrap, to a buffer of 48 bytes for more than `2^31` samples, and the file is read outside. -/
theorem hugeOffset_fault :
    Accepted hugeOffset hugeHeader ∧ pcmSamples hugeOffset.bytes.length hugeHeader = 2147483672 ∧
      pcmBytes 2147483672 = 48 ∧ auWorker (fun _ => true) hugeOffset = .fault ∧
      ¬∀ hdr, Accepted hugeOffset hdr → Exact (fun _ => true) hugeOffset hdr := by
  have hacc : Accepted hugeOffset hugeHeader := ⟨by decide, by decide⟩
  refine ⟨hacc, by decide, by decide, auWorker_fault hacc (by decide) fun _ => rfl, ?_⟩
  intro hall
  have havail := (hall hugeHeader hacc).avail
  revert havail
  decide

end Decoder

end UnicornSuite.Au
