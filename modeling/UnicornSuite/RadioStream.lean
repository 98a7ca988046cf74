import Mathlib.Tactic.Common

/-! The transport side of the radio engine (`radio_engine.c`): `re_consume` takes the ICY metadata
out of what WinHTTP reads, `re_feed_audio` cuts the audio bytes that are left into ADTS frames. Both
keep their place between reads. Bytes of the accumulator are a list, oldest first. -/

namespace UnicornSuite.Radio

/-- `RE_NET_CHUNK` -/
def reNetChunk : Nat := 16384
/-- `RE_ADTS_CAP` -/
def reAdtsCap : Nat := 65536
/-- `RE_META_MAX` -/
def reMetaMax : Nat := 16 * 255 + 1

/-- A byte of a buffer, as the number the header arithmetic works with. -/
def byteAt (d : List UInt8) (i : Nat) : Nat := (d.getD i 0).toNat

/-! ### The ADTS header -/

/-- The syncword with the layer bits, which are 0. -/
def adtsSync (d : List UInt8) : Bool := byteAt d 0 = 0xFF ∧ byteAt d 1 &&& 0xF6 = 0xF0

def adtsLayer (d : List UInt8) : Nat := (byteAt d 1 >>> 1) &&& 0x03

def samplingIndex (d : List UInt8) : Nat := (byteAt d 2 >>> 2) &&& 0x0F

def channelConfig (d : List UInt8) : Nat :=
  ((byteAt d 2 &&& 0x01) <<< 2) ||| ((byteAt d 3 >>> 6) &&& 0x03)

def frameLength (d : List UInt8) : Nat :=
  ((byteAt d 3 &&& 0x03) <<< 11) ||| (byteAt d 4 <<< 3) ||| ((byteAt d 5 >>> 5) &&& 0x07)

/-- What `re_feed_audio` makes of the bytes from its position on. -/
inductive Scan where
  | short
  | resync
  | partialFrame
  | frame (srIdx chCfg len : Nat)
  deriving DecidableEq

def scanAt (d : List UInt8) : Scan :=
  if d.length < 7 then .short
  else if adtsSync d = false then .resync
  else if adtsLayer d ≠ 0 ∨ samplingIndex d ≥ 13 ∨ channelConfig d < 1 ∨ channelConfig d > 7 ∨
      frameLength d < 7 then .resync
  else if d.length < frameLength d then .partialFrame
  else .frame (samplingIndex d) (channelConfig d) (frameLength d)

theorem seven_le_of_resync {d : List UInt8} (h : scanAt d = .resync) : 7 ≤ d.length := by
  unfold scanAt at h
  split_ifs at h with hshort
  all_goals exact Nat.le_of_not_lt hshort

theorem seven_le_of_frame {d : List UInt8} {sr ch len : Nat} (h : scanAt d = .frame sr ch len) :
    7 ≤ len ∧ len ≤ d.length := by
  unfold scanAt at h
  split_ifs at h with _ _ hbad hpart
  simp only [Scan.frame.injEq] at h
  obtain ⟨-, -, rfl⟩ := h
  omega

/-! ### The accumulator -/

/-- The ADTS accumulator and the start of the decoder. `decoded` is what `re_decode_frame` was given
and `dropped` how many bytes the overflow path threw away. -/
structure Framer where
  adts : List UInt8
  adtsSr : Nat
  adtsCh : Nat
  decoderReady : Bool
  decoded : List (List UInt8)
  dropped : Nat

/-- The bytes join the accumulator; what does not fit pushes the oldest out. -/
def accumulate (data : List UInt8) (f : Framer) : Framer :=
  if f.adts.length + data.length > reAdtsCap then
    let data := if data.length ≥ reAdtsCap then data.drop (data.length - reAdtsCap) else data
    let drop := min (f.adts.length + data.length - reAdtsCap) f.adts.length
    { f with adts := f.adts.drop drop ++ data, dropped := f.dropped + drop }
  else { f with adts := f.adts ++ data }

def decodeFrame (frame : List UInt8) (f : Framer) : Framer :=
  { f with decoded := f.decoded ++ [frame] }

section Feed

variable (ensure : Nat → Nat → Bool)

/-- The loop of `re_feed_audio`; `d` is the part of the accumulator from its position `i` on, and
`ensure` is what Media Foundation lets `re_decoder_ensure` return. The accumulator is only cut down
when the loop ends at a `break`. -/
def frameLoop (f : Framer) (d : List UInt8) : Framer :=
  match h : scanAt d with
  | .short | .partialFrame => { f with adts := d }
  | .resync =>
      have := seven_le_of_resync h
      frameLoop f d.tail
  | .frame sr ch len =>
      have := seven_le_of_frame h
      if f.decoderReady then frameLoop (decodeFrame (d.take len) f) (d.drop len)
      else if ensure sr ch then
        frameLoop (decodeFrame (d.take len)
          { f with adtsSr := sr, adtsCh := ch, decoderReady := true }) (d.drop len)
      else { f with adtsSr := sr, adtsCh := ch }
termination_by d.length
decreasing_by all_goals simp only [List.length_tail, List.length_drop]; omega

/-- `re_feed_audio` -/
def feedAudio (data : List UInt8) (f : Framer) : Framer :=
  frameLoop ensure (accumulate data f) (accumulate data f).adts

end Feed

/-! ### The ICY interleave -/

/-- `icy_phase` -/
inductive IcyPhase where
  | audio | len | data
  deriving DecidableEq

structure Icy where
  metaint : Nat
  remain : Nat
  phase : IcyPhase
  metaRemain : Nat
  metaBuf : List UInt8
  metaLen : Nat
  bufSize : metaBuf.length = reMetaMax

/-- The part of a `RadioEngine` that the transport bytes go through. `metas` are the blocks that
`re_emit_meta` was called for. -/
structure Stream where
  icy : Icy
  framer : Framer
  metas : List (List UInt8)

/-- `memcpy` into a buffer at an offset. -/
def overlay (buf : List UInt8) (off : Nat) (data : List UInt8) : List UInt8 :=
  buf.take off ++ data ++ buf.drop (off + data.length)

theorem length_overlay {buf data : List UInt8} {off : Nat} (h : off + data.length ≤ buf.length) :
    (overlay buf off data).length = buf.length := by
  rw [overlay, List.length_append, List.length_append, List.length_take, List.length_drop,
    Nat.min_eq_left (by omega)]
  omega

theorem take_overlay {buf data : List UInt8} {off : Nat} (h : off ≤ buf.length) :
    (overlay buf off data).take (off + data.length) = buf.take off ++ data := by
  have hlen : (buf.take off ++ data).length = off + data.length := by
    rw [List.length_append, List.length_take, Nat.min_eq_left h]
  rw [overlay, List.take_left' hlen]

/-- The length byte of a block. -/
def onMetaLen (b : UInt8) (c : Icy) : Icy :=
  if b.toNat * 16 = 0 then
    { c with metaRemain := 0, metaLen := 0, phase := .audio, remain := c.metaint }
  else { c with metaRemain := b.toNat * 16, metaLen := 0, phase := .data }

/-- Bytes of a block go to its buffer. -/
def storeMeta (data : List UInt8) (c : Icy) : Icy :=
  { c with
    metaBuf := if c.metaLen + data.length < reMetaMax then overlay c.metaBuf c.metaLen data
      else c.metaBuf
    metaLen := c.metaLen + data.length
    metaRemain := c.metaRemain - data.length
    bufSize := by
      have hsize := c.bufSize
      split_ifs with h
      · rw [length_overlay (by omega), hsize]
      · exact hsize }

/-- The end of a block: its bytes go to `re_emit_meta` and the audio goes on. -/
def emitMeta (s : Stream) : Stream :=
  let n := if s.icy.metaLen ≥ reMetaMax then reMetaMax - 1 else s.icy.metaLen
  { s with
    icy := { s.icy with metaLen := n, phase := .audio, remain := s.icy.metaint }
    metas := s.metas ++ [s.icy.metaBuf.take n] }

section Consume

variable (ensure : Nat → Nat → Bool)

/-- The audio branch of `re_consume`, for the bytes it takes. -/
def takeAudio (data : List UInt8) (s : Stream) : Stream :=
  { s with
    framer := feedAudio ensure data s.framer
    icy := { s.icy with
      remain := s.icy.remain - data.length
      phase := if s.icy.remain - data.length = 0 then .len else s.icy.phase } }

/-- The metadata branch, for the bytes it takes. -/
def takeMeta (data : List UInt8) (s : Stream) : Stream :=
  let s := { s with icy := storeMeta data s.icy }
  if s.icy.metaRemain = 0 then emitMeta s else s

/-- How many turns without a byte the loop can make before it takes one. -/
def IcyPhase.rank : IcyPhase → Nat
  | .len => 0
  | .audio => 1
  | .data => 2

theorem rank_takeAudio {data : List UInt8} {s : Stream} (hphase : s.icy.phase = .audio)
    (h : s.icy.remain = 0) : (takeAudio ensure data s).icy.phase.rank < s.icy.phase.rank := by
  simp [takeAudio, h, hphase, IcyPhase.rank]

theorem rank_takeMeta {s : Stream} (hphase : s.icy.phase = .data) (h : s.icy.metaRemain = 0) :
    (takeMeta [] s).icy.phase.rank < s.icy.phase.rank := by
  simp [takeMeta, storeMeta, emitMeta, h, hphase, IcyPhase.rank]

/-- The loop of `re_consume`. -/
def consumeLoop (s : Stream) (data : List UInt8) : Stream :=
  match data with
  | [] => s
  | b :: rest =>
      match _hphase : s.icy.phase with
      | .audio =>
          consumeLoop (takeAudio ensure ((b :: rest).take s.icy.remain) s)
            ((b :: rest).drop s.icy.remain)
      | .len => consumeLoop { s with icy := onMetaLen b s.icy } rest
      | .data =>
          consumeLoop (takeMeta ((b :: rest).take s.icy.metaRemain) s)
            ((b :: rest).drop s.icy.metaRemain)
termination_by (data.length, s.icy.phase.rank)
decreasing_by
  · rcases Nat.eq_zero_or_pos s.icy.remain with h | h
    · rw [h, List.drop_zero]
      exact Prod.Lex.right _ (rank_takeAudio ensure _hphase h)
    · exact Prod.Lex.left _ _ (by simp only [List.length_drop, List.length_cons]; omega)
  · exact Prod.Lex.left _ _ (by simp)
  · rcases Nat.eq_zero_or_pos s.icy.metaRemain with h | h
    · rw [h, List.drop_zero, List.take_zero]
      exact Prod.Lex.right _ (rank_takeMeta _hphase h)
    · exact Prod.Lex.left _ _ (by simp only [List.length_drop, List.length_cons]; omega)

/-- `re_consume` -/
def consume (s : Stream) (data : List UInt8) : Stream :=
  if s.icy.metaint = 0 then { s with framer := feedAudio ensure data s.framer }
  else consumeLoop ensure s data

end Consume

/-- What `re_start` and `re_http_open` make of an engine, whatever an earlier session left in it;
`metaint` is the `icy-metaint` header, if the reply has one. -/
def opened (metaint : Option Nat) (s : Stream) : Stream :=
  { s with
    icy := match metaint with
      | none => { s.icy with metaint := 0, phase := .audio }
      | some m => { s.icy with metaint := m, remain := m, phase := .audio }
    framer := { s.framer with adts := [], decoderReady := false, decoded := [], dropped := 0 }
    metas := [] }

end UnicornSuite.Radio
