import UnicornSuite.LibRun
import UnicornSuite.RadioStream

/-! The stream of a radio station taken apart again. A transport stream is whole ADTS frames with a
metadata block after every `m` audio bytes; wherever the reads cut it, the frames reach the decoder
and the blocks reach their handler. `Framed` says how far the framer has come in the audio and
`Ahead` where the stripper stands in the interleave. -/

namespace UnicornSuite.Radio

/-! ### Stations -/

/-- A whole ADTS frame. -/
structure AdtsFrame where
  bytes : List UInt8
  sync : adtsSync bytes = true
  sampling : samplingIndex bytes < 13
  channels : 1 ≤ channelConfig bytes ∧ channelConfig bytes ≤ 7
  header : 7 ≤ bytes.length
  bound : bytes.length ≤ 8191
  covers : frameLength bytes = bytes.length

/-- A metadata block: its length byte counts units of 16 bytes. -/
structure MetaBlock where
  units : UInt8
  bytes : List UInt8
  size : bytes.length = units.toNat * 16

def MetaBlock.wire (b : MetaBlock) : List UInt8 := b.units :: b.bytes

/-- The audio bytes of a list of frames. -/
def audioOf (fs : List AdtsFrame) : List UInt8 := (fs.map (·.bytes)).flatten

/-- The transport bytes when `r` audio bytes are left before the next block. -/
def interleaveFrom (m : Nat) : Nat → List MetaBlock → List UInt8 → List UInt8
  | _, [], audio => audio
  | r, b :: bs, audio => audio.take r ++ (b.wire ++ interleaveFrom m m bs (audio.drop r))

/-- The transport bytes of a station with the interval `m`; `m = 0` is a station without metadata. -/
def transport (m : Nat) (bs : List MetaBlock) (audio : List UInt8) : List UInt8 :=
  if m = 0 then audio else interleaveFrom m m bs audio

/-- The blocks that have bytes. -/
def handled (bs : List MetaBlock) : List (List UInt8) :=
  (bs.filter (·.units ≠ 0)).map (·.bytes)

/-! ### The header of a frame -/

section Header

theorem byteAt_append {d e : List UInt8} {i : Nat} (h : i < d.length) :
    byteAt (d ++ e) i = byteAt d i := by
  rw [byteAt, byteAt, List.getD_eq_getElem?_getD, List.getD_eq_getElem?_getD,
    List.getElem?_append_left h]

/-- The scan reads the first seven bytes and the number of bytes. -/
theorem scanAt_append {d e : List UInt8} (h : 7 ≤ d.length) :
    adtsSync (d ++ e) = adtsSync d ∧ adtsLayer (d ++ e) = adtsLayer d ∧
      samplingIndex (d ++ e) = samplingIndex d ∧ channelConfig (d ++ e) = channelConfig d ∧
      frameLength (d ++ e) = frameLength d := by
  have hbyte : ∀ i, i < 7 → byteAt (d ++ e) i = byteAt d i :=
    fun i hi => byteAt_append (Nat.lt_of_lt_of_le hi h)
  simp only [adtsSync, adtsLayer, samplingIndex, channelConfig, frameLength]
  rw [hbyte 0 (by decide), hbyte 1 (by decide), hbyte 2 (by decide), hbyte 3 (by decide),
    hbyte 4 (by decide), hbyte 5 (by decide)]
  exact ⟨rfl, rfl, rfl, rfl, rfl⟩

theorem layer_of_sync {d : List UInt8} (h : adtsSync d = true) : adtsLayer d = 0 := by
  have hmask : ∀ b : Fin 256, b.val &&& 0xF6 = 0xF0 → (b.val >>> 1) &&& 0x03 = 0 := by
    decide +kernel
  simp only [adtsSync, decide_eq_true_eq] at h
  exact hmask ⟨byteAt d 1, (d.getD 1 0).toNat_lt⟩ h.2

theorem AdtsFrame.not_bad (g : AdtsFrame) : ¬ (adtsLayer g.bytes ≠ 0 ∨ samplingIndex g.bytes ≥ 13 ∨
    channelConfig g.bytes < 1 ∨ channelConfig g.bytes > 7 ∨ frameLength g.bytes < 7) := by
  have hlayer := layer_of_sync g.sync
  have hsampling := g.sampling
  have hchannels := g.channels
  have hheader := g.header
  rw [g.covers]
  omega

theorem AdtsFrame.scanAt_whole (g : AdtsFrame) (e : List UInt8) :
    scanAt (g.bytes ++ e) =
      .frame (samplingIndex g.bytes) (channelConfig g.bytes) g.bytes.length := by
  obtain ⟨hsync, hlayer, hsampling, hchannel, hlength⟩ := scanAt_append (e := e) g.header
  have hheader := g.header
  have hlen : (g.bytes ++ e).length = g.bytes.length + e.length := List.length_append
  unfold scanAt
  rw [hsync, hlayer, hsampling, hchannel, hlength, if_neg (by omega), if_neg (by simp [g.sync]),
    if_neg g.not_bad, g.covers, if_neg (by omega)]

theorem AdtsFrame.scanAt_cut (g : AdtsFrame) {d e : List UInt8} (h : d ++ e = g.bytes)
    (he : d.length < g.bytes.length) : scanAt d = .short ∨ scanAt d = .partialFrame := by
  by_cases hshort : d.length < 7
  · left
    unfold scanAt
    rw [if_pos hshort]
  · right
    obtain ⟨hsync, hlayer, hsampling, hchannel, hlength⟩ :=
      scanAt_append (e := e) (Nat.le_of_not_lt hshort)
    rw [h] at hsync hlayer hsampling hchannel hlength
    have hbad := g.not_bad
    unfold scanAt
    rw [← hsync, ← hlayer, ← hsampling, ← hchannel, ← hlength, if_neg hshort,
      if_neg (by simp [g.sync]), if_neg hbad, g.covers, if_pos he]

end Header

/-! ### The framer on whole frames -/

section Framer

variable {ensure : Nat → Nat → Bool}

/-- `d` is the start of the audio of the frames, and not yet all of the first one. -/
structure Waiting (fs : List AdtsFrame) (d audio : List UInt8) : Prop where
  rest : d ++ audio = audioOf fs
  short : ∀ g ∈ fs.head?, d.length < g.bytes.length

theorem Waiting.length_le {fs : List AdtsFrame} {d audio : List UInt8} (h : Waiting fs d audio) :
    d.length ≤ 8190 := by
  cases fs with
  | nil =>
      obtain ⟨rfl, -⟩ := List.append_eq_nil_iff.mp h.rest
      exact Nat.zero_le _
  | cons g gs =>
      have hshort := h.short g rfl
      have hbound := g.bound
      omega

theorem Waiting.all {fs : List AdtsFrame} {d : List UInt8} (h : Waiting fs d []) : fs = [] := by
  cases fs with
  | nil => rfl
  | cons g gs =>
      have hrest : d = g.bytes ++ audioOf gs := by
        rw [← List.append_nil d, h.rest]
        rfl
      have hshort := h.short g rfl
      have hlen := congrArg List.length hrest
      rw [List.length_append] at hlen
      omega

/-- The framer stands in the audio of the frames: some are handed over, less than one frame waits
in the accumulator, and `audio` is what it has not been given. -/
structure Framed (fs : List AdtsFrame) (f : Framer) (audio : List UInt8) : Prop where
  split : ∃ done todo, fs = done ++ todo ∧ f.decoded = done.map (·.bytes) ∧
    Waiting todo f.adts audio
  dropped : f.dropped = 0

theorem frameLoop_stop {f : Framer} {d : List UInt8}
    (h : scanAt d = .short ∨ scanAt d = .partialFrame) :
    frameLoop ensure f d = { f with adts := d } := by
  rw [frameLoop]
  rcases h with h | h
  · split <;> simp_all
  · split <;> simp_all

/-- Where the decoder starts, the loop goes on behind a frame it has handed over. -/
theorem frameLoop_frame (hstart : ∀ sr ch, ensure sr ch = true) (f : Framer) (g : AdtsFrame)
    (e : List UInt8) : ∃ sr ch, frameLoop ensure f (g.bytes ++ e) =
      frameLoop ensure
        { f with adtsSr := sr, adtsCh := ch, decoderReady := true, decoded := f.decoded ++ [g.bytes] }
        e := by
  have hscan := g.scanAt_whole e
  rw [frameLoop]
  split
  case h_1 h => simp [h] at hscan
  case h_2 h => simp [h] at hscan
  case h_3 h => simp [h] at hscan
  case h_4 sr ch len h =>
    rw [hscan] at h
    simp only [Scan.frame.injEq] at h
    obtain ⟨-, -, rfl⟩ := h
    rw [List.take_left, List.drop_left]
    split_ifs with hready hens
    · refine ⟨f.adtsSr, f.adtsCh, ?_⟩
      rw [← hready]
      rfl
    · exact ⟨sr, ch, rfl⟩
    · exact absurd (hstart sr ch) hens

/-- The loop hands over the frames that are whole and keeps the rest. -/
theorem frameLoop_frames (hstart : ∀ sr ch, ensure sr ch = true) (fs : List AdtsFrame)
    {d y : List UInt8} (h : d ++ y = audioOf fs) (f : Framer) :
    ∃ done todo, fs = done ++ todo ∧
      (frameLoop ensure f d).decoded = f.decoded ++ done.map (·.bytes) ∧
      Waiting todo (frameLoop ensure f d).adts y ∧
      (frameLoop ensure f d).dropped = f.dropped := by
  induction fs generalizing d f with
  | nil =>
      obtain ⟨rfl, rfl⟩ := List.append_eq_nil_iff.mp h
      rw [frameLoop_stop (.inl rfl)]
      exact ⟨[], [], rfl, by simp, ⟨rfl, by simp⟩, rfl⟩
  | cons g gs ih =>
      have hg : g.bytes ++ audioOf gs = d ++ y := by
        rw [h]
        rfl
      rcases Nat.lt_or_ge d.length g.bytes.length with hlt | hge
      · obtain ⟨e, he⟩ : d <+: g.bytes := List.prefix_of_prefix_length_le
          ⟨y, rfl⟩ ⟨audioOf gs, hg⟩ (Nat.le_of_lt hlt)
        rw [frameLoop_stop (g.scanAt_cut he hlt)]
        refine ⟨[], g :: gs, rfl, by simp, ⟨h, ?_⟩, rfl⟩
        rintro _ ⟨⟩
        exact hlt
      · obtain ⟨e, he⟩ : g.bytes <+: d := List.prefix_of_prefix_length_le
          ⟨audioOf gs, hg⟩ ⟨y, rfl⟩ hge
        subst he
        rw [List.append_assoc] at hg
        obtain ⟨sr, ch, hloop⟩ := frameLoop_frame hstart f g e
        obtain ⟨done, todo, hsplit, hdecoded, hwait, hdropped⟩ :=
          ih (List.append_cancel_left hg).symm
            { f with adtsSr := sr, adtsCh := ch, decoderReady := true,
                     decoded := f.decoded ++ [g.bytes] }
        rw [hloop]
        refine ⟨g :: done, todo, by rw [hsplit, List.cons_append], ?_, hwait, hdropped⟩
        rw [hdecoded]
        simp

theorem accumulate_of_fits {data : List UInt8} {f : Framer}
    (h : f.adts.length + data.length ≤ reAdtsCap) :
    accumulate data f = { f with adts := f.adts ++ data } := by
  rw [accumulate, if_neg (by omega)]

theorem feedAudio_framed (hstart : ∀ sr ch, ensure sr ch = true) {fs : List AdtsFrame} {f : Framer}
    {x y : List UInt8} (h : Framed fs f (x ++ y)) (hx : x.length ≤ reNetChunk) :
    Framed fs (feedAudio ensure x f) y := by
  obtain ⟨done, todo, hfs, hdecoded, hwait⟩ := h.split
  have hfits : f.adts.length + x.length ≤ reAdtsCap := by
    have := hwait.length_le
    simp only [reNetChunk, reAdtsCap] at hx ⊢
    omega
  unfold feedAudio
  rw [accumulate_of_fits hfits]
  have hrest : (f.adts ++ x) ++ y = audioOf todo := by rw [List.append_assoc, hwait.rest]
  obtain ⟨done', todo', htodo, hdecoded', hwait', hdropped⟩ :=
    frameLoop_frames hstart todo hrest { f with adts := f.adts ++ x }
  refine ⟨⟨done ++ done', todo', ?_, ?_, hwait'⟩, hdropped.trans h.dropped⟩
  · rw [hfs, htodo, List.append_assoc]
  · rw [hdecoded', hdecoded, List.map_append]

/-- Where no audio is left, every frame has been handed over. -/
theorem Framed.all {fs : List AdtsFrame} {f : Framer} (h : Framed fs f []) :
    f.decoded = fs.map (·.bytes) := by
  obtain ⟨done, todo, hfs, hdecoded, hwait⟩ := h.split
  rw [hdecoded, hfs, hwait.all, List.append_nil]

theorem Framed.adts_le {fs : List AdtsFrame} {f : Framer} {audio : List UInt8}
    (h : Framed fs f audio) : f.adts.length ≤ reAdtsCap := by
  obtain ⟨done, todo, -, -, hwait⟩ := h.split
  have := hwait.length_le
  simp only [reAdtsCap]
  omega

end Framer

/-! ### The stripper in the interleave -/

section Interleave

/-- Every block has its place: `r` audio bytes before the first, `m` between two, and less than the
next interval after the last. -/
def Placed (m : Nat) : Nat → List MetaBlock → List UInt8 → Prop
  | r, [], audio => audio.length < r
  | r, _ :: bs, audio => r ≤ audio.length ∧ Placed m m bs (audio.drop r)

theorem placed_of_length {m : Nat} (hm : 0 < m) {bs : List MetaBlock} {audio : List UInt8}
    (h : bs.length = audio.length / m) : Placed m m bs audio := by
  induction bs generalizing audio with
  | nil => exact (Nat.div_eq_zero_iff_lt hm).mp h.symm
  | cons b bs ih =>
      have hle : m ≤ audio.length := by
        by_contra hlt
        rw [Nat.div_eq_of_lt (by omega)] at h
        cases h
      refine ⟨hle, ih ?_⟩
      rw [Nat.div_eq_sub_div hm hle, List.length_cons] at h
      rw [List.length_drop]
      omega

/-- The stripper has `audio` and `bs` ahead of it, and they reach it as the bytes `stream`. -/
def Ahead (m : Nat) (c : Icy) (audio : List UInt8) (bs : List MetaBlock) (stream : List UInt8) :
    Prop :=
  match c.phase with
  | .audio => 0 < c.remain ∧ Placed m c.remain bs audio ∧ stream = interleaveFrom m c.remain bs audio
  | .len => ∃ b rest, bs = b :: rest ∧ Placed m m rest audio ∧
      stream = b.wire ++ interleaveFrom m m rest audio
  | .data => ∃ b rest, bs = b :: rest ∧ Placed m m rest audio ∧ b.units ≠ 0 ∧ 0 < c.metaRemain ∧
      c.metaLen + c.metaRemain = b.bytes.length ∧
      c.metaBuf.take c.metaLen = b.bytes.take c.metaLen ∧
      stream = b.bytes.drop c.metaLen ++ interleaveFrom m m rest audio

/-- A read that ends inside a run of audio bytes. -/
theorem interleaveFrom_inside {m r : Nat} {bs : List MetaBlock} {audio x y : List UInt8}
    (hp : Placed m r bs audio) (h : x ++ y = interleaveFrom m r bs audio) (hx : x.length < r) :
    x ++ audio.drop x.length = audio ∧ Placed m (r - x.length) bs (audio.drop x.length) ∧
      y = interleaveFrom m (r - x.length) bs (audio.drop x.length) := by
  cases bs with
  | nil =>
      have haudio : audio = x ++ y := h.symm
      subst haudio
      have hp : (x ++ y).length < r := hp
      rw [List.length_append] at hp
      rw [List.drop_left]
      refine ⟨rfl, ?_, rfl⟩
      show y.length < r - x.length
      omega
  | cons b bs =>
      obtain ⟨hle, hp⟩ := hp
      obtain ⟨e, he⟩ : x <+: audio.take r := List.prefix_of_prefix_length_le ⟨y, h⟩ ⟨_, rfl⟩ (by
        rw [List.length_take]
        omega)
      have haudio : x ++ (e ++ audio.drop r) = audio := by
        rw [← List.append_assoc, he, List.take_append_drop]
      have hdrop : audio.drop x.length = e ++ audio.drop r := by
        conv_lhs => rw [← haudio]
        exact List.drop_left
      have hlen := congrArg List.length he
      rw [List.length_append, List.length_take, Nat.min_eq_left hle] at hlen
      have hcut : r - x.length = e.length := by omega
      refine ⟨by rw [hdrop, haudio], ⟨?_, ?_⟩, ?_⟩
      · rw [List.length_drop]
        omega
      · rwa [List.drop_drop, Nat.add_sub_cancel' (Nat.le_of_lt hx)]
      · rw [interleaveFrom, ← he, List.append_assoc] at h
        rw [List.append_cancel_left h, interleaveFrom, hdrop, hcut, List.take_left, List.drop_left]

/-- A read that reaches the end of the run. -/
theorem interleaveFrom_end {m r : Nat} {bs : List MetaBlock} {audio x y : List UInt8}
    (hp : Placed m r bs audio) (h : x ++ y = interleaveFrom m r bs audio) (hx : r ≤ x.length) :
    ∃ b rest, bs = b :: rest ∧ x.take r ++ audio.drop r = audio ∧ Placed m m rest (audio.drop r) ∧
      x.drop r ++ y = b.wire ++ interleaveFrom m m rest (audio.drop r) := by
  cases bs with
  | nil =>
      have hlen := congrArg List.length h
      have hp : audio.length < r := hp
      rw [interleaveFrom, List.length_append] at hlen
      omega
  | cons b rest =>
      obtain ⟨hle, hp⟩ := hp
      rw [interleaveFrom] at h
      obtain ⟨e, he⟩ : audio.take r <+: x := List.prefix_of_prefix_length_le ⟨_, rfl⟩ ⟨y, h⟩ (by
        rw [List.length_take]
        omega)
      have hr : (audio.take r).length = r := by
        rw [List.length_take, Nat.min_eq_left hle]
      have htake : x.take r = audio.take r := by rw [← he, List.take_left' hr]
      refine ⟨b, rest, rfl, by rw [htake, List.take_append_drop], hp, ?_⟩
      rw [← he, List.append_assoc] at h
      rw [← he, List.drop_left' hr]
      exact List.append_cancel_left h

end Interleave

/-! ### The whole stream -/

section Demux

variable {ensure : Nat → Nat → Bool} {m : Nat} {fs : List AdtsFrame} {bs : List MetaBlock}

/-- The engine stands in the transport stream of the frames and the blocks before `stream`. -/
structure Demuxed (m : Nat) (fs : List AdtsFrame) (bs : List MetaBlock) (s : Stream)
    (stream : List UInt8) : Prop where
  interval : s.icy.metaint = m
  split : ∃ audio sent left, bs = sent ++ left ∧ s.metas = handled sent ∧ Framed fs s.framer audio ∧
    Ahead m s.icy audio left stream

theorem handled_append (bs bs' : List MetaBlock) :
    handled (bs ++ bs') = handled bs ++ handled bs' := by
  rw [handled, List.filter_append, List.map_append]
  rfl

theorem handled_empty {b : MetaBlock} (h : b.units = 0) : handled [b] = [] := by
  simp [handled, h]

theorem handled_bytes {b : MetaBlock} (h : b.units ≠ 0) : handled [b] = [b.bytes] := by
  simp [handled, h]

variable {s : Stream} {x y : List UInt8}

theorem takeAudio_demuxed (hstart : ∀ sr ch, ensure sr ch = true)
    (hphase : s.icy.phase = .audio) (h : Demuxed m fs bs s (x ++ y)) (hx : x.length ≤ reNetChunk) :
    Demuxed m fs bs (takeAudio ensure (x.take s.icy.remain) s) (x.drop s.icy.remain ++ y) := by
  obtain ⟨audio, sent, left, hbs, hmetas, hframed, hahead⟩ := h.split
  simp only [Ahead, hphase] at hahead
  obtain ⟨hpos, hplaced, hstream⟩ := hahead
  refine ⟨h.interval, ?_⟩
  rcases Nat.lt_or_ge x.length s.icy.remain with hlt | hge
  · obtain ⟨haudio, hplaced', hy⟩ := interleaveFrom_inside hplaced hstream hlt
    rw [List.take_of_length_le (Nat.le_of_lt hlt), List.drop_eq_nil_of_le (Nat.le_of_lt hlt)]
    rw [← haudio] at hframed
    refine ⟨audio.drop x.length, sent, left, hbs, hmetas, feedAudio_framed hstart hframed hx, ?_⟩
    have hleft : s.icy.remain - x.length ≠ 0 := by omega
    simp only [Ahead, takeAudio, if_neg hleft, hphase]
    exact ⟨Nat.pos_of_ne_zero hleft, hplaced', hy⟩
  · obtain ⟨b, rest, hleft, haudio, hplaced', hy⟩ := interleaveFrom_end hplaced hstream hge
    have hlen : (x.take s.icy.remain).length = s.icy.remain := by
      rw [List.length_take, Nat.min_eq_left hge]
    rw [← haudio] at hframed
    refine ⟨audio.drop s.icy.remain, sent, left, hbs, hmetas,
      feedAudio_framed hstart hframed (by omega), ?_⟩
    simp only [Ahead, takeAudio, hlen, Nat.sub_self, if_true]
    exact ⟨b, rest, hleft, hplaced', hy⟩

theorem onMetaLen_demuxed (hm : 0 < m) {b : UInt8} (hphase : s.icy.phase = .len)
    (h : Demuxed m fs bs s (b :: y)) :
    Demuxed m fs bs { s with icy := onMetaLen b s.icy } y := by
  obtain ⟨audio, sent, left, hbs, hmetas, hframed, hahead⟩ := h.split
  simp only [Ahead, hphase] at hahead
  obtain ⟨blk, rest, hleft, hplaced, hstream⟩ := hahead
  rw [MetaBlock.wire, List.cons_append, List.cons.injEq] at hstream
  obtain ⟨rfl, rfl⟩ := hstream
  have hsize := blk.size
  unfold onMetaLen
  split_ifs with hzero
  · have hunits : blk.units = 0 := UInt8.toNat_inj.mp (by simp; omega)
    have hnil : blk.bytes = [] := List.eq_nil_of_length_eq_zero (by omega)
    refine ⟨h.interval, audio, sent ++ [blk], rest, by rw [hbs, hleft]; simp, ?_, hframed, ?_⟩
    · rw [handled_append, handled_empty hunits, List.append_nil]
      exact hmetas
    · simp only [Ahead, h.interval, hnil, List.nil_append]
      exact ⟨hm, hplaced, trivial⟩
  · have hunits : blk.units ≠ 0 := by
      rintro hzero'
      rw [hzero'] at hzero
      exact hzero rfl
    refine ⟨h.interval, audio, sent, left, hbs, hmetas, hframed, ?_⟩
    simp only [Ahead]
    exact ⟨blk, rest, hleft, hplaced, hunits, by omega, by omega, by simp, by simp⟩

/-- A read against a run of known bytes: what it takes of the run, and what is left of both. -/
theorem append_cut {u v : List UInt8} (h : x ++ y = u ++ v) :
    u.take (x.take u.length).length = x.take u.length ∧
      x.drop u.length ++ y = u.drop (x.take u.length).length ++ v := by
  rcases Nat.le_total x.length u.length with hle | hle
  · obtain ⟨e, rfl⟩ : x <+: u := List.prefix_of_prefix_length_le ⟨y, h⟩ ⟨v, rfl⟩ hle
    rw [List.append_assoc] at h
    rw [List.take_of_length_le hle, List.drop_eq_nil_of_le hle, List.take_left, List.drop_left]
    exact ⟨rfl, List.append_cancel_left h⟩
  · obtain ⟨e, rfl⟩ : u <+: x := List.prefix_of_prefix_length_le ⟨v, rfl⟩ ⟨y, h⟩ hle
    rw [List.append_assoc] at h
    rw [List.take_left, List.drop_left, List.take_length, List.drop_length]
    exact ⟨rfl, List.append_cancel_left h⟩

theorem takeMeta_demuxed (hm : 0 < m) (hphase : s.icy.phase = .data)
    (h : Demuxed m fs bs s (x ++ y)) :
    Demuxed m fs bs (takeMeta (x.take s.icy.metaRemain) s) (x.drop s.icy.metaRemain ++ y) := by
  obtain ⟨audio, sent, left, hbs, hmetas, hframed, hahead⟩ := h.split
  simp only [Ahead, hphase] at hahead
  obtain ⟨blk, rest, hleft, hplaced, hunits, hpos, hlen, hbuf, hstream⟩ := hahead
  have hmax : blk.bytes.length < reMetaMax := by
    have hsize := blk.size
    have hbyte := blk.units.toNat_lt
    simp only [reMetaMax]
    omega
  have hrun : (blk.bytes.drop s.icy.metaLen).length = s.icy.metaRemain := by
    rw [List.length_drop]
    omega
  obtain ⟨hp, hrest⟩ := append_cut hstream
  rw [hrun] at hp hrest
  have hqlen : (x.take s.icy.metaRemain).length ≤ s.icy.metaRemain := List.length_take_le _ _
  generalize x.take s.icy.metaRemain = q at hp hrest hqlen ⊢
  have hfits : s.icy.metaLen + q.length < reMetaMax := by omega
  have hstore : (storeMeta q s.icy).metaBuf.take (s.icy.metaLen + q.length) =
      blk.bytes.take (s.icy.metaLen + q.length) := by
    have hroom := s.icy.bufSize
    simp only [storeMeta, if_pos hfits]
    rw [take_overlay (by omega), hbuf, List.take_add, hp]
  have hlens : (storeMeta q s.icy).metaLen = s.icy.metaLen + q.length := rfl
  have hremain : (storeMeta q s.icy).metaRemain = s.icy.metaRemain - q.length := rfl
  rw [hrest]
  simp only [takeMeta, hremain]
  split_ifs with hdone
  · -- the block is complete
    have hall : s.icy.metaLen + q.length = blk.bytes.length := by omega
    have hsmall : ¬ s.icy.metaLen + q.length ≥ reMetaMax := by omega
    refine ⟨h.interval, audio, sent ++ [blk], rest, by rw [hbs, hleft]; simp, ?_, hframed, ?_⟩
    · simp only [emitMeta, hlens, if_neg hsmall]
      rw [handled_append, handled_bytes hunits, hmetas, hstore, hall, List.take_length]
    · have hnil : (blk.bytes.drop s.icy.metaLen).drop q.length = [] := by
        rw [List.drop_drop, hall, List.drop_length]
      have hinterval : s.icy.metaint = m := h.interval
      simp only [Ahead, emitMeta, storeMeta, hinterval, hnil, List.nil_append]
      exact ⟨hm, hplaced, trivial⟩
  · refine ⟨h.interval, audio, sent, left, hbs, hmetas, hframed, ?_⟩
    have hphase' : (storeMeta q s.icy).phase = .data := hphase
    simp only [Ahead, hphase', hlens, hremain, hstore]
    exact ⟨blk, rest, hleft, hplaced, hunits, by omega, by omega, rfl, by rw [List.drop_drop]⟩

theorem consumeLoop_demuxed (hstart : ∀ sr ch, ensure sr ch = true) (hm : 0 < m)
    (h : Demuxed m fs bs s (x ++ y)) (hx : x.length ≤ reNetChunk) :
    Demuxed m fs bs (consumeLoop ensure s x) y := by
  induction s, x using consumeLoop.induct ensure with
  | case1 s =>
      rw [consumeLoop]
      exact h
  | case2 s b rest hphase ih =>
      rw [consumeLoop]
      split
      · exact ih (takeAudio_demuxed hstart hphase h hx) (by rw [List.length_drop]; omega)
      · simp_all
      · simp_all
  | case3 s b rest hphase ih =>
      rw [consumeLoop]
      split
      · simp_all
      · exact ih (onMetaLen_demuxed hm hphase h) (by rw [List.length_cons] at hx; omega)
      · simp_all
  | case4 s b rest hphase ih =>
      rw [consumeLoop]
      split
      · simp_all
      · simp_all
      · exact ih (takeMeta_demuxed hm hphase h) (by rw [List.length_drop]; omega)

/-- A station without an interval is one run of audio. -/
theorem consume_plain (hstart : ∀ sr ch, ensure sr ch = true) (hm : s.icy.metaint = 0)
    (h : Framed fs s.framer (x ++ y)) (hx : x.length ≤ reNetChunk) :
    consume ensure s x = { s with framer := feedAudio ensure x s.framer } ∧
      Framed fs (consume ensure s x).framer y := by
  have hcons : consume ensure s x = { s with framer := feedAudio ensure x s.framer } := by
    rw [consume, if_pos hm]
  rw [hcons]
  exact ⟨rfl, feedAudio_framed hstart h hx⟩

/-- Where the engine stands before `stream`, with metadata or without. -/
def Tuned (m : Nat) (fs : List AdtsFrame) (bs : List MetaBlock) (s : Stream) (stream : List UInt8) :
    Prop :=
  if m = 0 then s.icy.metaint = 0 ∧ s.metas = [] ∧ Framed fs s.framer stream
  else Demuxed m fs bs s stream

theorem consume_tuned (hstart : ∀ sr ch, ensure sr ch = true) (h : Tuned m fs bs s (x ++ y))
    (hx : x.length ≤ reNetChunk) : Tuned m fs bs (consume ensure s x) y := by
  unfold Tuned at h ⊢
  split_ifs at h ⊢ with hm
  · obtain ⟨hmetaint, hmetas, hframed⟩ := h
    obtain ⟨hcons, hframed'⟩ := consume_plain hstart hmetaint hframed hx
    rw [hcons] at hframed' ⊢
    exact ⟨hmetaint, hmetas, hframed'⟩
  · have hcons : consume ensure s x = consumeLoop ensure s x := by
      rw [consume, if_neg (by rw [h.interval]; exact hm)]
    rw [hcons]
    exact consumeLoop_demuxed hstart (Nat.pos_of_ne_zero hm) h hx

theorem Tuned.framed (h : Tuned m fs bs s x) : ∃ audio, Framed fs s.framer audio := by
  unfold Tuned at h
  split_ifs at h
  · exact ⟨x, h.2.2⟩
  · obtain ⟨audio, -, -, -, -, hframed, -⟩ := h.split
    exact ⟨audio, hframed⟩

theorem Tuned.adts_le (h : Tuned m fs bs s x) : s.framer.adts.length ≤ reAdtsCap ∧
    s.framer.dropped = 0 := by
  obtain ⟨audio, hframed⟩ := h.framed
  exact ⟨hframed.adts_le, hframed.dropped⟩

/-- The stripper with no bytes left before it has neither audio nor a block ahead. -/
theorem Ahead.nil {c : Icy} {audio : List UInt8} {left : List MetaBlock}
    (h : Ahead m c audio left []) : audio = [] ∧ left = [] := by
  unfold Ahead at h
  split at h
  · obtain ⟨-, -, hstream⟩ := h
    cases left with
    | nil => exact ⟨hstream.symm, rfl⟩
    | cons b rest => simp [interleaveFrom, MetaBlock.wire] at hstream
  · obtain ⟨b, rest, -, -, hstream⟩ := h
    simp [MetaBlock.wire] at hstream
  · obtain ⟨b, rest, -, -, -, hpos, hlen, -, hstream⟩ := h
    have hdrop := congrArg List.length (List.append_eq_nil_iff.mp hstream.symm).1
    rw [List.length_drop, List.length_nil] at hdrop
    omega

/-- Where nothing is left of the stream, everything has reached its handler. -/
theorem Tuned.all (h : Tuned m fs bs s []) : s.framer.decoded = fs.map (·.bytes) ∧
    s.metas = if m = 0 then [] else handled bs := by
  unfold Tuned at h
  split_ifs at h ⊢
  · exact ⟨h.2.2.all, h.2.1⟩
  · obtain ⟨audio, sent, left, hbs, hmetas, hframed, hahead⟩ := h.split
    obtain ⟨rfl, rfl⟩ := hahead.nil
    rw [List.append_nil] at hbs
    exact ⟨hframed.all, by rw [hmetas, hbs]⟩

/-- The reads so far, over any cut of the stream into reads. -/
theorem chunks_tuned (hstart : ∀ sr ch, ensure sr ch = true) {chunks : List (List UInt8)}
    (hchunks : ∀ c ∈ chunks, c.length ≤ reNetChunk) (h : Tuned m fs bs s (chunks.flatten ++ y)) :
    Tuned m fs bs (chunks.foldl (consume ensure) s) y := by
  induction chunks generalizing s with
  | nil => exact h
  | cons c cs ih =>
      rw [List.flatten_cons, List.append_assoc] at h
      exact ih (fun c' hc' => hchunks c' (List.mem_cons_of_mem _ hc'))
        (consume_tuned hstart h (hchunks c List.mem_cons_self))

theorem opened_tuned (s : Stream) {header : Option Nat} (hm : header.getD 0 = m)
    (hlen : 0 < m → bs.length = (audioOf fs).length / m) :
    Tuned m fs bs (opened header s) (transport m bs (audioOf fs)) := by
  have hframed : Framed fs (opened header s).framer (audioOf fs) := by
    refine ⟨⟨[], fs, rfl, rfl, rfl, ?_⟩, rfl⟩
    intro g _
    exact Nat.lt_of_lt_of_le (Nat.succ_pos 6) g.header
  unfold Tuned transport
  split_ifs with hzero
  · refine ⟨?_, rfl, hframed⟩
    cases header with
    | none => rfl
    | some n => exact hm.trans hzero
  · have hpos := Nat.pos_of_ne_zero hzero
    cases header with
    | none => exact absurd hm.symm hzero
    | some n =>
        have hn : n = m := hm
        subst hn
        refine ⟨rfl, audioOf fs, [], bs, rfl, rfl, hframed, ?_⟩
        simp only [Ahead, opened]
        exact ⟨hpos, placed_of_length hpos (hlen hpos), trivial⟩

/-- A session: the reply's `icy-metaint` header, then the reads of the worker. -/
def play (ensure : Nat → Nat → Bool) (header : Option Nat) (s : Stream)
    (chunks : List (List UInt8)) : Stream :=
  Machine.run (consume ensure) (opened header s) chunks

theorem play_tuned (hstart : ∀ sr ch, ensure sr ch = true) {header : Option Nat}
    (hm : header.getD 0 = m) (hlen : 0 < m → bs.length = (audioOf fs).length / m)
    {cs rest : List (List UInt8)} (hcs : ∀ c ∈ cs, c.length ≤ reNetChunk)
    (hcut : (cs ++ rest).flatten = transport m bs (audioOf fs)) (s : Stream) :
    Tuned m fs bs (play ensure header s cs) rest.flatten := by
  have hopened := opened_tuned s hm hlen
  rw [← hcut, List.flatten_append] at hopened
  exact chunks_tuned hstart hcs hopened

theorem play_end (hstart : ∀ sr ch, ensure sr ch = true) {header : Option Nat}
    (hm : header.getD 0 = m) (fs : List AdtsFrame) (bs : List MetaBlock)
    (hlen : 0 < m → bs.length = (audioOf fs).length / m) (chunks : List (List UInt8))
    (hchunks : ∀ c ∈ chunks, c.length ≤ reNetChunk)
    (hcut : chunks.flatten = transport m bs (audioOf fs)) (s : Stream) :
    Tuned m fs bs (play ensure header s chunks) [] := by
  have hcut' : (chunks ++ []).flatten = transport m bs (audioOf fs) := by rwa [List.append_nil]
  exact play_tuned hstart hm hlen hchunks hcut' s

end Demux

section Station

/-- A frame that is a header and nothing else. -/
def bareFrame : AdtsFrame where
  bytes := [0xFF, 0xF1, 0x50, 0x80, 0x00, 0xE0, 0x00]
  sync := by decide
  sampling := by decide
  channels := by decide
  header := by decide
  bound := by decide
  covers := by decide

/-- The block a station sends where the title has not changed. -/
def emptyBlock : MetaBlock := ⟨0, [], rfl⟩

/-- An engine before its first session. -/
def idleStream : Stream where
  icy := ⟨0, 0, .audio, 0, List.replicate reMetaMax 0, 0, List.length_replicate⟩
  framer := ⟨[], 0, 0, false, [], 0⟩
  metas := []

end Station

end UnicornSuite.Radio
