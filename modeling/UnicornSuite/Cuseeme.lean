import UnicornSuite.LibCInt
import UnicornSuite.LibRun

/-! The receive side of a CU-SeeMe session: the packet parser, the two audio decoders, and what the
worker does with one datagram (loss accounting, video counters, audio, participant discovery; the
picture itself is left out). The decoder runs that the user chose, whatever format the packet names,
and writes its samples to one static buffer. Each code of the input gives one sample, so Delta-Mod
makes four of a byte and Intel DVI two (`receive_length`). -/

namespace UnicornSuite.Cuseeme

open CInt

section Wire

def cusmHdrLen : Nat := 0x1A
def cusmVidOffLen : Nat := 0x1A
def cusmVidOffData : Nat := 0x1C
def cusmVatOffNsid : Nat := 0x1A
def cusmVatOffFlags : Nat := 0x1B
def cusmVatHdrLen : Nat := 0x08
def cusmOcOffClientinfo : Nat := 0x38

def cusmDtVideoSmall : Nat := 1
def cusmDtVideoBig : Nat := 2
def cusmDtAudio : Nat := 3
def cusmDtOpencontinue : Nat := 101
def cusmMsgVidEnd : Nat := 20
def cusmSendSmall : Nat := 1
def cusmSendBig : Nat := 2

def byteAt (p : List UInt8) (off : Nat) : Nat := (p.getD off 0).toNat

def rd16 (p : List UInt8) (off : Nat) : Nat := byteAt p off * 256 + byteAt p (off + 1)

def rd32 (p : List UInt8) (off : Nat) : UInt32 :=
  UInt32.ofNat (rd16 p off * 65536 + rd16 p (off + 2))

/-- `cusm_packet_t` of a packet that parsed; a data pointer and its length are the slice. -/
structure Packet where
  destFamily : Nat
  srcAddr : UInt32
  seq : UInt32
  message : Nat
  dataType : Nat
  plen : Nat
  vidData : List UInt8 := []
  audNsid : Nat := 0
  audFormat : Nat := 0
  audNewts : Bool := false
  audData : List UInt8 := []
  ocSendmode : Nat := 0
  ocRecvmode : Nat := 0
  ocFlags : Nat := 0

/-- The number of speakers a VAT header names, each with four bytes after it. -/
def nsid (buf : List UInt8) : Nat := byteAt buf cusmVatOffNsid % 64

/-- `cusm_parse` -/
def cusmParse (buf : List UInt8) : Option Packet :=
  let n := buf.length
  if n < cusmHdrLen then none
  else
    let pk : Packet :=
      { destFamily := rd16 buf 0x00, srcAddr := rd32 buf 0x0C, seq := rd32 buf 0x10,
        message := rd16 buf 0x14, dataType := rd16 buf 0x16, plen := rd16 buf 0x18 }
    if pk.dataType = cusmDtVideoSmall ∨ pk.dataType = cusmDtVideoBig then
      if n < cusmVidOffData then none
      else
        let vlen := rd16 buf cusmVidOffLen
        let vlen := if cusmVidOffData + vlen > n then n - cusmVidOffData else vlen
        some { pk with vidData := (buf.drop cusmVidOffData).take vlen }
    else if pk.dataType = cusmDtAudio then
      if n < cusmVatOffNsid + cusmVatHdrLen then none
      else
        let flags := byteAt buf cusmVatOffFlags
        let dataOff := cusmVatOffNsid + cusmVatHdrLen + 4 * nsid buf
        let dataOff := if dataOff > n then n else dataOff
        some { pk with
          audNsid := nsid buf
          audFormat := flags % 32
          audNewts := flags ≥ 128
          audData := buf.drop dataOff }
    else if pk.dataType = cusmDtOpencontinue ∧ n ≥ cusmOcOffClientinfo then
      some { pk with
        ocSendmode := byteAt buf 0x34
        ocRecvmode := byteAt buf 0x35
        ocFlags := byteAt buf 0x36 }
    else some pk

end Wire

section Decoders

/-- A decoder that makes one sample of each code. -/
def decodeCodes {σ : Type} (sample : σ → Nat → σ × Int) : σ → List Nat → σ × List Int
  | s, [] => (s, [])
  | s, c :: cs =>
      let (s, v) := sample s c
      let (s, vs) := decodeCodes sample s cs
      (s, v :: vs)

theorem decodeCodes_length {σ : Type} (sample : σ → Nat → σ × Int) (s : σ) (cs : List Nat) :
    (decodeCodes sample s cs).2.length = cs.length := by
  induction cs generalizing s with
  | nil => rfl
  | cons c cs ih =>
      rw [decodeCodes]
      exact congrArg Nat.succ (ih _)

def clamp16 (v : Int) : Int := if v > 32767 then 32767 else if v < -32768 then -32768 else v

/-- The four codes of a Delta-Mod byte, most significant pair first. -/
def deltamodCodes (b : UInt8) : List Nat :=
  [6, 4, 2, 0].map (fun shift => b.toNat / 2 ^ shift % 4)

def deltamodStep : List Int := [160, 494, -160, -494]

/-- The accumulator leaks by 255/256 and takes the step of the code. -/
def deltamodSample (acc : Int) (code : Nat) : Int × Int :=
  let acc := wrap32 ((acc * 255).tdiv 256 + deltamodStep.getD code 0)
  (acc, clamp16 acc)

/-- `cusm_deltamod_decode`: the accumulator and the samples written. -/
def cusmDeltamodDecode (acc : Int) (data : List UInt8) : Int × List Int :=
  decodeCodes deltamodSample acc (data.flatMap deltamodCodes)

def idviStep : List Nat :=
  [7, 8, 9, 10, 11, 12, 13, 14, 16, 17,
   19, 21, 23, 25, 28, 31, 34, 37, 41, 45,
   50, 55, 60, 66, 73, 80, 88, 97, 107, 118,
   130, 143, 157, 173, 190, 209, 230, 253, 279, 307,
   337, 371, 408, 449, 494, 544, 598, 658, 724, 796,
   876, 963, 1060, 1166, 1282, 1411, 1552, 1707, 1878, 2066,
   2272, 2499, 2749, 3024, 3327, 3660, 4026, 4428, 4871, 5358,
   5894, 6484, 7132, 7845, 8630, 9493, 10442, 11487, 12635, 13899,
   15289, 16818, 18500, 20350, 22385, 24623, 27086, 29794, 32767]

def idviIndex : List Int := [-1, -1, -1, -1, 2, 4, 6, 8, -1, -1, -1, -1, 2, 4, 6, 8]

def clampIndex (i : Int) : Int := if i < 0 then 0 else if i > 88 then 88 else i

/-- The two codes of a DVI byte, high nibble first. -/
def idviCodes (b : UInt8) : List Nat := [b.toNat / 16, b.toNat % 16]

/-- The predictor and the step index take one code. -/
def idviSample (s : Int × Int) (nib : Nat) : (Int × Int) × Int :=
  let step := idviStep.getD s.2.toNat 0
  let delta : Nat := step * (nib % 8) / 4 + step / 8
  let pred := clamp16 (if nib ≥ 8 then s.1 - delta else s.1 + delta)
  ((pred, clampIndex (s.2 + idviIndex.getD nib 0)), pred)

def signExtend16 (v : Nat) : Int := if v ≥ 32768 then (v : Int) - 65536 else v

/-- `cusm_idvi_decode`: the samples written. The four bytes of the seed header give none. -/
def cusmIdviDecode (data : List UInt8) : List Int :=
  if data.length < 4 then []
  else
    (decodeCodes idviSample (signExtend16 (rd16 data 0), clampIndex (byteAt data 2))
      ((data.drop 4).flatMap idviCodes)).2

end Decoders

section Range

def Fits16 (v : Int) : Prop := -32768 ≤ v ∧ v ≤ 32767

theorem clamp16_fits (v : Int) : Fits16 (clamp16 v) := by
  unfold clamp16 Fits16
  split_ifs <;> omega

/-- Where every sample is good whatever the state is, so are all samples of a stream. -/
theorem decodeCodes_forall {σ : Type} {sample : σ → Nat → σ × Int} {Q : Int → Prop}
    (h : ∀ s c, Q (sample s c).2) (s : σ) (cs : List Nat) : ∀ v ∈ (decodeCodes sample s cs).2, Q v := by
  induction cs generalizing s with
  | nil => nofun
  | cons c cs ih =>
      intro v hv
      rw [decodeCodes] at hv
      rcases List.mem_cons.mp hv with rfl | hv
      · exact h s c
      · exact ih _ v hv

theorem decodeCodes_state {σ : Type} (sample : σ → Nat → σ × Int) (s : σ) (cs : List Nat) :
    (decodeCodes sample s cs).1 = Machine.run (fun s c => (sample s c).1) s cs := by
  induction cs generalizing s with
  | nil => rfl
  | cons c cs ih =>
      rw [decodeCodes]
      exact ih _

/-- What holds of every entry of a table and of what stands for a missing one holds of every look-up. -/
theorem getD_forall {α : Type} {l : List α} {d : α} {P : α → Prop} (hl : ∀ v ∈ l, P v) (hd : P d) (i : Nat) :
    P (l.getD i d) := by
  rw [List.getD_eq_getElem?_getD]
  cases h : l[i]? with
  | none => exact hd
  | some v => exact hl v (List.mem_of_getElem? h)

/-! ### Delta-Mod -/

/-- The furthest the accumulator gets: there a step adds what the leak takes away. -/
def accMax : Int := 126209

/-- The code has a step, and neither what is left after the leak nor the sum leaves 32 bits. -/
def DeltamodInRange (acc : Int) (code : Nat) : Prop :=
  code < deltamodStep.length ∧ Fits32 ((acc * 255).tdiv 256) ∧
    Fits32 ((acc * 255).tdiv 256 + deltamodStep.getD code 0)

theorem deltamodStep_within (code : Nat) : Within 494 (deltamodStep.getD code 0) :=
  getD_forall (by decide : ∀ v ∈ deltamodStep, Within 494 v) (by decide) code

/-- The leak takes more than a 256th of the accumulator, so that the largest step does not lead out. -/
theorem leak_within {acc : Int} (h : Within accMax acc) : Within (accMax - 494) ((acc * 255).tdiv 256) := by
  obtain ⟨hlo, hhi⟩ := h
  simp only [accMax] at hlo hhi ⊢
  rcases le_total 0 acc with hacc | hacc
  · have hdiv : (acc * 255).tdiv 256 = acc * 255 / 256 := Int.tdiv_eq_ediv_of_nonneg (by omega)
    rw [hdiv]
    constructor <;> omega
  · have hdiv : (acc * 255).tdiv 256 = -(-(acc * 255) / 256) := by
      rw [← Int.tdiv_eq_ediv_of_nonneg (by omega), Int.neg_tdiv, neg_neg]
    rw [hdiv]
    constructor <;> omega

theorem deltamodSum_within {acc : Int} (h : Within accMax acc) (code : Nat) :
    Within accMax ((acc * 255).tdiv 256 + deltamodStep.getD code 0) :=
  (leak_within h).add (deltamodStep_within code)

theorem deltamodSample_within {acc : Int} (h : Within accMax acc) (code : Nat) :
    Within accMax (deltamodSample acc code).1 := (deltamodSum_within h code).wrap

theorem deltamodInRange {acc : Int} (h : Within accMax acc) {code : Nat} (hcode : code < 4) :
    DeltamodInRange acc code :=
  ⟨hcode, (leak_within h).fits (by decide), (deltamodSum_within h code).fits (by decide)⟩

theorem deltamodCodes_lt {data : List UInt8} {c : Nat} (hc : c ∈ data.flatMap deltamodCodes) : c < 4 := by
  obtain ⟨b, -, hb⟩ := List.mem_flatMap.mp hc
  obtain ⟨shift, -, rfl⟩ := List.mem_map.mp hb
  exact Nat.mod_lt _ (by decide)

/-- The accumulator after some packets. -/
def accAfter (packets : List (List UInt8)) : Int :=
  packets.foldl (fun acc data => (cusmDeltamodDecode acc data).1) 0

theorem accAfter_within (packets : List (List UInt8)) : Within accMax (accAfter packets) := by
  refine Machine.run_inv (fun acc data h => ?_) (by decide) packets
  rw [cusmDeltamodDecode, decodeCodes_state]
  exact Machine.run_inv (I := Within accMax) (fun acc c h => deltamodSample_within h c) h _

/-! ### Intel DVI -/

/-- The predictor and the step index of a packet's header. -/
def idviSeed (data : List UInt8) : Int × Int := (signExtend16 (rd16 data 0), clampIndex (byteAt data 2))

/-- The change of the predictor for a code. -/
def idviDelta (s : Int × Int) (nib : Nat) : Int :=
  (idviStep.getD s.2.toNat 0 * (nib % 8) / 4 + idviStep.getD s.2.toNat 0 / 8 : Nat)

/-- Predictor and index are in their ranges, both tables have an entry, and the product, the change and
the new predictor and index are 32-bit integers before they are brought back into their ranges. -/
def IdviInRange (s : Int × Int) (nib : Nat) : Prop :=
  Fits16 s.1 ∧ 0 ≤ s.2 ∧ s.2.toNat < idviStep.length ∧ nib < idviIndex.length ∧
    Fits32 (idviStep.getD s.2.toNat 0 * (nib % 8) : Nat) ∧ Fits32 (idviDelta s nib) ∧
      Fits32 (s.1 - idviDelta s nib) ∧ Fits32 (s.1 + idviDelta s nib) ∧
        Fits32 (s.2 + idviIndex.getD nib 0)

/-- What holds of the decoder's state between two codes. -/
def IdviState (s : Int × Int) : Prop := Fits16 s.1 ∧ 0 ≤ s.2 ∧ s.2 ≤ 88

theorem clampIndex_range (i : Int) : 0 ≤ clampIndex i ∧ clampIndex i ≤ 88 := by
  unfold clampIndex
  split_ifs <;> omega

theorem idviSample_state (s : Int × Int) (nib : Nat) : IdviState (idviSample s nib).1 :=
  ⟨clamp16_fits _, clampIndex_range _⟩

theorem idviSeed_state (data : List UInt8) : IdviState (idviSeed data) := by
  refine ⟨?_, clampIndex_range (byteAt data 2)⟩
  have hbytes : rd16 data 0 < 65536 := by
    have hhigh := (data.getD 0 0).toNat_lt
    have hlow := (data.getD (0 + 1) 0).toNat_lt
    rw [rd16, byteAt, byteAt]
    omega
  unfold idviSeed signExtend16 Fits16
  dsimp only
  split_ifs <;> omega

theorem idviStep_le (i : Nat) : idviStep.getD i 0 ≤ 32767 :=
  getD_forall (by decide : ∀ v ∈ idviStep, v ≤ 32767) (by decide) i

theorem idviIndex_within (nib : Nat) : Within 8 (idviIndex.getD nib 0) :=
  getD_forall (by decide : ∀ v ∈ idviIndex, Within 8 v) (by decide) nib

theorem idviInRange {s : Int × Int} (h : IdviState s) {nib : Nat} (hnib : nib < 16) : IdviInRange s nib := by
  obtain ⟨hpred, hlo, hhi⟩ := h
  have hstep := idviStep_le s.2.toNat
  have hprod : idviStep.getD s.2.toNat 0 * (nib % 8) ≤ 32767 * 7 :=
    Nat.mul_le_mul hstep (Nat.le_of_lt_succ (Nat.mod_lt nib (by decide)))
  have hdelta : 0 ≤ idviDelta s nib ∧ idviDelta s nib ≤ 65536 := by
    unfold idviDelta
    omega
  obtain ⟨hadjlo, hadjhi⟩ := idviIndex_within nib
  have hlength : idviStep.length = 89 := rfl
  unfold Fits16 at hpred
  refine ⟨hpred, hlo, by omega, hnib, ?_⟩
  simp only [Fits32, minInt32, maxInt32]
  omega

theorem idviCodes_lt {data : List UInt8} {c : Nat} (hc : c ∈ data.flatMap idviCodes) : c < 16 := by
  obtain ⟨b, -, hb⟩ := List.mem_flatMap.mp hc
  have hbyte := b.toNat_lt
  simp only [idviCodes, List.mem_cons, List.not_mem_nil, or_false] at hb
  omega

/-! ### Both decoders -/

/-- Where every code of a stream is in range from every state the invariant allows, all are. -/
theorem guarded_of_inv {σ : Type} {step : σ → Nat → σ} {R : σ → Nat → Prop} {I : σ → Prop} {n : Nat}
    (hstep : ∀ s c, I s → I (step s c)) (hrange : ∀ s c, I s → c < n → R s c) {s : σ} (h : I s)
    {cs : List Nat} (hcs : ∀ c ∈ cs, c < n) : Machine.Guarded step R s cs := by
  induction cs generalizing s with
  | nil => trivial
  | cons c cs ih =>
      exact ⟨hrange s c h (hcs c List.mem_cons_self),
        ih (hstep s c h) fun c' hc' => hcs c' (List.mem_cons_of_mem c hc')⟩

/-- For every stream of packets: the accumulator of Delta-Mod stays within `accMax`, every step of both
decoders is in range, and every sample is a 16-bit integer. -/
theorem audio_in_range (packets : List (List UInt8)) (data : List UInt8) :
    (∀ cs, cs <+: data.flatMap deltamodCodes →
      Within accMax (Machine.run (fun acc c => (deltamodSample acc c).1) (accAfter packets) cs)) ∧
    Machine.Guarded (fun acc c => (deltamodSample acc c).1) DeltamodInRange (accAfter packets)
      (data.flatMap deltamodCodes) ∧
    (∀ v ∈ (cusmDeltamodDecode (accAfter packets) data).2, Fits16 v) ∧
    Machine.Guarded (fun s c => (idviSample s c).1) IdviInRange (idviSeed data)
      ((data.drop 4).flatMap idviCodes) ∧
    ∀ v ∈ cusmIdviDecode data, Fits16 v := by
  have hacc := accAfter_within packets
  refine ⟨?_, ?_, ?_, ?_, ?_⟩
  · intro cs _
    exact Machine.run_inv (I := Within accMax) (fun acc c h => deltamodSample_within h c) hacc cs
  · exact guarded_of_inv (I := Within accMax) (fun acc c h => deltamodSample_within h c)
      (fun acc c h hc => deltamodInRange h hc) hacc fun c hc => deltamodCodes_lt hc
  · exact decodeCodes_forall (fun acc c => clamp16_fits _) _ _
  · exact guarded_of_inv (fun s c _ => idviSample_state s c) (fun s c h hc => idviInRange h hc)
      (idviSeed_state data) fun c hc => idviCodes_lt hc
  · unfold cusmIdviDecode
    split_ifs
    · nofun
    · exact decodeCodes_forall (fun s c => clamp16_fits _) _ _

end Range

section Receive

/-- The decoders of the connection strip. -/
inductive AudioCodec where
  | deltamod | idvi
  deriving DecidableEq

inductive State where
  | disconnected | connecting | handshaking | receiving | lost
  deriving DecidableEq

/-- The state of `session_run` and the totals it shares with the window. -/
structure Session where
  audioCodec : AudioCodec
  acc : Int
  state : State
  haveLastSeq : Bool
  lastSeq : UInt32
  frameLossy : Bool
  stabilized : Bool
  haveFrame : Bool
  framesTotal : UInt32
  dropsTotal : UInt32
  videoPkts : UInt32
  audioBytes : UInt32
  senderIp : UInt32

/-- The state in which `session_run` enters its loop for the first time. -/
def sessionStart (codec : AudioCodec) : Session :=
  { audioCodec := codec, acc := 0, state := .handshaking, haveLastSeq := false, lastSeq := 0,
    frameLossy := false, stabilized := false, haveFrame := false, framesTotal := 0, dropsTotal := 0,
    videoPkts := 0, audioBytes := 0, senderIp := 0 }

/-- What `recvfrom` puts in a buffer of 4096 bytes. -/
structure Datagram where
  bytes : List UInt8
  fits : bytes.length ≤ 4096

/-- The number of samples the static buffer `pcm` holds. -/
def cusmWbufSamp : Nat := 8192

/-- A jump of the sequence number marks the frame in flight as incomplete. -/
def accountLoss (s : Session) (seq : UInt32) : Session :=
  if s.haveLastSeq then
    { s with
      frameLossy := s.frameLossy || decide (seq > s.lastSeq + 1)
      lastSeq := if seq > s.lastSeq then seq else s.lastSeq }
  else { s with lastSeq := seq, haveLastSeq := true }

def onVideo (s : Session) (pk : Packet) : Session :=
  let s := { s with state := .receiving, videoPkts := s.videoPkts + 1 }
  if pk.message = cusmMsgVidEnd then
    let s := { s with haveFrame := true, framesTotal := s.framesTotal + 1 }
    let s :=
      if s.stabilized = false then { s with stabilized := true, dropsTotal := 0 }
      else if s.frameLossy then { s with dropsTotal := s.dropsTotal + 1 }
      else s
    { s with frameLossy := false }
  else s

/-- The samples the chosen decoder writes to `pcm`, with what the worker keeps. -/
def onAudio (s : Session) (pk : Packet) : Session × List Int :=
  let (acc, pcm) :=
    match s.audioCodec with
    | .deltamod => cusmDeltamodDecode s.acc pk.audData
    | .idvi => (s.acc, cusmIdviDecode pk.audData)
  let s := { s with acc := acc }
  if pcm.length > 0 then
    ({ s with
        state := .receiving
        audioBytes := s.audioBytes + UInt32.ofNat pk.audData.length }, pcm)
  else (s, pcm)

def onOpencontinue (s : Session) (pk : Packet) : Session :=
  if (pk.ocSendmode = cusmSendSmall ∨ pk.ocSendmode = cusmSendBig) ∧ pk.srcAddr ≠ 0 then
    { s with senderIp := pk.srcAddr }
  else s

/-- The receive branch of `session_run`, and the samples it writes to `pcm`. -/
def receive (s : Session) (d : Datagram) : Session × List Int :=
  match cusmParse d.bytes with
  | none => (s, [])
  | some pk =>
      let s := accountLoss s pk.seq
      if pk.dataType = cusmDtVideoSmall then (onVideo s pk, [])
      else if pk.dataType = cusmDtAudio then onAudio s pk
      else if pk.dataType = cusmDtOpencontinue then (onOpencontinue s pk, [])
      else (s, [])

end Receive

section Samples

/-- The bytes of a datagram that the parser hands to the decoder. -/
def audioLen (buf : List UInt8) : Nat :=
  if rd16 buf 0x16 = cusmDtAudio ∧ buf.length ≥ 34 then buf.length - (34 + 4 * nsid buf) else 0

/-- The number of samples a decoder makes of `n` bytes. -/
def expansion : AudioCodec → Nat → Nat
  | .deltamod, n => 4 * n
  | .idvi, n => 2 * (n - 4)

theorem flatMap_length_const {f : UInt8 → List Nat} {k : Nat} (h : ∀ b, (f b).length = k)
    (data : List UInt8) : (data.flatMap f).length = k * data.length := by
  induction data with
  | nil => rfl
  | cons b data ih =>
      rw [List.flatMap_cons, List.length_append, h, ih, List.length_cons, Nat.mul_succ]
      omega

theorem deltamod_length (acc : Int) (data : List UInt8) :
    (cusmDeltamodDecode acc data).2.length = 4 * data.length := by
  rw [cusmDeltamodDecode, decodeCodes_length,
    flatMap_length_const (f := deltamodCodes) (k := 4) (fun _ => rfl)]

theorem idvi_length (data : List UInt8) : (cusmIdviDecode data).length = 2 * (data.length - 4) := by
  unfold cusmIdviDecode
  split_ifs with hshort
  · rw [Nat.sub_eq_zero_of_le (by omega)]
    rfl
  · rw [decodeCodes_length, flatMap_length_const (f := idviCodes) (k := 2) (fun _ => rfl),
      List.length_drop]

theorem onAudio_length (s : Session) (pk : Packet) :
    (onAudio s pk).2.length = expansion s.audioCodec pk.audData.length := by
  have hpcm : (onAudio s pk).2 =
      match s.audioCodec with
      | .deltamod => (cusmDeltamodDecode s.acc pk.audData).2
      | .idvi => cusmIdviDecode pk.audData := by
    unfold onAudio
    cases s.audioCodec <;> simp only <;> split_ifs <;> rfl
  rw [hpcm]
  cases s.audioCodec with
  | deltamod => exact deltamod_length _ _
  | idvi => exact idvi_length _

theorem accountLoss_codec (s : Session) (seq : UInt32) :
    (accountLoss s seq).audioCodec = s.audioCodec := by
  unfold accountLoss
  split_ifs <;> rfl

theorem audio_not_video : ¬ (cusmDtAudio = cusmDtVideoSmall ∨ cusmDtAudio = cusmDtVideoBig) := by
  decide

/-- An audio packet keeps what follows its headers. -/
theorem cusmParse_audio {buf : List UInt8} (htype : rd16 buf 0x16 = cusmDtAudio)
    (hlen : buf.length ≥ 34) :
    ∃ pk, cusmParse buf = some pk ∧ pk.dataType = cusmDtAudio ∧
      pk.audData.length = audioLen buf := by
  have hhdr : ¬ buf.length < cusmHdrLen := by rw [cusmHdrLen]; omega
  have hvat : ¬ buf.length < cusmVatOffNsid + cusmVatHdrLen := by
    rw [cusmVatOffNsid, cusmVatHdrLen]; omega
  unfold cusmParse
  simp only [htype, audio_not_video, hhdr, hvat, ↓reduceIte]
  have haudio : audioLen buf = buf.length - (34 + 4 * nsid buf) := if_pos ⟨htype, hlen⟩
  have hoff : cusmVatOffNsid + cusmVatHdrLen = 34 := rfl
  refine ⟨_, rfl, rfl, ?_⟩
  rw [haudio, List.length_drop]
  split_ifs <;> omega

theorem cusmParse_short {buf : List UInt8} (htype : rd16 buf 0x16 = cusmDtAudio)
    (hlen : buf.length < 34) : cusmParse buf = none := by
  have hvat : buf.length < cusmVatOffNsid + cusmVatHdrLen := hlen
  unfold cusmParse
  simp only [htype, audio_not_video, hvat, ↓reduceIte, ite_self]

theorem cusmParse_dataType {buf : List UInt8} {pk : Packet} (h : cusmParse buf = some pk) :
    pk.dataType = rd16 buf 0x16 := by
  unfold cusmParse at h
  simp only at h
  split_ifs at h
  all_goals
    obtain rfl := Option.some.inj h
    rfl

/-- Each datagram makes as many samples as its audio bytes and the chosen decoder give. -/
theorem receive_length (s : Session) (d : Datagram) :
    (receive s d).2.length = expansion s.audioCodec (audioLen d.bytes) := by
  have hnone : expansion s.audioCodec 0 = 0 := by cases s.audioCodec <;> rfl
  unfold receive
  by_cases htype : rd16 d.bytes 0x16 = cusmDtAudio
  · by_cases hlen : d.bytes.length ≥ 34
    · obtain ⟨pk, hparse, hpk, hdata⟩ := cusmParse_audio htype hlen
      have hvideo : ¬ cusmDtAudio = cusmDtVideoSmall := by decide
      simp only [hparse, hpk, hvideo, ↓reduceIte]
      rw [onAudio_length, accountLoss_codec, hdata]
    · rw [cusmParse_short htype (by omega), audioLen, if_neg (by omega), hnone]
      rfl
  · rw [audioLen, if_neg (fun h => htype h.1), hnone]
    split
    · rfl
    · rename_i pk hparse
      have hpk : ¬ pk.dataType = cusmDtAudio := by rwa [cusmParse_dataType hparse]
      simp only [hpk, ↓reduceIte]
      split_ifs <;> rfl

/-- The decoder stays within its buffer exactly where it is Intel DVI, or the datagram is no audio
packet, or what follows the header and the speakers is at most a quarter of the buffer. -/
theorem samples_fit_iff (s : Session) (d : Datagram) :
    (receive s d).2.length ≤ cusmWbufSamp ↔
      (s.audioCodec = .deltamod → rd16 d.bytes 0x16 = cusmDtAudio →
        d.bytes.length ≤ 34 + 4 * nsid d.bytes + 2048) := by
  have hfits := d.fits
  rw [receive_length]
  unfold audioLen
  cases s.audioCodec with
  | idvi =>
      simp only [expansion, cusmWbufSamp]
      refine ⟨fun _ h => absurd h (by decide), fun _ => ?_⟩
      split_ifs <;> omega
  | deltamod =>
      simp only [expansion, cusmWbufSamp, true_implies]
      by_cases haudio : rd16 d.bytes 0x16 = cusmDtAudio
      · simp only [haudio, true_and, true_implies]
        split_ifs <;> omega
      · simp [haudio]

/-- An audio packet that fills the receive buffer. -/
def fullPacket : Datagram where
  bytes := List.replicate 23 0 ++ 3 :: List.replicate 4072 0
  fits := Nat.le_of_eq (by
    rw [List.length_append, List.length_cons, List.length_replicate, List.length_replicate])

/-- With Delta-Mod it makes 16248 samples, nearly twice what the buffer holds. -/
theorem fullPacket_overruns :
    cusmWbufSamp < (receive (sessionStart .deltamod) fullPacket).2.length := by
  have haudio : audioLen fullPacket.bytes = 4062 := by decide +kernel
  rw [receive_length, haudio]
  decide

end Samples

end UnicornSuite.Cuseeme
