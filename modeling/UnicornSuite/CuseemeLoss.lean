import UnicornSuite.Cuseeme
import UnicornSuite.LibRun

/-! The drops that `session_run` counts, against the packets that were really lost. The reflector numbers
its packets in order; what arrives is any list of them. The code takes each jump of the number for a loss.
In hindsight a loss shows when a packet arrives and one between it and the highest before it never does. -/

namespace UnicornSuite.Cuseeme

open Machine

/-! ### The packets -/

/-- The packets that the reflector sends, in order. -/
structure Stream where
  start : UInt32
  packet : Nat → Datagram
  parsed : ∀ k, ∃ pk, cusmParse (packet k).bytes = some pk ∧ pk.seq = start + UInt32.ofNat k

def endsFrame (pk : Packet) : Bool := pk.dataType = cusmDtVideoSmall ∧ pk.message = cusmMsgVidEnd

/-- The packet is the last of a frame. -/
def Stream.ends (st : Stream) (k : Nat) : Bool :=
  match cusmParse (st.packet k).bytes with
  | some pk => endsFrame pk
  | none => false

/-- The arrival of a packet. -/
def Stream.arrive (st : Stream) (s : Session) (k : Nat) : Session := (receive s (st.packet k)).1

/-- The session after the packets of a list have arrived. -/
def Stream.session (st : Stream) (codec : AudioCodec) (d : List Nat) : Session :=
  run st.arrive (sessionStart codec) d

/-! ### Hindsight -/

/-- The highest packet so far, whether a loss showed in the frame in flight, and whether one did in each
frame that was completed. -/
structure Hindsight where
  high : Option Nat
  lossy : Bool
  frames : List Bool

/-- One of the packets that `k` jumps over never arrives. -/
def overtakesLost (d : List Nat) (high : Option Nat) (k : Nat) : Bool :=
  match high with
  | none => false
  | some h => (List.range k).any fun m => h < m ∧ m ∉ d

def Hindsight.step (st : Stream) (d : List Nat) (t : Hindsight) (k : Nat) : Hindsight :=
  let high := some (max (t.high.getD k) k)
  let lossy := t.lossy || overtakesLost d t.high k
  if st.ends k then ⟨high, false, t.frames ++ [lossy]⟩ else ⟨high, lossy, t.frames⟩

def Hindsight.start : Hindsight := ⟨none, false, []⟩

/-- What is known in the end, when all of `d` has arrived, of the time when `d'` had. -/
def hindsight (st : Stream) (d d' : List Nat) : Hindsight := run (Hindsight.step st d) .start d'

/-- The frames that lost packets; the first is for settling. -/
def Hindsight.drops (t : Hindsight) : UInt32 := UInt32.ofNat (t.frames.tail.count true)

/-- Every packet between two that arrive arrives as well. -/
def LosesNone (d : List Nat) : Prop := ∀ i ∈ d, ∀ j ∈ d, ∀ m, i < m → m < j → m ∈ d

/-- The numbers have not come to their end, and a packet that jumps over others overtakes a lost one. -/
def Orderly (st : Stream) (d : List Nat) (t : Hindsight) (k : Nat) : Prop :=
  ∀ h ∈ t.high,
    (st.start.toNat + h + 1) % 2 ^ 32 ≠ 0 ∧
      (st.start.toNat + k) / 2 ^ 32 = (st.start.toNat + h) / 2 ^ 32 ∧
      (h + 1 < k → overtakesLost d t.high k = true)

instance (st : Stream) (d : List Nat) (t : Hindsight) (k : Nat) : Decidable (Orderly st d t k) :=
  inferInstanceAs (Decidable (∀ h ∈ t.high, _))

/-! ### The part of the session that counts -/

structure Account where
  haveLastSeq : Bool
  lastSeq : UInt32
  frameLossy : Bool
  stabilized : Bool
  dropsTotal : UInt32

def Session.account (s : Session) : Account :=
  ⟨s.haveLastSeq, s.lastSeq, s.frameLossy, s.stabilized, s.dropsTotal⟩

def Account.arrive (a : Account) (seq : UInt32) : Account :=
  if a.haveLastSeq then
    { a with
      frameLossy := a.frameLossy || decide (seq > a.lastSeq + 1)
      lastSeq := if seq > a.lastSeq then seq else a.lastSeq }
  else { a with lastSeq := seq, haveLastSeq := true }

/-- The end of a frame. -/
def Account.close (a : Account) : Account :=
  { a with
    stabilized := true
    dropsTotal := if a.stabilized then if a.frameLossy then a.dropsTotal + 1 else a.dropsTotal else 0
    frameLossy := false }

section Account

variable (s : Session) (pk : Packet)

theorem accountLoss_account (seq : UInt32) : (accountLoss s seq).account = s.account.arrive seq := by
  by_cases h : s.haveLastSeq = true
  · simp [accountLoss, Account.arrive, Session.account, h]
  · simp [accountLoss, Account.arrive, Session.account, h]

theorem onVideo_account :
    (onVideo s pk).account = if pk.message = cusmMsgVidEnd then s.account.close else s.account := by
  unfold onVideo
  by_cases hend : pk.message = cusmMsgVidEnd
  · by_cases hstab : s.stabilized = true
    · by_cases hlossy : s.frameLossy = true
      · simp [Session.account, Account.close, hend, hstab, hlossy]
      · simp [Session.account, Account.close, hend, hstab, hlossy]
    · simp [Session.account, Account.close, hend, hstab]
  · simp [Session.account, hend]

theorem onAudio_account : (onAudio s pk).1.account = s.account := by
  simp only [onAudio]
  split
  · split
    · rfl
    · rfl
  · split
    · rfl
    · rfl

theorem onOpencontinue_account : (onOpencontinue s pk).account = s.account := by
  unfold onOpencontinue
  split
  · rfl
  · rfl

/-- Every packet counts for the number, and the last of a frame for the frame. -/
theorem receive_account {d : Datagram} (hparse : cusmParse d.bytes = some pk) :
    (receive s d).1.account =
      if endsFrame pk then (s.account.arrive pk.seq).close else s.account.arrive pk.seq := by
  unfold receive endsFrame
  simp only [hparse]
  by_cases hvideo : pk.dataType = cusmDtVideoSmall
  · simp only [hvideo, ↓reduceIte, onVideo_account, accountLoss_account, true_and, decide_eq_true_eq]
  · simp only [hvideo, ↓reduceIte, false_and, decide_false, Bool.false_eq_true]
    split
    · rw [onAudio_account, accountLoss_account]
    · split
      · rw [onOpencontinue_account, accountLoss_account]
      · rw [accountLoss_account]

end Account

/-! ### Numbers -/

section Numbers

variable (st : Stream) {h k : Nat}

theorem seq_toNat (k : Nat) :
    (st.start + UInt32.ofNat k).toNat = (st.start.toNat + k) % 2 ^ 32 := by
  rw [UInt32.toNat_add, UInt32.toNat_ofNat', Nat.add_mod_mod]

variable (hlast : (st.start.toNat + h + 1) % 2 ^ 32 ≠ 0)
  (hround : (st.start.toNat + k) / 2 ^ 32 = (st.start.toNat + h) / 2 ^ 32)
include hlast hround

/-- As long as the numbers do not come to their end the code compares the packets. -/
theorem jump_iff :
    st.start + UInt32.ofNat k > st.start + UInt32.ofNat h + 1 ↔ h + 1 < k := by
  rw [gt_iff_lt, UInt32.lt_iff_toNat_lt, UInt32.toNat_add, seq_toNat, seq_toNat]
  have hone : (1 : UInt32).toNat = 1 := rfl
  rw [hone]
  omega

omit hlast in
theorem later_iff : st.start + UInt32.ofNat k > st.start + UInt32.ofNat h ↔ h < k := by
  rw [gt_iff_lt, UInt32.lt_iff_toNat_lt, seq_toNat, seq_toNat]
  omega

end Numbers

/-! ### Runs -/

/-- The session counts what is known in hindsight. -/
structure Agrees (st : Stream) (t : Hindsight) (a : Account) : Prop where
  first : t.high = none → a.haveLastSeq = false
  last : ∀ h ∈ t.high, a.haveLastSeq = true ∧ a.lastSeq = st.start + UInt32.ofNat h
  lossy : a.frameLossy = t.lossy
  settled : a.stabilized = !t.frames.isEmpty
  drops : a.dropsTotal = t.drops

section Runs

variable {st : Stream} {d : List Nat} {t : Hindsight} {a : Account} {k : Nat}

theorem overtakesLost_iff {h : Nat} :
    overtakesLost d (some h) k = true ↔ ∃ m, h < m ∧ m < k ∧ m ∉ d := by
  simp only [overtakesLost, List.any_eq_true, List.mem_range, decide_eq_true_eq]
  constructor
  · rintro ⟨m, hk, hm, hd⟩
    exact ⟨m, hm, hk, hd⟩
  · rintro ⟨m, hm, hk, hd⟩
    exact ⟨m, hk, hm, hd⟩

/-- In order, a jump is a loss. -/
theorem overtakesLost_eq_jump {h : Nat} (hloss : h + 1 < k → overtakesLost d (some h) k = true) :
    overtakesLost d (some h) k = decide (h + 1 < k) := by
  by_cases hjump : h + 1 < k
  · rw [hloss hjump, decide_eq_true hjump]
  · rw [decide_eq_false hjump, Bool.eq_false_iff]
    intro htrue
    obtain ⟨m, hm, hk, -⟩ := overtakesLost_iff.mp htrue
    omega

/-- What an arrival does to the number and the mark of the frame in flight. -/
def Hindsight.pass (d : List Nat) (t : Hindsight) (k : Nat) : Hindsight :=
  ⟨some (max (t.high.getD k) k), t.lossy || overtakesLost d t.high k, t.frames⟩

def Hindsight.complete (t : Hindsight) : Hindsight := ⟨t.high, false, t.frames ++ [t.lossy]⟩

theorem step_eq : t.step st d k = if st.ends k then (t.pass d k).complete else t.pass d k := rfl

theorem Agrees.pass (hagrees : Agrees st t a) (horder : Orderly st d t k) :
    Agrees st (t.pass d k) (a.arrive (st.start + UInt32.ofNat k)) := by
  cases hhigh : t.high with
  | none =>
      have hfirst := hagrees.first hhigh
      refine ⟨nofun, ?_, ?_, ?_, ?_⟩
      · intro h hh
        obtain rfl : max k k = h := by simpa [Hindsight.pass, hhigh] using hh
        simp [Account.arrive, hfirst]
      · simpa [Account.arrive, hfirst, Hindsight.pass, hhigh, overtakesLost] using hagrees.lossy
      · simpa [Account.arrive, hfirst, Hindsight.pass] using hagrees.settled
      · simpa [Account.arrive, hfirst, Hindsight.pass, Hindsight.drops] using hagrees.drops
  | some h =>
      obtain ⟨hhave, hlast⟩ := hagrees.last h hhigh
      obtain ⟨hend, hround, hloss⟩ := horder h hhigh
      rw [hhigh] at hloss
      have hjump := jump_iff st hend hround
      have hlater := later_iff st hround
      have hovertakes := overtakesLost_eq_jump hloss
      refine ⟨nofun, ?_, ?_, ?_, ?_⟩
      · intro h' hh'
        obtain rfl : max h k = h' := by simpa [Hindsight.pass, hhigh] using hh'
        refine ⟨by simp [Account.arrive, hhave], ?_⟩
        simp only [Account.arrive, hhave, ↓reduceIte, hlast, hlater]
        split
        · rw [Nat.max_eq_right (by omega)]
        · rw [Nat.max_eq_left (by omega)]
      · simp only [Account.arrive, hhave, ↓reduceIte, hlast, hjump, Hindsight.pass, hhigh, hovertakes,
          hagrees.lossy]
      · simpa [Account.arrive, hhave, Hindsight.pass] using hagrees.settled
      · simpa [Account.arrive, hhave, Hindsight.pass, Hindsight.drops] using hagrees.drops

theorem Agrees.complete (hagrees : Agrees st t a) : Agrees st t.complete a.close where
  first := hagrees.first
  last := hagrees.last
  lossy := rfl
  settled := by simp [Account.close, Hindsight.complete]
  drops := by
    have hsettled := hagrees.settled
    have hdrops := hagrees.drops
    simp only [Account.close, Hindsight.drops, Hindsight.complete, hagrees.lossy]
    cases hframes : t.frames with
    | nil =>
        rw [hframes] at hsettled
        simp [hsettled]
    | cons f fs =>
        rw [Hindsight.drops, hframes] at hdrops
        rw [hframes] at hsettled
        cases t.lossy with
        | false => simpa [hsettled] using hdrops
        | true => simp [hsettled, hdrops, UInt32.ofNat_add]

/-- One arrival, in order. -/
theorem Agrees.step {s : Session} (hagrees : Agrees st t s.account) (horder : Orderly st d t k) :
    Agrees st (t.step st d k) (st.arrive s k).account := by
  obtain ⟨pk, hparse, hseq⟩ := st.parsed k
  have hends : st.ends k = endsFrame pk := by rw [Stream.ends, hparse]
  have hpass := hagrees.pass horder
  rw [step_eq, Stream.arrive, receive_account s pk hparse, hseq, hends]
  split
  · exact hpass.complete
  · exact hpass

theorem agrees_start (codec : AudioCodec) : Agrees st .start (sessionStart codec).account where
  first := fun _ => rfl
  last := nofun
  lossy := rfl
  settled := rfl
  drops := rfl

/-- Where nothing is lost no loss shows. -/
theorem hindsight_losesNone (hnone : LosesNone d) {d' : List Nat} (hd' : ∀ k ∈ d', k ∈ d) :
    (hindsight st d d').drops = 0 := by
  have hinv : (∀ h ∈ (hindsight st d d').high, h ∈ d) ∧ (hindsight st d d').lossy = false ∧
      ∀ f ∈ (hindsight st d d').frames, f = false := by
    refine run_inv_of_forall (K := (· ∈ d)) (I := fun t : Hindsight =>
      (∀ h ∈ t.high, h ∈ d) ∧ t.lossy = false ∧ ∀ f ∈ t.frames, f = false) ?_ ?_ hd'
    · rintro t k hk ⟨hhigh, hlossy, hframes⟩
      have hovertakes : overtakesLost d t.high k = false := by
        cases hcase : t.high with
        | none => rfl
        | some h =>
            rw [Bool.eq_false_iff]
            intro htrue
            obtain ⟨m, hm, hmk, hmem⟩ := overtakesLost_iff.mp htrue
            exact hmem (hnone h (hhigh h hcase) k hk m hm hmk)
      have hpass : (t.pass d k).lossy = false := by
        rw [Hindsight.pass, hovertakes, hlossy]
        rfl
      have hmax : ∀ h ∈ (t.pass d k).high, h ∈ d := by
        intro h hh
        obtain rfl : max (t.high.getD k) k = h := Option.some.inj hh
        cases hcase : t.high with
        | none => simpa using hk
        | some h =>
            rcases max_choice h k with hmax | hmax
            · rw [Option.getD_some, hmax]
              exact hhigh h hcase
            · rw [Option.getD_some, hmax]
              exact hk
      rw [step_eq]
      split
      · refine ⟨hmax, rfl, fun f hf => ?_⟩
        rcases List.mem_append.mp hf with hf | hf
        · exact hframes f hf
        · rw [List.mem_singleton.mp hf, hpass]
      · exact ⟨hmax, hpass, hframes⟩
    · exact ⟨nofun, rfl, fun f hf => absurd hf List.not_mem_nil⟩
  have hcount : (hindsight st d d').frames.tail.count true = 0 := by
    rw [List.count_eq_zero]
    intro hmem
    cases hinv.2.2 true (List.mem_of_mem_tail hmem)
  rw [Hindsight.drops, hcount]
  rfl

/-- In a session whose packets arrive in order, but for those that overtake lost ones, the code has counted
at each time the frames in which a loss showed; none where nothing is lost. -/
theorem drops_of_orderly (st : Stream) (codec : AudioCodec) (d : List Nat)
    (horder : Guarded (Hindsight.step st d) (Orderly st d) .start d) :
    ∀ d', d' <+: d →
      (st.session codec d').dropsTotal = (hindsight st d d').drops ∧
        (LosesNone d → (st.session codec d').dropsTotal = 0) := by
  intro d' hprefix
  have hagrees : Agrees st (hindsight st d d') (st.session codec d').account := by
    obtain ⟨rest, hrest⟩ := hprefix
    rw [← hrest] at horder
    have hguarded := (guarded_append.mp horder).1
    rw [hrest] at hguarded
    have hstep : ∀ t (s : Session) k, Agrees st t s.account → Orderly st d t k →
        Agrees st (t.step st d k) (st.arrive s k).account := fun t s k h hk => h.step hk
    exact run_rel_of_guarded hstep (agrees_start codec) hguarded
  have hdrops : (st.session codec d').dropsTotal = (hindsight st d d').drops := hagrees.drops
  refine ⟨hdrops, fun hnone => ?_⟩
  rw [hdrops]
  exact hindsight_losesNone hnone fun k hk => hprefix.subset hk

end Runs

/-! ### Two sessions -/

/-- A video packet that ends its frame, with nothing in it. -/
def endPacket (seq : UInt32) : Datagram where
  bytes := [0, 0, 0, 0, 0, 0, 0, 0, 0, 0, 0, 0, 0, 0, 0, 0, UInt8.ofNat (seq.toNat / 2 ^ 24),
    UInt8.ofNat (seq.toNat / 2 ^ 16), UInt8.ofNat (seq.toNat / 2 ^ 8), UInt8.ofNat seq.toNat,
    0, 20, 0, 1, 0, 0, 0, 0]
  fits := by simp only [List.length_cons, List.length_nil]; omega

theorem rd32_endPacket (seq : UInt32) : rd32 (endPacket seq).bytes 0x10 = seq := by
  have hlt := seq.toNat_lt
  apply UInt32.toNat_inj.mp
  simp only [rd32, rd16, byteAt, endPacket, List.getD_cons_succ, List.getD_cons_zero,
    UInt8.toNat_ofNat', UInt32.toNat_ofNat']
  omega

theorem endPacket_parsed (seq : UInt32) :
    ∃ pk, cusmParse (endPacket seq).bytes = some pk ∧ pk.seq = seq := by
  have hhdr : ¬ (endPacket seq).bytes.length < cusmHdrLen := by simp [endPacket, cusmHdrLen]
  have hdata : ¬ (endPacket seq).bytes.length < cusmVidOffData := by simp [endPacket, cusmVidOffData]
  have htype : rd16 (endPacket seq).bytes 0x16 = cusmDtVideoSmall := by
    simp [rd16, byteAt, endPacket, cusmDtVideoSmall]
  unfold cusmParse
  simp only [hhdr, hdata, htype, ↓reduceIte, true_or]
  exact ⟨_, rfl, rd32_endPacket seq⟩

/-- A stream of frames of one packet each. -/
def frameStream (start : UInt32) : Stream where
  start := start
  packet k := endPacket (start + UInt32.ofNat k)
  parsed k := endPacket_parsed (start + UInt32.ofNat k)

/-- Nothing is lost. In order, the numbers start again at 0 and every frame from then on counts as dropped;
and a packet that overtakes another is taken for a loss. -/
theorem drops_without_loss :
    (LosesNone [0, 1, 2, 3] ∧
        ¬ ((frameStream 0xFFFFFFFE).session .idvi [0, 1, 2, 3]).dropsTotal = 0) ∧
      LosesNone [0, 2, 1] ∧ ¬ ((frameStream 0).session .idvi [0, 2, 1]).dropsTotal = 0 := by
  refine ⟨⟨?_, by decide⟩, ?_, by decide⟩
  · intro i hi j hj m him hmj
    simp only [List.mem_cons, List.not_mem_nil, or_false] at hi hj ⊢
    omega
  · intro i hi j hj m him hmj
    simp only [List.mem_cons, List.not_mem_nil, or_false] at hi hj ⊢
    omega

/-- A packet is lost, another comes late, and one comes twice. -/
theorem drops_lossy :
    ((frameStream 7).session .idvi [0, 1, 1, 4, 2, 5]).dropsTotal =
        (hindsight (frameStream 7) [0, 1, 1, 4, 2, 5] [0, 1, 1, 4, 2, 5]).drops ∧
      (LosesNone [0, 1, 1, 4, 2, 5] →
        ((frameStream 7).session .idvi [0, 1, 1, 4, 2, 5]).dropsTotal = 0) :=
  drops_of_orderly (frameStream 7) .idvi [0, 1, 1, 4, 2, 5] (by decide)
    [0, 1, 1, 4, 2, 5] List.prefix_rfl

end UnicornSuite.Cuseeme
