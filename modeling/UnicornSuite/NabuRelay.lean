import UnicornSuite.NabuBridge

/-! The bridge keeps the exchange and the relay apart in every orderly run. While the exchange goes on
the socket holds what is unread of the answer and behind it what is for the relay (`Asking`); behind
it there is nothing of the answer left (`Relaying`). -/

namespace UnicornSuite.Nabu

def asAnswer (x : UInt8) : ServerByte := ⟨x, true⟩

def asRelay (x : UInt8) : ServerByte := ⟨x, false⟩

section Tags

theorem outside_append (bs cs : List ServerByte) : outside (bs ++ cs) = outside bs ++ outside cs :=
  List.filter_append _ _

theorem outside_asAnswer (l : List UInt8) : outside (l.map asAnswer) = [] := by
  refine List.filter_eq_nil_iff.mpr ?_
  intro b hb
  obtain ⟨x, -, rfl⟩ := List.mem_map.mp hb
  simp [asAnswer]

theorem outside_asRelay (r : List UInt8) : outside (r.map asRelay) = r.map asRelay := by
  refine List.filter_eq_self.mpr ?_
  intro b hb
  obtain ⟨x, -, rfl⟩ := List.mem_map.mp hb
  rfl

theorem outside_of_relay {bs : List ServerByte} (h : ∀ b ∈ bs, b.answer = false) :
    outside bs = bs := by
  refine List.filter_eq_self.mpr ?_
  intro b hb
  rw [h b hb]
  rfl

theorem answers_tagged (l r : List UInt8) : answers (l.map asAnswer ++ r.map asRelay) = l := by
  have hanswer : (l.map asAnswer).filter (·.answer) = l.map asAnswer := by
    refine List.filter_eq_self.mpr ?_
    intro b hb
    obtain ⟨x, -, rfl⟩ := List.mem_map.mp hb
    rfl
  have hrelay : (r.map asRelay).filter (·.answer) = [] := by
    refine List.filter_eq_nil_iff.mpr ?_
    intro b hb
    obtain ⟨x, -, rfl⟩ := List.mem_map.mp hb
    simp [asRelay]
  rw [answers, List.filter_append, hanswer, hrelay, List.append_nil, List.map_map]
  exact List.map_id l

theorem eq_asAnswer {b : ServerByte} (h : b.answer = true) : b = asAnswer b.byte := by
  rw [asAnswer, ← h]

theorem eq_asRelay {b : ServerByte} (h : b.answer = false) : b = asRelay b.byte := by
  rw [asRelay, ← h]

end Tags

/-! ### Towards the server -/

namespace Bridge

variable {s s' : Bridge} (t : Turn)

/-- A step away from the send loop leaves that direction as it is. -/
theorem Upstream.frame (h : s.Upstream) (hto : s'.toServer = s.toServer)
    (hread : s'.cableRead = s.cableRead)
    (hphase : s'.phase = .closed ∨ s.phase ≠ .closed ∧ s'.phase.toSend = s.phase.toSend) :
    s'.Upstream := by
  refine ⟨by rw [hto, hread]; exact h.ordered, ?_⟩
  intro hopen
  rcases hphase with hclosed | ⟨hopen', hsend⟩
  · exact absurd hclosed hopen
  · rw [hto, hread, hsend]
    exact h.whole hopen'

theorem Upstream.goto (h : s.Upstream) {p : Phase}
    (hp : p = .closed ∨ s.phase ≠ .closed ∧ p.toSend = s.phase.toSend) : (s.goto p).Upstream :=
  h.frame rfl rfl hp

theorem Upstream.chWrite (h : s.Upstream) (b : UInt8) {next : Phase} (hopen : s.phase ≠ .closed)
    (hsend : s.phase.toSend = []) (hnext : next.toSend = []) : (s.chWrite t b next).Upstream := by
  unfold Bridge.chWrite
  split_ifs
  · exact h.frame rfl rfl (.inr ⟨hopen, hnext.trans hsend.symm⟩)
  · exact h.goto (.inr ⟨hopen, hsend.symm⟩)

theorem Upstream.chRead (h : s.Upstream) (want : UInt8) {next : Phase} (hopen : s.phase ≠ .closed)
    (hsend : s.phase.toSend = []) (hnext : next.toSend = []) : (s.chRead t want next).Upstream := by
  unfold Bridge.chRead
  split
  · exact h.goto (.inr ⟨hopen, hsend.symm⟩)
  · split
    · simp only
      split_ifs
      · exact h.frame rfl rfl (.inr ⟨hopen, hnext.trans hsend.symm⟩)
      · exact h.frame rfl rfl (.inr ⟨hopen, hsend.symm⟩)
    · split_ifs
      · exact h.goto (.inr ⟨hopen, hsend.symm⟩)
      · exact h

theorem Upstream.readCable (h : s.Upstream) (hphase : s.phase = .cable) :
    (s.readCable t).Upstream := by
  have hopen : s.phase ≠ .closed := by rw [hphase]; nofun
  have hsend : s.phase.toSend = [] := by rw [hphase]; rfl
  have hwhole := h.whole hopen
  rw [hsend, List.append_nil] at hwhole
  unfold Bridge.readCable
  split
  · exact h.goto (.inl rfl)
  · split
    · exact h.goto (.inl rfl)
    · simp only
      split_ifs
      · exact h.goto (.inr ⟨hopen, hsend.symm⟩)
      · exact ⟨h.ordered.trans (List.prefix_append _ _), fun _ => by rw [← hwhole]; rfl⟩

theorem Upstream.sendRest (h : s.Upstream) {rest : List UInt8} {got : Nat}
    (hphase : s.phase = .sending rest got) : (s.sendRest t rest got).Upstream := by
  have hopen : s.phase ≠ .closed := by rw [hphase]; nofun
  have hwhole := h.whole hopen
  rw [hphase, Phase.toSend] at hwhole
  unfold Bridge.sendRest
  split
  · exact h.goto (.inl rfl)
  · exact h
  · rename_i n _
    have hsplit : s.toServer ++ rest.take n ++ rest.drop n = s.cableRead := by
      rw [List.append_assoc, List.take_append_drop, hwhole]
    simp only
    split_ifs with hrest
    · rw [hrest] at hsplit
      exact ⟨⟨[], hsplit⟩, fun _ => hsplit⟩
    · exact ⟨⟨_, hsplit⟩, fun _ => hsplit⟩

theorem Upstream.readSocket (h : s.Upstream) (hphase : s.phase = .socket) :
    (s.readSocket t).Upstream := by
  have hopen : s.phase ≠ .closed := by rw [hphase]; nofun
  unfold Bridge.readSocket
  split_ifs
  · exact h.goto (.inl rfl)
  · exact h.goto (.inl rfl)
  · exact h.goto (.inr ⟨hopen, by rw [hphase]; rfl⟩)
  · exact h.frame rfl rfl (.inr ⟨hopen, by rw [hphase]; rfl⟩)

theorem Upstream.writeRest (h : s.Upstream) {rest : List ServerByte} {got : Nat}
    (hphase : s.phase = .writing rest got) : (s.writeRest t rest got).Upstream := by
  have hopen : s.phase ≠ .closed := by rw [hphase]; nofun
  unfold Bridge.writeRest
  split
  · exact h.goto (.inl rfl)
  · simp only
    split_ifs
    · exact h.goto (.inl rfl)
    · exact h.frame rfl rfl (.inr ⟨hopen, by rw [hphase]; rfl⟩)
    · exact h.frame rfl rfl (.inr ⟨hopen, by rw [hphase]; rfl⟩)

theorem Upstream.act (h : s.Upstream) : (s.act t).Upstream := by
  cases hphase : s.phase with
  | ask => simp only [Bridge.act, hphase]; exact h.chWrite t _ (by simp [hphase]) (by rw [hphase]; rfl) rfl
  | ack => simp only [Bridge.act, hphase]; exact h.chRead t _ (by simp [hphase]) (by rw [hphase]; rfl) rfl
  | good => simp only [Bridge.act, hphase]; exact h.chRead t _ (by simp [hphase]) (by rw [hphase]; rfl) rfl
  | low => simp only [Bridge.act, hphase]; exact h.chWrite t _ (by simp [hphase]) (by rw [hphase]; rfl) rfl
  | high => simp only [Bridge.act, hphase]; exact h.chWrite t _ (by simp [hphase]) (by rw [hphase]; rfl) rfl
  | confirm =>
      simp only [Bridge.act, hphase]
      exact h.chRead t _ (by simp [hphase]) (by rw [hphase]; rfl) rfl
  | cable => simp only [Bridge.act, hphase]; exact h.readCable t hphase
  | sending rest got => simp only [Bridge.act, hphase]; exact h.sendRest t hphase
  | socket => simp only [Bridge.act, hphase]; exact h.readSocket t hphase
  | writing rest got => simp only [Bridge.act, hphase]; exact h.writeRest t hphase
  | closed => simp only [Bridge.act, hphase]; exact h

theorem Upstream.step (h : s.Upstream) (e : Event) : (s.step e).Upstream := by
  cases e with
  | arrive b => exact ⟨h.ordered, h.whole⟩
  | hangUp => exact ⟨h.ordered, h.whole⟩
  | turn t => exact h.act t

/-! ### Towards the cable -/

/-- An answer that ended where the exchange stops listening. -/
def Answer (l : List UInt8) : Prop :=
  l = [] ∨ (∃ x, l = [x]) ∨ (∃ x, l = [msgEscape, x]) ∨ ∃ x, l = [msgEscape, statusGood, x]

theorem Answer.concat {l : List UInt8} (h : awaits l = true) (x : UInt8) : Answer (l ++ [x]) := by
  simp only [awaits, Bool.decide_or, Bool.or_eq_true, decide_eq_true_eq] at h
  rcases h with rfl | rfl | rfl
  · exact .inr (.inl ⟨x, rfl⟩)
  · exact .inr (.inr (.inl ⟨x, rfl⟩))
  · exact .inr (.inr (.inr ⟨x, rfl⟩))

/-- Behind a byte that is not the one waited for there is nothing more. -/
theorem Answer.stops {l r : List UInt8} {k : Nat} {x : UInt8} (h : Answer (l ++ x :: r))
    (hl : l = [msgEscape, statusGood].take k) (hx : k = 0 ∧ x ≠ msgEscape ∨ k = 1 ∧ x ≠ statusGood ∨
      k = 2) : r = [] := by
  rcases hx with ⟨rfl, hx⟩ | ⟨rfl, hx⟩ | rfl
  · subst hl
    rcases h with h | ⟨y, h⟩ | ⟨y, h⟩ | ⟨y, h⟩ <;> simp_all
  · subst hl
    rcases h with h | ⟨y, h⟩ | ⟨y, h⟩ | ⟨y, h⟩ <;> simp_all
  · subst hl
    rcases h with h | ⟨y, h⟩ | ⟨y, h⟩ | ⟨y, h⟩ <;> simp_all

/-- The exchange has read `k` bytes: the start of its own answer. In the socket are the bytes of the
answer `l` that are left and behind them bytes for the relay. -/
structure Asking (s : Bridge) (k : Nat) (l r : List UInt8) : Prop where
  sent : s.sent = ([msgEscape, statusGood].take k ++ l).map asAnswer ++ r.map asRelay
  queue : s.queue = l.map asAnswer ++ r.map asRelay
  answer : Answer ([msgEscape, statusGood].take k ++ l)
  apart : r ≠ [] → awaits ([msgEscape, statusGood].take k ++ l) = false
  silent : s.onCable = []

/-- The exchange is over and nothing of the answer is left in the socket. -/
structure Relaying (s : Bridge) : Prop where
  down : s.Downstream
  queue : ∀ b ∈ s.queue, b.answer = false

end Bridge

/-- How many bytes of the answer the exchange has read. -/
def Phase.heard : Phase → Nat
  | .good => 1
  | .low | .high | .confirm => 2
  | _ => 0

namespace Bridge

/-- The exchange and the relay are apart: it goes on, or the relay has the socket for itself. -/
def Settled (s : Bridge) : Prop :=
  (s.phase.asking = true ∧ ∃ l r, s.Asking s.phase.heard l r) ∨
    (s.phase.asking = false ∧ s.Relaying)

section Exchange

variable {s : Bridge} (t : Turn) {k : Nat} {l r : List UInt8}

theorem toWrite_of_asking (h : s.phase.asking = true) : s.phase.toWrite = [] := by
  revert h
  cases s.phase <;> simp [Phase.asking, Phase.toWrite]

/-- Where the answer is followed by bytes for the relay and nothing has gone to the cable, the relay
has lost nothing. -/
theorem down_of_silent {a : List UInt8} (hsent : s.sent = a.map asAnswer ++ r.map asRelay)
    (hqueue : outside s.queue = r.map asRelay) (hcable : s.onCable = [])
    (hphase : s.phase.toWrite = []) : s.Downstream := by
  have hout : outside s.sent = r.map asRelay := by
    rw [hsent, outside_append, outside_asAnswer, outside_asRelay, List.nil_append]
  refine ⟨by rw [hcable]; nofun, by rw [hcable]; exact List.nil_prefix, fun _ => ?_⟩
  rw [hcable, hphase, hout, hqueue]
  rfl

theorem Asking.down (h : s.Asking k l r) (hphase : s.phase.toWrite = []) : s.Downstream := by
  refine down_of_silent h.sent ?_ h.silent hphase
  rw [h.queue, outside_append, outside_asAnswer, outside_asRelay, List.nil_append]

/-- The exchange returns with nothing of the answer left unread. -/
theorem settled_of_over {a : List UInt8} (hsent : s.sent = a.map asAnswer ++ r.map asRelay)
    (hqueue : s.queue = r.map asRelay) (hcable : s.onCable = []) : (s.goto .cable).Settled := by
  refine .inr ⟨rfl, down_of_silent hsent ?_ hcable rfl, ?_⟩
  · show outside s.queue = _
    rw [hqueue, outside_asRelay]
  · intro b hb
    simp only [Bridge.goto, hqueue] at hb
    obtain ⟨x, -, rfl⟩ := List.mem_map.mp hb
    rfl

/-- The exchange gives up while no byte of the answer waits. -/
theorem Asking.gives_up (h : s.Asking k l r) (hqueue : ∀ b ∈ s.queue, b.answer = false) :
    s.exchangeOver.Settled := by
  cases l with
  | nil => exact settled_of_over h.sent h.queue h.silent
  | cons x l =>
      have hx : asAnswer x ∈ s.queue := by
        rw [h.queue]
        exact List.mem_append_left _ List.mem_cons_self
      cases hqueue _ hx

theorem Asking.chWrite (h : s.Asking k l r) (b : UInt8) {next : Phase}
    (hnext : next.asking = true) (hk : next.heard = k)
    (hqueue : t.asks = false → ∀ b ∈ s.queue, b.answer = false) : (s.chWrite t b next).Settled := by
  unfold Bridge.chWrite
  split_ifs with hasks
  · subst hk
    exact .inl ⟨hnext, l, r, ⟨h.sent, h.queue, h.answer, h.apart, h.silent⟩⟩
  · exact h.gives_up (hqueue (by simpa using hasks))

/-- The byte `ch_read` gets is the next of the answer. -/
theorem Asking.head (h : s.Asking k l r) (hk : k ≤ 2) {b : ServerByte} {rest : List ServerByte}
    (hqueue : s.queue = b :: rest) :
    ∃ l', l = b.byte :: l' ∧ rest = l'.map asAnswer ++ r.map asRelay := by
  cases l with
  | nil =>
      have hopen : awaits ([msgEscape, statusGood].take k ++ []) = true := by
        obtain rfl | rfl | rfl : k = 0 ∨ k = 1 ∨ k = 2 := by omega
        all_goals decide
      cases r with
      | nil =>
          rw [h.queue] at hqueue
          cases hqueue
      | cons x r =>
          rw [h.apart (List.cons_ne_nil _ _)] at hopen
          cases hopen
  | cons x l =>
      rw [h.queue, List.map_cons, List.cons_append, List.cons.injEq] at hqueue
      obtain ⟨rfl, rfl⟩ := hqueue
      exact ⟨l, rfl, rfl⟩

/-- `ch_read` for the byte number `k` of the answer. -/
theorem Asking.chRead (h : s.Asking k l r) (hphase : s.phase.asking = true)
    (hheard : s.phase.heard = k) {want : UInt8} {next : Phase}
    (hnext : k = 0 ∧ want = msgEscape ∧ next = .good ∨ k = 1 ∧ want = statusGood ∧ next = .low ∨
      k = 2 ∧ next = .cable)
    (hqueue : t.broken = true → ∀ b ∈ s.queue, b.answer = false) :
    (s.chRead t want next).Settled := by
  have hk : k ≤ 2 := by
    rcases hnext with ⟨rfl, -⟩ | ⟨rfl, -⟩ | ⟨rfl, -⟩
    all_goals decide
  unfold Bridge.chRead
  split
  · rename_i hbroken
    exact h.gives_up (hqueue hbroken)
  · split
    · rename_i b rest hb
      obtain ⟨l', rfl, rfl⟩ := h.head hk hb
      simp only
      split_ifs with hbyte
      · rcases hnext with ⟨rfl, rfl, rfl⟩ | ⟨rfl, rfl, rfl⟩ | ⟨rfl, rfl⟩
        · rw [hbyte] at h
          exact .inl ⟨rfl, l', r, ⟨h.sent, rfl, h.answer, h.apart, h.silent⟩⟩
        · rw [hbyte] at h
          exact .inl ⟨rfl, l', r, ⟨h.sent, rfl, h.answer, h.apart, h.silent⟩⟩
        · have hnil : l' = [] := h.answer.stops rfl (.inr (.inr rfl))
          subst hnil
          exact settled_of_over h.sent rfl h.silent
      · have hnil : l' = [] := by
          refine h.answer.stops rfl ?_
          rcases hnext with ⟨rfl, rfl, -⟩ | ⟨rfl, rfl, -⟩ | ⟨rfl, -⟩
          · exact .inl ⟨rfl, hbyte⟩
          · exact .inr (.inl ⟨rfl, hbyte⟩)
          · exact .inr (.inr rfl)
        subst hnil
        exact settled_of_over h.sent rfl h.silent
    · rename_i hnil
      split
      · exact h.gives_up (by rw [hnil]; nofun)
      · subst hheard
        exact .inl ⟨hphase, l, r, h⟩

/-- Where the exchange stands, one turn of it. -/
theorem Asking.act (h : s.Asking s.phase.heard l r) (hphase : s.phase.asking = true)
    (hgives : s.givesUp t = true → ∀ b ∈ s.queue, b.answer = false) : (s.act t).Settled := by
  cases hp : s.phase with
  | ask | low | high =>
      simp only [Bridge.act, hp]
      refine h.chWrite t _ rfl (by rw [hp]; rfl) ?_
      intro hasks
      exact hgives (by simp [givesUp, hp, hasks])
  | ack =>
      simp only [Bridge.act, hp]
      refine h.chRead t hphase rfl (.inl ⟨by rw [hp]; rfl, rfl, rfl⟩) ?_
      intro hbroken
      exact hgives (by simp [givesUp, hp, hbroken])
  | good =>
      simp only [Bridge.act, hp]
      refine h.chRead t hphase rfl (.inr (.inl ⟨by rw [hp]; rfl, rfl, rfl⟩)) ?_
      intro hbroken
      exact hgives (by simp [givesUp, hp, hbroken])
  | confirm =>
      simp only [Bridge.act, hp]
      refine h.chRead t hphase rfl (.inr (.inr ⟨by rw [hp]; rfl, rfl⟩)) ?_
      intro hbroken
      exact hgives (by simp [givesUp, hp, hbroken])
  | cable | sending rest got | socket | writing rest got | closed =>
      rw [hp] at hphase
      cases hphase

theorem answers_of_asking (h : s.Asking k l r) :
    answers s.sent = [msgEscape, statusGood].take k ++ l := by
  rw [h.sent, answers_tagged]

/-- A byte arrives while the exchange goes on. -/
theorem Asking.arrive (h : s.Asking k l r) {b : ServerByte}
    (hanswer : b.answer = true → awaits (answers s.sent) = true)
    (hrelay : b.answer = false → awaits (answers s.sent) = false) :
    ∃ l' r', (s.step (.arrive b)).Asking k l' r' := by
  rw [answers_of_asking h] at hanswer hrelay
  cases hb : b.answer with
  | true =>
      have hopen := hanswer hb
      have hr : r = [] := by
        by_contra hne
        rw [h.apart hne] at hopen
        cases hopen
      subst hr
      refine ⟨l ++ [b.byte], [], ?_, ?_, ?_, nofun, h.silent⟩
      · simp only [Bridge.step, h.sent, List.map_nil, List.append_nil, ← List.append_assoc,
          List.map_append, List.map_cons, ← eq_asAnswer hb]
      · simp only [Bridge.step, h.queue, List.map_nil, List.append_nil, List.map_append,
          List.map_cons, ← eq_asAnswer hb]
      · rw [← List.append_assoc]
        exact Answer.concat hopen b.byte
  | false =>
      refine ⟨l, r ++ [b.byte], ?_, ?_, h.answer, fun _ => hrelay hb, h.silent⟩
      · simp only [Bridge.step, h.sent, List.map_append, List.map_cons, List.map_nil,
          ← List.append_assoc, ← eq_asRelay hb]
      · simp only [Bridge.step, h.queue, List.map_append, List.map_cons, List.map_nil,
          ← List.append_assoc, ← eq_asRelay hb]

end Exchange

/-! ### The relay -/

section Relay

variable {s s' : Bridge} (t : Turn)

/-- A step away from the socket and the write loop. -/
theorem Relaying.frame (h : s.Relaying) (hsent : s'.sent = s.sent) (hqueue : s'.queue = s.queue)
    (hcable : s'.onCable = s.onCable)
    (hphase : s'.phase = .closed ∨ s.phase ≠ .closed ∧ s'.phase.toWrite = s.phase.toWrite) :
    s'.Relaying := by
  refine ⟨⟨by rw [hcable]; exact h.down.clean, by rw [hcable, hsent]; exact h.down.ordered, ?_⟩,
    by rw [hqueue]; exact h.queue⟩
  intro hopen
  rcases hphase with hclosed | ⟨hopen', hwrite⟩
  · exact absurd hclosed hopen
  · rw [hcable, hqueue, hsent, hwrite]
    exact h.down.whole hopen'

theorem Relaying.goto (h : s.Relaying) {p : Phase}
    (hp : p = .closed ∨ s.phase ≠ .closed ∧ p.toWrite = s.phase.toWrite) : (s.goto p).Relaying :=
  h.frame rfl rfl rfl hp

theorem Relaying.readCable (h : s.Relaying) (hphase : s.phase = .cable) :
    (s.readCable t).Relaying := by
  have hopen : s.phase ≠ .closed := by rw [hphase]; nofun
  have hwrite : s.phase.toWrite = [] := by rw [hphase]; rfl
  unfold Bridge.readCable
  split
  · exact h.goto (.inl rfl)
  · split
    · exact h.goto (.inl rfl)
    · simp only
      split_ifs
      · exact h.goto (.inr ⟨hopen, hwrite.symm⟩)
      · exact h.frame rfl rfl rfl (.inr ⟨hopen, hwrite.symm⟩)

theorem Relaying.sendRest (h : s.Relaying) {rest : List UInt8} {got : Nat}
    (hphase : s.phase = .sending rest got) : (s.sendRest t rest got).Relaying := by
  have hopen : s.phase ≠ .closed := by rw [hphase]; nofun
  have hwrite : s.phase.toWrite = [] := by rw [hphase]; rfl
  unfold Bridge.sendRest
  split
  · exact h.goto (.inl rfl)
  · exact h
  · simp only
    split_ifs
    · exact h.frame rfl rfl rfl (.inr ⟨hopen, hwrite.symm⟩)
    · exact h.frame rfl rfl rfl (.inr ⟨hopen, hwrite.symm⟩)

/-- What `recv` takes from the queue is what the write loop has before it. -/
theorem Relaying.readSocket (h : s.Relaying) (hphase : s.phase = .socket) :
    (s.readSocket t).Relaying := by
  have hopen : s.phase ≠ .closed := by rw [hphase]; nofun
  have hwrite : s.phase.toWrite = [] := by rw [hphase]; rfl
  have hwhole := h.down.whole hopen
  rw [hwrite, List.append_nil] at hwhole
  unfold Bridge.readSocket
  split_ifs
  · exact h.goto (.inl rfl)
  · exact h.goto (.inl rfl)
  · exact h.goto (.inr ⟨hopen, hwrite.symm⟩)
  · simp only
    refine ⟨⟨h.down.clean, h.down.ordered, fun _ => ?_⟩, ?_⟩
    · show s.onCable ++ s.queue.take _ ++ outside (s.queue.drop _) = outside s.sent
      rw [← hwhole, outside_of_relay h.queue, outside_of_relay fun b hb => h.queue b
        (List.mem_of_mem_drop hb), List.append_assoc, List.take_append_drop]
    · intro b hb
      exact h.queue b (List.mem_of_mem_drop hb)

theorem Relaying.writeRest (h : s.Relaying) {rest : List ServerByte} {got : Nat}
    (hphase : s.phase = .writing rest got) : (s.writeRest t rest got).Relaying := by
  have hopen : s.phase ≠ .closed := by rw [hphase]; nofun
  have hwhole := h.down.whole hopen
  rw [hphase, Phase.toWrite] at hwhole
  unfold Bridge.writeRest
  split
  · exact h.goto (.inl rfl)
  · rename_i n _
    have hsplit : s.onCable ++ rest.take n ++ rest.drop n ++ outside s.queue = outside s.sent := by
      rw [List.append_assoc s.onCable, List.take_append_drop, hwhole]
    have hordered : s.onCable ++ rest.take n <+: outside s.sent := by
      rw [← hsplit, List.append_assoc (s.onCable ++ _)]
      exact List.prefix_append _ _
    have hclean : ∀ b ∈ s.onCable ++ rest.take n, b.answer = false := by
      intro b hb
      have hmem := hordered.subset hb
      simpa using (List.mem_filter.mp hmem).2
    simp only
    split_ifs with hzero hrest
    · exact h.goto (.inl rfl)
    · rw [hrest] at hsplit
      exact ⟨⟨hclean, hordered, fun _ => hsplit⟩, h.queue⟩
    · exact ⟨⟨hclean, hordered, fun _ => hsplit⟩, h.queue⟩

theorem readCable_phase : (s.readCable t).phase.asking = false := by
  unfold Bridge.readCable
  split
  · rfl
  · split
    · rfl
    · simp only
      split_ifs <;> rfl

theorem sendRest_phase {rest : List UInt8} {got : Nat} (hphase : s.phase.asking = false) :
    (s.sendRest t rest got).phase.asking = false := by
  unfold Bridge.sendRest
  split
  · rfl
  · exact hphase
  · simp only
    split_ifs <;> rfl

theorem readSocket_phase : (s.readSocket t).phase.asking = false := by
  unfold Bridge.readSocket
  split_ifs <;> rfl

theorem writeRest_phase {rest : List ServerByte} {got : Nat} :
    (s.writeRest t rest got).phase.asking = false := by
  unfold Bridge.writeRest
  split
  · rfl
  · simp only
    split_ifs <;> rfl

theorem Relaying.act (h : s.Relaying) (hphase : s.phase.asking = false) : (s.act t).Settled := by
  cases hp : s.phase with
  | ask | ack | good | low | high | confirm =>
      rw [hp] at hphase
      cases hphase
  | cable =>
      simp only [Bridge.act, hp]
      exact .inr ⟨readCable_phase t, h.readCable t hp⟩
  | sending rest got =>
      simp only [Bridge.act, hp]
      exact .inr ⟨sendRest_phase t hphase, h.sendRest t hp⟩
  | socket =>
      simp only [Bridge.act, hp]
      exact .inr ⟨readSocket_phase t, h.readSocket t hp⟩
  | writing rest got =>
      simp only [Bridge.act, hp]
      exact .inr ⟨writeRest_phase t, h.writeRest t hp⟩
  | closed =>
      simp only [Bridge.act, hp]
      exact .inr ⟨hphase, h⟩

/-- A byte of the relay arrives. -/
theorem Relaying.arrive (h : s.Relaying) {b : ServerByte} (hb : b.answer = false) :
    (s.step (.arrive b)).Relaying := by
  have hone : outside [b] = [b] := outside_of_relay fun c hc => by
    rw [List.mem_singleton.mp hc, hb]
  have hsent : outside (s.sent ++ [b]) = outside s.sent ++ [b] := by rw [outside_append, hone]
  refine ⟨⟨h.down.clean, ?_, ?_⟩, ?_⟩
  · show s.onCable <+: outside (s.sent ++ [b])
    rw [hsent]
    exact h.down.ordered.trans (List.prefix_append _ _)
  · intro hopen
    show s.onCable ++ s.phase.toWrite ++ outside (s.queue ++ [b]) = outside (s.sent ++ [b])
    rw [hsent, outside_append, hone, ← h.down.whole hopen]
    simp only [List.append_assoc]
  · intro c hc
    rcases List.mem_append.mp hc with hc | hc
    · exact h.queue c hc
    · rw [List.mem_singleton.mp hc, hb]

end Relay

/-! ### The session -/

variable {s : Bridge}

theorem Settled.down (h : s.Settled) : s.Downstream := by
  rcases h with ⟨hphase, l, r, h⟩ | ⟨-, h⟩
  · exact h.down (toWrite_of_asking hphase)
  · exact h.down

theorem Settled.step (h : s.Settled) {e : Event} (he : s.Orderly e) : (s.step e).Settled := by
  cases e with
  | arrive b =>
      simp only [Orderly] at he
      rcases h with ⟨hphase, l, r, h⟩ | ⟨hphase, h⟩
      · have hnext := h.arrive (b := b) (fun hb => by rw [if_pos hb] at he; exact he.2)
          (fun hb => by rw [if_neg (by simp [hb])] at he; exact he hphase)
        obtain ⟨l', r', hnext⟩ := hnext
        exact .inl ⟨hphase, l', r', hnext⟩
      · cases hb : b.answer with
        | true =>
            rw [if_pos hb, hphase] at he
            cases he.1
        | false => exact .inr ⟨hphase, h.arrive hb⟩
  | hangUp =>
      rcases h with ⟨hphase, l, r, h⟩ | ⟨hphase, h⟩
      · exact .inl ⟨hphase, l, r, ⟨h.sent, h.queue, h.answer, h.apart, h.silent⟩⟩
      · exact .inr ⟨hphase, ⟨h.down.clean, h.down.ordered, h.down.whole⟩, h.queue⟩
  | turn t =>
      rcases h with ⟨hphase, l, r, h⟩ | ⟨hphase, h⟩
      · exact h.act t hphase he
      · exact h.act t hphase

end Bridge

open Bridge

theorem openBridge_upstream (channel : Nat) : (openBridge channel).Upstream := by
  refine ⟨List.nil_prefix, ?_⟩
  intro _
  unfold openBridge
  split_ifs <;> rfl

theorem openBridge_settled (channel : Nat) : (openBridge channel).Settled := by
  unfold openBridge
  split_ifs
  · exact .inl ⟨rfl, [], [], rfl, rfl, .inl rfl, nofun, rfl⟩
  · exact .inr ⟨rfl, ⟨nofun, List.nil_prefix, fun _ => rfl⟩, nofun⟩

/-- Towards the server the bridge is transparent in every run. -/
theorem run_upstream (channel : Nat) (es : List Event) :
    (Machine.run Bridge.step (openBridge channel) es).Upstream :=
  Machine.run_inv (fun _ e h => h.step e) (openBridge_upstream channel) es

/-- In every session in which the server keeps its answer and the relay apart the bridge is
transparent in both directions. -/
theorem session_transparent {channel : Nat} {es : List Event}
    (hes : Machine.Guarded Bridge.step Orderly (openBridge channel) es) :
    (Machine.run Bridge.step (openBridge channel) es).Transparent := by
  have hsettled := Machine.run_inv_of_guarded (fun s e h he => Settled.step (s := s) (e := e) h he)
    (openBridge_settled channel) hes
  exact ⟨run_upstream channel es, hsettled.down⟩

instance (s : Bridge) (e : Event) : Decidable (s.Orderly e) :=
  match e with
  | .arrive b =>
      inferInstanceAs (Decidable (if b.answer then s.phase.asking = true ∧ awaits (answers s.sent) = true
        else s.phase.asking = true → awaits (answers s.sent) = false))
  | .hangUp => isTrue trivial
  | .turn t => inferInstanceAs (Decidable (s.givesUp t = true → ∀ b ∈ s.queue, b.answer = false))

/-- Channel 1 is confirmed, then a byte goes each way. -/
def confirmedSession : List Event :=
  [.turn {}, .arrive (asAnswer msgEscape), .arrive (asAnswer statusGood), .turn {}, .turn {},
    .turn {}, .turn {}, .arrive (asAnswer stateConfirmed), .arrive (asRelay 0x41), .turn {},
    .turn { read := some [0x20] }, .turn { send := .sent 1 }, .turn {}, .turn { write := some 1 }]

theorem session_transparent_confirmed :
    (Machine.run Bridge.step (openBridge 1) confirmedSession).Transparent :=
  session_transparent (by decide)

/-- The deadline is over before the server acknowledges the channel change. -/
def lateAnswer : List Event :=
  [.turn {}, .turn { deadline := true }, .arrive (asAnswer msgEscape), .turn {}, .turn {},
    .turn { write := some 1 }]

theorem session_leaks :
    ¬ (Machine.run Bridge.step (openBridge 1) lateAnswer).Transparent := by
  intro h
  have hcable : (Machine.run Bridge.step (openBridge 1) lateAnswer).onCable = [asAnswer msgEscape] := by
    decide +kernel
  have hclean := h.downstream.clean (asAnswer msgEscape) (by rw [hcable]; exact List.mem_singleton_self _)
  cases hclean

end UnicornSuite.Nabu
