import UnicornSuite.LibRing
import UnicornSuite.LibRun

/-! The byte ring between the transport and the Zmodem worker (`ring_pop`, `ring_drain`,
`zmodem_recv_push`). A call that waits is taken from one lock section to the next, and between two of
them any other thread may take its own. -/

namespace UnicornSuite.ZmodemRing

/-- `ZMR_RING_BYTES` -/
def zmrRingBytes : Nat := 1024 * 1024
/-- `ZMR_IDLE_TIMEOUT_MS` -/
def zmrIdleTimeoutMs : Nat := 30000
/-- `ZMR_PUSH_WAIT_MS` -/
def zmrPushWaitMs : Nat := 2000

/-- What `ring_lock` guards. -/
structure Ring where
  ring : Nat → UInt8
  ringHead : Nat := 0
  ringTail : Nat := 0
  ringCount : Nat := 0
  dataEvt : Bool := false
  spaceEvt : Bool := true

/-- The bytes in the ring, in the order they will leave it. -/
def queued (z : Ring) : List UInt8 := Fifo.window zmrRingBytes z.ring z.ringTail z.ringCount

/-- The lock section of `ring_pop`. -/
def popSection (z : Ring) : Option UInt8 × Ring :=
  if 0 < z.ringCount then
    (some (z.ring z.ringTail),
      { z with
        ringTail := (z.ringTail + 1) % zmrRingBytes
        ringCount := z.ringCount - 1
        dataEvt := if z.ringCount - 1 = 0 then false else z.dataEvt
        spaceEvt := true })
  else (none, z)

/-- `ring_drain`: `*out`, NULL where there is nothing or `malloc` fails. -/
def ringDrain (malloc : Bool) (z : Ring) : Option (List UInt8) × Ring :=
  if 0 < z.ringCount then
    (if malloc then
        some ((List.range z.ringCount).map fun i => z.ring ((z.ringTail + i) % zmrRingBytes))
      else none,
      { z with ringCount := 0, ringTail := z.ringHead })
  else (none, z)

/-- How many of the `len` bytes left to push there is room for. -/
def takes (z : Ring) (len : Nat) : Nat := min len (zmrRingBytes - z.ringCount)

/-- The lock section of `zmodem_recv_push`, on the bytes from `data + off` on. -/
def pushSection (rest : List UInt8) (z : Ring) : Ring :=
  let take := takes z rest.length
  let cells := (rest.take take).foldl (Fifo.put zmrRingBytes) (z.ring, z.ringHead)
  let count := z.ringCount + take
  { ring := cells.1
    ringHead := cells.2
    ringTail := z.ringTail
    ringCount := count
    dataEvt := if 0 < count then true else z.dataEvt
    spaceEvt := if zmrRingBytes ≤ count then false else z.spaceEvt }

/-- A call of `zmodem_recv_push`. Calls are told apart by numbers the code does not have. -/
structure Push where
  serial : Nat
  data : List UInt8
  off : Nat := 0
  waited : Nat := 0
  deriving DecidableEq

inductive Call where
  | push (p : Push)
  | pop (waited : Nat)
  deriving DecidableEq

/-- The ring, the calls the threads are in, and a ledger that no branch of the code reads: the bytes
pushes put in, each under the number of its push, the bytes that left the ring, with whether they
were handed to anybody, and the pushes that have returned. -/
structure State (τ : Type) where
  z : Ring
  calls : τ → Option Call := fun _ => none
  next : Nat := 0
  accepted : List (Nat × UInt8) := []
  left : List (UInt8 × Bool) := []
  pushed : List Push := []

/-- What the threads do: to make a call, to take the next lock section of the call they are in
(`stop` is what `stop_request` is when it is read behind it), or to drain the ring. -/
inductive Act (τ : Type) where
  | push (t : τ) (data : List UInt8)
  | pop (t : τ)
  | sect (t : τ) (stop : Bool)
  | drain (t : τ) (malloc : Bool)

section Steps

variable {τ : Type} [DecidableEq τ]

def State.setCall (s : State τ) (t : τ) (c : Option Call) : State τ :=
  { s with calls := Function.update s.calls t c }

/-- `zmodem_recv_push` from one lock section to the next. -/
def pushRound (s : State τ) (t : τ) (p : Push) : State τ :=
  let rest := p.data.drop p.off
  let take := takes s.z rest.length
  let p' := { p with off := p.off + take }
  let s' := { s with
    z := pushSection rest s.z
    accepted := s.accepted ++ (rest.take take).map (p.serial, ·) }
  if p'.data.length ≤ p'.off ∨ zmrPushWaitMs ≤ p'.waited then
    { s' with pushed := s.pushed ++ [p'] }.setCall t none
  else s'.setCall t (some (.push { p' with waited := p'.waited + 50 }))

/-- `ring_pop` from one lock section to the next. -/
def popRound (s : State τ) (t : τ) (waited : Nat) (stop : Bool) : State τ :=
  match popSection s.z with
  | (some b, z) => { s with z := z, left := s.left ++ [(b, true)] }.setCall t none
  | (none, z) =>
      if stop ∨ zmrIdleTimeoutMs ≤ waited then { s with z := z }.setCall t none
      else { s with z := z }.setCall t (some (.pop (waited + 100)))

def drain (s : State τ) (malloc : Bool) : State τ :=
  match ringDrain malloc s.z with
  | (some bs, z) => { s with z := z, left := s.left ++ bs.map (·, true) }
  | (none, z) =>
      -- what was queued when there was no memory for it
      { s with z := z, left := s.left ++ (queued s.z).map (·, false) }

def step (s : State τ) : Act τ → State τ
  | .push t data =>
      if s.calls t = none ∧ data ≠ [] then
        { s with next := s.next + 1 }.setCall t (some (.push { serial := s.next, data := data }))
      else s
  | .pop t => if s.calls t = none then s.setCall t (some (.pop 0)) else s
  | .sect t stop =>
      match s.calls t with
      | some (.push p) => pushRound s t p
      | some (.pop waited) => popRound s t waited stop
      | none => s
  | .drain t malloc => if s.calls t = none then drain s malloc else s

/-- A session's ring, with what `malloc` left in it. -/
def start (ring : Nat → UInt8) : State τ := { z := { ring := ring } }

end Steps

section Ledger

variable {τ : Type}

/-- The bytes of the ledger that the push of a number put in. -/
def bytesOf (s : State τ) (serial : Nat) : List UInt8 :=
  (s.accepted.filter (·.1 = serial)).map (·.2)

/-- The bytes popped or drained. -/
def handed (s : State τ) : List UInt8 := (s.left.filter (·.2)).map (·.1)

end Ledger

section Rings

variable {z : Ring}

/-- The three numbers of a ring fit each other. -/
structure Sound (z : Ring) : Prop where
  tail_lt : z.ringTail < zmrRingBytes
  count_le : z.ringCount ≤ zmrRingBytes
  head_eq : z.ringHead = (z.ringTail + z.ringCount) % zmrRingBytes

theorem sound_start (ring : Nat → UInt8) : Sound { ring := ring } :=
  ⟨Nat.mul_pos (by decide) (by decide), Nat.zero_le _, rfl⟩

theorem Sound.pop (h : Sound z) : Sound (popSection z).2 := by
  unfold popSection
  split
  · rename_i hpos
    refine ⟨Nat.mod_lt _ (by decide), (Nat.sub_le _ _).trans h.count_le, ?_⟩
    rw [Nat.mod_add_mod, Nat.add_assoc, Nat.add_sub_cancel' hpos]
    exact h.head_eq
  · exact h

theorem Sound.queued_pop (h : Sound z) :
    queued z = (popSection z).1.toList ++ queued (popSection z).2 := by
  unfold popSection
  split
  · rename_i hpos
    have hcount : z.ringCount = z.ringCount - 1 + 1 := (Nat.sub_add_cancel hpos).symm
    rw [queued, hcount, Fifo.window_cons z.ring h.tail_lt]
    rfl
  · rfl

theorem Sound.drain (h : Sound z) (malloc : Bool) : Sound (ringDrain malloc z).2 := by
  unfold ringDrain
  split
  · have hhead : z.ringHead < zmrRingBytes := h.head_eq ▸ Nat.mod_lt _ (by decide)
    exact ⟨hhead, Nat.zero_le _, (Nat.mod_eq_of_lt hhead).symm⟩
  · exact h

theorem queued_drain (malloc : Bool) (z : Ring) : queued (ringDrain malloc z).2 = [] := by
  unfold ringDrain
  split
  · rfl
  · rename_i hzero
    rw [queued, Nat.eq_zero_of_not_pos hzero, Fifo.window_zero]

theorem drain_eq_some {malloc : Bool} {bs : List UInt8} (h : (ringDrain malloc z).1 = some bs) :
    bs = queued z ∧ malloc = true := by
  unfold ringDrain at h
  split at h
  · cases malloc
    · cases h
    · exact ⟨(Option.some.inj h).symm, rfl⟩
  · cases h

theorem drain_eq_none (h : (ringDrain true z).1 = none) : queued z = [] := by
  unfold ringDrain at h
  split at h
  · cases h
  · rename_i hzero
    rw [queued, Nat.eq_zero_of_not_pos hzero, Fifo.window_zero]

theorem Sound.push_spec (h : Sound z) (rest : List UInt8) :
    Sound (pushSection rest z) ∧
      queued (pushSection rest z) = queued z ++ rest.take (takes z rest.length) := by
  have hlen : (rest.take (takes z rest.length)).length = takes z rest.length := by
    rw [List.length_take]
    exact min_eq_left (min_le_left _ _)
  have hroom : z.ringCount + (rest.take (takes z rest.length)).length ≤ zmrRingBytes := by
    rw [hlen, takes]
    have hle := h.count_le
    omega
  have hput := Fifo.foldl_put z.ring z.ringTail hroom
  rw [← h.head_eq, hlen] at hput
  rw [hlen] at hroom
  exact ⟨⟨h.tail_lt, hroom, hput.2⟩, hput.1⟩

end Rings

section Order

variable {τ : Type} {s : State τ}

/-- The bytes that went in are, in their order, those that came out and those still queued. -/
structure Ordered (s : State τ) : Prop where
  sound : Sound s.z
  order : s.accepted.map (·.2) = s.left.map (·.1) ++ queued s.z

theorem Ordered.congr {s' : State τ} (h : Ordered s) (hz : s'.z = s.z)
    (haccepted : s'.accepted = s.accepted) (hleft : s'.left = s.left) : Ordered s' := by
  refine ⟨hz ▸ h.sound, ?_⟩
  rw [hz, haccepted, hleft]
  exact h.order

theorem Ordered.drain (h : Ordered s) (malloc : Bool) : Ordered (drain s malloc) := by
  have hsound := h.sound.drain malloc
  have hempty := queued_drain malloc s.z
  unfold ZmodemRing.drain
  split
  · rename_i bs z heq
    have hbs : bs = queued s.z := (drain_eq_some (congrArg (·.1) heq)).1
    rw [heq] at hsound hempty
    refine ⟨hsound, ?_⟩
    rw [hempty, h.order, hbs, List.map_append, List.map_map, List.append_nil]
    exact congrArg _ (List.map_id _).symm
  · rename_i z heq
    rw [heq] at hsound hempty
    refine ⟨hsound, ?_⟩
    rw [hempty, h.order, List.map_append, List.map_map, List.append_nil]
    exact congrArg _ (List.map_id _).symm

variable [DecidableEq τ]

theorem Ordered.pushRound (h : Ordered s) (t : τ) (p : Push) : Ordered (pushRound s t p) := by
  obtain ⟨hsound, hqueued⟩ := h.sound.push_spec (p.data.drop p.off)
  have hround : Ordered { s with
      z := pushSection (p.data.drop p.off) s.z
      accepted := s.accepted ++ ((p.data.drop p.off).take (takes s.z (p.data.drop p.off).length)).map
        (p.serial, ·) } := by
    refine ⟨hsound, ?_⟩
    rw [hqueued, List.map_append, h.order, List.map_map, List.append_assoc]
    exact congrArg _ (congrArg _ (List.map_id _))
  unfold ZmodemRing.pushRound
  dsimp only
  split <;> exact hround.congr rfl rfl rfl

theorem Ordered.popRound (h : Ordered s) (t : τ) (waited : Nat) (stop : Bool) :
    Ordered (popRound s t waited stop) := by
  have hsound := h.sound.pop
  have hqueued := h.sound.queued_pop
  unfold ZmodemRing.popRound
  split
  · rename_i b z heq
    rw [heq] at hsound hqueued
    have hround : Ordered { s with z := z, left := s.left ++ [(b, true)] } := by
      refine ⟨hsound, ?_⟩
      rw [h.order, hqueued, List.map_append, List.append_assoc]
      rfl
    exact hround.congr rfl rfl rfl
  · rename_i z heq
    rw [heq] at hsound hqueued
    have hround : Ordered { s with z := z } := ⟨hsound, h.order.trans (congrArg _ hqueued)⟩
    split <;> exact hround.congr rfl rfl rfl

theorem Ordered.step (h : Ordered s) (a : Act τ) : Ordered (step s a) := by
  unfold ZmodemRing.step
  split
  · split
    · exact h.congr rfl rfl rfl
    · exact h
  · split
    · exact h.congr rfl rfl rfl
    · exact h
  · split
    · exact h.pushRound _ _
    · exact h.popRound _ _ _
    · exact h
  · split
    · exact h.drain _
    · exact h

end Order

section Account

variable {τ : Type} {s s' : State τ}

/-- The push of this call has put in the bytes before `off`, and no others. -/
def Entered (s : State τ) (p : Push) : Prop := bytesOf s p.serial = p.data.take p.off

/-- Every push, whether it has returned or not, has put in what it says it has. -/
structure Accounted (s : State τ) : Prop where
  fresh : ∀ e ∈ s.accepted, e.1 < s.next
  entered : ∀ t p, s.calls t = some (.push p) → p.serial < s.next ∧ Entered s p
  single : ∀ t u p q, s.calls t = some (.push p) → s.calls u = some (.push q) →
    p.serial = q.serial → t = u
  returned : ∀ p ∈ s.pushed, p.serial < s.next ∧ Entered s p ∧
    (p.data.length ≤ p.off ∨ zmrPushWaitMs ≤ p.waited)
  apart : ∀ t p, s.calls t = some (.push p) → ∀ q ∈ s.pushed, q.serial ≠ p.serial

theorem accounted_start (ring : Nat → UInt8) : Accounted (start ring : State τ) where
  fresh := fun _ he => absurd he List.not_mem_nil
  entered := fun _ _ hcall => nomatch hcall
  single := fun _ _ _ _ hcall => nomatch hcall
  returned := fun _ hp => absurd hp List.not_mem_nil
  apart := fun _ _ hcall => nomatch hcall

theorem Accounted.congr (h : Accounted s) (hcalls : ∀ t p, s'.calls t = some (.push p) →
    s.calls t = some (.push p)) (hnext : s'.next = s.next) (haccepted : s'.accepted = s.accepted)
    (hpushed : s'.pushed = s.pushed) : Accounted s' := by
  have hentered : ∀ p, Entered s p → Entered s' p := by
    intro p hp
    rw [Entered, bytesOf, haccepted]
    exact hp
  constructor
  · rw [haccepted, hnext]
    exact h.fresh
  · intro t p hcall
    rw [hnext]
    exact (h.entered t p (hcalls t p hcall)).imp_right (hentered p)
  · exact fun t u p q ht hu => h.single t u p q (hcalls t p ht) (hcalls u q hu)
  · rw [hpushed, hnext]
    exact fun p hp => (h.returned p hp).imp_right (And.imp_left (hentered p))
  · rw [hpushed]
    exact fun t p hcall => h.apart t p (hcalls t p hcall)

theorem bytesOf_append (bs : List UInt8) (k : Nat) (hs' : s'.accepted = s.accepted ++ bs.map (k, ·)) :
    bytesOf s' k = bytesOf s k ++ bs := by
  rw [bytesOf, hs', List.filter_append, List.map_append, bytesOf]
  have hall : (bs.map (k, ·)).filter (·.1 = k) = bs.map (k, ·) := by
    rw [List.filter_eq_self]
    intro e he
    obtain ⟨b, _, rfl⟩ := List.mem_map.mp he
    exact decide_eq_true rfl
  rw [hall, List.map_map]
  exact congrArg _ (List.map_id _)

theorem bytesOf_append_ne (bs : List UInt8) {k j : Nat} (hj : j ≠ k)
    (hs' : s'.accepted = s.accepted ++ bs.map (k, ·)) : bytesOf s' j = bytesOf s j := by
  rw [bytesOf, hs', List.filter_append, List.map_append, bytesOf]
  have hnone : (bs.map (k, ·)).filter (·.1 = j) = [] := by
    rw [List.filter_eq_nil_iff]
    intro e he
    obtain ⟨b, _, rfl⟩ := List.mem_map.mp he
    exact fun hk => hj (of_decide_eq_true hk).symm
  rw [hnone]
  exact List.append_nil _

theorem Entered.other {p q : Push} (h : Entered s q) (bs : List UInt8) (hne : q.serial ≠ p.serial)
    (hs' : s'.accepted = s.accepted ++ bs.map (p.serial, ·)) : Entered s' q := by
  rw [Entered, bytesOf_append_ne bs hne hs']
  exact h

theorem bytesOf_next (h : Accounted s) : bytesOf s s.next = [] := by
  rw [bytesOf, List.filter_eq_nil_iff.mpr, List.map_nil]
  intro e he heq
  exact (h.fresh e he).ne (of_decide_eq_true heq)

theorem Accounted.drain (h : Accounted s) (malloc : Bool) : Accounted (drain s malloc) := by
  unfold ZmodemRing.drain
  split <;> exact h.congr (fun _ _ hcall => hcall) rfl rfl rfl

variable [DecidableEq τ]

/-- What one lock section of a push does to the account, whatever becomes of the call. -/
theorem Accounted.section {t : τ} {p : Push} {c : Option Call} {take : Nat} (h : Accounted s)
    (hcall : s.calls t = some (.push p))
    (haccepted : s'.accepted = s.accepted ++ ((p.data.drop p.off).take take).map (p.serial, ·))
    (hnext : s'.next = s.next) (hcalls : s'.calls = Function.update s.calls t c)
    (hend : (∃ w, c = some (.push { p with off := p.off + take, waited := w }) ∧
        s'.pushed = s.pushed) ∨
      c = none ∧ s'.pushed = s.pushed ++ [{ p with off := p.off + take }] ∧
        (p.data.length ≤ p.off + take ∨ zmrPushWaitMs ≤ p.waited)) : Accounted s' := by
  obtain ⟨hserial, hentered⟩ := h.entered t p hcall
  have hbytes : bytesOf s' p.serial = p.data.take (p.off + take) := by
    rw [bytesOf_append _ _ haccepted, hentered, List.take_add]
  have hother : ∀ u q, u ≠ t → s.calls u = some (.push q) → q.serial ≠ p.serial :=
    fun u q hu hq heq => hu (h.single u t q p hq hcall heq)
  have hold : ∀ u q, u ≠ t → s'.calls u = some (.push q) → s.calls u = some (.push q) := by
    intro u q hu hq
    rwa [hcalls, Function.update_of_ne hu] at hq
  have hmine : ∀ q, s'.calls t = some (.push q) → q.serial = p.serial ∧ q.data = p.data ∧
      q.off = p.off + take ∧ s'.pushed = s.pushed := by
    intro q hq
    rw [hcalls, Function.update_self] at hq
    rcases hend with ⟨w, rfl, hpushed⟩ | ⟨rfl, _⟩
    · cases hq
      exact ⟨rfl, rfl, rfl, hpushed⟩
    · cases hq
  constructor
  · intro e he
    rw [haccepted] at he
    rw [hnext]
    rcases List.mem_append.mp he with he | he
    · exact h.fresh e he
    · obtain ⟨b, _, rfl⟩ := List.mem_map.mp he
      exact hserial
  · intro u q hq
    rw [hnext]
    by_cases hu : u = t
    · subst hu
      obtain ⟨hqs, hdata, hoff, _⟩ := hmine q hq
      rw [hqs, Entered, hqs, hdata, hoff]
      exact ⟨hserial, hbytes⟩
    · obtain ⟨hlt, hq'⟩ := h.entered u q (hold u q hu hq)
      exact ⟨hlt, hq'.other _ (hother u q hu (hold u q hu hq)) haccepted⟩
  · intro u v q r hq hr heq
    by_cases hu : u = t
    · by_cases hv : v = t
      · rw [hu, hv]
      · subst hu
        exact absurd (heq.symm.trans (hmine q hq).1) (hother v r hv (hold v r hv hr))
    · by_cases hv : v = t
      · subst hv
        exact absurd (heq.trans (hmine r hr).1) (hother u q hu (hold u q hu hq))
      · exact h.single u v q r (hold u q hu hq) (hold v r hv hr) heq
  · have hreturned : ∀ q ∈ s.pushed, q.serial < s'.next ∧ Entered s' q ∧
        (q.data.length ≤ q.off ∨ zmrPushWaitMs ≤ q.waited) := by
      intro q hq
      obtain ⟨hlt, hq', hdone⟩ := h.returned q hq
      exact ⟨hnext ▸ hlt, hq'.other _ (h.apart t p hcall q hq) haccepted, hdone⟩
    rcases hend with ⟨_, _, hpushed⟩ | ⟨_, hpushed, hdone⟩
    · rw [hpushed]
      exact hreturned
    · intro q hq
      rw [hpushed] at hq
      rcases List.mem_append.mp hq with hq | hq
      · exact hreturned q hq
      · obtain rfl := List.mem_singleton.mp hq
        exact ⟨hnext ▸ hserial, hbytes, hdone⟩
  · intro u q hq r hr
    by_cases hu : u = t
    · subst hu
      obtain ⟨hqs, _, _, hpushed⟩ := hmine q hq
      rw [hpushed] at hr
      rw [hqs]
      exact h.apart u p hcall r hr
    · have hqs := hold u q hu hq
      rcases hend with ⟨_, _, hpushed⟩ | ⟨_, hpushed, _⟩
      · rw [hpushed] at hr
        exact h.apart u q hqs r hr
      · rw [hpushed] at hr
        rcases List.mem_append.mp hr with hr | hr
        · exact h.apart u q hqs r hr
        · obtain rfl := List.mem_singleton.mp hr
          exact (hother u q hu hqs).symm

theorem Accounted.pushRound {t : τ} {p : Push} (h : Accounted s) (hcall : s.calls t = some (.push p)) :
    Accounted (pushRound s t p) := by
  unfold ZmodemRing.pushRound
  dsimp only
  split
  · rename_i hdone
    exact h.section hcall rfl rfl rfl (Or.inr ⟨rfl, rfl, hdone⟩)
  · exact h.section hcall rfl rfl rfl (Or.inl ⟨_, rfl, rfl⟩)

/-- A thread that is not in a push any more, or never was. -/
theorem Accounted.setCall {t : τ} {c : Option Call} (h : Accounted s) (hc : ∀ p, c ≠ some (.push p)) :
    Accounted (s.setCall t c) := by
  refine h.congr ?_ rfl rfl rfl
  intro u p hu
  by_cases hut : u = t
  · subst hut
    exact absurd (Function.update_self u c s.calls ▸ hu) (hc p)
  · have hold : Function.update s.calls t c u = some (.push p) := hu
    rwa [Function.update_of_ne hut] at hold

theorem Accounted.popRound (h : Accounted s) (t : τ) (waited : Nat) (stop : Bool) :
    Accounted (popRound s t waited stop) := by
  have hs : ∀ z left, Accounted { s with z := z, left := left } :=
    fun _ _ => h.congr (fun _ _ hcall => hcall) rfl rfl rfl
  unfold ZmodemRing.popRound
  split
  · exact (hs _ _).setCall nofun
  · split
    · exact (hs _ _).setCall nofun
    · exact (hs _ _).setCall nofun

theorem Accounted.enter (h : Accounted s) {t : τ} (hcall : s.calls t = none) (data : List UInt8) :
    Accounted ({ s with next := s.next + 1 }.setCall t
      (some (.push { serial := s.next, data := data }))) := by
  have hold : ∀ u q, (Function.update s.calls t (some (.push { serial := s.next, data := data }))) u =
      some (.push q) → u = t ∧ q = { serial := s.next, data := data } ∨
        u ≠ t ∧ s.calls u = some (.push q) := by
    intro u q hq
    by_cases hu : u = t
    · subst hu
      rw [Function.update_self] at hq
      cases hq
      exact Or.inl ⟨rfl, rfl⟩
    · rw [Function.update_of_ne hu] at hq
      exact Or.inr ⟨hu, hq⟩
  constructor
  · exact fun e he => (h.fresh e he).trans (Nat.lt_succ_self _)
  · intro u q hq
    rcases hold u q hq with ⟨_, rfl⟩ | ⟨_, hq⟩
    · exact ⟨Nat.lt_succ_self _, bytesOf_next h⟩
    · exact (h.entered u q hq).imp_left fun hlt => hlt.trans (Nat.lt_succ_self _)
  · intro u v q r hq hr heq
    rcases hold u q hq with ⟨hu, rfl⟩ | ⟨_, hq⟩
    · rcases hold v r hr with ⟨hv, _⟩ | ⟨_, hr⟩
      · rw [hu, hv]
      · exact absurd heq.symm (h.entered v r hr).1.ne
    · rcases hold v r hr with ⟨_, rfl⟩ | ⟨_, hr⟩
      · exact absurd heq (h.entered u q hq).1.ne
      · exact h.single u v q r hq hr heq
  · intro q hq
    obtain ⟨hlt, hdone⟩ := h.returned q hq
    exact ⟨hlt.trans (Nat.lt_succ_self _), hdone⟩
  · intro u q hq r hr
    rcases hold u q hq with ⟨_, rfl⟩ | ⟨_, hq⟩
    · exact (h.returned r hr).1.ne
    · exact h.apart u q hq r hr

theorem Accounted.step (h : Accounted s) (a : Act τ) : Accounted (step s a) := by
  unfold ZmodemRing.step
  split
  · split
    · rename_i hidle
      exact h.enter hidle.1 _
    · exact h
  · split
    · exact h.setCall nofun
    · exact h
  · split
    · rename_i hcall
      exact h.pushRound hcall
    · exact h.popRound _ _ _
    · exact h
  · split
    · exact h.drain _
    · exact h

end Account

section Schedules

variable {τ : Type} [DecidableEq τ]

/-- Nothing leaves the ring unseen as long as a drain gets its memory. -/
theorem left_handed {s : State τ} {a : Act τ} (ha : ∀ t, a ≠ .drain t false)
    (h : ∀ e ∈ s.left, e.2 = true) : ∀ e ∈ (step s a).left, e.2 = true := by
  have hmore : ∀ bs : List UInt8, ∀ e ∈ s.left ++ bs.map (·, true), e.2 = true := by
    intro bs e he
    rcases List.mem_append.mp he with he | he
    · exact h e he
    · obtain ⟨b, _, rfl⟩ := List.mem_map.mp he
      rfl
  cases a with
  | push t data =>
      rw [step]
      split <;> exact h
  | pop t =>
      rw [step]
      split <;> exact h
  | sect t stop =>
      rw [step]
      split
      · unfold pushRound
        dsimp only
        split <;> exact h
      · unfold popRound
        split
        · exact hmore [_]
        · split <;> exact h
      · exact h
  | drain t malloc =>
      rw [step]
      split
      · obtain rfl : malloc = true := (Bool.eq_false_or_eq_true malloc).resolve_right
          fun hno => ha t (congrArg _ hno)
        unfold drain
        split
        · exact hmore _
        · rename_i heq
          have hleft : s.left ++ (queued s.z).map (·, false) = s.left := by
            rw [drain_eq_none (congrArg (·.1) heq), List.map_nil, List.append_nil]
          exact hleft.symm ▸ h
      · exact h

/-- Whatever the schedule, the bytes that left the ring are the first of those that pushes put in,
and the others are queued; all that left were handed over unless a drain had no memory for them.
A push puts in its bytes from the first on, and all of them unless its wait is over. -/
theorem ring_fifo (ring : Nat → UInt8) (es : List (Act τ)) :
    let s := Machine.run step (start ring) es
    s.accepted.map (·.2) = s.left.map (·.1) ++ queued s.z ∧
      ((∀ t, Act.drain t false ∉ es) → handed s = s.left.map (·.1)) ∧
      (∀ p ∈ s.pushed, bytesOf s p.serial = p.data.take p.off ∧
        (p.data.length ≤ p.off ∨ zmrPushWaitMs ≤ p.waited)) ∧
      (∀ t p, s.calls t = some (.push p) → bytesOf s p.serial = p.data.take p.off) ∧
      s.z.ringHead = (s.z.ringTail + s.z.ringCount) % zmrRingBytes ∧
      s.z.ringCount ≤ zmrRingBytes := by
  intro s
  have hordered : Ordered s :=
    Machine.run_inv (fun _ a h => h.step a) ⟨sound_start ring, rfl⟩ es
  have haccounted : Accounted s :=
    Machine.run_inv (fun _ a h => h.step a) (accounted_start ring) es
  refine ⟨hordered.order, ?_, fun p hp => (haccounted.returned p hp).2,
    fun t p hcall => (haccounted.entered t p hcall).2, hordered.sound.head_eq,
    hordered.sound.count_le⟩
  intro hmemory
  have hnil : ∀ e ∈ (start ring : State τ).left, e.2 = true :=
    fun e he => absurd he List.not_mem_nil
  have hleft : ∀ e ∈ s.left, e.2 = true :=
    Machine.run_inv_of_forall (I := fun s : State τ => ∀ e ∈ s.left, e.2 = true)
      (K := fun a => ∀ t, a ≠ Act.drain t false) (fun _ _ ha h => left_handed ha h) hnil
      fun a ha t heq => hmemory t (heq ▸ ha)
  rw [handed, List.filter_eq_self.mpr hleft]

/-- A drain without memory: the byte pushed first is neither popped nor drained. -/
theorem ring_loses :
    ¬ ∀ es : List (Act Unit), handed (Machine.run step (start fun _ => 0) es) <+:
      (Machine.run step (start fun _ => 0) es).accepted.map (·.2) := by
  intro hall
  have hlost := hall [.push () [1], .sect () false, .drain () false, .push () [2], .sect () false,
    .pop (), .sect () false]
  exact absurd hlost (by decide)

end Schedules

end UnicornSuite.ZmodemRing
