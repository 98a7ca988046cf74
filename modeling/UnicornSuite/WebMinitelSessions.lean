import UnicornSuite.WebMinitel

/-! The sessions of the web Minitel, over every run of the page. What a session leaves behind is cleared at
each of its ends but one: a page that is hidden after its socket has gone keeps the queue and the logoff
timer, and brings them into the start screen it comes back with. -/

namespace UnicornSuite.WebMinitel

open Machine

variable {ε : Type} (eng : Engine ε)

/-! ### What the page promises -/

/-- The bytes of one session in a record. -/
def bytesOf (n : Nat) (log : List (Nat × UInt8)) : List UInt8 :=
  (log.filter (·.1 = n)).map Prod.snd

/-- The bytes fed in a session are the first of those received, and all of them when the host or its
goodbye has ended it. -/
structure InOrder (p : Page ε) : Prop where
  fed : ∀ n, bytesOf n p.record.fed <+: bytesOf n p.record.received
  whole : ∀ e ∈ p.record.ends, e.2 ≠ .hangup →
    bytesOf e.1 p.record.fed = bytesOf e.1 p.record.received

/-- No byte to draw, no close to finish, no goodbye and no timer for one. -/
def Blank (p : Page ε) : Prop :=
  p.rxQueue.flatten = [] ∧ p.hostClosedAt = none ∧ p.goodbyeSeen = false ∧ p.goodbyeLive = []

/-- Nothing of a session that has ended is in the start screen or the next session: there is only the
timer for the start screen, which the next session stops. -/
structure NothingLeft (p : Page ε) : Prop where
  idle : p.line = .idle → Blank p
  connecting : p.line = .connecting → Blank p ∧ p.paceCredit = 0 ∧ p.lastWasCnx = false
  logoff : ∀ id ∈ p.logoffLive, p.line = .idle ∧ p.logoffTimer = some id

/-- At most one socket is live, that of the session, and what is sent goes to it while it is connected. -/
structure OneLine (p : Page ε) : Prop where
  live : p.live = p.ws.toList
  sent : ∀ m ∈ p.record.sent, m.ws = some m.session ∧ m.line = .connected

def Isolated (p : Page ε) : Prop := InOrder p ∧ NothingLeft p ∧ OneLine p

/-- A page comes back from the cache without bytes in the queue and without the logoff timer. -/
def ComesBackEmpty (p : Page ε) : Event ε → Prop
  | .pageshow => p.frozen → p.rxQueue.flatten = [] ∧ p.logoffLive = []
  | _ => True

/-! ### The state of every run -/

/-- What holds at every state of the line. -/
structure Base (p : Page ε) : Prop where
  live : p.live = p.ws.toList
  number : ∀ w ∈ p.ws, w = p.session
  opens : ∀ w ∈ p.openSockets, p.ws = some w ∧ p.line = .connected
  engine : p.engine = none → p.line = .idle ∧ p.logoffLive = []
  queued : p.rxQueued = p.rxQueue.flatten.length
  logoff : p.logoffLive = p.logoffTimer.toList
  logoffIdle : p.line ≠ .idle → p.logoffLive = []
  goodbye : p.goodbyeLive = p.goodbyeTimer.toList
  inOrder : InOrder p
  pending : p.line ≠ .idle →
    bytesOf p.session p.record.received = bytesOf p.session p.record.fed ++ p.rxQueue.flatten
  later : ∀ n, p.session < n → bytesOf n p.record.received = []
  ended : ∀ e ∈ p.record.ends, e.1 ≤ p.session ∧ (e.1 = p.session → p.line = .idle)
  sent : ∀ m ∈ p.record.sent, m.ws = some m.session ∧ m.line = .connected

/-- What holds at one of them. -/
structure Phase (p : Page ε) : Prop where
  idle : p.line = .idle → p.ws = none ∧ Blank p
  connecting : p.line = .connecting →
    p.opened = false ∧ Blank p ∧ p.paceCredit = 0 ∧ p.lastWasCnx = false
  connected : p.line = .connected →
    p.opened = true ∧ (p.ws = none ↔ p.hostClosedAt.isSome) ∧ (p.ws = none → p.rxQueued ≠ 0)

def Sound (p : Page ε) : Prop := Base p ∧ Phase p

section

variable {eng} {p : Page ε}

theorem Sound.isolated (h : Sound p) : Isolated p := by
  refine ⟨h.1.inOrder, ⟨fun hline => (h.2.idle hline).2, fun hline => (h.2.connecting hline).2, ?_⟩,
    h.1.live, h.1.sent⟩
  intro id hid
  have hidle : p.line = .idle := by
    by_contra hno
    rw [h.1.logoffIdle hno] at hid
    cases hid
  rw [h.1.logoff] at hid
  exact ⟨hidle, Option.mem_toList.mp hid⟩

/-! ### Timers, queues and records -/

theorem filter_timer (t : Option Nat) : t.toList.filter (some · ≠ t) = [] := by
  cases t <;> simp

theorem clearGoodbye_live (h : p.goodbyeLive = p.goodbyeTimer.toList) :
    (clearGoodbye p).goodbyeLive = [] := by
  rw [clearGoodbye, h]
  exact filter_timer _

/-- Taking bytes from the queue keeps their order. -/
theorem takeChunks_spec (n : Nat) (q : List (List UInt8)) :
    (takeChunks n q).1 ++ (takeChunks n q).2.flatten = q.flatten ∧
      (takeChunks n q).1.length = min n q.flatten.length := by
  induction q generalizing n with
  | nil => simp [takeChunks]
  | cons head rest ih =>
      rw [takeChunks]
      split_ifs with hzero hfits
      · simp [hzero]
      · obtain ⟨hflat, hlen⟩ := ih (n - head.length)
        refine ⟨?_, ?_⟩
        · rw [List.append_assoc, hflat, List.flatten_cons]
        · simp only [List.length_append, hlen, List.flatten_cons]
          omega
      · refine ⟨?_, ?_⟩
        · rw [List.flatten_cons, ← List.append_assoc, List.take_append_drop, List.flatten_cons]
        · simp only [List.length_take, List.flatten_cons, List.length_append]
          omega

@[simp] theorem bytesOf_append (n : Nat) (log log' : List (Nat × UInt8)) :
    bytesOf n (log ++ log') = bytesOf n log ++ bytesOf n log' := by
  simp [bytesOf]

theorem bytesOf_map (n m : Nat) (bytes : List UInt8) :
    bytesOf n (bytes.map (m, ·)) = if m = n then bytes else [] := by
  rw [bytesOf, List.filter_map]
  split_ifs with heq <;> simp [Function.comp_def, heq]

theorem sound_start : Sound ({} : Page ε) := by
  refine ⟨?_, ⟨fun _ => ⟨rfl, rfl, rfl, rfl, rfl⟩, nofun, nofun⟩⟩
  have horder : InOrder ({} : Page ε) := ⟨fun _ => List.prefix_refl _, nofun⟩
  exact ⟨rfl, nofun, nofun, fun _ => ⟨rfl, rfl⟩, rfl, rfl, fun _ => rfl, rfl, horder,
    fun hno => absurd rfl hno, fun _ _ => rfl, nofun, nofun⟩

/-! ### What goes up the line -/

/-- The same page, but for the terminal and for bytes that went to its open socket. -/
def Sends (p q : Page ε) : Prop :=
  ∃ engine sent rx, q = { p with engine := engine, record.sent := sent, rxSinceTx := rx } ∧
    (engine = none → p.engine = none) ∧
    ∀ m ∈ sent, m ∈ p.record.sent ∨
      p.ws.isSome ∧ p.line = .connected ∧ m.session = p.session ∧ m.ws = p.ws ∧ m.line = p.line

theorem sends_sendBytes (p : Page ε) (bytes : List UInt8) : Sends p (sendBytes p bytes) := by
  rw [sendBytes]
  split_ifs with hno
  · exact ⟨p.engine, p.record.sent, p.rxSinceTx, rfl, fun h => h, fun m hm => .inl hm⟩
  · refine ⟨p.engine, _, false, rfl, fun h => h, fun m hm => ?_⟩
    obtain hold | hnew := List.mem_append.mp hm
    · exact .inl hold
    · obtain rfl := List.mem_singleton.mp hnew
      refine .inr ⟨?_, ?_, rfl, rfl, rfl⟩
      · exact Option.isSome_iff_ne_none.mpr fun h => hno (.inl (by rw [h]; rfl))
      · by_contra hline
        exact hno (.inr hline)

variable (eng) in
theorem sends_feed (p : Page ε) (bytes : List UInt8) : Sends p (feed eng p bytes) := by
  rw [feed]
  split
  · rename_i e he
    dsimp only
    split_ifs
    · exact ⟨p.engine, p.record.sent, p.rxSinceTx, rfl, fun h => h, fun m hm => .inl hm⟩
    · exact ⟨_, p.record.sent, p.rxSinceTx, rfl, nofun, fun m hm => .inl hm⟩
    · obtain ⟨engine, sent, rx, heq, hengine, hsent⟩ :=
        sends_sendBytes { p with engine := some (eng.feed e bytes).1 } (eng.feed e bytes).2
      exact ⟨engine, sent, rx, heq, fun h => (nomatch hengine h), hsent⟩
  · exact ⟨p.engine, p.record.sent, p.rxSinceTx, rfl, fun h => h, fun m hm => .inl hm⟩

theorem Base.sends (h : Base p) {q : Page ε} (hs : Sends p q) : Base q := by
  obtain ⟨engine, sent, rx, rfl, hengine, hsent⟩ := hs
  refine ⟨h.live, h.number, h.opens, fun hno => h.engine (hengine hno), h.queued, h.logoff, h.logoffIdle,
    h.goodbye, ⟨h.inOrder.fed, h.inOrder.whole⟩, h.pending, h.later, h.ended, fun m hm => ?_⟩
  obtain hold | ⟨hws, hline, hsession, hsocket, hstate⟩ := hsent m hm
  · exact h.sent m hold
  · obtain ⟨w, hw⟩ := Option.isSome_iff_exists.mp hws
    rw [hsocket, hw, hsession, hstate, h.number w hw]
    exact ⟨rfl, hline⟩

theorem Phase.sends (h : Phase p) {q : Page ε} (hs : Sends p q) : Phase q := by
  obtain ⟨engine, sent, rx, rfl, -, -⟩ := hs
  exact ⟨h.idle, h.connecting, h.connected⟩

/-! ### The end of a session -/

theorem Base.arm (h : Base p) (hline : p.line = .idle) (hlogoff : p.logoffLive = [])
    (hengine : p.engine ≠ none) : Base (armLogoff p) := by
  have hlive : (armLogoff p).logoffLive = [p.timers] := by
    simp [armLogoff, clearLogoffTimer, hlogoff]
  exact ⟨h.live, h.number, h.opens, fun hno => absurd hno hengine, h.queued, hlive,
    fun hno => absurd hline hno, h.goodbye, ⟨h.inOrder.fed, h.inOrder.whole⟩, h.pending, h.later, h.ended,
    h.sent⟩

/-- The session that ends is the one on the line. -/
theorem ended_append (h : Base p) (why : Why) :
    ∀ e ∈ p.record.ends ++ [(p.session, why)], e.1 ≤ p.session := by
  intro e he
  obtain hold | hnew := List.mem_append.mp he
  · exact (h.ended e hold).1
  · rw [List.mem_singleton.mp hnew]

variable (eng) in
theorem lineDown_sound (h : Base p) (hline : p.line = .connected) (hws : p.ws = none) {why : Why}
    (hdone : why ≠ .hangup → p.rxQueue.flatten = [] ∧ p.hostClosedAt = none) :
    Sound (lineDown eng p why) := by
  have hidle : p.line ≠ .idle := by
    rw [hline]
    nofun
  have hgoodbye := clearGoodbye_live h.goodbye
  have hopens : ∀ w ∈ p.openSockets, p.ws = some w ∧ Line.idle = Line.connected := by
    intro w hw
    have hsome := (h.opens w hw).1
    rw [hws] at hsome
    cases hsome
  have hwhole : ∀ e ∈ p.record.ends ++ [(p.session, why)], e.2 ≠ .hangup →
      bytesOf e.1 p.record.fed = bytesOf e.1 p.record.received := by
    intro e he hne
    obtain hold | hnew := List.mem_append.mp he
    · exact h.inOrder.whole e hold hne
    · obtain rfl := List.mem_singleton.mp hnew
      rw [h.pending hidle, (hdone hne).1, List.append_nil]
  have hended := ended_append h why
  by_cases hup : why = .hangup
  · rw [lineDown, if_pos hup]
    refine ⟨⟨h.live, h.number, hopens, fun _ => ⟨rfl, h.logoffIdle hidle⟩, rfl, h.logoff,
      fun hno => absurd rfl hno, hgoodbye, ⟨h.inOrder.fed, hwhole⟩, fun hno => absurd rfl hno, h.later,
      fun e he => ⟨hended e he, fun _ => rfl⟩, h.sent⟩, ?_⟩
    exact ⟨fun _ => ⟨hws, rfl, rfl, rfl, hgoodbye⟩, nofun, nofun⟩
  · rw [lineDown, if_neg hup]
    refine ⟨⟨h.live, h.number, hopens, fun _ => ⟨rfl, h.logoffIdle hidle⟩, h.queued, h.logoff,
      fun hno => absurd rfl hno, hgoodbye, ⟨h.inOrder.fed, hwhole⟩, fun hno => absurd rfl hno, h.later,
      fun e he => ⟨hended e he, fun _ => rfl⟩, h.sent⟩, ?_⟩
    exact ⟨fun _ => ⟨hws, (hdone hup).1, (hdone hup).2, rfl, hgoodbye⟩, nofun, nofun⟩

theorem Sends.refl (p : Page ε) : Sends p p :=
  ⟨p.engine, p.record.sent, p.rxSinceTx, rfl, fun h => h, fun _ hm => .inl hm⟩

theorem Sends.same {q : Page ε} (hs : Sends p q) :
    q.line = p.line ∧ q.logoffLive = p.logoffLive ∧ (q.engine = none → p.engine = none) := by
  obtain ⟨engine, sent, rx, rfl, hengine, -⟩ := hs
  exact ⟨rfl, rfl, hengine⟩

variable (eng) in
theorem lineDown_same (p : Page ε) (why : Why) :
    (lineDown eng p why).line = .idle ∧ (lineDown eng p why).logoffLive = p.logoffLive ∧
      ((lineDown eng p why).engine = none → p.engine = none) := by
  rw [lineDown]
  split_ifs
  · exact ⟨rfl, rfl, Option.map_eq_none_iff.mp⟩
  · exact ⟨rfl, rfl, Option.map_eq_none_iff.mp⟩

theorem end_sound (h : Base p) (hline : p.line = .connected) (hws : p.ws = none) {why : Why}
    (hdone : why ≠ .hangup → p.rxQueue.flatten = [] ∧ p.hostClosedAt = none) (closedAt : Option ℚ)
    (now : ℚ) : Sound (endSession eng p why closedAt now) := by
  have hidle : p.line ≠ .idle := by
    rw [hline]
    nofun
  obtain ⟨hbase, hphase⟩ := lineDown_sound eng h hline hws hdone
  obtain ⟨hdown, hlogoff, hengine⟩ := lineDown_same eng p why
  have hsends : Sends (lineDown eng p why)
      (if saidGoodbye p why closedAt now then lineDown eng p why
        else feed eng (lineDown eng p why) logoffPage) := by
    split_ifs
    · exact .refl _
    · exact sends_feed _ _ _
  rw [endSession, if_pos hline]
  obtain ⟨hdown', hlogoff', hengine'⟩ := hsends.same
  have hphase' := hphase.sends hsends
  refine ⟨(hbase.sends hsends).arm (hdown'.trans hdown) ?_ ?_,
    ⟨hphase'.idle, hphase'.connecting, hphase'.connected⟩⟩
  · rw [hlogoff', hlogoff, h.logoffIdle hidle]
  · exact fun hno => hidle (h.engine (hengine (hengine' hno))).1

/-! ### Steps -/

theorem finish_sound (h : Base p) (hline : p.line = .connected) (hws : p.ws = none)
    (hqueue : p.rxQueue.flatten = []) (now : ℚ) : Sound (finishHostClose eng p now) := by
  have hbase : Base { p with hostClosedAt := none } :=
    ⟨h.live, h.number, h.opens, h.engine, h.queued, h.logoff, h.logoffIdle, h.goodbye,
      ⟨h.inOrder.fed, h.inOrder.whole⟩, h.pending, h.later, h.ended, h.sent⟩
  rw [finishHostClose, if_neg (not_not.mpr hline)]
  exact end_sound hbase hline hws (fun _ => ⟨hqueue, rfl⟩) _ _

/-- Nothing is queued when the counter is zero. -/
theorem Base.empty_iff (h : Base p) : p.rxQueued = 0 ↔ p.rxQueue.flatten = [] := by
  rw [h.queued, List.length_eq_zero_iff]

variable (eng) in
theorem hostClosed_sound (h : Base p) (hopened : p.opened = true) (hline : p.line = .connected)
    (hws : p.ws = none) (now : ℚ) : Sound (hostClosed eng p now) := by
  have hbase : Base { p with hostClosedAt := some now } :=
    ⟨h.live, h.number, h.opens, h.engine, h.queued, h.logoff, h.logoffIdle, h.goodbye,
      ⟨h.inOrder.fed, h.inOrder.whole⟩, h.pending, h.later, h.ended, h.sent⟩
  rw [hostClosed]
  dsimp only
  split_ifs with hempty
  · exact finish_sound hbase hline hws (h.empty_iff.mp hempty) now
  · refine ⟨hbase, ⟨?_, ?_, fun _ => ⟨hopened, iff_of_true hws rfl, fun _ => hempty⟩⟩⟩
    · rw [hline]
      nofun
    · rw [hline]
      nofun

theorem closeWs_base (h : Base p) : Base (closeWs p) ∧ (closeWs p).ws = none ∧
    (closeWs p).line = p.line ∧ (closeWs p).opened = p.opened := by
  rw [closeWs]
  cases hws : p.ws with
  | none =>
      have hsame : { p with ws := none } = p := by rw [← hws]
      exact ⟨by rw [Option.elim_none, hsame]; exact h, rfl, rfl, rfl⟩
  | some w =>
      have hlive : (dropSocket p w).live = [] := by
        simp [dropSocket, h.live, hws]
      have hopens : (dropSocket p w).openSockets = [] := by
        simp only [dropSocket, List.filter_eq_nil_iff]
        intro w' hw'
        have hsome := (h.opens w' hw').1
        rw [hws] at hsome
        simp [Option.some.inj hsome]
      refine ⟨⟨hlive, nofun, ?_, h.engine, h.queued, h.logoff, h.logoffIdle, h.goodbye,
        ⟨h.inOrder.fed, h.inOrder.whole⟩, h.pending, h.later, h.ended, h.sent⟩, rfl, rfl, rfl⟩
      intro w' hw'
      have hmem : w' ∈ (dropSocket p w).openSockets := hw'
      rw [hopens] at hmem
      cases hmem

theorem hangUp_sound (h : Base p) (hline : p.line = .connected) (now : ℚ) : Sound (hangUp eng p now) := by
  obtain ⟨hbase, hws, hsame, -⟩ := closeWs_base h
  exact end_sound hbase (hsame.trans hline) hws (fun hno => absurd rfl hno) _ _

/-- A connected page that is not at the end of its queue. -/
theorem sound_connected (h : Base p) (hline : p.line = .connected) (hopened : p.opened = true)
    (hclosed : p.ws = none ↔ p.hostClosedAt.isSome) (hqueue : p.ws = none → p.rxQueued ≠ 0) : Sound p := by
  refine ⟨h, ⟨?_, ?_, fun _ => ⟨hopened, hclosed, hqueue⟩⟩⟩
  · rw [hline]
    nofun
  · rw [hline]
    nofun

theorem Sound.connected_of_ws (h : Sound p) {w : Nat} (hws : p.ws = some w) (hopened : p.opened = true) :
    p.line = .connected := by
  cases hline : p.line with
  | idle =>
      rw [(h.2.idle hline).1] at hws
      cases hws
  | connecting =>
      rw [(h.2.connecting hline).1] at hopened
      cases hopened
  | connected => rfl

theorem Sound.not_idle_of_ws (h : Sound p) {w : Nat} (hws : p.ws = some w) : p.line ≠ .idle := by
  intro hline
  rw [(h.2.idle hline).1] at hws
  cases hws

theorem Sound.connecting_of_ws (h : Sound p) {w : Nat} (hws : p.ws = some w) (hopened : ¬p.opened = true) :
    p.line = .connecting ∧ Blank p ∧ p.paceCredit = 0 ∧ p.lastWasCnx = false := by
  cases hline : p.line with
  | idle => exact absurd hline (h.not_idle_of_ws hws)
  | connecting => exact ⟨rfl, (h.2.connecting hline).2⟩
  | connected => exact absurd (h.2.connected hline).1 hopened

/-- A timer for the goodbye, set anew. -/
theorem arm_sound (h : Sound p) (hline : p.line = .connected) : Sound (armGoodbyeClose p) := by
  have hgoodbye : (armGoodbyeClose p).goodbyeLive = [p.timers] := by
    rw [armGoodbyeClose, h.1.goodbye]
    exact congrArg (· ++ [p.timers]) (filter_timer _)
  obtain ⟨hopened, hclosed, hqueue⟩ := h.2.connected hline
  exact sound_connected
    ⟨h.1.live, h.1.number, h.1.opens, h.1.engine, h.1.queued, h.1.logoff, h.1.logoffIdle, hgoodbye,
      ⟨h.1.inOrder.fed, h.1.inOrder.whole⟩, h.1.pending, h.1.later, h.1.ended, h.1.sent⟩
    hline hopened hclosed hqueue

/-- Bytes that have come go behind those in the queue. -/
theorem received_sound (h : Sound p) (hline : p.line = .connected) (data : List Nat) (now : ℚ) :
    Sound
      { p with
        rxQueue := p.rxQueue ++ [data.map toByte]
        rxQueued := p.rxQueued + (data.map toByte).length
        rxSinceTx := true
        lastRx := now
        record.received := p.record.received ++ (data.map toByte).map (p.session, ·) } := by
  have hidle : p.line ≠ .idle := by
    rw [hline]
    nofun
  obtain ⟨hopened, hclosed, hqueue⟩ := h.2.connected hline
  have hreceived (m : Nat) :
      bytesOf m (p.record.received ++ (data.map toByte).map (p.session, ·)) =
        bytesOf m p.record.received ++ if p.session = m then data.map toByte else [] := by
    rw [bytesOf_append, bytesOf_map]
  refine sound_connected ⟨h.1.live, h.1.number, h.1.opens, h.1.engine, ?_, h.1.logoff, h.1.logoffIdle,
    h.1.goodbye, ⟨fun m => ?_, fun e he hne => ?_⟩, fun _ => ?_, fun m hm => ?_, h.1.ended, h.1.sent⟩
    hline hopened hclosed fun hws => ?_
  · simp [h.1.queued]
  · rw [hreceived]
    exact (h.1.inOrder.fed m).trans (List.prefix_append _ _)
  · have hother : ¬p.session = e.1 := fun heq => hidle ((h.1.ended e he).2 heq.symm)
    rw [hreceived, if_neg hother, List.append_nil]
    exact h.1.inOrder.whole e he hne
  · rw [hreceived, if_pos rfl, h.1.pending hidle]
    simp
  · rw [hreceived, if_neg hm.ne, List.append_nil]
    exact h.1.later m hm
  · exact Nat.ne_of_gt (Nat.lt_add_right _ (Nat.pos_of_ne_zero (hqueue hws)))

theorem onData_sound (h : Sound p) {w : Nat} (hw : p.ws = some w) (hopen : w ∈ p.openSockets)
    (data : List Nat) (now : ℚ) : Sound (onData p data now) := by
  have hline := (h.1.opens w hopen).2
  have hidle : p.line ≠ .idle := by
    rw [hline]
    nofun
  obtain ⟨hopened, hclosed, hqueue⟩ := h.2.connected hline
  have hsome : p.ws ≠ none := by
    rw [hw]
    nofun
  rw [onData]
  dsimp only
  split_ifs with hempty hseen
  · refine arm_sound (p := { p with goodbyeSeen := true }) (sound_connected ?_ hline hopened hclosed hqueue)
      hline
    exact ⟨h.1.live, h.1.number, h.1.opens, h.1.engine, h.1.queued, h.1.logoff, h.1.logoffIdle, h.1.goodbye,
      ⟨h.1.inOrder.fed, h.1.inOrder.whole⟩, h.1.pending, h.1.later, h.1.ended, h.1.sent⟩
  · exact arm_sound (received_sound h hline data now) hline
  · exact received_sound h hline data now

variable (eng) in
/-- Bytes go from the queue to the terminal in order. -/
theorem draw_base (h : Base p) (hline : p.line = .connected) (credit : ℚ) :
    Base (drawQueued eng p credit) ∧ (drawQueued eng p credit).line = p.line ∧
      (drawQueued eng p credit).ws = p.ws ∧ (drawQueued eng p credit).opened = p.opened ∧
      (drawQueued eng p credit).hostClosedAt = p.hostClosedAt := by
  have hidle : p.line ≠ .idle := by
    rw [hline]
    nofun
  let n := min credit.floor.toNat p.rxQueued
  obtain ⟨hflat, hlen⟩ := takeChunks_spec n p.rxQueue
  have hqueued : p.rxQueued - n = (takeChunks n p.rxQueue).2.flatten.length := by
    have htotal := congrArg List.length hflat
    rw [List.length_append, hlen, ← h.queued] at htotal
    omega
  have hfed (m : Nat) : bytesOf m (p.record.fed ++ (takeChunks n p.rxQueue).1.map (p.session, ·)) =
      bytesOf m p.record.fed ++ if p.session = m then (takeChunks n p.rxQueue).1 else [] := by
    rw [bytesOf_append, bytesOf_map]
  have hpending := h.pending hidle
  rw [← hflat] at hpending
  have horder : InOrder
      { p with record.fed := p.record.fed ++ (takeChunks n p.rxQueue).1.map (p.session, ·) } := by
    refine ⟨fun m => ?_, fun e he hne => ?_⟩
    · simp only [hfed]
      split_ifs with hm
      · rw [← hm, hpending, ← List.append_assoc]
        exact List.prefix_append _ _
      · rw [List.append_nil]
        exact h.inOrder.fed m
    · have hother : ¬p.session = e.1 := fun heq => hidle ((h.ended e he).2 heq.symm)
      simp only [hfed, if_neg hother, List.append_nil]
      exact h.inOrder.whole e he hne
  have hsends := sends_feed eng
    { p with
      paceCredit := min 8 (credit - credit.floor)
      rxQueue := (takeChunks n p.rxQueue).2
      rxQueued := p.rxQueued - n
      record.fed := p.record.fed ++ (takeChunks n p.rxQueue).1.map (p.session, ·) }
    (takeChunks n p.rxQueue).1
  refine ⟨Base.sends ?_ hsends, ?_⟩
  · refine ⟨h.live, h.number, h.opens, h.engine, hqueued, h.logoff, h.logoffIdle, h.goodbye,
      ⟨horder.fed, horder.whole⟩, fun _ => ?_, h.later, h.ended, h.sent⟩
    simp only [hfed, if_true]
    rw [hpending, List.append_assoc]
  · obtain ⟨engine, sent, rx, heq, -, -⟩ := hsends
    rw [drawQueued]
    dsimp only
    rw [heq]
    exact ⟨rfl, rfl, rfl, rfl⟩

/-- The pacing of a page without bytes to draw. -/
theorem sound_paced (h : Sound p) (credit : ℚ) (last : Option ℚ)
    (hcredit : p.line = .connecting → credit = 0) :
    Sound { p with paceLast := last, paceCredit := credit } := by
  refine ⟨⟨h.1.live, h.1.number, h.1.opens, h.1.engine, h.1.queued, h.1.logoff, h.1.logoffIdle, h.1.goodbye,
    ⟨h.1.inOrder.fed, h.1.inOrder.whole⟩, h.1.pending, h.1.later, h.1.ended, h.1.sent⟩,
    ⟨h.2.idle, fun hline => ?_, h.2.connected⟩⟩
  obtain ⟨hopened, hblank, -, hcnx⟩ := h.2.connecting hline
  exact ⟨hopened, hblank, hcredit hline, hcnx⟩

/-- There are bytes to draw, or a close to finish, only in a connected session. -/
theorem Sound.connected_of_queued (h : Sound p) (hqueue : p.rxQueued ≠ 0) : p.line = .connected := by
  rw [ne_eq, h.1.empty_iff] at hqueue
  cases hline : p.line with
  | idle => exact absurd (h.2.idle hline).2.1 hqueue
  | connecting => exact absurd (h.2.connecting hline).2.1.1 hqueue
  | connected => rfl

theorem Sound.not_closed (h : Sound p) (hempty : p.rxQueued = 0) : p.hostClosedAt = none := by
  cases hline : p.line with
  | idle => exact (h.2.idle hline).2.2.1
  | connecting => exact (h.2.connecting hline).2.1.2.1
  | connected =>
      obtain ⟨-, hclosed, hqueue⟩ := h.2.connected hline
      apply Option.not_isSome_iff_eq_none.mp
      exact fun hsome => hqueue (hclosed.mpr hsome) hempty

theorem pace_sound (h : Sound p) (docHidden : Bool) (now : ℚ) : Sound (pace eng p docHidden now) := by
  let q : Page ε := { p with paceLast := some now }
  have hq : Sound q := sound_paced h p.paceCredit (some now) fun hline => (h.2.connecting hline).2.2.1
  rw [pace]
  dsimp only
  split_ifs with hempty hclosed hcredit hend
  · rw [h.not_closed hempty] at hclosed
    cases hclosed
  · exact sound_paced h 0 (some now) fun _ => rfl
  · refine sound_paced h _ (some now) fun hline => ?_
    exact absurd (h.1.empty_iff.mpr (h.2.connecting hline).2.1.1) hempty
  all_goals
    have hline := hq.connected_of_queued hempty
    obtain ⟨hopened, hiff, -⟩ := hq.2.connected hline
    obtain ⟨hbase, hline', hws', hopened', hclosed'⟩ := draw_base eng hq.1 hline
      (paceGrows q docHidden (p.paceLast.elim (1000 / paceHz) (now - ·)))
    rw [← hws', ← hclosed'] at hiff
  · exact finish_sound hbase (hline'.trans hline) (hiff.mpr hend.2) (hbase.empty_iff.mp hend.1) now
  · exact sound_connected hbase (hline'.trans hline) (hopened'.trans hopened) hiff
      fun hws hzero => hend ⟨hzero, hiff.mp hws⟩

theorem connect_sound (h : Sound p) (made : Bool) : Sound (connect eng p made) := by
  rw [connect]
  split
  · exact ⟨⟨h.1.live, h.1.number, h.1.opens, h.1.engine, h.1.queued, h.1.logoff, h.1.logoffIdle, h.1.goodbye,
      ⟨h.1.inOrder.fed, h.1.inOrder.whole⟩, h.1.pending, h.1.later, h.1.ended, h.1.sent⟩,
      ⟨h.2.idle, h.2.connecting, h.2.connected⟩⟩
  · dsimp only
    split_ifs with hbusy hmade
    · exact h
    all_goals
      obtain ⟨hnows, hline⟩ := not_or.mp hbusy
      have hws : p.ws = none := Option.not_isSome_iff_eq_none.mp hnows
      have hlogoff : (clearLogoffTimer p).logoffLive = [] := by
        rw [clearLogoffTimer, h.1.logoff]
        exact filter_timer _
      have hgoodbye := clearGoodbye_live h.1.goodbye
      have hlive : p.live = [] := by
        rw [h.1.live, hws]
        rfl
      have hopens : ∀ w ∈ p.openSockets, False := fun w hw => by
        have hsome := (h.1.opens w hw).1
        rw [hws] at hsome
        cases hsome
      have hnew := h.1.later (p.session + 1) (Nat.lt_succ_self _)
      have hfed : bytesOf (p.session + 1) p.record.fed = [] := by
        have hfed := h.1.inOrder.fed (p.session + 1)
        rw [hnew] at hfed
        exact List.prefix_nil.mp hfed
      have hended (e : Nat × Why) (he : e ∈ p.record.ends) : e.1 ≤ p.session + 1 ∧ e.1 ≠ p.session + 1 := by
        have hle := (h.1.ended e he).1
        omega
      have hlater (n : Nat) (hn : p.session + 1 < n) : bytesOf n p.record.received = [] :=
        h.1.later n (Nat.lt_of_succ_lt hn)
    · have hsocket : p.live ++ [p.session + 1] = (some (p.session + 1)).toList := by
        rw [hlive]
        rfl
      have hpending : bytesOf (p.session + 1) p.record.received =
          bytesOf (p.session + 1) p.record.fed ++ ([] : List (List UInt8)).flatten := by
        rw [hnew, hfed]
        rfl
      exact ⟨⟨hsocket, fun w hw => (Option.some.inj hw).symm, fun w hw => (hopens w hw).elim, nofun, rfl,
        hlogoff, fun _ => hlogoff, hgoodbye, ⟨h.1.inOrder.fed, h.1.inOrder.whole⟩, fun _ => hpending, hlater,
        fun e he => ⟨(hended e he).1, fun heq => absurd heq (hended e he).2⟩, h.1.sent⟩,
        ⟨nofun, fun _ => ⟨rfl, ⟨rfl, rfl, rfl, hgoodbye⟩, rfl, rfl⟩, nofun⟩⟩
    · exact ⟨⟨h.1.live, fun w hw => absurd (hws.symm.trans hw) nofun, fun w hw => (hopens w hw).elim, nofun,
        rfl, hlogoff, fun _ => hlogoff, hgoodbye, ⟨h.1.inOrder.fed, h.1.inOrder.whole⟩,
        fun hno => absurd rfl hno, hlater, fun e he => ⟨(hended e he).1, fun _ => rfl⟩, h.1.sent⟩,
        ⟨fun _ => ⟨hws, rfl, rfl, rfl, hgoodbye⟩, nofun, nofun⟩⟩

theorem onOpen_sound (h : Sound p) {w : Nat} (hw : w ∈ p.live) : Sound (onOpen eng p w) := by
  have hws : p.ws = some w := by
    rw [h.1.live] at hw
    exact Option.mem_toList.mp hw
  have hidle := h.not_idle_of_ws hws
  have hclosed : p.hostClosedAt = none := by
    cases hline : p.line with
    | idle => exact absurd hline hidle
    | connecting => exact (h.2.connecting hline).2.1.2.1
    | connected =>
        obtain ⟨-, hclosed, -⟩ := h.2.connected hline
        apply Option.not_isSome_iff_eq_none.mp
        intro hsome
        rw [hclosed.mpr hsome] at hws
        cases hws
  rw [onOpen]
  dsimp only
  rw [if_neg (not_not.mpr hws)]
  refine sound_connected ⟨h.1.live, h.1.number, ?_, ?_, h.1.queued, h.1.logoff,
    fun _ => h.1.logoffIdle hidle, h.1.goodbye, ⟨h.1.inOrder.fed, h.1.inOrder.whole⟩,
    fun _ => h.1.pending hidle, h.1.later, ?_, h.1.sent⟩ rfl rfl ?_ ?_
  · intro w' hw'
    obtain hold | hnew := List.mem_append.mp hw'
    · exact ⟨(h.1.opens w' hold).1, rfl⟩
    · rw [List.mem_singleton.mp hnew]
      exact ⟨hws, rfl⟩
  · exact fun hno => absurd (h.1.engine (Option.map_eq_none_iff.mp hno)).1 hidle
  · exact fun e he => ⟨(h.1.ended e he).1, fun heq => absurd ((h.1.ended e he).2 heq) hidle⟩
  · simp only [hws, hclosed]
    exact iff_of_false nofun nofun
  · simp only [hws]
    exact nofun

theorem onClose_sound (h : Sound p) {w : Nat} (hw : w ∈ p.live) (now : ℚ) :
    Sound (onClose eng p w now) := by
  have hws : p.ws = some w := by
    rw [h.1.live] at hw
    exact Option.mem_toList.mp hw
  have hclose : closeWs p = { dropSocket p w with ws := none } := by
    rw [closeWs, hws]
    rfl
  obtain ⟨hbase, hnone, hsame, hopenedSame⟩ := closeWs_base h.1
  rw [onClose]
  dsimp only
  split_ifs with hother hopened
  · exact absurd hws hother
  · have hsound := hostClosed_sound eng hbase (hopenedSame.trans hopened)
      (hsame.trans (h.connected_of_ws hws hopened)) hnone now
    rw [hclose] at hsound
    exact hsound
  · obtain ⟨-, hblank, -⟩ := h.connecting_of_ws hws hopened
    have hidle := h.not_idle_of_ws hws
    rw [hclose] at hbase
    refine ⟨⟨hbase.live, hbase.number, fun w hw => ?_, fun _ => ⟨rfl, h.1.logoffIdle hidle⟩, h.1.queued,
      h.1.logoff, fun hno => absurd rfl hno, h.1.goodbye, ⟨h.1.inOrder.fed, h.1.inOrder.whole⟩,
      fun hno => absurd rfl hno, h.1.later, fun e he => ⟨(h.1.ended e he).1, fun _ => rfl⟩, h.1.sent⟩,
      ⟨fun _ => ⟨rfl, hblank⟩, nofun, nofun⟩⟩
    exact nomatch (hbase.opens w hw).1

/-- The timer that runs is the one that is known. -/
theorem filter_fired {live : List Nat} {t : Option Nat} (h : live = t.toList) {id : Nat} (hid : id ∈ live) :
    live.filter (· ≠ id) = [] := by
  rw [h] at hid ⊢
  obtain rfl := Option.mem_toList.mp hid
  simp

theorem closeAfterGoodbye_sound (h : Sound p) {id : Nat} (hid : id ∈ p.goodbyeLive) (now : ℚ) :
    Sound (closeAfterGoodbye eng { p with goodbyeLive := p.goodbyeLive.filter (· ≠ id) } now) := by
  have hfired := filter_fired h.1.goodbye hid
  have hbase : Base { p with goodbyeLive := p.goodbyeLive.filter (· ≠ id), goodbyeTimer := none } :=
    ⟨h.1.live, h.1.number, h.1.opens, h.1.engine, h.1.queued, h.1.logoff, h.1.logoffIdle, hfired,
      ⟨h.1.inOrder.fed, h.1.inOrder.whole⟩, h.1.pending, h.1.later, h.1.ended, h.1.sent⟩
  have hblank (hb : Blank p) :
      Blank { p with goodbyeLive := p.goodbyeLive.filter (· ≠ id), goodbyeTimer := none } :=
    ⟨hb.1, hb.2.1, hb.2.2.1, hfired⟩
  rw [closeAfterGoodbye]
  dsimp only
  split_ifs with hno
  · refine ⟨hbase, ⟨fun hline => ?_, fun hline => ?_, h.2.connected⟩⟩
    · obtain ⟨hws, hb⟩ := h.2.idle hline
      exact ⟨hws, hblank hb⟩
    · obtain ⟨hopened, hb, hcredit, hcnx⟩ := h.2.connecting hline
      exact ⟨hopened, hblank hb, hcredit, hcnx⟩
  · have hline : p.line = .connected := by
      by_contra hline
      exact hno (.inr hline)
    obtain ⟨hbase', hws, hline', hopened⟩ := closeWs_base hbase
    exact hostClosed_sound _ hbase' (hopened.trans (h.2.connected hline).1) (hline'.trans hline) hws now

/-- The start screen, with no timer for it. -/
theorem start_sound (h : Sound p) {live : List Nat} (hlive : live = []) :
    Sound (startScreen eng { p with logoffLive := live }) := by
  have hsame (engine : Option ε) (cnx : Bool) (hengine : engine = none → p.engine = none)
      (hcnx : p.line = .connecting → cnx = false) :
      Sound
        { p with logoffLive := live, logoffTimer := none, engine := engine, lastWasCnx := cnx } := by
    subst hlive
    refine ⟨⟨h.1.live, h.1.number, h.1.opens, fun hno => ⟨(h.1.engine (hengine hno)).1, rfl⟩, h.1.queued, rfl,
      fun _ => rfl, h.1.goodbye, ⟨h.1.inOrder.fed, h.1.inOrder.whole⟩, h.1.pending, h.1.later, h.1.ended,
      h.1.sent⟩, ⟨h.2.idle, fun hline => ?_, h.2.connected⟩⟩
    obtain ⟨hopened, hblank, hcredit, -⟩ := h.2.connecting hline
    exact ⟨hopened, hblank, hcredit, hcnx hline⟩
  have hcnx (hline : p.line = .connecting) : p.lastWasCnx = false := (h.2.connecting hline).2.2.2
  rw [startScreen]
  dsimp only
  split
  · exact hsame p.engine p.lastWasCnx (fun hno => hno) hcnx
  · split_ifs
    · exact hsame p.engine p.lastWasCnx (fun hno => hno) hcnx
    · exact hsame _ false nofun fun _ => rfl

/-- A key that is sent. -/
theorem send_sound (h : Sound p) (hline : p.line = .connected) (bytes : List UInt8) (cnx : Bool) :
    Sound { sendBytes p bytes with lastWasCnx := cnx } := by
  have hsends := sends_sendBytes p bytes
  have hbase := h.1.sends hsends
  have hphase := h.2.sends hsends
  have hline' : (sendBytes p bytes).line = .connected := hsends.same.1.trans hline
  refine ⟨⟨hbase.live, hbase.number, hbase.opens, hbase.engine, hbase.queued, hbase.logoff, hbase.logoffIdle,
    hbase.goodbye, ⟨hbase.inOrder.fed, hbase.inOrder.whole⟩, hbase.pending, hbase.later, hbase.ended,
    hbase.sent⟩, ⟨hphase.idle, fun hno => ?_, hphase.connected⟩⟩
  exact nomatch hline'.symm.trans hno

theorem pressSep_sound (h : Sound p) (code : UInt8) (made : Bool) (now : ℚ) :
    Sound (pressSep eng p code made now) := by
  rw [pressSep]
  split_ifs with hseen hidle hconnecting hcnx hline
  · exact h
  · exact connect_sound h made
  · exact h
  · refine hangUp_sound h.1 ?_ now
    cases hline : p.line with
    | idle => exact absurd ⟨hcnx.1, hline⟩ hidle
    | connecting => exact absurd ⟨hcnx.1, hline⟩ hconnecting
    | connected => rfl
  · exact h
  · exact send_sound h (not_not.mp hline) _ _

theorem pressChar_sound (h : Sound p) (ch : UInt8) : Sound (pressChar p ch) := by
  rw [pressChar]
  split_ifs with hno
  · exact h
  · exact send_sound h (not_not.mp fun hline => hno (.inl hline)) _ _

theorem pagehide_sound (h : Sound p) : Sound (onPagehide p) ∧ (onPagehide p).ws = none := by
  have hfrozen : Sound { p with frozen := true } :=
    ⟨⟨h.1.live, h.1.number, h.1.opens, h.1.engine, h.1.queued, h.1.logoff, h.1.logoffIdle, h.1.goodbye,
      ⟨h.1.inOrder.fed, h.1.inOrder.whole⟩, h.1.pending, h.1.later, h.1.ended, h.1.sent⟩,
      ⟨h.2.idle, h.2.connecting, h.2.connected⟩⟩
  rw [onPagehide]
  dsimp only
  split_ifs with hws
  · exact ⟨hfrozen, Option.isNone_iff_eq_none.mp hws⟩
  · obtain ⟨w, hw⟩ := Option.isSome_iff_exists.mp (Option.isNone_eq_false_iff.mp (Bool.not_eq_true _ ▸ hws))
    have hidle := hfrozen.not_idle_of_ws hw
    obtain ⟨hbase, hnone, -, -⟩ := closeWs_base hfrozen.1
    have hgoodbye := clearGoodbye_live hbase.goodbye
    have hlogoff : (clearLogoffTimer (closeWs { p with frozen := true })).logoffLive = [] := by
      rw [clearLogoffTimer, hbase.logoff]
      exact filter_timer _
    refine ⟨⟨⟨hbase.live, hbase.number, fun w hw => ?_, fun _ => ⟨rfl, hlogoff⟩, rfl, hlogoff,
      fun hno => absurd rfl hno, hgoodbye, ⟨hbase.inOrder.fed, hbase.inOrder.whole⟩,
      fun hno => absurd rfl hno, hbase.later, fun e he => ⟨(hbase.ended e he).1, fun _ => rfl⟩, hbase.sent⟩,
      ⟨fun _ => ⟨hnone, rfl, rfl, rfl, hgoodbye⟩, nofun, nofun⟩⟩, hnone⟩
    have hsome := (hbase.opens w hw).1
    rw [hnone] at hsome
    cases hsome

/-- Without a socket and without bytes to draw, nothing of a session is left but the logoff timer. -/
theorem Sound.blank_of_empty (h : Sound p) (hws : p.ws = none) (hqueue : p.rxQueue.flatten = []) :
    Blank p := by
  cases hline : p.line with
  | idle => exact (h.2.idle hline).2
  | connecting => exact (h.2.connecting hline).2.1
  | connected =>
      obtain ⟨-, -, hmore⟩ := h.2.connected hline
      exact absurd (h.1.empty_iff.mpr hqueue) (hmore hws)

theorem pageshow_sound (h : Sound p) (hws : p.ws = none)
    (hempty : p.rxQueue.flatten = [] ∧ p.logoffLive = []) : Sound (onPageshow eng p) := by
  have hblank := h.blank_of_empty hws hempty.1
  have hidle (engine : Option ε) : Sound { p with frozen := false, line := .idle, engine := engine } := by
    refine ⟨⟨h.1.live, h.1.number, fun w hw => ?_, fun _ => ⟨rfl, hempty.2⟩, h.1.queued, h.1.logoff,
      fun hno => absurd rfl hno, h.1.goodbye, ⟨h.1.inOrder.fed, h.1.inOrder.whole⟩,
      fun hno => absurd rfl hno, h.1.later, fun e he => ⟨(h.1.ended e he).1, fun _ => rfl⟩, h.1.sent⟩,
      ⟨fun _ => ⟨hws, hblank⟩, nofun, nofun⟩⟩
    have hsome := (h.1.opens w hw).1
    rw [hws] at hsome
    cases hsome
  rw [onPageshow]
  dsimp only
  split
  · rename_i hnone
    have hline := (h.1.engine hnone).1
    have hsame : { p with frozen := false } = { p with frozen := false, line := .idle, engine := p.engine } := by
      rw [← hline]
    rw [hsame]
    exact hidle p.engine
  · exact start_sound (hidle _) hempty.2

/-- A page that comes back with bytes in the queue or with the logoff timer has them in its start
screen. -/
theorem pageshow_left (h : Sound p) (hleft : ¬(p.rxQueue.flatten = [] ∧ p.logoffLive = [])) :
    ¬NothingLeft (onPageshow eng p) := by
  intro hnothing
  apply hleft
  rw [onPageshow] at hnothing
  dsimp only at hnothing
  split at hnothing
  · rename_i hnone
    obtain ⟨hline, hlogoff⟩ := h.1.engine hnone
    exact ⟨(h.2.idle hline).2.1, hlogoff⟩
  · rw [startScreen] at hnothing
    simp only [ne_eq, not_true_eq_false, if_false] at hnothing
    refine ⟨(hnothing.idle rfl).1, ?_⟩
    apply List.eq_nil_iff_forall_not_mem.mpr
    intro id hid
    exact nomatch (hnothing.logoff id hid).2

theorem handle_sound (h : Sound p) (e : Event ε) : Sound (handle eng p e) := by
  cases e with
  | «open» w =>
      rw [handle]
      split_ifs with hlive
      · exact onOpen_sound h hlive.1
      · exact h
  | message w data now =>
      rw [handle]
      split_ifs with hlive
      · exact onData_sound h hlive.2.2 hlive.2.1 data now
      · exact h
  | close w now =>
      rw [handle]
      split_ifs with hlive
      · exact onClose_sound h hlive now
      · exact h
  | error w => exact h
  | pace docHidden now => exact pace_sound h docHidden now
  | logoffFires id =>
      rw [handle]
      split_ifs with hlive
      · exact start_sound h (filter_fired h.1.logoff hlive)
      · exact h
  | goodbyeFires id now =>
      rw [handle]
      split_ifs with hlive
      · exact closeAfterGoodbye_sound h hlive now
      · exact h
  | sep code made now => exact pressSep_sound h code made now
  | char ch => exact pressChar_sound h ch
  | click made =>
      rw [handle]
      split_ifs
      · exact connect_sound h made
      · exact h
  | startClick made => exact connect_sound h made
  | engineReady e made =>
      have hready (ready : Bool) : Sound { p with engine := some e, connectWhenReady := ready } :=
        ⟨⟨h.1.live, h.1.number, h.1.opens, nofun, h.1.queued, h.1.logoff, h.1.logoffIdle, h.1.goodbye,
          ⟨h.1.inOrder.fed, h.1.inOrder.whole⟩, h.1.pending, h.1.later, h.1.ended, h.1.sent⟩,
          ⟨h.2.idle, h.2.connecting, h.2.connected⟩⟩
      rw [handle]
      dsimp only
      split_ifs
      · exact h
      · exact connect_sound (hready false) made
      · exact hready p.connectWhenReady
  | pagehide => exact (pagehide_sound h).1
  | pageshow => exact h

/-! ### Into the cache -/

@[simp] theorem feed_frozen (p : Page ε) (bytes : List UInt8) :
    (feed eng p bytes).frozen = p.frozen := by
  obtain ⟨engine, sent, rx, heq, -, -⟩ := sends_feed eng p bytes
  rw [heq]

@[simp] theorem sendBytes_frozen (p : Page ε) (bytes : List UInt8) :
    (sendBytes p bytes).frozen = p.frozen := by
  rw [sendBytes]
  split_ifs <;> rfl

@[simp] theorem endSession_frozen (p : Page ε) (why : Why) (closedAt : Option ℚ) (now : ℚ) :
    (endSession eng p why closedAt now).frozen = p.frozen := by
  rw [endSession]
  split_ifs <;> simp [lineDown, armLogoff, clearLogoffTimer, clearGoodbye] <;> split_ifs <;> rfl

@[simp] theorem finishHostClose_frozen (p : Page ε) (now : ℚ) :
    (finishHostClose eng p now).frozen = p.frozen := by
  rw [finishHostClose]
  split_ifs <;> simp

@[simp] theorem hostClosed_frozen (p : Page ε) (now : ℚ) :
    (hostClosed eng p now).frozen = p.frozen := by
  rw [hostClosed]
  dsimp only
  split_ifs <;> simp

@[simp] theorem closeWs_frozen (p : Page ε) : (closeWs p).frozen = p.frozen := by
  cases hws : p.ws <;> simp [closeWs, dropSocket, hws]

theorem onClose_frozen (p : Page ε) (w : Nat) (now : ℚ) : (onClose eng p w now).frozen = p.frozen := by
  rw [onClose]
  dsimp only
  split_ifs
  · rfl
  · exact hostClosed_frozen _ now
  · rfl

@[simp] theorem connect_frozen (p : Page ε) (made : Bool) :
    (connect eng p made).frozen = p.frozen := by
  rw [connect]
  split
  · rfl
  · dsimp only
    split_ifs <;> rfl

@[simp] theorem startScreen_frozen (p : Page ε) : (startScreen eng p).frozen = p.frozen := by
  rw [startScreen]
  dsimp only
  split
  · rfl
  · split_ifs <;> rfl

@[simp] theorem pace_frozen (p : Page ε) (docHidden : Bool) (now : ℚ) :
    (pace eng p docHidden now).frozen = p.frozen := by
  rw [pace]
  dsimp only
  split_ifs <;> simp [drawQueued]

theorem handle_frozen (p : Page ε) {e : Event ε} (he : e ≠ .pagehide) :
    (handle eng p e).frozen = p.frozen := by
  cases e with
  | pagehide => exact absurd rfl he
  | error | pageshow => rfl
  | startClick | pace => simp [handle]
  | «open» | message | goodbyeFires | sep | char =>
      simp only [handle, onOpen, onData, armGoodbyeClose, closeAfterGoodbye, pressSep, pressChar, hangUp]
      split_ifs <;> simp
  | close w now =>
      rw [handle]
      split_ifs
      · exact onClose_frozen p w now
      · rfl
  | logoffFires | click | engineReady =>
      simp only [handle]
      split_ifs <;> simp

/-- The cache holds no page with a socket. -/
def Kept (p : Page ε) : Prop := Sound p ∧ (p.frozen = true → p.ws = none)

theorem step_kept (h : Kept p) {e : Event ε} (hguard : ComesBackEmpty p e) : Kept (step eng p e) := by
  by_cases hfrozen : p.frozen = true
  · cases e with
    | pageshow =>
        simp only [step, if_pos hfrozen]
        refine ⟨pageshow_sound h.1 (h.2 hfrozen) (hguard hfrozen), ?_⟩
        rw [onPageshow]
        dsimp only
        split <;> simp
    | _ =>
        simp only [step, if_pos hfrozen]
        exact h
  · have hstep : step eng p e = handle eng p e := by
      rw [Bool.not_eq_true] at hfrozen
      simp [step, hfrozen]
    rw [hstep]
    refine ⟨handle_sound h.1 e, fun hafter => ?_⟩
    by_cases he : e = .pagehide
    · rw [he]
      exact (pagehide_sound h.1).2
    · rw [handle_frozen p he] at hafter
      exact absurd hafter hfrozen

end

/-- Along every run the sessions are isolated exactly when every page that comes back from the cache comes
back with nothing queued and no logoff timer. -/
theorem sessions_isolated_iff (evs : List (Event ε)) :
    (∀ evs', evs' <+: evs → Isolated (run (step eng) {} evs')) ↔
      Guarded (step eng) ComesBackEmpty {} evs := by
  apply safe_iff_guarded (I := Kept)
  · exact fun p e h hguard => step_kept h hguard
  · exact fun p h => h.1.isolated
  · intro p e h hno hisolated
    cases e with
    | pageshow =>
        obtain ⟨hfrozen, hleft⟩ := Classical.not_imp.mp hno
        simp only [step, if_pos hfrozen] at hisolated
        exact pageshow_left h.1 hleft hisolated.2.1
    | _ => exact hno trivial
  · exact ⟨sound_start, nofun⟩

/-- A terminal that shows the bytes that it was fed since the last reset. -/
def memory : Engine (List UInt8) where
  reset _ := []
  setReply e _ := e
  setStatus e _ := e
  feed e bytes := (e ++ bytes, [])

/-- The host sends a byte and closes; the page is hidden before the byte is drawn, and shown again. -/
def hiddenRun : List (Event (List UInt8)) :=
  [.engineReady [] false, .startClick true, .open 1, .message 1 [0x41] 0, .close 1 10, .pagehide, .pageshow]

/-- The byte is still queued in the start screen, and the next tick draws it there. -/
theorem hidden_byte_drawn :
    ¬Isolated (run (step memory) {} hiddenRun) ∧
      (run (step memory) {} (hiddenRun ++ [.pace false 20])).engine = some [0x41] := by
  refine ⟨fun h => ?_, ?_⟩
  · have hblank := h.2.1.idle rfl
    exact absurd hblank.1 (by decide)
  · decide +kernel

end UnicornSuite.WebMinitel
