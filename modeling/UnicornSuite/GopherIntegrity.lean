import UnicornSuite.GopherHistory
import UnicornSuite.GopherReplay

/-! The history is kept in the sessions whose every Back and Forward gets its page, and in no others. The
argument is made for Back; Forward is Back in the session seen the other way (`Session.swap`). -/

namespace UnicornSuite.Gopher

open CText

section Swap

def Browser.swap (b : Browser) : Browser :=
  { b with backStack := b.fwdStack, fwdStack := b.backStack }

def Move.swap : Move → Move
  | .back => .forward
  | .forward => .back

/-- The same session, looked at the other way. -/
def Session.swap (s : Session) : Session where
  browser := s.browser.swap
  trail := s.trail.map Trail.swap
  moving := s.moving.map Move.swap

theorem Browser.start_swap (b : Browser) (spawn : Bool) (o : Outcome) :
    b.swap.start spawn o = (b.start spawn o).swap := by
  cases o with
  | nothing => rfl
  | status text => rfl
  | fetch r =>
      show b.swap.kickFetch spawn r = (b.kickFetch spawn r).swap
      unfold kickFetch
      show (if b.inFlight ≠ none then _ else _) = _
      split_ifs <;> rfl

theorem Browser.back_swap (b : Browser) (spawn : Bool) :
    b.swap.back spawn = (b.forward spawn).swap := by
  obtain ⟨backStack, fwdStack, currentUrl, inFlight⟩ := b
  cases fwdStack with
  | nil => rfl
  | cons next rest => exact Browser.start_swap ⟨_, _, _, _⟩ spawn _

theorem Move.apply_swap (m : Move) (t : Trail CString) :
    m.swap.apply t.swap = (m.apply t).map Trail.swap := by
  cases m with
  | back => exact t.forward_swap
  | forward => exact t.back_swap

theorem bind_swap (m : Move) (trail : Option (Trail CString)) :
    (trail.map Trail.swap).bind m.swap.apply = (trail.bind m.apply).map Trail.swap := by
  cases trail with
  | none => rfl
  | some t => exact m.apply_swap t

theorem Browser.Heads.swap {b : Browser} {t : Trail CString} (h : b.Heads t) :
    b.swap.Heads t.swap :=
  ⟨h.fetch, h.fwd, h.current, h.back⟩

namespace Session

variable {s : Session}

theorem Faithful.swap (h : s.Faithful) : s.swap.Faithful := by
  obtain ⟨b, trail, moving⟩ := s
  cases moving with
  | none =>
      cases trail with
      | none => exact ⟨h.2.2, h.2.1, h.1⟩
      | some t => exact ⟨h.2.2, h.2.1, h.1⟩
  | some m =>
      obtain ⟨t, ht, hb⟩ := h
      refine ⟨t.swap, ?_, hb.swap⟩
      show (trail.map Trail.swap).bind m.swap.apply = _
      rw [bind_swap, ht]
      rfl

theorem swap_swap (s : Session) : s.swap.swap = s := by
  obtain ⟨b, trail, moving⟩ := s
  cases trail <;> cases moving
  · rfl
  · rename_i m
    cases m <;> rfl
  · rfl
  · rename_i t m
    cases m <;> rfl

/-- Forward is Back, looked at the other way. -/
theorem step_forward (s : Session) (spawn : Bool) :
    s.step (.forward spawn) = (s.swap.step (.back spawn)).swap := by
  have htrail : (s.trail.map Trail.swap).map Trail.swap = s.trail := congrArg trail s.swap_swap
  have hmoving : (s.moving.map Move.swap).map Move.swap = s.moving := congrArg moving s.swap_swap
  have hstarted : started s.browser.swap (s.browser.forward spawn).swap =
      started s.browser (s.browser.forward spawn) := rfl
  simp only [step, swap, Browser.step, s.browser.back_swap spawn, htrail, hstarted]
  by_cases hpress : started s.browser (s.browser.forward spawn) = true
  · simp only [hpress, if_true]
    rfl
  · simp only [hpress, if_false, Bool.false_eq_true, hmoving]
    rfl

theorem Succeeds.swap {spawn : Bool} (h : s.Succeeds (.forward spawn)) :
    s.swap.Succeeds (.back spawn) := h

end Session

end Swap

section Start

variable {b : Browser} {spawn : Bool} {o : Outcome}

/-- At most a fetch begins, where none is under way. -/
theorem Browser.start_eq (b : Browser) (spawn : Bool) (o : Outcome) :
    b.start spawn o = b ∨
      ∃ r, o = .fetch r ∧ b.inFlight = none ∧ spawn = true ∧
        b.start spawn o = { b with inFlight := some r } := by
  cases o with
  | nothing => exact .inl rfl
  | status text => exact .inl rfl
  | fetch r =>
      show b.kickFetch spawn r = b ∨ _
      unfold kickFetch
      split_ifs with hbusy hspawn
      · exact .inl rfl
      · refine .inr ⟨r, rfl, not_not.mp hbusy, hspawn, ?_⟩
        show b.kickFetch spawn r = _
        rw [kickFetch, if_neg hbusy, if_pos hspawn]
      · exact .inl rfl

theorem Browser.start_fetch {r : GopherFetch} (hidle : b.inFlight = none) (hspawn : spawn = true) :
    b.start spawn (.fetch r) = { b with inFlight := some r } := by
  show b.kickFetch spawn r = _
  rw [kickFetch, if_neg (not_not.mpr hidle), if_pos hspawn]

/-- What a fetch for the history asks for has its scheme. -/
theorem gopherNavigate_hasScheme {raw : CString} {push : Bool} {r : GopherFetch}
    (h : gopherNavigate raw push = .fetch r) : hasScheme r.url = true ∧ r.pushHistory = push := by
  have hurl := (gopherNavigate_fetch h).1
  refine ⟨by rw [hurl]; exact hasScheme_normalize raw, ?_⟩
  unfold gopherNavigate at h
  simp only at h
  split at h
  · cases h
  · split at h
    · cases h
    · cases h
      rfl

theorem gopherDispatchItem_hasScheme {it : GopherItem} {query : Option CString} {r : GopherFetch}
    (h : gopherDispatchItem it query = .fetch r) : hasScheme r.url = true ∧ r.pushHistory = true := by
  unfold gopherDispatchItem at h
  simp only at h
  generalize (if it.port > 0 then it.port else gopherDefaultPort) = port at h
  split_ifs at h
  · split at h
    · cases h
    · cases h
    · cases h
      rw [gopherBuildUrl_eq]
      exact ⟨hasScheme_append _, rfl⟩
  · exact gopherNavigate_hasScheme h

/-- A location whose page can be fetched again is fetched under its own URL. -/
theorem revisits_fetch {url : CString} (hscheme : hasScheme url = true)
    (h : Session.revisits url = true) :
    ∃ r, gopherNavigate url false = .fetch r ∧ r.adopts = true ∧ r.pushHistory = false ∧
      r.url = url := by
  unfold Session.revisits at h
  split at h
  · rename_i r hr
    refine ⟨r, hr, h, (gopherNavigate_hasScheme hr).2, ?_⟩
    rw [(gopherNavigate_fetch hr).1, gopherNormalizeUrl_of_hasScheme hscheme]
  · cases h
  · cases h

end Start

namespace Session

/-- What every step of a session keeps. -/
structure Sound (s : Session) : Prop where
  faithful : s.Faithful
  bounded : ∀ t ∈ s.trail, t.behind.length + t.ahead.length ≤ gopherHistoryMax
  schemes : ∀ t ∈ s.trail, ∀ url ∈ t.path, hasScheme url = true
  fetch : ∀ r ∈ s.browser.inFlight, hasScheme r.url = true
  again : s.moving = none → ∀ r ∈ s.browser.inFlight, r.pushHistory = false → r.adopts = true →
    s.browser.currentUrl = some r.url

variable {s : Session}

theorem Sound.swap (h : s.Sound) : s.swap.Sound where
  faithful := h.faithful.swap
  bounded := by
    intro t ht
    obtain ⟨t', ht', rfl⟩ := Option.map_eq_some_iff.mp ht
    rw [Nat.add_comm]
    exact h.bounded t' ht'
  schemes := by
    intro t ht url hurl
    obtain ⟨t', ht', rfl⟩ := Option.map_eq_some_iff.mp ht
    refine h.schemes t' ht' url ?_
    simp only [Trail.path, Trail.swap, List.mem_append, List.mem_reverse, List.mem_cons] at hurl ⊢
    rcases hurl with hurl | rfl | hurl
    · exact .inr (.inr hurl)
    · exact .inr (.inl rfl)
    · exact .inl hurl
  fetch := h.fetch
  again := by
    intro hmoving
    refine h.again ?_
    cases hm : s.moving with
    | none => rfl
    | some m =>
        have hsome : s.swap.moving = some m.swap := congrArg (Option.map Move.swap) hm
        rw [hsome] at hmoving
        cases hmoving

/-- While a Back or Forward is under way its fetch is. -/
theorem Faithful.busy (h : s.Faithful) {m : Move} (hm : s.moving = some m) :
    s.browser.inFlight ≠ none := by
  unfold Faithful at h
  rw [hm] at h
  obtain ⟨t, -, hheads⟩ := h
  obtain ⟨r, hr, -⟩ := hheads.fetch
  rw [hr]
  nofun

theorem Faithful.moving_of_idle (h : s.Faithful) (hidle : s.browser.inFlight = none) :
    s.moving = none := by
  cases hm : s.moving with
  | none => rfl
  | some m => exact absurd hidle (h.busy hm)

/-- Where no Back or Forward is under way the module shows the trail. -/
theorem faithful_of_settled (hm : s.moving = none) : s.Faithful ↔ s.browser.Shows s.trail := by
  unfold Faithful
  rw [hm]

theorem faithful_of_moving {m : Move} (hm : s.moving = some m) :
    s.Faithful ↔ ∃ t, s.trail.bind m.apply = some t ∧ s.browser.Heads t := by
  unfold Faithful
  rw [hm]

theorem shows_inFlight {b : Browser} {trail : Option (Trail CString)} (h : b.Shows trail)
    (flight : Option GopherFetch) : Browser.Shows { b with inFlight := flight } trail := by
  cases trail with
  | none => exact h
  | some t => exact h

/-- A visit or a Refresh begins, or is refused. -/
theorem Sound.start (h : s.Sound) {spawn : Bool} {o : Outcome}
    (ho : ∀ r, o = .fetch r → hasScheme r.url = true ∧
      (r.pushHistory = false → s.browser.currentUrl = some r.url)) :
    Sound { s with browser := s.browser.start spawn o } := by
  rcases s.browser.start_eq spawn o with heq | ⟨r, hr, hidle, -, heq⟩
  · rw [heq]
    exact h
  · rw [heq]
    have hmoving := h.faithful.moving_of_idle hidle
    have hshows := (faithful_of_settled hmoving).mp h.faithful
    have hfaithful : Faithful { s with browser := { s.browser with inFlight := some r } } :=
      (faithful_of_settled (s := { s with browser := { s.browser with inFlight := some r } })
        hmoving).mpr (shows_inFlight hshows _)
    refine ⟨hfaithful, h.bounded, h.schemes, ?_, ?_⟩
    · intro r' hr'
      cases hr'
      exact (ho r hr).1
    · intro _ r' hr' hpush _
      cases hr'
      exact (ho r hr).2 hpush

/-- The browser when Back has taken its place off the stack and nothing is fetched yet. -/
def popped (b : Browser) (rest : List CString) : Browser :=
  ⟨rest, Browser.leave b.fwdStack b.currentUrl, none, b.inFlight⟩

theorem back_cons {b : Browser} {prev : CString} {rest : List CString}
    (hstack : b.backStack = prev :: rest) (spawn : Bool) :
    b.back spawn = (popped b rest).start spawn (gopherNavigate prev false) := by
  rw [Browser.back, hstack]
  rfl

/-- A Back whose fetch starts is under way. -/
theorem step_back_moving {spawn : Bool} {r : GopherFetch} (hidle : s.browser.inFlight = none)
    (hflight : (s.browser.back spawn).inFlight = some r) :
    (s.step (.back spawn)).moving = some .back := by
  show (if started s.browser (s.browser.back spawn) then some Move.back else s.moving) = _
  rw [started, hidle, hflight]
  rfl

/-- A Back that gets its page begins: the stacks are those of its end. -/
theorem Sound.back_begins (h : s.Sound) {spawn : Bool} (hs : s.Succeeds (.back spawn))
    {prev : CString} {rest : List CString} (hstack : s.browser.backStack = prev :: rest) :
    ∃ t t', s.trail = some t ∧ t.back = some t' ∧ (s.step (.back spawn)).trail = some t ∧
      (s.step (.back spawn)).moving = some .back ∧ (s.step (.back spawn)).browser.Heads t' ∧
      ∀ r ∈ (s.step (.back spawn)).browser.inFlight, hasScheme r.url = true := by
  obtain ⟨hidle, hspawn, hrevisits⟩ := hs prev (by rw [hstack]; rfl)
  have hshows := (faithful_of_settled (h.faithful.moving_of_idle hidle)).mp h.faithful
  cases htrail : s.trail with
  | none =>
      rw [htrail] at hshows
      rw [hshows.1] at hstack
      cases hstack
  | some t =>
      rw [htrail] at hshows
      obtain ⟨hbehind, hhere, hahead⟩ := hshows
      have hscheme : hasScheme prev = true := by
        refine h.schemes t htrail prev ?_
        rw [Trail.path, ← hbehind, hstack]
        simp
      obtain ⟨r, hr, hadopts, hpush, hurl⟩ := revisits_fetch hscheme hrevisits
      have hroom : s.browser.fwdStack.length < gopherHistoryMax := by
        have hbound := h.bounded t htrail
        rw [← hbehind, ← hahead, hstack, List.length_cons] at hbound
        omega
      have hbrowser : s.browser.back spawn =
          ⟨rest, t.here :: t.ahead, none, some r⟩ := by
        rw [back_cons hstack, hr, Browser.start_fetch (b := popped s.browser rest) hidle hspawn,
          popped, hhere, Browser.leave, if_pos hroom, hahead]
      have hflight : (s.browser.back spawn).inFlight = some r := congrArg Browser.inFlight hbrowser
      refine ⟨t, ⟨rest, prev, t.here :: t.ahead⟩, rfl, ?_, htrail, step_back_moving hidle hflight,
        ?_, ?_⟩
      · rw [Trail.back, ← hbehind, hstack]
      · show Browser.Heads (s.browser.back spawn) _
        rw [hbrowser]
        exact ⟨⟨r, rfl, hadopts, hpush, hurl⟩, rfl, rfl, rfl⟩
      · show ∀ r ∈ (s.browser.back spawn).inFlight, _
        rw [hbrowser]
        rintro r' ⟨⟩
        rw [hurl]
        exact hscheme

theorem Sound.back (h : s.Sound) {spawn : Bool} (hs : s.Succeeds (.back spawn)) :
    (s.step (.back spawn)).Sound := by
  cases hstack : s.browser.backStack with
  | nil =>
      have hbrowser : s.browser.back spawn = s.browser := by rw [Browser.back, hstack]
      have hstep : s.step (.back spawn) = s := by
        simp only [step, Browser.step, hbrowser, started]
        cases s.browser.inFlight <;> simp
      rw [hstep]
      exact h
  | cons prev rest =>
      obtain ⟨t, t', htrail, hback, htrail', hmoving, hheads, hfetch⟩ := h.back_begins hs hstack
      refine ⟨(faithful_of_moving hmoving).mpr ⟨t', ?_, hheads⟩, ?_, ?_, hfetch, ?_⟩
      · rw [htrail']
        exact hback
      · rw [htrail', ← htrail]
        exact h.bounded
      · rw [htrail', ← htrail]
        exact h.schemes
      · rw [hmoving]
        nofun

theorem Sound.forward (h : s.Sound) {spawn : Bool} (hs : s.Succeeds (.forward spawn)) :
    (s.step (.forward spawn)).Sound := by
  rw [step_forward]
  exact (h.swap.back hs.swap).swap

theorem apply_path {m : Move} {t t' : Trail CString} (h : m.apply t = some t') : t'.path = t.path := by
  cases m with
  | back => exact Trail.back_path h
  | forward => exact Trail.forward_path h

theorem path_length (t : Trail CString) :
    t.path.length = t.behind.length + t.ahead.length + 1 := by
  rw [Trail.path, List.length_append, List.length_reverse, List.length_cons]
  omega

/-- The stack of a visit is the trail's. -/
theorem historyPushBack_eq {stack : List CString} {url : CString}
    (h : stack.length ≤ gopherHistoryMax) :
    Browser.historyPushBack stack url = (url :: stack).take gopherHistoryMax := by
  unfold Browser.historyPushBack gopherHistoryMax at *
  split_ifs with hfull
  · rw [List.take_succ_cons, List.dropLast_eq_take]
    congr 2
    omega
  · rw [List.take_of_length_le (by rw [List.length_cons]; omega)]

theorem Browser.adopt_first {b : Browser} {r : GopherFetch} (hpush : r.pushHistory = true)
    (hcurrent : b.currentUrl = none) :
    b.adopt r = { b with fwdStack := [], currentUrl := some r.url } := by
  rw [Browser.adopt, hpush, hcurrent]
  rfl

theorem Browser.adopt_next {b : Browser} {r : GopherFetch} {url : CString}
    (hpush : r.pushHistory = true) (hcurrent : b.currentUrl = some url) :
    b.adopt r =
      { b with
        backStack := Browser.historyPushBack b.backStack url
        fwdStack := []
        currentUrl := some r.url } := by
  rw [Browser.adopt, hpush, hcurrent]
  rfl

/-- A fetch is over that leaves the trail as it is. -/
theorem Sound.clears (h : s.Sound) (hm : s.moving = none) :
    Sound ⟨{ s.browser with inFlight := none }, s.trail, none⟩ := by
  have hshows := (faithful_of_settled hm).mp h.faithful
  exact ⟨shows_inFlight hshows none, h.bounded, h.schemes, nofun, nofun⟩

/-- A visit has its page: the stack of the module is the trail's. -/
theorem Sound.visited (h : s.Sound) (hm : s.moving = none) {r : GopherFetch}
    (hscheme : hasScheme r.url = true) (hpush : r.pushHistory = true) :
    Sound ⟨Browser.adopt { s.browser with inFlight := none } r,
      some (Trail.visit gopherHistoryMax r.url s.trail), none⟩ := by
  have hshows := (faithful_of_settled hm).mp h.faithful
  cases ht : s.trail with
  | none =>
      rw [ht] at hshows
      rw [Browser.adopt_first (b := { s.browser with inFlight := none }) hpush hshows.2.1]
      refine ⟨⟨hshows.1, rfl, rfl⟩, ?_, ?_, nofun, nofun⟩
      · intro t' ht'
        cases ht'
        exact Nat.zero_le _
      · intro t' ht' url hurl
        cases ht'
        rw [List.mem_singleton.mp hurl]
        exact hscheme
  | some t =>
      rw [ht] at hshows
      obtain ⟨hbehind, hhere, -⟩ := hshows
      have hbound := h.bounded t ht
      rw [Browser.adopt_next (b := { s.browser with inFlight := none }) hpush hhere]
      refine ⟨⟨?_, rfl, rfl⟩, ?_, ?_, nofun, nofun⟩
      · show Browser.historyPushBack s.browser.backStack t.here =
          (t.here :: t.behind).take gopherHistoryMax
        rw [hbehind, historyPushBack_eq (by omega)]
      · intro t' ht'
        cases ht'
        exact List.length_take_le _ _
      · intro t' ht' url hurl
        cases ht'
        rw [Trail.visit_path, List.mem_cons] at hurl
        rcases hurl with rfl | hurl
        · exact hscheme
        · apply h.schemes t ht url
          rw [Trail.path]
          exact List.mem_append_right _ (List.mem_of_mem_take hurl)

/-- A page has come that is not the end of a Back or Forward. -/
theorem Sound.adopts (h : s.Sound) (hm : s.moving = none) {r : GopherFetch}
    (hr : s.browser.inFlight = some r) (hadopts : r.adopts = true) :
    Sound ⟨Browser.adopt { s.browser with inFlight := none } r, s.arrive, none⟩ := by
  cases hpush : r.pushHistory with
  | false =>
      have hcurrent := h.again hm r hr hpush hadopts
      have htrail : s.arrive = s.trail := by
        unfold arrive
        rw [hm, hr]
        simp [hpush]
      have hbrowser : Browser.adopt { s.browser with inFlight := none } r =
          { s.browser with inFlight := none } := by
        rw [Browser.adopt, hpush, ← hcurrent]
        rfl
      rw [htrail, hbrowser]
      exact h.clears hm
  | true =>
      have htrail : s.arrive = some (Trail.visit gopherHistoryMax r.url s.trail) := by
        unfold arrive
        rw [hm, hr]
        simp [hpush, hadopts]
      rw [htrail]
      exact h.visited hm (h.fetch r hr) hpush

/-- A Back or Forward has its page. -/
theorem Sound.arrives (h : s.Sound) {m : Move} (hm : s.moving = some m) :
    ∃ t, s.trail.bind m.apply = some t ∧
      s.browser.onFetchDone true = ⟨t.behind, t.ahead, some t.here, none⟩ := by
  obtain ⟨t, ht, hheads⟩ := (faithful_of_moving hm).mp h.faithful
  obtain ⟨r, hr, hadopts, hpush, hurl⟩ := hheads.fetch
  refine ⟨t, ht, ?_⟩
  unfold Browser.onFetchDone
  rw [hr]
  simp only [hadopts, and_self, if_true]
  unfold Browser.adopt
  simp only [hpush, hurl, hheads.back, hheads.fwd, Bool.false_eq_true, if_false]

/-- The session of a trail when nothing is under way. -/
def settledAt (t : Trail CString) : Session := ⟨⟨t.behind, t.ahead, some t.here, none⟩, some t, none⟩

theorem Sound.lands (h : s.Sound) {m : Move} (hm : s.moving = some m) :
    ∃ t, s.trail.bind m.apply = some t ∧ s.step (.done true) = settledAt t := by
  obtain ⟨t, ht, hbrowser⟩ := h.arrives hm
  have harrive : s.arrive = some t := by
    rw [arrive, hm]
    exact ht
  exact ⟨t, ht, by simp only [step, Browser.step, hbrowser, harrive, settledAt]⟩

/-- The end of a Back or Forward: the places are those the trail had. -/
theorem Sound.arrived (h : s.Sound) {m : Move} (hm : s.moving = some m) :
    (s.step (.done true)).Sound := by
  obtain ⟨t, ht, hstep⟩ := h.lands hm
  obtain ⟨t₀, htrail, hmove⟩ := Option.bind_eq_some_iff.mp ht
  have hpath := apply_path hmove
  have hlength := congrArg List.length hpath
  rw [path_length, path_length] at hlength
  have hbound := h.bounded t₀ htrail
  rw [hstep]
  refine ⟨⟨rfl, rfl, rfl⟩, ?_, ?_, nofun, nofun⟩
  · rintro t' ⟨⟩
    omega
  · intro t' ht' url hurl
    cases ht'
    rw [hpath] at hurl
    exact h.schemes t₀ htrail url hurl

/-- The end of any other fetch, of one that has been given up too. -/
theorem Sound.ended (h : s.Sound) (hm : s.moving = none) (ok : Bool) :
    (s.step (.done ok)).Sound := by
  cases hr : s.browser.inFlight with
  | none =>
      have harrive : s.arrive = s.trail := by rw [arrive, hm, hr]
      have hbrowser : s.browser.onFetchDone ok = s.browser := by rw [Browser.onFetchDone, hr]
      have hstep : s.step (.done ok) = s := by
        simp only [step, Browser.step, hbrowser, harrive]
        cases ok <;> simp [← hm]
      rw [hstep]
      exact h
  | some r =>
      by_cases hadopts : ok = true ∧ r.adopts = true
      · obtain ⟨rfl, hadopts⟩ := hadopts
        have hbrowser : s.browser.onFetchDone true =
            Browser.adopt { s.browser with inFlight := none } r := by
          rw [Browser.onFetchDone, hr]
          exact if_pos ⟨rfl, hadopts⟩
        have hstep : s.step (.done true) =
            ⟨Browser.adopt { s.browser with inFlight := none } r, s.arrive, none⟩ := by
          simp only [step, Browser.step, hbrowser]
        rw [hstep]
        exact h.adopts hm hr hadopts
      · have hbrowser : s.browser.onFetchDone ok = { s.browser with inFlight := none } := by
          rw [Browser.onFetchDone, hr]
          exact if_neg hadopts
        have hstep : s.step (.done ok) = ⟨{ s.browser with inFlight := none }, s.trail, none⟩ := by
          have harrive : ok = true → s.arrive = s.trail := by
            intro hok
            rw [arrive, hm, hr]
            exact if_neg fun hboth => hadopts ⟨hok, hboth.2⟩
          cases ok with
          | false => simp only [step, Browser.step, hbrowser]
          | true => simp only [step, Browser.step, hbrowser, harrive rfl]
        rw [hstep]
        exact h.clears hm

theorem Sound.done (h : s.Sound) {ok : Bool} (hs : s.Succeeds (.done ok)) :
    (s.step (.done ok)).Sound := by
  cases hm : s.moving with
  | some m =>
      have hok : ok = true := hs (by rw [hm]; nofun)
      subst hok
      exact h.arrived hm
  | none => exact h.ended hm ok

theorem Sound.visits (h : s.Sound) (raw : CString) (spawn : Bool) :
    Sound { s with browser := s.browser.navigate spawn raw true } := by
  apply h.start
  intro r hr
  refine ⟨(gopherNavigate_hasScheme hr).1, ?_⟩
  intro hpush
  rw [(gopherNavigate_hasScheme hr).2] at hpush
  cases hpush

theorem Sound.clicks (h : s.Sound) (it : GopherItem) (query : Option CString) (spawn : Bool) :
    Sound { s with browser := s.browser.start spawn (gopherDispatchItem it query) } := by
  apply h.start
  intro r hr
  refine ⟨(gopherDispatchItem_hasScheme hr).1, ?_⟩
  intro hpush
  rw [(gopherDispatchItem_hasScheme hr).2] at hpush
  cases hpush

/-- The current location has its scheme. -/
theorem Sound.current_hasScheme (h : s.Sound) {url : CString}
    (hurl : s.browser.currentUrl = some url) : hasScheme url = true := by
  cases hm : s.moving with
  | some m =>
      obtain ⟨t, -, hheads⟩ := (faithful_of_moving hm).mp h.faithful
      rw [hheads.current] at hurl
      cases hurl
  | none =>
      have hshows := (faithful_of_settled hm).mp h.faithful
      cases ht : s.trail with
      | none =>
          rw [ht] at hshows
          rw [hshows.2.1] at hurl
          cases hurl
      | some t =>
          rw [ht] at hshows
          refine h.schemes t ht url ?_
          rw [hshows.2.1] at hurl
          rw [← Option.some.inj hurl, Trail.path]
          exact List.mem_append_right _ List.mem_cons_self

theorem Sound.refreshes (h : s.Sound) {url : CString} (hurl : s.browser.currentUrl = some url)
    (spawn : Bool) : Sound { s with browser := s.browser.navigate spawn url false } := by
  apply h.start
  intro r hr
  refine ⟨(gopherNavigate_hasScheme hr).1, ?_⟩
  intro _
  rw [(gopherNavigate_fetch hr).1, gopherNormalizeUrl_of_hasScheme (h.current_hasScheme hurl), hurl]

theorem Sound.step (h : s.Sound) {e : Event} (hs : s.Succeeds e) : (s.step e).Sound := by
  cases e with
  | go url spawn => exact h.visits url spawn
  | click it query spawn => exact h.clicks it query spawn
  | home spawn => exact h.visits gopherHomeUrl spawn
  | refresh spawn =>
      cases hurl : s.browser.currentUrl with
      | none =>
          have hstep : s.step (.refresh spawn) = s := by
            simp only [Session.step, Browser.step, hurl]
          rw [hstep]
          exact h
      | some url =>
          have hstep : s.step (.refresh spawn) =
              { s with browser := s.browser.navigate spawn url false } := by
            simp only [Session.step, Browser.step, hurl]
          rw [hstep]
          exact h.refreshes hurl spawn
  | stop => exact h
  | back spawn => exact h.back hs
  | forward spawn => exact h.forward hs
  | done ok => exact h.done hs

/-! ### Where a Back or Forward does not get its page -/

/-- A Back that fetches nothing has lost the location and a place of the stack. -/
theorem Sound.popped_misses (h : s.Sound) {spawn : Bool} {prev : CString} {rest : List CString}
    (hstack : s.browser.backStack = prev :: rest)
    (heq : s.browser.back spawn = popped s.browser rest) : ¬ (s.step (.back spawn)).Faithful := by
  intro hfaithful
  have hbrowser : (s.step (.back spawn)).browser = popped s.browser rest := heq
  have hmoving : (s.step (.back spawn)).moving = s.moving := by
    show (if started s.browser (s.browser.back spawn) then some .back else s.moving) = s.moving
    rw [heq]
    exact if_neg (by simp [started, popped])
  cases hm : s.moving with
  | some m =>
      -- the refused press takes one more place off the stack
      obtain ⟨t, ht, hheads⟩ := (faithful_of_moving hm).mp h.faithful
      obtain ⟨t', ht', hheads'⟩ := (faithful_of_moving (hmoving.trans hm)).mp hfaithful
      have htrail : s.trail.bind m.apply = some t' := ht'
      rw [ht] at htrail
      have hback := hheads'.back
      rw [hbrowser, ← Option.some.inj htrail, ← hheads.back, hstack] at hback
      have hlength : rest.length = (prev :: rest).length := congrArg List.length hback
      rw [List.length_cons] at hlength
      omega
  | none =>
      have hshows := (faithful_of_settled hm).mp h.faithful
      have hshows' := (faithful_of_settled (hmoving.trans hm)).mp hfaithful
      rw [show (s.step (.back spawn)).trail = s.trail from rfl] at hshows'
      cases ht : s.trail with
      | none =>
          rw [ht] at hshows
          rw [hshows.1] at hstack
          cases hstack
      | some t =>
          rw [ht] at hshows'
          have hcurrent := hshows'.2.1
          rw [hbrowser] at hcurrent
          cases hcurrent

/-- Back without its page loses the location or the place it came to. -/
theorem Sound.back_misses (h : s.Sound) {spawn : Bool} (hs : ¬ s.Succeeds (.back spawn)) :
    ¬ (s.step (.back spawn)).Faithful := by
  intro hfaithful
  cases hstack : s.browser.backStack with
  | nil =>
      apply hs
      intro url hurl
      rw [hstack] at hurl
      cases hurl
  | cons prev rest =>
      have hback := back_cons hstack spawn
      rcases (popped s.browser rest).start_eq spawn (gopherNavigate prev false) with
        heq | ⟨r, hr, hidle, hspawn, heq⟩
      · exact h.popped_misses hstack (hback.trans heq) hfaithful
      · have hidle : s.browser.inFlight = none := hidle
        have hflight : (s.browser.back spawn).inFlight = some r :=
          congrArg Browser.inFlight (hback.trans heq)
        have hmoving := step_back_moving hidle hflight
        obtain ⟨t', -, hheads⟩ := (faithful_of_moving hmoving).mp hfaithful
        obtain ⟨r', hr', hadopts, -⟩ := hheads.fetch
        cases hflight.symm.trans hr'
        apply hs
        intro url hurl
        rw [hstack] at hurl
        cases hurl
        exact ⟨hidle, hspawn, by rw [revisits, hr]; exact hadopts⟩

theorem Sound.forward_misses (h : s.Sound) {spawn : Bool} (hs : ¬ s.Succeeds (.forward spawn)) :
    ¬ (s.step (.forward spawn)).Faithful := by
  intro hfaithful
  have hmisses : ¬ (s.swap.step (.back spawn)).Faithful := h.swap.back_misses hs
  apply hmisses
  rw [step_forward] at hfaithful
  have hback := hfaithful.swap
  rwa [swap_swap] at hback

theorem Sound.done_misses (h : s.Sound) {ok : Bool} (hs : ¬ s.Succeeds (.done ok)) :
    ¬ (s.step (.done ok)).Faithful := by
  intro hfaithful
  cases hm : s.moving with
  | none => exact hs fun hne => absurd hm hne
  | some m =>
      cases ok with
      | true => exact hs fun _ => rfl
      | false =>
          obtain ⟨t, ht, hheads⟩ := (faithful_of_moving hm).mp h.faithful
          obtain ⟨t₀, htrail, -⟩ := Option.bind_eq_some_iff.mp ht
          obtain ⟨r, hr, -⟩ := hheads.fetch
          have hbrowser : (s.step (.done false)).browser = { s.browser with inFlight := none } := by
            show s.browser.onFetchDone false = _
            rw [Browser.onFetchDone, hr]
            exact if_neg fun hboth => by cases hboth.1
          have hshows : (s.step (.done false)).browser.Shows (some t₀) := by
            rw [← htrail]
            exact hfaithful
          rw [hbrowser] at hshows
          have hcurrent := hheads.current.symm.trans hshows.2.1
          cases hcurrent

theorem Sound.step_misses (h : s.Sound) {e : Event} (hs : ¬ s.Succeeds e) :
    ¬ (s.step e).Faithful := by
  cases e with
  | back spawn => exact h.back_misses hs
  | forward spawn => exact h.forward_misses hs
  | done ok => exact h.done_misses hs
  | go url spawn | click it query spawn | home spawn | refresh spawn | stop =>
      exact absurd trivial hs

end Session

/-! ### Sessions -/

namespace Session

variable {s : Session}

/-- A settled session with a location is that of its trail. -/
theorem Sound.eq_settledAt (h : s.Sound) (hidle : s.browser.inFlight = none) {t : Trail CString}
    (ht : s.trail = some t) : s = settledAt t := by
  have hm := h.faithful.moving_of_idle hidle
  have hshows := (faithful_of_settled hm).mp h.faithful
  obtain ⟨⟨backStack, fwdStack, currentUrl, inFlight⟩, trail, moving⟩ := s
  cases ht
  cases hidle
  cases hm
  obtain ⟨rfl, rfl, rfl⟩ := hshows
  rfl

/-- Back with its page: the place behind. -/
theorem Sound.back_done (h : s.Sound) {spawn ok : Bool} (hstack : s.browser.backStack ≠ [])
    (hs : s.Succeeds (.back spawn)) (hdone : (s.step (.back spawn)).Succeeds (.done ok)) :
    ∃ t t', s.trail = some t ∧ t.back = some t' ∧
      (s.step (.back spawn)).step (.done ok) = settledAt t' := by
  obtain ⟨prev, rest, hcons⟩ := List.exists_cons_of_ne_nil hstack
  obtain ⟨t, t', htrail, hback, htrail', hmoving, -⟩ := h.back_begins hs hcons
  have hok : ok = true := hdone (by rw [hmoving]; nofun)
  obtain ⟨t'', ht'', hlands⟩ := (h.back hs).lands hmoving
  have hsame : some t' = some t'' := by
    rw [← hback, ← ht'', htrail']
    rfl
  cases hsame
  exact ⟨t, t', htrail, hback, by rw [hok, hlands]⟩

/-- Forward with its page: the place ahead. -/
theorem Sound.forward_done (h : s.Sound) {spawn ok : Bool} (hstack : s.browser.fwdStack ≠ [])
    (hs : s.Succeeds (.forward spawn)) (hdone : (s.step (.forward spawn)).Succeeds (.done ok)) :
    ∃ t t', s.trail = some t ∧ t.forward = some t' ∧
      (s.step (.forward spawn)).step (.done ok) = settledAt t' := by
  obtain ⟨next, rest, hcons⟩ := List.exists_cons_of_ne_nil hstack
  obtain ⟨t, t', htrail, hback, htrail', hmoving, -⟩ := h.swap.back_begins hs.swap hcons
  obtain ⟨t₀, ht₀, rfl⟩ := Option.map_eq_some_iff.mp htrail
  have hmoving' : (s.step (.forward spawn)).moving = some .forward := by
    rw [step_forward]
    exact congrArg (Option.map Move.swap) hmoving
  have hok : ok = true := hdone (by rw [hmoving']; nofun)
  obtain ⟨t'', ht'', hlands⟩ := (h.forward hs).lands hmoving'
  have hsame : t₀.forward = some t'' := by
    rw [← ht'']
    show _ = s.trail.bind _
    rw [ht₀]
    rfl
  exact ⟨t₀, t'', ht₀, hsame, by rw [hok, hlands]⟩

end Session

theorem openBrowser_sound : openBrowser.Sound :=
  ⟨⟨rfl, rfl, rfl⟩, nofun, nofun, nofun, nofun⟩

theorem play_sound {es : List Event}
    (hes : Machine.Guarded Session.step Session.Succeeds openBrowser es) : (play es).Sound :=
  Machine.run_inv_of_guarded (fun _ _ h hs => h.step hs) openBrowser_sound hes

/-- A Back and the Forward behind it, each with its page, come to the same session. -/
theorem back_forward_returns {es : List Event} {spawn ok spawn' ok' : Bool}
    (hes : Machine.Guarded Session.step Session.Succeeds openBrowser
      (es ++ [.back spawn, .done ok, .forward spawn', .done ok']))
    (hidle : (play es).browser.inFlight = none) (hstack : (play es).browser.backStack ≠ []) :
    play (es ++ [.back spawn, .done ok, .forward spawn', .done ok']) = play es := by
  obtain ⟨hes, hback, hdone, hforward, hdone', -⟩ := Machine.guarded_append.mp hes
  have hsound := play_sound hes
  obtain ⟨t, t', htrail, ht', hstep⟩ := hsound.back_done hstack hback hdone
  have hsettled := hsound.eq_settledAt hidle htrail
  have hsound' : (Session.settledAt t').Sound := hstep ▸ (hsound.back hback).done hdone
  have hreturn := Trail.forward_of_back ht'
  have hahead : (Session.settledAt t').browser.fwdStack ≠ [] := by
    show t'.ahead ≠ []
    intro hnil
    rw [Trail.forward, hnil] at hreturn
    cases hreturn
  have hforward' : (Session.settledAt t').Succeeds (.forward spawn') := hstep ▸ hforward
  have hdone'' : ((Session.settledAt t').step (.forward spawn')).Succeeds (.done ok') :=
    hstep ▸ hdone'
  obtain ⟨t₁, t₂, ht₁, ht₂, hstep'⟩ := hsound'.forward_done hahead hforward' hdone''
  cases ht₁
  have hsame : some t = some t₂ := hreturn.symm.trans ht₂
  cases hsame
  have hplay : play (es ++ [.back spawn, .done ok, .forward spawn', .done ok']) =
      ((((play es).step (.back spawn)).step (.done ok)).step (.forward spawn')).step (.done ok') :=
    Machine.run_append Session.step openBrowser es _
  calc play (es ++ [.back spawn, .done ok, .forward spawn', .done ok'])
      = ((((play es).step (.back spawn)).step (.done ok)).step (.forward spawn')).step (.done ok') :=
        hplay
    _ = ((Session.settledAt t').step (.forward spawn')).step (.done ok') := by rw [hstep]
    _ = Session.settledAt t := hstep'
    _ = play es := hsettled.symm

/-- The path of visited places changes by a visit only, which forgets what was ahead and the oldest place
over the limit. -/
theorem path_kept {es : List Event} {e : Event}
    (hes : Machine.Guarded Session.step Session.Succeeds openBrowser (es ++ [e])) :
    (play (es ++ [e])).trail.map Trail.path = (play es).trail.map Trail.path ∨
      ∃ url, (play (es ++ [e])).trail = some (Trail.visit gopherHistoryMax url (play es).trail) := by
  obtain ⟨hes, -, -⟩ := Machine.guarded_append.mp hes
  have hsound := play_sound hes
  have hplay : play (es ++ [e]) = (play es).step e := Machine.run_append _ _ _ _
  rw [hplay]
  generalize play es = s at hsound
  cases e with
  | go url spawn | click it query spawn | home spawn | refresh spawn | stop | back spawn
  | forward spawn => exact .inl rfl
  | done ok =>
      cases ok with
      | false => exact .inl rfl
      | true =>
          cases hm : s.moving with
          | some m =>
              obtain ⟨t, ht, hstep⟩ := hsound.lands hm
              obtain ⟨t₀, htrail, hmove⟩ := Option.bind_eq_some_iff.mp ht
              refine .inl ?_
              rw [hstep, htrail]
              exact congrArg some (Session.apply_path hmove)
          | none =>
              show Option.map Trail.path s.arrive = _ ∨ ∃ url, s.arrive = _
              unfold Session.arrive
              rw [hm]
              cases s.browser.inFlight with
              | none => exact .inl rfl
              | some r =>
                  simp only
                  split_ifs
                  · exact .inr ⟨r.url, rfl⟩
                  · exact .inl rfl

/-- The stacks and the location are the history of the user in every state of exactly those sessions in
which every Back and Forward gets its page; there Back and Forward return, and nothing is lost but by a
visit. -/
theorem history_integrity (es : List Event) :
    ((∀ es', es' <+: es → (play es').Faithful) ↔
      Machine.Guarded Session.step Session.Succeeds openBrowser es) ∧
    (∀ spawn ok spawn' ok', Machine.Guarded Session.step Session.Succeeds openBrowser
        (es ++ [.back spawn, .done ok, .forward spawn', .done ok']) →
      (play es).browser.inFlight = none → (play es).browser.backStack ≠ [] →
      play (es ++ [.back spawn, .done ok, .forward spawn', .done ok']) = play es) ∧
    ∀ e, Machine.Guarded Session.step Session.Succeeds openBrowser (es ++ [e]) →
      (play (es ++ [e])).trail.map Trail.path = (play es).trail.map Trail.path ∨
        ∃ url, (play (es ++ [e])).trail =
          some (Trail.visit gopherHistoryMax url (play es).trail) := by
  refine ⟨?_, fun _ _ _ _ => back_forward_returns, fun _ => path_kept⟩
  exact Machine.safe_iff_guarded (fun _ _ h hs => h.step hs) (fun _ h => h.faithful)
    (fun _ _ h hs => h.step_misses hs) openBrowser_sound es

/-- Two menus are visited. -/
def twoVisits : List Event :=
  [.go (ascii "a/1") true, .done true, .go (ascii "b/1") true, .done true]

theorem history_integrity_returns :
    play (twoVisits ++ [.back true, .done true, .forward true, .done true]) = play twoVisits :=
  (history_integrity twoVisits).2.1 true true true true (by decide) (by decide)
    (by decide)

/-- Back is pressed while the second menu is loaded again. -/
def refusedBack : List Event := twoVisits ++ [.refresh true, .back true]

/-- The refused Back has taken the location and the place behind it. -/
theorem history_lost : ¬ ∀ es, (play es).Faithful := by
  intro hall
  have hmoving : (play refusedBack).moving = none := by decide
  have htrail : (play refusedBack).trail =
      some ⟨[ascii "gopher://a/1"], ascii "gopher://b/1", []⟩ := by decide
  have hstack : (play refusedBack).browser.backStack = [] := by decide
  have hshows := (Session.faithful_of_settled hmoving).mp (hall refusedBack)
  rw [htrail] at hshows
  rw [hshows.1] at hstack
  cases hstack

end UnicornSuite.Gopher
