import UnicornSuite.LibRun

/-! Navigation in the browser (`web_navigate`, the buttons, `web_fetch_timer_proc` and
`web_history_push`): a list of URLs with a cursor, the page on display and the one fetch in flight. What a
fetch is for is staged when it starts and read when it is done. `join` is `HTParse` with `HTSimplify`. -/

namespace UnicornSuite.WebNavigate

abbrev Url := List Char

/-! ### Kinds of URLs -/

/-- `rwb_ext_is`: the extension of the part before a query or a fragment. -/
def extIs (url : Url) (ext : String) : Bool :=
  let path := url.takeWhile fun c => c ≠ '?' ∧ c ≠ '#'
  let n := ext.toList.length
  n ≤ path.length ∧ (path.drop (path.length - n)).map Char.toLower = ext.toList

def urlIsCdf (url : Url) : Bool := extIs url ".cdf"

def urlIsAu (url : Url) : Bool := extIs url ".au"

def urlIsTsp (url : Url) : Bool := extIs url ".tsp"

/-- `rwb_external_handler_try` takes the URL. -/
def isExternal (url : Url) : Bool := extIs url ".ram"

/-- What is played or handed on without a fetch of a page. -/
def isSideAction (url : Url) : Bool := urlIsAu url || urlIsTsp url || isExternal url

example : isSideAction "http://host/a.AU?x=1".toList = true := by decide
example : isSideAction "http://host/a.html#b.au".toList = false := by decide

/-! ### State -/

/-- `WebFetchCtx`. -/
structure Fetch where
  /-- The URL as `web_navigate` was called with, which the code does not keep. -/
  asked : Url
  url : Url
  pushHistory : Bool
  targetPos : Int := -1
  cancelled : Bool := false
  isCdf : Bool

structure Browser (δ : Type) where
  history : List Url := []
  historyPos : Int := -1
  currentUrl : Url := []
  /-- The document on display, with the URL it came from. -/
  viewDoc : Option (Url × δ) := none
  fetch : Option Fetch := none

/-- `WEB_HISTORY_MAX`. -/
abbrev webHistoryMax : Nat := 64

/-- `WEB_DEFAULT_URL`. -/
def webDefaultUrl : Url := "http://retro.greektimes.ca/".toList

/-- What fits into a URL buffer. -/
def cut (url : Url) : Url := url.take 1023

section

variable {δ : Type} (join : Url → Url → Url)

/-! ### Navigation -/

/-- The URL a fetch is made for: joined with the page on display, or with itself. -/
def resolve (currentUrl url : Url) : Url :=
  cut (join (if currentUrl ≠ [] then currentUrl else cut url) (cut url))

/-- `web_navigate`, with whether `CreateThread` succeeds. -/
def navigate (b : Browser δ) (url : Url) (pushHistory : Bool) (spawn : Bool) : Browser δ :=
  let r := resolve join b.currentUrl url
  if b.fetch.isSome ∨ url = [] ∨ isSideAction r ∨ spawn = false then b
  else { b with fetch := some { asked := url, url := r, pushHistory, isCdf := urlIsCdf r } }

/-- The slot is staged on the fetch that this press has started, if it has. -/
def stage (before after : Browser δ) (target : Int) : Browser δ :=
  if before.fetch.isSome then after
  else { after with fetch := after.fetch.map fun f => { f with targetPos := target } }

/-- `web_on_back` and `web_on_forward`: to the slot `target`. -/
def moveTo (b : Browser δ) (target : Int) (spawn : Bool) : Browser δ :=
  match b.history[target.toNat]? with
  | some url => stage b (navigate join b url false spawn) target
  | none => b

def onBack (b : Browser δ) (spawn : Bool) : Browser δ :=
  if b.historyPos > 0 then moveTo join b (b.historyPos - 1) spawn else b

def onForward (b : Browser δ) (spawn : Bool) : Browser δ :=
  if b.historyPos < b.history.length - 1 then moveTo join b (b.historyPos + 1) spawn else b

def onHome (b : Browser δ) (spawn : Bool) : Browser δ := navigate join b webDefaultUrl true spawn

def onRefresh (b : Browser δ) (spawn : Bool) : Browser δ :=
  if b.currentUrl ≠ [] then navigate join b b.currentUrl false spawn else onHome join b spawn

def onStop (b : Browser δ) : Browser δ :=
  { b with fetch := b.fetch.map fun f => { f with cancelled := true } }

/-! ### Completion -/

/-- The entries that a push keeps: those up to the cursor, without the oldest where there is no room. -/
def kept (b : Browser δ) : List Url :=
  let upTo := b.history.take (b.historyPos + 1).toNat
  if upTo.length ≥ webHistoryMax then upTo.drop 1 else upTo

/-- `web_history_push`. -/
def historyPush (b : Browser δ) (url : Url) : Browser δ :=
  { b with history := kept b ++ [url], historyPos := (kept b).length }

/-- The commit of a page that has come. -/
def commit (b : Browser δ) (f : Fetch) (doc : δ) : Browser δ :=
  let b := { b with viewDoc := some (f.url, doc), currentUrl := f.url }
  if f.pushHistory then historyPush b f.url
  else if 0 ≤ f.targetPos ∧ f.targetPos < b.history.length then { b with historyPos := f.targetPos }
  else b

/-- `web_fetch_timer_proc` when the worker is done, with the page unless the fetch failed. -/
def onDone (b : Browser δ) (page : Option δ) : Browser δ :=
  match b.fetch with
  | none => b
  | some f =>
      let b := { b with fetch := none }
      match page with
      | some doc => if f.cancelled ∨ f.isCdf then b else commit b f doc
      | none => b

/-- What the user does, with whether `CreateThread` succeeds, and the end of a fetch. -/
inductive Event (δ : Type) where
  | go (url : Url) (spawn : Bool)
  | click (url : Url) (spawn : Bool)
  | home (spawn : Bool)
  | refresh (spawn : Bool)
  | back (spawn : Bool)
  | forward (spawn : Bool)
  | stop
  | done (page : Option δ)

def step (b : Browser δ) : Event δ → Browser δ
  | .go url spawn => navigate join b (cut url) true spawn
  | .click url spawn => navigate join b url true spawn
  | .home spawn => onHome join b spawn
  | .refresh spawn => onRefresh join b spawn
  | .back spawn => onBack join b spawn
  | .forward spawn => onForward join b spawn
  | .stop => onStop b
  | .done page => onDone b page

end

end UnicornSuite.WebNavigate

/-! The list, the cursor and the page on display along every run of the browser. Nothing but the end of a
fetch changes them, and while a fetch is in flight no other one starts. The cursor goes to the entry that
was asked for, the page is the one the joined URL leads to: the two differ where joining changes an
entry. -/

namespace UnicornSuite.WebNavigate

open Machine

variable {δ : Type} (join : Url → Url → Url)

/-! ### What the history should be -/

/-- The cursor is in the list, and the entry under it is the URL of the page on display. -/
def Agrees (b : Browser δ) : Prop :=
  ∀ v ∈ b.viewDoc, 0 ≤ b.historyPos ∧ b.historyPos < b.history.length ∧
    b.history.length ≤ webHistoryMax ∧ b.history[b.historyPos.toNat]? = some v.1

/-- The list, the cursor and the page. -/
def Browser.view (b : Browser δ) : List Url × Int × Option (Url × δ) :=
  (b.history, b.historyPos, b.viewDoc)

/-- The fetch in flight ends with a page that is shown. -/
def Commits (b : Browser δ) (f : Fetch) (page : Option δ) : Prop :=
  b.fetch = some f ∧ f.cancelled = false ∧ f.isCdf = false ∧ page.isSome

/-- A page for Back, Forward or Refresh comes from the URL that was asked for. -/
def AsAsked (b : Browser δ) : Event δ → Prop
  | .done page => ∀ f, Commits b f page → f.pushHistory = false → f.url = f.asked
  | _ => True

def Event.isDone : Event δ → Bool
  | .done _ => true
  | _ => false

/-- An action starts a fetch, and other actions follow while it is in flight. -/
structure Starts (b : Browser δ) (press : Event δ) (mid : List (Event δ)) : Prop where
  idle : b.fetch = none
  started : (step join b press).fetch.isSome
  waits : ∀ e ∈ mid, e.isDone = false

/-- The action, what follows it and the end of its fetch. -/
def attempt (b : Browser δ) (press : Event δ) (mid : List (Event δ)) (page : Option δ) : Browser δ :=
  run (step join) b (press :: mid ++ [.done page])

/-- The fetch of the action ends with a page that is shown. -/
def Succeeds (b : Browser δ) (press : Event δ) (mid : List (Event δ)) (page : Option δ) : Prop :=
  Starts join b press mid ∧ ∃ f, Commits (run (step join) b (press :: mid)) f page

/-! ### What an action does -/

section

variable {join} {b : Browser δ}

variable (join) in
theorem navigate_cases (b : Browser δ) (url : Url) (pushHistory spawn : Bool) :
    navigate join b url pushHistory spawn = b ∨
      b.fetch = none ∧ navigate join b url pushHistory spawn =
        { b with
          fetch := some
            { asked := url, url := resolve join b.currentUrl url, pushHistory
              isCdf := urlIsCdf (resolve join b.currentUrl url) } } := by
  simp only [navigate]
  split_ifs with hno
  · exact .inl rfl
  · exact .inr ⟨Option.not_isSome_iff_eq_none.mp fun h => hno (.inl h), rfl⟩

/-- What an action stages: a new navigation, a slot with its entry, or the page on display. -/
def StagedBy (b : Browser δ) (f : Fetch) : Prop :=
  f.pushHistory = true ∨
    (∃ target : Nat, f.targetPos = target ∧ b.history[target]? = some f.asked) ∨
    f.targetPos = -1 ∧ b.currentUrl ≠ [] ∧ f.asked = b.currentUrl

/-- An action other than Stop starts a fetch where there is none, or does nothing. -/
def Quiet (b b' : Browser δ) : Prop :=
  b' = b ∨ b.fetch = none ∧ ∃ f, StagedBy b f ∧ b' = { b with fetch := some f }

theorem navigate_push (b : Browser δ) (url : Url) (spawn : Bool) :
    Quiet b (navigate join b url true spawn) := by
  obtain heq | ⟨hidle, heq⟩ := navigate_cases join b url true spawn
  · exact .inl heq
  · exact .inr ⟨hidle, _, .inl rfl, heq⟩

theorem stage_idle (b : Browser δ) (target : Int) : stage b b target = b := by
  obtain ⟨history, historyPos, currentUrl, viewDoc, fetch⟩ := b
  cases fetch <;> rfl

variable (join) in
/-- A move to a slot asks for its entry. -/
theorem moveTo_cases (b : Browser δ) (target : Int) (spawn : Bool) :
    moveTo join b target spawn = b ∨
      b.fetch = none ∧ ∃ f, f.pushHistory = false ∧ f.targetPos = target ∧
        b.history[target.toNat]? = some f.asked ∧
        moveTo join b target spawn = { b with fetch := some f } := by
  rw [moveTo]
  split
  · rename_i url hurl
    obtain heq | ⟨hidle, heq⟩ := navigate_cases join b url false spawn
    · rw [heq, stage_idle]
      exact .inl rfl
    · rw [heq, stage, hidle]
      exact .inr ⟨rfl, _, rfl, rfl, hurl, rfl⟩
  · exact .inl rfl

theorem moveTo_quiet (b : Browser δ) {target : Int} (htarget : 0 ≤ target) (spawn : Bool) :
    Quiet b (moveTo join b target spawn) := by
  obtain heq | ⟨hidle, f, -, hslot, hentry, heq⟩ := moveTo_cases join b target spawn
  · exact .inl heq
  · have hnat : f.targetPos = target.toNat := hslot.trans (Int.toNat_of_nonneg htarget).symm
    exact .inr ⟨hidle, f, .inr (.inl ⟨_, hnat, hentry⟩), heq⟩

variable (join) in
theorem step_quiet {b : Browser δ} (hlow : -1 ≤ b.historyPos) {e : Event δ} (hstop : e ≠ .stop)
    (hdone : e.isDone = false) : Quiet b (step join b e) := by
  cases e with
  | go url spawn => exact navigate_push b _ spawn
  | click url spawn => exact navigate_push b _ spawn
  | home spawn => exact navigate_push b _ spawn
  | refresh spawn =>
      rw [step, onRefresh]
      split_ifs with hurl
      · obtain heq | ⟨hidle, heq⟩ := navigate_cases join b b.currentUrl false spawn
        · exact .inl heq
        · exact .inr ⟨hidle, _, .inr (.inr ⟨rfl, hurl, rfl⟩), heq⟩
      · exact navigate_push b _ spawn
  | back spawn =>
      rw [step, onBack]
      split_ifs with hpos
      · exact moveTo_quiet b (Int.sub_nonneg_of_le hpos) spawn
      · exact .inl rfl
  | forward spawn =>
      rw [step, onForward]
      split_ifs with hpos
      · exact moveTo_quiet b (by omega) spawn
      · exact .inl rfl
  | stop => exact absurd rfl hstop
  | done page => cases hdone

/-! ### The state of every run -/

/-- The list and the cursor, and what the fetch in flight is for. -/
structure Sound (b : Browser δ) : Prop where
  low : -1 ≤ b.historyPos
  high : b.historyPos < b.history.length
  size : b.history.length ≤ webHistoryMax
  current : b.currentUrl = b.viewDoc.elim [] Prod.fst
  shown : b.viewDoc.isSome → 0 ≤ b.historyPos
  staged : ∀ f ∈ b.fetch, StagedBy b f

theorem Sound.quiet (h : Sound b) {b' : Browser δ} (hq : Quiet b b') : Sound b' := by
  obtain rfl | ⟨-, f, hf, rfl⟩ := hq
  · exact h
  · refine ⟨h.low, h.high, h.size, h.current, h.shown, fun f' hf' => ?_⟩
    obtain rfl := Option.some.inj hf'
    exact hf

theorem Sound.stop (h : Sound b) : Sound (onStop b) := by
  refine ⟨h.low, h.high, h.size, h.current, h.shown, fun f hf => ?_⟩
  obtain ⟨f', hf', rfl⟩ := Option.map_eq_some_iff.mp hf
  exact h.staged f' hf'

/-- The end of a fetch shows a page or only ends the fetch. -/
theorem onDone_cases (b : Browser δ) (page : Option δ) :
    (¬∃ f, Commits b f page) ∧ onDone b page = { b with fetch := none } ∨
      ∃ f doc, Commits b f (some doc) ∧ page = some doc ∧
        onDone b page = commit { b with fetch := none } f doc := by
  obtain ⟨history, historyPos, currentUrl, viewDoc, fetch⟩ := b
  cases fetch with
  | none => exact .inl ⟨fun ⟨f, hf⟩ => (nomatch hf.1), rfl⟩
  | some f =>
      cases page with
      | none => exact .inl ⟨fun ⟨_, hf⟩ => (nomatch hf.2.2.2), rfl⟩
      | some doc =>
          simp only [onDone]
          split_ifs with hdrop
          · refine .inl ⟨fun ⟨f', hf⟩ => ?_, rfl⟩
            obtain rfl := Option.some.inj hf.1
            simp [hf.2.1, hf.2.2.1] at hdrop
          · refine .inr ⟨f, doc, ⟨rfl, ?_, ?_, rfl⟩, rfl, rfl⟩
            · exact eq_false_of_ne_true fun h => hdrop (.inl h)
            · exact eq_false_of_ne_true fun h => hdrop (.inr h)

theorem kept_length (hsize : b.history.length ≤ webHistoryMax) :
    (kept b).length < webHistoryMax := by
  simp only [kept]
  split_ifs with hfull
  · rw [List.length_drop, List.length_take]
    simp only [webHistoryMax] at hsize ⊢
    omega
  · exact Nat.lt_of_not_le hfull

/-- A page is on display where it can be refreshed. -/
theorem Sound.shown_of_current (h : Sound b) (hurl : b.currentUrl ≠ []) :
    ∃ v, b.viewDoc = some v ∧ b.currentUrl = v.1 ∧ 0 ≤ b.historyPos := by
  cases hview : b.viewDoc with
  | none =>
      rw [h.current, hview] at hurl
      exact absurd rfl hurl
  | some v =>
      have hcurrent := h.current
      rw [hview] at hcurrent
      exact ⟨v, rfl, hcurrent, h.shown (by rw [hview]; rfl)⟩

theorem mem_range_of_getElem? {target : Nat} {url : Url} (h : b.history[target]? = some url) :
    (target : Int) < b.history.length := by
  obtain ⟨hlt, -⟩ := List.getElem?_eq_some_iff.mp h
  exact Int.ofNat_lt.mpr hlt

theorem Sound.commit (h : Sound b) {f : Fetch} (hf : StagedBy b f) (doc : δ) :
    Sound (commit { b with fetch := none } f doc) := by
  rw [WebNavigate.commit]
  split_ifs with hpush htarget
  · have hkept : (kept { b with fetch := none, viewDoc := some (f.url, doc), currentUrl := f.url }).length <
        webHistoryMax := kept_length h.size
    constructor
    · exact (by omega : (-1 : Int) ≤ (_ : Nat))
    · simp only [historyPush, List.length_append, List.length_singleton]
      omega
    · simp only [historyPush, List.length_append, List.length_singleton]
      exact hkept
    · rfl
    · exact fun _ => Int.natCast_nonneg _
    · exact fun f hf => nomatch hf
  · have hlow : -1 ≤ f.targetPos := by omega
    exact ⟨hlow, htarget.2, h.size, rfl, fun _ => htarget.1, fun f hf => nomatch hf⟩
  · have hpos : 0 ≤ b.historyPos := by
      obtain hyes | ⟨target, heq, hentry⟩ | ⟨-, hurl, -⟩ := hf
      · exact absurd hyes hpush
      · refine absurd ⟨?_, ?_⟩ htarget
        · rw [heq]
          exact Int.natCast_nonneg _
        · rw [heq]
          exact mem_range_of_getElem? hentry
      · obtain ⟨_, -, -, hpos⟩ := h.shown_of_current hurl
        exact hpos
    exact ⟨h.low, h.high, h.size, rfl, fun _ => hpos, fun f hf => nomatch hf⟩

variable (join) in
theorem Sound.step (h : Sound b) (e : Event δ) : Sound (step join b e) := by
  cases e with
  | done page =>
      obtain ⟨-, heq⟩ | ⟨f, doc, hf, -, heq⟩ := onDone_cases b page
      · rw [WebNavigate.step, heq]
        exact ⟨h.low, h.high, h.size, h.current, h.shown, fun f hf => nomatch hf⟩
      · rw [WebNavigate.step, heq]
        exact h.commit (h.staged f hf.1) doc
  | stop => exact h.stop
  | go | click | home | refresh | back | forward => exact h.quiet (step_quiet _ h.low (by nofun) rfl)

theorem sound_start : Sound ({} : Browser δ) :=
  ⟨Int.le_refl _, (by decide : (-1 : Int) < 0), Nat.zero_le _, rfl, nofun, nofun⟩

/-! ### The page on display is the entry under the cursor -/

theorem Agrees.of_view {b' : Browser δ} (h : Agrees b) (heq : b'.view = b.view) : Agrees b' := by
  obtain ⟨hhistory, hpos, hview⟩ := by simpa [Browser.view] using heq
  rw [Agrees, hhistory, hpos, hview]
  exact h

theorem Quiet.view {b' : Browser δ} (h : Quiet b b') : b'.view = b.view := by
  obtain rfl | ⟨-, f, -, rfl⟩ := h
  · rfl
  · rfl

variable (join) in
/-- Only the end of a fetch that shows a page changes the list, the cursor or the page. -/
theorem step_view (h : Sound b) (e : Event δ) :
    (∀ f page, e = .done page → ¬Commits b f page) ∧ (step join b e).view = b.view ∨
      ∃ f doc, e = .done (some doc) ∧ Commits b f (some doc) ∧
        step join b e = commit { b with fetch := none } f doc := by
  cases e with
  | done page =>
      obtain ⟨hno, heq⟩ | ⟨f, doc, hf, rfl, heq⟩ := onDone_cases b page
      · refine .inl ⟨fun f page' hpage hf => hno ⟨f, ?_⟩, ?_⟩
        · obtain rfl := Event.done.inj hpage
          exact hf
        · rw [WebNavigate.step, heq]
          rfl
      · exact .inr ⟨f, doc, rfl, hf, heq⟩
  | stop => exact .inl ⟨nofun, rfl⟩
  | go | click | home | refresh | back | forward =>
      exact .inl ⟨nofun, (step_quiet _ h.low (by nofun) rfl).view⟩

theorem agrees_push (h : Sound b) (url : Url) (doc : δ) :
    Agrees (historyPush { b with viewDoc := some (url, doc), currentUrl := url, fetch := none } url) := by
  intro v hv
  obtain rfl := Option.some.inj hv
  have hkept : (kept { b with viewDoc := some (url, doc), currentUrl := url, fetch := none }).length <
      webHistoryMax := kept_length h.size
  refine ⟨Int.natCast_nonneg _, ?_, ?_, ?_⟩
  · simp only [historyPush, List.length_append, List.length_singleton]
    omega
  · simp only [historyPush, List.length_append, List.length_singleton]
    exact hkept
  · simp only [historyPush, Int.toNat_natCast, List.getElem?_concat_length]

/-- With an entry under the cursor, the page agrees if it is that entry's. -/
theorem agrees_entry_iff (hsize : b.history.length ≤ webHistoryMax) (url : Url) {pos : Nat} {asked : Url}
    (hpos : b.historyPos = pos) (hentry : b.history[pos]? = some asked) (doc : δ) :
    Agrees { b with viewDoc := some (url, doc), currentUrl := url, fetch := none } ↔ url = asked := by
  have hnat : b.historyPos.toNat = pos := by rw [hpos, Int.toNat_natCast]
  constructor
  · intro hagrees
    obtain ⟨-, -, -, hurl⟩ := hagrees _ rfl
    simp only [hnat, hentry] at hurl
    exact (Option.some.inj hurl).symm
  · rintro rfl v hv
    obtain rfl := Option.some.inj hv
    refine ⟨?_, ?_, hsize, ?_⟩
    · simp only [hpos]
      exact Int.natCast_nonneg _
    · simp only [hpos]
      exact mem_range_of_getElem? hentry
    · simp only [hnat, hentry]

/-- A page that has come agrees with the cursor unless it came from another URL than the entry. -/
theorem commit_agrees_iff (h : Sound b) (hagrees : Agrees b) {f : Fetch} (hf : StagedBy b f) (doc : δ) :
    Agrees (commit { b with fetch := none } f doc) ↔ (f.pushHistory = false → f.url = f.asked) := by
  rw [WebNavigate.commit]
  split_ifs with hpush htarget
  · refine iff_of_true (agrees_push h f.url doc) fun hno => ?_
    rw [hpush] at hno
    cases hno
  · obtain hyes | ⟨target, heq, hentry⟩ | ⟨hnone, -, -⟩ := hf
    · exact absurd hyes hpush
    · have hentries := agrees_entry_iff (b := { b with historyPos := f.targetPos }) h.size f.url
        heq hentry doc
      exact hentries.trans ⟨fun heq _ => heq, fun himp => himp (eq_false_of_ne_true hpush)⟩
    · omega
  · obtain hyes | ⟨target, heq, hentry⟩ | ⟨-, hurl, hasked⟩ := hf
    · exact absurd hyes hpush
    · have hrange := mem_range_of_getElem? hentry
      exact absurd ⟨by omega, by rw [heq]; exact hrange⟩ htarget
    · obtain ⟨v, hview, hcurrent, hpos⟩ := h.shown_of_current hurl
      obtain ⟨-, -, -, hentry⟩ := hagrees v hview
      rw [← hcurrent, ← hasked] at hentry
      have hentries := agrees_entry_iff h.size f.url (Int.toNat_of_nonneg hpos).symm hentry doc
      exact hentries.trans ⟨fun heq _ => heq, fun himp => himp (eq_false_of_ne_true hpush)⟩

theorem step_agrees_iff (h : Sound b) (hagrees : Agrees b) (e : Event δ) :
    Agrees (step join b e) ↔ AsAsked b e := by
  obtain ⟨hno, hview⟩ | ⟨f, doc, rfl, hf, heq⟩ := step_view join h e
  · refine iff_of_true (hagrees.of_view hview) ?_
    cases e with
    | done page => exact fun f hf => absurd hf (hno f page rfl)
    | _ => trivial
  · rw [heq, commit_agrees_iff h hagrees (h.staged f hf.1) doc]
    constructor
    · intro himp f' hf'
      obtain rfl := Option.some.inj (hf.1.symm.trans hf'.1)
      exact himp
    · exact fun hasked => hasked f hf

theorem history_agrees_iff (evs : List (Event δ)) :
    (∀ evs', evs' <+: evs → Agrees (run (step join) {} evs')) ↔
      Guarded (step join) AsAsked {} evs := by
  apply safe_iff_guarded (I := fun b => Sound b ∧ Agrees b)
  · exact fun b e h hguard => ⟨h.1.step _ e, (step_agrees_iff h.1 h.2 e).mpr hguard⟩
  · exact fun b h => h.2
  · exact fun b e h hno hagrees => hno ((step_agrees_iff h.1 h.2 e).mp hagrees)
  · exact ⟨sound_start, nofun⟩

/-! ### Stop, Back and Forward -/

variable (join) in
/-- While a fetch is in flight, actions at most cancel it. -/
theorem step_inFlight (h : Sound b) {f : Fetch} (hf : b.fetch = some f) {e : Event δ}
    (he : e.isDone = false) :
    ∃ c, (c = f.cancelled ∨ c = true) ∧
      step join b e = { b with fetch := some { f with cancelled := c } } := by
  have hsame : b = { b with fetch := some { f with cancelled := f.cancelled } } := by
    rw [← hf]
  by_cases hstop : e = .stop
  · subst hstop
    refine ⟨true, .inr rfl, ?_⟩
    rw [step, onStop, hf]
    rfl
  · obtain heq | ⟨hidle, -⟩ := step_quiet join h.low hstop he
    · exact ⟨f.cancelled, .inl rfl, heq.trans hsame⟩
    · rw [hidle] at hf
      cases hf

variable (join) in
theorem run_inFlight (h : Sound b) {f : Fetch} (hf : b.fetch = some f) {mid : List (Event δ)}
    (hmid : ∀ e ∈ mid, e.isDone = false) :
    ∃ c, run (step join) b mid = { b with fetch := some { f with cancelled := c } } := by
  induction mid generalizing b f with
  | nil => exact ⟨f.cancelled, by rw [run_nil, ← hf]⟩
  | cons e mid ih =>
      obtain ⟨c, -, heq⟩ := step_inFlight join h hf (hmid e List.mem_cons_self)
      obtain ⟨c', hrun⟩ := ih (h.step join e) (by rw [heq])
        fun e he => hmid e (List.mem_cons_of_mem _ he)
      refine ⟨c', ?_⟩
      rw [run_cons, hrun, heq]

/-- A press, with what follows it, only puts a fetch in flight. -/
theorem Starts.run (h : Sound b) {press : Event δ} {mid : List (Event δ)}
    (hstarts : Starts join b press mid) {f : Fetch}
    (hpress : step join b press = { b with fetch := some f }) :
    ∃ c, Machine.run (step join) b (press :: mid) =
      { b with fetch := some { f with cancelled := c } } := by
  obtain ⟨c, hrun⟩ := run_inFlight join (h.step join press) (by rw [hpress]) hstarts.waits
  refine ⟨c, ?_⟩
  rw [run_cons, hrun, hpress]

theorem attempt_eq (press : Event δ) (mid : List (Event δ)) (page : Option δ) :
    attempt join b press mid page = onDone (run (step join) b (press :: mid)) page := by
  rw [attempt, run_append]
  rfl

/-- What does nothing starts nothing. -/
theorem Starts.ne {press : Event δ} {mid : List (Event δ)} (hstarts : Starts join b press mid) :
    step join b press ≠ b := by
  intro heq
  have hstarted := hstarts.started
  rw [heq, hstarts.idle] at hstarted
  cases hstarted

theorem Starts.press (h : Sound b) {press : Event δ} {mid : List (Event δ)}
    (hstarts : Starts join b press mid) : ∃ f, step join b press = { b with fetch := some f } := by
  have hidle : { b with fetch := none } = b := by
    rw [← hstarts.idle]
  have hquiet (hstop : press ≠ .stop) (hdone : press.isDone = false) :
      ∃ f, step join b press = { b with fetch := some f } := by
    obtain heq | ⟨-, f, -, heq⟩ := step_quiet join h.low hstop hdone
    · exact absurd heq hstarts.ne
    · exact ⟨f, heq⟩
  cases press with
  | done page =>
      refine absurd ?_ hstarts.ne
      rw [step, onDone, hstarts.idle]
  | stop =>
      refine absurd ?_ hstarts.ne
      rw [step, onStop, hstarts.idle]
      exact hidle
  | go | click | home | refresh | back | forward => exact hquiet (by nofun) rfl

/-- A fetch that ends without a page to show leaves the list, the cursor and the page. -/
theorem attempt_view (h : Sound b) {press : Event δ} {mid : List (Event δ)} {page : Option δ}
    (hstarts : Starts join b press mid)
    (hno : ∀ f, ¬Commits (run (step join) b (press :: mid)) f page) :
    (attempt join b press mid page).view = b.view := by
  obtain ⟨f, hpress⟩ := hstarts.press h
  obtain ⟨c, hrun⟩ := hstarts.run h hpress
  rw [attempt_eq]
  obtain ⟨-, heq⟩ | ⟨f', doc, hf', rfl, -⟩ := onDone_cases (Machine.run (step join) b (press :: mid)) page
  · rw [heq, hrun]
    rfl
  · exact absurd hf' (hno f')

/-- The page of a move to a slot puts the cursor there. -/
theorem attempt_move (h : Sound b) {press : Event δ} {mid : List (Event δ)} {page : Option δ}
    {target : Int} {spawn : Bool} (hpress : step join b press = moveTo join b target spawn)
    (htarget : 0 ≤ target) (hsucceeds : Succeeds join b press mid page) :
    (attempt join b press mid page).history = b.history ∧
      (attempt join b press mid page).historyPos = target := by
  obtain ⟨hstarts, f', hcommits⟩ := hsucceeds
  obtain heq | ⟨-, f, hpush, hslot, hentry, heq⟩ := moveTo_cases join b target spawn
  · exact absurd (hpress.trans heq) hstarts.ne
  · obtain ⟨c, hrun⟩ := hstarts.run h (hpress.trans heq)
    have hrange := mem_range_of_getElem? hentry
    rw [Int.toNat_of_nonneg htarget] at hrange
    rw [attempt_eq]
    obtain ⟨hno, -⟩ | ⟨f'', doc, hf'', -, hdone⟩ :=
      onDone_cases (Machine.run (step join) b (press :: mid)) page
    · exact absurd ⟨f', hcommits⟩ hno
    · have hfetch : f'' = { f with cancelled := c } := by
        have hsome := hf''.1
        rw [hrun] at hsome
        exact (Option.some.inj hsome).symm
      rw [hdone, hrun, hfetch, WebNavigate.commit]
      simp only [hpush, hslot, htarget, hrange, Bool.false_eq_true, if_false, and_self, if_true]

theorem attempt_back (h : Sound b) {spawn : Bool} {mid : List (Event δ)} {page : Option δ}
    (hsucceeds : Succeeds join b (.back spawn) mid page) :
    (attempt join b (.back spawn) mid page).history = b.history ∧
      (attempt join b (.back spawn) mid page).historyPos = b.historyPos - 1 := by
  have hpos : b.historyPos > 0 := by
    by_contra hno
    exact hsucceeds.1.ne (if_neg hno)
  exact attempt_move h (if_pos hpos) (by omega) hsucceeds

theorem attempt_forward (h : Sound b) {spawn : Bool} {mid : List (Event δ)} {page : Option δ}
    (hsucceeds : Succeeds join b (.forward spawn) mid page) :
    (attempt join b (.forward spawn) mid page).history = b.history ∧
      (attempt join b (.forward spawn) mid page).historyPos = b.historyPos + 1 := by
  have hlow := h.low
  have hpos : b.historyPos < b.history.length - 1 := by
    by_contra hno
    exact hsucceeds.1.ne (if_neg hno)
  exact attempt_move h (if_pos hpos) (by omega) hsucceeds

/-- Entries go when a new page has come: those ahead of the cursor, and the oldest of a full list. -/
theorem step_history (h : Sound b) (e : Event δ) :
    (step join b e).history = b.history ∨
      ∃ f doc, e = .done (some doc) ∧ Commits b f (some doc) ∧ f.pushHistory = true ∧
        (step join b e).history = kept b ++ [f.url] := by
  obtain ⟨-, hview⟩ | ⟨f, doc, rfl, hf, heq⟩ := step_view join h e
  · exact .inl (congrArg Prod.fst hview)
  · rw [heq, WebNavigate.commit]
    split_ifs with hpush
    · exact .inr ⟨f, doc, rfl, hf, hpush, rfl⟩
    · exact .inl rfl
    · exact .inl rfl

variable (join) in
theorem sound_run (evs : List (Event δ)) : Sound (Machine.run (step join) {} evs) :=
  run_inv (fun _ e h => h.step join e) sound_start evs

end

/-- Along every run the page on display is the entry under the cursor exactly when every page for Back,
Forward and Refresh has come from the URL that was asked for. A fetch that ends without a page changes
nothing, Back and then Forward lead back to the cursor, and entries go for a new page only. -/
theorem history_laws (evs : List (Event δ)) :
    ((∀ evs', evs' <+: evs → Agrees (run (step join) {} evs')) ↔
      Guarded (step join) AsAsked {} evs) ∧
    let b := run (step join) {} evs
    (∀ press mid page, Starts join b press mid →
      (∀ f, ¬Commits (run (step join) b (press :: mid)) f page) →
      (attempt join b press mid page).view = b.view) ∧
    (∀ spawn spawn' mid mid' page page',
      let b' := attempt join b (.back spawn) mid page
      Succeeds join b (.back spawn) mid page → Succeeds join b' (.forward spawn') mid' page' →
      (attempt join b' (.forward spawn') mid' page').history = b.history ∧
        (attempt join b' (.forward spawn') mid' page').historyPos = b.historyPos) ∧
    ∀ e, (step join b e).history = b.history ∨
      ∃ f doc, e = .done (some doc) ∧ Commits b f (some doc) ∧ f.pushHistory = true ∧
        (step join b e).history = kept b ++ [f.url] := by
  have hb := sound_run join evs
  refine ⟨history_agrees_iff evs, ?_, ?_, ?_⟩
  · exact fun press mid page hstarts hno => attempt_view hb hstarts hno
  · intro spawn spawn' mid mid' page page' b' hback hforward
    have hb' : Sound b' := run_inv (fun _ e h => h.step join e) hb _
    obtain ⟨hhistory, hpos⟩ := attempt_back hb hback
    obtain ⟨hhistory', hpos'⟩ := attempt_forward hb' hforward
    refine ⟨hhistory'.trans hhistory, ?_⟩
    rw [hpos', hpos]
    omega
  · exact fun e => step_history hb e

/-- Joining and simplifying without `..`: a relative name goes behind the last slash of the base, and a
final dot goes. -/
def joinDot (base url : Url) : Url :=
  let joined := if ':' ∈ url then url else (base.reverse.dropWhile (· ≠ '/')).reverse ++ url
  if ['/', '.'] <:+ joined then joined.dropLast else joined

/-- A link from a page with a long address, whose address is cut behind a dot: a refresh comes from
another URL than the entry. -/
theorem cut_refresh :
    (∀ base url, ':' ∈ url → ¬['/', '.'] <:+ url → joinDot base url = url) ∧
      let long := "http://h/".toList ++ List.replicate 1000 'a' ++ ['/']
      let link := List.replicate 11 'b' ++ ['/', '.', 'c']
      let b := run (step joinDot) {}
        [.go long true, .done (some ()), .click link true, .done (some ()), .refresh true, .done (some ())]
      b.viewDoc.map Prod.fst ≠ b.history[b.historyPos.toNat]? := by
  refine ⟨fun base url hcolon hdot => ?_, by decide +kernel⟩
  simp only [joinDot, if_pos hcolon, if_neg hdot]

end UnicornSuite.WebNavigate
