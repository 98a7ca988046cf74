import UnicornSuite.GopherUrl
import UnicornSuite.LibRun
import UnicornSuite.LibTrail

/-! The history of the Gopher module (`gopher_module.c`): two stacks and the current location. A visit
changes them when its page has come; Back and Forward change them when they are pressed. Beside the
module goes the trail of a browser whose moves are made when they have succeeded. -/

namespace UnicornSuite.Gopher

open CText

/-- `GOPHER_HISTORY_MAX`. -/
def gopherHistoryMax : Nat := 64

/-- The state behind the buttons: the stacks, newest first, and the fetch that is under way. -/
structure Browser where
  backStack : List CString
  fwdStack : List CString
  currentUrl : Option CString
  inFlight : Option GopherFetch

/-- What the user does, with whether `CreateThread` succeeds, and the end of a fetch. The item of a click
is one of any menu. -/
inductive Event where
  | go (url : CString) (spawn : Bool)
  | click (it : GopherItem) (query : Option CString) (spawn : Bool)
  | home (spawn : Bool)
  | refresh (spawn : Bool)
  | stop
  | back (spawn : Bool)
  | forward (spawn : Bool)
  | done (ok : Bool)

namespace Browser

variable (b : Browser)

/-- `gopher_kick_fetch`: one fetch at a time. -/
def kickFetch (spawn : Bool) (r : GopherFetch) : Browser :=
  if b.inFlight ≠ none then b
  else if spawn then { b with inFlight := some r }
  else b

def start (spawn : Bool) : Outcome → Browser
  | .fetch r => b.kickFetch spawn r
  | .nothing | .status _ => b

def navigate (spawn : Bool) (raw : CString) (pushHistory : Bool) : Browser :=
  b.start spawn (gopherNavigate raw pushHistory)

/-- `history_push_back`: the oldest makes room. -/
def historyPushBack (stack : List CString) (url : CString) : List CString :=
  url :: if stack.length ≥ gopherHistoryMax then stack.dropLast else stack

/-- A page that has come is the new location. -/
def adopt (r : GopherFetch) : Browser :=
  { b with
    backStack :=
      match r.pushHistory, b.currentUrl with
      | true, some url => historyPushBack b.backStack url
      | _, _ => b.backStack
    fwdStack := if r.pushHistory then [] else b.fwdStack
    currentUrl := some r.url }

/-- `gopher_on_fetch_done`. -/
def onFetchDone (ok : Bool) : Browser :=
  match b.inFlight with
  | none => b
  | some r =>
      let b := { b with inFlight := none }
      if ok ∧ r.adopts then b.adopt r else b

/-- The current location goes onto the other stack, where there is room. -/
def leave (stack : List CString) (current : Option CString) : List CString :=
  match current with
  | some url => if stack.length < gopherHistoryMax then url :: stack else stack
  | none => stack

/-- The Back button. -/
def back (spawn : Bool) : Browser :=
  match b.backStack with
  | [] => b
  | prev :: rest =>
      let b := { b with backStack := rest, fwdStack := leave b.fwdStack b.currentUrl, currentUrl := none }
      b.navigate spawn prev false

/-- The Forward button. -/
def forward (spawn : Bool) : Browser :=
  match b.fwdStack with
  | [] => b
  | next :: rest =>
      let b := { b with fwdStack := rest, backStack := leave b.backStack b.currentUrl, currentUrl := none }
      b.navigate spawn next false

def step (b : Browser) : Event → Browser
  | .go url spawn => b.navigate spawn url true
  | .click it query spawn => b.start spawn (gopherDispatchItem it query)
  | .home spawn => b.navigate spawn gopherHomeUrl true
  | .refresh spawn =>
      match b.currentUrl with
      | some url => b.navigate spawn url false
      | none => b
  | .stop => b
  | .back spawn => b.back spawn
  | .forward spawn => b.forward spawn
  | .done ok => b.onFetchDone ok

end Browser

/-! ### What the history should be -/

inductive Move where
  | back | forward
  deriving DecidableEq

def Move.apply : Move → Trail CString → Option (Trail CString)
  | .back => Trail.back
  | .forward => Trail.forward

/-- The module and the trail of its user. `moving` is the Back or Forward whose fetch is under way; the
trail is as before until it has succeeded. -/
structure Session where
  browser : Browser
  trail : Option (Trail CString)
  moving : Option Move

namespace Session

/-- A press has started a fetch. -/
def started (b b' : Browser) : Bool := b.inFlight = none ∧ b'.inFlight ≠ none

/-- The trail when a fetch has succeeded. -/
def arrive (s : Session) : Option (Trail CString) :=
  match s.moving, s.browser.inFlight with
  | some m, _ => s.trail.bind m.apply
  | none, some r =>
      if r.pushHistory ∧ r.adopts then some (Trail.visit gopherHistoryMax r.url s.trail) else s.trail
  | none, none => s.trail

def step (s : Session) (e : Event) : Session where
  browser := s.browser.step e
  trail :=
    match e with
    | .done true => s.arrive
    | _ => s.trail
  moving :=
    match e with
    | .back _ => if started s.browser (s.browser.step e) then some .back else s.moving
    | .forward _ => if started s.browser (s.browser.step e) then some .forward else s.moving
    | .done _ => none
    | _ => s.moving

end Session

def openBrowser : Session where
  browser := ⟨[], [], none, none⟩
  trail := none
  moving := none

/-- The session after some events. -/
def play (es : List Event) : Session := Machine.run Session.step openBrowser es

/-- The stacks and the location are those of the trail. -/
def Browser.Shows (b : Browser) : Option (Trail CString) → Prop
  | none => b.backStack = [] ∧ b.currentUrl = none ∧ b.fwdStack = []
  | some t => b.backStack = t.behind ∧ b.currentUrl = some t.here ∧ b.fwdStack = t.ahead

/-- A Back or Forward is under way: its page is fetched and the stacks are those of its end. -/
structure Browser.Heads (b : Browser) (t : Trail CString) : Prop where
  fetch : ∃ r, b.inFlight = some r ∧ r.adopts = true ∧ r.pushHistory = false ∧ r.url = t.here
  back : b.backStack = t.behind
  current : b.currentUrl = none
  fwd : b.fwdStack = t.ahead

namespace Session

/-- The module shows the history, or is on the way to the place where a Back or Forward ends. -/
def Faithful (s : Session) : Prop :=
  match s.moving with
  | none => s.browser.Shows s.trail
  | some m => ∃ t, s.trail.bind m.apply = some t ∧ s.browser.Heads t

/-- The page of a location can be fetched again. -/
def revisits (url : CString) : Bool :=
  match gopherNavigate url false with
  | .fetch r => r.adopts
  | .nothing | .status _ => false

/-- A Back or Forward gets its page: no fetch is under way, its own starts, and succeeds. -/
def Succeeds (s : Session) : Event → Prop
  | .back spawn => ∀ url ∈ s.browser.backStack.head?,
      s.browser.inFlight = none ∧ spawn = true ∧ revisits url = true
  | .forward spawn => ∀ url ∈ s.browser.fwdStack.head?,
      s.browser.inFlight = none ∧ spawn = true ∧ revisits url = true
  | .done ok => s.moving ≠ none → ok = true
  | _ => True

instance (s : Session) (e : Event) : Decidable (s.Succeeds e) :=
  match e with
  | .back spawn => inferInstanceAs (Decidable (∀ url ∈ s.browser.backStack.head?,
      s.browser.inFlight = none ∧ spawn = true ∧ revisits url = true))
  | .forward spawn => inferInstanceAs (Decidable (∀ url ∈ s.browser.fwdStack.head?,
      s.browser.inFlight = none ∧ spawn = true ∧ revisits url = true))
  | .done ok => inferInstanceAs (Decidable (s.moving ≠ none → ok = true))
  | .go _ _ | .click _ _ _ | .home _ | .refresh _ | .stop => isTrue trivial

end Session

end UnicornSuite.Gopher
