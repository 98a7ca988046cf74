import UnicornSuite.LibText

/-! Where the Gopher module goes: the items of a menu (`gophermap.c`), URLs read and written
(`gopher_protocol.c`), and what a click or a URL asks a server for (`gopher_module.c`). -/

namespace UnicornSuite.Gopher

open CText

def tab : UInt8 := 0x09
def newline : UInt8 := 0x0A
def carriageReturn : UInt8 := 0x0D
def slash : UInt8 := 0x2F
def colon : UInt8 := 0x3A

/-- `GOPHER_DEFAULT_PORT`. -/
def gopherDefaultPort : Nat := 70

/-- The item types the module tells apart. -/
def typeText : UInt8 := 0x30
def typeMenu : UInt8 := 0x31
def typeSearch : UInt8 := 0x37
def typeInfo : UInt8 := 0x69
def typeHtml : UInt8 := 0x68

/-! ### Menus -/

/-- `GopherItem`. -/
structure GopherItem where
  type : UInt8
  display : CString
  selector : CString
  host : CString
  port : Nat
  deriving DecidableEq

section Menu

/-- A number that is a port, or the default. -/
def portOf (p : Int) : Nat := if 0 < p ∧ p ≤ 65535 then p.toNat else gopherDefaultPort

/-- What stands behind the first tab. -/
def behindTab (s : List UInt8) : List UInt8 := (s.dropWhile (· ≠ tab)).tail

/-- The field up to the next tab. -/
def field (s : List UInt8) : CString := cstr (s.takeWhile (· ≠ tab))

/-- A line of the menu; one without a tab is informational. -/
def gopherItem (line : List UInt8) : GopherItem :=
  if tab ∉ line then ⟨typeInfo, cstr line, [], [], gopherDefaultPort⟩
  else
    let display := line.tail
    let selector := behindTab display
    let host := behindTab selector
    { type := line.headD 0
      display := field display
      selector := field selector
      host := field host
      port := portOf (atoi ((behindTab host).take 15)) }

/-- The end of a line is LF or CR LF. -/
def trimReturn (line : List UInt8) : List UInt8 :=
  if line.getLast? = some carriageReturn then line.dropLast else line

/-- `gophermap_parse`: empty lines are skipped and a lone period ends the menu. -/
def gophermapParse (buf : List UInt8) : List GopherItem :=
  if _ : buf = [] then []
  else
    let line := trimReturn (buf.takeWhile (· ≠ newline))
    let rest := (buf.dropWhile (· ≠ newline)).tail
    if line = [] then gophermapParse rest
    else if line = ascii "." then []
    else gopherItem line :: gophermapParse rest
termination_by buf.length
decreasing_by all_goals exact tail_dropWhile_lt _ ‹_›

end Menu

/-! ### URLs -/

/-- What a URL names. -/
structure Url where
  host : CString
  port : Nat
  type : UInt8
  selector : CString
  deriving DecidableEq

section Urls

def startsWith (s start : CString) : Bool := strncmp s start start.length = 0

/-- Both spellings of the scheme that the code knows. -/
def hasScheme (url : CString) : Bool :=
  startsWith url (ascii "gopher://") || startsWith url (ascii "GOPHER://")

def isHostChar (c : UInt8) : Bool := c ≠ colon ∧ c ≠ slash

/-- The port of a URL, at most fifteen digits of it. -/
def urlPort (digits : CString) : Nat :=
  if digits = [] then gopherDefaultPort else portOf (atoi (digits.take 15))

/-- `gopher_parse_url`, with its return code where it fails. -/
def gopherParseUrl (url : CString) : Except Nat Url :=
  let p := if hasScheme url then url.drop 9 else url
  let host := p.takeWhile isHostChar
  let p := p.dropWhile isHostChar
  let port := if p.head? = some colon then urlPort (p.tail.takeWhile isDigit) else gopherDefaultPort
  let p := if p.head? = some colon then p.tail.dropWhile isDigit else p
  let path := if p.head? = some slash then p.tail else p
  if host = [] then .error 3
  else
    match path with
    | [] => .ok ⟨host, port, typeMenu, []⟩
    | type :: selector => .ok ⟨host, port, type, selector⟩

/-- `gopher_build_url`: the default port is left out. -/
def gopherBuildUrl (u : Url) : CString :=
  let port := if 0 < u.port ∧ u.port ≠ gopherDefaultPort then colon :: decimalText u.port else []
  ascii "gopher://" ++ u.host ++ port ++ slash :: u.type :: u.selector

def gopherHomeUrl : CString := ascii "gopher://gopher.greektimes.ca/"

/-- `gopher_normalize_url`. -/
def gopherNormalizeUrl (raw : CString) : CString :=
  if raw = [] then gopherHomeUrl
  else if hasScheme raw then raw
  else ascii "gopher://" ++ raw

end Urls

/-! ### Requests -/

inductive GopherFetchKind where
  | menu | text | binary
  deriving DecidableEq

/-- `GopherFetchResult` as a fetch starts: `host`, `port`, `selector` and `kind` go to
`gopher_fetch_sync`. -/
structure GopherFetch where
  url : CString
  host : CString
  port : Nat
  type : UInt8
  selector : CString
  display : Option CString
  kind : GopherFetchKind
  pushHistory : Bool
  deriving DecidableEq

/-- What a click or a URL comes to: nothing, a status line, or a fetch. -/
inductive Outcome where
  | nothing
  | status (text : String)
  | fetch (r : GopherFetch)
  deriving DecidableEq

section Requests

/-- The `switch` of `gopher_navigate`. -/
def kindOf (type : UInt8) : Option GopherFetchKind :=
  if type = typeText then some .text
  else if type = typeMenu then some .menu
  else if type ∈ ascii "gI9s" then some .binary
  else none

/-- `gopher_navigate`. -/
def gopherNavigate (raw : CString) (pushHistory : Bool) : Outcome :=
  let url := gopherNormalizeUrl raw
  match gopherParseUrl url with
  | .error _ => .status "Gopher: malformed URL."
  | .ok u =>
      match kindOf u.type with
      | none => .status "Gopher: item type not supported in v0.1.0-mvp."
      | some kind => .fetch ⟨url, u.host, u.port, u.type, u.selector, none, kind, pushHistory⟩

/-- `gopher_type_is_clickable`. -/
def gopherTypeIsClickable (type : UInt8) : Bool := type ∈ ascii "107g9sIh"

/-- `gopher_dispatch_item`, with what the search dialog answers: a search goes to the server with a tab
before the query and to the history with `%09`. -/
def gopherDispatchItem (it : GopherItem) (query : Option CString) : Outcome :=
  let port := if it.port > 0 then it.port else gopherDefaultPort
  if ¬ gopherTypeIsClickable it.type then .nothing
  else if it.type = typeHtml then .status "Gopher: 'h' URL items are not yet supported."
  else if it.type = typeSearch then
    match query with
    | none | some [] => .nothing
    | some query =>
        .fetch
          { url := gopherBuildUrl ⟨it.host, port, typeSearch, it.selector ++ ascii "%09" ++ query⟩
            host := it.host
            port := port
            type := typeSearch
            selector := it.selector ++ tab :: query
            display := some it.display
            kind := .menu
            pushHistory := true }
  else gopherNavigate (gopherBuildUrl ⟨it.host, port, it.type, it.selector⟩) true

/-- What goes over the wire is the same. -/
def SameRequest (r r' : GopherFetch) : Prop :=
  r.host = r'.host ∧ r.port = r'.port ∧ r.kind = r'.kind ∧ r.selector = r'.selector

/-- The fetch becomes the current location when it succeeds. -/
def GopherFetch.adopts (r : GopherFetch) : Bool := r.kind ≠ .binary

end Requests

end UnicornSuite.Gopher
