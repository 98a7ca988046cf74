import UnicornSuite.UpdateHost
import UnicornSuite.UpdateVersion

/-! The manifest of the updater (`suite_update.c`): the reader for its JSON, the checks of `check_thread`,
and the name a download is saved under. -/

namespace UnicornSuite.Update

open CText

/-- `SUITE_VERSION_STR`. -/
def suiteVersionStr : CString := ascii "0.7.0-beta"

section Json

def quote : UInt8 := 0x22
def backslash : UInt8 := 0x5C

def isJsonSpace (c : UInt8) : Bool := c = 0x20 ∨ c = 0x09 ∨ c = 0x0D ∨ c = 0x0A

/-- `json_value_for`: the text behind the colon of a key. -/
def jsonValueFor (key : CString) : CString → Option CString
  | [] => none
  | c :: p =>
      if c = quote ∧ key ++ [quote] <+: p then
        let q := (p.drop (key.length + 1)).dropWhile isJsonSpace
        if q.head? = some colon then some (q.tail.dropWhile isJsonSpace) else jsonValueFor key p
      else jsonValueFor key p

def hexDigit (c : UInt8) : Option Nat :=
  if 0x30 ≤ c ∧ c ≤ 0x39 then some (c.toNat - 48)
  else if 0x61 ≤ c ∧ c ≤ 0x66 then some (c.toNat - 87)
  else if 0x41 ≤ c ∧ c ≤ 0x46 then some (c.toNat - 55)
  else none

/-- The up to four digits behind `\u`; what is not printable ASCII becomes a question mark. -/
def unicodeChar (digits : CString) : UInt8 :=
  let v := digits.foldl (fun v c => v * 16 + (hexDigit c).getD 0) 0
  if 0x20 ≤ v ∧ v < 0x7F then UInt8.ofNat v else 0x3F

/-- What a backslash and the character behind it stand for. -/
def escaped (c : UInt8) : UInt8 :=
  if c = 0x6E then 0x0A else if c = 0x72 then 0x0D else if c = 0x74 then 0x09 else c

/-- The loop of `json_get_string`, with room for `room` more: what it copied and where it stopped. -/
def jsonString (room : Nat) (p : CString) : CString × CString :=
  match room, p with
  | 0, p => ([], p)
  | _ + 1, [] => ([], [])
  | room + 1, c :: p =>
      if c = quote then ([], c :: p)
      else if c = backslash then
        match p with
        | [] => ([], [])
        | 0x75 :: p =>
            let digits := (p.take 4).takeWhile fun c => (hexDigit c).isSome
            let rest := jsonString room (p.drop digits.length)
            (unicodeChar digits :: rest.1, rest.2)
        | c :: p =>
            let rest := jsonString room p
            (escaped c :: rest.1, rest.2)
      else
        let rest := jsonString room p
        (c :: rest.1, rest.2)

/-- `json_get_string` into a buffer of `cap` bytes: whether it succeeded, and the string. -/
def jsonGetString (doc : CString) (key : String) (cap : Nat) : Bool × CString :=
  match jsonValueFor (ascii key) doc with
  | some (0x22 :: p) =>
      let s := jsonString (cap - 1) p
      (s.2.head? = some quote, s.1)
  | _ => (false, [])

/-- `json_get_uint`: nineteen digits fit in 64 bits. -/
def jsonGetUint (doc : CString) (key : String) : Nat :=
  match jsonValueFor (ascii key) doc with
  | some p => decimal 0 ((p.takeWhile isDigit).take 19)
  | none => 0

end Json

/-- `UpdManifest`. -/
structure UpdManifest where
  version : CString
  msiUrl : CString
  msiSha256 : CString
  msiBytes : Nat
  notes : CString
  minSupported : CString
  deriving DecidableEq

def blankManifest : UpdManifest := ⟨[], [], [], 0, [], []⟩

inductive Mode where
  | manual | startup
  deriving DecidableEq

/-- `UpdResult`. -/
structure UpdResult where
  ok : Bool
  cmp : Int
  mode : Mode
  required : Bool
  placeholder : Bool
  error : CString
  m : UpdManifest

section Check

/-- `is_hex64`. -/
def isHex64 (s : CString) : Bool := decide (s.length = 64) && s.all fun c => (hexDigit c).isSome

/-- A manifest that names no bytes or no real hash. -/
def isPlaceholder (m : UpdManifest) : Bool :=
  m.msiBytes = 0 ∨ (m.msiSha256.takeWhile (· = 0x30)).length = 64

/-- The fields of a manifest, each with its check, or the error. -/
def readManifest (doc : CString) : Except String UpdManifest :=
  let version := jsonGetString doc "version" 64
  let msiUrl := jsonGetString doc "msi_url" 512
  let msiSha256 := jsonGetString doc "msi_sha256" 65
  if ¬ version.1 ∨ version.2 = [] then
    .error "The update information was not readable (no version)."
  else if ¬ msiUrl.1 ∨ msiUrl.2 = [] then
    .error "The update information was not readable (no download)."
  else if ¬ msiSha256.1 ∨ ¬ isHex64 msiSha256.2 then
    .error "The update information has no usable checksum. Refusing."
  else if ¬ urlHostAllowed msiUrl.2 then
    .error "The update points at a host other than apps.greektimes.ca. Refusing."
  else
    .ok
      { version := version.2
        msiUrl := msiUrl.2
        msiSha256 := msiSha256.2
        msiBytes := jsonGetUint doc "msi_bytes"
        notes := (jsonGetString doc "notes" 4096).2
        minSupported := (jsonGetString doc "min_supported" 64).2 }

/-- A check that failed; the manifest it has by then is not looked at. -/
def failedResult (mode : Mode) (error : CString) : UpdResult :=
  ⟨false, 0, mode, false, false, error, blankManifest⟩

/-- `check_thread` behind the fetch: the body, or the error of the transport. -/
def checkResult (mode : Mode) : Except CString (List UInt8) → UpdResult
  | .error err =>
      failedResult mode (if err = [] then ascii "The update service could not be reached." else err)
  | .ok body =>
      match readManifest (cstr body) with
      | .error text => failedResult mode (ascii text)
      | .ok m =>
          { ok := true
            cmp := compareVersions suiteVersionStr m.version
            mode := mode
            required := m.minSupported ≠ [] ∧ compareVersions suiteVersionStr m.minSupported < 0
            placeholder := isPlaceholder m
            error := []
            m := m }

end Check

section Download

/-- A character of a file name. -/
def isNameChar (c : UInt8) : Bool :=
  isDigit c ∨ (0x41 ≤ c ∧ c ≤ 0x5A) ∨ (0x61 ≤ c ∧ c ≤ 0x7A) ∨ c = 0x2E ∨ c = 0x2D ∨ c = 0x5F

/-- `msi_local_name`: the last path element of the URL, cleaned. -/
def msiLocalName (url : CString) : CString :=
  let name := (url.reverse.takeWhile (· ≠ slash)).reverse
  let clean := ((name.takeWhile fun c => c ≠ 0x3F ∧ c ≠ 0x23).filter isNameChar).take 127
  if clean.length < 5 ∨ (clean.drop (clean.length - 4)).map lower ≠ ascii ".msi" then
    ascii "MGT_Unicorn_Suite_update.msi"
  else clean

/-- The path in `download_thread`, cut to `MAX_PATH - 1`. -/
def downloadPath (dir url : CString) : CString := (dir ++ backslash :: msiLocalName url).take 259

/-- `suite_sha256_hex_equal`. -/
def suiteSha256HexEqual (a b : CString) : Bool :=
  a.length = 64 ∧ b.length = 64 ∧ a.map lowerHex = b.map lowerHex
where
  lowerHex (c : UInt8) : UInt8 := if 0x41 ≤ c ∧ c ≤ 0x46 then c + 32 else c

end Download

end UnicornSuite.Update
