import Mathlib.Tactic.Common

/-! The names of the Zmodem receiver: what a sender's ZFILE frame says (`parseZfile`), how a name
becomes a bare local one (`sanitizeName`), and the search for a path that no file of the download
folder has (`buildUniquePath`). A C string is the list of its bytes, its terminator left out. -/

namespace UnicornSuite.Zmodem

abbrev CString := List UInt8

/-- The bytes of an ASCII literal. -/
def ascii (s : String) : CString := s.toList.map (·.toNat.toUInt8)

def backslash : UInt8 := 0x5c
def dotChar : UInt8 := 0x2e
def spaceChar : UInt8 := 0x20

/-- The C string that starts a buffer: what stands before the first NUL. -/
def cstr (buf : List UInt8) : CString := buf.takeWhile (· ≠ 0)

/-- Sizes of the receiver's buffers: `MAX_PATH`, `ZMR_BLOCK_BUF`, and the `name` field. -/
def maxPath : Nat := 260
def zmrBlockBuf : Nat := 33 * 1024
def nameCap : Nat := 260

section Sanitize

def upper (c : UInt8) : UInt8 := if 0x61 ≤ c ∧ c ≤ 0x7a then c - 32 else c

/-- `name_is_reserved`: CON, PRN, AUX, NUL, COM1-9, LPT1-9. -/
def nameIsReserved (stem : CString) : Bool :=
  let n := stem.length
  if n = 0 ∨ n ≥ 16 then false
  else
    let up := stem.map upper
    if up ∈ [ascii "CON", ascii "PRN", ascii "AUX", ascii "NUL"] then true
    else
      let c := up.getD 3 0
      decide (n = 4 ∧ 0x31 ≤ c ∧ c ≤ 0x39 ∧
        (up.take 3 = ascii "COM" ∨ up.take 3 = ascii "LPT"))

def isSeparator (c : UInt8) : Bool := c = 0x2f ∨ c = backslash ∨ c = 0x3a

/-- What follows the last separator: `base` moves past each one the scan meets. -/
def baseName (base : CString) : CString → CString
  | [] => base
  | c :: cs => if isSeparator c then baseName cs cs else baseName base cs

def isIllegal (c : UInt8) : Bool :=
  decide (c < 0x20 ∨ c = 0x7f) || c ∈ ascii "<>:/|?*" ++ [0x22, backslash]

/-- Trailing dots and spaces, which Win32 drops, are cut. -/
def trimEnd (s : CString) : CString :=
  (s.reverse.dropWhile (fun c => c = dotChar ∨ c = spaceChar)).reverse

/-- The name a hostile or empty one becomes; a buffer too small for it gets `f`. -/
def fallbackName (cap : Nat) : Bool × CString :=
  if cap > (ascii "download.bin").length then (false, ascii "download.bin") else (false, ascii "f")

/-- `zmodem_recv_sanitize_name`: what it returns and the string left in `out`. -/
def sanitizeName (raw : Option CString) (cap : Nat) : Bool × CString :=
  if cap = 0 then (false, [])
  else match raw with
  | none => fallbackName cap
  | some raw =>
      let base := baseName raw raw
      if base.length = 0 ∨ base.length ≥ 256 then fallbackName cap
      else if base.any isIllegal then fallbackName cap
      else
        let work := trimEnd base
        if work = [] then fallbackName cap
        else if work = ascii "." ∨ work = ascii ".." then fallbackName cap
        else
          let stem := work.takeWhile (· ≠ dotChar)
          if stem.length < 16 ∧ nameIsReserved stem then fallbackName cap
          else if work.length ≥ cap then
            let head := trimEnd (work.take (cap - 1))
            if head = [] then fallbackName cap else (true, head)
          else (true, work)

end Sanitize

section ParseZfile

/-- The decimal number at the head of the info field, of at most `left` digits. -/
def infoSize (v digits : Nat) : Nat → List UInt8 → Nat × Nat
  | 0, _ => (v, digits)
  | _, [] => (v, digits)
  | left + 1, c :: cs =>
      if 0x30 ≤ c ∧ c ≤ 0x39 then infoSize (v * 10 + (c.toNat - 0x30)) (digits + 1) left cs
      else (v, digits)

/-- `parse_zfile`: the local name and the advertised size of a ZFILE payload, which is
`name NUL size mtime ..`. -/
def parseZfile (buf : List UInt8) : CString × Nat :=
  if buf.length = 0 then ([], 0)
  else
    let tmp := buf.take (zmrBlockBuf - 1)
    let name := (sanitizeName (some (cstr tmp)) nameCap).2
    let info := (tmp.drop ((cstr tmp).length + 1)).dropWhile (· = spaceChar)
    let (v, digits) := infoSize 0 0 19 info
    (name, if digits > 0 then v else 0)

end ParseZfile

section UniquePath

/-- `_snprintf` into a buffer of `cap` bytes, the last of which is then set to NUL. -/
def snprintf (cap : Nat) (s : CString) : CString := s.take (cap - 1)

def decimal (n : Nat) : CString := (Nat.toDigits 10 n).map (·.toNat.toUInt8)

/-- `strrchr`: the last occurrence of `c` and what follows it. -/
def strrchr (c : UInt8) (s : CString) : Option CString :=
  if c ∈ s then some (c :: (s.reverse.takeWhile (· ≠ c)).reverse) else none

/-- The stem and the extension the number goes between. -/
def splitExt (name : CString) : CString × CString :=
  match strrchr dotChar name with
  | some dot =>
      if dot.length ≠ name.length ∧ dot.length < 64 then
        ((name.take (name.length - dot.length)).take 259, dot)
      else (name.take 259, [])
  | none => (name.take 259, [])

/-- The `n`-th numbered path, `dir\stem (n)ext`. -/
def numberedPath (dir name : CString) (cap n : Nat) : CString :=
  let (stem, ext) := splitExt name
  snprintf cap (dir ++ [backslash] ++ stem ++ ascii " (" ++ decimal n ++ ascii ")" ++ ext)

/-- The paths the search tries after `p`, in order: the first that is not taken, or the last. -/
def firstFree (taken : CString → Bool) (p : CString) : List CString → Bool × CString
  | [] => (!taken p, p)
  | q :: qs => if taken p then firstFree taken q qs else (true, p)

def plainPath (dir name : CString) (cap : Nat) : CString := snprintf cap (dir ++ [backslash] ++ name)

def numberedPaths (dir name : CString) (cap : Nat) : List CString :=
  (List.range' 1 999).map (numberedPath dir name cap)

/-- `build_unique_path`: whether a free path was found, and the path left in `out`. `taken` is
what `GetFileAttributesA` says of a path. -/
def buildUniquePath (taken : CString → Bool) (dir name : CString) (cap : Nat) : Bool × CString :=
  firstFree taken (plainPath dir name cap) (numberedPaths dir name cap)

/-- The paths the search may try. -/
def candidates (dir name : CString) (cap : Nat) : List CString :=
  plainPath dir name cap :: numberedPaths dir name cap

/-- The path that is tried last, and stays in `out` when every path is taken. -/
def lastCandidate (dir name : CString) (cap : Nat) : CString := numberedPath dir name cap 999

variable {taken : CString → Bool}

theorem firstFree_cons (p q : CString) (qs : List CString) : firstFree taken p (q :: qs) =
    if taken p then firstFree taken q qs else (true, p) := rfl

theorem firstFree_found {p : CString} {qs : List CString} :
    (firstFree taken p qs).1 = true ↔ ∃ q ∈ p :: qs, taken q = false := by
  induction qs generalizing p with
  | nil =>
      change (!taken p) = true ↔ _
      simp
  | cons q qs ih =>
      by_cases hp : taken p = true
      · rw [firstFree_cons, if_pos hp, ih]
        simp [hp]
      · rw [firstFree_cons, if_neg hp]
        simp [Bool.eq_false_iff.mpr hp]

theorem firstFree_free {p : CString} {qs : List CString} (h : (firstFree taken p qs).1 = true) :
    taken (firstFree taken p qs).2 = false := by
  induction qs generalizing p with
  | nil =>
      change (!taken p) = true at h
      change taken p = false
      simpa using h
  | cons q qs ih =>
      by_cases hp : taken p = true
      · rw [firstFree_cons, if_pos hp] at h ⊢
        exact ih h
      · rw [firstFree_cons, if_neg hp]
        exact Bool.eq_false_iff.mpr hp

theorem firstFree_last {p : CString} {qs : List CString} (h : (firstFree taken p qs).1 = false) :
    (firstFree taken p qs).2 = (p :: qs).getLast (List.cons_ne_nil p qs) := by
  induction qs generalizing p with
  | nil => rfl
  | cons q qs ih =>
      by_cases hp : taken p = true
      · rw [firstFree_cons, if_pos hp] at h ⊢
        rw [ih h, List.getLast_cons (List.cons_ne_nil q qs)]
      · rw [firstFree_cons, if_neg hp] at h
        cases h

variable {dir name : CString} {cap : Nat}

/-- The search succeeds exactly when one of its paths is free. -/
theorem buildUniquePath_found :
    (buildUniquePath taken dir name cap).1 = true ↔
      ∃ p ∈ candidates dir name cap, taken p = false := firstFree_found

theorem buildUniquePath_free (h : (buildUniquePath taken dir name cap).1 = true) :
    taken (buildUniquePath taken dir name cap).2 = false := firstFree_free h

/-- A name that is free is taken as it is. -/
theorem buildUniquePath_plain (h : taken (plainPath dir name cap) = false) :
    buildUniquePath taken dir name cap = (true, plainPath dir name cap) := by
  unfold buildUniquePath
  cases numberedPaths dir name cap with
  | nil =>
      change (!taken _, _) = _
      rw [h, Bool.not_false]
  | cons q qs => rw [firstFree_cons, h, if_neg Bool.false_ne_true]

/-- A search that fails leaves the last path it tried, which is taken. -/
theorem buildUniquePath_last (h : (buildUniquePath taken dir name cap).1 = false) :
    (buildUniquePath taken dir name cap).2 = lastCandidate dir name cap := by
  have hlast : (numberedPaths dir name cap).getLast? = some (lastCandidate dir name cap) := by
    rw [numberedPaths, List.getLast?_map, List.getLast?_range']
    rfl
  have hne : numberedPaths dir name cap ≠ [] := by
    intro hnil
    rw [hnil] at hlast
    cases hlast
  rw [buildUniquePath, firstFree_last h, List.getLast_cons hne]
  rw [List.getLast?_eq_some_getLast hne] at hlast
  exact Option.some.inj hlast

theorem lastCandidate_mem (dir name : CString) (cap : Nat) :
    lastCandidate dir name cap ∈ candidates dir name cap :=
  List.mem_cons_of_mem _ (List.mem_map_of_mem (List.mem_range'_1.mpr (by decide)))

theorem lastCandidate_ne_nil (dir name : CString) : lastCandidate dir name maxPath ≠ [] := by
  intro h
  have hlen := congrArg List.length h
  simp only [lastCandidate, numberedPath, snprintf, List.length_take, List.length_append,
    List.length_cons, List.length_nil, maxPath] at hlen
  omega

end UniquePath

end UnicornSuite.Zmodem
