import Mathlib.Logic.Function.Basic
import UnicornSuite.LibCInt
import UnicornSuite.LibOccurrence
import UnicornSuite.LibText

/-! The index of the newspaper (`newspaper_service.c`): the scan for a quoted name, the readers of a
string and a number, and `news_load_index`, which fills the slots of the table in place. A character
array of a slot is a list, and the string in it ends at the first NUL. -/

namespace UnicornSuite.News

open CText CInt

abbrev Bytes := List UInt8

def quote : UInt8 := 0x22
def backslash : UInt8 := 0x5C
def openBrace : UInt8 := 0x7B
def closeBrace : UInt8 := 0x7D
def openBracket : UInt8 := 0x5B
def closeBracket : UInt8 := 0x5D
def colon : UInt8 := 0x3A

/-! ### Scanning -/

def quoted (key : Bytes) : Bytes := quote :: key ++ [quote]

/-- What `json_find_key` passes over behind the name. -/
def isGap (c : UInt8) : Bool := c = 0x20 ∨ c = 0x09 ∨ c = colon ∨ c = 0x0D ∨ c = 0x0A

/-- `json_find_key`: the text from the value on. -/
def jsonFindKey (s key : Bytes) : Option Bytes :=
  match Search.behind (quoted key) s with
  | none => none
  | some q => if q.dropWhile isGap = [] then none else some (q.dropWhile isGap)

def unescape (c : UInt8) : UInt8 :=
  if c = 0x6E then 0x0A else if c = 0x74 then 0x09 else if c = 0x72 then 0x0D else c

/-- The loop of `json_read_string`, with room for `room` more: what it copied, and where it stopped. -/
def readChars : Nat → Bytes → Bytes × Bytes
  | 0, s => ([], s)
  | _ + 1, [] => ([], [])
  | room + 1, [c] => if c = quote then ([], [c]) else (c :: (readChars room []).1, (readChars room []).2)
  | room + 1, c :: d :: s =>
      if c = quote then ([], c :: d :: s)
      else if c = backslash then (unescape d :: (readChars room s).1, (readChars room s).2)
      else (c :: (readChars room (d :: s)).1, (readChars room (d :: s)).2)

/-- An array after a string has been written to it, with its NUL. -/
def store (out w : Bytes) : Bytes := w ++ 0 :: out.drop (w.length + 1)

/-- `json_read_string`: whether it succeeded, and the array. Of a string that does not end the
characters are written, without a NUL. -/
def jsonReadString (s out : Bytes) (cap : Nat) : Bool × Bytes :=
  match s with
  | 0x22 :: s =>
      let r := readChars (cap - 1) s
      if r.2.dropWhile (· ≠ quote) = [] then (false, r.1 ++ out.drop r.1.length)
      else (true, store out r.1)
  | _ => (false, out)

/-- `json_read_int`; what it adds up wraps. -/
def jsonReadInt (s : Bytes) (out : Int) : Bool × Int :=
  let s := s.dropWhile isBlank
  let digits := if s.head? = some 0x2D then s.tail else s
  let v : Int := decimal 0 (digits.takeWhile isDigit)
  if digits.takeWhile isDigit = [] then (false, out)
  else (true, wrap32 (if s.head? = some 0x2D then -v else v))

def objPluckStr (obj : Bytes) (key : String) (out : Bytes) (cap : Nat) : Bool × Bytes :=
  match jsonFindKey obj (ascii key) with
  | none => (false, store out [])
  | some v => jsonReadString v out cap

def objPluckInt (obj : Bytes) (key : String) (out : Int) : Bool × Int :=
  match jsonFindKey obj (ascii key) with
  | none => (false, out)
  | some v => jsonReadInt v out

/-- The loop of `json_skip_object`, by whether it is inside a string, and the depth. -/
def skipFrom : Bool → Nat → Bytes → Bytes
  | _, 0, s => s
  | _, _ + 1, [] => []
  | true, _ + 1, [_] => []
  | true, depth + 1, c :: d :: s =>
      if c = quote then skipFrom false (depth + 1) (d :: s)
      else if c = backslash then skipFrom true (depth + 1) s
      else skipFrom true (depth + 1) (d :: s)
  | false, depth + 1, c :: s =>
      if c = quote then skipFrom true (depth + 1) s
      else if c = openBrace then skipFrom false (depth + 2) s
      else if c = closeBrace then skipFrom false depth s
      else skipFrom false (depth + 1) s

/-- `json_skip_object`: what stands behind the object. -/
def jsonSkipObject (s : Bytes) : Bytes :=
  match s with
  | 0x7B :: s => skipFrom false 1 s
  | s => s

theorem skipFrom_length_le (inString : Bool) (depth : Nat) (s : Bytes) :
    (skipFrom inString depth s).length ≤ s.length := by
  fun_induction skipFrom inString depth s <;> grind

/-! ### The table -/

/-- `NewspaperIssue` -/
structure Issue where
  id : Bytes
  title : Bytes
  pageCount : Int
  pdfPath : Bytes
  coverPath : Bytes

/-- `NEWS_MAX_ISSUES` -/
def newsMaxIssues : Nat := 64

/-- The part of `NewspaperService` that the index is loaded into. `log` is what came of each object of
the index, the issue or nothing, which the code does not keep. -/
structure NewspaperService where
  latest : Bytes
  issues : Nat → Issue
  issueCount : Nat
  log : List (Option Issue) := []

/-- The fields of a slot, each from its member. -/
def pluckIssue (it : Issue) (obj : Bytes) : Issue :=
  { id := (objPluckStr obj "id" it.id 16).2
    title := (objPluckStr obj "title" it.title 256).2
    pageCount := (objPluckInt obj "page_count" it.pageCount).2
    pdfPath := (objPluckStr obj "pdf" it.pdfPath 64).2
    coverPath := (objPluckStr obj "cover" it.coverPath 64).2 }

/-- An object is read into the slot behind the issues, which becomes one if it has an `id`. -/
def loadObject (s : NewspaperService) (obj : Bytes) : NewspaperService :=
  let it := pluckIssue (s.issues s.issueCount) obj
  if cstr it.id = [] then
    { s with
      issues := Function.update s.issues s.issueCount it
      log := s.log ++ [none] }
  else
    { s with
      issues := Function.update s.issues s.issueCount it
      issueCount := s.issueCount + 1
      log := s.log ++ [some it] }

/-- The loop over the array. -/
def loadObjects (s : NewspaperService) (p : Bytes) : NewspaperService :=
  if s.issueCount < newsMaxIssues then
    match _h : p.dropWhile fun c => c ≠ openBrace ∧ c ≠ closeBracket with
    | [] => s
    | c :: q =>
        if c = closeBracket then s
        else
          let rest := skipFrom false 1 q
          loadObjects (loadObject s ((c :: q).take ((c :: q).length - rest.length))) rest
  else s
termination_by p.length
decreasing_by
  have hrest := skipFrom_length_le false 1 q
  have hdrop := (List.dropWhile_sublist (l := p) fun c => c ≠ openBrace ∧ c ≠ closeBracket).length_le
  rw [_h, List.length_cons] at hdrop
  omega

def readLatest (s : NewspaperService) (body : Bytes) : NewspaperService :=
  match jsonFindKey body (ascii "latest") with
  | none => s
  | some v => { s with latest := (jsonReadString v s.latest 16).2 }

/-- `news_load_index`, on what the fetch gives. -/
def newsLoadIndex (s : NewspaperService) (body : Option Bytes) : Bool × NewspaperService :=
  match body with
  | none => (false, s)
  | some body =>
      let s := readLatest s body
      match jsonFindKey body (ascii "issues") with
      | none => (true, s)
      | some v =>
          match v.dropWhile (· ≠ openBracket) with
          | [] => (true, s)
          | _ :: p => (true, loadObjects { s with issueCount := 0, log := [] } p)

end UnicornSuite.News
