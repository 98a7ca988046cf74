import UnicornSuite.ArchieArdp
import UnicornSuite.LibText
import Mathlib.Data.List.DropRight

/-! The parser of an Archie reply (`parse_body`): the fields of a line, what a LINK line makes a hit
of, and what the attribute lines of either dialect store in it. A field of a hit is what its buffer
holds as a C string. `realloc` tells for each size of the hit table whether there is memory for it. -/

namespace UnicornSuite.Archie

open CText

section Fields

/-- `'` -/
def tick : UInt8 := 0x27

/-- A byte put in a field whose buffer has `outsz` bytes. -/
def pushOut (outsz : Nat) (out : CString) (c : UInt8) : CString :=
  if out.length < outsz - 1 then out ++ [c] else out

/-- The loop of `next_field` behind an opening quote: the field, and what is left of the line. -/
def quotedField (outsz : Nat) : CString → CString → CString × CString
  | out, [] => (out, [])
  | out, [c] => if c = tick then (out, []) else (pushOut outsz out c, [])
  | out, c :: d :: s =>
      if c = tick then
        if d = tick then quotedField outsz (pushOut outsz out tick) s else (out, d :: s)
      else quotedField outsz (pushOut outsz out c) (d :: s)

/-- `next_field`; `none` at the end of the line. -/
def nextField (outsz : Nat) (s : CString) : Option (CString × CString) :=
  let s := s.dropWhile isBlank
  match s with
  | [] => none
  | c :: t =>
      if c = tick then some (quotedField outsz [] t)
      else
        some ((s.takeWhile fun c => !isBlank c).take (outsz - 1), s.dropWhile fun c => !isBlank c)

/-- `denull` -/
def denull (s : CString) : CString := if s = ascii "NULL" then [] else s

/-- `copy_bounded`, to a buffer of `dsz` bytes. -/
def copyBounded (dsz : Nat) (src : CString) : CString := src.take (dsz - 1)

def slash : UInt8 := 0x2F

/-- What follows the last slash, if there is one. -/
def afterSlash (s : CString) : CString := s.rtakeWhile (· ≠ slash)

/-- `split_path`: `dir` and `file`. -/
def splitPath (hsoname : CString) (dsz fsz : Nat) : CString × CString :=
  if slash ∈ hsoname then
    let dl := hsoname.length - (afterSlash hsoname).length - 1
    (if dl = 0 then copyBounded dsz [slash] else hsoname.take (min dl (dsz - 1)),
      copyBounded fsz (afterSlash hsoname))
  else ([], copyBounded fsz hsoname)

/-- `size_value` -/
def sizeValue (val : CString) (outsz : Nat) : CString :=
  let digits := ((val.dropWhile (· = 0x20)).takeWhile isDigit).take (outsz - 1)
  if digits = [] then copyBounded outsz val else digits

end Fields

/-- `archie_hit_t` -/
structure ArchieHit where
  name : CString
  host : CString
  hsoname : CString
  dir : CString
  filename : CString
  size : CString := []
  mode : CString := []
  date : CString := []
  deriving DecidableEq

/-- `archie_store_attr` -/
def archieStoreAttr (h : ArchieHit) (aname value : CString) : ArchieHit :=
  if aname = ascii "SIZE" then { h with size := sizeValue value 64 }
  else if aname = ascii "UNIX-MODES" then
    match nextField 48 value with
    | some (m, _) => { h with mode := copyBounded 48 m }
    | none => h
  else if aname = ascii "LAST-MODIFIED" then { h with date := copyBounded 96 value }
  else h

/-- The first `n` fields of a line. -/
def lineFields : Nat → CString → List CString
  | 0, _ => []
  | n + 1, s =>
      match nextField 512 s with
      | none => []
      | some (f, s) => f :: lineFields n s

/-- The hit a LINK line makes, or `none` where it is skipped. -/
def linkHit (line : CString) : Option ArchieHit :=
  let f := lineFields 10 line
  let field i := f.getD i []
  if f.length < 8 then none
  else if field 1 ≠ ascii "L" then none
  else if denull (field 2) ≠ ascii "EXTERNAL" then none
  else if denull (field 7) = [] then none
  else
    let path := splitPath (denull (field 7)) 512 256
    some
      { name := copyBounded 256 (denull (field 3))
        host := copyBounded 256 (denull (field 5))
        hsoname := copyBounded 512 (denull (field 7))
        dir := path.1
        filename := path.2 }

/-- An attribute line behind its keyword: a field for each buffer of `sizes`, and the rest is the
value. -/
def attrFields (q : CString) : List Nat → Option (List CString × CString)
  | [] => some ([], q.dropWhile (· = 0x20))
  | outsz :: sizes =>
      match nextField outsz q with
      | none => none
      | some (f, q) =>
          match attrFields q sizes with
          | none => none
          | some (fs, value) => some (f :: fs, value)

/-- `aname` and the value of an ATTRIBUTE line: `prec`, `nature`, `aname`, `atype`, the value. -/
def attributeLine (line : CString) : Option (CString × CString) :=
  (attrFields (line.drop 10) [64, 64, 64, 16]).map fun r => (r.1.getD 2 [], r.2)

/-- `aname` and the value of a LINK-INFO line: `prec`, `aname`, `atype`, the value. -/
def linkInfoLine (line : CString) : Option (CString × CString) :=
  (attrFields (line.drop 10) [64, 64, 16]).map fun r => (r.1.getD 1 [], r.2)

/-- What a line of the body is to the parser. -/
inductive Line where
  | attr (a : Option (CString × CString))
  | link (hit : Option ArchieHit)
  | noneFound
  | error
  | warning
  | other
  deriving DecidableEq

def startsWith (line word : CString) : Bool := strncmp line word word.length = 0

def readLine (line : CString) : Line :=
  if startsWith line (ascii "ATTRIBUTE ") then .attr (attributeLine line)
  else if startsWith line (ascii "LINK-INFO ") then .attr (linkInfoLine line)
  else if startsWith line (ascii "LINK ") then .link (linkHit line)
  else if startsWith line (ascii "NONE-FOUND") then .noneFound
  else if startsWith line (ascii "ERROR") || startsWith line (ascii "FAILURE") ||
      startsWith line (ascii "VERSION-NOT-SUPPORTED") then .error
  else if startsWith line (ascii "WARNING ") then .warning
  else .other

/-! ### Fields that are written and read back -/

section Written

/-- A value that fits in a field of `f[10][512]`. -/
structure Field where
  text : CString
  noNul : (0 : UInt8) ∉ text
  short : text.length < 512

/-- A field in quotes: a quote in it is written twice. -/
def quotedText (f : CString) : CString :=
  tick :: (f.flatMap fun c => if c = tick then [tick, tick] else [c]) ++ [tick]

/-- A field that can do without quotes. -/
def Bare (f : CString) : Prop := f ≠ [] ∧ f.head? ≠ some tick ∧ ∀ c ∈ f, isBlank c = false

instance (f : CString) : Decidable (Bare f) := inferInstanceAs (Decidable (_ ∧ _ ∧ _))

/-- Quotes where there is something to quote. -/
def quote (f : CString) : CString := if Bare f ∧ tick ∉ f then f else quotedText f

def fieldLine (fs : List CString) : CString := [0x20].intercalate (fs.map quote)

/-- The ways to write a field. -/
inductive Spells (f : CString) : CString → Prop
  | quoted : Spells f (quotedText f)
  | bare (h : Bare f) : Spells f f

/-- The ways to write fields in a line, with any blanks between them. -/
inductive LineOf : List CString → CString → Prop
  | last {blanks : CString} (h : ∀ c ∈ blanks, isBlank c = true) : LineOf [] blanks
  | field {f w blanks t : CString} {fs : List CString} (hblanks : ∀ c ∈ blanks, isBlank c = true)
      (hw : Spells f w) (hsep : ∀ c ∈ t.head?, isBlank c = true) (hrest : LineOf fs t) :
      LineOf (f :: fs) (blanks ++ (w ++ t))

variable {outsz n : Nat} {f w out s t blanks : CString} {fs : List CString}

theorem quotedField_close (ht : t.head? ≠ some tick) (out : CString) :
    quotedField outsz out (tick :: t) = (out, t) := by
  cases t with
  | nil => exact if_pos rfl
  | cons d s =>
      have hd : d ≠ tick := fun h => ht (congrArg some h)
      rw [quotedField, if_pos rfl, if_neg hd]

theorem pushOut_short {c : UInt8} (h : out.length + 1 < outsz) : pushOut outsz out c = out ++ [c] :=
  if_pos (by omega)

/-- The loop behind the quote that opens a field finds the one that closes it. -/
theorem quotedField_text (hf : out.length + f.length < outsz) (ht : t.head? ≠ some tick) :
    quotedField outsz out ((f.flatMap fun c => if c = tick then [tick, tick] else [c]) ++ tick :: t) =
      (out ++ f, t) := by
  induction f generalizing out with
  | nil => rw [List.flatMap_nil, List.nil_append, List.append_nil, quotedField_close ht]
  | cons c f ih =>
      rw [List.length_cons] at hf
      have hrest := ih (show (out ++ [c]).length + f.length < outsz by
        rw [List.length_append, List.length_singleton]
        omega)
      rw [List.append_assoc, List.singleton_append] at hrest
      rw [List.flatMap_cons, List.append_assoc]
      by_cases hc : c = tick
      · subst hc
        rw [if_pos rfl, List.cons_append, List.singleton_append, quotedField, if_pos rfl, if_pos rfl,
          pushOut_short (by omega), hrest]
      · rw [if_neg hc, List.singleton_append]
        generalize hrem : (f.flatMap fun c => if c = tick then [tick, tick] else [c]) ++ tick :: t = rem
          at hrest ⊢
        cases rem with
        | nil => simp at hrem
        | cons d s => rw [quotedField, if_neg hc, pushOut_short (by omega), hrest]

theorem isBlank_tick : isBlank tick = false := by decide

/-- A field is read as it was written, and the line goes on behind it. -/
theorem nextField_spells (hblanks : ∀ c ∈ blanks, isBlank c = true) (hw : Spells f w)
    (hsep : ∀ c ∈ t.head?, isBlank c = true) (hf : f.length < outsz) :
    nextField outsz (blanks ++ (w ++ t)) = some (f, t) := by
  have htick : t.head? ≠ some tick := by
    intro h
    have hblank := hsep tick h
    rw [isBlank_tick] at hblank
    cases hblank
  unfold nextField
  cases hw with
  | quoted =>
      rw [dropWhile_append hblanks (by simp [quotedText, isBlank_tick])]
      simp only [quotedText, List.cons_append, List.append_assoc, List.nil_append, if_true]
      rw [quotedField_text (by simpa using hf) htick]
      rfl
  | bare h =>
      obtain ⟨hne, hhead, hall⟩ := h
      obtain ⟨c, f, rfl⟩ := List.exists_cons_of_ne_nil hne
      have hc : c ≠ tick := fun h => hhead (congrArg some h)
      have hbehind : ∀ d ∈ t.head?, (!isBlank d) = false := fun d hd => by rw [hsep d hd, Bool.not_true]
      have hword : ∀ d ∈ c :: f, (!isBlank d) = true := fun d hd => by rw [hall d hd, Bool.not_false]
      rw [dropWhile_append hblanks (by simpa using hall c List.mem_cons_self)]
      simp only [List.cons_append, hc, if_false]
      rw [← List.cons_append, takeWhile_append hword hbehind, dropWhile_append hword hbehind,
        List.take_of_length_le (by omega)]

theorem nextField_blanks (hblanks : ∀ c ∈ blanks, isBlank c = true) : nextField outsz blanks = none := by
  have hdrop : blanks.dropWhile isBlank = [] := List.dropWhile_eq_nil_iff.mpr hblanks
  unfold nextField
  rw [hdrop]

theorem lineFields_lineOf (h : LineOf fs s) (hfs : ∀ f ∈ fs, f.length < 512) (hn : fs.length ≤ n) :
    lineFields n s = fs := by
  induction h generalizing n with
  | last hblanks =>
      cases n with
      | zero => rfl
      | succ n => rw [lineFields, nextField_blanks hblanks]
  | field hblanks hw hsep hrest ih =>
      cases n with
      | zero => cases hn
      | succ n =>
          rw [lineFields, nextField_spells hblanks hw hsep (hfs _ List.mem_cons_self)]
          dsimp only
          rw [ih (fun f hf => hfs f (List.mem_cons_of_mem _ hf)) (Nat.le_of_succ_le_succ hn)]

theorem spells_quote (f : CString) : Spells f (quote f) := by
  unfold quote
  split_ifs with h
  · exact .bare h.1
  · exact .quoted

theorem LineOf.blank (h : LineOf fs t) {c : UInt8} (hc : isBlank c = true) : LineOf fs (c :: t) := by
  cases h with
  | last hblanks => exact .last (List.forall_mem_cons.mpr ⟨hc, hblanks⟩)
  | field hblanks hw hsep hrest =>
      exact @LineOf.field _ _ (c :: _) _ _ (List.forall_mem_cons.mpr ⟨hc, hblanks⟩) hw hsep hrest

theorem lineOf_fieldLine (fs : List CString) : LineOf fs (fieldLine fs) := by
  induction fs with
  | nil => exact .last nofun
  | cons f fs ih =>
      cases fs with
      | nil =>
          have hline : fieldLine [f] = [] ++ (quote f ++ []) := by
            rw [fieldLine, List.map_singleton, List.intercalate_singleton, List.nil_append, List.append_nil]
          rw [hline]
          exact .field nofun (spells_quote f) nofun (.last nofun)
      | cons g fs =>
          have hline : fieldLine (f :: g :: fs) = [] ++ (quote f ++ (0x20 :: fieldLine (g :: fs))) := by
            rw [fieldLine, List.map_cons, List.map_cons, List.intercalate_cons_cons, List.append_assoc]
            rfl
          rw [hline]
          refine .field nofun (spells_quote f) (by simp [isBlank]) ?_
          exact ih.blank rfl

/-! ### Every call goes on -/

theorem quotedField_suffix (out s : CString) : (quotedField outsz out s).2 <:+ s := by
  fun_induction quotedField outsz out s with
  | case1 out => exact List.suffix_refl _
  | case2 out => exact List.nil_suffix
  | case3 out c h => exact List.nil_suffix
  | case4 out s ih => exact ih.trans ((List.suffix_cons _ _).trans (List.suffix_cons _ _))
  | case5 out d s => exact List.suffix_cons _ _
  | case6 out c d s h ih => exact ih.trans (List.suffix_cons _ _)

/-- A call that gives a field leaves a shorter end of the line. -/
theorem nextField_advances (h : nextField outsz s = some (f, t)) : t <:+ s ∧ t.length < s.length := by
  have hdrop := List.dropWhile_suffix (l := s) isBlank
  unfold nextField at h
  cases hs : s.dropWhile isBlank with
  | nil =>
      rw [hs] at h
      cases h
  | cons c r =>
      rw [hs] at h hdrop
      have htail : t <:+ r := by
        dsimp only at h
        split_ifs at h with hc
        · obtain ⟨-, rfl⟩ := Prod.mk.inj (Option.some.inj h)
          exact quotedField_suffix [] r
        · have hblank : isBlank c = false := by
            have hhead := List.head?_dropWhile_not isBlank s
            rw [hs] at hhead
            simpa using hhead
          obtain ⟨-, rfl⟩ := Prod.mk.inj (Option.some.inj h)
          rw [List.dropWhile_cons_of_pos (by simp [hblank])]
          exact List.dropWhile_suffix _
      refine ⟨(htail.trans (List.suffix_cons c r)).trans hdrop, ?_⟩
      have hlength := htail.length_le
      have hwhole := hdrop.length_le
      rw [List.length_cons] at hwhole
      omega

/-- No line has more fields than bytes. -/
theorem lineFields_ends (hn : s.length ≤ n) : lineFields n s = lineFields s.length s := by
  induction n using Nat.strongRecOn generalizing s with
  | _ n ih =>
      cases n with
      | zero => rw [Nat.le_zero.mp hn]
      | succ n =>
          cases hs : s.length with
          | zero =>
              rw [List.length_eq_zero_iff.mp hs]
              rfl
          | succ k =>
              rw [lineFields, lineFields]
              cases hnext : nextField 512 s with
              | none => rfl
              | some r =>
                  have hlt := (nextField_advances hnext).2
                  dsimp only
                  rw [ih n (Nat.lt_succ_self n) (by omega), ← ih k (by omega) (by omega)]

/-- Up to ten fields that are written in a line, with quotes wherever there is something to quote or
wherever one likes, are the fields that are read; and whatever a line holds, a call that does not fail
leaves less of it, so that the loop would end by itself. -/
theorem fields_roundTrip (fs : List Field) (hlen : fs.length ≤ 10) :
    lineFields 10 (fieldLine (fs.map (·.text))) = fs.map (·.text) ∧
    (∀ line, LineOf (fs.map (·.text)) line → lineFields 10 line = fs.map (·.text)) ∧
    (∀ outsz line, nextField outsz line = none ∨
      ∃ f t, nextField outsz line = some (f, t) ∧ t <:+ line ∧ t.length < line.length) ∧
    ∀ line n, line.length ≤ n → lineFields n line = lineFields line.length line := by
  have hshort : ∀ f ∈ fs.map (·.text), f.length < 512 := by
    intro f hf
    obtain ⟨field, -, rfl⟩ := List.mem_map.mp hf
    exact field.short
  have hread {line : CString} (h : LineOf (fs.map (·.text)) line) : lineFields 10 line = fs.map (·.text) :=
    lineFields_lineOf h hshort (by rwa [List.length_map])
  refine ⟨hread (lineOf_fieldLine _), fun line h => hread h, ?_, fun line n hn => lineFields_ends hn⟩
  intro outsz line
  cases h : nextField outsz line with
  | none => exact Or.inl rfl
  | some r => exact Or.inr ⟨r.1, r.2, rfl, nextField_advances h⟩

/-- An empty field, one with a blank, one with quotes and one without anything to quote. -/
theorem fields_roundTrip_four :
    lineFields 10 (ascii "'' 'a b' '''it''s' c") = [[], ascii "a b", ascii "'it's", ascii "c"] := by
  have h := fields_roundTrip
    [⟨[], by decide, by decide⟩, ⟨ascii "a b", by decide, by decide⟩, ⟨ascii "'it's", by decide, by decide⟩,
      ⟨ascii "c", by decide, by decide⟩] (by decide)
  exact h.1

end Written

/-! ### The lines of the body -/

def nl : UInt8 := 0x0A

/-- A line as it is copied to `line[1400]`, less the CRs and spaces at its end. -/
def trimLine (raw : Bytes) : Bytes := (raw.take 1399).rdropWhile fun c => c = 0x0D || c = 0x20

/-- The lines the parser looks at, as C strings. -/
def bodyLines (body : Bytes) : List CString :=
  if _ : body = [] then []
  else
    let line := trimLine (body.takeWhile (· ≠ nl))
    let rest := bodyLines (body.dropWhile (· ≠ nl)).tail
    if line = [] then rest else cstr line :: rest
termination_by body.length
decreasing_by exact tail_dropWhile_lt _ ‹_›

/-! ### The parser -/

/-- The locals of `parse_body`, with the fields of `*out` it sets on the way; `cur` is -1 before the
first hit. -/
structure Parse where
  hits : List ArchieHit := []
  cap : Nat := 0
  cur : Option Nat := none
  sawServerError : Bool := false
  errLine : CString := []
  noneFound : Bool := false
  warning : CString := []

section Parser

variable (realloc : Nat → Bool)

/-- A hit at the end of the table; an error where the table cannot grow. -/
def addHit (st : Parse) (hit : ArchieHit) : Except Parse Parse :=
  let cap := if st.hits.length = st.cap then if st.cap = 0 then 32 else st.cap * 2 else st.cap
  if st.hits.length = st.cap ∧ realloc cap = false then .error st
  else .ok { st with hits := st.hits ++ [hit], cap := cap, cur := some st.hits.length }

/-- One line; an error is `ARCHIE_ERR_NOMEM`. -/
def parseLine (st : Parse) (line : CString) : Except Parse Parse :=
  match readLine line with
  | .attr a =>
      match st.cur, a with
      | some cur, some (aname, value) =>
          .ok { st with hits := st.hits.modify cur fun h => archieStoreAttr h aname value }
      | _, _ => .ok st
  | .link none => .ok st
  | .link (some hit) => addHit realloc st hit
  | .noneFound => .ok { st with noneFound := true }
  | .error =>
      .ok (if st.sawServerError then st
        else { st with sawServerError := true, errLine := copyBounded 256 line })
  | .warning =>
      .ok (if st.warning = [] then { st with warning := copyBounded 256 (line.drop 8) } else st)
  | .other => .ok st

/-- `archie_status_t`, as far as `parse_body` returns it. -/
inductive Status where
  | ok | errServer | errNomem
  deriving DecidableEq

/-- `*out`: `hits` is NULL where there was no memory for the table. -/
structure ArchieResult where
  status : Status
  message : CString := []
  hits : Option (List ArchieHit) := none
  noneFound : Bool := false
  warning : CString := []

def foundMessage (count : Nat) : CString :=
  decimalText count ++ ascii " file" ++ (if count = 1 then [] else ascii "s") ++ ascii " found."

def parseLines (st : Parse) (lines : List CString) : Except Parse Parse :=
  lines.foldlM (parseLine realloc) st

/-- `parse_body`, on a result that starts out zeroed. -/
def parseBody (body : Bytes) : ArchieResult :=
  match parseLines realloc {} (bodyLines body) with
  | .error st => { status := .errNomem, noneFound := st.noneFound, warning := st.warning }
  | .ok st =>
      let out (status : Status) (message : CString) : ArchieResult :=
        { status := status
          message := copyBounded 256 message
          hits := some st.hits
          noneFound := st.noneFound
          warning := st.warning }
      if st.hits ≠ [] then out .ok (foundMessage st.hits.length)
      else if st.sawServerError then out .errServer st.errLine
      else out .ok (ascii "No matches.")

end Parser

end UnicornSuite.Archie
