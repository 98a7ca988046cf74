import UnicornSuite.LibText
import Mathlib.Data.List.Basic

/-! The parser of channel documents (`web_module_cdf.c`): the scan for tags, for attributes and for the
end of a TITLE or an ABSTRACT, the text with its entities, and `cdf_parse` with its scope. Allocation
succeeds. The resolver of links is a parameter, for one base URL. -/

namespace UnicornSuite.Cdf

open CText

abbrev Bytes := List UInt8

def less : UInt8 := 0x3C
def greater : UInt8 := 0x3E
def slash : UInt8 := 0x2F
def equals : UInt8 := 0x3D
def ampersand : UInt8 := 0x26
def semicolon : UInt8 := 0x3B
def doubleQuote : UInt8 := 0x22
def singleQuote : UInt8 := 0x27

def isWhite (c : UInt8) : Bool := c = 0x20 ∨ c = 0x09 ∨ c = 0x0D ∨ c = 0x0A

def upper (c : UInt8) : UInt8 := if 0x61 ≤ c ∧ c ≤ 0x7A then c - 32 else c

/-- `cdf_ci_eq_n` for the length of `name`, of a text that is long enough. -/
def startsWith (p name : Bytes) : Bool :=
  name.length ≤ p.length ∧ (p.take name.length).map upper = name.map upper

/-- `cdf_is_name_end` -/
def isNameEnd (c : UInt8) : Bool := isWhite c ∨ c = greater ∨ c = slash ∨ c = equals

/-- `cdf_tag_match` -/
def tagMatch (p name : Bytes) : Bool :=
  startsWith p name ∧ ∀ c ∈ (p.drop name.length).head?, isNameEnd c = true

/-! ### Attributes -/

def isAttrStart (c : UInt8) : Bool := (0x41 ≤ c ∧ c ≤ 0x5A) ∨ (0x61 ≤ c ∧ c ≤ 0x7A) ∨ c = 0x5F

/-- The value behind an equals sign. -/
def attrValue (q : Bytes) : Bytes :=
  match q with
  | [] => []
  | c :: v =>
      if c = doubleQuote ∨ c = singleQuote then v.takeWhile (· ≠ c)
      else (c :: v).takeWhile fun d => !(isWhite d ∨ d = slash ∨ d = greater)

/-- The value of the attribute `name`, where the text starts with it and an equals sign. -/
def attrHere (name p : Bytes) : Option Bytes :=
  if startsWith p name ∧ ∀ c ∈ (p.drop name.length).head?, isWhite c ∨ c = equals then
    match (p.drop name.length).dropWhile isWhite with
    | 0x3D :: q => some (attrValue (q.dropWhile isWhite))
    | _ => none
  else none

/-- The loop of `cdf_attr_get`, by whether it is in the middle of a word. A word is looked at from its
first letter on; one that is the name without an equals sign is passed over like any other. -/
def attrScan (name : Bytes) : Bool → Bytes → Option Bytes
  | _, [] => none
  | false, c :: s =>
      if isAttrStart c then
        match attrHere name (c :: s) with
        | some v => some v
        | none => attrScan name true s
      else attrScan name false s
  | true, c :: s => attrScan name (!isWhite c) s

/-- `cdf_attr_get` -/
def attrGet (tag name : Bytes) : Option Bytes := attrScan name false tag

/-! ### Text -/

/-- `cdf_find_close_tag`: the text from the close tag on. -/
def findCloseTag (name : Bytes) : Bytes → Option Bytes
  | [] => none
  | c :: s =>
      if c = less ∧ name.length + 2 ≤ (c :: s).length ∧ s.head? = some slash ∧ tagMatch s.tail name then
        some (c :: s)
      else findCloseTag name s

def digitOf (base : Nat) (c : UInt8) : Option Nat :=
  if 0x30 ≤ c ∧ c ≤ 0x39 then some (c.toNat - 48)
  else if base = 16 ∧ 0x61 ≤ c ∧ c ≤ 0x66 then some (c.toNat - 87)
  else if base = 16 ∧ 0x41 ≤ c ∧ c ≤ 0x46 then some (c.toNat - 55)
  else none

/-- The digits of a numeric entity; 0 where one is no digit. The number is an `unsigned long`. -/
def number (base : Nat) : Nat → Bytes → Nat
  | v, [] => v
  | v, c :: s =>
      match digitOf base c with
      | none => 0
      | some d => number base ((v * base + d) % 2 ^ 32) s

/-- What stands for an entity, which has `&` before and a semicolon behind it. -/
def entityText (e : Bytes) : Option Bytes :=
  if e.map upper = ascii "AMP" then some [ampersand]
  else if e.map upper = ascii "LT" then some [less]
  else if e.map upper = ascii "GT" then some [greater]
  else if e.map upper = ascii "QUOT" then some [doubleQuote]
  else if e.map upper = ascii "APOS" then some [singleQuote]
  else
    match e with
    | 0x23 :: c :: s =>
        let v := if c = 0x78 ∨ c = 0x58 then number 16 0 s else number 10 0 (c :: s)
        if 0 < v ∧ v < 0x10000 then some (utf8 v) else none
    | _ => none

/-- The text with its entities decoded. A semicolon is looked for in the 15 bytes behind `&`. -/
def decodeEntities : Bytes → Bytes
  | [] => []
  | c :: s =>
      let e := (s.take 15).takeWhile (· ≠ semicolon)
      if c = ampersand ∧ e.length < (s.take 15).length then
        match entityText e with
        | some w => w ++ decodeEntities (s.drop (e.length + 1))
        | none => c :: decodeEntities s
      else c :: decodeEntities s
termination_by s => s.length
decreasing_by
  · simp only [List.length_drop, List.length_cons]
    omega
  · exact Nat.lt_succ_self _
  · exact Nat.lt_succ_self _

def trim (s : Bytes) : Bytes :=
  ((s.dropWhile isWhite).reverse.dropWhile isWhite).reverse

/-- Runs of white space become one space. -/
def collapse : Bool → Bytes → Bytes
  | _, [] => []
  | lastWs, c :: s =>
      if isWhite c then (if lastWs then [] else [0x20]) ++ collapse true s else c :: collapse false s

/-- `cdf_decode_text` -/
def decodeText (src : Bytes) : CString := cstr (collapse false (trim (decodeEntities src)))

/-! ### The document -/

/-- `CdfItem` -/
structure CdfItem where
  title : Option CString := none
  abstract : Option CString := none
  href : Option CString := none
  deriving DecidableEq

/-- `CdfDoc`, as far as it is parsed. -/
structure CdfDoc where
  title : Option CString := none
  abstract : Option CString := none
  logoHref : Option CString := none
  channelHref : Option CString := none
  items : List CdfItem := []
  deriving DecidableEq

inductive Scope where
  | outside | channel | item
  deriving DecidableEq

/-- The state of `cdf_parse`; `cur` is the index of `cur_item`. -/
structure CdfState where
  doc : CdfDoc := {}
  scope : Scope := .outside
  cur : Option Nat := none

/-- The two elements that are read as text. -/
inductive TextKind where
  | title | abstract
  deriving DecidableEq

def TextKind.name : TextKind → Bytes
  | title => ascii "TITLE"
  | abstract => ascii "ABSTRACT"

def CdfItem.get (it : CdfItem) : TextKind → Option CString
  | .title => it.title
  | .abstract => it.abstract

def CdfItem.set (it : CdfItem) (k : TextKind) (text : CString) : CdfItem :=
  match k with
  | .title => { it with title := some text }
  | .abstract => { it with abstract := some text }

def CdfDoc.get (doc : CdfDoc) : TextKind → Option CString
  | .title => doc.title
  | .abstract => doc.abstract

def CdfDoc.set (doc : CdfDoc) (k : TextKind) (text : CString) : CdfDoc :=
  match k with
  | .title => { doc with title := some text }
  | .abstract => { doc with abstract := some text }

/-- A text goes to the item or to the channel, unless it has one. -/
def attachText (st : CdfState) (k : TextKind) (text : Option CString) : CdfState :=
  match text with
  | none => st
  | some text =>
      match st.scope, st.cur with
      | .item, some i =>
          if ((st.doc.items[i]?).bind (·.get k)).isNone then
            { st with doc := { st.doc with items := st.doc.items.modify i (·.set k text) } }
          else st
      | .channel, _ => if (st.doc.get k).isNone then { st with doc := st.doc.set k text } else st
      | _, _ => st

/-- A tag that ends with a slash and white space. -/
def selfClose (name : Bytes) : Bool := (name.reverse.dropWhile isWhite).head? = some slash

/-- The text behind the end of a tag. -/
def behindTag (p : Bytes) : Option Bytes :=
  match p.dropWhile (· ≠ greater) with
  | [] => none
  | _ :: p => some p

/-- A TITLE or ABSTRACT tag: the content, or the VALUE where that is empty. `none` ends the loop. -/
def textElement (st : CdfState) (k : TextKind) (name rest : Bytes) : CdfState × Option Bytes :=
  let valAttr := (attrGet name (ascii "VALUE")).map cstr
  if selfClose name then (attachText st k (valAttr.map decodeText), some rest)
  else
    match findCloseTag k.name rest with
    | none => (attachText st k (valAttr.map decodeText), some rest)
    | some close =>
        let text := decodeText (rest.take (rest.length - close.length))
        let text := if text = [] then (valAttr.map decodeText).getD text else text
        (attachText st k (some text), behindTag close)

/-- A start tag of a CHANNEL, by its link. -/
def openChannel (st : CdfState) (link : Option CString) : CdfState :=
  { st with
    doc := { st.doc with channelHref := st.doc.channelHref.or link }
    scope := .channel }

def openItem (st : CdfState) (link : Option CString) : CdfState :=
  { doc := { st.doc with items := st.doc.items ++ [{ href := link }] }
    scope := .item
    cur := some st.doc.items.length }

def closeItem (st : CdfState) : CdfState :=
  { st with
    scope := if st.scope = .item then .channel else st.scope
    cur := none }

def openLogo (st : CdfState) (link : Option CString) : CdfState :=
  { st with doc := { st.doc with logoHref := st.doc.logoHref.or link } }

section Parse

variable (resolve : CString → Option CString)

/-- The link of a tag, resolved. -/
def tagLink (name : Bytes) : Option CString :=
  ((attrGet name (ascii "HREF")).map cstr).bind fun href => if href = [] then none else resolve href

/-- The body of the loop for a tag, without its brackets, and what stands behind it. -/
def tagStep (st : CdfState) (tag rest : Bytes) : CdfState × Option Bytes :=
  if tag.head? = some 0x21 ∨ tag.head? = some 0x3F then (st, some rest)
  else
    let isClose := tag.head? = some slash
    let name := if isClose then tag.tail else tag
    if tagMatch name (ascii "CHANNEL") then
      (if isClose then { st with scope := .outside } else openChannel st (tagLink resolve name), some rest)
    else if tagMatch name (ascii "ITEM") then
      (if isClose then closeItem st else openItem st (tagLink resolve name), some rest)
    else if tagMatch name (ascii "LOGO") then
      (if isClose then st else openLogo st (tagLink resolve name), some rest)
    else if ¬ isClose ∧ tagMatch name TextKind.title.name then textElement st .title name rest
    else if ¬ isClose ∧ tagMatch name TextKind.abstract.name then textElement st .abstract name rest
    else (st, some rest)

theorem findCloseTag_length_le {name s close : Bytes} (h : findCloseTag name s = some close) :
    close.length ≤ s.length := by
  induction s with
  | nil => cases h
  | cons c s ih =>
      rw [findCloseTag] at h
      split at h
      · cases h
        exact Nat.le_refl _
      · exact Nat.le_succ_of_le (ih h)

theorem behindTag_length_le {p q : Bytes} (h : behindTag p = some q) : q.length ≤ p.length := by
  have hdrop := (List.dropWhile_sublist (l := p) (· ≠ greater)).length_le
  unfold behindTag at h
  split at h
  · cases h
  · rename_i heq
    cases h
    rw [heq, List.length_cons] at hdrop
    omega

theorem tagStep_length_le {st st' : CdfState} {tag rest p : Bytes}
    (h : tagStep resolve st tag rest = (st', some p)) : p.length ≤ rest.length := by
  have htext (k : TextKind) (name : Bytes) (h : textElement st k name rest = (st', some p)) :
      p.length ≤ rest.length := by
    unfold textElement at h
    dsimp only at h
    split at h
    · cases h
      exact Nat.le_refl _
    · split at h
      · cases h
        exact Nat.le_refl _
      · rename_i close hclose
        exact Nat.le_trans (behindTag_length_le (Prod.mk.inj h).2) (findCloseTag_length_le hclose)
  unfold tagStep at h
  dsimp only at h
  repeat' split at h
  all_goals
    first
      | exact htext _ _ h
      | (cases h; exact Nat.le_refl _)

/-- The loop of `cdf_parse`. -/
def parseLoop (st : CdfState) (p : Bytes) : CdfState :=
  match p with
  | [] => st
  | c :: s =>
      if c ≠ less then parseLoop st s
      else
        match _hend : s.dropWhile (· ≠ greater) with
        | [] => st
        | _ :: rest =>
            match _hstep : tagStep resolve st (s.takeWhile (· ≠ greater)) rest with
            | (st', none) => st'
            | (st', some p) => parseLoop st' p
termination_by p.length
decreasing_by
  · exact Nat.lt_succ_self _
  · have hle := tagStep_length_le resolve _hstep
    have hdrop := (List.dropWhile_sublist (l := s) (· ≠ greater)).length_le
    rw [_hend, List.length_cons] at hdrop
    rw [List.length_cons]
    omega

/-- `cdf_parse`; `none` is NULL. -/
def cdfParse (bytes : Bytes) : Option CdfDoc :=
  if bytes = [] then none else some (parseLoop resolve {} bytes).doc

end Parse

end UnicornSuite.Cdf
