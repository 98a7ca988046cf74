import UnicornSuite.CdfParse
import Mathlib.Data.List.Infix

/-! Channel documents as the sequence of their tags, texts and comments, and what they say. A stack of
the open elements tells whose a title, an abstract, a logo or a link is; a sequence that is not nested,
or has no CHANNEL around it, says nothing. -/

namespace UnicornSuite.Cdf

open CText

/-! ### Character data -/

structure White where
  bytes : Bytes
  white : ∀ c ∈ bytes, isWhite c = true

inductive NamedEntity where
  | amp | lt | gt | quot | apos

def NamedEntity.name : NamedEntity → Bytes
  | amp => ascii "amp"
  | lt => ascii "lt"
  | gt => ascii "gt"
  | quot => ascii "quot"
  | apos => ascii "apos"

def NamedEntity.char : NamedEntity → UInt8
  | amp => ampersand
  | lt => less
  | gt => greater
  | quot => doubleQuote
  | apos => singleQuote

/-- The number of a run of digits. -/
def digitsValue (base : Nat) (v : Nat) (digits : Bytes) : Nat :=
  digits.foldl (fun v c => v * base + (digitOf base c).getD 0) v

/-- A character by its number, in the base 10 or 16. -/
structure NumericEntity where
  hex : Bool
  digits : Bytes
  ok : ∀ c ∈ digits, (digitOf (if hex then 16 else 10) c).isSome = true
  nonempty : digits ≠ []

def NumericEntity.base (e : NumericEntity) : Nat := if e.hex then 16 else 10

def NumericEntity.code (e : NumericEntity) : Nat := digitsValue e.base 0 e.digits

def NumericEntity.name (e : NumericEntity) : Bytes :=
  0x23 :: ((if e.hex then [0x78] else []) ++ e.digits)

inductive CharPiece where
  | plain (c : UInt8) (ok : c ≠ ampersand ∧ c ≠ 0)
  | named (e : NamedEntity)
  | numeric (e : NumericEntity) (valid : 0 < e.code ∧ e.code < 0x110000)

def CharPiece.bytes : CharPiece → Bytes
  | plain c _ => [c]
  | named e => ampersand :: e.name ++ [semicolon]
  | numeric e _ => ampersand :: e.name ++ [semicolon]

def CharPiece.value : CharPiece → Bytes
  | plain c _ => [c]
  | named e => [e.char]
  | numeric e _ => utf8 e.code

abbrev CharData := List CharPiece

def CharData.bytes (t : CharData) : Bytes := t.flatMap CharPiece.bytes

def CharData.value (t : CharData) : Bytes := t.flatMap CharPiece.value

/-! ### Tags -/

def isNameChar (c : UInt8) : Bool :=
  ¬ isNameEnd c ∧ c ≠ less ∧ c ≠ doubleQuote ∧ c ≠ singleQuote ∧ c ≠ 0x21 ∧ c ≠ 0x3F

structure Name where
  bytes : Bytes
  nonempty : bytes ≠ []
  chars : ∀ c ∈ bytes, isNameChar c = true

inductive Kind where
  | channel | item | logo
  | text (k : TextKind)
  deriving DecidableEq

def Kind.name : Kind → Bytes
  | channel => ascii "CHANNEL"
  | item => ascii "ITEM"
  | logo => ascii "LOGO"
  | text k => k.name

def Kind.all : List Kind := [.channel, .item, .logo, .text .title, .text .abstract]

def Name.isKind (n : Name) (k : Kind) : Bool := n.bytes.map upper = k.name

/-- Upper and lower case are the same; other elements have no kind. -/
def Name.kind (n : Name) : Option Kind := Kind.all.find? n.isKind

def quoteByte (single : Bool) : UInt8 := if single then singleQuote else doubleQuote

structure Attr where
  lead : White
  apart : lead.bytes ≠ []
  name : Name
  beforeEquals : White
  afterEquals : White
  single : Bool
  value : CharData
  inQuotes : quoteByte single ∉ CharData.bytes value

def Attr.text (a : Attr) : Bytes :=
  a.lead.bytes ++ a.name.bytes ++ a.beforeEquals.bytes ++
    equals :: (a.afterEquals.bytes ++ quoteByte a.single :: (a.value.bytes ++ [quoteByte a.single]))

structure Tag where
  name : Name
  attrs : List Attr
  trail : White

/-- The attributes of a tag, and the slash of an empty element. -/
def attrsText (attrs : List Attr) (trail : White) (slashed : Bool) : Bytes :=
  attrs.flatMap Attr.text ++ (trail.bytes ++ if slashed then [slash] else [])

/-- The text of a tag without its brackets. -/
def Tag.text (t : Tag) (slashed : Bool) : Bytes := t.name.bytes ++ attrsText t.attrs t.trail slashed

def Attr.isNamed (name : Bytes) (a : Attr) : Bool := a.name.bytes.map upper = name

def Tag.attr (t : Tag) (name : String) : Option Attr := t.attrs.find? (Attr.isNamed (ascii name))

/-! ### Documents -/

structure Comment where
  bytes : Bytes
  ok : ¬ [0x2D, 0x2D] <:+: bytes ++ [0x2D]

def Comment.body (c : Comment) : Bytes := [0x21, 0x2D, 0x2D] ++ c.bytes ++ [0x2D, 0x2D]

/-- What is no tag. -/
inductive Flat where
  | chars (t : CharData) (ok : less ∉ CharData.bytes t)
  | comment (c : Comment)

def tagged (body : Bytes) : Bytes := less :: (body ++ [greater])

def Flat.text : Flat → Bytes
  | chars t _ => CharData.bytes t
  | comment c => tagged c.body

/-- A piece of a document. A TITLE or an ABSTRACT is one piece, with its end tag where it has one. -/
inductive Token where
  | flat (f : Flat)
  | opening (tag : Tag)
  | empty (tag : Tag)
  | closing (name : Name) (trail : White)
  | textual (tag : Tag) (content : Option (List Flat × White))

def closeTag (name : Name) (trail : White) : Bytes := tagged (slash :: (name.bytes ++ trail.bytes))

def Token.text : Token → Bytes
  | flat f => f.text
  | opening tag => tagged (tag.text false)
  | empty tag => tagged (tag.text true)
  | closing name trail => closeTag name trail
  | textual tag none => tagged (tag.text true)
  | textual tag (some (content, trail)) =>
      tagged (tag.text false) ++ content.flatMap Flat.text ++ closeTag tag.name trail

def documentText (ts : List Token) : Bytes := ts.flatMap Token.text

/-! ### What a document says -/

/-- White space around a text goes, and runs of it become one space. -/
def cleanText (s : Bytes) : CString := cstr (collapse false (trim s))

def Flat.chars? : Flat → Bytes
  | chars t _ => CharData.value t
  | comment _ => []

def Tag.value (t : Tag) (name : String) : Option Bytes := (t.attr name).map fun a => CharData.value a.value

/-- The character data of a TITLE or an ABSTRACT, or its VALUE where there is none. -/
def saidText (tag : Tag) (content : Option (List Flat × White)) : Option CString :=
  let value := (tag.value "VALUE").map cleanText
  match content with
  | none => value
  | some (flats, _) =>
      let text := cleanText (flats.flatMap Flat.chars?)
      some (if text = [] then value.getD text else text)

section Said

variable (resolve : CString → Option CString)

def Tag.link (t : Tag) : Option CString :=
  (t.value "HREF").bind fun href => if href = [] then none else resolve href

/-- Whose the children of an element are. -/
inductive Owner where
  | channel
  | item (i : Nat)
  | nobody
  deriving DecidableEq

/-- A text goes to its owner, unless that has one. -/
def CdfDoc.put (doc : CdfDoc) (own : Owner) (k : TextKind) (text : Option CString) : CdfDoc :=
  match text, own with
  | some text, .channel => if (doc.get k).isNone then doc.set k text else doc
  | some text, .item i =>
      if ((doc.items[i]?).bind (·.get k)).isNone then
        { doc with items := doc.items.modify i (·.set k text) }
      else doc
  | _, _ => doc

/-- A document as far as it is read: what it says, the open elements, and whether its root is there. -/
structure Reading where
  doc : CdfDoc := {}
  stack : List (Bytes × Owner) := []
  root : Bool := false

def Reading.parent (r : Reading) : Owner :=
  match r.stack with
  | [] => .nobody
  | (_, own) :: _ => own

/-- A start tag: what it says, and whose the children of its element are. -/
def Reading.openTag (r : Reading) (tag : Tag) : Option (CdfDoc × Owner) :=
  match r.stack, tag.name.kind with
  | _, some (.text _) => none
  | [], some .channel =>
      if r.root then none else some ({ r.doc with channelHref := tag.link resolve }, .channel)
  | [], _ => none
  | _ :: _, some .item =>
      some ({ r.doc with items := r.doc.items ++ [{ href := tag.link resolve }] },
        .item r.doc.items.length)
  | _ :: _, some .logo =>
      some (if r.parent = .channel then
          { r.doc with logoHref := r.doc.logoHref.or (tag.link resolve) }
        else r.doc, .nobody)
  | _ :: _, _ => some (r.doc, .nobody)

/-- One piece further; `none` where the document is not well-formed. -/
def Reading.step (r : Reading) : Token → Option Reading
  | .flat (.chars t _) => if r.stack = [] ∧ ¬ (CharData.value t).all isWhite then none else some r
  | .flat (.comment _) => some r
  | .opening tag =>
      (r.openTag resolve tag).map fun p =>
        { doc := p.1, stack := (tag.name.bytes, p.2) :: r.stack, root := true }
  | .empty tag => (r.openTag resolve tag).map fun p => { doc := p.1, stack := r.stack, root := true }
  | .closing name _ =>
      match r.stack with
      | [] => none
      | (n, _) :: stack => if n = name.bytes then some { r with stack := stack } else none
  | .textual tag content =>
      match r.stack, tag.name.kind with
      | _ :: _, some (.text k) => some { r with doc := r.doc.put r.parent k (saidText tag content) }
      | _, _ => none

def Reading.run : Reading → List Token → Option Reading
  | r, [] => some r
  | r, t :: ts => (r.step resolve t).bind fun r => run r ts

/-- What a document says, if it is well-formed. -/
def said (ts : List Token) : Option CdfDoc :=
  match Reading.run resolve {} ts with
  | some { doc := doc, stack := [], root := true } => some doc
  | _ => none

end Said

end UnicornSuite.Cdf
