import UnicornSuite.NewsIndex
import Mathlib.Algebra.Field.Rat

/-! Index documents: the JSON text of an array of flat objects, with any text before and behind it, and the
value of each string and number. -/

namespace UnicornSuite.News

open CText

/-! ### Strings -/

inductive Escape where
  | quote | backslash | slash | b | f | n | r | t

def Escape.letter : Escape → UInt8
  | quote => 0x22
  | backslash => 0x5C
  | slash => 0x2F
  | b => 0x62
  | f => 0x66
  | n => 0x6E
  | r => 0x72
  | t => 0x74

def Escape.value : Escape → UInt8
  | quote => 0x22
  | backslash => 0x5C
  | slash => 0x2F
  | b => 0x08
  | f => 0x0C
  | n => 0x0A
  | r => 0x0D
  | t => 0x09

structure HexDigit where
  value : Fin 16
  upper : Bool

def HexDigit.letter (h : HexDigit) : UInt8 :=
  UInt8.ofNat (if h.value.val < 10 then 48 + h.value.val
    else if h.upper then 55 + h.value.val else 87 + h.value.val)

inductive JsonChar where
  | plain (c : UInt8) (ok : c ≠ quote ∧ c ≠ backslash ∧ 0x20 ≤ c)
  | escape (e : Escape)
  | unicode (h₁ h₂ h₃ h₄ : HexDigit)

def JsonChar.text : JsonChar → Bytes
  | plain c _ => [c]
  | escape e => [News.backslash, e.letter]
  | unicode h₁ h₂ h₃ h₄ => [News.backslash, 0x75, h₁.letter, h₂.letter, h₃.letter, h₄.letter]

abbrev JsonString := List JsonChar

/-- The text between the quotes. -/
def JsonString.text (s : JsonString) : Bytes := s.flatMap JsonChar.text

def codeUnit (h₁ h₂ h₃ h₄ : HexDigit) : Nat :=
  ((h₁.value.val * 16 + h₂.value.val) * 16 + h₃.value.val) * 16 + h₄.value.val

/-- Two code units that are one character. -/
def isPair (hi lo : Nat) : Bool := 0xD800 ≤ hi ∧ hi < 0xDC00 ∧ 0xDC00 ≤ lo ∧ lo < 0xE000

/-- The string in UTF-8. -/
def JsonString.value : JsonString → Bytes
  | [] => []
  | .plain c _ :: s => c :: value s
  | .escape e :: s => e.value :: value s
  | .unicode h₁ h₂ h₃ h₄ :: .unicode g₁ g₂ g₃ g₄ :: s =>
      let hi := codeUnit h₁ h₂ h₃ h₄
      let lo := codeUnit g₁ g₂ g₃ g₄
      if isPair hi lo then utf8 (0x10000 + (hi - 0xD800) * 0x400 + (lo - 0xDC00)) ++ value s
      else utf8 hi ++ value (.unicode g₁ g₂ g₃ g₄ :: s)
  | .unicode h₁ h₂ h₃ h₄ :: s => utf8 (codeUnit h₁ h₂ h₃ h₄) ++ value s

/-! ### Values -/

structure Digits where
  bytes : Bytes
  digits : ∀ c ∈ bytes, isDigit c = true
  nonempty : bytes ≠ []

/-- An exponent; a sign is whether it is a minus. -/
structure Exponent where
  upper : Bool
  sign : Option Bool
  digits : Digits

def Exponent.signText (e : Exponent) : Bytes :=
  match e.sign with
  | none => []
  | some minus => [if minus then 0x2D else 0x2B]

def Exponent.text (e : Exponent) : Bytes :=
  (if e.upper then 0x45 else 0x65) :: e.signText ++ e.digits.bytes

def Exponent.value (e : Exponent) : Int :=
  if e.sign = some true then -decimal 0 e.digits.bytes else decimal 0 e.digits.bytes

structure Number where
  neg : Bool
  int : Digits
  frac : Option Digits
  exp : Option Exponent

def Number.fracText (n : Number) : Bytes :=
  match n.frac with
  | none => []
  | some d => 0x2E :: d.bytes

def Number.expText (n : Number) : Bytes :=
  match n.exp with
  | none => []
  | some e => e.text

def Number.text (n : Number) : Bytes :=
  (if n.neg then [0x2D] else []) ++ n.int.bytes ++ n.fracText ++ n.expText

/-- The integer part, with the sign. -/
def Number.intPart (n : Number) : Int := if n.neg then -decimal 0 n.int.bytes else decimal 0 n.int.bytes

def Number.fracValue (n : Number) : ℚ :=
  match n.frac with
  | none => 0
  | some d => decimal 0 d.bytes / 10 ^ d.bytes.length

def Number.expValue (n : Number) : Int :=
  match n.exp with
  | none => 0
  | some e => e.value

def Number.value (n : Number) : ℚ :=
  (if n.neg then -1 else 1) * (decimal 0 n.int.bytes + n.fracValue) * 10 ^ n.expValue

inductive Value where
  | str (s : JsonString)
  | num (n : Number)
  | true
  | false
  | null

def Value.text : Value → Bytes
  | str s => News.quote :: s.text ++ [News.quote]
  | num n => n.text
  | true => ascii "true"
  | false => ascii "false"
  | null => ascii "null"

/-! ### Objects -/

structure Ws where
  bytes : Bytes
  space : ∀ c ∈ bytes, c = 0x20 ∨ c = 0x09 ∨ c = 0x0A ∨ c = 0x0D

def Ws.empty : Ws := ⟨[], by simp⟩

structure Member where
  lead : Ws := Ws.empty
  key : JsonString
  beforeColon : Ws := Ws.empty
  afterColon : Ws := Ws.empty
  value : Value
  trail : Ws := Ws.empty

def Member.text (m : Member) : Bytes :=
  m.lead.bytes ++ (Value.str m.key).text ++ m.beforeColon.bytes ++
    colon :: (m.afterColon.bytes ++ m.value.text ++ m.trail.bytes)

def comma : UInt8 := 0x2C

/-- A list of texts with commas between them, and the white space of an empty one. -/
def listed {α : Type} (text : α → Bytes) (pad : Ws) : List α → Bytes
  | [] => pad.bytes
  | a :: l => text a ++ l.flatMap fun a => comma :: text a

structure Object where
  members : List Member
  pad : Ws := Ws.empty

def Object.text (o : Object) : Bytes := openBrace :: listed Member.text o.pad o.members ++ [closeBrace]

/-- The value of the member of a name. -/
def Object.get (o : Object) (name : String) : Option Value :=
  (o.members.find? fun m => JsonString.value m.key = ascii name).map Member.value

/-- A field of text is the member's string, or empty. -/
def Object.str (o : Object) (name : String) : Bytes :=
  match o.get name with
  | some (.str s) => JsonString.value s
  | _ => []

/-- A field of a number is the member's number, or zero. -/
def Object.num (o : Object) (name : String) : ℚ :=
  match o.get name with
  | some (.num n) => n.value
  | _ => 0

structure Element where
  lead : Ws := Ws.empty
  object : Object
  trail : Ws := Ws.empty

def Element.text (e : Element) : Bytes := e.lead.bytes ++ e.object.text ++ e.trail.bytes

/-- A document by its array `issues`, with all of it that stands before the array's name and behind the
array. -/
structure Document where
  before : Bytes
  name : JsonString
  named : JsonString.value name = ascii "issues"
  beforeColon : Ws := Ws.empty
  afterColon : Ws := Ws.empty
  elements : List Element
  pad : Ws := Ws.empty
  after : Bytes

def Document.text (d : Document) : Bytes :=
  d.before ++ (Value.str d.name).text ++ d.beforeColon.bytes ++
    colon :: (d.afterColon.bytes ++
      openBracket :: (listed Element.text d.pad d.elements ++ closeBracket :: d.after))

def Document.objects (d : Document) : List Object := d.elements.map Element.object

end UnicornSuite.News
