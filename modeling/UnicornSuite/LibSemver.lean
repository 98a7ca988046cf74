import UnicornSuite.LibText

/-! Semantic versions: the grammar of their texts, with each part a structure that carries what the
grammar asks of it, and their precedence, which looks at the values alone. -/

namespace Semver

open CText

def dot : UInt8 := 0x2E
def hyphen : UInt8 := 0x2D
def plus : UInt8 := 0x2B

def isIdentChar (c : UInt8) : Bool :=
  isDigit c ∨ (0x41 ≤ c ∧ c ≤ 0x5A) ∨ (0x61 ≤ c ∧ c ≤ 0x7A) ∨ c = hyphen

/-- No superfluous zero leads. -/
def Plain (s : CString) : Prop := s.head? = some 0x30 → s = [0x30]

/-- A numeric field of the core. -/
structure Numeral where
  text : CString
  ne_nil : text ≠ []
  digits : ∀ c ∈ text, isDigit c = true
  plain : Plain text

/-- An identifier of the pre-release. -/
structure Ident where
  text : CString
  ne_nil : text ≠ []
  chars : ∀ c ∈ text, isIdentChar c = true
  plain : text.all isDigit = true → Plain text

/-- An identifier of the build metadata, which may have leading zeros. -/
structure BuildIdent where
  text : CString
  ne_nil : text ≠ []
  chars : ∀ c ∈ text, isIdentChar c = true

structure Version where
  major : Numeral
  minor : Numeral
  patch : Numeral
  pre : List Ident
  build : List BuildIdent

/-- Words with dots between them. -/
def dotted : List CString → CString
  | [] => []
  | [w] => w
  | w :: w' :: ws => w ++ dot :: dotted (w' :: ws)

/-- A part with the character that announces it; a part with nothing in it is left out. -/
def part (mark : UInt8) (ws : List CString) : CString :=
  if ws = [] then [] else mark :: dotted ws

namespace Version

variable (v : Version)

def core : List Numeral := [v.major, v.minor, v.patch]

def coreText : CString := dotted (v.core.map (·.text))

def preText : CString := dotted (v.pre.map (·.text))

def text : CString :=
  v.coreText ++ part hyphen (v.pre.map (·.text)) ++ part plus (v.build.map (·.text))

end Version

/-! ### Precedence -/

/-- What an identifier stands for. -/
inductive Rank where
  | num (n : Nat)
  | word (w : CString)
  deriving DecidableEq

/-- Numbers are below words. -/
def Rank.compare : Rank → Rank → Ordering
  | .num m, .num n => Ord.compare m n
  | .num _, .word _ => .lt
  | .word _, .num _ => .gt
  | .word v, .word w => Ord.compare v w

/-- What a version stands for; its build metadata is not part of it. -/
structure Value where
  core : List Nat
  pre : List Rank
  deriving DecidableEq

/-- A version without a pre-release is above those with one. -/
def comparePre : List Rank → List Rank → Ordering
  | [], [] => .eq
  | [], _ :: _ => .gt
  | _ :: _, [] => .lt
  | x :: xs, y :: ys => List.compareLex Rank.compare (x :: xs) (y :: ys)

def precedence (a b : Value) : Ordering := (compare a.core b.core).then (comparePre a.pre b.pre)

section Order

open Std

instance : TransCmp Rank.compare where
  eq_swap {x y} := by
    cases x <;> cases y <;> first | rfl | exact OrientedOrd.eq_swap
  isLE_trans {x y z} hxy hyz := by
    cases x <;> cases y <;> cases z <;>
      first | rfl | exact absurd hxy Bool.false_ne_true | exact absurd hyz Bool.false_ne_true |
        exact TransOrd.isLE_trans hxy hyz

/-- Lists of identifiers, by the first that differ. -/
theorem transCmp_ranks : TransCmp (List.compareLex Rank.compare) := inferInstance

instance : TransCmp comparePre where
  eq_swap {xs ys} := by
    cases xs <;> cases ys <;> first | rfl | exact transCmp_ranks.eq_swap
  isLE_trans {xs ys zs} hxy hyz := by
    cases xs <;> cases ys <;> cases zs <;>
      first | rfl | exact absurd hxy Bool.false_ne_true | exact absurd hyz Bool.false_ne_true |
        exact transCmp_ranks.isLE_trans hxy hyz

/-- Precedence is a total preorder. -/
theorem transCmp_precedence : TransCmp precedence := by
  have hpre : TransCmp comparePre := inferInstance
  have hpart : TransCmp fun a b : Value => comparePre a.pre b.pre :=
    { eq_swap := hpre.eq_swap, isLE_trans := hpre.isLE_trans }
  exact inferInstanceAs (TransCmp (compareLex (compareOn Value.core)
    fun a b : Value => comparePre a.pre b.pre))

end Order

def Numeral.value (n : Numeral) : Nat := decimal 0 n.text

def Ident.isNum (x : Ident) : Bool := x.text.all isDigit

def Ident.rank (x : Ident) : Rank :=
  if x.isNum then .num (decimal 0 x.text) else .word x.text

def Version.value (v : Version) : Value where
  core := v.core.map (·.value)
  pre := v.pre.map (·.rank)

section Grammar

theorem dotted_cons {w : CString} {ws : List CString} (hws : ws ≠ []) :
    dotted (w :: ws) = w ++ dot :: dotted ws := by
  cases ws with
  | nil => exact absurd rfl hws
  | cons w' ws => rfl

theorem dotted_ne_nil {w : CString} {ws : List CString} (hw : w ≠ []) : dotted (w :: ws) ≠ [] := by
  cases ws with
  | nil => exact hw
  | cons w' ws =>
      rw [dotted_cons (List.cons_ne_nil _ _)]
      exact List.append_ne_nil_of_left_ne_nil hw _

theorem Ident.dot_notMem (x : Ident) : dot ∉ x.text := by
  intro hdot
  have hchar := x.chars dot hdot
  revert hchar
  decide

end Grammar

end Semver
