import Mathlib.Data.FinEnum
import UnicornSuite.LibPath
import UnicornSuite.LibRun
import UnicornSuite.LibText

/-! Names and paths of the DOS that GW-BASIC runs on (`gwb_machine.c`): names in the 8.3 form of a file
control block, the resolution of a guest path to a host path below the machine's folder, and the call
that changes the current directory. A wide string is the list of its units, its terminator left out. -/

namespace UnicornSuite.Gwb

open CText

abbrev WString := List UInt16

def backslash : UInt8 := 0x5C
def dotChar : UInt8 := 0x2E
def space : UInt8 := 0x20
def star : UInt8 := 0x2A
def question : UInt8 := 0x3F

def isSep (c : UInt8) : Bool := c = backslash ∨ c = 0x2F

/-! ### Names -/

def upper (c : UInt8) : UInt8 := if 0x61 ≤ c ∧ c ≤ 0x7A then c - 32 else c

def dosCharOk (c : UInt8) : Bool :=
  decide (0x41 ≤ c ∧ c ≤ 0x5A ∨ 0x30 ≤ c ∧ c ≤ 0x39) || c ∈ ascii "!#$%&'()-@^_\x60\x7b\x7d~"

/-- One part of a name, up to `cap` characters; the rest is checked and dropped. `none` where the name
cannot be a DOS name. -/
def scanPart (cap : Nat) (wild : Bool) (part : CString) : CString → Option CString
  | [] => some part
  | c :: name =>
      let c := upper c
      if c = star ∧ wild then
        scanPart cap wild (part ++ List.replicate (cap - part.length) question) name
      else if c = question ∧ wild then
        scanPart cap wild (if part.length < cap then part ++ [question] else part) name
      else if c = dotChar ∨ ¬ dosCharOk c then none
      else scanPart cap wild (if part.length < cap then part ++ [c] else part) name

def pad (n : Nat) (part : CString) : CString := part ++ List.replicate (n - part.length) space

/-- The eleven bytes of a name. -/
def toFcb11 (name : CString) (allowWild : Bool) : Option CString :=
  match scanPart 8 allowWild [] (name.takeWhile (· ≠ dotChar)) with
  | none => none
  | some base =>
      if base = [] then none
      else
        match name.dropWhile (· ≠ dotChar) with
        | [] => some (pad 8 base ++ pad 3 [])
        | _ :: rest =>
            match scanPart 3 allowWild [] rest with
            | none => none
            | some ext => some (pad 8 base ++ pad 3 ext)

def fcb11ToName (f : CString) : CString :=
  let base := (f.take 8).takeWhile (· ≠ space)
  if f.getD 8 space ≠ space then base ++ dotChar :: ((f.drop 8).take 3).takeWhile (· ≠ space)
  else base

/-! ### Paths -/

structure GwbMachine where
  root : WString
  cwd : CString

def maxPath : Nat := 260

/-- The end of a reversed name without its separators, but for the one of `C:\`. -/
def trimEnd : WString → WString
  | [] => []
  | c :: s => if s.length + 1 > 3 ∧ (c = 0x5C ∨ c = 0x2F) then trimEnd s else c :: s

/-- `gwb_create`, as far as the file system goes. -/
def create (rootDir : WString) : GwbMachine where
  root := (trimEnd (rootDir.take (maxPath - 1)).reverse).reverse
  cwd := []

/-- The path behind a drive letter. -/
def dropDrive (dos : CString) : CString :=
  if dos.length ≥ 2 ∧ dos[1]? = some 0x3A then dos.drop 2 else dos

def isRelative (dos : CString) : Bool :=
  match dos with
  | [] => true
  | c :: _ => !isSep c

/-- What `resolve` splits; `snprintf` cuts it to 127 characters. -/
def workPath (m : GwbMachine) (dos : CString) : CString :=
  let dos := dropDrive dos
  if isRelative dos ∧ m.cwd ≠ [] then (m.cwd ++ backslash :: dos).take 127 else dos.take 127

/-- The components, `comps` being those of the way so far. -/
def readComps (comps : List CString) : List CString → Option (List CString)
  | [] => some comps
  | tok :: toks =>
      if tok = ascii "." then readComps comps toks
      else if tok = ascii ".." then readComps comps.dropLast toks
      else if comps.length ≥ 16 then none
      else
        match toFcb11 tok false with
        | none => none
        | some f => readComps (comps ++ [fcb11ToName f]) toks

def wide (s : CString) : WString := s.map (·.toUInt16)

def narrow (s : WString) : CString := s.map (·.toUInt8)

/-- The host path, or none where it has no room. -/
def addComps (outn : Nat) (out : WString) : List CString → Option WString
  | [] => some out
  | comp :: comps =>
      if out.length + 14 ≥ outn then none
      else addComps outn (out ++ wide (backslash :: comp.map upper)) comps

/-- `resolve`: a host path, or the DOS error 3. -/
def resolve (m : GwbMachine) (dos : CString) (outn : Nat) : Except Nat WString :=
  match readComps [] (Path.tokens isSep (workPath m dos)) with
  | none => .error 3
  | some comps =>
      match addComps outn (m.root.take (outn - 1)) comps with
      | none => .error 3
      | some out => .ok out

/-! ### The current directory -/

/-- The string at an address of the guest, read into a buffer of `n` bytes. -/
def readAsciiz (guest : List UInt8) (n : Nat) : CString := cstr (guest.take (n - 1))

/-- A call of INT 21h AH=3Bh: the guest's bytes at DS:DX, and what is a folder on the host. -/
structure Call where
  guest : List UInt8
  isDir : WString → Bool

/-- What follows the root in a host path, as far as the buffer of the current directory goes. -/
def storedCwd (m : GwbMachine) (path : WString) : CString :=
  let skip := m.root.length + if path[m.root.length]? = some 0x5C then 1 else 0
  narrow ((path.drop skip).take 79)

/-- INT 21h AH=3Bh: the machine after it and the DOS error, if there is one. -/
def chdir (m : GwbMachine) (call : Call) : GwbMachine × Option Nat :=
  match resolve m (readAsciiz call.guest 128) maxPath with
  | .error rc => (m, some rc)
  | .ok path =>
      if call.isDir path then ({ m with cwd := storedCwd m path }, none) else (m, some 3)

end UnicornSuite.Gwb

/-! Every path the guest names leads to a file below the machine's folder, along the components that
the path normalises to. The resolver's own scans are first put in the terms of `LibPath`; the buffers
enter as the conditions under which nothing is cut. -/

namespace UnicornSuite.Gwb

open CText

/-! ### Names in the 8.3 form -/

def withExt (base ext : CString) : CString := if ext = [] then base else base ++ dotChar :: ext

/-- Upper case, at most eight characters and three after the dot, all of them allowed. -/
structure EightThree (base ext : CString) : Prop where
  base_ne : base ≠ []
  base_length : base.length ≤ 8
  ext_length : ext.length ≤ 3
  ok : ∀ c ∈ base ++ ext, dosCharOk c = true

def Legal (name : CString) : Prop := ∃ base ext, EightThree base ext ∧ name = withExt base ext

def baseOf (tok : CString) : CString := (tok.takeWhile (· ≠ dotChar)).map upper

def extOf (tok : CString) : CString := (tok.dropWhile (· ≠ dotChar)).tail.map upper

/-- What a component can stand for: its parts in upper case, cut to their lengths. -/
def shortName (tok : CString) : Option CString :=
  if baseOf tok ≠ [] ∧ ∀ c ∈ baseOf tok ++ extOf tok, dosCharOk c = true then
    some (withExt ((baseOf tok).take 8) ((extOf tok).take 3))
  else none

theorem dosCharOk_dot : dosCharOk dotChar = false := by decide

theorem dosCharOk_space : dosCharOk space = false := by decide

theorem not_isSep_of_ok {c : UInt8} (h : dosCharOk c = true) : isSep c = false := by
  by_contra hsep
  have hcases : c = backslash ∨ c = 0x2F := of_decide_eq_true (Bool.not_eq_false _ ▸ hsep)
  rcases hcases with rfl | rfl <;> exact absurd h (by decide)

theorem scanPart_eq {cap : Nat} {part : CString} (hpart : part.length ≤ cap) (name : CString) :
    scanPart cap false part name =
      if ∀ c ∈ name.map upper, dosCharOk c = true then some ((part ++ name.map upper).take cap)
      else none := by
  induction name generalizing part with
  | nil =>
      rw [scanPart, List.map_nil, List.append_nil, List.take_of_length_le hpart]
      exact (if_pos fun c hc => absurd hc List.not_mem_nil).symm
  | cons c name ih =>
      rw [scanPart]
      simp only [Bool.false_eq_true, and_false, if_false]
      by_cases hok : dosCharOk (upper c) = true
      · have hnot : ¬(upper c = dotChar ∨ ¬dosCharOk (upper c) = true) := by
          rintro (hdot | hno)
          · rw [hdot, dosCharOk_dot] at hok
            cases hok
          · exact hno hok
        have hall : (∀ d ∈ (c :: name).map upper, dosCharOk d = true) ↔
            ∀ d ∈ name.map upper, dosCharOk d = true := by
          rw [List.map_cons, List.forall_mem_cons]
          exact and_iff_right hok
        rw [if_neg hnot]
        have htake : ((if part.length < cap then part ++ [upper c] else part) ++
            name.map upper).take cap = (part ++ (c :: name).map upper).take cap := by
          split
          · rw [List.append_assoc]
            rfl
          · next hfull =>
              have hlen : part.length = cap := by omega
              rw [List.take_append_of_le_length (by omega), List.take_append_of_le_length (by omega)]
        rw [ih, htake]
        · exact if_congr hall.symm rfl rfl
        · split
          · rw [List.length_append, List.length_singleton]
            omega
          · exact hpart
      · rw [if_pos (.inr hok), if_neg]
        intro hall
        exact hok (hall _ (List.mem_map_of_mem List.mem_cons_self))

theorem length_pad {n : Nat} {part : CString} (h : part.length ≤ n) : (pad n part).length = n := by
  rw [pad, List.length_append, List.length_replicate]
  omega

/-- The blanks behind a part are no part of it. -/
theorem takeWhile_pad (n : Nat) {part : CString} (hpart : ∀ c ∈ part, c ≠ space) :
    (pad n part).takeWhile (· ≠ space) = part := by
  apply takeWhile_append
  · intro c hc
    exact decide_eq_true (hpart c hc)
  · intro c hc
    have hmem := List.mem_of_mem_head? hc
    rw [List.eq_of_mem_replicate hmem]
    rfl

/-- The eleven bytes of a name give it back, blanks being no part of it. -/
theorem fcb11ToName_pad_of_ne {base ext : CString} (hbase : base.length ≤ 8) (hext : ext.length ≤ 3)
    (hne : ∀ c ∈ base ++ ext, c ≠ space) :
    fcb11ToName (pad 8 base ++ pad 3 ext) = withExt base ext := by
  have hlength := length_pad hbase
  have hlength' := length_pad hext
  have htake : (pad 8 base ++ pad 3 ext).take 8 = pad 8 base := List.take_left' hlength
  have hdrop : (pad 8 base ++ pad 3 ext).drop 8 = pad 3 ext := List.drop_left' hlength
  have hfirst : (pad 8 base ++ pad 3 ext).getD 8 space = (pad 3 ext).getD 0 space := by
    calc (pad 8 base ++ pad 3 ext).getD 8 space
        = ((pad 8 base ++ pad 3 ext).drop 8).getD 0 space := by
          simp only [List.getD_eq_getElem?_getD, List.getElem?_drop, Nat.add_zero]
      _ = (pad 3 ext).getD 0 space := by rw [hdrop]
  rw [List.forall_mem_append] at hne
  rw [fcb11ToName, htake, hdrop, hfirst, takeWhile_pad 8 hne.1, List.take_of_length_le (by omega),
    takeWhile_pad 3 hne.2, withExt]
  cases ext with
  | nil => rfl
  | cons c ext =>
      rw [if_neg (List.cons_ne_nil c ext)]
      exact if_pos (hne.2 c List.mem_cons_self)

theorem ne_space_of_ok {c : UInt8} (h : dosCharOk c = true) : c ≠ space := by
  rintro rfl
  rw [dosCharOk_space] at h
  cases h

theorem fcb11ToName_pad {base ext : CString} (h : EightThree base ext) :
    fcb11ToName (pad 8 base ++ pad 3 ext) = withExt base ext :=
  fcb11ToName_pad_of_ne h.base_length h.ext_length fun c hc => ne_space_of_ok (h.ok c hc)

theorem mem_take_append {a b : CString} {m n : Nat} {c : UInt8} (h : c ∈ a.take m ++ b.take n) :
    c ∈ a ++ b := by
  rcases List.mem_append.mp h with h | h
  · exact List.mem_append_left _ (List.mem_of_mem_take h)
  · exact List.mem_append_right _ (List.mem_of_mem_take h)

theorem eightThree_take {base ext : CString} (hne : base ≠ [])
    (hok : ∀ c ∈ base ++ ext, dosCharOk c = true) : EightThree (base.take 8) (ext.take 3) where
  base_ne := by
    intro h
    rcases List.take_eq_nil_iff.mp h with h8 | hnil
    · omega
    · exact hne hnil
  base_length := List.length_take_le _ _
  ext_length := List.length_take_le _ _
  ok c hc := hok c (mem_take_append hc)

/-- A component without a dot has no extension. -/
theorem extOf_eq_nil {tok : CString} (h : tok.dropWhile (· ≠ dotChar) = []) : extOf tok = [] := by
  rw [extOf, h]
  rfl

/-- The scan of a component into eleven bytes and back is its 8.3 form. -/
theorem toFcb11_map_fcb11ToName (tok : CString) :
    (toFcb11 tok false).map fcb11ToName = shortName tok := by
  have hbase : scanPart 8 false [] (tok.takeWhile (· ≠ dotChar)) =
      if ∀ c ∈ baseOf tok, dosCharOk c = true then some ((baseOf tok).take 8) else none :=
    scanPart_eq (Nat.zero_le _) _
  rw [toFcb11, hbase, shortName]
  by_cases hokb : ∀ c ∈ baseOf tok, dosCharOk c = true
  · rw [if_pos hokb]
    dsimp only
    by_cases hne : baseOf tok = []
    · rw [if_pos (by rw [hne]; rfl), if_neg fun h => h.1 hne]
      rfl
    · have htake : (baseOf tok).take 8 ≠ [] := by
        intro h
        rcases List.take_eq_nil_iff.mp h with h8 | hnil
        · omega
        · exact hne hnil
      rw [if_neg htake]
      split
      · next hnodot =>
          have hext := extOf_eq_nil hnodot
          have h83 : EightThree ((baseOf tok).take 8) (([] : CString).take 3) :=
            eightThree_take hne (by simpa using hokb)
          rw [hext, List.append_nil, if_pos ⟨hne, hokb⟩]
          exact congrArg some (fcb11ToName_pad h83)
      · next c rest hdot =>
          have hrest : extOf tok = rest.map upper := by
            rw [extOf, hdot]
            rfl
          have hscan : scanPart 3 false [] rest =
              if ∀ c ∈ extOf tok, dosCharOk c = true then some ((extOf tok).take 3) else none := by
            rw [hrest]
            exact scanPart_eq (Nat.zero_le _) _
          rw [hscan]
          by_cases hoke : ∀ c ∈ extOf tok, dosCharOk c = true
          · have hall : ∀ c ∈ baseOf tok ++ extOf tok, dosCharOk c = true :=
              List.forall_mem_append.mpr ⟨hokb, hoke⟩
            rw [if_pos hoke, if_pos ⟨hne, hall⟩]
            exact congrArg some (fcb11ToName_pad (eightThree_take hne hall))
          · rw [if_neg hoke, if_neg fun h => hoke (List.forall_mem_append.mp h.2).2]
            rfl
  · rw [if_neg hokb, if_neg fun h => hokb (List.forall_mem_append.mp h.2).1]
    rfl

theorem legal_of_shortName {tok name : CString} (h : shortName tok = some name) : Legal name := by
  rw [shortName] at h
  split at h
  · next hok =>
      cases h
      exact ⟨_, _, eightThree_take hok.1 hok.2, rfl⟩
  · cases h

/-! ### What a legal name is like -/

theorem upper_of_ok {c : UInt8} (h : dosCharOk c = true) : upper c = c := by
  have hall : ∀ n : Fin 256, dosCharOk (UInt8.ofNat n) = true →
      upper (UInt8.ofNat n) = UInt8.ofNat n := by decide +kernel
  have hc := hall ⟨c.toNat, c.toNat_lt⟩
  rw [UInt8.ofNat_toNat] at hc
  exact hc h

theorem mem_withExt {base ext : CString} {c : UInt8} (h : c ∈ withExt base ext) :
    c ∈ base ++ ext ∨ c = dotChar := by
  rw [withExt] at h
  split at h
  · exact .inl (List.mem_append_left _ h)
  · rcases List.mem_append.mp h with h | h
    · exact .inl (List.mem_append_left _ h)
    · rcases List.mem_cons.mp h with h | h
      · exact .inr h
      · exact .inl (List.mem_append_right _ h)

/-- The characters of a legal name are allowed ones and dots. -/
theorem Legal.ok {name : CString} (h : Legal name) {c : UInt8} (hc : c ∈ name) :
    dosCharOk c = true ∨ c = dotChar := by
  obtain ⟨base, ext, h83, rfl⟩ := h
  rcases mem_withExt hc with hok | hdot
  · exact .inl (h83.ok c hok)
  · exact .inr hdot

theorem Legal.upper_eq {name : CString} (h : Legal name) : name.map upper = name := by
  have hid : name.map upper = name.map id := by
    apply List.map_congr_left
    intro c hc
    rcases h.ok hc with hok | rfl
    · exact upper_of_ok hok
    · rfl
  rw [hid, List.map_id]

/-- It starts with an allowed character, so it is neither `.` nor `..`. -/
theorem Legal.head_ok {name : CString} (h : Legal name) :
    ∃ c rest, name = c :: rest ∧ dosCharOk c = true := by
  obtain ⟨base, ext, h83, rfl⟩ := h
  cases base with
  | nil => exact absurd rfl h83.base_ne
  | cons c base =>
      have hc : dosCharOk c = true := h83.ok c List.mem_cons_self
      rw [withExt]
      split
      · exact ⟨c, base, rfl, hc⟩
      · exact ⟨c, base ++ dotChar :: ext, rfl, hc⟩

theorem Legal.ne_dots {name : CString} (h : Legal name) : name ≠ ascii "." ∧ name ≠ ascii ".." := by
  obtain ⟨c, rest, rfl, hc⟩ := h.head_ok
  constructor
  · intro heq
    rw [(List.cons.inj heq).1] at hc
    exact absurd hc (by decide)
  · intro heq
    rw [(List.cons.inj heq).1] at hc
    exact absurd hc (by decide)

theorem Legal.component {name : CString} (h : Legal name) : Path.Component isSep name := by
  obtain ⟨c, rest, heq, -⟩ := h.head_ok
  refine ⟨heq ▸ List.cons_ne_nil c rest, fun d hd => ?_⟩
  rcases h.ok hd with hok | rfl
  · exact not_isSep_of_ok hok
  · rfl

/-- A legal name stands for itself. -/
theorem Legal.shortName_eq {name : CString} (h : Legal name) : shortName name = some name := by
  obtain ⟨base, ext, h83, rfl⟩ := h
  obtain ⟨hokb, hoke⟩ := List.forall_mem_append.mp h83.ok
  have hdot : ∀ c ∈ base, (decide (c ≠ dotChar)) = true := by
    intro c hc
    rw [decide_eq_true_eq]
    rintro rfl
    exact absurd (hokb _ hc) (by decide)
  have hupper : ∀ part : CString, (∀ c ∈ part, dosCharOk c = true) → part.map upper = part := by
    intro part hpart
    have hid : part.map upper = part.map id := List.map_congr_left fun c hc => upper_of_ok (hpart c hc)
    rw [hid, List.map_id]
  -- The dot, if there is one, is the first of the name.
  have hparts : baseOf (withExt base ext) = base ∧ extOf (withExt base ext) = ext := by
    rw [baseOf, extOf, withExt]
    split
    · next hnil =>
        have htake := takeWhile_append (s := []) hdot (by simp)
        have hdrop := dropWhile_append (s := []) hdot (by simp)
        rw [List.append_nil] at htake hdrop
        rw [htake, hdrop, hupper base hokb, hnil]
        exact ⟨rfl, rfl⟩
    · have hhead : ∀ c ∈ (dotChar :: ext).head?, (decide (c ≠ dotChar)) = false := by
        intro c hc
        cases hc
        rfl
      rw [takeWhile_append hdot hhead, dropWhile_append hdot hhead, hupper base hokb]
      exact ⟨rfl, hupper ext hoke⟩
  rw [shortName, hparts.1, hparts.2, if_pos ⟨h83.base_ne, h83.ok⟩,
    List.take_of_length_le h83.base_length, List.take_of_length_le h83.ext_length]

/-! ### Components -/

/-- What a component of a path does, `nameOf` telling what it can stand for. -/
def stepOf (nameOf : CString → Option CString) (tok : CString) : Option (Path.Step CString) :=
  if tok = ascii "." then some .same
  else if tok = ascii ".." then some .up
  else (nameOf tok).map .name

/-- The reference normalisation: the components are steps from the root, at no time more than 16
directories deep, and end at `names`. -/
def Reaches (nameOf : CString → Option CString) (toks names : List CString) : Prop :=
  ∃ steps, toks.mapM (stepOf nameOf) = some steps ∧ names = Path.walk [] steps ∧
    ∀ way, way <+: steps → (Path.walk [] way).length ≤ 16

theorem readComps_eq (comps toks : List CString) :
    readComps comps toks = (toks.mapM (stepOf shortName)).bind (Path.walkMax 16 comps) := by
  induction toks generalizing comps with
  | nil => rfl
  | cons tok toks ih =>
      rw [readComps, List.mapM_cons, stepOf]
      split_ifs with hdot hdots hdeep
      · rw [ih]
        cases toks.mapM (stepOf shortName) <;> rfl
      · rw [ih]
        cases toks.mapM (stepOf shortName) <;> rfl
      · cases shortName tok with
        | none => rfl
        | some name =>
            cases toks.mapM (stepOf shortName) with
            | none => rfl
            | some steps => exact (if_pos hdeep).symm
      · rw [← toFcb11_map_fcb11ToName]
        cases toFcb11 tok false with
        | none => rfl
        | some f =>
            dsimp only
            rw [ih]
            cases toks.mapM (stepOf shortName) with
            | none => rfl
            | some steps => exact (if_neg hdeep).symm

theorem readComps_eq_some {toks names : List CString} :
    readComps [] toks = some names ↔ Reaches shortName toks names := by
  rw [readComps_eq, Option.bind_eq_some_iff]
  constructor
  · rintro ⟨steps, hsteps, hwalk⟩
    exact ⟨steps, hsteps, (Path.walkMax_eq_some (Nat.zero_le _)).mp hwalk⟩
  · rintro ⟨steps, hsteps, hwalk⟩
    exact ⟨steps, hsteps, (Path.walkMax_eq_some (Nat.zero_le _)).mpr hwalk⟩

theorem Reaches.length_le {nameOf : CString → Option CString} {toks names : List CString}
    (h : Reaches nameOf toks names) : names.length ≤ 16 := by
  obtain ⟨steps, -, rfl, hways⟩ := h
  exact hways steps List.prefix_rfl

theorem legal_of_readComps {comps toks names : List CString} (hcomps : ∀ n ∈ comps, Legal n)
    (h : readComps comps toks = some names) : ∀ n ∈ names, Legal n := by
  induction toks generalizing comps with
  | nil =>
      cases h
      exact hcomps
  | cons tok toks ih =>
      rw [readComps] at h
      split_ifs at h with hdot hdots hdeep
      · exact ih hcomps h
      · exact ih (fun n hn => hcomps n ((List.dropLast_sublist comps).subset hn)) h
      · cases hf : toFcb11 tok false with
        | none =>
            rw [hf] at h
            cases h
        | some f =>
            rw [hf] at h
            have hname : shortName tok = some (fcb11ToName f) := by
              rw [← toFcb11_map_fcb11ToName, hf]
              rfl
            apply ih _ h
            intro n hn
            rcases List.mem_append.mp hn with hn | hn
            · exact hcomps n hn
            · rw [List.mem_singleton] at hn
              exact hn ▸ legal_of_shortName hname

/-- Every name of the reference normalisation is a legal one. -/
theorem Reaches.legal {toks names : List CString} (h : Reaches shortName toks names) :
    ∀ n ∈ names, Legal n :=
  legal_of_readComps (fun _ hn => absurd hn List.not_mem_nil) (readComps_eq_some.mpr h)

/-- Legal names are read as they are. -/
theorem reaches_self {names : List CString} (hlegal : ∀ n ∈ names, Legal n)
    (hlength : names.length ≤ 16) : Reaches shortName names names := by
  have hsteps : names.mapM (stepOf shortName) = some (names.map .name) := by
    clear hlength
    induction names with
    | nil => rfl
    | cons n names ih =>
        have hn := hlegal n List.mem_cons_self
        have hstep : stepOf shortName n = some (.name n) := by
          rw [stepOf, if_neg hn.ne_dots.1, if_neg hn.ne_dots.2, hn.shortName_eq]
          rfl
        rw [List.mapM_cons, hstep, ih fun v hv => hlegal v (List.mem_cons_of_mem _ hv)]
        rfl
  refine ⟨names.map .name, hsteps, (Path.walk_names [] names).symm, ?_⟩
  intro way hway
  obtain ⟨vs, hvs, rfl⟩ : ∃ vs, vs <+: names ∧ way = vs.map .name := by
    refine ⟨names.take way.length, List.take_prefix _ _, ?_⟩
    rw [List.map_take]
    exact List.prefix_iff_eq_take.mp hway
  rw [Path.walk_names]
  exact Nat.le_trans hvs.length_le hlength

/-! ### Host paths -/

/-- The host path of a directory below a folder. -/
def hostPath (root : WString) (names : List CString) : WString :=
  root ++ names.flatMap fun n => wide (backslash :: n)

/-- The path fits in a buffer: before the last name there are fourteen units to spare. -/
def HasRoom (root : WString) (names : List CString) : Prop :=
  names = [] ∨ (hostPath root names.dropLast).length + 14 < maxPath

theorem hostPath_cons (root : WString) (n : CString) (names : List CString) :
    hostPath root (n :: names) = hostPath (root ++ wide (backslash :: n)) names := by
  rw [hostPath, hostPath, List.flatMap_cons, List.append_assoc]

theorem addComps_eq_some {names : List CString} (hlegal : ∀ n ∈ names, Legal n)
    {out path : WString} :
    addComps maxPath out names = some path ↔ HasRoom out names ∧ path = hostPath out names := by
  induction names generalizing out with
  | nil =>
      rw [addComps, hostPath, List.flatMap_nil, List.append_nil, Option.some_inj]
      constructor
      · rintro rfl
        exact ⟨.inl rfl, rfl⟩
      · rintro ⟨-, rfl⟩
        rfl
  | cons n names ih =>
      have hn := (hlegal n List.mem_cons_self).upper_eq
      rw [addComps, hn]
      split
      · next hfull =>
          constructor
          · intro h
            cases h
          · rintro ⟨hnil | hroom, -⟩
            · cases hnil
            · rw [hostPath, List.length_append] at hroom
              omega
      · next hspare =>
          rw [ih fun v hv => hlegal v (List.mem_cons_of_mem _ hv), hostPath_cons]
          apply and_congr_left
          intro _
          cases names with
          | nil =>
              constructor
              · intro _
                right
                simp only [List.dropLast_singleton, hostPath, List.flatMap_nil, List.append_nil]
                omega
              · intro _
                exact .inl rfl
          | cons n' names =>
              rw [HasRoom, HasRoom, List.dropLast_cons_cons, hostPath_cons]
              simp only [List.cons_ne_nil, false_or]

/-! ### The resolver -/

/-- The folder's name leaves the buffer of a host path room for a terminator. -/
def RootFits (m : GwbMachine) : Prop := m.root.length < maxPath

theorem resolve_eq_ok {m : GwbMachine} (hroot : RootFits m) {dos : CString} {path : WString} :
    resolve m dos maxPath = .ok path ↔
      ∃ names, Reaches shortName (Path.tokens isSep (workPath m dos)) names ∧
        HasRoom m.root names ∧ path = hostPath m.root names := by
  have htake : m.root.take (maxPath - 1) = m.root := List.take_of_length_le (by
    have := hroot
    unfold RootFits at this
    omega)
  rw [resolve, htake]
  cases hcomps : readComps [] (Path.tokens isSep (workPath m dos)) with
  | none =>
      constructor
      · intro h
        cases h
      · rintro ⟨names, hreach, -⟩
        rw [readComps_eq_some.mpr hreach] at hcomps
        cases hcomps
  | some comps =>
      have hreach := readComps_eq_some.mp hcomps
      have hpath : addComps maxPath m.root comps = some path ↔
          HasRoom m.root comps ∧ path = hostPath m.root comps := addComps_eq_some hreach.legal
      have hsame : ∀ names, Reaches shortName (Path.tokens isSep (workPath m dos)) names →
          names = comps := by
        intro names hnames
        rw [readComps_eq_some.mpr hnames] at hcomps
        exact Option.some_inj.mp hcomps
      dsimp only
      constructor
      · intro h
        refine ⟨comps, hreach, hpath.mp ?_⟩
        cases hadd : addComps maxPath m.root comps with
        | none =>
            rw [hadd] at h
            cases h
        | some out =>
            rw [hadd] at h
            cases h
            rfl
      · rintro ⟨names, hnames, hroom, heq⟩
        cases hsame names hnames
        rw [hpath.mpr ⟨hroom, heq⟩]

/-- Every error is the DOS error 3. -/
theorem resolve_error {m : GwbMachine} {dos : CString} {outn e : Nat}
    (h : resolve m dos outn = .error e) : e = 3 := by
  rw [resolve] at h
  split at h
  · cases h
    rfl
  · split at h
    · cases h
      rfl
    · cases h

/-! ### The buffers -/

/-- The components of the current directory and the guest's path. -/
def pathTokens (m : GwbMachine) (dos : CString) : List CString :=
  if isRelative (dropDrive dos) then
    Path.tokens isSep m.cwd ++ Path.tokens isSep (dropDrive dos)
  else Path.tokens isSep (dropDrive dos)

/-- The current directory and the path fit in the buffer that is split. -/
def PathFits (m : GwbMachine) (dos : CString) : Prop :=
  if isRelative (dropDrive dos) ∧ m.cwd ≠ [] then
    m.cwd.length + 1 + (dropDrive dos).length ≤ 127
  else (dropDrive dos).length ≤ 127

theorem isSep_backslash : isSep backslash = true := by decide

theorem tokens_workPath {m : GwbMachine} {dos : CString} (hfits : PathFits m dos) :
    Path.tokens isSep (workPath m dos) = pathTokens m dos := by
  rw [PathFits] at hfits
  rw [workPath, pathTokens]
  split at hfits
  · next hcwd =>
      have hlength : (m.cwd ++ backslash :: dropDrive dos).length ≤ 127 := by
        rw [List.length_append, List.length_cons]
        omega
      rw [if_pos hcwd, if_pos hcwd.1, List.take_of_length_le hlength]
      exact Path.tokens_append isSep_backslash _ _
  · next hcwd =>
      rw [if_neg hcwd, List.take_of_length_le hfits]
      split
      · next hrel =>
          have hnil : m.cwd = [] := by
            by_contra hne
            exact hcwd ⟨hrel, hne⟩
          rw [hnil]
          rfl
      · rfl

theorem narrow_wide (s : CString) : narrow (wide s) = s := by
  rw [narrow, wide, List.map_map]
  have hid : ∀ c ∈ s, ((fun c : UInt16 => c.toUInt8) ∘ fun c : UInt8 => c.toUInt16) c = id c :=
    fun c _ => UInt8.toUInt8_toUInt16 c
  rw [List.map_congr_left hid, List.map_id]

/-- The current directory as a string, with a separator in front. -/
def cwdText (names : List CString) : CString := names.flatMap fun n => backslash :: n

theorem narrow_flatMap (names : List CString) :
    narrow (names.flatMap fun n => wide (backslash :: n)) = cwdText names := by
  induction names with
  | nil => rfl
  | cons n names ih =>
      calc narrow ((n :: names).flatMap fun n => wide (backslash :: n))
          = narrow (wide (backslash :: n)) ++
              narrow (names.flatMap fun n => wide (backslash :: n)) := List.map_append
        _ = (backslash :: n) ++ cwdText names := by rw [narrow_wide, ih]

theorem length_hostPath (root : WString) (names : List CString) :
    (hostPath root names).length = root.length + (cwdText names).length := by
  rw [hostPath, List.length_append, ← narrow_flatMap, narrow, List.length_map]

/-- What CHDIR stores, cut to its buffer. -/
theorem storedCwd_hostPath (m : GwbMachine) (names : List CString) :
    storedCwd m (hostPath m.root names) = (cwdText names).tail.take 79 := by
  cases names with
  | nil =>
      rw [storedCwd, hostPath, List.flatMap_nil, List.append_nil]
      simp only [List.getElem?_eq_none (Nat.le_refl _), cwdText, List.flatMap_nil]
      rw [if_neg (by decide), Nat.add_zero, List.drop_length]
      rfl
  | cons n names =>
      have hhead : (hostPath m.root (n :: names))[m.root.length]? = some 0x5C := by
        rw [hostPath, List.getElem?_append_right (Nat.le_refl _), Nat.sub_self]
        rfl
      have hdrop : (hostPath m.root (n :: names)).drop (m.root.length + 1) =
          ((n :: names).flatMap fun n => wide (backslash :: n)).tail := by
        rw [hostPath, ← List.drop_drop, List.drop_left, List.drop_one]
      simp only [storedCwd]
      rw [if_pos hhead, hdrop, narrow, List.map_take, List.map_tail]
      exact congrArg (fun s : CString => s.tail.take 79) (narrow_flatMap (n :: names))

theorem tokens_cwdText_tail {names : List CString} (hlegal : ∀ n ∈ names, Legal n) :
    Path.tokens isSep (cwdText names).tail = names := by
  have hall : Path.tokens isSep (cwdText names) = names :=
    Path.tokens_flatMap isSep_backslash fun n hn => (hlegal n hn).component
  cases names with
  | nil => rfl
  | cons n names =>
      have hhead := Path.tokens_cons (c := backslash) isSep_backslash (cwdText (n :: names)).tail
      exact hhead.symm.trans hall

/-! ### Runs of CHDIR -/

/-- A host path is the folder's name with legal names behind it. -/
def Contained (m : GwbMachine) (dos : CString) : Prop :=
  ∀ path, resolve m dos maxPath = .ok path →
    ∃ names, names.length ≤ 16 ∧ (∀ n ∈ names, Legal n) ∧ path = hostPath m.root names

/-- A path that is not cut leads where its components do, if there is room for the host path. -/
def Exact (m : GwbMachine) (dos : CString) : Prop :=
  PathFits m dos → ∀ path, resolve m dos maxPath = .ok path ↔
    ∃ names, Reaches shortName (pathTokens m dos) names ∧ HasRoom m.root names ∧
      path = hostPath m.root names

/-- After a CHDIR that succeeds the current directory is the one that was resolved, where its name is
not cut; one that fails changes nothing. -/
structure KeepsDir (m : GwbMachine) (call : Call) : Prop where
  failed : ∀ rc, (chdir m call).2 = some rc → (chdir m call).1 = m
  done : (chdir m call).2 = none →
    ∃ path names, resolve m (readAsciiz call.guest 128) maxPath = .ok path ∧ call.isDir path = true ∧
      path = hostPath m.root names ∧
      (path.length ≤ m.root.length + 80 →
        Path.tokens isSep (chdir m call).1.cwd = names ∧
          resolve (chdir m call).1 [] maxPath = .ok path)

theorem trimEnd_length (s : WString) : (trimEnd s).length ≤ s.length := by
  induction s with
  | nil => exact Nat.le_refl _
  | cons c s ih =>
      rw [trimEnd]
      split
      · rw [List.length_cons]
        omega
      · exact Nat.le_refl _

theorem create_rootFits (rootDir : WString) : RootFits (create rootDir) := by
  have htrim := trimEnd_length (rootDir.take (maxPath - 1)).reverse
  have htake := List.length_take_le (maxPath - 1) rootDir
  have hmax : maxPath = 260 := rfl
  simp only [RootFits, create]
  rw [List.length_reverse] at htrim ⊢
  omega

theorem chdir_rootFits {m : GwbMachine} (call : Call) (h : RootFits m) :
    RootFits (chdir m call).1 := by
  unfold chdir
  split
  · exact h
  · split
    · exact h
    · exact h

theorem contained_of_rootFits (m : GwbMachine) (hroot : RootFits m) (dos : CString) : Contained m dos := by
  intro path hpath
  obtain ⟨names, hreach, -, heq⟩ := (resolve_eq_ok hroot).mp hpath
  exact ⟨names, hreach.length_le, hreach.legal, heq⟩

theorem exact_of_rootFits (m : GwbMachine) (hroot : RootFits m) (dos : CString) : Exact m dos := by
  intro hfits path
  rw [resolve_eq_ok hroot, tokens_workPath hfits]

/-- What a CHDIR that succeeds has done. -/
theorem chdir_done {m : GwbMachine} {call : Call} (h : (chdir m call).2 = none) :
    ∃ path, resolve m (readAsciiz call.guest 128) maxPath = .ok path ∧ call.isDir path = true ∧
      (chdir m call).1 = { m with cwd := storedCwd m path } := by
  cases hres : resolve m (readAsciiz call.guest 128) maxPath with
  | error rc => simp [chdir, hres] at h
  | ok path =>
      by_cases hdir : call.isDir path = true
      · exact ⟨path, rfl, hdir, by simp [chdir, hres, hdir]⟩
      · simp [chdir, hres, hdir] at h

theorem chdir_failed {m : GwbMachine} {call : Call} {rc : Nat} (h : (chdir m call).2 = some rc) :
    (chdir m call).1 = m := by
  cases hres : resolve m (readAsciiz call.guest 128) maxPath with
  | error rc => simp [chdir, hres]
  | ok path =>
      by_cases hdir : call.isDir path = true
      · simp [chdir, hres, hdir] at h
      · simp [chdir, hres, hdir]

theorem keepsDir_of_rootFits {m : GwbMachine} (hroot : RootFits m) (call : Call) :
    KeepsDir m call := by
  refine ⟨fun rc => chdir_failed, fun h => ?_⟩
  obtain ⟨path, hres, hdir, hm⟩ := chdir_done h
  obtain ⟨names, hreach, hroom, heq⟩ := (resolve_eq_ok hroot).mp hres
  refine ⟨path, names, hres, hdir, heq, fun hlength => ?_⟩
  have hstored : (chdir m call).1.cwd = (cwdText names).tail := by
    rw [hm, heq, storedCwd_hostPath]
    apply List.take_of_length_le
    rw [heq, length_hostPath] at hlength
    rw [List.length_tail]
    omega
  have htokens : Path.tokens isSep (chdir m call).1.cwd = names := by
    rw [hstored]
    exact tokens_cwdText_tail hreach.legal
  have hsameRoot : (chdir m call).1.root = m.root := by rw [hm]
  have hfits : PathFits (chdir m call).1 [] := by
    have hcwd : (chdir m call).1.cwd.length ≤ 79 := by
      rw [hm, heq, storedCwd_hostPath]
      exact List.length_take_le _ _
    rw [PathFits]
    have hempty : (dropDrive []).length = 0 := rfl
    split <;> omega
  refine ⟨htokens, (resolve_eq_ok (chdir_rootFits call hroot)).mpr ⟨names, ?_, ?_, ?_⟩⟩
  · rw [tokens_workPath hfits]
    have hcur : pathTokens (chdir m call).1 [] = names ++ [] := by
      rw [← htokens]
      rfl
    rw [hcur, List.append_nil]
    exact reaches_self hreach.legal hreach.length_le
  · rw [hsameRoot]
    exact hroom
  · rw [hsameRoot]
    exact heq

/-- In every directory that CHDIR calls lead to: a path fails with the DOS error 3 or leads to legal
names below the folder; one that is not cut leads exactly where its components do; and a further CHDIR
stores what it has resolved. -/
theorem sandbox (rootDir : WString) (calls : List Call) :
    let m := Machine.run (fun m call => (chdir m call).1) (create rootDir) calls
    (∀ dos, Contained m dos ∧ (∀ e, resolve m dos maxPath = .error e → e = 3) ∧ Exact m dos) ∧
      ∀ call, KeepsDir m call := by
  have hroot : RootFits (Machine.run (fun m call => (chdir m call).1) (create rootDir) calls) :=
    Machine.run_inv (fun m call h => chdir_rootFits call h) (create_rootFits rootDir) calls
  intro m
  refine ⟨fun dos => ?_, keepsDir_of_rootFits hroot⟩
  exact ⟨contained_of_rootFits m hroot dos, fun e he => resolve_error he,
    exact_of_rootFits m hroot dos⟩

/-- The names as typed, in upper case, where they are 8.3 names and nothing of them is cut. -/
def typedName (tok : CString) : Option CString :=
  if (baseOf tok).length ≤ 8 ∧ (extOf tok).length ≤ 3 then shortName tok else none

/-- A long name is cut into the name of another file. -/
theorem long_name_cut :
    ¬ ∀ path, resolve (create (wide (ascii "C:\\G"))) (ascii "LONGFILENAME.TXT") maxPath = .ok path →
      ∃ names, Reaches typedName
          (pathTokens (create (wide (ascii "C:\\G"))) (ascii "LONGFILENAME.TXT")) names ∧
        path = hostPath (create (wide (ascii "C:\\G"))).root names := by
  intro h
  have hpath : resolve (create (wide (ascii "C:\\G"))) (ascii "LONGFILENAME.TXT") maxPath =
      .ok (wide (ascii "C:\\G\\LONGFILE.TXT")) := by
    decide
  obtain ⟨names, ⟨steps, hsteps, -⟩, -⟩ := h _ hpath
  have hnone : (pathTokens (create (wide (ascii "C:\\G"))) (ascii "LONGFILENAME.TXT")).mapM
      (stepOf typedName) = none := by
    decide
  rw [hnone] at hsteps
  cases hsteps

end UnicornSuite.Gwb
