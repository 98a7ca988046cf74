import UnicornSuite.GwbSandbox

/-! The normal form of a name. The eleven bytes of a name, written as a dotted name, have the same eleven
bytes again, wild cards included; so a listing of the host's files, the calls that take a file control
block and those that take a path name the same files. -/

namespace UnicornSuite.Gwb

open CText

/-- A byte of a pattern fits itself, and `?` fits every byte. -/
def fcb11Match (pat name : CString) : Bool :=
  (List.range 11).all fun i => pat.getD i 0 = question || pat.getD i 0 = name.getD i 0

/-- `host_name_to_dos`: the name that the guest sees and its eleven bytes. Long names, and names with
other characters, are not there for the guest. -/
def hostNameToDos (w : WString) : Option (CString × CString) :=
  if w.length > 12 ∨ ∃ c ∈ w, c > 126 ∨ c ≤ 32 then none
  else
    match toFcb11 (narrow w) false with
    | none => none
    | some fcb =>
        if ((narrow w).takeWhile (· ≠ dotChar)).length > 8 ∨
            ((narrow w).dropWhile (· ≠ dotChar)).tail.length > 3 then none
        else some (fcb11ToName fcb, fcb)

/-- `fcb_name`: the dotted name of the eleven bytes in a file control block. -/
def fcbName (raw : CString) : CString := fcb11ToName (raw.map upper)

/-! ### The parts of a name -/

/-- What a part of a name can hold. -/
def nameChar (wild : Bool) (c : UInt8) : Prop := dosCharOk c = true ∨ c = question ∧ wild = true

theorem nameChar.ne_space {wild : Bool} {c : UInt8} (h : nameChar wild c) : c ≠ space := by
  rcases h with hok | ⟨rfl, -⟩
  · exact ne_space_of_ok hok
  · decide

theorem nameChar.ne_dot {wild : Bool} {c : UInt8} (h : nameChar wild c) : c ≠ dotChar := by
  rcases h with hok | ⟨rfl, -⟩
  · rintro rfl
    rw [dosCharOk_dot] at hok
    cases hok
  · decide

theorem ne_question_of_ok {c : UInt8} (h : dosCharOk c = true) : c ≠ question := by
  rintro rfl
  exact absurd h (by decide)

theorem ne_star_of_ok {c : UInt8} (h : dosCharOk c = true) : c ≠ star := by
  rintro rfl
  exact absurd h (by decide)

/-- A part that was read is no longer than its room, and holds nothing else. -/
structure PartOk (cap : Nat) (wild : Bool) (part : CString) : Prop where
  length_le : part.length ≤ cap
  chars : ∀ c ∈ part, nameChar wild c

theorem PartOk.append {cap : Nat} {wild : Bool} {part : CString} (h : PartOk cap wild part) {c : UInt8}
    (hc : nameChar wild c) : PartOk cap wild (if part.length < cap then part ++ [c] else part) := by
  split
  · refine ⟨?_, ?_⟩
    · rw [List.length_append, List.length_singleton]
      omega
    · rw [List.forall_mem_append]
      exact ⟨h.chars, List.forall_mem_singleton.mpr hc⟩
  · exact h

theorem PartOk.fill {cap : Nat} {part : CString} (h : PartOk cap true part) :
    PartOk cap true (part ++ List.replicate (cap - part.length) question) := by
  have hlength := h.length_le
  refine ⟨?_, ?_⟩
  · rw [List.length_append, List.length_replicate]
    omega
  · rw [List.forall_mem_append]
    exact ⟨h.chars, fun c hc => .inr ⟨List.eq_of_mem_replicate hc, rfl⟩⟩

theorem partOk_scanPart {cap : Nat} {wild : Bool} {part name out : CString} (hpart : PartOk cap wild part)
    (h : scanPart cap wild part name = some out) : PartOk cap wild out := by
  induction name generalizing part with
  | nil =>
      cases h
      exact hpart
  | cons c name ih =>
      rw [scanPart] at h
      split at h
      · next hstar =>
          obtain ⟨-, rfl⟩ := hstar
          exact ih hpart.fill h
      · split at h
        · next hquestion => exact ih (hpart.append (.inr ⟨rfl, hquestion.2⟩)) h
        · split at h
          · cases h
          · next hbad =>
              have hok : dosCharOk (upper c) = true := by
                by_contra hno
                exact hbad (.inr hno)
              exact ih (hpart.append (.inl hok)) h

/-- A part is read as it stands. -/
theorem scanPart_self {cap : Nat} {wild : Bool} {name : CString} (hname : ∀ c ∈ name, nameChar wild c)
    {part : CString} (hlength : part.length + name.length ≤ cap) :
    scanPart cap wild part name = some (part ++ name) := by
  induction name generalizing part with
  | nil => rw [scanPart, List.append_nil]
  | cons c name ih =>
      obtain ⟨hc, hrest⟩ := List.forall_mem_cons.mp hname
      rw [List.length_cons] at hlength
      have hroom : part.length < cap := by omega
      have hread : scanPart cap wild (part ++ [c]) name = some (part ++ c :: name) := by
        rw [ih hrest (by rw [List.length_append, List.length_singleton]; omega), List.append_assoc]
        rfl
      rcases hc with hok | ⟨rfl, rfl⟩
      · have hbad : ¬(c = dotChar ∨ ¬dosCharOk c = true) := by
          rintro (rfl | hno)
          · exact absurd hok (by decide)
          · exact hno hok
        simp only [scanPart, upper_of_ok hok]
        rw [if_neg fun h => ne_star_of_ok hok h.1, if_neg fun h => ne_question_of_ok hok h.1, if_neg hbad,
          if_pos hroom]
        exact hread
      · have hstar : ¬(upper question = star ∧ true = true) := by decide
        have hquestion : upper question = question ∧ true = true := by decide
        rw [scanPart]
        rw [if_neg hstar, if_pos hquestion, if_pos hroom]
        exact hread

/-! ### The round trip -/

/-- What the eleven bytes of a name are. -/
theorem toFcb11_eq_some {name f : CString} {wild : Bool} (h : toFcb11 name wild = some f) :
    ∃ base ext, base ≠ [] ∧ PartOk 8 wild base ∧ PartOk 3 wild ext ∧ f = pad 8 base ++ pad 3 ext := by
  have hnil : ∀ cap, PartOk cap wild [] := fun cap =>
    ⟨Nat.zero_le _, fun c hc => absurd hc List.not_mem_nil⟩
  rw [toFcb11] at h
  cases hbase : scanPart 8 wild [] (name.takeWhile (· ≠ dotChar)) with
  | none =>
      rw [hbase] at h
      cases h
  | some base =>
      have hok := partOk_scanPart (hnil 8) hbase
      rw [hbase] at h
      dsimp only at h
      split at h
      · cases h
      · next hne =>
          split at h
          · cases h
            exact ⟨base, [], hne, hok, hnil 3, rfl⟩
          · next rest hdot =>
              cases hext : scanPart 3 wild [] rest with
              | none =>
                  rw [hext] at h
                  cases h
              | some ext =>
                  rw [hext] at h
                  cases h
                  exact ⟨base, ext, hne, hok, partOk_scanPart (hnil 3) hext, rfl⟩

theorem length_of_toFcb11 {name f : CString} {wild : Bool} (h : toFcb11 name wild = some f) :
    f.length = 11 := by
  obtain ⟨base, ext, -, hbase, hext, rfl⟩ := toFcb11_eq_some h
  rw [List.length_append, length_pad hbase.length_le, length_pad hext.length_le]

/-- The eleven bytes of parts joined by a dot. -/
theorem toFcb11_withExt {base ext : CString} {wild : Bool} (hne : base ≠ []) (hbase : PartOk 8 wild base)
    (hext : PartOk 3 wild ext) :
    toFcb11 (withExt base ext) wild = some (pad 8 base ++ pad 3 ext) := by
  have hdot : ∀ c ∈ base, decide (c ≠ dotChar) = true := fun c hc =>
    decide_eq_true (hbase.chars c hc).ne_dot
  have hread : scanPart 8 wild [] base = some base := by
    rw [scanPart_self hbase.chars (by simpa using hbase.length_le)]
    rfl
  rw [withExt]
  split
  · next hnil =>
      have htake := takeWhile_append (s := []) hdot (by simp)
      have hdrop := dropWhile_append (s := []) hdot (by simp)
      rw [List.append_nil] at htake hdrop
      rw [toFcb11, htake, hdrop, hread, hnil]
      exact if_neg hne
  · have hhead : ∀ c ∈ (dotChar :: ext).head?, decide (c ≠ dotChar) = false := by
      intro c hc
      cases hc
      rfl
    have hread' : scanPart 3 wild [] ext = some ext := by
      rw [scanPart_self hext.chars (by simpa using hext.length_le)]
      rfl
    rw [toFcb11, takeWhile_append hdot hhead, dropWhile_append hdot hhead, hread]
    dsimp only
    rw [if_neg hne, hread']

theorem toFcb11_fcb11ToName {name f : CString} {wild : Bool} (h : toFcb11 name wild = some f) :
    toFcb11 (fcb11ToName f) wild = some f := by
  obtain ⟨base, ext, hne, hbase, hext, rfl⟩ := toFcb11_eq_some h
  rw [fcb11ToName_pad_of_ne hbase.length_le hext.length_le, toFcb11_withExt hne hbase hext]
  rw [List.forall_mem_append]
  exact ⟨fun c hc => (hbase.chars c hc).ne_space, fun c hc => (hext.chars c hc).ne_space⟩

/-! ### One file, however it is named -/

/-- Two components of paths are the same, or names with the same eleven bytes. -/
def SameForm (tok tok' : CString) : Prop :=
  tok = tok' ∨ ∃ f, toFcb11 tok false = some f ∧ toFcb11 tok' false = some f

theorem ne_dots_of_toFcb11 {tok f : CString} (h : toFcb11 tok false = some f) :
    tok ≠ ascii "." ∧ tok ≠ ascii ".." := by
  constructor
  · rintro rfl
    have hnone : toFcb11 (ascii ".") false = none := by decide
    rw [hnone] at h
    cases h
  · rintro rfl
    have hnone : toFcb11 (ascii "..") false = none := by decide
    rw [hnone] at h
    cases h

/-- A name stands for the dotted name of its eleven bytes. -/
theorem readComps_name {tok f : CString} (h : toFcb11 tok false = some f) (comps toks : List CString) :
    readComps comps (tok :: toks) =
      if comps.length ≥ 16 then none else readComps (comps ++ [fcb11ToName f]) toks := by
  obtain ⟨hdot, hdots⟩ := ne_dots_of_toFcb11 h
  rw [readComps, if_neg hdot, if_neg hdots, h]

theorem readComps_sameForm {toks toks' : List CString} (h : List.Forall₂ SameForm toks toks')
    (comps : List CString) : readComps comps toks = readComps comps toks' := by
  induction h generalizing comps with
  | nil => rfl
  | @cons tok tok' toks toks' hform _ ih =>
      rcases hform with rfl | ⟨f, hf, hf'⟩
      · rw [readComps, readComps]
        split_ifs
        · exact ih comps
        · exact ih comps.dropLast
        · rfl
        · cases toFcb11 tok false with
          | none => rfl
          | some f => exact ih (comps ++ [fcb11ToName f])
      · rw [readComps_name hf, readComps_name hf', ih]

theorem resolve_sameForm {m : GwbMachine} {dos dos' : CString}
    (h : List.Forall₂ SameForm (Path.tokens isSep (workPath m dos)) (Path.tokens isSep (workPath m dos')))
    (outn : Nat) : resolve m dos outn = resolve m dos' outn := by
  rw [resolve, resolve, readComps_sameForm h]

/-! ### A file that is listed -/

theorem hostNameToDos_eq_some {w : WString} {name f : CString} (h : hostNameToDos w = some (name, f)) :
    typedName (narrow w) = some name ∧ toFcb11 (narrow w) false = some f ∧ fcb11ToName f = name := by
  rw [hostNameToDos] at h
  split at h
  · cases h
  · cases hf : toFcb11 (narrow w) false with
    | none =>
        rw [hf] at h
        cases h
    | some g =>
        rw [hf] at h
        dsimp only at h
        split at h
        · cases h
        · next hcut =>
            cases h
            refine ⟨?_, rfl, rfl⟩
            have hlengths : (baseOf (narrow w)).length ≤ 8 ∧ (extOf (narrow w)).length ≤ 3 := by
              rw [baseOf, extOf, List.length_map, List.length_map]
              omega
            rw [typedName, if_pos hlengths, ← toFcb11_map_fcb11ToName, hf]
            rfl

theorem legal_of_toFcb11 {tok f : CString} (h : toFcb11 tok false = some f) : Legal (fcb11ToName f) := by
  have hname : shortName tok = some (fcb11ToName f) := by
    rw [← toFcb11_map_fcb11ToName, h]
    rfl
  exact legal_of_shortName hname

theorem ne_question_of_toFcb11 {tok f : CString} (h : toFcb11 tok false = some f) {c : UInt8} (hc : c ∈ f) :
    c ≠ question := by
  obtain ⟨base, ext, -, hbase, hext, rfl⟩ := toFcb11_eq_some h
  have hpad : ∀ {n : Nat} {part : CString}, PartOk n false part → c ∈ pad n part → c ≠ question := by
    intro n part hpart hc
    rcases List.mem_append.mp hc with hc | hc
    · rcases hpart.chars c hc with hok | ⟨-, hwild⟩
      · exact ne_question_of_ok hok
      · cases hwild
    · rw [List.eq_of_mem_replicate hc]
      decide
  rcases List.mem_append.mp hc with hc | hc
  · exact hpad hbase hc
  · exact hpad hext hc

/-- A name without wild cards finds the files with its eleven bytes. -/
theorem fcb11Match_iff {tok f g : CString} (h : toFcb11 tok false = some f) (hg : g.length = 11) :
    fcb11Match f g = true ↔ f = g := by
  have hf := length_of_toFcb11 h
  rw [fcb11Match, List.all_eq_true]
  constructor
  · intro hall
    apply List.ext_getElem (hf.trans hg.symm)
    intro i hi hi'
    have hfits := hall i (List.mem_range.mpr (hf ▸ hi))
    simp only [List.getD_eq_getElem?_getD, List.getElem?_eq_getElem hi, List.getElem?_eq_getElem hi',
      Option.getD_some, Bool.or_eq_true, decide_eq_true_eq] at hfits
    rcases hfits with hwild | heq
    · exact absurd hwild (ne_question_of_toFcb11 h (List.getElem_mem hi))
    · exact heq
  · rintro rfl i _
    simp

theorem scanPart_wild {cap : Nat} {part name out : CString} (h : scanPart cap false part name = some out) :
    scanPart cap true part name = some out := by
  induction name generalizing part with
  | nil => exact h
  | cons c name ih =>
      rw [scanPart] at h ⊢
      simp only [Bool.false_eq_true, and_false, if_false] at h
      split at h
      · cases h
      · next hbad =>
          have hok : dosCharOk (upper c) = true := by
            by_contra hno
            exact hbad (.inr hno)
          rw [if_neg fun hstar => ne_star_of_ok hok hstar.1,
            if_neg fun hquestion => ne_question_of_ok hok hquestion.1, if_neg hbad]
          exact ih h

/-- A name without wild cards is a pattern for itself. -/
theorem toFcb11_wild {tok f : CString} (h : toFcb11 tok false = some f) : toFcb11 tok true = some f := by
  rw [toFcb11] at h ⊢
  cases hbase : scanPart 8 false [] (tok.takeWhile (· ≠ dotChar)) with
  | none =>
      rw [hbase] at h
      cases h
  | some base =>
      rw [scanPart_wild hbase]
      rw [hbase] at h
      dsimp only at h ⊢
      split_ifs at h ⊢ with hne
      split at h
      · exact h
      · next rest _ =>
          cases hext : scanPart 3 false [] rest with
          | none =>
              rw [hext] at h
              cases h
          | some ext =>
              rw [hext] at h
              rw [scanPart_wild hext]
              exact h

/-! ### The current directory -/

theorem readComps_append (comps toks toks' : List CString) :
    readComps comps (toks ++ toks') = (readComps comps toks).bind (readComps · toks') := by
  induction toks generalizing comps with
  | nil => rfl
  | cons tok toks ih =>
      rw [List.cons_append, readComps, readComps]
      split_ifs
      · exact ih comps
      · exact ih comps.dropLast
      · rfl
      · cases toFcb11 tok false with
        | none => rfl
        | some f => exact ih (comps ++ [fcb11ToName f])

theorem addComps_append (outn : Nat) (out : WString) (comps comps' : List CString) :
    addComps outn out (comps ++ comps') = (addComps outn out comps).bind (addComps outn · comps') := by
  induction comps generalizing out with
  | nil => rfl
  | cons comp comps ih =>
      rw [List.cons_append, addComps, addComps]
      split
      · rfl
      · exact ih _

/-- The name of the current directory leaves the buffer that a path is put in some room. -/
def CwdFits (m : GwbMachine) : Prop := m.cwd.length ≤ 79

theorem chdir_cwdFits {m : GwbMachine} (call : Call) (h : CwdFits m) : CwdFits (chdir m call).1 := by
  unfold chdir
  split
  · exact h
  · split
    · simp only [CwdFits, storedCwd, narrow, List.length_map]
      exact List.length_take_le _ _
    · exact h

/-- The path of a name is the current directory with the name behind it. -/
theorem tokens_workPath_name {m : GwbMachine} (hcwd : CwdFits m) {base ext : CString}
    (h : EightThree base ext) :
    Path.tokens isSep (workPath m (withExt base ext)) =
      Path.tokens isSep (workPath m []) ++ [withExt base ext] := by
  have hlegal : Legal (withExt base ext) := ⟨base, ext, h, rfl⟩
  have hlength : (withExt base ext).length ≤ 12 := by
    have hbase := h.base_length
    have hext := h.ext_length
    rw [withExt]
    split
    · omega
    · rw [List.length_append, List.length_cons]
      omega
  have hdrive : dropDrive (withExt base ext) = withExt base ext := by
    rw [dropDrive]
    apply if_neg
    rintro ⟨-, hcolon⟩
    rcases hlegal.ok (List.mem_of_getElem? hcolon) with hok | hdot
    · exact absurd hok (by decide)
    · exact absurd hdot (by decide)
  have hrel : isRelative (withExt base ext) = true := by
    obtain ⟨c, rest, heq, hc⟩ := hlegal.head_ok
    rw [heq, isRelative, not_isSep_of_ok hc]
    rfl
  have hcwd' : m.cwd.length ≤ 79 := hcwd
  have hfits : PathFits m (withExt base ext) := by
    rw [PathFits, hdrive]
    split <;> omega
  have hfits' : PathFits m [] := by
    have hempty : (dropDrive []).length = 0 := rfl
    rw [PathFits]
    split <;> omega
  have hnil : pathTokens m [] = Path.tokens isSep m.cwd := by
    have hempty : pathTokens m [] = Path.tokens isSep m.cwd ++ [] := rfl
    rw [hempty, List.append_nil]
  rw [tokens_workPath hfits, tokens_workPath hfits', hnil, pathTokens, hdrive, if_pos hrel,
    Path.tokens_component hlegal.component]

/-- A name leads into the current directory. -/
theorem resolve_name {m : GwbMachine} (hcwd : CwdFits m) {tok f : CString}
    (h : toFcb11 tok false = some f) {outn : Nat} {dir : WString} (hdir : resolve m [] outn = .ok dir) :
    resolve m (fcb11ToName f) outn = .ok (dir ++ wide (backslash :: fcb11ToName f)) ∨
      resolve m (fcb11ToName f) outn = .error 3 := by
  have hlegal := legal_of_toFcb11 h
  have hself := toFcb11_fcb11ToName h
  have hpath : Path.tokens isSep (workPath m (fcb11ToName f)) =
      Path.tokens isSep (workPath m []) ++ [fcb11ToName f] := by
    obtain ⟨base, ext, h83, heq⟩ := hlegal
    rw [heq]
    exact tokens_workPath_name hcwd h83
  rw [resolve] at hdir ⊢
  rw [hpath, readComps_append]
  cases hcomps : readComps [] (Path.tokens isSep (workPath m [])) with
  | none =>
      rw [hcomps] at hdir
      cases hdir
  | some comps =>
      rw [hcomps] at hdir
      rw [Option.bind_some, readComps_name hself]
      by_cases hdeep : comps.length ≥ 16
      · rw [if_pos hdeep]
        exact .inr rfl
      · rw [if_neg hdeep]
        dsimp only [readComps] at hdir ⊢
        rw [addComps_append]
        cases hout : addComps outn (m.root.take (outn - 1)) comps with
        | none =>
            rw [hout] at hdir
            cases hdir
        | some out =>
            rw [hout] at hdir
            cases hdir
            rw [Option.bind_some, addComps, hlegal.upper_eq]
            by_cases hfull : dir.length + 14 ≥ outn
            · rw [if_pos hfull]
              exact .inr rfl
            · rw [if_neg hfull]
              exact .inl rfl

/-- A file that the listing of a directory shows: its name for the guest is the host's in upper case,
of which nothing is cut; a pattern without wild cards finds it exactly if the pattern has its eleven
bytes; a file control block with these bytes has its name; and in every directory that CHDIR calls lead
to, that name leads to the file of the name, unless the host path gets too long. -/
structure Listed (w : WString) (name f : CString) : Prop where
  typed : typedName (narrow w) = some name
  forms : toFcb11 (narrow w) false = some f ∧ toFcb11 name false = some f
  found : ∀ tok g, toFcb11 tok false = some g →
    toFcb11 tok true = some g ∧ (fcb11Match g f = true ↔ g = f)
  named : ∀ raw, raw.map upper = f → fcbName raw = name
  opened : ∀ rootDir calls outn dir,
    resolve (Machine.run (fun m call => (chdir m call).1) (create rootDir) calls) [] outn = .ok dir →
      resolve (Machine.run (fun m call => (chdir m call).1) (create rootDir) calls) name outn =
          .ok (dir ++ wide (backslash :: name)) ∨
        resolve (Machine.run (fun m call => (chdir m call).1) (create rootDir) calls) name outn = .error 3

theorem listed_of_hostNameToDos {w : WString} {name f : CString} (h : hostNameToDos w = some (name, f)) :
    Listed w name f := by
  obtain ⟨htyped, hform, rfl⟩ := hostNameToDos_eq_some h
  refine ⟨htyped, ⟨hform, toFcb11_fcb11ToName hform⟩, fun tok g hg => ?_, ?_, ?_⟩
  · exact ⟨toFcb11_wild hg, fcb11Match_iff hg (length_of_toFcb11 hform)⟩
  · rintro raw rfl
    rfl
  · intro rootDir calls outn dir hdir
    have hstart : CwdFits (create rootDir) := Nat.zero_le 79
    have hcwd : CwdFits (Machine.run (fun m call => (chdir m call).1) (create rootDir) calls) :=
      Machine.run_inv (fun m call h => chdir_cwdFits call h) hstart calls
    exact resolve_name hcwd hform hdir

example : hostNameToDos (wide (ascii "Read.me")) = some (ascii "READ.ME", ascii "READ    ME ") := by decide

/-- The eleven bytes of a name, written as a dotted name and read again, are the same, with wild cards
and without; names with the same eleven bytes can stand for each other in every path; and a file that is
listed is the one that its name leads to, for every way to name it. -/
theorem fcb_normalForm :
    (∀ name wild f, toFcb11 name wild = some f → toFcb11 (fcb11ToName f) wild = some f) ∧
      (∀ m dos dos' outn,
        List.Forall₂ SameForm (Path.tokens isSep (workPath m dos)) (Path.tokens isSep (workPath m dos')) →
          resolve m dos outn = resolve m dos' outn) ∧
      ∀ w name f, hostNameToDos w = some (name, f) → Listed w name f :=
  ⟨fun _ _ _ h => toFcb11_fcb11ToName h, fun _ _ _ outn h => resolve_sameForm h outn,
    fun _ _ _ h => listed_of_hostNameToDos h⟩

end UnicornSuite.Gwb
