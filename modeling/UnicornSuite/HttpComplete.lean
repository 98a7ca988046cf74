import UnicornSuite.HttpFetch

/-! When a fetch that reports success has the whole body. A read that fails, or gives nothing, leaves
the loop by the same exit as the end of the body, and the length the server declared is looked at only
by the fetch to a file. -/

namespace UnicornSuite.HttpFetch

open CText

/-- The length a header declares: a number, whatever its size. -/
def declaredLength (header : Option CString) : Option Nat :=
  match header with
  | none => none
  | some text => if text ≠ [] ∧ text.all isDigit then some (decimal 0 text) else none

/-- The body was read to its end, and has the length that was declared. -/
def Whole (declared : Option Nat) (ended : Bool) (n : Nat) : Prop :=
  ended = true ∧ ∀ len, declared = some len → n = len

/-! ### To memory -/

/-- What a fetch to memory should come to: success with the whole body, or nothing. -/
def MemSound (declared : Option Nat) (maxBytes : Nat) : MemOutcome → Prop
  | .returns r =>
      (r.code = .ok → Whole declared r.ended r.outLen ∧ r.data = some (r.chunks.flatten ++ [0]) ∧
        r.outLen = r.chunks.flatten.length ∧ (maxBytes ≠ 0 → r.outLen ≤ maxBytes)) ∧
      (r.code ≠ .ok → r.data = none ∧ r.outLen = 0)
  | .overrun => False
  | .stuck => True

/-- The buffer holds what has been read, and there is one once it holds anything. -/
structure MemLoop.Holds (maxBytes : Nat) (s : MemLoop) : Prop where
  buf : s.buf = s.chunks.flatten
  null : s.cap = 0 → s.buf = []
  limit : maxBytes ≠ 0 → s.buf.length ≤ maxBytes

/-- Where the loop may be left for what follows it. -/
def MayFinish (declared : Option Nat) (lastAlloc : Bool) (s : MemLoop) (ended : Bool) : Prop :=
  s.cap = 0 ∧ lastAlloc = false ∨
    (s.cap = 0 ∨ s.buf.length < s.cap) ∧ Whole declared ended s.buf.length

/-- A read that may happen: it gives bytes, and there is room for them. -/
def MayRead (declared : Option Nat) (lastAlloc : Bool) (s : MemLoop) (r : Round) (avail : Nat) : Prop :=
  match readData r avail with
  | none => MayFinish declared lastAlloc s false
  | some got =>
      if got = [] then MayFinish declared lastAlloc s false
      else s.buf.length + got.length ≤ s.cap

/-- The rounds a fetch to memory gets right. -/
def MemGuard (declared : Option Nat) (lastAlloc : Bool) (maxBytes : Nat) (s : MemLoop) (r : Round) :
    Prop :=
  match r.avail with
  | none => True
  | some a =>
      if a.toNat = 0 then MayFinish declared lastAlloc s true
      else if maxBytes ≠ 0 ∧ maxBytes < s.buf.length + a.toNat then True
      else
        let need := dword (s.buf.length + a.toNat + 1)
        if s.cap < need then
          match newCap s.cap need with
          | none => True
          | some cap => r.alloc = true → MayRead declared lastAlloc { s with cap := cap } r a.toNat
        else MayRead declared lastAlloc s r a.toNat

section Memory

variable {declared : Option Nat} {maxBytes errcap : Nat} {lastAlloc : Bool} {s s' : MemLoop} {r : Round}

theorem memFinish_sound_iff (errcap : Nat) (h : s.Holds maxBytes) (ended : Bool) :
    MemSound declared maxBytes (memFinish errcap lastAlloc s ended) ↔
      MayFinish declared lastAlloc s ended := by
  have hresult : MemSound declared maxBytes (.returns
      { code := .ok, data := some (s.buf ++ [0]), outLen := s.buf.length, ended := ended,
        chunks := s.chunks }) ↔ Whole declared ended s.buf.length := by
    constructor
    · exact fun hsound => (hsound.1 rfl).1
    · intro hwhole
      refine ⟨fun _ => ⟨hwhole, by rw [h.buf], by rw [h.buf], h.limit⟩, fun hne => absurd rfl hne⟩
  unfold memFinish MayFinish
  dsimp only
  by_cases hcap : s.cap = 0
  · rw [if_pos hcap]
    cases lastAlloc with
    | true =>
        rw [if_pos rfl, hresult]
        simp [hcap]
    | false => exact iff_of_true ⟨nofun, fun _ => ⟨rfl, rfl⟩⟩ (Or.inl ⟨hcap, rfl⟩)
  · rw [if_neg hcap]
    by_cases hroom : s.buf.length < s.cap
    · rw [if_neg (Nat.not_le.mpr hroom), hresult]
      simp [hcap, hroom]
    · rw [if_pos (Nat.not_lt.mp hroom)]
      exact iff_of_false id (by simp [hcap, hroom])

theorem failed_sound {code : Code} (hcode : code ≠ .ok) (err : CString) :
    MemSound declared maxBytes (memLeave errcap lastAlloc (.failed code err)) :=
  ⟨fun hok => absurd hok hcode, fun _ => ⟨rfl, rfl⟩⟩

theorem mayRead_iff (h : s.Holds maxBytes) (avail : Nat) :
    MayRead declared lastAlloc s r avail ↔ ∀ e, memRead s r avail = .error e →
      MemSound declared maxBytes (memLeave errcap lastAlloc e) := by
  have hdone : MayFinish declared lastAlloc s false ↔ ∀ e, (.error (.done s false) : Except MemExit MemLoop) =
      .error e → MemSound declared maxBytes (memLeave errcap lastAlloc e) := by
    rw [← memFinish_sound_iff errcap h]
    constructor
    · rintro hsound e he
      cases he
      exact hsound
    · exact fun hall => hall _ rfl
  unfold MayRead memRead
  cases readData r avail with
  | none => exact hdone
  | some got =>
      dsimp only
      split
      · exact hdone
      · split
        · rename_i hover
          exact iff_of_false (Nat.not_le.mpr hover) fun hall => hall _ rfl
        · rename_i hfits
          exact iff_of_true (Nat.not_lt.mp hfits) fun e he => nomatch he

theorem MemLoop.Holds.withCap {cap : Nat} (h : s.Holds maxBytes) (hcap : cap ≠ 0) :
    MemLoop.Holds maxBytes { s with cap := cap } :=
  ⟨h.buf, fun hzero => absurd hzero hcap, h.limit⟩

theorem doubleUpTo_le {need fuel start cap : Nat} (h : doubleUpTo need fuel start = some cap) :
    need ≤ cap := by
  induction fuel generalizing start with
  | zero => cases h
  | succ fuel ih =>
      rw [doubleUpTo] at h
      split at h
      · exact ih h
      · rename_i hstart
        exact Option.some.inj h ▸ Nat.not_lt.mp hstart

theorem newCap_ne_zero {cap need cap' : Nat} (hneed : cap < need) (h : newCap cap need = some cap') :
    cap' ≠ 0 := by
  have hle : need ≤ cap' := doubleUpTo_le h
  omega

theorem memRead_holds (h : s.Holds maxBytes) {avail : Nat}
    (hlimit : ¬ (maxBytes ≠ 0 ∧ maxBytes < s.buf.length + avail)) (hread : memRead s r avail = .ok s') :
    s'.Holds maxBytes := by
  unfold memRead at hread
  split at hread
  · cases hread
  · rename_i got hgot
    split at hread
    · cases hread
    · rename_i hne
      split at hread
      · cases hread
      · rename_i hfits
        cases hread
        have hlen : got.length ≤ avail := by
          obtain ⟨bytes, _, rfl⟩ := Option.map_eq_some_iff.mp hgot
          exact List.length_take_le _ _
        have hpos : 0 < got.length := List.length_pos_iff.mpr hne
        refine ⟨?_, ?_, ?_⟩
        · rw [List.flatten_append, List.flatten_singleton, h.buf]
        · intro hcap
          dsimp only at hcap
          omega
        · intro hmax
          rw [List.length_append]
          omega

theorem memRound_holds (h : s.Holds maxBytes) (hround : memRound maxBytes s r = .ok s') :
    s'.Holds maxBytes := by
  unfold memRound at hround
  split at hround
  · cases hround
  · rename_i a _
    dsimp only at hround
    split at hround
    · cases hround
    · split at hround
      · cases hround
      · rename_i hlimit
        split at hround
        · rename_i hneed
          split at hround
          · cases hround
          · rename_i cap hcap
            split at hround
            · exact memRead_holds (h.withCap (newCap_ne_zero hneed hcap)) hlimit hround
            · cases hround
        · exact memRead_holds h hlimit hround

/-- A round leaves the loop soundly exactly if it meets the condition. -/
theorem memGuard_iff (h : s.Holds maxBytes) :
    MemGuard declared lastAlloc maxBytes s r ↔ ∀ e, memRound maxBytes s r = .error e →
      MemSound declared maxBytes (memLeave errcap lastAlloc e) := by
  unfold MemGuard memRound
  cases r.avail with
  | none =>
      simp only [Except.error.injEq, forall_eq', true_iff]
      exact failed_sound (by decide) _
  | some a =>
      dsimp only
      by_cases hzero : a.toNat = 0
      · simp only [if_pos hzero, Except.error.injEq, forall_eq']
        exact (memFinish_sound_iff errcap h true).symm
      · rw [if_neg hzero, if_neg hzero]
        by_cases hlimit : maxBytes ≠ 0 ∧ maxBytes < s.buf.length + a.toNat
        · simp only [if_pos hlimit, Except.error.injEq, forall_eq', true_iff]
          exact failed_sound (by decide) _
        · rw [if_neg hlimit, if_neg hlimit]
          by_cases hneed : s.cap < dword (s.buf.length + a.toNat + 1)
          · rw [if_pos hneed, if_pos hneed]
            cases hcap : newCap s.cap (dword (s.buf.length + a.toNat + 1)) with
            | none =>
                simp only [Except.error.injEq, forall_eq', true_iff]
                exact trivial
            | some cap =>
                dsimp only
                cases r.alloc with
                | true =>
                    rw [forall_prop_of_true rfl, if_pos rfl]
                    exact mayRead_iff (h.withCap (newCap_ne_zero hneed hcap)) _
                | false =>
                    refine iff_of_true (fun h => absurd h Bool.false_ne_true) ?_
                    rintro e ⟨⟩
                    exact failed_sound (by decide) _
          · rw [if_neg hneed, if_neg hneed]
            exact mayRead_iff h _

end Memory

/-! ### To a file -/

/-- What a fetch to a file should come to: success with the whole body in the file, or no file. -/
def FileSound (declared : Option Nat) (maxBytes : Nat) (r : FileResult) : Prop :=
  (r.code = .ok → Whole declared r.ended r.chunks.flatten.length ∧ r.file = some r.chunks.flatten ∧
    (maxBytes ≠ 0 → r.chunks.flatten.length ≤ maxBytes)) ∧
  (r.code ≠ .ok → r.created = true → r.file = none)

/-- The file holds what has been read. -/
structure FileLoop.Holds (maxBytes : Nat) (s : FileLoop) : Prop where
  file : s.file = s.chunks.flatten
  gotTotal : s.gotTotal = s.chunks.flatten.length
  limit : maxBytes ≠ 0 → s.gotTotal ≤ maxBytes

/-- Where the loop may be left for what follows it: a length the code sees to be wrong makes it delete
the file. -/
def MayEnd (header : Option CString) (deletes : Bool) (s : FileLoop) (ended : Bool) : Prop :=
  if hfContentLength header ≠ 0 ∧ s.gotTotal ≠ hfContentLength header then deletes = true
  else Whole (declaredLength header) ended s.gotTotal

/-- A chunk that is not kept: it is past the limit, it is not written, or the callback cancels. -/
def Refused (maxBytes : Nat) (s : FileLoop) (r : Round) (got : Bytes) : Prop :=
  maxBytes ≠ 0 ∧ maxBytes < s.gotTotal + got.length ∨ r.writeOk = false ∨ r.written ≠ got.length ∨
    r.cancel = true

/-- The rounds a fetch to a file gets right. -/
def FileGuard (header : Option CString) (deletes : Bool) (maxBytes : Nat) (s : FileLoop) (r : Round) :
    Prop :=
  match r.avail with
  | none => deletes = true
  | some a =>
      if a.toNat = 0 then MayEnd header deletes s true
      else
        match readData r (min a.toNat chunkSize) with
        | none => MayEnd header deletes s false
        | some got =>
            if got = [] then MayEnd header deletes s false
            else Refused maxBytes s r got → deletes = true

section File

variable {header : Option CString} {maxBytes errcap : Nat} {f : FileCalls} {s s' : FileLoop} {r : Round}

theorem fileFail_sound_iff {declared : Option Nat} {code : Code} (hcode : code ≠ .ok) (err : CString)
    (bytes : Bytes) :
    FileSound declared maxBytes (fileFail f errcap code err true (some bytes)) ↔ f.deletes = true := by
  unfold FileSound fileFail
  cases f.deletes with
  | true => exact iff_of_true ⟨fun hok => absurd hok hcode, fun _ _ => rfl⟩ rfl
  | false => exact iff_of_false (fun hsound => nomatch hsound.2 hcode rfl) nofun

theorem fileLeave_sound_iff (h : s.Holds maxBytes) (ended : Bool) :
    FileSound (declaredLength header) maxBytes
        (fileLeave f errcap (hfContentLength header) (.done s ended)) ↔
      MayEnd header f.deletes s ended := by
  unfold fileLeave MayEnd
  dsimp only
  split
  · exact fileFail_sound_iff (by decide) _ _
  · constructor
    · intro hsound
      exact h.gotTotal ▸ (hsound.1 rfl).1
    · intro hwhole
      refine ⟨fun _ => ⟨h.gotTotal ▸ hwhole, ?_, ?_⟩, fun hne => absurd rfl hne⟩
      · rw [h.file]
      · exact h.gotTotal ▸ h.limit

theorem fileWrite_error_iff {got : Bytes} :
    (Refused maxBytes s r got → f.deletes = true) ↔ ∀ e, fileWrite maxBytes s r got = .error e →
      FileSound (declaredLength header) maxBytes (fileLeave f errcap (hfContentLength header) e) := by
  unfold fileWrite Refused
  dsimp only
  split
  · rename_i hlimit
    simp only [Except.error.injEq, forall_eq']
    rw [forall_prop_of_true (Or.inl hlimit)]
    exact (fileFail_sound_iff (by decide) _ _).symm
  · rename_i hlimit
    split
    · rename_i hwrite
      simp only [Except.error.injEq, forall_eq']
      rw [forall_prop_of_true (by simpa [hlimit] using hwrite.elim Or.inl (Or.inr ∘ Or.inl))]
      exact (fileFail_sound_iff (by decide) _ _).symm
    · rename_i hwrite
      split
      · rename_i hcancel
        simp only [Except.error.injEq, forall_eq']
        rw [forall_prop_of_true (Or.inr (Or.inr (Or.inr hcancel)))]
        exact (fileFail_sound_iff (by decide) _ _).symm
      · rename_i hcancel
        refine iff_of_true ?_ nofun
        rintro (hover | hok | hlen | hstop)
        · exact absurd hover hlimit
        · exact absurd (Or.inl (by rw [hok]; rfl)) hwrite
        · exact absurd (Or.inr hlen) hwrite
        · exact absurd hstop hcancel

theorem fileWrite_holds {got : Bytes} (h : s.Holds maxBytes) (hwrite : fileWrite maxBytes s r got = .ok s') :
    s'.Holds maxBytes := by
  unfold fileWrite at hwrite
  dsimp only at hwrite
  split at hwrite
  · cases hwrite
  · rename_i hlimit
    split at hwrite
    · cases hwrite
    · rename_i hwhole
      split at hwrite
      · cases hwrite
      · cases hwrite
        have hwritten : r.written = got.length := not_not.mp fun hne => hwhole (Or.inr hne)
        refine ⟨?_, ?_, ?_⟩
        · dsimp only
          rw [hwritten, List.take_length, List.flatten_append, List.flatten_singleton, h.file]
        · dsimp only
          rw [List.flatten_append, List.flatten_singleton, List.length_append, h.gotTotal]
        · intro hmax
          exact Nat.not_lt.mp fun hover => hlimit ⟨hmax, hover⟩

theorem fileRound_holds (h : s.Holds maxBytes) (hround : fileRound maxBytes s r = .ok s') :
    s'.Holds maxBytes := by
  unfold fileRound at hround
  split at hround
  · cases hround
  · split at hround
    · cases hround
    · split at hround
      · cases hround
      · split at hround
        · cases hround
        · exact fileWrite_holds h hround

theorem fileGuard_iff (h : s.Holds maxBytes) :
    FileGuard header f.deletes maxBytes s r ↔ ∀ e, fileRound maxBytes s r = .error e →
      FileSound (declaredLength header) maxBytes (fileLeave f errcap (hfContentLength header) e) := by
  have hdone (ended : Bool) : MayEnd header f.deletes s ended ↔
      ∀ e, (.error (.done s ended) : Except FileExit FileLoop) = .error e →
        FileSound (declaredLength header) maxBytes (fileLeave f errcap (hfContentLength header) e) := by
    simp only [Except.error.injEq, forall_eq']
    exact (fileLeave_sound_iff h ended).symm
  unfold FileGuard fileRound
  cases r.avail with
  | none =>
      simp only [Except.error.injEq, forall_eq']
      exact (fileFail_sound_iff (by decide) _ _).symm
  | some a =>
      dsimp only
      split
      · exact hdone true
      · cases readData r (min a.toNat chunkSize) with
        | none => exact hdone false
        | some got =>
            dsimp only
            split
            · exact hdone false
            · exact fileWrite_error_iff

end File

/-! ### Both -/

/-- Every outcome of a fetch to memory is sound. -/
def MemSoundRun (args : Bool) (o : OpenCalls) (header : Option CString) (rounds : List Round)
    (lastAlloc : Bool) (maxBytes errcap : Nat) : Prop :=
  ∀ out, httpFetchToMemory args o rounds lastAlloc maxBytes errcap = some out →
    MemSound (declaredLength header) maxBytes out

/-- Every result of a fetch to a file is sound. -/
def FileSoundRun (args : Bool) (o : OpenCalls) (header : Option CString) (f : FileCalls)
    (rounds : List Round) (maxBytes errcap : Nat) : Prop :=
  ∀ r, httpFetchToFile args o header f rounds maxBytes errcap = some r →
    FileSound (declaredLength header) maxBytes r

/-- The rounds a fetch to a file comes to, if it comes to any, are all ones it gets right. -/
def FileRunGuard (header : Option CString) (f : FileCalls) (rounds : List Round) (maxBytes : Nat) : Prop :=
  ¬ (maxBytes ≠ 0 ∧ maxBytes < hfContentLength header) → f.creates = true →
    if f.cancel then f.deletes = true
    else Exit.Guarded (fileRound maxBytes) (FileGuard header f.deletes maxBytes) {} rounds

theorem hfOpen_ne_ok {o : OpenCalls} {code : Code} {err : CString} (h : hfOpen o = .error (code, err)) :
    code ≠ .ok := by
  unfold hfOpen at h
  dsimp only at h
  repeat' split at h
  all_goals
    cases h
  all_goals
    decide

theorem memSoundRun_iff (args : Bool) (o : OpenCalls) (header : Option CString) (rounds : List Round)
    (lastAlloc : Bool) (maxBytes errcap : Nat) :
    MemSoundRun args o header rounds lastAlloc maxBytes errcap ↔
      (args = true → hfOpen o = .ok () →
        Exit.Guarded (memRound maxBytes) (MemGuard (declaredLength header) lastAlloc maxBytes) {} rounds) := by
  unfold MemSoundRun httpFetchToMemory
  cases args with
  | false =>
      refine iff_of_true ?_ nofun
      rintro out ⟨⟩
      exact ⟨nofun, fun _ => ⟨rfl, rfl⟩⟩
  | true =>
      have hempty : MemLoop.Holds maxBytes {} := ⟨rfl, fun _ => rfl, fun _ => Nat.zero_le _⟩
      have hleaves : (∀ e, Exit.loop (memRound maxBytes) {} rounds = .error e →
            MemSound (declaredLength header) maxBytes (memLeave errcap lastAlloc e)) ↔
          Exit.Guarded (memRound maxBytes) (MemGuard (declaredLength header) lastAlloc maxBytes) {}
            rounds :=
        Exit.leaves_iff (fun _ _ _ => memRound_holds) (fun _ _ => memGuard_iff) hempty rounds
      rw [forall_prop_of_true rfl, ← hleaves, if_neg (by decide)]
      cases ho : hfOpen o with
      | error e =>
          refine iff_of_true ?_ nofun
          rintro out ⟨⟩
          exact ⟨fun hok => absurd hok (hfOpen_ne_ok ho), fun _ => ⟨rfl, rfl⟩⟩
      | ok u =>
          rw [forall_prop_of_true rfl]
          dsimp only
          constructor
          · intro hall e he
            exact hall _ (by rw [he])
          · intro hall out hout
            split at hout
            · rename_i e he
              exact Option.some.inj hout ▸ hall e he
            · cases hout

theorem fileSoundRun_iff (args : Bool) (o : OpenCalls) (header : Option CString) (f : FileCalls)
    (rounds : List Round) (maxBytes errcap : Nat) :
    FileSoundRun args o header f rounds maxBytes errcap ↔
      (args = true → hfOpen o = .ok () → FileRunGuard header f rounds maxBytes) := by
  unfold FileSoundRun httpFetchToFile FileRunGuard
  cases args with
  | false =>
      refine iff_of_true ?_ nofun
      rintro r ⟨⟩
      exact ⟨nofun, nofun⟩
  | true =>
      rw [forall_prop_of_true rfl, if_neg (by decide)]
      cases ho : hfOpen o with
      | error e =>
          refine iff_of_true ?_ nofun
          rintro r ⟨⟩
          exact ⟨fun hok => absurd hok (hfOpen_ne_ok ho), nofun⟩
      | ok u =>
          rw [forall_prop_of_true rfl]
          dsimp only
          by_cases hbig : maxBytes ≠ 0 ∧ maxBytes < hfContentLength header
          · rw [if_pos hbig]
            refine iff_of_true ?_ (fun hsmall => absurd hbig hsmall)
            rintro r ⟨⟩
            exact ⟨nofun, nofun⟩
          · rw [if_neg hbig, forall_prop_of_true hbig]
            cases hcreates : f.creates with
            | false =>
                refine iff_of_true ?_ nofun
                rintro r ⟨⟩
                exact ⟨nofun, nofun⟩
            | true =>
                rw [forall_prop_of_true rfl, if_neg (by decide)]
                cases f.cancel with
                | true =>
                    rw [if_pos rfl, if_pos rfl]
                    simp only [Option.some.injEq, forall_eq']
                    exact fileFail_sound_iff (by decide) _ _
                | false =>
                    rw [if_neg (by decide), if_neg (by decide)]
                    have hempty : FileLoop.Holds maxBytes {} := ⟨rfl, rfl, fun _ => Nat.zero_le _⟩
                    rw [← Exit.leaves_iff (fun _ _ _ => fileRound_holds)
                      (fun _ _ => fileGuard_iff) hempty rounds]
                    constructor
                    · intro hall e he
                      exact hall _ (by rw [he])
                    · intro hall r hr
                      split at hr
                      · rename_i e he
                        exact Option.some.inj hr ▸ hall e he
                      · cases hr

/-- A fetch keeps its promise exactly if every round it comes to is one it gets right: it is not left
by a read that fails, or gives nothing, unless what was read is known to be short. -/
theorem fetch_sound_iff (args : Bool) (o : OpenCalls) (header : Option CString) (f : FileCalls)
    (rounds : List Round) (lastAlloc : Bool) (maxBytes errcap : Nat) :
    (MemSoundRun args o header rounds lastAlloc maxBytes errcap ↔
        (args = true → hfOpen o = .ok () →
          Exit.Guarded (memRound maxBytes) (MemGuard (declaredLength header) lastAlloc maxBytes) {}
            rounds)) ∧
      (FileSoundRun args o header f rounds maxBytes errcap ↔
        (args = true → hfOpen o = .ok () → FileRunGuard header f rounds maxBytes)) :=
  ⟨memSoundRun_iff args o header rounds lastAlloc maxBytes errcap,
    fileSoundRun_iff args o header f rounds maxBytes errcap⟩

/-- A read that fails in the middle of a body of 100 bytes. -/
def brokenRounds : List Round :=
  [{ avail := some 4, bytes := some (ascii "head"), written := 4 }, { avail := some 4 }]

/-- Half a body comes back as a success, from memory and, without a length, from a file. -/
theorem fetch_truncates :
    ¬ MemSoundRun true {} (some (ascii "100")) brokenRounds true 0 256 ∧
      ¬ FileSoundRun true {} none {} brokenRounds 0 256 := by
  constructor
  · intro hsound
    have hshort := hsound (.returns
      { code := .ok, data := some (ascii "head" ++ [0]), outLen := 4, chunks := [ascii "head"] }) rfl
    exact nomatch (hshort.1 rfl).1.1
  · intro hsound
    have hshort := hsound
      { code := .ok, file := some (ascii "head"), created := true, chunks := [ascii "head"] } rfl
    exact nomatch (hshort.1 rfl).1.1

end UnicornSuite.HttpFetch
