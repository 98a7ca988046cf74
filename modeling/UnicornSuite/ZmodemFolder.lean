import UnicornSuite.ZmodemSteps

/-! The download folder over a receive session. `Tracks` ties the open file to the counter and to the
record of the files created. A session whose ZFILEs all find a free name leaves every file alone that
it did not create (`session_harmless`); where no name is free, the clean-up deletes the last path of
the search, which some other file has. -/

namespace UnicornSuite.Zmodem

open Session

variable {κ : Type} [DecidableEq κ] (key : CString → κ)

/-- What holds of each file of a record and its content. -/
def EachFile (P : FileLog κ → List UInt8 → Prop) (files : κ → Option (List UInt8))
    (l : List (FileLog κ)) : Prop := ∀ f ∈ l, ∀ c, files f.key = some c → P f c

section EachFile

variable {P : FileLog κ → List UInt8 → Prop} {files : κ → Option (List UInt8)} {l : List (FileLog κ)}

theorem EachFile.update (h : EachFile P files l) {k : κ} (hk : k ∉ l.map (·.key))
    (v : Option (List UInt8)) : EachFile P (Function.update files k v) l := by
  intro f hf c hc
  have hne : f.key ≠ k := fun heq => hk (heq ▸ List.mem_map_of_mem hf)
  rw [Function.update_of_ne hne] at hc
  exact h f hf c hc

theorem EachFile.delete (h : EachFile P files l) (k : κ) :
    EachFile P (Function.update files k none) l := by
  intro f hf c hc
  by_cases heq : f.key = k
  · rw [heq, Function.update_self] at hc
    cases hc
  · rw [Function.update_of_ne heq] at hc
    exact h f hf c hc

omit [DecidableEq κ] in
theorem EachFile.mem {f : FileLog κ} (h : EachFile P files (f :: l)) : EachFile P files l :=
  fun g hg => h g (List.mem_cons_of_mem _ hg)

end EachFile

section CleanUp

variable (os : Os) (s : Session κ)

theorem cleanUp_status : (cleanUp key os s).status = s.status := by
  unfold cleanUp
  simp only
  split_ifs <;> rfl

/-- The clean-up deletes at most the file under the path, and nothing after a success. -/
theorem cleanUp_files : (cleanUp key os s).files = s.files ∨
    s.status ≠ .ok ∧ s.path ≠ [] ∧
      (cleanUp key os s).files = Function.update s.files (key s.path) none := by
  unfold cleanUp
  simp only
  split_ifs with h hdel
  · exact .inr ⟨h.1, h.2, rfl⟩
  · exact .inl rfl
  · exact .inl rfl

variable {s} in
theorem EachFile.cleanUp {P : FileLog κ → List UInt8 → Prop} {l : List (FileLog κ)}
    (h : EachFile P s.files l) : EachFile P (cleanUp key os s).files l := by
  rcases cleanUp_files key os s with hf | ⟨_, _, hf⟩
  · rwa [hf]
  · rw [hf]
    exact h.delete _

end CleanUp

/-- The open file is the current one of the record, and every file created is there until the
clean-up. -/
structure Tracks (s : Session κ) : Prop where
  current : s.phase ≠ .done → s.out = s.ledger.current.map (·.key)
  present : s.phase ≠ .done → ∀ k ∈ s.ledger.created, s.files k ≠ none
  distinct : s.ledger.created.Nodup
  data : s.InData → s.out.isSome

/-- The open file has as many bytes as the counter says. -/
def Counted (s : Session κ) : Prop :=
  s.Running → ∀ k, s.out = some k → ∃ c, s.files k = some c ∧ c.length = s.received

section Tracks

variable {s s' : Session κ} {name : CString} {n : Nat} {b : Subpacket}

omit [DecidableEq κ] in
theorem Tracks.keeps (h : Tracks s) (hk : Keeps s s') : Tracks s' := by
  refine ⟨fun hn => ?_, fun hn => ?_, ?_, fun hd => ?_⟩
  · rw [hk.out, hk.ledger]
    exact h.current (hk.undone hn)
  · rw [hk.files, hk.ledger]
    exact h.present (hk.undone hn)
  · rw [hk.ledger]
    exact h.distinct
  · rw [hk.out]
    exact h.data (hk.data hd)

omit [DecidableEq κ] in
theorem Counted.keeps (h : Counted s) (hk : Keeps s s') : Counted s' := by
  intro hr
  rw [hk.out, hk.files, hk.received]
  exact h (hk.running hr)

omit [DecidableEq κ] in
theorem not_inData_file (hp : s.phase = .file) : ¬ s.InData := by
  intro hd
  rw [InData, hp] at hd
  rcases hd with hc | hc <;> cases hc

omit [DecidableEq κ] in
theorem tracks_claim (h : Tracks s) (hp : s.phase = .file) : Tracks (claimPath key name n s) :=
  ⟨fun _ => rfl, fun _ => h.present (hp ▸ by decide), h.distinct,
    fun hd => absurd hd (not_inData_file hp)⟩

theorem tracks_create (h : Tracks s) (hp : s.phase = .file)
    (hfree : s.files (key (claimPath key name n s).path) = none) :
    Tracks (createFile key (claimPath key name n s)) := by
  have hn : s.phase ≠ .done := hp ▸ by decide
  refine ⟨fun _ => rfl, fun _ k hk => ?_, ?_, fun hd => absurd hd (not_inData_file hp)⟩
  · simp only [createFile]
    by_cases heq : k = key (claimPath key name n s).path
    · rw [heq, Function.update_self]
      exact Option.some_ne_none _
    · rw [Function.update_of_ne heq]
      exact h.present hn k ((List.mem_cons.mp hk).resolve_left heq)
  · exact List.nodup_cons.mpr ⟨fun hm => h.present hn _ hm hfree, h.distinct⟩

/-- What is written goes to the end of the open file. -/
theorem writeBlock_open (h : Tracks s) (hc : Counted s) (hd : s.InData) (b : Subpacket) (n : Nat) :
    ∃ f c, s.ledger.current = some f ∧ s.files f.key = some c ∧ c.length = s.received ∧
      writeBlock b n s =
        { s with
          files := Function.update s.files f.key (some (c ++ b.payload.take n))
          ledger := s.ledger.wrote b n } := by
  obtain ⟨k, hk⟩ := Option.isSome_iff_exists.mp (h.data hd)
  obtain ⟨c, hfile, hlen⟩ := hc hd.running k hk
  have hcur := h.current hd.running.undone
  rw [hk] at hcur
  obtain ⟨f, hf, rfl⟩ := Option.map_eq_some_iff.mp hcur.symm
  refine ⟨f, c, hf, hfile, hlen, ?_⟩
  rw [writeBlock_of_open b n hk, hfile]
  rfl

theorem tracks_write (h : Tracks s) (hc : Counted s) (hd : s.InData) :
    Tracks (writeBlock b n s) := by
  obtain ⟨f, c, hf, hfile, _, hw⟩ := writeBlock_open h hc hd b n
  have hn := hd.running.undone
  rw [hw]
  refine ⟨fun _ => ?_, fun _ k hk => ?_, ?_, fun _ => h.data hd⟩
  · show s.out = (s.ledger.wrote b n).current.map (·.key)
    rw [h.current hn, Ledger.wrote, hf]
    rfl
  · simp only [Ledger.created_wrote] at hk ⊢
    by_cases heq : k = f.key
    · rw [heq, Function.update_self]
      exact Option.some_ne_none _
    · rw [Function.update_of_ne heq]
      exact h.present hn k hk
  · simpa using h.distinct

theorem counted_write (h : Tracks s) (hc : Counted s) (hd : s.InData) :
    Counted (advance b.payload.length (writeBlock b b.payload.length s)) := by
  obtain ⟨f, c, hf, hfile, hlen, hw⟩ := writeBlock_open h hc hd b b.payload.length
  have hcur := h.current hd.running.undone
  rw [hw]
  intro _ k hk
  obtain rfl : f.key = k := by
    rw [hf] at hcur
    exact Option.some.inj (hcur.symm.trans hk)
  refine ⟨c ++ b.payload, ?_, ?_⟩
  · simp [advance]
  · simp [advance, hlen]

theorem tracks_step (e : Event) (h : Tracks s) (hc : Counted s) :
    Tracks (step key s e) ∧ Counted (step key s e) := by
  have hstopped : ∀ t : Session κ, ¬ t.Running → Counted t := fun t ht hr => absurd hr ht
  cases step_moves key s e with
  | keeps hk => exact ⟨h.keeps hk, hc.keeps hk⟩
  | success hr _ hd hs =>
      refine ⟨⟨fun _ => ?_, fun _ => ?_, ?_, fun hi => absurd hi.running hs⟩, hstopped _ hs⟩
      · rw [hd.out, hd.ledger]
        exact h.current hr.undone
      · rw [hd.files, hd.ledger]
        exact h.present hr.undone
      · rw [hd.ledger]
        exact h.distinct
  | marked _ hr p hk =>
      refine ⟨Tracks.keeps (s := mark p s) ⟨fun hn => ?_, fun hn => ?_, ?_, h.data⟩ hk,
        Counted.keeps (s := mark p s) hc hk⟩
      · rw [mark, h.current hn, Ledger.eof, Option.map_map]
        rfl
      · simpa [mark] using h.present hn
      · simpa [mark] using h.distinct
  | framed _ hr hopen hk =>
      exact ⟨Tracks.keeps (s := frame s.received s)
        ⟨fun _ => h.current hr.undone, fun _ => h.present hr.undone, h.distinct, fun _ => hopen⟩ hk,
        Counted.keeps (s := frame s.received s) (fun _ => hc hr) hk⟩
  | refused name n _ hp hk hs => exact ⟨(tracks_claim key h hp).keeps hk, hstopped _ hs⟩
  | opened name n _ hp hfree hk =>
      refine ⟨(tracks_create key h hp hfree).keeps hk, Counted.keeps (fun _ k hk => ?_) hk⟩
      obtain rfl := Option.some.inj hk
      exact ⟨[], Function.update_self .., rfl⟩
  | wrote b _ hd _ hk =>
      have hw := tracks_write (b := b) (n := b.payload.length) h hc hd
      exact ⟨Tracks.keeps (s := advance _ _) ⟨hw.current, hw.present, hw.distinct, hw.data⟩ hk,
        (counted_write h hc hd).keeps hk⟩
  | short b n _ hd _ _ hk hs => exact ⟨(tracks_write h hc hd).keeps hk, hstopped _ hs⟩
  | cleaned os _ _ he =>
      have hdone := cleanUp_phase key os s
      rw [he]
      refine ⟨⟨fun hn => absurd hdone hn, fun hn => absurd hdone hn, ?_, fun hi => ?_⟩,
        hstopped _ (fun hr => hr.2 hdone)⟩
      · rw [cleanUp_ledger]
        exact h.distinct
      · exact absurd hdone hi.running.2

omit [DecidableEq κ] in
theorem tracks_start (dir : CString) (files : κ → Option (List UInt8)) (os : Os) :
    Tracks (start dir files os) ∧ Counted (start dir files os) := by
  refine ⟨⟨fun _ => rfl, fun _ k hk => ?_, List.nodup_nil, fun hd => ?_⟩, fun _ k hk => ?_⟩
  · cases hk
  · rcases hd with hd | hd <;> cases hd
  · cases hk

end Tracks

section Harmless

variable {files₀ : κ → Option (List UInt8)} {s s' : Session κ}

/-- A file that is taken up finds a free name, or the path left by a search in vain is a file of the
session itself. -/
def FindsName (s : Session κ) (e : Event) : Prop :=
  ∀ name ∈ offers s e, (∃ p ∈ candidates s.dir name maxPath, s.files (key p) = none) ∨
    key (lastCandidate s.dir name maxPath) ∈ s.ledger.created

instance (s : Session κ) (e : Event) : Decidable (FindsName key s e) :=
  inferInstanceAs (Decidable (∀ name ∈ offers s e, _ ∨ _))

/-- Files the session did not create are as they were, and what it created was not there before.
The path that the clean-up would delete is free or the session's own. -/
structure Harmless (files₀ : κ → Option (List UInt8)) (s : Session κ) : Prop where
  others : ∀ k, k ∉ s.ledger.created → s.files k = files₀ k
  own : ∀ k ∈ s.ledger.created, files₀ k = none
  target : s.phase ≠ .done → s.path ≠ [] →
    key s.path ∈ s.ledger.created ∨ s.files (key s.path) = none

omit [DecidableEq κ] in
theorem Harmless.keeps (h : Harmless key files₀ s) (hk : Keeps s s') : Harmless key files₀ s' := by
  refine ⟨?_, ?_, fun hn => ?_⟩
  · rw [hk.files, hk.ledger]
    exact h.others
  · rw [hk.ledger]
    exact h.own
  · rw [hk.files, hk.ledger, hk.path]
    exact h.target (hk.undone hn)

omit [DecidableEq κ] in
/-- The search leaves a path that is free or the session's own. -/
theorem claim_target {e : Event} {name : CString} {n : Nat} (ho : offers s e = some name)
    (hg : FindsName key s e) :
    key (claimPath key name n s).path ∈ s.ledger.created ∨
      s.files (key (claimPath key name n s).path) = none := by
  have hname := hg name ho
  cases hfound : (buildUniquePath (fun p => (s.files (key p)).isSome) s.dir name maxPath).1 with
  | true => exact .inr (by simpa [claimPath] using buildUniquePath_free hfound)
  | false =>
      rcases hname with ⟨p, hp, hfree⟩ | hown
      · rw [← Bool.not_eq_true, buildUniquePath_found] at hfound
        exact absurd ⟨p, hp, by simp [hfree]⟩ hfound
      · refine .inl ?_
        rwa [claimPath, buildUniquePath_last hfound]

theorem harmless_write (h : Harmless key files₀ s) (ht : Tracks s) (hc : Counted s)
    (hd : s.InData) (b : Subpacket) (n : Nat) : Harmless key files₀ (writeBlock b n s) := by
  obtain ⟨f, c, hf, hfile, _, hw⟩ := writeBlock_open ht hc hd b n
  have hmem : f.key ∈ s.ledger.created := by
    simp [Ledger.created, Ledger.all, hf]
  rw [hw]
  refine ⟨fun k hk => ?_, ?_, fun hn hp => ?_⟩
  · simp only [Ledger.created_wrote] at hk ⊢
    have hne : k ≠ f.key := fun heq => hk (heq ▸ hmem)
    rw [Function.update_of_ne hne]
    exact h.others k hk
  · simpa using h.own
  · simp only [Ledger.created_wrote]
    rcases h.target hn hp with hown | hfree
    · exact .inl hown
    · refine .inr ?_
      have hne : key s.path ≠ f.key := fun heq => by rw [heq, hfile] at hfree; cases hfree
      rwa [Function.update_of_ne hne]

theorem harmless_step {e : Event} (h : Harmless key files₀ s) (ht : Tracks s) (hc : Counted s)
    (hg : FindsName key s e) : Harmless key files₀ (step key s e) := by
  cases step_moves key s e with
  | keeps hk => exact h.keeps key hk
  | success hr _ hd hs =>
      refine ⟨?_, ?_, fun _ => ?_⟩
      · rw [hd.files, hd.ledger]
        exact h.others
      · rw [hd.ledger]
        exact h.own
      · rw [hd.files, hd.ledger, hd.path]
        exact h.target hr.undone
  | marked _ hr p hk =>
      refine Harmless.keeps key (s := mark p s) ⟨?_, ?_, ?_⟩ hk
      · simpa [mark] using h.others
      · simpa [mark] using h.own
      · simpa [mark] using h.target
  | framed _ hr _ hk =>
      exact Harmless.keeps key (s := frame s.received s)
        ⟨h.others, h.own, fun _ => h.target hr.undone⟩ hk
  | refused name n ho _ hk =>
      exact Harmless.keeps key (s := claimPath key name n s)
        ⟨h.others, h.own, fun _ _ => claim_target key ho hg⟩ hk
  | opened name n ho hp hfree hk =>
      refine Harmless.keeps key (s := createFile key (claimPath key name n s)) ⟨?_, ?_, ?_⟩ hk
      · intro k hk
        obtain ⟨hne, hold⟩ := not_or.mp (fun hm => hk (List.mem_cons.mpr hm))
        exact (Function.update_of_ne hne _ _).trans (h.others k hold)
      · intro k hk
        by_cases hold : k ∈ s.ledger.created
        · exact h.own k hold
        · rw [(List.mem_cons.mp hk).resolve_right hold, ← h.others _ (by
            rwa [(List.mem_cons.mp hk).resolve_right hold] at hold)]
          exact hfree
      · exact fun _ _ => .inl List.mem_cons_self
  | wrote b _ hd _ hk =>
      have hw := harmless_write key h ht hc hd b b.payload.length
      exact Harmless.keeps key (s := advance _ _) ⟨hw.others, hw.own, hw.target⟩ hk
  | short b n _ hd _ _ hk => exact (harmless_write key h ht hc hd b n).keeps key hk
  | cleaned os _ hp he =>
      rw [he]
      refine ⟨?_, ?_, fun hn => absurd (cleanUp_phase key os s) hn⟩
      · rw [cleanUp_ledger]
        intro k hk
        rcases cleanUp_files key os s with hf | ⟨_, hpath, hf⟩
        · rw [hf]
          exact h.others k hk
        · rw [hf]
          by_cases heq : k = key s.path
          · have hfree := (h.target (hp ▸ by decide) hpath).resolve_left (heq ▸ hk)
            rw [← h.others k hk, heq, Function.update_self, hfree]
          · rw [Function.update_of_ne heq]
            exact h.others k hk
      · rw [cleanUp_ledger]
        exact h.own

/-- Along every session whose ZFILEs find a name, each file that was in the folder before stays as it
was, and nothing is written or deleted but files the session created. -/
theorem session_harmless (dir : CString) (files : κ → Option (List UInt8)) (os : Os)
    {es : List Event}
    (hes : Machine.Guarded (step key) (FindsName key) (start dir files os) es) :
    let s := Machine.run (step key) (start dir files os) es
    (∀ k c, files k = some c → s.files k = some c) ∧
      (∀ k ∈ s.ledger.created, files k = none) ∧
      ∀ k, k ∉ s.ledger.created → s.files k = files k := by
  have hstart : Harmless key files (start dir files os) :=
    ⟨fun _ _ => rfl, fun k hk => absurd hk List.not_mem_nil, fun _ hp => absurd rfl hp⟩
  have hinv := Machine.run_inv_of_guarded
    (I := fun s => Harmless key files s ∧ Tracks s ∧ Counted s)
    (fun _ e h hg => ⟨harmless_step key h.1 h.2.1 h.2.2 hg, tracks_step key e h.2.1 h.2.2⟩)
    ⟨hstart, tracks_start dir files os⟩ hes
  refine ⟨fun k c hk => ?_, hinv.1.own, hinv.1.others⟩
  rw [← hk]
  refine hinv.1.others k (fun hm => ?_)
  rw [hinv.1.own k hm] at hk
  cases hk

/-- A folder that has a file `a` already. -/
def oneFile (p : CString) : Option (List UInt8) :=
  if p = plainPath (ascii "d") (ascii "a") maxPath then some [7] else none

/-- A sender that offers `a` again writes to another path. -/
theorem session_harmless_renamed :
    (Machine.run (step id) (start (ascii "d") oneFile {})
      (offerEvents (nameBlock 0x61) ++ [.block (.ok (nameBlock 0x62)) {}])).files
      (plainPath (ascii "d") (ascii "a") maxPath) = some [7] :=
  (session_harmless id (ascii "d") oneFile {} (by decide)).1 _ _ (if_pos rfl)

/-- Where no name is free the session fails, and the clean-up deletes the file under the last path. -/
theorem search_in_vain {s : Session κ} {b : Subpacket} {name : CString} {os : Os}
    (os' : Os) (ho : offers s (.block (.ok b) os) = some name)
    (hfull : ∀ p ∈ candidates s.dir name maxPath, s.files (key p) ≠ none)
    (hdel : os'.deleteOk = true) :
    (Machine.run (step key) s [.block (.ok b) os, .turn os']).files
      (key (lastCandidate s.dir name maxPath)) = none := by
  have hfound : (buildUniquePath (fun p => (s.files (key p)).isSome) s.dir name maxPath).1 = false := by
    rw [← Bool.not_eq_true, buildUniquePath_found]
    rintro ⟨p, hp, hfree⟩
    exact hfull p hp (Option.not_isSome_iff_eq_none.mp (Bool.not_eq_true _ ▸ hfree))
  rw [offers] at ho
  split_ifs at ho with hoffer
  obtain rfl := Option.some.inj ho
  have hblock : step key s (.block (.ok b) os) =
      stop .ioError "Could not find a free name in the download folder."
        (zsendCancel (claimPath key (parseZfile b.payload).1 (parseZfile b.payload).2 s)) := by
    simp only [step, hoffer.1, onFile]
    rw [if_neg (by omega), if_pos hfound]
  have hlast := buildUniquePath_last hfound
  rw [Machine.run_cons, hblock, Machine.run_cons, Machine.run_nil]
  simp only [step, stop, zsendCancel, claimPath, cleanUp, hlast, hdel, ↓reduceIte]
  rw [if_pos ⟨by decide, lastCandidate_ne_nil _ _⟩]
  exact Function.update_self ..

/-- A folder where every path the search tries for the name `a` is taken. -/
def fullFolder (p : CString) : Option (List UInt8) :=
  if (candidates (ascii "d") (ascii "a") maxPath).any (· = p) then some [7] else none

theorem fullFolder_taken {p : CString} (hp : p ∈ candidates (ascii "d") (ascii "a") maxPath) :
    fullFolder p = some [7] := if_pos (List.any_eq_true.mpr ⟨p, hp, decide_eq_true rfl⟩)

/-- The last of these paths is deleted by a session that never wrote to it. -/
theorem session_deletes :
    fullFolder (lastCandidate (ascii "d") (ascii "a") maxPath) = some [7] ∧
      (Machine.run (step id) (start (ascii "d") fullFolder {})
        [.turn {}, .header (.ok ⟨0x04, 0⟩) {}, .block (.ok (nameBlock 0x61)) {}, .turn {}]).files
        (lastCandidate (ascii "d") (ascii "a") maxPath) = none := by
  refine ⟨fullFolder_taken (lastCandidate_mem _ _ _), ?_⟩
  have hoffer : offers (goto .file (start (ascii "d") fullFolder {}))
      (.block (.ok (nameBlock 0x61)) {}) = some (ascii "a") := by decide
  have hdir : (goto .file (start (ascii "d") fullFolder {})).dir = ascii "d" := by decide
  have hfile : step id (step id (start (ascii "d") fullFolder {}) (.turn {}))
      (.header (.ok ⟨0x04, 0⟩) {}) = goto .file (start (ascii "d") fullFolder {}) := rfl
  have hvain := search_in_vain id {} hoffer (fun p hp => ?_) rfl
  · rw [Machine.run_cons, Machine.run_cons, hfile]
    rwa [hdir, id] at hvain
  · rw [hdir] at hp
    simp [goto, start, zsendRinit, zsend, fullFolder_taken hp]

end Harmless

end UnicornSuite.Zmodem
