import UnicornSuite.ZmodemFolder

/-! What the files of a receive session hold. A property of a file and its record is kept by a run
when an empty file has it, and a ZEOF and each piece written keep it (`eachFile_step`). The write
position is the position of the accepted ZDATA header and the bytes that came since (`Aligned`), so
bytes stand where their stream places them as long as each subpacket is the next one of that stream.
The position in a ZEOF is not read, so a file is known to be whole only where one was noted that
names the bytes on disk. -/

namespace UnicornSuite.Zmodem

open Session

variable {κ : Type} [DecidableEq κ] (key : CString → κ)

section Rule

variable {P : FileLog κ → List UInt8 → Prop} {s : Session κ} {e : Event} {b : Subpacket} {n : Nat}

omit [DecidableEq κ] in
theorem Tracks.current_not_mem (h : Tracks s) {f : FileLog κ} (hf : s.ledger.current = some f) :
    f.key ∉ s.ledger.closed.map (·.key) := by
  have hnodup := h.distinct
  rw [Ledger.created, Ledger.all, hf] at hnodup
  exact (List.nodup_cons.mp hnodup).1

theorem eachFile_write (h : EachFile P s.files s.ledger.all) (ht : Tracks s) (hc : Counted s)
    (hd : s.InData)
    (hw : ∀ f c, c.length = s.received → P f c →
      P { f with origin := f.origin ++ Ledger.labels b n } (c ++ b.payload.take n)) :
    EachFile P (writeBlock b n s).files (writeBlock b n s).ledger.all := by
  obtain ⟨f, c, hf, hfile, hlen, hb⟩ := writeBlock_open ht hc hd b n
  have hall : s.ledger.all = f :: s.ledger.closed := by rw [Ledger.all, hf]; rfl
  have hwrote : (s.ledger.wrote b n).all =
      { f with origin := f.origin ++ Ledger.labels b n } :: s.ledger.closed := by
    rw [Ledger.all, Ledger.wrote, hf]
    rfl
  rw [hall] at h
  rw [hb]
  simp only [hwrote]
  intro g hg c' hc'
  rcases List.mem_cons.mp hg with rfl | hold
  · rw [Function.update_self] at hc'
    obtain rfl := Option.some.inj hc'
    exact hw f c hlen (h f List.mem_cons_self c hfile)
  · exact h.mem.update (ht.current_not_mem hf) _ g hold c' hc'

omit [DecidableEq κ] in
theorem eachFile_eof (h : EachFile P s.files s.ledger.all) (p : Nat)
    (hm : ∀ f c, P f c → P { f with eofs := p :: f.eofs } c) :
    EachFile P s.files (s.ledger.eof p).all := by
  cases hcur : s.ledger.current with
  | none =>
      rw [Ledger.all, hcur] at h
      rw [Ledger.all, Ledger.eof, hcur]
      exact h
  | some f =>
      rw [Ledger.all, hcur] at h
      rw [Ledger.all, Ledger.eof, hcur]
      intro g hg c hc
      rcases List.mem_cons.mp hg with rfl | hold
      · exact hm f c (h f List.mem_cons_self c hc)
      · exact h.mem g hold c hc

theorem eachFile_create {name : CString} (h : EachFile P s.files s.ledger.all) (ht : Tracks s)
    (hp : s.phase = .file) (hfree : s.files (key (claimPath key name n s).path) = none)
    (h₀ : ∀ k, P { key := k } []) :
    EachFile P (createFile key (claimPath key name n s)).files
      (createFile key (claimPath key name n s)).ledger.all := by
  have hn : s.phase ≠ .done := hp ▸ by decide
  have hnew : key (claimPath key name n s).path ∉ s.ledger.all.map (·.key) :=
    fun hm => ht.present hn _ hm hfree
  intro g hg c hc
  rcases List.mem_cons.mp hg with rfl | hold
  · simp only [createFile, Function.update_self] at hc
    obtain rfl := Option.some.inj hc
    exact h₀ _
  · exact h.update hnew _ g hold c hc

/-- A property of the files and their records that one step keeps. -/
theorem eachFile_step (h : EachFile P s.files s.ledger.all) (ht : Tracks s) (hc : Counted s)
    (h₀ : ∀ k, P { key := k } [])
    (hm : ∀ f c p, P f c → P { f with eofs := p :: f.eofs } c)
    (hw : s.InData → ∀ b ∈ delivers s e, ∀ n, n ≤ b.payload.length → ∀ f c, c.length = s.received →
      P f c → P { f with origin := f.origin ++ Ledger.labels b n } (c ++ b.payload.take n)) :
    EachFile P (step key s e).files (step key s e).ledger.all := by
  cases step_moves key s e with
  | keeps hk => rwa [hk.files, hk.ledger]
  | success _ _ hd _ => rwa [hd.files, hd.ledger]
  | marked _ _ p hk =>
      rw [hk.files, hk.ledger]
      exact eachFile_eof h p (fun f c => hm f c p)
  | framed _ _ _ hk =>
      rw [hk.files, hk.ledger]
      exact h
  | refused _ _ _ _ hk =>
      rw [hk.files, hk.ledger]
      exact h
  | opened _ _ _ hp hfree hk =>
      rw [hk.files, hk.ledger]
      exact eachFile_create key h ht hp hfree h₀
  | wrote b hb hd _ hk =>
      rw [hk.files, hk.ledger]
      exact eachFile_write h ht hc hd (hw hd b hb _ (Nat.le_refl _))
  | short b n hb hd _ hn hk _ =>
      rw [hk.files, hk.ledger]
      exact eachFile_write h ht hc hd (hw hd b hb n hn)
  | cleaned os _ _ he =>
      rw [he, cleanUp_ledger]
      exact h.cleanUp key os

end Rule

section Offsets

variable {s s' : Session κ} {e : Event}

/-- The write position is where the accepted ZDATA header put it, and the bytes since. -/
def Aligned (s : Session κ) : Prop :=
  s.InData → s.ledger.stream + s.ledger.delivered = s.received

omit [DecidableEq κ] in
theorem Aligned.keeps (h : Aligned s) (hk : Keeps s s') : Aligned s' := by
  intro hd
  rw [hk.ledger, hk.received]
  exact h (hk.data hd)

theorem aligned_step (h : Aligned s) (ht : Tracks s) (hc : Counted s) : Aligned (step key s e) := by
  have hstopped : ∀ t : Session κ, ¬ t.Running → Aligned t := fun t hr hd => absurd hd.running hr
  cases step_moves key s e with
  | keeps hk => exact h.keeps hk
  | success _ _ _ hs => exact hstopped _ hs
  | marked _ _ p hk => exact Aligned.keeps (s := mark p s) h hk
  | framed _ _ _ hk => exact Aligned.keeps (s := frame s.received s) (fun _ => rfl) hk
  | refused _ _ _ _ _ hs => exact hstopped _ hs
  | opened name n _ hp _ hk =>
      exact Aligned.keeps (s := createFile key (claimPath key name n s))
        (fun hd => absurd hd (not_inData_file hp)) hk
  | wrote b _ hd _ hk =>
      refine Aligned.keeps ?_ hk
      obtain ⟨_, _, _, _, _, hw⟩ := writeBlock_open ht hc hd b b.payload.length
      rw [hw]
      intro _
      have := h hd
      simp only [advance, Ledger.wrote]
      omega
  | short _ _ _ _ _ _ _ hs => exact hstopped _ hs
  | cleaned os _ _ he =>
      rw [he]
      exact hstopped _ (fun hr => hr.2 (cleanUp_phase key os s))

/-- A subpacket read in a data frame is the next one of the stream whose header opened the frame. -/
def InStream (s : Session κ) (e : Event) : Prop :=
  ∀ b ∈ delivers s e, b.stream = s.ledger.stream ∧ b.before = s.ledger.delivered

instance (s : Session κ) (e : Event) : Decidable (InStream s e) :=
  inferInstanceAs (Decidable (∀ b ∈ delivers s e, _ ∧ _))

/-- A subpacket read in a data frame is the piece of `F` at the place its stream gives it. -/
def SliceOf (F : List UInt8) (s : Session κ) (e : Event) : Prop :=
  ∀ b ∈ delivers s e, b.payload <+: F.drop (b.stream + b.before)

instance (F : List UInt8) (s : Session κ) (e : Event) : Decidable (SliceOf F s e) :=
  inferInstanceAs (Decidable (∀ b ∈ delivers s e, _))

/-- Each byte of the file has a label, and stands at the offset that its label names. -/
def Sourced (f : FileLog κ) (c : List UInt8) : Prop :=
  c.length = f.origin.length ∧ ∀ o p b : Nat, f.origin[o]? = some (p, b) → p + b = o

theorem labels_getElem? {b : Subpacket} {n i p q : Nat}
    (h : (Ledger.labels b n)[i]? = some (p, q)) : p = b.stream ∧ q = b.before + i := by
  rw [Ledger.labels, List.getElem?_map, Option.map_eq_some_iff] at h
  obtain ⟨j, hj, hpq⟩ := h
  obtain ⟨hlt, hval⟩ := List.getElem?_eq_some_iff.mp hj
  rw [List.getElem_range] at hval
  subst hval
  exact ⟨(congrArg Prod.fst hpq).symm, (congrArg Prod.snd hpq).symm⟩

omit [DecidableEq κ] in
theorem sourced_write {b : Subpacket} {n : Nat} (hn : n ≤ b.payload.length) {f : FileLog κ}
    {c : List UInt8} (h : Sourced f c) (hpos : b.stream + b.before = c.length) :
    Sourced { f with origin := f.origin ++ Ledger.labels b n } (c ++ b.payload.take n) := by
  obtain ⟨hlen, hlabel⟩ := h
  refine ⟨?_, fun o p q ho => ?_⟩
  · simp only [Ledger.labels, List.length_append, List.length_take, List.length_map,
      List.length_range, hlen]
    omega
  · by_cases hold : o < f.origin.length
    · rw [List.getElem?_append_left hold] at ho
      exact hlabel o p q ho
    · rw [List.getElem?_append_right (by omega)] at ho
      obtain ⟨rfl, rfl⟩ := labels_getElem? ho
      omega

omit [DecidableEq κ] in
theorem prefix_write {F c piece : List UInt8} {n : Nat} (hc : c <+: F)
    (hp : piece <+: F.drop c.length) : c ++ piece.take n <+: F := by
  obtain ⟨rest, rfl⟩ := hc
  rw [List.drop_left] at hp
  exact (List.prefix_append_right_inj c).mpr ((List.take_prefix n piece).trans hp)

/-- The invariant of a session whose data frames are read without a gap. -/
structure InOrder (s : Session κ) : Prop where
  tracks : Tracks s
  counted : Counted s
  aligned : Aligned s
  sourced : EachFile Sourced s.files s.ledger.all

omit [DecidableEq κ] in
theorem inOrder_start (dir : CString) (files : κ → Option (List UInt8)) (os : Os) :
    InOrder (start dir files os) := by
  obtain ⟨ht, hc⟩ := tracks_start dir files os
  refine ⟨ht, hc, fun hd => ?_, fun f hf => absurd hf List.not_mem_nil⟩
  rcases hd with hd | hd <;> cases hd

theorem inOrder_step (h : InOrder s) (hg : InStream s e) : InOrder (step key s e) := by
  obtain ⟨ht, hc, ha, hs⟩ := h
  obtain ⟨ht', hc'⟩ := tracks_step key e ht hc
  refine ⟨ht', hc', aligned_step key ha ht hc, ?_⟩
  refine eachFile_step key hs ht hc (fun _ => ⟨rfl, fun o p b h => by cases h⟩) (fun _ _ _ h => h) ?_
  intro hd b hb n hn f c hlen hf
  obtain ⟨hstream, hbefore⟩ := hg b hb
  refine sourced_write hn hf ?_
  rw [hstream, hbefore, hlen]
  exact ha hd

theorem prefix_step {F : List UInt8} (h : InOrder s)
    (hF : EachFile (fun _ c => c <+: F) s.files s.ledger.all) (hg : InStream s e)
    (hslice : SliceOf F s e) :
    EachFile (fun _ c => c <+: F) (step key s e).files (step key s e).ledger.all := by
  refine eachFile_step key hF h.tracks h.counted (fun _ => List.nil_prefix) (fun _ _ _ h => h) ?_
  intro hd b hb n _ f c hlen hf
  obtain ⟨hstream, hbefore⟩ := hg b hb
  refine prefix_write hf ?_
  rw [hlen, ← h.aligned hd, ← hstream, ← hbefore]
  exact hslice b hb

/-- A subpacket that ended in an error leaves the files and their records alone. -/
theorem step_error (s : Session κ) (z : ZError) (os : Os) :
    (step key s (.block (.error z) os)).files = s.files ∧
      (step key s (.block (.error z) os)).ledger = s.ledger := by
  cases step_moves key s (.block (.error z) os) with
  | keeps hk => exact ⟨hk.files, hk.ledger⟩
  | success _ hf => cases hf
  | marked he => cases he
  | framed he => cases he
  | refused _ _ ho => cases ho
  | opened _ _ ho => cases ho
  | wrote _ hb => cases hb
  | short _ _ hb => cases hb
  | cleaned _ he => cases he

/-- Along every session in which the subpackets of each accepted data frame are read without a gap,
each byte written stands at the offset that the position of its stream and the bytes before it there
give. Where the streams are slices of `F`, every file is at every moment a prefix of `F`. A subpacket
that ended in an error wrote nothing. -/
theorem session_offsets (dir : CString) (files : κ → Option (List UInt8)) (os : Os) {es : List Event}
    (hes : Machine.Guarded (step key) InStream (start dir files os) es) :
    let s := Machine.run (step key) (start dir files os) es
    EachFile Sourced s.files s.ledger.all ∧
      (∀ F, Machine.Guarded (step key) (SliceOf F) (start dir files os) es →
        EachFile (fun _ c => c <+: F) s.files s.ledger.all) ∧
      ∀ z os', (step key s (.block (.error z) os')).files = s.files ∧
        (step key s (.block (.error z) os')).ledger = s.ledger := by
  have hstart := inOrder_start dir files os
  refine ⟨?_, fun F hF => ?_, step_error key _⟩
  · exact (Machine.run_inv_of_guarded (I := InOrder) (fun _ _ h hg => inOrder_step key h hg) hstart
      hes).sourced
  · have hboth := Machine.Guarded.and hes hF
    exact (Machine.run_inv_of_guarded
      (I := fun s => InOrder s ∧ EachFile (fun _ c => c <+: F) s.files s.ledger.all)
      (fun _ _ h hg => ⟨inOrder_step key h.1 hg.1, prefix_step key h.1 h.2 hg.1 hg.2⟩)
      ⟨hstart, fun f hf => absurd hf List.not_mem_nil⟩ hboth).2

/-- Two subpackets of one stream, with the header of the stream sent again between frames. -/
theorem session_offsets_two :
    let s := Machine.run (step id) (start (ascii "d") (fun _ : CString => none) {})
      (offerEvents (nameBlock 0x61) ++ [.block (.ok (oneByte 1 .crcg 0)) {}, .turn {},
        .block (.ok (oneByte 2 .crce 1)) {}, .turn {}, .header (.ok ⟨0x0a, 0⟩) {}])
    EachFile (fun _ c => c <+: [1, 2, 3]) s.files s.ledger.all :=
  (session_offsets id (ascii "d") (fun _ => none) {} (by decide)).2.1 [1, 2, 3]
    (by decide)

/-- A whole subpacket lost inside a stream is not noticed: what follows it is written in its place. -/
theorem session_offsets_gap :
    let es := offerEvents (nameBlock 0x61) ++ [.block (.ok (oneByte 2 .crce 1)) {}]
    let s := Machine.run (step id) (start (ascii "d") (fun _ : CString => none) {}) es
    Machine.Guarded (step id) (SliceOf [1, 2]) (start (ascii "d") (fun _ : CString => none) {}) es ∧
      s.files (plainPath (ascii "d") (ascii "a") maxPath) = some [2] ∧ ¬ [2] <+: [1, 2] ∧
      s.ledger.current.map (·.origin) = some [(0, 1)] := by
  decide

end Offsets

section Completeness

variable {s s' : Session κ} {e : Event}

/-- A ZEOF came for the file whose position is the length of the file. -/
def Named (f : FileLog κ) (c : List UInt8) : Prop := c.length ∈ f.eofs

/-- The end of the session, and the start of a file, come after a ZEOF for the file at hand that
names the bytes received. -/
def Ended (s : Session κ) (e : Event) : Prop :=
  (offers s e).isSome = true ∨ finishes s e = true → ∀ f ∈ s.ledger.current, s.received ∈ f.eofs

instance (s : Session κ) (e : Event) : Decidable (Ended s e) :=
  inferInstanceAs (Decidable (_ ∨ _ → ∀ f ∈ s.ledger.current, s.received ∈ f.eofs))

/-- The files before the current one are whole, and after a success all are. -/
structure Complete (s : Session κ) : Prop where
  closed : EachFile Named s.files s.ledger.closed
  success : s.status = .ok → EachFile Named s.files s.ledger.all
  live : s.Running → s.status ≠ .ok

omit [DecidableEq κ] in
theorem Complete.keeps (h : Complete s) (hk : Keeps s s') : Complete s' := by
  refine ⟨?_, fun hs => ?_, fun hr hs => h.live (hk.running hr) (hk.live hs)⟩
  · rw [hk.files, hk.ledger]
    exact h.closed
  · rw [hk.files, hk.ledger]
    exact h.success (hk.live hs)

omit [DecidableEq κ] in
/-- Where a ZEOF named the bytes received, the current file is whole too. -/
theorem complete_all (h : Complete s) (ht : Tracks s) (hc : Counted s) (hr : s.Running)
    (heof : ∀ f ∈ s.ledger.current, s.received ∈ f.eofs) : EachFile Named s.files s.ledger.all := by
  intro f hf c hfile
  rcases List.mem_append.mp hf with hcur | hold
  · have hcur := Option.mem_toList.mp hcur
    have hout := ht.current hr.undone
    rw [Option.mem_def.mp hcur] at hout
    obtain ⟨c', hc', hlen⟩ := hc hr f.key hout
    obtain rfl := Option.some.inj (hfile.symm.trans hc')
    rw [Named, hlen]
    exact heof f hcur
  · exact h.closed f hold c hfile

theorem complete_step (h : Complete s) (ht : Tracks s) (hc : Counted s) (hg : Ended s e) :
    Complete (step key s e) := by
  have hclaim : ∀ name n, offers s e = some name → s.phase = .file →
      Complete (claimPath key name n s) := by
    intro name n ho hp
    have hr : s.Running := running_of_phase hp (by decide)
    have hall := complete_all h ht hc hr (hg (.inl (by rw [ho]; rfl)))
    exact ⟨hall, fun _ => hall, fun _ => h.live hr⟩
  have hwrite : s.InData → ∀ b n, Complete (writeBlock b n s) := by
    intro hd b n
    obtain ⟨f, c, hf, hfile, hlen, hw⟩ := writeBlock_open ht hc hd b n
    rw [hw]
    exact ⟨h.closed.update (ht.current_not_mem hf) _, fun hs => absurd hs (h.live hd.running),
      fun _ => h.live hd.running⟩
  cases step_moves key s e with
  | keeps hk => exact h.keeps hk
  | success hr hf hd hs =>
      refine ⟨?_, fun _ => ?_, fun hr => absurd hr hs⟩
      · rw [hd.files, hd.ledger]
        exact h.closed
      · rw [hd.files, hd.ledger]
        exact complete_all h ht hc hr (hg (.inr hf))
  | marked _ hr p hk =>
      exact Complete.keeps (s := mark p s)
        ⟨h.closed, fun hs => absurd hs (h.live hr), fun _ => h.live hr⟩ hk
  | framed _ hr _ hk =>
      exact Complete.keeps (s := frame s.received s)
        ⟨h.closed, fun hs => absurd hs (h.live hr), fun _ => h.live hr⟩ hk
  | refused name n ho hp hk => exact (hclaim name n ho hp).keeps hk
  | opened name n ho hp hfree hk =>
      have hr : s.Running := running_of_phase hp (by decide)
      have hcl := hclaim name n ho hp
      refine Complete.keeps (s := createFile key (claimPath key name n s)) ⟨?_, ?_, ?_⟩ hk
      · exact hcl.closed.update (fun hm => ht.present hr.undone _ hm hfree) _
      · exact fun hs => absurd hs (h.live hr)
      · exact fun _ => h.live hr
  | wrote b _ hd _ hk =>
      have hw := hwrite hd b b.payload.length
      exact Complete.keeps (s := advance _ _) ⟨hw.closed, hw.success, hw.live⟩ hk
  | short b n _ hd _ _ hk => exact (hwrite hd b n).keeps hk
  | cleaned os _ _ he =>
      rw [he]
      refine ⟨?_, fun hs => ?_, fun hr => absurd (cleanUp_phase key os s) hr.2⟩
      · rw [cleanUp_ledger]
        exact h.closed.cleanUp key os
      · rw [cleanUp_status] at hs
        rw [cleanUp_ledger]
        exact (h.success hs).cleanUp key os

/-- Along every session that leaves no file without a ZEOF that names its length, a success means
that each file created and still there has one. -/
theorem session_complete (dir : CString) (files : κ → Option (List UInt8)) (os : Os)
    {es : List Event}
    (hes : Machine.Guarded (step key) Ended (start dir files os) es) :
    let s := Machine.run (step key) (start dir files os) es
    s.status = .ok → EachFile Named s.files s.ledger.all := by
  have hstatus : (start dir files os).status ≠ .ok := by
    intro hs
    cases hs
  have hstart : Complete (start dir files os) :=
    ⟨fun f hf => absurd hf List.not_mem_nil, fun hs => absurd hs hstatus, fun _ => hstatus⟩
  exact (Machine.run_inv_of_guarded (I := fun s => Complete s ∧ Tracks s ∧ Counted s)
    (fun _ e h hg => ⟨complete_step key h.1 h.2.1 h.2.2 hg, tracks_step key e h.2.1 h.2.2⟩)
    ⟨hstart, tracks_start dir files os⟩ hes).1.success

/-- A file of one byte with its ZEOF at 1. -/
theorem session_complete_one :
    let s := Machine.run (step id) (start (ascii "d") (fun _ : CString => none) {})
      (offerEvents (nameBlock 0x61) ++ [.block (.ok (oneByte 1 .crce 0)) {}, .turn {},
        .header (.ok ⟨0x0b, 1⟩) {}, .turn {}, .header (.ok ⟨0x08, 0⟩) {}, .turn {}])
    s.status = .ok ∧ EachFile Named s.files s.ledger.all :=
  ⟨by decide, session_complete id (ascii "d") (fun _ => none) {} (by decide)
    (by decide)⟩

/-- A ZFIN in the middle of a file, with no ZEOF at all, is a success that leaves the file there. -/
theorem session_complete_partial :
    let s := Machine.run (step id) (start (ascii "d") (fun _ : CString => none) {})
      (offerEvents (nameBlock 0x61) ++ [.block (.ok (oneByte 1 .crce 0)) {}, .turn {},
        .header (.ok ⟨0x08, 0⟩) {}, .turn {}])
    s.phase = .done ∧ s.status = .ok ∧
      s.files (plainPath (ascii "d") (ascii "a") maxPath) = some [1] ∧
      s.ledger.current.map (·.eofs) = some [] := by
  decide

end Completeness

end UnicornSuite.Zmodem
