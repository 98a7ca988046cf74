import UnicornSuite.UpdateSafety

/-! The mode of a check (`suite_update.c`). `start_check` writes `g_check_mode` before it tries the flag,
and the check thread reads it when it has its result, so here a call and a thread are taken apart where
another thread can come between. A refused call with another mode changes what the running check is taken
for (`refused_takes_effect`); nothing else does (`modes_attributed`). -/

namespace UnicornSuite.Update

open CText

/-- What happens, in the order in which it happens. -/
inductive ModeEvent where
  /-- `start_check` up to the write of `g_check_mode`, and from the flag on. -/
  | enter (mode : Mode)
  | claim (spawn : Bool)
  /-- `check_thread` up to the read of `g_check_mode`, and from `PostMessage` on. -/
  | take (i : Nat) (alloc : Bool) (fetched : Except CString (List UInt8))
  | post (i : Nat) (posts : Bool)
  /-- A download goes on, the window takes a message, the innermost modal window closes. -/
  | work (i : Nat) (t : WorkerTurn)
  | deliver
  | answer (a : Answer)

structure ModeRun where
  u : Updater
  /-- The call of `start_check` that has not tried the flag yet. -/
  entered : Option Mode
  /-- The result of the check thread, with its mode, before it is posted. -/
  taken : Option UpdResult
  /-- The mode passed to the call that launched the last check thread; no branch reads it. -/
  launchedAs : Mode
  /-- Each result with the mode passed to the call that launched its thread; no branch reads it. -/
  results : List (Mode × UpdResult)

namespace Updater

/-- `start_check` behind the write of the mode. -/
def claim (s : Updater) (mode : Mode) (spawn : Bool) : Updater :=
  if s.busy then s
  else if spawn then { s with busy := true, workers := .check :: s.workers }
  else if mode = .manual then s.push .note
  else s

theorem startCheck_eq (s : Updater) (mode : Mode) (spawn : Bool) :
    s.startCheck mode spawn = { s with checkMode := mode }.claim mode spawn := rfl

/-- The check thread is there. -/
abbrev Checks (s : Updater) : Prop := Worker.check ∈ s.workers

end Updater

namespace ModeRun

variable (sha256 : List UInt8 → CString)

def enter (s : ModeRun) (mode : Mode) : ModeRun :=
  { s with u := { s.u with checkMode := mode }, entered := some mode }

def claim (s : ModeRun) (mode : Mode) (spawn : Bool) : ModeRun :=
  { s with
    u := s.u.claim mode spawn
    entered := none
    launchedAs := if s.u.busy = false ∧ spawn then mode else s.launchedAs }

def take (s : ModeRun) (i : Nat) (alloc : Bool) (fetched : Except CString (List UInt8)) : ModeRun :=
  if ¬ alloc then { s with u := s.u.checkThread i { alloc := false } }
  else
    let r := checkResult s.u.checkMode fetched
    { s with taken := some r, results := s.results ++ [(s.launchedAs, r)] }

def post (s : ModeRun) (i : Nat) (posts : Bool) (r : UpdResult) : ModeRun :=
  { s with u := s.u.leave i posts (.result r), taken := none }

/-- What cannot happen now does nothing: the window's thread is in one call at a time. -/
def step (s : ModeRun) : ModeEvent → ModeRun
  | .enter mode => if s.entered = none then s.enter mode else s
  | .claim spawn =>
      match s.entered with
      | some mode => s.claim mode spawn
      | none => s
  | .take i alloc fetched =>
      match s.u.workers[i]?, s.taken with
      | some .check, none => s.take i alloc fetched
      | _, _ => s
  | .post i posts =>
      match s.u.workers[i]?, s.taken with
      | some .check, some r => s.post i posts r
      | _, _ => s
  | .work i t =>
      match s.u.workers[i]? with
      | some .check => s
      | _ => { s with u := s.u.work sha256 i t }
  | .deliver => if s.entered = none then { s with u := s.u.deliver } else s
  | .answer a => if s.entered = none then { s with u := s.u.close a } else s

end ModeRun

/-- The Suite that has just started. -/
def startModeRun (skipped : Option CString) (disk : CString → Option (List UInt8)) : ModeRun where
  u := startUpdater skipped disk
  entered := none
  taken := none
  launchedAs := .manual
  results := []

namespace ModeRun

variable {sha256 : List UInt8 → CString} {s : ModeRun}

/-- A check is running that has not read its mode yet. -/
def Undecided (s : ModeRun) : Prop := s.u.Checks ∧ s.taken = none

/-- Every result has the mode of the call that launched its thread, the messages carry such results only,
and the check that is running is still the check it was launched as. -/
structure Attributed (s : ModeRun) : Prop where
  results : ∀ p ∈ s.results, p.2.mode = p.1
  posted : ∀ r, Message.result r ∈ s.u.posted → ∃ mode, (mode, r) ∈ s.results
  running : s.Undecided → s.u.checkMode = s.launchedAs

/-- The condition on a call: it does not ask for another mode while a check is running that has not read
its mode. -/
def CallFits (s : ModeRun) : ModeEvent → Prop
  | .enter mode => s.entered = none → s.Undecided → mode = s.launchedAs
  | _ => True

/-- What the flag and the calls keep. -/
structure Inv (sha256 : List UInt8 → CString) (s : ModeRun) : Prop where
  sound : s.u.Sound sha256
  attributed : s.Attributed
  entered : ∀ mode, s.entered = some mode → s.u.checkMode = mode
  taken : ∀ r, s.taken = some r →
    s.u.Checks ∧ (r.ok = true → Updater.ResultSound r) ∧ ∃ mode, (mode, r) ∈ s.results

/-- An operation of the updater that does not concern the check. -/
structure Aside (u u' : Updater) : Prop where
  checkMode : u'.checkMode = u.checkMode
  checks : u'.Checks ↔ u.Checks
  posted : ∀ r, Message.result r ∈ u'.posted → Message.result r ∈ u.posted

section Aside

variable {u u' : Updater}

theorem Aside.of_eq (hmode : u'.checkMode = u.checkMode) (hw : u'.workers = u.workers)
    (hp : u'.posted = u.posted) : Aside u u' :=
  ⟨hmode, by rw [Updater.Checks, hw], fun _ hr => by rwa [hp] at hr⟩

/-- A worker of a download goes on. -/
theorem Aside.becomes {w w' : Worker} (hw : u.workers = [w]) (hw' : u'.workers = u.workers.set 0 w')
    (hmode : u'.checkMode = u.checkMode) (hp : u'.posted = u.posted) (hne : w ≠ .check)
    (hne' : w' ≠ .check) : Aside u u' := by
  refine ⟨hmode, ?_, fun _ hr => by rwa [hp] at hr⟩
  rw [Updater.Checks, Updater.Checks, hw', hw, List.set_cons_zero, List.mem_singleton,
    List.mem_singleton]
  exact iff_of_false hne'.symm hne.symm

theorem not_checks_of_nil (hw : u.workers = []) : ¬ u.Checks := by
  rw [Updater.Checks, hw]
  exact List.not_mem_nil

theorem aside_work (h : u.Sound sha256) {i : Nat} (hne : u.workers[i]? ≠ some .check)
    (t : WorkerTurn) : Aside u (u.work sha256 i t) := by
  unfold Updater.work
  split
  · exact .of_eq rfl rfl rfl
  · contradiction
  · rename_i m hw
    obtain ⟨-, rfl, hw, -⟩ := h.worker hw
    unfold Updater.fetchFile
    split
    · exact .becomes hw rfl rfl rfl nofun nofun
    · simp only
      split
      · exact .becomes hw rfl rfl rfl nofun nofun
      · exact .becomes hw rfl rfl rfl nofun nofun
  · rename_i d hw
    obtain ⟨-, rfl, hw, -⟩ := h.worker hw
    unfold Updater.verifyFile
    simp only
    split
    · exact .becomes hw rfl rfl rfl nofun nofun
    · split
      · exact .becomes hw rfl rfl rfl nofun nofun
      · exact .becomes hw rfl rfl rfl nofun nofun
  · rename_i d hw
    obtain ⟨-, rfl, hw, hp, -⟩ := h.worker hw
    have hgone : u.workers.eraseIdx 0 = [] := by
      rw [hw]
      rfl
    have hchecks : ¬ Worker.check ∈ u.workers := by
      rw [hw]
      simp
    unfold Updater.leave
    simp only
    split
    · refine ⟨rfl, iff_of_false (not_checks_of_nil hgone) hchecks, fun r hr => ?_⟩
      simp [hp] at hr
    · exact ⟨rfl, iff_of_false (not_checks_of_nil hgone) hchecks, fun r hr => hr⟩

/-- The handlers of the window touch the flag, the offer and the frames. -/
theorem aside_onResult (u : Updater) (r : UpdResult) : Aside u (u.onResult r) := by
  unfold Updater.onResult Updater.report
  split_ifs <;> exact .of_eq rfl rfl rfl

theorem aside_deliver (u : Updater) : Aside u u.deliver := by
  unfold Updater.deliver
  split
  · exact .of_eq rfl rfl rfl
  · rename_i r rest hp
    have hresult := aside_onResult { u with posted := rest } r
    exact ⟨hresult.checkMode, hresult.checks, fun r' hr' => by
      rw [hp]
      exact .tail _ (hresult.posted r' hr')⟩
  · rename_i d rest hp
    unfold Updater.onDownloadDone
    split
    all_goals
      refine ⟨rfl, Iff.rfl, fun r' hr' => ?_⟩
      rw [hp]
      exact .tail _ hr'

theorem aside_startDownload (u : Updater) (a : Answer) (m : UpdManifest) :
    Aside u (u.startDownload a m) := by
  unfold Updater.startDownload
  split_ifs
  · exact ⟨rfl, by simp [Updater.Checks], fun _ hr => hr⟩
  · exact .of_eq rfl rfl rfl
  · exact .of_eq rfl rfl rfl

theorem aside_close (u : Updater) (a : Answer) : Aside u (u.close a) := by
  unfold Updater.close
  split
  · exact .of_eq rfl rfl rfl
  · exact .of_eq rfl rfl rfl
  · exact .of_eq rfl rfl rfl
  · rename_i shown version rest hframes
    simp only
    split_ifs
    · have hdownload := aside_startDownload { u with frames := rest, accepted := some shown } a u.pending
      exact ⟨hdownload.checkMode, hdownload.checks, hdownload.posted⟩
    · exact .of_eq rfl rfl rfl
    · exact .of_eq rfl rfl rfl
  · simp only
    split_ifs
    · unfold Updater.launch
      split_ifs <;> exact .of_eq rfl rfl rfl
    · exact .of_eq rfl rfl rfl

theorem Inv.aside (h : s.Inv sha256) (hsound : u'.Sound sha256) (haside : Aside s.u u') :
    Inv sha256 { s with u := u' } where
  sound := hsound
  attributed :=
    ⟨h.attributed.results, fun r hr => h.attributed.posted r (haside.posted r hr), fun hrun =>
      haside.checkMode.trans (h.attributed.running ⟨haside.checks.mp hrun.1, hrun.2⟩)⟩
  entered mode hmode := haside.checkMode.trans (h.entered mode hmode)
  taken r hr := by
    obtain ⟨hchecks, hrest⟩ := h.taken r hr
    exact ⟨haside.checks.mpr hchecks, hrest⟩

end Aside

/-! ### The steps of a check -/

/-- A call writes its mode; it is the mode of the running check already, or no check has to read it. -/
theorem Inv.enter (h : s.Inv sha256) {mode : Mode} (hfits : s.Undecided → mode = s.launchedAs) :
    Inv sha256 (s.enter mode) where
  sound := h.sound.congr rfl rfl rfl rfl rfl rfl rfl rfl
  attributed := ⟨h.attributed.results, h.attributed.posted, hfits⟩
  entered _ hmode := Option.some.inj hmode
  taken := h.taken

theorem Inv.claim (h : s.Inv sha256) {mode : Mode} (hentered : s.entered = some mode) (spawn : Bool) :
    Inv sha256 (s.claim mode spawn) := by
  have hmode := h.entered mode hentered
  have hsame : { s.u with checkMode := mode } = s.u := by rw [← hmode]
  have hsound : (s.u.claim mode spawn).Sound sha256 := by
    have hcheck := h.sound.startCheck mode spawn
    rwa [Updater.startCheck_eq, hsame] at hcheck
  by_cases hlaunch : s.u.busy = false ∧ spawn = true
  · -- The flag was free, so no thread is there, and the new one is launched with this mode.
    obtain ⟨hfree, hspawn⟩ := hlaunch
    obtain ⟨hw, hp, -⟩ := h.sound.idle hfree
    have hu : s.u.claim mode spawn = { s.u with busy := true, workers := .check :: s.u.workers } := by
      rw [Updater.claim, if_neg (by simp [hfree]), if_pos hspawn]
    refine ⟨hsound, ⟨h.attributed.results, ?_, ?_⟩, nofun, ?_⟩
    · intro r hr
      have hr' : Message.result r ∈ (s.u.claim mode spawn).posted := hr
      rw [hu] at hr'
      exact h.attributed.posted r hr'
    · intro _
      have hrun : (s.u.claim mode spawn).checkMode = mode := by rw [hu]; exact hmode
      exact hrun.trans (if_pos ⟨hfree, hspawn⟩).symm
    · intro r hr
      have hnone := (h.taken r hr).1
      rw [Updater.Checks, hw] at hnone
      cases hnone
  · -- A refused call, or one whose thread could not be created.
    have haside : Aside s.u (s.u.claim mode spawn) := by
      unfold Updater.claim
      split_ifs with hbusy hspawn
      · exact .of_eq rfl rfl rfl
      · exact absurd ⟨by simpa using hbusy, hspawn⟩ hlaunch
      · exact .of_eq rfl rfl rfl
      · exact .of_eq rfl rfl rfl
    have hkept : s.launchedAs = (s.claim mode spawn).launchedAs := (if_neg hlaunch).symm
    have hinv := h.aside hsound haside
    exact ⟨hsound, ⟨hinv.attributed.results, hinv.attributed.posted, fun hrun =>
      (hinv.attributed.running hrun).trans hkept⟩, nofun, hinv.taken⟩

/-- The check thread reads the mode that it was launched with. -/
theorem Inv.take (h : s.Inv sha256) {i : Nat} (hw : s.u.workers[i]? = some .check)
    (htaken : s.taken = none) (alloc : Bool) (fetched : Except CString (List UInt8)) :
    Inv sha256 (s.take i alloc fetched) := by
  have hchecks : s.u.Checks := List.mem_of_getElem? hw
  obtain ⟨hb, rfl, hone, hp, hf, -⟩ := h.sound.worker hw
  unfold ModeRun.take
  split_ifs
  · refine ⟨h.sound, ⟨?_, ?_, ?_⟩, h.entered, ?_⟩
    · intro p hmem
      rcases List.mem_append.mp hmem with hmem | hmem
      · exact h.attributed.results p hmem
      · rw [List.mem_singleton.mp hmem]
        have hmode : (checkResult s.u.checkMode fetched).mode = s.u.checkMode := by
          unfold checkResult
          split
          · rfl
          · split <;> rfl
        exact hmode.trans (h.attributed.running ⟨hchecks, htaken⟩)
    · intro r hr
      obtain ⟨mode, hmem⟩ := h.attributed.posted r hr
      exact ⟨mode, List.mem_append_left _ hmem⟩
    · intro hrun
      exact nomatch hrun.2
    · intro r hr
      cases hr
      exact ⟨hchecks, Updater.checkResult_sound _ _,
        s.launchedAs, List.mem_append_right _ (List.mem_singleton_self _)⟩
  · have hsound := h.sound.checkThread hone hp hf hb { alloc := false }
    have hworkers : s.u.workers.eraseIdx 0 = [] := by
      rw [hone]
      rfl
    have hgone : ¬ (s.u.checkThread 0 { alloc := false }).Checks := not_checks_of_nil hworkers
    refine ⟨hsound, ⟨h.attributed.results, h.attributed.posted, ?_⟩,
      h.entered, ?_⟩
    · intro hrun
      exact absurd hrun.1 hgone
    · intro r hr
      rw [htaken] at hr
      cases hr

theorem Inv.post (h : s.Inv sha256) {i : Nat} {r : UpdResult} (hw : s.u.workers[i]? = some .check)
    (htaken : s.taken = some r) (posts : Bool) : Inv sha256 (s.post i posts r) := by
  obtain ⟨-, hsound, mode, hmem⟩ := h.taken r htaken
  obtain ⟨hb, rfl, hone, hp, hf, -⟩ := h.sound.worker hw
  have hworkers : (s.u.leave 0 posts (.result r)).workers = [] := by
    unfold Updater.leave
    simp only
    split <;> simp [Updater.release, hone]
  have hgone : ¬ (s.u.leave 0 posts (.result r)).Checks := not_checks_of_nil hworkers
  have hcheckMode : (s.u.leave 0 posts (.result r)).checkMode = s.u.checkMode := by
    unfold Updater.leave
    simp only
    split <;> rfl
  refine ⟨h.sound.leave hone hp hf hb hsound, ⟨h.attributed.results, ?_, ?_⟩, ?_, nofun⟩
  · intro r' hr'
    have hin : Message.result r' ∈ s.u.posted ++ [.result r] := by
      have hr'' : Message.result r' ∈ (s.u.leave 0 posts (.result r)).posted := hr'
      unfold Updater.leave at hr''
      simp only at hr''
      split at hr''
      · exact hr''
      · exact List.mem_append_left _ hr''
    rcases List.mem_append.mp hin with hin | hin
    · exact h.attributed.posted r' hin
    · cases List.mem_singleton.mp hin
      exact ⟨mode, hmem⟩
  · intro hrun
    exact absurd hrun.1 hgone
  · intro mode' hmode'
    exact hcheckMode.trans (h.entered mode' hmode')

theorem Inv.step (e : ModeEvent) (h : s.Inv sha256) (hfits : s.CallFits e) :
    Inv sha256 (s.step sha256 e) := by
  cases e with
  | enter mode =>
      unfold ModeRun.step
      simp only
      split_ifs with hfree
      · exact h.enter (hfits hfree)
      · exact h
  | claim spawn =>
      unfold ModeRun.step
      simp only
      split
      · next mode hentered => exact h.claim hentered spawn
      · exact h
  | take i alloc fetched =>
      unfold ModeRun.step
      simp only
      split
      · next hw htaken => exact h.take hw htaken alloc fetched
      · exact h
  | post i posts =>
      unfold ModeRun.step
      simp only
      split
      · next r hw htaken => exact h.post hw htaken posts
      · exact h
  | work i t =>
      unfold ModeRun.step
      simp only
      split
      · exact h
      · next hne => exact h.aside (h.sound.work i t) (aside_work h.sound hne t)
  | deliver =>
      unfold ModeRun.step
      simp only
      split_ifs
      · exact h.aside h.sound.deliver (aside_deliver s.u)
      · exact h
  | answer a =>
      unfold ModeRun.step
      simp only
      split_ifs
      · exact h.aside (h.sound.close a) (aside_close s.u a)
      · exact h

/-- A call with another mode turns the running check into one of its own kind. -/
theorem not_attributed_of_not_callFits {e : ModeEvent} (hmiss : ¬ s.CallFits e) :
    ¬ (s.step sha256 e).Attributed := by
  cases e with
  | enter mode =>
      obtain ⟨hfree, hmiss⟩ := Classical.not_imp.mp hmiss
      obtain ⟨hrun, hne⟩ := Classical.not_imp.mp hmiss
      intro hattributed
      apply hne
      rw [ModeRun.step, if_pos hfree] at hattributed
      exact hattributed.running hrun
  | _ => exact absurd trivial hmiss

end ModeRun

/-- In every order of calls, threads, messages and answers: every result has the mode of the call that
launched its thread, and the running check is still taken for what it was launched as, exactly in the runs
where no call asks for another mode while a check is running that has not read its mode. -/
theorem modes_attributed (sha256 : List UInt8 → CString) (skipped : Option CString)
    (disk : CString → Option (List UInt8)) (es : List ModeEvent) :
    (∀ es', es' <+: es →
        (Machine.run (ModeRun.step sha256) (startModeRun skipped disk) es').Attributed) ↔
      Machine.Guarded (ModeRun.step sha256) ModeRun.CallFits (startModeRun skipped disk) es := by
  have hstart : (startModeRun skipped disk).Inv sha256 :=
    ⟨⟨nofun, .inl ⟨rfl, rfl⟩⟩, ⟨nofun, nofun, fun hrun => nomatch hrun.1⟩, nofun, nofun⟩
  exact Machine.safe_iff_guarded (fun _ e h hfits => h.step e hfits) (fun _ h => h.attributed)
    (fun _ _ _ hmiss => ModeRun.not_attributed_of_not_callFits hmiss) hstart es

/-- The startup check is running, the user asks for a check and is refused, and the result of the startup
check is that of a manual one. -/
theorem refused_takes_effect :
    (Machine.run (ModeRun.step fun _ => []) (startModeRun none fun _ => none)
      [.enter .startup, .claim true, .enter .manual, .claim true, .take 0 true (.error []),
        .post 0 true]).results.map (fun p => (p.1, p.2.mode)) = [(.startup, .manual)] := by
  rfl

end UnicornSuite.Update
