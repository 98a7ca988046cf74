import UnicornSuite.UpdatePipeline

/-! The flag of the updater is the one thing that keeps its checks apart: whatever has it is the only part
of a check or of a download that is under way (`Sound`), so no second check can put another manifest or
another file in the place of those the user was asked about. -/

namespace UnicornSuite.Update

open CText

namespace Updater

variable (sha256 : List UInt8 → CString) {s s' : Updater}

/-- The user has accepted this manifest, and no other since. -/
structure Chosen (s : Updater) (m : UpdManifest) : Prop where
  offerable : Offerable m
  accepted : s.accepted = some m

/-- A download that is called good is: the file has the checksum of the manifest. -/
structure DownloadSound (s : Updater) (d : UpdDownload) : Prop where
  chosen : s.Chosen d.m
  file : d.ok = true → ∃ bytes, s.disk d.path = some bytes ∧
    suiteSha256HexEqual (sha256 bytes) d.m.msiSha256 = true

/-- A result that is called good was read from a manifest. -/
structure ResultSound (r : UpdResult) : Prop where
  read : ∃ doc, readManifest doc = .ok r.m
  cmp : r.cmp = compareVersions suiteVersionStr r.m.version
  placeholder : r.placeholder = isPlaceholder r.m

/-- What holds while this part has the flag. -/
def HolderSound (s : Updater) : Holder → Prop
  | .worker .check => True
  | .worker (.fetch m) => s.Chosen m
  | .worker (.verify d) => s.Chosen d.m
  | .worker (.post d) => s.DownloadSound sha256 d
  | .message (.result r) => r.ok = true → ResultSound r
  | .message (.dlDone d) => s.DownloadSound sha256 d
  | .frame .note => True
  | .frame .closing => True
  | .frame (.offer shown _) => Offerable shown ∧ s.pending = shown
  | .frame (.ready d) => s.DownloadSound sha256 d ∧ d.ok = true

/-- At most one part of the pipeline is under way, and it has the flag. -/
structure Sound (s : Updater) : Prop where
  launches : ∀ l ∈ s.launched, LaunchSafe sha256 l
  held : s.busy = false ∧ s.holders = [] ∨
    s.busy = true ∧ ∃ h, s.holders = [h] ∧ s.HolderSound sha256 h

section Parts

theorem holders_length (s : Updater) :
    s.holders.length = s.workers.length + s.posted.length + (heldFrames s.frames).length := by
  simp only [holders, List.length_append, List.length_map]

/-- Nothing is under way. -/
theorem holders_nil :
    s.holders = [] ↔ s.workers = [] ∧ s.posted = [] ∧ heldFrames s.frames = [] := by
  simp [holders]

theorem holders_worker {w : Worker} (hw : s.workers = [w]) (hp : s.posted = [])
    (hf : heldFrames s.frames = []) : s.holders = [.worker w] := by
  simp [holders, hw, hp, hf]

theorem holders_message {msg : Message} (hw : s.workers = []) (hp : s.posted = [msg])
    (hf : heldFrames s.frames = []) : s.holders = [.message msg] := by
  simp [holders, hw, hp, hf]

theorem holders_frame {f : Frame} (hw : s.workers = []) (hp : s.posted = [])
    (hf : heldFrames s.frames = [f]) : s.holders = [.frame f] := by
  simp [holders, hw, hp, hf]

variable {sha256}

theorem Sound.of_worker {w : Worker} (hl : ∀ l ∈ s.launched, LaunchSafe sha256 l)
    (hb : s.busy = true) (hw : s.workers = [w]) (hp : s.posted = [])
    (hf : heldFrames s.frames = []) (h : s.HolderSound sha256 (.worker w)) : s.Sound sha256 :=
  ⟨hl, .inr ⟨hb, _, holders_worker hw hp hf, h⟩⟩

theorem Sound.of_message {msg : Message} (hl : ∀ l ∈ s.launched, LaunchSafe sha256 l)
    (hb : s.busy = true) (hw : s.workers = []) (hp : s.posted = [msg])
    (hf : heldFrames s.frames = []) (h : s.HolderSound sha256 (.message msg)) : s.Sound sha256 :=
  ⟨hl, .inr ⟨hb, _, holders_message hw hp hf, h⟩⟩

theorem Sound.of_frame {f : Frame} (hl : ∀ l ∈ s.launched, LaunchSafe sha256 l)
    (hb : s.busy = true) (hw : s.workers = []) (hp : s.posted = [])
    (hf : heldFrames s.frames = [f]) (h : s.HolderSound sha256 (.frame f)) : s.Sound sha256 :=
  ⟨hl, .inr ⟨hb, _, holders_frame hw hp hf, h⟩⟩

theorem Sound.of_idle (hl : ∀ l ∈ s.launched, LaunchSafe sha256 l) (hb : s.busy = false)
    (hw : s.workers = []) (hp : s.posted = []) (hf : heldFrames s.frames = []) : s.Sound sha256 :=
  ⟨hl, .inl ⟨hb, holders_nil.mpr ⟨hw, hp, hf⟩⟩⟩

/-- Whoever is under way is alone and has the flag. -/
theorem Sound.alone (h : s.Sound sha256) {k : Holder} (hk : k ∈ s.holders) :
    s.busy = true ∧ s.holders = [k] ∧ s.HolderSound sha256 k := by
  rcases h.held with ⟨-, hnil⟩ | ⟨hb, k', hone, hsound⟩
  · rw [hnil] at hk
    cases hk
  · rw [hone] at hk
    cases List.mem_singleton.mp hk
    exact ⟨hb, hone, hsound⟩

theorem Sound.worker (h : s.Sound sha256) {i : Nat} {w : Worker} (hw : s.workers[i]? = some w) :
    s.busy = true ∧ i = 0 ∧ s.workers = [w] ∧ s.posted = [] ∧ heldFrames s.frames = [] ∧
      s.HolderSound sha256 (.worker w) := by
  have hmem := List.mem_of_getElem? hw
  obtain ⟨hb, hone, hsound⟩ := h.alone (k := .worker w) (by
    simp only [holders, List.mem_append, List.mem_map]
    exact .inl (.inl ⟨w, hmem, rfl⟩))
  have hlength := holders_length s
  rw [hone, List.length_singleton] at hlength
  have hpos := List.length_pos_of_mem hmem
  obtain ⟨w', hw'⟩ := List.length_eq_one_iff.mp (by omega : s.workers.length = 1)
  have hzero : i = 0 := by
    have hlt := (List.getElem?_eq_some_iff.mp hw).1
    omega
  refine ⟨hb, hzero, ?_, List.length_eq_zero_iff.mp (by omega), List.length_eq_zero_iff.mp (by omega),
    hsound⟩
  rw [hzero, hw'] at hw
  rw [hw', Option.some.inj hw]

theorem Sound.message (h : s.Sound sha256) {msg : Message} {rest : List Message}
    (hp : s.posted = msg :: rest) :
    s.busy = true ∧ s.workers = [] ∧ rest = [] ∧ heldFrames s.frames = [] ∧
      s.HolderSound sha256 (.message msg) := by
  obtain ⟨hb, hone, hsound⟩ := h.alone (k := .message msg) (by simp [holders, hp])
  have hlength := holders_length s
  rw [hone, hp, List.length_singleton, List.length_cons] at hlength
  exact ⟨hb, List.length_eq_zero_iff.mp (by omega), List.length_eq_zero_iff.mp (by omega),
    List.length_eq_zero_iff.mp (by omega), hsound⟩

theorem Sound.frame (h : s.Sound sha256) {f : Frame} {rest : List Frame}
    (hf : heldFrames s.frames = f :: heldFrames rest) :
    s.busy = true ∧ s.workers = [] ∧ s.posted = [] ∧ heldFrames rest = [] ∧
      s.HolderSound sha256 (.frame f) := by
  obtain ⟨hb, hone, hsound⟩ := h.alone (k := .frame f) (by simp [holders, hf])
  have hlength := holders_length s
  rw [hone, hf, List.length_singleton, List.length_cons] at hlength
  exact ⟨hb, List.length_eq_zero_iff.mp (by omega), List.length_eq_zero_iff.mp (by omega),
    List.length_eq_zero_iff.mp (by omega), hsound⟩

/-- A change that no part of the pipeline looks at. -/
theorem Sound.congr (h : s.Sound sha256) (hl : s'.launched = s.launched) (hb : s'.busy = s.busy)
    (hw : s'.workers = s.workers) (hp : s'.posted = s.posted)
    (hf : heldFrames s'.frames = heldFrames s.frames) (hpending : s'.pending = s.pending)
    (haccepted : s'.accepted = s.accepted) (hdisk : s'.disk = s.disk) : s'.Sound sha256 := by
  have hholders : s'.holders = s.holders := by simp only [holders, hw, hp, hf]
  refine ⟨by rw [hl]; exact h.launches, ?_⟩
  rw [hb, hholders]
  rcases h.held with hidle | ⟨hbusy, k, hone, hsound⟩
  · exact .inl hidle
  · refine .inr ⟨hbusy, k, hone, ?_⟩
    have hchosen {m : UpdManifest} (hm : s.Chosen m) : s'.Chosen m :=
      ⟨hm.offerable, haccepted.trans hm.accepted⟩
    have hdownload {d : UpdDownload} (hd : s.DownloadSound sha256 d) : s'.DownloadSound sha256 d :=
      ⟨hchosen hd.chosen, by rw [hdisk]; exact hd.file⟩
    cases k with
    | worker w =>
        cases w with
        | check => trivial
        | fetch m => exact hchosen hsound
        | verify d => exact hchosen hsound
        | post d => exact hdownload hsound
    | message msg =>
        cases msg with
        | result r => exact hsound
        | dlDone d => exact hdownload hsound
    | frame f =>
        cases f with
        | note => trivial
        | closing => trivial
        | offer shown version => exact ⟨hsound.1, hpending.trans hsound.2⟩
        | ready d => exact ⟨hdownload hsound.1, hsound.2⟩

end Parts

section Steps

variable {sha256}

theorem Sound.idle (h : s.Sound sha256) (hb : s.busy = false) :
    s.workers = [] ∧ s.posted = [] ∧ heldFrames s.frames = [] := by
  rcases h.held with ⟨-, hnil⟩ | ⟨hbusy, -⟩
  · exact holders_nil.mp hnil
  · rw [hb] at hbusy
    cases hbusy

theorem Sound.startCheck (h : s.Sound sha256) (mode : Mode) (spawn : Bool) :
    (s.startCheck mode spawn).Sound sha256 := by
  unfold Updater.startCheck
  simp only
  split_ifs with hbusy hspawn hmode
  · exact h.congr rfl rfl rfl rfl rfl rfl rfl rfl
  · obtain ⟨hw, hp, hf⟩ := h.idle (by simpa using hbusy)
    exact .of_worker h.launches rfl (congrArg (Worker.check :: ·) hw) hp hf trivial
  · exact h.congr rfl rfl rfl rfl rfl rfl rfl rfl
  · exact h.congr rfl rfl rfl rfl rfl rfl rfl rfl

theorem readManifest_allowed {doc : CString} {m : UpdManifest} (h : readManifest doc = .ok m) :
    urlHostAllowed m.msiUrl = true := by
  unfold readManifest at h
  simp only at h
  split_ifs at h with _ _ _ hallowed
  cases h
  exact hallowed

/-- What a check calls good was read from a manifest. -/
theorem checkResult_sound (mode : Mode) (fetched : Except CString (List UInt8)) :
    (checkResult mode fetched).ok = true → ResultSound (checkResult mode fetched) := by
  cases fetched with
  | error err => nofun
  | ok body =>
      cases hread : readManifest (cstr body) with
      | error text =>
          simp only [checkResult, hread]
          nofun
      | ok m =>
          simp only [checkResult, hread]
          intro _
          exact ⟨⟨_, hread⟩, rfl, rfl⟩

/-- The last worker leaves. -/
theorem Sound.leave (h : s.Sound sha256) {w : Worker} (hw : s.workers = [w]) (hp : s.posted = [])
    (hf : heldFrames s.frames = []) (hb : s.busy = true) {posts : Bool} {msg : Message}
    (hmsg : s.HolderSound sha256 (.message msg)) : (s.leave 0 posts msg).Sound sha256 := by
  have hgone : s.workers.eraseIdx 0 = [] := by rw [hw]; rfl
  unfold Updater.leave
  simp only
  split_ifs
  · refine .of_message h.launches hb hgone (congrArg (· ++ [msg]) hp) hf ?_
    cases msg with
    | result r => exact hmsg
    | dlDone d => exact ⟨⟨hmsg.chosen.offerable, hmsg.chosen.accepted⟩, hmsg.file⟩
  · exact .of_idle h.launches rfl hgone hp hf

theorem Sound.checkThread (h : s.Sound sha256) (hw : s.workers = [.check]) (hp : s.posted = [])
    (hf : heldFrames s.frames = []) (hb : s.busy = true) (t : WorkerTurn) :
    (s.checkThread 0 t).Sound sha256 := by
  unfold Updater.checkThread
  split_ifs
  · exact h.leave hw hp hf hb (checkResult_sound _ _)
  · exact .of_idle h.launches rfl (congrArg (·.eraseIdx 0) hw) hp hf

/-- A worker goes on with what it has so far, and is still the only one. -/
theorem becomes_workers {w : Worker} (hw : s.workers = [w]) (w' : Worker) :
    (s.becomes 0 w').workers = [w'] := by
  rw [Updater.becomes, hw]
  rfl

theorem Sound.fetchFile (h : s.Sound sha256) {m : UpdManifest} (hw : s.workers = [.fetch m])
    (hp : s.posted = []) (hf : heldFrames s.frames = []) (hb : s.busy = true) (hm : s.Chosen m)
    (t : WorkerTurn) : (s.fetchFile 0 t m).Sound sha256 := by
  unfold Updater.fetchFile
  split
  · exact .of_worker h.launches hb (becomes_workers hw _) hp hf ⟨⟨hm.offerable, hm.accepted⟩, nofun⟩
  · simp only
    split
    · exact .of_worker h.launches hb (becomes_workers hw _) hp hf ⟨⟨hm.offerable, hm.accepted⟩, nofun⟩
    · exact .of_worker h.launches hb (becomes_workers hw _) hp hf ⟨hm.offerable, hm.accepted⟩

/-- Behind the check of the file a good download has its checksum. -/
theorem Sound.verifyFile (h : s.Sound sha256) {d : UpdDownload} (hw : s.workers = [.verify d])
    (hp : s.posted = []) (hf : heldFrames s.frames = []) (hb : s.busy = true) (hd : s.Chosen d.m)
    (t : WorkerTurn) : (s.verifyFile sha256 0 t d).Sound sha256 := by
  unfold Updater.verifyFile
  simp only
  split
  · exact .of_worker h.launches hb (becomes_workers hw _) hp hf ⟨⟨hd.offerable, hd.accepted⟩, nofun⟩
  · rename_i gotHash hhash
    split_ifs with hequal
    · refine .of_worker h.launches hb (becomes_workers hw _) hp hf
        ⟨⟨hd.offerable, hd.accepted⟩, ?_⟩
      intro _
      split_ifs at hhash
      obtain ⟨bytes, hbytes, rfl⟩ := Option.map_eq_some_iff.mp hhash
      exact ⟨bytes, hbytes, hequal⟩
    · exact .of_worker h.launches hb (becomes_workers hw _) hp hf ⟨⟨hd.offerable, hd.accepted⟩, nofun⟩

theorem Sound.work (h : s.Sound sha256) (i : Nat) (t : WorkerTurn) :
    (s.work sha256 i t).Sound sha256 := by
  unfold Updater.work
  split
  · exact h
  · rename_i hw
    obtain ⟨hb, rfl, hw, hp, hf, -⟩ := h.worker hw
    exact h.checkThread hw hp hf hb t
  · rename_i m hw
    obtain ⟨hb, rfl, hw, hp, hf, hm⟩ := h.worker hw
    exact h.fetchFile hw hp hf hb hm t
  · rename_i d hw
    obtain ⟨hb, rfl, hw, hp, hf, hd⟩ := h.worker hw
    exact h.verifyFile hw hp hf hb hd t
  · rename_i d hw
    obtain ⟨hb, rfl, hw, hp, hf, hd⟩ := h.worker hw
    exact h.leave hw hp hf hb hd

/-- The window has what was under way: nothing else is. -/
structure InHand (sha256 : List UInt8 → CString) (s : Updater) : Prop where
  busy : s.busy = true
  workers : s.workers = []
  posted : s.posted = []
  frames : heldFrames s.frames = []
  launches : ∀ l ∈ s.launched, LaunchSafe sha256 l

theorem InHand.release (h : s.InHand sha256) : s.release.Sound sha256 :=
  .of_idle h.launches rfl h.workers h.posted h.frames

theorem InHand.closing (h : s.InHand sha256) : (s.push .closing).Sound sha256 :=
  .of_frame h.launches h.busy h.workers h.posted (congrArg (Frame.closing :: ·) h.frames) trivial

theorem InHand.report (h : s.InHand sha256) (mode : Mode) :
    (s.report mode).Sound sha256 := by
  unfold Updater.report
  split_ifs
  · exact h.closing
  · exact h.release

theorem InHand.onResult (h : s.InHand sha256) {r : UpdResult}
    (hr : r.ok = true → ResultSound r) : (s.onResult r).Sound sha256 := by
  unfold Updater.onResult
  split_ifs with hok hcurrent hskipped
  · exact h.report r.mode
  · exact h.release
  · have hsound := hr hok
    rw [not_or, hsound.cmp, hsound.placeholder] at hcurrent
    refine .of_frame h.launches h.busy h.workers h.posted (congrArg (Frame.offer _ _ :: ·) h.frames)
      ⟨⟨hsound.read, ?_, ?_, ?_⟩, rfl⟩
    · obtain ⟨doc, hdoc⟩ := hsound.read
      exact readManifest_allowed hdoc
    · exact Int.not_le.mp hcurrent.2
    · simpa using hcurrent.1
  · exact h.report r.mode

theorem Sound.deliver (h : s.Sound sha256) : s.deliver.Sound sha256 := by
  unfold Updater.deliver
  split
  · exact h
  · rename_i r rest hp
    obtain ⟨hb, hw, rfl, hf, hr⟩ := h.message hp
    have hhand : InHand sha256 { s with posted := [] } := ⟨hb, hw, rfl, hf, h.launches⟩
    exact hhand.onResult hr
  · rename_i d rest hp
    obtain ⟨hb, hw, rfl, hf, hd⟩ := h.message hp
    have hhand : InHand sha256 { s with posted := [] } := ⟨hb, hw, rfl, hf, h.launches⟩
    unfold Updater.onDownloadDone
    split_ifs with hok
    · exact .of_frame h.launches hb hw rfl (congrArg (Frame.ready d :: ·) hf)
        ⟨⟨⟨hd.chosen.offerable, hd.chosen.accepted⟩, hd.file⟩, hok⟩
    · exact hhand.closing

theorem InHand.startDownload (h : s.InHand sha256) (a : Answer) {m : UpdManifest}
    (hm : s.Chosen m) : (s.startDownload a m).Sound sha256 := by
  unfold Updater.startDownload
  split_ifs
  · exact .of_worker h.launches h.busy (congrArg (Worker.fetch m :: ·) h.workers) h.posted h.frames
      ⟨hm.offerable, hm.accepted⟩
  · exact .of_idle h.launches rfl h.workers h.posted h.frames
  · exact h.release

/-- Only a download that was found good is launched, with the file it was found good for. -/
theorem InHand.launch (h : s.InHand sha256) (a : Answer) {d : UpdDownload}
    (hd : s.DownloadSound sha256 d) (hok : d.ok = true) : (s.launch a d).Sound sha256 := by
  unfold Updater.launch
  split_ifs
  · refine .of_idle ?_ rfl h.workers h.posted h.frames
    intro l hl
    rcases List.mem_append.mp hl with hl | hl
    · exact h.launches l hl
    · rw [List.mem_singleton.mp hl]
      exact ⟨hd.file hok, hd.chosen.offerable, hd.chosen.accepted⟩
  · exact h.closing

theorem Sound.close (h : s.Sound sha256) (a : Answer) : (s.close a).Sound sha256 := by
  unfold Updater.close
  split
  · exact h
  · rename_i rest hframes
    refine h.congr rfl rfl rfl rfl ?_ rfl rfl rfl
    rw [hframes]
    rfl
  · rename_i rest hframes
    have hheld : heldFrames s.frames = .closing :: heldFrames rest := by rw [hframes]; rfl
    obtain ⟨hb, hw, hp, hf, -⟩ := h.frame hheld
    exact .of_idle h.launches rfl hw hp hf
  · rename_i shown version rest hframes
    have hheld : heldFrames s.frames = .offer shown version :: heldFrames rest := by
      rw [hframes]
      rfl
    obtain ⟨hb, hw, hp, hf, hoffer, rfl⟩ := h.frame hheld
    have hhand : InHand sha256 { s with frames := rest, accepted := some s.pending } :=
      ⟨hb, hw, hp, hf, h.launches⟩
    simp only
    split_ifs
    · exact hhand.startDownload a ⟨hoffer, rfl⟩
    · exact .of_idle h.launches rfl hw hp hf
    · exact .of_idle h.launches rfl hw hp hf
  · rename_i d rest hframes
    have hheld : heldFrames s.frames = .ready d :: heldFrames rest := by rw [hframes]; rfl
    obtain ⟨hb, hw, hp, hf, hd, hok⟩ := h.frame hheld
    have hhand : InHand sha256 { s with frames := rest } := ⟨hb, hw, hp, hf, h.launches⟩
    simp only
    split_ifs
    · exact hhand.launch a ⟨⟨hd.chosen.offerable, hd.chosen.accepted⟩, hd.file⟩ hok
    · exact hhand.closing

theorem Sound.step (h : s.Sound sha256) (e : Event) : (s.step sha256 e).Sound sha256 := by
  cases e with
  | check mode spawn => exact h.startCheck mode spawn
  | work i t => exact h.work i t
  | deliver => exact h.deliver
  | answer a => exact h.close a

theorem Sound.safe (h : s.Sound sha256) : s.Safe sha256 := by
  refine ⟨h.launches, ?_, ?_⟩
  · have hlength := holders_length s
    rcases h.held with ⟨-, hnil⟩ | ⟨-, k, hone, -⟩
    · rw [hnil, List.length_nil] at hlength
      omega
    · rw [hone, List.length_singleton] at hlength
      omega
  · rcases h.held with ⟨hb, hnil⟩ | ⟨hb, k, hone, -⟩
    · rw [hb, hnil]
      simp
    · rw [hb, hone]
      simp

end Steps

end Updater

/-- In every order of checks, worker steps, messages and answers, and for every transport and hash: only
the file of the manifest that was offered and accepted is launched, and only with its checksum; at most
one worker is active; and the flag is set exactly while something of a check or a download is to come. -/
theorem session_safe (sha256 : List UInt8 → CString) (skipped : Option CString)
    (disk : CString → Option (List UInt8)) (es : List Event) :
    (Machine.run (Updater.step sha256) (startUpdater skipped disk) es).Safe sha256 := by
  have hstart : (startUpdater skipped disk).Sound sha256 := ⟨nofun, .inl ⟨rfl, rfl⟩⟩
  exact (Machine.run_inv (fun _ e h => h.step e) hstart es).safe

section Install

def checksum : CString := ascii ("0123456789abcdef0123456789abcdef" ++ "0123456789abcdef0123456789abcdef")

def releaseBody : List UInt8 :=
  ascii "\x7b\"version\": \"0.8.0\", \"msi_url\": \"https://apps.greektimes.ca/suite.msi\", \"msi_sha256\": \"" ++
    checksum ++ ascii "\", \"msi_bytes\": 3\x7d"

/-- A startup check finds a release, the user takes it, and the download is good. -/
def installSession : List Event :=
  [.check .startup true, .work 0 { fetched := .ok releaseBody }, .deliver, .answer { ok := true },
    .work 0 { fetched := .ok [1, 2, 3] }, .work 0 {}, .work 0 {}, .deliver, .answer { ok := true }]

example : ((Machine.run (Updater.step fun _ => checksum) (startUpdater none fun _ => none)
    installSession).launched.map (·.file)) = [some [1, 2, 3]] := by decide +kernel

end Install

end UnicornSuite.Update
