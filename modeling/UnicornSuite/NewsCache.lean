import UnicornSuite.LibCache
import UnicornSuite.NewsIndex

/-! The two caches of the newspaper (`newspaper_service.c`): the covers by issue and size, and the
manifests by issue. The threads call at any time; a call looks its key up under the lock, fetches and
decodes outside it, and looks again before it stores. Bitmaps and the pages of manifests are handles
the system gives, never one that is in use. -/

namespace UnicornSuite.News

open CText CInt LruCache

/-- `NEWS_MANIFEST_CACHE` -/
def newsManifestCache : Nat := 4
/-- `NEWS_COVER_CACHE` -/
def newsCoverCache : Nat := 16

/-- `(ULONGLONG)-1`, which no tick count goes over. -/
def lastTick : Nat := 2 ^ 64 - 1

/-- What the array of an `issue_id` keeps of it. -/
def issueField (id : CString) : CString := id.take 15

/-! ### Covers -/

structure CoverKey where
  id : CString
  w : Int
  h : Int
deriving DecidableEq

/-- What is drawn in a bitmap. -/
inductive Picture
  | cover (image : Bytes) (w h : Int)
  | placeholder (id : CString) (w h : Int)

structure Cover where
  hbm : Nat
  picture : Picture

/-- What a call for a cover meets outside the lock: what the server answers, whether GDI+ can decode and
draw an image, and the bitmap `make_dib` gives. -/
structure CoverFetch where
  server : CString → Option Bytes
  draws : Bytes → Bool
  hbm : Nat

def coverPath (id : CString) : CString := (ascii "/" ++ id ++ ascii "/cover.jpg").take 63

/-- The slow path of `news_cover_thumb`. -/
def fetchCover (k : CoverKey) (f : CoverFetch) : Cover :=
  { hbm := f.hbm
    picture :=
      match f.server (coverPath k.id) with
      | some body =>
          if body ≠ [] ∧ f.draws body = true then .cover body k.w k.h else .placeholder k.id k.w k.h
      | none => .placeholder k.id k.w k.h }

def coverPlan : Plan CoverKey CoverFetch Cover Nat :=
  { kept := fun k => { k with id := issueField k.id }
    build := fetchCover
    owns := fun c => [c.hbm]
    top := lastTick }

abbrev Covers := State CoverKey Cover Nat

/-- The covers as `news_create` leaves them. -/
def newCovers : Covers := start newsCoverCache

/-- `cover_cache_lookup` -/
def coverCacheLookup (l : Lines CoverKey Cover) (id : CString) (w h : Int) (now : Nat) :
    Option (Cover × Lines CoverKey Cover) :=
  lookup ⟨id, w, h⟩ now l

/-- `cover_cache_evict_slot`, which bitmap is deleted with it: see `State.insert`. -/
def coverCacheEvictSlot (l : Lines CoverKey Cover) : Nat := evictSlot lastTick l

/-- A request that is answered with NULL. -/
def BadCover (id : CString) (w h : Int) : Prop := id = [] ∨ w ≤ 0 ∨ h ≤ 0

instance (id : CString) (w h : Int) : Decidable (BadCover id w h) := inferInstanceAs (Decidable (_ ∨ _))

/-- `news_cover_peek` -/
def newsCoverPeek (s : Covers) (dt : Nat) (id : CString) (w h : Int) : Covers × Option Cover :=
  if BadCover id w h then (s, none) else step coverPlan s (.probe dt ⟨id, w, h⟩)

/-- `news_cover_thumb` up to the fetch. -/
def newsCoverThumb (s : Covers) (dt : Nat) (id : CString) (w h : Int) : Covers × Option Cover :=
  if BadCover id w h then (s, none) else step coverPlan s (.start dt ⟨id, w, h⟩)

/-- The steps of the threads: the two calls, and what a call of `news_cover_thumb` that missed does next:
it fetches and draws, or has no bitmap and gives up, and stores what it has. -/
inductive CoverStep
  | peek (dt : Nat) (id : CString) (w h : Int)
  | thumb (dt : Nat) (id : CString) (w h : Int)
  | fetched (call : Nat) (f : CoverFetch)
  | noBitmap (call : Nat)
  | stored (dt call : Nat)

/-- The state after a step, and the bitmap that a call which it ends returns. -/
def coverStep (s : Covers) : CoverStep → Covers × Option Cover
  | .peek dt id w h => newsCoverPeek s dt id w h
  | .thumb dt id w h => newsCoverThumb s dt id w h
  | .fetched call f => step coverPlan s (.make call f)
  | .noBitmap call => step coverPlan s (.drop call)
  | .stored dt call => step coverPlan s (.store dt call)

def coverRun (es : List CoverStep) : Covers := Machine.run (fun s e => (coverStep s e).1) newCovers es

/-! ### Manifests -/

/-- `NewspaperPage` -/
structure Page where
  file : CString
  w : Int
  h : Int

/-- `NewspaperManifest`, with its pages and the block they are in. -/
structure Manifest where
  id : CString
  title : CString
  pages : Option (Nat × List Page)

def Manifest.pageList (m : Manifest) : List Page := m.pages.elim [] Prod.snd

/-- The fields of a page, in a block that was zeroed. -/
def pluckPage (obj : Bytes) : Page :=
  { file := cstr (objPluckStr obj "file" (List.replicate 32 0) 32).2
    w := (objPluckInt obj "w" 0).2
    h := (objPluckInt obj "h" 0).2 }

/-- The loop over the array of pages; an object without a `file` is left out. -/
def readPages (p : Bytes) : List Page :=
  match _h : p.dropWhile fun c => c ≠ openBrace ∧ c ≠ closeBracket with
  | [] => []
  | c :: q =>
      if c = closeBracket then []
      else
        let rest := skipFrom false 1 q
        let page := pluckPage ((c :: q).take ((c :: q).length - rest.length))
        if page.file = [] then readPages rest else page :: readPages rest
termination_by p.length
decreasing_by
  all_goals
    have hrest := skipFrom_length_le false 1 q
    have hdrop := (List.dropWhile_sublist (l := p) fun c => c ≠ openBrace ∧ c ≠ closeBracket).length_le
    rw [_h, List.length_cons] at hdrop
    omega

/-- A field of the manifest itself, read into a zeroed array. -/
def topField (body : Bytes) (name : String) (cap : Nat) : CString :=
  match jsonFindKey body (ascii name) with
  | none => []
  | some v => cstr (jsonReadString v (List.replicate cap 0) cap).2

/-- What a call for a manifest meets outside the lock: the body the server answers with, and the block
for the pages. -/
structure ManifestFetch where
  server : CString → Bytes
  block : Nat

def manifestPath (id : CString) : CString := (ascii "/" ++ id ++ ascii "/manifest.json").take 63

/-- What `news_fetch_manifest` makes of the body. -/
def fetchManifest (issueId : CString) (f : ManifestFetch) : Manifest :=
  let body := f.server (manifestPath issueId)
  let id := topField body "id" 16
  { id := if id = [] then issueField issueId else id
    title := topField body "title" 256
    pages :=
      match jsonFindKey body (ascii "pages") with
      | none => none
      | some v =>
          match v.dropWhile (· ≠ openBracket) with
          | [] => none
          | _ :: p => some (f.block, readPages p) }

theorem readPages_named (p : Bytes) : ∀ page ∈ readPages p, page.file ≠ [] := by
  fun_induction readPages p with
  | case1 | case2 =>
      intro page hpage
      cases hpage
  | case3 p c q hc hbrace rest page hfile ih => exact ih
  | case4 p c q hc hbrace rest page hfile ih => exact List.forall_mem_cons.mpr ⟨hfile, ih⟩

theorem fetchManifest_named (id : CString) (f : ManifestFetch) :
    ∀ page ∈ (fetchManifest id f).pageList, page.file ≠ [] := by
  intro page hpage
  rw [Manifest.pageList, fetchManifest] at hpage
  dsimp only at hpage
  split at hpage
  · cases hpage
  · split at hpage
    · cases hpage
    · exact readPages_named _ page hpage

def manifestPlan : Plan CString ManifestFetch Manifest Nat :=
  { kept := issueField
    build := fetchManifest
    owns := fun m => (m.pages.map Prod.fst).toList
    top := lastTick }

abbrev Manifests := State CString Manifest Nat

def newManifests : Manifests := start newsManifestCache

/-- `manifest_cache_lookup` -/
def manifestCacheLookup (l : Lines CString Manifest) (id : CString) (now : Nat) :
    Option (Manifest × Lines CString Manifest) :=
  lookup id now l

/-- `manifest_cache_evict_slot`, what is freed with it: see `State.insert`. -/
def manifestCacheEvictSlot (l : Lines CString Manifest) : Nat := evictSlot lastTick l

/-- `news_fetch_manifest` up to the fetch. -/
def newsFetchManifest (s : Manifests) (dt : Nat) (id : CString) : Manifests × Option Manifest :=
  if id = [] then (s, none) else step manifestPlan s (.start dt id)

/-- The steps of the threads: the call, and what it does next if it missed: it fetches and reads, or
fails for want of a body or of memory, and stores what it has. -/
inductive ManifestStep
  | fetch (dt : Nat) (id : CString)
  | fetched (call : Nat) (f : ManifestFetch)
  | failed (call : Nat)
  | stored (dt call : Nat)

def manifestStep (s : Manifests) : ManifestStep → Manifests × Option Manifest
  | .fetch dt id => newsFetchManifest s dt id
  | .fetched call f => step manifestPlan s (.make call f)
  | .failed call => step manifestPlan s (.drop call)
  | .stored dt call => step manifestPlan s (.store dt call)

def manifestRun (es : List ManifestStep) : Manifests :=
  Machine.run (fun s e => (manifestStep s e).1) newManifests es

/-! ### The steps as those of one cache -/

def CoverStep.event : CoverStep → Option (Event CoverKey CoverFetch)
  | .peek dt id w h => if BadCover id w h then none else some (.probe dt ⟨id, w, h⟩)
  | .thumb dt id w h => if BadCover id w h then none else some (.start dt ⟨id, w, h⟩)
  | .fetched call f => some (.make call f)
  | .noBitmap call => some (.drop call)
  | .stored dt call => some (.store dt call)

theorem coverStep_eq (s : Covers) (e : CoverStep) :
    coverStep s e = e.event.elim (s, none) (step coverPlan s) := by
  cases e with
  | peek dt id w h =>
      rw [coverStep, newsCoverPeek, CoverStep.event]
      split_ifs <;> rfl
  | thumb dt id w h =>
      rw [coverStep, newsCoverThumb, CoverStep.event]
      split_ifs <;> rfl
  | fetched | noBitmap | stored => rfl

def ManifestStep.event : ManifestStep → Option (Event CString ManifestFetch)
  | .fetch dt id => if id = [] then none else some (.start dt id)
  | .fetched call f => some (.make call f)
  | .failed call => some (.drop call)
  | .stored dt call => some (.store dt call)

theorem manifestStep_eq (s : Manifests) (e : ManifestStep) :
    manifestStep s e = e.event.elim (s, none) (step manifestPlan s) := by
  cases e with
  | fetch dt id =>
      rw [manifestStep, newsFetchManifest, ManifestStep.event]
      split_ifs <;> rfl
  | fetched | failed | stored => rfl

/-- Steps of which some are no events of a machine make the run of the others. -/
theorem run_filterMap {σ ε ε' γ : Type} {f : σ → ε → σ × Option γ} {g : σ → ε' → σ × Option γ}
    {event : ε → Option ε'} (h : ∀ s e, f s e = (event e).elim (s, none) (g s)) (s : σ) (es : List ε) :
    Machine.run (fun s e => (f s e).1) s es =
      Machine.run (fun s e => (g s e).1) s (es.filterMap event) := by
  induction es generalizing s with
  | nil => rfl
  | cons e es ih =>
      rw [Machine.run_cons, ih, h s e]
      cases he : event e with
      | none => rw [List.filterMap_cons_none he, Option.elim_none]
      | some e' => rw [List.filterMap_cons_some he, Option.elim_some, Machine.run_cons]

theorem coverRun_eq (es : List CoverStep) :
    coverRun es = run coverPlan (start newsCoverCache) (es.filterMap CoverStep.event) :=
  run_filterMap coverStep_eq newCovers es

theorem manifestRun_eq (es : List ManifestStep) :
    manifestRun es = run manifestPlan (start newsManifestCache) (es.filterMap ManifestStep.event) :=
  run_filterMap manifestStep_eq newManifests es

/-! ### Requests for issues of the index -/

/-- The id is one that a field of the index can hold. -/
def CoverStep.Fits : CoverStep → Prop
  | .peek _ id _ _ => id.length ≤ 15
  | .thumb _ id _ _ => id.length ≤ 15
  | _ => True

instance : (e : CoverStep) → Decidable e.Fits
  | .peek _ id _ _ => inferInstanceAs (Decidable (id.length ≤ 15))
  | .thumb _ id _ _ => inferInstanceAs (Decidable (id.length ≤ 15))
  | .fetched _ _ => inferInstanceAs (Decidable True)
  | .noBitmap _ => inferInstanceAs (Decidable True)
  | .stored _ _ => inferInstanceAs (Decidable True)

def ManifestStep.Fits : ManifestStep → Prop
  | .fetch _ id => id.length ≤ 15
  | _ => True

instance : (e : ManifestStep) → Decidable e.Fits
  | .fetch _ id => inferInstanceAs (Decidable (id.length ≤ 15))
  | .fetched _ _ => inferInstanceAs (Decidable True)
  | .failed _ => inferInstanceAs (Decidable True)
  | .stored _ _ => inferInstanceAs (Decidable True)

theorem CoverStep.Fits.event {e : CoverStep} {e' : Event CoverKey CoverFetch} (h : e.Fits)
    (he' : e.event = some e') : e'.Fits coverPlan := by
  cases e with
  | peek dt id w ht =>
      rw [CoverStep.event] at he'
      split_ifs at he'
      cases he'
      exact congrArg (CoverKey.mk · w ht) (List.take_of_length_le h)
  | thumb dt id w ht =>
      rw [CoverStep.event] at he'
      split_ifs at he'
      cases he'
      exact congrArg (CoverKey.mk · w ht) (List.take_of_length_le h)
  | fetched | noBitmap | stored =>
      cases he'
      trivial

theorem ManifestStep.Fits.event {e : ManifestStep} {e' : Event CString ManifestFetch} (h : e.Fits)
    (he' : e.event = some e') : e'.Fits manifestPlan := by
  cases e with
  | fetch dt id =>
      rw [ManifestStep.event] at he'
      split_ifs at he'
      cases he'
      exact List.take_of_length_le h
  | fetched | failed | stored =>
      cases he'
      trivial

/-- The issue and the size that a step asks for, by itself or for the call that it ends. -/
def CoverStep.asks (s : Covers) : CoverStep → Option CoverKey
  | .peek _ id w h => some ⟨id, w, h⟩
  | .thumb _ id w h => some ⟨id, w, h⟩
  | .stored _ call => s.calls[call]?.map Call.key
  | _ => none

theorem CoverStep.asks_of_asked {s : Covers} {e : CoverStep} {e' : Event CoverKey CoverFetch} {k : CoverKey}
    (he : e.event = some e') (hk : asked s e' = some k) : e.asks s = some k := by
  cases e with
  | peek dt id w h =>
      rw [CoverStep.event] at he
      split_ifs at he
      cases he
      exact hk
  | thumb dt id w h =>
      rw [CoverStep.event] at he
      split_ifs at he
      cases he
      exact hk
  | fetched | noBitmap | stored =>
      cases he
      exact hk

def ManifestStep.asks (s : Manifests) : ManifestStep → Option CString
  | .fetch _ id => some id
  | .stored _ call => s.calls[call]?.map Call.key
  | _ => none

theorem ManifestStep.asks_of_asked {s : Manifests} {e : ManifestStep} {e' : Event CString ManifestFetch}
    {k : CString} (he : e.event = some e') (hk : asked s e' = some k) : e.asks s = some k := by
  cases e with
  | fetch dt id =>
      rw [ManifestStep.event] at he
      split_ifs at he
      cases he
      exact hk
  | fetched | failed | stored =>
      cases he
      exact hk

/-! ### The caches in every order of the steps -/

theorem forall_mem_filterMap {ε ε' : Type} {event : ε → Option ε'} {P : ε → Prop} {Q : ε' → Prop} {es : List ε}
    (h : ∀ e e', P e → event e = some e' → Q e') (hes : ∀ e ∈ es, P e) : ∀ e' ∈ es.filterMap event, Q e' := by
  intro e' he'
  obtain ⟨e, he, heq⟩ := List.mem_filterMap.mp he'
  exact h e e' (hes e he) heq

section Covers

variable {es : List CoverStep}

theorem owned_covers (es : List CoverStep) : Owned coverPlan (coverRun es) :=
  coverRun_eq es ▸ owned_run (by decide) _

theorem sound_covers (hes : ∀ e ∈ es, e.Fits) : Sound coverPlan (coverRun es) := by
  rw [coverRun_eq]
  exact sound_run (by decide) (forall_mem_filterMap (fun _ _ h he => h.event he) hes)

/-- What a call returns is a bitmap in use that was drawn for what it asked for. -/
theorem cover_answer (hes : ∀ e ∈ es, e.Fits) {e : CoverStep} (he : e.Fits) {c : Cover}
    (hc : (coverStep (coverRun es) e).2 = some c) :
    ∃ k f, e.asks (coverRun es) = some k ∧ c = fetchCover k f ∧
      c.hbm ∈ (coverStep (coverRun es) e).1.live := by
  rw [coverStep_eq] at hc ⊢
  cases hevent : e.event with
  | none =>
      rw [hevent] at hc
      cases hc
  | some e' =>
      rw [hevent, Option.elim_some] at hc
      rw [Option.elim_some]
      obtain ⟨k, f, hk, hbuild, l, hl, -, hvalue⟩ := (sound_covers hes).answer (he.event hevent) hc
      have howned := (owned_covers es).moves (moves_step coverPlan _ e')
      refine ⟨k, f, CoverStep.asks_of_asked hevent hk, hbuild, ?_⟩
      exact howned.mem_live hl (by rw [hvalue]; exact List.mem_singleton_self _)

end Covers

section Manifests

variable {es : List ManifestStep}

theorem owned_manifests (es : List ManifestStep) : Owned manifestPlan (manifestRun es) :=
  manifestRun_eq es ▸ owned_run (by decide) _

theorem sound_manifests (hes : ∀ e ∈ es, e.Fits) : Sound manifestPlan (manifestRun es) := by
  rw [manifestRun_eq]
  exact sound_run (by decide) (forall_mem_filterMap (fun _ _ h he => h.event he) hes)

theorem manifest_answer (hes : ∀ e ∈ es, e.Fits) {e : ManifestStep} (he : e.Fits) {m : Manifest}
    (hm : (manifestStep (manifestRun es) e).2 = some m) :
    ∃ k f, e.asks (manifestRun es) = some k ∧ m = fetchManifest k f ∧
      ∀ b ∈ m.pages, b.1 ∈ (manifestStep (manifestRun es) e).1.live := by
  rw [manifestStep_eq] at hm ⊢
  cases hevent : e.event with
  | none =>
      rw [hevent] at hm
      cases hm
  | some e' =>
      rw [hevent, Option.elim_some] at hm
      rw [Option.elim_some]
      obtain ⟨k, f, hk, hbuild, l, hl, -, hvalue⟩ := (sound_manifests hes).answer (he.event hevent) hm
      have howned := (owned_manifests es).moves (moves_step manifestPlan _ e')
      refine ⟨k, f, ManifestStep.asks_of_asked hevent hk, hbuild, fun b hb => ?_⟩
      refine howned.mem_live hl ?_
      rw [hvalue]
      exact Option.mem_toList.mpr (Option.mem_map_of_mem Prod.fst hb)

end Manifests

/-- One cover is fetched and stored. -/
def oneCover : List CoverStep :=
  [.thumb 3 (ascii "gt113") 90 120, .fetched 0 ⟨fun _ => none, fun _ => false, 7⟩, .stored 2 0]

/-- One manifest is fetched and stored. -/
def oneManifest : List ManifestStep :=
  [.fetch 3 (ascii "gt113"), .fetched 0 ⟨fun _ => [], 7⟩, .stored 2 0]

end UnicornSuite.News
