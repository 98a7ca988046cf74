import UnicornSuite.NewsRead
import Mathlib.Data.List.Forall2

/-! What an index comes to. The loop over the array takes the objects one by one, each read into the slot
behind the issues, as that was left by earlier loads or by an object without an `id`. Each issue has
the fields of its object exactly if the scan finds the right member, or what it leaves in place happens
to be right. -/

namespace UnicornSuite.News

open CText

/-! ### What should come of an object -/

def IssueOf (o : Object) (it : Issue) : Prop :=
  cstr it.id = o.str "id" ∧ cstr it.title = o.str "title" ∧ (it.pageCount : ℚ) = o.num "page_count" ∧
    cstr it.pdfPath = o.str "pdf" ∧ cstr it.coverPath = o.str "cover"

/-- An object with an `id` gives an issue with its fields, any other gives none. -/
def Yields (o : Object) : Option Issue → Prop
  | none => o.str "id" = []
  | some it => o.str "id" ≠ [] ∧ IssueOf o it

def NewspaperService.issueList (s : NewspaperService) : List Issue := (List.range s.issueCount).map s.issues

/-- The issues are the objects with an `id`, up to the size of the table, and each is from its own
object. -/
structure IndexSound (objects : List Object) (s : NewspaperService) : Prop where
  issues : List.Forall₂ IssueOf ((objects.filter (·.str "id" ≠ [])).take newsMaxIssues) s.issueList
  own : List.Forall₂ Yields (objects.take s.log.length) s.log

/-! ### The condition -/

/-- A field of text comes out right. No string of the object names it, and the object has no such text;
or the first one that does is the key of a text that reads as the member's; or it is a value, or the
key of something else, and the slot already has the text. -/
def StrFits (o : Object) (name : String) (cap : Nat) (before : CString) : Prop :=
  match o.hit name with
  | none => o.str name = []
  | some (.value (.str s)) => s.letters.take (cap - 1) = o.str name
  | some _ => before = o.str name

def NumFits (o : Object) (name : String) (before : Int) : Prop :=
  match o.hit name with
  | some (.value (.num n)) => (CInt.wrap32 n.intPart : ℚ) = o.num name
  | _ => (before : ℚ) = o.num name

/-- The fields of an object come out right in a slot; of an object without an `id` only that counts. -/
def Fits (it : Issue) (o : Object) : Prop :=
  StrFits o "id" 16 (cstr it.id) ∧
    (o.str "id" ≠ [] → StrFits o "title" 256 (cstr it.title) ∧ NumFits o "page_count" it.pageCount ∧
      StrFits o "pdf" 64 (cstr it.pdfPath) ∧ StrFits o "cover" 64 (cstr it.coverPath))

/-- Every object that is read fits the slot it is read into. -/
def AllFit (s : NewspaperService) : List Object → Prop
  | [] => True
  | o :: os =>
      s.issueCount < newsMaxIssues →
        Fits (s.issues s.issueCount) o ∧ AllFit (loadObject s o.text) os

/-- The name `issues` stands in quotes in front of the array, and from the first place on where it does
there is no other bracket. -/
def ReachesArray (d : Document) : Prop :=
  ∃ v ∈ Search.behind (quoted (ascii "issues")) (d.before ++ (Value.str d.name).text), openBracket ∉ v

instance (d : Document) : Decidable (ReachesArray d) := by
  unfold ReachesArray
  infer_instance

section Object

variable {o : Object} {it : Issue} {name : String}

theorem strOutcome_iff (cap : Nat) (before : CString) :
    strOutcome (o.hit name) cap before = o.str name ↔ StrFits o name cap before := by
  unfold strOutcome StrFits
  cases o.hit name with
  | none => exact eq_comm
  | some hit =>
      cases hit with
      | value v => cases v <;> exact Iff.rfl
      | stray => exact Iff.rfl

theorem numOutcome_iff (before : Int) :
    (numOutcome (o.hit name) before : ℚ) = o.num name ↔ NumFits o name before := by
  unfold numOutcome NumFits
  cases o.hit name with
  | none => exact Iff.rfl
  | some hit =>
      cases hit with
      | value v => cases v <;> exact Iff.rfl
      | stray => exact Iff.rfl

/-- What comes of an object. -/
def outcome (it : Issue) (o : Object) : Option Issue :=
  let it := pluckIssue it o.text
  if cstr it.id = [] then none else some it

theorem yields_iff : Yields o (outcome it o) ↔ Fits it o := by
  have hid : cstr (pluckIssue it o.text).id = o.str "id" ↔ StrFits o "id" 16 (cstr it.id) := by
    rw [← strOutcome_iff, ← objPluckStr_object (by decide +kernel)]
    rfl
  have htitle : cstr (pluckIssue it o.text).title = o.str "title" ↔ StrFits o "title" 256 (cstr it.title) := by
    rw [← strOutcome_iff, ← objPluckStr_object (by decide +kernel)]
    rfl
  have hpages : ((pluckIssue it o.text).pageCount : ℚ) = o.num "page_count" ↔
      NumFits o "page_count" it.pageCount := by
    rw [← numOutcome_iff, ← objPluckInt_object (by decide +kernel)]
    rfl
  have hpdf : cstr (pluckIssue it o.text).pdfPath = o.str "pdf" ↔ StrFits o "pdf" 64 (cstr it.pdfPath) := by
    rw [← strOutcome_iff, ← objPluckStr_object (by decide +kernel)]
    rfl
  have hcover : cstr (pluckIssue it o.text).coverPath = o.str "cover" ↔
      StrFits o "cover" 64 (cstr it.coverPath) := by
    rw [← strOutcome_iff, ← objPluckStr_object (by decide +kernel)]
    rfl
  unfold outcome Fits
  rw [← hid, ← htitle, ← hpages, ← hpdf, ← hcover]
  dsimp only
  split
  · rename_i hempty
    rw [hempty]
    constructor
    · intro hnone
      exact ⟨hnone.symm, fun hne => absurd hnone hne⟩
    · exact fun h => h.1.symm
  · rename_i hsome
    constructor
    · rintro ⟨_, heq, hrest⟩
      exact ⟨heq, fun _ => hrest⟩
    · rintro ⟨heq, hrest⟩
      exact ⟨heq ▸ hsome, heq, hrest (heq ▸ hsome)⟩

end Object

/-! ### Runs over the array -/

/-- The loop, object by object. -/
def run (s : NewspaperService) : List Object → NewspaperService
  | [] => s
  | o :: os => if s.issueCount < newsMaxIssues then run (loadObject s o.text) os else s

/-- What comes of each object. -/
def results (s : NewspaperService) : List Object → List (Option Issue)
  | [] => []
  | o :: os =>
      if s.issueCount < newsMaxIssues then
        outcome (s.issues s.issueCount) o :: results (loadObject s o.text) os
      else []

section Run

variable {s : NewspaperService} {o : Object} {os : List Object}

theorem loadObject_log : (loadObject s o.text).log = s.log ++ [outcome (s.issues s.issueCount) o] := by
  unfold loadObject outcome
  dsimp only
  split <;> rfl

theorem run_log (s : NewspaperService) (os : List Object) : (run s os).log = s.log ++ results s os := by
  induction os generalizing s with
  | nil => exact (List.append_nil _).symm
  | cons o os ih =>
      rw [run, results]
      split
      · rw [ih, loadObject_log, List.append_assoc, List.singleton_append]
      · exact (List.append_nil _).symm

theorem results_iff (s : NewspaperService) (os : List Object) :
    List.Forall₂ Yields (os.take (results s os).length) (results s os) ↔ AllFit s os := by
  induction os generalizing s with
  | nil => exact iff_of_true .nil trivial
  | cons o os ih =>
      rw [results, AllFit]
      split
      · rename_i hroom
        rw [List.length_cons, List.take_succ_cons, List.forall₂_cons, yields_iff, ih,
          forall_prop_of_true hroom]
      · rename_i hfull
        exact iff_of_true .nil fun hroom => absurd hroom hfull

/-- The table holds the issues of the log, and has room for those it takes. -/
structure Table (s : NewspaperService) : Prop where
  issues : s.issueList = s.log.filterMap id
  room : s.issueCount ≤ newsMaxIssues

theorem Table.length (h : Table s) : (s.log.filterMap id).length = s.issueCount := by
  rw [← h.issues, NewspaperService.issueList, List.length_map, List.length_range]

theorem Table.load (h : Table s) (hroom : s.issueCount < newsMaxIssues) (obj : Bytes) :
    Table (loadObject s obj) := by
  have hslot (it : Issue) : (List.range s.issueCount).map (Function.update s.issues s.issueCount it) =
      s.issueList := by
    refine List.map_congr_left fun i hi => ?_
    exact Function.update_of_ne (List.mem_range.mp hi).ne _ _
  unfold loadObject
  dsimp only
  split
  · refine ⟨?_, h.room⟩
    rw [NewspaperService.issueList, hslot, h.issues, List.filterMap_append]
    simp
  · refine ⟨?_, hroom⟩
    rw [NewspaperService.issueList, List.range_succ, List.map_append, hslot, h.issues,
      List.filterMap_append]
    simp

theorem Table.run (h : Table s) (os : List Object) : Table (run s os) := by
  induction os generalizing s with
  | nil => exact h
  | cons o os ih =>
      rw [News.run]
      split
      · rename_i hroom
        exact ih (h.load hroom o.text)
      · exact h

/-- The loop goes on to the end of the array or until the table is full. -/
theorem results_length (h : Table s) (os : List Object) :
    (results s os).length = os.length ∨ (run s os).issueCount = newsMaxIssues := by
  induction os generalizing s with
  | nil => exact Or.inl rfl
  | cons o os ih =>
      rw [results, run]
      split
      · rename_i hroom
        rw [List.length_cons, List.length_cons]
        exact (ih (h.load hroom o.text)).imp_left (congrArg (· + 1))
      · exact Or.inr (by have := h.room; omega)

end Run

/-! ### Runs over the text -/

section Text

variable {s : NewspaperService} {w t : Bytes}

/-- What the loop passes over on its way to the next object. -/
def Passed (w : Bytes) : Prop := ∀ c ∈ w, c ≠ openBrace ∧ c ≠ closeBracket

theorem passed_ws (w : Ws) : Passed w.bytes := by
  intro c hc
  rcases w.space c hc with rfl | rfl | rfl | rfl <;> decide

theorem dropWhile_passed {c : UInt8} (hw : Passed w) (hc : c = openBrace ∨ c = closeBracket) (t : Bytes) :
    (w ++ c :: t).dropWhile (fun c => c ≠ openBrace ∧ c ≠ closeBracket) = c :: t := by
  refine dropWhile_append (fun c hmem => ?_) ?_
  · simpa using hw c hmem
  · rintro d ⟨⟩
    rcases hc with rfl | rfl <;> simp

theorem loadObjects_end (hw : Passed w) (s : NewspaperService) (t : Bytes) :
    loadObjects s (w ++ closeBracket :: t) = s := by
  rw [loadObjects]
  split
  · split
    · rfl
    · rename_i c q hdrop
      rw [dropWhile_passed hw (Or.inr rfl)] at hdrop
      obtain ⟨rfl, _⟩ := List.cons.inj hdrop
      exact if_pos rfl
  · rfl

theorem loadObjects_object (hw : Passed w) (s : NewspaperService) (o : Object) (t : Bytes) :
    loadObjects s (w ++ (o.text ++ t)) =
      if s.issueCount < newsMaxIssues then loadObjects (loadObject s o.text) t else s := by
  obtain ⟨q, hq, hskip⟩ := skip_object o t
  have hdrop₀ := dropWhile_passed hw (Or.inl rfl) q
  rw [← hq] at hdrop₀
  rw [loadObjects]
  split
  · split
    · rename_i hdrop
      rw [hdrop₀, hq] at hdrop
      cases hdrop
    · rename_i c q' hdrop
      rw [hdrop₀, hq] at hdrop
      obtain ⟨rfl, rfl⟩ := List.cons.inj hdrop
      have htake : (openBrace :: q).take ((openBrace :: q).length - t.length) = o.text := by
        rw [← hq, List.length_append, Nat.add_sub_cancel, List.take_left]
      dsimp only
      rw [if_neg (by decide), hskip, htake]
  · rfl

/-- The array behind its first element. -/
def moreElements (after : Bytes) (es : List Element) : Bytes :=
  es.flatMap (fun e => comma :: e.text) ++ closeBracket :: after

theorem loadObjects_more (hw : Passed w) (s : NewspaperService) (after : Bytes) (es : List Element) :
    loadObjects s (w ++ moreElements after es) = run s (es.map Element.object) := by
  induction es generalizing s w with
  | nil => exact loadObjects_end hw s after
  | cons e es ih =>
      have htext : w ++ moreElements after (e :: es) = (w ++ comma :: e.lead.bytes) ++
          (e.object.text ++ (e.trail.bytes ++ moreElements after es)) := by
        simp [moreElements, Element.text]
      have hpassed : Passed (w ++ comma :: e.lead.bytes) := by
        intro c hc
        rcases List.mem_append.mp hc with hc | hc
        · exact hw c hc
        · rcases List.mem_cons.mp hc with rfl | hc
          · decide
          · exact passed_ws e.lead c hc
      rw [htext, loadObjects_object hpassed, List.map_cons, run]
      split
      · exact ih (passed_ws e.trail) _
      · rfl

theorem loadObjects_array (s : NewspaperService) (pad : Ws) (after : Bytes) (es : List Element) :
    loadObjects s (listed Element.text pad es ++ closeBracket :: after) = run s (es.map Element.object) := by
  cases es with
  | nil => exact loadObjects_end (passed_ws pad) s after
  | cons e es =>
      have htext : listed Element.text pad (e :: es) ++ closeBracket :: after =
          e.lead.bytes ++ (e.object.text ++ (e.trail.bytes ++ moreElements after es)) := by
        simp [listed, Element.text, moreElements]
      rw [htext, loadObjects_object (passed_ws e.lead), List.map_cons, run]
      split
      · exact loadObjects_more (passed_ws e.trail) _ after es
      · rfl

/-- What is passed over before the search for the bracket has no bracket. -/
theorem dropWhile_isGap_dropWhile (t : Bytes) :
    (t.dropWhile isGap).dropWhile (· ≠ openBracket) = t.dropWhile (· ≠ openBracket) := by
  induction t with
  | nil => rfl
  | cons c t ih =>
      by_cases hgap : isGap c = true
      · have hne : c ≠ openBracket := by
          rintro rfl
          exact absurd hgap (by decide)
        rw [List.dropWhile_cons_of_pos hgap, ih, List.dropWhile_cons_of_pos (by simpa using hne)]
      · rw [List.dropWhile_cons_of_neg hgap]

/-- The service as the loop over the array finds it. -/
def atArray (s : NewspaperService) (body : Bytes) : NewspaperService :=
  { readLatest s body with issueCount := 0, log := [] }

/-- The search for the bracket ends at the array's. -/
theorem bracket_document {d : Document} (h : ReachesArray d) :
    ∃ v, jsonFindKey d.text (ascii "issues") = some v ∧
      v.dropWhile (· ≠ openBracket) =
        openBracket :: (listed Element.text d.pad d.elements ++ closeBracket :: d.after) := by
  obtain ⟨v, hv, hbracket⟩ := h
  let array := listed Element.text d.pad d.elements ++ closeBracket :: d.after
  have hbehind := Search.behind_append hv
    (d.beforeColon.bytes ++ colon :: (d.afterColon.bytes ++ openBracket :: array))
  have hfound : (v ++ (d.beforeColon.bytes ++ colon :: (d.afterColon.bytes ++ openBracket :: array))).dropWhile
      (· ≠ openBracket) = openBracket :: array := by
    have htext : v ++ (d.beforeColon.bytes ++ colon :: (d.afterColon.bytes ++ openBracket :: array)) =
        (v ++ d.beforeColon.bytes ++ colon :: d.afterColon.bytes) ++ openBracket :: array := by simp
    rw [htext]
    refine dropWhile_append ?_ (by simp)
    intro c hc
    have hws (w : Ws) (hc : c ∈ w.bytes) : c ≠ openBracket := by
      rintro rfl
      rcases w.space _ hc with h | h | h | h <;> exact absurd h (by decide)
    simp only [List.mem_append, List.mem_cons] at hc
    rcases hc with (hc | hc) | rfl | hc
    · simpa using fun heq : c = openBracket => hbracket (heq ▸ hc)
    · simpa using hws _ hc
    · decide
    · simpa using hws _ hc
  have htext : d.text = d.before ++ (Value.str d.name).text ++
      (d.beforeColon.bytes ++ colon :: (d.afterColon.bytes ++ openBracket :: array)) := by
    simp [Document.text, array]
  rw [← htext] at hbehind
  rw [← dropWhile_isGap_dropWhile] at hfound
  refine ⟨_, ?_, hfound⟩
  unfold jsonFindKey
  rw [hbehind]
  dsimp only
  rw [if_neg]
  intro hnil
  rw [hnil] at hfound
  cases hfound

theorem newsLoadIndex_document {d : Document} (h : ReachesArray d) (s : NewspaperService) :
    (newsLoadIndex s (some d.text)).2 = run (atArray s d.text) d.objects := by
  obtain ⟨v, hv, hbracket⟩ := bracket_document h
  unfold newsLoadIndex
  dsimp only
  rw [hv]
  dsimp only
  rw [hbracket]
  dsimp only
  exact loadObjects_array _ _ _ _

end Text

/-! ### The index -/

section Index

variable {s : NewspaperService} {os : List Object}

/-- The issues of the objects that were read are those of all objects that the table has room for. -/
theorem issues_of_own (htable : Table s) {k : Nat} (hlog : List.Forall₂ Yields (os.take k) s.log)
    (hend : k = os.length ∨ s.issueCount = newsMaxIssues) :
    List.Forall₂ IssueOf ((os.filter (·.str "id" ≠ [])).take newsMaxIssues) s.issueList := by
  have hread : ∀ {os : List Object} {log : List (Option Issue)}, List.Forall₂ Yields os log →
      List.Forall₂ IssueOf (os.filter (·.str "id" ≠ [])) (log.filterMap id) := by
    intro os log h
    induction h with
    | nil => exact .nil
    | @cons o r os log hyields _ ih =>
        cases r with
        | none =>
            have hid : o.str "id" = [] := hyields
            rw [List.filter_cons_of_neg (by simp [hid])]
            exact ih
        | some it =>
            rw [List.filter_cons_of_pos (by simp [hyields.1])]
            exact .cons hyields.2 ih
  have hissues := hread hlog
  have hlength := hissues.length_eq
  rw [htable.length] at hlength
  rw [htable.issues]
  have htake : (os.filter (·.str "id" ≠ [])).take newsMaxIssues = (os.take k).filter (·.str "id" ≠ []) := by
    rcases hend with rfl | hfull
    · rw [List.take_length] at hlength ⊢
      exact List.take_of_length_le (hlength ▸ htable.room)
    · rw [← List.take_append_drop k os, List.filter_append, List.take_append_drop k os,
        List.take_append_of_le_length (by rw [hlength, hfull]),
        List.take_of_length_le (by rw [hlength, hfull])]
  rw [htake]
  exact hissues

/-- A text without anything to escape. -/
def plainString (s : String) : JsonString :=
  (ascii s).filterMap fun c =>
    if ok : c ≠ quote ∧ c ≠ backslash ∧ 0x20 ≤ c then some (.plain c ok) else none

def textMember (key value : String) : Member :=
  { key := plainString key
    value := .str (plainString value) }

/-- A service that has not loaded an index. -/
def freshService : NewspaperService :=
  { latest := List.replicate 16 0
    issues := fun _ =>
      { id := List.replicate 16 0
        title := List.replicate 256 0
        pageCount := 0
        pdfPath := List.replicate 64 0
        coverPath := List.replicate 64 0 }
    issueCount := 0 }

/-- The document `{"issues":[..]}`. -/
def documentOf (objects : List Object) : Document :=
  { before := [openBrace]
    name := plainString "issues"
    named := by decide
    elements := objects.map fun o => { object := o }
    after := [closeBrace] }

/-- A value that is the name of a field, in front of the field. -/
def titleNote : Object :=
  { members := [textMember "id" "gt1", textMember "note" "title", textMember "title" "Athens"] }

end Index

end UnicornSuite.News
