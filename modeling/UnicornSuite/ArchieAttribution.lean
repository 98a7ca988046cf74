import UnicornSuite.ArchieBody
import UnicornSuite.LibFirsts
import UnicornSuite.LibRecords

/-! Which hit an attribute line goes to. `cur` is the last hit made, and a LINK line that is skipped
leaves it as it is. So a hit takes the attribute lines up to the next LINK line that is used, and not
only those up to the next LINK line. -/

namespace UnicornSuite.Archie

open CText Records Latest

/-- A line of the LINK kind, used or skipped. -/
def isLink (line : CString) : Bool :=
  match readLine line with
  | .link _ => true
  | _ => false

/-- The hit a line makes. -/
def usable (line : CString) : Option ArchieHit :=
  match readLine line with
  | .link hit => hit
  | _ => none

/-- What a line stores in a hit. -/
def attrOf (line : CString) : Option (CString × CString) :=
  match readLine line with
  | .attr a => a
  | _ => none

/-- A hit with its attributes stored one after the other. -/
def storeAttrs (g : ArchieHit × List (CString × CString)) : ArchieHit :=
  Machine.run (fun h a => archieStoreAttr h a.1 a.2) g.1 g.2

/-- The hits as they should be: those of the LINK lines that are used, each with the attribute lines
that follow it up to the next LINK line. -/
def attributed (lines : List CString) : List ArchieHit :=
  (groups usable isLink attrOf lines).map storeAttrs

/-- The hits as the parser makes them. -/
def collected (lines : List CString) : List ArchieHit :=
  (groups usable (fun l => (usable l).isSome) attrOf lines).map storeAttrs

section Parser

variable {realloc : Nat → Bool} {st st' : Parse}

theorem addHit_ok {hit : ArchieHit} (h : addHit realloc st hit = .ok st') :
    st'.hits = st.hits ++ [hit] ∧ st'.cur = some st.hits.length := by
  unfold addHit at h
  dsimp only at h
  generalize (if st.hits.length = st.cap then if st.cap = 0 then 32 else st.cap * 2 else st.cap) = cap at h
  split at h
  · cases h
  · cases h
    exact ⟨rfl, rfl⟩

theorem addHit_error {hit : ArchieHit} (h : addHit realloc st hit = .error st') :
    ∃ cap, realloc cap = false := by
  unfold addHit at h
  dsimp only at h
  generalize (if st.hits.length = st.cap then if st.cap = 0 then 32 else st.cap * 2 else st.cap) = cap at h
  split at h
  · rename_i hfull
    exact ⟨cap, hfull.2⟩
  · cases h

theorem modify_last {α : Type} (l : List α) (a : α) (f : α → α) :
    (l ++ [a]).modify l.length f = l ++ [f a] := by
  induction l with
  | nil => rfl
  | cons b l ih => rw [List.cons_append, List.length_cons, List.modify_succ_cons, ih, List.cons_append]

/-- What `archieStoreAttr` does with the current hit, if there is one. -/
def storeCurrent (st : Parse) (a : CString × CString) : List ArchieHit :=
  match st.cur with
  | some cur => st.hits.modify cur fun h => archieStoreAttr h a.1 a.2
  | none => st.hits

/-- A line makes a hit, or stores an attribute in the current one, or leaves the hits alone. -/
theorem parseLine_ok {line : CString} (h : parseLine realloc st line = .ok st') :
    (∃ hit, usable line = some hit ∧ st'.hits = st.hits ++ [hit] ∧ st'.cur = some st.hits.length) ∨
      (∃ a, usable line = none ∧ attrOf line = some a ∧ st'.hits = storeCurrent st a ∧
        st'.cur = st.cur) ∨
      usable line = none ∧ attrOf line = none ∧ st'.hits = st.hits ∧ st'.cur = st.cur := by
  unfold usable attrOf
  unfold parseLine at h
  cases hline : readLine line with
  | attr a =>
      rw [hline] at h
      cases a with
      | none =>
          have heq : st = st' := by cases hcur : st.cur <;> rw [hcur] at h <;> exact Except.ok.inj h
          exact Or.inr (Or.inr ⟨rfl, rfl, heq ▸ rfl, heq ▸ rfl⟩)
      | some a =>
          refine Or.inr (Or.inl ⟨a, rfl, rfl, ?_⟩)
          unfold storeCurrent
          cases hcur : st.cur with
          | none =>
              rw [hcur] at h
              cases h
              exact ⟨rfl, hcur⟩
          | some cur =>
              rw [hcur] at h
              cases h
              exact ⟨rfl, rfl⟩
  | link hit =>
      rw [hline] at h
      cases hit with
      | none =>
          cases h
          exact Or.inr (Or.inr ⟨rfl, rfl, rfl, rfl⟩)
      | some hit => exact Or.inl ⟨hit, rfl, addHit_ok h⟩
  | noneFound =>
      rw [hline] at h
      cases h
      exact Or.inr (Or.inr ⟨rfl, rfl, rfl, rfl⟩)
  | error =>
      rw [hline] at h
      cases h
      refine Or.inr (Or.inr ⟨rfl, rfl, ?_, ?_⟩) <;> split <;> rfl
  | warning =>
      rw [hline] at h
      cases h
      refine Or.inr (Or.inr ⟨rfl, rfl, ?_, ?_⟩) <;> split <;> rfl
  | other =>
      rw [hline] at h
      cases h
      exact Or.inr (Or.inr ⟨rfl, rfl, rfl, rfl⟩)

theorem parseLine_error {line : CString} (h : parseLine realloc st line = .error st') :
    ∃ cap, realloc cap = false := by
  unfold parseLine at h
  split at h
  · split at h <;> cases h
  · cases h
  · exact addHit_error h
  all_goals cases h

theorem parseLines_error {lines : List CString} (h : parseLines realloc st lines = .error st') :
    ∃ cap, realloc cap = false := by
  induction lines generalizing st with
  | nil => cases h
  | cons line lines ih =>
      cases hline : parseLine realloc st line with
      | error st₁ => exact parseLine_error hline
      | ok st₁ =>
          have hrest : parseLines realloc st₁ lines = .error st' := by
            rw [← h, parseLines, parseLines, List.foldlM_cons, hline]
            rfl
          exact ih hrest

theorem parseLines_cons {line : CString} {lines : List CString}
    (h : parseLines realloc st (line :: lines) = .ok st') :
    ∃ st₁, parseLine realloc st line = .ok st₁ ∧ parseLines realloc st₁ lines = .ok st' := by
  rw [parseLines, List.foldlM_cons] at h
  cases hline : parseLine realloc st line with
  | error st₁ =>
      rw [hline] at h
      cases h
  | ok st₁ =>
      rw [hline] at h
      exact ⟨st₁, rfl, h⟩

/-- The attributes a hit still gets from the lines behind it. -/
abbrev laterAttrs (lines : List CString) : List (CString × CString) :=
  items (fun l => (usable l).isSome) attrOf lines

theorem laterAttrs_usable {line : CString} {hit : ArchieHit} (h : usable line = some hit)
    (lines : List CString) : laterAttrs (line :: lines) = [] := by
  simp [laterAttrs, items, h]

theorem laterAttrs_cons {line : CString} (h : usable line = none) (lines : List CString) :
    laterAttrs (line :: lines) = (attrOf line).toList ++ laterAttrs lines := by
  cases hattr : attrOf line <;> simp [laterAttrs, items, h, hattr]

/-- The loop goes on with the last hit until it makes the next one. -/
theorem parseLines_hits {lines : List CString} {before : List ArchieHit} {hit : ArchieHit}
    (hhits : st.hits = before ++ [hit]) (hcur : st.cur = some before.length)
    (h : parseLines realloc st lines = .ok st') :
    st'.hits = before ++ storeAttrs (hit, laterAttrs lines) :: collected lines := by
  induction lines generalizing st before hit with
  | nil =>
      cases h
      exact hhits
  | cons line lines ih =>
      obtain ⟨st₁, hline, hrest⟩ := parseLines_cons h
      rcases parseLine_ok hline with ⟨hit', husable, hhits₁, hcur₁⟩ | hkept
      · rw [ih hhits₁ hcur₁ hrest, laterAttrs_usable husable, collected, collected,
          groups_cons_some husable, hhits, List.map_cons, List.append_assoc]
        rfl
      · rcases hkept with ⟨a, husable, hattr, hhits₁, hcur₁⟩ | ⟨husable, hattr, hhits₁, hcur₁⟩
        · have hstored : st₁.hits = before ++ [archieStoreAttr hit a.1 a.2] := by
            rw [hhits₁, storeCurrent, hcur, hhits]
            exact modify_last _ hit _
          rw [ih hstored (hcur₁.trans hcur) hrest, laterAttrs_cons husable, hattr, collected,
            collected, groups_cons_none husable]
          rfl
        · rw [ih (hhits₁.trans hhits) (hcur₁.trans hcur) hrest, laterAttrs_cons husable, hattr,
            collected, collected, groups_cons_none husable]
          rfl

theorem parseLines_collected {lines : List CString} (hhits : st.hits = []) (hcur : st.cur = none)
    (h : parseLines realloc st lines = .ok st') : st'.hits = collected lines := by
  induction lines generalizing st with
  | nil =>
      cases h
      exact hhits
  | cons line lines ih =>
      obtain ⟨st₁, hline, hrest⟩ := parseLines_cons h
      rcases parseLine_ok hline with ⟨hit', husable, hhits₁, hcur₁⟩ | hkept
      · rw [hhits] at hhits₁ hcur₁
        rw [parseLines_hits hhits₁ hcur₁ hrest, collected, collected, groups_cons_some husable]
        rfl
      · have hnone : usable line = none := by
          rcases hkept with ⟨_, husable, _⟩ | ⟨husable, _⟩ <;> exact husable
        have hkeeps : st₁.hits = [] ∧ st₁.cur = none := by
          rcases hkept with ⟨a, _, _, hhits₁, hcur₁⟩ | ⟨_, _, hhits₁, hcur₁⟩
          · exact ⟨by rw [hhits₁, storeCurrent, hcur]; exact hhits, hcur₁.trans hcur⟩
          · exact ⟨hhits₁.trans hhits, hcur₁.trans hcur⟩
        rw [ih hkeeps.1 hkeeps.2 hrest, collected, collected, groups_cons_none hnone]

end Parser

/-! ### What is stored -/

section Stored

/-- What an attribute stores as the size of a hit. -/
def sizeOf? (a : CString × CString) : Option CString :=
  if a.1 = ascii "SIZE" then some (sizeValue a.2 64) else none

def modeOf? (a : CString × CString) : Option CString :=
  if a.1 = ascii "UNIX-MODES" then (nextField 48 a.2).map fun m => copyBounded 48 m.1 else none

def dateOf? (a : CString × CString) : Option CString :=
  if a.1 = ascii "LAST-MODIFIED" then some (copyBounded 96 a.2) else none

/-- An attribute stores what it has for each of the three fields, and touches no other. -/
theorem archieStoreAttr_eq (h : ArchieHit) (a : CString × CString) :
    archieStoreAttr h a.1 a.2 =
      { h with
        size := (sizeOf? a).getD h.size
        mode := (modeOf? a).getD h.mode
        date := (dateOf? a).getD h.date } := by
  unfold archieStoreAttr sizeOf? modeOf? dateOf?
  split
  · rename_i hname
    rw [hname]
    rfl
  · split
    · rename_i hname
      rw [hname, if_neg (by decide)]
      cases nextField 48 a.2 <;> rfl
    · split <;> rfl

theorem storeAttrs_eq (hit : ArchieHit) (as : List (CString × CString)) :
    storeAttrs (hit, as) =
      { hit with
        size := (last? sizeOf? as).getD hit.size
        mode := (last? modeOf? as).getD hit.mode
        date := (last? dateOf? as).getD hit.date } := by
  induction as using List.reverseRecOn with
  | nil => rfl
  | append_singleton as a ih =>
      have hstep : storeAttrs (hit, as ++ [a]) = archieStoreAttr (storeAttrs (hit, as)) a.1 a.2 :=
        Machine.run_append _ hit as [a]
      rw [hstep, archieStoreAttr_eq, ih, last?_concat, last?_concat, last?_concat]
      cases sizeOf? a <;> cases modeOf? a <;> cases dateOf? a <;> rfl

/-- A hit is made without a size, a mode or a date. -/
theorem usable_fresh {line : CString} {hit : ArchieHit} (h : usable line = some hit) :
    hit.size = [] ∧ hit.mode = [] ∧ hit.date = [] := by
  unfold usable at h
  split at h
  · rename_i hline
    subst h
    have hlink : linkHit line = some hit := by
      unfold readLine at hline
      split_ifs at hline
      exact Line.link.inj hline
    unfold linkHit at hlink
    dsimp only at hlink
    split_ifs at hlink
    cases hlink
    exact ⟨rfl, rfl, rfl⟩
  · cases h

end Stored

/-! ### The condition -/

/-- The attribute lines of a hit: those up to the next LINK line. -/
def ownAttrs (post : List CString) : List (CString × CString) := items isLink attrOf post

/-- The attribute lines behind a skipped LINK line, up to the next one that is used. -/
def strayAttrs (post : List CString) : List (CString × CString) :=
  laterAttrs (post.dropWhile fun l => !isLink l)

/-- Of each kind, the last attribute line behind a skipped LINK line stores what the hit before it
has anyhow. -/
def StraysAgree (lines : List CString) : Prop :=
  ∀ line post, (line :: post) <:+ lines → ∀ hit, usable line = some hit →
    ∀ field ∈ [sizeOf?, modeOf?, dateOf?], ∀ value, last? field (strayAttrs post) = some value →
      value = (last? field (ownAttrs post)).getD []

section Condition

theorem isLink_of_usable (line : CString) (h : (usable line).isSome = true) : isLink line = true := by
  unfold usable at h
  unfold isLink
  split at h
  · rfl
  · cases h

theorem laterAttrs_eq (post : List CString) : laterAttrs post = ownAttrs post ++ strayAttrs post :=
  items_append isLink_of_usable post

theorem getD_or_eq_iff (x y : Option CString) :
    (x.or y).getD [] = y.getD [] ↔ ∀ value, x = some value → value = y.getD [] := by
  cases x with
  | none => exact iff_of_true rfl fun _ h => nomatch h
  | some value => exact ⟨fun h _ hv => Option.some.inj hv ▸ h, fun h => h value rfl⟩

theorem storeAttrs_agree_iff {line : CString} {hit : ArchieHit} (h : usable line = some hit)
    (post : List CString) :
    storeAttrs (hit, laterAttrs post) = storeAttrs (hit, ownAttrs post) ↔
      ∀ field ∈ [sizeOf?, modeOf?, dateOf?], ∀ value,
        last? field (strayAttrs post) = some value → value = (last? field (ownAttrs post)).getD [] := by
  obtain ⟨hsize, hmode, hdate⟩ := usable_fresh h
  rw [storeAttrs_eq, storeAttrs_eq, laterAttrs_eq, last?_append, last?_append, last?_append, hsize,
    hmode, hdate, ArchieHit.mk.injEq]
  simp only [true_and, List.forall_mem_cons, List.not_mem_nil, false_imp_iff, implies_true, and_true,
    getD_or_eq_iff]

theorem collected_eq_iff (lines : List CString) :
    collected lines = attributed lines ↔ StraysAgree lines := by
  rw [collected, attributed, map_groups_eq_iff]
  exact forall₅_congr fun line post _ hit husable => storeAttrs_agree_iff husable post

/-- The parser has no memory for its table, or it returns hits, and these are the hits of the LINK
lines that are used, each with its own attributes, exactly where the stray ones agree with them. -/
theorem attribution_iff (realloc : Nat → Bool) (body : Bytes) :
    ((parseBody realloc body).status = .errNomem ∧ (parseBody realloc body).hits = none ∧
        ∃ cap, realloc cap = false) ∨
      ∃ hits, (parseBody realloc body).hits = some hits ∧
        (hits = attributed (bodyLines body) ↔ StraysAgree (bodyLines body)) := by
  unfold parseBody
  cases hparse : parseLines realloc {} (bodyLines body) with
  | error st => exact Or.inl ⟨rfl, rfl, parseLines_error hparse⟩
  | ok st =>
      have hhits : st.hits = collected (bodyLines body) := parseLines_collected rfl rfl hparse
      refine Or.inr ⟨st.hits, ?_, by rw [hhits, collected_eq_iff]⟩
      dsimp only
      split_ifs <;> rfl

/-- A file, and a directory with its size. -/
def directoryReply : Bytes :=
  [ascii "LINK L EXTERNAL a INTERNET-D h ASCII /p/a 0 0", ascii "LINK L DIRECTORY b INTERNET-D h ASCII /p/b 0 0",
    ascii "ATTRIBUTE CACHED FIELD SIZE SEQUENCE 5 bytes"].flatMap (· ++ [nl])

/-- The directory is skipped, and its size is stored in the hit of the file. -/
theorem attribution_strays : ¬ ∀ (realloc : Nat → Bool) (body : Bytes) (hits : List ArchieHit),
    (parseBody realloc body).hits = some hits → hits = attributed (bodyLines body) := by
  intro hall
  have hparse : (parseBody (fun _ => true) directoryReply).hits =
      some [{ name := ascii "a", host := ascii "h", hsoname := ascii "/p/a", dir := ascii "/p",
              filename := ascii "a", size := ascii "5" }] := by
    decide +kernel
  exact absurd (hall _ _ _ hparse) (by decide +kernel)

end Condition

end UnicornSuite.Archie
