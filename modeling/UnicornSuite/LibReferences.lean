import Mathlib.Data.List.Basic
import Mathlib.Data.List.Infix

/-! Texts with references in them, each a start byte, a name and a stop byte. Two writers go through the
same text; where they differ, one leaves a reference as it is and the other writes something shorter for
it. If the first only ever leaves names that the second never leaves, they write the same text only
where they do not differ at all (`same_of_written`): the one that is ahead stays ahead, since what the
other leaves would have to be written by the first as well. -/

namespace References

variable {α : Type*}

/-- A piece of a text: both write the same, or one leaves a reference for which the other writes `w`. -/
inductive Piece (α : Type*) where
  | same (a : α)
  | left (name w : List α)
  | right (name w : List α)

section Writers

variable (start stop : α)

def reference (name : List α) : List α := start :: (name ++ [stop])

/-- What the first writer makes of a piece. -/
def Piece.first : Piece α → List α
  | same a => [a]
  | left name _ => reference start stop name
  | right _ w => w

def Piece.second : Piece α → List α
  | same a => [a]
  | left _ w => w
  | right name _ => reference start stop name

def Piece.swap : Piece α → Piece α
  | same a => same a
  | left name w => right name w
  | right name w => left name w

def Piece.isSame : Piece α → Bool
  | same _ => true
  | _ => false

def first (ps : List (Piece α)) : List α := ps.flatMap (Piece.first start stop)

def second (ps : List (Piece α)) : List α := ps.flatMap (Piece.second start stop)

/-- The names the first writer leaves are not of the kind `P`, those the second leaves are; what stands
for a reference is shorter. -/
def Piece.Ok (P : List α → Prop) : Piece α → Prop
  | same _ => True
  | left name w => start ∉ name ∧ stop ∉ name ∧ ¬ P name ∧ w.length < name.length + 2
  | right name w => start ∉ name ∧ stop ∉ name ∧ P name ∧ w.length < name.length + 2

variable {start stop}

@[simp] theorem first_nil : first start stop ([] : List (Piece α)) = [] := rfl

@[simp] theorem second_nil : second start stop ([] : List (Piece α)) = [] := rfl

theorem first_cons (p : Piece α) (ps : List (Piece α)) :
    first start stop (p :: ps) = p.first start stop ++ first start stop ps := List.flatMap_cons

theorem second_cons (p : Piece α) (ps : List (Piece α)) :
    second start stop (p :: ps) = p.second start stop ++ second start stop ps := List.flatMap_cons

theorem first_swap (ps : List (Piece α)) :
    first start stop (ps.map Piece.swap) = second start stop ps := by
  induction ps with
  | nil => rfl
  | cons p ps ih =>
      rw [List.map_cons, first_cons, second_cons, ih]
      cases p <;> rfl

theorem second_swap (ps : List (Piece α)) :
    second start stop (ps.map Piece.swap) = first start stop ps := by
  induction ps with
  | nil => rfl
  | cons p ps ih =>
      rw [List.map_cons, first_cons, second_cons, ih]
      cases p <;> rfl

theorem Piece.Ok.swap {P : List α → Prop} {p : Piece α} (h : p.Ok start stop P) :
    p.swap.Ok start stop (fun name => ¬ P name) := by
  cases p with
  | same a => trivial
  | left name w => exact h
  | right name w => exact ⟨h.1, h.2.1, not_not.mpr h.2.2.1, h.2.2.2⟩

end Writers

/-! ### The first name that is stopped -/

section Names

variable {start stop : α} {P : List α → Prop}

/-- The first stop byte of a text ends a reference whose name is of the kind `P`. -/
def Opens (start stop : α) (P : List α → Prop) (s : List α) : Prop :=
  ∃ g name r, s = g ++ (reference start stop name ++ r) ∧ stop ∉ g ∧ start ∉ name ∧ stop ∉ name ∧ P name

/-- The part up to the first stop byte is determined. -/
theorem cut_unique {u v r r' : List α} (hu : stop ∉ u) (hv : stop ∉ v)
    (h : u ++ stop :: r = v ++ stop :: r') : u = v ∧ r = r' := by
  induction u generalizing v with
  | nil =>
      cases v with
      | nil => exact ⟨rfl, (List.cons.inj h).2⟩
      | cons b v =>
          have hb := (List.cons.inj h).1
          rw [hb] at hv
          exact absurd List.mem_cons_self hv
  | cons a u ih =>
      cases v with
      | nil =>
          have ha := (List.cons.inj h).1
          rw [← ha] at hu
          exact absurd List.mem_cons_self hu
      | cons b v =>
          obtain ⟨hab, htail⟩ := List.cons.inj h
          obtain ⟨huv, hr⟩ := ih (List.not_mem_of_not_mem_cons hu) (List.not_mem_of_not_mem_cons hv) htail
          exact ⟨by rw [hab, huv], hr⟩

theorem reference_append (name r : List α) :
    reference start stop name ++ r = start :: (name ++ stop :: r) := by
  simp [reference]

theorem exists_of_suffix_concat {b u : List α} {a : α} (h : b <:+ u ++ [a]) (hb : b ≠ []) :
    ∃ c, b = c ++ [a] ∧ c <:+ u := by
  rcases List.eq_nil_or_concat b with rfl | ⟨c, x, rfl⟩
  · exact absurd rfl hb
  · obtain ⟨t, ht⟩ := h
    rw [List.concat_eq_append, ← List.append_assoc] at ht
    obtain ⟨hu, hx⟩ := List.append_inj' ht rfl
    obtain rfl := List.head_eq_of_cons_eq hx
    exact ⟨c, List.concat_eq_append, ⟨t, hu⟩⟩

/-- A name behind the last start byte is determined. -/
theorem name_unique {g g' n n' : List α} (hn : start ∉ n) (hn' : start ∉ n')
    (h : g ++ start :: n = g' ++ start :: n') : n = n' := by
  have hrev := congrArg List.reverse h
  simp only [List.reverse_append, List.reverse_cons, List.append_assoc, List.singleton_append] at hrev
  have hcut := cut_unique (by simpa using hn) (by simpa using hn') hrev
  exact List.reverse_injective hcut.1

variable (hne : start ≠ stop)
include hne

theorem not_opens_reference {name : List α} (hstart : start ∉ name) (hstop : stop ∉ name)
    (hP : ¬ P name) {g : List α} (hg : stop ∉ g) (r : List α) :
    ¬ Opens start stop P (g ++ (reference start stop name ++ r)) := by
  rintro ⟨g', name', r', heq, hg', hstart', hstop', hP'⟩
  rw [reference_append, reference_append] at heq
  have hu : stop ∉ g ++ start :: name := by
    simp only [List.mem_append, List.mem_cons, not_or]
    exact ⟨hg, hne.symm, hstop⟩
  have hu' : stop ∉ g' ++ start :: name' := by
    simp only [List.mem_append, List.mem_cons, not_or]
    exact ⟨hg', hne.symm, hstop'⟩
  have hsplit : (g ++ start :: name) ++ stop :: r = (g' ++ start :: name') ++ stop :: r' := by
    simpa using heq
  have hcut := cut_unique hu hu' hsplit
  exact hP (name_unique hstart hstart' hcut.1 ▸ hP')

/-- Behind the start byte of a reference no other is opened. -/
theorem not_opens_name {name : List α} (hstart : start ∉ name) (hstop : stop ∉ name) (r : List α) :
    ¬ Opens start stop P (name ++ stop :: r) := by
  rintro ⟨g', name', r', heq, hg', hstart', hstop', -⟩
  rw [reference_append] at heq
  have hu' : stop ∉ g' ++ start :: name' := by
    simp only [List.mem_append, List.mem_cons, not_or]
    exact ⟨hg', hne.symm, hstop'⟩
  have hsplit : name ++ stop :: r = (g' ++ start :: name') ++ stop :: r' := by
    simpa using heq
  have hcut := cut_unique hstop hu' hsplit
  rw [hcut.1] at hstart
  exact hstart (by simp)

/-- What stands behind the first stop byte does not matter. -/
theorem Opens.behind {g r : List α} (h : Opens start stop P (g ++ stop :: r)) (hg : stop ∉ g)
    (r' : List α) : Opens start stop P (g ++ stop :: r') := by
  obtain ⟨g', name, r₁, heq, hg', hstart, hstop, hP⟩ := h
  rw [reference_append] at heq
  have hu' : stop ∉ g' ++ start :: name := by
    simp only [List.mem_append, List.mem_cons, not_or]
    exact ⟨hg', hne.symm, hstop⟩
  have hsplit : g ++ stop :: r = (g' ++ start :: name) ++ stop :: r₁ := by
    simpa using heq
  have hcut := cut_unique hg hu' hsplit
  refine ⟨g', name, r', ?_, hg', hstart, hstop, hP⟩
  rw [reference_append, hcut.1]
  simp

end Names

/-! ### The two texts -/

section Texts

variable {start stop : α} {P : List α → Prop} {ps : List (Piece α)}

/-- A name of the kind `P` that opens in what the first writes opens in what the second writes. -/
theorem opens_second (hne : start ≠ stop) (hok : ∀ p ∈ ps, p.Ok start stop P) {g : List α}
    (hg : stop ∉ g) (h : Opens start stop P (g ++ first start stop ps)) :
    Opens start stop P (g ++ second start stop ps) := by
  induction ps generalizing g with
  | nil => exact h
  | cons p ps ih =>
      have hp := hok p List.mem_cons_self
      have hrest := fun q hq => hok q (List.mem_cons_of_mem p hq)
      rw [first_cons] at h
      rw [second_cons]
      cases p with
      | same a =>
          by_cases ha : a = stop
          · subst ha
            exact h.behind hne hg _
          · have hga : stop ∉ g ++ [a] := by
              simp only [List.mem_append, List.mem_singleton, not_or]
              exact ⟨hg, Ne.symm ha⟩
            have hstep := ih hrest (g := g ++ [a]) hga (by simpa [Piece.first] using h)
            simpa [Piece.second] using hstep
      | left name w => exact absurd h (not_opens_reference hne hp.1 hp.2.1 hp.2.2.1 hg _)
      | right name w => exact ⟨g, name, _, rfl, hg, hp.1, hp.2.1, hp.2.2.1⟩

/-- No name of the kind `P` opens in the bytes the first writer is ahead. -/
def Closed (start stop : α) (P : List α → Prop) (ahead : List α) (ps : List (Piece α)) : Prop :=
  ∀ b, b <:+ ahead → b ≠ [] → ¬ Opens start stop P (b ++ first start stop ps)

/-- A reference the first writer leaves puts it ahead, or more so. -/
theorem closed_left (hne : start ≠ stop) {name w ahead : List α}
    (hp : (Piece.left name w).Ok start stop P) (hclosed : Closed start stop P ahead (.left name w :: ps))
    (h : ahead ++ first start stop (.left name w :: ps) = second start stop (.left name w :: ps)) :
    ∃ ahead', ahead' ≠ [] ∧ Closed start stop P ahead' ps ∧
      ahead' ++ first start stop ps = second start stop ps := by
  obtain ⟨hstart, hstop, hP, hlen⟩ := hp
  rw [first_cons, second_cons, Piece.first, Piece.second, ← List.append_assoc] at h
  have hshort : w.length < (ahead ++ reference start stop name).length := by
    simp only [reference, List.length_append, List.length_cons, List.length_nil]
    omega
  obtain ⟨ahead', hahead, hsecond⟩ :
      ∃ t, ahead ++ reference start stop name = w ++ t ∧ second start stop ps = t ++ first start stop ps := by
    rcases List.append_eq_append_iff.mp h with ⟨t, hw, hfirst⟩ | ⟨t, hahead, hsecond⟩
    · rw [hw, List.length_append] at hshort
      omega
    · exact ⟨t, hahead, hsecond⟩
  refine ⟨ahead', ?_, ?_, hsecond.symm⟩
  · rintro rfl
    rw [hahead, List.append_nil] at hshort
    exact Nat.lt_irrefl _ hshort
  · intro b hb hnil
    -- A suffix of the reference, or one that reaches into what was ahead before.
    have hsuffix : b <:+ ahead ++ reference start stop name := hahead ▸ hb.trans (List.suffix_append _ _)
    rcases List.suffix_or_suffix_of_suffix hsuffix (List.suffix_append _ _) with hinside | ⟨c, rfl⟩
    · rcases List.suffix_cons_iff.mp hinside with rfl | hname
      · exact not_opens_reference hne hstart hstop hP (g := []) List.not_mem_nil _
      · obtain ⟨n, rfl, hn⟩ := exists_of_suffix_concat hname hnil
        rw [List.append_assoc]
        exact not_opens_name hne (fun hmem => hstart (hn.subset hmem)) (fun hmem => hstop (hn.subset hmem)) _
    · have hc := List.suffix_append_self_iff.mp hsuffix
      by_cases hcnil : c = []
      · subst hcnil
        exact not_opens_reference hne hstart hstop hP (g := []) List.not_mem_nil _
      · have hopens := hclosed c hc hcnil
        rwa [first_cons, Piece.first, ← List.append_assoc] at hopens

/-- The first writer cannot be caught up with. -/
theorem not_ahead (hne : start ≠ stop) (hok : ∀ p ∈ ps, p.Ok start stop P) {ahead : List α}
    (hahead : ahead ≠ []) (hclosed : Closed start stop P ahead ps) :
    ahead ++ first start stop ps ≠ second start stop ps := by
  induction ps generalizing ahead with
  | nil => simpa using hahead
  | cons p ps ih =>
      intro h
      have hp := hok p List.mem_cons_self
      have hrest := fun q hq => hok q (List.mem_cons_of_mem p hq)
      cases p with
      | same a =>
          obtain ⟨b, ahead, rfl⟩ := List.exists_cons_of_ne_nil hahead
          have hself := hclosed (b :: ahead) List.suffix_rfl hahead
          rw [h] at hself
          rw [first_cons, second_cons, Piece.first, Piece.second, List.cons_append] at h
          obtain ⟨rfl, htail⟩ := List.cons.inj h
          have hahead : ahead ++ [b] ≠ [] := by simp
          refine ih hrest hahead ?_ (by simpa using htail)
          intro c hc hnil hopens
          obtain ⟨d, rfl, hd⟩ := exists_of_suffix_concat hc hnil
          by_cases hdnil : d = []
          · subst hdnil
            by_cases hb : b = stop
            · subst hb
              have hnil (a : α) : a ∉ ([] : List α) := List.not_mem_nil
              exact not_opens_name hne (hnil start) (hnil b) _ hopens
            · exact hself (opens_second hne hrest (g := [b]) (by simpa using Ne.symm hb) hopens)
          · refine hclosed d (hd.trans (List.suffix_cons _ _)) hdnil ?_
            rw [first_cons, Piece.first, ← List.append_assoc]
            exact hopens
      | left name w =>
          obtain ⟨ahead', hnil, hclosed', h'⟩ := closed_left hne hp hclosed h
          exact ih hrest hnil hclosed' h'
      | right name w =>
          refine hclosed ahead List.suffix_rfl hahead ?_
          rw [h, second_cons]
          exact ⟨[], name, _, rfl, List.not_mem_nil, hp.1, hp.2.1, hp.2.2.1⟩

/-- Where both write the same text, they write the same for every piece. -/
theorem same_of_written (hne : start ≠ stop) (hok : ∀ p ∈ ps, p.Ok start stop P)
    (h : first start stop ps = second start stop ps) : ∀ p ∈ ps, p.isSame = true := by
  induction ps with
  | nil => exact fun p hp => absurd hp List.not_mem_nil
  | cons p ps ih =>
      have hp := hok p List.mem_cons_self
      have hrest := fun q hq => hok q (List.mem_cons_of_mem p hq)
      have hleft {P : List α → Prop} {name w : List α} {ps : List (Piece α)}
          (hok : ∀ q ∈ Piece.left name w :: ps, q.Ok start stop P)
          (h : first start stop (.left name w :: ps) = second start stop (.left name w :: ps)) : False := by
        have hclosed : Closed start stop P [] (.left name w :: ps) := fun b hb hnil =>
          absurd (List.suffix_nil.mp hb) hnil
        obtain ⟨ahead, hnil, hclosed, h'⟩ := closed_left hne (hok _ List.mem_cons_self) hclosed h
        exact not_ahead hne (fun q hq => hok q (List.mem_cons_of_mem _ hq)) hnil hclosed h'
      cases p with
      | same a =>
          have htail := ih hrest (List.cons.inj h).2
          intro q hq
          rcases List.mem_cons.mp hq with rfl | hq
          · rfl
          · exact htail q hq
      | left name w => exact (hleft hok h).elim
      | right name w =>
          have hswap : ∀ q ∈ Piece.left name w :: ps.map Piece.swap, q.Ok start stop (fun n => ¬ P n) := by
            intro q hq
            rw [← Piece.swap, ← List.map_cons] at hq
            obtain ⟨p, hp, rfl⟩ := List.mem_map.mp hq
            exact (hok p hp).swap
          have hwritten : first start stop (Piece.left name w :: ps.map Piece.swap) =
              second start stop (Piece.left name w :: ps.map Piece.swap) := by
            rw [← Piece.swap, ← List.map_cons, first_swap, second_swap]
            exact h.symm
          exact (hleft hswap hwritten).elim

end Texts

end References
