import Mathlib.Data.Finset.Card
import Mathlib.Data.List.Perm.Basic
import UnicornSuite.LibRun

/-! A cache of a fixed number of lines that concurrent calls fill. A call looks its key up, makes the
value by itself when it misses, and looks again before it stores what it made; what it stores takes the
place of the first free line, or of the first whose last access is the oldest. Values own resources,
which are freed with them.

Of the steps of any number of calls in any order: no resource is lost and none freed twice
(`owned_run`), no key has two lines and each value was made for its key (`sound_run`), and a key that
was accessed is in the cache until as many others as there are lines have been accessed since
(`retained`). -/

namespace LruCache

open Machine

variable {κ β α ρ : Type*}

/-! ### Lines -/

structure Line (κ α : Type*) where
  key : κ
  value : α
  stamp : Nat

abbrev Lines (κ α : Type*) := List (Option (Line κ α))

def keys (l : Lines κ α) : List κ := l.filterMap fun o => o.map Line.key

@[simp] theorem keys_nil : keys ([] : Lines κ α) = [] := rfl

@[simp] theorem keys_cons_none (l : Lines κ α) : keys (none :: l) = keys l := rfl

@[simp] theorem keys_cons_some (e : Line κ α) (l : Lines κ α) : keys (some e :: l) = e.key :: keys l := rfl

@[simp] theorem keys_append (l l' : Lines κ α) : keys (l ++ l') = keys l ++ keys l' :=
  List.filterMap_append

theorem mem_keys {l : Lines κ α} {k : κ} : k ∈ keys l ↔ ∃ e, some e ∈ l ∧ e.key = k := by
  rw [keys, List.mem_filterMap]
  constructor
  · rintro ⟨o, ho, hk⟩
    obtain ⟨e, rfl, hkey⟩ := Option.map_eq_some_iff.mp hk
    exact ⟨e, ho, hkey⟩
  · rintro ⟨e, he, rfl⟩
    exact ⟨some e, he, rfl⟩

theorem length_keys {l : Lines κ α} (hfull : none ∉ l) : (keys l).length = l.length := by
  induction l with
  | nil => rfl
  | cons o l ih =>
      cases o with
      | none => exact absurd List.mem_cons_self hfull
      | some e =>
          rw [keys_cons_some, List.length_cons, List.length_cons,
            ih fun h => hfull (List.mem_cons_of_mem (some e) h)]

/-- The value of the first line of the key, and the lines with its stamp renewed. -/
def lookup [DecidableEq κ] (k : κ) (now : Nat) : Lines κ α → Option (α × Lines κ α)
  | [] => none
  | none :: l => (lookup k now l).map fun r => (r.1, none :: r.2)
  | some e :: l =>
      if e.key = k then some (e.value, some { e with stamp := now } :: l)
      else (lookup k now l).map fun r => (r.1, some e :: r.2)

/-- The scan for the line to evict, from the line `i` on, where `oldest` with the stamp `t` is the best
so far. -/
def evictScan (i oldest t : Nat) : Lines κ α → Nat
  | [] => oldest
  | none :: _ => i
  | some e :: l => if e.stamp < t then evictScan (i + 1) i e.stamp l else evictScan (i + 1) oldest t l

/-- The line to evict; no stamp is over `top`. -/
def evictSlot (top : Nat) (l : Lines κ α) : Nat := evictScan 0 0 top l

section Lines

variable {l : Lines κ α}

theorem lookup_cases [DecidableEq κ] (k : κ) (now : Nat) (l : Lines κ α) :
    (lookup k now l = none ∧ k ∉ keys l) ∨
      ∃ a e b, l = a ++ some e :: b ∧ e.key = k ∧
        lookup k now l = some (e.value, a ++ some { e with stamp := now } :: b) := by
  induction l with
  | nil => exact .inl ⟨rfl, List.not_mem_nil⟩
  | cons o l ih =>
      cases o with
      | none =>
          rcases ih with ⟨hnone, hk⟩ | ⟨a, e, b, rfl, hkey, hsome⟩
          · exact .inl ⟨by rw [lookup, hnone, Option.map_none], hk⟩
          · exact .inr ⟨none :: a, e, b, rfl, hkey, by rw [lookup, hsome, Option.map_some, List.cons_append]⟩
      | some e =>
          by_cases hkey : e.key = k
          · exact .inr ⟨[], e, l, rfl, hkey, by rw [lookup, if_pos hkey, List.nil_append]⟩
          · rcases ih with ⟨hnone, hk⟩ | ⟨a, e', b, rfl, hkey', hsome⟩
            · refine .inl ⟨by rw [lookup, if_neg hkey, hnone, Option.map_none], ?_⟩
              rw [keys_cons_some, List.mem_cons, not_or]
              exact ⟨Ne.symm hkey, hk⟩
            · refine .inr ⟨some e :: a, e', b, rfl, hkey', ?_⟩
              rw [lookup, if_neg hkey, hsome, Option.map_some, List.cons_append]

theorem lookup_isSome [DecidableEq κ] {k : κ} {now : Nat} : (lookup k now l).isSome ↔ k ∈ keys l := by
  rcases lookup_cases k now l with ⟨hnone, hk⟩ | ⟨a, e, b, rfl, rfl, hsome⟩
  · rw [hnone]
    exact iff_of_false Bool.false_ne_true hk
  · rw [hsome]
    refine iff_of_true rfl ?_
    rw [keys_append, keys_cons_some]
    exact List.mem_append_right _ List.mem_cons_self

/-- Every line is used, and none has a stamp older than `t`. -/
def Since (l : Lines κ α) (t : Nat) : Prop := ∀ o ∈ l, ∃ e, o = some e ∧ t ≤ e.stamp

theorem since_cons {e : Line κ α} {t : Nat} : Since (some e :: l) t ↔ t ≤ e.stamp ∧ Since l t := by
  rw [Since, List.forall_mem_cons]
  refine and_congr_left fun _ => ⟨?_, fun h => ⟨e, rfl, h⟩⟩
  rintro ⟨e', he, hle⟩
  exact Option.some.inj he ▸ hle

theorem Since.mono {t t' : Nat} (h : Since l t) (hle : t' ≤ t) : Since l t' := by
  intro o ho
  obtain ⟨e, he, hstamp⟩ := h o ho
  exact ⟨e, he, hle.trans hstamp⟩

theorem Since.none_notMem {t : Nat} (h : Since l t) : none ∉ l := by
  intro hnone
  obtain ⟨e, he, -⟩ := h none hnone
  cases he

/-- The scan comes to a line that is free or has the oldest stamp of all. -/
theorem evictScan_cases (i oldest t : Nat) :
    (evictScan i oldest t l = oldest ∧ Since l t) ∨
      ∃ a o b, l = a ++ o :: b ∧ evictScan i oldest t l = i + a.length ∧
        ∀ e, o = some e → e.stamp ≤ t ∧ Since l e.stamp := by
  induction l generalizing i oldest t with
  | nil => exact .inl ⟨rfl, fun o ho => absurd ho List.not_mem_nil⟩
  | cons o l ih =>
      cases o with
      | none => exact .inr ⟨[], none, l, rfl, rfl, fun e he => by cases he⟩
      | some e =>
          rw [evictScan]
          split
          · next hlt =>
              right
              rcases ih (i + 1) i e.stamp with ⟨heq, hall⟩ | ⟨a, o, b, rfl, heq, hmin⟩
              · refine ⟨[], some e, l, rfl, heq, fun e' he' => ?_⟩
                obtain rfl := Option.some.inj he'
                exact ⟨Nat.le_of_lt hlt, since_cons.mpr ⟨Nat.le_refl _, hall⟩⟩
              · refine ⟨some e :: a, o, b, rfl, by rw [heq, List.length_cons]; omega, fun e' he' => ?_⟩
                obtain ⟨hle, hall⟩ := hmin e' he'
                exact ⟨by omega, since_cons.mpr ⟨hle, hall⟩⟩
          · next hge =>
              rcases ih (i + 1) oldest t with ⟨heq, hall⟩ | ⟨a, o, b, rfl, heq, hmin⟩
              · exact .inl ⟨heq, since_cons.mpr ⟨Nat.le_of_not_lt hge, hall⟩⟩
              · refine .inr ⟨some e :: a, o, b, rfl, by rw [heq, List.length_cons]; omega, fun e' he' => ?_⟩
                obtain ⟨hle, hall⟩ := hmin e' he'
                exact ⟨hle, since_cons.mpr ⟨by omega, hall⟩⟩

/-- The line to evict is free or, where no stamp is over `top`, has the oldest stamp of all. -/
theorem evictSlot_cases (top : Nat) (hne : l ≠ []) :
    ∃ a o b, l = a ++ o :: b ∧ evictSlot top l = a.length ∧
      ((∀ e, some e ∈ l → e.stamp ≤ top) → ∀ e, o = some e → Since l e.stamp) := by
  rcases evictScan_cases (l := l) 0 0 top with ⟨heq, hall⟩ | ⟨a, o, b, hl, heq, hmin⟩
  · cases l with
    | nil => exact absurd rfl hne
    | cons o l =>
        refine ⟨[], o, l, rfl, heq, ?_⟩
        rintro htop e rfl
        exact hall.mono (htop e List.mem_cons_self)
  · exact ⟨a, o, b, hl, by rw [evictSlot, heq, Nat.zero_add], fun _ e he => (hmin e he).2⟩

end Lines

/-! ### Calls -/

/-- How values are made and what they own; `kept` is what a line keeps of a key, and no clock goes over
`top`. -/
structure Plan (κ β α ρ : Type*) where
  kept : κ → κ
  build : κ → β → α
  owns : α → List ρ
  top : Nat

/-- A call that missed, and the value once it has made one. -/
structure Call (κ α : Type*) where
  key : κ
  made : Option α

/-- `log` is every access, to a line that was found or stored, with its time; the calls do not see it. -/
structure State (κ α ρ : Type*) where
  lines : Lines κ α
  calls : List (Call κ α)
  live : List ρ
  misfreed : Bool
  clock : Nat
  log : List (κ × Nat)

/-- The steps of the calls, each with the time since the step before where it looks at the clock. -/
inductive Event (κ β : Type*)
  | probe (dt : Nat) (k : κ)
  | start (dt : Nat) (k : κ)
  | make (i : Nat) (b : β)
  | drop (i : Nat)
  | store (dt i : Nat)

def start (size : Nat) : State κ α ρ := ⟨List.replicate size none, [], [], false, 0, []⟩

theorem exists_split {γ : Type*} {l : List γ} {i : Nat} {x : γ} (h : l[i]? = some x) :
    ∃ a c, l = a ++ x :: c ∧ a.length = i := by
  obtain ⟨hi, rfl⟩ := List.getElem?_eq_some_iff.mp h
  refine ⟨l.take i, l.drop (i + 1), ?_, List.length_take_of_le (Nat.le_of_lt hi)⟩
  rw [← List.drop_eq_getElem_cons hi, List.take_append_drop]

section Step

variable [DecidableEq ρ] (p : Plan κ β α ρ)

def State.tick (s : State κ α ρ) (dt : Nat) : State κ α ρ := { s with clock := s.clock + dt }

/-- The lines after a hit. -/
def State.hit (s : State κ α ρ) (k : κ) (l : Lines κ α) : State κ α ρ :=
  { s with lines := l, log := s.log ++ [(k, s.clock)] }

def freeOne (s : List ρ × Bool) (r : ρ) : List ρ × Bool :=
  if r ∈ s.1 then (s.1.erase r, s.2) else (s.1, true)

def State.free (s : State κ α ρ) (rs : List ρ) : State κ α ρ :=
  { s with
    live := (rs.foldl freeOne (s.live, s.misfreed)).1
    misfreed := (rs.foldl freeOne (s.live, s.misfreed)).2 }

/-- What a line that is free or not owns. -/
def Plan.lineOwns (o : Option (Line κ α)) : List ρ := o.elim [] fun e => p.owns e.value

def Plan.callOwns (c : Call κ α) : List ρ := c.made.elim [] p.owns

/-- A value takes the place of a line, whose own value is freed. -/
def State.insert (s : State κ α ρ) (k : κ) (v : α) : State κ α ρ :=
  let i := evictSlot p.top s.lines
  let s := s.free (p.lineOwns (s.lines[i]?.join))
  { s with
    lines := s.lines.set i (some ⟨p.kept k, v, s.clock⟩)
    log := s.log ++ [(p.kept k, s.clock)] }

/-- A step and what a call that it ends gives back. The resources of a new value are none that is live;
a step of a call that has ended, or is not so far, is none. -/
def step [DecidableEq κ] (s : State κ α ρ) : Event κ β → State κ α ρ × Option α
  | .probe dt k =>
      match lookup k (s.tick dt).clock s.lines with
      | some (v, l) => ((s.tick dt).hit k l, some v)
      | none => (s.tick dt, none)
  | .start dt k =>
      match lookup k (s.tick dt).clock s.lines with
      | some (v, l) => ((s.tick dt).hit k l, some v)
      | none => ({ s.tick dt with calls := s.calls ++ [⟨k, none⟩] }, none)
  | .make i b =>
      match s.calls[i]? with
      | some ⟨k, none⟩ =>
          if (∀ r ∈ p.owns (p.build k b), r ∉ s.live) ∧ (p.owns (p.build k b)).Nodup then
            ({ s with
              calls := s.calls.set i ⟨k, some (p.build k b)⟩
              live := s.live ++ p.owns (p.build k b) }, none)
          else (s, none)
      | _ => (s, none)
  | .drop i =>
      match s.calls[i]? with
      | some ⟨_, none⟩ => ({ s with calls := s.calls.eraseIdx i }, none)
      | _ => (s, none)
  | .store dt i =>
      match s.calls[i]? with
      | some ⟨k, some v⟩ =>
          let s := { s.tick dt with calls := s.calls.eraseIdx i }
          match lookup k s.clock s.lines with
          | some (w, l) => ((s.free (p.owns v)).hit k l, some w)
          | none => (s.insert p k v, some v)
      | _ => (s, none)

abbrev run [DecidableEq κ] (s : State κ α ρ) (es : List (Event κ β)) : State κ α ρ :=
  Machine.run (fun s e => (step p s e).1) s es

/-- The key that a step asks for. -/
def asked (s : State κ α ρ) : Event κ β → Option κ
  | .probe _ k => some k
  | .start _ k => some k
  | .store _ i => s.calls[i]?.map Call.key
  | _ => none

/-- What a step can do, by the key it asks for and with what it gives back. -/
inductive Moves (s : State κ α ρ) : Option κ → State κ α ρ → Option α → Prop
  | skip (q : Option κ) (dt : Nat) : Moves s q (s.tick dt) none
  | hit (dt : Nat) (e : Line κ α) (a b : Lines κ α) (hl : s.lines = a ++ some e :: b) :
      Moves s (some e.key)
        ((s.tick dt).hit e.key (a ++ some { e with stamp := s.clock + dt } :: b)) (some e.value)
  | start (dt : Nat) (k : κ) :
      Moves s (some k) { s.tick dt with calls := s.calls ++ [⟨k, none⟩] } none
  | make (a c : List (Call κ α)) (k : κ) (b : β) (hc : s.calls = a ++ ⟨k, none⟩ :: c)
      (hnew : ∀ r ∈ p.owns (p.build k b), r ∉ s.live) (hnodup : (p.owns (p.build k b)).Nodup) :
      Moves s none
        { s with
          calls := a ++ ⟨k, some (p.build k b)⟩ :: c
          live := s.live ++ p.owns (p.build k b) } none
  | drop (a c : List (Call κ α)) (k : κ) (hc : s.calls = a ++ ⟨k, none⟩ :: c) :
      Moves s none { s with calls := a ++ c } none
  | found (dt : Nat) (a c : List (Call κ α)) (v : α) (e : Line κ α) (l m : Lines κ α)
      (hc : s.calls = a ++ ⟨e.key, some v⟩ :: c) (hl : s.lines = l ++ some e :: m) :
      Moves s (some e.key)
        (({ s.tick dt with calls := a ++ c }.free (p.owns v)).hit e.key
          (l ++ some { e with stamp := s.clock + dt } :: m)) (some e.value)
  | insert (dt : Nat) (a c : List (Call κ α)) (k : κ) (v : α) (hc : s.calls = a ++ ⟨k, some v⟩ :: c)
      (hk : k ∉ keys s.lines) :
      Moves s (some k) ({ s.tick dt with calls := a ++ c }.insert p k v) (some v)

theorem moves_step [DecidableEq κ] (s : State κ α ρ) (e : Event κ β) :
    Moves p s (asked s e) (step p s e).1 (step p s e).2 := by
  cases e with
  | probe dt k =>
      rw [step]
      rcases lookup_cases k (s.tick dt).clock s.lines with ⟨hnone, -⟩ | ⟨a, e, b, hl, rfl, hsome⟩
      · rw [hnone]
        exact .skip _ dt
      · rw [hsome]
        exact .hit dt e a b hl
  | start dt k =>
      rw [step]
      rcases lookup_cases k (s.tick dt).clock s.lines with ⟨hnone, -⟩ | ⟨a, e, b, hl, rfl, hsome⟩
      · rw [hnone]
        exact .start dt k
      · rw [hsome]
        exact .hit dt e a b hl
  | make i b =>
      rw [step]
      split
      · next k hi =>
          obtain ⟨a, c, hc, rfl⟩ := exists_split hi
          split_ifs with hnew
          · rw [hc, List.set_append_right _ _ (Nat.le_refl _), Nat.sub_self, List.set_cons_zero]
            exact .make a c k b hc hnew.1 hnew.2
          · exact .skip none 0
      · exact .skip none 0
  | drop i =>
      rw [step]
      split
      · next k hi =>
          obtain ⟨a, c, hc, rfl⟩ := exists_split hi
          rw [hc, List.eraseIdx_append_of_length_le (Nat.le_refl _), Nat.sub_self, List.eraseIdx_cons_zero]
          exact .drop a c k hc
      · exact .skip none 0
  | store dt i =>
      rw [step, asked]
      split
      · next k v hi =>
          obtain ⟨a, c, hc, rfl⟩ := exists_split hi
          have herase : s.calls.eraseIdx a.length = a ++ c := by
            rw [hc, List.eraseIdx_append_of_length_le (Nat.le_refl _), Nat.sub_self, List.eraseIdx_cons_zero]
          rw [hi, herase]
          dsimp only
          rcases lookup_cases k (s.tick dt).clock (s.tick dt).lines with
            ⟨hnone, hk⟩ | ⟨l, e, m, hl, rfl, hsome⟩
          · rw [hnone]
            exact .insert dt a c k v hc hk
          · rw [hsome]
            exact .found dt a c v e l m hc hl
      · exact .skip _ 0

theorem insert_eq {s : State κ α ρ} (hne : s.lines ≠ []) (k : κ) (v : α) :
    ∃ a o b, s.lines = a ++ o :: b ∧
      s.insert p k v =
        { s.free (p.lineOwns o) with
          lines := a ++ some ⟨p.kept k, v, s.clock⟩ :: b
          log := s.log ++ [(p.kept k, s.clock)] } ∧
      ((∀ e, some e ∈ s.lines → e.stamp ≤ p.top) → ∀ e, o = some e → Since s.lines e.stamp) := by
  obtain ⟨a, o, b, hl, hi, hmin⟩ := evictSlot_cases p.top hne
  refine ⟨a, o, b, hl, ?_, hmin⟩
  have hvictim : s.lines[a.length]?.join = o := by
    rw [hl, List.getElem?_append_right (Nat.le_refl _), Nat.sub_self]
    rfl
  have hset (x : Option (Line κ α)) : s.lines.set a.length x = a ++ x :: b := by
    rw [hl, List.set_append_right _ _ (Nat.le_refl _), Nat.sub_self, List.set_cons_zero]
  rw [State.insert, hi]
  dsimp only
  rw [hvictim, ← hset]
  rfl

variable {p} {s : State κ α ρ}

theorem Moves.clock_le {q : Option κ} {s' : State κ α ρ} {r : Option α} (h : Moves p s q s' r) :
    s.clock ≤ s'.clock := by
  cases h with
  | make | drop => exact Nat.le_refl _
  | skip | start | hit | found | insert => exact Nat.le_add_right _ _

theorem Moves.length_lines {q : Option κ} {s' : State κ α ρ} {r : Option α} (h : Moves p s q s' r) :
    s'.lines.length = s.lines.length := by
  cases h with
  | skip | start | make | drop => rfl
  | hit dt e a b hl =>
      rw [hl, State.hit, List.length_append, List.length_append]
      rfl
  | found dt a c v e l m hc hl =>
      rw [hl, State.hit, List.length_append, List.length_append]
      rfl
  | insert dt a c k v hc hk => exact List.length_set

end Step

/-! ### Resources -/

section Resources

variable [DecidableEq ρ] {p : Plan κ β α ρ} {s : State κ α ρ}

theorem foldl_freeOne {live rs : List ρ} {n : ρ → Nat} (m : Bool)
    (h : ∀ r, live.count r = rs.count r + n r) :
    (∀ r, (rs.foldl freeOne (live, m)).1.count r = n r) ∧ (rs.foldl freeOne (live, m)).2 = m := by
  induction rs generalizing live with
  | nil => exact ⟨fun r => by rw [List.foldl_nil, h r, List.count_nil, Nat.zero_add], rfl⟩
  | cons r rs ih =>
      have hr : r ∈ live := by
        rw [← List.count_pos_iff, h r, List.count_cons_self]
        omega
      rw [List.foldl_cons, freeOne, if_pos hr]
      refine ih fun r' => ?_
      have hcount := h r'
      rw [List.count_cons] at hcount
      dsimp only
      rw [List.count_erase]
      split_ifs at hcount ⊢ <;> omega

/-- How many lines and calls own a resource. -/
def owners (p : Plan κ β α ρ) (l : Lines κ α) (c : List (Call κ α)) (r : ρ) : Nat :=
  (l.flatMap p.lineOwns).count r + (c.flatMap p.callOwns).count r

/-- The resources that are live are those of the lines and of the calls, each owned once, and none was
freed that was not live. -/
structure Owned (p : Plan κ β α ρ) (s : State κ α ρ) : Prop where
  used : s.lines ≠ []
  held : ∀ r, s.live.count r = owners p s.lines s.calls r
  once : s.live.Nodup
  sound : s.misfreed = false

theorem owned_start {size : Nat} (hsize : 0 < size) : Owned p (start size) := by
  refine ⟨?_, fun r => ?_, List.nodup_nil, rfl⟩
  · rw [start, Ne, List.replicate_eq_nil_iff]
    omega
  · have hnil : (List.replicate size (none : Option (Line κ α))).flatMap p.lineOwns = [] := by
      rw [List.flatMap_eq_nil_iff]
      intro o ho
      rw [List.eq_of_mem_replicate ho]
      rfl
    rw [owners, start, hnil]
    rfl

theorem count_flatMap_split {γ : Type*} (f : γ → List ρ) (a c : List γ) (x : γ) (r : ρ) :
    ((a ++ x :: c).flatMap f).count r = (f x).count r + ((a ++ c).flatMap f).count r := by
  rw [List.flatMap_append, List.flatMap_cons, List.flatMap_append, List.count_append, List.count_append,
    List.count_append]
  omega

theorem owners_line (a b : Lines κ α) (o : Option (Line κ α)) (c : List (Call κ α)) (r : ρ) :
    owners p (a ++ o :: b) c r = (p.lineOwns o).count r + owners p (a ++ b) c r := by
  rw [owners, owners, count_flatMap_split, Nat.add_assoc]

theorem owners_call (l : Lines κ α) (a c : List (Call κ α)) (x : Call κ α) (r : ρ) :
    owners p l (a ++ x :: c) r = (p.callOwns x).count r + owners p l (a ++ c) r := by
  rw [owners, owners, count_flatMap_split]
  omega

theorem Owned.free {rs : List ρ} {l : Lines κ α} {c : List (Call κ α)} {log : List (κ × Nat)}
    (h : Owned p s) (hl : l ≠ []) (hown : ∀ r, owners p s.lines s.calls r = rs.count r + owners p l c r) :
    Owned p { s.free rs with lines := l, calls := c, log := log } := by
  obtain ⟨hcount, hmis⟩ :=
    foldl_freeOne s.misfreed fun r => (h.held r).trans (hown r)
  refine ⟨hl, hcount, ?_, hmis.trans h.sound⟩
  rw [List.nodup_iff_count_le_one]
  intro r
  have hone := List.nodup_iff_count_le_one.mp h.once r
  have heq := h.held r
  have hown := hown r
  have hr : (s.free rs).live.count r = owners p l c r := hcount r
  rw [hr]
  omega

theorem Owned.moves {q : Option κ} {s' : State κ α ρ} {r : Option α} (h : Owned p s)
    (hmove : Moves p s q s' r) : Owned p s' := by
  obtain ⟨hne, hheld, honce, hsound⟩ := h
  cases hmove with
  | skip q dt => exact ⟨hne, hheld, honce, hsound⟩
  | hit dt e a b hl =>
      refine ⟨List.append_ne_nil_of_right_ne_nil _ (List.cons_ne_nil _ _), fun r => ?_, honce, hsound⟩
      have hr := hheld r
      rw [hl, owners_line] at hr
      exact hr.trans (owners_line a b (some { e with stamp := s.clock + dt }) s.calls r).symm
  | start dt k =>
      refine ⟨hne, fun r => (hheld r).trans ?_, honce, hsound⟩
      have hnew := owners_call (p := p) s.lines s.calls [] ⟨k, none⟩ r
      rw [List.append_nil] at hnew
      exact (hnew.trans (Nat.zero_add _)).symm
  | make a c k b hc hnew hnodup =>
      refine ⟨hne, fun r => ?_, ?_, hsound⟩
      · have hr := hheld r
        rw [hc, owners_call] at hr
        calc
          (s.live ++ p.owns (p.build k b)).count r = owners p s.lines (a ++ c) r + (p.owns (p.build k b)).count r := by
            rw [List.count_append, hr]
            exact congrArg (· + _) (Nat.zero_add _)
          _ = owners p s.lines (a ++ ⟨k, some (p.build k b)⟩ :: c) r := by
            rw [owners_call, Nat.add_comm]
            rfl
      · refine List.nodup_append.mpr ⟨honce, hnodup, ?_⟩
        rintro r hr _ hr' rfl
        exact hnew r hr' hr
  | drop a c k hc =>
      refine ⟨hne, fun r => ?_, honce, hsound⟩
      have hr := hheld r
      rw [hc, owners_call] at hr
      exact hr.trans (Nat.zero_add _)
  | found dt a c v e l m hc hl =>
      have h : Owned p { s.tick dt with calls := s.calls } := ⟨hne, hheld, honce, hsound⟩
      refine h.free (List.append_ne_nil_of_right_ne_nil _ (List.cons_ne_nil _ _)) fun r => ?_
      calc
        owners p s.lines s.calls r = (p.owns v).count r + owners p s.lines (a ++ c) r := by
          rw [hc, owners_call]
          rfl
        _ = (p.owns v).count r + owners p (l ++ some { e with stamp := s.clock + dt } :: m) (a ++ c) r := by
          rw [hl, owners_line, owners_line]
          rfl
  | insert dt a c k v hc hk =>
      have h : Owned p { s.tick dt with calls := s.calls } := ⟨hne, hheld, honce, hsound⟩
      obtain ⟨l, o, m, hl, heq, -⟩ :=
        insert_eq p (s := { s.tick dt with calls := a ++ c }) hne k v
      rw [heq]
      refine h.free (List.append_ne_nil_of_right_ne_nil _ (List.cons_ne_nil _ _)) fun r => ?_
      have hl : s.lines = l ++ o :: m := hl
      calc
        owners p s.lines s.calls r = (p.owns v).count r + owners p s.lines (a ++ c) r := by
          rw [hc, owners_call]
          rfl
        _ = (p.lineOwns o).count r + ((p.owns v).count r + owners p (l ++ m) (a ++ c) r) := by
          rw [hl, owners_line]
          omega
        _ = (p.lineOwns o).count r +
            owners p (l ++ some ⟨p.kept k, v, s.clock + dt⟩ :: m) (a ++ c) r := by
          rw [owners_line l m (some ⟨p.kept k, v, s.clock + dt⟩)]
          rfl

/-- What the lines and the calls own. -/
def Plan.owned (p : Plan κ β α ρ) (s : State κ α ρ) : List ρ :=
  s.lines.flatMap p.lineOwns ++ s.calls.flatMap p.callOwns

theorem Owned.perm (h : Owned p s) : s.live.Perm (p.owned s) := by
  rw [List.perm_iff_count]
  intro r
  rw [h.held r, Plan.owned, List.count_append, owners]

/-- What a line owns is live. -/
theorem Owned.mem_live (h : Owned p s) {e : Line κ α} (he : some e ∈ s.lines) {r : ρ} (hr : r ∈ p.owns e.value) :
    r ∈ s.live := by
  rw [h.perm.mem_iff, Plan.owned]
  exact List.mem_append_left _ (List.mem_flatMap.mpr ⟨some e, he, hr⟩)

theorem owned_run [DecidableEq κ] {size : Nat} (hsize : 0 < size) (es : List (Event κ β)) : Owned p (run p (start size) es) :=
  run_inv (fun s e h => h.moves (moves_step p s e)) (owned_start hsize) es

end Resources

/-! ### Keys and values -/

section Sound

variable {p : Plan κ β α ρ} {s : State κ α ρ}

/-- The key of the request is one a line keeps whole. -/
def Event.Fits (p : Plan κ β α ρ) : Event κ β → Prop
  | .probe _ k => p.kept k = k
  | .start _ k => p.kept k = k
  | _ => True

/-- No key has two lines, and what was made was made for its key. -/
structure Sound (p : Plan κ β α ρ) (s : State κ α ρ) : Prop where
  used : s.lines ≠ []
  distinct : (keys s.lines).Nodup
  made : ∀ e, some e ∈ s.lines → ∃ b, e.value = p.build e.key b
  calls : ∀ c ∈ s.calls, p.kept c.key = c.key ∧ ∀ v, c.made = some v → ∃ b, v = p.build c.key b

theorem sound_start {size : Nat} (hsize : 0 < size) : Sound p (start size) := by
  have hkeys : keys (start (κ := κ) size : State κ α ρ).lines = [] := by
    rw [keys, List.filterMap_eq_nil_iff]
    intro o ho
    rw [List.eq_of_mem_replicate ho]
    rfl
  refine ⟨?_, hkeys ▸ List.nodup_nil, fun e he => ?_, fun c hc => absurd hc List.not_mem_nil⟩
  · rw [start, Ne, List.replicate_eq_nil_iff]
    omega
  · exact absurd (List.eq_of_mem_replicate he) (Option.some_ne_none e)

theorem Sound.asked_kept (h : Sound p s) {e : Event κ β} (he : e.Fits p) {k : κ} (hk : asked s e = some k) :
    p.kept k = k := by
  cases e with
  | probe dt k' => exact Option.some.inj hk ▸ he
  | start dt k' => exact Option.some.inj hk ▸ he
  | make i b => cases hk
  | drop i => cases hk
  | store dt i =>
      obtain ⟨c, hc, rfl⟩ := Option.map_eq_some_iff.mp hk
      exact (h.calls c (List.mem_of_getElem? hc)).1

theorem made_replace {a b : Lines κ α} {o : Option (Line κ α)} {e : Line κ α}
    (h : ∀ e, some e ∈ a ++ o :: b → ∃ b, e.value = p.build e.key b) (he : ∃ b, e.value = p.build e.key b) :
    ∀ e', some e' ∈ a ++ some e :: b → ∃ b, e'.value = p.build e'.key b := by
  intro e' he'
  rcases List.mem_append.mp he' with hmem | hmem
  · exact h e' (List.mem_append_left _ hmem)
  · rcases List.mem_cons.mp hmem with heq | hmem
    · exact Option.some.inj heq ▸ he
    · exact h e' (List.mem_append_right a (List.mem_cons_of_mem o hmem))

variable [DecidableEq ρ]

theorem Sound.moves {q : Option κ} {s' : State κ α ρ} {r : Option α} (h : Sound p s)
    (hq : ∀ k, q = some k → p.kept k = k) (hmove : Moves p s q s' r) : Sound p s' := by
  obtain ⟨hne, hkeys, hmade, hcalls⟩ := h
  cases hmove with
  | skip q dt => exact ⟨hne, hkeys, hmade, hcalls⟩
  | hit dt e a b hl =>
      rw [hl] at hkeys hmade
      refine ⟨List.append_ne_nil_of_right_ne_nil _ (List.cons_ne_nil _ _), ?_, ?_, hcalls⟩
      · rw [keys_append, keys_cons_some] at hkeys
        rw [State.hit, keys_append, keys_cons_some]
        exact hkeys
      · exact made_replace hmade (hmade e (List.mem_append_right a List.mem_cons_self))
  | start dt k =>
      refine ⟨hne, hkeys, hmade, fun c hc => ?_⟩
      rcases List.mem_append.mp hc with hc | hc
      · exact hcalls c hc
      · rw [List.mem_singleton.mp hc]
        exact ⟨hq k rfl, fun v hv => by cases hv⟩
  | make a c k b hc hnew hnodup =>
      rw [hc] at hcalls
      refine ⟨hne, hkeys, hmade, fun x hx => ?_⟩
      rcases List.mem_append.mp hx with hx | hx
      · exact hcalls x (List.mem_append_left _ hx)
      · rcases List.mem_cons.mp hx with rfl | hx
        · refine ⟨(hcalls ⟨k, none⟩ (List.mem_append_right a List.mem_cons_self)).1, fun v hv => ⟨b, ?_⟩⟩
          exact (Option.some.inj hv).symm
        · exact hcalls x (List.mem_append_right a (List.mem_cons_of_mem _ hx))
  | drop a c k hc =>
      rw [hc] at hcalls
      refine ⟨hne, hkeys, hmade, fun x hx => hcalls x ?_⟩
      rcases List.mem_append.mp hx with hx | hx
      · exact List.mem_append_left _ hx
      · exact List.mem_append_right a (List.mem_cons_of_mem _ hx)
  | found dt a c v e l m hc hl =>
      rw [hl] at hkeys hmade
      rw [hc] at hcalls
      refine ⟨List.append_ne_nil_of_right_ne_nil _ (List.cons_ne_nil _ _), ?_, ?_, fun x hx => hcalls x ?_⟩
      · rw [keys_append, keys_cons_some] at hkeys
        rw [State.hit, keys_append, keys_cons_some]
        exact hkeys
      · exact made_replace hmade (hmade e (List.mem_append_right l List.mem_cons_self))
      · rcases List.mem_append.mp hx with hx | hx
        · exact List.mem_append_left _ hx
        · exact List.mem_append_right a (List.mem_cons_of_mem _ hx)
  | insert dt a c k v hc hk =>
      obtain ⟨l, o, m, hl, heq, -⟩ := insert_eq p (s := { s.tick dt with calls := a ++ c }) hne k v
      have hl : s.lines = l ++ o :: m := hl
      rw [heq]
      rw [hl] at hkeys hmade hk
      rw [hc] at hcalls
      have hrest : (keys l ++ keys m).Sublist (keys (l ++ o :: m)) := by
        rw [keys_append]
        refine List.Sublist.append_left ?_ _
        cases o with
        | none => exact List.Sublist.refl _
        | some e => exact List.sublist_cons_self _ _
      refine ⟨List.append_ne_nil_of_right_ne_nil _ (List.cons_ne_nil _ _), ?_, ?_, fun x hx => hcalls x ?_⟩
      · show (keys (l ++ some ⟨p.kept k, v, s.clock + dt⟩ :: m)).Nodup
        rw [keys_append, keys_cons_some, hq k rfl]
        rw [List.perm_middle.nodup_iff, List.nodup_cons]
        exact ⟨fun hmem => hk (hrest.subset hmem), hkeys.sublist hrest⟩
      · refine made_replace hmade ?_
        rw [hq k rfl]
        exact (hcalls ⟨k, some v⟩ (List.mem_append_right a List.mem_cons_self)).2 v rfl
      · rcases List.mem_append.mp hx with hx | hx
        · exact List.mem_append_left _ hx
        · exact List.mem_append_right a (List.mem_cons_of_mem _ hx)

theorem sound_run [DecidableEq κ] {size : Nat} (hsize : 0 < size) {es : List (Event κ β)} (hes : ∀ e ∈ es, e.Fits p) :
    Sound p (run p (start size) es) :=
  run_inv_of_forall (fun s e he h => h.moves (fun _ hk => h.asked_kept he hk) (moves_step p s e))
    (sound_start hsize) hes

/-- What a call gives back is in the cache then, and was made for the key it asked for. -/
theorem Sound.answer [DecidableEq κ] (h : Sound p s) {e : Event κ β} (he : e.Fits p) {v : α} (hv : (step p s e).2 = some v) :
    ∃ k b, asked s e = some k ∧ v = p.build k b ∧
      ∃ l, some l ∈ (step p s e).1.lines ∧ l.key = k ∧ l.value = v := by
  have hmove := moves_step p s e
  have hafter := h.moves (fun _ hk => h.asked_kept he hk) hmove
  have hkept := fun k (hk : asked s e = some k) => h.asked_kept he hk
  have hline : ∃ k l, asked s e = some k ∧ some l ∈ (step p s e).1.lines ∧ l.key = k ∧ l.value = v := by
    rw [hv] at hmove
    generalize asked s e = q at hmove hkept
    generalize (step p s e).1 = s' at hmove
    cases hmove with
    | hit dt l a b hl => exact ⟨_, _, rfl, List.mem_append_right a List.mem_cons_self, rfl, rfl⟩
    | found dt a c w l m n hc hl => exact ⟨_, _, rfl, List.mem_append_right m List.mem_cons_self, rfl, rfl⟩
    | insert dt a c k w hc hk =>
        obtain ⟨l, o, m, -, heq, -⟩ := insert_eq p (s := { s.tick dt with calls := a ++ c }) h.used k v
        rw [heq]
        exact ⟨k, _, rfl, List.mem_append_right l List.mem_cons_self, hkept k rfl, rfl⟩
  obtain ⟨k, l, hk, hl, hkey, hvalue⟩ := hline
  obtain ⟨b, hb⟩ := hafter.made l hl
  exact ⟨k, b, hk, by rw [← hvalue, hb, hkey], l, hl, hkey, hvalue⟩

end Sound

/-! ### Recent accesses -/

section Recent

variable [DecidableEq κ] {p : Plan κ β α ρ} {s : State κ α ρ}

/-- The other keys with an access at `t` or later. -/
def others (log : List (κ × Nat)) (k : κ) (t : Nat) : Finset κ :=
  ((log.filter fun x => x.1 ≠ k ∧ t ≤ x.2).map Prod.fst).toFinset

theorem mem_others {log : List (κ × Nat)} {k k' : κ} {t : Nat} :
    k' ∈ others log k t ↔ k' ≠ k ∧ ∃ t', (k', t') ∈ log ∧ t ≤ t' := by
  rw [others, List.mem_toFinset, List.mem_map]
  constructor
  · rintro ⟨⟨k', t'⟩, hx, rfl⟩
    rw [List.mem_filter, decide_eq_true_eq] at hx
    exact ⟨hx.2.1, t', hx.1, hx.2.2⟩
  · rintro ⟨hne, t', ht', hle⟩
    refine ⟨(k', t'), ?_, rfl⟩
    rw [List.mem_filter, decide_eq_true_eq]
    exact ⟨ht', hne, hle⟩

theorem others_mono {log log' : List (κ × Nat)} (h : ∀ x ∈ log, x ∈ log') (k : κ) (t : Nat) :
    others log k t ⊆ others log' k t := by
  intro k' hk'
  obtain ⟨hne, t', ht', hle⟩ := mem_others.mp hk'
  exact mem_others.mpr ⟨hne, t', h _ ht', hle⟩

/-- The stamp of a line is the time of the last access to its key, and for a key that is gone as many
others as there are lines were accessed since. -/
structure Recent (s : State κ α ρ) : Prop where
  stamped : ∀ e, some e ∈ s.lines → (e.key, e.stamp) ∈ s.log
  last : ∀ e, some e ∈ s.lines → ∀ t, (e.key, t) ∈ s.log → t ≤ e.stamp
  past : ∀ x ∈ s.log, x.2 ≤ s.clock
  gone : ∀ x ∈ s.log, x.1 ∈ keys s.lines ∨ s.lines.length ≤ (others s.log x.1 x.2).card

theorem Recent.later {s' : State κ α ρ} (h : Recent s) (hlines : s'.lines = s.lines) (hlog : s'.log = s.log)
    (hclock : s.clock ≤ s'.clock) : Recent s' := by
  refine ⟨?_, ?_, ?_, ?_⟩ <;> rw [hlog]
  · exact fun e he => h.stamped e (hlines ▸ he)
  · exact fun e he => h.last e (hlines ▸ he)
  · exact fun x hx => (h.past x hx).trans hclock
  · exact fun x hx => hlines ▸ h.gone x hx

/-- An access to `k` that leaves its line in the place of `o`: of a line with another key, all lines are
used and none has an older stamp. -/
theorem Recent.put {s' : State κ α ρ} {l m : Lines κ α} {o : Option (Line κ α)} {k : κ} {v : α}
    (h : Recent s) (hl : s.lines = l ++ o :: m) (hnodup : (keys s.lines).Nodup)
    (hk : k ∉ keys l ++ keys m) (hout : ∀ e, o = some e → e.key ≠ k → k ∉ keys s.lines ∧ Since s.lines e.stamp)
    (hlines : s'.lines = l ++ some ⟨k, v, s'.clock⟩ :: m) (hlog : s'.log = s.log ++ [(k, s'.clock)])
    (hclock : s.clock ≤ s'.clock) : Recent s' := by
  have hkeys : ∀ k', k' ∈ keys s'.lines ↔ k' = k ∨ k' ∈ keys l ++ keys m := by
    intro k'
    rw [hlines, keys_append, keys_cons_some, List.perm_middle.mem_iff, List.mem_cons]
  have hlength : s'.lines.length = s.lines.length := by
    rw [hlines, hl, List.length_append, List.length_append, List.length_cons, List.length_cons]
  have hold : ∀ e, some e ∈ s'.lines → (e.key = k ∧ e.stamp = s'.clock) ∨ (some e ∈ s.lines ∧ e.key ≠ k) := by
    intro e he
    have hother (hmem : some e ∈ l ++ m) : some e ∈ s.lines ∧ e.key ≠ k := by
      constructor
      · rw [hl, List.perm_middle.mem_iff]
        exact List.mem_cons_of_mem o hmem
      · rintro rfl
        rw [← keys_append] at hk
        exact hk (mem_keys.mpr ⟨e, hmem, rfl⟩)
    rw [hlines, List.perm_middle.mem_iff, List.mem_cons] at he
    rcases he with heq | hmem
    · obtain rfl := Option.some.inj heq
      exact .inl ⟨rfl, rfl⟩
    · exact .inr (hother hmem)
  have hgrow : ∀ x ∈ s.log, x ∈ s'.log := fun x hx => hlog ▸ List.mem_append_left _ hx
  have hnew : (k, s'.clock) ∈ s'.log := hlog ▸ List.mem_append_right _ List.mem_cons_self
  have hcases : ∀ x ∈ s'.log, x ∈ s.log ∨ x = (k, s'.clock) := by
    intro x hx
    rw [hlog, List.mem_append, List.mem_singleton] at hx
    exact hx
  refine ⟨fun e he => ?_, fun e he t ht => ?_, fun x hx => ?_, fun x hx => ?_⟩
  · rcases hold e he with ⟨hkey, hstamp⟩ | ⟨hmem, -⟩
    · rw [hkey, hstamp]
      exact hnew
    · exact hgrow _ (h.stamped e hmem)
  · rcases hold e he with ⟨-, hstamp⟩ | ⟨hmem, hne⟩
    · rw [hstamp]
      rcases hcases _ ht with hx | heq
      · exact (h.past _ hx).trans hclock
      · exact (Prod.mk.inj heq).2 ▸ Nat.le_refl _
    · rcases hcases _ ht with hx | heq
      · exact h.last e hmem t hx
      · exact absurd (Prod.mk.inj heq).1 hne
  · rcases hcases x hx with hx | rfl
    · exact (h.past x hx).trans hclock
    · exact Nat.le_refl _
  · rw [hlength]
    rcases hcases x hx with hx | rfl
    · rcases h.gone x hx with hin | hcard
      · by_cases hstay : x.1 ∈ keys s'.lines
        · exact .inl hstay
        · -- the line of the key is the one that was replaced
          right
          rw [hkeys, not_or] at hstay
          obtain ⟨e, he, hkey⟩ := mem_keys.mp hin
          have ho : o = some e := by
            rw [hl, List.perm_middle.mem_iff, List.mem_cons] at he
            rcases he with heq | hmem
            · exact heq.symm
            · rw [← keys_append] at hstay
              exact absurd (mem_keys.mpr ⟨e, hmem, hkey⟩) hstay.2
          obtain ⟨hfresh, hsince⟩ := hout e ho (hkey ▸ hstay.1)
          have hle : x.2 ≤ e.stamp := h.last e he x.2 (hkey ▸ hx)
          have hsub : insert k ((keys s.lines).toFinset.erase x.1) ⊆ others s'.log x.1 x.2 := by
            intro k' hk'
            rw [Finset.mem_insert, Finset.mem_erase, List.mem_toFinset] at hk'
            rw [mem_others]
            rcases hk' with rfl | ⟨hne, hmem⟩
            · exact ⟨Ne.symm hstay.1, _, hnew, (h.past x hx).trans hclock⟩
            · obtain ⟨e', he', rfl⟩ := mem_keys.mp hmem
              obtain ⟨e'', he'', hstamp⟩ := hsince _ he'
              obtain rfl := Option.some.inj he''
              exact ⟨hne, _, hgrow _ (h.stamped e' he'), hle.trans hstamp⟩
          refine le_trans ?_ (Finset.card_le_card hsub)
          rw [Finset.card_insert_of_notMem, Finset.card_erase_of_mem (List.mem_toFinset.mpr hin),
            List.toFinset_card_of_nodup hnodup, length_keys hsince.none_notMem]
          · omega
          · rw [Finset.mem_erase, List.mem_toFinset]
            exact fun hmem => hfresh hmem.2
      · exact .inr (hcard.trans (Finset.card_le_card (others_mono hgrow x.1 x.2)))
    · exact .inl ((hkeys k).mpr (.inl rfl))

variable [DecidableEq ρ]

theorem Recent.moves {q : Option κ} {s' : State κ α ρ} {r : Option α} (hsound : Sound p s)
    (hq : ∀ k, q = some k → p.kept k = k) (h : Recent s) (hmove : Moves p s q s' r) (htop : s.clock ≤ p.top) :
    Recent s' := by
  have hdistinct := hsound.distinct
  cases hmove with
  | skip q dt => exact h.later rfl rfl (Nat.le_add_right _ _)
  | start dt k => exact h.later rfl rfl (Nat.le_add_right _ _)
  | make a c k b hc hnew hnodup => exact h.later rfl rfl (Nat.le_refl _)
  | drop a c k hc => exact h.later rfl rfl (Nat.le_refl _)
  | hit dt e a b hl =>
      refine h.put hl hdistinct ?_ ?_ rfl rfl (Nat.le_add_right _ _)
      · rw [hl, keys_append, keys_cons_some, List.perm_middle.nodup_iff, List.nodup_cons] at hdistinct
        exact hdistinct.1
      · intro e' he' hne
        exact absurd (congrArg Line.key (Option.some.inj he').symm) hne
  | found dt a c v e l m hc hl =>
      refine h.put hl hdistinct ?_ ?_ rfl rfl (Nat.le_add_right _ _)
      · rw [hl, keys_append, keys_cons_some, List.perm_middle.nodup_iff, List.nodup_cons] at hdistinct
        exact hdistinct.1
      · intro e' he' hne
        exact absurd (congrArg Line.key (Option.some.inj he').symm) hne
  | insert dt a c k v hc hk =>
      obtain ⟨l, o, m, hl, heq, hmin⟩ := insert_eq p (s := { s.tick dt with calls := a ++ c }) hsound.used k v
      have hl : s.lines = l ++ o :: m := hl
      have hkeys : k ∉ keys l ++ keys m := by
        intro hmem
        rw [hl, keys_append] at hk
        refine hk ?_
        rcases List.mem_append.mp hmem with hmem | hmem
        · exact List.mem_append_left _ hmem
        · refine List.mem_append_right _ ?_
          cases o with
          | none => exact hmem
          | some e => exact List.mem_cons_of_mem _ hmem
      have hstamps : ∀ e, some e ∈ s.lines → e.stamp ≤ p.top :=
        fun e he => (h.past _ (h.stamped e he)).trans htop
      rw [heq, hq k rfl]
      exact h.put hl hdistinct hkeys (fun e he _ => ⟨hk, hmin hstamps e he⟩) rfl rfl (Nat.le_add_right _ _)

section Run

variable {size : Nat} {es : List (Event κ β)}

theorem length_run (size : Nat) (es : List (Event κ β)) : (run p (start size) es).lines.length = size :=
  run_inv (fun s e h => (moves_step p s e).length_lines.trans h) List.length_replicate es

theorem recent_run (hsize : 0 < size) (hes : ∀ e ∈ es, e.Fits p)
    (htop : (run p (start size) es).clock ≤ p.top) : Recent (run p (start size) es) := by
  have hrun : Sound p (run p (start size) es) ∧
      ((run p (start size) es).clock ≤ p.top → Recent (run p (start size) es)) := by
    refine run_inv_of_forall (I := fun s => Sound p s ∧ (s.clock ≤ p.top → Recent s))
      (K := fun e => e.Fits p) ?_ ⟨sound_start hsize, fun _ => ?_⟩ hes
    · rintro s e he ⟨hsound, hrecent⟩
      have hq : ∀ k, asked s e = some k → p.kept k = k := fun k hk => hsound.asked_kept he hk
      have hmove := moves_step p s e
      refine ⟨hsound.moves hq hmove, fun hclock => ?_⟩
      have hbefore := hmove.clock_le.trans hclock
      exact (hrecent hbefore).moves hsound hq hmove hbefore
    · refine ⟨fun e he => ?_, fun e he => ?_, fun x hx => absurd hx List.not_mem_nil,
        fun x hx => absurd hx List.not_mem_nil⟩
      · exact absurd (List.eq_of_mem_replicate he) (Option.some_ne_none e)
      · exact absurd (List.eq_of_mem_replicate he) (Option.some_ne_none e)
  exact hrun.2 htop

/-- A key is in the cache until as many others as there are lines have been accessed since. -/
theorem retained (hsize : 0 < size) (hes : ∀ e ∈ es, e.Fits p) (htop : (run p (start size) es).clock ≤ p.top)
    {k : κ} {t : Nat} (hk : (k, t) ∈ (run p (start size) es).log)
    (hfew : (others (run p (start size) es).log k t).card < size) : k ∈ keys (run p (start size) es).lines := by
  rcases (recent_run hsize hes htop).gone (k, t) hk with hin | hmany
  · exact hin
  · rw [length_run] at hmany
    exact absurd hfew (Nat.not_lt.mpr hmany)

end Run

end Recent

end LruCache
