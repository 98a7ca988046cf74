import UnicornSuite.LibFirsts
import UnicornSuite.MinitelScreen

/-! What a stream does to the latent serial context of the Minitel, as a list of marks: definitions, mosaics,
spaces of G0 with the cell they are stored as, and what sets the context back. A machine keeps the context
(`Latent.step`); the law of the delimiter is what it holds at the end of a list, read off the list
(`pending_iff`, `bg_eq`, `mask_eq`, `ul_eq`). The marks of an excursion to row 0 that LF has ended do not
count (`live`). -/

namespace UnicornSuite.Minitel

open Latest

inductive Mark where
  | paper (n : Nat)
  | masking (on : Bool)
  | lining (on : Bool)
  | mosaic
  /-- A space of G0, and the cell it is stored as. -/
  | space (c : Cell)
  /-- RS, FF, US and the reset. -/
  | separator
  /-- SO, which ends the lining. -/
  | shift
  /-- US from the page to row 0. -/
  | enter
  /-- LF on row 0. -/
  | back

namespace Mark

/-- A delimiter, and what sets the context back. -/
def breaks : Mark → Bool
  | .space c => c.kind = .delim
  | .separator | .enter => true
  | _ => false

/-- A definition of the masking or of the lining. -/
def zone : Mark → Bool
  | .masking _ | .lining _ => true
  | _ => false

def paper? : Mark → Option Nat
  | .paper n => some n
  | .separator | .enter => some black
  | _ => none

def mask? : Mark → Option Bool
  | .masking on => some on
  | .separator | .enter => some false
  | _ => none

def ul? : Mark → Option Bool
  | .lining on => some on
  | .separator | .enter | .shift => some false
  | _ => none

end Mark

/-! ### The context -/

/-- The latent serial context alone. -/
structure Latent where
  bg : Nat
  mask : Bool
  ul : Bool
  pending : Bool
  other : Bool

def Attr.latent (a : Attr) : Latent := ⟨a.sBg, a.sMask, a.sUl, a.sPending, a.sPendingOther⟩

namespace Latent

def start : Latent := ⟨black, false, false, false, false⟩

def step (s : Latent) : Mark → Latent
  | .paper n => { s with bg := n, pending := true }
  | .masking on => { s with mask := on, pending := true, other := true }
  | .lining on => { s with ul := on, pending := true, other := true }
  | .mosaic => if s.other then s else { s with pending := false }
  | .space c => if c.kind = .delim then { s with pending := false, other := false } else s
  | .separator | .enter => start
  | .shift => { s with ul := false }
  | .back => s

def eval (l : List Mark) : Latent := Machine.run step start l

theorem eval_concat (l : List Mark) (m : Mark) : eval (l ++ [m]) = (eval l).step m :=
  Machine.run_append step start l [m]

/-! ### What the context holds at the end of a list -/

theorem bg_eq (l : List Mark) : (eval l).bg = (last? Mark.paper? l).getD black := by
  refine run_latest Latent.bg (fun s m => ?_) start l
  cases m with
  | mosaic | space =>
      change Latent.bg (if _ then _ else _) = _
      split <;> rfl
  | _ => rfl

theorem mask_eq (l : List Mark) : (eval l).mask = (last? Mark.mask? l).getD false := by
  refine run_latest Latent.mask (fun s m => ?_) start l
  cases m with
  | mosaic | space =>
      change Latent.mask (if _ then _ else _) = _
      split <;> rfl
  | _ => rfl

theorem ul_eq (l : List Mark) : (eval l).ul = (last? Mark.ul? l).getD false := by
  refine run_latest Latent.ul (fun s m => ?_) start l
  cases m with
  | mosaic | space =>
      change Latent.ul (if _ then _ else _) = _
      split <;> rfl
  | _ => rfl

/-- Since the last break there has been a definition of the masking or of the lining. -/
def ZoneDue (l : List Mark) : Prop := ∃ m ∈ since Mark.breaks l, m.zone = true

/-- Since the last break there has been a paper that no mosaic has taken up. -/
def PaperDue (l : List Mark) : Prop :=
  ∃ b n c, since Mark.breaks l = b ++ .paper n :: c ∧ .mosaic ∉ c

def Due (l : List Mark) : Prop := ZoneDue l ∨ PaperDue l

theorem zoneDue_concat (l : List Mark) (m : Mark) :
    ZoneDue (l ++ [m]) ↔ m.breaks = false ∧ (m.zone = true ∨ ZoneDue l) := by
  rw [ZoneDue, since_concat]
  cases h : m.breaks with
  | true => simp
  | false => simp [ZoneDue, or_comm]

theorem paperDue_concat (l : List Mark) (m : Mark) :
    PaperDue (l ++ [m]) ↔ m.breaks = false ∧ m ≠ .mosaic ∧ ((∃ n, m = .paper n) ∨ PaperDue l) := by
  rw [PaperDue, since_concat]
  cases h : m.breaks with
  | true => simp
  | false =>
      simp only [Bool.false_eq_true, if_false, true_and]
      constructor
      · rintro ⟨b, n, c, heq, hc⟩
        induction c using List.reverseRecOn with
        | nil =>
            obtain ⟨-, hm⟩ := List.append_inj' heq rfl
            obtain rfl := List.singleton_inj.mp hm
            exact ⟨nofun, .inl ⟨n, rfl⟩⟩
        | append_singleton c x _ =>
            rw [← List.cons_append, ← List.append_assoc] at heq
            obtain ⟨hrest, hm⟩ := List.append_inj' heq rfl
            obtain rfl := List.singleton_inj.mp hm
            have hm' : m ≠ .mosaic := fun hmosaic => hc (by simp [hmosaic])
            exact ⟨hm', .inr ⟨b, n, c, hrest, fun hmem => hc (List.mem_append_left _ hmem)⟩⟩
      · rintro ⟨hm, ⟨n, rfl⟩ | ⟨b, n, c, heq, hc⟩⟩
        · exact ⟨since Mark.breaks l, n, [], rfl, List.not_mem_nil⟩
        · refine ⟨b, n, c ++ [m], ?_, ?_⟩
          · rw [heq, List.append_assoc, List.cons_append]
          · simp only [List.mem_append, List.mem_singleton, not_or]
            exact ⟨hc, hm.symm⟩

theorem other_iff (l : List Mark) : (eval l).other = true ↔ ZoneDue l := by
  induction l using List.reverseRecOn with
  | nil => simp [eval, start, ZoneDue]
  | append_singleton l m ih =>
      rw [eval_concat, zoneDue_concat, ← ih]
      cases m with
      | mosaic =>
          simp only [step]
          split <;> simp_all [Mark.breaks, Mark.zone]
      | space c =>
          simp only [step]
          split <;> simp_all [Mark.breaks, Mark.zone]
      | _ => simp [step, start, Mark.breaks, Mark.zone]

theorem pending_iff (l : List Mark) : (eval l).pending = true ↔ Due l := by
  induction l using List.reverseRecOn with
  | nil => simp [eval, start, Due, ZoneDue, PaperDue]
  | append_singleton l m ih =>
      have hother := other_iff l
      rw [eval_concat, Due, zoneDue_concat, paperDue_concat, ← hother]
      rw [Due, ← hother] at ih
      cases m with
      | mosaic =>
          simp only [step]
          split <;> simp_all [Mark.breaks, Mark.zone]
      | space c =>
          simp only [step]
          split <;> simp_all [Mark.breaks, Mark.zone]
      | _ => simp_all [step, start, Mark.breaks, Mark.zone]

/-- A delimiter leaves nothing pending. -/
theorem not_due_delim (l : List Mark) {c : Cell} (hc : c.kind = .delim) : ¬ Due (l ++ [.space c]) := by
  rw [Due, zoneDue_concat, paperDue_concat]
  simp [Mark.breaks, hc]

end Latent

/-! ### The excursions to row 0 -/

/-- The context in force, and the one that waits for the way out of row 0. -/
def suspend (p : Latent × Latent) : Mark → Latent × Latent
  | .enter => (.start, p.1)
  | .back => (p.2, p.2)
  | m => (p.1.step m, p.2)

/-- The marks that count, and those that will count again after row 0. -/
def liveStep (p : List Mark × List Mark) : Mark → List Mark × List Mark
  | .enter => (p.1 ++ [.enter], p.1)
  | .back => (p.2, p.2)
  | m => (p.1 ++ [m], p.2)

/-- A list without the excursions that LF has ended. -/
def live (l : List Mark) : List Mark := (Machine.run liveStep ([], []) l).1

theorem run_suspend (l : List Mark) :
    (Machine.run suspend (.start, .start) l).1 = Latent.eval (live l) := by
  have hrel : ∀ (p : Latent × Latent) (q : List Mark × List Mark) (m : Mark),
      p = (Latent.eval q.1, Latent.eval q.2) →
        suspend p m = (Latent.eval (liveStep q m).1, Latent.eval (liveStep q m).2) := by
    rintro _ q m rfl
    cases m <;> simp only [suspend, liveStep, Latent.eval_concat, Latent.step]
  exact congrArg Prod.fst (Machine.run_rel (t := (([], []) : List Mark × List Mark))
    (R := fun p q => p = (Latent.eval q.1, Latent.eval q.2)) hrel rfl l)

end UnicornSuite.Minitel
