import Mathlib.Data.List.DropRight
import UnicornSuite.ZmodemName

/-! What `zmodem_recv_sanitize_name` leaves in a buffer. A name that is accepted becomes the head of its base name
that fits (`kept`), and every other one the fallback (`sanitizeName_eq`); so the laws of a sanitised name
come down to the base name and the capacity, and what the device-name test has let through. -/

namespace UnicornSuite.Zmodem

/-! ### Cutting an end -/

section Cut

variable {α : Type*} {p : α → Bool}

/-- What is cut at the end may stand there or not. -/
theorem rdropWhile_append_all {l t : List α} (ht : ∀ c ∈ t, p c = true) :
    (l ++ t).rdropWhile p = l.rdropWhile p := by
  induction t using List.reverseRecOn with
  | nil => rw [List.append_nil]
  | append_singleton t c ih =>
      have hc : p c = true := ht c (List.mem_append_right t (List.mem_singleton_self c))
      rw [← List.append_assoc, List.rdropWhile_concat_pos _ _ _ hc]
      exact ih fun c hc => ht c (List.mem_append_left _ hc)

theorem exists_rdropWhile_append (l : List α) : ∃ t, l = l.rdropWhile p ++ t ∧ ∀ c ∈ t, p c = true := by
  refine ⟨l.rtakeWhile p, ?_, fun c hc => List.mem_rtakeWhile_imp hc⟩
  rw [List.rdropWhile_append_rtakeWhile]

/-- Cutting the end before a list is shortened changes nothing. -/
theorem rdropWhile_take_rdropWhile (l : List α) (n : Nat) :
    ((l.rdropWhile p).take n).rdropWhile p = (l.take n).rdropWhile p := by
  obtain ⟨t, ht, hall⟩ := exists_rdropWhile_append (p := p) l
  have hsplit : (l.take n).rdropWhile p = ((l.rdropWhile p ++ t).take n).rdropWhile p := by rw [← ht]
  rw [hsplit, List.take_append, rdropWhile_append_all]
  exact fun c hc => hall c (List.mem_of_mem_take hc)

end Cut

theorem trimEnd_eq (s : CString) : trimEnd s = s.rdropWhile fun c => c = dotChar ∨ c = spaceChar := rfl

theorem trimEnd_take_trimEnd (s : CString) (n : Nat) : trimEnd ((trimEnd s).take n) = trimEnd (s.take n) :=
  rdropWhile_take_rdropWhile s n

theorem trimEnd_trimEnd (s : CString) : trimEnd (trimEnd s) = trimEnd s := List.rdropWhile_idempotent _ _

theorem trimEnd_isPrefix (s : CString) : trimEnd s <+: s := List.rdropWhile_prefix _ s

/-! ### The name that is kept -/

def stem (s : CString) : CString := s.takeWhile (· ≠ dotChar)

/-- What passes every test of the function. -/
def Accepted (raw : CString) : Prop :=
  let base := baseName raw raw
  base.length < 256 ∧ base.any isIllegal = false ∧ nameIsReserved (stem (trimEnd base)) = false

instance (raw : CString) : Decidable (Accepted raw) := inferInstanceAs (Decidable (_ ∧ _ ∧ _))

/-- The head of the base name that fits into the buffer. -/
def kept (raw : CString) (cap : Nat) : CString := trimEnd ((baseName raw raw).take (cap - 1))

theorem kept_of_lt {raw : CString} {cap : Nat} (h : (trimEnd (baseName raw raw)).length < cap) :
    trimEnd (baseName raw raw) = kept raw cap := by
  rw [kept, ← trimEnd_take_trimEnd, List.take_of_length_le (by omega), trimEnd_trimEnd]

theorem kept_nil {raw : CString} {cap : Nat} (h : trimEnd (baseName raw raw) = []) : kept raw cap = [] := by
  rw [kept, ← trimEnd_take_trimEnd, h, List.take_nil]
  rfl

theorem length_of_reserved {s : CString} (h : nameIsReserved s = true) : 0 < s.length ∧ s.length < 16 := by
  rw [nameIsReserved] at h
  by_cases hlen : s.length = 0 ∨ s.length ≥ 16
  · rw [if_pos hlen] at h
    cases h
  · omega

theorem reserved_iff (s : CString) : (s.length < 16 ∧ nameIsReserved s = true) ↔ nameIsReserved s = true :=
  ⟨fun h => h.2, fun h => ⟨(length_of_reserved h).2, h⟩⟩

theorem trimEnd_ne_dots (s : CString) : trimEnd s ≠ ascii "." ∧ trimEnd s ≠ ascii ".." := by
  constructor
  · intro h
    have hfix := trimEnd_trimEnd s
    rw [h] at hfix
    revert hfix
    decide
  · intro h
    have hfix := trimEnd_trimEnd s
    rw [h] at hfix
    revert hfix
    decide

/-- A name is kept where it passes the tests and something of it is left, and else becomes the fallback. -/
theorem sanitizeName_eq (raw : CString) {cap : Nat} (hcap : 1 ≤ cap) :
    sanitizeName (some raw) cap =
      if Accepted raw ∧ kept raw cap ≠ [] then (true, kept raw cap) else fallbackName cap := by
  have hzero : ¬ cap = 0 := by omega
  rw [sanitizeName, if_neg hzero]
  dsimp only
  by_cases hlen : (baseName raw raw).length = 0 ∨ (baseName raw raw).length ≥ 256
  · rw [if_pos hlen, if_neg]
    rintro ⟨⟨hshort, -⟩, hne⟩
    have hnil : baseName raw raw = [] := List.eq_nil_of_length_eq_zero (by omega)
    exact hne (kept_nil (by rw [hnil]; rfl))
  rw [if_neg hlen]
  by_cases hill : (baseName raw raw).any isIllegal = true
  · rw [if_pos hill, if_neg]
    rintro ⟨⟨-, hlegal, -⟩, -⟩
    rw [hill] at hlegal
    cases hlegal
  rw [if_neg hill]
  by_cases hnil : trimEnd (baseName raw raw) = []
  · rw [if_pos hnil, if_neg]
    exact fun h => h.2 (kept_nil hnil)
  rw [if_neg hnil, if_neg (by have hdots := trimEnd_ne_dots (baseName raw raw); tauto)]
  simp only [reserved_iff]
  by_cases hres : nameIsReserved (stem (trimEnd (baseName raw raw))) = true
  · rw [stem] at hres
    rw [if_pos hres, if_neg]
    rintro ⟨⟨-, -, hfree⟩, -⟩
    rw [stem, hres] at hfree
    cases hfree
  have hacc : Accepted raw := ⟨by omega, Bool.eq_false_iff.mpr hill, Bool.eq_false_iff.mpr hres⟩
  rw [stem] at hres
  rw [if_neg hres]
  by_cases hcut : (trimEnd (baseName raw raw)).length ≥ cap
  · rw [if_pos hcut, trimEnd_take_trimEnd, ← kept]
    by_cases hhead : kept raw cap = []
    · rw [if_pos hhead, if_neg fun h => h.2 hhead]
    · rw [if_neg hhead, if_pos ⟨hacc, hhead⟩]
  · have hkept := kept_of_lt (not_le.mp hcut)
    rw [if_neg hcut, hkept, if_pos ⟨hacc, by rwa [← hkept]⟩]

/-! ### Properties of the kept name -/

/-- The stem as Windows resolves it: up to the first dot, trailing spaces ignored. -/
def windowsStem (s : CString) : CString := (stem s).rdropWhile (· = spaceChar)

/-- It does not see the dots and spaces at the end of the name. -/
theorem windowsStem_trimEnd (s : CString) : windowsStem (trimEnd s) = windowsStem s := by
  obtain ⟨t, hs, ht⟩ := exists_rdropWhile_append (p := fun c => decide (c = dotChar ∨ c = spaceChar)) s
  rw [← trimEnd_eq] at hs
  have hspaces : ∀ c ∈ stem t, decide (c = spaceChar) = true := by
    intro c hc
    rw [stem] at hc
    have hor := decide_eq_true_iff.mp (ht c ((List.takeWhile_prefix _).subset hc))
    have hdot := List.mem_takeWhile_imp hc
    exact decide_eq_true (hor.resolve_left (decide_eq_true_iff.mp hdot))
  rw [windowsStem, windowsStem]
  conv_rhs => rw [hs, stem, List.takeWhile_append]
  by_cases hfull : ((trimEnd s).takeWhile (· ≠ dotChar)).length = (trimEnd s).length
  · have hnodot : stem (trimEnd s) = trimEnd s := (List.takeWhile_prefix _).eq_of_length hfull
    rw [if_pos hfull, hnodot]
    exact (rdropWhile_append_all hspaces).symm
  · rw [if_neg hfull]
    rfl

theorem illegal_of_separator {c : UInt8} (h : isSeparator c = true) : isIllegal c = true := by
  rw [isSeparator, decide_eq_true_iff] at h
  rcases h with rfl | rfl | rfl <;> decide

theorem baseName_of_no_separator {s : CString} (base : CString) (h : ∀ c ∈ s, isSeparator c = false) :
    baseName base s = base := by
  induction s with
  | nil => rfl
  | cons c s ih =>
      rw [baseName, h c List.mem_cons_self, if_neg Bool.false_ne_true]
      exact ih fun c hc => h c (List.mem_cons_of_mem _ hc)

theorem kept_isPrefix (raw : CString) (cap : Nat) : kept raw cap <+: baseName raw raw :=
  (trimEnd_isPrefix _).trans (List.take_prefix _ _)

theorem kept_length (raw : CString) (cap : Nat) : (kept raw cap).length ≤ cap - 1 :=
  (trimEnd_isPrefix _).length_le.trans (List.length_take_le _ _)

theorem trimEnd_kept (raw : CString) (cap : Nat) : trimEnd (kept raw cap) = kept raw cap := trimEnd_trimEnd _

/-- No device is called by a name with a space at its end. -/
theorem reserved_no_space {s : CString} (h : nameIsReserved s = true) : s.rdropWhile (· = spaceChar) = s := by
  rw [List.rdropWhile_eq_self_iff]
  intro hne hspace
  obtain ⟨t, rfl⟩ : ∃ t, s = t ++ [spaceChar] := by
    refine ⟨s.dropLast, ?_⟩
    have hlast : s.getLast hne = spaceChar := decide_eq_true_iff.mp hspace
    rw [← hlast, List.dropLast_append_getLast]
  obtain ⟨-, hlen⟩ := length_of_reserved h
  rw [nameIsReserved, if_neg (by simp at hlen ⊢; omega)] at h
  have hup : (t ++ [spaceChar]).map upper = t.map upper ++ [spaceChar] := by
    rw [List.map_append]
    rfl
  rw [hup] at h
  by_cases hfixed : t.map upper ++ [spaceChar] ∈ [ascii "CON", ascii "PRN", ascii "AUX", ascii "NUL"]
  · have hends : ∀ u ∈ [ascii "CON", ascii "PRN", ascii "AUX", ascii "NUL"], u.getLast? ≠ some spaceChar := by
      decide
    exact hends _ hfixed List.getLast?_concat
  · rw [if_neg hfixed, decide_eq_true_iff] at h
    obtain ⟨hfour, hlow, -⟩ := h
    have hthree : (t.map upper).length = 3 := by
      rw [List.length_append, List.length_singleton] at hfour
      rw [List.length_map]
      omega
    rw [List.getD_eq_getElem?_getD, List.getElem?_append_right hthree.le, hthree] at hlow
    revert hlow
    decide

/-- What Windows does not take for a device, the function does not either. -/
theorem stem_not_reserved {s : CString} (h : nameIsReserved (windowsStem s) = false) :
    nameIsReserved (stem s) = false := by
  rw [Bool.eq_false_iff]
  intro hres
  rw [windowsStem, reserved_no_space hres, hres] at h
  cases h

theorem kept_legal {raw : CString} (hacc : Accepted raw) (cap : Nat) :
    ∀ c ∈ kept raw cap, isSeparator c = false ∧ isIllegal c = false := by
  intro c hc
  have hill : isIllegal c = false := by
    have hall := List.any_eq_false.mp hacc.2.1 c ((kept_isPrefix raw cap).subset hc)
    exact Bool.eq_false_iff.mpr hall
  refine ⟨Bool.eq_false_iff.mpr fun hsep => ?_, hill⟩
  rw [illegal_of_separator hsep] at hill
  cases hill

/-- A kept name is kept again as it is, unless it is the name of a device. -/
theorem sanitizeName_kept {raw : CString} {cap : Nat} (hcap : 1 ≤ cap) (hacc : Accepted raw)
    (hne : kept raw cap ≠ []) (hstem : nameIsReserved (windowsStem (kept raw cap)) = false) :
    sanitizeName (some (kept raw cap)) cap = (true, kept raw cap) := by
  have hlegal := kept_legal hacc cap
  have hbase : baseName (kept raw cap) (kept raw cap) = kept raw cap :=
    baseName_of_no_separator _ fun c hc => (hlegal c hc).1
  have hagain : kept (kept raw cap) cap = kept raw cap := by
    rw [kept, hbase, List.take_of_length_le (kept_length raw cap), trimEnd_kept]
  have hacc' : Accepted (kept raw cap) := by
    rw [Accepted, hbase, trimEnd_kept]
    refine ⟨(kept_isPrefix raw cap).length_le.trans_lt hacc.1, ?_, stem_not_reserved hstem⟩
    exact List.any_eq_false.mpr fun c hc => Bool.eq_false_iff.mp (hlegal c hc).2
  rw [sanitizeName_eq _ hcap, hagain, if_pos ⟨hacc', hne⟩]

/-! ### The law -/

/-- The bytes stored at `out`: the name and its terminator. -/
def storedName (raw : Option CString) (cap : Nat) : List UInt8 := (sanitizeName raw cap).2 ++ [0]

/-- What is asked of the name left in a buffer of `cap` bytes. -/
structure Sanitised (raw : Option CString) (cap : Nat) : Prop where
  inside : (storedName raw cap).length ≤ cap
  terminated : cstr (storedName raw cap) = (sanitizeName raw cap).2
  nonempty : 2 ≤ cap → (sanitizeName raw cap).2 ≠ []
  legal : ∀ c ∈ (sanitizeName raw cap).2, isSeparator c = false ∧ isIllegal c = false
  trailing : ∀ h : (sanitizeName raw cap).2 ≠ [],
    (sanitizeName raw cap).2.getLast h ≠ dotChar ∧ (sanitizeName raw cap).2.getLast h ≠ spaceChar
  device : nameIsReserved (windowsStem (sanitizeName raw cap).2) = false
  again : (sanitizeName (some (sanitizeName raw cap).2) cap).2 = (sanitizeName raw cap).2

/-- The name passes the tests, and its first `cap - 1` characters are a device for Windows. -/
def Device : Option CString → Nat → Prop
  | none, _ => False
  | some raw, cap => Accepted raw ∧ nameIsReserved (windowsStem ((baseName raw raw).take (cap - 1))) = true

theorem not_illegal_zero : isIllegal 0 = true := by decide

/-- The parts of the law that come from the characters. -/
theorem sanitised_of {raw : Option CString} {cap : Nat} {s : CString} (hs : (sanitizeName raw cap).2 = s)
    (hlen : s.length < cap) (hne : s ≠ []) (hlegal : ∀ c ∈ s, isSeparator c = false ∧ isIllegal c = false)
    (htrim : trimEnd s = s) (hdevice : nameIsReserved (windowsStem s) = false)
    (hagain : (sanitizeName (some s) cap).2 = s) : Sanitised raw cap := by
  refine ⟨?_, ?_, fun _ => by rwa [hs], by rwa [hs], ?_, by rwa [hs], by rw [hs, hagain]⟩
  · rw [storedName, hs, List.length_append, List.length_singleton]
    exact hlen
  · rw [storedName, hs, cstr, List.takeWhile_append_of_pos, List.takeWhile_cons_of_neg (by simp), List.append_nil]
    intro c hc
    rw [decide_eq_true_iff]
    rintro rfl
    have hzero := (hlegal 0 hc).2
    rw [not_illegal_zero] at hzero
    cases hzero
  · rw [hs]
    intro h
    have hlast := List.rdropWhile_eq_self_iff.mp htrim h
    rw [decide_eq_true_iff, not_or] at hlast
    exact hlast

/-- The fallback keeps the law where the buffer has room for it. -/
theorem sanitised_fallback {raw : Option CString} {cap : Nat} (hcap : 2 ≤ cap)
    (hs : sanitizeName raw cap = fallbackName cap) : Sanitised raw cap := by
  by_cases hroom : cap > (ascii "download.bin").length
  · have hname : (sanitizeName raw cap).2 = ascii "download.bin" := by rw [hs, fallbackName, if_pos hroom]
    have hfits : kept (ascii "download.bin") cap = ascii "download.bin" := by
      rw [kept, List.take_of_length_le]
      · decide
      · exact Nat.le_sub_one_of_lt hroom
    refine sanitised_of hname hroom (by decide +kernel) (by decide +kernel) (by decide +kernel) (by decide +kernel) ?_
    rw [sanitizeName_eq _ (by omega), hfits, if_pos (by decide)]
  · have hname : (sanitizeName raw cap).2 = ascii "f" := by rw [hs, fallbackName, if_neg hroom]
    have hfits : kept (ascii "f") cap = ascii "f" := by
      rw [kept, List.take_of_length_le]
      · decide
      · exact Nat.le_sub_one_of_lt hcap
    refine sanitised_of hname hcap (by decide +kernel) (by decide +kernel) (by decide +kernel) (by decide +kernel) ?_
    rw [sanitizeName_eq _ (by omega), hfits, if_pos (by decide)]

/-- One byte has room for the terminator only, and gets `f` before it. -/
theorem sanitizeName_one (raw : Option CString) : (sanitizeName raw 1).2 = ascii "f" := by
  cases raw with
  | none => rfl
  | some raw =>
      have hnil : kept raw 1 = [] := List.eq_nil_of_length_eq_zero (Nat.le_zero.mp (kept_length raw 1))
      rw [sanitizeName_eq raw (le_refl 1), if_neg fun h => h.2 hnil]
      rfl

theorem windowsStem_kept (raw : CString) (cap : Nat) :
    windowsStem (kept raw cap) = windowsStem ((baseName raw raw).take (cap - 1)) := windowsStem_trimEnd _

/-- The law holds exactly where the buffer has room for one character and its terminator, and the first `cap - 1`
characters of an accepted name are no device for Windows. -/
theorem sanitised_iff (raw : Option CString) {cap : Nat} (hcap : 1 ≤ cap) :
    Sanitised raw cap ↔ 2 ≤ cap ∧ ¬ Device raw cap := by
  constructor
  · intro h
    have hroom : 2 ≤ cap := by
      by_contra hone
      obtain rfl : cap = 1 := by omega
      have hinside := h.inside
      rw [storedName, sanitizeName_one] at hinside
      exact absurd hinside (by decide)
    refine ⟨hroom, fun hdev => ?_⟩
    cases raw with
    | none => exact hdev
    | some raw =>
        obtain ⟨hacc, hres⟩ := hdev
        rw [← windowsStem_kept] at hres
        have hne : kept raw cap ≠ [] := by
          intro hnil
          rw [hnil] at hres
          revert hres
          decide
        have hdevice := h.device
        rw [sanitizeName_eq raw hcap, if_pos ⟨hacc, hne⟩, hres] at hdevice
        cases hdevice
  · rintro ⟨hroom, hdev⟩
    cases raw with
    | none =>
        have hzero : ¬ cap = 0 := by omega
        exact sanitised_fallback hroom (by rw [sanitizeName, if_neg hzero])
    | some raw =>
        have heq := sanitizeName_eq raw hcap
        by_cases hacc : Accepted raw ∧ kept raw cap ≠ []
        · rw [if_pos hacc] at heq
          have hstem : nameIsReserved (windowsStem (kept raw cap)) = false :=
            Bool.eq_false_iff.mpr fun hres => hdev ⟨hacc.1, by rwa [← windowsStem_kept]⟩
          have hlen := kept_length raw cap
          refine sanitised_of (by rw [heq]) (by omega) hacc.2 (kept_legal hacc.1 cap) (trimEnd_kept raw cap) hstem ?_
          rw [sanitizeName_kept hcap hacc.1 hacc.2 hstem]
        · rw [if_neg hacc] at heq
          exact sanitised_fallback hroom heq

/-- A name of the sort that senders use, in the buffer of the receiver. -/
theorem sanitised_report : Sanitised (some (ascii "C:/docs/report.txt. ")) nameCap :=
  (sanitised_iff _ (by decide)).mpr ⟨by decide, by
    rintro ⟨-, hres⟩
    revert hres
    decide⟩

/-- `CON .txt` passes as it is in the buffer of the receiver: the space hides the device. In a buffer of four bytes
`CONSOLE` becomes `CON`, and then, sanitised again, `f`. And in one byte two are stored. -/
theorem not_sanitised :
    ¬ Sanitised (some (ascii "CON .txt")) nameCap ∧ ¬ Sanitised (some (ascii "CONSOLE")) 4 ∧
      (sanitizeName (some (ascii "CONSOLE")) 4).2 = ascii "CON" ∧
      (sanitizeName (some (ascii "CON")) 4).2 = ascii "f" ∧ ¬ Sanitised none 1 := by
  refine ⟨fun h => ?_, fun h => ?_, by decide, by decide, fun h => ?_⟩
  · have hdevice := h.device
    revert hdevice
    decide
  · have hdevice := h.device
    revert hdevice
    decide
  · exact absurd h.inside (by decide)

end UnicornSuite.Zmodem
