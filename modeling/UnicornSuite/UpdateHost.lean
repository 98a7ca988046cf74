import Mathlib.Data.List.TakeWhile
import UnicornSuite.LibText

/-! The URL gate of the updater (`url_host_allowed` in `suite_update.c`) beside the host a URL parser
finds. The gate delimits at `/` and `:` only and takes every text that ends in a dot and the host of
the updates (`urlHostAllowed_exact_iff`). -/

namespace UnicornSuite.Update

open CText

/-- `UPDATE_ALLOWED_HOST`. -/
def updateAllowedHost : CString := ascii "apps.greektimes.ca"

def slash : UInt8 := 0x2F
def colon : UInt8 := 0x3A
def atSign : UInt8 := 0x40
def period : UInt8 := 0x2E

/-- The text the gate takes for the host of what follows the scheme. -/
def hostText (h : CString) : CString := h.takeWhile fun c => c ≠ slash ∧ c ≠ colon

def urlHostAllowed (url : CString) : Bool :=
  let dlen := updateAllowedHost.length
  if strnicmp url (ascii "https://") 8 ≠ 0 then false
  else
    let h := url.drop 8
    if atSign ∈ h.takeWhile (· ≠ slash) then false
    else
      let hlen := (hostText h).length
      if hlen = 0 then false
      else if hlen = dlen then strnicmp h updateAllowedHost dlen = 0
      else if hlen > dlen then
        h.getD (hlen - dlen - 1) 0 = period ∧
          strnicmp (h.drop (hlen - dlen)) updateAllowedHost dlen = 0
      else false

section Parser

/-- The authority ends at one of these. -/
def endsAuthority (c : UInt8) : Bool := c = slash ∨ c = 0x3F ∨ c = 0x23 ∨ c = 0x5C

/-- The host of what follows the scheme: of the authority, what stands behind the userinfo and before
the port. -/
def authorityHost (h : CString) : CString :=
  let authority := h.takeWhile fun c => !endsAuthority c
  let hostPort := (authority.reverse.takeWhile (· ≠ atSign)).reverse
  hostPort.takeWhile (· ≠ colon)

/-- Letter case does not tell hosts apart. -/
def IsUpdateHost (host : CString) : Prop := host.map lower = updateAllowedHost

instance (host : CString) : Decidable (IsUpdateHost host) :=
  inferInstanceAs (Decidable (host.map lower = updateAllowedHost))

end Parser

section Exact

/-- A query, a fragment or a backslash begins; the gate reads on. -/
def readOver (c : UInt8) : Bool := c = 0x3F ∨ c = 0x23 ∨ c = 0x5C

/-- The text ends in a dot and the host. -/
def EndsInHost (t : CString) : Prop := ∃ front, t.map lower = front ++ period :: updateAllowedHost

/-- The text begins with the host, and a query, a fragment or a backslash follows it there. -/
def BeginsWithHost (t : CString) : Prop :=
  ∃ c rest, readOver c = true ∧ t.map lower = updateAllowedHost ++ c :: rest

/-- The gate comes to the host comparison: the scheme is https and no `@` stands before a `/`. -/
def Examined (url : CString) : Prop :=
  strnicmp url (ascii "https://") 8 = 0 ∧ atSign ∉ (url.drop 8).takeWhile (· ≠ slash)

variable (h t : CString)

theorem strnicmp_eq_zero {a b : CString} {n : Nat} :
    strnicmp a b n = 0 ↔ (a.map lower).take n = (b.map lower).take n := by
  rw [strnicmp, strncmp_eq_compare, sign_eq_zero]
  exact Std.LawfulEqOrd.compare_eq_iff_eq

theorem allowedHost_lower : updateAllowedHost.map lower = updateAllowedHost := by decide

theorem allowedHost_length : updateAllowedHost.length = 18 := by decide

/-- A text is the first of a string; the gate compares in the string. -/
theorem take_hostText {n : Nat} (hn : n ≤ (hostText h).length) :
    h.take n = (hostText h).take n := by
  obtain ⟨rest, hrest⟩ := List.takeWhile_prefix (l := h) (fun c => decide (c ≠ slash ∧ c ≠ colon))
  have htake : (hostText h ++ rest).take n = (hostText h).take n :=
    List.take_append_of_le_length hn
  rw [← htake]
  exact congrArg _ hrest.symm

theorem lower_eq_period {c : UInt8} : lower c = period ↔ c = period := by
  unfold lower period
  grind

theorem length_of_isUpdateHost {t : CString} (ht : IsUpdateHost t) : t.length = 18 := by
  rw [← List.length_map (f := lower), ht, allowedHost_length]

theorem length_of_endsInHost {t : CString} (ht : EndsInHost t) : 18 < t.length := by
  obtain ⟨front, hfront⟩ := ht
  have hlength := congrArg List.length hfront
  rw [List.length_map, List.length_append, List.length_cons, allowedHost_length] at hlength
  omega

/-- The comparison in the string is one in the text. -/
theorem strnicmp_hostText {k : Nat} (hk : k + 18 = (hostText h).length) :
    strnicmp (h.drop k) updateAllowedHost 18 = 0 ↔ IsUpdateHost ((hostText h).drop k) := by
  have hwhole : (h.drop k).take 18 = (hostText h).drop k := by
    rw [List.take_drop, take_hostText h (by omega), List.take_of_length_le (by omega)]
  have hallowed : updateAllowedHost.take 18 = updateAllowedHost :=
    List.take_of_length_le (Nat.le_of_eq allowedHost_length)
  rw [strnicmp_eq_zero, allowedHost_lower, hallowed, ← List.map_take, hwhole]
  rfl

theorem endsInHost_iff (ht : 18 < t.length) :
    EndsInHost t ↔ t.getD (t.length - 18 - 1) 0 = period ∧ IsUpdateHost (t.drop (t.length - 18)) := by
  have hindex : t.length - 18 - 1 < t.length := by omega
  have hsplit : t.drop (t.length - 18 - 1) =
      t.getD (t.length - 18 - 1) 0 :: t.drop (t.length - 18) := by
    rw [List.getD_eq_getElem?_getD, List.getElem?_eq_getElem hindex, Option.getD_some,
      List.drop_eq_getElem_cons hindex]
    congr 2
    omega
  constructor
  · rintro ⟨front, hfront⟩
    have hlength := congrArg List.length hfront
    rw [List.length_map, List.length_append, List.length_cons, allowedHost_length] at hlength
    have hdrop := congrArg (List.drop (t.length - 18 - 1)) hfront
    rw [← List.map_drop, hsplit, List.drop_left' (by omega), List.map_cons, List.cons.injEq] at hdrop
    exact ⟨lower_eq_period.mp hdrop.1, hdrop.2⟩
  · rintro ⟨hperiod, hhost⟩
    refine ⟨(t.take (t.length - 18 - 1)).map lower, ?_⟩
    rw [← hhost, ← lower_eq_period.mpr hperiod, ← List.map_cons, ← hsplit, ← List.map_append,
      List.take_append_drop]

theorem getD_hostText {i : Nat} (hi : i < (hostText h).length) :
    h.getD i 0 = (hostText h).getD i 0 := by
  have hwhole := take_hostText h (Nat.le_refl _)
  rw [List.take_length] at hwhole
  rw [List.getD_eq_getElem?_getD, List.getD_eq_getElem?_getD, ← List.getElem?_take_of_lt hi, hwhole]

/-- What the gate accepts. -/
theorem urlHostAllowed_iff (url : CString) :
    urlHostAllowed url = true ↔ Examined url ∧
      (IsUpdateHost (hostText (url.drop 8)) ∨ EndsInHost (hostText (url.drop 8))) := by
  by_cases hexamined : Examined url
  · rw [urlHostAllowed, if_neg (not_not.mpr hexamined.1)]
    simp only [allowedHost_length, if_neg hexamined.2]
    rw [and_iff_right hexamined]
    generalize url.drop 8 = h
    by_cases heq : (hostText h).length = 18
    · rw [if_neg (by omega), if_pos heq, decide_eq_true_eq]
      have hcompare := strnicmp_hostText h (k := 0) (by omega)
      rw [List.drop_zero, List.drop_zero] at hcompare
      refine hcompare.trans (or_iff_left fun hends => ?_).symm
      exact absurd (length_of_endsInHost hends) (by omega)
    · have hnot : ¬ IsUpdateHost (hostText h) := fun hhost => heq (length_of_isUpdateHost hhost)
      by_cases hlong : 18 < (hostText h).length
      · rw [if_neg (by omega), if_neg heq, if_pos hlong, decide_eq_true_eq, or_iff_right hnot,
          endsInHost_iff _ hlong, getD_hostText h (by omega), strnicmp_hostText h (by omega)]
      · refine iff_of_false ?_ ?_
        · split_ifs <;> nofun
        · rintro (hhost | hends)
          · exact hnot hhost
          · exact hlong (length_of_endsInHost hends)
  · refine iff_of_false ?_ fun h => hexamined h.1
    unfold urlHostAllowed
    rw [Examined, not_and_or, not_not] at hexamined
    rcases hexamined with hscheme | hat
    · rw [if_pos hscheme]
      nofun
    · simp only [if_pos hat]
      split_ifs <;> nofun

/-! ### The host of a parser -/

/-- Where no `@` stands before a `/`, the parser finds the text of the gate, cut where the gate reads
over. -/
theorem authorityHost_eq (hat : atSign ∉ h.takeWhile (· ≠ slash)) :
    authorityHost h = (hostText h).takeWhile fun c => !readOver c := by
  have hauthority : (h.takeWhile (· ≠ slash)).takeWhile (fun c => !endsAuthority c) =
      h.takeWhile fun c => !endsAuthority c := by
    rw [List.takeWhile_takeWhile]
    congr 1
    funext c
    simp only [endsAuthority]
    grind
  have hnone : ∀ c ∈ (h.takeWhile fun c => !endsAuthority c).reverse, decide (c ≠ atSign) = true := by
    intro c hc
    rw [List.mem_reverse, ← hauthority] at hc
    have hmem := (List.takeWhile_prefix _).subset hc
    simpa using fun heq : c = atSign => hat (heq ▸ hmem)
  unfold authorityHost hostText
  simp only
  rw [List.takeWhile_eq_self_iff.mpr hnone, List.reverse_reverse, List.takeWhile_takeWhile,
    List.takeWhile_takeWhile]
  congr 1
  funext c
  simp only [endsAuthority, readOver]
  grind

theorem isUpdateHost_takeWhile :
    IsUpdateHost (t.takeWhile fun c => !readOver c) ↔ IsUpdateHost t ∨ BeginsWithHost t := by
  have hlower : (t.takeWhile fun c => !readOver c).map lower =
      (t.map lower).takeWhile fun c => !readOver c := by
    rw [List.takeWhile_map]
    congr 2
    funext c
    simp only [readOver, lower, Function.comp_apply]
    grind
  have hallowed : updateAllowedHost.takeWhile (fun c => !readOver c) = updateAllowedHost := by
    decide
  unfold IsUpdateHost BeginsWithHost
  rw [hlower]
  constructor
  · intro htake
    have hsplit := List.takeWhile_append_dropWhile (p := fun c => !readOver c) (l := t.map lower)
    rw [htake] at hsplit
    cases hrest : (t.map lower).dropWhile (fun c => !readOver c) with
    | nil =>
        rw [hrest, List.append_nil] at hsplit
        exact .inl hsplit.symm
    | cons c rest =>
        rw [hrest] at hsplit
        refine .inr ⟨c, rest, ?_, hsplit.symm⟩
        have hhead := List.head?_dropWhile_not (fun c => !readOver c) (t.map lower)
        rw [hrest] at hhead
        simpa using hhead
  · rintro (hhost | ⟨c, rest, hc, hhost⟩)
    · rw [hhost, hallowed]
    · rw [hhost, List.takeWhile_append, hallowed, if_pos rfl,
        List.takeWhile_cons_of_neg (by simp [hc]), List.append_nil]

/-- The gate lets nothing but the update host through exactly where it does not examine a text that
ends in a dot and the host without beginning with the host. -/
theorem urlHostAllowed_exact_iff (url : CString) :
    (urlHostAllowed url = true → IsUpdateHost (authorityHost (url.drop 8))) ↔
      ¬ (Examined url ∧ EndsInHost (hostText (url.drop 8)) ∧
        ¬ BeginsWithHost (hostText (url.drop 8))) := by
  rw [urlHostAllowed_iff]
  constructor
  · rintro h ⟨hexamined, hends, hbegins⟩
    have hhost := h ⟨hexamined, .inr hends⟩
    rw [authorityHost_eq _ hexamined.2, isUpdateHost_takeWhile] at hhost
    rcases hhost with hhost | hhost
    · have hlength := length_of_isUpdateHost hhost
      have hlong := length_of_endsInHost hends
      omega
    · exact hbegins hhost
  · rintro h ⟨hexamined, haccepted⟩
    rw [authorityHost_eq _ hexamined.2, isUpdateHost_takeWhile]
    rcases haccepted with hhost | hends
    · exact .inl hhost
    · by_contra hno
      exact h ⟨hexamined, hends, fun hbegins => hno (.inr hbegins)⟩

def otherHost : CString := ascii "https://evil.example?.apps.greektimes.ca/setup.exe"

theorem urlHostAllowed_otherHost :
    urlHostAllowed otherHost = true ∧ ¬ IsUpdateHost (authorityHost (otherHost.drop 8)) := by
  decide

end Exact

end UnicornSuite.Update
