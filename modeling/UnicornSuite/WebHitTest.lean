import UnicornSuite.WebRender
import UnicornSuite.WebView

/-! Where a click goes (`web_sel_hit_test`): the token of the selection map and the offset in it. The scan
takes tokens that follow each other at one height for a line, and stops at the end of the first line that
the row of the point crosses; so a token is found under the point exactly if every token before it is
passed over. What Windows says of a text is a parameter. -/

namespace UnicornSuite.WebView

/-! ### The offset in a token -/

/-- The units of a text (`MultiByteToWideChar`), the extent of its first units in the font of the token
(`GetTextExtentPoint32W`), and the bytes of its first units (`WideCharToMultiByte`). -/
structure TextApi where
  wlen : SelToken → Nat
  extent : SelToken → Nat → Int
  prefixLen : SelToken → Nat → Int

/-- The first units of a text have no more bytes than the text. -/
def TextApi.Lawful (api : TextApi) : Prop :=
  ∀ t n, n < api.wlen t → 0 ≤ api.prefixLen t n ∧ api.prefixLen t n ≤ t.len

/-- The units before a position, rounded by half a unit, from `n` on. -/
def fitUnits (api : TextApi) (t : SelToken) (x : Int) : Nat → Nat → Nat
  | 0, n => n
  | rounds + 1, n =>
      if api.extent t (n + 1) ≥ x then
        if n > 0 then if x - api.extent t n < api.extent t (n + 1) - x then n else n + 1
        else if x < (api.extent t 1).tdiv 2 then 0 else 1
      else fitUnits api t x rounds (n + 1)

/-- `web_sel_byte_off_at_x` for a position inside of the token. -/
def TextApi.fit (api : TextApi) (t : SelToken) (x : Int) : Int :=
  if api.wlen t = 0 then 0
  else
    let n := fitUnits api t x (api.wlen t) 0
    if n = 0 then 0 else if n ≥ api.wlen t then t.len else api.prefixLen t n

section

variable {π : Type} {gdi : Gdi π} {mx my : Int}

theorem len_nonneg (t : SelToken) : 0 ≤ t.len := Int.natCast_nonneg _

theorem TextApi.fit_range {api : TextApi} (hapi : api.Lawful) (t : SelToken) (x : Int) :
    0 ≤ api.fit t x ∧ api.fit t x ≤ t.len := by
  have hlen := len_nonneg t
  rw [fit]
  dsimp only
  split_ifs with hzero hfirst hlast
  · exact ⟨Int.le_refl 0, hlen⟩
  · exact ⟨Int.le_refl 0, hlen⟩
  · exact ⟨hlen, Int.le_refl _⟩
  · exact hapi t _ (Nat.lt_of_not_le hlast)

/-- An offset inside of a token. -/
def InToken (gdi : Gdi π) : Prop := ∀ t x, 0 ≤ gdi.fit t x ∧ gdi.fit t x ≤ t.len

theorem byteOffAtX_range (hgdi : InToken gdi) (t : SelToken) (x : Int) :
    0 ≤ byteOffAtX gdi t x ∧ byteOffAtX gdi t x ≤ t.len := by
  have hlen := len_nonneg t
  rw [byteOffAtX]
  split_ifs
  · exact ⟨Int.le_refl 0, hlen⟩
  · exact ⟨hlen, Int.le_refl _⟩
  · exact hgdi t x

/-! ### The scan over a line -/

def SelToken.Crosses (t : SelToken) (my : Int) : Prop := t.y ≤ my ∧ my < t.y + t.h

/-- The point lies inside of the rectangle of the token. -/
def SelToken.Holds (t : SelToken) (mx my : Int) : Prop := (t.x ≤ mx ∧ mx < t.x + t.w) ∧ t.Crosses my

instance (t : SelToken) (mx my : Int) : Decidable (t.Holds mx my) := by
  unfold SelToken.Holds SelToken.Crosses
  infer_instance

/-- The scan goes on behind a token: the row does not cross it, or it lies left of the point and the token
behind it has its height. -/
def PassedOver (mx my : Int) (t : SelToken) (next : Option SelToken) : Prop :=
  ¬t.Crosses my ∨ (t.x ≤ mx ∧ t.x + t.w ≤ mx) ∧ ∃ n ∈ next, n.y = t.y

theorem hitLine_passed {t : SelToken} {rest : List SelToken} (h : PassedOver mx my t rest.head?)
    (prev : Option SelToken) (i : Nat) :
    hitLine gdi mx my prev i (t :: rest) = hitLine gdi mx my (some t) (i + 1) rest := by
  rw [hitLine.eq_def]
  dsimp only
  by_cases hrow : my < t.y ∨ my ≥ t.y + t.h
  · rw [if_pos hrow]
  · rcases h with hno | ⟨⟨hleft, hright⟩, n, hn, hy⟩
    · exact absurd ⟨by omega, by omega⟩ hno
    · cases rest with
      | nil => cases hn
      | cons m rest =>
          cases hn
          rw [if_neg hrow, if_neg (by omega), if_neg (by omega)]
          dsimp only
          rw [if_pos hy]

/-- The scan finds the token that the point lies in. -/
theorem hitLine_holds {t : SelToken} (h : t.Holds mx my) (prev : Option SelToken) (i : Nat)
    (rest : List SelToken) :
    hitLine gdi mx my prev i (t :: rest) = some (i, byteOffAtX gdi t (mx - t.x)) := by
  obtain ⟨⟨hleft, hright⟩, htop, hbottom⟩ := h
  rw [hitLine.eq_def]
  dsimp only
  rw [if_neg (by omega), if_neg (by omega), if_pos hright]

/-- What the scan says where it stops: this token or the one before, at one of its ends or under the
point. -/
theorem hitLine_stops {t : SelToken} {rest : List SelToken} (h : ¬PassedOver mx my t rest.head?)
    (prev : Option SelToken) (i : Nat) :
    (∃ off, hitLine gdi mx my prev i (t :: rest) = some (i, off) ∧
        (off = 0 ∨ off = t.len ∨ off = byteOffAtX gdi t (mx - t.x))) ∨
      ∃ p, prev = some p ∧ hitLine gdi mx my prev i (t :: rest) = some (i - 1, p.len) := by
  have hcross : t.Crosses my := by
    by_contra hno
    exact h (.inl hno)
  obtain ⟨htop, hbottom⟩ := hcross
  rw [hitLine.eq_def]
  dsimp only
  rw [if_neg (by omega)]
  by_cases hleft : mx < t.x
  · rw [if_pos hleft]
    cases prev with
    | none => exact .inl ⟨0, rfl, .inl rfl⟩
    | some p =>
        dsimp only
        split_ifs
        · exact .inr ⟨p, rfl, rfl⟩
        · exact .inl ⟨0, rfl, .inl rfl⟩
        · exact .inl ⟨0, rfl, .inl rfl⟩
  · rw [if_neg hleft]
    by_cases hin : mx < t.x + t.w
    · rw [if_pos hin]
      exact .inl ⟨_, rfl, .inr (.inr rfl)⟩
    · rw [if_neg hin]
      cases rest with
      | nil => exact .inl ⟨_, rfl, .inr (.inl rfl)⟩
      | cons n rest =>
          dsimp only
          split_ifs with hy
          · exact absurd (.inr ⟨⟨by omega, by omega⟩, n, rfl, hy⟩) h
          · exact .inl ⟨_, rfl, .inr (.inl rfl)⟩

/-! ### The token under the point -/

/-- The point lies in token `k` and in no other. -/
def OnlyIn (map : List SelToken) (mx my : Int) (k : Nat) : Prop :=
  (∃ t, map[k]? = some t ∧ t.Holds mx my) ∧ ∀ i t, map[i]? = some t → t.Holds mx my → i = k

/-- The scan comes to token `k`. -/
def ComesTo (map : List SelToken) (mx my : Int) (k : Nat) : Prop :=
  ∀ i t, i < k → map[i]? = some t → PassedOver mx my t map[i + 1]?

theorem OnlyIn.lt_length {map : List SelToken} {k : Nat} (h : OnlyIn map mx my k) : k < map.length := by
  obtain ⟨⟨t, ht, -⟩, -⟩ := h
  exact (List.getElem?_eq_some_iff.mp ht).1

/-- The scan finds the one token that the point lies in if it comes to it. -/
theorem hitLine_iff {map : List SelToken} {k : Nat} (hk : OnlyIn map mx my k) {d i : Nat} (hd : i + d = k)
    (prev : Option SelToken) (hbefore : ∀ j t, j < i → map[j]? = some t → PassedOver mx my t map[j + 1]?) :
    (∃ off, hitLine gdi mx my prev i (map.drop i) = some (k, off)) ↔ ComesTo map mx my k := by
  induction d generalizing i prev with
  | zero =>
      obtain rfl : i = k := hd
      obtain ⟨⟨t, ht, hin⟩, -⟩ := hk
      have hdrop : map.drop i = t :: map.drop (i + 1) := by
        obtain ⟨hlt, rfl⟩ := List.getElem?_eq_some_iff.mp ht
        exact List.drop_eq_getElem_cons hlt
      rw [hdrop, hitLine_holds hin]
      exact iff_of_true ⟨_, rfl⟩ hbefore
  | succ d ih =>
      have hlt : i < map.length := by
        have hlength := hk.lt_length
        omega
      have hget : map[i]? = some map[i] := List.getElem?_eq_getElem hlt
      have hdrop : map.drop i = map[i] :: map.drop (i + 1) := List.drop_eq_getElem_cons hlt
      have hhead : (map.drop (i + 1)).head? = map[i + 1]? := List.head?_drop
      rw [hdrop]
      by_cases hpass : PassedOver mx my map[i] (map.drop (i + 1)).head?
      · rw [hitLine_passed hpass]
        apply ih (by omega)
        intro j t hj ht
        rcases Nat.lt_succ_iff_lt_or_eq.mp hj with hj | rfl
        · exact hbefore j t hj ht
        · rw [hget] at ht
          cases ht
          rw [← hhead]
          exact hpass
      · refine iff_of_false ?_ fun hcome => hpass (hhead ▸ hcome i map[i] (by omega) hget)
        rintro ⟨off, hoff⟩
        rcases hitLine_stops hpass prev i with ⟨off', hstop, -⟩ | ⟨p, -, hstop⟩
        · rw [hstop] at hoff
          cases hoff
          omega
        · rw [hstop] at hoff
          have hindex : i - 1 = k := congrArg Prod.fst (Option.some_inj.mp hoff)
          omega

/-! ### Every point -/

/-- An answer names a token of the map and an offset in it. -/
def Valid (map : List SelToken) (hit : Nat × Int) : Prop :=
  ∃ t, map[hit.1]? = some t ∧ 0 ≤ hit.2 ∧ hit.2 ≤ t.len

theorem hitLine_valid (hgdi : InToken gdi) {map : List SelToken} {i : Nat} (hi : i ≤ map.length)
    {prev : Option SelToken} (hprev : ∀ p, prev = some p → 0 < i ∧ map[i - 1]? = some p) {hit : Nat × Int}
    (h : hitLine gdi mx my prev i (map.drop i) = some hit) : Valid map hit := by
  obtain ⟨d, hd⟩ : ∃ d, i + d = map.length := ⟨map.length - i, by omega⟩
  induction d generalizing i prev with
  | zero =>
      rw [List.drop_eq_nil_of_le (by omega), hitLine.eq_def] at h
      cases h
  | succ d ih =>
      have hlt : i < map.length := by omega
      have hget : map[i]? = some map[i] := List.getElem?_eq_getElem hlt
      rw [List.drop_eq_getElem_cons hlt] at h
      by_cases hpass : PassedOver mx my map[i] (map.drop (i + 1)).head?
      · rw [hitLine_passed hpass] at h
        apply ih hlt _ h (by omega)
        rintro p hp
        cases hp
        exact ⟨Nat.succ_pos i, hget⟩
      · rcases hitLine_stops hpass prev i with ⟨off, hstop, hoff⟩ | ⟨p, hp, hstop⟩
        · rw [hstop] at h
          cases h
          have hlen := len_nonneg map[i]
          have hfit := byteOffAtX_range hgdi map[i] (mx - map[i].x)
          refine ⟨map[i], hget, ?_⟩
          rcases hoff with rfl | rfl | rfl
          · exact ⟨Int.le_refl 0, hlen⟩
          · exact ⟨hlen, Int.le_refl _⟩
          · exact hfit
        · rw [hstop] at h
          cases h
          exact ⟨p, (hprev p hp).2, len_nonneg p, Int.le_refl _⟩

/-- The nearest token of a list, if there is one nearer than what was found before. -/
theorem nearest_spec (toks : List (SelToken × Nat)) (best : Option (SelToken × Nat) × Int) :
    ((toks.foldl (nearest my) best).1 = best.1 ∨ ∃ t ∈ toks, (toks.foldl (nearest my) best).1 = some t) ∧
      ((∃ t ∈ toks, rowDist my t.1 < best.2) → ∃ t ∈ toks, (toks.foldl (nearest my) best).1 = some t) := by
  induction toks generalizing best with
  | nil =>
      refine ⟨.inl rfl, ?_⟩
      rintro ⟨t, ht, -⟩
      cases ht
  | cons t toks ih =>
      rw [List.foldl_cons]
      obtain ⟨hkeep, hfind⟩ := ih (nearest my best t)
      by_cases hnear : rowDist my t.1 < best.2
      · have hbest : nearest my best t = (some t, rowDist my t.1) := if_pos hnear
        have hmem : ∃ u ∈ t :: toks, (toks.foldl (nearest my) (nearest my best t)).1 = some u := by
          rcases hkeep with hsame | ⟨u, hu, hres⟩
          · exact ⟨t, List.mem_cons_self, by rw [hsame, hbest]⟩
          · exact ⟨u, List.mem_cons_of_mem _ hu, hres⟩
        exact ⟨.inr hmem, fun _ => hmem⟩
      · have hbest : nearest my best t = best := if_neg hnear
        rw [hbest] at hkeep hfind ⊢
        constructor
        · rcases hkeep with hsame | ⟨u, hu, hres⟩
          · exact .inl hsame
          · exact .inr ⟨u, List.mem_cons_of_mem _ hu, hres⟩
        · rintro ⟨u, hu, hlt⟩
          rcases List.mem_cons.mp hu with rfl | hu
          · exact absurd hlt hnear
          · obtain ⟨w, hw, hres⟩ := hfind ⟨u, hu, hlt⟩
            exact ⟨w, List.mem_cons_of_mem _ hw, hres⟩

/-- Where no token is near enough, none is found. -/
theorem nearest_far {toks : List (SelToken × Nat)} {best : Option (SelToken × Nat) × Int}
    (h : ∀ t ∈ toks, ¬rowDist my t.1 < best.2) : toks.foldl (nearest my) best = best := by
  induction toks with
  | nil => rfl
  | cons t toks ih =>
      obtain ⟨ht, hrest⟩ := List.forall_mem_cons.mp h
      have hbest : nearest my best t = best := if_neg ht
      rw [List.foldl_cons, hbest]
      exact ih hrest

theorem hitLine_far {map : List SelToken} (h : ∀ t ∈ map, ¬t.Crosses my) (prev : Option SelToken) (i : Nat) :
    hitLine gdi mx my prev i map = none := by
  induction map generalizing prev i with
  | nil => rw [hitLine.eq_def]
  | cons t map ih =>
      obtain ⟨ht, hrest⟩ := List.forall_mem_cons.mp h
      rw [hitLine_passed (.inl ht)]
      exact ih hrest _ _

/-- The scan does not get past a token that the point lies in. -/
theorem hitLine_isSome {map : List SelToken} {k : Nat} {t : SelToken} (ht : map[k]? = some t)
    (hin : t.Holds mx my) (i : Nat) (prev : Option SelToken) :
    (hitLine gdi mx my prev i map).isSome := by
  induction map generalizing i prev k with
  | nil => cases ht
  | cons u map ih =>
      by_cases hpass : PassedOver mx my u map.head?
      · cases k with
        | zero =>
            cases ht
            rw [hitLine_holds hin]
            rfl
        | succ k =>
            rw [hitLine_passed hpass]
            exact ih ht _ _
      · rcases hitLine_stops hpass prev i with ⟨off, hstop, -⟩ | ⟨p, -, hstop⟩
        · rw [hstop]
          rfl
        · rw [hstop]
          rfl

/-- Some token is near enough for its distance from the row to be told. -/
def Near (map : List SelToken) (my : Int) : Prop := ∃ t ∈ map, rowDist my t < 0x7fffffff

theorem rowDist_of_crosses {t : SelToken} (h : t.Crosses my) : rowDist my t = 0 := by
  obtain ⟨htop, hbottom⟩ := h
  rw [rowDist, if_neg (by omega), if_neg (by omega)]

theorem selHitTest_eq (v : View π) :
    selHitTest gdi v mx my =
      (hitLine gdi mx my none 0 v.selMap).orElse fun _ =>
        (v.selMap.zipIdx.foldl (nearest my) (none, 0x7fffffff)).1.map fun (t, i) =>
          (i, if mx ≤ t.x + t.w.tdiv 2 then 0 else t.len) := by
  rw [selHitTest]
  split
  · next hnil =>
      rw [hnil]
      rfl
  · rfl

theorem selHitTest_far {v : View π} (h : ¬Near v.selMap my) : selHitTest gdi v mx my = none := by
  have hfar : ∀ t ∈ v.selMap, ¬rowDist my t < 0x7fffffff := fun t ht hlt => h ⟨t, ht, hlt⟩
  have hcross : ∀ t ∈ v.selMap, ¬t.Crosses my := by
    intro t ht hc
    apply hfar t ht
    rw [rowDist_of_crosses hc]
    decide
  have hnone : v.selMap.zipIdx.foldl (nearest my) (none, 0x7fffffff) = (none, 0x7fffffff) := by
    apply nearest_far
    intro t ht
    exact hfar t.1 (List.mem_zipIdx ht |>.2.2 ▸ List.getElem_mem _)
  rw [selHitTest_eq, hitLine_far hcross, hnone]
  rfl

theorem selHitTest_near (hgdi : InToken gdi) {v : View π} (h : Near v.selMap my) :
    ∃ hit, selHitTest gdi v mx my = some hit ∧ Valid v.selMap hit := by
  rw [selHitTest_eq]
  cases hline : hitLine gdi mx my none 0 v.selMap with
  | some hit =>
      refine ⟨hit, rfl, ?_⟩
      have hscan : hitLine gdi mx my none 0 (v.selMap.drop 0) = some hit := hline
      refine hitLine_valid hgdi (Nat.zero_le v.selMap.length) ?_ hscan
      intro p hp
      cases hp
  | none =>
      obtain ⟨t, ht, hlt⟩ := h
      obtain ⟨i, hi, rfl⟩ := List.getElem_of_mem ht
      have hzip : (v.selMap[i], i) ∈ v.selMap.zipIdx :=
        List.mk_mem_zipIdx_iff_getElem?.mpr (List.getElem?_eq_getElem hi)
      obtain ⟨u, hu, hres⟩ :=
        (nearest_spec v.selMap.zipIdx (none, 0x7fffffff)).2 ⟨_, hzip, hlt⟩
      have hget : v.selMap[u.2]? = some u.1 := List.mk_mem_zipIdx_iff_getElem?.mp hu
      have hlen := len_nonneg u.1
      rw [hres]
      refine ⟨_, rfl, u.1, hget, ?_⟩
      dsimp only
      split_ifs
      · exact ⟨Int.le_refl 0, hlen⟩
      · exact ⟨hlen, Int.le_refl _⟩

/-- What is asked of a click: it names a token of the map and an offset in it, and if the point lies in
the rectangle of exactly one token, that token. -/
structure Answers (gdi : Gdi π) (v : View π) (mx my : Int) : Prop where
  valid : ∃ hit, selHitTest gdi v mx my = some hit ∧ Valid v.selMap hit
  exact_hit : ∀ k, OnlyIn v.selMap mx my k → ∃ off, selHitTest gdi v mx my = some (k, off)

end

deriving instance DecidableEq for TokBox, SelToken

/-- The selection map that a paint leaves. -/
def paintedMap (m : WebLayout.Metrics) (page : WebLayout.Doc) (client : WebLayout.Rect) : List SelToken :=
  (WebLayout.paintTo m { viewDoc := some page } client false).1.selMap.map fun t =>
    ⟨⟨t.x, t.y, t.w, t.h, t.bytes, t.blockIdx, t.lineIdx, t.isPre⟩, 0⟩

/-- A cell of two short paragraphs. -/
def twoLines (a b : String) : WebLayout.Cell WebLayout.Block :=
  ⟨[.flow .para 0 .left none [WebLayout.plainRun (CText.ascii a)],
    .flow .para 0 .left none [WebLayout.plainRun (CText.ascii b)]], 1, .left, Web.webNoColor, 0⟩

/-- A table with one row of two cells. -/
def twoCells : WebLayout.Doc :=
  ⟨[.table 0 .left ⟨[⟨[twoLines "a" "b", twoLines "c" "d"], Web.webNoColor⟩], 0,
    Web.webNoColor, 0, 0, -1, -1⟩], Web.webNoColor⟩

/-- Its tokens: the lines of the first cell, and then those of the second one beside them. -/
def cellsMap : List SelToken :=
  [⟨⟨15, 25, 8, 16, [97], 0, 0, false⟩, 0⟩, ⟨⟨15, 41, 8, 16, [98], 0, 1, false⟩, 0⟩,
    ⟨⟨39, 25, 8, 16, [99], 0, 2, false⟩, 0⟩, ⟨⟨39, 41, 8, 16, [100], 0, 3, false⟩, 0⟩]

/-- Eight pixels a byte, and a unit a byte. -/
def bytesApi : TextApi := ⟨fun t => t.text.length, fun _ n => 8 * n, fun _ n => n⟩

theorem bytesApi_lawful : bytesApi.Lawful := by
  intro t n hn
  have hlt : n < t.text.length := hn
  have hle : (n : Int) ≤ (t.text.length : Nat) := Int.ofNat_le.mpr hlt.le
  exact ⟨Int.natCast_nonneg n, hle⟩

theorem onlyIn_cellsMap {mx my : Int} {k : Nat} {t : SelToken} (ht : cellsMap[k]? = some t)
    (hin : t.Holds mx my) (hothers : ∀ u ∈ cellsMap.zipIdx, u.1.Holds mx my → u.2 = k) :
    OnlyIn cellsMap mx my k :=
  ⟨⟨t, ht, hin⟩, fun i u hu hiu => hothers (u, i) (List.mk_mem_zipIdx_iff_getElem?.mpr hu) hiu⟩

end UnicornSuite.WebView
