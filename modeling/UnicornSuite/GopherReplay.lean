import UnicornSuite.GopherUrl

/-! A location that is visited again: what `gopher_build_url` writes, `gopher_parse_url` reads, and for
every item of a menu but a search the stored URL asks for the same as the click did. -/

namespace UnicornSuite.Gopher

open CText

section RoundTrip

theorem startsWith_append (start s : CString) : startsWith (start ++ s) start = true := by
  rw [startsWith, strncmp_eq_compare, List.take_left, List.take_length, Std.ReflOrd.compare_self]
  rfl

theorem hasScheme_append (s : CString) : hasScheme (ascii "gopher://" ++ s) = true := by
  rw [hasScheme, startsWith_append, Bool.true_or]

theorem gopherNormalizeUrl_of_hasScheme {url : CString} (h : hasScheme url = true) :
    gopherNormalizeUrl url = url := by
  have hne : url ≠ [] := by
    rintro rfl
    revert h
    decide
  rw [gopherNormalizeUrl, if_neg hne, if_pos h]

/-- Every URL that is fetched has its scheme. -/
theorem hasScheme_normalize (raw : CString) : hasScheme (gopherNormalizeUrl raw) = true := by
  unfold gopherNormalizeUrl
  split_ifs with hnil hscheme
  · decide
  · exact hscheme
  · exact hasScheme_append raw

theorem gopherNormalizeUrl_idem (raw : CString) :
    gopherNormalizeUrl (gopherNormalizeUrl raw) = gopherNormalizeUrl raw :=
  gopherNormalizeUrl_of_hasScheme (hasScheme_normalize raw)

theorem portOf_range (p : Int) : 0 < portOf p ∧ portOf p ≤ 65535 := by
  unfold portOf
  split_ifs
  · omega
  · decide

/-- A port that was printed is read again. -/
theorem urlPort_decimalText {port : Nat} (hpos : 0 < port) (hmax : port ≤ 65535) :
    urlPort (decimalText port) = port := by
  have hlength : (decimalText port).length ≤ 15 :=
    Nat.le_trans (decimalText_length_le (k := 4) (by omega)) (by decide)
  rw [urlPort, if_neg (decimalText_ne_nil port), List.take_of_length_le hlength,
    atoi_digits (decimalText_digits port) (decimalText_ne_nil port), decimal_decimalText, portOf]
  have hmin : min (port : Int) intMax = port := by
    unfold intMax
    omega
  rw [hmin, if_pos (by omega), Int.toNat_natCast]

/-- A host that a URL can carry. -/
def PlainHost (host : CString) : Prop := ∀ c ∈ host, c ≠ colon ∧ c ≠ slash

variable {u : Url}

/-- The part of a URL behind the host. -/
def behindHost (u : Url) : CString :=
  (if 0 < u.port ∧ u.port ≠ gopherDefaultPort then colon :: decimalText u.port else []) ++
    slash :: u.type :: u.selector

theorem gopherBuildUrl_eq (u : Url) :
    gopherBuildUrl u = ascii "gopher://" ++ (u.host ++ behindHost u) := by
  unfold gopherBuildUrl behindHost
  simp only [List.append_assoc]

theorem gopherNormalizeUrl_build (u : Url) : gopherNormalizeUrl (gopherBuildUrl u) = gopherBuildUrl u := by
  refine gopherNormalizeUrl_of_hasScheme ?_
  rw [gopherBuildUrl_eq]
  exact hasScheme_append _

/-- `gopher_parse_url` reads what `gopher_build_url` wrote. -/
theorem gopherParseUrl_build (hhost : PlainHost u.host) (hpos : 0 < u.port)
    (hmax : u.port ≤ 65535) :
    gopherParseUrl (gopherBuildUrl u) = if u.host = [] then .error 3 else .ok u := by
  have hchars : ∀ c ∈ u.host, isHostChar c = true := by
    intro c hc
    simpa [isHostChar] using hhost c hc
  have hend : ∀ c ∈ (behindHost u).head?, isHostChar c = false := by
    intro c hc
    unfold behindHost at hc
    split_ifs at hc
    · rw [← Option.some.inj hc]
      rfl
    · rw [← Option.some.inj hc]
      rfl
  have hdrop : (ascii "gopher://" ++ (u.host ++ behindHost u)).drop 9 = u.host ++ behindHost u :=
    List.drop_left' (by decide +kernel)
  unfold gopherParseUrl
  simp only
  rw [gopherBuildUrl_eq, if_pos (hasScheme_append _), hdrop, takeWhile_append hchars hend,
    dropWhile_append hchars hend]
  have hslash : ¬ slash = colon := by decide
  by_cases hport : u.port = gopherDefaultPort
  · have hbehind : behindHost u = slash :: u.type :: u.selector :=
      congrArg (· ++ slash :: u.type :: u.selector) (if_neg fun h => h.2 hport)
    simp only [hbehind, List.head?_cons, Option.some.injEq, hslash, if_false, if_true,
      List.tail_cons, ← hport]
  · have hbehind : behindHost u = colon :: (decimalText u.port ++ slash :: u.type :: u.selector) :=
      congrArg (· ++ slash :: u.type :: u.selector) (if_pos ⟨hpos, hport⟩)
    have hstop : ∀ c ∈ (slash :: u.type :: u.selector).head?, isDigit c = false := by
      rintro c ⟨⟩
      rfl
    simp only [hbehind, List.head?_cons, if_true, List.tail_cons,
      takeWhile_append (decimalText_digits u.port) hstop,
      dropWhile_append (decimalText_digits u.port) hstop, urlPort_decimalText hpos hmax]

end RoundTrip

/-! ### Items -/

section Replay

theorem gopherItem_port (line : List UInt8) :
    0 < (gopherItem line).port ∧ (gopherItem line).port ≤ 65535 := by
  unfold gopherItem
  split_ifs
  · exact portOf_range _
  · exact ⟨by show 0 < 70; decide, by show 70 ≤ 65535; decide⟩

/-- Every item of a menu has a port. -/
theorem gophermapParse_port {buf : List UInt8} {it : GopherItem} (h : it ∈ gophermapParse buf) :
    0 < it.port ∧ it.port ≤ 65535 := by
  induction buf using gophermapParse.induct with
  | case1 =>
      rw [gophermapParse] at h
      cases h
  | case2 buf hbuf line rest hline ih =>
      rw [gophermapParse, dif_neg hbuf] at h
      simp only at h
      rw [if_pos hline] at h
      exact ih h
  | case3 buf hbuf line hline hdot =>
      rw [gophermapParse, dif_neg hbuf] at h
      simp only at h
      rw [if_neg hline, if_pos hdot] at h
      cases h
  | case4 buf hbuf line rest hline hdot ih =>
      rw [gophermapParse, dif_neg hbuf] at h
      simp only at h
      rw [if_neg hline, if_neg hdot] at h
      rcases List.mem_cons.mp h with rfl | h
      · exact gopherItem_port _
      · exact ih h

variable {it : GopherItem} {query : Option CString} {r : GopherFetch}

/-- What an item asks for, a search with its query. -/
def wireSelector (it : GopherItem) (query : Option CString) : CString :=
  if it.type = typeSearch then it.selector ++ tab :: query.getD [] else it.selector

theorem gopherNavigate_fetch {raw : CString} {push : Bool} (h : gopherNavigate raw push = .fetch r) :
    r.url = gopherNormalizeUrl raw ∧ ∃ u, gopherParseUrl r.url = .ok u ∧ kindOf u.type = some r.kind ∧
      r.host = u.host ∧ r.port = u.port ∧ r.selector = u.selector := by
  unfold gopherNavigate at h
  simp only at h
  split at h
  · cases h
  · rename_i u hu
    split at h
    · cases h
    · rename_i kind hkind
      cases h
      exact ⟨rfl, u, hu, hkind, rfl, rfl, rfl⟩

/-- A URL that was fetched once is fetched the same way again. -/
theorem gopherNavigate_again {raw : CString} {push : Bool} (h : gopherNavigate raw push = .fetch r) :
    ∃ r', gopherNavigate r.url false = .fetch r' ∧ SameRequest r r' := by
  obtain ⟨hurl, u, hparse, hkind, hhost, hport, hselector⟩ := gopherNavigate_fetch h
  refine ⟨⟨r.url, u.host, u.port, u.type, u.selector, none, r.kind, false⟩, ?_, hhost, hport, rfl,
    hselector⟩
  have hnormal : gopherNormalizeUrl r.url = r.url := by rw [hurl, gopherNormalizeUrl_idem]
  unfold gopherNavigate
  rw [hnormal]
  simp only
  rw [hparse]
  simp only
  rw [hkind]

/-- The request of an item is the item's own. -/
theorem gopherDispatchItem_request (hhost : PlainHost it.host) (hport : 0 < it.port ∧ it.port ≤ 65535)
    (h : gopherDispatchItem it query = .fetch r) :
    r.host = it.host ∧ r.port = it.port ∧ r.selector = wireSelector it query := by
  unfold gopherDispatchItem at h
  simp only [if_pos hport.1] at h
  split_ifs at h with hclick hhtml hsearch
  · unfold wireSelector
    rw [if_pos hsearch]
    split at h
    · cases h
    · cases h
    · cases h
      exact ⟨rfl, rfl, rfl⟩
  · obtain ⟨hurl, u, hparse, -, hu⟩ := gopherNavigate_fetch h
    rw [hurl, gopherNormalizeUrl_build, gopherParseUrl_build hhost hport.1 hport.2] at hparse
    split_ifs at hparse
    cases hparse
    unfold wireSelector
    rw [if_neg hsearch]
    exact hu

/-- A search URL is taken for none that the module can fetch. -/
theorem gopherNavigate_search (hhost : PlainHost it.host) (hport : 0 < it.port ∧ it.port ≤ 65535)
    (hsearch : it.type = typeSearch) (h : gopherDispatchItem it query = .fetch r) (push : Bool) :
    ∃ text, gopherNavigate r.url push = .status text := by
  unfold gopherDispatchItem at h
  simp only [if_pos hport.1] at h
  split_ifs at h with hclick hhtml
  split at h
  · cases h
  · cases h
  · rename_i query _
    cases h
    unfold gopherNavigate
    simp only
    rw [gopherNormalizeUrl_build, gopherParseUrl_build hhost hport.1 hport.2]
    simp only
    by_cases hnil : it.host = []
    · exact ⟨_, by rw [if_pos hnil]⟩
    · exact ⟨"Gopher: item type not supported in v0.1.0-mvp.", by rw [if_neg hnil]; rfl⟩

/-- For every item of a menu that is fetched the click asks for the item itself, and the stored URL asks
for the same again exactly when the item is no search. -/
theorem replay_iff (buf : List UInt8) (hit : it ∈ gophermapParse buf) (hhost : PlainHost it.host)
    (h : gopherDispatchItem it query = .fetch r) :
    (r.host = it.host ∧ r.port = it.port ∧ r.selector = wireSelector it query) ∧
      ((∃ r', gopherNavigate r.url false = .fetch r' ∧ SameRequest r r') ↔ it.type ≠ typeSearch) := by
  have hport := gophermapParse_port hit
  refine ⟨gopherDispatchItem_request hhost hport h, ?_, ?_⟩
  · rintro ⟨r', hr', -⟩ hsearch
    obtain ⟨text, htext⟩ := gopherNavigate_search hhost hport hsearch h false
    rw [htext] at hr'
    cases hr'
  · intro hsearch
    unfold gopherDispatchItem at h
    simp only [if_neg hsearch, if_pos hport.1] at h
    split_ifs at h
    exact gopherNavigate_again h

/-- A menu with one directory, and one with one search. -/
def menuLine : List UInt8 := ascii "1Texts\t/texts\texample.org\t7070\r\n.\r\n"

def searchLine : List UInt8 := ascii "7Find\t/find\texample.org\t70\r\n.\r\n"

def textsItem : GopherItem := ⟨typeMenu, ascii "Texts", ascii "/texts", ascii "example.org", 7070⟩

def findItem : GopherItem := ⟨typeSearch, ascii "Find", ascii "/find", ascii "example.org", 70⟩

def textsFetch : GopherFetch :=
  ⟨ascii "gopher://example.org:7070/1/texts", ascii "example.org", 7070, typeMenu, ascii "/texts", none,
    .menu, true⟩

theorem replay_iff_texts :
    (textsFetch.host = textsItem.host ∧ textsFetch.port = textsItem.port ∧
        textsFetch.selector = wireSelector textsItem none) ∧
      ((∃ r', gopherNavigate textsFetch.url false = .fetch r' ∧ SameRequest textsFetch r') ↔
        textsItem.type ≠ typeSearch) :=
  replay_iff menuLine (by decide +kernel) (by unfold PlainHost; decide +kernel) (by decide +kernel)

/-- The search of a menu is stored as a URL that cannot be fetched again. -/
theorem search_not_replayed : findItem ∈ gophermapParse searchLine ∧ PlainHost findItem.host ∧
    ∃ r, gopherDispatchItem findItem (some (ascii "greek")) = .fetch r ∧
      ∀ r', gopherNavigate r.url false ≠ .fetch r' := by
  refine ⟨by decide +kernel, by unfold PlainHost; decide +kernel, ?_⟩
  refine ⟨⟨ascii "gopher://example.org/7/find%09greek", ascii "example.org", 70, typeSearch,
    ascii "/find\tgreek", some (ascii "Find"), .menu, true⟩, by decide +kernel, ?_⟩
  have hstatus : gopherNavigate (ascii "gopher://example.org/7/find%09greek") false =
      .status "Gopher: item type not supported in v0.1.0-mvp." := by decide
  intro r' hr'
  rw [hstatus] at hr'
  cases hr'

end Replay

end UnicornSuite.Gopher
