import UnicornSuite.WebStyle

/-! The style of a page whose elements are properly nested. Elements give the style back at their end
tags exactly where the style in front of each start tag lets them (`Returns`), and then the look of a
run is made by the elements that are open around it. `<FONT FACE="Courier"></FONT>` leaves the page in
a fixed pitch. -/

namespace UnicornSuite.Web

open Machine Nesting

/-! ### Nested pages -/

/-- Elements that never touch the style, with or without an end tag. -/
def Element.bare : Element → Bool
  | .br | .hr | .img | .other => true
  | _ => false

def Event.IsFlat : Event → Prop
  | .start e _ => e.bare = true
  | .stop _ => False
  | .text _ => True

def Event.ClosedBy : Event → Event → Prop
  | .start e _, .stop e' => e = e'
  | _, _ => False

/-- Text, bare elements, and elements with their end tags around the like. -/
abbrev WellNested (evs : List Event) : Prop := Nested Event.IsFlat Event.ClosedBy evs

/-- After the end tag of every element the style is what it was before its start tag, up to the
counters of open ordered lists. -/
abbrev StylesScoped (evs : List Event) : Prop :=
  Scoped onEvent (fun d d' => d.style.Same d'.style) Event.IsFlat Event.ClosedBy {} evs

/-- The end tag that belongs to a start tag gives the style back. -/
def Closes (d : WebDoc) : Event → Prop
  | .start e a => Returns d.style e a
  | .stop _ | .text _ => True

instance (d : WebDoc) : ∀ e, Decidable (Closes d e)
  | .start e a => inferInstanceAs (Decidable (Returns d.style e a))
  | .stop _ | .text _ => inferInstanceAs (Decidable True)

variable {d : WebDoc} {s : StyleState}

theorem ClosedBy.exists {o c : Event} (h : o.ClosedBy c) : ∃ e a, o = .start e a ∧ c = .stop e := by
  cases o with
  | start e a =>
      cases c with
      | stop e' => exact ⟨e, a, rfl, congrArg Event.stop (Eq.symm h)⟩
      | start => exact h.elim
      | text => exact h.elim
  | stop => exact h.elim
  | text => exact h.elim

theorem startStyle_bare {e : Element} (he : e.bare = true) (s : StyleState) (a : Attrs) :
    startStyle s e a = s := by
  cases e with
  | br | hr | img | other => rfl
  | _ => cases he

theorem returns_bare {e : Element} (he : e.bare = true) (s : StyleState) (a : Attrs) :
    Returns s e a := by
  cases e with
  | br | hr | img | other => exact ⟨nofun, nofun, nofun, nofun⟩
  | _ => cases he

theorem onEvent_flat {e : Event} (he : e.IsFlat) (d : WebDoc) : (onEvent d e).style = d.style := by
  rw [onEvent_style]
  match e with
  | .start e a => exact startStyle_bare he d.style a
  | .text _ => rfl

theorem styleScopes : Scopes onEvent (fun d => NoLink d.style) (fun d d' => d.style.Same d'.style)
    Event.IsFlat Event.ClosedBy Closes where
  inv d e h := by
    rw [onEvent_style]
    exact h.next e
  equiv := same_equivalence
  congr e h := by
    rw [onEvent_style, onEvent_style]
    exact h.next e
  flat_step d e he := by
    rw [onEvent_flat he]
    exact same_equivalence.refl d
  flat_good d e he := by
    match e with
    | .start e a => exact returns_bare he d.style a
    | .text _ => trivial
  closer_good d o c hc := by
    obtain ⟨e, a, rfl, rfl⟩ := ClosedBy.exists hc
    trivial
  good_iff := by
    intro d o c h hc
    obtain ⟨e, a, rfl, rfl⟩ := ClosedBy.exists hc
    rw [onEvent_style, onEvent_style]
    exact returns_iff h e a

/-! ### Runs -/

/-- What a reader sees of a style: the bits, the colour, the size and the link. -/
abbrev Look := StyleBits × Nat × Int × Option String

def StyleState.look (s : StyleState) : Look :=
  (styleBits s, styleColor s, styleSizeDelta s, imageHref s)

def WebRun.look (r : WebRun) : Look := (r.style, r.color, r.sizeDelta, r.href)

theorem StyleState.Same.look (h : s.Same d.style) : s.look = d.style.look := by
  obtain ⟨lists, hs, -⟩ := h.elim
  rw [hs]
  rfl

/-- The elements that are open and not bare, the innermost first. -/
abbrev Path := List (Element × Attrs)

def openNext (os : Path) : Event → Path
  | .start e a => if e.bare then os else (e, a) :: os
  | .stop e => if e.bare then os else os.tail
  | .text _ => os

/-- The style that these elements make. -/
def pathStyle : Path → StyleState
  | [] => {}
  | (e, a) :: os => startStyle (pathStyle os) e a

def pageNext (x : WebDoc × Path) (ev : Event) : WebDoc × Path := (onEvent x.1 ev, openNext x.2 ev)

/-- The run that the event stores text in looks as the open elements say. The run of an inline image has
no text of its own and the link only. -/
def Shows (x : WebDoc × Path) (ev : Event) : Prop :=
  ∀ r ∈ (onEvent x.1 ev).currentRuns.getLast?, (onEvent x.1 ev).currentRuns ≠ x.1.currentRuns →
    r.look = (pathStyle x.2).look ∨ r.text = [] ∧ r.href = imageHref (pathStyle x.2)

theorem flushCurrent_runs (d : WebDoc) : (flushCurrent d).currentRuns = [] := by
  rw [flushCurrent]
  split_ifs <;> rfl

theorem canMerge_look (hlink : NoLink s) {r : WebRun} (h : canMerge r s = true) :
    r.look = s.look := by
  obtain ⟨hstyle, hcolor, hsize, hhref⟩ := of_decide_eq_true h
  have hlinked : imageHref s = s.currentHref := by
    rw [imageHref]
    split_ifs with hdepth
    · rfl
    · exact (hlink (Nat.eq_zero_of_not_pos hdepth)).symm
  rw [WebRun.look, StyleState.look, hstyle, hcolor, hsize, hhref, hlinked]

/-- Stored text is in the last run, which looks as the style is. -/
theorem storeText_look (hlink : NoLink d.style) {text : List Char} :
    (storeText d text).currentRuns = d.currentRuns ∨
      ∀ r ∈ (storeText d text).currentRuns.getLast?, r.look = d.style.look := by
  have hnew (r : WebRun) (hr : r ∈ (d.currentRuns ++ [newRun d.style text]).getLast?) :
      r.look = d.style.look := by
    rw [List.getLast?_concat] at hr
    obtain rfl := Option.some.inj hr
    rfl
  rw [storeText]
  split_ifs
  · exact Or.inl rfl
  · refine Or.inr ?_
    split
    · rename_i last hlast
      split_ifs with hmerge
      · intro r hr
        rw [List.getLast?_concat] at hr
        obtain rfl := Option.some.inj hr
        exact canMerge_look hlink hmerge
      · exact hnew
    · exact hnew

theorem appendText_look (hlink : NoLink d.style) (text : List Char) :
    (appendText d text).currentRuns = d.currentRuns ∨
      ∀ r ∈ (appendText d text).currentRuns.getLast?, r.look = d.style.look := by
  rw [appendText]
  split_ifs
  · exact Or.inl rfl
  · exact Or.inl rfl
  · exact storeText_look hlink

/-- Nothing but text, BR and inline images stores runs. -/
theorem beginElement_runs (d : WebDoc) {e : Element} (hbr : e ≠ .br) (himg : e ≠ .img) (a : Attrs) :
    (beginElement d e a).currentRuns = d.currentRuns ∨ (beginElement d e a).currentRuns = [] := by
  have hstart (d : WebDoc) (type : BlockType) : (startBlock d type).currentRuns = [] :=
    flushCurrent_runs d
  cases e with
  | br => exact absurd rfl hbr
  | img => exact absurd rfl himg
  | p | div => exact Or.inr (hstart d .para)
  | h level => exact Or.inr (hstart d (.h level))
  | blockquote | center | caption => exact Or.inr (hstart _ .para)
  | dd => exact Or.inr (hstart _ .dd)
  | pre => exact Or.inr (hstart d .pre)
  | dt => exact Or.inr (hstart d .dt)
  | li => exact Or.inr (flushCurrent_runs d)
  | hr => exact Or.inr ((appendBlock_runs _ _).trans (flushCurrent_runs d))
  | table => exact Or.inr (flushCurrent_runs d)
  | tr =>
      refine Or.inl ?_
      rw [beginElement, beginRow]
      split <;> rfl
  | td | th =>
      refine Or.inl ?_
      simp only [beginElement, beginCell]
      split
      · split <;> rfl
      · rfl
  | _ => exact Or.inl rfl

theorem endElement_runs (d : WebDoc) (e : Element) :
    (endElement d e).currentRuns = d.currentRuns ∨ (endElement d e).currentRuns = [] := by
  have hstart (d : WebDoc) (type : BlockType) : (startBlock d type).currentRuns = [] :=
    flushCurrent_runs d
  cases e with
  | p | div | h | pre | li | dt => exact Or.inr (hstart d .para)
  | blockquote | dl | dd | center | ul | ol | caption => exact Or.inr (hstart _ .para)
  | table =>
      refine Or.inr ?_
      simp only [endElement, endTable]
      split
      · exact flushCurrent_runs d
      · exact (appendBlock_runs _ _).trans (flushCurrent_runs d)
  | td | th =>
      rw [endElement, endCell]
      split
      · exact Or.inr (flushCurrent_runs d)
      · exact Or.inl rfl
  | _ => exact Or.inl rfl

/-- In a style that the open elements make, what is stored looks as they say. -/
theorem shows_of_same {os : Path} (hlink : NoLink d.style) (hsame : (pathStyle os).Same d.style)
    (ev : Event) : Shows (d, os) ev := by
  have hlook : d.style.look = (pathStyle os).look := hsame.look.symm
  have hstored {runs : List WebRun} (h : runs = d.currentRuns ∨
      ∀ r ∈ runs.getLast?, r.look = d.style.look) (r : WebRun) (hr : r ∈ runs.getLast?)
      (hnew : runs ≠ d.currentRuns) : r.look = (pathStyle os).look :=
    ((h.resolve_left hnew) r hr).trans hlook
  have hnothing {runs : List WebRun} (h : runs = d.currentRuns ∨ runs = []) (r : WebRun)
      (hr : r ∈ runs.getLast?) (hnew : runs ≠ d.currentRuns) :
      r.look = (pathStyle os).look ∨ r.text = [] ∧ r.href = imageHref (pathStyle os) := by
    rw [h.resolve_left hnew] at hr
    cases hr
  intro r hr hnew
  cases ev with
  | text t => exact Or.inl (hstored (appendText_look hlink t) r hr hnew)
  | stop e => exact hnothing (endElement_runs d e) r hr hnew
  | start e a =>
      by_cases hbr : e = .br
      · subst hbr
        exact Or.inl (hstored (appendText_look hlink _) r hr hnew)
      · by_cases himg : e = .img
        · subst himg
          have himage : (beginImage d a).currentRuns = d.currentRuns ∨
              (beginImage d a).currentRuns = [] ∨
              ∀ r ∈ (beginImage d a).currentRuns.getLast?, r.text = [] ∧ r.href = imageHref d.style := by
            rw [beginImage]
            split
            · split_ifs
              · refine Or.inr (Or.inr fun r hr => ?_)
                rw [addImageRun, List.getLast?_concat] at hr
                obtain rfl := Option.some.inj hr
                exact ⟨rfl, rfl⟩
              · exact Or.inr (Or.inl ((appendBlock_runs _ _).trans (flushCurrent_runs d)))
            · exact Or.inl rfl
          rcases himage with hsame | hnil | hrun
          · exact hnothing (Or.inl hsame) r hr hnew
          · exact hnothing (Or.inr hnil) r hr hnew
          · obtain ⟨htext, hhref⟩ := hrun r hr
            exact Or.inr ⟨htext, hhref.trans (congrArg (·.2.2.2) hlook)⟩
        · exact hnothing (beginElement_runs d hbr himg a) r hr hnew

/-! ### Pages -/

theorem openNext_closed {e : Element} {a : Attrs} (os : Path) :
    openNext (openNext os (.start e a)) (.stop e) = os := by
  rw [openNext, openNext]
  split_ifs <;> rfl

theorem pathStyle_openNext (os : Path) (e : Element) (a : Attrs) :
    pathStyle (openNext os (.start e a)) = startStyle (pathStyle os) e a := by
  rw [openNext]
  split_ifs with he
  · exact (startStyle_bare he _ a).symm
  · rfl

theorem run_pageNext (x : WebDoc × Path) (evs : List Event) :
    (run pageNext x evs).1 = run onEvent x.1 evs := by
  induction evs generalizing x with
  | nil => rfl
  | cons ev evs ih => exact ih (pageNext x ev)

/-- Along a nested page that gives the style back, what is stored looks as the open elements say, and at
the end the open elements are those of the start. -/
theorem runs_shown {evs : List Event} (hevs : WellNested evs) {os : Path} (hlink : NoLink d.style)
    (hsame : (pathStyle os).Same d.style) (hcloses : Guarded onEvent Closes d evs) :
    Guarded pageNext Shows (d, os) evs ∧ (run pageNext (d, os) evs).2 = os := by
  induction hevs generalizing d os with
  | nil => exact ⟨trivial, rfl⟩
  | @flat ev evs hflat _ ih =>
      have hstyle := onEvent_flat hflat d
      have hpath : openNext os ev = os := by
        match ev with
        | .start e a => exact if_pos hflat
        | .text _ => rfl
      have hrest := @ih _ os (by rwa [hstyle]) (by rwa [hstyle]) hcloses.2
      rw [← hpath] at hrest
      exact ⟨⟨shows_of_same hlink hsame ev, hrest.1⟩, hrest.2.trans hpath⟩
  | @pair o c inner evs hc hnested _ ihinner ihevs =>
      obtain ⟨e, a, rfl, rfl⟩ := ClosedBy.exists hc
      obtain ⟨ho, hrest⟩ := hcloses
      obtain ⟨hinner, -, hafter⟩ := guarded_append.mp hrest
      have hlink1 : NoLink (onEvent d (.start e a)).style := styleScopes.inv d _ hlink
      have hsame1 : (pathStyle (openNext os (.start e a))).Same (onEvent d (.start e a)).style := by
        rw [pathStyle_openNext, onEvent_style]
        exact hsame.next (.start e a)
      obtain ⟨hshown, hopen⟩ := ihinner hlink1 hsame1 hinner
      have hback := styleScopes.restores hlink1 hnested hinner
      have hlink2 : NoLink (run onEvent (onEvent d (.start e a)) inner).style :=
        run_inv styleScopes.inv hlink1 inner
      have hsame2 := same_equivalence.trans ((styleScopes.good_iff hlink hc).mp ho)
        (styleScopes.congr (.stop e) hback)
      have hlast := @ihevs _ os (styleScopes.inv _ (.stop e) hlink2)
        (Eq.trans hsame hsame2) hafter
      have hmiddle : run pageNext (onEvent d (.start e a), openNext os (.start e a)) inner =
          (run onEvent (onEvent d (.start e a)) inner, openNext os (.start e a)) :=
        Prod.ext (run_pageNext _ inner) hopen
      have hstop : pageNext (run onEvent (onEvent d (.start e a)) inner, openNext os (.start e a))
          (.stop e) = (onEvent (run onEvent (onEvent d (.start e a)) inner) (.stop e), os) := by
        rw [pageNext, openNext_closed]
      have hstart : pageNext (d, os) (.start e a) =
          (onEvent d (.start e a), openNext os (.start e a)) := rfl
      constructor
      · refine ⟨shows_of_same hlink hsame _, guarded_append.mpr ⟨hshown, ?_⟩⟩
        rw [hstart, hmiddle]
        refine ⟨shows_of_same hlink2 (Eq.trans hsame1 hback) _, ?_⟩
        rw [hstop]
        exact hlast.1
      · rw [run_cons, hstart, run_append, hmiddle, run_cons, hstop]
        exact hlast.2

/-- A properly nested page keeps its styles apart exactly when, at every start tag, the style is one
that the end tag gives back. -/
theorem styles_scoped_iff (evs : List Event) (hevs : WellNested evs) :
    (StylesScoped evs ∧ Guarded pageNext Shows ({}, []) evs) ↔ Guarded onEvent Closes {} evs := by
  have hlink : NoLink ({} : WebDoc).style := fun _ => rfl
  constructor
  · rintro ⟨hscoped, -⟩
    exact (styleScopes.scoped_iff hlink hevs).mp hscoped
  · intro hcloses
    have hsame : (pathStyle []).Same ({} : WebDoc).style := same_equivalence.refl ({} : WebDoc)
    exact ⟨(styleScopes.scoped_iff hlink hevs).mpr hcloses, (runs_shown hevs hlink hsame hcloses).1⟩

/-- Bold text in a list. -/
def boldItem : List Event :=
  [.start .ol {}, .start .li {}, .start .b {}, .text ['x'], .stop .b, .stop .li, .stop .ol]

theorem styles_scoped_bold : StylesScoped boldItem ∧ Guarded pageNext Shows ({}, []) boldItem := by
  have hbold : WellNested [.start .b {}, .text ['x'], .stop .b] :=
    @Nested.pair Event _ _ _ _ [.text ['x']] [] rfl (.flat trivial .nil) .nil
  have hitem : WellNested [.start .li {}, .start .b {}, .text ['x'], .stop .b, .stop .li] :=
    @Nested.pair Event _ _ _ _ [.start .b {}, .text ['x'], .stop .b] [] rfl hbold .nil
  have hevs : WellNested boldItem := @Nested.pair Event _ _ _ _
    [.start .li {}, .start .b {}, .text ['x'], .stop .b, .stop .li] [] rfl hitem .nil
  exact (styles_scoped_iff boldItem hevs).mpr (by decide)

/-- The face of a FONT outlives it. -/
theorem face_leaks :
    ¬∀ evs : List Event, WellNested evs →
      StylesScoped evs ∧ Guarded pageNext Shows ({}, []) evs := by
  intro hall
  have hevs : WellNested [.start .font { monoFace := true }, .stop .font] :=
    @Nested.pair Event _ _ _ _ [] [] rfl .nil .nil
  have hsame := (hall _ hevs).1 [] _ [] _ [] rfl rfl .nil
  have hmono : (0 : Nat) = 1 := congrArg StyleState.monoDepth hsame
  exact absurd hmono (by decide)

end UnicornSuite.Web
