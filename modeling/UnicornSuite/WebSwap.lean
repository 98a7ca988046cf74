import UnicornSuite.WebView

/-! The pointers into documents that the handlers use, over the whole life of the browser. At the commit of
a document the link rectangles and the hovered link are cleared, the link under a press and the selection
map are not: they point into the document that is freed until the next press and the next paint. -/

namespace UnicornSuite.WebView

open Machine

variable {π : Type} (gdi : Gdi π)

/-- The pointers that a handler uses: links it compares, shows or follows, tokens that it goes over or
copies. A paint and the animation start from the document on display. -/
def uses (s : Web π) : Event π → List DocPtr
  | .mouseMove x y =>
      (hitTestLink s.view x y).toList ++ s.hoverHref.toList ++
        if drags s x y then s.view.selMap.map SelToken.bytes else []
  | .buttonDown x y => (hitTestLink s.view x y).toList ++ s.view.selMap.map SelToken.bytes
  | .buttonUp => (hrefToNav s).toList
  | .copy => (copiedParts s.view).map fun part => part.1.bytes
  | .selectAll => s.view.selMap.getLast?.toList.map SelToken.bytes
  | .autoscroll client _ y =>
      if s.dragActive ∧ autoscrollTo s.view client y ≠ s.view.scrollY then
        (paintTo gdi { s.view with scrollY := autoscrollTo s.view client y } client).selMap.map
          SelToken.bytes
      else []
  | _ => []

/-- The number of the document on display. -/
def shownDoc (s : Web π) : Option Nat := s.view.viewDoc.map Prod.fst

/-- All of them point into the document on display. -/
def UsesShown (s : Web π) (e : Event π) : Prop := ∀ p ∈ uses gdi s e, shownDoc s = some p.doc

/-- What has happened since the document on display replaced another one: a paint or a resize, a press of
the mouse. -/
structure Since where
  painted : Bool := true
  pressed : Bool := true

def Since.next (m : Since) (s : Web π) : Event π → Since
  | .fetchDone (some _) => { painted := false, pressed := false }
  | .paint _ | .size _ => { m with painted := true }
  | .autoscroll client _ y =>
      if s.dragActive ∧ autoscrollTo s.view client y ≠ s.view.scrollY then { m with painted := true }
      else m
  | .buttonDown _ _ => { m with pressed := true }
  | _ => m

def watch (x : Web π × Since) (e : Event π) : Web π × Since :=
  (onEvent gdi x.1 e, x.2.next x.1 e)

/-- After a swap of documents the selection map waits for a paint or a resize, and a release of the
mouse follows no link of an earlier press. -/
def Waits (x : Web π × Since) : Event π → Prop
  | .mouseMove mx my => drags x.1 mx my → x.2.painted ∨ x.1.view.selMap = []
  | .buttonDown _ _ | .selectAll => x.2.painted ∨ x.1.view.selMap = []
  | .buttonUp => hrefToNav x.1 ≠ none → x.2.pressed
  | _ => True

/-- Where the pointers of the view point. -/
structure Tagged (x : Web π × Since) : Prop where
  below : ∀ n ∈ shownDoc x.1, n < x.1.docs
  links : ∀ l ∈ x.1.view.linkRects, shownDoc x.1 = some l.href.doc
  hover : ∀ p ∈ x.1.hoverHref, shownDoc x.1 = some p.doc
  press : ∀ p ∈ x.1.dragPressHref, p.doc < x.1.docs ∧ (shownDoc x.1 = some p.doc ↔ x.2.pressed)
  map : ∀ t ∈ x.1.view.selMap, t.doc < x.1.docs ∧ (shownDoc x.1 = some t.doc ↔ x.2.painted)
  blank : x.1.view.viewDoc = none → x.1.view.selMap = []
  anchor : x.2.painted = false → x.1.view.selAnchorIdx < 0

/-- The browser before its first page. -/
def start : Web π × Since := ⟨{}, {}⟩

section

variable {gdi} {x : Web π × Since}

theorem Tagged.hit (h : Tagged x) {mx my : Int} {p : DocPtr} (hp : p ∈ hitTestLink x.1.view mx my) :
    shownDoc x.1 = some p.doc := by
  obtain ⟨l, hl, rfl⟩ := Option.map_eq_some_iff.mp hp
  exact h.links l (List.mem_of_find?_eq_some hl)

/-- The tokens of the map are those of the document on display, or none is. -/
theorem Tagged.map_iff (h : Tagged x) :
    (∀ p ∈ x.1.view.selMap.map SelToken.bytes, shownDoc x.1 = some p.doc) ↔
      x.2.painted ∨ x.1.view.selMap = [] := by
  constructor
  · intro hall
    cases hmap : x.1.view.selMap with
    | nil => exact .inr rfl
    | cons t rest =>
        have ht : t ∈ x.1.view.selMap := by rw [hmap]; exact List.mem_cons_self
        exact .inl ((h.map t ht).2.mp (hall _ (List.mem_map_of_mem ht)))
  · rintro (hpainted | hmap) p hp
    · obtain ⟨t, ht, rfl⟩ := List.mem_map.mp hp
      exact (h.map t ht).2.mpr hpainted
    · rw [hmap] at hp
      cases hp

theorem Tagged.last_iff (h : Tagged x) :
    (∀ p ∈ x.1.view.selMap.getLast?.toList.map SelToken.bytes, shownDoc x.1 = some p.doc) ↔
      x.2.painted ∨ x.1.view.selMap = [] := by
  constructor
  · intro hall
    cases hlast : x.1.view.selMap.getLast? with
    | none => exact .inr (List.getLast?_eq_none_iff.mp hlast)
    | some t =>
        rw [hlast] at hall
        have hshown := hall t.bytes List.mem_cons_self
        exact .inl ((h.map t (List.mem_of_getLast? hlast)).2.mp hshown)
  · intro hwait p hp
    apply h.map_iff.mpr hwait p
    obtain ⟨t, ht, rfl⟩ := List.mem_map.mp hp
    exact List.mem_map_of_mem (List.mem_of_getLast? (Option.mem_toList.mp ht))

theorem selPart_token {lo hi : Int × Int} {t : SelToken × Nat} {part : SelToken × Int × Int}
    (h : selPart lo hi t = some part) : part.1 = t.1 := by
  simp only [selPart, Option.ite_none_right_eq_some] at h
  obtain ⟨-, hpart⟩ := h
  rw [← Option.some.inj hpart]

/-- Copy takes nothing from the map of an earlier document. -/
theorem Tagged.copied (h : Tagged x) {part : SelToken × Int × Int}
    (hpart : part ∈ copiedParts x.1.view) : shownDoc x.1 = some part.1.bytes.doc := by
  rw [copiedParts] at hpart
  split_ifs at hpart with hnone
  · cases hpart
  · obtain ⟨t, ht, hsel⟩ := List.mem_filterMap.mp hpart
    have hpainted : x.2.painted = true := by
      by_contra hno
      exact hnone (.inr (.inl (h.anchor (eq_false_of_ne_true hno))))
    have hmem : t.1 ∈ x.1.view.selMap := (List.mem_zipIdx ht).2.2 ▸ List.getElem_mem _
    rw [selPart_token hsel]
    exact (h.map t.1 hmem).2.mpr hpainted

variable (gdi) in
/-- What a paint puts into the view is the document on display. -/
theorem paintTo_shown {v : View π} (hblank : v.viewDoc = none → v.selMap = []) (client : Client) :
    (∀ l ∈ (paintTo gdi v client).linkRects, v.viewDoc.map Prod.fst = some l.href.doc) ∧
      ∀ t ∈ (paintTo gdi v client).selMap, v.viewDoc.map Prod.fst = some t.doc := by
  cases hdoc : v.viewDoc with
  | none => simp [paintTo, hdoc, hblank hdoc]
  | some d =>
      rw [paintTo, hdoc]
      constructor
      · intro l hl
        obtain ⟨l', -, rfl⟩ := List.mem_map.mp hl
        rfl
      · intro t ht
        obtain ⟨t', -, rfl⟩ := List.mem_map.mp ht
        rfl

theorem hrefToNav_press {s : Web π} {p : DocPtr} (hp : hrefToNav s = some p) :
    p ∈ s.dragPressHref := by
  rw [hrefToNav] at hp
  split_ifs at hp
  exact hp

theorem usesShown_iff (h : Tagged x) (e : Event π) : UsesShown gdi x.1 e ↔ Waits x e := by
  have hhit {mx my : Int} : ∀ p ∈ (hitTestLink x.1.view mx my).toList, shownDoc x.1 = some p.doc :=
    fun p hp => h.hit (Option.mem_toList.mp hp)
  cases e with
  | mouseMove mx my =>
      have hhover : ∀ p ∈ x.1.hoverHref.toList, shownDoc x.1 = some p.doc :=
        fun p hp => h.hover p (Option.mem_toList.mp hp)
      simp only [UsesShown, uses, Waits, List.forall_mem_append]
      split_ifs with hdrags
      · exact ⟨fun hall _ => h.map_iff.mp hall.2, fun hwait => ⟨⟨hhit, hhover⟩, h.map_iff.mpr (hwait hdrags)⟩⟩
      · exact iff_of_true ⟨⟨hhit, hhover⟩, by simp⟩ (fun hno => absurd hno hdrags)
  | buttonDown mx my =>
      simp only [UsesShown, uses, Waits, List.forall_mem_append]
      exact ⟨fun hall => h.map_iff.mp hall.2, fun hwait => ⟨hhit, h.map_iff.mpr hwait⟩⟩
  | buttonUp =>
      simp only [UsesShown, uses, Waits, Option.mem_toList]
      constructor
      · intro hall hne
        obtain ⟨p, hp⟩ := Option.ne_none_iff_exists'.mp hne
        exact (h.press p (hrefToNav_press hp)).2.mp (hall p hp)
      · intro hwait p hp
        exact (h.press p (hrefToNav_press hp)).2.mpr (hwait (Option.ne_none_iff_exists'.mpr ⟨p, hp⟩))
  | copy =>
      refine iff_of_true (fun p hp => ?_) trivial
      obtain ⟨part, hpart, rfl⟩ := List.mem_map.mp hp
      exact h.copied hpart
  | selectAll => exact h.last_iff
  | autoscroll client mx my =>
      refine iff_of_true (fun p hp => ?_) trivial
      rw [uses] at hp
      split_ifs at hp
      · obtain ⟨t, ht, rfl⟩ := List.mem_map.mp hp
        exact (paintTo_shown gdi
          (v := { x.1.view with scrollY := autoscrollTo x.1.view client my }) h.blank client).2 t ht
      · cases hp
  | _ => exact iff_of_true (fun p hp => nomatch hp) trivial

/-! ### Steps -/

/-- The document, the link rectangles and the selection map are the same. -/
def SameView (v v' : View π) : Prop :=
  v'.viewDoc = v.viewDoc ∧ v'.linkRects = v.linkRects ∧ v'.selMap = v.selMap

variable (gdi) in
theorem extendTo_same (v : View π) (mx my : Int) :
    SameView v (extendTo gdi v mx my) ∧ (extendTo gdi v mx my).selAnchorIdx = v.selAnchorIdx := by
  rw [extendTo]
  split <;> exact ⟨⟨rfl, rfl, rfl⟩, rfl⟩

theorem selClear_same (v : View π) :
    SameView v (selClear v) ∧ (selClear v).selAnchorIdx < 0 := by
  rw [selClear]
  split_ifs with hclear
  · exact ⟨⟨rfl, rfl, rfl⟩, hclear.1⟩
  · exact ⟨⟨rfl, rfl, rfl⟩, (by decide : (-1 : Int) < 0)⟩

theorem Tagged.keep (h : Tagged x) {s : Web π} (hdocs : s.docs = x.1.docs)
    (hsame : SameView x.1.view s.view) (hhover : ∀ p ∈ s.hoverHref, shownDoc x.1 = some p.doc)
    (hpress : ∀ p ∈ s.dragPressHref, p ∈ x.1.dragPressHref)
    (hanchor : x.1.view.selAnchorIdx < 0 → s.view.selAnchorIdx < 0) : Tagged (s, x.2) := by
  obtain ⟨hdoc, hlinks, hmap⟩ := hsame
  have hshown : shownDoc s = shownDoc x.1 := congrArg (Option.map Prod.fst) hdoc
  constructor
  · rw [hshown, hdocs]
    exact h.below
  · rw [hshown, hlinks]
    exact h.links
  · rw [hshown]
    exact hhover
  · rw [hshown, hdocs]
    exact fun p hp => h.press p (hpress p hp)
  · rw [hshown, hdocs, hmap]
    exact h.map
  · rw [hdoc, hmap]
    exact h.blank
  · exact fun hno => hanchor (h.anchor hno)

theorem Tagged.commit (h : Tagged x) (page : π) :
    Tagged (commit x.1 page, { painted := false, pressed := false }) := by
  have hgone {n : Nat} (hn : n < x.1.docs) :
      n < x.1.docs + 1 ∧ (some x.1.docs = some n ↔ false = true) :=
    ⟨Nat.lt_succ_of_lt hn, iff_of_false (fun heq => Nat.ne_of_lt hn (Option.some.inj heq).symm) Bool.false_ne_true⟩
  constructor
  · intro n hn
    obtain rfl := Option.some.inj hn
    exact Nat.lt_succ_self _
  · exact fun l hl => nomatch hl
  · exact fun p hp => nomatch hp
  · exact fun p hp => hgone (h.press p hp).1
  · exact fun t ht => hgone (h.map t ht).1
  · exact fun hnone => nomatch hnone
  · exact fun _ => (by decide : (-1 : Int) < 0)

/-- A view whose rectangles and tokens are those of the document on display. -/
theorem Tagged.repaint (h : Tagged x) {v : View π} (hdoc : v.viewDoc = x.1.view.viewDoc)
    (hlinks : ∀ l ∈ v.linkRects, shownDoc x.1 = some l.href.doc)
    (hmap : ∀ t ∈ v.selMap, shownDoc x.1 = some t.doc) :
    Tagged ({ x.1 with view := v }, { x.2 with painted := true }) := by
  have hshown : shownDoc { x.1 with view := v } = shownDoc x.1 := congrArg (Option.map Prod.fst) hdoc
  constructor
  · rw [hshown]
    exact h.below
  · rw [hshown]
    exact hlinks
  · rw [hshown]
    exact h.hover
  · rw [hshown]
    exact h.press
  · rw [hshown]
    exact fun t ht => ⟨h.below _ (hmap t ht), iff_of_true (hmap t ht) rfl⟩
  · intro hnone
    apply List.eq_nil_iff_forall_not_mem.mpr
    intro t ht
    have hsome := hmap t ht
    rw [← hshown, shownDoc, hnone] at hsome
    cases hsome
  · exact fun hno => nomatch hno

theorem paintTo_viewDoc (v : View π) (client : Client) :
    (paintTo gdi v client).viewDoc = v.viewDoc := by
  rw [paintTo]
  split <;> rfl

variable (gdi) in
theorem measureTo_same (v : View π) (client : Client) :
    (measureTo gdi v client).viewDoc = v.viewDoc ∧
      (measureTo gdi v client).linkRects = v.linkRects ∧
      ∀ t ∈ (measureTo gdi v client).selMap, v.viewDoc = none ∧ t ∈ v.selMap := by
  rw [measureTo]
  split
  · rename_i hnone
    exact ⟨rfl, rfl, fun t ht => ⟨hnone, ht⟩⟩
  · exact ⟨rfl, rfl, fun t ht => nomatch ht⟩

variable (gdi) in
theorem onSize_same (v : View π) (client : Client) :
    SameView (measureTo gdi v client) (onSize gdi v client) := by
  simp only [onSize]
  split_ifs <;> exact ⟨rfl, rfl, rfl⟩

theorem Tagged.size (h : Tagged x) (client : Client) :
    Tagged ({ x.1 with view := onSize gdi x.1.view client }, { x.2 with painted := true }) := by
  obtain ⟨hdoc, hlinks, hmap⟩ := measureTo_same gdi x.1.view client
  obtain ⟨hdoc', hlinks', hmap'⟩ := onSize_same gdi x.1.view client
  refine h.repaint (hdoc'.trans hdoc) ?_ ?_
  · rw [hlinks', hlinks]
    exact h.links
  · rw [hmap']
    intro t ht
    obtain ⟨hnone, hold⟩ := hmap t ht
    rw [h.blank hnone] at hold
    cases hold

theorem Tagged.selectAll (h : Tagged x) (hwait : x.2.painted ∨ x.1.view.selMap = []) :
    Tagged ({ x.1 with view := selSelectAll x.1.view }, x.2) := by
  cases hlast : x.1.view.selMap.getLast? with
  | none =>
      rw [selSelectAll, hlast]
      exact h
  | some t =>
      have hpainted : x.2.painted = true :=
        hwait.resolve_right fun hempty => by simp [hempty] at hlast
      rw [selSelectAll, hlast]
      exact ⟨h.below, h.links, h.hover, h.press, h.map, h.blank,
        fun hno => absurd (hno.symm.trans hpainted) Bool.false_ne_true⟩

/-- A paint, and what the selection does after it. -/
theorem Tagged.paint (h : Tagged x) {v v' : View π} (hdoc : v.viewDoc = x.1.view.viewDoc)
    (hmap : v.selMap = x.1.view.selMap) (client : Client) (hsame : SameView (paintTo gdi v client) v') :
    Tagged ({ x.1 with view := v' }, { x.2 with painted := true }) := by
  have hblank : v.viewDoc = none → v.selMap = [] := by
    rw [hdoc, hmap]
    exact h.blank
  have hpaint := paintTo_shown gdi hblank client
  rw [hdoc] at hpaint
  obtain ⟨hdoc', hlinks', hmap'⟩ := hsame
  apply h.repaint ((hdoc'.trans (paintTo_viewDoc v client)).trans hdoc)
  · rw [hlinks']
    exact hpaint.1
  · rw [hmap']
    exact hpaint.2

theorem Tagged.buttonDown (h : Tagged x) (hwait : x.2.painted ∨ x.1.view.selMap = []) (mx my : Int) :
    Tagged (onButtonDown gdi x.1 mx my, { x.2 with pressed := true }) := by
  have hsame : SameView x.1.view (onButtonDown gdi x.1 mx my).view := by
    simp only [onButtonDown]
    split <;> exact ⟨rfl, rfl, rfl⟩
  obtain ⟨hdoc, hlinks, hmap⟩ := hsame
  have hshown : shownDoc (onButtonDown gdi x.1 mx my) = shownDoc x.1 :=
    congrArg (Option.map Prod.fst) hdoc
  constructor
  · rw [hshown]
    exact h.below
  · rw [hshown, hlinks]
    exact h.links
  · rw [hshown]
    exact h.hover
  · rw [hshown]
    intro p hp
    have hp' := h.hit (p := p) hp
    exact ⟨h.below _ hp', iff_of_true hp' rfl⟩
  · rw [hshown, hmap]
    exact h.map
  · rw [hdoc, hmap]
    exact h.blank
  · intro hno
    have hempty := hwait.resolve_left (fun hyes => Bool.false_ne_true (hno.symm.trans hyes))
    simp only [onButtonDown, selHitTest, hempty, if_true]
    decide

end

theorem Tagged.next {x : Web π × Since} (h : Tagged x) (e : Event π) (hwait : Waits x e) :
    Tagged (watch gdi x e) := by
  cases e with
  | fetchDone page =>
      cases page with
      | none => exact h
      | some page => exact h.commit page
  | paint client => exact h.paint rfl rfl client ⟨rfl, rfl, rfl⟩
  | size client => exact h.size client
  | scroll client newY => exact h.keep rfl ⟨rfl, rfl, rfl⟩ h.hover (fun _ hp => hp) (fun hno => hno)
  | mouseMove mx my =>
      simp only [watch, onEvent, onMouseMove, Since.next]
      split_ifs
      · obtain ⟨hsame, hanchor⟩ := extendTo_same gdi
          { x.1.view with selActive := x.1.view.selActive || !x.1.dragActive } mx my
        exact h.keep rfl hsame (fun p hp => h.hit hp) (fun _ hp => hp) fun hno => by rwa [hanchor]
      · exact h.keep rfl ⟨rfl, rfl, rfl⟩ (fun p hp => h.hit hp) (fun _ hp => hp) fun hno => hno
  | buttonDown mx my => exact h.buttonDown hwait mx my
  | buttonUp =>
      simp only [watch, onEvent, onButtonUp, Since.next]
      have hclear := selClear_same x.1.view
      split_ifs
      · exact h.keep rfl ⟨rfl, rfl, rfl⟩ h.hover (fun _ hp => nomatch hp) fun hno => hno
      · exact h.keep rfl hclear.1 h.hover (fun _ hp => nomatch hp) fun _ => hclear.2
      · exact h
  | captureChanged =>
      simp only [watch, onEvent, onCaptureChanged, Since.next]
      split_ifs
      · exact h.keep rfl ⟨rfl, rfl, rfl⟩ h.hover (fun _ hp => nomatch hp) fun hno => hno
      · exact h.keep rfl ⟨rfl, rfl, rfl⟩ h.hover (fun _ hp => hp) fun hno => hno
  | escape =>
      have hclear := selClear_same x.1.view
      exact h.keep rfl hclear.1 h.hover (fun _ hp => hp) fun _ => hclear.2
  | copy => exact h
  | selectAll => exact h.selectAll hwait
  | autoscroll client mx my =>
      simp only [watch, onEvent, onAutoscroll, Since.next]
      split_ifs
      · exact h.paint (v := { x.1.view with scrollY := autoscrollTo x.1.view client my }) rfl rfl client
          (extendTo_same _ _ mx my).1
      · exact h
  | animTick => exact h

/-- Every handler of a run uses pointers into the document on display alone exactly when the selection map
waits for a paint after every swap and no release follows a link that was pressed before one. -/
theorem swaps_safe_iff (evs : List (Event π)) :
    Guarded (onEvent gdi) (UsesShown gdi) {} evs ↔ Guarded (watch gdi) Waits start evs := by
  have hstart : Tagged (start : Web π × Since) := by
    constructor <;> simp [start, shownDoc]
  have hweb : Guarded (watch gdi) (fun x e => UsesShown gdi x.1 e) start evs ↔
      Guarded (onEvent gdi) (UsesShown gdi) {} evs :=
    guarded_map (f := Prod.fst) (fun _ _ => rfl) start evs
  refine hweb.symm.trans ?_
  exact guarded_congr (I := Tagged)
    (fun x e hx huses => hx.next gdi e ((usesShown_iff hx e).mp huses))
    (fun x e hx => usesShown_iff hx e) hstart evs

/-- Every page is one linked word. -/
def oneLink : Gdi Unit where
  layout := fun _ _ _ => ⟨[(⟨0, 0, 40, 16⟩, [0x2F])], [⟨0, 0, 40, 16, [0x61], 0, 0, false⟩], 40⟩
  fit := fun _ _ => 0

/-- A page arrives while the mouse is down on a link, and the release follows the link of the page
before; a page arrives and, before it is painted, Select All and Copy copy the text of the page before. -/
theorem freed_followed :
    let press := run (onEvent oneLink) {}
      [.fetchDone (some ()), .paint ⟨200, 100⟩, .buttonDown 5 5, .fetchDone (some ())]
    let select := run (onEvent oneLink) {}
      [.fetchDone (some ()), .paint ⟨200, 100⟩, .fetchDone (some ()), .selectAll]
    uses oneLink press .buttonUp = [⟨0, [0x2F]⟩] ∧ shownDoc press = some 1 ∧
      uses oneLink select .copy = [⟨0, [0x61]⟩] ∧ shownDoc select = some 1 := by
  decide

end UnicornSuite.WebView
