import UnicornSuite.RipPress
import UnicornSuite.RipViewport

/-! Press feedback over every run. The scene is at all times the one of the parser alone, with the look of
the pressed region on it or not. -/

namespace UnicornSuite.RipCanvas

open Rip Machine

variable (T : Tables)

/-- The scene is the one of the parser alone, but for the look of one region. -/
structure Intact (t : Tab) : Prop where
  lifted : t.lift.scene = t.alone
  looks : t.scene = if t.pressIn then t.alone.flip t.pressIdx else t.alone

/-! ### The look -/

theorem pressFlip_buttons (p : RipParser) (idx : Option Nat) : (pressFlip p idx).buttons = p.buttons := by
  rw [pressFlip]
  split
  · rfl
  · split_ifs <;> rfl

theorem pressFlip_twice {p : RipParser} (h : Nibbles p.surf.pix) (idx : Option Nat) :
    pressFlip (pressFlip p idx) idx = p := by
  have hbuttons := pressFlip_buttons p idx
  rw [pressFlip, hbuttons, pressFlip]
  cases idx.bind (p.buttons[·]?) with
  | none => rfl
  | some b =>
      dsimp only
      split_ifs
      · rfl
      · have htwice := invertRect_twice h b.image.x0 b.image.y0 b.image.x1 b.image.y1
        rw [onSurf, onSurf, htwice]
      · rfl

/-- The look is on the surface, not on the regions. -/
theorem Scene.flip_buttons (s : Scene) (idx : Option Nat) : (s.flip idx).parser.buttons = s.parser.buttons :=
  pressFlip_buttons s.parser idx

theorem Scene.flip_twice {s : Scene} (h : Nibbles s.parser.surf.pix) (idx : Option Nat) :
    (s.flip idx).flip idx = s := by
  rw [Scene.flip, Scene.flip, pressFlip_twice h]

theorem regionUnder_congr {p q : RipParser} (h : p.buttons = q.buttons) : regionUnder p = regionUnder q := by
  funext m
  simp only [regionUnder, buttonAt, h]

theorem buttonBelow_lt {bs : List Button} {x y : Int} {n i : Nat} (h : buttonBelow bs x y n = some i) : i < n := by
  induction n with
  | zero => cases h
  | succ n ih =>
      rw [buttonBelow] at h
      split at h
      · split_ifs at h
        · rw [← Option.some.inj h]
          exact Nat.lt_succ_self n
        · exact (ih h).trans (Nat.lt_succ_self n)
      · exact (ih h).trans (Nat.lt_succ_self n)

theorem regionUnder_lt {p : RipParser} {m : Pointer} {i : Nat} (h : regionUnder p m = some i) :
    i < p.buttons.length := by
  obtain ⟨_, -, hat⟩ := Option.bind_eq_some_iff.mp h
  exact buttonBelow_lt hat

/-! ### The bytes -/

theorem flush_nibbles {f : Filter} (h : Nibbles f.scene.parser.surf.pix) :
    Nibbles (f.flush T).scene.parser.surf.pix := by
  rw [Filter.flush]
  split_ifs
  · exact feed_nibbles T h f.out
  · exact h

theorem append_scene (f : Filter) (bytes : List UInt8) : (f.append bytes).scene = f.scene := by
  rw [Filter.append]
  split_ifs <;> rfl

theorem pass_nibbles {f : Filter} (h : Nibbles f.scene.parser.surf.pix) (held : List UInt8) (b : UInt8) :
    Nibbles (f.pass T held b).scene.parser.surf.pix := by
  have hscene : (((f.hold .none).append held).append [b]).scene = (f.hold .none).scene := by
    rw [append_scene, append_scene]
  have hparser : Nibbles (((f.hold .none).append held).append [b]).scene.parser.surf.pix := by
    rw [hscene]
    exact h
  rw [Filter.pass]
  split_ifs
  · exact flush_nibbles T hparser
  · exact hparser

theorem consumeByte_nibbles {f : Filter} (h : Nibbles f.scene.parser.surf.pix) (b : UInt8) :
    Nibbles (consumeByte T f b).scene.parser.surf.pix := by
  rw [consumeByte]
  split
  · split_ifs
    · exact h
    · exact pass_nibbles T h _ b
  · split_ifs
    · exact h
    · exact pass_nibbles T h _ b
  · split_ifs
    · exact h
    · exact h
    · exact pass_nibbles T h _ b
  · split_ifs
    · exact h
    · exact h
    · exact h
    · exact pass_nibbles T h _ b

theorem consume_nibbles {s : Scene} (h : Nibbles s.parser.surf.pix) (data : List UInt8) :
    Nibbles (consume T s data).1.parser.surf.pix := by
  have hrun := run_inv (I := fun f : Filter => Nibbles f.scene.parser.surf.pix)
    (fun _ b hf => consumeByte_nibbles T hf b) (s := { scene := s }) h data
  rw [consume]
  dsimp only
  split_ifs
  · exact hrun
  · exact flush_nibbles T hrun

/-! ### The scene that is shown -/

structure Shown (t : Tab) : Prop where
  scene : t.scene = if t.pressIn then t.alone.flip t.pressIdx else t.alone
  nibbles : Nibbles t.alone.parser.surf.pix
  held : t.pressIn → ∃ i, t.pressIdx = some i ∧ i < t.buttons.length

variable {t t' : Tab}

/-- The look on the true scene, and off it. -/
theorem Shown.flip (h : Shown t) : t.flip.scene = if t.pressIn then t.alone else t.alone.flip t.pressIdx := by
  rw [Tab.flip, h.scene]
  dsimp only
  split_ifs
  · exact Scene.flip_twice h.nibbles t.pressIdx
  · rfl

theorem Shown.lift (h : Shown t) : t.lift.scene = t.alone := by
  have hflip := h.flip
  rw [Tab.lift]
  dsimp only
  split_ifs with hin
  · rw [if_pos hin] at hflip
    exact hflip
  · rw [h.scene, if_neg hin]

theorem Shown.intact (h : Shown t) : Intact t := ⟨h.lift, h.scene⟩

/-- A tab without a look on. -/
theorem shown_off (hscene : t.scene = t.alone) (hoff : t.pressIn = false)
    (hnibbles : Nibbles t.alone.parser.surf.pix) : Shown t := by
  refine ⟨?_, hnibbles, fun hin => ?_⟩
  · rw [hoff, hscene]
    rfl
  · rw [hoff] at hin
    cases hin

/-- A tab that differs in nothing that is shown. -/
theorem Shown.congr (h : Shown t) (hscene : t'.scene = t.scene) (halone : t'.alone = t.alone)
    (hidx : t'.pressIdx = t.pressIdx) (hin : t'.pressIn = t.pressIn) : Shown t' := by
  refine ⟨?_, ?_, ?_⟩
  · rw [hscene, halone, hidx, hin]
    exact h.scene
  · rw [halone]
    exact h.nibbles
  · rw [hin, hidx, Tab.buttons, hscene]
    exact h.held

/-! ### Steps -/

theorem Shown.clear (h : Shown t) : Shown (pressClear t) := shown_off h.lift rfl h.nibbles

theorem Shown.cancel (h : Shown t) : Shown (pressCancelForRedraw t) := by
  rw [pressCancelForRedraw]
  split_ifs
  · exact h
  · exact shown_off h.lift rfl h.nibbles

theorem sendRaw_shown (h : Shown t) (bytes : List Nat) : Shown (sendRaw t bytes) := h.congr rfl rfl rfl rfl

theorem zmodemBegin_shown (h : Shown t) (starts : Bool) : Shown (zmodemBegin t starts).1 := by
  rw [zmodemBegin]
  split_ifs
  · exact h
  · exact h
  · exact h.cancel.congr rfl rfl rfl rfl
  · exact h.cancel

theorem sendCommand_shown (h : Shown t) (cmd : List Nat) (starts : Bool) :
    Shown (sendCommand t cmd starts).1 := by
  have hbegin := zmodemBegin_shown h starts
  rw [sendCommand]
  split_ifs
  · exact h
  · exact h
  · dsimp only
    split_ifs
    · exact sendRaw_shown hbegin _
    · exact hbegin
  · exact sendRaw_shown h _

theorem sendFor_shown (h : Shown t) (sender : Sender) (idx : Nat) (cmd : List Nat) (starts : Bool) :
    Shown (sendFor t sender idx cmd starts) := by
  have hsend := sendCommand_shown h cmd starts
  rw [sendFor]
  dsimp only
  split_ifs
  · exact hsend.congr rfl rfl rfl rfl
  · exact hsend

theorem activateRegion_shown (h : Shown t) (sender : Sender) (idx : Nat) (starts : Bool) :
    Shown (activateRegion t sender idx starts) := by
  rw [activateRegion]
  split
  · exact h
  · exact sendFor_shown h _ _ _ _

/-- The look goes on where it was off. -/
theorem flip_shown (h : Shown t) (hscene : t.scene = t.alone) {i : Nat} (hi : i < t.buttons.length)
    {u : Tab} (hu : u.scene = t.scene) (halone : u.alone = t.alone) (hidx : u.pressIdx = some i)
    (hin : u.pressIn = true) : Shown u.flip := by
  refine ⟨?_, ?_, fun _ => ⟨i, hidx, ?_⟩⟩
  · change u.scene.flip u.pressIdx = if u.pressIn then u.alone.flip u.pressIdx else u.alone
    rw [if_pos hin, hu, hscene, halone]
  · change Nibbles u.alone.parser.surf.pix
    rw [halone]
    exact h.nibbles
  · have hbuttons : u.flip.buttons = t.buttons := by
      rw [Tab.buttons, Tab.flip, Scene.flip_buttons, hu]
      rfl
    rw [hbuttons]
    exact hi

/-- A press that is cancelled has no look. -/
theorem Shown.cancel_scene (h : Shown t) : (pressCancelForRedraw t).scene = (pressCancelForRedraw t).alone := by
  rw [pressCancelForRedraw]
  split_ifs with hnone
  · have hoff : t.pressIn ≠ true := by
      intro hin
      obtain ⟨i, hi, -⟩ := h.held hin
      rw [hnone.1] at hi
      cases hi
    rw [h.scene, if_neg hoff]
  · exact h.lift

theorem lift_buttons (t : Tab) : t.lift.buttons = t.buttons := by
  rw [Tab.buttons, Tab.lift]
  dsimp only
  split_ifs
  · exact Scene.flip_buttons t.scene t.pressIdx
  · rfl

theorem cancel_buttons (t : Tab) : (pressCancelForRedraw t).buttons = t.buttons := by
  rw [pressCancelForRedraw]
  split_ifs
  · rfl
  · exact lift_buttons t

theorem hotkeyActivate_shown (h : Shown t) (idx : Nat) (starts : Bool) :
    Shown (hotkeyActivate t idx starts) := by
  rw [hotkeyActivate]
  split
  · exact h
  · next b hb =>
      have hcancel : Shown { pressCancelForRedraw t with pressed := some b } := h.cancel.congr rfl rfl rfl rfl
      have hi : idx < (pressCancelForRedraw t).buttons.length := by
        rw [cancel_buttons]
        exact (List.getElem?_eq_some_iff.mp hb).1
      dsimp only
      split_ifs
      · exact flip_shown hcancel h.cancel_scene hi rfl rfl rfl rfl
      · exact activateRegion_shown hcancel _ _ _

/-! ### Bytes -/

theorem pressSaved_eq (h : Shown t) :
    (t.pressIn = false ∧ pressSaved t = none) ∨
      ∃ i b, t.pressIn = true ∧ t.pressIdx = some i ∧ t.buttons[i]? = some b ∧ pressSaved t = some (i, b) := by
  rw [pressSaved]
  split_ifs with hin
  · obtain ⟨i, hi, hlt⟩ := h.held hin
    refine .inr ⟨i, t.buttons[i], hin, hi, List.getElem?_eq_getElem hlt, ?_⟩
    rw [hi, Option.bind_some, List.getElem?_eq_getElem hlt]
    rfl
  · exact .inl ⟨Bool.eq_false_iff.mpr hin, rfl⟩

/-- The look is off while the service draws. -/
theorem suspend_eq (h : Shown t) : pressSuspend t = t.lift := by
  obtain ⟨hoff, hsaved⟩ | ⟨i, b, hin, -, -, hsaved⟩ := pressSaved_eq h
  · have hscene : (if t.pressIn then t.scene.flip t.pressIdx else t.scene) = t.scene :=
      if_neg (Bool.eq_false_iff.mp hoff)
    rw [pressSuspend, hsaved, Tab.lift, hscene]
  · rw [pressSuspend, hsaved, Tab.lift, if_pos hin]
    rfl

theorem draw_shown (h : Shown t) (data : List UInt8) : Shown (draw T t data) := by
  have hscene : (ripConsume T t.lift data).scene = (ripConsume T t.lift data).alone := by
    change (consume T t.lift.scene data).1 = (consume T t.alone data).1
    rw [h.lift]
  have hnibbles : Nibbles (ripConsume T t.lift data).alone.parser.surf.pix := consume_nibbles T h.nibbles data
  rw [draw, suspend_eq h]
  obtain ⟨hoff, hsaved⟩ | ⟨i, b, hin, hidx, -, hsaved⟩ := pressSaved_eq h
  · rw [hsaved]
    exact shown_off hscene hoff hnibbles
  · rw [hsaved, pressResume]
    split
    · exact shown_off hscene rfl hnibbles
    · next now hnow =>
        split_ifs
        · have hflipped : (ripConsume T t.lift data).scene.flip (some i) =
              if t.pressIn then (ripConsume T t.lift data).alone.flip t.pressIdx
              else (ripConsume T t.lift data).alone := by
            rw [if_pos hin, hidx, hscene]
          refine ⟨hflipped, hnibbles, fun _ => ⟨i, hidx, ?_⟩⟩
          change i < ((ripConsume T t.lift data).scene.flip (some i)).parser.buttons.length
          rw [Scene.flip_buttons]
          exact (List.getElem?_eq_some_iff.mp hnow).1
        · exact shown_off hscene rfl hnibbles

theorem onData_shown (h : Shown t) (data : List UInt8) (starts : Bool) : Shown (onData T t data starts) := by
  rw [onData]
  split_ifs
  · exact h
  · split
    · next len _ => exact draw_shown T (t := { t with zsigLen := len }) (h.congr rfl rfl rfl rfl) data
    · next at' len _ =>
        have hbegun := zmodemBegin_shown (draw_shown T (t := { t with zsigLen := len })
          (h.congr rfl rfl rfl rfl) (data.take at')) starts
        dsimp only
        split_ifs
        · exact hbegun
        · exact draw_shown T hbegun _

theorem onZmrDone_shown (h : Shown t) (tail : List UInt8) : Shown (onZmrDone T t tail) := by
  have hdone : Shown { t with zmr := false, zmodemActive := false, zsigLen := 0 } := h.congr rfl rfl rfl rfl
  rw [onZmrDone]
  split_ifs
  · exact hdone
  · exact draw_shown T hdone tail
  · exact h.congr rfl rfl rfl rfl

theorem zmodemAbandon_shown (h : Shown t) : Shown (zmodemAbandon t) := by
  rw [zmodemAbandon]
  split_ifs
  · exact h.congr rfl rfl rfl rfl
  · exact h.congr rfl rfl rfl rfl

/-- A press that is cancelled is off. -/
theorem Shown.cancel_off (h : Shown t) : (pressCancelForRedraw t).pressIn = false := by
  rw [pressCancelForRedraw]
  split_ifs with hnone
  · apply Bool.eq_false_iff.mpr
    intro hin
    obtain ⟨i, hi, -⟩ := h.held hin
    rw [hnone.1] at hi
    cases hi
  · rfl

theorem closeSession_shown (h : Shown t) : Shown (closeSession t) := by
  have hclosed (u : Tab) (hu : Shown u) : Shown
      { pressCancelForRedraw u with
        telnet := false, connected := false, zsigLen := 0
        scene := { (pressCancelForRedraw u).scene with esc := .none }
        alone := { (pressCancelForRedraw u).alone with esc := .none } } :=
    shown_off (by dsimp only; rw [hu.cancel_scene]) hu.cancel_off hu.cancel.nibbles
  rw [closeSession]
  split_ifs
  · exact hclosed _ (zmodemAbandon_shown h)
  · exact hclosed _ h

theorem doConnect_shown (h : Shown t) (opens : Bool) : Shown (doConnect t opens) := by
  rw [doConnect]
  split_ifs
  · exact h
  · refine shown_off ?_ h.cancel_off (init_nibbles _)
    dsimp only
    rw [h.cancel_scene]

/-! ### Mouse and keys -/

theorem mouseDown_shown (h : Shown t) (m : Pointer) : Shown (mouseDown t m) := by
  rw [mouseDown]
  split_ifs
  · exact h
  · dsimp only
    split
    · exact h.cancel
    · next i hi => exact flip_shown h.cancel h.cancel_scene (regionUnder_lt hi) rfl rfl rfl rfl

theorem mouseMove_shown (h : Shown t) (m : Pointer) : Shown (mouseMove t m) := by
  have hflip := h.flip
  rw [mouseMove]
  split_ifs with hno
  · exact h
  · dsimp only
    split_ifs with hmoved
    · cases hin : t.pressIn with
      | true =>
          rw [hin] at hmoved hflip
          have hoff : decide (regionUnder t.scene.parser m = t.pressIdx) = false := by
            apply Bool.eq_false_iff.mpr
            exact fun htrue => hmoved htrue
          rw [hoff]
          exact shown_off hflip rfl h.nibbles
      | false =>
          rw [hin] at hmoved hflip
          have hon : decide (regionUnder t.scene.parser m = t.pressIdx) = true := by
            simpa using hmoved
          have hidx : t.pressIdx = regionUnder t.scene.parser m := (of_decide_eq_true hon).symm
          rw [hon]
          refine ⟨hflip, h.nibbles, fun _ => ?_⟩
          cases hunder : regionUnder t.scene.parser m with
          | none => exact absurd (.inr (hidx.trans hunder)) hno
          | some i =>
              refine ⟨i, hidx.trans hunder, ?_⟩
              change i < (t.scene.flip t.pressIdx).parser.buttons.length
              rw [Scene.flip_buttons]
              exact regionUnder_lt hunder
    · exact h.congr rfl rfl rfl rfl

theorem captureLost_shown (h : Shown t) : Shown (captureLost t) :=
  Shown.clear (t := { t with captured := false }) (h.congr rfl rfl rfl rfl)

theorem mouseUp_shown (h : Shown t) (m : Pointer) (starts : Bool) : Shown (mouseUp t m starts) := by
  have hafter : Shown (pressClear (if t.captured then captureLost t else t)) := by
    split_ifs
    · exact (captureLost_shown h).clear
    · exact h.clear
  rw [mouseUp]
  generalize pressClear (if t.captured then captureLost t else t) = after at hafter
  split
  · exact hafter
  · split_ifs
    · exact activateRegion_shown hafter _ _ _
    · exact hafter

theorem keyDown_shown (h : Shown t) (c : Nat) (starts : Bool) : Shown (keyDown t c starts) := by
  rw [keyDown]
  by_cases hno : ¬t.connected ∨ ¬t.telnet ∨ t.zmodemActive ∨ c = 0
  · rw [if_pos hno]
    exact h
  · rw [if_neg hno]
    split
    · exact hotkeyActivate_shown h _ _
    · split_ifs
      · exact sendRaw_shown h _
      · exact h

theorem flashTick_shown (h : Shown t) (starts : Bool) : Shown (flashTick t starts) := by
  have hover : Shown { pressClear t with flashIdx := none, flashCmd := [] } := h.clear.congr rfl rfl rfl rfl
  rw [flashTick]
  split
  · exact h.clear
  · split_ifs
    · exact h.clear.congr rfl rfl rfl rfl
    · exact sendFor_shown hover _ _ _ _

theorem step_shown (h : Shown t) (e : Event) : Shown (step T t e) := by
  cases e with
  | mouseDown m => exact mouseDown_shown h m
  | mouseMove m => exact mouseMove_shown h m
  | mouseUp m starts => exact mouseUp_shown h m starts
  | captureLost => exact captureLost_shown h
  | key c starts => exact keyDown_shown h c starts
  | flashTick starts => exact flashTick_shown h starts
  | data bytes starts => exact onData_shown T h bytes starts
  | zmrDone tail => exact onZmrDone_shown T h tail
  | connect opens => exact doConnect_shown h opens
  | connected => exact h.congr rfl rfl rfl rfl
  | closed => exact closeSession_shown h

theorem shown_start (cells : Int → Int → Nat) : Shown (start cells) := shown_off rfl rfl (init_nibbles cells)

end UnicornSuite.RipCanvas
