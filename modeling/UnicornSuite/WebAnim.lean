import UnicornSuite.LibCInt
import UnicornSuite.LibCountdown

/-! Animated images (`web_module.c`): what `decode_image_into_block` leaves of an image with several frames,
the tick that counts its delays down, and the three walks over a document that fetch the images, look for an
animated one and tick. The decoder of the pictures itself is not part of the module; it gives the frames,
some of which may be missing, the delays in hundredths of a second and the loop count. -/

namespace UnicornSuite.Web

open CInt

/-- The `img_` fields of a block that play the frames; a handle of `img_frames` may be null. -/
structure Anim where
  frames : List (Option Nat) := []
  delaysMs : List Nat := []
  loopCount : Nat := 0
  hbm : Option Nat := none
  currentFrame : Nat := 0
  msUntilNext : Int := 0
  loopsDone : Int := 0
  animDone : Bool := false

/-- A delay of the file in hundredths of a second, 100 ms at least. -/
def delayMs (delay : Fin 65536) : Nat := if delay.val * 10 < 100 then 100 else delay.val * 10

/-- What the decoder of `decode_image_into_block` leaves, the first frame being there. The file has its
delays and its loop count in sixteen bits. -/
def decode (frames : List (Option Nat)) (delays : List (Fin 65536)) (loopCount : Fin 65536) : Anim :=
  if frames.length > 1 then
    let delaysMs := (List.range frames.length).map fun i => ((delays[i]?).map delayMs).getD 0
    { frames, delaysMs, loopCount := loopCount.val
      hbm := frames.headD none
      msUntilNext := if delaysMs.headD 0 > 0 then delaysMs.headD 0 else 100 }
  else { frames, delaysMs := frames.map fun _ => 0, hbm := frames.headD none }

/-- The delay that the tick counts down for a frame. -/
def Anim.delay (b : Anim) (i : Nat) : Nat := if b.delaysMs.getD i 0 < 1 then 100 else b.delaysMs.getD i 0

/-- The frame comes onto the screen, if it is there. -/
def Anim.showFrame (b : Anim) (next : Nat) : Anim :=
  { b with
    currentFrame := next
    hbm := (b.frames.getD next none).or b.hbm
    msUntilNext := b.msUntilNext + b.delay next }

/-- The loop of `web_anim_tick_blocks`, with a bound on its rounds. -/
def Anim.advance : Nat → Anim → Anim
  | 0, b => b
  | fuel + 1, b =>
      if b.msUntilNext ≤ 0 ∧ b.animDone = false then
        if b.currentFrame + 1 ≥ b.frames.length then
          let b := { b with loopsDone := wrap32 (b.loopsDone + 1) }
          if b.loopCount > 0 ∧ b.loopsDone ≥ b.loopCount then { b with animDone := true }
          else advance fuel (b.showFrame 0)
        else advance fuel (b.showFrame (b.currentFrame + 1))
      else b

/-- The tick of one image. -/
def Anim.tick (elapsedMs : Nat) (b : Anim) : Anim :=
  if b.frames.length > 1 ∧ b.animDone = false then
    Anim.advance ((elapsedMs - b.msUntilNext).toNat + 1)
      { b with msUntilNext := b.msUntilNext - elapsedMs }
  else b

/-! ### Walks over a document -/

/-- A block, as far as the walks look at it: the runs of a text with their inline images, an image, the
cells of a table by rows. -/
inductive AnimBlock where
  | text (runs : List (Option Anim))
  | img (image : Anim)
  | table (rows : List (List (List AnimBlock)))

mutual

/-- `fetch_images_for_block`, `load` being what is done with an image. -/
def fetchBlock (load : Anim → Anim) : AnimBlock → AnimBlock
  | .text runs => .text (runs.map (Option.map load))
  | .img image => .img (load image)
  | .table rows => .table (fetchRows load rows)

def fetchRows (load : Anim → Anim) : List (List (List AnimBlock)) → List (List (List AnimBlock))
  | [] => []
  | cells :: rows => fetchCells load cells :: fetchRows load rows

def fetchCells (load : Anim → Anim) : List (List AnimBlock) → List (List AnimBlock)
  | [] => []
  | inner :: cells => fetchBlocks load inner :: fetchCells load cells

def fetchBlocks (load : Anim → Anim) : List AnimBlock → List AnimBlock
  | [] => []
  | b :: blocks => fetchBlock load b :: fetchBlocks load blocks

end

mutual

/-- `web_anim_tick_blocks`, for one block. -/
def tickBlock (elapsedMs : Nat) : AnimBlock → AnimBlock
  | .text runs => .text runs
  | .img image => .img (image.tick elapsedMs)
  | .table rows => .table (tickRows elapsedMs rows)

def tickRows (elapsedMs : Nat) : List (List (List AnimBlock)) → List (List (List AnimBlock))
  | [] => []
  | cells :: rows => tickCells elapsedMs cells :: tickRows elapsedMs rows

def tickCells (elapsedMs : Nat) : List (List AnimBlock) → List (List AnimBlock)
  | [] => []
  | inner :: cells => tickBlocks elapsedMs inner :: tickCells elapsedMs cells

def tickBlocks (elapsedMs : Nat) : List AnimBlock → List AnimBlock
  | [] => []
  | b :: blocks => tickBlock elapsedMs b :: tickBlocks elapsedMs blocks

end

mutual

/-- `web_anim_has_in_blocks`, for one block. -/
def hasInBlock : AnimBlock → Bool
  | .text _ => false
  | .img image => decide (image.frames.length > 1)
  | .table rows => hasInRows rows

def hasInRows : List (List (List AnimBlock)) → Bool
  | [] => false
  | cells :: rows => hasInCells cells || hasInRows rows

def hasInCells : List (List AnimBlock) → Bool
  | [] => false
  | inner :: cells => hasInBlocks inner || hasInCells cells

def hasInBlocks : List AnimBlock → Bool
  | [] => false
  | b :: blocks => hasInBlock b || hasInBlocks blocks

end

/-! ### The frames in their order -/

/-- The delay of the `j`-th frame that is shown, the frames of all rounds counted. -/
def Anim.dur (b : Anim) (j : Nat) : Nat := b.delay (j % b.frames.length)

/-- The last frame that is shown, where the file has a loop count. -/
def Anim.last (b : Anim) : Option Nat :=
  if b.loopCount > 0 then some (b.loopCount * b.frames.length - 1) else none

/-- What is on the screen with the `j`-th frame: one that is missing leaves the one before. -/
def Anim.onScreen (b : Anim) : Nat → Option Nat
  | 0 => b.hbm
  | j + 1 => (b.frames.getD ((j + 1) % b.frames.length) none).or (b.onScreen j)

/-- The image where a countdown over its frames stands. -/
def Anim.playAt (b : Anim) (s : Countdown.State) : Anim :=
  { b with
    hbm := b.onScreen s.index
    currentFrame := s.index % b.frames.length
    msUntilNext := s.left
    loopsDone := if s.ended then b.loopCount else wrap32 (s.index / b.frames.length : Nat)
    animDone := s.ended }

theorem Anim.delay_pos (b : Anim) (i : Nat) : 0 < b.delay i := by
  rw [delay]
  split <;> omega

theorem Anim.dur_pos (b : Anim) (j : Nat) : 0 < b.dur j := b.delay_pos _

theorem wrap32_add_one (v : Int) : wrap32 (wrap32 v + 1) = wrap32 (v + 1) := Int.bmod_add_bmod

/-- The count of rounds is exact as long as it is compared. -/
theorem wrap32_rounds {n k : Nat} (hn : n ≤ 65535) (hk : k ≤ n) : wrap32 (k : Int) = k := by
  apply wrap32_of_fits
  simp only [Fits32, minInt32, maxInt32]
  omega

section Rounds

variable {n j : Nat}

theorem div_succ_of_last (hn : 0 < n) (h : j % n + 1 = n) : (j + 1) / n = j / n + 1 ∧ (j + 1) % n = 0 := by
  have hj : j + 1 = n * (j / n + 1) := by
    have hdiv := Nat.div_add_mod j n
    rw [Nat.mul_add]
    omega
  rw [hj]
  exact ⟨Nat.mul_div_cancel_left _ hn, Nat.mul_mod_right _ _⟩

theorem div_succ_of_lt (h : j % n + 1 < n) : (j + 1) / n = j / n ∧ (j + 1) % n = j % n + 1 := by
  have hdiv := Nat.div_add_mod j n
  have hj : j + 1 = n * (j / n) + (j % n + 1) := by omega
  constructor
  · rw [hj, Nat.mul_add_div (by omega), Nat.div_eq_of_lt h]
    exact Nat.add_zero _
  · rw [hj, Nat.mul_add_mod, Nat.mod_eq_of_lt h]

end Rounds

/-- The next frame is that of the next step of the countdown. -/
theorem Anim.showFrame_playAt (b : Anim) {s : Countdown.State} (hrun : s.ended = false) :
    Anim.showFrame
        { b.playAt s with loopsDone := wrap32 ((s.index + 1) / b.frames.length : Nat) }
        ((s.index + 1) % b.frames.length) =
      b.playAt { s with index := s.index + 1, left := s.left + b.dur (s.index + 1) } := by
  simp only [showFrame, playAt, hrun, onScreen, dur, delay, Bool.false_eq_true, if_false]

/-- The round ends with the last frame if it is the last round. -/
theorem Anim.last_iff {b : Anim} (hframes : 1 < b.frames.length) (hloops : b.loopCount ≤ 65535) {j : Nat}
    (hlast : ∀ l ∈ b.last, j ≤ l) (hend : j % b.frames.length + 1 = b.frames.length) :
    b.loopCount > 0 ∧ wrap32 ((j / b.frames.length : Nat) + 1 : Int) ≥ b.loopCount ↔ b.last = some j := by
  have hn : 0 < b.frames.length := by omega
  have hdiv : (j + 1) / b.frames.length = j / b.frames.length + 1 := (div_succ_of_last hn hend).1
  have hexact : j + 1 = (j / b.frames.length + 1) * b.frames.length := by
    have hmod := Nat.div_add_mod (j + 1) b.frames.length
    rw [(div_succ_of_last hn hend).2, hdiv, Nat.add_zero, Nat.mul_comm] at hmod
    exact hmod.symm
  rw [Anim.last] at hlast ⊢
  split at hlast
  · next hpos =>
      have hprod : 0 < b.loopCount * b.frames.length := Nat.mul_pos hpos hn
      have hle : j + 1 ≤ b.loopCount * b.frames.length := by
        have hmax := hlast _ rfl
        omega
      have hrounds : j / b.frames.length + 1 ≤ b.loopCount := by
        rw [hexact] at hle
        exact Nat.le_of_mul_le_mul_right hle hn
      have hwrap : wrap32 ((j / b.frames.length : Nat) + 1 : Int) = (j / b.frames.length + 1 : Nat) := by
        have hcount := wrap32_rounds hloops hrounds
        exact_mod_cast hcount
      rw [if_pos hpos, hwrap, Option.some_inj]
      constructor
      · rintro ⟨-, hge⟩
        have heq : j / b.frames.length + 1 = b.loopCount := by omega
        rw [← heq, ← hexact]
        exact Nat.add_sub_cancel j 1
      · intro heq
        have heq' : (j / b.frames.length + 1) * b.frames.length = b.loopCount * b.frames.length := by omega
        have hcount := Nat.eq_of_mul_eq_mul_right hn heq'
        exact ⟨hpos, by omega⟩
  · next hno =>
      rw [if_neg hno]
      exact iff_of_false (fun h => hno h.1) fun h => nomatch h

/-- Behind the last frame as many rounds are done as the file asks for. -/
theorem Anim.rounds_of_last {b : Anim} (hframes : 1 < b.frames.length) (hloops : b.loopCount ≤ 65535)
    {j : Nat} (h : b.last = some j) :
    wrap32 ((j / b.frames.length : Nat) + 1 : Int) = b.loopCount := by
  rw [Anim.last] at h
  split at h
  · next hpos =>
      have hprod : 0 < b.loopCount * b.frames.length := Nat.mul_pos hpos (by omega)
      have hj := Option.some_inj.mp h
      have hdiv : j / b.frames.length + 1 = b.loopCount := by
        have hexact : j = b.frames.length * (b.loopCount - 1) + (b.frames.length - 1) := by
          have hmul : b.frames.length * (b.loopCount - 1) + b.frames.length =
              b.loopCount * b.frames.length := by
            rw [← Nat.mul_succ, Nat.succ_eq_add_one, Nat.sub_add_cancel hpos, Nat.mul_comm]
          omega
        rw [hexact, Nat.mul_add_div (by omega), Nat.div_eq_of_lt (by omega)]
        omega
      have hcount : ((j / b.frames.length : Nat) + 1 : Int) = b.loopCount := by
        rw [← hdiv]
        exact (Nat.cast_succ _).symm
      rw [hcount]
      exact wrap32_rounds hloops (Nat.le_refl _)
  · cases h

/-- Only the last frame of a round can be the last one. -/
theorem Anim.last_ne {b : Anim} {j : Nat} (hlt : j % b.frames.length + 1 < b.frames.length) :
    b.last ≠ some j := by
  intro h
  rw [Anim.last] at h
  split at h
  · next hpos =>
      have hprod : 0 < b.loopCount * b.frames.length := Nat.mul_pos hpos (by omega)
      have hj : j + 1 = b.loopCount * b.frames.length := by
        have heq := Option.some_inj.mp h
        omega
      have hmod : (j + 1) % b.frames.length = 0 := by
        rw [hj]
        exact Nat.mul_mod_left _ _
      rw [(div_succ_of_lt hlt).2] at hmod
      omega
  · cases h

theorem Anim.advance_of_ended (dur : Nat → Nat) (last : Option Nat) (fuel : Nat) {s : Countdown.State}
    (h : s.ended = true) : Countdown.advance dur last fuel s = s := by
  cases fuel with
  | zero => rfl
  | succ fuel =>
      rw [Countdown.advance]
      apply if_neg
      rintro ⟨-, hrun⟩
      rw [h] at hrun
      cases hrun

/-- The loop of the tick is the countdown over the frames. -/
theorem Anim.advance_playAt {b : Anim} (hframes : 1 < b.frames.length) (hloops : b.loopCount ≤ 65535)
    (fuel : Nat) {s : Countdown.State} (hrun : s.ended = false) (hlast : ∀ l ∈ b.last, s.index ≤ l) :
    Anim.advance fuel (b.playAt s) = b.playAt (Countdown.advance b.dur b.last fuel s) := by
  induction fuel generalizing s with
  | zero => rfl
  | succ fuel ih =>
      rw [Anim.advance, Countdown.advance]
      by_cases hover : s.left ≤ 0
      · have hcond : (b.playAt s).msUntilNext ≤ 0 ∧ (b.playAt s).animDone = false := ⟨hover, hrun⟩
        have hcond' : s.left ≤ 0 ∧ s.ended = false := ⟨hover, hrun⟩
        rw [if_pos hcond, if_pos hcond']
        have hmod : s.index % b.frames.length < b.frames.length := Nat.mod_lt _ (by omega)
        have hshow := Anim.showFrame_playAt b hrun
        have hnext : b.last ≠ some s.index →
            Anim.advance fuel
                (b.playAt { s with index := s.index + 1, left := s.left + b.dur (s.index + 1) }) =
              b.playAt (Countdown.advance b.dur b.last fuel
                { s with index := s.index + 1, left := s.left + b.dur (s.index + 1) }) := by
          intro hne
          apply ih
          · exact hrun
          · intro l hl
            have hle := hlast l hl
            have hneq : s.index ≠ l := by
              rintro rfl
              exact hne hl
            dsimp only
            omega
        by_cases hend : s.index % b.frames.length + 1 = b.frames.length
        · have hround : (b.playAt s).currentFrame + 1 ≥ (b.playAt s).frames.length := Nat.le_of_eq hend.symm
          have hiff := Anim.last_iff hframes hloops hlast hend
          obtain ⟨hdiv, hzero⟩ := div_succ_of_last (by omega) hend
          have hdone : wrap32 ((b.playAt s).loopsDone + 1) =
              wrap32 ((s.index / b.frames.length : Nat) + 1 : Int) := by
            simp only [playAt, hrun, Bool.false_eq_true, if_false]
            exact wrap32_add_one _
          rw [hzero, hdiv, Nat.cast_add, Nat.cast_one] at hshow
          rw [if_pos hround]
          dsimp only
          rw [hdone]
          have hiff' : ((b.playAt s).loopCount > 0 ∧ wrap32 ((s.index / b.frames.length : Nat) + 1 : Int) ≥
              (b.playAt s).loopCount) ↔ b.last = some s.index := hiff
          by_cases hstop : b.last = some s.index
          · have hstill : Countdown.advance b.dur b.last fuel { s with ended := true } =
                { s with ended := true } := Anim.advance_of_ended _ _ _ rfl
            rw [if_pos (hiff'.mpr hstop), if_pos hstop, hstill, Anim.rounds_of_last hframes hloops hstop]
            simp only [playAt, if_true]
          · rw [if_neg fun h => hstop (hiff'.mp h), if_neg hstop, ← hnext hstop, ← hshow]
        · have hround : ¬(b.playAt s).currentFrame + 1 ≥ (b.playAt s).frames.length := by
            simp only [playAt]
            omega
          obtain ⟨hdiv, hsucc⟩ := div_succ_of_lt (n := b.frames.length) (j := s.index) (by omega)
          have hstop : b.last ≠ some s.index := Anim.last_ne (by omega)
          rw [hsucc, hdiv] at hshow
          rw [if_neg hround, if_neg hstop, ← hnext hstop, ← hshow]
          simp only [playAt, hrun, Bool.false_eq_true, if_false]
      · have hcond : ¬((b.playAt s).msUntilNext ≤ 0 ∧ (b.playAt s).animDone = false) := fun h => hover h.1
        rw [if_neg hcond, if_neg fun h => hover h.1]

theorem Anim.tick_playAt {b : Anim} (hframes : 1 < b.frames.length) (hloops : b.loopCount ≤ 65535)
    {s : Countdown.State} (hlast : ∀ l ∈ b.last, s.index ≤ l) (a : Nat) :
    (b.playAt s).tick a = b.playAt (Countdown.tick b.dur b.last a s) := by
  rw [Anim.tick, Countdown.tick]
  by_cases hend : s.ended = true
  · rw [if_pos hend]
    apply if_neg
    rintro ⟨-, hrun⟩
    have hdone : (b.playAt s).animDone = true := hend
    rw [hdone] at hrun
    cases hrun
  · have hrun : s.ended = false := Bool.eq_false_of_not_eq_true hend
    have hcond : (b.playAt s).frames.length > 1 ∧ (b.playAt s).animDone = false := ⟨hframes, hrun⟩
    rw [if_pos hcond, if_neg hend]
    exact Anim.advance_playAt hframes hloops _ (s := { s with left := s.left - a }) hrun hlast

/-- After ticks of any lengths the image stands where a countdown over its frames stands. -/
theorem Anim.ticks_playAt {b : Anim} (hframes : 1 < b.frames.length) (hloops : b.loopCount ≤ 65535)
    {t : Nat} {s : Countdown.State} (h : Countdown.At b.dur b.last t s) (as : List Nat) :
    as.foldl (fun b a => b.tick a) (b.playAt s) =
      b.playAt (as.foldl (fun s a => Countdown.tick b.dur b.last a s) s) := by
  induction as generalizing t s with
  | nil => rfl
  | cons a as ih =>
      rw [List.foldl_cons, List.foldl_cons, Anim.tick_playAt hframes hloops h.due.le_last]
      exact ih (Countdown.at_tick b.dur_pos h a)

/-- An image that was just decoded stands at its first frame. -/
theorem decode_eq_playAt {frames : List (Option Nat)} (hframes : 1 < frames.length)
    (delays : List (Fin 65536)) (loopCount : Fin 65536) :
    decode frames delays loopCount =
      (decode frames delays loopCount).playAt (Countdown.init (decode frames delays loopCount).dur) := by
  have hms : (decode frames delays loopCount).msUntilNext = (decode frames delays loopCount).dur 0 := by
    rw [Anim.dur, Nat.zero_mod, Anim.delay, decode, if_pos hframes]
    dsimp only
    rw [List.headD_eq_head?_getD, List.head?_eq_getElem?, ← List.getD_eq_getElem?_getD]
    split_ifs <;> omega
  have hrest : (decode frames delays loopCount).currentFrame = 0 ∧
      (decode frames delays loopCount).loopsDone = 0 ∧ (decode frames delays loopCount).animDone = false := by
    rw [decode, if_pos hframes]
    exact ⟨rfl, rfl, rfl⟩
  obtain ⟨hframe, hloops, hdone⟩ := hrest
  have hwrap : wrap32 ((0 : Nat) : Int) = 0 := by decide
  cases hb : decode frames delays loopCount with
  | mk frames' delaysMs' loopCount' hbm' currentFrame' msUntilNext' loopsDone' animDone' =>
      rw [hb] at hms hframe hloops hdone
      simp only at hms hframe hloops hdone
      subst hframe hloops hdone
      simp only [Anim.playAt, Countdown.init, Anim.onScreen, Nat.zero_mod, Nat.zero_div, hwrap,
        Bool.false_eq_true, if_false, Anim.mk.injEq, true_and, and_true]
      exact hms

/-! ### What an image shows -/

/-- What an image that was decoded as `b₀` shows after a time: frame `j` of those that the delays make
due, with what is left of its delay and the rounds that are done. With a loop count it ends when its rounds
are over, and stands still on its last frame. -/
structure ShownAt (b₀ : Anim) (t : Nat) (b : Anim) : Prop where
  frame : ∃ j, Countdown.Due b₀.dur b₀.last t j ∧ b.currentFrame = j % b₀.frames.length ∧
    ((∀ f ∈ b₀.frames, f ≠ none) → b.hbm = b₀.frames.getD (j % b₀.frames.length) none) ∧
    (b.animDone = false → b.msUntilNext = Countdown.start b₀.dur (j + 1) - t ∧ 0 < b.msUntilNext ∧
      b.loopsDone = wrap32 (j / b₀.frames.length : Nat))
  ends : b.animDone = true ↔ 0 < b₀.loopCount ∧ b₀.loopCount * Countdown.start b₀.dur b₀.frames.length ≤ t
  final : b.animDone = true →
    b.currentFrame + 1 = b₀.frames.length ∧ b.loopsDone = b₀.loopCount ∧ ∀ a, b.tick a = b

theorem Anim.onScreen_eq {b : Anim} (hframes : 1 < b.frames.length) (hfirst : b.hbm = b.frames.getD 0 none)
    (hall : ∀ f ∈ b.frames, f ≠ none) (j : Nat) :
    b.onScreen j = b.frames.getD (j % b.frames.length) none := by
  cases j with
  | zero =>
      rw [Nat.zero_mod]
      exact hfirst
  | succ j =>
      have hlt : (j + 1) % b.frames.length < b.frames.length := Nat.mod_lt _ (by omega)
      have hget : b.frames.getD ((j + 1) % b.frames.length) none = b.frames[(j + 1) % b.frames.length] := by
        rw [List.getD_eq_getElem?_getD, List.getElem?_eq_getElem hlt, Option.getD_some]
      have hsome := hall _ (List.getElem_mem hlt)
      rw [onScreen, hget]
      cases hframe : b.frames[(j + 1) % b.frames.length] with
      | none => exact absurd hframe hsome
      | some h => rfl

theorem Anim.last_eq_some {b : Anim} (hframes : 1 < b.frames.length) {j : Nat} :
    b.last = some j ↔ 0 < b.loopCount ∧ j + 1 = b.loopCount * b.frames.length := by
  rw [Anim.last]
  split
  · next hpos =>
      have hprod : 0 < b.loopCount * b.frames.length := Nat.mul_pos hpos (by omega)
      rw [Option.some_inj]
      omega
  · next hno => exact iff_of_false (fun h => nomatch h) fun h => hno h.1

theorem Anim.start_rounds (b : Anim) :
    Countdown.start b.dur (b.loopCount * b.frames.length) =
      b.loopCount * Countdown.start b.dur b.frames.length := by
  apply Countdown.start_mul
  intro j
  rw [dur, dur, Nat.add_mod_right]

theorem Anim.shownAt_playAt {b : Anim} (hframes : 1 < b.frames.length) (hloops : b.loopCount ≤ 65535)
    (hfirst : b.hbm = b.frames.getD 0 none) {t : Nat} {s : Countdown.State}
    (h : Countdown.At b.dur b.last t s) : ShownAt b t (b.playAt s) := by
  refine ⟨⟨s.index, h.due, rfl, fun hall => Anim.onScreen_eq hframes hfirst hall s.index, ?_⟩, ?_, ?_⟩
  · intro hrun
    have hrun' : s.ended = false := hrun
    refine ⟨h.left hrun', h.left_pos hrun', ?_⟩
    simp only [playAt, hrun', Bool.false_eq_true, if_false]
  · have hended : (b.playAt s).animDone = true ↔ s.ended = true := Iff.rfl
    rw [hended, h.ended, Anim.last_eq_some hframes, ← Anim.start_rounds]
    constructor
    · rintro ⟨⟨hpos, hj⟩, hover⟩
      rw [hj] at hover
      exact ⟨hpos, hover⟩
    · rintro ⟨hpos, hover⟩
      -- The last step is the one that goes on: it is over, and none behind it is due.
      have hlast : b.last = some s.index := by
        rcases h.due.lt_start with htime | hlast
        · have hprod : 0 < b.loopCount * b.frames.length := Nat.mul_pos hpos (by omega)
          have hle := h.due.le_last (b.loopCount * b.frames.length - 1)
            (Anim.last_eq_some hframes |>.mpr ⟨hpos, by omega⟩)
          have hmono : Countdown.start b.dur (s.index + 1) ≤
              Countdown.start b.dur (b.loopCount * b.frames.length) := Countdown.start_mono (by omega)
          omega
        · exact hlast
      obtain ⟨-, hj⟩ := (Anim.last_eq_some hframes).mp hlast
      exact ⟨⟨hpos, hj⟩, hj ▸ hover⟩
  · intro hend
    have hend' : s.ended = true := hend
    obtain ⟨hlast, -⟩ := h.ended.mp hend'
    refine ⟨?_, ?_, fun a => ?_⟩
    · obtain ⟨hpos, hj⟩ := (Anim.last_eq_some hframes).mp hlast
      by_contra hne
      have hlt : s.index % b.frames.length + 1 < b.frames.length := by
        have hmod : s.index % b.frames.length < b.frames.length := Nat.mod_lt _ (by omega)
        have hne' : s.index % b.frames.length + 1 ≠ b.frames.length := hne
        omega
      exact Anim.last_ne hlt hlast
    · simp only [playAt, hend', if_true]
    · rw [Anim.tick_playAt hframes hloops h.due.le_last, Countdown.tick_of_ended hend']

/-! ### Ticks and their sums -/

/-- Two images show the same: the frame, the rounds and whether it is over, and, unless it is over, what
is left of the delay. -/
structure SameFrame (b b' : Anim) : Prop where
  frame : b.currentFrame = b'.currentFrame ∧ b.hbm = b'.hbm
  rounds : b.loopsDone = b'.loopsDone ∧ b.animDone = b'.animDone
  left : b.animDone = false → b.msUntilNext = b'.msUntilNext

theorem Anim.sameFrame_playAt {b : Anim} {t : Nat} {s s' : Countdown.State} (h : Countdown.At b.dur b.last t s)
    (h' : Countdown.At b.dur b.last t s') : SameFrame (b.playAt s) (b.playAt s') := by
  have hindex := h.index_eq h'
  have hended := h.ended_eq h'
  refine ⟨⟨?_, ?_⟩, ⟨?_, hended⟩, fun hrun => h.left_eq h' hrun⟩
  · simp only [playAt, hindex]
  · simp only [playAt, hindex]
  · simp only [playAt, hindex, hended]

/-! ### The images of a document -/

mutual

/-- The images of a block that are blocks themselves, at any depth of table. -/
def blockImages : AnimBlock → List Anim
  | .text _ => []
  | .img image => [image]
  | .table rows => rowsImages rows

def rowsImages : List (List (List AnimBlock)) → List Anim
  | [] => []
  | cells :: rows => cellsImages cells ++ rowsImages rows

def cellsImages : List (List AnimBlock) → List Anim
  | [] => []
  | inner :: cells => imagesOf inner ++ cellsImages cells

def imagesOf : List AnimBlock → List Anim
  | [] => []
  | b :: blocks => blockImages b ++ imagesOf blocks

end

section Walks

variable (load : Anim → Anim) (elapsedMs : Nat)

mutual

theorem blockImages_fetchBlock : ∀ b, blockImages (fetchBlock load b) = (blockImages b).map load
  | .text _ => rfl
  | .img _ => rfl
  | .table rows => by
      rw [fetchBlock, blockImages, blockImages]
      exact rowsImages_fetchRows rows

theorem rowsImages_fetchRows : ∀ rows, rowsImages (fetchRows load rows) = (rowsImages rows).map load
  | [] => rfl
  | cells :: rows => by
      rw [fetchRows, rowsImages, rowsImages, List.map_append, cellsImages_fetchCells cells,
        rowsImages_fetchRows rows]

theorem cellsImages_fetchCells : ∀ cells, cellsImages (fetchCells load cells) = (cellsImages cells).map load
  | [] => rfl
  | inner :: cells => by
      rw [fetchCells, cellsImages, cellsImages, List.map_append, imagesOf_fetchBlocks inner,
        cellsImages_fetchCells cells]

theorem imagesOf_fetchBlocks : ∀ blocks, imagesOf (fetchBlocks load blocks) = (imagesOf blocks).map load
  | [] => rfl
  | b :: blocks => by
      rw [fetchBlocks, imagesOf, imagesOf, List.map_append, blockImages_fetchBlock b,
        imagesOf_fetchBlocks blocks]

end

mutual

theorem blockImages_tickBlock :
    ∀ b, blockImages (tickBlock elapsedMs b) = (blockImages b).map (Anim.tick elapsedMs)
  | .text _ => rfl
  | .img _ => rfl
  | .table rows => by
      rw [tickBlock, blockImages, blockImages]
      exact rowsImages_tickRows rows

theorem rowsImages_tickRows :
    ∀ rows, rowsImages (tickRows elapsedMs rows) = (rowsImages rows).map (Anim.tick elapsedMs)
  | [] => rfl
  | cells :: rows => by
      rw [tickRows, rowsImages, rowsImages, List.map_append, cellsImages_tickCells cells,
        rowsImages_tickRows rows]

theorem cellsImages_tickCells :
    ∀ cells, cellsImages (tickCells elapsedMs cells) = (cellsImages cells).map (Anim.tick elapsedMs)
  | [] => rfl
  | inner :: cells => by
      rw [tickCells, cellsImages, cellsImages, List.map_append, imagesOf_tickBlocks inner,
        cellsImages_tickCells cells]

theorem imagesOf_tickBlocks :
    ∀ blocks, imagesOf (tickBlocks elapsedMs blocks) = (imagesOf blocks).map (Anim.tick elapsedMs)
  | [] => rfl
  | b :: blocks => by
      rw [tickBlocks, imagesOf, imagesOf, List.map_append, blockImages_tickBlock b,
        imagesOf_tickBlocks blocks]

end

mutual

theorem hasInBlock_eq : ∀ b, hasInBlock b = (blockImages b).any fun i => decide (i.frames.length > 1)
  | .text _ => rfl
  | .img _ => by
      rw [hasInBlock, blockImages, List.any_cons, List.any_nil, Bool.or_false]
  | .table rows => by
      rw [hasInBlock, blockImages]
      exact hasInRows_eq rows

theorem hasInRows_eq : ∀ rows, hasInRows rows = (rowsImages rows).any fun i => decide (i.frames.length > 1)
  | [] => rfl
  | cells :: rows => by
      rw [hasInRows, rowsImages, List.any_append, hasInCells_eq cells, hasInRows_eq rows]

theorem hasInCells_eq :
    ∀ cells, hasInCells cells = (cellsImages cells).any fun i => decide (i.frames.length > 1)
  | [] => rfl
  | inner :: cells => by
      rw [hasInCells, cellsImages, List.any_append, hasInBlocks_eq inner, hasInCells_eq cells]

theorem hasInBlocks_eq :
    ∀ blocks, hasInBlocks blocks = (imagesOf blocks).any fun i => decide (i.frames.length > 1)
  | [] => rfl
  | b :: blocks => by
      rw [hasInBlocks, imagesOf, List.any_append, hasInBlock_eq b, hasInBlocks_eq blocks]

end

end Walks

/-- Ticks reach every image that is a block. -/
theorem imagesOf_ticks (as : List Nat) (doc : List AnimBlock) :
    imagesOf (as.foldl (fun doc a => tickBlocks a doc) doc) =
      (imagesOf doc).map fun b => as.foldl (fun b a => b.tick a) b := by
  induction as generalizing doc with
  | nil => exact (List.map_id _).symm
  | cons a as ih =>
      rw [List.foldl_cons, ih, imagesOf_tickBlocks, List.map_map]
      rfl

section Decoded

variable {frames : List (Option Nat)} (hframes : 1 < frames.length) (delays : List (Fin 65536))
  (loopCount : Fin 65536)

include hframes

/-- The state after ticks of any lengths. -/
theorem ticks_decode (as : List Nat) :
    ∃ s, as.foldl (fun b a => b.tick a) (decode frames delays loopCount) =
        (decode frames delays loopCount).playAt s ∧
      Countdown.At (decode frames delays loopCount).dur (decode frames delays loopCount).last as.sum s := by
  have hfields : 1 < (decode frames delays loopCount).frames.length ∧
      (decode frames delays loopCount).loopCount ≤ 65535 := by
    rw [decode, if_pos hframes]
    exact ⟨hframes, Nat.le_of_lt_succ loopCount.isLt⟩
  have hstart : Countdown.At (decode frames delays loopCount).dur (decode frames delays loopCount).last 0
      (Countdown.init (decode frames delays loopCount).dur) :=
    Countdown.at_init ((decode frames delays loopCount).dur_pos 0)
  have hticks := Countdown.at_ticks (decode frames delays loopCount).dur_pos hstart as
  rw [Nat.zero_add] at hticks
  refine ⟨_, ?_, hticks⟩
  rw [← Anim.ticks_playAt hfields.1 hfields.2 hstart as, ← decode_eq_playAt hframes]

theorem shownAt_decode (as : List Nat) :
    ShownAt (decode frames delays loopCount) as.sum
      (as.foldl (fun b a => b.tick a) (decode frames delays loopCount)) := by
  obtain ⟨s, heq, hat⟩ := ticks_decode hframes delays loopCount as
  rw [heq]
  apply Anim.shownAt_playAt _ _ _ hat
  · rw [decode, if_pos hframes]
    exact hframes
  · rw [decode, if_pos hframes]
    exact Nat.le_of_lt_succ loopCount.isLt
  · rw [decode, if_pos hframes]
    dsimp only
    rw [List.headD_eq_head?_getD, List.head?_eq_getElem?, ← List.getD_eq_getElem?_getD]

/-- Ticks with one total leave the same. -/
theorem same_of_sum {as as' : List Nat} (hsum : as.sum = as'.sum) :
    SameFrame (as.foldl (fun b a => b.tick a) (decode frames delays loopCount))
      (as'.foldl (fun b a => b.tick a) (decode frames delays loopCount)) := by
  obtain ⟨s, heq, hat⟩ := ticks_decode hframes delays loopCount as
  obtain ⟨s', heq', hat'⟩ := ticks_decode hframes delays loopCount as'
  rw [heq, heq']
  exact Anim.sameFrame_playAt hat (hsum ▸ hat')

end Decoded

/-- Every image of several frames shows, after ticks of any lengths, what its delays and its loop count
prescribe for their sum; a tick of `a + c` leaves what a tick of `a` and one of `c` leave; and the ticks
reach every image that is a block, at any depth of table, as the fetch does, and the test finds out
whether there is one to play. -/
theorem playback :
    (∀ frames delays loopCount (as : List Nat), 1 < frames.length →
      ShownAt (decode frames delays loopCount) as.sum
        (as.foldl (fun b a => b.tick a) (decode frames delays loopCount))) ∧
    (∀ frames delays loopCount (as : List Nat) a c, 1 < frames.length →
      SameFrame ((as.foldl (fun b a => b.tick a) (decode frames delays loopCount)).tick (a + c))
        (((as.foldl (fun b a => b.tick a) (decode frames delays loopCount)).tick a).tick c)) ∧
    (∀ load (as : List Nat) doc,
      imagesOf (as.foldl (fun doc a => tickBlocks a doc) (fetchBlocks load doc)) =
        (imagesOf doc).map fun b => as.foldl (fun b a => b.tick a) (load b)) ∧
    ∀ doc, hasInBlocks doc = true ↔ ∃ b ∈ imagesOf doc, 1 < b.frames.length := by
  refine ⟨fun frames delays loopCount as h => shownAt_decode h delays loopCount as, ?_, ?_, ?_⟩
  · intro frames delays loopCount as a c h
    have hsum : (as ++ [a + c]).sum = (as ++ [a, c]).sum := by simp
    have hsame := same_of_sum h delays loopCount hsum
    rw [List.foldl_append, List.foldl_append] at hsame
    exact hsame
  · intro load as doc
    rw [imagesOf_ticks, imagesOf_fetchBlocks, List.map_map]
    rfl
  · intro doc
    rw [hasInBlocks_eq, List.any_eq_true]
    simp only [decide_eq_true_eq, gt_iff_lt]

/-- An image that flows with a text is fetched and not played; and of an animation that is over the sum of
two ticks leaves another remaining time than the two ticks. -/
theorem playback_limits :
    tickBlocks 100 (fetchBlocks (fun _ => decode [some 1, some 2] [10, 10] 0) [.text [some {}]]) =
        fetchBlocks (fun _ => decode [some 1, some 2] [10, 10] 0) [.text [some {}]] ∧
      ((decode [some 1, some 2] [10, 10] 0).tick 100).currentFrame ≠
        (decode [some 1, some 2] [10, 10] 0).currentFrame ∧
      ((decode [some 1, some 2] [10, 10] 1).tick (200 + 50)).msUntilNext ≠
        (((decode [some 1, some 2] [10, 10] 1).tick 200).tick 50).msUntilNext := by
  refine ⟨rfl, by decide, by decide⟩

end UnicornSuite.Web
