import UnicornSuite.MinitelExcursion
import UnicornSuite.MinitelResync

/-! REP shows the last character again. What it repeats was recorded when the character was shown
(`Replays`), and it is shown with the attributes and at the place of each repetition, as it would be if it
were sent again. -/

namespace UnicornSuite.Minitel

/-- The screen without its counters. -/
def uncounted (d : Screen) : Screen := { d with stats := {} }

/-- The counters of a screen, alone. -/
def Tally.counters (d : Screen) : Tally := ⟨d.stats, [], false, false⟩

theorem Tally.counters_add (d : Screen) : (counters d).add (uncounted d) = d := by
  simp [counters, add, uncounted, Stats.plus]

theorem uncounted_counters_add (d e : Screen) : uncounted ((Tally.counters d).add e) = uncounted e := by
  simp [Tally.counters, Tally.add, uncounted]

variable {f : Screen → Screen} {d e : Screen}

/-- What a screen shows does not depend on what it has counted. -/
theorem Blind.congr (hf : Blind f) (h : uncounted d = uncounted e) : uncounted (f d) = uncounted (f e) := by
  have hreduce : ∀ s, uncounted (f s) = uncounted (f (uncounted s)) := by
    intro s
    conv_lhs => rw [← Tally.counters_add s, hf, uncounted_counters_add]
  rw [hreduce d, h, ← hreduce e]

theorem Blind.iterate (hf : Blind f) (n : Nat) : Blind f^[n] := by
  intro k s
  induction n generalizing s with
  | zero => rfl
  | succ n ih => rw [Function.iterate_succ_apply, Function.iterate_succ_apply, hf, ih]

/-! ### Characters -/

/-- In a set, the character is shown, recorded and shown again by REP. -/
structure Replays (g1 : Bool) (act : Screen → Screen) (kind : LastKind) (code : Nat) : Prop where
  blind : Blind act
  last : ∀ d, d.a.g1 = g1 → (act d).lastKind = kind ∧ (act d).lastCode = code
  stays : ∀ d, d.a.g1 = g1 → (act d).a.g1 = g1
  again : ∀ d, d.a.g1 = g1 → d.lastKind = kind → d.lastCode = code →
    uncounted (repeatLast 1 d) = uncounted (act d)

theorem uncounted_last (h : uncounted d = uncounted e) :
    d.a.g1 = e.a.g1 ∧ d.lastKind = e.lastKind ∧ d.lastCode = e.lastCode :=
  ⟨congrArg (·.a.g1) h, congrArg (·.lastKind) h, congrArg (·.lastCode) h⟩

/-- Each repetition shows the character again, whatever the one before it has changed. -/
theorem Replays.repeat {g1 : Bool} {kind : LastKind} {code : Nat} (h : Replays g1 f kind code) (n : Nat)
    (hg1 : d.a.g1 = g1) (hkind : d.lastKind = kind) (hcode : d.lastCode = code) :
    uncounted (repeatLast n d) = uncounted (f^[n] d) := by
  induction n generalizing d with
  | zero => rfl
  | succ n ih =>
      have hone := h.again d hg1 hkind hcode
      obtain ⟨hg, hk, hc⟩ := uncounted_last hone
      have hlast := h.last d hg1
      calc uncounted (repeatLast (n + 1) d)
          = uncounted (repeatLast n (repeatLast 1 d)) := rfl
        _ = uncounted (f^[n] (repeatLast 1 d)) :=
            ih (hg.trans (h.stays d hg1)) (hk.trans hlast.1) (hc.trans hlast.2)
        _ = uncounted (f^[n] (f d)) := (h.blind.iterate n).congr hone
        _ = uncounted (f^[n + 1] d) := rfl

theorem putCell_a (d : Screen) (c : Cell) : (putCell d c).a = d.a := a_of_context (putCell_context d c)

theorem putMosaic_g1 (d : Screen) (bits : Nat) : (putMosaic d bits).a.g1 = d.a.g1 := by
  rw [putMosaic, putCell_a, validatePaper]
  split <;> rfl

theorem wrapPending_last (d : Screen) (dh : Bool) :
    (wrapPending d dh).lastKind = d.lastKind ∧ (wrapPending d dh).lastCode = d.lastCode := by
  simp only [wrapPending]
  by_cases hwrap : d.col > cols
  · rw [if_pos hwrap]
    by_cases hlast : d.row + (if dh = true then 2 else 1) > 24
    · rw [if_pos hlast]
      cases d.scroll <;> exact ⟨rfl, rfl⟩
    · rw [if_neg hlast]
      exact ⟨rfl, rfl⟩
  · rw [if_neg hwrap]
    exact ⟨rfl, rfl⟩

/-- The cell alone is no record. -/
theorem putCell_last (d : Screen) (c : Cell) :
    (putCell d c).lastKind = d.lastKind ∧ (putCell d c).lastCode = d.lastCode := by
  simp only [putCell]
  split
  · exact ⟨rfl, rfl⟩
  · split
    · exact wrapPending_last _ _
    · exact wrapPending_last _ _

theorem setLast_self {kind : LastKind} {code : Nat} (hkind : d.lastKind = kind)
    (hcode : d.lastCode = code) : setLast d kind code = d := by
  rw [← hkind, ← hcode]
  rfl

theorem putG1_replays (g1 : Bool) (b : Nat) : Replays g1 (putG1 · b) .g1 b where
  blind k s := Tally.putG1_add k s b
  last d _ := by
    simp only [putG1]
    split_ifs <;> exact ⟨rfl, rfl⟩
  stays d hg1 := by
    simp only [putG1]
    split_ifs <;> exact (putMosaic_g1 _ _).trans hg1
  again d _ hkind hcode := by
    simp only [repeatLast, hkind, hcode]

theorem putSpace_replays (g1 : Bool) : Replays g1 putSpace .g0 0x20 where
  blind := Tally.putSpace_add
  last d _ := by
    simp only [putSpace]
    split_ifs <;> exact ⟨rfl, rfl⟩
  stays d hg1 := by
    simp only [putSpace]
    split_ifs
    · exact (putMosaic_g1 _ _).trans hg1
    · exact (congrArg (·.g1) (putCell_a (clearPending d) _)).trans hg1
    · exact (congrArg (·.g1) (putCell_a d _)).trans hg1
  again d _ hkind hcode := by
    simp only [repeatLast, hkind, hcode, if_true]

theorem putGlyph_replays (g1 : Bool) (glyph : Nat) : Replays g1 (putGlyph · glyph) .glyph glyph where
  blind k s := Tally.putGlyph_add k s glyph
  last _ _ := ⟨rfl, rfl⟩
  stays d hg1 := (congrArg (·.g1) (putCell_a d _)).trans hg1
  again d _ hkind hcode := by
    simp only [repeatLast, hkind, hcode]

/-- A character of G0 other than the space. -/
theorem putG0_replays (g1 : Bool) {b : Nat} (hb : b ≠ 0x20) : Replays g1 (putG0 · b) .g0 b where
  blind k s := by
    simp only [putG0, if_neg hb, Tally.putCell_add, Tally.setLast_add, Tally.add_a]
  last d _ := by
    simp only [putG0, if_neg hb]
    exact ⟨rfl, rfl⟩
  stays d hg1 := by
    simp only [putG0, if_neg hb]
    exact (congrArg (·.g1) (putCell_a d _)).trans hg1
  again d _ hkind hcode := by
    obtain ⟨hk, hc⟩ := putCell_last d (alphaCell d.a b)
    have hrecord := setLast_self (hk.trans hkind) (hc.trans hcode)
    simp only [repeatLast, hkind, hcode, if_neg hb, putG0, hrecord]

/-- Another way to show the same character. -/
theorem Replays.of_eq {g1 : Bool} {kind : LastKind} {code : Nat} {g : Screen → Screen} (h : Replays g1 f kind code)
    (hblind : Blind g) (heq : ∀ d, d.a.g1 = g1 → uncounted (g d) = uncounted (f d)) :
    Replays g1 g kind code where
  blind := hblind
  last d hg1 := by
    obtain ⟨-, hk, hc⟩ := uncounted_last (heq d hg1)
    exact ⟨hk.trans (h.last d hg1).1, hc.trans (h.last d hg1).2⟩
  stays d hg1 := (uncounted_last (heq d hg1)).1.trans (h.stays d hg1)
  again d hg1 hkind hcode := (h.again d hg1 hkind hcode).trans (heq d hg1).symm

/-- A code is shown as the set in force has it. -/
theorem putPrintable_replays (g1 : Bool) (b : Nat) :
    ∃ kind code, Replays g1 (putPrintable · b) kind code := by
  have hblind : Blind (putPrintable · b) := fun k s => Tally.putPrintable_add k s b
  by_cases hdel : b = 0x7F
  · cases g1 with
    | true =>
        refine ⟨_, _, (putG1_replays true 0x5F).of_eq hblind fun d hg1 => ?_⟩
        rw [putPrintable, if_pos hdel, putDel, if_pos hg1]
    | false =>
        refine ⟨_, _, (putGlyph_replays false gFullblock).of_eq hblind fun d hg1 => ?_⟩
        rw [putPrintable, if_pos hdel, putDel, if_neg (by simp [hg1])]
  · by_cases hspace : b = 0x20
    · refine ⟨_, _, (putSpace_replays g1).of_eq hblind fun d _ => ?_⟩
      rw [putPrintable, if_neg hdel, if_pos hspace]
    · cases g1 with
      | true =>
          refine ⟨_, _, (putG1_replays true b).of_eq hblind fun d hg1 => ?_⟩
          rw [putPrintable, if_neg hdel, if_neg hspace, if_pos hg1]
      | false =>
          refine ⟨_, _, (putG0_replays false hspace).of_eq hblind fun d hg1 => ?_⟩
          rw [putPrintable, if_neg hdel, if_neg hspace, if_neg (by simp [hg1])]

/-- The error symbol is a full block. -/
theorem doSub_replays (g1 : Bool) : ∃ kind code, Replays g1 doSub kind code := by
  cases g1 with
  | true =>
      refine ⟨_, _, (putG1_replays true 0x5F).of_eq Tally.doSub_add fun d hg1 => ?_⟩
      rw [doSub, if_pos hg1]
      exact (putG1_replays true 0x5F).blind.congr rfl
  | false =>
      refine ⟨_, _, (putGlyph_replays false gFullblock).of_eq Tally.doSub_add fun d hg1 => ?_⟩
      rw [doSub, if_neg (by simp [hg1])]
      exact (putGlyph_replays false gFullblock).blind.congr rfl

/-- A code of G2; one without a glyph is a low bar. -/
def showG2 (b : Nat) : Screen → Screen :=
  match g2Glyph b with
  | some g => (putGlyph · g)
  | none => fun s => putGlyph (unrepresent s) gLowbar

theorem showG2_replays (g1 : Bool) (b : Nat) : ∃ kind code, Replays g1 (showG2 b) kind code := by
  unfold showG2
  split
  · next g _ => exact ⟨_, _, putGlyph_replays g1 g⟩
  · have hbar := putGlyph_replays g1 gLowbar
    refine ⟨_, _, hbar.of_eq (fun k s => ?_) fun d _ => hbar.blind.congr rfl⟩
    rw [Tally.unrepresent_add, Tally.putGlyph_add]

/-- A letter with its accent, or alone. -/
def showAccent (acc letter : Nat) : Screen → Screen :=
  match compose acc letter with
  | some g => (putGlyph · g)
  | none => (putPrintable · letter)

theorem showAccent_replays (g1 : Bool) (acc letter : Nat) :
    ∃ kind code, Replays g1 (showAccent acc letter) kind code := by
  unfold showAccent
  split
  · next g _ => exact ⟨_, _, putGlyph_replays g1 g⟩
  · exact putPrintable_replays g1 letter

/-! ### What a host sends -/

/-- A character of the set in force, SS2 with a character or with an accent and a letter, and SUB. -/
inductive Displayable where
  | char (b : UInt8)
  | g2 (b : UInt8)
  | accent (acc letter : UInt8)
  | sub

namespace Displayable

def bytes : Displayable → List UInt8
  | .char b => [b]
  | .g2 b => [0x19, b]
  | .accent acc letter => [0x19, acc, letter]
  | .sub => [0x1A]

/-- None of the characters is a control code, and the accents are those of G2. -/
def Valid : Displayable → Prop
  | .char b => 0x20 ≤ b.toNat % 128
  | .g2 b => 0x20 ≤ b.toNat % 128 ∧ isAccent (b.toNat % 128) = false
  | .accent acc letter => isAccent (acc.toNat % 128) = true ∧ 0x20 ≤ letter.toNat % 128
  | .sub => True

/-- With G1 in force SS2 is ignored, and an accent with its letter would be two mosaics. -/
def Whole (g1 : Bool) : Displayable → Prop
  | .accent _ _ => g1 = false
  | _ => True

/-- What is shown of it. -/
def act (g1 : Bool) : Displayable → Screen → Screen
  | .char b => (putPrintable · (b.toNat % 128))
  | .g2 b => if g1 then (putPrintable · (b.toNat % 128)) else showG2 (b.toNat % 128)
  | .accent acc letter => showAccent (acc.toNat % 128) (letter.toNat % 128)
  | .sub => doSub

theorem act_replays (u : Displayable) (g1 : Bool) : ∃ kind code, Replays g1 (u.act g1) kind code := by
  cases u with
  | char b => exact putPrintable_replays g1 _
  | g2 b =>
      cases g1 with
      | true => exact putPrintable_replays true _
      | false => exact showG2_replays false _
  | accent acc letter => exact showAccent_replays g1 _ _
  | sub => exact doSub_replays g1

end Displayable

variable {D : Decoder}

/-- A byte that is no control code, outside of transparency. -/
theorem feedOne_printable (hst : ¬ Transparent D.st) {b : UInt8} (hb : 0x20 ≤ b.toNat % 128) :
    feedOne D b = feedCode (onScreen D (countByte b)) (b.toNat % 128) := by
  rw [feedOne_outside hst, if_neg (by omega), begun_printable D hb]

/-- A control code in the ground state. -/
theorem feedOne_ground (hst : D.st = .ground) {b : UInt8} (hb : b.toNat % 128 < 0x20)
    (hnul : b.toNat % 128 ≠ 0) :
    feedOne D b = doC0 (onScreen D (countByte b)) (b.toNat % 128) := by
  have hopen : ¬ Transparent D.st := by
    rw [hst]
    decide
  have hbegun : begun D b = onScreen D (countByte b) := if_neg fun hno => hno.2 hst
  rw [feedOne_control D hopen hb hnul, hbegun]

theorem feedOne_char (hst : D.st = .ground) {b : UInt8} (hb : 0x20 ≤ b.toNat % 128) :
    feedOne D b = onScreen (onScreen D (countByte b)) (putPrintable · (b.toNat % 128)) := by
  have hground : (onScreen D (countByte b)).st = .ground := hst
  rw [feedOne_printable (by rw [hst]; decide) hb, feedCode, hground]
  exact if_neg (by omega)

theorem feedOne_ss2 (hst : D.st = .ss2) {b : UInt8} (hb : 0x20 ≤ b.toNat % 128)
    (hacc : isAccent (b.toNat % 128) = false) :
    feedOne D b =
      onScreen (setSt (onScreen D (countByte b)) .ground) (showG2 (b.toNat % 128)) := by
  have hss2 : (onScreen D (countByte b)).st = .ss2 := hst
  rw [feedOne_printable (by rw [hst]; decide) hb, feedCode, hss2]
  simp only [ss2Code, showG2, hacc, Bool.false_eq_true, if_false]
  cases g2Glyph (b.toNat % 128) <;> rfl

theorem feedOne_ss2_accent (hst : D.st = .ss2) {b : UInt8} (hb : 0x20 ≤ b.toNat % 128)
    (hacc : isAccent (b.toNat % 128) = true) :
    feedOne D b = { setSt (onScreen D (countByte b)) .ss2Acc with acc := b.toNat % 128 } := by
  have hss2 : (onScreen D (countByte b)).st = .ss2 := hst
  rw [feedOne_printable (by rw [hst]; decide) hb, feedCode, hss2]
  exact if_pos hacc

theorem feedOne_letter (hst : D.st = .ss2Acc) {b : UInt8} (hb : 0x20 ≤ b.toNat % 128) :
    feedOne D b =
      onScreen (setSt (onScreen D (countByte b)) .ground) (showAccent D.acc (b.toNat % 128)) := by
  have hss2Acc : (onScreen D (countByte b)).st = .ss2Acc := hst
  have hacc : (onScreen D (countByte b)).acc = D.acc := rfl
  rw [feedOne_printable (by rw [hst]; decide) hb, feedCode, hss2Acc]
  simp only [ss2AccCode, showAccent, hacc]
  cases compose D.acc (b.toNat % 128) <;> rfl

theorem uncounted_countByte (b : UInt8) (d : Screen) : uncounted (countByte b d) = uncounted d := rfl

theorem accent_printable {c : Nat} (hacc : isAccent c = true) : 0x20 ≤ c := by
  simp only [isAccent, decide_eq_true_eq] at hacc
  omega

/-- SS2 with an accent and a letter, where SS2 is not ignored. -/
theorem feed_accent (hss2 : feedOne D 0x19 = setSt (onScreen D (countByte 0x19)) .ss2)
    {acc letter : UInt8} (hacc : isAccent (acc.toNat % 128) = true)
    (hletter : 0x20 ≤ letter.toNat % 128) :
    (feed D [0x19, acc, letter]).st = .ground ∧
      uncounted (feed D [0x19, acc, letter]).scr =
        uncounted (showAccent (acc.toNat % 128) (letter.toNat % 128) D.scr) := by
  have hfeed : feed D [0x19, acc, letter] = feedOne (feedOne (feedOne D 0x19) acc) letter := rfl
  have hsecond := feedOne_ss2_accent (D := feedOne D 0x19) (by rw [hss2]; rfl)
    (accent_printable hacc) hacc
  have hthird := feedOne_letter (D := feedOne (feedOne D 0x19) acc) (by rw [hsecond]; rfl) hletter
  have hheld : (feedOne (feedOne D 0x19) acc).acc = acc.toNat % 128 := by rw [hsecond]
  have hsame : uncounted (feedOne (feedOne D 0x19) acc).scr = uncounted D.scr := by
    rw [hsecond, hss2]
    rfl
  rw [hheld] at hthird
  obtain ⟨kind, code, hreplays⟩ :=
    showAccent_replays false (acc.toNat % 128) (letter.toNat % 128)
  rw [hfeed, hthird]
  exact ⟨rfl, hreplays.blind.congr hsame⟩

/-- A unit sent in the ground state is shown, and the ground state is back. -/
theorem feed_bytes (u : Displayable) (hst : D.st = .ground) (hvalid : u.Valid)
    (hwhole : u.Whole D.scr.a.g1) :
    (feed D u.bytes).st = .ground ∧
      uncounted (feed D u.bytes).scr = uncounted (u.act D.scr.a.g1 D.scr) := by
  obtain ⟨kind, code, hreplays⟩ := u.act_replays D.scr.a.g1
  have hblind := hreplays.blind
  cases u with
  | char b =>
      have hfeed : feed D (Displayable.char b).bytes = feedOne D b := rfl
      rw [hfeed, feedOne_char hst hvalid]
      exact ⟨hst, hblind.congr (uncounted_countByte b D.scr)⟩
  | g2 b =>
      have hfeed : feed D (Displayable.g2 b).bytes = feedOne (feedOne D 0x19) b := rfl
      have hfirst := feedOne_ground hst (b := 0x19) (by decide) (by decide)
      cases hg1 : D.scr.a.g1 with
      | true =>
          have hignored : feedOne D 0x19 = onScreen D (countByte 0x19) := hfirst.trans (if_pos hg1)
          rw [hfeed, feedOne_char (by rw [hignored]; exact hst) hvalid.1, hignored]
          rw [hg1] at hblind
          exact ⟨hst, hblind.congr rfl⟩
      | false =>
          have hss2 : feedOne D 0x19 = setSt (onScreen D (countByte 0x19)) .ss2 :=
            hfirst.trans (if_neg (by simp [onScreen, countByte, hg1]))
          rw [hfeed, feedOne_ss2 (by rw [hss2]; rfl) hvalid.1 hvalid.2, hss2]
          rw [hg1] at hblind
          exact ⟨rfl, hblind.congr rfl⟩
  | accent acc letter =>
      have hg1 : D.scr.a.g1 = false := hwhole
      have hss2 : feedOne D 0x19 = setSt (onScreen D (countByte 0x19)) .ss2 :=
        (feedOne_ground hst (b := 0x19) (by decide) (by decide)).trans
          (if_neg (by simp [onScreen, countByte, hg1]))
      exact feed_accent (D := D) hss2 hvalid.1 hvalid.2
  | sub =>
      have hfeed : feed D Displayable.sub.bytes = feedOne D 0x1A := rfl
      rw [hfeed, feedOne_ground hst (by decide) (by decide)]
      exact ⟨hst, hblind.congr (uncounted_countByte 0x1A D.scr)⟩

/-- Every copy is shown with what the ones before it have left. -/
theorem feed_copies (u : Displayable) (hst : D.st = .ground) (hvalid : u.Valid)
    (hwhole : u.Whole D.scr.a.g1) (n : Nat) :
    (feed D (List.replicate n u.bytes).flatten).st = .ground ∧
      uncounted (feed D (List.replicate n u.bytes).flatten).scr =
        uncounted ((u.act D.scr.a.g1)^[n] D.scr) := by
  induction n generalizing D with
  | zero => exact ⟨hst, rfl⟩
  | succ n ih =>
      obtain ⟨hground, hshown⟩ := feed_bytes u hst hvalid hwhole
      obtain ⟨kind, code, hreplays⟩ := u.act_replays D.scr.a.g1
      have hg1 : (feed D u.bytes).scr.a.g1 = D.scr.a.g1 :=
        (uncounted_last hshown).1.trans (hreplays.stays _ rfl)
      have hrest := ih (D := feed D u.bytes) hground (hg1 ▸ hwhole)
      rw [hg1] at hrest
      have hfeed : feed D (List.replicate (n + 1) u.bytes).flatten =
          feed (feed D u.bytes) (List.replicate n u.bytes).flatten := by
        rw [List.replicate_succ, List.flatten_cons]
        exact List.foldl_append
      rw [hfeed]
      exact ⟨hrest.1, hrest.2.trans ((hreplays.blind.iterate n).congr hshown)⟩

/-- The byte of a count. -/
def repCount (n : Nat) : UInt8 := UInt8.ofNat (0x40 + n)

theorem repCount_code {n : Nat} (hn : n ≤ 63) : (repCount n).toNat % 128 = 0x40 + n := by
  rw [repCount, UInt8.toNat_ofNat']
  omega

theorem feed_rep (hst : D.st = .ground) {n : Nat} (hn : n ≤ 63) :
    (feed D [0x12, repCount n]).st = .ground ∧
      uncounted (feed D [0x12, repCount n]).scr = uncounted (repeatLast n D.scr) := by
  have hcode := repCount_code hn
  have hfeed : feed D [0x12, repCount n] = feedOne (feedOne D 0x12) (repCount n) := rfl
  have hfirst : feedOne D 0x12 = setSt (onScreen D (countByte 0x12)) .rep :=
    feedOne_ground hst (by decide) (by decide)
  have hrep : (onScreen (feedOne D 0x12) (countByte (repCount n))).st = .rep := by
    rw [hfirst]
    rfl
  have hcount : (0x40 + n) % 64 = n := by omega
  have hblind : Blind (repeatLast n) := fun k s => Tally.repeatLast_add k s n
  have hopen : ¬ Transparent (feedOne D 0x12).st := by
    rw [hfirst]
    change ¬ Transparent .rep
    decide
  rw [hfeed, feedOne_printable hopen (by omega), feedCode, hrep, hcode]
  simp only [if_neg (by omega : ¬ 0x40 + n < 0x40), hcount]
  refine ⟨rfl, hblind.congr ?_⟩
  rw [hfirst]
  rfl

/-- From every ground state: a character or an error symbol, and REP with a count, leave the screen of the
character sent that many times more, the counters apart. -/
theorem repeat_literal (D : Decoder) (hst : D.st = .ground) (u : Displayable) (hvalid : u.Valid)
    (hwhole : u.Whole D.scr.a.g1) (n : Nat) (hn : n ≤ 63) :
    let once := feed D (u.bytes ++ [0x12, repCount n])
    let many := feed D (List.replicate (n + 1) u.bytes).flatten
    once.st = .ground ∧ many.st = .ground ∧ uncounted once.scr = uncounted many.scr := by
  obtain ⟨hground, hshown⟩ := feed_bytes u hst hvalid hwhole
  obtain ⟨hmany, hcopies⟩ := feed_copies u hst hvalid hwhole (n + 1)
  obtain ⟨honce, hrepeated⟩ := feed_rep hground hn
  obtain ⟨kind, code, hreplays⟩ := u.act_replays D.scr.a.g1
  obtain ⟨hg1, hkind, hcode⟩ := uncounted_last hshown
  have hlast := hreplays.last D.scr rfl
  have hfeed : feed D (u.bytes ++ [0x12, repCount n]) = feed (feed D u.bytes) [0x12, repCount n] :=
    List.foldl_append
  intro once many
  refine ⟨(congrArg Decoder.st hfeed).trans honce, hmany, ?_⟩
  calc uncounted once.scr
      = uncounted (repeatLast n (feed D u.bytes).scr) := (congrArg (uncounted ·.scr) hfeed).trans hrepeated
    _ = uncounted ((u.act D.scr.a.g1)^[n] (feed D u.bytes).scr) :=
        hreplays.repeat n (hg1.trans (hreplays.stays _ rfl)) (hkind.trans hlast.1) (hcode.trans hlast.2)
    _ = uncounted ((u.act D.scr.a.g1)^[n + 1] D.scr) := (hreplays.blind.iterate n).congr hshown
    _ = uncounted many.scr := hcopies.symm

/-- The delimiter of a blue paper, and two plain spaces behind it. -/
theorem repeat_literal_delimiter :
    uncounted (feed (feed reset [0x1B, 0x54]) ([0x20] ++ [0x12, repCount 2])).scr =
      uncounted (feed (feed reset [0x1B, 0x54]) [0x20, 0x20, 0x20]).scr :=
  (repeat_literal (feed reset [0x1B, 0x54]) rfl (.char 0x20)
    (by decide : 0x20 ≤ (0x20 : UInt8).toNat % 128) trivial 2 (by decide)).2.2

/-- In G1 the accent and the letter are two mosaics, of which REP repeats the second. -/
theorem repeat_literal_g1 :
    (feed reset [0x0E]).st = .ground ∧ (Displayable.accent 0x41 0x65).Valid ∧
      (feed (feed reset [0x0E]) ((Displayable.accent 0x41 0x65).bytes ++ [0x12, repCount 1])).scr.col = 4 ∧
      (feed (feed reset [0x0E])
        (List.replicate 2 (Displayable.accent 0x41 0x65).bytes).flatten).scr.col = 5 := by
  refine ⟨rfl, ⟨by decide, by decide⟩, ?_, ?_⟩ <;> decide

end UnicornSuite.Minitel
