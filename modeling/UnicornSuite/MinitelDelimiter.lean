import Mathlib.Tactic.IntervalCases
import UnicornSuite.MinitelExcursion
import UnicornSuite.MinitelMarks

/-! The law of the delimiter. Every byte of a stream leaves its marks (`byteMarks`), and does with the latent
serial context what the marks say (`feedOne_held`); so that a space of G0 is stored as a delimiter exactly
where the marks of the stream say that something is due. -/

namespace UnicornSuite.Minitel

variable {d : Screen}

/-! ### The cell that is written -/

/-- The cell of the character that has led from one screen to the other. -/
def written (d d' : Screen) : Cell :=
  if d.inRow0 then d'.mem.cell 0 (if d.col > cols then cols else d.col)
  else d'.mem.cell d'.row (d'.col - 1)

/-- The upper half of a character is in another row. -/
theorem putPart_top (d : Screen) (c : Cell) (size : Size) (right : Bool) (g : Grid Cell) (j : Int) :
    (putPart d c size true right g).cell d.row j = g.cell d.row j := by
  have hrow : ¬ (if true = true then d.row - 1 else d.row) = d.row := by
    rw [if_pos rfl]
    omega
  exact ((Grid.SameOn.refl (· = d.row) g).put (fun h => hrow h) _ _) d.row j rfl

theorem placeCell_bottom (d : Screen) (c : Cell) (size : Size) (j : Int) :
    (placeCell d c size).mem.cell d.row j =
      (if size.dw then putPart d c size false true (putPart d c size false false d.mem)
        else putPart d c size false false d.mem).cell d.row j := by
  unfold placeCell
  cases size.dh with
  | false => rfl
  | true =>
      cases size.dw with
      | false => exact putPart_top d c size false _ j
      | true => exact (putPart_top d c size true _ j).trans (putPart_top d c size false _ j)

/-- The lower half, where it is written. -/
theorem putPart_bottom (h : d.Ok) (hcol : d.col ≤ cols) (c : Cell) (size : Size) {right : Bool}
    (hright : right = true → d.col < cols) (g : Grid Cell) :
    (putPart d c size false right g).cell d.row (if right then d.col + 1 else d.col) =
      { c with size := { dw := size.dw, dh := size.dh, right := right, top := false } } := by
  have hcols : cols = 40 := rfl
  have hrow := h.row
  have hleft := h.col
  have hm : page.Mem d.row (if right = true then d.col + 1 else d.col) := by
    simp only [Region.Mem]
    split_ifs with hr
    · have := hright hr
      omega
    · omega
  have hsame : (if false = true then d.row - 1 else d.row) = d.row := rfl
  rw [putPart, hsame, Grid.put, if_pos hm]
  exact if_pos ⟨rfl, rfl⟩

theorem placeCell_written (h : d.Ok) (hcol : d.col ≤ cols) {c : Cell} {size : Size}
    (hfits : Fits d c size) :
    ∃ s, (placeCell d c size).mem.cell d.row ((placeCell d c size).col - 1) = { c with size := s } := by
  have hend : (placeCell d c size).col = d.col + (if size.dw then 2 else 1) := rfl
  have hlast : (placeCell d c size).col - 1 = if size.dw then d.col + 1 else d.col := by
    rw [hend]
    split_ifs <;> omega
  refine ⟨{ dw := size.dw, dh := size.dh, right := size.dw, top := false }, ?_⟩
  rw [placeCell_bottom, hlast]
  cases hdw : size.dw with
  | false =>
      have hcell := @putPart_bottom d h hcol c size false nofun d.mem
      rw [hdw] at hcell
      exact hcell
  | true =>
      have hcell := @putPart_bottom d h hcol c size true (fun _ => (hfits.dw hdw).2)
        (putPart d c size false false d.mem)
      rw [hdw] at hcell
      exact hcell

/-- The cell that is written is the one that was to be, in the size there was room for. -/
theorem putCell_written (h : d.Ok) (c : Cell) : ∃ s, written d (putCell d c) = { c with size := s } := by
  have hcols : cols = 40 := rfl
  have hcol := h.col
  have hm := markEver_ok h
  cases hin : d.inRow0 with
  | true =>
      have hput : putCell d c = putRow0 (markEver d) c := if_pos hin
      have hmem : page.Mem 0 (if d.col > cols then cols else d.col) := by
        simp only [Region.Mem]
        split_ifs <;> omega
      refine ⟨{}, ?_⟩
      have hcell : (d.mem.put page 0 (if d.col > cols then cols else d.col) { c with size := {} }).cell 0
          (if d.col > cols then cols else d.col) = { c with size := {} } := by
        rw [Grid.put, if_pos hmem]
        exact if_pos ⟨rfl, rfl⟩
      rw [written, if_pos hin, hput]
      exact hcell
  | false =>
      have hin' : (markEver d).inRow0 = false := hin
      have hw := wrapPending_ok hm hin' c.size.dh
      have hopen := wrapPending_col_le (markEver d) c.size.dh
      rw [written, if_neg (by simp [hin])]
      simp only [putCell]
      rw [if_neg (by simp [hin'])]
      generalize wrapPending (markEver d) c.size.dh = w at hw hopen
      have hfits := fitSize_fits hopen c
      split
      · exact placeCell_written (openColumn_ok hw hopen) hopen ⟨hfits.dw, hfits.dh⟩
      · exact placeCell_written hw hopen hfits

/-! ### Marks -/

def spaceMarks (d : Screen) : List Mark :=
  if d.a.g1 then [.mosaic] else [.space (written d (putSpace d))]

def printableMarks (d : Screen) (b : Nat) : List Mark :=
  if b = 0x20 then spaceMarks d else if d.a.g1 then [.mosaic] else []

def onceMarks (d : Screen) : List Mark :=
  match d.lastKind with
  | .g0 => if d.lastCode = 0x20 then spaceMarks d else []
  | .g1 => [.mosaic]
  | .glyph | .none => []

def repeatMarks : Nat → Screen → List Mark
  | 0, _ => []
  | n + 1, d => onceMarks d ++ repeatMarks n (repeatLast 1 d)

def attributeMarks (d : Screen) (x : Nat) : List Mark :=
  if 0x50 ≤ x ∧ x ≤ 0x57 then [.paper (x - 0x50)]
  else
    match x with
    | 0x58 => [.masking true]
    | 0x5F => [.masking false]
    | 0x59 => if d.a.g1 then [] else [.lining false]
    | 0x5A => if d.a.g1 then [] else [.lining true]
    | _ => []

def usMarks (d : Screen) (r c : Nat) : List Mark :=
  if r < 0x40 ∨ c < 0x40 then []
  else if r - 0x40 > 24 ∨ c - 0x40 < 1 ∨ c - 0x40 > 40 then []
  else if r - 0x40 = 0 ∧ d.inRow0 = false then [.enter]
  else [.separator]

/-- PRO1 RESET. -/
def proMarks (q : ProSeq) : List Mark :=
  if q.proN = 1 ∧ q.pro.cell 0 0 = 0x7F then [.separator] else []

def c0Marks (d : Screen) (b : Nat) : List Mark :=
  match b with
  | 0x0A => if d.inRow0 then [.back] else []
  | 0x0C => [.separator]
  | 0x0E => [.shift]
  | 0x1A => if d.a.g1 then [.mosaic] else []
  | 0x1E => [.separator]
  | _ => []

def codeMarks (D : Decoder) (b : Nat) : List Mark :=
  match D.st with
  | .ground => if b < 0x20 then c0Marks D.scr b else printableMarks D.scr b
  | .esc => if 0x40 ≤ b ∧ b ≤ 0x5F then attributeMarks D.scr b else []
  | .us2 => usMarks D.scr D.usR b
  | .rep => if b < 0x40 then [] else repeatMarks (b % 64) D.scr
  | .ss2Acc => if compose D.acc b = none then printableMarks D.scr b else []
  | .pro => if (proStore D.pro b).proLeft ≤ 0 then proMarks (proStore D.pro b) else []
  | _ => []

/-- The marks of a byte, which in transparency and as padding leaves none. -/
def byteMarks (D : Decoder) (b : UInt8) : List Mark :=
  if Transparent D.st ∨ b.toNat % 128 = 0 then [] else codeMarks (begun D b) (b.toNat % 128)

def history (D : Decoder) : List UInt8 → List Mark
  | [] => []
  | b :: buf => byteMarks D b ++ history (feedOne D b) buf

/-! ### What the marks say is what is done -/

/-- The latent context, and the one that waits. -/
def held (d : Screen) : Latent × Latent := (d.a.latent, d.svA.latent)

/-- The marks lead from one screen to the other. -/
def Marked (d : Screen) (ms : List Mark) (d' : Screen) : Prop := held d' = Machine.run suspend (held d) ms

theorem Marked.of_context {d' : Screen} (h : d'.context = d.context) : Marked d [] d' := by
  have ha := a_of_context h
  have hsaved := congrArg (·.2.2) (saved_of_side (side_of_context h))
  exact Prod.ext (congrArg Attr.latent ha) (congrArg Attr.latent hsaved)

theorem Marked.trans {d' d'' : Screen} {ms ms' : List Mark} (h : Marked d ms d') (h' : Marked d' ms' d'') :
    Marked d (ms ++ ms') d'' := by
  rw [Marked, h', h, Machine.run_append]

/-- The attributes alone, where nothing waits anew. -/
theorem Marked.of_latent {d' : Screen} {ms : List Mark} (hsaved : d'.saved = d.saved)
    (h : Machine.run suspend (held d) ms = (d'.a.latent, d.svA.latent)) : Marked d ms d' := by
  have hwaits : d'.svA = d.svA := congrArg (·.2.2) hsaved
  rw [Marked, h, held, hwaits]

theorem validatePaper_latent (d : Screen) : (validatePaper d).a.latent = d.a.latent.step .mosaic := by
  unfold validatePaper
  split
  · next h => exact (if_pos h).symm
  · next h => exact (if_neg h).symm

theorem putMosaic_marked (d : Screen) (bits : Nat) : Marked d [.mosaic] (putMosaic d bits) := by
  refine .of_latent (saved_of_side (putMosaic_side d bits)) ?_
  have ha : (putMosaic d bits).a = (validatePaper d).a := a_of_context (putCell_context _ _)
  rw [ha, validatePaper_latent]
  rfl

theorem putG1_marked (d : Screen) (b : Nat) : Marked d [.mosaic] (putG1 d b) := by
  simp only [putG1]
  split_ifs
  · exact putMosaic_marked d _
  · exact putMosaic_marked (unrepresent d) _
  · exact putMosaic_marked d _

theorem putGlyph_marked (d : Screen) (glyph : Nat) : Marked d [] (putGlyph d glyph) :=
  .of_context (putCell_context d _)

/-- A space is stored as a delimiter exactly where something is pending. -/
theorem putSpace_written (h : d.Ok) (hg1 : d.a.g1 = false) :
    ∃ s, written d (putSpace d) =
      { (if d.a.sPending then delimCell d.a else spaceCell d.a) with size := s } := by
  have hout : ¬ d.a.g1 = true := by simp [hg1]
  rw [putSpace, if_neg hout]
  cases hpending : d.a.sPending with
  | true => exact putCell_written (clearPending_ok h) (delimCell d.a)
  | false => exact putCell_written h (spaceCell d.a)

theorem putSpace_marked (h : d.Ok) : Marked d (spaceMarks d) (putSpace d) := by
  rw [spaceMarks]
  cases hg1 : d.a.g1 with
  | true =>
      rw [putSpace, if_pos hg1]
      exact putMosaic_marked d 0
  | false =>
      have hout : ¬ d.a.g1 = true := by simp [hg1]
      obtain ⟨s, hcell⟩ := putSpace_written h hg1
      refine .of_latent (saved_of_side (putSpace_side d)) ?_
      rw [if_neg Bool.false_ne_true, hcell]
      cases hpending : d.a.sPending with
      | true =>
          have ha : (putSpace d).a = (clearPending d).a := by
            rw [putSpace, if_neg hout, if_pos hpending]
            exact a_of_context (putCell_context _ _)
          rw [ha]
          rfl
      | false =>
          have ha : (putSpace d).a = d.a := by
            rw [putSpace, if_neg hout, if_neg (by simp [hpending])]
            exact a_of_context (putCell_context _ _)
          rw [ha]
          rfl

theorem putPrintable_marked (h : d.Ok) (b : Nat) : Marked d (printableMarks d b) (putPrintable d b) := by
  simp only [printableMarks, putPrintable, putDel, putG0]
  by_cases hspace : b = 0x20
  · rw [if_pos hspace, if_neg (by omega), if_pos hspace]
    exact putSpace_marked h
  · rw [if_neg hspace, if_neg hspace, if_neg hspace]
    cases hg1 : d.a.g1 with
    | true =>
        simp only [if_true]
        split <;> exact putG1_marked d _
    | false =>
        simp only [Bool.false_eq_true, if_false]
        split
        · exact putGlyph_marked d _
        · exact .of_context (putCell_context d _)

theorem repeatLast_marked (h : d.Ok) (n : Nat) : Marked d (repeatMarks n d) (repeatLast n d) := by
  induction n generalizing d with
  | zero => exact .of_context rfl
  | succ n ih =>
      have hone : Marked d (onceMarks d) (repeatLast 1 d) := by
        simp only [repeatLast, onceMarks]
        cases d.lastKind with
        | g0 =>
            dsimp only
            split
            · exact putSpace_marked h
            · exact .of_context (putCell_context d _)
        | g1 => exact putG1_marked d _
        | glyph => exact putGlyph_marked d _
        | none => exact .of_context rfl
      exact hone.trans (ih (repeatLast_ok h 1))

theorem doSub_marked (d : Screen) :
    Marked d (if d.a.g1 then [.mosaic] else []) (doSub d) := by
  let e : Screen := { d with stats.errors := d.stats.errors + 1 }
  have hsub : doSub d = if d.a.g1 then putG1 e 0x5F else putGlyph e gFullblock := rfl
  rw [hsub]
  split
  · exact putG1_marked e 0x5F
  · exact putGlyph_marked e gFullblock

theorem serialDef_paper (a : Attr) : (serialDef a false).latent = { a.latent with pending := true } := by
  simp [serialDef, Attr.latent]

theorem serialDef_zone (a : Attr) :
    (serialDef a true).latent = { a.latent with pending := true, other := true } := by
  simp [serialDef, Attr.latent]

theorem doAttribute_marked (d : Screen) (x : Nat) : Marked d (attributeMarks d x) (doAttribute d x) := by
  refine .of_latent (saved_of_side (doAttribute_side d x)) ?_
  unfold doAttribute
  split
  · next hfg =>
      have hnone : attributeMarks d x = [] := by
        obtain ⟨hlo, hhi⟩ := hfg
        interval_cases x <;> rfl
      rw [hnone]
      rfl
  · split
    · next hpaper =>
        unfold attributeMarks
        rw [if_pos hpaper]
        exact Prod.ext (serialDef_paper { d.a with sBg := x - 0x50 }).symm rfl
    · split
      · rfl
      · rfl
      · split <;> rfl
      · split <;> rfl
      · split <;> rfl
      · split <;> rfl
      · exact Prod.ext (serialDef_zone { d.a with sMask := true }).symm rfl
      · exact Prod.ext (serialDef_zone { d.a with sMask := false }).symm rfl
      · have hmarks : attributeMarks d 0x59 = if d.a.g1 then [] else [.lining false] := rfl
        rw [hmarks]
        split
        · rfl
        · exact Prod.ext (serialDef_zone { d.a with sUl := false }).symm rfl
      · have hmarks : attributeMarks d 0x5A = if d.a.g1 then [] else [.lining true] := rfl
        rw [hmarks]
        split
        · rfl
        · exact Prod.ext (serialDef_zone { d.a with sUl := true }).symm rfl
      · split <;> rfl
      · split <;> rfl
      · have hnone : attributeMarks d x = [] := by
          unfold attributeMarks
          rw [if_neg ‹_›]
          split <;> first | rfl | exact absurd rfl ‹_›
        rw [hnone]
        rfl

theorem doUs_marked (d : Screen) (r c : Nat) : Marked d (usMarks d r c) (doUs d r c) := by
  unfold doUs usMarks
  split
  · exact .of_context rfl
  · split
    · exact .of_context rfl
    · cases hin : d.inRow0 with
      | true =>
          rw [if_neg (by simp), enterRow0, if_pos hin]
          split <;> rfl
      | false =>
          simp only [and_true]
          split
          · rw [enterRow0, if_neg (by simp [hin])]
            rfl
          · rfl

theorem doPro_marked (d : Screen) (q : ProSeq) : Marked d (proMarks q) (doPro d q) := by
  unfold proMarks
  split
  · next hreset =>
      have hpro : doPro d q = proReset (protocol d) := by
        rw [doPro, if_pos hreset.1, hreset.2]
        rfl
      rw [hpro]
      rfl
  · next hno =>
      refine .of_context ?_
      unfold doPro
      split_ifs
      · rfl
      · exact absurd ⟨‹_›, ‹_›⟩ hno
      all_goals rfl

theorem doLf_marked (d : Screen) : Marked d (if d.inRow0 then [.back] else []) (doLf d) := by
  cases hin : d.inRow0 with
  | true =>
      rw [doLf_row0 d hin]
      rfl
  | false => exact .of_context (doLf_context d hin)

variable {D : Decoder}

theorem doC0_marked (D : Decoder) (b : Nat) : Marked D.scr (c0Marks D.scr b) (doC0 D b).scr := by
  unfold doC0
  split
  · rfl
  · exact .of_context (doBs_context _)
  · exact .of_context (doHt_context _)
  · exact doLf_marked _
  · exact .of_context (doVt_context _)
  · rfl
  · rfl
  · rfl
  · rfl
  · rfl
  · rfl
  · rfl
  · rfl
  · rfl
  · split <;> rfl
  · exact doSub_marked _
  · rfl
  · rfl
  · rfl
  · rfl
  · have hnone : c0Marks D.scr b = [] := by
      unfold c0Marks
      split <;> first | rfl | exact absurd rfl ‹_›
    rw [hnone]
    rfl

theorem escCode_marked (D : Decoder) (b : Nat) :
    Marked D.scr (if 0x40 ≤ b ∧ b ≤ 0x5F then attributeMarks D.scr b else []) (escCode D b).scr := by
  by_cases hattr : 0x40 ≤ b ∧ b ≤ 0x5F ∧ b ≠ 0x5B
  · rw [if_pos ⟨hattr.1, hattr.2.1⟩, escCode, if_pos hattr]
    exact doAttribute_marked _ b
  · by_cases hcsi : b = 0x5B
    · subst hcsi
      rfl
    · rw [if_neg (by omega), escCode, if_neg hattr]
      split_ifs <;> rfl

theorem feedCode_marked (h : D.scr.Ok) (b : Nat) : Marked D.scr (codeMarks D b) (feedCode D b).scr := by
  unfold feedCode codeMarks
  cases D.st with
  | ground =>
      dsimp only
      split
      · exact doC0_marked D b
      · exact putPrintable_marked h b
  | esc => exact escCode_marked (setSt D .ground) b
  | iso => exact .of_context (isoCode_context D b)
  | csi => exact .of_context (csiCode_context D b)
  | us2 => exact doUs_marked _ _ _
  | rep =>
      dsimp only
      split
      · rfl
      · exact repeatLast_marked h _
  | ss2 => exact .of_context (ss2Code_context D b)
  | ss2Acc =>
      dsimp only [ss2AccCode]
      cases hg : compose D.acc b with
      | some g => exact putGlyph_marked _ g
      | none => exact putPrintable_marked h b
  | pro =>
      dsimp only [proCode]
      split
      · exact doPro_marked _ _
      · rfl
  | us1 => rfl
  | skip1 => rfl
  | transp => rfl
  | transpEsc => rfl
  | transpEsc25 => rfl
  | transpEsc2F => rfl

/-- What a byte does with the latent context is what its marks say. -/
theorem feedOne_marked (h : D.Ok) (b : UInt8) : Marked D.scr (byteMarks D b) (feedOne D b).scr := by
  unfold byteMarks
  by_cases hst : Transparent D.st
  · rw [if_pos (.inl hst), (feedOne_transparent hst b).2]
    rfl
  · rw [feedOne_outside hst]
    by_cases hnul : b.toNat % 128 = 0
    · rw [if_pos (.inr hnul), if_pos hnul]
      rfl
    · rw [if_neg (by simp [hst, hnul]), if_neg hnul]
      have hbegun : Marked D.scr [] (begun D b).scr := .of_context (begun_context D b)
      exact hbegun.trans (feedCode_marked (begun_ok h b).scr _)

theorem feed_marked (h : D.Ok) (buf : List UInt8) : Marked D.scr (history D buf) (feed D buf).scr := by
  induction buf generalizing D with
  | nil => rfl
  | cons b buf ih => exact (feedOne_marked h b).trans (ih (feedOne_ok h b))

/-- What is held after a stream. -/
theorem feed_latent (buf : List UInt8) :
    (feed reset buf).scr.a.latent = Latent.eval (live (history reset buf)) := by
  have hheld := feed_marked reset_ok buf
  rw [← run_suspend]
  exact congrArg Prod.fst hheld

/-! ### What the spaces are stored as -/

/-- The cell is a delimiter where something is pending, and carries the definitions in force. -/
structure Stored (s : Latent) (c : Cell) : Prop where
  delim : c.kind = .delim ↔ s.pending = true
  bg : c.kind = .delim → c.bg = s.bg
  mask : c.kind = .delim → c.flags.zmask = s.mask
  ul : c.kind = .delim → c.flags.zunder = s.ul

def storedMark (p : Latent × Latent) (m : Mark) : Prop := ∀ c, m = .space c → Stored p.1 c

/-- Every space of the list is stored as the law has it. -/
def Lawful (p : Latent × Latent) (ms : List Mark) : Prop := Machine.Guarded suspend storedMark p ms

theorem Lawful.append {p : Latent × Latent} {ms ms' : List Mark} (h : Lawful p ms)
    (h' : Lawful (Machine.run suspend p ms) ms') : Lawful p (ms ++ ms') :=
  Machine.guarded_append.mpr ⟨h, h'⟩

theorem Lawful.nil (p : Latent × Latent) : Lawful p [] := trivial

/-- The mark is a space of G0. -/
def Mark.isSpace : Mark → Bool
  | .space _ => true
  | _ => false

/-- A mark that is no space. -/
theorem Lawful.single {p : Latent × Latent} {m : Mark} (hm : m.isSpace = false) : Lawful p [m] := by
  refine ⟨fun c hc => ?_, trivial⟩
  rw [hc] at hm
  exact Bool.noConfusion hm

theorem spaceMarks_lawful (h : d.Ok) : Lawful (held d) (spaceMarks d) := by
  rw [spaceMarks]
  cases hg1 : d.a.g1 with
  | true => exact .single rfl
  | false =>
      obtain ⟨s, hcell⟩ := putSpace_written h hg1
      refine ⟨?_, trivial⟩
      rintro _ ⟨⟩
      rw [hcell]
      cases hpending : d.a.sPending with
      | true => exact ⟨iff_of_true rfl hpending, fun _ => rfl, fun _ => rfl, fun _ => rfl⟩
      | false => exact ⟨iff_of_false nofun (by simp [held, Attr.latent, hpending]), nofun, nofun, nofun⟩

theorem printableMarks_lawful (h : d.Ok) (b : Nat) : Lawful (held d) (printableMarks d b) := by
  unfold printableMarks
  split_ifs
  · exact spaceMarks_lawful h
  · exact .single rfl
  · exact .nil _

theorem repeatMarks_lawful (h : d.Ok) (n : Nat) : Lawful (held d) (repeatMarks n d) := by
  induction n generalizing d with
  | zero => exact .nil _
  | succ n ih =>
      have hone : Lawful (held d) (onceMarks d) := by
        unfold onceMarks
        cases d.lastKind with
        | g0 =>
            dsimp only
            split
            · exact spaceMarks_lawful h
            · exact .nil _
        | g1 => exact .single rfl
        | glyph => exact .nil _
        | none => exact .nil _
      have hmarked : Marked d (onceMarks d ++ []) (repeatLast 1 d) := repeatLast_marked h 1
      rw [List.append_nil] at hmarked
      exact hone.append (hmarked ▸ ih (repeatLast_ok h 1))

theorem codeMarks_lawful (h : D.scr.Ok) (b : Nat) : Lawful (held D.scr) (codeMarks D b) := by
  unfold codeMarks
  cases D.st with
  | ground =>
      dsimp only
      split
      · unfold c0Marks
        split <;> (try split) <;> first | exact .nil _ | exact .single rfl
      · exact printableMarks_lawful h b
  | esc =>
      dsimp only
      split
      · unfold attributeMarks
        split
        · exact .single rfl
        · split <;> (try split) <;> first | exact .nil _ | exact .single rfl
      · exact .nil _
  | us2 =>
      dsimp only [usMarks]
      split_ifs
      · exact .nil _
      · exact .nil _
      · exact .single rfl
      · exact .single rfl
  | rep =>
      dsimp only
      split
      · exact .nil _
      · exact repeatMarks_lawful h _
  | ss2Acc =>
      dsimp only
      split
      · exact printableMarks_lawful h b
      · exact .nil _
  | pro =>
      dsimp only [proMarks]
      split_ifs
      · exact .single rfl
      · exact .nil _
      · exact .nil _
  | iso => exact .nil _
  | csi => exact .nil _
  | us1 => exact .nil _
  | ss2 => exact .nil _
  | skip1 => exact .nil _
  | transp => exact .nil _
  | transpEsc => exact .nil _
  | transpEsc25 => exact .nil _
  | transpEsc2F => exact .nil _

theorem byteMarks_lawful (h : D.Ok) (b : UInt8) : Lawful (held D.scr) (byteMarks D b) := by
  unfold byteMarks
  split
  · exact .nil _
  · have hmarked : Marked D.scr [] (begun D b).scr := .of_context (begun_context D b)
    have hbegun : held (begun D b).scr = held D.scr := hmarked
    exact hbegun ▸ codeMarks_lawful (begun_ok h b).scr _

theorem history_lawful (h : D.Ok) (buf : List UInt8) : Lawful (held D.scr) (history D buf) := by
  induction buf generalizing D with
  | nil => exact .nil _
  | cons b buf ih =>
      have hmarked : Marked D.scr (byteMarks D b) (feedOne D b).scr := feedOne_marked h b
      exact (byteMarks_lawful h b).append (hmarked ▸ ih (feedOne_ok h b))

/-- At every space of G0 in every stream: it is stored as a delimiter exactly if something is due, that is if
since the last delimiter, RS, FF, US or reset there has been a definition of the masking or the lining, or of
a paper that no mosaic has taken up, where an excursion to row 0 that LF has ended does not count; a delimiter
carries the latest definitions, SO ending the lining; and nothing is due behind it. What is pending after a
stream is what is due. -/
theorem delimiter_law (buf : List UInt8) :
    (∀ h c h', history reset buf = h ++ .space c :: h' →
      (c.kind = .delim ↔ Latent.Due (live h)) ∧
      (c.kind = .delim →
        c.bg = (Latest.last? Mark.paper? (live h)).getD black ∧
        c.flags.zmask = (Latest.last? Mark.mask? (live h)).getD false ∧
        c.flags.zunder = (Latest.last? Mark.ul? (live h)).getD false ∧
        ¬ Latent.Due (live (h ++ [.space c])))) ∧
    ((feed reset buf).scr.a.sPending = true ↔ Latent.Due (live (history reset buf))) := by
  constructor
  · intro h c h' hsplit
    have hlaw := history_lawful reset_ok buf
    rw [hsplit] at hlaw
    have hstored := (Machine.guarded_append.mp hlaw).2.1 c rfl
    have hstart : held reset.scr = (.start, .start) := rfl
    rw [hstart, run_suspend] at hstored
    refine ⟨hstored.delim.trans (Latent.pending_iff _), fun hdelim => ?_⟩
    have hlive : live (h ++ [.space c]) = live h ++ [.space c] := by
      rw [live, Machine.run_append]
      rfl
    rw [hlive]
    exact ⟨(hstored.bg hdelim).trans (Latent.bg_eq _), (hstored.mask hdelim).trans (Latent.mask_eq _),
      (hstored.ul hdelim).trans (Latent.ul_eq _), Latent.not_due_delim _ hdelim⟩
  · rw [← Latent.pending_iff, ← feed_latent]
    exact Iff.rfl

/-- A paper, US to row 0, LF and a space: a delimiter, though nothing has been defined since US. And a lining,
SO, SI and a space: the delimiter is not lined, though the latest definition is. -/
theorem delimiter_law_resumed :
    (∃ c, history reset [0x1B, 0x54, 0x1F, 0x40, 0x41, 0x0A, 0x20] = [.paper 4, .enter, .back, .space c] ∧
      c.kind = .delim ∧ ¬ Latent.Due [.paper 4, .enter, .back]) ∧
    (∃ c, history reset [0x1B, 0x5A, 0x0E, 0x0F, 0x20] = [.lining true, .shift, .space c] ∧
      c.kind = .delim ∧ c.flags.zunder = false) := by
  refine ⟨⟨_, rfl, by decide, ?_⟩, ⟨_, rfl, by decide, by decide⟩⟩
  rw [← Latent.pending_iff]
  decide

end UnicornSuite.Minitel
