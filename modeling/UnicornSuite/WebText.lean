import UnicornSuite.WebStyle
import Mathlib.Algebra.Order.BigOperators.Group.List

/-! The charset of the text of a page. The decoder of the code page works byte by byte, and bytes that
happen to be UTF-8 are passed through; which of the two happens is decided for every text event on its
own. -/

namespace UnicornSuite.Web

open Machine

/-! ### The scan for UTF-8 -/

def isCont (b : UInt8) : Bool := b &&& 0xC0 = 0x80

/-- The continuation bytes that a lead byte asks for. -/
def leadNeed (b0 : UInt8) : Option Nat :=
  if b0 &&& 0xE0 = 0xC0 then (if b0 < 0xC2 then none else some 1)
  else if b0 &&& 0xF0 = 0xE0 then some 2
  else if b0 &&& 0xF8 = 0xF0 then (if b0 > 0xF4 then none else some 3)
  else none

def addBits (cp : Nat) (b : UInt8) : Nat := cp <<< 6 ||| (b &&& 0x3F).toNat

/-- No overlong form, no surrogate and nothing above U+10FFFF. -/
def codeOk (need cp : Nat) : Bool :=
  ¬(need = 2 ∧ cp < 0x800) ∧ ¬(need = 3 ∧ cp < 0x10000) ∧ ¬(0xD800 ≤ cp ∧ cp ≤ 0xDFFF) ∧
    cp ≤ 0x10FFFF

/-- The character of a lead byte and its continuation bytes, and what the scan makes of the rest. -/
def scanChar (lead : UInt8) (conts : List UInt8) (rest : Option (List Char)) : Option (List Char) :=
  let cp := conts.foldl addBits lead.toNat
  if conts.all isCont && codeOk conts.length cp then rest.map (Char.ofNat cp :: ·) else none

/-- `is_valid_utf8`, with the characters that the scan goes over. -/
def decodeUtf8 : List UInt8 → Option (List Char)
  | [] => some []
  | b0 :: rest =>
      if b0 < 0x80 then (decodeUtf8 rest).map (Char.ofNat b0.toNat :: ·)
      else
        match leadNeed b0, rest with
        | some 1, b1 :: rest => scanChar (b0 &&& 0x1F) [b1] (decodeUtf8 rest)
        | some 2, b1 :: b2 :: rest => scanChar (b0 &&& 0x0F) [b1, b2] (decodeUtf8 rest)
        | some 3, b1 :: b2 :: b3 :: rest => scanChar (b0 &&& 0x07) [b1, b2, b3] (decodeUtf8 rest)
        | _, _ => none

def isValidUtf8 (buf : List UInt8) : Bool := (decodeUtf8 buf).isSome

example : decodeUtf8 [0x61, 0xC3, 0xA9, 0xE2, 0x82, 0xAC] = some ['a', 'é', '€'] := by decide
example : decodeUtf8 [0xE9, 0x61] = none := by decide
example : decodeUtf8 [0xED, 0xA0, 0x80] = none := by decide

section

variable {b : UInt8} {x y bs : List UInt8} {cs : List Char} {lead : UInt8} {conts : List UInt8}
  {rest : Option (List Char)}

/-- A character that the scan goes over, whatever comes behind it. -/
theorem scanChar_eq_some (h : scanChar lead conts rest = some cs) :
    ∃ c cs', conts.all isCont ∧ rest = some cs' ∧ cs = c :: cs' ∧
      ∀ rest', scanChar lead conts rest' = rest'.map (c :: ·) := by
  rw [scanChar] at h
  split_ifs at h with hok
  obtain ⟨cs', hrest, hcs⟩ := Option.map_eq_some_iff.mp h
  exact ⟨_, cs', (Bool.and_eq_true_iff.mp hok).1, hrest, hcs.symm, fun _ => if_pos hok⟩

theorem leadNeed_cont (hb : isCont b) : leadNeed b = none := by
  have hcont : b &&& 0xC0 = 0x80 := of_decide_eq_true hb
  have hmask (m : UInt8) (hm : m &&& 0xC0 = 0xC0) : (b &&& m) &&& 0xC0 = 0x80 := by
    rw [UInt8.and_assoc, hm, hcont]
  have h2 : b &&& 0xE0 ≠ 0xC0 := fun h => absurd (h ▸ hmask 0xE0 rfl) (by decide)
  have h3 : b &&& 0xF0 ≠ 0xE0 := fun h => absurd (h ▸ hmask 0xF0 rfl) (by decide)
  have h4 : b &&& 0xF8 ≠ 0xF0 := fun h => absurd (h ▸ hmask 0xF8 rfl) (by decide)
  rw [leadNeed, if_neg h2, if_neg h3, if_neg h4]

theorem leadNeed_pos {n : Nat} (h : leadNeed b = some n) : 0 < n := by
  rw [leadNeed] at h
  split_ifs at h <;> cases h <;> decide

theorem not_cont_of_ascii (hb : b < 0x80) : isCont b = false := by
  apply decide_eq_false
  intro hcont
  have hle : (b &&& 0xC0).toNat ≤ b.toNat := Nat.and_le_left
  rw [hcont] at hle
  exact UInt8.not_lt.mpr hle hb

/-! ### Appended bytes -/

theorem decodeUtf8_ascii (hb : b < 0x80) (bs : List UInt8) :
    decodeUtf8 (b :: bs) = (decodeUtf8 bs).map (Char.ofNat b.toNat :: ·) := by
  rw [decodeUtf8.eq_def]
  exact if_pos hb

/-- A character that is not ASCII is a lead byte and the continuation bytes that it asks for. -/
theorem decodeUtf8_lead (hb : ¬b < 0x80) (h : decodeUtf8 (b :: bs) = some cs) :
    ∃ c cs' conts rest, bs = conts ++ rest ∧ leadNeed b = some conts.length ∧ conts.all isCont ∧
      decodeUtf8 rest = some cs' ∧ cs = c :: cs' ∧
      ∀ rest, decodeUtf8 (b :: (conts ++ rest)) = (decodeUtf8 rest).map (c :: ·) := by
  rw [decodeUtf8.eq_def] at h
  simp only [hb, if_false] at h
  split at h
  · rename_i b1 rest hneed
    obtain ⟨c, cs', hall, hrest, hcs, hscan⟩ := scanChar_eq_some h
    refine ⟨c, cs', [b1], rest, rfl, hneed, hall, hrest, hcs, fun rest' => ?_⟩
    simp [decodeUtf8, hb, hneed, hscan]
  · rename_i b1 b2 rest hneed
    obtain ⟨c, cs', hall, hrest, hcs, hscan⟩ := scanChar_eq_some h
    refine ⟨c, cs', [b1, b2], rest, rfl, hneed, hall, hrest, hcs, fun rest' => ?_⟩
    simp [decodeUtf8, hb, hneed, hscan]
  · rename_i b1 b2 b3 rest hneed
    obtain ⟨c, cs', hall, hrest, hcs, hscan⟩ := scanChar_eq_some h
    refine ⟨c, cs', [b1, b2, b3], rest, rfl, hneed, hall, hrest, hcs, fun rest' => ?_⟩
    simp [decodeUtf8, hb, hneed, hscan]
  · cases h

/-- Induction on the characters of a text: a byte that is no continuation byte, and continuation
bytes. -/
theorem decode_induction {motive : List UInt8 → List Char → Prop} (hnil : motive [] [])
    (hchar : ∀ c b conts rest cs, isCont b = false → conts.all isCont → (b < 0x80 ∨ conts ≠ []) →
      (∀ rest, decodeUtf8 (b :: (conts ++ rest)) = (decodeUtf8 rest).map (c :: ·)) →
      decodeUtf8 rest = some cs → motive rest cs → motive (b :: (conts ++ rest)) (c :: cs))
    (h : decodeUtf8 bs = some cs) : motive bs cs := by
  induction hn : bs.length using Nat.strong_induction_on generalizing bs cs with
  | _ n ih =>
      cases bs with
      | nil =>
          cases h
          exact hnil
      | cons b bs =>
          by_cases hb : b < 0x80
          · rw [decodeUtf8_ascii hb] at h
            obtain ⟨cs', hrest, rfl⟩ := Option.map_eq_some_iff.mp h
            have hmotive := ih bs.length (by rw [← hn]; exact Nat.lt_succ_self _) hrest rfl
            exact hchar _ b [] bs cs' (not_cont_of_ascii hb) rfl (.inl hb) (decodeUtf8_ascii hb) hrest
              hmotive
          · obtain ⟨c, cs', conts, rest, rfl, hneed, hall, hrest, rfl, hscan⟩ := decodeUtf8_lead hb h
            have hcont : isCont b = false := by
              by_contra hcont
              rw [leadNeed_cont (eq_true_of_ne_false hcont)] at hneed
              cases hneed
            have hsome : conts ≠ [] := List.ne_nil_of_length_pos (leadNeed_pos hneed)
            apply hchar c b conts rest cs' hcont hall (.inr hsome) hscan hrest
            apply ih rest.length _ hrest rfl
            rw [← hn, List.length_cons, List.length_append]
            omega

/-- No text starts with a continuation byte. -/
theorem decodeUtf8_cont (hb : isCont b) (bs : List UInt8) : decodeUtf8 (b :: bs) = none := by
  by_contra h
  obtain ⟨cs, hcs⟩ := Option.ne_none_iff_exists'.mp h
  have hhead : ∀ b' ∈ (b :: bs).head?, isCont b' = false := by
    refine decode_induction (motive := fun bs _ => ∀ b ∈ bs.head?, isCont b = false) ?_ ?_ hcs
    · simp
    · intro _ b _ _ _ hb _ _ _ _ _ b' hb'
      cases hb'
      exact hb
  rw [hhead b rfl] at hb
  cases hb

theorem decodeUtf8_append (h : decodeUtf8 x = some cs) (y : List UInt8) :
    decodeUtf8 (x ++ y) = (decodeUtf8 y).map (cs ++ ·) := by
  refine decode_induction (motive := fun x cs => decodeUtf8 (x ++ y) = (decodeUtf8 y).map (cs ++ ·))
    ?_ ?_ h
  · simp
  · intro c b conts rest cs _ _ _ hscan _ ih
    rw [List.cons_append, List.append_assoc, hscan, ih, Option.map_map]
    rfl

/-- The bytes that start a character. -/
def leads (bs : List UInt8) : Nat := bs.countP (!isCont ·)

theorem length_decodeUtf8 (h : decodeUtf8 bs = some cs) : cs.length = leads bs := by
  refine decode_induction (motive := fun bs cs => cs.length = leads bs) rfl ?_ h
  intro c b conts rest cs hb hall _ _ _ ih
  have hconts : conts.countP (!isCont ·) = 0 :=
    List.countP_eq_zero.mpr fun b hb => by simp [List.all_eq_true.mp hall b hb]
  rw [List.length_cons, ih]
  simp [leads, hb, hconts]

/-- A cut in front of no continuation byte falls between two characters. -/
theorem decodeUtf8_split (h : decodeUtf8 (x ++ y) = some cs)
    (hy : ∀ b ∈ y.head?, isCont b = false) : (decodeUtf8 x).isSome := by
  refine decode_induction
    (motive := fun bs _ => ∀ x, bs = x ++ y → (decodeUtf8 x).isSome) ?_ ?_ h x rfl
  · intro x hx
    rw [(List.append_eq_nil_iff.mp hx.symm).1]
    rfl
  · intro c b conts rest cs _ hall _ hscan _ ih x hx
    cases x with
    | nil => rfl
    | cons b' x =>
        obtain ⟨rfl, htail⟩ := List.cons_eq_cons.mp hx
        obtain ⟨x', rfl, hrest⟩ | ⟨conts', rfl, rfl⟩ := List.append_eq_append_iff.mp htail
        · rw [hscan, Option.isSome_map]
          exact ih x' hrest
        · cases conts' with
          | nil => 
              have hend := hscan []
              simp only [List.append_nil] at hend
              rw [hend]
              rfl
          | cons b' conts' =>
              have hcont := List.all_eq_true.mp hall b' (by simp)
              rw [hy b' rfl] at hcont
              cases hcont

/-- Without continuation bytes a text is ASCII. -/
theorem ascii_of_decodeUtf8 (h : decodeUtf8 bs = some cs) (hbs : ∀ b ∈ bs, isCont b = false) :
    ∀ b ∈ bs, b < 0x80 := by
  refine decode_induction
    (motive := fun bs _ => (∀ b ∈ bs, isCont b = false) → ∀ b ∈ bs, b < 0x80) ?_ ?_ h hbs
  · simp
  · intro c b conts rest cs _ hall hb _ _ ih hbs
    have hnil : conts = [] := by
      apply List.eq_nil_iff_forall_not_mem.mpr
      intro b' hb'
      have hcont := List.all_eq_true.mp hall b' hb'
      rw [hbs b' (by simp [hb'])] at hcont
      cases hcont
    subst hnil
    intro b' hb'
    obtain rfl | hrest := List.mem_cons.mp hb'
    · exact hb.resolve_right (· rfl)
    · exact ih (fun b hb => hbs b (List.mem_cons_of_mem _ hb)) b' hrest

end

/-! ### One text event -/

/-- The decoder of an 8-bit code page: a character for every byte, ASCII for the low half. -/
structure CodePage where
  toChar : UInt8 → Char
  ascii : ∀ b < 0x80, toChar b = Char.ofNat b.toNat

def hasHigh (buf : List UInt8) : Bool := buf.any (· ≥ 0x80)

/-- The charset conversion of `webdoc_append_text` with a code page other than UTF-8. -/
def convert (cp : CodePage) (buf : List UInt8) : List Char :=
  if hasHigh buf then
    match decodeUtf8 buf with
    | some cs => cs
    | none => buf.map cp.toChar
  else buf.map (Char.ofNat ·.toNat)

/-- `webdoc_append_text`. -/
def appendBytes (cp : CodePage) (d : WebDoc) (buf : List UInt8) : WebDoc :=
  appendText d (convert cp buf)

section

variable (cp : CodePage) {buf : List UInt8} {cs : List Char}

theorem lt_of_hasHigh (h : hasHigh buf = false) : ∀ b ∈ buf, b < 0x80 := by
  intro b hb
  have hlow := List.any_eq_false.mp h b hb
  simpa using hlow

theorem not_hasHigh (h : ∀ b ∈ buf, b < 0x80) : hasHigh buf = false := by
  apply List.any_eq_false.mpr
  intro b hb
  simpa using h b hb

theorem not_cont_of_leads (h : leads buf = buf.length) : ∀ b ∈ buf, isCont b = false := by
  intro b hb
  have hplain := List.countP_eq_length.mp h b hb
  simpa using hplain

theorem decodeUtf8_low (h : ∀ b ∈ buf, b < 0x80) :
    decodeUtf8 buf = some (buf.map (Char.ofNat ·.toNat)) := by
  induction buf with
  | nil => rfl
  | cons b buf ih =>
      rw [decodeUtf8_ascii (h b List.mem_cons_self), ih fun b hb => h b (List.mem_cons_of_mem _ hb)]
      rfl

theorem convert_valid (h : decodeUtf8 buf = some cs) : convert cp buf = cs := by
  rw [convert]
  split_ifs with hhigh
  · rw [h]
  · rw [decodeUtf8_low (lt_of_hasHigh (eq_false_of_ne_true hhigh))] at h
    exact Option.some.inj h

theorem convert_invalid (h : decodeUtf8 buf = none) : convert cp buf = buf.map cp.toChar := by
  rw [convert]
  split_ifs with hhigh
  · rw [h]
  · rw [decodeUtf8_low (lt_of_hasHigh (eq_false_of_ne_true hhigh))] at h
    cases h

theorem convert_low (h : hasHigh buf = false) : convert cp buf = buf.map cp.toChar := by
  rw [convert, if_neg (Bool.eq_false_iff.mp h)]
  apply List.map_congr_left
  intro b hb
  exact (cp.ascii b (lt_of_hasHigh h b hb)).symm

theorem leads_le (buf : List UInt8) : leads buf ≤ buf.length := List.countP_le_length

theorem leads_le_convert (buf : List UInt8) : leads buf ≤ (convert cp buf).length := by
  cases h : decodeUtf8 buf with
  | some cs => rw [convert_valid cp h, length_decodeUtf8 h]
  | none =>
      rw [convert_invalid cp h, List.length_map]
      exact leads_le buf

theorem convert_le (buf : List UInt8) : (convert cp buf).length ≤ buf.length := by
  cases h : decodeUtf8 buf with
  | some cs =>
      rw [convert_valid cp h, length_decodeUtf8 h]
      exact leads_le buf
  | none => rw [convert_invalid cp h, List.length_map]

end

/-! ### A text in pieces -/

section

variable (cp : CodePage) {pieces : List (List UInt8)} {cs : List Char}

theorem eq_of_sum_eq {α : Type*} {f g : α → Nat} {l : List α} (hle : ∀ a ∈ l, f a ≤ g a)
    (hsum : (l.map f).sum = (l.map g).sum) : ∀ a ∈ l, f a = g a := by
  intro a ha
  by_contra hne
  have hlt := List.sum_lt_sum f g hle ⟨a, ha, lt_of_le_of_ne (hle a ha) hne⟩
  exact absurd hsum hlt.ne

theorem length_flatMap_convert :
    (pieces.flatMap (convert cp)).length = (pieces.map fun p => (convert cp p).length).sum := by
  rw [List.length_flatMap]

theorem leads_flatten : leads pieces.flatten = (pieces.map leads).sum := List.countP_flatten

theorem head_not_cont (hpieces : ∀ p ∈ pieces, (decodeUtf8 p).isSome ∨ ∀ b ∈ p, isCont b = false) :
    ∀ b ∈ pieces.flatten.head?, isCont b = false := by
  intro b hb
  rw [List.head?_flatten] at hb
  obtain ⟨p, hp, hhead⟩ := List.exists_of_findSome?_eq_some hb
  obtain ⟨bs, rfl⟩ := List.head?_eq_some_iff.mp hhead
  obtain hvalid | hplain := hpieces _ hp
  · apply eq_false_of_ne_true
    intro hcont
    rw [decodeUtf8_cont hcont] at hvalid
    cases hvalid
  · exact hplain b List.mem_cons_self

/-- No cut of a text falls into a character when every piece is a text or has no continuation byte. -/
theorem pieces_valid (h : decodeUtf8 pieces.flatten = some cs)
    (hpieces : ∀ p ∈ pieces, (decodeUtf8 p).isSome ∨ ∀ b ∈ p, isCont b = false) :
    ∀ p ∈ pieces, (decodeUtf8 p).isSome := by
  induction pieces generalizing cs with
  | nil => simp
  | cons p pieces ih =>
      have htail := fun p hp => hpieces p (List.mem_cons_of_mem _ hp)
      obtain ⟨cs', hp⟩ := Option.isSome_iff_exists.mp (decodeUtf8_split h (head_not_cont htail))
      rw [List.flatten_cons, decodeUtf8_append hp] at h
      obtain ⟨cs'', hrest, -⟩ := Option.map_eq_some_iff.mp h
      intro p' hp'
      obtain rfl | hmem := List.mem_cons.mp hp'
      · rw [hp]
        rfl
      · exact ih hrest htail p' hmem

theorem convert_flatten_of_valid (hpieces : ∀ p ∈ pieces, (decodeUtf8 p).isSome) :
    decodeUtf8 pieces.flatten = some (pieces.flatMap (convert cp)) := by
  induction pieces with
  | nil => rfl
  | cons p pieces ih =>
      obtain ⟨cs, hp⟩ := Option.isSome_iff_exists.mp (hpieces p List.mem_cons_self)
      rw [List.flatten_cons, decodeUtf8_append hp, ih fun p hp => hpieces p (List.mem_cons_of_mem _ hp),
        List.flatMap_cons, convert_valid cp hp]
      rfl

/-- Cutting a text changes what is stored unless the pieces with high bytes all go the way of the
whole: a transcoded byte is a character, and of the bytes of a character passed through only the first
counts. -/
theorem convert_flatten_iff :
    pieces.flatMap (convert cp) = convert cp pieces.flatten ↔
      ∀ p ∈ pieces, hasHigh p → (isValidUtf8 p ↔ isValidUtf8 pieces.flatten) := by
  cases hwhole : decodeUtf8 pieces.flatten with
  | some cs =>
      have hvalid : isValidUtf8 pieces.flatten := by rw [isValidUtf8, hwhole]; rfl
      constructor
      · intro heq p hp _
        have hsum : (pieces.map leads).sum = (pieces.map fun p => (convert cp p).length).sum := by
          rw [← leads_flatten, ← length_flatMap_convert, heq, convert_valid cp hwhole,
            length_decodeUtf8 hwhole]
        have hlen := eq_of_sum_eq (fun p _ => leads_le_convert cp p) hsum
        refine iff_of_true (pieces_valid hwhole (fun p hp => ?_) p hp) hvalid
        cases hpiece : decodeUtf8 p with
        | some cs => exact .inl rfl
        | none =>
            have hall := hlen p hp
            rw [convert_invalid cp hpiece, List.length_map] at hall
            exact .inr (not_cont_of_leads hall)
      · intro hpieces
        have hall : ∀ p ∈ pieces, (decodeUtf8 p).isSome := by
          intro p hp
          cases hhigh : hasHigh p with
          | true => exact (hpieces p hp hhigh).mpr hvalid
          | false =>
              rw [decodeUtf8_low (lt_of_hasHigh hhigh)]
              rfl
        exact (convert_valid cp (convert_flatten_of_valid cp hall)).symm
  | none =>
      have hinvalid : ¬isValidUtf8 pieces.flatten := by simp [isValidUtf8, hwhole]
      constructor
      · intro heq p hp hhigh
        have hsum : (pieces.map fun p => (convert cp p).length).sum = (pieces.map List.length).sum := by
          rw [← length_flatMap_convert, heq, convert_invalid cp hwhole, List.length_map,
            List.length_flatten]
        have hlen := eq_of_sum_eq (fun p _ => convert_le cp p) hsum p hp
        refine iff_of_false (fun hpiece => ?_) hinvalid
        obtain ⟨cs, hcs⟩ := Option.isSome_iff_exists.mp hpiece
        rw [convert_valid cp hcs, length_decodeUtf8 hcs] at hlen
        have hlow := ascii_of_decodeUtf8 hcs (not_cont_of_leads hlen)
        rw [not_hasHigh hlow] at hhigh
        cases hhigh
      · intro hpieces
        have hall : ∀ p ∈ pieces, convert cp p = p.map cp.toChar := by
          intro p hp
          cases hhigh : hasHigh p with
          | true => 
              apply convert_invalid
              exact Option.not_isSome_iff_eq_none.mp fun h => hinvalid ((hpieces p hp hhigh).mp h)
          | false => exact convert_low cp hhigh
        rw [convert_invalid cp hwhole, List.flatMap_congr hall, List.map_flatten, List.flatMap_def]

end

/-! ### The document -/

/-- Text that no page shows: that of STYLE, SCRIPT and TITLE, and text between two cells. -/
def TextHidden (d : WebDoc) : Prop :=
  d.inStyle > 0 ∨ d.inScript > 0 ∨ d.inTitle > 0 ∨ d.parseMode = .inTable

section

variable {d : WebDoc} {text : List Char}

theorem appendText_hidden (h : TextHidden d) (text : List Char) : appendText d text = d := by
  rw [appendText]
  split_ifs with hflags hmode
  · rfl
  · rfl
  · obtain h | h | h | h := h
    · exact absurd (.inl h) hflags
    · exact absurd (.inr (.inl h)) hflags
    · exact absurd (.inr (.inr h)) hflags
    · exact absurd h hmode

theorem appendText_shown (h : ¬TextHidden d) (text : List Char) : appendText d text = storeText d text := by
  have hflags : ¬(d.inStyle > 0 ∨ d.inScript > 0 ∨ d.inTitle > 0) := fun hf =>
    h (hf.imp_right fun hf => hf.imp_right .inl)
  have hmode : d.parseMode ≠ .inTable := fun hm => h (.inr (.inr (.inr hm)))
  rw [appendText, if_neg hflags, if_neg hmode]

theorem storeText_nil (d : WebDoc) : storeText d [] = d := if_pos rfl

/-- The run that takes the text has the style that is in force, and is the same for every text. -/
theorem storeText_run (hlink : NoLink d.style) :
    ∃ front r, canMerge r d.style ∧
      totalLen d.currentRuns = totalLen front + r.text.length ∧
      ∀ text ≠ [], storeText d text =
        { d with currentRuns := front ++ [{ r with text := r.text ++ text }] } := by
  have hnew : canMerge (newRun d.style []) d.style := by
    apply decide_eq_true
    refine ⟨rfl, rfl, rfl, ?_⟩
    rw [newRun]
    split_ifs with hdepth
    · rfl
    · exact (hlink (Nat.eq_zero_of_not_pos hdepth)).symm
  cases hlast : d.currentRuns.getLast? with
  | none =>
      refine ⟨d.currentRuns, newRun d.style [], hnew, rfl, fun text htext => ?_⟩
      simp only [storeText, if_neg htext, hlast]
      rfl
  | some r =>
      by_cases hmerge : canMerge r d.style
      · obtain ⟨front, hfront⟩ := List.getLast?_eq_some_iff.mp hlast
        refine ⟨front, r, hmerge, ?_, fun text htext => ?_⟩
        · simp [totalLen, hfront]
        · rw [storeText, if_neg htext, hlast]
          simp only [hmerge, if_true, hfront, List.dropLast_concat]
      · refine ⟨d.currentRuns, newRun d.style [], hnew, rfl, fun text htext => ?_⟩
        simp only [storeText, if_neg htext, hlast, hmerge]
        rfl

theorem storeText_append (hlink : NoLink d.style) (text text' : List Char) :
    storeText (storeText d text) text' = storeText d (text ++ text') := by
  by_cases htext : text = []
  · rw [htext, storeText_nil, List.nil_append]
  by_cases htext' : text' = []
  · rw [htext', storeText_nil, List.append_nil]
  obtain ⟨front, r, hmerge, -, hstore⟩ := storeText_run hlink
  rw [hstore text htext, hstore _ (List.append_ne_nil_of_left_ne_nil htext _), storeText, if_neg htext']
  have hmerge' : canMerge { r with text := r.text ++ text } d.style := hmerge
  simp [hmerge']

theorem totalLen_storeText (hlink : NoLink d.style) (text : List Char) :
    totalLen (storeText d text).currentRuns = totalLen d.currentRuns + text.length := by
  by_cases htext : text = []
  · rw [htext, storeText_nil]
    rfl
  obtain ⟨front, r, -, hlen, hstore⟩ := storeText_run hlink
  rw [hstore text htext, hlen]
  simp [totalLen, Nat.add_assoc]

theorem storeText_inj (hlink : NoLink d.style) {text text' : List Char}
    (h : storeText d text = storeText d text') : text = text' := by
  have hlen := congrArg (fun d => totalLen d.currentRuns) h
  simp only [totalLen_storeText hlink, Nat.add_left_cancel_iff] at hlen
  by_cases htext : text = []
  · rw [htext] at hlen ⊢
    exact (List.length_eq_zero_iff.mp hlen.symm).symm
  · have htext' : text' ≠ [] := by
      intro hnil
      rw [hnil] at hlen
      exact htext (List.length_eq_zero_iff.mp hlen)
    obtain ⟨front, r, -, -, hstore⟩ := storeText_run hlink
    rw [hstore text htext, hstore text' htext'] at h
    have hruns := List.append_cancel_left (congrArg WebDoc.currentRuns h)
    exact List.append_cancel_left (congrArg WebRun.text (List.cons.inj hruns).1)

theorem textHidden_storeText (hlink : NoLink d.style) (text : List Char) :
    TextHidden (storeText d text) ↔ TextHidden d := by
  by_cases htext : text = []
  · rw [htext, storeText_nil]
  obtain ⟨front, r, -, -, hstore⟩ := storeText_run hlink
  rw [hstore text htext]
  rfl

theorem run_appendBytes_hidden (cp : CodePage) (h : TextHidden d) (pieces : List (List UInt8)) :
    run (appendBytes cp) d pieces = d := by
  induction pieces with
  | nil => rfl
  | cons p pieces ih => 
      rw [run_cons, appendBytes, appendText_hidden h]
      exact ih

theorem run_appendBytes (cp : CodePage) (hlink : NoLink d.style) (h : ¬TextHidden d)
    (pieces : List (List UInt8)) :
    run (appendBytes cp) d pieces = storeText d (pieces.flatMap (convert cp)) := by
  induction pieces generalizing d with
  | nil => exact (storeText_nil d).symm
  | cons p pieces ih =>
      have hlink' : NoLink (storeText d (convert cp p)).style := by rwa [storeText_style]
      have h' : ¬TextHidden (storeText d (convert cp p)) := by rwa [textHidden_storeText hlink]
      rw [run_cons, appendBytes, appendText_shown h, ih hlink' h', storeText_append hlink]
      rfl

end

/-- A text in pieces leaves the document that the whole leaves exactly where it is not shown or every
piece with high bytes is UTF-8 if and only if the whole is. -/
theorem text_chunks_iff (cp : CodePage) (evs : List Event) (pieces : List (List UInt8)) :
    run (appendBytes cp) (run onEvent {} evs) pieces =
        appendBytes cp (run onEvent {} evs) pieces.flatten ↔
      TextHidden (run onEvent {} evs) ∨
        ∀ p ∈ pieces, hasHigh p → (isValidUtf8 p ↔ isValidUtf8 pieces.flatten) := by
  have hlink : NoLink (run onEvent {} evs).style :=
    run_inv (I := fun d : WebDoc => NoLink d.style)
      (fun d e h => by rw [onEvent_style]; exact h.next e) (fun _ => rfl) evs
  generalize run onEvent {} evs = d at hlink
  by_cases hhidden : TextHidden d
  · rw [run_appendBytes_hidden cp hhidden, appendBytes, appendText_hidden hhidden]
    exact iff_of_true rfl (.inl hhidden)
  · rw [run_appendBytes cp hlink hhidden, appendBytes, appendText_shown hhidden,
      or_iff_right hhidden, ← convert_flatten_iff cp]
    exact ⟨storeText_inj hlink, fun heq => by rw [heq]⟩

def latin1 : CodePage := ⟨fun b => Char.ofNat b.toNat, fun _ _ => rfl⟩

/-- An é in UTF-8 on a page in ISO-8859-1, with the cut between its two bytes. -/
theorem cut_mojibake :
    (run (appendBytes latin1) {} [[0xC3], [0xA9]]).currentRuns.map (·.text) = [['Ã', '©']] ∧
      (appendBytes latin1 {} [0xC3, 0xA9]).currentRuns.map (·.text) = [['é']] := by
  decide

end UnicornSuite.Web
