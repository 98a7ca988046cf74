import UnicornSuite.CdfAttributes

/-! The text of a TITLE or an ABSTRACT: its entities, its end tag, and the VALUE that stands for it. An
entity is decoded if its semicolon is near enough and its number fits in three bytes of UTF-8. -/

namespace UnicornSuite.Cdf

open CText

/-! ### Entities -/

def CharPiece.Known : CharPiece → Prop
  | numeric e _ => e.code < 0x10000 ∧ e.name.length ≤ 14
  | _ => True

instance : DecidablePred CharPiece.Known
  | .plain _ _ => isTrue trivial
  | .named _ => isTrue trivial
  | .numeric e _ => inferInstanceAs (Decidable (e.code < 0x10000 ∧ e.name.length ≤ 14))

def CharData.Known (t : CharData) : Prop := ∀ p ∈ t, CharPiece.Known p

instance : DecidablePred CharData.Known := fun t => inferInstanceAs (Decidable (∀ p ∈ t, CharPiece.Known p))

theorem digitsValue_cons (base v : Nat) (c : UInt8) (s : Bytes) :
    digitsValue base v (c :: s) = digitsValue base (v * base + (digitOf base c).getD 0) s := rfl

theorem le_digitsValue {base : Nat} (hbase : 0 < base) (v : Nat) (s : Bytes) :
    v ≤ digitsValue base v s := by
  induction s generalizing v with
  | nil => exact Nat.le_refl v
  | cons c s ih =>
      rw [digitsValue_cons]
      calc v ≤ v * base := Nat.le_mul_of_pos_right v hbase
        _ ≤ v * base + (digitOf base c).getD 0 := Nat.le_add_right _ _
        _ ≤ _ := ih _

theorem number_eq {base : Nat} (hbase : 0 < base) {s : Bytes}
    (hs : ∀ c ∈ s, (digitOf base c).isSome = true) {v : Nat} (hv : digitsValue base v s < 2 ^ 32) :
    number base v s = digitsValue base v s := by
  induction s generalizing v with
  | nil => rfl
  | cons c s ih =>
      obtain ⟨d, hd⟩ := Option.isSome_iff_exists.mp (hs c List.mem_cons_self)
      rw [digitsValue_cons, hd, Option.getD_some] at hv ⊢
      have hsmall : v * base + d < 2 ^ 32 := Nat.lt_of_le_of_lt (le_digitsValue hbase _ s) hv
      rw [number, hd]
      simp only [Nat.mod_eq_of_lt hsmall]
      exact ih (fun e he => hs e (List.mem_cons_of_mem c he)) hv

theorem entityText_hash (c : UInt8) (s : Bytes) :
    entityText (0x23 :: c :: s) =
      let v := if c = 0x78 ∨ c = 0x58 then number 16 0 s else number 10 0 (c :: s)
      if 0 < v ∧ v < 0x10000 then some (utf8 v) else none := by
  have hname (w : String) (hw : (ascii w).head? ≠ some 0x23) :
      (0x23 :: c :: s).map upper ≠ ascii w := by
    intro heq
    rw [← heq] at hw
    exact hw rfl
  rw [entityText, if_neg (hname _ (by decide)), if_neg (hname _ (by decide)),
    if_neg (hname _ (by decide)), if_neg (hname _ (by decide)), if_neg (hname _ (by decide))]

theorem NumericEntity.number_digits {e : NumericEntity} (hknown : e.code < 0x10000) :
    number e.base 0 e.digits = e.code := by
  have hbase : 0 < e.base := by
    unfold NumericEntity.base
    split <;> decide
  exact number_eq hbase e.ok (Nat.lt_trans hknown (by decide))

theorem NumericEntity.entityText_name {e : NumericEntity} (hpos : 0 < e.code)
    (hknown : e.code < 0x10000) : entityText e.name = some (utf8 e.code) := by
  have hnumber := e.number_digits hknown
  unfold NumericEntity.base at hnumber
  rw [NumericEntity.name]
  cases hhex : e.hex with
  | true =>
      rw [hhex, if_pos rfl] at hnumber
      rw [if_pos rfl, List.singleton_append, entityText_hash, if_pos (Or.inl rfl), hnumber]
      exact if_pos ⟨hpos, hknown⟩
  | false =>
      obtain ⟨c, s, hs⟩ := List.exists_cons_of_ne_nil e.nonempty
      have hc : (digitOf 10 c).isSome = true := by
        have hok := e.ok c (hs ▸ List.mem_cons_self)
        rwa [hhex] at hok
      have hletter : ¬ (c = 0x78 ∨ c = 0x58) := by
        rintro (rfl | rfl) <;> cases hc
      rw [hhex, if_neg Bool.false_ne_true, hs] at hnumber
      rw [if_neg Bool.false_ne_true, List.nil_append, hs, entityText_hash, if_neg hletter, hnumber]
      exact if_pos ⟨hpos, hknown⟩

theorem NamedEntity.entityText_name (e : NamedEntity) : entityText e.name = some [e.char] := by
  cases e <;> decide

/-- The bytes of the name of an entity. -/
def isEntityByte (c : UInt8) : Bool := c = 0x23 ∨ (0x30 ≤ c ∧ c ≤ 0x39) ∨ (0x41 ≤ c ∧ c ≤ 0x7A)

theorem isEntityByte_digit {base : Nat} {c : UInt8} (hc : (digitOf base c).isSome = true) :
    isEntityByte c = true := by
  rw [isEntityByte, decide_eq_true_eq]
  unfold digitOf at hc
  split_ifs at hc with hdec hlow hup
  · exact Or.inr (Or.inl hdec)
  · exact Or.inr (Or.inr ⟨UInt8.le_trans (by decide) hlow.2.1, UInt8.le_trans hlow.2.2 (by decide)⟩)
  · exact Or.inr (Or.inr ⟨hup.2.1, UInt8.le_trans hup.2.2 (by decide)⟩)
  · cases hc

theorem NamedEntity.bytes_name (e : NamedEntity) : ∀ c ∈ e.name, isEntityByte c = true := by
  cases e <;> decide +kernel

theorem NumericEntity.bytes_name (e : NumericEntity) : ∀ c ∈ e.name, isEntityByte c = true := by
  intro c hc
  rw [NumericEntity.name, List.mem_cons, List.mem_append] at hc
  rcases hc with rfl | hc | hc
  · decide
  · split at hc
    · cases List.mem_singleton.mp hc
      decide
    · cases hc
  · exact isEntityByte_digit (e.ok c hc)

/-- No piece has a NUL in it. -/
theorem zero_notMem_bytes (t : CharData) : 0 ∉ CharData.bytes t := by
  have hentity {name : Bytes} (hname : ∀ c ∈ name, isEntityByte c = true) :
      (0 : UInt8) ∉ ampersand :: name ++ [semicolon] := by
    rw [List.mem_append, List.mem_cons, not_or, not_or]
    exact ⟨⟨by decide, fun hmem => by cases hname 0 hmem⟩, by decide⟩
  rw [CharData.bytes, List.mem_flatMap]
  rintro ⟨p, -, hp⟩
  cases p with
  | plain c ok => exact ok.2 (List.mem_singleton.mp hp).symm
  | named e => exact hentity e.bytes_name hp
  | numeric e valid => exact hentity e.bytes_name hp

/-- A short entity is replaced by its text. -/
theorem decodeEntities_entity {name w : Bytes} (hname : ∀ c ∈ name, isEntityByte c = true)
    (hlen : name.length ≤ 14) (hw : entityText name = some w) (s : Bytes) :
    decodeEntities (ampersand :: name ++ [semicolon] ++ s) = w ++ decodeEntities s := by
  have hsemicolon : semicolon ∉ name := fun hmem => by cases hname _ hmem
  have htext : ampersand :: name ++ [semicolon] ++ s = ampersand :: (name ++ semicolon :: s) := by simp
  have htake : (name ++ semicolon :: s).take 15 = name ++ semicolon :: s.take (14 - name.length) := by
    rw [List.take_append, List.take_of_length_le (by omega),
      show 15 - name.length = 14 - name.length + 1 by omega, List.take_succ_cons]
  have hscan : ((name ++ semicolon :: s).take 15).takeWhile (· ≠ semicolon) = name := by
    rw [htake]
    exact takeWhile_append (ne_of_notMem hsemicolon) (by simp)
  have hfound : name.length < ((name ++ semicolon :: s).take 15).length := by
    rw [htake, List.length_append, List.length_cons]
    omega
  have hrest : (name ++ semicolon :: s).drop (name.length + 1) = s := by
    rw [List.drop_append, List.drop_of_length_le (by omega), List.nil_append,
      Nat.add_sub_cancel_left, List.drop_succ_cons, List.drop_zero]
  rw [htext, decodeEntities, hscan, if_pos ⟨rfl, hfound⟩, hw]
  simp only [hrest]

theorem decodeEntities_piece {p : CharPiece} (hp : p.Known) (s : Bytes) :
    decodeEntities (p.bytes ++ s) = p.value ++ decodeEntities s := by
  cases p with
  | plain c ok =>
      rw [CharPiece.bytes, CharPiece.value, List.singleton_append, List.singleton_append,
        decodeEntities, if_neg fun h => ok.1 h.1]
  | named e =>
      exact decodeEntities_entity e.bytes_name (by cases e <;> decide) e.entityText_name s
  | numeric e valid =>
      exact decodeEntities_entity e.bytes_name hp.2 (e.entityText_name valid.1 hp.1) s

theorem decodeEntities_bytes {t : CharData} (ht : t.Known) :
    decodeEntities (CharData.bytes t) = CharData.value t := by
  induction t with
  | nil => rw [CharData.bytes, CharData.value, List.flatMap_nil, List.flatMap_nil, decodeEntities]
  | cons p t ih =>
      rw [CharData.bytes, CharData.value, List.flatMap_cons, List.flatMap_cons,
        decodeEntities_piece (ht p List.mem_cons_self)]
      exact congrArg (p.value ++ ·) (ih fun q hq => ht q (List.mem_cons_of_mem p hq))

theorem decodeText_bytes {t : CharData} (ht : t.Known) :
    decodeText (CharData.bytes t) = cleanText (CharData.value t) := by
  rw [decodeText, decodeEntities_bytes ht, cleanText]

theorem cstr_bytes (t : CharData) : cstr (CharData.bytes t) = CharData.bytes t :=
  takeWhile_notMem (zero_notMem_bytes t)

/-- Without an entity the text is what it says. -/
theorem bytes_of_plain {t : CharData} (ht : ampersand ∉ CharData.bytes t) :
    CharData.bytes t = CharData.value t := by
  induction t with
  | nil => rfl
  | cons p t ih =>
      rw [CharData.bytes, List.flatMap_cons, List.mem_append, not_or] at ht
      rw [CharData.bytes, CharData.value, List.flatMap_cons, List.flatMap_cons]
      cases p with
      | plain c ok => exact congrArg (c :: ·) (ih ht.2)
      | named e => exact absurd List.mem_cons_self ht.1
      | numeric e valid => exact absurd List.mem_cons_self ht.1

/-! ### Elements -/

theorem selfClose_slashed (t : Tag) : selfClose (t.text true) = true := by
  have htext : (t.text true).reverse =
      slash :: (t.name.bytes ++ t.attrs.flatMap Attr.text ++ t.trail.bytes).reverse := by
    simp [Tag.text, attrsText]
  rw [selfClose, htext, List.dropWhile_cons_of_neg (by decide)]
  rfl

/-- In front of its white space a tag ends with its name or with a quote. -/
theorem last_attrs (n : Name) (attrs : List Attr) :
    ∀ c ∈ (n.bytes ++ attrs.flatMap Attr.text).reverse.head?, isWhite c = false ∧ c ≠ slash := by
  intro c hc
  rcases List.eq_nil_or_concat attrs with rfl | ⟨init, a, rfl⟩
  · rw [List.flatMap_nil, List.append_nil] at hc
    have hmem := List.mem_reverse.mp (List.mem_of_head? hc)
    refine ⟨n.no_white c hmem, ?_⟩
    rintro rfl
    cases n.no_end _ hmem
  · have htext : (n.bytes ++ (init.concat a).flatMap Attr.text).reverse.head? =
        some (quoteByte a.single) := by
      simp [Attr.text]
    rw [htext] at hc
    cases hc
    exact ⟨isWhite_quote a.single, by cases a.single <;> decide⟩

theorem selfClose_open (t : Tag) : selfClose (t.text false) = false := by
  have htext : (t.text false).reverse =
      t.trail.bytes.reverse ++ (t.name.bytes ++ t.attrs.flatMap Attr.text).reverse := by
    simp [Tag.text, attrsText]
  have hlast := last_attrs t.name t.attrs
  rw [selfClose, htext, dropWhile_append (fun c hc => t.trail.white c (List.mem_reverse.mp hc))
    fun c hc => (hlast c hc).1]
  exact decide_eq_false fun heq => (hlast slash heq).2 rfl

theorem findCloseTag_skip (name : Bytes) {w : Bytes} (hw : less ∉ w) (s : Bytes) :
    findCloseTag name (w ++ s) = findCloseTag name s := by
  induction w with
  | nil => rfl
  | cons c w ih =>
      rw [List.mem_cons, not_or] at hw
      rw [List.cons_append, findCloseTag, if_neg fun h => hw.1 h.1.symm, ih hw.2]

theorem head?_white (w : White) {c : UInt8} (hc : isNameEnd c = true) (s : Bytes) :
    ∀ d ∈ (w.bytes ++ c :: s).head?, isNameEnd d = true := by
  intro d hd
  rw [List.head?_append] at hd
  cases hw : w.bytes.head? with
  | none =>
      rw [hw] at hd
      cases hd
      exact hc
  | some e =>
      rw [hw] at hd
      cases hd
      exact isNameEnd_of_isWhite (w.white d (List.mem_of_head? hw))

theorem closeTag_append (n : Name) (trail : White) (rest : Bytes) :
    closeTag n trail ++ rest = less :: slash :: (n.bytes ++ (trail.bytes ++ greater :: rest)) := by
  simp [closeTag, tagged]

theorem findCloseTag_closeTag {n : Name} {k : TextKind} (hn : n.kind = some (.text k)) (trail : White)
    (rest : Bytes) :
    findCloseTag k.name (closeTag n trail ++ rest) = some (closeTag n trail ++ rest) := by
  have hmatch : tagMatch (n.bytes ++ (trail.bytes ++ greater :: rest)) k.name = true :=
    (tagMatch_name n (.text k) (head?_white trail rfl rest)).mpr hn
  have hlen : k.name.length ≤ (n.bytes ++ (trail.bytes ++ greater :: rest)).length := by
    simp only [tagMatch, startsWith, decide_eq_true_eq] at hmatch
    exact hmatch.1.1
  rw [closeTag_append, findCloseTag, if_pos]
  exact ⟨rfl, Nat.succ_le_succ (Nat.succ_le_succ hlen), rfl, hmatch⟩

theorem greater_notMem_close (n : Name) (trail : White) :
    greater ∉ slash :: (n.bytes ++ trail.bytes) := by
  simp only [List.mem_cons, List.mem_append, not_or]
  exact ⟨by decide, n.greater_notMem, trail.greater_notMem⟩

theorem behindTag_closeTag (n : Name) (trail : White) (rest : Bytes) :
    behindTag (closeTag n trail ++ rest) = some rest := by
  have hgreater : greater ∉ less :: slash :: (n.bytes ++ trail.bytes) := by
    rw [List.mem_cons, not_or]
    exact ⟨by decide, greater_notMem_close n trail⟩
  have htext : closeTag n trail ++ rest = less :: slash :: (n.bytes ++ trail.bytes) ++ greater :: rest := by
    simp [closeTag, tagged]
  rw [behindTag, htext, dropWhile_append (ne_of_notMem hgreater) (by simp)]

/-- The VALUE of the tag is found and its entities are known. -/
def Tag.Tells (t : Tag) : Prop :=
  ReadsAttr (ascii "VALUE") t.attrs ∧ ∀ a ∈ t.attr "VALUE", CharData.Known a.value

instance (t : Tag) : Decidable t.Tells := inferInstanceAs (Decidable (_ ∧ _))

/-- Character data with known entities, and no comment. -/
def Flat.IsText : Flat → Prop
  | chars t _ => CharData.Known t
  | comment _ => False

instance : DecidablePred Flat.IsText
  | .chars t _ => inferInstanceAs (Decidable (CharData.Known t))
  | .comment _ => isFalse id

theorem flats_text {flats : List Flat} (h : ∀ f ∈ flats, f.IsText) :
    less ∉ flats.flatMap Flat.text ∧
      decodeText (flats.flatMap Flat.text) = cleanText (flats.flatMap Flat.chars?) := by
  have hdata : ∃ t : CharData, t.Known ∧ less ∉ CharData.bytes t ∧
      flats.flatMap Flat.text = CharData.bytes t ∧ flats.flatMap Flat.chars? = CharData.value t := by
    induction flats with
    | nil => exact ⟨[], nofun, nofun, rfl, rfl⟩
    | cons f flats ih =>
        obtain ⟨t, hknown, hless, htext, hchars⟩ := ih fun g hg => h g (List.mem_cons_of_mem f hg)
        have hf := h f List.mem_cons_self
        cases f with
        | chars u ok =>
            refine ⟨u ++ t, ?_, ?_, ?_, ?_⟩
            · intro p hp
              exact (List.mem_append.mp hp).elim (hf p) (hknown p)
            · rw [CharData.bytes, List.flatMap_append, List.mem_append, not_or]
              exact ⟨ok, hless⟩
            · rw [List.flatMap_cons, htext, CharData.bytes, CharData.bytes, List.flatMap_append]
              rfl
            · rw [List.flatMap_cons, hchars, CharData.value, CharData.value, List.flatMap_append]
              rfl
        | comment c => exact absurd hf id
  obtain ⟨t, hknown, hless, htext, hchars⟩ := hdata
  rw [htext, hchars]
  exact ⟨hless, decodeText_bytes hknown⟩

section Elements

variable {t : Tag} {k : TextKind} (hkind : t.name.kind = some (.text k)) {slashed : Bool}
  (hwhole : greater ∉ t.text slashed)
include hkind hwhole

theorem attrGet_value (htells : t.Tells) :
    ((attrGet (t.text slashed) (ascii "VALUE")).map cstr).map decodeText =
      (t.value "VALUE").map cleanText := by
  have hget := attrGet_tag attrName_value hkind htells.1 slashed
  rw [takeWhile_notMem hwhole] at hget
  rw [hget, Tag.value, Tag.attr]
  cases hfind : t.attrs.find? (Attr.isNamed (ascii "VALUE")) with
  | none => rfl
  | some a =>
      simp only [Option.map_some, cstr_bytes]
      rw [decodeText_bytes (htells.2 a hfind)]

theorem textElement_empty (htells : t.Tells) (hslashed : slashed = true) (st : CdfState) (rest : Bytes) :
    textElement st k (t.text slashed) rest = (attachText st k (saidText t none), some rest) := by
  subst hslashed
  rw [textElement, if_pos (selfClose_slashed t)]
  simp only [attrGet_value hkind hwhole htells]
  rfl

theorem textElement_content (hslashed : slashed = false) {flats : List Flat}
    (hflats : ∀ f ∈ flats, f.IsText)
    (htells : cleanText (flats.flatMap Flat.chars?) = [] → t.Tells) (trail : White) (st : CdfState)
    (rest : Bytes) :
    textElement st k (t.text slashed) (flats.flatMap Flat.text ++ (closeTag t.name trail ++ rest)) =
      (attachText st k (saidText t (some (flats, trail))), some rest) := by
  subst hslashed
  obtain ⟨hless, hdecode⟩ := flats_text hflats
  have hcontent : (flats.flatMap Flat.text ++ (closeTag t.name trail ++ rest)).take
      ((flats.flatMap Flat.text ++ (closeTag t.name trail ++ rest)).length -
        (closeTag t.name trail ++ rest).length) = flats.flatMap Flat.text := by
    rw [List.length_append, Nat.add_sub_cancel, List.take_left]
  rw [textElement, if_neg (by rw [selfClose_open]; decide)]
  simp only [findCloseTag_skip k.name hless, findCloseTag_closeTag hkind, hcontent, hdecode,
    behindTag_closeTag]
  by_cases hempty : cleanText (flats.flatMap Flat.chars?) = []
  · simp only [saidText, hempty, if_true, attrGet_value hkind hwhole (htells hempty)]
  · simp only [saidText, hempty, if_false]

end Elements

end UnicornSuite.Cdf
