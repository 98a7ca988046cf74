import UnicornSuite.UpdateScan

/-! The strings the updater reads off a manifest: when what it returns is the string of the member it
asked for. -/

namespace UnicornSuite.Manifest

open CText News
open Update (jsonValueFor jsonGetString jsonString unicodeChar escaped)

/-! ### Strings -/

/-- A character as the code reads it. -/
def readChar : JsonChar → UInt8
  | .plain c _ => c
  | .escape e => escaped e.letter
  | .unicode h₁ h₂ h₃ h₄ => unicodeChar [h₁.letter, h₂.letter, h₃.letter, h₄.letter]

/-- A character of the string; for what is not ASCII a question mark. -/
def meantChar : JsonChar → UInt8
  | .plain c _ => c
  | .escape e => e.value
  | .unicode h₁ h₂ h₃ h₄ =>
      if codeUnit h₁ h₂ h₃ h₄ < 0x80 then UInt8.ofNat (codeUnit h₁ h₂ h₃ h₄) else 0x3F

/-- No `\b`, no `\f`, and no control character by its number. -/
def Readable : JsonChar → Prop
  | .plain _ _ => True
  | .escape e => e ≠ .b ∧ e ≠ .f
  | .unicode h₁ h₂ h₃ h₄ => 0x20 ≤ codeUnit h₁ h₂ h₃ h₄ ∧ codeUnit h₁ h₂ h₃ h₄ ≠ 0x7F

section Strings

variable (room : Nat) (p rest : Bytes)

theorem hexDigit_letter (h : HexDigit) : Update.hexDigit h.letter = some h.value.val := by
  obtain ⟨v, upper⟩ := h
  revert v upper
  decide +kernel

theorem unicodeChar_letters (h₁ h₂ h₃ h₄ : HexDigit) :
    unicodeChar [h₁.letter, h₂.letter, h₃.letter, h₄.letter] =
      if 0x20 ≤ codeUnit h₁ h₂ h₃ h₄ ∧ codeUnit h₁ h₂ h₃ h₄ < 0x7F then
        UInt8.ofNat (codeUnit h₁ h₂ h₃ h₄)
      else 0x3F := by
  simp [unicodeChar, hexDigit_letter, codeUnit]

theorem readChar_eq_meant (c : JsonChar) : readChar c = meantChar c ↔ Readable c := by
  cases c with
  | plain c ok => simp [readChar, meantChar, Readable]
  | escape e => cases e <;> simp [readChar, meantChar, Readable] <;> decide
  | unicode h₁ h₂ h₃ h₄ =>
      rw [readChar, unicodeChar_letters, meantChar, Readable]
      generalize codeUnit h₁ h₂ h₃ h₄ = u
      by_cases hu : u < 0x80
      · have hascii : ∀ u < 0x80, (if 0x20 ≤ u ∧ u < 0x7F then UInt8.ofNat u else 0x3F) =
            (if u < 0x80 then UInt8.ofNat u else 0x3F) ↔ 0x20 ≤ u ∧ u ≠ 0x7F := by decide +kernel
        exact hascii u hu
      · rw [if_neg (by omega), if_neg hu]
        exact iff_of_true rfl (by omega)

theorem jsonString_plain {c : UInt8} (hquote : c ≠ Update.quote) (hslash : c ≠ Update.backslash) :
    jsonString (room + 1) (c :: p) = (c :: (jsonString room p).1, (jsonString room p).2) :=
  (if_neg hquote).trans (if_neg hslash)

theorem jsonString_unicode :
    let digits := (p.take 4).takeWhile fun c => (Update.hexDigit c).isSome
    jsonString (room + 1) (backslash :: 0x75 :: p) =
      (unicodeChar digits :: (jsonString room (p.drop digits.length)).1,
        (jsonString room (p.drop digits.length)).2) :=
  rfl

theorem jsonString_char (c : JsonChar) :
    jsonString (room + 1) (c.text ++ p) = (readChar c :: (jsonString room p).1, (jsonString room p).2) := by
  cases c with
  | plain c ok => exact jsonString_plain room p ok.1 ok.2.1
  | escape e => cases e <;> rfl
  | unicode h₁ h₂ h₃ h₄ =>
      have hdigits : ((h₁.letter :: h₂.letter :: h₃.letter :: h₄.letter :: p).take 4).takeWhile
          (fun c => (Update.hexDigit c).isSome) = [h₁.letter, h₂.letter, h₃.letter, h₄.letter] := by
        simp [hexDigit_letter]
      have hstep := jsonString_unicode room (h₁.letter :: h₂.letter :: h₃.letter :: h₄.letter :: p)
      dsimp only at hstep
      rw [hdigits] at hstep
      exact hstep

/-- The loop copies a character a byte, as many as there is room for. -/
theorem jsonString_text (s : JsonString) :
    jsonString room (s.text ++ quote :: rest) =
      ((s.take room).map readChar, JsonString.text (s.drop room) ++ quote :: rest) := by
  induction s generalizing room with
  | nil =>
      cases room with
      | zero => rfl
      | succ room => rfl
  | cons c s ih =>
      cases room with
      | zero => simp [jsonString]
      | succ room =>
          have htext : JsonString.text (c :: s) ++ quote :: rest =
              c.text ++ (JsonString.text s ++ quote :: rest) := by simp [JsonString.text]
          rw [htext, jsonString_char, ih room]
          rfl

theorem head_text (s : JsonString) :
    (s.text ++ quote :: rest).head? = some quote ↔ s = [] := by
  cases s with
  | nil => exact iff_of_true rfl rfl
  | cons c s =>
      refine iff_of_false ?_ (List.cons_ne_nil c s)
      cases c with
      | plain c ok => exact fun h => ok.1 (Option.some.inj h)
      | escape e => exact fun h => absurd (Option.some.inj h) (by decide)
      | unicode h₁ h₂ h₃ h₄ => exact fun h => absurd (Option.some.inj h) (by decide)

/-- A string is read where it fits. -/
theorem jsonString_ends (s : JsonString) :
    (jsonString room (s.text ++ quote :: rest)).2.head? = some quote ↔ s.length ≤ room := by
  rw [jsonString_text, head_text, List.drop_eq_nil_iff]

end Strings

/-! ### The lookup -/

section Lookup

variable (d : Document) (name : MemberName) (cap : Nat)

/-- The first member at any depth whose key is the name, or ends with an escaped quote and the name. -/
def Document.first : Option Entry := d.entries.find? fun e => Names name.bytes e.key

/-- What is returned is the string of a member at the top level with the name. -/
def ReturnsMember : Prop :=
  ∀ out, jsonGetString d.text name.text (cap + 1) = (true, out) →
    ∃ e ∈ d.own, JsonString.value e.key = name.bytes ∧
      jsonValueFor name.bytes d.text = some e.place ∧
      ∃ s, e.value = .str s ∧ out = s.map meantChar

/-- The first member that the name is found in, where it is a string that fits, stands at the top level
and has the name, and all of the string can be read. -/
def FirstIsMember : Prop :=
  ∀ e s, d.first name = some e → e.value = .str s → s.length ≤ cap →
    e ∈ d.own ∧ JsonString.value e.key = name.bytes ∧ ∀ c ∈ s, Readable c

variable {d name cap}

theorem jsonGetString_none (h : d.first name = none) :
    jsonGetString d.text name.text (cap + 1) = (false, []) := by
  have hfound := jsonValueFor_document name d
  rw [found, show List.find? _ _ = none from h] at hfound
  rw [jsonGetString, show jsonValueFor (ascii name.text) d.text = none from hfound]

theorem jsonValueFor_first {e : Entry} (h : d.first name = some e) :
    jsonValueFor name.bytes d.text = some e.place := by
  rw [jsonValueFor_document, found, show List.find? _ _ = some e from h]
  rfl

theorem jsonGetString_str {e : Entry} {s : JsonString} (h : d.first name = some e)
    (hs : e.value = .str s) :
    jsonGetString d.text name.text (cap + 1) = (decide (s.length ≤ cap), (s.take cap).map readChar) := by
  have hplace : e.place = 0x22 :: (s.text ++ quote :: e.behind) := by
    simp [Entry.place, hs, Json.text, Value.text, quote]
  have hvalue := jsonValueFor_first h
  rw [hplace] at hvalue
  rw [jsonGetString, show jsonValueFor (ascii name.text) d.text = some _ from hvalue]
  dsimp only
  rw [Nat.add_sub_cancel]
  refine Prod.ext ?_ (congrArg Prod.fst (jsonString_text cap e.behind s))
  exact decide_eq_decide.mpr (jsonString_ends cap e.behind s)

/-- Only a string starts with a quote. -/
theorem place_ne_quote {e : Entry} (hs : ∀ s, e.value ≠ .str s) (p : Bytes) :
    e.place ≠ quote :: p := by
  rw [Entry.place]
  cases hvalue : e.value with
  | str s => exact absurd hvalue (hs s)
  | num n =>
      intro heq
      have hne : n.text ≠ [] := by simp [Number.text, n.int.nonempty]
      obtain ⟨c, text, htext⟩ := List.exists_cons_of_ne_nil hne
      rw [Json.text, htext] at heq
      obtain ⟨rfl, _⟩ := List.cons.inj heq
      exact (plain_number n).quote_notMem (htext ▸ List.mem_cons_self)
  | _ => exact fun heq => absurd (List.cons.inj heq).1 (by decide)

theorem jsonGetString_other {e : Entry} (h : d.first name = some e) (hs : ∀ s, e.value ≠ .str s) :
    jsonGetString d.text name.text (cap + 1) = (false, []) := by
  have hvalue := jsonValueFor_first h
  rw [jsonGetString, show jsonValueFor (ascii name.text) d.text = some _ from hvalue]
  split
  · rename_i p hp
    exact absurd (Option.some.inj hp) (place_ne_quote hs p)
  · rfl

/-- What the updater reads for a name is the string of the member exactly where the first member the
name is found in is that member. -/
theorem returnsMember_iff : ReturnsMember d name cap ↔ FirstIsMember d name cap := by
  cases hfirst : d.first name with
  | none =>
      refine iff_of_true (fun out hout => ?_) (fun e s h => ?_)
      · rw [jsonGetString_none hfirst] at hout
        cases hout
      · rw [hfirst] at h
        cases h
  | some e =>
      have hmem : e ∈ d.entries := List.mem_of_find?_eq_some hfirst
      constructor
      · intro hret e' s he' hs hfit
        obtain rfl := Option.some.inj (hfirst.symm.trans he')
        have hread : jsonGetString d.text name.text (cap + 1) =
            (decide (s.length ≤ cap), (s.take cap).map readChar) := jsonGetString_str hfirst hs
        rw [decide_eq_true hfit, List.take_of_length_le hfit] at hread
        obtain ⟨e', hown, hkey, hplace, s', hs', hout⟩ := hret _ hread
        rw [jsonValueFor_first hfirst] at hplace
        obtain rfl := d.place_inj hmem (d.own_subset hown) (Option.some.inj hplace)
        obtain rfl := Json.str.inj (hs.symm.trans hs')
        exact ⟨hown, hkey, fun c hc => (readChar_eq_meant c).mp (List.map_inj_left.mp hout c hc)⟩
      · intro hgood out hout
        cases hvalue : e.value with
        | str s =>
            rw [jsonGetString_str hfirst hvalue] at hout
            obtain ⟨hfit, rfl⟩ := Prod.mk.inj hout
            have hfit := of_decide_eq_true hfit
            obtain ⟨hown, hkey, hread⟩ := hgood e s hfirst hvalue hfit
            refine ⟨e, hown, hkey, jsonValueFor_first hfirst, s, hvalue, ?_⟩
            rw [List.take_of_length_le hfit]
            exact List.map_congr_left fun c hc => (readChar_eq_meant c).mpr (hread c hc)
        | _ =>
            rw [jsonGetString_other hfirst (by simp [hvalue])] at hout
            cases hout

end Lookup

section Nested

def plainText (s : String) (ok : ∀ c ∈ ascii s, c ≠ quote ∧ c ≠ backslash ∧ 0x20 ≤ c) : JsonString :=
  (ascii s).attach.map fun c => .plain c.1 (ok c.1 c.2)

/-- `{"a":{"version":"x"}}` -/
def nestedVersion : Document where
  members :=
    .cons Ws.empty (plainText "a" (by decide +kernel)) Ws.empty Ws.empty
      (.obj Ws.empty
        (.cons Ws.empty (plainText "version" (by decide +kernel)) Ws.empty Ws.empty
          (.str (plainText "x" (by decide +kernel))) Ws.empty .nil))
      Ws.empty .nil

def versionName : MemberName := ⟨"version", by decide +kernel⟩

/-- The version of a nested object is returned for one the manifest does not have. -/
theorem nested_member_returned :
    nestedVersion.text = ascii "\x7b\"a\":\x7b\"version\":\"x\"\x7d\x7d" ∧
      jsonGetString nestedVersion.text "version" 64 = (true, ascii "x") ∧
      ¬ReturnsMember nestedVersion versionName 63 := by
  have hread : jsonGetString nestedVersion.text "version" 64 = (true, ascii "x") := by decide +kernel
  refine ⟨by decide +kernel, hread, fun hret => ?_⟩
  obtain ⟨e, hown, hkey, _⟩ := hret _ hread
  obtain rfl := List.mem_singleton.mp hown
  exact absurd hkey (by decide)

end Nested

end UnicornSuite.Manifest
