import UnicornSuite.ZmodemWire

/-! Headers of the vendored core (`zheaders.c`, `znumbers.c`, the rest of `zserial.c`) and the replies of
the Suite's side (`zm_send`, `zsend_pos`): what a helper hands to the transport is read back by
`zm_await_header`, and what `zm_await_header` takes is a header with a good check. -/

namespace UnicornSuite.Zmodem

/-! ### Digits -/

/-- `none` is `BAD_DIGIT`. -/
def zmHexToNybble (c : UInt8) : Option UInt8 :=
  if 0x30 ≤ c ∧ c ≤ 0x39 then some (c - 0x30)
  else if 0x61 ≤ c ∧ c ≤ 0x66 then some (c - 0x61 + 10)
  else none

def zmNybbleToHex (n : UInt8) : UInt8 := if n < 10 then 0x30 + n else 0x61 + (n - 10)

def zmByteToHex (b : UInt8) : List UInt8 := [zmNybbleToHex ((b &&& 0xf0) >>> 4), zmNybbleToHex (b &&& 0x0f)]

def zmHexToByte (c1 c2 : UInt8) : Option UInt8 :=
  match zmHexToNybble c1, zmHexToNybble c2 with
  | some n1, some n2 => some (n1 <<< 4 ||| n2)
  | _, _ => none

theorem forall_uint8 {P : UInt8 → Prop} (h : ∀ x : BitVec 8, P ⟨x⟩) (c : UInt8) : P c := h c.toBitVec

theorem zmHexToByte_byteToHex (b : UInt8) :
    zmHexToByte (zmNybbleToHex ((b &&& 0xf0) >>> 4)) (zmNybbleToHex (b &&& 0x0f)) = some b :=
  forall_uint8 (P := fun b => zmHexToByte (zmNybbleToHex ((b &&& 0xf0) >>> 4))
    (zmNybbleToHex (b &&& 0x0f)) = some b) (by decide +kernel) b

/-- A digit is no ZEOF and no NUL. -/
theorem zmByteToHex_ne (b : UInt8) : ∀ c ∈ zmByteToHex b, c ≠ 0x0b ∧ c ≠ 0 :=
  forall_uint8 (P := fun b => ∀ c ∈ zmByteToHex b, c ≠ 0x0b ∧ c ≠ 0) (by decide +kernel) b

/-! ### Headers -/

/-- `ZHDR`; of its union the four bytes of a position, which are `f3` to `f0` of the flags. -/
structure Zhdr where
  type : UInt8
  p0 : UInt8
  p1 : UInt8
  p2 : UInt8
  p3 : UInt8
  crc1 : UInt8
  crc2 : UInt8
  crc3 : UInt8
  crc4 : UInt8
  padding : UInt8
  deriving DecidableEq

namespace Zhdr

/-- The header a reader leaves that stored these bytes through its pointer: `memset` put 0xc0 under them. -/
def fill (bs : List UInt8) : Zhdr :=
  let at' (i : Nat) : UInt8 := bs.getD i 0xc0
  ⟨at' 0, at' 1, at' 2, at' 3, at' 4, at' 5, at' 6, at' 7, at' 8, at' 9⟩

/-- What the check is taken over. -/
def body (h : Zhdr) : List UInt8 := [h.type, h.p0, h.p1, h.p2, h.p3]

/-- The position as the worker reads it. -/
def position (h : Zhdr) : UInt32 :=
  h.p3.toUInt32 <<< 24 ||| h.p2.toUInt32 <<< 16 ||| h.p1.toUInt32 <<< 8 ||| h.p0.toUInt32

end Zhdr

def zmCalcHdrCrc (h : Zhdr) : Zhdr :=
  let crc := h.body.foldl (fun crc b => ucrc16 b crc) crcStartXmodem
  { h with
    crc1 := ⟨((crc &&& 0xff00#16) >>> 8).setWidth 8⟩
    crc2 := ⟨(crc &&& 0x00ff#16).setWidth 8⟩ }

def hexHdrStrLen : Nat := 0x11

def zmToHexHeader (h : Zhdr) (maxLen : Nat) : Except ZError (List UInt8) :=
  if maxLen < hexHdrStrLen then .error .outOfSpace
  else .ok (0x42 :: (zmByteToHex h.type ++ zmByteToHex h.p0 ++ zmByteToHex h.p1 ++ zmByteToHex h.p2 ++
    zmByteToHex h.p3 ++ zmByteToHex h.crc1 ++ zmByteToHex h.crc2 ++ [0x0d, 0x0a ||| 0x80]))

/-! ### The readers -/

/-- The loop of `zm_read_hex_header`: the bytes of so many pairs of digits. -/
def readHexPairs : Nat → Line → Except ZError Unit × List UInt8 × Line
  | 0, l => (.ok (), [], l)
  | n + 1, l =>
      match zmRecv l with
      | (.error e, l) => (.error e, [], l)
      | (.ok c1, l) =>
          if c1 = 0x0b then (.error .closed, [], l)
          else
            match zmRecv l with
            | (.error e, l) => (.error e, [], l)
            | (.ok c2, l) =>
                if c2 = 0x0b then (.error .closed, [], l)
                else
                  match zmHexToByte c1 c2 with
                  | none => (.error .badDigit, [], l)
                  | some b =>
                      let (r, bs, l) := readHexPairs n l
                      (r, b :: bs, l)

def zmCheckHeaderCrc16 (h : Zhdr) (crc : BitVec 16) : Except ZError Unit :=
  if btow h.crc1 h.crc2 = crc then .ok () else .error .badCrc

def zmCheckHeaderCrc32 (h : Zhdr) (crc : BitVec 32) : Except ZError Unit :=
  if btodw h.crc1 h.crc2 h.crc3 h.crc4 = crc then .ok () else .error .badCrc

/-- The end of the three readers: the bytes are in the header, and the check is over all but the last. -/
def finishHeader (check : Zhdr → Except ZError Unit) :
    Except ZError Unit × List UInt8 × Line → Except ZError Unit × Zhdr × Line
  | (.error e, bs, l) => (.error e, .fill bs, l)
  | (.ok (), bs, l) => (check (.fill bs), .fill bs, l)

def zmReadHexHeader (l : Line) : Except ZError Unit × Zhdr × Line :=
  finishHeader (fun h => zmCheckHeaderCrc16 h (h.body.foldl (fun crc b => ucrc16 b crc) crcStartXmodem))
    (readHexPairs 7 l)

def zmReadBinary16Header (l : Line) : Except ZError Unit × Zhdr × Line :=
  finishHeader (fun h => zmCheckHeaderCrc16 h (h.body.foldl (fun crc b => ucrc16 b crc) crcStartXmodem))
    (readValues 7 l)

def zmReadBinary32Header (l : Line) : Except ZError Unit × Zhdr × Line :=
  finishHeader (fun h => zmCheckHeaderCrc32 h (~~~h.body.foldl (fun crc b => ucrc32 b crc) crcStart32))
    (readValues 9 l)

def isLf (v : Escaped) : Bool := v = .value 0x0a || v = .value (0x0a ||| 0x80)

def isCr (v : Escaped) : Bool := v = .value 0x0d || v = .value (0x0d ||| 0x80)

def zmReadCrlf (l : Line) : Except ZError Unit × Line :=
  match zmReadEscaped l with
  | (.error e, l) => (.error e, l)
  | (.ok c, l) =>
      if isLf c then (.ok (), l)
      else if isCr c then
        match zmReadEscaped l with
        | (.error e, l) => (.error e, l)
        | (.ok c, l) => (if isLf c then .ok () else .error .corrupted, l)
      else (.error .corrupted, l)

def zmAwaitZdle : Line → Except ZError Unit × Line
  | [] => (.error .closed, [])
  | .error e :: l => (.error e, l)
  | .ok c :: l => if c = zdle then (.ok (), l) else zmAwaitZdle l

/-- What outlasts a call: the header and `in_32bit_block`. -/
structure Core where
  hdr : Zhdr
  wide : Bool
  deriving DecidableEq

theorem recvPastCan_suffix (n : Nat) (l : Line) : (recvPastCan n l).2 <:+ l := by
  induction n generalizing l with
  | zero =>
      cases l with
      | nil => exact List.suffix_rfl
      | cons r l => exact List.suffix_cons r l
  | succ n ih =>
      match l with
      | [] => exact List.suffix_rfl
      | .error e :: l => exact List.suffix_cons _ l
      | .ok c :: l =>
          rw [recvPastCan, zmRecv]
          by_cases h : c = zdle
          · simpa [h] using (ih l).trans (List.suffix_cons _ l)
          · simp [h]

theorem zmReadEscaped_suffix (l : Line) : (zmReadEscaped l).2 <:+ l := by
  induction l with
  | nil => exact List.suffix_rfl
  | cons r l ih =>
      cases r with
      | error e => exact List.suffix_cons _ l
      | ok c =>
          have hp := recvPastCan_suffix 3 l
          rw [zmReadEscaped]
          split_ifs
          · exact List.suffix_cons _ l
          · exact ih.trans (List.suffix_cons _ l)
          · rcases hr : recvPastCan 3 l with ⟨_ | d, m⟩ <;> rw [hr] at hp <;>
              exact hp.trans (List.suffix_cons _ l)
          · exact List.suffix_cons _ l

theorem zmAwaitZdle_length {l m : Line} (h : zmAwaitZdle l = (.ok (), m)) : m.length < l.length := by
  induction l with
  | nil => cases h
  | cons r l ih =>
      cases r with
      | error e => cases h
      | ok c =>
          rw [zmAwaitZdle] at h
          split_ifs at h
          · cases h
            exact Nat.lt_succ_self _
          · exact Nat.lt_succ_of_lt (ih h)

/-- The switch on the type of a header. -/
def readTyped (k : Core) (type : UInt8) (n : Line) : Except ZError Unit × Core × Line :=
  if type = 0x42 then
    match zmReadHexHeader n with
    | (.ok (), hdr, n) => ((zmReadCrlf n).1, ⟨hdr, false⟩, (zmReadCrlf n).2)
    | (.error e, hdr, n) => (.error e, ⟨hdr, false⟩, n)
  else if type = 0x41 then
    let (r, hdr, n) := zmReadBinary16Header n
    (r, ⟨hdr, false⟩, n)
  else if type = 0x43 then
    let (r, hdr, n) := zmReadBinary32Header n
    (r, ⟨hdr, true⟩, n)
  else (.error .badFrameType, k, n)

def zmAwaitHeader (k : Core) (l : Line) : Except ZError Unit × Core × Line :=
  match _hz : zmAwaitZdle l with
  | (.error _, l) => (.error .closed, k, l)
  | (.ok (), m) =>
      match _he : zmReadEscaped m with
      | (.error _, n) => zmAwaitHeader k n
      | (.ok v, n) => readTyped k v.zvalue n
termination_by l.length
decreasing_by
  have h1 := zmAwaitZdle_length _hz
  have h2 := zmReadEscaped_suffix m
  rw [_he] at h2
  exact Nat.lt_of_le_of_lt h2.length_le h1

theorem zmAwaitHeader_closed {k : Core} {l m : Line} {e : ZError} (h : zmAwaitZdle l = (.error e, m)) :
    zmAwaitHeader k l = (.error .closed, k, m) := by
  rw [zmAwaitHeader]
  split
  · next h' =>
      rw [h] at h'
      cases h'
      rfl
  · next h' =>
      rw [h] at h'
      cases h'

theorem zmAwaitHeader_retry {k : Core} {l m n : Line} {e : ZError} (h : zmAwaitZdle l = (.ok (), m))
    (he : zmReadEscaped m = (.error e, n)) : zmAwaitHeader k l = zmAwaitHeader k n := by
  rw [zmAwaitHeader]
  split
  · next h' =>
      rw [h] at h'
      cases h'
  · next h' =>
      rw [h] at h'
      cases h'
      split
      · next h'' =>
          rw [he] at h''
          cases h''
          rfl
      · next h'' =>
          rw [he] at h''
          cases h''

theorem zmAwaitHeader_typed {k : Core} {l m n : Line} {v : Escaped} (h : zmAwaitZdle l = (.ok (), m))
    (he : zmReadEscaped m = (.ok v, n)) : zmAwaitHeader k l = readTyped k v.zvalue n := by
  rw [zmAwaitHeader]
  split
  · next h' =>
      rw [h] at h'
      cases h'
  · next h' =>
      rw [h] at h'
      cases h'
      split
      · next h'' =>
          rw [he] at h''
          cases h''
      · next h'' =>
          rw [he] at h''
          cases h''
          rfl

/-! ### What a header is on the wire -/

/-- Pairs of digits that stand for bytes. -/
inductive HexPairs : List UInt8 → List UInt8 → Prop
  | nil : HexPairs [] []
  | cons {b c1 c2 : UInt8} {bs cs : List UInt8} (h : zmHexToByte c1 c2 = some b) (hs : HexPairs bs cs) :
      HexPairs (b :: bs) (c1 :: c2 :: cs)

/-- A line end: LF with or without the top bit, a CR before it or not. -/
def LineEnd (bs : List UInt8) : Prop :=
  ∃ lf : Escaped, isLf lf ∧
    (SentAll [lf] bs ∨ ∃ cr : Escaped, isCr cr ∧ SentAll [cr, lf] bs)

/-- The bytes behind the type of a header: its own with a good check, in digits or escaped, and behind
digits a line end. The flag is that of the 32-bit check. -/
inductive HeaderBody : UInt8 → Zhdr → Bool → List UInt8 → Prop
  | hex {bs cs e : List UInt8} (hc : HexPairs bs cs) (hn : bs.length = 7)
      (hg : checkGood false (bs.take 5) (bs.drop 5)) (he : LineEnd e) :
      HeaderBody 0x42 (.fill bs) false (cs ++ e)
  | bin (wide : Bool) {type : UInt8} (ht : type = if wide then 0x43 else 0x41) {vs : List Escaped}
      {cs : List UInt8} (hc : SentAll vs cs) (hn : vs.length = 5 + checkLen wide)
      (hg : checkGood wide ((vs.map Escaped.zvalue).take 5) ((vs.map Escaped.zvalue).drop 5)) :
      HeaderBody type (.fill (vs.map Escaped.zvalue)) wide cs

/-- The bytes behind the ZDLE of a header. -/
def HeaderSent (hdr : Zhdr) (wide : Bool) (bs : List UInt8) : Prop :=
  ∃ v t cs, bs = t ++ cs ∧ Sent v t ∧ HeaderBody v.zvalue hdr wide cs

theorem zmHexToByte_ne {c1 c2 b : UInt8} (h : zmHexToByte c1 c2 = some b) : c1 ≠ 0x0b ∧ c2 ≠ 0x0b := by
  constructor
  · rintro rfl
    simp [zmHexToByte, zmHexToNybble] at h
  · rintro rfl
    rw [zmHexToByte] at h
    cases zmHexToNybble c1 <;> simp [zmHexToNybble] at h

theorem readHexPairs_succ {n : Nat} {c1 c2 b : UInt8} (h : zmHexToByte c1 c2 = some b) (l : Line) :
    readHexPairs (n + 1) (.ok c1 :: .ok c2 :: l) =
      ((readHexPairs n l).1, b :: (readHexPairs n l).2.1, (readHexPairs n l).2.2) := by
  obtain ⟨h1, h2⟩ := zmHexToByte_ne h
  simp only [readHexPairs, zmRecv, if_neg h1, if_neg h2, h]

theorem readHexPairs_iff {n : Nat} {l rest : Line} {bs : List UInt8} :
    readHexPairs n l = (.ok (), bs, rest) ↔
      ∃ cs, HexPairs bs cs ∧ bs.length = n ∧ l = onLine cs rest := by
  constructor
  · intro h
    induction n generalizing l bs with
    | zero =>
        cases h
        exact ⟨[], .nil, rfl, rfl⟩
    | succ n ih =>
        rcases l with _ | ⟨_ | c1, l⟩
        · cases h
        · cases h
        · rw [readHexPairs, zmRecv] at h
          by_cases h1 : c1 = 0x0b
          · simp [h1] at h
          · simp only [if_neg h1] at h
            rcases l with _ | ⟨_ | c2, l⟩
            · cases h
            · cases h
            · simp only [zmRecv] at h
              by_cases h2 : c2 = 0x0b
              · simp [h2] at h
              · simp only [if_neg h2] at h
                cases hb : zmHexToByte c1 c2 with
                | none =>
                    rw [hb] at h
                    cases h
                | some b =>
                    rw [hb] at h
                    rcases hr : readHexPairs n l with ⟨r, bs', m⟩
                    simp only [hr] at h
                    cases h
                    obtain ⟨cs, hp, hn, rfl⟩ := ih hr
                    exact ⟨c1 :: c2 :: cs, .cons hb hp, congrArg (· + 1) hn, rfl⟩
  · rintro ⟨cs, hp, rfl, rfl⟩
    induction hp with
    | nil => rfl
    | cons h _ ih => rw [List.length_cons, onLine_cons, onLine_cons, readHexPairs_succ h, ih]

theorem hexPairs_flatMap (bs : List UInt8) : HexPairs bs (bs.flatMap zmByteToHex) := by
  induction bs with
  | nil => exact .nil
  | cons b bs ih => exact .cons (zmHexToByte_byteToHex b) ih

theorem zmReadCrlf_iff {l rest : Line} :
    zmReadCrlf l = (.ok (), rest) ↔ ∃ bs, LineEnd bs ∧ l = onLine bs rest := by
  constructor
  · intro h
    rcases hr : zmReadEscaped l with ⟨_ | c, m⟩
    · rw [zmReadCrlf, hr] at h
      cases h
    · obtain ⟨bs, hs, rfl⟩ := sent_of_zmReadEscaped hr
      rw [zmReadCrlf, hr] at h
      by_cases hl : isLf c
      · simp only [if_pos hl] at h
        cases h
        exact ⟨bs, ⟨c, hl, .inl (by simpa using SentAll.cons hs .nil)⟩, rfl⟩
      · simp only [if_neg hl] at h
        by_cases hc : isCr c
        · simp only [if_pos hc] at h
          rcases hr' : zmReadEscaped m with ⟨_ | d, m'⟩
          · rw [hr'] at h
            cases h
          · obtain ⟨cs, hs', rfl⟩ := sent_of_zmReadEscaped hr'
            rw [hr'] at h
            by_cases hd : isLf d
            · simp only [if_pos hd] at h
              cases h
              refine ⟨bs ++ cs, ⟨d, hd, .inr ⟨c, hc, ?_⟩⟩, (onLine_append _ _ _).symm⟩
              simpa using SentAll.cons hs (SentAll.cons hs' .nil)
            · simp only [if_neg hd] at h
              cases h
        · simp only [if_neg hc] at h
          cases h
  · rintro ⟨bs, ⟨lf, hlf, hs | ⟨cr, hcr, hs⟩⟩, rfl⟩
    · match hs with
      | .cons h .nil =>
          rw [zmReadCrlf, onLine_append, zmReadEscaped_sent h]
          simp only [if_pos hlf]
          rfl
    · have hne : ¬isLf cr = true := by
        intro h
        simp only [isLf, isCr, Bool.or_eq_true, decide_eq_true_eq] at h hcr
        rcases hcr with rfl | rfl <;> rcases h with h | h <;> cases h
      match hs with
      | .cons h (.cons h' .nil) =>
          rw [zmReadCrlf, onLine_append, zmReadEscaped_sent h]
          simp only [if_neg hne, if_pos hcr]
          rw [onLine_append, zmReadEscaped_sent h']
          simp only [if_pos hlf]
          rfl

/-- The check of a header over its bytes. -/
theorem check_fill16 {bs : List UInt8} (hn : bs.length = 7) :
    zmCheckHeaderCrc16 (.fill bs) ((Zhdr.fill bs).body.foldl (fun crc b => ucrc16 b crc) crcStartXmodem) =
      if checkGood false (bs.take 5) (bs.drop 5) then .ok () else .error .badCrc := by
  match bs, hn with
  | [a, b, c, d, e, f, g], _ => simp [zmCheckHeaderCrc16, checkGood, Zhdr.fill, Zhdr.body, zmCalcDataCrc]

theorem check_fill32 {bs : List UInt8} (hn : bs.length = 9) :
    zmCheckHeaderCrc32 (.fill bs) (~~~(Zhdr.fill bs).body.foldl (fun crc b => ucrc32 b crc) crcStart32) =
      if checkGood true (bs.take 5) (bs.drop 5) then .ok () else .error .badCrc := by
  match bs, hn with
  | [a, b, c, d, e, f, g, h, i], _ =>
      simp [zmCheckHeaderCrc32, checkGood, Zhdr.fill, Zhdr.body, zmCalcDataCrc32]

theorem finishHeader_ok {check : Zhdr → Except ZError Unit} {x : Except ZError Unit × List UInt8 × Line}
    {hdr : Zhdr} {rest : Line} (h : finishHeader check x = (.ok (), hdr, rest)) :
    ∃ bs, x = (.ok (), bs, rest) ∧ hdr = .fill bs ∧ check (.fill bs) = .ok () := by
  match x, h with
  | (.ok (), bs, l), h =>
      obtain ⟨h1, h2⟩ := Prod.mk.inj h
      obtain ⟨h2, h3⟩ := Prod.mk.inj h2
      exact ⟨bs, by rw [h3], h2.symm, h1⟩

theorem ok_of_ite {p : Prop} [Decidable p] {e : ZError}
    (h : (if p then .ok () else .error e : Except ZError Unit) = .ok ()) : p := by
  by_contra hp
  rw [if_neg hp] at h
  cases h

theorem zmReadHexHeader_iff {hdr : Zhdr} {l rest : Line} :
    zmReadHexHeader l = (.ok (), hdr, rest) ↔ ∃ bs cs, HexPairs bs cs ∧ bs.length = 7 ∧
      checkGood false (bs.take 5) (bs.drop 5) ∧ l = onLine cs rest ∧ hdr = .fill bs := by
  constructor
  · intro h
    obtain ⟨bs, hr, rfl, hc⟩ := finishHeader_ok h
    obtain ⟨cs, hp, hn, rfl⟩ := readHexPairs_iff.mp hr
    rw [check_fill16 hn] at hc
    exact ⟨bs, cs, hp, hn, ok_of_ite hc, rfl, rfl⟩
  · rintro ⟨bs, cs, hp, hn, hg, rfl, rfl⟩
    rw [zmReadHexHeader, readHexPairs_iff.mpr ⟨cs, hp, hn, rfl⟩, finishHeader, check_fill16 hn, if_pos hg]

/-- Both binary readers. -/
theorem finishHeader_values_iff (wide : Bool) {check : Zhdr → Except ZError Unit}
    (hcheck : ∀ bs : List UInt8, bs.length = 5 + checkLen wide →
      check (.fill bs) = if checkGood wide (bs.take 5) (bs.drop 5) then .ok () else .error .badCrc)
    {hdr : Zhdr} {l rest : Line} :
    finishHeader check (readValues (5 + checkLen wide) l) = (.ok (), hdr, rest) ↔
      ∃ vs cs, SentAll vs cs ∧ vs.length = 5 + checkLen wide ∧
        checkGood wide ((vs.map Escaped.zvalue).take 5) ((vs.map Escaped.zvalue).drop 5) ∧
        l = onLine cs rest ∧ hdr = .fill (vs.map Escaped.zvalue) := by
  constructor
  · intro h
    obtain ⟨bs, hr, rfl, hc⟩ := finishHeader_ok h
    obtain ⟨vs, cs, hs, rfl, hn, rfl⟩ := readValues_iff.mp hr
    rw [hcheck _ (by simpa using hn)] at hc
    exact ⟨vs, cs, hs, hn, ok_of_ite hc, rfl, rfl⟩
  · rintro ⟨vs, cs, hs, hn, hg, rfl, rfl⟩
    rw [readValues_iff.mpr ⟨vs, cs, hs, rfl, hn, rfl⟩, finishHeader, hcheck _ (by simpa using hn),
      if_pos hg]

theorem zmAwaitZdle_ok {l m : Line} (h : zmAwaitZdle l = (.ok (), m)) :
    ∃ before : List UInt8, zdle ∉ before ∧ l = onLine before (.ok zdle :: m) := by
  induction l with
  | nil => cases h
  | cons r l ih =>
      cases r with
      | error e => cases h
      | ok c =>
          rw [zmAwaitZdle] at h
          split_ifs at h with hc
          · cases h
            exact ⟨[], by simp, by rw [hc, onLine_nil]⟩
          · obtain ⟨before, hb, rfl⟩ := ih h
            exact ⟨c :: before, by simpa [hb] using fun e => hc e.symm, rfl⟩

theorem zmAwaitZdle_onLine {noise : List UInt8} (h : zdle ∉ noise) (m : Line) :
    zmAwaitZdle (onLine noise (.ok zdle :: m)) = (.ok (), m) := by
  induction noise with
  | nil => rfl
  | cons c noise ih =>
      rw [List.mem_cons, not_or] at h
      obtain ⟨hc, hn⟩ := h
      rw [onLine_cons, zmAwaitZdle, if_neg (fun e => hc e.symm)]
      exact ih hn

theorem readTyped_ok {k k' : Core} {type : UInt8} {n rest : Line}
    (h : readTyped k type n = (.ok (), k', rest)) :
    ∃ bs, HeaderBody type k'.hdr k'.wide bs ∧ n = onLine bs rest := by
  unfold readTyped at h
  split_ifs at h with h42 h41 h43
  · rcases hr : zmReadHexHeader n with ⟨_ | _, hdr, m⟩
    · rw [hr] at h
      cases h
    · simp only [hr] at h
      obtain ⟨hl, h2⟩ := Prod.mk.inj h
      obtain ⟨rfl, hm⟩ := Prod.mk.inj h2
      obtain ⟨e, he, rfl⟩ := zmReadCrlf_iff.mp (Prod.ext hl hm)
      obtain ⟨bs, cs, hp, hn, hg, rfl, rfl⟩ := zmReadHexHeader_iff.mp hr
      rw [h42]
      exact ⟨cs ++ e, .hex hp hn hg he, (onLine_append _ _ _).symm⟩
  · rcases hr : zmReadBinary16Header n with ⟨r, hdr, m⟩
    simp only [hr] at h
    cases h
    obtain ⟨vs, cs, hs, hn, hg, rfl, rfl⟩ :=
      (finishHeader_values_iff false fun _ => check_fill16).mp hr
    exact ⟨cs, .bin false h41 hs hn hg, rfl⟩
  · rcases hr : zmReadBinary32Header n with ⟨r, hdr, m⟩
    simp only [hr] at h
    cases h
    obtain ⟨vs, cs, hs, hn, hg, rfl, rfl⟩ :=
      (finishHeader_values_iff true fun _ => check_fill32).mp hr
    exact ⟨cs, .bin true h43 hs hn hg, rfl⟩
  · cases h

theorem readTyped_sent (k : Core) {type : UInt8} {hdr : Zhdr} {wide : Bool} {bs : List UInt8}
    (h : HeaderBody type hdr wide bs) (rest : Line) :
    readTyped k type (onLine bs rest) = (.ok (), ⟨hdr, wide⟩, rest) := by
  cases h with
  | @hex bs cs e hc hn hg he =>
      have hr : zmReadHexHeader (onLine cs (onLine e rest)) = (.ok (), .fill bs, onLine e rest) :=
        zmReadHexHeader_iff.mpr ⟨bs, cs, hc, hn, hg, rfl, rfl⟩
      rw [readTyped, if_pos rfl, onLine_append, hr]
      simp only [zmReadCrlf_iff.mpr ⟨e, he, rfl⟩]
  | @bin _ _ ht vs _ hc hn hg =>
      cases wide with
      | false =>
          have hr : zmReadBinary16Header (onLine bs rest) = _ :=
            (finishHeader_values_iff false fun _ => check_fill16).mpr ⟨vs, bs, hc, hn, hg, rfl, rfl⟩
          obtain rfl : type = 0x41 := ht
          rw [readTyped, if_neg (by decide), if_pos rfl, hr]
      | true =>
          have hr : zmReadBinary32Header (onLine bs rest) = _ :=
            (finishHeader_values_iff true fun _ => check_fill32).mpr ⟨vs, bs, hc, hn, hg, rfl, rfl⟩
          obtain rfl : type = 0x43 := ht
          rw [readTyped, if_neg (by decide), if_neg (by decide), if_pos rfl, hr]

/-- What `zm_await_header` takes was sent as a header. -/
theorem zmAwaitHeader_ok {k k' : Core} {l rest : Line} (h : zmAwaitHeader k l = (.ok (), k', rest)) :
    ∃ before bs, HeaderSent k'.hdr k'.wide bs ∧ l = before ++ .ok zdle :: onLine bs rest := by
  induction hl : l.length using Nat.strongRecOn generalizing l with
  | ind len ih =>
      rcases hz : zmAwaitZdle l with ⟨_ | _, m⟩
      · rw [zmAwaitHeader_closed hz] at h
        cases h
      · have hlen := zmAwaitZdle_length hz
        obtain ⟨noise, -, rfl⟩ := zmAwaitZdle_ok hz
        rcases he : zmReadEscaped m with ⟨_ | v, n⟩
        · rw [zmAwaitHeader_retry hz he] at h
          have hn := zmReadEscaped_suffix m
          rw [he] at hn
          have hlt : n.length < len := hl ▸ Nat.lt_of_le_of_lt hn.length_le hlen
          obtain ⟨skipped, rfl⟩ := hn
          obtain ⟨before, bs, hs, rfl⟩ := ih n.length hlt h rfl
          exact ⟨noise.map .ok ++ (.ok zdle :: (skipped ++ before)), bs, hs, by simp [onLine]⟩
        · rw [zmAwaitHeader_typed hz he] at h
          obtain ⟨t, ht, rfl⟩ := sent_of_zmReadEscaped he
          obtain ⟨bs, hb, rfl⟩ := readTyped_ok h
          exact ⟨noise.map .ok, t ++ bs, ⟨v, t, bs, rfl, ht, hb⟩, by rw [onLine_append, onLine]⟩

/-- **A header sent is taken**, whatever stands before it but a ZDLE. -/
theorem zmAwaitHeader_sent (k : Core) {hdr : Zhdr} {wide : Bool} {bs : List UInt8}
    (h : HeaderSent hdr wide bs) {noise : List UInt8} (hn : zdle ∉ noise) (rest : Line) :
    zmAwaitHeader k (onLine (noise ++ zdle :: bs) rest) = (.ok (), ⟨hdr, wide⟩, rest) := by
  obtain ⟨v, t, cs, rfl, ht, hb⟩ := h
  rw [onLine_append, onLine_cons, zmAwaitHeader_typed (zmAwaitZdle_onLine hn _) (by
    rw [onLine_append]
    exact zmReadEscaped_sent ht _)]
  exact readTyped_sent k hb rest

/-- An escape brings none of the three letters: what is read as one of them stood on the line. -/
theorem sent_letter {v : Escaped} {t : List UInt8} (h : Sent v t)
    (hv : v.zvalue = 0x41 ∨ v.zvalue = 0x42 ∨ v.zvalue = 0x43) : v.zvalue ∈ t := by
  induction h with
  | plain c _ => exact List.mem_cons_self
  | escaped k hk c v h =>
      have key := forall_uint8 (P := fun c => ((unescape c).toOption.all fun v =>
        v.zvalue != 0x41 && v.zvalue != 0x42 && v.zvalue != 0x43) = true) (by decide +kernel) c
      rw [h] at key
      simp [Except.toOption] at key
      tauto
  | flow c _ _ ih => exact List.mem_cons_of_mem _ (ih hv)

/-- **A cancel is not seen between frames.** On a line without one of the three letters, so on any number
of CANs with anything else between and behind them, `zm_await_header` never says that the transfer was
cancelled: it says that the line closed or that the frame type is bad. -/
theorem zmAwaitHeader_no_cancel (k : Core) (l : Line)
    (h : ∀ c : UInt8, c = 0x41 ∨ c = 0x42 ∨ c = 0x43 → .ok c ∉ l) :
    (zmAwaitHeader k l).1 = .error .closed ∨ (zmAwaitHeader k l).1 = .error .badFrameType := by
  induction hl : l.length using Nat.strongRecOn generalizing l with
  | ind len ih =>
      rcases hz : zmAwaitZdle l with ⟨_ | _, m⟩
      · rw [zmAwaitHeader_closed hz]
        exact .inl rfl
      · have hlen := zmAwaitZdle_length hz
        have hm : ∀ r ∈ m, r ∈ l := by
          obtain ⟨noise, -, rfl⟩ := zmAwaitZdle_ok hz
          intro r hr
          exact List.mem_append_right _ (List.mem_cons_of_mem _ hr)
        rcases he : zmReadEscaped m with ⟨_ | v, n⟩
        · rw [zmAwaitHeader_retry hz he]
          have hn := zmReadEscaped_suffix m
          rw [he] at hn
          exact ih n.length (hl ▸ Nat.lt_of_le_of_lt hn.length_le hlen) n
            (fun c hc hmem => h c hc (hm _ (hn.subset hmem))) rfl
        · obtain ⟨t, ht, rfl⟩ := sent_of_zmReadEscaped he
          have hv : ¬(v.zvalue = 0x41 ∨ v.zvalue = 0x42 ∨ v.zvalue = 0x43) := fun hv =>
            h _ hv (hm _ (List.mem_append_left _ (List.mem_map_of_mem (sent_letter ht hv))))
          rw [not_or, not_or] at hv
          rw [zmAwaitHeader_typed hz he, readTyped, if_neg hv.2.1, if_neg hv.1, if_neg hv.2.2]
          exact .inr rfl

/-- The cancel of a sender, eight CANs and ten backspaces. -/
theorem zmAwaitHeader_no_cancel_eight :
    (zmAwaitHeader ⟨.fill [], false⟩ (List.replicate 8 (.ok zdle) ++ List.replicate 10 (.ok 0x08))).1 =
        .error .closed ∨
      (zmAwaitHeader ⟨.fill [], false⟩ (List.replicate 8 (.ok zdle) ++ List.replicate 10 (.ok 0x08))).1 =
        .error .badFrameType :=
  zmAwaitHeader_no_cancel ⟨.fill [], false⟩ _ (by
    rintro c (rfl | rfl | rfl) <;> simp [zdle])

/-! ### The replies -/

def zmrSendBuf : Nat := 256

/-- The transport of a session: what `send_fn` was given call by call, the send buffer, and whether a
call failed. -/
structure Transport where
  calls : List (List UInt8) := []
  pending : List UInt8 := []
  failed : Bool := false

/-- All that was given to `zm_send`. -/
def Transport.handed (t : Transport) : List UInt8 := t.calls.flatten ++ t.pending

section

-- Whether the call of `send_fn` of a number succeeds, and the memory behind the header's buffer:
-- `zm_send_sz` goes to a NUL, and the buffer has room for the header only.
variable (answer : Nat → Bool) (past : List UInt8)

def zsendFlush (t : Transport) : Transport :=
  if t.pending = [] then t
  else ⟨t.calls ++ [t.pending], [], t.failed || !answer t.calls.length⟩

def zmSend (c : UInt8) (t : Transport) : Except ZError Unit × Transport :=
  let t := { t with pending := t.pending ++ [c] }
  let t := if t.pending.length ≥ zmrSendBuf then zsendFlush answer t else t
  (if t.failed then .error .closed else .ok (), t)

def zmSendSz : List UInt8 → Transport → Except ZError Unit × Transport
  | [], t => (.ok (), t)
  | c :: cs, t =>
      if c = 0 then (.ok (), t)
      else
        match zmSend answer c t with
        | (.error e, t) => (.error e, t)
        | (.ok (), t) => zmSendSz cs t

def zpad : UInt8 := 0x2a

def justSendHexHdr (buf : List UInt8) (t : Transport) : Except ZError Unit × Transport :=
  let t := (zmSend answer zpad t).2
  let t := (zmSend answer zpad t).2
  let t := (zmSend answer zdle t).2
  match zmSendSz answer (buf ++ past) t with
  | (.error e, t) => (.error e, t)
  | (.ok (), t) => zmSend answer xon t

def zmSendHexHdr (hdr : Zhdr) (t : Transport) : Except ZError Unit × Transport :=
  match zmToHexHeader (zmCalcHdrCrc hdr) hexHdrStrLen with
  | .error e => (.error e, t)
  | .ok buf => justSendHexHdr answer past buf t

/-- The header `zm_send_pos_hdr` keeps: of a static one nothing else is ever set. -/
def posHdr (type : UInt8) (pos : UInt32) : Zhdr :=
  ⟨type, (pos &&& 0xff).toUInt8, (pos >>> 8).toUInt8 &&& 0xff, (pos >>> 16).toUInt8 &&& 0xff,
    (pos >>> 24).toUInt8 &&& 0xff, 0, 0, 0, 0, 0⟩

def flagsHdr (type f0 f1 f2 f3 : UInt8) : Zhdr := ⟨type, f3, f2, f1, f0, 0, 0, 0, 0, 0⟩

/-- `zsend_pos` and `zsend_flags`: a header, and what is left of it in the buffer. -/
def zsendHdr (hdr : Zhdr) (t : Transport) : Except ZError Unit × Transport :=
  let (r, t) := zmSendHexHdr answer past hdr t
  let t := zsendFlush answer t
  (if t.failed then .error .closed else r, t)

def zsendPos (type : UInt8) (pos : UInt32) (t : Transport) : Except ZError Unit × Transport :=
  zsendHdr answer past (posHdr type pos) t

def zsendFlags (type f0 f1 f2 f3 : UInt8) (t : Transport) : Except ZError Unit × Transport :=
  zsendHdr answer past (flagsHdr type f0 f1 f2 f3) t

/-- What a header is as it leaves. -/
def hexFrame (hdr : Zhdr) : List UInt8 :=
  let h := zmCalcHdrCrc hdr
  [zpad, zpad, zdle, 0x42] ++ [h.type, h.p0, h.p1, h.p2, h.p3, h.crc1, h.crc2].flatMap zmByteToHex ++
    [0x0d, 0x0a ||| 0x80] ++ past.takeWhile (· ≠ 0) ++ [xon]

theorem zsendFlush_handed (t : Transport) : (zsendFlush answer t).handed = t.handed := by
  rw [zsendFlush]
  split_ifs with h
  · rfl
  · simp [Transport.handed]

theorem zsendFlush_pending (t : Transport) : (zsendFlush answer t).pending = [] := by
  rw [zsendFlush]
  split_ifs with h
  · exact h
  · rfl

theorem zmSend_handed (c : UInt8) (t : Transport) : (zmSend answer c t).2.handed = t.handed ++ [c] := by
  have h : ({ t with pending := t.pending ++ [c] } : Transport).handed = t.handed ++ [c] := by
    simp [Transport.handed]
  rw [← h]
  by_cases hfull : (t.pending ++ [c]).length ≥ zmrSendBuf
  · simp only [zmSend, if_pos hfull]
    exact zsendFlush_handed answer _
  · simp only [zmSend, if_neg hfull]

theorem zmSendSz_handed {mem : List UInt8} {t t' : Transport} (h : zmSendSz answer mem t = (.ok (), t')) :
    t'.handed = t.handed ++ mem.takeWhile (· ≠ 0) := by
  induction mem generalizing t with
  | nil =>
      cases h
      exact (List.append_nil _).symm
  | cons c cs ih =>
      rw [zmSendSz] at h
      by_cases hc : c = 0
      · rw [if_pos hc] at h
        cases h
        simp [hc]
      · rw [if_neg hc] at h
        rcases hs : zmSend answer c t with ⟨_ | _, u⟩
        · rw [hs] at h
          cases h
        · rw [hs] at h
          have hu := zmSend_handed answer c t
          rw [hs] at hu
          rw [ih h, hu]
          simp [hc]

theorem zmToHexHeader_eq (h : Zhdr) :
    zmToHexHeader h hexHdrStrLen = .ok (0x42 :: ([h.type, h.p0, h.p1, h.p2, h.p3, h.crc1, h.crc2].flatMap
      zmByteToHex ++ [0x0d, 0x0a ||| 0x80])) := by
  rw [zmToHexHeader, if_neg (Nat.lt_irrefl _)]
  simp only [List.flatMap_cons, List.flatMap_nil, List.append_nil, List.append_assoc]

theorem takeWhile_hex (bs past : List UInt8) :
    ((0x42 :: (bs.flatMap zmByteToHex ++ [0x0d, 0x0a ||| 0x80])) ++ past).takeWhile (· ≠ 0) =
      0x42 :: (bs.flatMap zmByteToHex ++ [0x0d, 0x0a ||| 0x80]) ++ past.takeWhile (· ≠ 0) := by
  rw [List.takeWhile_append_of_pos]
  intro c hc
  simp only [List.mem_cons, List.mem_append, List.mem_flatMap] at hc
  rcases hc with rfl | ⟨b, -, hb⟩ | rfl | rfl | hc
  · decide
  · simpa using (zmByteToHex_ne b c hb).2
  · decide
  · decide
  · cases hc

/-- A reply whose helper says OK left whole, and nothing of it stays behind. -/
theorem zsendHdr_ok {hdr : Zhdr} {t t' : Transport} (h : zsendHdr answer past hdr t = (.ok (), t')) :
    t'.calls.flatten = t.handed ++ hexFrame past hdr ∧ t'.pending = [] ∧ t'.failed = false := by
  rw [zsendHdr] at h
  rcases hs : zmSendHexHdr answer past hdr t with ⟨r, u⟩
  rw [hs] at h
  simp only [Prod.mk.injEq] at h
  obtain ⟨hr, rfl⟩ := h
  have hpend := zsendFlush_pending answer u
  have hf : (zsendFlush answer u).failed = false := by
    by_contra hf
    rw [Bool.not_eq_false] at hf
    rw [if_pos hf] at hr
    cases hr
  rw [hf, if_neg Bool.false_ne_true] at hr
  subst hr
  refine ⟨?_, hpend, hf⟩
  have hu : (zsendFlush answer u).calls.flatten = u.handed := by
    rw [← zsendFlush_handed answer u, Transport.handed, hpend, List.append_nil]
  rw [hu]
  rw [zmSendHexHdr, zmToHexHeader_eq] at hs
  simp only [justSendHexHdr] at hs
  rcases hz : zmSendSz answer (0x42 :: (_ ++ [0x0d, 0x0a ||| 0x80]) ++ past)
    (zmSend answer zdle (zmSend answer zpad (zmSend answer zpad t).2).2).2 with ⟨_ | _, w⟩
  · rw [hz] at hs
    cases hs
  · rw [hz] at hs
    change zmSend answer xon w = (.ok (), u) at hs
    have hx := zmSend_handed answer xon w
    rw [hs] at hx
    rw [hx, zmSendSz_handed answer hz, takeWhile_hex, zmSend_handed, zmSend_handed, zmSend_handed, hexFrame]
    simp

theorem zsendFlush_accepted {t : Transport} (ht : t.failed = false) :
    (zsendFlush (fun _ => true) t).failed = false := by
  rw [zsendFlush]
  split_ifs
  · exact ht
  · simp [ht]

theorem zmSend_accepted (c : UInt8) {t : Transport} (ht : t.failed = false) :
    ∃ u, zmSend (fun _ => true) c t = (.ok (), u) ∧ u.failed = false := by
  by_cases hfull : (t.pending ++ [c]).length ≥ zmrSendBuf
  · have h := zsendFlush_accepted (t := { t with pending := t.pending ++ [c] }) ht
    exact ⟨_, by simp only [zmSend, if_pos hfull, h, Bool.false_eq_true, if_false], h⟩
  · refine ⟨{ t with pending := t.pending ++ [c] }, ?_, ht⟩
    simp only [zmSend, if_neg hfull]
    rw [if_neg (by simp [ht])]

theorem zmSendSz_accepted (mem : List UInt8) {t : Transport} (ht : t.failed = false) :
    ∃ u, zmSendSz (fun _ => true) mem t = (.ok (), u) ∧ u.failed = false := by
  induction mem generalizing t with
  | nil => exact ⟨t, rfl, ht⟩
  | cons c cs ih =>
      rw [zmSendSz]
      split_ifs
      · exact ⟨t, rfl, ht⟩
      · obtain ⟨u, hu, hf⟩ := zmSend_accepted c ht
        rw [hu]
        exact ih hf

/-- To a transport that takes everything a helper says OK. -/
theorem zsendHdr_accepted (past : List UInt8) (hdr : Zhdr) {t : Transport} (ht : t.failed = false) :
    ∃ t', zsendHdr (fun _ => true) past hdr t = (.ok (), t') := by
  obtain ⟨a, ha, hfa⟩ := zmSend_accepted zpad ht
  obtain ⟨b, hb, hfb⟩ := zmSend_accepted zpad hfa
  obtain ⟨c, hc, hfc⟩ := zmSend_accepted zdle hfb
  obtain ⟨d, hd, hfd⟩ := zmSendSz_accepted (0x42 :: (_ ++ [0x0d, 0x0a ||| 0x80]) ++ past) hfc
  obtain ⟨e, he, hfe⟩ := zmSend_accepted xon hfd
  have hs : zmSendHexHdr (fun _ => true) past hdr t = (.ok (), e) := by
    rw [zmSendHexHdr, zmToHexHeader_eq]
    simp only [justSendHexHdr, ha, hb, hc]
    rw [hd]
    exact he
  refine ⟨zsendFlush (fun _ => true) e, ?_⟩
  simp only [zsendHdr, hs, zsendFlush_accepted hfe, Bool.false_eq_true, if_false]

end

/-- The check of `zm_calc_hdr_crc` is good. -/
theorem checkGood_calc (hdr : Zhdr) :
    checkGood false (zmCalcHdrCrc hdr).body [(zmCalcHdrCrc hdr).crc1, (zmCalcHdrCrc hdr).crc2] := by
  have h : ∀ crc : BitVec 16, btow ⟨((crc &&& 0xff00#16) >>> 8).setWidth 8⟩
      ⟨(crc &&& 0x00ff#16).setWidth 8⟩ = crc := by
    intro crc
    have hmask : ∀ i, i < 16 → (0xff00#16).getLsbD i = decide (8 ≤ i) := by decide
    rw [btow_eq]
    apply BitVec.eq_of_getLsbD_eq
    intro i hi
    rw [BitVec.getLsbD_append]
    by_cases h : i < 8
    · have hff := getLsbD_ff hi
      simp only [BitVec.getLsbD_setWidth, BitVec.getLsbD_and, hff, h, decide_true, Bool.true_and,
        Bool.and_true, if_true]
    · have h1 : i - 8 < 8 := by omega
      have h2 : 8 + (i - 8) = i := by omega
      have h3 : 8 ≤ i := by omega
      simp only [BitVec.getLsbD_setWidth, BitVec.getLsbD_ushiftRight, BitVec.getLsbD_and, h, h1, h2,
        hmask i hi, h3, decide_true, decide_false, Bool.true_and, Bool.and_true, if_false]
  exact beq_iff_eq.mpr (h _)

/-- The header the far end has of one that left: nothing was stored in the bytes behind its check. -/
def received (hdr : Zhdr) : Zhdr :=
  { zmCalcHdrCrc hdr with crc3 := 0xc0, crc4 := 0xc0, padding := 0xc0 }

/-- A header as it leaves is one on the wire. -/
theorem hexFrame_sent (past : List UInt8) (hdr : Zhdr) : ∃ bs,
    hexFrame past hdr = [zpad, zpad] ++ zdle :: bs ++ (past.takeWhile (· ≠ 0) ++ [xon]) ∧
      HeaderSent (received hdr) false bs := by
  let h := zmCalcHdrCrc hdr
  have hbody : HeaderBody 0x42 (received hdr) false
      ([h.type, h.p0, h.p1, h.p2, h.p3, h.crc1, h.crc2].flatMap zmByteToHex ++ [0x0d, 0x0a ||| 0x80]) :=
    .hex (hexPairs_flatMap [h.type, h.p0, h.p1, h.p2, h.p3, h.crc1, h.crc2]) rfl (checkGood_calc hdr)
      ⟨.value (0x0a ||| 0x80), by decide, .inr ⟨.value 0x0d, by decide,
        .cons (.plain _ (by decide)) (.cons (.plain _ (by decide)) .nil)⟩⟩
  refine ⟨[0x42] ++ _, ?_, .value 0x42, [0x42], _, rfl, .plain _ (by decide), hbody⟩
  simp [hexFrame, h]

theorem getLsbD_byte (x : BitVec 32) (k : Nat) {j : Nat} (hj : j < 8) :
    ((x >>> k).setWidth 8 &&& 0xff#8).getLsbD j = x.getLsbD (k + j) := by
  rw [BitVec.getLsbD_and, getLsbD_ff hj, BitVec.getLsbD_setWidth, BitVec.getLsbD_ushiftRight]
  simp [hj]

theorem position_posHdr (type : UInt8) (pos : UInt32) : (received (posHdr type pos)).position = pos := by
  apply UInt32.toBitVec_inj.mp
  have e : (received (posHdr type pos)).position.toBitVec = btodw (pos &&& 0xff).toUInt8
      ((pos >>> 8).toUInt8 &&& 0xff) ((pos >>> 16).toUInt8 &&& 0xff) ((pos >>> 24).toUInt8 &&& 0xff) := by
    rfl
  have h0 : (pos &&& 0xff).toUInt8.toBitVec = (pos.toBitVec >>> 0).setWidth 8 &&& 0xff#8 := by
    simp
  have h8 : ((pos >>> 8).toUInt8 &&& 0xff).toBitVec = (pos.toBitVec >>> 8).setWidth 8 &&& 0xff#8 := by simp
  have h16 : ((pos >>> 16).toUInt8 &&& 0xff).toBitVec = (pos.toBitVec >>> 16).setWidth 8 &&& 0xff#8 := by simp
  have h24 : ((pos >>> 24).toUInt8 &&& 0xff).toBitVec = (pos.toBitVec >>> 24).setWidth 8 &&& 0xff#8 := by simp
  rw [e, btodw_eq, h0, h8, h16, h24]
  apply BitVec.eq_of_getLsbD_eq
  intro i hi
  simp only [BitVec.getLsbD_append]
  by_cases h1 : i < 8
  · rw [if_pos h1, getLsbD_byte _ _ h1, Nat.zero_add]
  · by_cases h2 : i - 8 < 8
    · rw [if_neg h1, if_pos h2, getLsbD_byte _ _ h2]
      congr 1
      omega
    · by_cases h3 : i - 8 - 8 < 8
      · rw [if_neg h1, if_neg h2, if_pos h3, getLsbD_byte _ _ h3]
        congr 1
        omega
      · rw [if_neg h1, if_neg h2, if_neg h3, getLsbD_byte _ _ (by omega)]
        congr 1
        omega

/-- **A reply is read as it was meant.** When `zsend_pos` says OK, the transport was given some bytes for
it, and `zm_await_header` at the far end finds the type and the position in them, whatever noise without
a ZDLE stands before them and whatever comes behind. -/
theorem zsendPos_arrives (answer : Nat → Bool) (past : List UInt8) (type : UInt8) (pos : UInt32)
    {t t' : Transport} (h : zsendPos answer past type pos t = (.ok (), t')) :
    ∃ bytes, t'.calls.flatten = t.handed ++ bytes ∧ t'.pending = [] ∧
      ∀ (k : Core) (noise : List UInt8) (rest : Line), zdle ∉ noise → ∃ hdr l,
        zmAwaitHeader k (onLine (noise ++ bytes) rest) = (.ok (), ⟨hdr, false⟩, l) ∧ hdr.type = type ∧
          hdr.position = pos ∧ l = onLine (past.takeWhile (· ≠ 0) ++ [xon]) rest := by
  obtain ⟨hcalls, hpend, -⟩ := zsendHdr_ok answer past h
  obtain ⟨bs, hbs, hsent⟩ := hexFrame_sent past (posHdr type pos)
  refine ⟨_, hcalls, hpend, fun k noise rest hn => ⟨_, _, ?_, rfl, position_posHdr type pos, rfl⟩⟩
  have hn' : zdle ∉ noise ++ [zpad, zpad] := by
    simp [hn]
    decide
  have e : noise ++ hexFrame past (posHdr type pos) =
      (noise ++ [zpad, zpad]) ++ zdle :: bs ++ (past.takeWhile (· ≠ 0) ++ [xon]) := by
    rw [hbs]
    simp
  rw [e, onLine_append]
  exact zmAwaitHeader_sent k hsent hn' _

/-- A ZRPOS to a transport that takes it. -/
theorem zsendPos_arrives_rpos :
    ∃ t' : Transport, ∃ bytes, t'.calls.flatten = ({} : Transport).handed ++ bytes ∧ t'.pending = [] ∧
      ∀ (k : Core) (noise : List UInt8) (rest : Line), zdle ∉ noise → ∃ hdr l,
        zmAwaitHeader k (onLine (noise ++ bytes) rest) = (.ok (), ⟨hdr, false⟩, l) ∧ hdr.type = 0x09 ∧
          hdr.position = 0x1234 ∧ l = onLine (([] : List UInt8).takeWhile (· ≠ 0) ++ [xon]) rest :=
  (zsendHdr_accepted [] (posHdr 0x09 0x1234) rfl).imp fun _ h =>
    zsendPos_arrives (fun _ => true) [] 0x09 0x1234 h

/-- **Exactly the headers are taken.** What `zm_await_header` calls a header was sent as one behind a ZDLE,
in digits or escaped, with a good check; and a header sent so is taken, whatever stands before it but a
ZDLE. -/
theorem zmAwaitHeader_takes (k : Core) :
    (∀ (k' : Core) (l rest : Line), zmAwaitHeader k l = (.ok (), k', rest) →
      ∃ before bs, HeaderSent k'.hdr k'.wide bs ∧ l = before ++ .ok zdle :: onLine bs rest) ∧
    (∀ (hdr : Zhdr) (wide : Bool) (noise bs : List UInt8) (rest : Line), HeaderSent hdr wide bs →
      zdle ∉ noise →
        zmAwaitHeader k (onLine (noise ++ zdle :: bs) rest) = (.ok (), ⟨hdr, wide⟩, rest)) :=
  ⟨fun _ _ _ => zmAwaitHeader_ok, fun _ _ _ _ rest h hn => zmAwaitHeader_sent k h hn rest⟩

end UnicornSuite.Zmodem
