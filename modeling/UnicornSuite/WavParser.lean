import UnicornSuite.LibChain
import UnicornSuite.LibText

/-! The WAV files that the audio player takes for TrueSpeech (`wav_parser.c`). A read outside of the buffer
has no value. `size_t` has 64 bits, so that a position in a buffer and a size of 32 bits do not wrap. -/

namespace UnicornSuite.Wav

open CText Chain

/-! ### The code -/

/-- `WAV_FORMAT_TRUESPEECH` -/
def wavFormatTruespeech : Nat := 0x0022

/-- The return codes other than `WAV_OK`. -/
inductive WavError where
  | args | notRiff | truncated | noFmt | noData | unsupportedFormat
  deriving DecidableEq

/-- `wav_truespeech_info_t` -/
structure WavInfo where
  formatTag : Nat := 0
  channels : Nat := 0
  sampleRate : Nat := 0
  avgBytesPerSec : Nat := 0
  blockAlign : Nat := 0
  bitsPerSample : Nat := 0
  cbSize : Nat := 0
  dataOffset : Nat := 0
  dataLength : Nat := 0
  deriving DecidableEq

section Code

variable (b : List UInt8)

def le16 (p : Nat) : Option Nat :=
  (b[p]?).bind fun x => (b[p + 1]?).map fun y => x.toNat + y.toNat * 256

def le32 (p : Nat) : Option Nat :=
  (le16 b p).bind fun x => (le16 b (p + 2)).map fun y => x + y * 65536

def fourccEq (p : Nat) (cc : String) : Option Bool :=
  (b[p]?).bind fun c0 => (b[p + 1]?).bind fun c1 => (b[p + 2]?).bind fun c2 =>
    (b[p + 3]?).map fun c3 => [c0, c1, c2, c3] = ascii cc

/-- The fields of a format chunk. -/
def readFmt (payload sz : Nat) (info : WavInfo) : Option WavInfo :=
  (le16 b payload).bind fun formatTag =>
  (le16 b (payload + 2)).bind fun channels =>
  (le32 b (payload + 4)).bind fun sampleRate =>
  (le32 b (payload + 8)).bind fun avgBytesPerSec =>
  (le16 b (payload + 12)).bind fun blockAlign =>
  (le16 b (payload + 14)).bind fun bitsPerSample =>
  (if sz ≥ 18 then le16 b (payload + 16) else some 0).map fun cbSize =>
    { info with formatTag, channels, sampleRate, avgBytesPerSec, blockAlign, bitsPerSample, cbSize }

/-- What the loop carries. -/
structure Walk where
  pos : Nat
  haveFmt : Bool := false
  haveData : Bool := false
  info : WavInfo := {}

/-- Behind the payload, which is padded to an even length. -/
def advance (payload sz : Nat) (w : Walk) : Except WavError Walk :=
  let n := sz + sz % 2
  if payload + n < payload then .error .truncated else .ok { w with pos := payload + n }

/-- One chunk, of which the header is in the buffer. -/
def wavChunk (w : Walk) : Option (Except WavError Walk) :=
  (le32 b (w.pos + 4)).bind fun sz =>
    let payload := w.pos + 8
    if payload + sz > b.length then some (.error .truncated)
    else
      (fourccEq b w.pos "fmt ").bind fun isFmt =>
        if isFmt then
          if sz < 16 then some (.error .truncated)
          else
            (readFmt b payload sz w.info).map fun info =>
              if info.formatTag ≠ wavFormatTruespeech then .error .unsupportedFormat
              else advance payload sz { w with haveFmt := true, info := info }
        else
          (fourccEq b w.pos "data").map fun isData =>
            if isData then
              advance payload sz { w with
                haveData := true
                info := { w.info with dataOffset := payload % 2 ^ 32, dataLength := sz } }
            else advance payload sz w

theorem advance_pos {payload sz : Nat} {w w' : Walk} (h : advance payload sz w = .ok w') :
    w'.pos = payload + (sz + sz % 2) := by
  simp only [advance] at h
  split at h
  · cases h
  · obtain rfl := Except.ok.inj h
    rfl

theorem wavChunk_pos {w w' : Walk} (h : wavChunk b w = some (.ok w')) : w.pos < w'.pos := by
  have hadvance {sz : Nat} {v : Walk} (h : advance (w.pos + 8) sz v = .ok w') : w.pos < w'.pos := by
    rw [advance_pos h]
    omega
  simp only [wavChunk, Option.bind_eq_some_iff] at h
  obtain ⟨sz, -, h⟩ := h
  split at h
  · cases h
  · obtain ⟨isFmt, -, h⟩ := Option.bind_eq_some_iff.mp h
    split at h
    · split at h
      · cases h
      · obtain ⟨info, -, h⟩ := Option.map_eq_some_iff.mp h
        split at h
        · cases h
        · exact hadvance h
    · obtain ⟨isData, -, h⟩ := Option.map_eq_some_iff.mp h
      split at h
      · exact hadvance h
      · exact hadvance h

/-- The loop, which ends where both chunks were seen. -/
def wavLoop (w : Walk) : Option (Except WavError Walk) :=
  if w.pos + 8 ≤ b.length then
    match _ : wavChunk b w with
    | some (.ok w') => if w'.haveFmt ∧ w'.haveData then some (.ok w') else wavLoop w'
    | r => r
  else some (.ok w)
termination_by b.length - w.pos
decreasing_by
  have hpos := wavChunk_pos b ‹_›
  omega

/-- `wav_parse_truespeech` -/
def wavParseTruespeech : Option (Except WavError WavInfo) :=
  if b.length < 12 then some (.error .args)
  else
    (fourccEq b 0 "RIFF").bind fun isRiff =>
      if ¬ isRiff then some (.error .notRiff)
      else
        (fourccEq b 8 "WAVE").bind fun isWave =>
          if ¬ isWave then some (.error .notRiff)
          else
            (wavLoop b { pos := 12 }).map fun r =>
              match r with
              | .error e => .error e
              | .ok w =>
                  if ¬ w.haveFmt then .error .noFmt
                  else if ¬ w.haveData then .error .noData
                  else .ok w.info

end Code

/-! ### Chunks -/

/-- A chunk in a buffer. -/
structure Chunk where
  id : List UInt8
  offset : Nat
  size : Nat
  deriving DecidableEq

section Chunks

variable (b : List UInt8)

def byteAt (p : Nat) : Nat := (b.getD p 0).toNat

def u16 (p : Nat) : Nat := byteAt b p + byteAt b (p + 1) * 256

def u32 (p : Nat) : Nat := u16 b p + u16 b (p + 2) * 65536

/-- The chunk that starts at a position, where it lies in the buffer. -/
def chunkAt (pos : Nat) : Option Chunk :=
  if pos + 8 ≤ b.length ∧ pos + 8 + u32 b (pos + 4) ≤ b.length then
    some ⟨(b.drop pos).take 4, pos + 8, u32 b (pos + 4)⟩
  else none

/-- A chunk is padded to an even length. -/
def Chunk.next (c : Chunk) : Nat := c.offset + c.size + c.size % 2

def Chunk.isFmt (c : Chunk) : Bool := c.id = ascii "fmt "

def Chunk.isData (c : Chunk) : Bool := c.id = ascii "data"

/-- A format chunk of TrueSpeech has the 16 bytes of the core and says so. -/
def Chunk.TrueSpeech (c : Chunk) : Prop := 16 ≤ c.size ∧ u16 b c.offset = wavFormatTruespeech

/-- The last chunk of a kind, or the one there was before. -/
def last (p : Chunk → Bool) (before : Option Chunk) (cs : List Chunk) : Option Chunk :=
  (cs.reverse.find? p).or before

/-- The fields that stand for a format chunk and a data chunk. -/
def infoOf (f d : Option Chunk) : WavInfo where
  formatTag := f.elim 0 fun c => u16 b c.offset
  channels := f.elim 0 fun c => u16 b (c.offset + 2)
  sampleRate := f.elim 0 fun c => u32 b (c.offset + 4)
  avgBytesPerSec := f.elim 0 fun c => u32 b (c.offset + 8)
  blockAlign := f.elim 0 fun c => u16 b (c.offset + 12)
  bitsPerSample := f.elim 0 fun c => u16 b (c.offset + 14)
  cbSize := f.elim 0 fun c => if c.size ≥ 18 then u16 b (c.offset + 16) else 0
  dataOffset := d.elim 0 Chunk.offset
  dataLength := d.elim 0 Chunk.size

/-- Chunks that stand behind one another from a position on: a format chunk is one of TrueSpeech, and with
those seen before there are a format chunk and a data chunk. -/
structure Suffices (pos : Nat) (f d : Option Chunk) (cs : List Chunk) : Prop where
  chunks : From (chunkAt b) Chunk.next pos cs
  fmt : ∀ c ∈ cs, c.isFmt = true → c.TrueSpeech b
  hasFmt : (last Chunk.isFmt f cs).isSome = true
  hasData : (last Chunk.isData d cs).isSome = true

end Chunks

section Reads

variable {b : List UInt8} {p : Nat}

theorem getElem?_of_lt (h : p < b.length) : b[p]? = some (b.getD p 0) := by
  rw [List.getD_eq_getElem?_getD, List.getElem?_eq_getElem h, Option.getD_some]

theorem le16_eq (h : p + 2 ≤ b.length) : le16 b p = some (u16 b p) := by
  rw [le16, getElem?_of_lt (by omega), getElem?_of_lt (by omega)]
  rfl

theorem le32_eq (h : p + 4 ≤ b.length) : le32 b p = some (u32 b p) := by
  rw [le32, le16_eq (by omega), le16_eq (by omega)]
  rfl

theorem fourccEq_eq (h : p + 4 ≤ b.length) (cc : String) :
    fourccEq b p cc = some (decide ((b.drop p).take 4 = ascii cc)) := by
  have htake : (b.drop p).take 4 = [b.getD p 0, b.getD (p + 1) 0, b.getD (p + 2) 0, b.getD (p + 3) 0] := by
    have hcons {q : Nat} (hq : q < b.length) : b.drop q = b.getD q 0 :: b.drop (q + 1) := by
      rw [List.drop_eq_getElem_cons hq, List.getD_eq_getElem?_getD, List.getElem?_eq_getElem hq,
        Option.getD_some]
    rw [hcons (by omega), hcons (q := p + 1) (by omega), hcons (q := p + 1 + 1) (by omega),
      hcons (q := p + 1 + 1 + 1) (by omega)]
    rfl
  rw [fourccEq, getElem?_of_lt (by omega), getElem?_of_lt (by omega), getElem?_of_lt (by omega),
    getElem?_of_lt (by omega), htake]
  rfl

end Reads

/-! ### The loop -/

/-- `data_offset` has 32 bits. -/
def WavInfo.stored (info : WavInfo) : WavInfo := { info with dataOffset := info.dataOffset % 2 ^ 32 }

/-- The loop at a position, with the chunks it has seen. -/
def walkAt (b : List UInt8) (pos : Nat) (f d : Option Chunk) : Walk :=
  ⟨pos, f.isSome, d.isSome, (infoOf b f d).stored⟩

section Loop

variable {b : List UInt8} {pos : Nat} {f d : Option Chunk} {c : Chunk} {cs : List Chunk}

theorem chunkAt_some (h : chunkAt b pos = some c) :
    pos + 8 + c.size ≤ b.length ∧ c.offset = pos + 8 ∧ c.size = u32 b (pos + 4) ∧
      c.id = (b.drop pos).take 4 := by
  unfold chunkAt at h
  split at h
  · rename_i hin
    obtain rfl := Option.some.inj h
    exact ⟨hin.2, rfl, rfl, rfl⟩
  · cases h

theorem readFmt_eq (hsize : 16 ≤ c.size) (hin : c.offset + c.size ≤ b.length) :
    readFmt b c.offset c.size (infoOf b f d).stored = some (infoOf b (some c) d).stored := by
  have hextra : (if c.size ≥ 18 then le16 b (c.offset + 16) else some 0) =
      some (if c.size ≥ 18 then u16 b (c.offset + 16) else 0) := by
    split
    · exact le16_eq (by omega)
    · rfl
  rw [readFmt, le16_eq (by omega), le16_eq (by omega), le32_eq (by omega), le32_eq (by omega),
    le16_eq (by omega), le16_eq (by omega), hextra]
  rfl

theorem advance_next (hoffset : c.offset = pos + 8) (w : Walk) :
    advance (pos + 8) c.size w = .ok { w with pos := c.next } := by
  simp only [advance]
  rw [if_neg (by omega), Chunk.next, hoffset, Nat.add_assoc (pos + 8)]

/-- What a chunk comes to. -/
theorem wavChunk_eq (hpos : pos + 8 ≤ b.length) :
    wavChunk b (walkAt b pos f d) =
      match chunkAt b pos with
      | none => some (.error .truncated)
      | some c =>
          if c.isFmt then
            if c.size < 16 then some (.error .truncated)
            else if u16 b c.offset ≠ wavFormatTruespeech then some (.error .unsupportedFormat)
            else some (.ok (walkAt b c.next (some c) d))
          else if c.isData then some (.ok (walkAt b c.next f (some c)))
          else some (.ok (walkAt b c.next f d)) := by
  have hsize : le32 b ((walkAt b pos f d).pos + 4) = some (u32 b (pos + 4)) :=
    le32_eq (by show pos + 4 + 4 ≤ _; omega)
  rw [wavChunk, hsize, Option.bind_some]
  cases hchunk : chunkAt b pos with
  | none =>
      have hout : pos + 8 + u32 b (pos + 4) > b.length := by
        unfold chunkAt at hchunk
        split at hchunk
        · cases hchunk
        · omega
      exact if_pos hout
  | some c =>
      obtain ⟨hin, hoffset, hsz, hid⟩ := chunkAt_some hchunk
      have hfmt : fourccEq b (walkAt b pos f d).pos "fmt " = some c.isFmt := by
        rw [fourccEq_eq (by show pos + 4 ≤ _; omega), Chunk.isFmt, hid]
        rfl
      have hdata : fourccEq b (walkAt b pos f d).pos "data" = some c.isData := by
        rw [fourccEq_eq (by show pos + 4 ≤ _; omega), Chunk.isData, hid]
        rfl
      rw [← hsz]
      simp only [hfmt, hdata, Option.bind_some, Option.map_some]
      rw [if_neg (by show ¬ pos + 8 + c.size > b.length; omega)]
      by_cases hkind : c.isFmt = true
      · rw [if_pos hkind, if_pos hkind]
        by_cases hshort : c.size < 16
        · rw [if_pos hshort, if_pos hshort]
        · have hread := readFmt_eq (b := b) (c := c) (f := f) (d := d) (by omega) (by omega)
          rw [hoffset] at hread
          rw [if_neg hshort, if_neg hshort]
          show Option.map _ (readFmt b (pos + 8) c.size (infoOf b f d).stored) = _
          rw [hread, Option.map_some]
          have htag : (infoOf b (some c) d).stored.formatTag = u16 b c.offset := rfl
          rw [htag]
          split
          · rfl
          · exact congrArg some (advance_next hoffset _)
      · rw [if_neg hkind, if_neg hkind]
        split
        · have hstored : (pos + 8) % 2 ^ 32 = c.offset % 2 ^ 32 := by rw [hoffset]
          refine congrArg some ((advance_next hoffset _).trans ?_)
          simp only [walkAt, hstored]
          rfl
        · exact congrArg some (advance_next hoffset _)

/-- The chunks that were seen, with one more. -/
def see (p : Chunk → Bool) (before : Option Chunk) (c : Chunk) : Option Chunk :=
  if p c then some c else before

theorem last_cons (p : Chunk → Bool) (before : Option Chunk) (c : Chunk) (cs : List Chunk) :
    last p before (c :: cs) = last p (see p before c) cs := by
  rw [last, last, see, List.reverse_cons, List.find?_append, Option.or_assoc]
  congr 1
  by_cases hp : p c = true
  · simp [hp]
  · simp [hp]

theorem suffices_cons :
    Suffices b pos f d (c :: cs) ↔
      chunkAt b pos = some c ∧ (c.isFmt = true → c.TrueSpeech b) ∧
        Suffices b c.next (see Chunk.isFmt f c) (see Chunk.isData d c) cs := by
  constructor
  · rintro ⟨hchunks, hfmt, hhasFmt, hhasData⟩
    obtain ⟨hfound, hrest⟩ := from_cons_iff.mp hchunks
    rw [last_cons] at hhasFmt hhasData
    exact ⟨hfound, hfmt c List.mem_cons_self, hrest, fun c' hc' => hfmt c' (List.mem_cons_of_mem c hc'),
      hhasFmt, hhasData⟩
  · rintro ⟨hfound, hgood, hrest, hfmt, hhasFmt, hhasData⟩
    refine ⟨from_cons_iff.mpr ⟨hfound, hrest⟩, ?_, ?_, ?_⟩
    · intro c' hc'
      rcases List.mem_cons.mp hc' with rfl | hc'
      · exact hgood
      · exact hfmt c' hc'
    · rw [last_cons]
      exact hhasFmt
    · rw [last_cons]
      exact hhasData

theorem suffices_nil : Suffices b pos f d [] ↔ f.isSome = true ∧ d.isSome = true := by
  constructor
  · rintro ⟨-, -, hfmt, hdata⟩
    exact ⟨hfmt, hdata⟩
  · rintro ⟨hfmt, hdata⟩
    exact ⟨.nil pos, fun c hc => absurd hc List.not_mem_nil, hfmt, hdata⟩

/-- How the loop may end: with chunks that suffice, and not with less than it needs, or where none do. -/
def Settles (b : List UInt8) (pos : Nat) (f d : Option Chunk) : Except WavError Walk → Prop
  | .error _ => ∀ cs, ¬ Suffices b pos f d cs
  | .ok w =>
      ¬ (w.haveFmt = true ∧ w.haveData = true) ∧ (∀ cs, ¬ Suffices b pos f d cs) ∨
        ∃ cs, Shortest (Suffices b pos f d) cs ∧
          ∃ q, w = walkAt b q (last Chunk.isFmt f cs) (last Chunk.isData d cs)

theorem wavLoop_chunk {w : Walk} {r : Except WavError Walk} (hpos : w.pos + 8 ≤ b.length)
    (hchunk : wavChunk b w = some r) :
    wavLoop b w =
      match r with
      | .error e => some (.error e)
      | .ok w' => if w'.haveFmt ∧ w'.haveData then some (.ok w') else wavLoop b w' := by
  rw [wavLoop, if_pos hpos]
  cases r with
  | error e =>
      split
      · rename_i w' hnext
        cases hchunk.symm.trans hnext
      · exact hchunk
  | ok w =>
      split
      · rename_i w' hnext
        obtain rfl : w = w' := Except.ok.inj (Option.some.inj (hchunk.symm.trans hnext))
        rfl
      · rename_i hnot
        exact absurd hchunk (hnot w)

/-- Behind a chunk that is passed over the loop settles as it does from there. -/
theorem Settles.cons {r : Except WavError Walk} {f' d' : Option Chunk}
    (hiff : ∀ cs, Suffices b pos f d (c :: cs) ↔ Suffices b c.next f' d' cs)
    (hmust : ∀ cs, Suffices b pos f d cs → ∃ cs', cs = c :: cs')
    (hlast : ∀ cs, last Chunk.isFmt f (c :: cs) = last Chunk.isFmt f' cs ∧
      last Chunk.isData d (c :: cs) = last Chunk.isData d' cs)
    (h : Settles b c.next f' d' r) : Settles b pos f d r := by
  have hnone (h : ∀ cs, ¬ Suffices b c.next f' d' cs) : ∀ cs, ¬ Suffices b pos f d cs := by
    intro cs hcs
    obtain ⟨cs', rfl⟩ := hmust cs hcs
    exact h cs' ((hiff cs').mp hcs)
  have hnil : ¬ Suffices b pos f d [] := by
    intro h
    obtain ⟨cs, hcs⟩ := hmust [] h
    cases hcs
  cases r with
  | error e => exact hnone h
  | ok w =>
      rcases h with ⟨hneed, hno⟩ | ⟨cs, hshortest, q, hw⟩
      · exact Or.inl ⟨hneed, hnone hno⟩
      · refine Or.inr ⟨c :: cs, shortest_cons hiff hnil hshortest, q, ?_⟩
        rw [(hlast cs).1, (hlast cs).2]
        exact hw

theorem Chunk.not_isData (hfmt : c.isFmt = true) : c.isData = false := by
  rw [Chunk.isFmt, decide_eq_true_eq] at hfmt
  rw [Chunk.isData, hfmt]
  decide

theorem wavChunk_good (hpos : pos + 8 ≤ b.length) (hfound : chunkAt b pos = some c)
    (hgood : c.isFmt = true → c.TrueSpeech b) :
    wavChunk b (walkAt b pos f d) =
      some (.ok (walkAt b c.next (see Chunk.isFmt f c) (see Chunk.isData d c))) := by
  rw [wavChunk_eq hpos, hfound]
  by_cases hfmt : c.isFmt = true
  · obtain ⟨hsize, htag⟩ := hgood hfmt
    have hdata := Chunk.not_isData hfmt
    simp only [see, hfmt, hdata, ↓reduceIte, Bool.false_eq_true]
    rw [if_neg (by omega), if_neg (not_not.mpr htag)]
  · rw [Bool.not_eq_true] at hfmt
    cases hdata : c.isData with
    | false => simp only [see, hfmt, hdata, ↓reduceIte, Bool.false_eq_true]
    | true => simp only [see, hfmt, hdata, ↓reduceIte, Bool.false_eq_true]

theorem wavChunk_bad (hpos : pos + 8 ≤ b.length) (hfound : chunkAt b pos = some c)
    (hfmt : c.isFmt = true) (hbad : ¬ c.TrueSpeech b) :
    ∃ e, wavChunk b (walkAt b pos f d) = some (.error e) := by
  rw [wavChunk_eq hpos, hfound]
  simp only [hfmt, ↓reduceIte]
  by_cases hsize : c.size < 16
  · exact ⟨_, if_pos hsize⟩
  · rw [if_neg hsize]
    exact ⟨_, if_pos fun htag => hbad ⟨by omega, htag⟩⟩

/-- The loop ends without a read outside of the buffer. -/
theorem wavLoop_settles (hneed : ¬ (f.isSome = true ∧ d.isSome = true)) :
    ∃ r, wavLoop b (walkAt b pos f d) = some r ∧ Settles b pos f d r := by
  induction hn : b.length - pos using Nat.strongRecOn generalizing pos f d with
  | ind n ih =>
      subst hn
      have hmust {cs : List Chunk} (hcs : Suffices b pos f d cs) : ∃ c cs', cs = c :: cs' ∧
          chunkAt b pos = some c ∧ (c.isFmt = true → c.TrueSpeech b) := by
        cases cs with
        | nil => exact absurd (suffices_nil.mp hcs) hneed
        | cons c cs => exact ⟨c, cs, rfl, (suffices_cons.mp hcs).1, (suffices_cons.mp hcs).2.1⟩
      by_cases hpos : pos + 8 ≤ b.length
      · cases hfound : chunkAt b pos with
        | none =>
            have hchunk := wavChunk_eq (f := f) (d := d) hpos
            rw [hfound] at hchunk
            refine ⟨_, wavLoop_chunk hpos hchunk, fun cs hcs => ?_⟩
            obtain ⟨c, cs', -, hc, -⟩ := hmust hcs
            cases hfound.symm.trans hc
        | some c =>
            by_cases hgood : c.isFmt = true → c.TrueSpeech b
            · have hchunk := wavChunk_good (f := f) (d := d) hpos hfound hgood
              have hiff (cs : List Chunk) : Suffices b pos f d (c :: cs) ↔
                  Suffices b c.next (see Chunk.isFmt f c) (see Chunk.isData d c) cs := by
                rw [suffices_cons, and_iff_right hfound, and_iff_right hgood]
              have hcons (cs : List Chunk) (hcs : Suffices b pos f d cs) : ∃ cs', cs = c :: cs' := by
                obtain ⟨c', cs', rfl, hc, -⟩ := hmust hcs
                exact ⟨cs', by rw [Option.some.inj (hfound.symm.trans hc)]⟩
              have hsettles {r : Except WavError Walk}
                  (h : Settles b c.next (see Chunk.isFmt f c) (see Chunk.isData d c) r) :
                  Settles b pos f d r :=
                h.cons hiff hcons fun cs => ⟨last_cons _ _ _ _, last_cons _ _ _ _⟩
              have hloop := wavLoop_chunk hpos hchunk
              simp only at hloop
              by_cases hboth : (see Chunk.isFmt f c).isSome = true ∧ (see Chunk.isData d c).isSome = true
              · rw [hloop]
                refine ⟨_, if_pos hboth, hsettles (Or.inr ⟨[], ?_, c.next, rfl⟩)⟩
                exact shortest_nil (suffices_nil.mpr hboth)
              · have hin := chunkAt_some hfound
                have hnext : pos < c.next := by
                  rw [Chunk.next]
                  omega
                obtain ⟨r, hr, hsettle⟩ := ih (b.length - c.next) (by omega) hboth rfl
                rw [hloop]
                exact ⟨r, (if_neg hboth).trans hr, hsettles hsettle⟩
            · obtain ⟨hfmt, hbad⟩ := Classical.not_imp.mp hgood
              obtain ⟨e, hchunk⟩ := wavChunk_bad (f := f) (d := d) hpos hfound hfmt hbad
              refine ⟨_, wavLoop_chunk hpos hchunk, fun cs hcs => ?_⟩
              obtain ⟨c', cs', -, hc, hgood'⟩ := hmust hcs
              obtain rfl := Option.some.inj (hfound.symm.trans hc)
              exact hgood hgood'
      · have hloop : wavLoop b (walkAt b pos f d) = some (.ok (walkAt b pos f d)) := by
          rw [wavLoop]
          exact if_neg hpos
        refine ⟨_, hloop, Or.inl ⟨hneed, fun cs hcs => ?_⟩⟩
        obtain ⟨c, cs', -, hc, -⟩ := hmust hcs
        have hin := (chunkAt_some hc).1
        omega

end Loop

/-! ### The grammar -/

/-- A RIFF header of the form WAVE and chunks behind it, among them a format chunk and a data chunk; a
format chunk is one of TrueSpeech. -/
structure Accepted (b : List UInt8) (cs : List Chunk) : Prop where
  riff : b.take 4 = ascii "RIFF"
  wave : (b.drop 8).take 4 = ascii "WAVE"
  chunks : From (chunkAt b) Chunk.next 12 cs
  fmt : ∀ c ∈ cs, c.isFmt = true → c.TrueSpeech b
  hasFmt : ∃ c ∈ cs, c.isFmt = true
  hasData : ∃ c ∈ cs, c.isData = true

section Grammar

variable {b : List UInt8} {cs : List Chunk}

theorem isSome_last (p : Chunk → Bool) (cs : List Chunk) :
    (last p none cs).isSome = true ↔ ∃ c ∈ cs, p c = true := by
  rw [last, Option.or_none, List.find?_isSome]
  simp

theorem accepted_iff (hriff : b.take 4 = ascii "RIFF") (hwave : (b.drop 8).take 4 = ascii "WAVE")
    (cs : List Chunk) : Accepted b cs ↔ Suffices b 12 none none cs := by
  constructor
  · rintro ⟨-, -, hchunks, hfmt, hhasFmt, hhasData⟩
    exact ⟨hchunks, hfmt, (isSome_last _ _).mpr hhasFmt, (isSome_last _ _).mpr hhasData⟩
  · rintro ⟨hchunks, hfmt, hhasFmt, hhasData⟩
    exact ⟨hriff, hwave, hchunks, hfmt, (isSome_last _ _).mp hhasFmt, (isSome_last _ _).mp hhasData⟩

/-- The code accepts what the grammar does, and reports the last format chunk and the last data chunk up to
where both were seen, the offset in 32 bits. -/
theorem wavParseTruespeech_grammar (b : List UInt8) :
    ∃ r, wavParseTruespeech b = some r ∧
      match r with
      | .error _ => ∀ cs, ¬ Accepted b cs
      | .ok info => ∃ cs f d, Shortest (Accepted b) cs ∧ last Chunk.isFmt none cs = some f ∧
          last Chunk.isData none cs = some d ∧ info = (infoOf b (some f) (some d)).stored := by
  by_cases hlen : b.length < 12
  · refine ⟨_, if_pos hlen, fun cs hcs => ?_⟩
    have hwave := congrArg List.length hcs.wave
    have hfour : (ascii "WAVE").length = 4 := by decide
    rw [hfour, List.length_take, List.length_drop] at hwave
    omega
  · rw [wavParseTruespeech, if_neg hlen, fourccEq_eq (by omega), fourccEq_eq (by omega), List.drop_zero]
    simp only [Option.bind_some, decide_eq_true_eq]
    by_cases hriff : b.take 4 = ascii "RIFF"
    · rw [if_neg (not_not.mpr hriff)]
      by_cases hwave : (b.drop 8).take 4 = ascii "WAVE"
      · rw [if_neg (not_not.mpr hwave)]
        have hiff := accepted_iff hriff hwave
        obtain ⟨r, hloop, hsettles⟩ : ∃ r, wavLoop b (walkAt b 12 none none) = some r ∧
            Settles b 12 none none r := wavLoop_settles (by decide)
        have hstart : ({ pos := 12 } : Walk) = walkAt b 12 none none := rfl
        rw [hstart, hloop, Option.map_some]
        refine ⟨_, rfl, ?_⟩
        cases r with
        | error e => exact fun cs hcs => hsettles cs ((hiff cs).mp hcs)
        | ok w =>
            rcases hsettles with ⟨hneed, hno⟩ | ⟨cs, hshortest, q, rfl⟩
            · have hnone : ∀ cs, ¬ Accepted b cs := fun cs hcs => hno cs ((hiff cs).mp hcs)
              by_cases hfmt : w.haveFmt = true
              · have hdata : ¬ w.haveData = true := fun hdata => hneed ⟨hfmt, hdata⟩
                simp only [if_neg (not_not.mpr hfmt), if_pos hdata]
                exact hnone
              · simp only [if_pos hfmt]
                exact hnone
            · obtain ⟨f, hf⟩ := Option.isSome_iff_exists.mp hshortest.1.hasFmt
              obtain ⟨d, hd⟩ := Option.isSome_iff_exists.mp hshortest.1.hasData
              have hshortest' : Shortest (Accepted b) cs :=
                ⟨(hiff cs).mpr hshortest.1,
                  fun cs' hprefix hcs' => hshortest.2 cs' hprefix ((hiff cs').mp hcs')⟩
              rw [hf, hd]
              exact ⟨cs, f, d, hshortest', hf, hd, rfl⟩
      · rw [if_pos hwave]
        exact ⟨_, rfl, fun cs hcs => hwave hcs.wave⟩
    · rw [if_pos hriff]
      exact ⟨_, rfl, fun cs hcs => hriff hcs.riff⟩

theorem mem_of_last {p : Chunk → Bool} {c : Chunk} (h : last p none cs = some c) : c ∈ cs := by
  rw [last, Option.or_none] at h
  exact List.mem_reverse.mp (List.mem_of_find?_eq_some h)

/-- The parser ends without a read outside of the buffer, accepts what the grammar does, and reports the
last format chunk and the last data chunk up to where both were seen. -/
def Parses (b : List UInt8) : Prop :=
  ∃ r, wavParseTruespeech b = some r ∧
    match r with
    | .error _ => ∀ cs, ¬ Accepted b cs
    | .ok info => ∃ cs f d, Shortest (Accepted b) cs ∧ last Chunk.isFmt none cs = some f ∧
        last Chunk.isData none cs = some d ∧ info = infoOf b (some f) (some d) ∧
        d.offset + d.size ≤ b.length

variable {d : Chunk}

/-- What is reported starts where 32 bits say it does. -/
theorem Parses.offset_lt (h : Parses b) (hcs : Shortest (Accepted b) cs)
    (hd : last Chunk.isData none cs = some d) : d.offset < 2 ^ 32 := by
  obtain ⟨r, hr, hparses⟩ := h
  obtain ⟨r', hr', hgrammar⟩ := wavParseTruespeech_grammar b
  obtain rfl := Option.some.inj (hr.symm.trans hr')
  have hunique {cs' : List Chunk} (hcs' : Shortest (Accepted b) cs') : cs' = cs :=
    hcs'.unique (fun _ h => h.chunks) hcs
  cases r with
  | error e => exact absurd hcs.1 (hparses cs)
  | ok info =>
      obtain ⟨cs₁, f₁, d₁, hcs₁, -, hd₁, hinfo₁, -⟩ := hparses
      obtain ⟨cs₂, f₂, d₂, hcs₂, -, hd₂, hinfo₂⟩ := hgrammar
      obtain rfl := hunique hcs₁
      obtain rfl := hunique hcs₂
      obtain rfl := Option.some.inj (hd.symm.trans hd₁)
      obtain rfl := Option.some.inj (hd.symm.trans hd₂)
      have hoffset : d.offset = d.offset % 2 ^ 32 :=
        congrArg WavInfo.dataOffset (hinfo₁.symm.trans hinfo₂)
      rw [hoffset]
      exact Nat.mod_lt _ (by decide)

end Grammar

/-! ### A large file -/

section Large

variable {x y : List UInt8}

theorem byteAt_append_right (x y : List UInt8) (i : Nat) : byteAt (x ++ y) (x.length + i) = byteAt y i := by
  rw [byteAt, byteAt, List.getD_eq_getElem?_getD, List.getElem?_append_right (by omega),
    Nat.add_sub_cancel_left, List.getD_eq_getElem?_getD]

theorem byteAt_append_left {i : Nat} (hi : i < x.length) : byteAt (x ++ y) i = byteAt x i := by
  rw [byteAt, byteAt, List.getD_eq_getElem?_getD, List.getElem?_append_left hi, List.getD_eq_getElem?_getD]

theorem u32_append_right (x y : List UInt8) (i : Nat) : u32 (x ++ y) (x.length + i) = u32 y i := by
  simp only [u32, u16, Nat.add_assoc, byteAt_append_right]

theorem u16_append_left {i : Nat} (hi : i + 2 ≤ x.length) : u16 (x ++ y) i = u16 x i := by
  rw [u16, u16, byteAt_append_left (by omega), byteAt_append_left (by omega)]

theorem u32_append_left {i : Nat} (hi : i + 4 ≤ x.length) : u32 (x ++ y) i = u32 x i := by
  rw [u32, u32, u16_append_left (by omega), u16_append_left (by omega)]

/-- A chunk as it stands in a file. -/
theorem chunkAt_append (pre : List UInt8) {id size : List UInt8} (rest : List UInt8) (hid : id.length = 4) (hsize : size.length = 4)
    (hrest : u32 size 0 ≤ rest.length) :
    chunkAt (pre ++ (id ++ (size ++ rest))) pre.length = some ⟨id, pre.length + 8, u32 size 0⟩ := by
  have hu32 : u32 (pre ++ (id ++ (size ++ rest))) (pre.length + 4) = u32 size 0 := by
    rw [u32_append_right, ← hid, ← Nat.add_zero id.length, u32_append_right]
    exact u32_append_left (by omega)
  have htake : ((pre ++ (id ++ (size ++ rest))).drop pre.length).take 4 = id := by
    rw [List.drop_left, List.take_left' hid]
  have hlen : (pre ++ (id ++ (size ++ rest))).length = pre.length + 8 + rest.length := by
    simp only [List.length_append]
    omega
  rw [chunkAt, hu32, htake, hlen, if_pos (by omega)]

def fileHeader : List UInt8 := ascii "RIFF" ++ [0, 0, 0, 0] ++ ascii "WAVE"

/-- The core of a format chunk of TrueSpeech. -/
def fmtCore : List UInt8 := [0x22, 0, 1, 0, 0x40, 0x1F, 0, 0, 0x2B, 0x04, 0, 0, 0x20, 0, 1, 0]

def emptyData : List UInt8 := ascii "data" ++ ([0, 0, 0, 0] ++ [])

/-- A file with a chunk of another kind, of 2³² - 2 bytes, between the format and the data. -/
def largeFile (payload : List UInt8) : List UInt8 :=
  fileHeader ++ (ascii "fmt " ++ ([16, 0, 0, 0] ++ (fmtCore ++
    (ascii "junk" ++ ([0xFE, 0xFF, 0xFF, 0xFF] ++ (payload ++ emptyData))))))

def largeChunks : List Chunk :=
  [⟨ascii "fmt ", 20, 16⟩, ⟨ascii "junk", 44, 0xFFFFFFFE⟩, ⟨ascii "data", 0x100000032, 0⟩]

variable {payload : List UInt8}

theorem largeFile_fmt : u16 (largeFile payload) 20 = wavFormatTruespeech := by
  have hsplit : largeFile payload = (fileHeader ++ (ascii "fmt " ++ ([16, 0, 0, 0] ++ fmtCore))) ++
      (ascii "junk" ++ ([0xFE, 0xFF, 0xFF, 0xFF] ++ (payload ++ emptyData))) := by
    simp only [largeFile, List.append_assoc]
  rw [hsplit, u16_append_left (by decide)]
  decide

theorem largeFile_chunks (hpayload : payload.length = 0xFFFFFFFE) :
    From (chunkAt (largeFile payload)) Chunk.next 12 largeChunks := by
  have hfour (cc : String) (hcc : cc ∈ ["fmt ", "junk", "data"]) : (ascii cc).length = 4 := by
    revert cc
    decide
  have hfmt : chunkAt (largeFile payload) 12 = some ⟨ascii "fmt ", 20, 16⟩ := by
    have hsize : u32 [16, 0, 0, 0] 0 ≤
        (fmtCore ++ (ascii "junk" ++ ([0xFE, 0xFF, 0xFF, 0xFF] ++ (payload ++ emptyData)))).length := by
      have hcore : u32 [16, 0, 0, 0] 0 = fmtCore.length := by decide
      rw [hcore, List.length_append]
      exact Nat.le_add_right _ _
    exact chunkAt_append fileHeader _ (hfour "fmt " (by decide)) rfl hsize
  have hjunk : chunkAt (largeFile payload) 36 = some ⟨ascii "junk", 44, 0xFFFFFFFE⟩ := by
    have hsplit : largeFile payload = (fileHeader ++ (ascii "fmt " ++ ([16, 0, 0, 0] ++ fmtCore))) ++
        (ascii "junk" ++ ([0xFE, 0xFF, 0xFF, 0xFF] ++ (payload ++ emptyData))) := by
      simp only [largeFile, List.append_assoc]
    have hsize : u32 [0xFE, 0xFF, 0xFF, 0xFF] 0 = 0xFFFFFFFE := by decide
    have hle : u32 [0xFE, 0xFF, 0xFF, 0xFF] 0 ≤ (payload ++ emptyData).length := by
      rw [hsize, List.length_append, hpayload]
      exact Nat.le_add_right _ _
    have hchunk := chunkAt_append (fileHeader ++ (ascii "fmt " ++ ([16, 0, 0, 0] ++ fmtCore))) _
      (hfour "junk" (by decide)) rfl hle
    have hlen : (fileHeader ++ (ascii "fmt " ++ ([16, 0, 0, 0] ++ fmtCore))).length = 36 := by
      decide
    rw [hsplit]
    rwa [hlen, hsize] at hchunk
  have hdata : chunkAt (largeFile payload) 0x10000002A = some ⟨ascii "data", 0x100000032, 0⟩ := by
    have hsplit : largeFile payload = (fileHeader ++ (ascii "fmt " ++ ([16, 0, 0, 0] ++ fmtCore)) ++
        (ascii "junk" ++ ([0xFE, 0xFF, 0xFF, 0xFF] ++ payload))) ++
          (ascii "data" ++ ([0, 0, 0, 0] ++ [])) := by
      simp only [largeFile, emptyData, List.append_assoc]
    have hsize : u32 [0, 0, 0, 0] 0 = 0 := by decide
    have hle : u32 [0, 0, 0, 0] 0 ≤ ([] : List UInt8).length := Nat.le_of_eq hsize
    have hchunk := chunkAt_append (fileHeader ++ (ascii "fmt " ++ ([16, 0, 0, 0] ++ fmtCore)) ++
        (ascii "junk" ++ ([0xFE, 0xFF, 0xFF, 0xFF] ++ payload))) []
      (hfour "data" (by decide)) rfl hle
    have hlen : (fileHeader ++ (ascii "fmt " ++ ([16, 0, 0, 0] ++ fmtCore))).length = 36 := by
      decide
    rw [hsplit]
    rw [List.length_append, hlen, List.length_append, List.length_append, hpayload,
      hfour "junk" (by decide), hsize] at hchunk
    exact hchunk
  exact .cons hfmt (.cons hjunk (.cons hdata (.nil _)))

theorem largeFile_shortest (hpayload : payload.length = 0xFFFFFFFE) :
    Shortest (Accepted (largeFile payload)) largeChunks := by
  have hheader : largeFile payload = fileHeader ++ (ascii "fmt " ++ ([16, 0, 0, 0] ++ (fmtCore ++
      (ascii "junk" ++ ([0xFE, 0xFF, 0xFF, 0xFF] ++ (payload ++ emptyData)))))) := rfl
  refine ⟨⟨?_, ?_, largeFile_chunks hpayload, ?_, ?_, ?_⟩, fun cs hprefix hcs => ?_⟩
  · rw [hheader, List.take_append_of_le_length (by decide)]
    decide
  · rw [hheader, List.drop_append_of_le_length (by decide),
      List.take_append_of_le_length (by decide)]
    decide
  · intro c hc hfmt
    simp only [largeChunks, List.mem_cons, List.not_mem_nil, or_false] at hc
    rcases hc with rfl | rfl | rfl
    · exact ⟨Nat.le_refl 16, largeFile_fmt⟩
    · exact absurd hfmt (by decide)
    · exact absurd hfmt (by decide)
  · exact ⟨⟨ascii "fmt ", 20, 16⟩, by simp [largeChunks], by decide⟩
  · exact ⟨⟨ascii "data", 0x100000032, 0⟩, by simp [largeChunks], by decide⟩
  · -- The data chunk is the last of them.
    have hlast : ∀ cs ∈ largeChunks.inits, (∃ c ∈ cs, c.isData = true) → cs = largeChunks := by
      decide
    exact hlast cs ((List.mem_inits _ _).mpr hprefix) hcs.hasData

end Large

end UnicornSuite.Wav
