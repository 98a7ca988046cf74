import UnicornSuite.LibLines

/-! The mail text of the ARPANET client (`arpamail_module.c`): `arpa_sanitize_body`, the scan for the
lone-period line and the writes `arpa_send_mail` makes after the 354 reply. The body is the list of
its bytes; the bytes a buffer still holds stand for an index into it. -/

namespace UnicornSuite.Arpa

open Crlf

def esc : UInt8 := 0x1B
def tab : UInt8 := 0x09
def period : UInt8 := 0x2E
def bracket : UInt8 := 0x5B

/-! ### The sanitiser -/

/-- The parameters of a control sequence, through its final byte. -/
def skipParams : Bytes → Bytes
  | [] => []
  | p :: s => if 0x40 ≤ p ∧ p ≤ 0x7E then s else skipParams s

theorem skipParams_length_le (s : Bytes) : (skipParams s).length ≤ s.length := by
  induction s with
  | nil => exact Nat.le_refl _
  | cons p s ih =>
      rw [skipParams, List.length_cons]
      split_ifs
      · exact Nat.le_succ _
      · exact Nat.le_succ_of_le ih

/-- After a CR, the LF it may come with. -/
def swallowLf (s : Bytes) : Bytes := if s.head? = some lf then s.tail else s

theorem swallowLf_length_le (s : Bytes) : (swallowLf s).length ≤ s.length := by
  unfold swallowLf
  split_ifs
  · rw [List.length_tail]
    exact Nat.sub_le _ _
  · exact Nat.le_refl _

/-- The loop of `arpa_sanitize_body`: the bytes still to read, and how many of the `dstCap` bytes of
the destination are written. -/
def sanitizeLoop (dstCap j : Nat) : Bytes → Bytes
  | [] => []
  | c :: s =>
      if dstCap ≤ j + 2 then []
      else if c = esc ∧ s.head? = some bracket then
        have := skipParams_length_le s.tail
        sanitizeLoop dstCap j (skipParams s.tail)
      else if c = esc then sanitizeLoop dstCap j s
      else if c = cr then
        have := swallowLf_length_le s
        cr :: lf :: sanitizeLoop dstCap (j + 2) (swallowLf s)
      else if c = lf then cr :: lf :: sanitizeLoop dstCap (j + 2) s
      else if c < 0x20 ∧ c ≠ tab then sanitizeLoop dstCap j s
      else c :: sanitizeLoop dstCap (j + 1) s
termination_by s => s.length
decreasing_by all_goals simp only [List.length_cons, List.length_tail] at *; omega

/-- `arpa_sanitize_body`, into the buffer `arpa_send_mail` allocates. -/
def arpaSanitizeBody (raw : Bytes) : Bytes := sanitizeLoop (raw.length * 2 + 8) 0 raw

/-! ### The lone-period line -/

/-- `scan_e - scan_i`: the bytes to the next CR LF, or to the end. -/
def scanEnd : Bytes → Nat
  | [] => 0
  | c :: s => if c = cr ∧ s.head? = some lf then 0 else scanEnd s + 1

/-- `period_off`, when `has_period`; `off` is `scan_i` and the bytes are those from there on. -/
def scanPeriod (off : Nat) (s : Bytes) : Option Nat :=
  if h : s = [] then none
  else if scanEnd s = 1 ∧ s.head? = some period then some off
  else if s.length ≤ scanEnd s then none
  else scanPeriod (off + scanEnd s + 2) (s.drop (scanEnd s + 2))
termination_by s.length
decreasing_by
  have hpos := List.length_pos_iff.mpr h
  rw [List.length_drop]
  omega

/-! ### The writes -/

/-- `crlf_ended` -/
def crlfEnded (clean : Bytes) : Bool :=
  2 ≤ clean.length ∧ clean[clean.length - 2]? = some cr ∧ clean[clean.length - 1]? = some lf

/-- What the calls of `arpa_send_all` after the 354 reply are to write, in their order. -/
def mailWrites (clean : Bytes) : List Bytes :=
  match scanPeriod 0 clean with
  | some periodOff => (if 0 < periodOff then [clean.take periodOff] else []) ++ [period :: crlf]
  | none =>
      (if 0 < clean.length then [clean] else []) ++
        [if crlfEnded clean then period :: crlf else crlf ++ period :: crlf]

/-- `arpa_send_all`. Each answer is that of one `send`: `some n` when it takes `n + 1` bytes, or the
rest when less is left, `none` on an error. The result is what went out, whether that was all, and
the answers left. -/
def arpaSendAll : List (Option Nat) → Bytes → Bytes × Bool × List (Option Nat)
  | answers, [] => ([], true, answers)
  | [], _ => ([], false, [])
  | none :: answers, _ => ([], false, answers)
  | some n :: answers, c :: buf =>
      let r := arpaSendAll answers ((c :: buf).drop (n + 1))
      ((c :: buf).take (n + 1) ++ r.1, r.2)

/-- The calls one after the other; the first that fails goes to `cleanup`. -/
def sendWrites : List (Option Nat) → List Bytes → Bytes × Bool
  | _, [] => ([], true)
  | answers, w :: ws =>
      let r := arpaSendAll answers w
      if r.2.1 then
        let rest := sendWrites r.2.2 ws
        (r.1 ++ rest.1, rest.2)
      else (r.1, false)

/-- What `arpa_send_mail` puts on the connection after the 354 reply, and whether it gets as far as
to wait for the final reply. -/
def sendMail (raw : Bytes) (answers : List (Option Nat)) : Bytes × Bool :=
  sendWrites answers (mailWrites (arpaSanitizeBody raw))

end UnicornSuite.Arpa

/-! A mail body as the server reads it. The sanitised body is made of text characters and CR LF
pairs, nothing a server could read in another way, and what is written ends at the server's first
lone-period line: however the network cuts the writes, the server gets the whole text and no byte
behind it, or no text. -/

namespace UnicornSuite.Arpa

open Crlf

/-! ### The sanitised body -/

/-- A character of the text: TAB, or anything but the controls below the blank. -/
def isText (c : UInt8) : Bool := 0x20 ≤ c ∨ c = tab

inductive Sanitised : Bytes → Prop
  | nil : Sanitised []
  | char {c : UInt8} {s : Bytes} (hc : isText c = true) (hs : Sanitised s) : Sanitised (c :: s)
  | newline {s : Bytes} (hs : Sanitised s) : Sanitised (cr :: lf :: s)

/-- A body without its control sequences. -/
def withoutSequences : Bytes → Bytes
  | [] => []
  | c :: s =>
      if c = esc ∧ s.head? = some bracket then
        have := skipParams_length_le s.tail
        withoutSequences (skipParams s.tail)
      else c :: withoutSequences s
termination_by s => s.length
decreasing_by all_goals simp only [List.length_cons, List.length_tail] at *; omega

/-- Whatever the room, the loop leaves no half of a CR LF pair. -/
theorem sanitised_sanitizeLoop (dstCap j : Nat) (s : Bytes) : Sanitised (sanitizeLoop dstCap j s) := by
  fun_induction sanitizeLoop dstCap j s with
  | case1 => exact .nil
  | case2 => exact .nil
  | case3 j c s hroom hseq hlen ih => exact ih
  | case4 j s hroom hseq ih => exact ih
  | case5 j s hroom hlen hseq hesc ih => exact .newline ih
  | case6 j s hroom hseq hesc hcr ih => exact .newline ih
  | case7 j c s hroom hseq hesc hcr hlf hctl ih => exact ih
  | case8 j c s hroom hseq hesc hcr hlf hctl ih =>
      refine .char ?_ ih
      rw [isText, decide_eq_true_eq]
      by_contra hnot
      exact hctl ⟨UInt8.not_le.mp (mt Or.inl hnot), mt Or.inr hnot⟩

theorem filter_newline (s : Bytes) : (cr :: lf :: s).filter isText = s.filter isText := rfl

theorem withoutSequences_swallowLf (s : Bytes) :
    (withoutSequences (swallowLf s)).filter isText = (withoutSequences s).filter isText := by
  unfold swallowLf
  split_ifs with hlf
  · cases s with
    | nil => rfl
    | cons c s =>
        cases hlf
        rw [withoutSequences, if_neg (fun h => absurd h.1 (by decide))]
        rfl
  · rfl

/-- With two bytes of room for each byte to read, every text character arrives, in its order. -/
theorem filter_sanitizeLoop {dstCap j : Nat} {s : Bytes} (hroom : j + 2 * s.length < dstCap) :
    (sanitizeLoop dstCap j s).filter isText = (withoutSequences s).filter isText := by
  fun_induction sanitizeLoop dstCap j s with
  | case1 => rw [withoutSequences]
  | case2 j c s hfull =>
      rw [List.length_cons] at hroom
      omega
  | case3 j c s hfull hseq hlen ih =>
      rw [List.length_cons] at hroom
      rw [List.length_tail] at hlen
      rw [withoutSequences, if_pos hseq]
      exact ih (by omega)
  | case4 j s hfull hseq ih =>
      rw [List.length_cons] at hroom
      rw [withoutSequences, if_neg hseq]
      exact ih (by omega)
  | case5 j s hfull hlen hseq hesc ih =>
      rw [List.length_cons] at hroom
      rw [withoutSequences, if_neg hseq, filter_newline, ih (by omega)]
      exact withoutSequences_swallowLf s
  | case6 j s hfull hseq hesc hcr ih =>
      rw [List.length_cons] at hroom
      rw [withoutSequences, if_neg hseq, filter_newline, ih (by omega)]
      rfl
  | case7 j c s hfull hseq hesc hcr hlf hctl ih =>
      rw [List.length_cons] at hroom
      rw [withoutSequences, if_neg hseq, ih (by omega), List.filter_cons_of_neg]
      rw [isText, decide_eq_true_eq, not_or]
      exact ⟨UInt8.not_le.mpr hctl.1, hctl.2⟩
  | case8 j c s hfull hseq hesc hcr hlf hctl ih =>
      rw [List.length_cons] at hroom
      rw [withoutSequences, if_neg hseq, List.filter_cons, List.filter_cons, ih (by omega)]

/-- The loop writes what is clean as it is. -/
theorem sanitizeLoop_of_sanitised {s : Bytes} (hs : Sanitised s) {dstCap j : Nat}
    (hroom : j + 2 * s.length < dstCap) : sanitizeLoop dstCap j s = s := by
  induction hs generalizing j with
  | nil => rw [sanitizeLoop]
  | @char c s hc hs ih =>
      rw [List.length_cons] at hroom
      rw [isText, decide_eq_true_eq] at hc
      have hesc : c ≠ esc := by rintro rfl; revert hc; decide
      have hcr : c ≠ cr := by rintro rfl; revert hc; decide
      have hlf : c ≠ lf := by rintro rfl; revert hc; decide
      have hctl : ¬ (c < 0x20 ∧ c ≠ tab) := fun h => hc.elim (UInt8.not_le.mpr h.1) h.2
      rw [sanitizeLoop, if_neg (by omega), if_neg (fun h => hesc h.1), if_neg hesc, if_neg hcr,
        if_neg hlf, if_neg hctl, ih (by omega)]
  | @newline s hs ih =>
      rw [List.length_cons, List.length_cons] at hroom
      rw [sanitizeLoop, if_neg (by omega), if_neg (fun h => absurd h.1 (by decide)),
        if_neg (by decide), if_pos rfl]
      exact congrArg (cr :: lf :: ·) (ih (by omega))

theorem arpaSanitizeBody_idem (raw : Bytes) :
    arpaSanitizeBody (arpaSanitizeBody raw) = arpaSanitizeBody raw :=
  sanitizeLoop_of_sanitised (s := arpaSanitizeBody raw) (sanitised_sanitizeLoop _ _ raw) (by omega)

/-! ### The lone-period line -/

theorem scanEnd_eq (s : Bytes) : scanEnd s = (splitLine s).1.length := by
  induction s with
  | nil => rfl
  | cons c s ih =>
      rw [scanEnd, splitLine]
      split_ifs
      · rfl
      · rw [ih, List.length_cons]

theorem lonePeriod_iff {s line : Bytes} {rest : Option Bytes} (h : splitLine s = (line, rest)) :
    scanEnd s = 1 ∧ s.head? = some period ↔ line = [period] := by
  have hline : line <+: s := by
    cases rest with
    | none => exact (splitLine_none h).1 ▸ List.prefix_rfl
    | some rest =>
        rw [(splitLine_some h).1, List.append_assoc]
        exact List.prefix_append _ _
  obtain ⟨t, rfl⟩ := hline
  rw [scanEnd_eq, h, List.length_eq_one_iff]
  constructor
  · rintro ⟨⟨c, rfl⟩, hhead⟩
    rw [Option.some.inj hhead]
  · rintro rfl
    exact ⟨⟨period, rfl⟩, rfl⟩

theorem scanPeriod_lone {s : Bytes} {rest : Option Bytes} (h : splitLine s = ([period], rest))
    (off : Nat) : scanPeriod off s = some off := by
  have hne : s ≠ [] := by
    rintro rfl
    cases h
  rw [scanPeriod, dif_neg hne, if_pos ((lonePeriod_iff h).mpr rfl)]

theorem scanPeriod_last {s : Bytes} (h : splitLine s = (s, none)) (hlone : s ≠ [period])
    (off : Nat) : scanPeriod off s = none := by
  have hshort : s.length ≤ scanEnd s := by rw [scanEnd_eq, h]
  rw [scanPeriod, if_neg (mt (lonePeriod_iff h).mp hlone), if_pos hshort, dite_eq_ite, ite_self]

theorem scanPeriod_line {s line rest : Bytes} (h : splitLine s = (line, some rest))
    (hlone : line ≠ [period]) (off : Nat) :
    scanPeriod off s = scanPeriod (off + (line ++ crlf).length) rest := by
  obtain ⟨heq, -, -⟩ := splitLine_some h
  have hend : scanEnd s = line.length := by rw [scanEnd_eq, h]
  have hlength : s.length = (line ++ crlf).length + rest.length := by rw [heq, List.length_append]
  have hcrlf : (line ++ crlf).length = line.length + 2 := List.length_append
  have hne : s ≠ [] := by
    rintro rfl
    cases h
  rw [scanPeriod, dif_neg hne, if_neg (mt (lonePeriod_iff h).mp hlone), if_neg (by omega), hend,
    Nat.add_assoc, ← hcrlf]
  conv => lhs; rw [heq, List.drop_left]

/-- The lines of a text before its first lone period. -/
def beforePeriod (s : Bytes) : List Bytes := (lines s).takeWhile (· ≠ [period])

/-- The scan finds the line the text of the mail ends at. -/
theorem scanPeriod_eq (off : Nat) (s : Bytes) :
    scanPeriod off s =
      if [period] ∈ lines s then some (off + (unlines (beforePeriod s)).length) else none := by
  induction s using lines_induction generalizing off with
  | last s h =>
      rw [beforePeriod, lines_of_none h]
      by_cases hlone : s = [period]
      · subst hlone
        rw [scanPeriod_lone h]
        rfl
      · rw [scanPeriod_last h hlone, if_neg (mt List.mem_singleton.mp (Ne.symm hlone))]
  | line s line rest h ih =>
      rw [beforePeriod, lines_of_some h]
      by_cases hlone : line = [period]
      · subst hlone
        rw [scanPeriod_lone h, if_pos List.mem_cons_self, List.takeWhile_cons_of_neg (by simp)]
        rfl
      · have hmem : [period] ∈ line :: lines rest ↔ [period] ∈ lines rest := by
          rw [List.mem_cons, or_iff_right (Ne.symm hlone)]
        rw [scanPeriod_line h hlone, ih, List.takeWhile_cons_of_pos (by simpa using hlone),
          unlines_cons, Nat.add_assoc, ← List.length_append]
        simp only [hmem, beforePeriod]

/-! ### The text on the wire -/

/-- The text of a mail: the lines before the first lone period; without one the whole body, its last
line ended. -/
def mailText (clean : Bytes) : Bytes :=
  if (lines clean).contains [period] then unlines (beforePeriod clean)
  else if crlf <:+ clean then clean
  else clean ++ crlf

theorem mailText_of_mem {clean : Bytes} (hmem : [period] ∈ lines clean) :
    mailText clean = unlines (beforePeriod clean) := by
  rw [mailText, if_pos (List.contains_iff_mem.mpr hmem)]

theorem mailText_of_not_mem {clean : Bytes} (hmem : [period] ∉ lines clean) :
    mailText clean = if crlf <:+ clean then clean else clean ++ crlf := by
  rw [mailText, if_neg (mt List.contains_iff_mem.mp hmem)]

theorem crlfEnded_iff (clean : Bytes) : crlfEnded clean = true ↔ crlf <:+ clean := by
  rw [crlfEnded, decide_eq_true_eq]
  constructor
  · rintro ⟨hlength, hcr, hlf⟩
    rw [List.suffix_iff_eq_drop]
    apply List.ext_getElem?
    intro i
    rw [List.getElem?_drop]
    match i with
    | 0 => exact hcr.symm
    | 1 =>
        rw [show clean.length - crlf.length + 1 = clean.length - 1 by simp [crlf]; omega]
        exact hlf.symm
    | i + 2 =>
        symm
        apply List.getElem?_eq_none
        simp only [crlf, List.length_cons, List.length_nil]
        omega
  · rintro ⟨s, rfl⟩
    simp [crlf]

theorem beforePeriod_append {clean : Bytes} (hmem : [period] ∈ lines clean) :
    ∃ after, lines clean = beforePeriod clean ++ [period] :: after := by
  have happend := List.takeWhile_append_dropWhile (p := fun l => decide (l ≠ [period])) (l := lines clean)
  have hne : (lines clean).dropWhile (fun l => decide (l ≠ [period])) ≠ [] := by
    intro hnil
    have hall := List.dropWhile_eq_nil_iff.mp hnil [period] hmem
    simp at hall
  obtain ⟨line, after, hdrop⟩ := List.exists_cons_of_ne_nil hne
  have hline := List.head_dropWhile_not (fun l => decide (l ≠ [period])) hne
  simp only [hdrop, List.head_cons, decide_eq_false_iff_not, ne_eq, not_not] at hline
  exact ⟨after, by rw [← hline, ← hdrop, beforePeriod, happend]⟩

theorem take_beforePeriod {clean : Bytes} (hmem : [period] ∈ lines clean) :
    clean.take (unlines (beforePeriod clean)).length = unlines (beforePeriod clean) := by
  obtain ⟨after, hlines⟩ := beforePeriod_append hmem
  have hjoin := unlines_lines clean
  rw [hlines, unlines_append, unlines_cons] at hjoin
  have hlength := congrArg List.length hjoin
  simp only [List.length_append, List.length_cons] at hlength
  have htake : (clean ++ crlf).take (unlines (beforePeriod clean)).length =
      clean.take (unlines (beforePeriod clean)).length :=
    List.take_append_of_le_length (by omega)
  rw [← htake, ← hjoin, List.take_left]

/-- What is to be written is the text and the line that ends it. -/
theorem mailWrites_flatten (clean : Bytes) :
    (mailWrites clean).flatten = mailText clean ++ (period :: crlf) := by
  rw [mailWrites, scanPeriod_eq]
  by_cases hmem : [period] ∈ lines clean
  · rw [mailText_of_mem hmem]
    simp only [if_pos hmem, Nat.zero_add, take_beforePeriod hmem]
    split_ifs with hpos
    · simp
    · rw [List.length_eq_zero_iff.mp (Nat.eq_zero_of_not_pos hpos)]
      rfl
  · rw [mailText_of_not_mem hmem]
    simp only [if_neg hmem]
    have hfirst : (if 0 < clean.length then [clean] else []).flatten = clean := by
      split_ifs with hpos
      · simp
      · rw [List.length_eq_zero_iff.mp (Nat.eq_zero_of_not_pos hpos)]
        rfl
    rw [List.flatten_append, hfirst, List.flatten_singleton]
    by_cases hend : crlf <:+ clean
    · rw [if_pos ((crlfEnded_iff clean).mpr hend), if_pos hend]
    · rw [if_neg (mt (crlfEnded_iff clean).mp hend), if_neg hend, List.append_assoc]

/-- The text is whole lines, none of them the lone period. -/
theorem mailText_lines (clean : Bytes) :
    ∃ ls, mailText clean = unlines ls ∧ (∀ line ∈ ls, splitLine line = (line, none)) ∧
      [period] ∉ ls := by
  by_cases hmem : [period] ∈ lines clean
  · refine ⟨beforePeriod clean, mailText_of_mem hmem, ?_, ?_⟩
    · intro line hline
      exact splitLine_of_mem ((List.takeWhile_sublist _).mem hline)
    · intro hline
      have hne := List.mem_takeWhile_imp hline
      simp at hne
  · rw [mailText_of_not_mem hmem]
    split_ifs with hend
    · obtain ⟨s, rfl⟩ := hend
      refine ⟨lines s, (unlines_lines s).symm, fun line => splitLine_of_mem, fun hline => hmem ?_⟩
      rw [lines_append_crlf]
      exact List.mem_append_left _ hline
    · exact ⟨lines clean, (unlines_lines clean).symm, fun line => splitLine_of_mem, hmem⟩

theorem readText_mailWrites (clean : Bytes) :
    readText [period] (mailWrites clean).flatten = some (mailText clean, []) := by
  obtain ⟨ls, htext, hfree, hmem⟩ := mailText_lines clean
  have hread : readText [period] (unlines ls ++ ([period] ++ crlf) ++ []) = some (unlines ls, []) :=
    readText_unlines hfree rfl hmem []
  rw [mailWrites_flatten, htext]
  rwa [List.append_nil] at hread

/-- The text is empty only when the body starts with the lone period. -/
theorem mailText_end (clean : Bytes) :
    mailText clean = [] ∧ (lines clean).head? = some [period] ∨ crlf <:+ mailText clean := by
  by_cases hmem : [period] ∈ lines clean
  · rw [mailText_of_mem hmem]
    rcases List.eq_nil_or_concat (beforePeriod clean) with hnil | ⟨ls, line, hls⟩
    · obtain ⟨after, hlines⟩ := beforePeriod_append hmem
      refine .inl ⟨by rw [hnil, unlines_nil], ?_⟩
      rw [hlines, hnil]
      rfl
    · refine .inr ⟨unlines ls ++ line, ?_⟩
      simp [hls, unlines_append]
  · rw [mailText_of_not_mem hmem]
    right
    split_ifs with hend
    · exact hend
    · exact List.suffix_append _ _

/-! ### The writes -/

theorem prefix_arpaSendAll (answers : List (Option Nat)) (buf : Bytes) :
    (arpaSendAll answers buf).1 <+: buf := by
  fun_induction arpaSendAll answers buf with
  | case1 answers => exact List.prefix_rfl
  | case2 => exact List.nil_prefix
  | case3 => exact List.nil_prefix
  | case4 n answers c buf r ih =>
      obtain ⟨t, ht⟩ := ih
      exact ⟨t, by rw [List.append_assoc, ht, List.take_append_drop]⟩

theorem arpaSendAll_whole (answers : List (Option Nat)) (buf : Bytes) :
    (arpaSendAll answers buf).2.1 = true ↔ (arpaSendAll answers buf).1 = buf := by
  fun_induction arpaSendAll answers buf with
  | case1 answers => simp
  | case2 buf hbuf => exact iff_of_false Bool.false_ne_true (Ne.symm hbuf)
  | case3 answers buf hbuf => exact iff_of_false Bool.false_ne_true (Ne.symm hbuf)
  | case4 n answers c buf r ih =>
      rw [ih]
      constructor
      · intro hrest
        rw [hrest, List.take_append_drop]
      · intro hwhole
        have hsplit := List.take_append_drop (n + 1) (c :: buf)
        exact List.append_cancel_left (hwhole.trans hsplit.symm)

theorem prefix_sendWrites (answers : List (Option Nat)) (ws : List Bytes) :
    (sendWrites answers ws).1 <+: ws.flatten := by
  induction ws generalizing answers with
  | nil => exact List.prefix_rfl
  | cons w ws ih =>
      rw [sendWrites, List.flatten_cons]
      split_ifs with hok
      · rw [(arpaSendAll_whole answers w).mp hok]
        exact (List.prefix_append_right_inj w).mpr (ih _)
      · exact (prefix_arpaSendAll answers w).trans (List.prefix_append _ _)

theorem sendWrites_whole (answers : List (Option Nat)) (ws : List Bytes) :
    (sendWrites answers ws).2 = true ↔ (sendWrites answers ws).1 = ws.flatten := by
  induction ws generalizing answers with
  | nil => simp [sendWrites]
  | cons w ws ih =>
      rw [sendWrites, List.flatten_cons]
      split_ifs with hok
      · rw [(arpaSendAll_whole answers w).mp hok, List.append_cancel_left_eq]
        exact ih _
      · refine iff_of_false (by simp) fun hall => hok ((arpaSendAll_whole answers w).mpr ?_)
        have hinit := prefix_arpaSendAll answers w
        have hlength : (arpaSendAll answers w).1.length = (w ++ ws.flatten).length :=
          congrArg List.length hall
        rw [List.length_append] at hlength
        exact hinit.eq_of_length_le (by omega)

/-- The server ends the mail where the client does. The sanitised body is text characters and line
ends, all the text of the body in its order, and is not changed again; read up to the first lone
period, the writes are the body up to its own, with nothing behind; and when the connection fails
before they are all out, the server has no mail. -/
theorem mail_framing (raw : Bytes) :
    Sanitised (arpaSanitizeBody raw) ∧
      (arpaSanitizeBody raw).filter isText = (withoutSequences raw).filter isText ∧
      arpaSanitizeBody (arpaSanitizeBody raw) = arpaSanitizeBody raw ∧
      readText [period] (mailWrites (arpaSanitizeBody raw)).flatten =
        some (mailText (arpaSanitizeBody raw), []) ∧
      (mailText (arpaSanitizeBody raw) = [] ∧
          (lines (arpaSanitizeBody raw)).head? = some [period] ∨
        crlf <:+ mailText (arpaSanitizeBody raw)) ∧
      ∀ answers, readText [period] (sendMail raw answers).1 =
        if (sendMail raw answers).2 then some (mailText (arpaSanitizeBody raw), []) else none := by
  have hread := readText_mailWrites (arpaSanitizeBody raw)
  refine ⟨sanitised_sanitizeLoop _ _ raw, filter_sanitizeLoop (by omega), arpaSanitizeBody_idem raw,
    hread, mailText_end _, ?_⟩
  intro answers
  rw [sendMail, readText_of_prefix hread (prefix_sendWrites answers _)]
  exact if_congr (sendWrites_whole answers _).symm rfl rfl

/-- DEL is a control and is kept, and the text of a body that starts with the lone period is empty. -/
theorem delete_kept :
    (¬ ∀ raw, ∀ c ∈ arpaSanitizeBody raw, c < 0x20 ∨ c = 0x7F → c = tab ∨ c = cr ∨ c = lf) ∧
      ¬ ∀ raw text rest, readText [period] (mailWrites (arpaSanitizeBody raw)).flatten =
        some (text, rest) → crlf <:+ text := by
  constructor
  · intro hclaim
    have hdel : (0x7F : UInt8) ∈ arpaSanitizeBody [0x7F] := by decide +kernel
    exact absurd (hclaim [0x7F] 0x7F hdel (.inr rfl)) (by decide)
  · intro hclaim
    have hread : readText [period] (mailWrites (arpaSanitizeBody [period])).flatten = some ([], []) := by
      decide +kernel
    exact absurd (hclaim [period] [] [] hread) (by decide)

end UnicornSuite.Arpa
