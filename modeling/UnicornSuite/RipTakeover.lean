import UnicornSuite.LibOccurrence
import UnicornSuite.RipHandover
import Mathlib.Data.List.Range

/-! The payload stream over every run. Each byte reaches the parser or a receiver once and in order, but for
what a push drops. The scanner begins anew at an asterisk that is not the one it waits for, so that it sees
a signature only behind an even number of asterisks, and it does not look at the bytes that a receiver
leaves. -/

namespace UnicornSuite.RipStream

open Machine Occurrence

/-! ### What the scanner sees -/

/-- The asterisks that a stream ends with; the stream is given from its end. -/
def trail : List UInt8 → Nat
  | [] => 0
  | b :: r => if b = star then trail r + 1 else 0

/-- The stream ends with a signature behind an even number of asterisks. -/
def EvenSig (s : List UInt8) : Prop := ∃ p, s = p ++ sig ∧ trail p.reverse % 2 = 0

/-- What the scanner holds of a run of asterisks. -/
def holdsOf (n : Nat) : Nat := if n = 0 then 0 else if n % 2 = 0 then 2 else 1

/-- What the scanner holds of a stream without a signature. -/
def held : List UInt8 → Nat
  | [] => 0
  | b :: r => if b = zdle then (if holdsOf (trail r) = 2 then 3 else 0) else holdsOf (trail (b :: r))

theorem holdsOf_trail (r : List UInt8) : holdsOf (trail r) = 2 ↔ held r = 2 := by
  cases r with
  | nil => exact Iff.rfl
  | cons b r =>
      rw [held]
      have hrun (hb : b = zdle) : holdsOf (trail (b :: r)) = 0 := by
        rw [trail, if_neg (by rw [hb]; decide)]
        rfl
      split_ifs with hb hr
      · rw [hrun hb]
        decide
      · rw [hrun hb]
        decide
      · exact Iff.rfl

theorem held_zdle (r : List UInt8) : held (zdle :: r) = if held r = 2 then 3 else 0 := by
  rw [held, if_pos rfl]
  simp only [holdsOf_trail]

theorem held_other {b : UInt8} (hstar : b ≠ star) (hzdle : b ≠ zdle) (r : List UInt8) :
    held (b :: r) = 0 := by
  rw [held, if_neg hzdle, trail, if_neg hstar]
  rfl

theorem held_star (r : List UInt8) : held (star :: r) = if held r = 1 then 2 else 1 := by
  have hrun : held (star :: r) = holdsOf (trail r + 1) := by
    rw [held, if_neg (by decide), trail, if_pos rfl]
  rw [hrun]
  cases r with
  | nil => rfl
  | cons b r =>
      rw [held]
      by_cases hb : b = zdle
      · have htrail : trail (b :: r) = 0 := by
          rw [trail, if_neg (by rw [hb]; decide)]
        rw [if_pos hb, htrail]
        split_ifs <;> first | rfl | simp_all
      · rw [if_neg hb]
        generalize trail (b :: r) = n
        simp only [holdsOf]
        split_ifs <;> omega

theorem held_cases (r : List UInt8) : held r = 0 ∨ held r = 1 ∨ held r = 2 ∨ held r = 3 := by
  cases r with
  | nil => exact .inl rfl
  | cons b r =>
      rw [held]
      simp only [holdsOf]
      split_ifs <;> simp

/-- The signature is complete exactly where the scanner waits for its last byte. -/
theorem evenSig_iff (r : List UInt8) (b : UInt8) :
    EvenSig (b :: r).reverse ↔ held r = 3 ∧ b = hexHeader := by
  constructor
  · rintro ⟨p, hp, heven⟩
    have hrev : b :: r = hexHeader :: zdle :: star :: star :: p.reverse := by
      rw [← List.reverse_reverse (b :: r), hp, List.reverse_append]
      rfl
    obtain ⟨rfl, rfl⟩ := List.cons.inj hrev
    refine ⟨?_, rfl⟩
    have hrun : trail (star :: star :: p.reverse) = trail p.reverse + 2 := rfl
    rw [held, if_pos rfl, hrun, if_pos]
    rw [holdsOf, if_neg (by omega), if_pos (by omega)]
  · rintro ⟨hheld, rfl⟩
    cases r with
    | nil => cases hheld
    | cons c r =>
        by_cases hc : c = zdle
        · subst hc
          rw [held, if_pos rfl] at hheld
          have hrun : holdsOf (trail r) = 2 := by
            by_contra hno
            rw [if_neg hno] at hheld
            cases hheld
          have heven : trail r ≠ 0 ∧ trail r % 2 = 0 := by
            simp only [holdsOf] at hrun
            split_ifs at hrun with hzero htwo
            · exact ⟨hzero, htwo⟩
            · cases hrun
          obtain ⟨p, rfl⟩ : ∃ p, r = star :: star :: p := by
            cases r with
            | nil => exact absurd rfl heven.1
            | cons d r =>
                by_cases hd : d = star
                · subst hd
                  cases r with
                  | nil => exact absurd heven.2 (by decide)
                  | cons e r =>
                      by_cases he : e = star
                      · exact ⟨r, by rw [he]⟩
                      · have hone : trail (star :: e :: r) = 1 := by
                          rw [trail, if_pos rfl, trail, if_neg he]
                        rw [hone] at heven
                        exact absurd heven.2 (by decide)
                · rw [trail, if_neg hd] at heven
                  exact absurd rfl heven.1
          refine ⟨p.reverse, by simp [sig], ?_⟩
          rw [List.reverse_reverse]
          have htwo : trail (star :: star :: p) = trail p + 2 := rfl
          rw [htwo] at heven
          omega
        · rw [held, if_neg hc] at hheld
          simp only [holdsOf] at hheld
          split_ifs at hheld
          all_goals omega

/-- One byte: the signature is complete, or the scanner holds what it should. -/
theorem held_step (r : List UInt8) (b : UInt8) :
    (sig[held r]? = some b ∧ held r + 1 = 4 ∧ EvenSig (b :: r).reverse) ∨
      ¬EvenSig (b :: r).reverse ∧
        (sig[held r]? = some b → held r + 1 ≠ 4 ∧ held (b :: r) = held r + 1) ∧
        (sig[held r]? ≠ some b → held (b :: r) = if b = star then 1 else 0) := by
  rw [evenSig_iff]
  by_cases hstar : b = star
  · subst hstar
    rw [held_star]
    obtain h | h | h | h := held_cases r <;> rw [h] <;> simp [sig, star, zdle, hexHeader]
  · by_cases hzdle : b = zdle
    · subst hzdle
      rw [held_zdle]
      obtain h | h | h | h := held_cases r <;> rw [h] <;> simp [sig, star, zdle, hexHeader]
    · rw [held_other hstar hzdle]
      by_cases hhex : b = hexHeader
      · obtain h | h | h | h := held_cases r <;> rw [h] <;>
          simp [sig, hhex, star, zdle, hexHeader]
      · obtain h | h | h | h := held_cases r <;> rw [h] <;>
          simp [sig, hstar, hhex, Ne.symm hstar, Ne.symm hzdle, Ne.symm hhex]

/-- What the scanner finds behind a stream in which it found nothing. -/
theorem scan_spec (d r : List UInt8) :
    (∃ k, scanForZmodem (held r) d = (some k, 0) ∧ 0 < k ∧ k ≤ d.length ∧
        EvenSig (r.reverse ++ d.take k) ∧ ∀ j < k, 0 < j → ¬EvenSig (r.reverse ++ d.take j)) ∨
      scanForZmodem (held r) d = (none, held (d.reverse ++ r)) ∧
        ∀ j, 0 < j → j ≤ d.length → ¬EvenSig (r.reverse ++ d.take j) := by
  induction d generalizing r with
  | nil => exact .inr ⟨rfl, fun j hj hle => absurd hle (Nat.not_le.mpr hj)⟩
  | cons b d ih =>
      have hcons (j : Nat) : r.reverse ++ (b :: d).take (j + 1) = (b :: r).reverse ++ d.take j := by
        simp
      have hone : r.reverse ++ (b :: d).take 1 = (b :: r).reverse := by
        simp
      obtain ⟨hbyte, hlast, hsig⟩ | ⟨hno, hmatch, hfresh⟩ := held_step r b
      · refine .inl ⟨1, ?_, Nat.zero_lt_one, Nat.succ_le_succ (Nat.zero_le _), hone ▸ hsig, fun j hj hpos => ?_⟩
        · rw [scanForZmodem, if_pos hbyte, if_pos hlast]
        · omega
      · have hnone (j : Nat) (hj : 0 < j)
            (hlater : ∀ i, j = i + 1 → 0 < i → ¬EvenSig ((b :: r).reverse ++ d.take i)) :
            ¬EvenSig (r.reverse ++ (b :: d).take j) := by
          obtain ⟨i, rfl⟩ := Nat.exists_eq_succ_of_ne_zero hj.ne'
          cases i with
          | zero => rwa [hone]
          | succ i =>
              rw [hcons]
              exact hlater (i + 1) rfl (Nat.succ_pos i)
        have hscan : scanForZmodem (held r) (b :: d) =
            ((scanForZmodem (held (b :: r)) d).1.map (· + 1), (scanForZmodem (held (b :: r)) d).2) := by
          rw [scanForZmodem]
          by_cases hbyte : sig[held r]? = some b
          · rw [if_pos hbyte, if_neg (hmatch hbyte).1, (hmatch hbyte).2]
          · rw [if_neg hbyte, hfresh hbyte]
        rw [hscan]
        obtain ⟨k, hk, hpos, hle, hsig, hbefore⟩ | ⟨hk, hall⟩ := ih (b :: r)
        · refine .inl ⟨k + 1, by rw [hk]; rfl, Nat.succ_pos k, Nat.succ_le_succ hle, ?_, fun j hj hpos' => ?_⟩
          · rw [hcons]
            exact hsig
          · apply hnone j hpos'
            rintro i rfl hi
            exact hbefore i (Nat.lt_of_succ_lt_succ hj) hi
        · refine .inr ⟨by rw [hk, List.reverse_cons, List.append_assoc]; rfl, fun j hj hle => ?_⟩
          apply hnone j hj
          rintro i rfl hi
          exact hall i hi (Nat.le_of_succ_le_succ hle)

theorem EvenSig.ends {s : List UInt8} (h : EvenSig s) : sig <:+ s := by
  obtain ⟨p, rfl, -⟩ := h
  exact List.suffix_append p sig

/-! ### What the tab promises -/

/-- The bytes of the chunks in the queue. -/
def bytesOf : List Message → List Byte
  | [] => []
  | .data d :: rest => d ++ bytesOf rest
  | .done :: rest => bytesOf rest

/-- The places of the bytes increase. -/
def Ordered (bs : List Byte) : Prop := bs.Pairwise (·.pos < ·.pos)

structure HandedOver (t : Tab) : Prop where
  /-- What the parser has, what a receiver has left and what waits is in order, so is what receivers read. -/
  parser : Ordered (t.consumed ++ t.ring ++ bytesOf t.queue)
  receiver : Ordered (t.read ++ t.ring ++ bytesOf t.queue)
  /-- Every byte is at one place. -/
  once : (t.consumed ++ t.read ++ t.dropped ++ t.ring ++ bytesOf t.queue).Perm t.arrived
  /-- A transfer begins at the first signature of the scene. -/
  found : ∀ s ∈ t.found, First sig s
  noticed : t.zmr = none → ¬sig <:+: t.scene

/-- A signature that comes first in the scene has an even number of asterisks before it in what the scanner
has looked at, and no other comes behind it in its chunk where the receiver cannot be started; what a
receiver leaves has no signature, and can be handed over. -/
def Clean (t : Tab) : Event → Prop
  | .handle starts drained _ =>
      match t.queue with
      | [] => True
      | .data data :: _ => t.active = false →
          ∀ k ≤ data.length, First sig (t.scene ++ (data.take k).map Byte.val) →
            EvenSig (t.scanned ++ (data.take k).map Byte.val) ∧
              (starts = false → ¬sig <:+: (data.drop k).map Byte.val)
      | .done :: _ => ¬sig <:+: t.ring.map Byte.val ∧ (drained = true ∨ t.ring = [])
  | _ => True

/-! ### The state of every run -/

/-- The bytes, of which those of `d` are on their way through the canvas. -/
structure Flow (t : Tab) (d : List Byte) : Prop where
  parser : Ordered (t.consumed ++ t.ring ++ (d ++ bytesOf t.queue))
  receiver : Ordered (t.read ++ t.ring ++ (d ++ bytesOf t.queue))
  once : (t.consumed ++ t.read ++ t.dropped ++ t.lost ++ t.ring ++ (d ++ bytesOf t.queue)).Perm t.arrived
  places : t.arrived.map Byte.pos = List.range t.arrived.length
  active : t.active = t.zmr.isSome

/-- The scanner. -/
structure Watch (t : Tab) : Prop where
  held : t.zmr = none → t.zsigLen = held t.scanned.reverse
  suffix : t.scanned <:+ t.scene
  noticed : t.zmr = none → ¬sig <:+: t.scene
  found : ∀ s ∈ t.found, First sig s

structure Sound (t : Tab) : Prop where
  flow : Flow t []
  watch : Watch t
  lost : t.lost = []

variable {t : Tab} {d : List Byte}

theorem Sound.handedOver (h : Sound t) : HandedOver t := by
  have honce := h.flow.once
  rw [h.lost, List.append_nil] at honce
  exact ⟨h.flow.parser, h.flow.receiver, honce, h.watch.found, h.watch.noticed⟩

theorem sound_start : Sound {} :=
  ⟨⟨List.Pairwise.nil, List.Pairwise.nil, .nil, rfl, rfl⟩,
    ⟨fun _ => rfl, List.suffix_refl _, fun _ => by decide, nofun⟩, rfl⟩

/-! ### The bytes -/

/-- A push keeps the order: first what is read, then the ring, then what is dropped. -/
theorem push_spec (waits : List Nat) (ring data : List Byte) :
    (zmodemRecvPush waits ring data).2.1 ++ (zmodemRecvPush waits ring data).1 ++
      (zmodemRecvPush waits ring data).2.2 = ring ++ data := by
  have hfill (ring data : List Byte) : (fill ring data).1 ++ (fill ring data).2 = ring ++ data := by
    rw [fill, List.append_assoc, List.take_append_drop]
  induction waits generalizing ring data with
  | nil => exact hfill ring data
  | cons n waits ih =>
      rw [zmodemRecvPush]
      dsimp only
      split_ifs with hall
      · have hsum := hfill ring data
        rw [hall] at hsum
        exact hsum
      · have hrest := ih ((fill ring data).1.drop n) (fill ring data).2
        generalize zmodemRecvPush waits ((fill ring data).1.drop n) (fill ring data).2 = out at hrest
        calc (fill ring data).1.take n ++ out.2.1 ++ out.1 ++ out.2.2
            = (fill ring data).1.take n ++ (out.2.1 ++ out.1 ++ out.2.2) := by simp only [List.append_assoc]
          _ = (fill ring data).1 ++ (fill ring data).2 := by
              rw [hrest, ← List.append_assoc, List.take_append_drop]
          _ = ring ++ data := hfill ring data

theorem ring_of_none (h : t.zmr = none) : t.ring = [] := by
  rw [Tab.ring, h]
  rfl

theorem ring_of_some {z : Receiver} (h : t.zmr = some z) : t.ring = z.ring := by
  rw [Tab.ring, h]
  rfl

theorem flow_consume {u : List Byte} (h : Flow t (d ++ u)) (hzmr : t.zmr = none) : Flow (consume t d) u := by
  have hring := ring_of_none hzmr
  have hring' : (consume t d).ring = [] := ring_of_none hzmr
  obtain ⟨hparser, hreceiver, honce, hplaces, hactive⟩ := h
  rw [hring] at hparser hreceiver honce
  refine ⟨?_, ?_, ?_, hplaces, hactive⟩
  · have hsame : (consume t d).consumed ++ (consume t d).ring ++ (u ++ bytesOf (consume t d).queue) =
        t.consumed ++ [] ++ (d ++ u ++ bytesOf t.queue) := by
      rw [hring']
      simp only [consume, List.append_nil, List.append_assoc]
    rw [hsame]
    exact hparser
  · rw [hring']
    refine hreceiver.sublist ((List.append_sublist_append_left _).mpr ?_)
    rw [List.append_assoc]
    exact List.sublist_append_right d _
  · refine List.Perm.trans (List.perm_iff_count.mpr fun b => ?_) honce
    rw [hring']
    simp only [consume, List.count_append]
    omega

theorem flow_push (h : Flow t d) {z : Receiver} (hzmr : t.zmr = some z) (waits : List Nat) :
    Flow (pushChunk t d waits) [] := by
  have hring := ring_of_some hzmr
  obtain ⟨hparser, hreceiver, honce, hplaces, hactive⟩ := h
  have hspec := push_spec ((waits.take pushWaits).map fun n => if z.ended then 0 else n) z.ring d
  rw [hring] at hparser hreceiver honce
  rw [pushChunk, hzmr]
  dsimp only
  generalize zmodemRecvPush ((waits.take pushWaits).map fun n => if z.ended then 0 else n) z.ring d = out
    at hspec ⊢
  have hsplit (l : List Byte) :
      l ++ z.ring ++ (d ++ bytesOf t.queue) = l ++ (out.2.1 ++ out.1 ++ out.2.2) ++ bytesOf t.queue := by
    rw [hspec]
    simp only [List.append_assoc]
  rw [hsplit] at hparser hreceiver
  have hcount (b : Byte) := congrArg (List.count b) hspec
  simp only [List.count_append] at hcount
  refine ⟨?_, ?_, ?_, hplaces, hactive.trans (by rw [hzmr]; rfl)⟩
  · refine hparser.sublist (List.Sublist.append ?_ (List.Sublist.refl _))
    refine (List.append_sublist_append_left _).mpr ?_
    exact (List.sublist_append_right out.2.1 out.1).trans (List.sublist_append_left _ out.2.2)
  · refine hreceiver.sublist (List.Sublist.append ?_ (List.Sublist.refl _))
    rw [List.append_assoc]
    exact (List.append_sublist_append_left _).mpr (List.sublist_append_left _ out.2.2)
  · refine List.Perm.trans (List.perm_iff_count.mpr fun b => ?_) honce
    have hb := hcount b
    simp only [Tab.ring, Option.map_some, Option.getD_some, List.count_append, List.count_nil]
    omega

/-- What a receiver has left goes to the parser. -/
theorem flow_done (h : Flow t []) {z : Receiver} (hzmr : t.zmr = some z) :
    Flow (consume { t with zmr := none, active := false, zsigLen := 0, scene := [], scanned := [] } z.ring)
      [] := by
  have hring := ring_of_some hzmr
  obtain ⟨hparser, hreceiver, honce, hplaces, -⟩ := h
  rw [hring] at hparser hreceiver honce
  refine ⟨?_, ?_, ?_, hplaces, rfl⟩
  · simp only [consume, Tab.ring, Option.map_none, Option.getD_none, List.append_nil]
    exact hparser
  · simp only [consume, Tab.ring, Option.map_none, Option.getD_none, List.append_nil]
    refine hreceiver.sublist (List.Sublist.append (List.sublist_append_left _ _) (List.Sublist.refl _))
  · refine List.Perm.trans (List.perm_iff_count.mpr fun b => ?_) honce
    simp only [consume, Tab.ring, Option.map_none, Option.getD_none, List.count_append, List.count_nil]
    omega

/-- A receiver that begins has nothing in its ring. -/
theorem flow_begin (h : Flow t d) (starts : Bool) : Flow (zmodemBegin t starts).1 d := by
  rw [zmodemBegin]
  split_ifs with hno
  · exact h
  · have hnone : t.zmr = none := by
      apply Option.not_isSome_iff_eq_none.mp
      exact fun hsome => hno (.inr (.inl hsome))
    have hring := ring_of_none hnone
    obtain ⟨hparser, hreceiver, honce, hplaces, -⟩ := h
    rw [hring] at hparser hreceiver honce
    exact ⟨hparser, hreceiver, honce, hplaces, rfl⟩

/-- The bytes do not see what the scanner holds. -/
theorem flow_scanner (h : Flow t d) (len : Nat) (scene scanned : List UInt8) (found : List (List UInt8)) :
    Flow { t with zsigLen := len, scene := scene, scanned := scanned, found := found } d :=
  ⟨h.parser, h.receiver, h.once, h.places, h.active⟩

/-! ### A chunk -/

/-- While a receiver runs, the scene stands still. -/
theorem push_sound (hflow : Flow t d) {z : Receiver} (hzmr : t.zmr = some z)
    (hsuffix : t.scanned <:+ t.scene) (hfound : ∀ s ∈ t.found, First sig s) (hlost : t.lost = [])
    (waits : List Nat) : Sound (pushChunk t d waits) := by
  refine ⟨flow_push hflow hzmr waits, ?_, ?_⟩
  · rw [pushChunk, hzmr]
    exact ⟨nofun, hsuffix, nofun, hfound⟩
  · rw [pushChunk, hzmr]
    exact hlost

/-- The first signature of the scene ends in the new bytes. -/
theorem first_in_chunk (hnoticed : ¬sig <:+: t.scene) {vals : List UInt8} {n : Nat}
    (h : sig <:+: t.scene ++ vals.take n) :
    ∃ m ≤ n, 0 < m ∧ First sig (t.scene ++ vals.take m) := by
  obtain ⟨u, hu, hfirst⟩ := exists_first h
  obtain ⟨j, hj⟩ := hfirst.in_tail hnoticed hu
  rw [List.take_take] at hj
  rw [hj] at hfirst
  refine ⟨min j n, Nat.min_le_right j n, Nat.pos_of_ne_zero fun hzero => ?_, hfirst⟩
  rw [hzero, List.take_zero, List.append_nil] at hfirst
  exact hnoticed hfirst.1.isInfix

/-- What the scanner has looked at is the end of the scene. -/
theorem Watch.ends (h : Watch t) {u : List UInt8} (hsig : EvenSig (t.scanned ++ u)) :
    sig <:+ t.scene ++ u := by
  obtain ⟨p, hp⟩ := h.suffix
  rw [← hp, List.append_assoc]
  exact hsig.ends.trans (List.suffix_append p _)

/-- What the scanner makes of a chunk. -/
theorem Watch.scan (h : Watch t) (hnone : t.zmr = none) (vals : List UInt8) :
    (∃ k, scanForZmodem t.zsigLen vals = (some k, 0) ∧ 0 < k ∧ k ≤ vals.length ∧
        EvenSig (t.scanned ++ vals.take k) ∧ ∀ j < k, 0 < j → ¬EvenSig (t.scanned ++ vals.take j)) ∨
      scanForZmodem t.zsigLen vals = (none, RipStream.held (t.scanned ++ vals).reverse) ∧
        ∀ j, 0 < j → j ≤ vals.length → ¬EvenSig (t.scanned ++ vals.take j) := by
  have hspec := scan_spec vals t.scanned.reverse
  rw [← h.held hnone, List.reverse_reverse, ← List.reverse_append] at hspec
  exact hspec

theorem zmodemBegin_eq (hactive : t.active = false) (hnone : t.zmr = none) (starts : Bool) :
    zmodemBegin t starts =
      if starts then ({ t with zmr := some {}, active := true, zsigLen := 0, scene := [], scanned := [] }, true)
      else (t, false) := by
  rw [zmodemBegin, hactive, hnone]
  cases starts <;> rfl

/-- The chunk goes to the parser up to the signature, and the rest to the receiver, or to the parser where
no receiver can be started. -/
theorem onData_found {k len : Nat} {starts : Bool} {waits : List Nat} (hactive : t.active = false)
    (hnone : t.zmr = none) (hscan : scanForZmodem t.zsigLen (d.map Byte.val) = (some k, len)) :
    let t' := consume { t with zsigLen := len } (d.take k)
    onData t d starts waits =
      if starts then
        pushChunk
          { t' with
            zmr := some {}, active := true, zsigLen := 0, scene := [], scanned := []
            found := t'.found ++ [t'.scene] }
          (d.drop k) waits
      else consume { t' with scene := [], scanned := [], found := t'.found ++ [t'.scene] } (d.drop k) := by
  rw [onData, if_neg (by rw [hactive]; nofun), hscan]
  simp only [zmodemBegin, consume, hactive, hnone]
  cases starts <;> simp

theorem onData_none {len : Nat} {starts : Bool} {waits : List Nat} (hactive : t.active = false)
    (hscan : scanForZmodem t.zsigLen (d.map Byte.val) = (none, len)) :
    onData t d starts waits =
      { consume t d with zsigLen := len, scanned := t.scanned ++ d.map Byte.val } := by
  rw [onData, if_neg (by rw [hactive]; nofun), hscan]

theorem onData_sound (hflow : Flow t d) (hwatch : Watch t) (hlost : t.lost = []) {starts : Bool}
    {waits : List Nat}
    (hguard : t.active = false → ∀ k ≤ d.length, First sig (t.scene ++ (d.take k).map Byte.val) →
      EvenSig (t.scanned ++ (d.take k).map Byte.val) ∧
        (starts = false → ¬sig <:+: (d.drop k).map Byte.val)) :
    Sound (onData t d starts waits) := by
  cases hzmr : t.zmr with
  | some z =>
      have hactive : t.active = true := hflow.active.trans (by rw [hzmr]; rfl)
      rw [onData, if_pos hactive]
      exact push_sound hflow hzmr hwatch.suffix hwatch.found hlost waits
  | none =>
      have hactive : t.active = false := hflow.active.trans (by rw [hzmr]; rfl)
      have hnoticed := hwatch.noticed hzmr
      have hclean (k : Nat) (hk : k ≤ (d.map Byte.val).length)
          (hfirst : First sig (t.scene ++ (d.map Byte.val).take k)) :
          EvenSig (t.scanned ++ (d.map Byte.val).take k) ∧
            (starts = false → ¬sig <:+: (d.drop k).map Byte.val) := by
        rw [List.length_map] at hk
        rw [← List.map_take] at hfirst ⊢
        exact hguard hactive k hk hfirst
      obtain ⟨k, hscan, hpos, hk, hsig, hbefore⟩ | ⟨hscan, hall⟩ := hwatch.scan hzmr (d.map Byte.val)
      · have hfirst : First sig (t.scene ++ (d.map Byte.val).take k) := by
          obtain ⟨m, hm, hmpos, hfirst⟩ := first_in_chunk hnoticed (hwatch.ends hsig).isInfix
          obtain hlt | rfl := Nat.lt_or_eq_of_le hm
          · exact absurd (hclean m (hm.trans hk) hfirst).1 (hbefore m hlt hmpos)
          · exact hfirst
        have hfound : ∀ s ∈ t.found ++ [t.scene ++ (d.take k).map Byte.val], First sig s := by
          intro s hs
          obtain hold | hnew := List.mem_append.mp hs
          · exact hwatch.found s hold
          · rw [List.mem_singleton.mp hnew, List.map_take]
            exact hfirst
        have hparts : Flow { t with zsigLen := 0 } (d.take k ++ d.drop k) := by
          rw [List.take_append_drop]
          exact flow_scanner hflow 0 t.scene t.scanned t.found
        have htaken := flow_consume hparts hzmr
        rw [onData_found hactive hzmr hscan]
        split_ifs with hstarts
        · have hbegun := flow_begin htaken true
          rw [zmodemBegin_eq (t := consume { t with zsigLen := 0 } (d.take k)) hactive hzmr, if_pos rfl] at hbegun
          exact push_sound (flow_scanner hbegun 0 [] [] _) rfl (List.suffix_refl _) hfound hlost waits
        · have hrest : Flow { consume { t with zsigLen := 0 } (d.take k) with
              scene := [], scanned := [], found := t.found ++ [t.scene ++ (d.take k).map Byte.val] }
              (d.drop k ++ []) := by
            rw [List.append_nil]
            exact flow_scanner htaken 0 [] [] _
          refine ⟨flow_consume hrest hzmr, ⟨fun _ => rfl, List.nil_suffix, fun _ => ?_, hfound⟩, hlost⟩
          exact (hclean k hk hfirst).2 (Bool.eq_false_iff.mpr hstarts)
      · have hwhole : Flow t (d ++ []) := by
          rw [List.append_nil]
          exact hflow
        rw [onData_none hactive hscan]
        refine ⟨flow_scanner (flow_consume hwhole hzmr) _ _ _ _, ⟨fun _ => rfl, ?_, fun _ hsig => ?_,
          hwatch.found⟩, hlost⟩
        · obtain ⟨p, hp⟩ := hwatch.suffix
          refine ⟨p, ?_⟩
          change p ++ (t.scanned ++ d.map Byte.val) = t.scene ++ d.map Byte.val
          rw [← hp, List.append_assoc]
        · have hsome : sig <:+: t.scene ++ (d.map Byte.val).take (d.map Byte.val).length := by
            rw [List.take_length]
            exact hsig
          obtain ⟨m, hm, hmpos, hfirst⟩ := first_in_chunk hnoticed hsome
          exact hall m hmpos hm (hclean m hm hfirst).1

/-! ### Steps -/

@[simp] theorem bytesOf_append (q q' : List Message) : bytesOf (q ++ q') = bytesOf q ++ bytesOf q' := by
  induction q with
  | nil => rfl
  | cons m q ih =>
      cases m with
      | data d => simp only [List.cons_append, bytesOf, ih, List.append_assoc]
      | done => exact ih

theorem chunk_pos (n : Nat) (bytes : List UInt8) :
    (chunk n bytes).map Byte.pos = List.range' n bytes.length := by
  apply List.ext_getElem
  · simp [chunk]
  · intro i _ _
    simp [chunk]

/-- Bytes that are somewhere have arrived. -/
theorem Flow.pos_lt (h : Flow t d) {b : Byte} (hb : b ∈ t.arrived) : b.pos < t.arrived.length := by
  have hmem : b.pos ∈ t.arrived.map Byte.pos := List.mem_map_of_mem hb
  rw [h.places] at hmem
  exact List.mem_range.mp hmem

/-- New bytes come behind all others. -/
theorem ordered_chunk {l : List Byte} {n : Nat} (h : Ordered l) (hl : ∀ b ∈ l, b.pos < n)
    (bytes : List UInt8) : Ordered (l ++ chunk n bytes) := by
  have hmap := chunk_pos n bytes
  refine List.pairwise_append.mpr ⟨h, ?_, fun a ha b hb => ?_⟩
  · apply List.pairwise_map.mp
    rw [hmap]
    exact List.pairwise_lt_range'
  · have hmem : b.pos ∈ (chunk n bytes).map Byte.pos := List.mem_map_of_mem hb
    rw [hmap] at hmem
    exact (hl a ha).trans_le (List.mem_range'_1.mp hmem).1

theorem arrive_sound (h : Sound t) (bytes : List UInt8) : Sound (step t (.arrive bytes)) := by
  have hwhere {b : Byte} (hb : b ∈ t.consumed ++ t.read ++ t.ring ++ bytesOf t.queue) :
      b.pos < t.arrived.length := by
    apply h.flow.pos_lt
    apply h.flow.once.mem_iff.mp
    simp only [List.mem_append, List.nil_append] at hb ⊢
    tauto
  have hparser : Ordered (t.consumed ++ t.ring ++ bytesOf t.queue) := h.flow.parser
  have hreceiver : Ordered (t.read ++ t.ring ++ bytesOf t.queue) := h.flow.receiver
  have hqueue (l : List Byte) :
      l ++ (step t (.arrive bytes)).ring ++ ([] ++ bytesOf (step t (.arrive bytes)).queue) =
        l ++ t.ring ++ bytesOf t.queue ++ chunk t.arrived.length bytes := by
    simp [step, Tab.ring, bytesOf]
  refine ⟨⟨?_, ?_, ?_, ?_, h.flow.active⟩, ⟨h.watch.held, h.watch.suffix, h.watch.noticed, h.watch.found⟩,
    h.lost⟩
  · rw [hqueue]
    refine ordered_chunk hparser (fun b hb => hwhere ?_) bytes
    simp only [List.mem_append] at hb ⊢
    tauto
  · rw [hqueue]
    refine ordered_chunk hreceiver (fun b hb => hwhere ?_) bytes
    simp only [List.mem_append] at hb ⊢
    tauto
  · have hold := h.flow.once.append_right (chunk t.arrived.length bytes)
    refine List.Perm.trans (List.perm_iff_count.mpr fun b => ?_) hold
    simp only [step, Tab.ring, bytesOf_append, bytesOf, List.count_append, List.count_nil]
    omega
  · have hlen : (t.arrived ++ chunk t.arrived.length bytes).length = t.arrived.length + bytes.length := by
      simp [chunk]
    have hplaces : List.range' 0 t.arrived.length ++ List.range' (0 + t.arrived.length) bytes.length =
        List.range' 0 (t.arrived.length + bytes.length) := List.range'_append_1
    rw [Nat.zero_add] at hplaces
    change (t.arrived ++ chunk t.arrived.length bytes).map Byte.pos =
      List.range (t.arrived ++ chunk t.arrived.length bytes).length
    rw [List.map_append, h.flow.places, chunk_pos, hlen, List.range_eq_range', List.range_eq_range']
    exact hplaces

theorem read_sound (h : Sound t) (n : Nat) : Sound (step t (.read n)) := by
  rw [step]
  cases hzmr : t.zmr with
  | none => exact h
  | some z =>
      dsimp only
      split_ifs
      · exact h
      · obtain ⟨hparser, hreceiver, honce, hplaces, hactive⟩ := h.flow
        rw [ring_of_some hzmr] at hparser hreceiver honce
        refine ⟨⟨?_, ?_, ?_, hplaces, hactive.trans (by rw [hzmr]; rfl)⟩,
          ⟨nofun, h.watch.suffix, nofun, h.watch.found⟩, h.lost⟩
        · refine hparser.sublist (List.Sublist.append ?_ (List.Sublist.refl _))
          exact (List.append_sublist_append_left _).mpr (List.drop_sublist n z.ring)
        · change Ordered (t.read ++ z.ring.take n ++ z.ring.drop n ++ _)
          rw [List.append_assoc t.read, List.take_append_drop]
          exact hreceiver
        · refine List.Perm.trans (List.perm_iff_count.mpr fun b => ?_) honce
          have hsplit := congrArg (List.count b) (List.take_append_drop n z.ring)
          rw [List.count_append] at hsplit
          simp only [Tab.ring, Option.map_some, Option.getD_some, List.count_append]
          omega

theorem finish_sound (h : Sound t) : Sound (step t .finish) := by
  rw [step]
  cases hzmr : t.zmr with
  | none => exact h
  | some z =>
      dsimp only
      split_ifs
      · exact h
      · obtain ⟨hparser, hreceiver, honce, hplaces, hactive⟩ := h.flow
        have hqueue : bytesOf (t.queue ++ [.done]) = bytesOf t.queue := by
          simp [bytesOf]
        rw [ring_of_some hzmr, ← hqueue] at hparser hreceiver honce
        exact ⟨⟨hparser, hreceiver, honce, hplaces, hactive.trans (by rw [hzmr]; rfl)⟩,
          ⟨nofun, h.watch.suffix, nofun, h.watch.found⟩, h.lost⟩

theorem download_sound (h : Sound t) (starts : Bool) : Sound (step t (.download starts)) := by
  rw [step]
  split_ifs with hactive
  · exact h
  · refine ⟨flow_begin h.flow starts, ?_, ?_⟩
    · rw [zmodemBegin]
      split_ifs
      · exact h.watch
      · exact ⟨nofun, List.suffix_refl _, nofun, h.watch.found⟩
    · rw [zmodemBegin]
      split_ifs <;> exact h.lost

/-- Without a receiver the message changes nothing. -/
theorem onZmrDone_none (hflow : Flow t d) (hzmr : t.zmr = none) (drained : Bool) : onZmrDone t drained = t := by
  have hactive := hflow.active
  cases t
  dsimp only at hzmr hactive
  subst hzmr hactive
  rfl

theorem done_sound (h : Sound t) {drained : Bool} (hsig : ¬sig <:+: t.ring.map Byte.val)
    (hdrained : drained = true ∨ t.ring = []) : Sound (onZmrDone t drained) := by
  cases hzmr : t.zmr with
  | none =>
      rw [onZmrDone_none h.flow hzmr]
      exact h
  | some z =>
      rw [onZmrDone, hzmr]
      rw [ring_of_some hzmr] at hsig hdrained
      have hdone : Sound
          (consume { t with zmr := none, active := false, zsigLen := 0, scene := [], scanned := [] } z.ring) :=
        ⟨flow_done h.flow hzmr, ⟨fun _ => rfl, List.nil_suffix, fun _ => hsig, h.watch.found⟩, h.lost⟩
      dsimp only
      split_ifs with hbuffer
      · exact hdone
      · have hempty := hdrained.resolve_left hbuffer
        rw [hempty] at hdone ⊢
        simpa only [consume, List.append_nil, List.map_nil] using hdone

/-- The next message is a chunk. -/
theorem Flow.next_chunk (h : Flow t []) {rest : List Message} (hqueue : t.queue = .data d :: rest) :
    Flow { t with queue := rest } d := by
  obtain ⟨hparser, hreceiver, honce, hplaces, hactive⟩ := h
  rw [hqueue] at hparser hreceiver honce
  exact Flow.mk (t := { t with queue := rest }) hparser hreceiver honce hplaces hactive

theorem Flow.next_done (h : Flow t []) {rest : List Message} (hqueue : t.queue = .done :: rest) :
    Flow { t with queue := rest } [] := by
  obtain ⟨hparser, hreceiver, honce, hplaces, hactive⟩ := h
  rw [hqueue] at hparser hreceiver honce
  exact Flow.mk (t := { t with queue := rest }) hparser hreceiver honce hplaces hactive

/-- The scanner does not see the queue. -/
theorem Watch.queue (h : Watch t) (rest : List Message) : Watch { t with queue := rest } :=
  ⟨h.held, h.suffix, h.noticed, h.found⟩

theorem step_sound (h : Sound t) {e : Event} (hguard : Clean t e) : Sound (step t e) := by
  cases e with
  | arrive bytes => exact arrive_sound h bytes
  | read n => exact read_sound h n
  | finish => exact finish_sound h
  | download starts => exact download_sound h starts
  | handle starts drained waits =>
      rw [step]
      cases hqueue : t.queue with
      | nil => exact h
      | cons m rest =>
          rw [Clean, hqueue] at hguard
          cases m with
          | data d => exact onData_sound (h.flow.next_chunk hqueue) (h.watch.queue rest) h.lost hguard
          | done =>
              have hdone : Sound { t with queue := rest } :=
                ⟨h.flow.next_done hqueue, h.watch.queue rest, h.lost⟩
              exact done_sound hdone hguard.1 hguard.2

/-! ### Misses -/

/-- A chunk whose first signature the scanner does not see, or behind which another goes by. -/
theorem onData_misses (hwatch : Watch t) (hactive : t.active = false) (hzmr : t.zmr = none) {starts : Bool}
    {waits : List Nat} {k : Nat} (hk : k ≤ d.length) (hfirst : First sig (t.scene ++ (d.take k).map Byte.val))
    (hno : ¬(EvenSig (t.scanned ++ (d.take k).map Byte.val) ∧
      (starts = false → ¬sig <:+: (d.drop k).map Byte.val))) : ¬HandedOver (onData t d starts waits) := by
  intro hover
  have hpos : 0 < k := by
    apply Nat.pos_of_ne_zero
    rintro rfl
    rw [List.take_zero, List.map_nil, List.append_nil] at hfirst
    exact hwatch.noticed hzmr hfirst.1.isInfix
  rw [List.map_take] at hfirst hno
  have hbehind (j : Nat) : t.scene ++ (d.map Byte.val).take j <+: t.scene ++ d.map Byte.val :=
    (List.prefix_append_right_inj _).mpr (List.take_prefix _ _)
  obtain ⟨j, hscan, hjpos, hj, hsig, hbefore⟩ | ⟨hscan, hall⟩ := hwatch.scan hzmr (d.map Byte.val)
  · have hfound : First sig (t.scene ++ (d.map Byte.val).take j) := by
      apply hover.found
      rw [onData_found hactive hzmr hscan, List.map_take.symm]
      cases starts with
      | false => exact List.mem_append_right _ (List.mem_singleton_self _)
      | true => exact List.mem_append_right _ (List.mem_singleton_self _)
    have heq := hfirst.eq hfound (hbehind k) (hbehind j)
    have hkj : k = j := by
      have hlen := congrArg List.length (List.append_cancel_left heq)
      rw [List.length_take, List.length_take, List.length_map] at hlen
      rw [List.length_map] at hj
      omega
    subst hkj
    obtain ⟨hstarts, hrest⟩ : starts = false ∧ sig <:+: (d.drop k).map Byte.val := by
      by_contra hnot
      exact hno ⟨hsig, fun hstarts hrest => hnot ⟨hstarts, hrest⟩⟩
    have hnoticed := hover.noticed
    rw [onData_found hactive hzmr hscan, hstarts] at hnoticed
    exact hnoticed hzmr hrest
  · have hnoticed := hover.noticed
    rw [onData_none hactive hscan] at hnoticed
    refine hnoticed hzmr ?_
    exact isInfix_of_ends hfirst.1 (hbehind k)

/-- What a receiver leaves has a signature that goes by, or is lost. -/
theorem done_misses (hflow : Flow t []) (hlost : t.lost = []) {drained : Bool}
    (hno : ¬(¬sig <:+: t.ring.map Byte.val ∧ (drained = true ∨ t.ring = []))) :
    ¬HandedOver (onZmrDone t drained) := by
  intro hover
  cases hzmr : t.zmr with
  | none =>
      rw [ring_of_none hzmr] at hno
      exact hno ⟨by decide, .inr rfl⟩
  | some z =>
      rw [ring_of_some hzmr] at hno
      obtain ⟨-, -, honce, -, hnoticed⟩ := hover
      rw [onZmrDone, hzmr] at honce hnoticed
      cases drained with
      | true => exact hno ⟨hnoticed rfl, .inl rfl⟩
      | false =>
          have hempty : z.ring = [] := by
            have hbefore := hflow.once.length_eq
            have hafter := honce.length_eq
            rw [ring_of_some hzmr, hlost] at hbefore
            simp only [Tab.ring, Option.map_none, Option.getD_none, List.length_append, List.length_nil,
              Bool.false_eq_true, if_false] at hbefore hafter
            apply List.length_eq_zero_iff.mp
            omega
          rw [hempty] at hno
          exact hno ⟨by decide, .inr rfl⟩

/-- A step that misses the condition. -/
theorem step_misses (h : Sound t) {e : Event} (hno : ¬Clean t e) : ¬HandedOver (step t e) := by
  cases e with
  | arrive bytes => exact absurd trivial hno
  | read n => exact absurd trivial hno
  | finish => exact absurd trivial hno
  | download starts => exact absurd trivial hno
  | handle starts drained waits =>
      rw [step]
      cases hqueue : t.queue with
      | nil =>
          rw [Clean, hqueue] at hno
          exact absurd trivial hno
      | cons m rest =>
          rw [Clean, hqueue] at hno
          cases m with
          | data d =>
              simp only [Classical.not_imp, not_forall] at hno
              obtain ⟨hactive, k, hk, hfirst, hnot⟩ := hno
              have hzmr : t.zmr = none := by
                apply Option.not_isSome_iff_eq_none.mp
                rw [← h.flow.active, hactive]
                nofun
              exact onData_misses (h.watch.queue rest) hactive hzmr hk hfirst hnot
          | done => exact done_misses (h.flow.next_done hqueue) h.lost hno

/-- The runs that hand the stream over all along. -/
theorem stream_handed_over_iff (events : List Event) :
    (∀ before, before <+: events → HandedOver (run step {} before)) ↔ Guarded step Clean {} events :=
  safe_iff_guarded (I := Sound) (fun _ _ hs hguard => step_sound hs hguard) (fun _ hs => hs.handedOver)
    (fun _ _ hs hno => step_misses hs hno) sound_start events

/-- A third asterisk makes the scanner begin anew, and the signature goes by. -/
theorem third_asterisk_missed :
    ¬HandedOver (run step {} [.arrive [star, star, star, zdle, hexHeader], .handle true true []]) := by
  intro h
  exact h.noticed rfl (by decide)

end UnicornSuite.RipStream
