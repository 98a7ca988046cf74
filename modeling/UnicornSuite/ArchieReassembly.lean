import UnicornSuite.ArchieArdp
import UnicornSuite.LibFirsts

/-! What the parser is given. The attempts of a query are one pass over the packets that arrive; the
slots hold the first packet of each number and `got` counts the numbers. So a reply is complete when
as many numbers have come as the first packet has in its total, and it is the right one exactly when
none of these numbers is above that total: a packet is checked against its own total only. -/

namespace UnicornSuite.Archie

open Firsts

/-! ### The arrivals -/

/-- The datagrams of an attempt that `recv` delivers. -/
def delivered (ds : List Bytes) : List Bytes := ds.takeWhile fun d => ! recvFails d

/-- The packets that arrive in the attempts, in the order in which they are read. -/
def arrivals (attempts : List (Option (List Bytes))) : List Packet :=
  attempts.flatMap fun a => (delivered (a.getD [])).filterMap frame

/-- The total a query goes by: that of the first packet. -/
def totalOf (ps : List Packet) : Nat := (ps.head?.map (·.tot)).getD 0

/-- The numbers of the packets, in the order they first come. -/
abbrev numbers (ps : List Packet) : List Nat := keys Packet.seq ps

/-- The payload of a number: that of the first packet that has it. -/
abbrev payload (ps : List Packet) (i : Nat) : Option Bytes := firstFor Packet.seq Packet.payload ps i

/-- The reply as it should reach the parser: every packet has been taken in, and the body is the
payloads in their order. -/
structure Reassembled (ps heard : List Packet) (body : Bytes) : Prop where
  heard_prefix : heard <+: ps
  whole : ∀ i, 1 ≤ i → i ≤ totalOf ps → i ∈ numbers heard
  body_eq : body = (List.range (totalOf ps)).flatMap fun i => (payload ps (i + 1)).getD []

/-- The numbers that complete the query include one above the total. -/
def Overrun (malloc : Nat → Bool) (ps : List Packet) : Prop :=
  totalOf ps ≤ (numbers ps).length ∧ (∃ n ∈ (numbers ps).take (totalOf ps), totalOf ps < n) ∧
    ∀ k ≤ totalOf ps, malloc k = true

theorem totalOf_append {ps qs : List Packet} (hne : ps ≠ []) : totalOf (ps ++ qs) = totalOf ps := by
  cases ps with
  | nil => exact absurd rfl hne
  | cons p ps => rfl

theorem totalOf_pos {ps : List Packet} (hne : ps ≠ []) : 0 < totalOf ps := by
  cases ps with
  | nil => exact absurd rfl hne
  | cons p ps => exact Nat.lt_of_lt_of_le p.one_le_seq p.seq_le_tot

theorem one_le_of_mem_numbers {ps : List Packet} {n : Nat} (h : n ∈ numbers ps) : 1 ≤ n := by
  obtain ⟨p, -, rfl⟩ := mem_keys.mp h
  exact p.one_le_seq

/-! ### One pass -/

section Run

variable (malloc : Nat → Bool)

/-- The packets, taken in one after the other. -/
def gather (r : Reassembly) : List Packet → Receive
  | [] => .waiting r
  | p :: ps =>
      match accept malloc p r with
      | none => .nomem
      | some r' => if 0 < r'.total ∧ r'.total ≤ r'.got then .complete r' else gather r' ps

theorem receive_eq_gather (r : Reassembly) (ds : List Bytes) :
    receive malloc r ds = gather malloc r ((delivered ds).filterMap frame) := by
  induction ds generalizing r with
  | nil => rfl
  | cons d ds ih =>
      rw [receive, delivered]
      by_cases hstop : recvFails d = true
      · rw [if_pos hstop, List.takeWhile_cons_of_neg (by simp [hstop])]
        rfl
      · rw [if_neg hstop, List.takeWhile_cons_of_pos (by simpa using hstop)]
        cases hframe : frame d with
        | none =>
            rw [List.filterMap_cons_none hframe]
            exact ih r
        | some p =>
            rw [List.filterMap_cons_some hframe, gather]
            cases haccept : accept malloc p r with
            | none => simp only [haccept]
            | some r' => simp only [haccept, ih r', delivered]

theorem gather_append (r : Reassembly) (ps qs : List Packet) :
    gather malloc r (ps ++ qs) =
      match gather malloc r ps with
      | .waiting r' => gather malloc r' qs
      | left => left := by
  induction ps generalizing r with
  | nil => rfl
  | cons p ps ih =>
      rw [List.cons_append, gather, gather]
      cases haccept : accept malloc p r with
      | none => rfl
      | some r' =>
          simp only
          split_ifs
          · rfl
          · exact ih r'

/-- A retransmission changes nothing in what has been taken in. -/
theorem attemptLoop_eq_gather (r : Reassembly) (attempts : List (Option (List Bytes))) :
    attemptLoop malloc r attempts = gather malloc r (arrivals attempts) := by
  induction attempts generalizing r with
  | nil => rfl
  | cons a attempts ih =>
      rw [arrivals, List.flatMap_cons]
      cases a with
      | none => exact ih r
      | some ds =>
          rw [attemptLoop, receive_eq_gather, gather_append]
          simp only [ih]
          rfl

/-- What holds of the slots and the counter after the packets taken in. -/
structure Sound (r : Reassembly) : Prop where
  total : r.total = totalOf r.heard
  slots : ∀ i, r.slots i = payload r.heard (i + 1)
  got : r.got = (numbers r.heard).length
  allocated : ∀ k < r.got, malloc k = true

theorem sound_start : Sound malloc .start :=
  ⟨rfl, fun _ => rfl, rfl, fun _ hk => absurd hk (Nat.not_lt_zero _)⟩

variable {malloc} {r r' : Reassembly} {p : Packet}

theorem Sound.slot_eq_none (hr : Sound malloc r) (p : Packet) :
    r.slots (p.seq - 1) = none ↔ p.seq ∉ numbers r.heard := by
  rw [hr.slots, Nat.sub_add_cancel p.one_le_seq, firstFor_eq_none]

theorem Sound.total_concat (hr : Sound malloc r) (p : Packet) :
    (if r.total = 0 then p.tot else r.total) = totalOf (r.heard ++ [p]) := by
  by_cases hnil : r.heard = []
  · rw [hr.total, hnil]
    rfl
  · rw [totalOf_append hnil, ← hr.total, if_neg]
    rw [hr.total]
    exact Nat.ne_of_gt (totalOf_pos hnil)

theorem Sound.accept_old (hr : Sound malloc r) (hold : p.seq ∈ numbers r.heard) :
    accept malloc p r =
      some { r with total := totalOf (r.heard ++ [p]), heard := r.heard ++ [p] } := by
  rw [accept, if_neg (mt (hr.slot_eq_none p).mp (not_not.mpr hold)), hr.total_concat p]

theorem Sound.accept_new (hr : Sound malloc r) (hnew : p.seq ∉ numbers r.heard) :
    accept malloc p r =
      if malloc r.got then
        some { slots := fun i => if i = p.seq - 1 then some p.payload else r.slots i,
               total := totalOf (r.heard ++ [p]), got := r.got + 1, heard := r.heard ++ [p] }
      else none := by
  rw [accept, if_pos ((hr.slot_eq_none p).mpr hnew), hr.total_concat p]

/-- What a packet does: it joins the packets taken in, and the counter goes up by one at most. -/
theorem Sound.accept_some (hr : Sound malloc r) (h : accept malloc p r = some r') :
    Sound malloc r' ∧ r'.heard = r.heard ++ [p] ∧ r'.got ≤ r.got + 1 := by
  by_cases hnew : p.seq ∈ numbers r.heard
  · rw [hr.accept_old hnew] at h
    cases h
    refine ⟨⟨rfl, ?_, ?_, hr.allocated⟩, rfl, Nat.le_succ _⟩
    · intro i
      show r.slots i = payload (r.heard ++ [p]) (i + 1)
      rw [payload, firstFor_concat, if_neg, hr.slots]
      rintro ⟨hseq, hmem⟩
      exact hmem (hseq ▸ hnew)
    · show r.got = (numbers (r.heard ++ [p])).length
      rw [numbers, keys_concat, if_pos hnew, hr.got]
  · rw [hr.accept_new hnew] at h
    split_ifs at h with hmem
    cases h
    refine ⟨⟨rfl, ?_, ?_, ?_⟩, rfl, Nat.le_refl _⟩
    · intro i
      show (if i = p.seq - 1 then some p.payload else r.slots i) = payload (r.heard ++ [p]) (i + 1)
      have hone := p.one_le_seq
      rw [payload, firstFor_concat, hr.slots]
      by_cases hi : i = p.seq - 1
      · have hseq : p.seq = i + 1 := by omega
        rw [if_pos hi, if_pos ⟨hseq, hseq ▸ hnew⟩]
      · rw [if_neg hi, if_neg (fun hnow => hi (by omega))]
    · show r.got + 1 = (numbers (r.heard ++ [p])).length
      rw [numbers, keys_concat, if_neg hnew, List.length_append, hr.got]
      rfl
    · intro k hk
      rcases Nat.lt_succ_iff_lt_or_eq.mp hk with hk | rfl
      · exact hr.allocated k hk
      · exact hmem

theorem Sound.accept_none (hr : Sound malloc r) (h : accept malloc p r = none) :
    malloc r.got = false := by
  by_cases hnew : p.seq ∈ numbers r.heard
  · rw [hr.accept_old hnew] at h
    cases h
  · rw [hr.accept_new hnew] at h
    split_ifs at h with hmem
    exact Bool.eq_false_iff.mpr hmem

/-- The numbers that have come are fewer than the total, or nothing has come. -/
def Open (r : Reassembly) : Prop := r.heard = [] ∨ r.got < r.total

theorem Sound.got_le (hr : Sound malloc r) (hopen : Open r) : r.got ≤ totalOf r.heard := by
  rcases hopen with hnil | hlt
  · rw [hr.got, hnil]
    exact Nat.zero_le _
  · rw [← hr.total]
    exact Nat.le_of_lt hlt

/-- A packet that leaves the reply open leaves it so, and one that completes it is the one that makes
up the total. -/
theorem Sound.accept_got (hr : Sound malloc r) (hopen : Open r) (h : accept malloc p r = some r') :
    0 < r'.total ∧ r'.got ≤ r'.total := by
  obtain ⟨hr', hheard, hgot⟩ := hr.accept_some h
  have hne : r'.heard ≠ [] := by
    rw [hheard]
    exact List.append_ne_nil_of_right_ne_nil _ (List.cons_ne_nil _ _)
  have hpos : 0 < r'.total := hr'.total ▸ totalOf_pos hne
  refine ⟨hpos, ?_⟩
  rcases hopen with hnil | hlt
  · rw [hr.got, hnil] at hgot
    exact Nat.le_trans hgot hpos
  · have htotal : r'.total = r.total := by
      by_cases hnil : r.heard = []
      · rw [hr.got, hr.total, hnil] at hlt
        exact absurd hlt (Nat.lt_irrefl _)
      · rw [hr'.total, hheard, totalOf_append hnil, hr.total]
    omega

/-- What the pass comes to: memory ran out below the total, too few numbers came, or as many as the
total did. -/
theorem Sound.gather_spec (hr : Sound malloc r) (hopen : Open r) (ps : List Packet) :
    match gather malloc r ps with
    | .nomem => ∃ k ≤ totalOf (r.heard ++ ps), malloc k = false
    | .waiting r' => Sound malloc r' ∧ Open r' ∧ r'.heard = r.heard ++ ps
    | .complete r' => Sound malloc r' ∧ r'.heard <+: r.heard ++ ps ∧ r'.got = r'.total ∧
        r'.heard ≠ [] := by
  induction ps generalizing r with
  | nil => exact ⟨hr, hopen, (List.append_nil _).symm⟩
  | cons p ps ih =>
      rw [gather]
      cases haccept : accept malloc p r with
      | none =>
          refine ⟨r.got, ?_, hr.accept_none haccept⟩
          by_cases hnil : r.heard = []
          · rw [hr.got, hnil]
            exact Nat.zero_le _
          · rw [totalOf_append hnil]
            exact hr.got_le hopen
      | some r' =>
          obtain ⟨hr', hheard, -⟩ := hr.accept_some haccept
          obtain ⟨hpos, hle⟩ := hr.accept_got hopen haccept
          have hrest : r.heard ++ p :: ps = r'.heard ++ ps := by
            rw [hheard, List.append_assoc, List.singleton_append]
          simp only [hrest]
          split_ifs with hdone
          · refine ⟨hr', List.prefix_append _ _, Nat.le_antisymm hle hdone.2, ?_⟩
            rw [hheard]
            exact List.append_ne_nil_of_right_ne_nil _ (List.cons_ne_nil _ _)
          · exact ih hr' (.inr (Nat.not_le.mp fun hfull => hdone ⟨hpos, hfull⟩))

/-- The pass from the start. A reply that is complete has as many numbers as its total. -/
theorem gather_start_spec (malloc : Nat → Bool) (ps : List Packet) :
    match gather malloc .start ps with
    | .nomem => ∃ k ≤ totalOf ps, malloc k = false
    | .waiting _ => ps = [] ∨ (numbers ps).length < totalOf ps
    | .complete r' => Sound malloc r' ∧ r'.heard <+: ps ∧ r'.got = totalOf ps ∧
        r'.total = totalOf ps := by
  have hspec := (sound_start malloc).gather_spec (.inl rfl) ps
  rw [show Reassembly.start.heard ++ ps = ps from rfl] at hspec
  cases hgather : gather malloc .start ps with
  | nomem =>
      rw [hgather] at hspec
      exact hspec
  | waiting r =>
      rw [hgather] at hspec
      obtain ⟨hr, hnil | hlt, rfl⟩ := hspec
      · exact .inl hnil
      · exact .inr (by rwa [hr.got, hr.total] at hlt)
  | complete r =>
      rw [hgather] at hspec
      obtain ⟨hr, ⟨t, rfl⟩, hgot, hne⟩ := hspec
      have htotal : r.total = totalOf (r.heard ++ t) := by rw [hr.total, totalOf_append hne]
      exact ⟨hr, List.prefix_append _ _, hgot.trans htotal, htotal⟩

end Run

/-! ### The query -/

/-- The packets that arrive in a query. -/
def queryPackets (attempts : List (Option (List Bytes))) : List Packet :=
  arrivals (attempts.take (archieRetries + 1))

section Whole

variable {malloc : Nat → Bool} {attempts : List (Option (List Bytes))}

theorem query_eq : query malloc attempts =
    match gather malloc .start (queryPackets attempts) with
    | .nomem => .nomem
    | .waiting _ => .timeout
    | .complete r => if malloc r.got then .parse r.heard (assemble r) else .nomem := by
  rw [query, attemptLoop_eq_gather]
  rfl

/-- The numbers that have come when the parser is called are the first ones, as many as the total. -/
theorem query_parse {heard : List Packet} {body : Bytes} (h : query malloc attempts = .parse heard body) :
    heard <+: queryPackets attempts ∧ (numbers heard).length = totalOf (queryPackets attempts) ∧
      (∀ k ≤ totalOf (queryPackets attempts), malloc k = true) ∧
      body = (List.range (totalOf (queryPackets attempts))).flatMap fun i =>
        (payload heard (i + 1)).getD [] := by
  have hspec := gather_start_spec malloc (queryPackets attempts)
  rw [query_eq] at h
  cases hgather : gather malloc .start (queryPackets attempts) with
  | nomem =>
      rw [hgather] at h
      cases h
  | waiting r =>
      rw [hgather] at h
      cases h
  | complete r =>
      rw [hgather] at h hspec
      obtain ⟨hr, hinit, hgot, htotal⟩ := hspec
      simp only at h
      split_ifs at h with hmem
      obtain ⟨rfl, rfl⟩ := Reply.parse.inj h
      refine ⟨hinit, hr.got.symm.trans hgot, ?_, ?_⟩
      · intro k hk
        rcases Nat.lt_or_eq_of_le hk with hlt | rfl
        · exact hr.allocated k (hgot ▸ hlt)
        · exact hgot ▸ hmem
      · rw [assemble, htotal]
        simp only [hr.slots]

/-- With as many numbers as the total, and memory, the parser is called. -/
theorem exists_parse (hne : queryPackets attempts ≠ [])
    (hlength : totalOf (queryPackets attempts) ≤ (numbers (queryPackets attempts)).length)
    (hmem : ∀ k ≤ totalOf (queryPackets attempts), malloc k = true) :
    ∃ heard body, query malloc attempts = .parse heard body := by
  have hspec := gather_start_spec malloc (queryPackets attempts)
  rw [query_eq]
  cases hgather : gather malloc .start (queryPackets attempts) with
  | nomem =>
      rw [hgather] at hspec
      obtain ⟨k, hk, hfalse⟩ := hspec
      rw [hmem k hk] at hfalse
      cases hfalse
  | waiting r =>
      rw [hgather] at hspec
      rcases hspec with hnil | hlt
      · exact absurd hnil hne
      · exact absurd hlength (Nat.not_le.mpr hlt)
  | complete r =>
      rw [hgather] at hspec
      obtain ⟨-, -, hgot, -⟩ := hspec
      exact ⟨r.heard, assemble r, if_pos (hmem r.got (Nat.le_of_eq hgot))⟩

/-- `1..total` and a number above it are too many for `total` numbers. -/
theorem no_number_above {ns : List Nat} {total n : Nat} (hwhole : ∀ i, 1 ≤ i → i ≤ total → i ∈ ns)
    (hcount : ns.length = total) (hn : n ∈ ns) : n ≤ total := by
  by_contra hover
  have hnodup : (n :: List.range' 1 total).Nodup := by
    refine List.nodup_cons.mpr ⟨?_, List.nodup_range'⟩
    intro hmem
    have hrange := List.mem_range'_1.mp hmem
    omega
  have hsub : n :: List.range' 1 total ⊆ ns := by
    refine List.cons_subset.mpr ⟨hn, ?_⟩
    intro i hi
    have hrange := List.mem_range'_1.mp hi
    exact hwhole i hrange.1 (by omega)
  have hle := (List.subperm_of_subset hnodup hsub).length_le
  rw [List.length_cons, List.length_range'] at hle
  omega

/-- As many numbers as `total`, none above it, are `1..total`. -/
theorem whole_of_le {ps : List Packet} {total : Nat} (hcount : (numbers ps).length = total)
    (hle : ∀ n ∈ numbers ps, n ≤ total) {i : Nat} (hone : 1 ≤ i) (hi : i ≤ total) :
    i ∈ numbers ps := by
  have hsub : numbers ps ⊆ List.range' 1 total := by
    intro n hn
    have hle := hle n hn
    have hone := one_le_of_mem_numbers hn
    exact List.mem_range'_1.mpr (by omega)
  have hlength : (List.range' 1 total).length ≤ (numbers ps).length :=
    Nat.le_of_eq (List.length_range'.trans hcount.symm)
  exact subset_of_length_le (nodup_keys ps) hsub hlength (List.mem_range'_1.mpr (by omega))

/-- A query hands the parser the reply, each payload once and in its order, exactly when none of the
numbers that make up the total is above it. -/
theorem reassembly_iff (malloc : Nat → Bool) (attempts : List (Option (List Bytes))) :
    (∀ heard body, query malloc attempts = .parse heard body →
        Reassembled (queryPackets attempts) heard body) ↔
      ¬ Overrun malloc (queryPackets attempts) := by
  constructor
  · rintro hall ⟨hlength, ⟨n, hn, hover⟩, hmem⟩
    have hne : queryPackets attempts ≠ [] := by
      intro hnil
      rw [hnil] at hn
      cases hn
    obtain ⟨heard, body, hquery⟩ := exists_parse hne hlength hmem
    obtain ⟨hinit, hcount, -, -⟩ := query_parse hquery
    rw [← hcount, ← List.prefix_iff_eq_take.mp (prefix_keys hinit)] at hn
    have hle := no_number_above (hall heard body hquery).whole hcount hn
    omega
  · intro hnot heard body hquery
    obtain ⟨hinit, hcount, hmem, hbody⟩ := query_parse hquery
    have hnumbers : numbers heard = (numbers (queryPackets attempts)).take (numbers heard).length :=
      List.prefix_iff_eq_take.mp (prefix_keys hinit)
    have hle : ∀ n ∈ numbers heard, n ≤ totalOf (queryPackets attempts) := by
      intro n hn
      by_contra hover
      refine hnot ⟨?_, ⟨n, ?_, Nat.not_le.mp hover⟩, hmem⟩
      · rw [← hcount]
        exact (prefix_keys hinit).length_le
      · rwa [← hcount, ← hnumbers]
    refine ⟨hinit, fun i hone hi => whole_of_le hcount hle hone hi, ?_⟩
    rw [hbody, List.flatMap_def, List.flatMap_def]
    apply congrArg List.flatten
    apply List.map_congr_left
    intro i hi
    have hi := List.mem_range.mp hi
    rw [payload, payload, firstFor_of_prefix hinit (whole_of_le hcount hle (by omega) hi)]

/-- A packet 3 of 3 makes up the total of a reply of two, and the second packet is missing. -/
theorem reply_incomplete :
    ¬ ∀ (malloc : Nat → Bool) attempts heard body, query malloc attempts = .parse heard body →
      Reassembled (queryPackets attempts) heard body := by
  intro hall
  have hquery : query (fun _ => true)
      [some [[7, 0, 0, 0, 1, 0, 2, 0x41], [7, 0, 0, 0, 3, 0, 3, 0x43]]] =
      .parse [⟨1, 2, [0x41], by decide, by decide, by decide⟩,
        ⟨3, 3, [0x43], by decide, by decide, by decide⟩] [0x41] := by
    decide
  have hwhole := (hall _ _ _ _ hquery).whole 2 (by decide) (by decide)
  exact absurd hwhole (by decide)

end Whole

end UnicornSuite.Archie
