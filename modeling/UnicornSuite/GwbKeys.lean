import UnicornSuite.LibRing
import UnicornSuite.LibRun

/-! The keys typed ahead of GW-BASIC (`gwb_machine.c`). Any thread queues a key and the machine's thread
lets the guest see it, one keyboard interrupt at a time. Every function holds the lock of the queue while
it runs, so that any order of whole calls may come. -/

namespace UnicornSuite.Gwb

open Machine

/-- `kq` and its indices. A cell is written and read at an index below 64 only (`Held`). -/
structure Keys where
  kq : Nat → UInt16
  head : UInt32
  tail : UInt32
  visible : UInt32

/-- The keys of a machine from `calloc`. -/
def Keys.start : Keys := ⟨fun _ => 0, 0, 0, 0⟩

def keyCount (q : Keys) : UInt32 := q.visible

/-- `key_deliver`: one IRQ1, and whether a key arrived. -/
def keyDeliver (q : Keys) : Bool × Keys :=
  if q.visible < (q.tail - q.head) &&& 63 then (true, { q with visible := q.visible + 1 }) else (false, q)

def keyPeek (q : Keys) : Option UInt16 := if q.visible > 0 then some (q.kq q.head.toNat) else none

def keyPop (q : Keys) : Option UInt16 × Keys :=
  if q.visible > 0 then
    (some (q.kq q.head.toNat), { q with head := (q.head + 1) &&& 63, visible := q.visible - 1 })
  else (none, q)

def keyClear (q : Keys) : Keys := { q with head := 0, tail := 0, visible := 0 }

/-- `gwb_push_key`; a full queue drops the key. -/
def pushKey (q : Keys) (key : UInt16) : Keys :=
  if (q.tail + 1) &&& 63 ≠ q.head then
    { q with kq := Function.update q.kq q.tail.toNat key, tail := (q.tail + 1) &&& 63 }
  else q

/-- `gwb_key_room` -/
def keyRoom (q : Keys) : Int := 63 - ((q.tail - q.head) &&& 63).toNat

/-! ### The queue in the ring -/

/-- The keys between the two indices. -/
def queued (q : Keys) : List UInt16 :=
  Fifo.window 64 q.kq q.head.toNat ((q.tail - q.head) &&& 63).toNat

/-- The indices are cells of the ring, and no key is visible that is not queued. -/
structure Held (q : Keys) : Prop where
  head : q.head.toNat < 64
  tail : q.tail.toNat < 64
  visible : q.visible.toNat ≤ ((q.tail - q.head) &&& 63).toNat

theorem toNat_and_63 (a : UInt32) : (a &&& 63).toNat = a.toNat % 64 := by
  rw [UInt32.toNat_and]
  exact Nat.and_two_pow_sub_one_eq_mod _ 6

theorem toNat_next (a : UInt32) : ((a + 1) &&& 63).toNat = (a.toNat + 1) % 64 := by
  have hone : (1 : UInt32).toNat = 1 := rfl
  rw [toNat_and_63, UInt32.toNat_add, hone]
  omega

section Ring

variable {q : Keys}

/-- How many keys are queued, by the indices. -/
theorem Held.count (h : Held q) :
    ((q.tail - q.head) &&& 63).toNat = (q.tail.toNat + 64 - q.head.toNat) % 64 := by
  have hhead := h.head
  have htail := h.tail
  rw [toNat_and_63, UInt32.toNat_sub]
  omega

theorem length_queued (q : Keys) : (queued q).length = ((q.tail - q.head) &&& 63).toNat :=
  Fifo.length_window _ _ _

theorem length_queued_le (q : Keys) : (queued q).length ≤ 63 := by
  have hlt : (q.tail - q.head).toNat % 64 < 64 := Nat.mod_lt _ (by decide)
  rw [length_queued, toNat_and_63]
  omega

theorem keyRoom_eq (q : Keys) : keyRoom q = 63 - (queued q).length := by
  rw [keyRoom, length_queued]

theorem Held.visible_le (h : Held q) : q.visible.toNat ≤ (queued q).length := by
  rw [length_queued]
  exact h.visible

/-- The tail stands behind the keys queued. -/
theorem Held.tail_eq (h : Held q) : q.tail.toNat = (q.head.toNat + (queued q).length) % 64 := by
  have hhead := h.head
  have htail := h.tail
  rw [length_queued, h.count]
  omega

/-- The ring is full with one cell left over. -/
theorem Held.full_iff (h : Held q) : (q.tail + 1) &&& 63 = q.head ↔ (queued q).length = 63 := by
  have hhead := h.head
  have htail := h.tail
  rw [← UInt32.toNat_inj, toNat_next, length_queued, h.count]
  omega

theorem Held.push (h : Held q) (key : UInt16) :
    Held (pushKey q key) ∧ (pushKey q key).visible = q.visible ∧
      queued (pushKey q key) = if (queued q).length < 63 then queued q ++ [key] else queued q := by
  have hhead := h.head
  have htail := h.tail
  have hle := length_queued_le q
  by_cases hfull : (q.tail + 1) &&& 63 = q.head
  · have hlen := h.full_iff.mp hfull
    rw [pushKey, if_neg (not_not.mpr hfull), if_neg (by omega)]
    exact ⟨h, rfl, rfl⟩
  · have hlen : (queued q).length < 63 := by
      have hnot := mt h.full_iff.mpr hfull
      omega
    have hnext : (((q.tail + 1) &&& 63) - q.head &&& 63).toNat = (queued q).length + 1 := by
      have hcount := h.tail_eq
      rw [toNat_and_63, UInt32.toNat_sub, toNat_next]
      omega
    rw [pushKey, if_pos hfull, if_pos hlen]
    refine ⟨⟨hhead, ?_, ?_⟩, rfl, ?_⟩
    · rw [toNat_next]
      exact Nat.mod_lt _ (by decide)
    · have hvisible := h.visible_le
      dsimp only
      omega
    · rw [queued, hnext, h.tail_eq]
      have hwindow : Fifo.window 64 q.kq q.head.toNat (queued q).length = queued q := by
        rw [length_queued]
        rfl
      rw [Fifo.window_update q.kq q.head.toNat (by omega), hwindow]

theorem Held.deliver (h : Held q) : Held (keyDeliver q).2 ∧ queued (keyDeliver q).2 = queued q := by
  rw [keyDeliver]
  split_ifs with hmore
  · refine ⟨⟨h.head, h.tail, ?_⟩, rfl⟩
    have hlt := UInt32.lt_iff_toNat_lt.mp hmore
    have hone : (1 : UInt32).toNat = 1 := rfl
    have hcount := toNat_and_63 (q.tail - q.head)
    dsimp only
    rw [UInt32.toNat_add, hone]
    omega
  · exact ⟨h, rfl⟩

/-- A key is taken from the front. -/
theorem Held.pop (h : Held q) :
    Held (keyPop q).2 ∧ queued q = (keyPop q).1.toList ++ queued (keyPop q).2 := by
  have hhead := h.head
  have htail := h.tail
  rw [keyPop]
  split_ifs with hsome
  · have hpos : 0 < q.visible.toNat := UInt32.lt_iff_toNat_lt.mp hsome
    have hvisible := h.visible_le
    have hcount := h.tail_eq
    have hone : (1 : UInt32).toNat = 1 := rfl
    have hnext : (q.tail - ((q.head + 1) &&& 63) &&& 63).toNat = (queued q).length - 1 := by
      have hle := length_queued_le q
      rw [toNat_and_63, UInt32.toNat_sub, toNat_next]
      omega
    refine ⟨⟨?_, htail, ?_⟩, ?_⟩
    · rw [toNat_next]
      exact Nat.mod_lt _ (by decide)
    · have hle : (1 : UInt32) ≤ q.visible := UInt32.le_iff_toNat_le.mpr hpos
      rw [hnext, UInt32.toNat_sub_of_le _ _ hle, hone]
      omega
    · have hsucc : (queued q).length = (queued q).length - 1 + 1 := by omega
      calc
        queued q = Fifo.window 64 q.kq q.head.toNat (queued q).length := by
          rw [length_queued]
          rfl
        _ = q.kq q.head.toNat ::
              Fifo.window 64 q.kq ((q.head.toNat + 1) % 64) ((queued q).length - 1) := by
          rw [hsucc, Fifo.window_cons q.kq hhead]
          rfl
        _ = _ := by
          simp only [queued, hnext, toNat_next]
          rfl
  · exact ⟨h, rfl⟩

theorem clear_held (q : Keys) : Held (keyClear q) ∧ queued (keyClear q) = [] :=
  ⟨⟨by simp [keyClear], by simp [keyClear], by simp [keyClear]⟩, by simp [queued, keyClear]⟩

/-- The key a peek shows is the one a pop takes. -/
theorem keyPeek_eq (q : Keys) : keyPeek q = (keyPop q).1 := by
  rw [keyPeek, keyPop]
  split <;> rfl

end Ring

/-! ### Runs -/

/-- What the two threads call. -/
inductive KeyCall where
  | push (key : UInt16)
  | deliver | pop | peek | clear | count | room

/-- The queue, and the keys accepted and popped since the last clear. -/
structure Typing where
  q : Keys
  accepted : List UInt16 := []
  popped : List UInt16 := []

def Typing.call (t : Typing) : KeyCall → Typing
  | .push key =>
      { t with
        q := pushKey t.q key
        accepted := if (t.q.tail + 1) &&& 63 ≠ t.q.head then t.accepted ++ [key] else t.accepted }
  | .deliver => { t with q := (keyDeliver t.q).2 }
  | .pop => { t with q := (keyPop t.q).2, popped := t.popped ++ (keyPop t.q).1.toList }
  | .clear => { q := keyClear t.q }
  | .peek | .count | .room => t

/-- The keys accepted are those popped, in their order, and those still queued. -/
structure InOrder (t : Typing) : Prop where
  held : Held t.q
  split : t.accepted = t.popped ++ queued t.q

theorem start_inOrder : InOrder { q := .start } := ⟨⟨by decide, by decide, by decide⟩, rfl⟩

/-- A key is accepted exactly if there is room. -/
theorem InOrder.push {t : Typing} (h : InOrder t) (key : UInt16) :
    InOrder (t.call (.push key)) ∧
      (t.call (.push key)).accepted = t.accepted ++ [key].take (63 - (queued t.q).length) := by
  obtain ⟨hheld, -, hqueued⟩ := h.held.push key
  have hle := length_queued_le t.q
  by_cases hfull : (t.q.tail + 1) &&& 63 = t.q.head
  · have hlen := h.held.full_iff.mp hfull
    have haccepted : (t.call (.push key)).accepted = t.accepted := if_neg (not_not.mpr hfull)
    rw [if_neg (by omega)] at hqueued
    refine ⟨⟨hheld, ?_⟩, ?_⟩
    · rw [haccepted, h.split]
      exact congrArg (t.popped ++ ·) hqueued.symm
    · rw [haccepted, hlen, Nat.sub_self, List.take_zero, List.append_nil]
  · have hnot := mt h.held.full_iff.mpr hfull
    have haccepted : (t.call (.push key)).accepted = t.accepted ++ [key] := if_pos hfull
    rw [if_pos (by omega)] at hqueued
    refine ⟨⟨hheld, ?_⟩, ?_⟩
    · rw [haccepted, h.split, List.append_assoc]
      exact congrArg (t.popped ++ ·) hqueued.symm
    · have htake : [key].take (63 - (queued t.q).length) = [key] := by
        apply List.take_of_length_le
        rw [List.length_singleton]
        omega
      rw [haccepted, htake]

theorem InOrder.call {t : Typing} (h : InOrder t) (c : KeyCall) : InOrder (t.call c) := by
  cases c with
  | push key => exact (h.push key).1
  | deliver =>
      obtain ⟨hheld, hqueued⟩ := h.held.deliver
      exact ⟨hheld, h.split.trans (congrArg (t.popped ++ ·) hqueued.symm)⟩
  | pop =>
      obtain ⟨hheld, hqueued⟩ := h.held.pop
      refine ⟨hheld, ?_⟩
      calc
        t.accepted = t.popped ++ queued t.q := h.split
        _ = t.popped ++ ((keyPop t.q).1.toList ++ queued (keyPop t.q).2) := by rw [← hqueued]
        _ = _ := (List.append_assoc _ _ _).symm
  | clear => exact ⟨(clear_held t.q).1, (clear_held t.q).2.symm⟩
  | peek => exact h
  | count => exact h
  | room => exact h

/-- Of the keys pushed one after the other the queue accepts as many as there is room for. -/
theorem InOrder.pushes {t : Typing} (h : InOrder t) (keys : List UInt16) :
    (run Typing.call t (keys.map .push)).accepted = t.accepted ++ keys.take (63 - (queued t.q).length) := by
  induction keys generalizing t with
  | nil => simp
  | cons key keys ih =>
      obtain ⟨hnext, haccepted⟩ := h.push key
      have hqueued := (h.held.push key).2.2
      have hrest := ih hnext
      have hle := length_queued_le t.q
      rw [List.map_cons, run_cons, hrest, haccepted]
      have hq : queued (t.call (.push key)).q = queued (pushKey t.q key) := rfl
      by_cases hroom : (queued t.q).length < 63
      · obtain ⟨n, hn⟩ : ∃ n, 63 - (queued t.q).length = n + 1 := ⟨62 - (queued t.q).length, by omega⟩
        have hlen : 63 - (queued (t.call (.push key)).q).length = n := by
          rw [hq, hqueued, if_pos hroom, List.length_append, List.length_singleton]
          omega
        rw [hlen, hn, List.take_succ_cons, List.take_succ_cons, List.take_nil, List.append_assoc]
        rfl
      · have hfull : 63 - (queued t.q).length = 0 := by omega
        have hlen : 63 - (queued (t.call (.push key)).q).length = 0 := by
          rw [hq, hqueued, if_neg hroom, hfull]
        rw [hlen, hfull, List.take_zero, List.take_zero, List.take_zero, List.append_nil, List.append_nil]

/-- Whatever the two threads call and in what order: what the guest sees is queued, the keys come out in
the order they were accepted, none lost or doubled, and the room is that of the free cells. -/
theorem typing_inOrder (calls : List KeyCall) :
    let t := run Typing.call { q := .start } calls
    (keyCount t.q).toNat ≤ (queued t.q).length ∧ (queued t.q).length ≤ 63 ∧
      t.accepted = t.popped ++ queued t.q ∧ keyPeek t.q = (keyPop t.q).1 ∧
      keyRoom t.q = 63 - (queued t.q).length ∧
      ∀ keys : List UInt16, (run Typing.call t (keys.map .push)).accepted =
        t.accepted ++ keys.take (keyRoom t.q).toNat := by
  intro t
  have h : InOrder t := run_inv (fun _ c h => h.call c) start_inOrder calls
  have hle := length_queued_le t.q
  refine ⟨h.held.visible_le, hle, h.split, keyPeek_eq t.q, keyRoom_eq t.q, fun keys => ?_⟩
  have hroom : (keyRoom t.q).toNat = 63 - (queued t.q).length := by
    rw [keyRoom_eq]
    omega
  rw [hroom]
  exact h.pushes keys

end UnicornSuite.Gwb
