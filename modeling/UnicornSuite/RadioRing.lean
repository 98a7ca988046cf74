import UnicornSuite.LibRing
import UnicornSuite.RadioEngine

/-! The PCM ring of the radio engine (`ring_write`, `ring_read`). The decode worker and the render thread
call them under one lock, so that any order of whole calls may come; the engine's model has the ring as a
queue (`Radio.Ring`), which this one refines. -/

namespace UnicornSuite.RadioRing

open Machine

/-- `size_t` is of 64 bits. -/
def sizeT (n : Nat) : Nat := n % 2 ^ 64

/-- What `ring_init` is asked for: half the bytes of a second, at least 32768, which `HeapAlloc` gives. -/
structure Capacity where
  bytes : Nat
  pos : 0 < bytes
  fits : bytes ≤ 2 ^ 63

/-- `Ring`; between `ring_init` and `ring_free` it is ready and has its buffer. -/
structure Ring where
  buf : List UInt8
  cap : Nat
  head : Nat := 0
  tail : Nat := 0
  fill : Nat := 0

def memcpy (buf : List UInt8) (dst : Nat) (data : List UInt8) : List UInt8 :=
  buf.take dst ++ (data ++ buf.drop (dst + data.length))

/-- `ring_write` -/
def ringWrite (r : Ring) (data : List UInt8) : Nat × Ring :=
  let space := r.cap - r.fill
  let n := if data.length < space then data.length else space
  let first := if r.cap - r.tail > n then n else r.cap - r.tail
  let buf := memcpy r.buf r.tail (data.take first)
  let buf := if n > first then memcpy buf 0 ((data.drop first).take (n - first)) else buf
  (n, { r with buf := buf, tail := sizeT (r.tail + n) % r.cap, fill := sizeT (r.fill + n) })

/-- `ring_read`, with the bytes it copies to `out`. -/
def ringRead (r : Ring) (len : Nat) : Nat × List UInt8 × Ring :=
  let n := if len < r.fill then len else r.fill
  let first := if r.cap - r.head > n then n else r.cap - r.head
  let out := (r.buf.drop r.head).take first
  let out := if n > first then out ++ r.buf.take (n - first) else out
  (n, out, { r with head := sizeT (r.head + n) % r.cap, fill := r.fill - n })

/-- A ring with what `HeapAlloc` left in its buffer. -/
def ringInit (cap : Capacity) (heap : Nat → UInt8) : Ring :=
  ⟨(List.range cap.bytes).map heap, cap.bytes, 0, 0, 0⟩

/-! ### The cells -/

section Cells

/-- A buffer as the cells of a ring. -/
def cells (buf : List UInt8) (i : Nat) : UInt8 := buf.getD i 0

variable {buf data : List UInt8} {n dst : Nat}

theorem cells_set (hdst : dst < buf.length) (x : UInt8) :
    cells (buf.set dst x) = Function.update (cells buf) dst x := by
  funext i
  by_cases hi : i = dst
  · subst hi
    rw [Function.update_self, cells, List.getD_eq_getElem?_getD, List.getElem?_set_self hdst]
    rfl
  · rw [Function.update_of_ne hi, cells, cells, List.getD_eq_getElem?_getD,
      List.getElem?_set_ne (Ne.symm hi), List.getD_eq_getElem?_getD]

theorem memcpy_cons (hdst : dst < buf.length) (x : UInt8) :
    memcpy buf dst (x :: data) = memcpy (buf.set dst x) (dst + 1) data := by
  have hlen : (buf.take dst ++ [x]).length = dst + 1 := by
    rw [List.length_append, List.length_take, List.length_singleton, Nat.min_eq_left hdst.le]
  have hset : buf.set dst x = (buf.take dst ++ [x]) ++ buf.drop (dst + 1) := by
    rw [List.set_eq_take_append_cons_drop, if_pos hdst, List.append_cons]
  have hdrop : (buf.set dst x).drop (dst + 1 + data.length) = buf.drop (dst + 1 + data.length) := by
    rw [hset, ← List.drop_drop, List.drop_left' hlen, List.drop_drop]
  have hnext : dst + (x :: data).length = dst + 1 + data.length := by
    rw [List.length_cons]
    omega
  rw [memcpy, memcpy, hdrop, hset, List.take_left' hlen, hnext, List.append_assoc]
  rfl

/-- Bytes that are copied to where there is room for them are put there one by one. -/
theorem cells_memcpy (hfits : dst + data.length ≤ buf.length) :
    (cells (memcpy buf dst data), (dst + data.length) % buf.length) =
      data.foldl (Fifo.put buf.length) (cells buf, dst % buf.length) := by
  induction data generalizing buf dst with
  | nil =>
      simp [memcpy]
  | cons x data ih =>
      rw [List.length_cons] at hfits ⊢
      have hdst : dst < buf.length := by omega
      have hlen : (buf.set dst x).length = buf.length := List.length_set
      have hrest := @ih (buf.set dst x) (dst + 1) (by omega)
      rw [hlen] at hrest
      rw [memcpy_cons hdst, List.foldl_cons, Fifo.put, Nat.mod_eq_of_lt hdst, ← cells_set hdst, ← hrest]
      congr 2
      omega

theorem length_memcpy (hfits : dst + data.length ≤ buf.length) :
    (memcpy buf dst data).length = buf.length := by
  simp only [memcpy, List.length_append, List.length_take, List.length_drop]
  omega

/-- Two copies, the second from the start of the buffer for what has no room behind `dst`. -/
def copies (buf : List UInt8) (dst : Nat) (data : List UInt8) (first : Nat) : List UInt8 :=
  if data.length > first then memcpy (memcpy buf dst (data.take first)) 0 (data.drop first)
  else memcpy buf dst (data.take first)

theorem copies_cells (hdst : dst < buf.length) (hdata : data.length ≤ buf.length) :
    (copies buf dst data (min data.length (buf.length - dst))).length = buf.length ∧
      (cells (copies buf dst data (min data.length (buf.length - dst))),
          (dst + data.length) % buf.length) =
        data.foldl (Fifo.put buf.length) (cells buf, dst) := by
  by_cases hroom : dst + data.length ≤ buf.length
  · have hfirst : min data.length (buf.length - dst) = data.length := Nat.min_eq_left (by omega)
    have hcells := cells_memcpy hroom
    rw [Nat.mod_eq_of_lt hdst] at hcells
    rw [hfirst, copies, if_neg (Nat.lt_irrefl _), List.take_length]
    exact ⟨length_memcpy hroom, hcells⟩
  · have hfirst : min data.length (buf.length - dst) = buf.length - dst := Nat.min_eq_right (by omega)
    have htake : (data.take (buf.length - dst)).length = buf.length - dst := by
      rw [List.length_take]
      omega
    have hdrop : (data.drop (buf.length - dst)).length = data.length - (buf.length - dst) := List.length_drop
    have hfits : dst + (data.take (buf.length - dst)).length ≤ buf.length := by omega
    have hlen := length_memcpy hfits
    have hfits' : 0 + (data.drop (buf.length - dst)).length ≤
        (memcpy buf dst (data.take (buf.length - dst))).length := by omega
    have hend : (dst + (buf.length - dst)) % buf.length = 0 % buf.length := by
      rw [Nat.add_sub_cancel' hdst.le, Nat.mod_self, Nat.zero_mod]
    have hlast : (dst + data.length) % buf.length =
        (0 + (data.length - (buf.length - dst))) % buf.length := by
      have hsum : dst + data.length = 0 + (data.length - (buf.length - dst)) + buf.length := by omega
      rw [hsum, Nat.add_mod_right]
    have hone := cells_memcpy hfits
    have htwo := cells_memcpy hfits'
    rw [Nat.mod_eq_of_lt hdst, htake, hend] at hone
    rw [hlen, hdrop, hone, ← List.foldl_append, List.take_append_drop] at htwo
    rw [hfirst, copies, if_pos (by omega), hlast]
    exact ⟨(length_memcpy hfits').trans hlen, htwo⟩

/-- The cells up to the end of the buffer. -/
theorem window_cells {k : Nat} (hfits : dst + k ≤ buf.length) :
    Fifo.window buf.length (cells buf) dst k = (buf.drop dst).take k := by
  have hlen : ((buf.drop dst).take k).length = k := by
    rw [List.length_take, List.length_drop]
    omega
  refine List.ext_getElem (by rw [Fifo.length_window, hlen]) fun i hi hi' => ?_
  rw [Fifo.length_window] at hi
  have hlt : dst + i < buf.length := by omega
  simp only [Fifo.window, List.getElem_map, List.getElem_range, List.getElem_take, List.getElem_drop]
  rw [cells, Nat.mod_eq_of_lt hlt, List.getD_eq_getElem?_getD, List.getElem?_eq_getElem hlt, Option.getD_some]

end Cells

/-! ### The ring -/

/-- The bytes in the ring, in the order in which they will be read. -/
def Ring.contents (r : Ring) : List UInt8 := Fifo.window r.cap (cells r.buf) r.head r.fill

/-- The cursors are in the buffer, and the write cursor stands behind the bytes in the ring. -/
structure Ring.Ok (cap : Capacity) (r : Ring) : Prop where
  cap : r.cap = cap.bytes
  length : r.buf.length = r.cap
  head : r.head < r.cap
  fill : r.fill ≤ r.cap
  tail : r.tail = (r.head + r.fill) % r.cap

/-- The ring as the queue of the engine's model. -/
def Ring.queue (r : Ring) : Radio.Ring := ⟨true, true, r.cap, r.contents⟩

section Calls

variable {cap : Capacity} {r : Ring}

@[simp] theorem length_contents (r : Ring) : r.contents.length = r.fill := Fifo.length_window ..

theorem ringInit_ok (cap : Capacity) (heap : Nat → UInt8) : (ringInit cap heap).Ok cap where
  cap := rfl
  length := by simp [ringInit]
  head := cap.pos
  fill := Nat.zero_le _
  tail := rfl

theorem ringWrite_fst (r : Ring) (data : List UInt8) :
    (ringWrite r data).1 = min data.length (r.cap - r.fill) := by
  simp only [ringWrite]
  split <;> omega

theorem ringRead_fst (r : Ring) (len : Nat) : (ringRead r len).1 = min len r.fill := by
  simp only [ringRead]
  split <;> omega

theorem Ring.Ok.bounds (h : r.Ok cap) : 0 < r.cap ∧ r.cap ≤ 2 ^ 63 ∧ r.tail < r.cap := by
  have hpos : 0 < r.cap := h.cap ▸ cap.pos
  refine ⟨hpos, h.cap ▸ cap.fits, ?_⟩
  rw [h.tail]
  exact Nat.mod_lt _ hpos

theorem ringWrite_buf (r : Ring) (data : List UInt8) :
    (ringWrite r data).2.buf =
      copies r.buf r.tail (data.take (ringWrite r data).1)
        (min (data.take (ringWrite r data).1).length (r.cap - r.tail)) := by
  have hlen : (data.take (ringWrite r data).1).length = (ringWrite r data).1 := by
    have hfst := ringWrite_fst r data
    rw [List.length_take]
    omega
  have hfirst : (if r.cap - r.tail > (ringWrite r data).1 then (ringWrite r data).1 else r.cap - r.tail) =
      min (ringWrite r data).1 (r.cap - r.tail) := by split <;> omega
  rw [hlen, copies, hlen, List.take_take, List.drop_take, Nat.min_eq_left (Nat.min_le_left _ _), ← hfirst]
  rfl

/-- Both copies of `ring_write` together put the bytes in one by one. -/
theorem ringWrite_cells (h : r.Ok cap) (data : List UInt8) :
    (ringWrite r data).2.buf.length = r.cap ∧
      (cells (ringWrite r data).2.buf, (ringWrite r data).2.tail) =
        (data.take (ringWrite r data).1).foldl (Fifo.put r.cap) (cells r.buf, r.tail) := by
  obtain ⟨hpos, hfits, htail⟩ := h.bounds
  have hfst := ringWrite_fst r data
  have hlen : (data.take (ringWrite r data).1).length = (ringWrite r data).1 := by
    rw [List.length_take]
    omega
  have hcopies := @copies_cells r.buf (data.take (ringWrite r data).1) r.tail
    (by rw [h.length]; exact htail) (by rw [h.length]; omega)
  have htail' : (ringWrite r data).2.tail = (r.tail + (ringWrite r data).1) % r.cap := by
    have hsum : sizeT (r.tail + (ringWrite r data).1) = r.tail + (ringWrite r data).1 :=
      Nat.mod_eq_of_lt (by omega)
    show sizeT (r.tail + (ringWrite r data).1) % r.cap = _
    rw [hsum]
  rw [h.length, hlen] at hcopies
  rw [ringWrite_buf, htail', hlen]
  exact hcopies

/-- What is accepted stands behind the bytes that are in the ring. -/
theorem ringWrite_spec (h : r.Ok cap) (data : List UInt8) :
    (ringWrite r data).2.Ok cap ∧
      (ringWrite r data).2.contents = r.contents ++ data.take (ringWrite r data).1 := by
  obtain ⟨hpos, hfits, -⟩ := h.bounds
  obtain ⟨hlen, hcells⟩ := ringWrite_cells h data
  have hfst := ringWrite_fst r data
  have hfill := h.fill
  have hn : (data.take (ringWrite r data).1).length = (ringWrite r data).1 := by
    rw [List.length_take]
    omega
  have hput := @Fifo.foldl_put _ r.cap (cells r.buf) r.head r.fill (data.take (ringWrite r data).1) (by omega)
  rw [← h.tail, ← hcells, hn] at hput
  have hsum : r.fill + (ringWrite r data).1 < 2 ^ 64 := by omega
  have hfill' : (ringWrite r data).2.fill = r.fill + (ringWrite r data).1 := Nat.mod_eq_of_lt hsum
  have htail : (ringWrite r data).2.tail = (r.head + (r.fill + (ringWrite r data).1)) % r.cap := hput.2
  refine ⟨⟨h.cap, hlen, h.head, ?_, ?_⟩, ?_⟩
  · show (ringWrite r data).2.fill ≤ r.cap
    omega
  · rw [htail, hfill']
    rfl
  · rw [Ring.contents, hfill']
    exact hput.1

/-- Both copies of `ring_read` together are the bytes from the read cursor on. -/
theorem ringRead_out (h : r.Ok cap) (len : Nat) :
    (ringRead r len).2.1 = Fifo.window r.cap (cells r.buf) r.head (ringRead r len).1 := by
  have hfst := ringRead_fst r len
  have hhead := h.head
  have hfill := h.fill
  have hlen := h.length
  have hcopies : (ringRead r len).2.1 =
      if (ringRead r len).1 > min (ringRead r len).1 (r.cap - r.head) then
        (r.buf.drop r.head).take (min (ringRead r len).1 (r.cap - r.head)) ++
          r.buf.take ((ringRead r len).1 - min (ringRead r len).1 (r.cap - r.head))
      else (r.buf.drop r.head).take (min (ringRead r len).1 (r.cap - r.head)) := by
    have hfirst : min (ringRead r len).1 (r.cap - r.head) =
        if r.cap - r.head > (ringRead r len).1 then (ringRead r len).1 else r.cap - r.head := by
      split <;> omega
    rw [hfirst]
    rfl
  rw [hcopies, ← hlen]
  rw [← hlen] at hhead hfill
  by_cases hroom : (ringRead r len).1 ≤ r.buf.length - r.head
  · rw [Nat.min_eq_left hroom, if_neg (Nat.lt_irrefl _)]
    exact (window_cells (by omega)).symm
  · have hsplit : (ringRead r len).1 =
        r.buf.length - r.head + ((ringRead r len).1 - (r.buf.length - r.head)) := by omega
    have hstart : (r.head + (r.buf.length - r.head)) % r.buf.length = 0 := by
      rw [Nat.add_sub_cancel' hhead.le, Nat.mod_self]
    have hfirst := @window_cells r.buf r.head (r.buf.length - r.head) (by omega)
    have hsecond := @window_cells r.buf 0 ((ringRead r len).1 - (r.buf.length - r.head)) (by omega)
    rw [Nat.min_eq_right (by omega), if_pos (by omega)]
    conv_rhs => rw [hsplit, Fifo.window_add, hstart, hfirst, hsecond, List.drop_zero]

/-- The bytes that are read are the first ones in the ring. -/
theorem ringRead_spec (h : r.Ok cap) (len : Nat) :
    (ringRead r len).2.2.Ok cap ∧ (ringRead r len).2.1 = r.contents.take (ringRead r len).1 ∧
      (ringRead r len).2.2.contents = r.contents.drop (ringRead r len).1 := by
  obtain ⟨hpos, hfits, -⟩ := h.bounds
  have hfst := ringRead_fst r len
  have hhead := h.head
  have hfill := h.fill
  have hle : (ringRead r len).1 ≤ r.fill := by omega
  have hhead' : (ringRead r len).2.2.head = (r.head + (ringRead r len).1) % r.cap := by
    have hsum : sizeT (r.head + (ringRead r len).1) = r.head + (ringRead r len).1 :=
      Nat.mod_eq_of_lt (by omega)
    show sizeT (r.head + (ringRead r len).1) % r.cap = _
    rw [hsum]
  have hfill' : (ringRead r len).2.2.fill = r.fill - (ringRead r len).1 := rfl
  have hsplit : r.contents = Fifo.window r.cap (cells r.buf) r.head (ringRead r len).1 ++
      (ringRead r len).2.2.contents := by
    have hcontents : (ringRead r len).2.2.contents =
        Fifo.window r.cap (cells r.buf) ((r.head + (ringRead r len).1) % r.cap)
          (r.fill - (ringRead r len).1) := by rw [Ring.contents, hhead', hfill']; rfl
    rw [hcontents, ← Fifo.window_add, Nat.add_sub_cancel' hle]
    rfl
  have hout := ringRead_out h len
  have hlen : (Fifo.window r.cap (cells r.buf) r.head (ringRead r len).1).length = (ringRead r len).1 :=
    Fifo.length_window ..
  refine ⟨⟨h.cap, h.length, ?_, ?_, ?_⟩, ?_, ?_⟩
  · rw [hhead']
    exact Nat.mod_lt _ hpos
  · show (ringRead r len).2.2.fill ≤ r.cap
    omega
  · rw [hhead', hfill']
    show r.tail = ((r.head + (ringRead r len).1) % r.cap + (r.fill - (ringRead r len).1)) % r.cap
    rw [Nat.mod_add_mod, h.tail]
    congr 1
    omega
  · rw [hout, hsplit, List.take_left' hlen]
  · rw [hsplit, List.drop_left' hlen]

end Calls

/-! ### The two threads -/

/-- What the worker and the render thread do, in the order in which they get the lock. -/
inductive Call where
  | write (data : List UInt8)
  | read (len : Nat)

/-- The ring, with the bytes that were accepted from the worker and those the render thread was given. -/
structure Traffic where
  ring : Ring
  accepted : List UInt8 := []
  delivered : List UInt8 := []

def step (t : Traffic) : Call → Traffic
  | .write data =>
      let (n, ring) := ringWrite t.ring data
      { t with ring := ring, accepted := t.accepted ++ data.take n }
  | .read len =>
      let (_, out, ring) := ringRead t.ring len
      { t with ring := ring, delivered := t.delivered ++ out }

/-- What was accepted was delivered, in order, but for what is in the ring. -/
structure Traffic.Ok (cap : Capacity) (t : Traffic) : Prop where
  ring : t.ring.Ok cap
  fifo : t.delivered ++ t.ring.contents = t.accepted

theorem step_ok {cap : Capacity} (t : Traffic) (c : Call) (h : t.Ok cap) : (step t c).Ok cap := by
  cases c with
  | write data =>
      obtain ⟨hring, hcontents⟩ := ringWrite_spec h.ring data
      refine ⟨hring, ?_⟩
      show t.delivered ++ (ringWrite t.ring data).2.contents =
        t.accepted ++ data.take (ringWrite t.ring data).1
      rw [hcontents, ← List.append_assoc, h.fifo]
  | read len =>
      obtain ⟨hring, hout, hcontents⟩ := ringRead_spec h.ring len
      refine ⟨hring, ?_⟩
      show t.delivered ++ (ringRead t.ring len).2.1 ++ (ringRead t.ring len).2.2.contents = t.accepted
      rw [hout, hcontents, List.append_assoc, List.take_append_drop, h.fifo]

/-- In every order of calls the bytes come out as they were accepted, every call moves as many as it can,
and the write cursor stands behind the bytes in the ring. -/
theorem radio_fifo (cap : Capacity) (heap : Nat → UInt8) (cs : List Call) :
    let t := run step { ring := ringInit cap heap } cs
    t.delivered ++ t.ring.contents = t.accepted ∧
      t.ring.tail = (t.ring.head + t.ring.fill) % cap.bytes ∧ t.ring.fill ≤ cap.bytes ∧
      (∀ data, (ringWrite t.ring data).1 = min data.length (cap.bytes - t.ring.fill)) ∧
      ∀ len, (ringRead t.ring len).1 = min len t.ring.fill ∧
        (ringRead t.ring len).2.1.length = (ringRead t.ring len).1 := by
  intro t
  have h : t.Ok cap := run_inv step_ok ⟨ringInit_ok cap heap, rfl⟩ cs
  have hcap := h.ring.cap
  refine ⟨h.fifo, hcap ▸ h.ring.tail, hcap ▸ h.ring.fill, fun data => ?_, fun len => ⟨?_, ?_⟩⟩
  · rw [ringWrite_fst, hcap]
  · exact ringRead_fst t.ring len
  · have hfst := ringRead_fst t.ring len
    rw [(ringRead_spec h.ring len).2.1, List.length_take, length_contents]
    omega

/-- Two bytes are read and two more written behind the end of a buffer of three. -/
example :
    let t := run step { ring := ringInit ⟨3, by decide, by decide⟩ fun _ => 0 }
      [.write [1, 2, 3, 4], .read 2, .write [5, 6, 7], .read 9]
    t.accepted = [1, 2, 3, 5, 6] ∧ t.delivered = [1, 2, 3, 5, 6] := by
  decide

end UnicornSuite.RadioRing
