import KernelDrvLearn.DropFifo
import KernelDrvLearn.Printf
import KernelDrvLearn.RingIndex

/-!
# The sample ring of the sensor driver

`struct ringbuffer` of `practice/mysensor/mysensor.c`: 100 values and, in a
second array, 100 timestamp texts of 32 bytes each, under one set of indices.
An entry is a value with the string in its timestamp slot. The struct **refines
a drop-oldest queue of 100 entries** (`rbRun_refines`): the two arrays stay in
step through every overwrite and every turn of the indices.

`rb_init` does not clear the arrays, so the runs start from any contents.
-/

namespace KernelDrvLearn

namespace Mysensor

/-- `struct timespec64`, with 64-bit seconds and nanoseconds. -/
structure Timespec64 where
  /-- `tv_sec` -/
  tvSec : BitVec 64
  /-- `tv_nsec` -/
  tvNsec : BitVec 64

/-- `struct ringbuffer`. The mutex is not a field: each operation is one
critical section. -/
structure Ringbuffer where
  /-- the values -/
  buffer : ℕ → Int
  /-- the timestamp slots -/
  timestamps : ℕ → ℕ → Byte
  /-- the index the next push writes -/
  head : Int
  /-- the index the next pop reads -/
  tail : Int
  /-- the number of entries held -/
  size : Int

/-! ## The operations

As the source has them, one field after another: the text goes into its slot first, then
the value, and then the indices go on. The values returned are those of the functions. -/

/-- `rb_init`, which leaves the arrays as they are. -/
def rbInit (rb : Ringbuffer) : Ringbuffer := { rb with head := 0, tail := 0, size := 0 }

/-- `"%lld.%09ld\n"`, the text of a time. -/
def stampText (ts : Timespec64) : List Byte :=
  fmtD ts.tvSec.toInt ++ ascii "." ++ fmtZeroD 9 ts.tvNsec.toInt ++ ascii "\n"

/-- `rb_push`, at the time `ts`; on a full ring the oldest entry is overwritten. -/
def rbPush (rb : Ringbuffer) (value : Int) (ts : Timespec64) : Ringbuffer :=
  let slot := snprintf (rb.timestamps rb.head.toNat) 0 32 (stampText ts)
  let rb := { rb with timestamps := Function.update rb.timestamps rb.head.toNat slot }
  let rb := { rb with buffer := Function.update rb.buffer rb.head.toNat value }
  let rb := { rb with head := (wrap32 (rb.head + 1)).tmod 100 }
  if rb.size < 100 then
    { rb with size := wrap32 (rb.size + 1) }
  else
    { rb with tail := (wrap32 (rb.tail + 1)).tmod 100 }

/-- What a pop leaves: its return value, the caller's variables and the ring. -/
structure PopResult where
  /-- the return value -/
  ret : Int
  /-- `*value`, overwritten on success -/
  value : Int
  /-- the caller's 32 bytes, if it passed any -/
  timestamp : Option (ℕ → Byte)
  /-- the ring -/
  rb : Ringbuffer

/-- `rb_pop`, which fails with -1 on an empty ring. -/
def rbPop (rb : Ringbuffer) (value : Int) (timestamp : Option (ℕ → Byte)) : PopResult :=
  if rb.size = 0 then
    ⟨-1, value, timestamp, rb⟩
  else
    let value := rb.buffer rb.tail.toNat
    let timestamp := timestamp.map fun buf =>
      Mem.strncpy buf 0 (rb.timestamps rb.tail.toNat) 0 32
    let rb := { rb with tail := (wrap32 (rb.tail + 1)).tmod 100 }
    let rb := { rb with size := wrap32 (rb.size - 1) }
    ⟨0, value, timestamp, rb⟩

/-- `rb_isempty`, 1 or 0 as the C function returns it. -/
def rbIsempty (rb : Ringbuffer) : Int := if rb.size = 0 then 1 else 0

/-! ## The abstraction

What the struct stands for is a list of entries, each a value with its text. The two
arrays have one window, and a text has to be terminated in its slot to be a text at all.
-/

/-- A value with its timestamp text, as one thing. -/
structure Entry where
  /-- the value -/
  value : Int
  /-- the text -/
  timestamp : List Byte

/-- What a push stores: 31 characters of the text fit before the zero. -/
def Entry.ofPush (value : Int) (ts : Timespec64) : Entry := ⟨value, (stampText ts).take 31⟩

namespace Ringbuffer

/-- The entry in cell `i`, read out of both arrays. -/
def entry (rb : Ringbuffer) (i : ℕ) : Entry := ⟨rb.buffer i, Mem.cstr (rb.timestamps i) 0 32⟩

/-- The entries held, oldest first: the window of the arrays. -/
def abs (rb : Ringbuffer) : List Entry := window rb.entry 100 rb.tail.toNat rb.size.toNat

/-- The indices are in range and consistent, and every entry held has a
terminated text. -/
structure WF (rb : Ringbuffer) : Prop where
  idx : RingIdx 100 rb.head rb.tail rb.size
  text : ∀ e ∈ rb.abs, e.timestamp.length < 32

theorem WF.init (rb : Ringbuffer) : WF (rbInit rb) :=
  ⟨RingIdx.zero (by decide), fun _ he => absurd he List.not_mem_nil⟩

/-- The ring holds `size` entries, as its field says. -/
theorem WF.abs_length {rb : Ringbuffer} (h : rb.WF) : (rb.abs.length : Int) = rb.size :=
  h.idx.length_window rb.entry

theorem WF.abs_length_le {rb : Ringbuffer} (h : rb.WF) : rb.abs.length ≤ 100 := by
  rw [← Int.ofNat_le, h.abs_length]
  exact h.idx.size_le

theorem WF.size_eq_zero_iff {rb : Ringbuffer} (h : rb.WF) : rb.size = 0 ↔ rb.abs = [] :=
  (h.idx.window_eq_nil_iff rb.entry).symm

end Ringbuffer

theorem zero_notMem_stampText (ts : Timespec64) : 0 ∉ stampText ts := by
  intro h
  rcases List.mem_append.mp h with h | h
  · rcases List.mem_append.mp h with h | h
    · rcases List.mem_append.mp h with h | h
      · exact zero_notMem_fmtD _ h
      · exact absurd h (by decide)
    · exact zero_notMem_fmtZeroD _ _ h
  · exact absurd h (by decide)

/-! ## One lemma per operation

What each operation does to the entries. The moves of the indices are those of the
library; what is left is that value and text of one push go into the same cell, and come
out of it together. -/

/-- The cell at `head` gets value and text of the same push, the others keep
theirs. -/
theorem entry_push (rb : Ringbuffer) (value : Int) (ts : Timespec64) :
    (rbPush rb value ts).entry =
      Function.update rb.entry rb.head.toNat (Entry.ofPush value ts) := by
  have harr : (rbPush rb value ts).buffer = Function.update rb.buffer rb.head.toNat value ∧
      (rbPush rb value ts).timestamps = Function.update rb.timestamps rb.head.toNat
        (snprintf (rb.timestamps rb.head.toNat) 0 32 (stampText ts)) := by
    simp only [rbPush]
    split
    · exact ⟨rfl, rfl⟩
    · exact ⟨rfl, rfl⟩
  funext i
  rw [Ringbuffer.entry, harr.1, harr.2]
  by_cases hi : i = rb.head.toNat
  · rw [hi, Function.update_self, Function.update_self, Function.update_self,
      cstr_snprintf (zero_notMem_stampText ts) (by decide) (by decide)]
    rfl
  · rw [Function.update_of_ne hi, Function.update_of_ne hi, Function.update_of_ne hi]
    rfl

/-- The indices after a push onto a ring with room. -/
theorem idx_push_room {rb : Ringbuffer} (h : rb.size < 100) (value : Int) (ts : Timespec64) :
    (rbPush rb value ts).head = nextIdx 100 rb.head ∧ (rbPush rb value ts).tail = rb.tail ∧
      (rbPush rb value ts).size = wrap32 (rb.size + 1) := by
  refine ⟨?_, ?_, ?_⟩ <;> simp only [rbPush, h, if_true]
  rfl

/-- The indices after a push onto a full ring. -/
theorem idx_push_full {rb : Ringbuffer} (h : rb.size = 100) (value : Int) (ts : Timespec64) :
    (rbPush rb value ts).head = nextIdx 100 rb.head ∧
      (rbPush rb value ts).tail = nextIdx 100 rb.tail ∧ (rbPush rb value ts).size = rb.size := by
  have hnot : ¬ rb.size < 100 := by omega
  refine ⟨?_, ?_, ?_⟩ <;> simp only [rbPush, hnot, if_false]
  · rfl
  · rfl

/-- The text of a new entry is terminated. -/
theorem Entry.ofPush_length (value : Int) (ts : Timespec64) :
    (Entry.ofPush value ts).timestamp.length < 32 :=
  Nat.lt_succ_of_le (List.length_take_le 31 (stampText ts))

/-- A push onto a ring that is not full. -/
theorem rbPush_room {rb : Ringbuffer} (h : rb.WF) (hroom : rb.abs.length < 100) (value : Int)
    (ts : Timespec64) :
    (rbPush rb value ts).WF ∧ (rbPush rb value ts).abs = rb.abs ++ [Entry.ofPush value ts] := by
  have hsize : rb.size < 100 := by
    rw [← h.abs_length]
    exact Int.ofNat_lt.mpr hroom
  obtain ⟨hh, ht, hs⟩ := idx_push_room hsize value ts
  have habs : (rbPush rb value ts).abs = rb.abs ++ [Entry.ofPush value ts] := by
    rw [Ringbuffer.abs, entry_push, ht, hs]
    exact h.idx.window_append (by decide) hsize rb.entry (Entry.ofPush value ts)
  refine ⟨⟨?_, ?_⟩, habs⟩
  · rw [hh, ht, hs]
    exact h.idx.append (by decide) hsize
  · intro e he
    rw [habs, List.mem_append, List.mem_singleton] at he
    rcases he with he | rfl
    · exact h.text e he
    · exact Entry.ofPush_length value ts

/-- A push onto a full ring drops the oldest entry. -/
theorem rbPush_full {rb : Ringbuffer} (h : rb.WF) (hfull : rb.abs.length = 100) (value : Int)
    (ts : Timespec64) :
    (rbPush rb value ts).WF ∧
      (rbPush rb value ts).abs = (rb.abs ++ [Entry.ofPush value ts]).tail := by
  have hsize : rb.size = 100 := by
    rw [← h.abs_length, hfull]
    rfl
  have hidx : RingIdx 100 rb.head rb.tail (100 : ℕ) := by
    have := h.idx
    rw [hsize] at this
    exact this
  obtain ⟨hh, ht, hs⟩ := idx_push_full hsize value ts
  have habs : (rbPush rb value ts).abs = (rb.abs ++ [Entry.ofPush value ts]).tail := by
    rw [Ringbuffer.abs, entry_push, ht, hs, Ringbuffer.abs, hsize]
    exact hidx.window_overwrite (by decide) rb.entry (Entry.ofPush value ts)
  refine ⟨⟨?_, ?_⟩, habs⟩
  · rw [hh, ht, hs, hsize]
    exact hidx.overwrite (by decide)
  · intro e he
    rw [habs] at he
    rcases List.mem_append.mp (List.mem_of_mem_tail he) with he | he
    · exact h.text e he
    · rw [List.mem_singleton.mp he]
      exact Entry.ofPush_length value ts

/-- A pop from an empty ring fails and changes nothing. -/
theorem rbPop_empty {rb : Ringbuffer} (h : rb.WF) (hempty : rb.abs = []) (value : Int)
    (timestamp : Option (ℕ → Byte)) :
    rbPop rb value timestamp = ⟨-1, value, timestamp, rb⟩ := by
  rw [rbPop, if_pos (h.size_eq_zero_iff.mpr hempty)]

/-- A pop from a nonempty ring takes the oldest entry: the value, and the text
stored by the same push. -/
theorem rbPop_cons {rb : Ringbuffer} (h : rb.WF) {x : Entry} {xs : List Entry}
    (hcons : rb.abs = x :: xs) (value : Int) (timestamp : Option (ℕ → Byte)) :
    (rbPop rb value timestamp).ret = 0 ∧ (rbPop rb value timestamp).value = x.value ∧
      ((rbPop rb value timestamp).timestamp.map fun buf => Mem.cstr buf 0 32) =
        timestamp.map (fun _ => x.timestamp) ∧
      (rbPop rb value timestamp).rb.WF ∧ (rbPop rb value timestamp).rb.abs = xs := by
  have hne : rb.size ≠ 0 := by
    intro h0
    rw [h.size_eq_zero_iff.mp h0] at hcons
    cases hcons
  have htext : x.timestamp.length < 32 := h.text x (by rw [hcons]; exact List.mem_cons_self)
  have hwin := h.idx.window_take (by decide) hne rb.entry
  obtain ⟨rfl, hxs⟩ := List.cons.inj (hcons.symm.trans hwin)
  rw [rbPop, if_neg hne]
  refine ⟨rfl, rfl, ?_, ⟨h.idx.take (by decide) hne, ?_⟩, hxs.symm⟩
  · rw [Option.map_map]
    refine congrArg (fun f => Option.map f timestamp) (funext fun buf => ?_)
    exact Mem.cstr_strncpy htext
  · intro e he
    refine h.text e ?_
    rw [hcons, hxs]
    exact List.mem_cons_of_mem _ he

/-- `rb_isempty` tells whether there are entries. -/
theorem rbIsempty_eq {rb : Ringbuffer} (h : rb.WF) :
    rbIsempty rb = if rb.abs = [] then 1 else 0 := by
  rw [rbIsempty]
  by_cases hempty : rb.abs = []
  · rw [if_pos hempty, if_pos (h.size_eq_zero_iff.mpr hempty)]
  · rw [if_neg hempty, if_neg fun h0 => hempty (h.size_eq_zero_iff.mp h0)]

/-! ## Every sequence of operations

The relation between ring and queue is kept by each call, so it lasts through any
sequence, and what a call returns is what the queue would. -/

/-- The ring represents the queue: its entries are the queue's. -/
structure Ringbuffer.Rep (rb : Ringbuffer) (q : DropFifo Entry 100) : Prop where
  wf : rb.WF
  abs : rb.abs = q.items

namespace Ringbuffer.Rep

variable {rb : Ringbuffer} {q : DropFifo Entry 100}

theorem init (rb : Ringbuffer) : Rep (rbInit rb) DropFifo.empty := ⟨WF.init rb, window.zero⟩

theorem push (h : Rep rb q) (value : Int) (ts : Timespec64) :
    Rep (rbPush rb value ts) (q.push (Entry.ofPush value ts)) := by
  rcases Nat.lt_or_eq_of_le q.le_cap with hroom | hfull
  · obtain ⟨hwf, habs⟩ := rbPush_room h.wf (by rw [h.abs]; exact hroom) value ts
    refine ⟨hwf, ?_⟩
    rw [habs, h.abs, DropFifo.push_items_of_lt hroom]
  · obtain ⟨hwf, habs⟩ := rbPush_full h.wf (by rw [h.abs]; exact hfull) value ts
    refine ⟨hwf, ?_⟩
    rw [habs, h.abs, DropFifo.push_items_of_full hfull]

theorem pop (h : Rep rb q) (value : Int) (timestamp : Option (ℕ → Byte)) :
    Rep (rbPop rb value timestamp).rb q.rest := by
  rcases hitems : q.items with _ | ⟨x, xs⟩
  · rw [rbPop_empty h.wf (h.abs.trans hitems)]
    refine ⟨h.wf, ?_⟩
    rw [h.abs, DropFifo.rest_items, hitems]
    rfl
  · obtain ⟨-, -, -, hwf, habs⟩ := rbPop_cons h.wf (h.abs.trans hitems) value timestamp
    refine ⟨hwf, ?_⟩
    rw [habs, DropFifo.rest_items, hitems]
    rfl

end Ringbuffer.Rep

/-- One call on the ring, with what the caller brings. -/
inductive RbOp where
  /-- `rb_push` -/
  | push (value : Int) (ts : Timespec64)
  /-- `rb_pop` -/
  | pop (value : Int) (timestamp : Option (ℕ → Byte))

/-- The ring after one call of the struct's functions. -/
def RbOp.apply (rb : Ringbuffer) : RbOp → Ringbuffer
  | push value ts => rbPush rb value ts
  | pop value timestamp => (rbPop rb value timestamp).rb

/-- The queue after one call, as it should be. -/
def RbOp.spec (q : DropFifo Entry 100) : RbOp → DropFifo Entry 100
  | push value ts => q.push (Entry.ofPush value ts)
  | pop _ _ => q.rest

/-- The ring after `rb_init` and a sequence of calls. -/
def rbRun (rb : Ringbuffer) (ops : List RbOp) : Ringbuffer := ops.foldl RbOp.apply (rbInit rb)

/-- The queue after the same calls, from the empty one. -/
def entryRun (ops : List RbOp) : DropFifo Entry 100 := ops.foldl RbOp.spec DropFifo.empty

/-- One call preserves the representation, whichever it is. -/
theorem Ringbuffer.Rep.apply {rb : Ringbuffer} {q : DropFifo Entry 100} (h : rb.Rep q)
    (op : RbOp) : (op.apply rb).Rep (op.spec q) := by
  cases op with
  | push value ts => exact h.push value ts
  | pop value timestamp => exact h.pop value timestamp

/-- Every sequence of calls preserves the representation. -/
theorem Ringbuffer.Rep.foldl (ops : List RbOp) :
    ∀ {rb : Ringbuffer} {q : DropFifo Entry 100}, rb.Rep q →
      (ops.foldl RbOp.apply rb).Rep (ops.foldl RbOp.spec q) := by
  induction ops with
  | nil => exact fun h => h
  | cons op ops ih => exact fun h => ih (h.apply op)

/-- What it means that the struct is, at one point of a run, a drop-oldest
queue of 100 entries: the indices are in range and consistent, the entries are
those of the queue, and the next call, whichever it is, acts on the entries as
on a queue. -/
structure Ringbuffer.Refines (rb : Ringbuffer) (q : DropFifo Entry 100) : Prop where
  head_range : 0 ≤ rb.head ∧ rb.head < 100
  tail_range : 0 ≤ rb.tail ∧ rb.tail < 100
  size_range : 0 ≤ rb.size ∧ rb.size ≤ 100
  head_eq : rb.head = (rb.tail + rb.size) % 100
  abs : rb.abs = q.items
  push_room : ∀ value ts, rb.abs.length < 100 →
    (rbPush rb value ts).abs = rb.abs ++ [Entry.ofPush value ts]
  push_full : ∀ value ts, rb.abs.length = 100 →
    (rbPush rb value ts).abs = rb.abs.tail ++ [Entry.ofPush value ts]
  pop_fails_iff : ∀ value timestamp, (rbPop rb value timestamp).ret = -1 ↔ rb.abs = []
  pop_empty : ∀ value timestamp, rb.abs = [] →
    rbPop rb value timestamp = ⟨-1, value, timestamp, rb⟩
  pop_cons : ∀ value timestamp x xs, rb.abs = x :: xs →
    (rbPop rb value timestamp).ret = 0 ∧ (rbPop rb value timestamp).value = x.value ∧
      ((rbPop rb value timestamp).timestamp.map fun buf => Mem.cstr buf 0 32) =
        timestamp.map (fun _ => x.timestamp) ∧
      (rbPop rb value timestamp).rb.abs = xs
  isempty : rbIsempty rb = if rb.abs = [] then 1 else 0

theorem Ringbuffer.Rep.refines {rb : Ringbuffer} {q : DropFifo Entry 100} (h : rb.Rep q) :
    rb.Refines q where
  head_range := h.wf.idx.head_range
  tail_range := ⟨h.wf.idx.tail_nonneg, h.wf.idx.tail_lt⟩
  size_range := ⟨h.wf.idx.size_nonneg, h.wf.idx.size_le⟩
  head_eq := h.wf.idx.head_eq
  abs := h.abs
  push_room value ts hroom := (rbPush_room h.wf hroom value ts).2
  push_full value ts hfull := by
    rw [(rbPush_full h.wf hfull value ts).2, List.tail_append_of_ne_nil]
    intro hnil
    rw [hnil] at hfull
    cases hfull
  pop_fails_iff value timestamp := by
    constructor
    · intro hret
      rcases habs : rb.abs with _ | ⟨x, xs⟩
      · rfl
      · rw [(rbPop_cons h.wf habs value timestamp).1] at hret
        cases hret
    · intro hempty
      rw [rbPop_empty h.wf hempty]
  pop_empty value timestamp hempty := rbPop_empty h.wf hempty value timestamp
  pop_cons value timestamp x xs hcons := by
    obtain ⟨hret, hvalue, htext, -, habs⟩ := rbPop_cons h.wf hcons value timestamp
    exact ⟨hret, hvalue, htext, habs⟩
  isempty := rbIsempty_eq h.wf

/-- **The ring is a drop-oldest queue of values with their timestamps.** After
`rb_init` on any memory and any finite sequence of calls the struct refines the
queue after the same calls. -/
theorem rbRun_refines (rb : Ringbuffer) (ops : List RbOp) :
    (rbRun rb ops).Refines (entryRun ops) :=
  (Ringbuffer.Rep.foldl ops (Ringbuffer.Rep.init rb)).refines

/-- Negative seconds, and nanoseconds with leading zeros. -/
example : stampText ⟨-1, 5⟩ = ascii "-1.000000005\n" := by decide +kernel

end Mysensor

end KernelDrvLearn
