import KernelDrvLearn.DropFifo
import KernelDrvLearn.RingIndex

/-!
# The sample ring of the fake bell driver

`struct ringbuf` of `practice/myfakebell/ringbuf.h`: a circular array of 64
samples with `head`, `tail`, `size` and `dropcount` updated separately by three
paths of `ringbuf_push`. This file embeds the operations statement by statement
and proves that the struct **refines a drop-oldest queue of 64 entries**
(`LossyFifo`), for every finite sequence of operations.

Each statement of the critical sections that writes a field is a definition of
its own (`store`, `advanceHead`, …). Here the operations compose them; where
operations of several threads interleave, the same definitions are the single
steps.
-/

namespace KernelDrvLearn

/-- `struct rbdata`: one sample of the bell. -/
structure Rbdata where
  /-- `timestamp_ns` -/
  timestampNs : BitVec 64
  /-- `sample_value` -/
  sampleValue : BitVec 32
  /-- `status` -/
  status : BitVec 32
  deriving DecidableEq

/-- A sample of all zero bytes. -/
def Rbdata.zero : Rbdata := ⟨0, 0, 0⟩

/-- `RINGBUF_SIZE`, the number of cells. -/
abbrev ringbufSize : ℕ := 64

/-- `struct ringbuf`. The array is memory from `data` on; that only the
indices below `ringbufSize` are used is part of what is proved. -/
structure Ringbuf where
  /-- the samples -/
  data : ℕ → Rbdata
  /-- the index the next push writes -/
  head : Int
  /-- the lock word: is the spinlock held? -/
  lk : Bool
  /-- the index the next pop reads -/
  tail : Int
  /-- the number of samples held -/
  size : Int
  /-- the number of samples overwritten -/
  dropcount : Int

/-! ## The statements

One definition for each statement of the operations, so that other models can take them
one at a time. The arithmetic on the indices is that of `int`. -/

namespace Ringbuf

/-- `spin_lock_irqsave(&r->lk, flags)`, once the lock is free. -/
def spinLockIrqsave (r : Ringbuf) : Ringbuf := { r with lk := true }

/-- `spin_unlock_irqrestore(&r->lk, flags)`, which frees the lock word. -/
def spinUnlockIrqrestore (r : Ringbuf) : Ringbuf := { r with lk := false }

/-- `spin_lock_init(&r->lk)`, whatever the lock word was. -/
def spinLockInit (r : Ringbuf) : Ringbuf := { r with lk := false }

/-- `memcpy(&r->data[r->head], v, sizeof(*v))`: the sample goes into the cell at `head`.
-/
def store (r : Ringbuf) (v : Rbdata) : Ringbuf :=
  { r with data := Function.update r.data r.head.toNat v }

/-- The sample `memcpy(v, &r->data[r->tail], sizeof(*v))` copies out. -/
def load (r : Ringbuf) : Rbdata := r.data r.tail.toNat

/-- `r->head = (r->head + 1) % RINGBUF_SIZE`. -/
def advanceHead (r : Ringbuf) : Ringbuf :=
  { r with head := (wrap32 (r.head + 1)).tmod ringbufSize }

/-- `r->tail = (r->tail + 1) % RINGBUF_SIZE`. -/
def advanceTail (r : Ringbuf) : Ringbuf :=
  { r with tail := (wrap32 (r.tail + 1)).tmod ringbufSize }

/-- `r->size++`, on a ring that is not full. -/
def incSize (r : Ringbuf) : Ringbuf := { r with size := wrap32 (r.size + 1) }

/-- `r->size--`, on a ring that is not empty. -/
def decSize (r : Ringbuf) : Ringbuf := { r with size := wrap32 (r.size - 1) }

/-- `r->dropcount++`, which wraps as an `int`. -/
def incDropcount (r : Ringbuf) : Ringbuf := { r with dropcount := wrap32 (r.dropcount + 1) }

end Ringbuf

/-! ## The operations

The statements in their order, on each of the paths of the source. Each operation runs
under the lock, so as a whole it is one step. -/

/-- `ringbuf_init`: `memset` of the whole struct, then `spin_lock_init`. -/
def ringbufInit : Ringbuf where
  data := fun _ => Rbdata.zero
  head := 0
  lk := false
  tail := 0
  size := 0
  dropcount := 0

/-- `ringbuf_push`, by the paths of an empty, a full and any other ring. -/
def ringbufPush (r : Ringbuf) (v : Rbdata) : Ringbuf :=
  let r := r.spinLockIrqsave
  if r.size = 0 then
    ((r.store v).advanceHead.incSize).spinUnlockIrqrestore
  else
    let r := if r.size = ringbufSize then r.advanceTail.incDropcount else r.incSize
    ((r.store v).advanceHead).spinUnlockIrqrestore

/-- What a pop leaves: its return value, the caller's sample and the ring. -/
structure PopResult where
  /-- the return value -/
  ret : Int
  /-- the sample the caller passed, overwritten on success -/
  v : Rbdata
  /-- the ring -/
  ring : Ringbuf

/-- `ringbuf_pop`, which fails with -1 on an empty ring. -/
def ringbufPop (r : Ringbuf) (v : Rbdata) : PopResult :=
  let r := r.spinLockIrqsave
  if r.size = 0 then
    ⟨-1, v, r.spinUnlockIrqrestore⟩
  else
    let v := r.load
    ⟨0, v, (r.advanceTail.decSize).spinUnlockIrqrestore⟩

/-- `ringbuf_getsize`, read under the lock, so it is the size of one moment. -/
def ringbufGetsize (r : Ringbuf) : Int := r.size

/-- `ringbuf_getlost`, read under the lock as well, but in a section of its own. -/
def ringbufGetlost (r : Ringbuf) : Int := r.dropcount

/-- `ringbuf_resetlost`, which starts the count anew. -/
def ringbufResetlost (r : Ringbuf) : Ringbuf :=
  let r := r.spinLockIrqsave
  { r with dropcount := 0 }.spinUnlockIrqrestore

/-! ## The invariant and the abstraction

What the struct stands for, the list of the samples held, and the condition on its indices
under which it does. -/

namespace Ringbuf

/-- The samples held, oldest first: `data[(tail + i) % 64]` for `i < size`. -/
def abs (r : Ringbuf) : List Rbdata := window r.data ringbufSize r.tail.toNat r.size.toNat

/-- The indices of an unlocked ring: all in range, and `head` one past the
last sample. -/
structure WF (r : Ringbuf) : Prop where
  unlocked : r.lk = false
  tail_nonneg : 0 ≤ r.tail
  tail_lt : r.tail < 64
  size_nonneg : 0 ≤ r.size
  size_le : r.size ≤ 64
  head_eq : r.head = (r.tail + r.size) % 64

theorem WF.init : WF ringbufInit := ⟨rfl, by decide, by decide, by decide, by decide, rfl⟩

/-- The indices of a well-formed ring, as the library has them. -/
theorem WF.idx {r : Ringbuf} (h : r.WF) : RingIdx ringbufSize r.head r.tail r.size :=
  ⟨h.tail_nonneg, h.tail_lt, h.size_nonneg, h.size_le, h.head_eq⟩

/-- An unlocked ring with such indices is well formed. -/
theorem WF.of_idx {r : Ringbuf} (hlk : r.lk = false)
    (h : RingIdx ringbufSize r.head r.tail r.size) : r.WF :=
  ⟨hlk, h.tail_nonneg, h.tail_lt, h.size_nonneg, h.size_le, h.head_eq⟩

/-- The abstraction of a well-formed ring has `size` samples. -/
theorem WF.abs_length {r : Ringbuf} (h : r.WF) : (r.abs.length : Int) = r.size :=
  h.idx.length_window r.data

theorem WF.abs_length_le {r : Ringbuf} (h : r.WF) : r.abs.length ≤ 64 := by
  rw [← Int.ofNat_le, h.abs_length]
  exact h.size_le

theorem WF.size_eq_zero_iff {r : Ringbuf} (h : r.WF) : r.size = 0 ↔ r.abs = [] :=
  (h.idx.window_eq_nil_iff r.data).symm

end Ringbuf

/-! ## One lemma per operation

Each operation on the list of samples. That the empty path and the partly full one write
the same fields, though in different statements, is the first of these. -/

@[simp] theorem Ringbuf.spinLockIrqsave_size (r : Ringbuf) :
    r.spinLockIrqsave.size = r.size := rfl

/-- The empty and the partly full path of a push write the same fields. -/
theorem ringbufPush_of_ne {r : Ringbuf} (h : r.size ≠ 64) (v : Rbdata) :
    ringbufPush r v = ((r.store v).advanceHead.incSize).spinUnlockIrqrestore := by
  by_cases h0 : r.size = 0
  · simp only [ringbufPush, Ringbuf.spinLockIrqsave_size, h0, if_true]
    rfl
  · have h64 : ¬ r.size = (ringbufSize : ℕ) := h
    simp only [ringbufPush, Ringbuf.spinLockIrqsave_size, h0, h64, if_false]
    rfl

/-- The full path of a push. -/
theorem ringbufPush_of_full {r : Ringbuf} (h : r.size = 64) (v : Rbdata) :
    ringbufPush r v =
      (((r.advanceTail.incDropcount).store v).advanceHead).spinUnlockIrqrestore := by
  have h0 : ¬ r.size = 0 := by omega
  have h64 : (r.size = (ringbufSize : ℕ)) = True := eq_true h
  simp only [ringbufPush, Ringbuf.spinLockIrqsave_size, h0, h64, if_false, if_true]
  rfl

/-- A push onto a ring that is not full. -/
theorem ringbufPush_room {r : Ringbuf} (h : r.WF) (hroom : r.abs.length < 64) (v : Rbdata) :
    (ringbufPush r v).WF ∧ (ringbufPush r v).abs = r.abs ++ [v] ∧
      (ringbufPush r v).dropcount = r.dropcount := by
  have hsize : r.size < 64 := by
    rw [← h.abs_length]
    exact Int.ofNat_lt.mpr hroom
  rw [ringbufPush_of_ne hsize.ne]
  exact ⟨Ringbuf.WF.of_idx rfl (h.idx.append (by decide) hsize),
    h.idx.window_append (by decide) hsize r.data v, rfl⟩

/-- A push onto a full ring drops the oldest sample, and counts the drop. -/
theorem ringbufPush_full {r : Ringbuf} (h : r.WF) (hfull : r.abs.length = 64) (v : Rbdata) :
    (ringbufPush r v).WF ∧ (ringbufPush r v).abs = (r.abs ++ [v]).tail ∧
      (ringbufPush r v).dropcount = wrap32 (r.dropcount + 1) := by
  have hsize : r.size = (ringbufSize : ℕ) := by
    rw [← h.abs_length, hfull]
  have hidx : RingIdx ringbufSize r.head r.tail (ringbufSize : ℕ) := hsize ▸ h.idx
  rw [ringbufPush_of_full hsize]
  refine ⟨Ringbuf.WF.of_idx rfl ?_, ?_, rfl⟩
  · change RingIdx ringbufSize (nextIdx ringbufSize r.head) (nextIdx ringbufSize r.tail) r.size
    rw [hsize]
    exact hidx.overwrite (by decide)
  · change window (Function.update r.data r.head.toNat v) ringbufSize
      (nextIdx ringbufSize r.tail).toNat r.size.toNat =
        (window r.data ringbufSize r.tail.toNat r.size.toNat ++ [v]).tail
    rw [hsize]
    exact hidx.window_overwrite (by decide) r.data v

theorem ringbufPush_wf {r : Ringbuf} (h : r.WF) (v : Rbdata) : (ringbufPush r v).WF := by
  have hle := h.abs_length_le
  by_cases hroom : r.abs.length < 64
  · exact (ringbufPush_room h hroom v).1
  · exact (ringbufPush_full h (by omega) v).1

/-- A push never leaves fewer samples than it found. -/
theorem ringbufPush_length_le {r : Ringbuf} (h : r.WF) (v : Rbdata) :
    r.abs.length ≤ (ringbufPush r v).abs.length := by
  have hle := h.abs_length_le
  by_cases hroom : r.abs.length < 64
  · rw [(ringbufPush_room h hroom v).2.1, List.length_append]
    omega
  · rw [(ringbufPush_full h (by omega) v).2.1, List.length_tail, List.length_append]
    exact Nat.le_refl _

/-- Unlocking what was never locked changes nothing. -/
theorem Ringbuf.WF.unlock_eq {r : Ringbuf} (h : r.WF) :
    r.spinLockIrqsave.spinUnlockIrqrestore = r := by
  have hlk : false = r.lk := h.unlocked.symm
  simp only [spinLockIrqsave, spinUnlockIrqrestore, hlk]

/-- A pop from an empty ring fails and changes nothing. -/
theorem ringbufPop_empty {r : Ringbuf} (h : r.WF) (hempty : r.abs = []) (v : Rbdata) :
    ringbufPop r v = ⟨-1, v, r⟩ := by
  have h0 : r.size = 0 := h.size_eq_zero_iff.mpr hempty
  simp only [ringbufPop, Ringbuf.spinLockIrqsave_size, h0, if_true, h.unlock_eq]

/-- The successful path of a pop, with its fields. -/
theorem ringbufPop_of_ne {r : Ringbuf} (h : r.size ≠ 0) (v : Rbdata) :
    ringbufPop r v = ⟨0, r.load, (r.advanceTail.decSize).spinUnlockIrqrestore⟩ := by
  simp only [ringbufPop, Ringbuf.spinLockIrqsave_size, h, if_false]
  rfl

/-- A pop from a nonempty ring takes the oldest sample. -/
theorem ringbufPop_cons {r : Ringbuf} (h : r.WF) {x : Rbdata} {xs : List Rbdata}
    (hcons : r.abs = x :: xs) (v : Rbdata) :
    (ringbufPop r v).ret = 0 ∧ (ringbufPop r v).v = x ∧ (ringbufPop r v).ring.WF ∧
      (ringbufPop r v).ring.abs = xs ∧ (ringbufPop r v).ring.dropcount = r.dropcount := by
  have hne : ¬ r.size = 0 := by
    intro h0
    rw [h.size_eq_zero_iff.mp h0] at hcons
    cases hcons
  have hwin : r.abs = r.data r.tail.toNat :: window r.data ringbufSize
      (nextIdx ringbufSize r.tail).toNat (wrap32 (r.size - 1)).toNat :=
    h.idx.window_take (by decide) hne r.data
  rw [hwin] at hcons
  obtain ⟨hx, hxs⟩ := List.cons.inj hcons
  rw [ringbufPop_of_ne hne]
  exact ⟨rfl, hx, Ringbuf.WF.of_idx rfl (h.idx.take (by decide) hne), hxs, rfl⟩

/-! ## Every sequence of operations

`Rep` relates the struct to the abstract queue. Each operation preserves it
(`Rep.apply`, one case per operation), hence so does every finite sequence. -/

/-- The ring represents the queue: its samples are the entries, its
`dropcount` is the number of drops as a 32-bit `int`. -/
structure Ringbuf.Rep (r : Ringbuf) (q : LossyFifo Rbdata 64) : Prop where
  wf : r.WF
  abs : r.abs = q.queue.items
  lost : r.dropcount = wrap32 q.lost

namespace Ringbuf.Rep

variable {r : Ringbuf} {q : LossyFifo Rbdata 64}

theorem init : Rep ringbufInit LossyFifo.empty := ⟨WF.init, window.zero, wrap32_zero.symm⟩

theorem push (h : Rep r q) (v : Rbdata) : Rep (ringbufPush r v) (q.push v) := by
  have hle := q.queue.le_cap
  by_cases hfull : q.queue.items.length = 64
  · obtain ⟨hwf, habs, hdrop⟩ := ringbufPush_full h.wf (by rw [h.abs]; exact hfull) v
    refine ⟨hwf, ?_, ?_⟩
    · rw [habs, h.abs, LossyFifo.push, DropFifo.push_items_of_full hfull]
    · rw [hdrop, h.lost, wrap32_wrap32_add, LossyFifo.push, if_pos hfull]
      rfl
  · have hroom : q.queue.items.length < 64 := by omega
    obtain ⟨hwf, habs, hdrop⟩ := ringbufPush_room h.wf (by rw [h.abs]; exact hroom) v
    refine ⟨hwf, ?_, ?_⟩
    · rw [habs, h.abs, LossyFifo.push, DropFifo.push_items_of_lt hroom]
    · rw [hdrop, h.lost, LossyFifo.push, if_neg hfull]

theorem pop (h : Rep r q) (v : Rbdata) : Rep (ringbufPop r v).ring q.rest := by
  rcases hitems : q.queue.items with _ | ⟨x, xs⟩
  · rw [ringbufPop_empty h.wf (h.abs.trans hitems)]
    refine ⟨h.wf, ?_, h.lost⟩
    rw [h.abs, LossyFifo.rest, DropFifo.rest_items, hitems]
    rfl
  · obtain ⟨-, -, hwf, habs, hdrop⟩ := ringbufPop_cons h.wf (h.abs.trans hitems) v
    refine ⟨hwf, ?_, hdrop.trans h.lost⟩
    rw [habs, LossyFifo.rest, DropFifo.rest_items, hitems]
    rfl

theorem resetlost (h : Rep r q) : Rep (ringbufResetlost r) q.resetLost :=
  ⟨⟨rfl, h.wf.tail_nonneg, h.wf.tail_lt, h.wf.size_nonneg, h.wf.size_le, h.wf.head_eq⟩,
    h.abs, wrap32_zero.symm⟩

end Ringbuf.Rep

/-- One call on the ring. A pop brings the sample the caller passes. -/
inductive RingbufOp where
  /-- `ringbuf_push` -/
  | push (v : Rbdata)
  /-- `ringbuf_pop` -/
  | pop (v : Rbdata)
  /-- `ringbuf_getsize` -/
  | getsize
  /-- `ringbuf_getlost` -/
  | getlost
  /-- `ringbuf_resetlost` -/
  | resetlost

/-- The ring after one call of the struct's functions. -/
def RingbufOp.apply (r : Ringbuf) : RingbufOp → Ringbuf
  | push v => ringbufPush r v
  | pop v => (ringbufPop r v).ring
  | getsize => r
  | getlost => r
  | resetlost => ringbufResetlost r

/-- The queue after one call, as it should be. -/
def RingbufOp.spec (q : LossyFifo Rbdata 64) : RingbufOp → LossyFifo Rbdata 64
  | push v => q.push v
  | pop _ => q.rest
  | getsize => q
  | getlost => q
  | resetlost => q.resetLost

/-- The ring after `ringbuf_init` and a sequence of calls. -/
def ringbufRun (ops : List RingbufOp) : Ringbuf := ops.foldl RingbufOp.apply ringbufInit

/-- The queue after the same calls, from the empty one. -/
def fifoRun (ops : List RingbufOp) : LossyFifo Rbdata 64 :=
  ops.foldl RingbufOp.spec LossyFifo.empty

/-- One call preserves the representation, whichever it is. -/
theorem Ringbuf.Rep.apply {r : Ringbuf} {q : LossyFifo Rbdata 64} (h : r.Rep q)
    (op : RingbufOp) : (op.apply r).Rep (op.spec q) := by
  cases op with
  | push v => exact h.push v
  | pop v => exact h.pop v
  | getsize => exact h
  | getlost => exact h
  | resetlost => exact h.resetlost

/-- Every sequence of calls preserves the representation. -/
theorem Ringbuf.Rep.run (ops : List RingbufOp) : (ringbufRun ops).Rep (fifoRun ops) := by
  have hfold : ∀ (ops : List RingbufOp) (r : Ringbuf) (q : LossyFifo Rbdata 64), r.Rep q →
      (ops.foldl RingbufOp.apply r).Rep (ops.foldl RingbufOp.spec q) := by
    intro ops
    induction ops with
    | nil => exact fun _ _ h => h
    | cons op ops ih => exact fun _ _ h => ih _ _ (h.apply op)
  exact hfold ops _ _ Ringbuf.Rep.init

/-- What it means that the struct is, at one point of a run, a drop-oldest
queue of 64 entries: the indices are in range and consistent, the samples and
counters are those of the queue, and the next push or pop, whichever it is,
acts on the samples as on a queue. -/
structure Ringbuf.Refines (r : Ringbuf) (q : LossyFifo Rbdata 64) : Prop where
  head_range : 0 ≤ r.head ∧ r.head < 64
  tail_range : 0 ≤ r.tail ∧ r.tail < 64
  size_range : 0 ≤ r.size ∧ r.size ≤ 64
  head_eq : r.head = (r.tail + r.size) % 64
  abs : r.abs = q.queue.items
  getsize : ringbufGetsize r = r.abs.length
  getlost : ringbufGetlost r = wrap32 q.lost
  push_room : ∀ v, r.abs.length < 64 →
    (ringbufPush r v).abs = r.abs ++ [v] ∧ (ringbufPush r v).dropcount = r.dropcount
  push_full : ∀ v, r.abs.length = 64 →
    (ringbufPush r v).abs = r.abs.tail ++ [v] ∧
      (ringbufPush r v).dropcount = wrap32 (r.dropcount + 1)
  pop_fails_iff : ∀ v, (ringbufPop r v).ret = -1 ↔ r.abs = []
  pop_empty : ∀ v, r.abs = [] → ringbufPop r v = ⟨-1, v, r⟩
  pop_cons : ∀ v x xs, r.abs = x :: xs →
    (ringbufPop r v).ret = 0 ∧ (ringbufPop r v).v = x ∧ (ringbufPop r v).ring.abs = xs ∧
      (ringbufPop r v).ring.dropcount = r.dropcount

theorem Ringbuf.Rep.refines {r : Ringbuf} {q : LossyFifo Rbdata 64} (h : r.Rep q) :
    r.Refines q where
  head_range := h.wf.idx.head_range
  tail_range := ⟨h.wf.tail_nonneg, h.wf.tail_lt⟩
  size_range := ⟨h.wf.size_nonneg, h.wf.size_le⟩
  head_eq := h.wf.head_eq
  abs := h.abs
  getsize := h.wf.abs_length.symm
  getlost := h.lost
  push_room v hroom := (ringbufPush_room h.wf hroom v).2
  push_full v hfull := by
    obtain ⟨-, habs, hdrop⟩ := ringbufPush_full h.wf hfull v
    refine ⟨?_, hdrop⟩
    rw [habs, List.tail_append_of_ne_nil]
    intro hnil
    rw [hnil] at hfull
    cases hfull
  pop_fails_iff v := by
    constructor
    · intro hret
      rcases habs : r.abs with _ | ⟨x, xs⟩
      · rfl
      · rw [(ringbufPop_cons h.wf habs v).1] at hret
        cases hret
    · intro hempty
      rw [ringbufPop_empty h.wf hempty]
  pop_empty v hempty := ringbufPop_empty h.wf hempty v
  pop_cons v x xs hcons := by
    obtain ⟨hret, hv, -, habs, hdrop⟩ := ringbufPop_cons h.wf hcons v
    exact ⟨hret, hv, habs, hdrop⟩

/-- **The ring is a drop-oldest queue.** After `ringbuf_init` and any finite
sequence of calls the struct refines the queue after the same calls.

One call at a time, by `Rep`. It ties the indices to the size and the items to what is
stored between them, so that each of the three paths of a push comes to the one
operation of the queue. The drop counter is an `int`, and follows the queue's modulo `2
^ 32`. -/
theorem ringbufRun_refines (ops : List RingbufOp) : (ringbufRun ops).Refines (fifoRun ops) :=
  (Ringbuf.Rep.run ops).refines

/-- The 65th push drops the first sample. -/
example : ringbufGetlost (ringbufRun (List.replicate 65 (.push Rbdata.zero))) = 1 := by
  decide +kernel

end KernelDrvLearn
