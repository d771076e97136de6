import Mathlib.Data.List.Basic
import Mathlib.Data.List.Induction

/-!
# Bounded queues that drop their oldest entry

What a lossy ring buffer is for, without any array: a queue of at most `cap`
entries, where a push onto a full queue drops the oldest entry. Two layers on
top of the queue:

* `LossyFifo` — the queue with a resettable count of the drops.
* `Ledger` — the queue with its whole history. Its fields carry the
  conservation law: what was popped, followed by what is still queued, is what
  was pushed with exactly `drops` entries deleted, in order and without
  duplicates.
-/

namespace KernelDrvLearn

universe u

/-- A queue of at most `cap` entries, oldest first. The bound is a field, so a queue that
holds too much cannot be built. -/
structure DropFifo (α : Type u) (cap : ℕ) where
  /-- the entries, oldest first -/
  items : List α
  /-- the bound -/
  le_cap : items.length ≤ cap

namespace DropFifo

variable {α : Type u} {cap : ℕ}

/-- The empty queue, with which a ring buffer starts. -/
def empty : DropFifo α cap := ⟨[], Nat.zero_le cap⟩

/-- A push onto a queue with room appends; onto a full one it appends and
drops the oldest entry. -/
def push (q : DropFifo α cap) (v : α) : DropFifo α cap :=
  if h : q.items.length < cap then
    ⟨q.items ++ [v], by rw [List.length_append]; exact h⟩
  else
    ⟨(q.items ++ [v]).tail, by simpa using q.le_cap⟩

/-- What is left after the oldest entry (if any) is taken. -/
def rest (q : DropFifo α cap) : DropFifo α cap :=
  ⟨q.items.tail, by
    have := q.le_cap
    rw [List.length_tail]
    omega⟩

@[simp] theorem rest_items (q : DropFifo α cap) : q.rest.items = q.items.tail := rfl

theorem push_items_of_lt {q : DropFifo α cap} (h : q.items.length < cap) (v : α) :
    (q.push v).items = q.items ++ [v] := by
  rw [push, dif_pos h]

theorem push_items_of_full {q : DropFifo α cap} (h : q.items.length = cap) (v : α) :
    (q.push v).items = (q.items ++ [v]).tail := by
  rw [push, dif_neg (by omega)]

/-- What a push keeps is a subsequence of the old entries and the new one. -/
theorem push_sublist (q : DropFifo α cap) (v : α) :
    List.Sublist (q.push v).items (q.items ++ [v]) := by
  by_cases h : q.items.length < cap
  · rw [push_items_of_lt h]
  · rw [push_items_of_full (by have := q.le_cap; omega)]
    exact List.tail_sublist _

end DropFifo

/-! ## Counting the drops

Ring buffers tell their readers how much was lost. The count is of the drops since it was
last asked for and reset, so it is kept beside the queue and not computed from it. -/

/-- A drop-oldest queue with the number of drops since the last reset, as the reader is
told it. -/
structure LossyFifo (α : Type u) (cap : ℕ) where
  /-- the queue -/
  queue : DropFifo α cap
  /-- drops since the last reset -/
  lost : ℕ

namespace LossyFifo

variable {α : Type u} {cap : ℕ}

/-- The empty queue, nothing lost. -/
def empty : LossyFifo α cap := ⟨DropFifo.empty, 0⟩

/-- A push, counting the drop if the queue was full. -/
def push (q : LossyFifo α cap) (v : α) : LossyFifo α cap :=
  ⟨q.queue.push v, if q.queue.items.length = cap then q.lost + 1 else q.lost⟩

/-- What is left after the oldest entry (if any) is taken; nothing is lost by it. -/
def rest (q : LossyFifo α cap) : LossyFifo α cap := ⟨q.queue.rest, q.lost⟩

/-- Forget the drops counted so far; the entries stay. -/
def resetLost (q : LossyFifo α cap) : LossyFifo α cap := ⟨q.queue, 0⟩

/-- The queue that nobody takes from, after these pushes. -/
def filled (l : List α) : LossyFifo α cap := l.foldl push empty

theorem filled_append (l : List α) (v : α) :
    (filled (l ++ [v]) : LossyFifo α cap) = (filled l).push v := by
  simp [filled]

/-- **It keeps the newest entries**, and has lost the others. -/
theorem filled_spec (hcap : 0 < cap) (l : List α) :
    (filled l : LossyFifo α cap).queue.items = l.drop (l.length - cap) ∧
      (filled l : LossyFifo α cap).lost = l.length - cap := by
  induction l using List.reverseRecOn with
  | nil => exact ⟨List.drop_nil.symm, (Nat.zero_sub cap).symm⟩
  | append_singleton l v ih =>
    obtain ⟨hitems, hlost⟩ := ih
    have hlength : (filled l : LossyFifo α cap).queue.items.length =
        l.length - (l.length - cap) := by
      rw [hitems, List.length_drop]
    rw [filled_append, List.length_append, List.length_singleton]
    by_cases hfull : cap ≤ l.length
    · have hcount : (filled l : LossyFifo α cap).queue.items.length = cap := by omega
      have hsub : l.length + 1 - cap = l.length - cap + 1 := by omega
      refine ⟨?_, ?_⟩
      · rw [push, DropFifo.push_items_of_full hcount, hitems, hsub, ← List.drop_drop,
          List.drop_append_of_le_length (Nat.sub_le l.length cap), List.drop_one]
      · rw [push, if_pos hcount, hlost, hsub]
    · have hroom : (filled l : LossyFifo α cap).queue.items.length < cap := by omega
      have hsub : l.length - cap = 0 := by omega
      have hsub' : l.length + 1 - cap = 0 := by omega
      refine ⟨?_, ?_⟩
      · rw [push, DropFifo.push_items_of_lt hroom, hitems, hsub, hsub']
        rfl
      · rw [push, if_neg (Nat.ne_of_lt hroom), hlost, hsub, hsub']

end LossyFifo

/-! ## The conservation law

What a lossy queue promises is about its whole history: every entry pushed was popped, is
still there, or was dropped and counted. `Ledger` carries the history, and with it this
law, as fields; its operations keep the law because they could not be defined otherwise.
-/

/-- A drop-oldest queue with its history: everything pushed, everything popped, and the
number of drops. -/
structure Ledger (α : Type u) (cap : ℕ) where
  /-- everything pushed, in order -/
  pushed : List α
  /-- everything popped, in order -/
  popped : List α
  /-- the queue -/
  queue : DropFifo α cap
  /-- the number of entries dropped -/
  drops : ℕ
  /-- order is kept and nothing is duplicated -/
  sublist : List.Sublist (popped ++ queue.items) pushed
  /-- every pushed entry was popped, is queued or was dropped -/
  total : popped.length + queue.items.length + drops = pushed.length

namespace Ledger

variable {α : Type u} {cap : ℕ}

/-- Nothing has happened yet: an empty queue, and nothing pushed, popped or dropped. -/
def empty : Ledger α cap :=
  ⟨[], [], DropFifo.empty, 0, List.Sublist.refl _, rfl⟩

/-- A push, entered into the history; onto a full queue it adds a drop to the ledger. -/
def push (L : Ledger α cap) (v : α) : Ledger α cap where
  pushed := L.pushed ++ [v]
  popped := L.popped
  queue := L.queue.push v
  drops := if L.queue.items.length = cap then L.drops + 1 else L.drops
  sublist := by
    have h : List.Sublist (L.popped ++ (L.queue.items ++ [v])) (L.pushed ++ [v]) := by
      rw [← List.append_assoc]
      exact L.sublist.append (List.Sublist.refl _)
    exact ((List.Sublist.refl _).append (L.queue.push_sublist v)).trans h
  total := by
    have ht := L.total
    by_cases h : L.queue.items.length = cap
    · rw [if_pos h, DropFifo.push_items_of_full h]
      simp only [List.length_append, List.length_tail, List.length_singleton]
      omega
    · have hlt : L.queue.items.length < cap := Nat.lt_of_le_of_ne L.queue.le_cap h
      rw [if_neg h, DropFifo.push_items_of_lt hlt]
      simp only [List.length_append, List.length_singleton]
      omega

/-- Taking the oldest entry (if any), entered into the history. -/
def pop (L : Ledger α cap) : Ledger α cap where
  pushed := L.pushed
  popped := L.popped ++ L.queue.items.head?.toList
  queue := L.queue.rest
  drops := L.drops
  sublist := by
    have h := L.sublist
    rw [DropFifo.rest_items]
    rcases hq : L.queue.items with _ | ⟨x, xs⟩ <;> rw [hq] at h
    · simpa using h
    · simpa using h
  total := by
    have h := L.total
    rw [DropFifo.rest_items]
    rcases hq : L.queue.items with _ | ⟨x, xs⟩ <;> rw [hq] at h
    · simpa using h
    · simp only [List.head?_cons, Option.toList_some, List.tail_cons, List.length_append,
        List.length_cons, List.length_nil] at h ⊢
      omega

/-- What was popped is a subsequence of what was pushed. -/
theorem popped_sublist (L : Ledger α cap) : List.Sublist L.popped L.pushed :=
  (List.sublist_append_left _ _).trans L.sublist

end Ledger

end KernelDrvLearn
