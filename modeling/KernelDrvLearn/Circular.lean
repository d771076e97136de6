import Mathlib.Data.List.Basic
import Mathlib.Data.Nat.ModEq
import Mathlib.Logic.Function.Basic

/-!
# Windows of a circular array

The contents of a circular buffer of `n` cells are the cells at `tail`,
`tail + 1`, …, `tail + size - 1`, all indices taken modulo `n`: the *window* of
the array from `tail`. Every index computation a ring performs (writing at the
head, advancing the tail, splitting a copy at the end of the array) is one
lemma about windows, with the wrap-around handled here once.

Memory is a total function from indices to cells. A client shows separately
that the indices it uses lie below `n`.
-/

namespace KernelDrvLearn

universe u

variable {α : Type u}

/-- The `size` cells from index `tail` on, around an array of `n` cells. -/
def window (data : ℕ → α) (n tail size : ℕ) : List α :=
  (List.range size).map fun i => data ((tail + i) % n)

namespace window

variable {data : ℕ → α} {n tail size : ℕ}

@[simp] theorem length : (window data n tail size).length = size := by
  simp [window]

@[simp] theorem zero : window data n tail 0 = [] := rfl

/-- The last cell of a window comes off its end. -/
theorem succ_right : window data n tail (size + 1) =
    window data n tail size ++ [data ((tail + size) % n)] := by
  simp [window, List.range_succ]

/-- The tail of a window may be given modulo the size of the array. -/
theorem mod_tail : window data n (tail % n) size = window data n tail size :=
  List.map_congr_left fun i _ => by rw [Nat.mod_add_mod]

/-- A window splits anywhere into two adjacent ones. -/
theorem add (size' : ℕ) : window data n tail (size + size') =
    window data n tail size ++ window data n ((tail + size) % n) size' := by
  rw [window, List.range_add, List.map_append, List.map_map]
  refine congrArg _ (List.map_congr_left fun i _ => ?_)
  simp [Nat.add_assoc]

/-- The first cell of a window comes off its front. -/
theorem succ_left : window data n tail (size + 1) =
    data (tail % n) :: window data n ((tail + 1) % n) size := by
  rw [Nat.add_comm, add]
  simp [window]

/-- Windows read only their own cells: arrays that agree on these have the same window. -/
theorem congr {data' : ℕ → α} (h : ∀ i < size, data ((tail + i) % n) = data' ((tail + i) % n)) :
    window data n tail size = window data' n tail size :=
  List.map_congr_left fun i hi => h i (List.mem_range.mp hi)

/-- Two offsets less than one turn apart are different cells. -/
theorem index_ne {i j : ℕ} (hij : i < j) (hj : j < i + n) :
    (tail + i) % n ≠ (tail + j) % n := by
  intro h
  have hd : n ∣ (tail + j) - (tail + i) := (Nat.modEq_iff_dvd' (by omega)).mp h
  have : n ≤ (tail + j) - (tail + i) := Nat.le_of_dvd (by omega) hd
  omega

/-- A write outside the window leaves it as it is. -/
theorem update_of_le {k : ℕ} (hk : size ≤ k) (hkn : k < n) (v : α) :
    window (Function.update data ((tail + k) % n) v) n tail size =
      window data n tail size := by
  refine congr fun i hi => ?_
  rw [Function.update_of_ne (index_ne (by omega) (by omega))]

/-- **Append.** Writing the cell after a window that is not full makes the
window one longer. -/
theorem push (hsize : size < n) (v : α) :
    window (Function.update data ((tail + size) % n) v) n tail (size + 1) =
      window data n tail size ++ [v] := by
  rw [succ_right, update_of_le (le_refl size) hsize, Function.update_self]

/-- **Overwrite.** In a full ring the cell after the window is its first one:
writing it and advancing the tail drops the oldest cell. -/
theorem push_full (hn : 0 < n) (v : α) :
    window (Function.update data ((tail + n) % n) v) n ((tail + 1) % n) n =
      (window data n tail n ++ [v]).tail := by
  obtain ⟨m, rfl⟩ : ∃ m, n = m + 1 := ⟨n - 1, by omega⟩
  have hidx : (tail + (m + 1)) % (m + 1) = ((tail + 1) % (m + 1) + m) % (m + 1) := by
    rw [Nat.mod_add_mod]
    congr 1
    omega
  rw [hidx, push (Nat.lt_succ_self m), succ_left]
  rfl

end window

end KernelDrvLearn
