import KernelDrvLearn.CInt
import KernelDrvLearn.Circular

/-!
# The three indices of a ring

A ring of `n` cells kept with `int` fields `head`, `tail` and `size`, advanced
by `(i + 1) % n`. `RingIdx` says that they are in range and consistent; each
move of an operation (append, overwrite, take) keeps it, and what the move does
to the contents is one lemma about windows. Nothing here depends on the order
in which the operation writes the fields.
-/

namespace KernelDrvLearn

universe u

/-- `(i + 1) % n` as C computes it on `int`s: the sum wraps at 32 bits, and the remainder
rounds towards zero. -/
abbrev nextIdx (n : ℕ) (i : Int) : Int := (wrap32 (i + 1)).tmod n

/-- The indices are in range, and `head` is one past the last cell held. This is all that
the three fields of a ring have to satisfy for its operations to be right. -/
structure RingIdx (n : ℕ) (head tail size : Int) : Prop where
  tail_nonneg : 0 ≤ tail
  tail_lt : tail < n
  size_nonneg : 0 ≤ size
  size_le : size ≤ n
  head_eq : head = (tail + size) % n

namespace RingIdx

variable {α : Type u} {n : ℕ} {head tail size : Int}

/-- Indices given as natural numbers, `head` as the sum modulo `n`. -/
theorem of_nat {t k : ℕ} (ht : t < n) (hk : k ≤ n) : RingIdx n ((t + k) % n : ℕ) t k where
  tail_nonneg := Int.natCast_nonneg t
  tail_lt := Int.ofNat_lt.mpr ht
  size_nonneg := Int.natCast_nonneg k
  size_le := Int.ofNat_le.mpr hk
  head_eq := by rw [Int.natCast_emod, Int.natCast_add]

/-- The indices of an empty ring just set up. -/
theorem zero (hn : 0 < n) : RingIdx n 0 0 0 := by
  have h := of_nat hn (Nat.zero_le n)
  rw [Nat.zero_add, Nat.zero_mod] at h
  exact h

/-- The indices as natural numbers, which is how the lemmas below compute with them. -/
theorem nat (h : RingIdx n head tail size) :
    ∃ t k : ℕ, t < n ∧ k ≤ n ∧ tail = t ∧ size = k ∧ head = ((t + k) % n : ℕ) := by
  obtain ⟨t, rfl⟩ := Int.eq_ofNat_of_zero_le h.tail_nonneg
  obtain ⟨k, rfl⟩ := Int.eq_ofNat_of_zero_le h.size_nonneg
  refine ⟨t, k, Int.ofNat_lt.mp h.tail_lt, Int.ofNat_le.mp h.size_le, rfl, rfl, ?_⟩
  rw [h.head_eq, Int.natCast_emod, Int.natCast_add]

theorem head_range (h : RingIdx n head tail size) : 0 ≤ head ∧ head < n := by
  obtain ⟨t, k, ht, -, -, -, hhead⟩ := h.nat
  rw [hhead]
  exact ⟨Int.natCast_nonneg _, Int.ofNat_lt.mpr (Nat.mod_lt _ (Nat.zero_lt_of_lt ht))⟩

theorem next_head {t k : ℕ} (ht : t < n) (hn : (n : Int) ≤ intMax) :
    nextIdx n ((t + k) % n : ℕ) = ((t + k + 1) % n : ℕ) := by
  rw [nextIdx, tmod_wrap32_succ (Nat.mod_lt _ (Nat.zero_lt_of_lt ht)) hn, Nat.mod_add_mod]

theorem wrap32_size_succ {k : ℕ} (hk : k < n) (hn : (n : Int) ≤ intMax) :
    wrap32 ((k : Int) + 1) = (k + 1 : ℕ) := by
  have hn' : (n : Int) ≤ 2147483647 := hn
  rw [wrap32_of_range (by omega) (by omega)]
  rfl

theorem wrap32_size_pred {k : ℕ} (hk : k + 1 ≤ n) (hn : (n : Int) ≤ intMax) :
    wrap32 (((k + 1 : ℕ) : Int) - 1) = k := by
  have hn' : (n : Int) ≤ 2147483647 := hn
  rw [wrap32_of_range (by omega) (by omega)]
  omega

/-! ## Append

The move of a push that finds room: the cell at `head` is written, `head` goes on and
`size` grows. -/

theorem append (h : RingIdx n head tail size) (hn : (n : Int) ≤ intMax) (hroom : size < n) :
    RingIdx n (nextIdx n head) tail (wrap32 (size + 1)) := by
  obtain ⟨t, k, ht, -, rfl, rfl, rfl⟩ := h.nat
  have hk : k < n := Int.ofNat_lt.mp hroom
  rw [next_head ht hn, wrap32_size_succ hk hn, Nat.add_assoc]
  exact of_nat ht hk

/-- Writing at the head of a ring with room appends. -/
theorem window_append (h : RingIdx n head tail size) (hn : (n : Int) ≤ intMax)
    (hroom : size < n) (data : ℕ → α) (v : α) :
    window (Function.update data head.toNat v) n tail.toNat (wrap32 (size + 1)).toNat =
      window data n tail.toNat size.toNat ++ [v] := by
  obtain ⟨t, k, ht, -, rfl, rfl, rfl⟩ := h.nat
  have hk : k < n := Int.ofNat_lt.mp hroom
  rw [wrap32_size_succ hk hn]
  exact window.push hk v

/-! ## Overwrite

The move of a push onto a full ring: `head` and `tail` go on together and `size` stays, so
the cell written is that of the oldest entry. -/

theorem overwrite (h : RingIdx n head tail n) (hn : (n : Int) ≤ intMax) :
    RingIdx n (nextIdx n head) (nextIdx n tail) n := by
  obtain ⟨t, k, ht, -, rfl, hk, rfl⟩ := h.nat
  obtain rfl : n = k := Int.ofNat_inj.mp hk
  have hnext : (t + n + 1) % n = ((t + 1) % n + n) % n := by
    rw [Nat.mod_add_mod, Nat.add_right_comm]
  rw [next_head ht hn, nextIdx, tmod_wrap32_succ ht hn, hnext]
  exact of_nat (Nat.mod_lt _ (Nat.zero_lt_of_lt ht)) (Nat.le_refl n)

/-- Writing at the head of a full ring, its tail advanced, drops the oldest
cell. -/
theorem window_overwrite (h : RingIdx n head tail n) (hn : (n : Int) ≤ intMax) (data : ℕ → α)
    (v : α) :
    window (Function.update data head.toNat v) n (nextIdx n tail).toNat (n : Int).toNat =
      (window data n tail.toNat (n : Int).toNat ++ [v]).tail := by
  obtain ⟨t, k, ht, -, rfl, hk, rfl⟩ := h.nat
  obtain rfl : n = k := Int.ofNat_inj.mp hk
  rw [nextIdx, tmod_wrap32_succ ht hn]
  exact window.push_full (Nat.zero_lt_of_lt ht) v

/-! ## Take

The move of a pop: the cell at `tail` is read, `tail` goes on and `size` shrinks. -/

theorem take (h : RingIdx n head tail size) (hn : (n : Int) ≤ intMax) (hne : size ≠ 0) :
    RingIdx n head (nextIdx n tail) (wrap32 (size - 1)) := by
  obtain ⟨t, k, ht, hk, rfl, rfl, rfl⟩ := h.nat
  obtain ⟨j, rfl⟩ : ∃ j, k = j + 1 := Nat.exists_eq_succ_of_ne_zero (by rintro rfl; exact hne rfl)
  have hhead : (t + (j + 1)) % n = ((t + 1) % n + j) % n := by
    rw [Nat.mod_add_mod, Nat.add_assoc, Nat.add_comm j 1]
  rw [nextIdx, tmod_wrap32_succ ht hn, wrap32_size_pred hk hn, hhead]
  exact of_nat (Nat.mod_lt _ (Nat.zero_lt_of_lt ht)) (Nat.le_of_succ_le hk)

/-- The oldest cell of a nonempty ring, and the others. -/
theorem window_take (h : RingIdx n head tail size) (hn : (n : Int) ≤ intMax) (hne : size ≠ 0)
    (data : ℕ → α) :
    window data n tail.toNat size.toNat =
      data tail.toNat :: window data n (nextIdx n tail).toNat (wrap32 (size - 1)).toNat := by
  obtain ⟨t, k, ht, hk, rfl, rfl, rfl⟩ := h.nat
  obtain ⟨j, rfl⟩ : ∃ j, k = j + 1 := Nat.exists_eq_succ_of_ne_zero (by rintro rfl; exact hne rfl)
  rw [nextIdx, tmod_wrap32_succ ht hn, wrap32_size_pred hk hn]
  change window data n t (j + 1) = _
  rw [window.succ_left, Nat.mod_eq_of_lt ht]
  rfl

/-! ## Contents -/

theorem length_window (h : RingIdx n head tail size) (data : ℕ → α) :
    ((window data n tail.toNat size.toNat).length : Int) = size := by
  rw [window.length]
  exact Int.toNat_of_nonneg h.size_nonneg

theorem window_eq_nil_iff (h : RingIdx n head tail size) (data : ℕ → α) :
    window data n tail.toNat size.toNat = [] ↔ size = 0 := by
  rw [← List.length_eq_zero_iff, ← Int.natCast_eq_zero, h.length_window data]

end RingIdx

end KernelDrvLearn
