import Mathlib.Data.List.Basic
import Mathlib.Logic.Function.Basic

/-!
# Memory and the strings in it

Memory is a total function from addresses to cells. `Mem.load` and `Mem.store`
copy a list out of it and into it; a copy made piece by piece is a copy of the
concatenation (`load_add`, `store_append`), so how a transfer is split does not
matter.

The bytes of a C string end before the first zero. `cstr m p n` looks at no
more than the `n` bytes from `p` on, which makes it total; a client that knows
a zero among them has the string.
-/

namespace KernelDrvLearn

universe u

namespace Mem

variable {α : Type u} {m m' : ℕ → α} {p n : ℕ}

/-- The `n` cells from `p` on, in the order of their addresses: a copy out of memory. -/
def load (m : ℕ → α) (p n : ℕ) : List α := (List.range n).map fun i => m (p + i)

/-- The memory with the list in the cells from `p` on and every other cell as it was: a
copy into memory. -/
def store (m : ℕ → α) (p : ℕ) (l : List α) (i : ℕ) : α :=
  if i < p then m i else (l[i - p]?).getD (m i)

/-! ## Loads

A load reads its own cells and no others (`load_congr`), and splits anywhere (`load_add`),
so it does not matter in which pieces a loop of the source reads them. -/

@[simp] theorem load_length : (load m p n).length = n := by
  simp [load]

@[simp] theorem load_zero : load m p 0 = [] := rfl

/-- A load splits anywhere: the first `n` cells, then the `k` behind them. -/
theorem load_add (k : ℕ) : load m p (n + k) = load m p n ++ load m (p + n) k := by
  rw [load, List.range_add, List.map_append, List.map_map]
  refine congrArg _ (List.map_congr_left fun i _ => ?_)
  simp [Nat.add_assoc]

theorem load_succ : load m p (n + 1) = m p :: load m (p + 1) n := by
  rw [Nat.add_comm, load_add]
  rfl

/-- A shorter load is the beginning of a longer one. -/
theorem load_take {k : ℕ} (hk : k ≤ n) : (load m p n).take k = load m p k := by
  obtain ⟨j, rfl⟩ := Nat.exists_eq_add_of_le hk
  rw [load_add, List.take_append_of_le_length (Nat.le_of_eq load_length.symm),
    List.take_of_length_le (Nat.le_of_eq load_length)]

/-- A load of some of the cells of another is the part of it that lies there. -/
theorem load_drop_take {off k : ℕ} (h : off + k ≤ n) :
    load m (p + off) k = ((load m p n).drop off).take k := by
  obtain ⟨j, rfl⟩ := Nat.exists_eq_add_of_le h
  have hlen : (load m p off).length = off := load_length
  rw [Nat.add_assoc, load_add, List.drop_left' hlen, load_add, List.take_left' load_length]

/-- A load reads only its own cells: memories that agree on these give the same list. -/
theorem load_congr (h : ∀ i < n, m (p + i) = m' (p + i)) : load m p n = load m' p n :=
  List.map_congr_left fun i hi => h i (List.mem_range.mp hi)

theorem load_getElem? {i : ℕ} (hi : i < n) : (load m p n)[i]? = some (m (p + i)) := by
  rw [load, List.getElem?_map, List.getElem?_range hi]
  rfl

/-- What it means to find a list in memory, cell by cell. -/
theorem load_eq_iff {l : List α} :
    load m p l.length = l ↔ ∀ k (_ : k < l.length), m (p + k) = l[k] := by
  constructor
  · intro h k hk
    have hget := load_getElem? (m := m) (p := p) hk
    rw [h, List.getElem?_eq_getElem hk] at hget
    exact (Option.some.inj hget).symm
  · intro h
    refine List.ext_getElem load_length fun k _ hk => ?_
    have hget := load_getElem? (m := m) (p := p) hk
    rw [← h k hk]
    exact (List.getElem?_eq_some_iff.mp hget).2

/-! ## Stores

A store is framed on both sides: cells before it and after it stay as they were. What is
stored can be loaded again (`load_store`), and two stores next to each other are one
(`store_append`). -/

@[simp] theorem store_nil : store m p [] = m := by
  funext i
  simp [store]

/-- A store leaves the cells before it alone. -/
theorem store_of_lt {l : List α} {i : ℕ} (hi : i < p) : store m p l i = m i := if_pos hi

/-- A store leaves the cells after it alone. -/
theorem store_of_le {l : List α} {i : ℕ} (hi : p + l.length ≤ i) : store m p l i = m i := by
  rw [store, List.getElem?_eq_none (by omega), Option.getD_none, ite_self]

/-- The cells of a store, each given by its place in the list. -/
theorem store_add {l : List α} {k : ℕ} (hk : k < l.length) : store m p l (p + k) = l[k] := by
  rw [store, if_neg (by omega), Nat.add_sub_cancel_left, List.getElem?_eq_getElem hk,
    Option.getD_some]

/-- Two adjacent stores are one store of the two lists, so it does not matter in which
pieces a loop writes them. -/
theorem store_append (l l' : List α) :
    store m p (l ++ l') = store (store m p l) (p + l.length) l' := by
  have hlen : (l ++ l').length = l.length + l'.length := List.length_append
  funext i
  by_cases hlt : i < p
  · rw [store_of_lt hlt, store_of_lt (by omega), store_of_lt hlt]
  obtain ⟨k, rfl⟩ := Nat.exists_eq_add_of_le (Nat.le_of_not_lt hlt)
  by_cases hk : k < l.length
  · rw [store_add (by omega : k < (l ++ l').length), List.getElem_append_left hk,
      store_of_lt (by omega), store_add hk]
  obtain ⟨j, rfl⟩ := Nat.exists_eq_add_of_le (Nat.le_of_not_lt hk)
  by_cases hj : j < l'.length
  · rw [store_add (by omega : l.length + j < (l ++ l').length),
      List.getElem_append_right (Nat.le_add_right _ _), ← Nat.add_assoc, store_add hj]
    congr 1
    exact Nat.add_sub_cancel_left _ _
  · rw [store_of_le (l := l ++ l') (by omega), store_of_le (l := l') (by omega),
      store_of_le (by omega)]

theorem store_singleton (x : α) : store m p [x] = Function.update m p x := by
  funext i
  rcases Nat.lt_trichotomy i p with hlt | rfl | hgt
  · rw [store_of_lt hlt, Function.update_of_ne (Nat.ne_of_lt hlt)]
  · rw [Function.update_self]
    exact store_add (l := [x]) (k := 0) (Nat.zero_lt_one)
  · rw [store_of_le hgt, Function.update_of_ne (Nat.ne_of_gt hgt)]

/-- A store writes its first cell, then the others. -/
theorem store_cons (x : α) (l : List α) :
    store m p (x :: l) = store (Function.update m p x) (p + 1) l := by
  rw [← store_singleton]
  exact store_append [x] l

/-- Loading what was just stored gives the list back. -/
theorem load_store {l : List α} : load (store m p l) p l.length = l := by
  refine List.ext_getElem? fun i => ?_
  by_cases hi : i < l.length
  · rw [load_getElem? hi, store_add hi, List.getElem?_eq_getElem hi]
  · rw [List.getElem?_eq_none (by rw [load_length]; omega), List.getElem?_eq_none (by omega)]

theorem load_store_of_length {l : List α} (h : l.length = n) : load (store m p l) p n = l := by
  rw [← h, load_store]

/-- Storing what is there already changes nothing. -/
theorem store_load : store m p (load m p n) = m := by
  funext i
  by_cases hlt : i < p
  · exact store_of_lt hlt
  obtain ⟨k, rfl⟩ := Nat.exists_eq_add_of_le (Nat.le_of_not_lt hlt)
  by_cases hk : k < n
  · simp [store, load_getElem? hk]
  · exact store_of_le (by rw [load_length]; omega)

/-- Loading the beginning of what was just stored. -/
theorem load_store_append (l l' : List α) : load (store m p (l ++ l')) p l.length = l := by
  rw [store_append]
  refine Eq.trans (load_congr fun i hi => ?_) (load_store (m := m))
  exact store_of_lt (Nat.add_lt_add_left hi p)

/-! ## Addresses that wrap

A device of `size` cells whose address computation overflows goes on at its start. Such a
copy is taken cell by cell modulo the size; as long as it stays within the device it is an
ordinary one. -/

/-- A list copied out of a memory of `size` cells, from `p` on and around. -/
def loadMod (size : ℕ) (m : ℕ → α) (p n : ℕ) : List α :=
  (List.range n).map fun i => m ((p + i) % size)

/-- A list copied into a memory of `size` cells, from `p` on and around. -/
def storeMod (size : ℕ) : (ℕ → α) → ℕ → List α → ℕ → α
  | m, _, [] => m
  | m, p, x :: l => storeMod size (Function.update m (p % size) x) (p + 1) l

variable {size : ℕ}

@[simp] theorem loadMod_length : (loadMod size m p n).length = n := by
  simp [loadMod]

theorem loadMod_eq_load (h : p + n ≤ size) : loadMod size m p n = load m p n := by
  refine List.map_congr_left fun i hi => ?_
  rw [Nat.mod_eq_of_lt (Nat.lt_of_lt_of_le (Nat.add_lt_add_left (List.mem_range.mp hi) p) h)]

theorem storeMod_eq_store {l : List α} (h : p + l.length ≤ size) :
    storeMod size m p l = store m p l := by
  induction l generalizing m p with
  | nil => exact store_nil.symm
  | cons x l ih =>
    rw [List.length_cons] at h
    rw [storeMod, store_cons, Nat.mod_eq_of_lt (by omega), ih (by omega)]

/-- A copy depends on its start modulo the size only. -/
theorem storeMod_mod (l : List α) : storeMod size m (p % size) l = storeMod size m p l := by
  induction l generalizing m p with
  | nil => rfl
  | cons x l ih => rw [storeMod, storeMod, Nat.mod_mod, ← ih, ← ih (p := p + 1), Nat.mod_add_mod]

/-- Two copies one after the other are one copy of the two lists, the second from where
the first ended. -/
theorem storeMod_append (l l' : List α) :
    storeMod size m p (l ++ l') = storeMod size (storeMod size m p l) (p + l.length) l' := by
  induction l generalizing m p with
  | nil => rfl
  | cons x l ih =>
    rw [List.cons_append, storeMod, ih, storeMod, List.length_cons, Nat.add_assoc, Nat.add_comm 1]

/-- A cell that no item of the list is copied to is as it was. -/
theorem storeMod_of_ne {l : List α} {i : ℕ} (h : ∀ k < l.length, (p + k) % size ≠ i) :
    storeMod size m p l i = m i := by
  induction l generalizing m p with
  | nil => rfl
  | cons x l ih =>
    have h0 : p % size ≠ i := h 0 (Nat.succ_pos _)
    rw [storeMod, ih fun k hk => ?_, Function.update_of_ne (Ne.symm h0)]
    rw [Nat.add_assoc, Nat.add_comm 1]
    exact h (k + 1) (Nat.succ_lt_succ hk)

/-- A cell has what was copied to it last: nothing has come around since. -/
theorem storeMod_last {l : List α} {k : ℕ} (hk : k < l.length) (hlast : l.length ≤ k + size) :
    storeMod size m p l ((p + k) % size) = l[k] := by
  induction l generalizing m p k with
  | nil => exact absurd hk (Nat.not_lt_zero _)
  | cons x l ih =>
    rw [List.length_cons] at hk hlast
    rw [storeMod]
    cases k with
    | zero =>
      -- the cells after the first are others
      change storeMod size (Function.update m (p % size) x) (p + 1) l (p % size) = x
      rw [storeMod_of_ne fun k hk' heq => ?_, Function.update_self]
      · have hsub : (p + 1 + k - p) % size = 0 := Nat.sub_mod_eq_zero_of_mod_eq heq
        have hpos : p + 1 + k - p = k + 1 := by omega
        rw [hpos, Nat.mod_eq_of_lt (by omega)] at hsub
        exact Nat.succ_ne_zero k hsub
    | succ k =>
      have hcell := ih (m := Function.update m (p % size) x) (p := p + 1) (k := k)
        (by omega) (by omega)
      rw [Nat.add_assoc, Nat.add_comm 1] at hcell
      exact hcell

/-- A copy shows nowhere in `P` if and only if everything it leaves there was
there already. -/
theorem storeMod_eq_self_iff (hsize : 0 < size) (P : ℕ → Prop) (l : List α) :
    (∀ i, P i → storeMod size m p l i = m i) ↔
      ∀ k (_ : k < l.length), l.length ≤ k + size → P ((p + k) % size) →
        m ((p + k) % size) = l[k] := by
  constructor
  · intro h k hk hlast hP
    exact (h _ hP).symm.trans (storeMod_last hk hlast)
  · intro h i hP
    by_cases hex : ∃ k < l.length, (p + k) % size = i
    · -- the last that goes there
      obtain ⟨k, hk, rfl⟩ := hex
      have hle := Nat.mul_div_le (l.length - 1 - k) size
      have hlt := Nat.lt_mul_div_succ (l.length - 1 - k) hsize
      rw [Nat.mul_add, Nat.mul_one] at hlt
      generalize hq : size * ((l.length - 1 - k) / size) = q at hle hlt
      have hcell : (p + (k + q)) % size = (p + k) % size := by
        rw [← hq, ← Nat.add_assoc, Nat.add_mul_mod_self_left]
      have hk' : k + q < l.length := by omega
      have hlast : l.length ≤ k + q + size := by omega
      rw [← hcell] at hP ⊢
      exact (storeMod_last hk' hlast).trans (h (k + q) hk' hlast hP).symm
    · exact storeMod_of_ne fun k hk heq => hex ⟨k, hk, heq⟩

end Mem

/-! ## Strings

The kernel's string functions stop at the first zero byte. Here they look at a bounded
stretch of memory; where the caller knows a zero in it, the bound is never reached and
`cstr` is the C string. -/

/-- A byte, as `unsigned char`: what a C string and a user's buffer are made of. -/
abbrev Byte := BitVec 8

namespace Mem

variable {m m' : ℕ → Byte} {p n : ℕ}

/-- The bytes from `p` up to the first zero, among the `n` first. -/
def cstr (m : ℕ → Byte) (p : ℕ) : ℕ → List Byte
  | 0 => []
  | n + 1 => if m p = 0 then [] else m p :: cstr m (p + 1) n

/-- A string has no zero byte in it, by the way it ends. -/
theorem cstr_ne_zero {b : Byte} (hb : b ∈ cstr m p n) : b ≠ 0 := by
  induction n generalizing p with
  | zero => exact absurd hb List.not_mem_nil
  | succ n ih =>
    rw [cstr] at hb
    split at hb
    · exact absurd hb List.not_mem_nil
    · rcases List.mem_cons.mp hb with rfl | hb
      · assumption
      · exact ih hb

/-- The string, as the part before the first zero of the bytes there. -/
theorem cstr_eq_takeWhile : cstr m p n = (load m p n).takeWhile (· ≠ 0) := by
  induction n generalizing p with
  | zero => rfl
  | succ n ih =>
    rw [cstr, load_succ, List.takeWhile_cons, ih]
    by_cases h0 : m p = 0
    · rw [if_pos h0, if_neg (by simpa using h0)]
    · rw [if_neg h0, if_pos (decide_eq_true h0)]

/-- Bytes without a zero, with a zero after them, are a string. -/
theorem cstr_eq {l : List Byte} (h0 : 0 ∉ l) (hl : load m p (l.length + 1) = l ++ [0])
    (hn : l.length < n) : cstr m p n = l := by
  induction l generalizing p n with
  | nil =>
    obtain ⟨k, rfl⟩ := Nat.exists_eq_add_of_le (Nat.succ_le_of_lt hn)
    have hz : m p = 0 := by
      rw [List.length_nil, load_succ] at hl
      exact (List.cons.inj hl).1
    rw [List.length_nil, Nat.add_comm, cstr, if_pos hz]
  | cons b l ih =>
    rw [List.length_cons] at hl hn
    obtain ⟨k, rfl⟩ : ∃ k, n = k + 1 := ⟨n - 1, by omega⟩
    rw [load_succ, List.cons_append] at hl
    obtain ⟨hb, hl⟩ := List.cons.inj hl
    have hne : m p ≠ 0 := by
      rw [hb]
      rintro rfl
      exact h0 List.mem_cons_self
    rw [cstr, if_neg hne, hb, ih (fun h => h0 (List.mem_cons_of_mem b h)) hl (by omega)]

/-- A text stored with its terminating zero is the string there. -/
theorem cstr_store {l : List Byte} (h0 : 0 ∉ l) (hn : l.length < n) :
    cstr (store m p (l ++ [0])) p n = l := by
  refine cstr_eq h0 ?_ hn
  have hlen : l.length + 1 = (l ++ [(0 : Byte)]).length := by
    rw [List.length_append]
    rfl
  rw [hlen, load_store]

/-- The string of bytes stored before a zero. -/
theorem cstr_store_zero {l : List Byte} (hz : m (p + l.length) = 0) (hn : l.length < n) :
    cstr (store m p l) p n = l.takeWhile (· ≠ 0) := by
  obtain ⟨k, rfl⟩ : ∃ k, n = l.length + (k + 1) := ⟨n - l.length - 1, by omega⟩
  rw [cstr_eq_takeWhile, load_add, load_store, load_succ, store_of_le (Nat.le_refl _), hz]
  generalize load (store m p l) (p + l.length + 1) k = rest
  induction l generalizing p with
  | nil => rfl
  | cons b l ih =>
    rw [List.cons_append, List.takeWhile_cons, List.takeWhile_cons,
      ih (p := p + 1) (by rw [← hz, List.length_cons]; congr 1; omega) (by omega)]

/-- `strncpy(p, q, n)`: the string, filled up with zeros to `n` bytes. -/
def strncpy (m : ℕ → Byte) (p : ℕ) (src : ℕ → Byte) (q n : ℕ) : ℕ → Byte :=
  let s := cstr src q n
  store m p (s ++ List.replicate (n - s.length) 0)

/-- The copy of a string that ends within its bound is that string. -/
theorem cstr_strncpy {src : ℕ → Byte} {q : ℕ} (h : (cstr src q n).length < n) :
    cstr (strncpy m p src q n) p n = cstr src q n := by
  obtain ⟨k, hk⟩ := Nat.exists_eq_add_of_lt h
  have hpad : n - (cstr src q n).length = 1 + k := by omega
  rw [strncpy, hpad, List.replicate_add, ← List.append_assoc]
  -- the padding starts with the terminating zero
  refine cstr_eq (fun h0 => cstr_ne_zero h0 rfl) ?_ h
  have hlen : (cstr src q n ++ [(0 : Byte)]).length = (cstr src q n).length + 1 :=
    List.length_append
  rw [← hlen]
  exact load_store_append _ _

end Mem

end KernelDrvLearn
