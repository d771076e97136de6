import KernelDrvLearn.Memory

/-!
# Reading a string out of a buffer

A read that keeps its offset between calls. It looks at the byte at the offset:
a zero there is the end, and the offset goes back to the start. Otherwise it
delivers the string from the offset on, at most `length` bytes of it. Beside
what it delivers, `readout` lists the places it looks at, and depends on these
alone (`readout_congr`).

The offset is compared with nothing. A string that ends at `n` is therefore
delivered exactly, and nothing behind the buffer is looked at, if and only if
the offset is in the buffer, and not at a byte left behind the string
(`Readout.exact_iff`).
-/

namespace KernelDrvLearn

namespace Mem

variable {m m' : ℕ → Byte} {p n length offset bound : ℕ}

/-- The places at which `cstr m p n` looks. -/
def scan (m : ℕ → Byte) (p : ℕ) : ℕ → List ℕ
  | 0 => []
  | n + 1 => if m p = 0 then [p] else p :: scan m (p + 1) n

/-- What a read does: the bytes, the offset it leaves, and where it looked. -/
structure Readout where
  /-- the bytes delivered -/
  out : List Byte
  /-- the offset afterwards -/
  offset : ℕ
  /-- the number returned -/
  ret : ℕ
  /-- the places looked at -/
  touched : List ℕ

/-- A read of at most `length` bytes at `offset`. -/
def readout (m : ℕ → Byte) (length offset : ℕ) : Readout :=
  if m offset = 0 then
    ⟨[], 0, 0, [offset]⟩
  else
    let bytes := cstr m offset length
    ⟨bytes, offset + bytes.length, bytes.length, offset :: scan m offset length⟩

/-- The string at address 0 has `n` bytes. -/
structure EndsAt (m : ℕ → Byte) (n : ℕ) : Prop where
  zero : m n = 0
  nonzero : ∀ i < n, m i ≠ 0

/-- The bytes of the string of `n` bytes from `offset` on, at most `length`,
are delivered and counted, and no place from `bound` on is looked at. -/
structure Readout.Exact (m : ℕ → Byte) (n bound length offset : ℕ) (r : Readout) : Prop where
  out : r.out = load m offset (min length (n - offset))
  ret : r.ret = min length (n - offset)
  touched : ∀ i ∈ r.touched, i < bound

/-! ## What is looked at

A buffer holds more than the string in it: bytes of earlier strings, or another thread's.
A read is a function of the places it looks at, so it matters which they are. -/

/-- A string depends on no place but those scanned for it. -/
theorem cstr_congr (h : ∀ i ∈ scan m p n, m i = m' i) :
    cstr m' p n = cstr m p n ∧ scan m' p n = scan m p n := by
  induction n generalizing p with
  | zero => exact ⟨rfl, rfl⟩
  | succ n ih =>
    rw [scan] at h
    simp only [cstr, scan]
    by_cases h0 : m p = 0
    · rw [if_pos h0] at h
      have hp : m p = m' p := h p List.mem_cons_self
      rw [← hp, if_pos h0, if_pos h0, if_pos h0, if_pos h0]
      exact ⟨rfl, rfl⟩
    · rw [if_neg h0] at h
      have hp : m p = m' p := h p List.mem_cons_self
      obtain ⟨hcstr, hscan⟩ := ih fun i hi => h i (List.mem_cons_of_mem p hi)
      rw [← hp, if_neg h0, if_neg h0, if_neg h0, if_neg h0, hcstr, hscan]
      exact ⟨rfl, rfl⟩

/-- **A read depends on the places it looks at.** -/
theorem readout_congr (h : ∀ i ∈ (readout m length offset).touched, m i = m' i) :
    readout m' length offset = readout m length offset := by
  rw [readout] at h
  by_cases h0 : m offset = 0
  · rw [if_pos h0] at h
    have hoff : m offset = m' offset := h offset List.mem_cons_self
    rw [readout, readout, ← hoff, if_pos h0, if_pos h0]
  · rw [if_neg h0] at h
    have hoff : m offset = m' offset := h offset List.mem_cons_self
    obtain ⟨hcstr, hscan⟩ := cstr_congr fun i hi => h i (List.mem_cons_of_mem offset hi)
    rw [readout, readout, ← hoff, if_neg h0, if_neg h0, hcstr, hscan]

theorem offset_mem_touched : offset ∈ (readout m length offset).touched := by
  rw [readout]
  split <;> exact List.mem_cons_self

/-- The count returned is that of the bytes delivered. -/
theorem readout_ret : (readout m length offset).ret = (readout m length offset).out.length := by
  rw [readout]
  split <;> rfl

/-! ## Strings that end

Whoever stores a text stores its zero too, and then the text is the string there. Where
the zero is left out the string goes on into what stood there before, and is right only if
a zero happens to stand behind it. -/

/-- From a place in the string on, its bytes up to the end. -/
theorem EndsAt.cstr_eq (h : EndsAt m n) (hp : p ≤ n) (length : ℕ) :
    cstr m p length = load m p (min length (n - p)) := by
  induction length generalizing p with
  | zero =>
    rw [Nat.zero_min]
    rfl
  | succ length ih =>
    rw [cstr]
    rcases Nat.lt_or_eq_of_le hp with hlt | rfl
    · have hmin : min (length + 1) (n - p) = min length (n - (p + 1)) + 1 := by omega
      rw [if_neg (h.nonzero p hlt), ih hlt, hmin, load_succ]
    · rw [if_pos h.zero, Nat.sub_self, Nat.min_zero, load_zero]

/-- A scan that starts in the string looks at nothing behind its end. -/
theorem EndsAt.scan_le (h : EndsAt m n) (hp : p ≤ n) {i : ℕ} (hi : i ∈ scan m p length) :
    i ≤ n := by
  induction length generalizing p with
  | zero => exact absurd hi List.not_mem_nil
  | succ length ih =>
    rw [scan] at hi
    split at hi
    · rw [List.mem_singleton.mp hi]
      exact hp
    · rename_i hne
      rcases List.mem_cons.mp hi with rfl | hi
      · exact hp
      · refine ih (Nat.lt_of_le_of_ne hp ?_) hi
        rintro rfl
        exact hne h.zero

/-- A text stored with its terminating zero ends there. -/
theorem endsAt_store {l : List Byte} (h0 : 0 ∉ l) : EndsAt (store m 0 (l ++ [0])) l.length := by
  have hcell : ∀ i (hi : i < (l ++ [(0 : Byte)]).length),
      store m 0 (l ++ [0]) i = (l ++ [0])[i] := by
    intro i hi
    have := store_add (m := m) (p := 0) hi
    rwa [Nat.zero_add] at this
  have hlen : (l ++ [(0 : Byte)]).length = l.length + 1 := List.length_append
  constructor
  · rw [hcell l.length (by omega)]
    exact List.getElem_concat_length rfl _
  · intro i hi hz
    rw [hcell i (by omega), List.getElem_append_left hi] at hz
    exact h0 (hz ▸ List.getElem_mem hi)

/-- Where there is a zero, a string ends at the first one. -/
theorem exists_endsAt (h : m bound = 0) : ∃ n ≤ bound, EndsAt m n := by
  induction bound using Nat.strongRecOn with
  | ind bound ih =>
    by_cases hz : ∃ i < bound, m i = 0
    · obtain ⟨i, hi, h0⟩ := hz
      obtain ⟨n, hn, hends⟩ := ih i hi h0
      exact ⟨n, Nat.le_trans hn (Nat.le_of_lt hi), hends⟩
    · exact ⟨bound, Nat.le_refl bound, h, fun i hi h0 => hz ⟨i, hi, h0⟩⟩

/-- What ends a string before its bound is a zero. -/
theorem cstr_end (h : (cstr m p n).length < n) : m (p + (cstr m p n).length) = 0 := by
  induction n generalizing p with
  | zero => exact absurd h (Nat.not_lt_zero _)
  | succ n ih =>
    rw [cstr] at h ⊢
    split
    · assumption
    · rename_i hne
      rw [if_neg hne, List.length_cons] at h
      rw [List.length_cons, Nat.add_comm _ 1, ← Nat.add_assoc]
      exact ih (Nat.lt_of_succ_lt_succ h)

/-- A string that ends before its bound is the same under any bound it fits. -/
theorem cstr_of_length_le {k : ℕ} (h : (cstr m p n).length < n) (hk : (cstr m p n).length ≤ k) :
    cstr m p k = cstr m p n := by
  induction n generalizing p k with
  | zero => exact absurd h (Nat.not_lt_zero _)
  | succ n ih =>
    rw [cstr] at h hk ⊢
    by_cases h0 : m p = 0
    · rw [if_pos h0]
      cases k with
      | zero => rfl
      | succ k => exact if_pos h0
    · rw [if_neg h0, List.length_cons] at h hk
      obtain ⟨k, rfl⟩ : ∃ k', k = k' + 1 := ⟨k - 1, by omega⟩
      rw [cstr, if_neg h0, if_neg h0,
        ih (Nat.lt_of_succ_lt_succ h) (Nat.le_of_succ_le_succ hk)]

/-- Where there is a zero already, none need be stored. -/
theorem store_concat_zero {l : List Byte} (hz : m (p + l.length) = 0) :
    store m p (l ++ [0]) = store m p l := by
  have hbehind : store m p l (p + l.length) = 0 := (store_of_le (Nat.le_refl _)).trans hz
  rw [store_append, store_singleton, ← hbehind, Function.update_eq_self]

/-- A text stored without a zero is the string there if and only if there is one
behind it already. -/
theorem cstr_store_iff {l : List Byte} (h0 : 0 ∉ l) (hn : l.length < n) :
    cstr (store m p l) p n = l ↔ m (p + l.length) = 0 := by
  have hbehind : store m p l (p + l.length) = m (p + l.length) := store_of_le (Nat.le_refl _)
  constructor
  · intro h
    have hend := cstr_end (m := store m p l) (p := p) (n := n) (by rwa [h])
    rwa [h, hbehind] at hend
  · intro hz
    rw [← store_concat_zero hz]
    exact cstr_store h0 hn

/-! ## Lengths

`strlen` is a search for the first zero without a bound of its own; the fuel is the bound
it is given here. It finds a length if and only if there is a zero to be found. -/

/-- `strlen(p)`, if it is less than `fuel`. It looks at `scan m p fuel`. -/
def strlen (m : ℕ → Byte) (p : ℕ) : ℕ → Option ℕ
  | 0 => none
  | fuel + 1 => if m p = 0 then some 0 else (strlen m (p + 1) fuel).map (· + 1)

/-- The length of a string that ends at `n`. -/
theorem EndsAt.strlen_eq (h : EndsAt m n) {fuel : ℕ} (hp : p ≤ n) (hfuel : n - p < fuel) :
    strlen m p fuel = some (n - p) := by
  induction fuel generalizing p with
  | zero => exact absurd hfuel (Nat.not_lt_zero _)
  | succ fuel ih =>
    rcases Nat.lt_or_eq_of_le hp with hlt | rfl
    · rw [strlen, if_neg (h.nonzero p hlt), ih hlt (by omega), Option.map_some]
      congr 1
      omega
    · rw [strlen, if_pos h.zero, Nat.sub_self]

/-- Where there is a length there is an end. -/
theorem strlen_spec {fuel : ℕ} (h : strlen m p fuel = some n) :
    m (p + n) = 0 ∧ ∀ i < n, m (p + i) ≠ 0 := by
  induction fuel generalizing p n with
  | zero => cases h
  | succ fuel ih =>
    rw [strlen] at h
    by_cases h0 : m p = 0
    · rw [if_pos h0] at h
      obtain rfl := Option.some.inj h
      exact ⟨h0, fun i hi => absurd hi (Nat.not_lt_zero i)⟩
    · rw [if_neg h0] at h
      obtain ⟨k, hk, rfl⟩ := Option.map_eq_some_iff.mp h
      obtain ⟨hzero, hne⟩ := ih hk
      refine ⟨by rwa [Nat.add_comm k, ← Nat.add_assoc], fun i hi => ?_⟩
      cases i with
      | zero => exact h0
      | succ i =>
        rw [Nat.add_comm i, ← Nat.add_assoc]
        exact hne i (Nat.lt_of_succ_lt_succ hi)

/-- A string ends once: its first zero is where it ends. -/
theorem EndsAt.unique {k : ℕ} (h : EndsAt m n) (h' : EndsAt m k) : n = k := by
  rcases Nat.lt_trichotomy n k with hlt | heq | hgt
  · exact absurd h.zero (h'.nonzero n hlt)
  · exact heq
  · exact absurd h'.zero (h.nonzero k hgt)

theorem endsAt_of_strlen {fuel : ℕ} (h : strlen m 0 fuel = some n) : EndsAt m n := by
  obtain ⟨hzero, hne⟩ := strlen_spec h
  exact ⟨by simpa using hzero, by simpa using hne⟩

/-- Over bytes that are not zero the scan goes on. -/
theorem mem_scan {k fuel : ℕ} (h : ∀ i < k, m (p + i) ≠ 0) (hk : k < fuel) :
    p + k ∈ scan m p fuel := by
  induction k generalizing p fuel with
  | zero =>
    obtain ⟨fuel, rfl⟩ := Nat.exists_eq_succ_of_ne_zero (Nat.ne_zero_of_lt hk)
    rw [scan]
    split <;> exact List.mem_cons_self
  | succ k ih =>
    obtain ⟨fuel, rfl⟩ := Nat.exists_eq_succ_of_ne_zero (Nat.ne_zero_of_lt hk)
    have hp : m p ≠ 0 := h 0 (Nat.succ_pos k)
    rw [scan, if_neg hp, Nat.add_comm k, ← Nat.add_assoc]
    refine List.mem_cons_of_mem p (ih (fun i hi => ?_) (Nat.lt_of_succ_lt_succ hk))
    rw [Nat.add_assoc, Nat.add_comm 1]
    exact h (i + 1) (Nat.succ_lt_succ hi)

/-- A scan stays below `bound` if and only if there is a zero there. -/
theorem scan_lt_iff {bound : ℕ} :
    (∀ fuel, ∀ i ∈ scan m 0 fuel, i < bound) ↔ ∃ i < bound, m i = 0 := by
  constructor
  · intro h
    by_contra hnone
    have hne : ∀ i < bound, m (0 + i) ≠ 0 := by
      intro i hi h0
      rw [Nat.zero_add] at h0
      exact hnone ⟨i, hi, h0⟩
    have hmem := h (bound + 1) (0 + bound) (mem_scan hne (Nat.lt_succ_self bound))
    omega
  · rintro ⟨i, hi, h0⟩ fuel j hj
    obtain ⟨n, hn, hends⟩ := exists_endsAt h0
    exact Nat.lt_of_le_of_lt (Nat.le_trans (hends.scan_le (Nat.zero_le n) hj) hn) hi

/-! ## Exact reads

When a read delivers what it should: the rest of the string, from the offset on. At the
zero and in the string it does. The trouble begins behind it, where an offset of an
earlier and longer string points at bytes that are not part of this one. -/

theorem readout_of_zero (h0 : m offset = 0) : readout m length offset = ⟨[], 0, 0, [offset]⟩ :=
  if_pos h0

theorem readout_of_ne (h0 : m offset ≠ 0) :
    readout m length offset =
      ⟨cstr m offset length, offset + (cstr m offset length).length,
        (cstr m offset length).length, offset :: scan m offset length⟩ :=
  if_neg h0

/-- At a zero a read is exact: the string has no bytes there. -/
theorem Readout.exact_of_zero (h : EndsAt m n) (hoff : offset < bound) (h0 : m offset = 0) :
    (readout m length offset).Exact m n bound length offset := by
  have hmin : min length (n - offset) = 0 := by
    have hge : ¬ offset < n := fun hlt => h.nonzero offset hlt h0
    omega
  rw [readout_of_zero h0]
  refine ⟨?_, hmin.symm, ?_⟩
  · rw [hmin]
    rfl
  · intro i hi
    rw [List.mem_singleton.mp hi]
    exact hoff

/-- In the string a read is exact: it ends at the zero. -/
theorem Readout.exact_of_le (h : EndsAt m n) (hn : n < bound) (hle : offset ≤ n)
    (h0 : m offset ≠ 0) : (readout m length offset).Exact m n bound length offset := by
  have hcstr := h.cstr_eq hle length
  rw [readout_of_ne h0]
  refine ⟨hcstr, (congrArg List.length hcstr).trans load_length, ?_⟩
  intro i hi
  rcases List.mem_cons.mp hi with rfl | hi
  · exact Nat.lt_of_le_of_lt hle hn
  · exact Nat.lt_of_le_of_lt (h.scan_le hle hi) hn

/-- Behind the string a read is exact only if nothing is asked for: it would
deliver a byte where the string has none. -/
theorem Readout.exact_behind_iff (hgt : n < offset) (hoff : offset < bound) (h0 : m offset ≠ 0) :
    (readout m length offset).Exact m n bound length offset ↔ length = 0 := by
  have hzero : n - offset = 0 := Nat.sub_eq_zero_of_le (Nat.le_of_lt hgt)
  rw [readout_of_ne h0]
  constructor
  · intro hexact
    have hret := hexact.ret
    rw [hzero, Nat.min_zero] at hret
    cases length with
    | zero => rfl
    | succ k =>
      rw [cstr, if_neg h0] at hret
      exact absurd hret (Nat.succ_ne_zero _)
  · rintro rfl
    refine ⟨?_, (Nat.zero_min _).symm, ?_⟩
    · rw [Nat.zero_min]
      rfl
    · intro i hi
      rw [List.mem_singleton.mp hi]
      exact hoff

/-- **Exact reads.** A read of a string that ends within the buffer is exact if
and only if the offset is in the buffer, and not at a byte behind the string
from which on something would be delivered. -/
theorem Readout.exact_iff (h : EndsAt m n) (hn : n < bound) (length offset : ℕ) :
    (readout m length offset).Exact m n bound length offset ↔
      offset < bound ∧ (offset ≤ n ∨ length = 0 ∨ m offset = 0) := by
  by_cases hoff : offset < bound
  case neg =>
    -- the offset itself is looked at
    exact ⟨fun hexact => absurd (hexact.touched offset offset_mem_touched) hoff,
      fun hcond => absurd hcond.1 hoff⟩
  by_cases h0 : m offset = 0
  case pos => exact ⟨fun _ => ⟨hoff, Or.inr (Or.inr h0)⟩, fun _ => exact_of_zero h hoff h0⟩
  by_cases hle : offset ≤ n
  case pos => exact ⟨fun _ => ⟨hoff, Or.inl hle⟩, fun _ => exact_of_le h hn hle h0⟩
  rw [exact_behind_iff (Nat.lt_of_not_le hle) hoff h0]
  constructor
  · exact fun hlen => ⟨hoff, Or.inr (Or.inl hlen)⟩
  · rintro ⟨-, hoff' | hlen | hz⟩
    · exact absurd hoff' hle
    · exact hlen
    · exact absurd hz h0

end Mem

end KernelDrvLearn
