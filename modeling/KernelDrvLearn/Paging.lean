import KernelDrvLearn.Memory

/-!
# Paged memory

Memory of `α`s behind page tables. A table sends a page to the frame that holds it,
an access goes to the frame, and an access to a page without one faults.

* `Maps` — a table shows some frames, in order, from a page on.
* `view` — the frames, in order, as flat memory.
* `Maps.loads_eq`, `Maps.stores_eq` — whichever table an access goes through, what it
  does is an access to the view. So two tables that show the same frames share memory.
-/

namespace KernelDrvLearn

universe u

namespace Paging

/-- The frame that holds a page, if the page is mapped. -/
abbrev Table := ℕ → Option ℕ

variable {α : Type u} (size : ℕ) (t : Table)

/-- The physical address, with pages of this size. -/
def translate (a : ℕ) : Option ℕ := (t (a / size)).map fun frame => frame * size + a % size

/-- A load of one `α`, through a table. -/
def load (phys : ℕ → α) (a : ℕ) : Option α := (translate size t a).map phys

/-- A store of one `α`, through a table; it faults where a load would. -/
def store (phys : ℕ → α) (a : ℕ) (x : α) : Option (ℕ → α) :=
  (translate size t a).map fun p => Function.update phys p x

/-- Loads of `n` in a row from `a` on, each through the table on its own. -/
def loads (phys : ℕ → α) : ℕ → ℕ → Option (List α)
  | _, 0 => some []
  | a, n + 1 => (load size t phys a).bind fun x => (loads phys (a + 1) n).map (x :: ·)

/-- Stores in a row from `a` on, each through the table on its own. -/
def stores : (ℕ → α) → ℕ → List α → Option (ℕ → α)
  | phys, _, [] => some phys
  | phys, a, x :: l => (store size t phys a x).bind fun phys => stores phys (a + 1) l

/-- Where the `i`th place of the frames is. -/
def place (frames : ℕ → ℕ) (i : ℕ) : ℕ := frames (i / size) * size + i % size

/-- The frames, one after the other, as if they were adjacent. -/
def view (frames : ℕ → ℕ) (phys : ℕ → α) (i : ℕ) : α := phys (place size frames i)

/-- The table shows the first `n` of the frames from page `v` on. -/
def Maps (v n : ℕ) (frames : ℕ → ℕ) : Prop := ∀ k < n, t (v + k) = some (frames k)

/-- The first `n` frames are all different. -/
def Distinct (n : ℕ) (frames : ℕ → ℕ) : Prop :=
  ∀ j < n, ∀ k < n, frames j = frames k → j = k

variable {size t}

theorem div_lt_of_lt {i n : ℕ} (h : i < n * size) : i / size < n :=
  Nat.div_lt_of_lt_mul (by rwa [Nat.mul_comm])

/-- A place is in its own frame, at its offset in the page. -/
theorem place_div (frames : ℕ → ℕ) (hsize : 0 < size) (i : ℕ) :
    place size frames i / size = frames (i / size) := by
  rw [place, Nat.add_comm, Nat.add_mul_div_right _ _ hsize, Nat.div_eq_of_lt (Nat.mod_lt i hsize),
    Nat.zero_add]

/-- A page of the window goes to its own frame. -/
theorem Maps.translate_eq {v n i : ℕ} {frames : ℕ → ℕ} (h : Maps t v n frames) (hsize : 0 < size)
    (hi : i < n * size) : translate size t (v * size + i) = some (place size frames i) := by
  have hdiv : (v * size + i) / size = v + i / size := by
    rw [Nat.add_comm, Nat.add_mul_div_right _ _ hsize, Nat.add_comm]
  have hmod : (v * size + i) % size = i % size := by
    rw [Nat.add_comm, Nat.add_mul_mod_self_right]
  rw [translate, hdiv, h _ (div_lt_of_lt hi), hmod]
  rfl

/-- A window shows the first of its frames as well. -/
theorem Maps.mono {v n m : ℕ} {frames : ℕ → ℕ} (h : Maps t v n frames) (hm : m ≤ n) :
    Maps t v m frames := fun k hk => h k (Nat.lt_of_lt_of_le hk hm)

/-- Different places of different frames are different. -/
theorem Distinct.place_inj {n i j : ℕ} {frames : ℕ → ℕ} (h : Distinct n frames) (hsize : 0 < size)
    (hi : i < n * size) (hj : j < n * size) (heq : place size frames i = place size frames j) :
    i = j := by
  have hmod (k : ℕ) : place size frames k % size = k % size := by
    rw [place, Nat.mul_comm, Nat.mul_add_mod, Nat.mod_mod]
  have hframe : frames (i / size) = frames (j / size) := by
    rw [← place_div frames hsize, heq, place_div frames hsize]
  have hpage : i / size = j / size := h _ (div_lt_of_lt hi) _ (div_lt_of_lt hj) hframe
  have hoff : i % size = j % size := by rw [← hmod, heq, hmod]
  rw [← Nat.div_add_mod i size, hpage, hoff, Nat.div_add_mod]

/-- **Loads** through a table that shows the frames read the view, wherever the frames lie
in memory. -/
theorem Maps.loads_eq {v n : ℕ} {frames : ℕ → ℕ} (h : Maps t v n frames) (hsize : 0 < size)
    (phys : ℕ → α) {i k : ℕ} (hi : i + k ≤ n * size) :
    loads size t phys (v * size + i) k = some (Mem.load (view size frames phys) i k) := by
  induction k generalizing i with
  | zero => rfl
  | succ k ih =>
    have hload : load size t phys (v * size + i) = some (view size frames phys i) := by
      rw [load, h.translate_eq hsize (by omega)]
      rfl
    have hrest := ih (i := i + 1) (by omega)
    rw [← Nat.add_assoc] at hrest
    rw [loads, hload, Option.bind_some, hrest, Mem.load_succ]
    rfl

/-- A store changes one place of the view. -/
theorem view_update {n : ℕ} {frames : ℕ → ℕ} (hdistinct : Distinct n frames) (hsize : 0 < size)
    (phys : ℕ → α) {i j : ℕ} (hi : i < n * size) (hj : j < n * size) (x : α) :
    view size frames (Function.update phys (place size frames i) x) j =
      Function.update (view size frames phys) i x j := by
  by_cases hji : j = i
  · subst hji
    simp [view]
  · have hne : place size frames j ≠ place size frames i := fun heq =>
      hji (hdistinct.place_inj hsize hj hi heq)
    simp [view, hne, hji]

/-- A store leaves alike what was alike. -/
theorem store_congr {m m' : ℕ → α} {p j : ℕ} (l : List α) (h : m j = m' j) :
    Mem.store m p l j = Mem.store m' p l j := by
  simp only [Mem.store]
  split
  · exact h
  · rw [h]

/-- **Stores** write the view, and nothing but the frames. -/
theorem Maps.stores_eq {v n : ℕ} {frames : ℕ → ℕ} (h : Maps t v n frames)
    (hdistinct : Distinct n frames) (hsize : 0 < size) (phys : ℕ → α) {i : ℕ} {l : List α}
    (hi : i + l.length ≤ n * size) :
    ∃ phys', stores size t phys (v * size + i) l = some phys' ∧
      (∀ j < n * size, view size frames phys' j = Mem.store (view size frames phys) i l j) ∧
      ∀ p, (∀ k < n, p / size ≠ frames k) → phys' p = phys p := by
  induction l generalizing i phys with
  | nil => exact ⟨phys, rfl, fun j _ => by rw [Mem.store_nil], fun _ _ => rfl⟩
  | cons x l ih =>
    rw [List.length_cons] at hi
    have hlt : i < n * size := by omega
    have hstore : store size t phys (v * size + i) x =
        some (Function.update phys (place size frames i) x) := by
      rw [store, h.translate_eq hsize hlt]
      rfl
    obtain ⟨phys', hstores, hview, hframe⟩ :=
      ih (Function.update phys (place size frames i) x) (i := i + 1) (by omega)
    refine ⟨phys', ?_, fun j hj => ?_, fun p hp => ?_⟩
    · rw [stores, hstore, Option.bind_some, Nat.add_assoc]
      exact hstores
    · rw [hview j hj, Mem.store_cons]
      exact store_congr l (view_update hdistinct hsize phys hlt hj x)
    · have hne : p ≠ place size frames i := by
        rintro rfl
        exact hp _ (div_lt_of_lt hlt) (place_div frames hsize i)
      rw [hframe p hp, Function.update_of_ne hne]

end Paging

end KernelDrvLearn
