import Mathlib.Data.Nat.Notation
import Mathlib.Logic.Function.Basic

/-!
# Blocks that are allocated and freed

A driver's objects, each allocated at most once and freed through a pointer that
is null until then. A block counts how often it was freed, so a use after the
free and a second free are things that can be stated: `Block.Live` is what a use
needs, `Freed` what a clean-up keeps, object by object.
-/

namespace KernelDrvLearn

universe u

/-- A block of memory behind a pointer, with what a clean-up can get wrong about it:
whether it was there, and how often it was freed. -/
structure Block where
  /-- is the pointer not null? -/
  allocated : Bool
  /-- how often the block was freed -/
  frees : ℕ

namespace Block

/-- Nothing is allocated. -/
def null : Block := ⟨false, 0⟩

/-- The block can be used: it was allocated, and no free has come since. -/
def Live (b : Block) : Prop := b.allocated = true ∧ b.frees = 0

/-- `kfree`, which does nothing with a null pointer. A free of a block that is free
already is counted too. -/
def free (b : Block) : Block := if b.allocated = true then { b with frees := b.frees + 1 } else b

@[simp] theorem free_allocated (b : Block) : b.free.allocated = b.allocated := by
  rw [free]
  split <;> rfl

end Block

variable {ι : Type u}

/-- Of the blocks, those of which `released` is true were freed, once each. A null pointer
may be released as well, which frees nothing. -/
def Freed (heap : ι → Block) (released : ι → Bool) : Prop :=
  ∀ o, (heap o).frees = if released o = true ∧ (heap o).allocated = true then 1 else 0

variable {heap : ι → Block} {released : ι → Bool} {o : ι}

namespace Freed

theorem null (released : ι → Bool) : Freed (fun _ => .null) released :=
  fun _ => (if_neg fun h => Bool.false_ne_true h.2).symm

theorem frees_le (h : Freed heap released) (o : ι) : (heap o).frees ≤ 1 := by
  rw [h o]
  split
  · exact Nat.le_refl _
  · exact Nat.zero_le _

theorem frees_eq_zero (h : Freed heap released) (ho : released o = false) :
    (heap o).frees = 0 := by
  rw [h o, if_neg]
  rintro ⟨hr, -⟩
  rw [ho] at hr
  cases hr

/-- What is allocated is live until it is released. -/
theorem live (h : Freed heap released) (ho : released o = false)
    (halloc : (heap o).allocated = true) : (heap o).Live :=
  ⟨halloc, h.frees_eq_zero ho⟩

theorem not_live (h : Freed heap released) (ho : released o = true) : ¬ (heap o).Live := by
  rintro ⟨halloc, hfrees⟩
  rw [h o, if_pos ⟨ho, halloc⟩] at hfrees
  cases hfrees

variable [DecidableEq ι]

/-- **Allocate.** A block not released yet may be allocated. -/
theorem alloc (h : Freed heap released) (ho : released o = false) :
    Freed (Function.update heap o ⟨true, 0⟩) released := by
  refine (Function.forall_update_iff heap fun o (b : Block) =>
    b.frees = if released o = true ∧ b.allocated = true then 1 else 0).mpr ⟨?_, fun o' _ => h o'⟩
  rw [ho]
  rfl

/-- **Free.** Freeing a block that was not released yet releases it, and no block is freed
twice. -/
theorem free (h : Freed heap released) (ho : released o = false) :
    Freed (Function.update heap o (heap o).free) (Function.update released o true) := by
  intro o'
  by_cases heq : o' = o
  · subst heq
    rw [Function.update_self, Function.update_self, Block.free]
    split
    case isTrue halloc => rw [if_pos ⟨rfl, halloc⟩, h.frees_eq_zero ho]
    case isFalse hnull => rw [if_neg fun hr => hnull hr.2, h.frees_eq_zero ho]
  · rw [Function.update_of_ne heq, Function.update_of_ne heq]
    exact h o'

end Freed

end KernelDrvLearn
