import KernelDrvLearn.Memory
import Mathlib.Algebra.Ring.Nat
import Mathlib.Data.List.Induction

/-!
# Little-endian numbers and records

Numbers as bytes, the lowest first, and records of one size, one after the other in
memory.

* `leBytes`, `leNat` — a number of `k` bytes there and back (`leNat_leBytes`).
* `bytesOf`, `wordOf` — the same for a `u32` (`wordOf_bytesOf`).
* `load_record` — a record is where it was stored.
-/

namespace KernelDrvLearn

universe u

namespace LittleEndian

/-- The `k` lowest bytes of a number, the lowest first. -/
def leBytes : ℕ → ℕ → List Byte
  | 0, _ => []
  | k + 1, n => BitVec.ofNat 8 n :: leBytes k (n / 256)

/-- The number that the bytes stand for, the lowest first. -/
def leNat : List Byte → ℕ
  | [] => 0
  | b :: l => b.toNat + 256 * leNat l

@[simp] theorem length_leBytes (k n : ℕ) : (leBytes k n).length = k := by
  induction k generalizing n with
  | zero => rfl
  | succ k ih => rw [leBytes, List.length_cons, ih]

theorem leNat_leBytes (k n : ℕ) : leNat (leBytes k n) = n % 256 ^ k := by
  induction k generalizing n with
  | zero =>
    rw [Nat.pow_zero, Nat.mod_one]
    rfl
  | succ k ih =>
    calc leNat (leBytes (k + 1) n)
        = n % 256 + 256 * (n / 256 % 256 ^ k) := by
          rw [leBytes, leNat, ih]
          rfl
      _ = n % 256 ^ (k + 1) := by rw [Nat.pow_succ', Nat.mod_mul]

/-- A number that fits into `k` bytes comes back from them as it was. -/
theorem leNat_leBytes_of_lt {k n : ℕ} (h : n < 256 ^ k) : leNat (leBytes k n) = n := by
  rw [leNat_leBytes, Nat.mod_eq_of_lt h]

/-- The four bytes of a `u32`, as `copy_to_user` of one and a load of it see them. -/
def bytesOf (w : BitVec 32) : List Byte := leBytes 4 w.toNat

/-- The `u32` that four bytes in memory stand for. -/
def wordOf (l : List Byte) : BitVec 32 := BitVec.ofNat 32 (leNat l)

@[simp] theorem length_bytesOf (w : BitVec 32) : (bytesOf w).length = 4 := length_leBytes 4 _

@[simp] theorem wordOf_bytesOf (w : BitVec 32) : wordOf (bytesOf w) = w := by
  rw [wordOf, bytesOf, leNat_leBytes_of_lt w.isLt, BitVec.ofNat_toNat, BitVec.setWidth_eq]

/-! ## Records

A stream of records of one size is the concatenation of their bytes, so where a record
stands follows from how many come before it. -/

variable {α : Type u} {size : ℕ} {encode : α → List Byte}

/-- The bytes of some records: their number times the size of one. -/
theorem length_flatMap_encode (hsize : ∀ x, (encode x).length = size) (l : List α) :
    (l.flatMap encode).length = size * l.length := by
  induction l with
  | nil => rfl
  | cons x l ih =>
    rw [List.flatMap_cons, List.length_append, hsize, ih, List.length_cons, Nat.mul_succ,
      Nat.add_comm]

/-- **A record** is where it was stored: its bytes are loaded from its own place in the
stream. -/
theorem load_record (hsize : ∀ x, (encode x).length = size) (m : ℕ → Byte) (p : ℕ) (l : List α)
    {k : ℕ} (hk : k < l.length) :
    Mem.load (Mem.store m p (l.flatMap encode)) (p + size * k) size = encode l[k] := by
  induction l generalizing m p k with
  | nil => exact absurd hk (Nat.not_lt_zero k)
  | cons x l ih =>
    rw [List.flatMap_cons, Mem.store_append, hsize]
    cases k with
    | zero =>
      have hlow : Mem.load (Mem.store (Mem.store m p (encode x)) (p + size) (l.flatMap encode)) p
          size = Mem.load (Mem.store m p (encode x)) p size :=
        Mem.load_congr fun i hi => Mem.store_of_lt (Nat.add_lt_add_left hi p)
      rw [Nat.mul_zero, Nat.add_zero, hlow, Mem.load_store_of_length (hsize x)]
      rfl
    | succ k =>
      have hplace : p + size * (k + 1) = p + size + size * k := by
        rw [Nat.mul_succ, Nat.add_assoc, Nat.add_comm size]
      rw [hplace, ih _ _ (Nat.lt_of_succ_lt_succ hk)]
      rfl

/-- Records stored one by one, each behind the ones before. -/
theorem foldl_store (hsize : ∀ x, (encode x).length = size) (m : ℕ → Byte) (p : ℕ) (l : List α) :
    (l.mapIdx fun k x => (p + size * k, x)).foldl (fun m w => Mem.store m w.1 (encode w.2)) m =
      Mem.store m p (l.flatMap encode) := by
  induction l using List.reverseRecOn with
  | nil => exact Mem.store_nil.symm
  | append_singleton l x ih =>
    rw [List.mapIdx_append, List.foldl_append, ih, List.flatMap_append, Mem.store_append,
      length_flatMap_encode hsize]
    simp

end LittleEndian

end KernelDrvLearn
