import Mathlib.Data.Int.Order.Basic

/-!
# The C types `int` and `size_t`

Kernel code is built with `-fno-strict-overflow`, so `int` arithmetic wraps in
two's complement. An `int` is an `Int`, and each arithmetic result is passed
through `wrap32`; the C operator `%` truncates, so it is `Int.tmod`.
-/

namespace KernelDrvLearn

/-- The 32-bit two's complement value of an exact integer. -/
def wrap32 (x : Int) : Int := (x + 2147483648) % 4294967296 - 2147483648

/-- `INT_MAX` of a 32-bit `int`. -/
abbrev intMax : Int := 2147483647

/-- In the range of `int` nothing wraps: the value is exact. -/
theorem wrap32_of_range {x : Int} (hlo : -2147483648 ≤ x) (hhi : x ≤ intMax) :
    wrap32 x = x := by
  have hhi' : x ≤ 2147483647 := hhi
  rw [wrap32, Int.emod_eq_of_lt (by omega) (by omega)]
  omega

@[simp] theorem wrap32_zero : wrap32 0 = 0 := rfl

/-- Wrapping after every increment is wrapping the exact count once. -/
theorem wrap32_wrap32_add (x y : Int) : wrap32 (wrap32 x + y) = wrap32 (x + y) := by
  simp only [wrap32]
  omega

/-- One step of an index around an array of `n` cells, as C computes
`(i + 1) % n` on `int`s. -/
theorem tmod_wrap32_succ {i n : ℕ} (hi : i < n) (hn : (n : Int) ≤ intMax) :
    (wrap32 ((i : Int) + 1)).tmod n = ((i + 1) % n : ℕ) := by
  have hn' : (n : Int) ≤ 2147483647 := hn
  rw [wrap32_of_range (by omega) (by omega),
    Int.tmod_eq_emod_of_nonneg (by omega), Int.natCast_emod]
  rfl

/-- The value of an `int` converted to the 64-bit `unsigned long`. -/
def toUlong (x : Int) : ℕ := (x % 18446744073709551616).toNat

theorem toUlong_natCast {n : ℕ} (hn : (n : Int) ≤ intMax) : toUlong n = n := by
  have hn' : (n : Int) ≤ 2147483647 := hn
  rw [toUlong, Int.emod_eq_of_lt (by omega) (by omega)]
  exact Int.toNat_natCast n

/-- Stored in 32 bits, two numbers are the same if and only if they are so modulo
2³². -/
theorem ofInt_eq_iff {i j : Int} :
    BitVec.ofInt 32 i = BitVec.ofInt 32 j ↔ i % 4294967296 = j % 4294967296 := by
  constructor
  · intro h
    have hnat := congrArg BitVec.toNat h
    rw [BitVec.toNat_ofInt, BitVec.toNat_ofInt] at hnat
    omega
  · intro h
    refine BitVec.eq_of_toNat_eq ?_
    rw [BitVec.toNat_ofInt, BitVec.toNat_ofInt]
    exact congrArg Int.toNat h

/-- Wrapping does not change what is stored. -/
theorem ofInt_wrap32 (x : Int) : BitVec.ofInt 32 (wrap32 x) = BitVec.ofInt 32 x := by
  rw [ofInt_eq_iff, wrap32]
  omega

end KernelDrvLearn
