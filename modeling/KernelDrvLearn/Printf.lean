import Mathlib.Algebra.Ring.Nat
import KernelDrvLearn.Memory

/-!
# Formatted text

The conversions of `snprintf` the drivers use, as lists of bytes, and the store
`snprintf` makes of them: the text cut to the size of the buffer less one, with
a zero after it.
-/

namespace KernelDrvLearn

/-- The bytes of an ASCII text: how the sources' string literals appear in a buffer. -/
def ascii (s : String) : List Byte := s.toList.map fun c => BitVec.ofNat 8 c.toNat

/-- The decimal digits of a number, the highest first, without zeros in front. -/
def digits (n : ℕ) : List Byte := (Nat.toDigits 10 n).map fun c => BitVec.ofNat 8 c.toNat

/-- `%d`, `%ld`, `%lld`: a minus if the number is negative, and its digits. -/
def fmtD (i : Int) : List Byte :=
  if i < 0 then ascii "-" ++ digits i.natAbs else digits i.natAbs

/-- `%0wd`: zeros after the sign, up to `w` characters. -/
def fmtZeroD (w : ℕ) (i : Int) : List Byte :=
  let sign := if i < 0 then ascii "-" else []
  let ds := digits i.natAbs
  sign ++ List.replicate (w - sign.length - ds.length) 0x30 ++ ds

/-- `snprintf(p, size, …)` of this text: no more than `size - 1` of its bytes, and a zero
behind them. -/
def snprintf (m : ℕ → Byte) (p size : ℕ) (text : List Byte) : ℕ → Byte :=
  if size = 0 then m else Mem.store m p (text.take (size - 1) ++ [0])

/-! ## No zero in a text

A text that is to be read as a string has to end where the zero is and no sooner, so none
of the conversions may produce a zero byte. -/

theorem zero_notMem_digits (n : ℕ) : 0 ∉ digits n := by
  intro h
  obtain ⟨c, hc, h0⟩ := List.mem_map.mp h
  have hdigit : c.isDigit = true := Nat.isDigit_of_mem_toDigits (by decide) (by decide) hc
  rw [Char.isDigit, Bool.and_eq_true, decide_eq_true_eq, decide_eq_true_eq] at hdigit
  obtain ⟨hlo, hhi⟩ := hdigit
  have hlo' : 48 ≤ c.toNat := UInt32.le_iff_toNat_le.mp hlo
  have hhi' : c.toNat ≤ 57 := UInt32.le_iff_toNat_le.mp hhi
  have hmod : c.toNat % 256 = 0 := by
    simpa using congrArg BitVec.toNat h0
  omega

theorem zero_notMem_fmtD (i : Int) : 0 ∉ fmtD i := by
  rw [fmtD]
  split
  · rw [List.mem_append]
    rintro (h | h)
    · exact absurd h (by decide)
    · exact zero_notMem_digits _ h
  · exact zero_notMem_digits _

theorem zero_notMem_fmtZeroD (w : ℕ) (i : Int) : 0 ∉ fmtZeroD w i := by
  rw [fmtZeroD, List.mem_append, List.mem_append]
  rintro ((h | h) | h)
  · split at h
    · exact absurd h (by decide)
    · exact absurd h List.not_mem_nil
  · exact absurd (List.eq_of_mem_replicate h) (by decide)
  · exact zero_notMem_digits _ h

/-! ## Lengths

Whether a text fits its buffer depends on how many digits a value can have; these are the
bounds the drivers' buffer sizes rest on. -/

/-- A number has no more digits than the power of ten above it has zeros. -/
theorem length_digits_le {n k : ℕ} (hk : 0 < k) (h : n < 10 ^ k) : (digits n).length ≤ k := by
  rw [digits, List.length_map]
  exact (Nat.length_toDigits_le_iff (by decide) hk).mpr h

/-- `%d` of a number below a power of ten in size: its digits, and one more for the sign.
-/
theorem length_fmtD_le {i : Int} {k : ℕ} (hk : 0 < k) (h : i.natAbs < 10 ^ k) :
    (fmtD i).length ≤ k + 1 := by
  have hdigits : (digits i.natAbs).length ≤ k := length_digits_le hk h
  rw [fmtD]
  split
  · rw [List.length_append, Nat.add_comm]
    exact Nat.add_le_add hdigits (by decide : (ascii "-").length ≤ 1)
  · exact Nat.le_succ_of_le hdigits

/-- A sign and ten digits hold any `int`. -/
theorem length_fmtD_toInt (v : BitVec 32) : (fmtD v.toInt).length ≤ 11 := by
  have hlo := BitVec.le_toInt v
  have hhi := BitVec.toInt_lt (x := v)
  exact length_fmtD_le (by decide) (by omega : v.toInt.natAbs < 10 ^ 10)

/-- A sign and 19 digits hold any `long`. -/
theorem length_fmtD_toInt64 (v : BitVec 64) : (fmtD v.toInt).length ≤ 20 := by
  have hlo := BitVec.le_toInt v
  have hhi := BitVec.toInt_lt (x := v)
  exact length_fmtD_le (by decide) (by omega : v.toInt.natAbs < 10 ^ 19)

/-- A number that is not negative and has at most `w` digits fills the width. -/
theorem length_fmtZeroD {i : Int} {w : ℕ} (hw : 0 < w) (hi : 0 ≤ i) (h : i.natAbs < 10 ^ w) :
    (fmtZeroD w i).length = w := by
  have hdigits : (digits i.natAbs).length ≤ w := length_digits_le hw h
  simp only [fmtZeroD, if_neg (Int.not_lt.mpr hi), List.length_append, List.length_nil,
    List.length_replicate]
  omega

/-! ## What `snprintf` stores

The buffer is terminated in every case. If the text fits it is there in full, and
otherwise its beginning is. -/

/-- A text that fits is there in full, with its terminator. -/
theorem load_snprintf {m : ℕ → Byte} {p size : ℕ} {text : List Byte} (h : text.length < size) :
    Mem.load (snprintf m p size text) p text.length = text := by
  have htake : text.take (size - 1) = text := List.take_of_length_le (by omega)
  rw [snprintf, if_neg (by omega), htake]
  exact Mem.load_store_append text [0]

/-- A zero that ends the buffer stays there: what `snprintf` puts there is one. -/
theorem snprintf_last {m : ℕ → Byte} {p size last : ℕ} (text : List Byte)
    (hlast : m (p + last) = 0) (hsize : size ≤ last + 1) :
    snprintf m p size text (p + last) = 0 := by
  by_cases h0 : size = 0
  · simp [snprintf, h0, hlast]
  have hlen : (text.take (size - 1) ++ [(0 : Byte)]).length ≤ last + 1 := by
    rw [List.length_append, List.length_take, List.length_singleton]
    omega
  rw [snprintf, if_neg h0]
  by_cases hin : last < (text.take (size - 1) ++ [(0 : Byte)]).length
  · rw [Mem.store_add hin]
    refine List.getElem_concat_length ?_ _
    rw [List.length_append, List.length_singleton] at hlen hin
    omega
  · rw [Mem.store_of_le (by omega), hlast]

/-- The string `snprintf` leaves in the buffer is the text, cut to what fits before the
terminator. -/
theorem cstr_snprintf {m : ℕ → Byte} {p size n : ℕ} {text : List Byte} (h0 : 0 ∉ text)
    (hsize : 0 < size) (hn : size ≤ n) :
    Mem.cstr (snprintf m p size text) p n = text.take (size - 1) := by
  rw [snprintf, if_neg (Nat.ne_of_gt hsize)]
  refine Mem.cstr_store (fun h => h0 (List.mem_of_mem_take h)) ?_
  have := List.length_take_le (size - 1) text
  omega

end KernelDrvLearn
