import Mathlib.Data.List.Basic
import Mathlib.Logic.Function.Basic

/-!
# Producing into the mapped ring of `myblkdev`

`myblk_produce_data` of `practice/myblkdev/myblkdev.c` appends a string to a
byte ring that lives, with its control page, in memory user space may map
writable. It computes on `u32`s and, where a length is involved, on the 64-bit
`size_t`; all of it is unsigned and wraps. A copy is recorded with the indices
it stores to and reads from, so that one outside the ring is visible as such.

The control words are read as they are found and only the free space computed
from them bounds the copy. So the call is safe for some of their values only:
`myblkProduceData_safe_iff` says for which.
-/

namespace KernelDrvLearn

namespace Myblk

/-! ## Code

The function as it computes, in its own types. Besides the device it leaves it gives the
copies it has made, so that an access outside the area, or outside the argument, can be
seen. -/

/-- `MYBLK_DATA_SIZE`, 16 pages of 4096 bytes. -/
abbrev myblkDataSize : ℕ := 65536

/-- `struct myblk_ring_ctrl`, all of which a process that has it mapped can write. -/
structure MyblkRingCtrl where
  /-- where the producer stores next -/
  head : BitVec 32
  /-- where the consumer reads next -/
  tail : BitVec 32
  /-- the size of the ring -/
  size : BitVec 32
  /-- how many calls could not store all their bytes -/
  overflow : BitVec 32
  deriving DecidableEq

/-- The part of `struct myblkdev` the producer works on. -/
structure Myblkdev where
  /-- `mydev->ctrl`, the control page -/
  ctrl : MyblkRingCtrl
  /-- the memory from `mydev->data` on -/
  data : ℕ → UInt8

/-- A call `memcpy(mydev->data + dst, src + …, n)`. -/
structure Memcpy where
  /-- the index of the first byte stored -/
  dst : ℕ
  /-- the index of the first byte read -/
  src : ℕ
  /-- how many bytes -/
  n : ℕ
  deriving DecidableEq

/-- Its accesses, byte by byte: the index stored to and the index read. -/
def Memcpy.bytes (m : Memcpy) : List (ℕ × ℕ) :=
  (List.range m.n).map fun k => (m.dst + k, m.src + k)

/-- The memory after some of these accesses. -/
def copyBytes (src : ℕ → UInt8) (data : ℕ → UInt8) (bytes : List (ℕ × ℕ)) : ℕ → UInt8 :=
  bytes.foldl (fun data b => Function.update data b.1 (src b.2)) data

/-- The free space between `head` and `tail`, one byte always staying free. -/
def freeSpace (head tail size : BitVec 32) : BitVec 32 :=
  if head ≥ tail then size - (head - tail) - 1 else tail - head - 1

/-- `if (len > free_space) len = free_space`. -/
def clampLen (len : BitVec 64) (freeSpace : BitVec 32) : BitVec 64 :=
  if len > freeSpace.setWidth 64 then freeSpace.setWidth 64 else len

/-- The copy of `len` bytes to `head`, in one piece or split at the end. -/
def copies (head size : BitVec 32) (len : BitVec 64) : List Memcpy :=
  if head.setWidth 64 + len ≤ size.setWidth 64 then [⟨head.toNat, 0, len.toNat⟩]
  else
    let first := size - head
    [⟨head.toNat, 0, first.toNat⟩, ⟨0, first.toNat, (len - first.setWidth 64).toNat⟩]

/-- `(head + len) % size`, stored to a `u32`. -/
def nextHead (head size : BitVec 32) (len : BitVec 64) : BitVec 32 :=
  ((head.setWidth 64 + len) % size.setWidth 64).setWidth 32

/-- What a call does: the device it leaves, its copies, and whether it divided by zero or
woke the readers. -/
structure Produced where
  /-- the device afterwards -/
  dev : Myblkdev
  /-- the copies made -/
  copies : List Memcpy
  /-- did `% size` divide by zero? -/
  modZero : Bool
  /-- were the sleepers on `mydev->wq` woken? -/
  woken : Bool

/-- `myblk_produce_data(mydev, src, len)`; `src` is the memory from `src` on. -/
def myblkProduceData (dev : Myblkdev) (src : ℕ → UInt8) (len : BitVec 64) : Produced :=
  let size := dev.ctrl.size
  let head := dev.ctrl.head
  let free := freeSpace head dev.ctrl.tail size
  let ctrl := if len > free.setWidth 64 then
    { dev.ctrl with overflow := dev.ctrl.overflow + 1 } else dev.ctrl
  let len := clampLen len free
  if len > 0 then
    let cs := copies head size len
    let data := copyBytes src dev.data (cs.flatMap Memcpy.bytes)
    -- on a zero `size` the call ends here
    if size = 0 then ⟨⟨ctrl, data⟩, cs, true, false⟩
    else ⟨⟨{ ctrl with head := nextHead head size len }, data⟩, cs, false, true⟩
  else ⟨⟨ctrl, dev.data⟩, [], false, false⟩

/-- The call divides by no zero, stores inside the data area and reads inside
its argument of length `len`. -/
def Produced.Safe (p : Produced) (len : ℕ) : Prop :=
  p.modZero = false ∧ ∀ m ∈ p.copies, ∀ b ∈ m.bytes, b.1 < myblkDataSize ∧ b.2 < len

/-! ## The arithmetic, without wrapping

With any words in the control page, the unsigned differences may wrap. `room` and the
lemmas say what comes out in every case, as natural numbers, so that the rest of the
argument is about these. -/

/-- The free space as a number: `size - used - 1` modulo `2 ^ 32` when the head
is not before the tail, else the distance to the tail less one. -/
def room (head tail size : ℕ) : ℕ :=
  if tail ≤ head then (size + 4294967296 - (head - tail) - 1) % 4294967296
  else tail - head - 1

theorem freeSpace_toNat (head tail size : BitVec 32) :
    (freeSpace head tail size).toNat = room head.toNat tail.toNat size.toNat := by
  have hh := head.isLt
  have ht := tail.isLt
  have hs := size.isLt
  have hone : (1 : BitVec 32).toNat = 1 := rfl
  simp only [freeSpace, room, ge_iff_le, BitVec.le_def]
  split <;> simp only [BitVec.toNat_sub, hone] <;> omega

theorem clampLen_toNat (len : BitVec 64) (free : BitVec 32) :
    (clampLen len free).toNat = min len.toNat free.toNat := by
  have hf := free.isLt
  simp only [clampLen, gt_iff_lt, BitVec.lt_def]
  split <;> simp only [BitVec.toNat_setWidth] at * <;> omega

/-- The clamped length fits a `u32`. -/
theorem clampLen_lt (len : BitVec 64) (free : BitVec 32) :
    (clampLen len free).toNat < 4294967296 := by
  have hf := free.isLt
  rw [clampLen_toNat]
  omega

/-- A copy that does not cross the end is one piece. -/
theorem copies_of_le {head size : BitVec 32} {len : BitVec 64} (hlen : len.toNat < 4294967296)
    (h : head.toNat + len.toNat ≤ size.toNat) :
    copies head size len = [⟨head.toNat, 0, len.toNat⟩] := by
  have hh := head.isLt
  refine if_pos ?_
  simp only [BitVec.le_def, BitVec.toNat_add, BitVec.toNat_setWidth]
  omega

/-- A copy that crosses the end is split there; `first` is the part before the
end, as a `u32`. -/
theorem copies_of_lt {head size : BitVec 32} {len : BitVec 64} (hlen : len.toNat < 4294967296)
    (h : size.toNat < head.toNat + len.toNat) :
    copies head size len = [⟨head.toNat, 0, (size - head).toNat⟩,
      ⟨0, (size - head).toNat, (len - (size - head).setWidth 64).toNat⟩] := by
  have hh := head.isLt
  have hs := size.isLt
  refine if_neg ?_
  simp only [BitVec.le_def, BitVec.toNat_add, BitVec.toNat_setWidth]
  omega

theorem nextHead_toNat {head size : BitVec 32} {len : BitVec 64} (hlen : len.toNat < 4294967296)
    (hsize : 0 < size.toNat) :
    (nextHead head size len).toNat = (head.toNat + len.toNat) % size.toNat := by
  have hh := head.isLt
  have hs := size.isLt
  have hmod := Nat.mod_lt (head.toNat + len.toNat) hsize
  simp only [nextHead, BitVec.toNat_setWidth, BitVec.toNat_umod, BitVec.toNat_add]
  rw [Nat.mod_eq_of_lt (a := head.toNat) (by omega), Nat.mod_eq_of_lt (a := size.toNat) (by omega),
    Nat.mod_eq_of_lt (a := head.toNat + len.toNat) (by omega), Nat.mod_eq_of_lt (by omega)]

/-! ## Which copies stay in bounds

A copy is one piece or two, and a piece is in bounds if it is empty or its last byte is.
-/

/-- A copy of no bytes is always in bounds, another one if its last byte is. -/
theorem Memcpy.inBounds_iff (m : Memcpy) (len : ℕ) :
    (∀ b ∈ m.bytes, b.1 < myblkDataSize ∧ b.2 < len) ↔
      m.n = 0 ∨ (m.dst + m.n ≤ 65536 ∧ m.src + m.n ≤ len) := by
  simp only [bytes, List.forall_mem_map, List.mem_range, myblkDataSize]
  constructor
  · intro h
    rcases Nat.eq_zero_or_pos m.n with hz | hpos
    · exact Or.inl hz
    · have hlast := h (m.n - 1) (by omega)
      exact Or.inr ⟨by omega, by omega⟩
  · rintro (hz | ⟨hdst, hsrc⟩) k hk
    · omega
    · exact ⟨by omega, by omega⟩

/-- When a copy of `L > 0` bytes to `head` stays in bounds. -/
theorem copies_inBounds_iff {head size : BitVec 32} {len : BitVec 64} {n : ℕ}
    (hlen : len.toNat < 4294967296) (hpos : 0 < len.toNat) (hn : len.toNat ≤ n) :
    (∀ m ∈ copies head size len, ∀ b ∈ m.bytes, b.1 < myblkDataSize ∧ b.2 < n) ↔
      (head.toNat + len.toNat ≤ size.toNat ∧ head.toNat + len.toNat ≤ 65536) ∨
      (head.toNat ≤ size.toNat ∧ size.toNat < head.toNat + len.toNat ∧
        (head.toNat = size.toNat ∨ size.toNat ≤ 65536) ∧
        head.toNat + len.toNat - size.toNat ≤ 65536) := by
  have hh := head.isLt
  have hs := size.isLt
  rcases Nat.lt_or_ge size.toNat (head.toNat + len.toNat) with hcross | hfit
  · rw [copies_of_lt hlen hcross]
    simp only [List.forall_mem_cons, List.not_mem_nil, false_imp_iff, implies_true, and_true,
      Memcpy.inBounds_iff, BitVec.toNat_sub, BitVec.toNat_setWidth]
    omega
  · rw [copies_of_le hlen hfit]
    simp only [List.forall_mem_cons, List.not_mem_nil, false_imp_iff, implies_true, and_true,
      Memcpy.inBounds_iff]
    omega

/-! ## When the call is safe

The driver trusts the control page, and user space may write to it. The condition tells
the words, head, tail and size, and the length, for which a call does no harm; for the
words that `myblkprobe` and the program keep, it is always met. -/

/-- The condition on the control words and the length: with `L` the smaller of
the length and the room, nothing is to be copied; or the copy fits before the
end of the ring and of the data area; or it crosses the end, both parts are
inside the area, and the size is not zero. -/
def MyblkRingCtrl.Accepts (ctrl : MyblkRingCtrl) (len : ℕ) : Prop :=
  let L := min len (room ctrl.head.toNat ctrl.tail.toNat ctrl.size.toNat)
  L = 0 ∨
  (ctrl.head.toNat + L ≤ ctrl.size.toNat ∧ ctrl.head.toNat + L ≤ 65536) ∨
  (0 < ctrl.size.toNat ∧ ctrl.head.toNat ≤ ctrl.size.toNat ∧
    ctrl.size.toNat < ctrl.head.toNat + L ∧
    (ctrl.head.toNat = ctrl.size.toNat ∨ ctrl.size.toNat ≤ 65536) ∧
    ctrl.head.toNat + L - ctrl.size.toNat ≤ 65536)

/-- **When a call is safe**, for all control words and all arguments.

Nothing bounds the copy but the free space, and that is computed from the words as they
are found. So the condition is arithmetic on them: where the copy begins, whether it
crosses the end of the ring, and that with size 0 the new head would be a remainder
modulo 0. -/
theorem myblkProduceData_safe_iff (dev : Myblkdev) (src : ℕ → UInt8) (len : BitVec 64) :
    (myblkProduceData dev src len).Safe len.toNat ↔ dev.ctrl.Accepts len.toNat := by
  have hL := clampLen_toNat len (freeSpace dev.ctrl.head dev.ctrl.tail dev.ctrl.size)
  have hlt := clampLen_lt len (freeSpace dev.ctrl.head dev.ctrl.tail dev.ctrl.size)
  have hzero : dev.ctrl.size = 0 ↔ dev.ctrl.size.toNat = 0 := by
    rw [← BitVec.toNat_inj]
    rfl
  simp only [myblkProduceData, MyblkRingCtrl.Accepts, ← freeSpace_toNat]
  rw [← hL]
  generalize clampLen len (freeSpace dev.ctrl.head dev.ctrl.tail dev.ctrl.size) = L at hL hlt
  by_cases hpos : 0 < L.toNat
  · rw [if_pos (show L > 0 from hpos)]
    have hbounds := @copies_inBounds_iff dev.ctrl.head dev.ctrl.size L len.toNat hlt hpos (by omega)
    by_cases hsize : dev.ctrl.size = 0
    · rw [if_pos hsize]
      have hsize' := hzero.mp hsize
      simp only [Produced.Safe, Bool.true_eq_false, false_and, false_iff]
      omega
    · rw [if_neg hsize]
      have hsize' := mt hzero.mpr hsize
      simp only [Produced.Safe, true_and, hbounds]
      omega
  · rw [if_neg (show ¬ L > 0 from hpos)]
    simp only [Produced.Safe, true_and, List.not_mem_nil, false_imp_iff, implies_true, true_iff]
    exact Or.inl (by omega)

/-- With the words in the range `myblkprobe` and `consume_ring` keep them in,
every call is safe. -/
theorem myblkProduceData_safe {dev : Myblkdev} (hsize : dev.ctrl.size.toNat ≤ 65536)
    (hhead : dev.ctrl.head.toNat < dev.ctrl.size.toNat)
    (htail : dev.ctrl.tail.toNat < dev.ctrl.size.toNat) (src : ℕ → UInt8) (len : BitVec 64) :
    (myblkProduceData dev src len).Safe len.toNat := by
  rw [myblkProduceData_safe_iff]
  simp only [MyblkRingCtrl.Accepts, room]
  split <;> omega

/-- The device as a user can leave it: the control words zeroed. -/
def zeroed : Myblkdev := ⟨⟨0, 0, 0, 0⟩, fun _ => 0⟩

/-- The next sample of the timer, 18 bytes long, divides by zero. -/
theorem zeroed_unsafe : ¬ (myblkProduceData zeroed (fun _ => 0) 18).Safe 18 := by
  intro h
  exact absurd h.1 (by decide)

end Myblk

end KernelDrvLearn
