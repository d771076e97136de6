import KernelDrvLearn.CInt
import KernelDrvLearn.KernelApi
import KernelDrvLearn.Printf
import KernelDrvLearn.Readout
import KernelDrvLearn.Transition

/-!
# The buffer of `mycdev`

`mycdev_read` and `mycdev_write` of `chardev/rdwr/charrw.c`. A write puts its
bytes over the beginning of `kernel_buffer` and keeps neither their number nor a
terminator; a read takes the `strlen` of the buffer.

What has been written is read back, and `strlen` stays in the buffer, if and
only if there is a zero just behind it already (`charrw_iff`): a shorter text
is read with the tail of the longer one before it, and one of 1024 bytes fills
the buffer up, so that `strlen` runs out of it. Behind the buffer anything may
stand.
-/

namespace KernelDrvLearn

namespace Charrw

/-- `mem_size`, the size of `kernel_buffer`. -/
abbrev memSize : ℕ := 1024

/-- What `mycdev_read` leaves: the bytes copied, the offset and the value. -/
structure ReadResult where
  /-- the bytes put into the user's buffer -/
  out : List Byte
  /-- `*offset` -/
  offset : Int
  /-- the value returned -/
  ret : Int

/-- `mycdev_read`; `copy_to_user` leaves `uncopied` bytes. `none`: no zero within
`fuel` bytes. -/
def mycdevRead (kernelBuffer : ℕ → Byte) (len : ℕ) (offset : Int) (uncopied fuel : ℕ) :
    Option ReadResult :=
  (Mem.strlen kernelBuffer 0 fuel).map fun length =>
    if offset ≠ 0 ∨ length = 0 then ⟨[], 0, 0⟩
    else
      let bufferSize := wrap32 (min len length : ℕ)
      let n := toUlong bufferSize
      if min uncopied n ≠ 0 then ⟨Mem.load kernelBuffer 0 (n - uncopied), offset, efault⟩
      else ⟨Mem.load kernelBuffer 0 n, offset + bufferSize, bufferSize⟩

/-- `mycdev_write`: `kernel_buffer`, and the value returned. -/
def mycdevWrite (kernelBuffer user : ℕ → Byte) (buf len uncopied : ℕ) (rest : ℕ → Byte) :
    (ℕ → Byte) × Int :=
  let bufferSize := min len memSize
  (Mem.store kernelBuffer 0 (copyFromUser user buf bufferSize uncopied rest),
    if min uncopied bufferSize ≠ 0 then efault else bufferSize)

/-- A call of `mycdev_write`, with the count and what the process has at its buffer. -/
structure Write where
  /-- the memory of the user -/
  user : ℕ → Byte
  /-- `buf` -/
  buf : ℕ
  /-- `len` -/
  len : ℕ
  /-- what `copy_from_user` leaves -/
  uncopied : ℕ
  /-- what stands where the copy stops -/
  rest : ℕ → Byte

/-- The bytes to be written. -/
def Write.bytes (w : Write) : List Byte := Mem.load w.user w.buf w.len

/-- What a write does to the buffer. -/
def Write.call (kernelBuffer : ℕ → Byte) (w : Write) : (ℕ → Byte) × Int :=
  mycdevWrite kernelBuffer w.user w.buf w.len w.uncopied w.rest

/-- The module, from `mycdev_init` on; `behind` is what stands behind the buffer. -/
def charrw (behind : ℕ → Byte) : Lts (ℕ → Byte) Write where
  init := Mem.store (Mem.store behind 0 (List.replicate memSize 0)) 0 (ascii "Hello world" ++ [0])
  step := fun kernelBuffer w => some (w.call kernelBuffer).1

/-- The write succeeds: all of it was copied. -/
def Succeeds (kernelBuffer : ℕ → Byte) (w : Write) : Prop := (w.call kernelBuffer).2 ≠ efault

instance (kernelBuffer : ℕ → Byte) (w : Write) : Decidable (Succeeds kernelBuffer w) :=
  inferInstanceAs (Decidable (_ ≠ _))

/-- A freshly opened file, read with room for the whole buffer, has these bytes. -/
def Delivers (kernelBuffer : ℕ → Byte) (l : List Byte) : Prop :=
  ∀ len, memSize ≤ len → ∃ fuel offset,
    mycdevRead kernelBuffer len 0 0 fuel = some ⟨l, offset, l.length⟩

/-- `strlen` looks at no byte outside of the buffer. -/
def Inside (kernelBuffer : ℕ → Byte) : Prop :=
  ∀ fuel, ∀ i ∈ Mem.scan kernelBuffer 0 fuel, i < memSize

/-- `strlen` stays in the buffer, and bytes without a zero are read back, up to
the size of the buffer. -/
def ReadsBack (w : Write) (kernelBuffer : ℕ → Byte) : Prop :=
  Inside kernelBuffer ∧ (0 ∉ w.bytes → Delivers kernelBuffer (w.bytes.take memSize))

/-- Bytes without a zero are fewer than 1024, and there is a zero just behind
them; others have a zero among those stored. -/
def Ends (kernelBuffer : ℕ → Byte) (w : Write) : Prop :=
  if 0 ∈ w.bytes then 0 ∈ w.bytes.take memSize
  else w.len < memSize ∧ kernelBuffer w.len = 0

instance (kernelBuffer : ℕ → Byte) (w : Write) : Decidable (Ends kernelBuffer w) :=
  inferInstanceAs (Decidable (ite _ _ _))

variable {kernelBuffer behind : ℕ → Byte} {w : Write} {l : List Byte}

/-! ## Reading

A read at offset 0 takes the `strlen` of the buffer and copies so many bytes from its
start; at any other offset there is nothing to read. It delivers the string of the buffer,
if one ends in it. -/

theorem mycdevRead_eq {n len fuel : ℕ} (h : Mem.strlen kernelBuffer 0 fuel = some n)
    (hn : n < memSize) (hlen : memSize ≤ len) :
    mycdevRead kernelBuffer len 0 0 fuel = some ⟨Mem.load kernelBuffer 0 n, n, n⟩ := by
  have hmin : min len n = n := Nat.min_eq_right (Nat.le_trans (Nat.le_of_lt hn) hlen)
  have hint : (n : Int) ≤ intMax :=
    Int.le_trans (Int.ofNat_le.mpr (Nat.le_of_lt hn)) (by decide)
  have hwrap : wrap32 n = n := wrap32_of_range (by omega) hint
  by_cases h0 : n = 0
  · simp [mycdevRead, h, h0]
  · have hmore : ¬ ((0 : Int) ≠ 0 ∨ n = 0) := by simp [h0]
    simp only [mycdevRead, h, Option.map_some, if_neg hmore, hmin, hwrap, toUlong_natCast hint]
    simp

/-- The buffer delivers its string, when that ends in it. -/
theorem delivers_iff {n : ℕ} (hn : n < memSize) (hends : Mem.EndsAt kernelBuffer n) :
    Delivers kernelBuffer l ↔ l = Mem.load kernelBuffer 0 n := by
  constructor
  · intro h
    obtain ⟨fuel, offset, hread⟩ := h memSize (Nat.le_refl _)
    obtain ⟨k, hk, -⟩ := Option.map_eq_some_iff.mp hread
    obtain rfl := hends.unique (Mem.endsAt_of_strlen hk)
    rw [mycdevRead_eq hk hn (Nat.le_refl _)] at hread
    exact (congrArg ReadResult.out (Option.some.inj hread)).symm
  · rintro rfl len hlen
    have hstrlen := hends.strlen_eq (Nat.zero_le n) (Nat.lt_succ_self n)
    exact ⟨n + 1, n, by rw [mycdevRead_eq hstrlen hn hlen, Mem.load_length]; rfl⟩

/-! ## Writing

What a write has to do with strings: it stores bytes at the front and leaves the rest. The
string of the buffer is then the text that was written if the byte behind it is a zero,
whoever has put it there. -/

/-- A write that succeeds has stored its bytes, up to the size of the buffer. -/
theorem call_eq (h : Succeeds kernelBuffer w) :
    (w.call kernelBuffer).1 = Mem.store kernelBuffer 0 (w.bytes.take memSize) := by
  have hload : w.bytes.take memSize = Mem.load w.user w.buf (min w.len memSize) := by
    rcases Nat.le_total w.len memSize with hle | hle
    · rw [Nat.min_eq_left hle, Write.bytes, List.take_of_length_le (by rwa [Mem.load_length])]
    · rw [Nat.min_eq_right hle, Write.bytes, Mem.load_take hle]
  have hzero : min w.uncopied (min w.len memSize) = 0 := by
    by_contra hne
    exact h (if_pos hne)
  rw [hload, Write.call, mycdevWrite, copyFromUser_of_min hzero]

/-- The buffer with bytes stored that are not all zero-free has a zero. -/
theorem exists_zero_iff {m : ℕ → Byte} (hlen : l.length ≤ memSize) :
    (∃ i < memSize, Mem.store m 0 l i = 0) ↔
      0 ∈ l ∨ ∃ i, l.length ≤ i ∧ i < memSize ∧ m i = 0 := by
  have hin : ∀ i (hi : i < l.length), Mem.store m 0 l i = l[i] := by
    intro i hi
    have hcell := Mem.store_add (m := m) (p := 0) hi
    rwa [Nat.zero_add] at hcell
  have hout : ∀ i, l.length ≤ i → Mem.store m 0 l i = m i := by
    intro i hi
    exact Mem.store_of_le (by rwa [Nat.zero_add])
  constructor
  · rintro ⟨i, hi, hz⟩
    rcases Nat.lt_or_ge i l.length with hlt | hge
    · rw [hin i hlt] at hz
      exact Or.inl (hz ▸ List.getElem_mem hlt)
    · rw [hout i hge] at hz
      exact Or.inr ⟨i, hge, hi, hz⟩
  · rintro (hmem | ⟨i, hge, hi, hz⟩)
    · obtain ⟨i, hi, hz⟩ := List.getElem_of_mem hmem
      exact ⟨i, Nat.lt_of_lt_of_le hi hlen, (hin i hi).trans hz⟩
    · exact ⟨i, hi, (hout i hge).trans hz⟩

/-- A zero-free text is the string of the buffer, and is delivered, if and only if
it is followed by a zero in the buffer. -/
theorem delivers_store_iff (h0 : 0 ∉ l) :
    ((∃ i < memSize, Mem.store kernelBuffer 0 l i = 0) ∧
      Delivers (Mem.store kernelBuffer 0 l) l) ↔
        l.length < memSize ∧ kernelBuffer l.length = 0 := by
  have hbehind : Mem.store kernelBuffer 0 l l.length = kernelBuffer l.length :=
    Mem.store_of_le (by rw [Nat.zero_add])
  constructor
  · rintro ⟨⟨i, hi, hz⟩, hdel⟩
    obtain ⟨n, hn, hends⟩ := Mem.exists_endsAt hz
    have hn' := Nat.lt_of_le_of_lt hn hi
    have hlen := congrArg List.length ((delivers_iff hn' hends).mp hdel)
    rw [Mem.load_length] at hlen
    rw [← hbehind, hlen]
    exact ⟨hn', hends.zero⟩
  · rintro ⟨hlt, hz⟩
    have hends : Mem.EndsAt (Mem.store kernelBuffer 0 l) l.length := by
      rw [← Mem.store_concat_zero (by rwa [Nat.zero_add])]
      exact Mem.endsAt_store h0
    exact ⟨⟨l.length, hlt, hends.zero⟩, (delivers_iff hlt hends).mpr Mem.load_store.symm⟩

/-- **Step lemma.** A write is read back, in whatever state it finds the buffer, if and
only if its text ends. -/
theorem readsBack_iff (h : Succeeds kernelBuffer w) :
    ReadsBack w (w.call kernelBuffer).1 ↔ Ends kernelBuffer w := by
  have hlen : w.bytes.length = w.len := Mem.load_length
  rw [ReadsBack, Inside, Mem.scan_lt_iff, call_eq h, Ends]
  split
  case isTrue h0 =>
    rw [and_iff_left fun h => absurd h0 h, exists_zero_iff (List.length_take_le _ _)]
    refine or_iff_left_of_imp ?_
    -- shorter than the buffer, they are stored whole
    rintro ⟨i, hle, hi, -⟩
    rw [List.length_take, hlen] at hle
    rwa [List.take_of_length_le (by omega)]
  case isFalse h0 =>
    have h0' : 0 ∉ w.bytes.take memSize := fun h => h0 (List.mem_of_mem_take h)
    rw [forall_prop_of_true h0, delivers_store_iff h0', List.length_take, hlen]
    constructor
    · rintro ⟨hlt, hz⟩
      have hmin : min memSize w.len = w.len := by omega
      rw [hmin] at hlt hz
      exact ⟨hlt, hz⟩
    · rintro ⟨hlt, hz⟩
      rw [Nat.min_eq_right (Nat.le_of_lt hlt)]
      exact ⟨hlt, hz⟩

/-! ## Runs

The condition is on each write and on the buffer that it finds, so along a run the two go
together step by step. -/

/-- Before the first write `strlen` stays in the buffer. -/
theorem init_inside (behind : ℕ → Byte) : Inside (charrw behind).init := by
  have hlen : 11 < (ascii "Hello world" ++ [(0 : Byte)]).length := by decide
  refine Mem.scan_lt_iff.mpr ⟨0 + 11, by decide, ?_⟩
  simp only [charrw, Mem.store_add hlen]
  rfl

/-- **Writes, exactly.** In every sequence of successful writes, the `strlen` of
the reads in between never looks outside of the buffer, and every zero-free text
is read back as far as it fits, if and only if each zero-free text is shorter
than the buffer and finds a zero just behind it, and each other one has a zero
among the bytes stored. -/
theorem charrw_iff {ws : List Write} (hok : (charrw behind).Run Succeeds ws) :
    (Inside (charrw behind).init ∧
      (charrw behind).Along (fun _ w kernelBuffer => ReadsBack w kernelBuffer)
        (charrw behind).init ws) ↔
      (charrw behind).Along (fun kernelBuffer w _ => Ends kernelBuffer w)
        (charrw behind).init ws := by
  rw [and_iff_right (init_inside behind)]
  refine Lts.along_iff (fun _ => True) ?_ ?_ trivial hok
  · intro kernelBuffer w kernelBuffer' _ hw hs
    obtain rfl := Option.some.inj hs
    exact readsBack_iff hw
  · exact fun _ _ _ _ _ _ _ => trivial

/-- The write of a text, with its length as the count. -/
def writeText (s : String) : Write :=
  ⟨Mem.store (fun _ => 0) 0 (ascii s), 0, s.length, 0, fun _ => 0⟩

/-- A write of `n` times the letter `a`. -/
def fill (n : ℕ) : Write := ⟨fun _ => 0x61, 0, n, 0, fun _ => 0⟩

theorem charrw_iff_longer :
    let ws := [writeText "Hello, world", writeText "Hello, worlds"]
    (charrw fun _ => 1).Along (fun _ w kernelBuffer => ReadsBack w kernelBuffer)
      (charrw fun _ => 1).init ws := by
  have hok : (charrw fun _ => 1).Run Succeeds
      [writeText "Hello, world", writeText "Hello, worlds"] := by decide +kernel
  exact ((charrw_iff hok).mpr (by decide +kernel)).2

/-- Over `"Hello world"`, `"hi"` is read as `"hillo world"`; and with 1024 bytes
written, `strlen` runs out of the buffer. -/
theorem short_write_shows_tail :
    let kernelBuffer := (charrw fun _ => 1).init
    Succeeds kernelBuffer (writeText "hi") ∧
      Delivers ((writeText "hi").call kernelBuffer).1 (ascii "hillo world") ∧
      ¬ Delivers ((writeText "hi").call kernelBuffer).1 (ascii "hi") ∧
      Succeeds kernelBuffer (fill memSize) ∧ ¬ Inside ((fill memSize).call kernelBuffer).1 := by
  have hlength : Mem.strlen ((writeText "hi").call (charrw fun _ => 1).init).1 0 12 = some 11 := by
    decide +kernel
  have hends := Mem.endsAt_of_strlen hlength
  have hfill : Succeeds (charrw fun _ => 1).init (fill memSize) := by decide +kernel
  refine ⟨by decide +kernel, ?_, ?_, hfill, ?_⟩
  · rw [delivers_iff (by decide) hends]
    decide +kernel
  · rw [delivers_iff (by decide) hends]
    decide +kernel
  · have hbytes : (fill memSize).bytes.take memSize = List.replicate memSize 0x61 := by
      decide +kernel
    rw [Inside, Mem.scan_lt_iff, call_eq hfill, hbytes, exists_zero_iff (by simp)]
    rintro (hmem | ⟨i, hle, hlt, -⟩)
    · exact absurd (List.eq_of_mem_replicate hmem) (by decide)
    · rw [List.length_replicate] at hle
      exact absurd hlt (Nat.not_lt.mpr hle)

end Charrw

end KernelDrvLearn
