import KernelDrvLearn.BlkStream
import KernelDrvLearn.KernelApi
import KernelDrvLearn.LittleEndian
import KernelDrvLearn.Paging

/-!
# The mapping of `myblkdev`

`myblkmmap` of `practice/myblkdev/myblkdev.c` shows the pages of the `vzalloc`ed area,
which lie anywhere in physical memory, to a process, one by one. The driver reaches
them at `map_area` by the table of the kernel, and the process at `vm_start` by its
own.

* `myblkmmap_spec` — what is accepted, and what the process then sees: the bytes of the
  area and nothing else.
* `mapped_stream` — the producer behind the one table and the consumer behind the other
  run as the ring of `BlkStream` does, step by step. So the stream survives.
-/

namespace KernelDrvLearn

namespace Myblk

open LittleEndian Paging

/-! ## Mapping

`myblkmmap` maps one page after another. `vmalloc` memory is contiguous only by the table
of the kernel, so each page has to be looked up on its own; what a process sees at a page
is whatever frame the loop has found for it. -/

/-- `PAGE_SIZE`, 4096 bytes on the architectures the driver is built for. -/
abbrev pageSize : ℕ := 4096

/-- `MYBLK_CTRL_SIZE`, the page in front of the data. -/
abbrev myblkCtrlSize : ℕ := pageSize

/-- `MYBLK_MAP_SIZE`, the size of the whole area: 17 pages. -/
abbrev myblkMapSize : ℕ := myblkCtrlSize + myblkDataSize

/-- The part of `struct vm_area_struct` that is read. -/
structure VmAreaStruct where
  /-- its first byte -/
  vmStart : ℕ
  /-- the byte after it -/
  vmEnd : ℕ
  /-- the offset in the file, in pages -/
  vmPgoff : ℕ

/-- Its size in bytes, as the driver computes it. -/
abbrev VmAreaStruct.vsize (vma : VmAreaStruct) : ℕ := vma.vmEnd - vma.vmStart

/-- `vmalloc_to_pfn`. For an address without a page it returns anything, here 0. -/
def vmallocToPfn (kernel : Table) (addr : ℕ) : ℕ := (kernel (addr / pageSize)).getD 0

/-- `remap_pfn_range` of one page, when it succeeds. -/
def remapPfnRange (user : Table) (addr pfn : ℕ) : Table :=
  Function.update user (addr / pageSize) (some pfn)

/-- What a call of `myblkmmap` leaves: its value, the table of the process, and the
addresses it looked up. -/
structure Mmapped where
  /-- the value returned -/
  ret : Int
  /-- the table of the process -/
  user : Table
  /-- record: the addresses given to `vmalloc_to_pfn` -/
  looked : List ℕ

/-- The loop of `myblkmmap`; `remap k` is what `remap_pfn_range` returns for page `k`.
The fuel is the number of pages left, so it runs out when the test fails. -/
def mmapLoop (kernel : Table) (mapArea : ℕ) (vma : VmAreaStruct) (remap : ℕ → Int) :
    ℕ → ℕ → Table → Mmapped
  | 0, _, user => ⟨0, user, []⟩
  | fuel + 1, offset, user =>
    if offset < vma.vsize then
      let pageFrameNum := vmallocToPfn kernel (mapArea + offset)
      let ret := remap (offset / pageSize)
      if ret ≠ 0 then ⟨ret, user, [mapArea + offset]⟩
      else
        let rest := mmapLoop kernel mapArea vma remap fuel (offset + pageSize)
          (remapPfnRange user (vma.vmStart + offset) pageFrameNum)
        { rest with looked := (mapArea + offset) :: rest.looked }
    else ⟨0, user, []⟩

/-- `myblkmmap`: the checks of the window's size and offset, and the loop. -/
def myblkmmap (kernel : Table) (mapArea : ℕ) (vma : VmAreaStruct) (remap : ℕ → Int)
    (user : Table) : Mmapped :=
  if vma.vsize > myblkMapSize ∨ vma.vsize % pageSize ≠ 0 then ⟨einval, user, []⟩
  else if vma.vmPgoff ≠ 0 then ⟨einval, user, []⟩
  else mmapLoop kernel mapArea vma remap (vma.vsize / pageSize) 0 user

/-- A turn of the loop, in pages instead of bytes. -/
theorem mmapLoop_succ {kernel : Table} {vma : VmAreaStruct} {remap : ℕ → Int} {u v k left : ℕ}
    (hstart : vma.vmStart = u * pageSize) (hk : k * pageSize < vma.vsize) (user : Table) :
    mmapLoop kernel (v * pageSize) vma remap (left + 1) (k * pageSize) user =
      if remap k ≠ 0 then ⟨remap k, user, [(v + k) * pageSize]⟩
      else
        let rest := mmapLoop kernel (v * pageSize) vma remap left ((k + 1) * pageSize)
          (Function.update user (u + k) (some ((kernel (v + k)).getD 0)))
        { rest with looked := (v + k) * pageSize :: rest.looked } := by
  have hdiv (j : ℕ) : j * pageSize / pageSize = j := Nat.mul_div_cancel j (by decide)
  rw [mmapLoop, if_pos hk]
  simp only [hstart, vmallocToPfn, remapPfnRange, ← Nat.add_mul, hdiv, ← Nat.succ_mul]

/-- The loop maps page after page, as far as `remap_pfn_range` goes along. -/
theorem mmapLoop_spec {kernel : Table} {vma : VmAreaStruct} {remap : ℕ → Int} {u v n : ℕ}
    (hstart : vma.vmStart = u * pageSize) (hn : vma.vsize = n * pageSize) {left k : ℕ}
    (hleft : k + left = n) (user : Table) {out : Mmapped}
    (hout : mmapLoop kernel (v * pageSize) vma remap left (k * pageSize) user = out) :
    ∃ m, k ≤ m ∧ m ≤ n ∧ (∀ j, k ≤ j → j < m → remap j = 0) ∧
      (m = n ∧ out.ret = 0 ∨ m < n ∧ out.ret = remap m ∧ remap m ≠ 0) ∧
      (∀ p, out.user p = if u + k ≤ p ∧ p < u + m then
        some ((kernel (v + (p - u))).getD 0) else user p) ∧
      ∀ a ∈ out.looked, ∃ j < n, a = (v + j) * pageSize := by
  induction left generalizing k user out with
  | zero =>
    obtain rfl : k = n := hleft
    subst hout
    refine ⟨k, le_refl k, le_refl k, fun j _ _ => by omega, Or.inl ⟨rfl, rfl⟩, fun p => ?_,
      fun a ha => by cases ha⟩
    rw [if_neg (by omega)]
    rfl
  | succ left ih =>
    have hk : k * pageSize < vma.vsize := by
      rw [hn]
      exact Nat.mul_lt_mul_of_pos_right (by omega) (by decide)
    rw [mmapLoop_succ hstart hk] at hout
    -- the loop goes on behind page `k`, or ends there with the error
    by_cases hret : remap k = 0
    · rw [if_neg (not_not.mpr hret)] at hout
      subst hout
      obtain ⟨m, hkm, hmn, hzero, hend, huser, hlooked⟩ := ih (k := k + 1) (by omega) _ rfl
      refine ⟨m, by omega, hmn, fun j hkj hjm => ?_, hend, fun p => ?_, fun a ha => ?_⟩
      · rcases Nat.eq_or_lt_of_le hkj with rfl | hlt
        · exact hret
        · exact hzero j hlt hjm
      · refine (huser p).trans ?_
        -- page `k` was set by this turn, the later ones by the rest
        by_cases hp : p = u + k
        · subst hp
          rw [if_neg (by omega), if_pos (by omega), Function.update_self, Nat.add_sub_cancel_left]
        · rw [Function.update_of_ne hp]
          by_cases hin : u + (k + 1) ≤ p ∧ p < u + m
          · rw [if_pos hin, if_pos (by omega)]
          · rw [if_neg hin, if_neg (by omega)]
      · rcases List.mem_cons.mp ha with rfl | ha
        · exact ⟨k, by omega, rfl⟩
        · exact hlooked a ha
    · rw [if_pos hret] at hout
      subst hout
      refine ⟨k, le_refl k, by omega, fun j _ _ => by omega, Or.inr ⟨by omega, rfl, hret⟩,
        fun p => ?_, fun a ha => ?_⟩
      · rw [if_neg (by omega)]
      · exact ⟨k, by omega, List.mem_singleton.mp ha⟩

/-- What `myblkmmap` leaves, told in pages instead of bytes. -/
theorem myblkmmap_pages {kernel user : Table} {vma : VmAreaStruct} {remap : ℕ → Int} {u v : ℕ}
    (hstart : vma.vmStart = u * pageSize) {out : Mmapped}
    (hout : myblkmmap kernel (v * pageSize) vma remap user = out) :
    (¬ (vma.vsize ≤ myblkMapSize ∧ vma.vsize % pageSize = 0 ∧ vma.vmPgoff = 0) ∧
        out = ⟨einval, user, []⟩) ∨
      ∃ n m, n ≤ 17 ∧ m ≤ n ∧ vma.vsize = n * pageSize ∧ vma.vmPgoff = 0 ∧
        (∀ j < m, remap j = 0) ∧ (m = n ∧ out.ret = 0 ∨ m < n ∧ out.ret = remap m ∧ remap m ≠ 0) ∧
        (∀ p, out.user p = if u ≤ p ∧ p < u + m then
          some ((kernel (v + (p - u))).getD 0) else user p) ∧
        ∀ a ∈ out.looked, ∃ j < n, a = (v + j) * pageSize := by
  rw [myblkmmap] at hout
  split at hout
  case isTrue hbad =>
    refine Or.inl ⟨fun hgood => ?_, hout.symm⟩
    rcases hbad with hbad | hbad
    · exact absurd hgood.1 (Nat.not_le.mpr hbad)
    · exact hbad hgood.2.1
  case isFalse hgood =>
    split at hout
    case isTrue hoff => exact Or.inl ⟨fun hgood => hoff hgood.2.2, hout.symm⟩
    case isFalse hoff =>
      obtain ⟨hle, haligned⟩ := not_or.mp hgood
      have hn : vma.vsize = vma.vsize / pageSize * pageSize :=
        (Nat.div_mul_cancel (Nat.dvd_of_mod_eq_zero (not_not.mp haligned))).symm
      have hpages : vma.vsize / pageSize ≤ 17 := Nat.div_le_of_le_mul (Nat.not_lt.mp hle)
      rw [← Nat.zero_mul pageSize] at hout
      obtain ⟨m, -, hmn, hzero, hend, huser, hlooked⟩ :=
        mmapLoop_spec hstart hn (Nat.zero_add _) user hout
      refine Or.inr ⟨vma.vsize / pageSize, m, hpages, hmn, hn, not_not.mp hoff,
        fun j hj => hzero j (Nat.zero_le j) hj, hend, huser, hlooked⟩

/-- What it accepts it maps, to the frames of the area. -/
theorem maps_of_myblkmmap {kernel user : Table} {vma : VmAreaStruct} {remap : ℕ → Int} {u v : ℕ}
    {frames : ℕ → ℕ} (hkernel : Maps kernel v 17 frames) (hstart : vma.vmStart = u * pageSize)
    {out : Mmapped} (hout : myblkmmap kernel (v * pageSize) vma remap user = out)
    (hret : out.ret = 0) :
    ∃ n ≤ 17, vma.vsize = n * pageSize ∧ Maps out.user u n frames := by
  rcases myblkmmap_pages hstart hout with ⟨-, rfl⟩ | ⟨n, m, hn, -, hsize, -, -, hend, huser, -⟩
  · cases hret
  · have hm : m = n := by
      rcases hend with ⟨hm, -⟩ | ⟨-, hm, hne⟩
      · exact hm
      · exact absurd (hm.symm.trans hret) hne
    refine ⟨n, hn, hsize, fun j hj => ?_⟩
    rw [huser, if_pos (by omega), Nat.add_sub_cancel_left, hkernel j (by omega)]
    rfl

/-- **The mapping.** `myblkmmap` accepts a window of whole pages, of the whole area at
most, at offset 0, if `remap_pfn_range` goes along for each page. Then each load of the
process from the window is the load of the driver from the area. Accepted or not, the
process sees nothing else that it has not seen before, and `vmalloc_to_pfn` is asked for
addresses of the area only. -/
theorem myblkmmap_spec {kernel user : Table} {vma : VmAreaStruct} {remap : ℕ → Int} {u v : ℕ}
    {frames : ℕ → ℕ} (hkernel : Maps kernel v 17 frames) (hstart : vma.vmStart = u * pageSize)
    {out : Mmapped} (hout : myblkmmap kernel (v * pageSize) vma remap user = out) :
    (out.ret = 0 ↔ vma.vsize ≤ myblkMapSize ∧ vma.vsize % pageSize = 0 ∧ vma.vmPgoff = 0 ∧
        ∀ k, k * pageSize < vma.vsize → remap k = 0) ∧
      (out.ret = 0 → ∀ (phys : ℕ → UInt8) (i k : ℕ), i + k ≤ vma.vsize →
        ∃ l, loads pageSize out.user phys (vma.vmStart + i) k = some l ∧
          loads pageSize kernel phys (v * pageSize + i) k = some l) ∧
      (∀ a p, Paging.translate pageSize out.user a = some p →
        Paging.translate pageSize user a = some p ∨
          vma.vmStart ≤ a ∧ a < vma.vmEnd ∧ ∃ k < 17, p / pageSize = frames k) ∧
      ∀ a ∈ out.looked, v * pageSize ≤ a ∧ a < v * pageSize + myblkMapSize := by
  rcases myblkmmap_pages hstart hout with ⟨hbad, rfl⟩ | ⟨n, m, hn, hmn, hsize, hoff, hzero, hend,
    huser, hlooked⟩
  · refine ⟨⟨fun h => ?_, fun hgood => absurd ⟨hgood.1, hgood.2.1, hgood.2.2.1⟩ hbad⟩,
      fun h => ?_, fun a p hp => Or.inl hp, fun a ha => ?_⟩
    · cases h
    · cases h
    · cases ha
  have hpage (k : ℕ) : k * pageSize < vma.vsize ↔ k < n := by
    rw [hsize]
    exact Nat.mul_lt_mul_right (by decide)
  refine ⟨⟨fun hret => ?_, fun ⟨_, _, _, hremap⟩ => ?_⟩, fun hret phys i k hi => ?_,
    fun a p hp => ?_, fun a ha => ?_⟩
  · rcases hend with ⟨rfl, -⟩ | ⟨-, hm, hne⟩
    · refine ⟨?_, ?_, hoff, fun k hk => hzero k ((hpage k).mp hk)⟩
      · rw [hsize]
        exact Nat.mul_le_mul_right pageSize hn
      · rw [hsize, Nat.mul_mod_left]
    · exact absurd (hm.symm.trans hret) hne
  · rcases hend with ⟨-, hret⟩ | ⟨hlt, -, hne⟩
    · exact hret
    · exact absurd (hremap m ((hpage m).mpr hlt)) hne
  · obtain ⟨n, hn, hsize, hmaps⟩ := maps_of_myblkmmap hkernel hstart hout hret
    have hfit : i + k ≤ n * pageSize := hsize ▸ hi
    refine ⟨_, ?_, (hkernel.mono hn).loads_eq (by decide) phys hfit⟩
    rw [hstart]
    exact hmaps.loads_eq (by decide) phys hfit
  · rw [Paging.translate, huser] at hp
    split at hp
    case isTrue hin =>
      have hk : a / pageSize - u < 17 := by omega
      have hlow : u * pageSize ≤ a := Nat.mul_le_of_le_div _ _ _ hin.1
      have hhigh : a < (u + n) * pageSize :=
        (Nat.div_lt_iff_lt_mul (by decide)).mp (by omega)
      rw [hkernel _ hk] at hp
      obtain rfl := Option.some.inj hp
      refine Or.inr ⟨hstart ▸ hlow, ?_, a / pageSize - u, hk, ?_⟩
      · rw [Nat.add_mul, ← hstart, ← hsize, VmAreaStruct.vsize] at hhigh
        omega
      · simp only [Option.getD_some]
        rw [Nat.add_comm, Nat.add_mul_div_right _ _ (by decide),
          Nat.div_eq_of_lt (Nat.mod_lt a (by decide)), Nat.zero_add]
    case isFalse => exact Or.inl hp
  · obtain ⟨j, hj, rfl⟩ := hlooked a ha
    rw [Nat.add_mul]
    have hj : j * pageSize < 17 * pageSize :=
      Nat.mul_lt_mul_of_pos_right (Nat.lt_of_lt_of_le hj hn) (by decide)
    exact ⟨Nat.le_add_right _ _, Nat.add_lt_add_left hj _⟩

/-- Frames in descending order, so that neighbouring pages are not neighbours in memory.
-/
def scattered (k : ℕ) : ℕ := 40 - k

/-- The table of a kernel that has them from page 5 on. -/
def scatteredTable : Table := fun p => if 5 ≤ p ∧ p < 22 then some (scattered (p - 5)) else none

theorem scatteredTable_maps : Maps scatteredTable 5 17 scattered := by
  intro k hk
  rw [scatteredTable, if_pos (by omega), Nat.add_sub_cancel_left]

/-- Two pages of it, from page 9 on. -/
def twoPages : Mmapped :=
  myblkmmap scatteredTable (5 * pageSize) ⟨9 * pageSize, 11 * pageSize, 0⟩ (fun _ => 0)
    fun _ => none

/-- A load across the two, which reads from two frames that are apart. -/
theorem myblkmmap_spec_twoPages : twoPages.ret = 0 ∧
    ∀ phys : ℕ → UInt8, ∃ l, loads pageSize twoPages.user phys (9 * pageSize + 4094) 4 = some l ∧
      loads pageSize scatteredTable phys (5 * pageSize + 4094) 4 = some l := by
  have hout : myblkmmap scatteredTable (5 * pageSize) ⟨9 * pageSize, 11 * pageSize, 0⟩
      (fun _ => 0) (fun _ => none) = twoPages := rfl
  obtain ⟨hret, hload, -⟩ := myblkmmap_spec scatteredTable_maps rfl hout
  have hzero : twoPages.ret = 0 := hret.mpr ⟨by decide, by decide, rfl, fun _ _ => rfl⟩
  exact ⟨hzero, fun phys => hload hzero phys 4094 4 (by decide)⟩

/-! ## Words

Both sides access the control page by `u32`s and the data by bytes, through the same bytes
of the area. Here the words of the ring are read out of those bytes, and a store of one
word is shown to leave the others and the data alone. -/

/-- A `u32` of four bytes. -/
def wordOf (l : List UInt8) : BitVec 32 := LittleEndian.wordOf (l.map UInt8.toBitVec)

/-- The bytes of a `u32`. -/
def bytesOf (w : BitVec 32) : List UInt8 := (LittleEndian.bytesOf w).map UInt8.ofBitVec

@[simp] theorem length_bytesOf (w : BitVec 32) : (bytesOf w).length = 4 := by simp [bytesOf]

theorem wordOf_bytesOf (w : BitVec 32) : wordOf (bytesOf w) = w := by
  have hbytes : (bytesOf w).map UInt8.toBitVec = LittleEndian.bytesOf w := by
    rw [bytesOf, List.map_map]
    exact List.map_id _
  rw [wordOf, hbytes, LittleEndian.wordOf_bytesOf]

/-- A load of a `u32` through a table, which faults if one of its bytes does. -/
def loadWord (t : Table) (phys : ℕ → UInt8) (addr : ℕ) : Option (BitVec 32) :=
  (loads pageSize t phys addr 4).map wordOf

/-- A store of a `u32` through a table, byte by byte. -/
def storeWord (t : Table) (phys : ℕ → UInt8) (addr : ℕ) (w : BitVec 32) : Option (ℕ → UInt8) :=
  stores pageSize t phys addr (bytesOf w)

/-- `ctrl` and `data` in the bytes of the area. -/
def decode (area : ℕ → UInt8) : Myblkdev where
  ctrl := ⟨wordOf (Mem.load area 0 4), wordOf (Mem.load area 4 4), wordOf (Mem.load area 8 4),
    wordOf (Mem.load area 12 4)⟩
  data i := if i < myblkDataSize then area (myblkCtrlSize + i) else 0

theorem word_store_self (area : ℕ → UInt8) (w : BitVec 32) (off : ℕ) :
    wordOf (Mem.load (Mem.store area off (bytesOf w)) off 4) = w := by
  rw [Mem.load_store_of_length (length_bytesOf w), wordOf_bytesOf]

theorem word_store_ne (area : ℕ → UInt8) {off off' : ℕ} {l : List UInt8}
    (h : off' + 4 ≤ off ∨ off + l.length ≤ off') :
    wordOf (Mem.load (Mem.store area off l) off' 4) = wordOf (Mem.load area off' 4) := by
  refine congrArg wordOf (Mem.load_congr fun i hi => ?_)
  rcases h with h | h
  · exact Mem.store_of_lt (by omega)
  · exact Mem.store_of_le (by omega)

theorem word_store_word (area : ℕ → UInt8) (w : BitVec 32) {off off' : ℕ}
    (h : off' + 4 ≤ off ∨ off + 4 ≤ off') :
    wordOf (Mem.load (Mem.store area off (bytesOf w)) off' 4) = wordOf (Mem.load area off' 4) :=
  word_store_ne area h

/-- The data is behind the control page. -/
theorem data_store_word (area : ℕ → UInt8) (w : BitVec 32) (off : ℕ) (h : off ≤ 12) :
    (decode (Mem.store area off (bytesOf w))).data = (decode area).data := by
  funext i
  have hlen : off + (bytesOf w).length ≤ myblkCtrlSize + i := by
    rw [length_bytesOf]
    simp only [myblkCtrlSize, pageSize]
    omega
  simp only [decode, Mem.store_of_le hlen]

theorem decode_store_head (area : ℕ → UInt8) (w : BitVec 32) :
    decode (Mem.store area 0 (bytesOf w)) =
      ⟨{ (decode area).ctrl with head := w }, (decode area).data⟩ := by
  rw [← data_store_word area w 0 (by decide)]
  simp only [decode, word_store_self, Myblkdev.mk.injEq, MyblkRingCtrl.mk.injEq, and_true, true_and]
  exact ⟨word_store_word area w (Or.inr (by decide)), word_store_word area w (Or.inr (by decide)),
    word_store_word area w (Or.inr (by decide))⟩

theorem decode_store_tail (area : ℕ → UInt8) (w : BitVec 32) :
    decode (Mem.store area 4 (bytesOf w)) =
      ⟨{ (decode area).ctrl with tail := w }, (decode area).data⟩ := by
  rw [← data_store_word area w 4 (by decide)]
  simp only [decode, word_store_self, Myblkdev.mk.injEq, MyblkRingCtrl.mk.injEq, and_true, true_and]
  exact ⟨word_store_word area w (Or.inl (by decide)), word_store_word area w (Or.inr (by decide)),
    word_store_word area w (Or.inr (by decide))⟩

theorem decode_store_size (area : ℕ → UInt8) (w : BitVec 32) :
    decode (Mem.store area 8 (bytesOf w)) =
      ⟨{ (decode area).ctrl with size := w }, (decode area).data⟩ := by
  rw [← data_store_word area w 8 (by decide)]
  simp only [decode, word_store_self, Myblkdev.mk.injEq, MyblkRingCtrl.mk.injEq, and_true, true_and]
  exact ⟨word_store_word area w (Or.inl (by decide)), word_store_word area w (Or.inl (by decide)),
    word_store_word area w (Or.inr (by decide))⟩

theorem decode_store_overflow (area : ℕ → UInt8) (w : BitVec 32) :
    decode (Mem.store area 12 (bytesOf w)) =
      ⟨{ (decode area).ctrl with overflow := w }, (decode area).data⟩ := by
  rw [← data_store_word area w 12 (by decide)]
  simp only [decode, word_store_self, Myblkdev.mk.injEq, MyblkRingCtrl.mk.injEq, and_true]
  exact ⟨word_store_word area w (Or.inl (by decide)), word_store_word area w (Or.inl (by decide)),
    word_store_word area w (Or.inl (by decide))⟩

theorem decode_store_data (area : ℕ → UInt8) {i : ℕ} (hi : i < myblkDataSize) (x : UInt8) :
    decode (Mem.store area (myblkCtrlSize + i) [x]) =
      ⟨(decode area).ctrl, Function.update (decode area).data i x⟩ := by
  have hword (off : ℕ) (hoff : off ≤ 12) :
      wordOf (Mem.load (Mem.store area (myblkCtrlSize + i) [x]) off 4) =
        wordOf (Mem.load area off 4) :=
    word_store_ne area (Or.inl (by simp only [myblkCtrlSize, pageSize]; omega))
  simp only [decode, hword 0 (by decide), hword 4 (by decide), hword 8 (by decide),
    hword 12 (by decide), Myblkdev.mk.injEq, true_and]
  funext j
  by_cases hji : j = i
  · subst hji
    rw [Function.update_self, if_pos hi, Mem.store_singleton, Function.update_self]
  · rw [Function.update_of_ne hji, Mem.store_singleton, Function.update_of_ne (by omega)]

/-! ## The two sides behind their tables

The system of the ring again, with the machine in place of its memory: the producer goes
through the kernel's table and the consumer through that of the process. A step that would
fault is no step, so a run that exists is one without faults. -/

/-- The tables and the addresses of the two sides. -/
structure Machine where
  /-- the table of the kernel -/
  kernel : Table
  /-- the table of the process -/
  user : Table
  /-- `mydev->map_area` -/
  mapArea : ℕ
  /-- `base`, of the process -/
  base : ℕ

/-- `State`, with the memory of the machine in place of the ring. -/
structure Paged where
  /-- physical memory -/
  phys : ℕ → UInt8
  /-- the producer -/
  producer : Producer
  /-- the consumer -/
  consumer : Consumer
  /-- record: the bytes the consumer has written out -/
  output : List UInt8
  /-- record: the finished calls of the producer, in order -/
  log : List Call

namespace Machine

variable (m : Machine)

/-- `prodStep`, with its loads and stores at `map_area`. -/
def prodStep (s : Paged) : Option Paged :=
  match s.producer with
  | .idle => none
  | .loadSize src => (loadWord m.kernel s.phys (m.mapArea + 8)).map fun size =>
      { s with producer := .loadHead src size }
  | .loadHead src size => (loadWord m.kernel s.phys (m.mapArea + 0)).map fun head =>
      { s with producer := .loadTail src size head }
  | .loadTail src size head => (loadWord m.kernel s.phys (m.mapArea + 4)).map fun tail =>
      let free := freeSpace head tail size
      let c : Call := ⟨src, head, tail, clampLen (lenOf src) free⟩
      if lenOf src > free.setWidth 64 then { s with producer := .incOverflow c size }
      else { s with producer := startCopy c size }
  | .incOverflow c size => (loadWord m.kernel s.phys (m.mapArea + 12)).bind fun overflow =>
      (storeWord m.kernel s.phys (m.mapArea + 12) (overflow + 1)).map fun phys =>
        { s with phys := phys, producer := startCopy c size }
  | .copy c size (b :: todo) =>
    (stores pageSize m.kernel s.phys (m.mapArea + (myblkCtrlSize + b.1)) [c.memory b.2]).map
      fun phys => { s with phys := phys, producer := .copy c size todo }
  | .copy c size [] =>
    if c.len > 0 then
      (storeWord m.kernel s.phys (m.mapArea + 0) (nextHead c.head size c.len)).map fun phys =>
        { s with phys := phys, producer := .idle, log := s.log ++ [c] }
    else some { s with producer := .idle, log := s.log ++ [c] }

/-- `consStep`, with its loads and stores at `base`. -/
def consStep (s : Paged) (headFirst : Bool) : Option Paged :=
  match s.consumer with
  | .idle => none
  | .test =>
    if headFirst then (loadWord m.user s.phys (m.base + 0)).map fun head =>
      { s with consumer := .testTail head }
    else (loadWord m.user s.phys (m.base + 4)).map fun tail =>
      { s with consumer := .testHead tail }
  | .testHead tail => (loadWord m.user s.phys (m.base + 0)).map fun head =>
      { s with consumer := whileTest tail head }
  | .testTail head => (loadWord m.user s.phys (m.base + 4)).map fun tail =>
      { s with consumer := whileTest tail head }
  | .bodyTail => (loadWord m.user s.phys (m.base + 4)).map fun tail =>
      { s with consumer := .bodyHead tail }
  | .bodyHead tail => (loadWord m.user s.phys (m.base + 0)).map fun head =>
      if tail < head then { s with consumer := .write tail ((head - tail).setWidth 64) 0 head }
      else { s with consumer := .bodySize tail }
  | .bodySize tail => (loadWord m.user s.phys (m.base + 8)).map fun size =>
      { s with consumer := .write tail ((size - tail).setWidth 64) 0 0 }
  | .write tail len k next =>
    if k < len.toNat then
      (loads pageSize m.user s.phys (m.base + (myblkCtrlSize + (tail.toNat + k))) 1).map fun l =>
        { s with consumer := .write tail len (k + 1) next, output := s.output ++ l }
    else (storeWord m.user s.phys (m.base + 4) next).map fun phys =>
      { s with phys := phys, consumer := .test }

/-- One step. An access that faults is none. -/
def step (s : Paged) : Act → Option Paged
  | .produce src =>
    match s.producer with
    | .idle => if src.length < 2 ^ 64 then some { s with producer := .loadSize src } else none
    | _ => none
  | .consume =>
    match s.consumer with
    | .idle => some { s with consumer := .test }
    | _ => none
  | .prod => m.prodStep s
  | .cons headFirst => m.consStep s headFirst

/-- The system, with this memory at first. -/
def system (phys : ℕ → UInt8) : Lts Paged Act where
  init := ⟨phys, .idle, .idle, [], []⟩
  step := m.step

/-- What `myblkprobe` stores to the area. -/
def probe (phys : ℕ → UInt8) : Option (ℕ → UInt8) :=
  (storeWord m.kernel phys (m.mapArea + 8) (BitVec.ofNat 32 myblkDataSize)).bind fun phys =>
    storeWord m.kernel phys (m.mapArea + 12) 0

/-- Both tables show the area: the 17 frames, which are all different. -/
structure Shares (frames : ℕ → ℕ) : Prop where
  distinct : Distinct 17 frames
  kernel : ∃ v, m.mapArea = v * pageSize ∧ Maps m.kernel v 17 frames
  user : ∃ u, m.base = u * pageSize ∧ Maps m.user u 17 frames

end Machine

/-- The ring that the memory holds, read out of the frames. -/
def Paged.ring (frames : ℕ → ℕ) (s : Paged) : State where
  dev := decode (view pageSize frames s.phys)
  producer := s.producer
  consumer := s.consumer
  output := s.output
  log := s.log

/-! ## Accesses

The general facts about tables, for the three kinds of accesses the two sides make. -/

section
variable {t : Table} {v : ℕ} {frames : ℕ → ℕ} (h : Maps t v 17 frames)
  (hdistinct : Distinct 17 frames) (phys : ℕ → UInt8)
include h

/-- A load of a word of the area. -/
theorem loadWord_eq {off : ℕ} (hoff : off + 4 ≤ myblkMapSize) :
    loadWord t phys (v * pageSize + off) =
      some (wordOf (Mem.load (view pageSize frames phys) off 4)) := by
  rw [loadWord, h.loads_eq (by decide) phys hoff]
  rfl

/-- A load of a byte of the data. -/
theorem loadByte_eq {i : ℕ} (hi : i < myblkDataSize) :
    loads pageSize t phys (v * pageSize + (myblkCtrlSize + i)) 1 =
      some [(decode (view pageSize frames phys)).data i] := by
  have hfit : myblkCtrlSize + i + 1 ≤ 17 * pageSize := by
    simp only [myblkCtrlSize, pageSize, myblkDataSize] at hi ⊢
    omega
  rw [h.loads_eq (by decide) phys hfit]
  simp only [decode, if_pos hi]
  rfl

include hdistinct

/-- A store to the area, through either table, is a store to the view. -/
theorem stores_view {off : ℕ} {l : List UInt8} (hoff : off + l.length ≤ myblkMapSize) :
    ∃ phys', stores pageSize t phys (v * pageSize + off) l = some phys' ∧
      decode (view pageSize frames phys') =
        decode (Mem.store (view pageSize frames phys) off l) := by
  obtain ⟨phys', hstores, hview, -⟩ := h.stores_eq hdistinct (show 0 < pageSize by decide) phys hoff
  refine ⟨phys', hstores, ?_⟩
  have hload (p : ℕ) (hp : p + 4 ≤ 17 * pageSize) : Mem.load (view pageSize frames phys') p 4 =
      Mem.load (Mem.store (view pageSize frames phys) off l) p 4 :=
    Mem.load_congr fun i hi => hview (p + i) (by omega)
  have hdata (i : ℕ) (hi : i < myblkDataSize) : view pageSize frames phys' (myblkCtrlSize + i) =
      Mem.store (view pageSize frames phys) off l (myblkCtrlSize + i) :=
    hview _ (by simp only [myblkCtrlSize, pageSize, myblkDataSize] at hi ⊢; omega)
  rw [decode, decode, hload 0 (by decide), hload 4 (by decide), hload 8 (by decide),
    hload 12 (by decide)]
  refine congrArg _ (funext fun i => ?_)
  by_cases hi : i < myblkDataSize
  · rw [if_pos hi, if_pos hi, hdata i hi]
  · rw [if_neg hi, if_neg hi]

end

/-! ## Step by step

Both tables show the same frames, so every access goes to the same view, and a step of the
machine is the step of the ring that the view holds. The stream of the ring is then the
stream of the machine, by projection. -/

namespace Machine

variable {m : Machine} {frames : ℕ → ℕ}

theorem Shares.kernel_word (h : m.Shares frames) (phys : ℕ → UInt8) (off : ℕ)
    (hoff : off + 4 ≤ myblkMapSize) : loadWord m.kernel phys (m.mapArea + off) =
      some (wordOf (Mem.load (view pageSize frames phys) off 4)) := by
  obtain ⟨v, hv, hmaps⟩ := h.kernel
  rw [hv]
  exact loadWord_eq hmaps phys hoff

theorem Shares.user_word (h : m.Shares frames) (phys : ℕ → UInt8) (off : ℕ)
    (hoff : off + 4 ≤ myblkMapSize) : loadWord m.user phys (m.base + off) =
      some (wordOf (Mem.load (view pageSize frames phys) off 4)) := by
  obtain ⟨u, hu, hmaps⟩ := h.user
  rw [hu]
  exact loadWord_eq hmaps phys hoff

theorem Shares.kernel_store (h : m.Shares frames) (phys : ℕ → UInt8) (off : ℕ) (l : List UInt8)
    (hoff : off + l.length ≤ myblkMapSize) :
    ∃ phys', stores pageSize m.kernel phys (m.mapArea + off) l = some phys' ∧
      decode (view pageSize frames phys') =
        decode (Mem.store (view pageSize frames phys) off l) := by
  obtain ⟨v, hv, hmaps⟩ := h.kernel
  rw [hv]
  exact stores_view hmaps h.distinct phys hoff

theorem Shares.user_store (h : m.Shares frames) (phys : ℕ → UInt8) (off : ℕ) (l : List UInt8)
    (hoff : off + l.length ≤ myblkMapSize) :
    ∃ phys', stores pageSize m.user phys (m.base + off) l = some phys' ∧
      decode (view pageSize frames phys') =
        decode (Mem.store (view pageSize frames phys) off l) := by
  obtain ⟨u, hu, hmaps⟩ := h.user
  rw [hu]
  exact stores_view hmaps h.distinct phys hoff

/-- **The producer's step** is that of the ring. -/
theorem Shares.prodStep (h : m.Shares frames) {s : Paged} {u : ℕ} (hinv : (s.ring frames).Inv u) :
    Myblk.prodStep (s.ring frames) = (m.prodStep s).map (Paged.ring frames) := by
  have hpr := hinv.producer
  obtain ⟨phys, producer, consumer, output, log⟩ := s
  cases producer with
  | idle => rfl
  | loadSize src =>
    simp only [Machine.prodStep, h.kernel_word phys 8 (by decide), Option.map_some]
    rfl
  | loadHead src size =>
    simp only [Machine.prodStep, h.kernel_word phys 0 (by decide), Option.map_some]
    rfl
  | loadTail src size head =>
    simp only [Machine.prodStep, h.kernel_word phys 4 (by decide), Option.map_some]
    simp only [Myblk.prodStep, Paged.ring, decode]
    split
    case isTrue => rfl
    case isFalse => rfl
  | incOverflow c size =>
    obtain ⟨phys', hstore, hdecode⟩ := h.kernel_store phys 12
      (bytesOf (wordOf (Mem.load (view pageSize frames phys) 12 4) + 1))
      (show 12 + 4 ≤ myblkMapSize by decide)
    rw [decode_store_overflow] at hdecode
    simp only [Machine.prodStep, h.kernel_word phys 12 (by decide), Option.bind_some, storeWord,
      hstore, Option.map_some]
    simp only [Myblk.prodStep, Paged.ring, hdecode]
    rfl
  | copy c size todo =>
    cases todo with
    | nil =>
      obtain ⟨phys', hstore, hdecode⟩ := h.kernel_store phys 0
        (bytesOf (nextHead c.head size c.len)) (show 0 + 4 ≤ myblkMapSize by decide)
      rw [decode_store_head] at hdecode
      -- a call that copies nothing does not store the head either
      by_cases hpos : c.len > 0
      · simp only [Machine.prodStep, if_pos hpos, storeWord, hstore, Option.map_some]
        simp only [Myblk.prodStep, Paged.ring, if_pos hpos, hdecode]
      · simp only [Machine.prodStep, if_neg hpos, Option.map_some]
        simp only [Myblk.prodStep, Paged.ring, if_neg hpos]
    | cons b todo =>
      -- the invariant of the ring keeps the byte in the data area
      have hb : b.1 < myblkDataSize := by
        obtain ⟨-, k, n, -, htodo, -⟩ := hpr
        have hmem : b ∈ (List.range' k n).map c.byteAt := htodo ▸ List.mem_cons_self
        obtain ⟨j, -, rfl⟩ := List.mem_map.mp hmem
        exact Nat.mod_lt _ (by decide)
      obtain ⟨phys', hstore, hdecode⟩ := h.kernel_store phys (myblkCtrlSize + b.1)
        [c.memory b.2] (Nat.add_le_add_left hb myblkCtrlSize)
      rw [decode_store_data _ hb] at hdecode
      simp only [Machine.prodStep, hstore, Option.map_some]
      simp only [Myblk.prodStep, Paged.ring, hdecode]

/-- **The consumer's step** is that of the ring. -/
theorem Shares.consStep (h : m.Shares frames) {s : Paged} {u : ℕ} (hinv : (s.ring frames).Inv u)
    (headFirst : Bool) :
    Myblk.consStep (s.ring frames) headFirst =
      (m.consStep s headFirst).map (Paged.ring frames) := by
  have hcons := hinv.consumer
  obtain ⟨phys, producer, consumer, output, log⟩ := s
  have hhead := h.user_word phys 0 (by decide)
  have htail := h.user_word phys 4 (by decide)
  have hsize := h.user_word phys 8 (by decide)
  cases consumer with
  | idle => rfl
  | test =>
    cases headFirst with
    | false =>
      simp only [Machine.consStep, htail, Option.map_some]
      rfl
    | true =>
      simp only [Machine.consStep, hhead, Option.map_some]
      rfl
  | testHead tail =>
    simp only [Machine.consStep, hhead, Option.map_some]
    rfl
  | testTail head =>
    simp only [Machine.consStep, htail, Option.map_some]
    rfl
  | bodyTail =>
    simp only [Machine.consStep, htail, Option.map_some]
    rfl
  | bodyHead tail =>
    simp only [Machine.consStep, hhead, Option.map_some]
    simp only [Myblk.consStep, Paged.ring, decode]
    split
    case isTrue => rfl
    case isFalse => rfl
  | bodySize tail =>
    simp only [Machine.consStep, hsize, Option.map_some]
    rfl
  | write tail len k next =>
    obtain ⟨-, -, -, -, hend, -⟩ := hcons
    -- bytes are read through the table of the process, one after another
    by_cases hk : k < len.toNat
    · have hi : tail.toNat + k < 65536 := by omega
      obtain ⟨v, hv, hmaps⟩ := h.user
      simp only [Machine.consStep, if_pos hk, hv, loadByte_eq hmaps phys hi, Option.map_some]
      simp only [Myblk.consStep, Paged.ring, if_pos hk]
    · obtain ⟨phys', hstore, hdecode⟩ :=
        h.user_store phys 4 (bytesOf next) (show 4 + 4 ≤ myblkMapSize by decide)
      rw [decode_store_tail] at hdecode
      simp only [Machine.consStep, if_neg hk, storeWord, hstore, Option.map_some]
      simp only [Myblk.consStep, Paged.ring, if_neg hk, hdecode]

/-- **Every step** is that of the ring. -/
theorem Shares.step (h : m.Shares frames) {s : Paged} {u : ℕ} (hinv : (s.ring frames).Inv u)
    (a : Act) : Myblk.step (s.ring frames) a = (m.step s a).map (Paged.ring frames) := by
  cases a with
  | produce src =>
    obtain ⟨phys, producer, consumer, output, log⟩ := s
    cases producer with
    | idle =>
      simp only [Myblk.step, Machine.step, Paged.ring]
      split
      case isTrue => rfl
      case isFalse => rfl
    | _ => rfl
  | consume =>
    obtain ⟨phys, producer, consumer, output, log⟩ := s
    cases consumer with
    | _ => rfl
  | prod => exact h.prodStep hinv
  | cons headFirst => exact h.consStep hinv headFirst

/-- What `myblkprobe` leaves in an area of zeros is the empty ring. -/
theorem Shares.probe (h : m.Shares frames) {phys : ℕ → UInt8}
    (hzero : ∀ i < myblkMapSize, view pageSize frames phys i = 0) :
    ∃ phys₀, m.probe phys = some phys₀ ∧
      decode (view pageSize frames phys₀) = ⟨⟨0, 0, 65536, 0⟩, fun _ => 0⟩ := by
  obtain ⟨phys₁, hsize, hdecode₁⟩ := h.kernel_store phys 8 (bytesOf (BitVec.ofNat 32 myblkDataSize))
    (show 8 + 4 ≤ myblkMapSize by decide)
  obtain ⟨phys₀, hoverflow, hdecode₀⟩ := h.kernel_store phys₁ 12 (bytesOf 0)
    (show 12 + 4 ≤ myblkMapSize by decide)
  refine ⟨phys₀, ?_, ?_⟩
  · rw [Machine.probe, storeWord, hsize]
    exact hoverflow
  · have hword (off : ℕ) (hoff : off ≤ 12) :
        wordOf (Mem.load (view pageSize frames phys) off 4) = 0 := by
      have hload : Mem.load (view pageSize frames phys) off 4 = Mem.load (fun _ => 0) off 4 :=
        Mem.load_congr fun i hi =>
          hzero _ (Nat.lt_of_lt_of_le (by omega : off + i < 16) (by decide))
      rw [hload]
      rfl
    have hdata (i : ℕ) (hi : i < myblkDataSize) :
        view pageSize frames phys (myblkCtrlSize + i) = 0 :=
      hzero _ (Nat.add_lt_add_left hi myblkCtrlSize)
    rw [hdecode₀, decode_store_overflow, hdecode₁, decode_store_size, decode]
    simp only [hword 0 (by decide), hword 4 (by decide)]
    refine congrArg _ (funext fun i => ?_)
    by_cases hi : i < myblkDataSize
    · rw [if_pos hi, hdata i hi]
    · rw [if_neg hi]

end Machine

/-- **The stream, through the mapping.** The area lies in 17 different frames, all
zero; `myblkprobe` stores its words there, and a `myblkmmap` of the whole area has
returned 0. Then the driver behind the table of the kernel and the process behind its
own make exactly the runs of the ring, with no access that faults, and what the process
has written out, followed by what it has still to read, is what the driver has accepted. -/
theorem mapped_stream {kernel user : Table} {frames : ℕ → ℕ} {remap : ℕ → Int} {u v : ℕ}
    {phys : ℕ → UInt8} (hkernel : Maps kernel v 17 frames) (hdistinct : Distinct 17 frames)
    (hzero : ∀ i < myblkMapSize, view pageSize frames phys i = 0) {out : Mmapped}
    (hout : myblkmmap kernel (v * pageSize) ⟨u * pageSize, u * pageSize + myblkMapSize, 0⟩ remap
      user = out) (hret : out.ret = 0) {m : Machine}
    (hm : m = ⟨kernel, out.user, v * pageSize, u * pageSize⟩) :
    ∃ phys₀, m.probe phys = some phys₀ ∧
      (∀ as, system.exec system.init as =
        ((m.system phys₀).exec (m.system phys₀).init as).map (Paged.ring frames)) ∧
      ∀ s, (m.system phys₀).Reach (fun _ _ => True) s →
        s.output ++ (s.ring frames).unread = s.log.flatMap Call.accepted := by
  obtain ⟨n, hn, hsize, hmaps⟩ := maps_of_myblkmmap hkernel rfl hout hret
  have hall : n = 17 := by
    rw [VmAreaStruct.vsize, Nat.add_sub_cancel_left] at hsize
    exact Nat.eq_of_mul_eq_mul_right (show 0 < pageSize by decide) hsize.symm
  subst hall
  have hshares : m.Shares frames := by
    subst hm
    exact ⟨hdistinct, ⟨v, rfl, hkernel⟩, ⟨u, rfl, hmaps⟩⟩
  obtain ⟨phys₀, hprobe, hdecode⟩ := hshares.probe hzero
  have hinit : Paged.ring frames ⟨phys₀, .idle, .idle, [], []⟩ = system.init := by
    simp only [Paged.ring, hdecode]
    rfl
  -- every step keeps the ring one that the two sides can reach
  have hkeep (s : Paged) (a : Act) (t : Paged) (hs : ∃ u, (s.ring frames).Inv u)
      (hst : m.step s a = some t) : ∃ u, (t.ring frames).Inv u := by
    obtain ⟨u, hinv⟩ := hs
    refine hinv.step (a := a) ?_
    rw [hshares.step hinv a, hst]
    rfl
  have hinv : ∃ u, (Paged.ring frames ⟨phys₀, .idle, .idle, [], []⟩).Inv u := by
    rw [hinit]
    exact ⟨0, init_inv⟩
  refine ⟨phys₀, hprobe, fun as => ?_, fun s hs => ?_⟩
  · rw [← hinit]
    exact Lts.exec_map (fun s : Paged => ∃ u, (s.ring frames).Inv u) (Paged.ring frames) hkeep
      (fun s a ⟨u, hinv⟩ => hshares.step hinv a) hinv as
  · obtain ⟨u, hi⟩ := hs.invariant hinv fun s a t hs _ hst => hkeep s a t hs hst
    rw [State.unread, hi.used_eq]
    exact hi.stream

/-- One byte goes through scattered frames, from the driver to the process. -/
theorem mapped_stream_scattered : ∃ (m : Machine) (phys₀ : ℕ → UInt8),
    m.kernel = scatteredTable ∧ m.probe (fun _ => 0) = some phys₀ ∧
      ((m.system phys₀).exec (m.system phys₀).init oneByte).map (·.output) = some [7] := by
  have hdistinct : Distinct 17 scattered := by
    intro j hj k hk heq
    rw [scattered, scattered] at heq
    omega
  have hret : (myblkmmap scatteredTable (5 * pageSize)
      ⟨100 * pageSize, 100 * pageSize + myblkMapSize, 0⟩ (fun _ => 0) fun _ => none).ret = 0 := by
    decide +kernel
  have hzero : ∀ i < myblkMapSize, view pageSize scattered (fun _ => (0 : UInt8)) i = 0 :=
    fun _ _ => rfl
  obtain ⟨phys₀, hprobe, hruns, -⟩ :=
    mapped_stream scatteredTable_maps hdistinct hzero rfl hret rfl
  refine ⟨_, phys₀, rfl, hprobe, ?_⟩
  have houtput : (system.exec system.init oneByte).map (·.output) = some [7] := by decide +kernel
  rw [hruns oneByte, Option.map_map] at houtput
  exact houtput

end Myblk

end KernelDrvLearn
