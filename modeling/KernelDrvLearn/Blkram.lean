import Mathlib.Algebra.Ring.Nat
import Mathlib.Data.List.Induction
import KernelDrvLearn.Memory

/-!
# The RAM disk

`block_queue_rq` of `myblkdev/blk.c` on the 512 KiB of `block_memory`. The byte
offset is an `unsigned long`, 32 or 64 bits wide, and the start sector has 64
bits. A request is a list of segments, each a buffer of its own; the driver
copies them one after another at a running offset.

For requests within the capacity the disk is **a flat byte array**
(`blockRun_flat`): a whole request is one `Mem.store` or `Mem.load` of the
concatenated buffers, so the split into segments cannot be observed, and by
induction over the run every read returns the last bytes written.
-/

namespace KernelDrvLearn

namespace Blk

/-! ## Requests

What the block layer hands to the driver: a direction, a start sector, and a list of
segments with a buffer each. Widths are those of the kernel's types, and the width of
`unsigned long` is a parameter. -/

/-- The width of `unsigned long` and `size_t`. -/
inductive LongWidth where
  /-- a 32-bit kernel -/
  | w32
  /-- a 64-bit kernel -/
  | w64

/-- The width of `unsigned long` in bits. -/
abbrev LongWidth.bits : LongWidth → ℕ
  | w32 => 32
  | w64 => 64

/-- The size of the address space. Addresses count from `block_memory` on. -/
abbrev LongWidth.space (W : LongWidth) : ℕ := 2 ^ W.bits

/-- `blk_status_t`, of which the driver uses two values. -/
inductive BlkStatus where
  /-- `BLK_STS_OK` -/
  | ok
  /-- `BLK_STS_IOERR` -/
  | ioerr
  deriving DecidableEq

/-- `rq_data_dir`: from the disk into the buffers, or the other way. -/
inductive Dir where
  /-- `READ` -/
  | read
  /-- `WRITE` -/
  | write
  deriving DecidableEq

/-- `struct bio_vec`: the bytes at `page_address(bv_page) + bv_offset`. -/
structure BioVec where
  /-- the buffer -/
  bytes : List Byte
  /-- `bv_len` is an `unsigned int` -/
  len_lt : bytes.length < 4294967296

/-- `struct request`, as far as the driver looks at it. -/
structure Request where
  /-- `blk_rq_pos`, in sectors -/
  pos : BitVec 64
  /-- `rq_data_dir` -/
  dir : Dir
  /-- the segments -/
  segs : List BioVec

/-- `NUM_SECTORS`, of the disk. -/
abbrev numSectors : ℕ := 1024

/-- `MY_SECTOR_SIZE`, by which the start is multiplied. -/
abbrev mySectorSize : ℕ := 512

/-- `MY_BLOCK_SIZE`, by which the capacity is computed. -/
abbrev myBlockSize : ℕ := 512

/-! ## The driver

`block_queue_rq` in terms of addresses counted from `block_memory` on. The loop copies
each segment at the running offset if it ends within the capacity; else it ends the
request with an error and stops. -/

/-- What a request leaves: the disk, the buffers, and how often and how it was ended. -/
structure Outcome where
  /-- `block_memory` -/
  mem : ℕ → Byte
  /-- the segments, their buffers filled by a read -/
  segs : List BioVec
  /-- the calls of `blk_mq_end_request` -/
  ended : List BlkStatus
  /-- the value returned -/
  ret : BlkStatus

/-- `memcpy(buffer, block_memory + p, len)`: the segment, filled from the disk. -/
def BioVec.fill (W : LongWidth) (bvec : BioVec) (mem : ℕ → Byte) (p : ℕ) : BioVec where
  bytes := Mem.loadMod W.space mem p bvec.bytes.length
  len_lt := by
    rw [Mem.loadMod_length]
    exact bvec.len_lt

/-- The loop of `block_queue_rq` and what follows it. -/
def rqForEachSegment (W : LongWidth) (dir : Dir) :
    BitVec W.bits → (ℕ → Byte) → List BioVec → Outcome
  | _, mem, [] => ⟨mem, [], [.ok], .ok⟩
  | offset, mem, bvec :: rest =>
    let len := BitVec.ofNat W.bits bvec.bytes.length
    if offset + len > BitVec.ofNat W.bits (numSectors * myBlockSize) then
      ⟨mem, bvec :: rest, [.ioerr], .ok⟩
    else
      match dir with
      | .write =>
        let mem := Mem.storeMod W.space mem offset.toNat bvec.bytes
        let out := rqForEachSegment W dir (offset + len) mem rest
        { out with segs := bvec :: out.segs }
      | .read =>
        let out := rqForEachSegment W dir (offset + len) mem rest
        { out with segs := bvec.fill W mem offset.toNat :: out.segs }

/-- `block_queue_rq` on one request, from the start of the request to its end. The
segments are copied one after the other, and the first one that does not fit ends it with
an error. -/
def blockQueueRq (W : LongWidth) (mem : ℕ → Byte) (req : Request) : Outcome :=
  let offset := (req.pos * BitVec.ofNat 64 mySectorSize).setWidth W.bits
  rqForEachSegment W req.dir offset mem req.segs

/-- `block_memory` after `block_init`, which clears it. -/
def blockInit : ℕ → Byte := fun _ => 0

/-- `block_memory` after a sequence of requests. -/
def blockRun (W : LongWidth) (reqs : List Request) : ℕ → Byte :=
  reqs.foldl (fun mem req => (blockQueueRq W mem req).mem) blockInit

/-! ## A flat byte array

The statement that the disk is judged by. It speaks of bytes and of the requests before,
and of no segments: the value of a byte is what was written to it last. -/

/-- The concatenated buffers, in which the division into segments is forgotten. -/
def dataOf (segs : List BioVec) : List Byte := segs.flatMap BioVec.bytes

/-- The first byte a request names. Positions are counted in sectors of 512 bytes,
whatever the size of a logical block. -/
def Request.start (req : Request) : ℕ := req.pos.toNat * 512

/-- The data of a request. -/
def Request.data (req : Request) : List Byte := dataOf req.segs

/-- The request lies within the 1024 sectors. -/
def Request.InCapacity (req : Request) : Prop := req.start + req.data.length ≤ 1024 * 512

instance (req : Request) : Decidable req.InCapacity :=
  inferInstanceAs (Decidable (_ ≤ _))

/-- Does a request write byte `i`? Only a write does, and only the bytes from its start
on, as many as it has data. -/
def Request.Writes (req : Request) (i : ℕ) : Prop :=
  req.dir = .write ∧ req.start ≤ i ∧ i < req.start + req.data.length

instance (req : Request) (i : ℕ) : Decidable (req.Writes i) :=
  inferInstanceAs (Decidable (_ ∧ _))

/-- The value of the most recent write to byte `i`, 0 if there was none. The
last request comes first. -/
def lastWritten (i : ℕ) : List Request → Byte
  | [] => 0
  | req :: older =>
    if req.Writes i then (req.data[i - req.start]?).getD 0 else lastWritten i older

/-! ## One request

Within the capacity no sum wraps and no check fails, so the loop does all its copies.
Copies one behind the other are one copy of the concatenated buffers, and that is where
the segments disappear. -/

@[simp] theorem dataOf_cons (bvec : BioVec) (segs : List BioVec) :
    dataOf (bvec :: segs) = bvec.bytes ++ dataOf segs := rfl

/-- The running offset does not wrap within the capacity. -/
theorem toNat_offset_add (W : LongWidth) {offset : BitVec W.bits} {n : ℕ}
    (h : offset.toNat + n ≤ 1024 * 512) :
    (offset + BitVec.ofNat W.bits n).toNat = offset.toNat + n := by
  cases W with
  | w32 => simp only [LongWidth.bits, BitVec.toNat_add, BitVec.toNat_ofNat] at *; omega
  | w64 => simp only [LongWidth.bits, BitVec.toNat_add, BitVec.toNat_ofNat] at *; omega

theorem toNat_capacity (W : LongWidth) :
    (BitVec.ofNat W.bits (numSectors * myBlockSize)).toNat = 1024 * 512 := by
  cases W <;> rfl

theorem capacity_le_space (W : LongWidth) : 1024 * 512 ≤ W.space := by
  cases W <;> decide

theorem toNat_offset_start (W : LongWidth) {req : Request} (h : req.InCapacity) :
    ((req.pos * BitVec.ofNat 64 mySectorSize).setWidth W.bits).toNat = req.start := by
  have hle : req.pos.toNat * 512 ≤ 1024 * 512 := Nat.le_trans (Nat.le_add_right _ _) h
  have hmul : (req.pos * BitVec.ofNat 64 mySectorSize).toNat = req.pos.toNat * 512 := by
    rw [BitVec.toNat_mul]
    change req.pos.toNat * 512 % 18446744073709551616 = req.pos.toNat * 512
    omega
  rw [BitVec.toNat_setWidth, hmul]
  cases W with
  | w32 =>
    change req.pos.toNat * 512 % 4294967296 = req.pos.toNat * 512
    omega
  | w64 =>
    change req.pos.toNat * 512 % 18446744073709551616 = req.pos.toNat * 512
    omega

/-- The bound check of a segment within the capacity. -/
theorem not_over (W : LongWidth) {offset : BitVec W.bits} {n : ℕ}
    (h : offset.toNat + n ≤ 1024 * 512) :
    ¬ offset + BitVec.ofNat W.bits n > BitVec.ofNat W.bits (numSectors * myBlockSize) := by
  rw [gt_iff_lt, BitVec.lt_def, toNat_capacity, toNat_offset_add W h]
  exact Nat.not_lt.mpr h

/-- What an outcome has to be for the request to be one transfer of its data. -/
structure Outcome.IsTransfer (out : Outcome) (dir : Dir) (mem : ℕ → Byte) (p : ℕ)
    (segs : List BioVec) : Prop where
  mem_write : dir = .write → out.mem = Mem.store mem p (dataOf segs)
  mem_read : dir = .read → out.mem = mem
  data_write : dir = .write → out.segs = segs
  data_read : dir = .read → dataOf out.segs = Mem.load mem p (dataOf segs).length
  lens : out.segs.map (fun bvec => bvec.bytes.length) =
    segs.map (fun bvec => bvec.bytes.length)
  ended : out.ended = [.ok]
  ret : out.ret = .ok

/-- **Loop lemma.** From any offset at which the segments fit, the loop is one
transfer of the concatenated buffers. -/
theorem rqForEachSegment_isTransfer (W : LongWidth) (dir : Dir) (offset : BitVec W.bits)
    (mem : ℕ → Byte) (segs : List BioVec)
    (h : offset.toNat + (dataOf segs).length ≤ 1024 * 512) :
    (rqForEachSegment W dir offset mem segs).IsTransfer dir mem offset.toNat segs := by
  induction segs generalizing offset mem with
  | nil =>
    refine ⟨fun _ => ?_, fun _ => rfl, fun _ => rfl, fun _ => rfl, rfl, rfl, rfl⟩
    exact Mem.store_nil.symm
  | cons bvec segs ih =>
    rw [dataOf_cons, List.length_append, ← Nat.add_assoc] at h
    have hfit : offset.toNat + bvec.bytes.length ≤ 1024 * 512 :=
      Nat.le_trans (Nat.le_add_right _ _) h
    have hnext := toNat_offset_add W hfit
    have hspace := Nat.le_trans hfit (capacity_le_space W)
    cases dir with
    | write =>
      obtain ⟨hmem, -, hsegs, -, hlens, hended, hret⟩ :=
        ih (offset + BitVec.ofNat W.bits bvec.bytes.length)
          (Mem.store mem offset.toNat bvec.bytes) (by rw [hnext]; exact h)
      simp only [rqForEachSegment, not_over W hfit, if_false, Mem.storeMod_eq_store hspace]
      refine ⟨fun _ => ?_, fun hdir => (nomatch hdir), fun _ => ?_, fun hdir => (nomatch hdir),
        ?_, hended, hret⟩
      · rw [hmem rfl, hnext, dataOf_cons, Mem.store_append]
      · rw [hsegs rfl]
      · rw [List.map_cons, List.map_cons, hlens]
    | read =>
      obtain ⟨-, hmem, -, hdata, hlens, hended, hret⟩ :=
        ih (offset + BitVec.ofNat W.bits bvec.bytes.length) mem (by rw [hnext]; exact h)
      simp only [rqForEachSegment, not_over W hfit, if_false]
      refine ⟨fun hdir => (nomatch hdir), fun _ => hmem rfl, fun hdir => (nomatch hdir),
        fun _ => ?_, ?_, hended, hret⟩
      · have hfill : (bvec.fill W mem offset.toNat).bytes =
            Mem.load mem offset.toNat bvec.bytes.length := Mem.loadMod_eq_load hspace
        rw [dataOf_cons, dataOf_cons, hdata rfl, hnext, List.length_append, Mem.load_add, hfill]
      · rw [List.map_cons, List.map_cons, hlens, BioVec.fill, Mem.loadMod_length]

/-- A request within the capacity is one transfer. -/
theorem blockQueueRq_isTransfer (W : LongWidth) (mem : ℕ → Byte) {req : Request}
    (h : req.InCapacity) :
    (blockQueueRq W mem req).IsTransfer req.dir mem req.start req.segs := by
  have hstart := toNat_offset_start W h
  have ht := rqForEachSegment_isTransfer W req.dir
    ((req.pos * BitVec.ofNat 64 mySectorSize).setWidth W.bits) mem req.segs
    (by rw [hstart]; exact h)
  rw [hstart] at ht
  exact ht

/-! ## Runs of requests

By induction on the run, byte for byte: a request changes the bytes it writes, and no
others. -/

/-- One byte after a request: written by it, or as before. -/
theorem blockQueueRq_mem (W : LongWidth) (mem : ℕ → Byte) {req : Request}
    (h : req.InCapacity) (i : ℕ) :
    (blockQueueRq W mem req).mem i =
      if req.Writes i then (req.data[i - req.start]?).getD 0 else mem i := by
  have ht := blockQueueRq_isTransfer W mem h
  cases hdir : req.dir with
  | read =>
    have hnot : ¬ req.Writes i := by
      rintro ⟨hw, -⟩
      rw [hdir] at hw
      cases hw
    rw [if_neg hnot, ht.mem_read hdir]
  | write =>
    rw [ht.mem_write hdir]
    by_cases hlo : req.start ≤ i
    · obtain ⟨k, rfl⟩ := Nat.exists_eq_add_of_le hlo
      by_cases hk : k < req.data.length
      · rw [if_pos ⟨hdir, hlo, Nat.add_lt_add_left hk _⟩, Nat.add_sub_cancel_left,
          List.getElem?_eq_getElem hk, Option.getD_some]
        exact Mem.store_add hk
      · rw [if_neg fun hw => hk (Nat.lt_of_add_lt_add_left hw.2.2)]
        exact Mem.store_of_le (Nat.add_le_add_left (Nat.le_of_not_lt hk) _)
    · rw [if_neg fun hw => hlo hw.2.1]
      exact Mem.store_of_lt (Nat.lt_of_not_le hlo)

theorem blockRun_append (W : LongWidth) (reqs : List Request) (req : Request) :
    blockRun W (reqs ++ [req]) = (blockQueueRq W (blockRun W reqs) req).mem := by
  rw [blockRun, List.foldl_append]
  rfl

/-- **Run lemma.** After a run of requests within the capacity every byte has
the value last written to it. -/
theorem blockRun_eq_lastWritten (W : LongWidth) (reqs : List Request)
    (h : ∀ req ∈ reqs, req.InCapacity) (i : ℕ) :
    blockRun W reqs i = lastWritten i reqs.reverse := by
  induction reqs using List.reverseRecOn with
  | nil => rfl
  | append_singleton reqs req ih =>
    have hreq : req.InCapacity :=
      h req (List.mem_append_right reqs (List.mem_singleton_self req))
    rw [blockRun_append, blockQueueRq_mem W _ hreq, List.reverse_append, List.reverse_singleton,
      List.singleton_append, lastWritten, ih fun r hr => h r (List.mem_append_left [req] hr)]

/-- What it means that the disk is a flat byte array when a request comes after
a run of others. -/
structure Outcome.Flat (out : Outcome) (mem : ℕ → Byte) (reqs : List Request) (req : Request) :
    Prop where
  /-- one end, with success -/
  ended : out.ended = [.ok]
  /-- the driver accepts the request -/
  ret : out.ret = .ok
  /-- a read returns the most recent writes -/
  read : req.dir = .read → dataOf out.segs =
    (List.range req.data.length).map fun k => lastWritten (req.start + k) reqs.reverse
  /-- and changes nothing -/
  read_frame : req.dir = .read → out.mem = mem
  /-- a write changes the bytes of its range -/
  write : req.dir = .write → Mem.load out.mem req.start req.data.length = req.data
  /-- and no other -/
  write_frame : req.dir = .write → ∀ i, ¬ req.Writes i → out.mem i = mem i
  /-- and leaves its buffers alone -/
  buffers : req.dir = .write → out.segs = req.segs
  /-- the buffers keep their sizes -/
  lens : out.segs.map (fun bvec => bvec.bytes.length) =
    req.segs.map (fun bvec => bvec.bytes.length)

/-- **The RAM disk is a flat byte array.** After any run of requests within the
capacity, split into any segments, the next request ends once and with success,
reads the most recent writes, writes its own range only, and has the same
effect and result as any request with the same range and data. -/
theorem blockRun_flat (W : LongWidth) (reqs : List Request)
    (h : ∀ req ∈ reqs, req.InCapacity) (req : Request) (hreq : req.InCapacity) :
    (blockQueueRq W (blockRun W reqs) req).Flat (blockRun W reqs) reqs req ∧
      ∀ req' : Request, req'.pos = req.pos → req'.dir = req.dir →
        req'.data.length = req.data.length → (req.dir = .write → req'.data = req.data) →
        (blockQueueRq W (blockRun W reqs) req').mem = (blockQueueRq W (blockRun W reqs) req).mem ∧
        (req.dir = .read → dataOf (blockQueueRq W (blockRun W reqs) req').segs =
          dataOf (blockQueueRq W (blockRun W reqs) req).segs) := by
  have ht := blockQueueRq_isTransfer W (blockRun W reqs) hreq
  refine ⟨?_, ?_⟩
  · refine ⟨ht.ended, ht.ret, fun hdir => ?_, ht.mem_read, fun hdir => ?_, fun hdir i hi => ?_,
      ht.data_write, ht.lens⟩
    · rw [ht.data_read hdir]
      exact List.map_congr_left fun k _ => blockRun_eq_lastWritten W reqs h _
    · rw [ht.mem_write hdir]
      exact Mem.load_store
    · rw [blockQueueRq_mem W _ hreq, if_neg hi]
  · intro req' hpos hdir' hlen hdata
    have hstart : req'.start = req.start := by rw [Request.start, hpos, Request.start]
    have hcap : req'.InCapacity := by
      rw [Request.InCapacity, hstart, hlen]
      exact hreq
    have ht' := blockQueueRq_isTransfer W (blockRun W reqs) hcap
    rw [hdir', hstart] at ht'
    refine ⟨?_, fun hdir => ?_⟩
    · cases hdir : req.dir with
      | read => rw [ht'.mem_read hdir, ht.mem_read hdir]
      | write =>
        rw [ht'.mem_write hdir, ht.mem_write hdir]
        exact congrArg _ (hdata hdir)
    · rw [ht'.data_read hdir, ht.data_read hdir]
      exact congrArg _ hlen

/-- Two segments of one byte, at the second sector. -/
def twoSegments : Request := ⟨1, .write, [⟨[0xab], by decide⟩, ⟨[0xcd], by decide⟩]⟩

/-- The same bytes read back in one segment. -/
def oneSegment : Request := ⟨1, .read, [⟨[0, 0], by decide⟩]⟩

theorem blockRun_flat_twoSegments :
    dataOf (blockQueueRq .w32 (blockRun .w32 [twoSegments]) oneSegment).segs = [0xab, 0xcd] := by
  have hcap : ∀ req ∈ [twoSegments], req.InCapacity := by
    intro req hreq
    rw [List.mem_singleton.mp hreq]
    decide +kernel
  rw [(blockRun_flat .w32 [twoSegments] hcap oneSegment (by decide +kernel)).1.read rfl]
  decide +kernel

end Blk

end KernelDrvLearn
