import KernelDrvLearn.Blkram

/-!
# Requests beyond the RAM disk

`block_queue_rq` of `myblkdev/blk.c` on requests of any sector, direction and
segments. The bound is checked in the loop, for one segment after another, so a
request that does not fit is refused when the segments before have already been
copied; and the start and the ends are computed as `unsigned long`s, so that a
large sector or a long segment can come out within the capacity.

What the loop copies is `accepted`, wherever that is (`touched`). A request is
carried out exactly or refused as a whole if and only if it fits, or what is
copied of it shows nowhere on the disk (`block_queue_rq_exact_iff`). If nothing
wraps, that means it is a read, or writes what is there already
(`exact_iff_of_no_wrap`).
-/

namespace KernelDrvLearn

namespace Blk

/-! ## What is copied

What a request does is determined by the segments that pass the check, and the check is
made in the arithmetic of `unsigned long`, on a running sum. So the addresses copied from
or to are given here modulo the address space, as the processor forms them. -/

/-- The segments copied: those before the first that ends beyond the capacity,
in the arithmetic of `unsigned long`. -/
def accepted (W : LongWidth) : BitVec W.bits → List BioVec → List BioVec
  | _, [] => []
  | offset, bvec :: rest =>
    let len := BitVec.ofNat W.bits bvec.bytes.length
    if offset + len > BitVec.ofNat W.bits (numSectors * myBlockSize) then []
    else bvec :: accepted W (offset + len) rest

/-- The addresses copied from or to, segment after segment. -/
def touched (W : LongWidth) : BitVec W.bits → List BioVec → List ℕ
  | _, [] => []
  | offset, bvec :: rest =>
    let len := BitVec.ofNat W.bits bvec.bytes.length
    if offset + len > BitVec.ofNat W.bits (numSectors * myBlockSize) then []
    else
      (List.range bvec.bytes.length).map (fun k => (offset.toNat + k) % W.space) ++
        touched W (offset + len) rest

namespace Request

/-- `offset` before the loop: the start sector in bytes, cut down to an `unsigned long`.
-/
def offset (W : LongWidth) (req : Request) : BitVec W.bits :=
  (req.pos * BitVec.ofNat 64 mySectorSize).setWidth W.bits

/-- The data copied, that is, the data of the accepted segments. -/
def copied (W : LongWidth) (req : Request) : List Byte :=
  dataOf (accepted W (req.offset W) req.segs)

/-- The address of byte `k` of the data. -/
def address (W : LongWidth) (req : Request) (k : ℕ) : ℕ := ((req.offset W).toNat + k) % W.space

/-- Does the request name byte `i`? It names the bytes from its start on, as many as it
has data, counted without wrapping. -/
def Names (req : Request) (i : ℕ) : Prop := req.start ≤ i ∧ i < req.start + req.data.length

/-- Some segment is refused, and of what is copied before it nothing shows: what
lies on the disk is named by the request, and if it is written it was there. -/
structure Harmless (W : LongWidth) (mem : ℕ → Byte) (req : Request) : Prop where
  refused : (accepted W (req.offset W) req.segs).length < req.segs.length
  names : ∀ k < (req.copied W).length, req.address W k < 1024 * 512 →
    req.Names (req.address W k)
  same : req.dir = .write → ∀ k (_ : k < (req.copied W).length),
    (req.copied W).length ≤ k + W.space → req.address W k < 1024 * 512 →
    mem (req.address W k) = (req.copied W)[k]

end Request

/-- A request that fits is one transfer, ended once with success. One that does
not fit is ended once with an error; nothing on the disk changes, and nothing
the request does not name is copied. -/
structure Outcome.Exact (W : LongWidth) (mem : ℕ → Byte) (req : Request) (out : Outcome) :
    Prop where
  fits : req.InCapacity → out.IsTransfer req.dir mem req.start req.segs
  ended : ¬ req.InCapacity → out.ended = [.ioerr]
  mem : ¬ req.InCapacity → ∀ i < 1024 * 512, out.mem i = mem i
  touched : ¬ req.InCapacity → ∀ i ∈ touched W (req.offset W) req.segs, i < 1024 * 512 →
    req.Names i

/-! ## The loop

The loop has two results, the disk and how the request is ended, and both are determined
by the accepted segments: their data is what is copied, and the request is ended with
success if they are all. -/

/-- **Loop lemma**, for any request: the accepted segments are copied, and the
end is an error if there are others. -/
theorem rqForEachSegment_eq (W : LongWidth) (dir : Dir) (offset : BitVec W.bits)
    (mem : ℕ → Byte) (segs : List BioVec) :
    (rqForEachSegment W dir offset mem segs).mem =
        (if dir = .write then
          Mem.storeMod W.space mem offset.toNat (dataOf (accepted W offset segs))
        else mem) ∧
      (rqForEachSegment W dir offset mem segs).ended =
        (if (accepted W offset segs).length < segs.length then [.ioerr] else [.ok]) := by
  induction segs generalizing offset mem with
  | nil =>
    refine ⟨?_, rfl⟩
    cases dir <;> rfl
  | cons bvec segs ih =>
    by_cases hover : offset + BitVec.ofNat W.bits bvec.bytes.length >
        BitVec.ofNat W.bits (numSectors * myBlockSize)
    · simp only [rqForEachSegment, accepted, if_pos hover]
      refine ⟨?_, (if_pos (Nat.succ_pos _)).symm⟩
      cases dir <;> rfl
    · have hnext : (offset + BitVec.ofNat W.bits bvec.bytes.length).toNat =
          (offset.toNat + bvec.bytes.length) % W.space := by
        rw [BitVec.toNat_add, BitVec.toNat_ofNat, Nat.add_mod_mod]
      simp only [rqForEachSegment, accepted, if_neg hover, List.length_cons,
        Nat.add_lt_add_iff_right]
      cases dir with
      | write =>
        obtain ⟨hmem, hended⟩ := ih (offset + BitVec.ofNat W.bits bvec.bytes.length)
          (Mem.storeMod W.space mem offset.toNat bvec.bytes)
        refine ⟨?_, hended⟩
        rw [if_pos rfl] at hmem ⊢
        rw [hmem, hnext, Mem.storeMod_mod, dataOf_cons, Mem.storeMod_append]
      | read => exact ih (offset + BitVec.ofNat W.bits bvec.bytes.length) mem

/-- The addresses are those of the data copied. -/
theorem touched_eq (W : LongWidth) (offset : BitVec W.bits) (segs : List BioVec) :
    touched W offset segs =
      (List.range (dataOf (accepted W offset segs)).length).map
        fun k => (offset.toNat + k) % W.space := by
  induction segs generalizing offset with
  | nil => rfl
  | cons bvec segs ih =>
    by_cases hover : offset + BitVec.ofNat W.bits bvec.bytes.length >
        BitVec.ofNat W.bits (numSectors * myBlockSize)
    · simp only [touched, accepted, if_pos hover]
      rfl
    · simp only [touched, accepted, if_neg hover, dataOf_cons, List.length_append, List.range_add,
        List.map_append, List.map_map, ih]
      refine congrArg _ (List.map_congr_left fun k _ => ?_)
      rw [BitVec.toNat_add, BitVec.toNat_ofNat, Nat.add_mod_mod, Nat.mod_add_mod, Nat.add_assoc]
      rfl

/-- **Frame.** Addresses that no accepted segment covers are not written. -/
theorem rqForEachSegment_frame (W : LongWidth) (dir : Dir) (offset : BitVec W.bits)
    (mem : ℕ → Byte) (segs : List BioVec) {i : ℕ} (hi : i ∉ touched W offset segs) :
    (rqForEachSegment W dir offset mem segs).mem i = mem i := by
  rw [(rqForEachSegment_eq W dir offset mem segs).1]
  split
  · refine Mem.storeMod_of_ne fun k hk heq => hi ?_
    rw [touched_eq]
    exact List.mem_map.mpr ⟨k, List.mem_range.mpr hk, heq⟩
  · rfl

/-! ## Whole requests

The two kinds of requests are judged by different measures. One that fits has to be
carried out, which the loop does; one that does not fit has to leave no trace, and whether
it does depends on what the loop has copied before it came to the segment it refuses. -/

theorem mem_touched_iff (W : LongWidth) (req : Request) (i : ℕ) :
    i ∈ touched W (req.offset W) req.segs ↔
      ∃ k < (req.copied W).length, req.address W k = i := by
  rw [touched_eq, List.mem_map]
  simp only [List.mem_range]
  rfl

/-- A request that fits is carried out: no segment of it is refused, and no sum wraps. -/
theorem exact_of_inCapacity (W : LongWidth) (mem : ℕ → Byte) {req : Request}
    (h : req.InCapacity) : (blockQueueRq W mem req).Exact W mem req :=
  ⟨fun _ => blockQueueRq_isTransfer W mem h, fun hnot => absurd h hnot,
    fun hnot => absurd h hnot, fun hnot => absurd h hnot⟩

/-- A request that does not fit is refused as a whole exactly when its beginning is
harmless. -/
theorem exact_iff_harmless (W : LongWidth) (mem : ℕ → Byte) {req : Request}
    (h : ¬ req.InCapacity) :
    (blockQueueRq W mem req).Exact W mem req ↔ req.Harmless W mem := by
  obtain ⟨hmem, hended⟩ := rqForEachSegment_eq W req.dir (req.offset W) mem req.segs
  have hspace : 0 < W.space := Nat.lt_of_lt_of_le (by decide) (capacity_le_space W)
  have hsame := Mem.storeMod_eq_self_iff (m := mem) (p := (req.offset W).toNat) hspace
    (· < 1024 * 512) (req.copied W)
  constructor
  · intro hexact
    refine ⟨?_, fun k hk hin => ?_, fun hdir => ?_⟩
    · by_contra hall
      have hioerr := hexact.ended h
      rw [if_neg hall] at hended
      cases hended.symm.trans hioerr
    · exact hexact.touched h _ ((mem_touched_iff W req _).mpr ⟨k, hk, rfl⟩) hin
    · refine hsame.mp fun i hi => ?_
      have hi' := hexact.mem h i hi
      rw [if_pos hdir] at hmem
      rw [← hi']
      exact (congrFun hmem i).symm
  · intro hharmless
    refine ⟨fun hfit => absurd hfit h, fun _ => ?_, fun _ i hi => ?_, fun _ i hi hin => ?_⟩
    · rw [if_pos hharmless.refused] at hended
      exact hended
    · refine (congrFun hmem i).trans ?_
      by_cases hdir : req.dir = .write
      · rw [if_pos hdir]
        exact hsame.mpr (hharmless.same hdir) i hi
      · rw [if_neg hdir]
    · obtain ⟨k, hk, rfl⟩ := (mem_touched_iff W req i).mp hi
      exact hharmless.names k hk hin

/-- **Requests, exactly.** Any request, on any memory, is carried out exactly or refused
as a whole if and only if it fits the capacity, or a segment of it is refused and what is
copied before shows nowhere on the disk.

The loop copies a segment before it looks at the next one, so a request that does not fit
may have been carried out in part when it is refused, and one whose sums wrap may not be
refused at all. What saves it is only that nothing of that part shows: bytes that were on
the disk already, or that lie outside of it. -/
theorem block_queue_rq_exact_iff (W : LongWidth) (mem : ℕ → Byte) (req : Request) :
    (blockQueueRq W mem req).Exact W mem req ↔ req.InCapacity ∨ req.Harmless W mem := by
  by_cases hfit : req.InCapacity
  · exact ⟨fun _ => Or.inl hfit, fun _ => exact_of_inCapacity W mem hfit⟩
  · rw [exact_iff_harmless W mem hfit]
    exact ⟨Or.inr, fun h => h.resolve_left hfit⟩

/-! ## Requests that do not wrap

Real requests are far from the end of the address space. For these the condition becomes
simpler, and the one defect that is left is the partial write: a read that is refused
leaves the disk alone, and a write does only if it writes what was there. -/

/-- Without wrapping, an end is beyond the capacity if it comes out beyond. -/
theorem toNat_offset_add_lt (W : LongWidth) {offset : BitVec W.bits} {n : ℕ}
    (h : offset.toNat + n < W.space) :
    (offset + BitVec.ofNat W.bits n).toNat = offset.toNat + n := by
  rw [BitVec.toNat_add, BitVec.toNat_ofNat, Nat.add_mod_mod, Nat.mod_eq_of_lt h]

theorem over_iff (W : LongWidth) {offset : BitVec W.bits} {n : ℕ}
    (h : offset.toNat + n < W.space) :
    offset + BitVec.ofNat W.bits n > BitVec.ofNat W.bits (numSectors * myBlockSize) ↔
      1024 * 512 < offset.toNat + n := by
  rw [gt_iff_lt, BitVec.lt_def, toNat_capacity, toNat_offset_add_lt W h]

theorem toNat_offset (W : LongWidth) {req : Request} (h : req.start < W.space) :
    (req.offset W).toNat = req.start := by
  have h64 : req.start < 2 ^ 64 := by
    cases W with
    | w32 => exact Nat.lt_trans h (by decide)
    | w64 => exact h
  rw [Request.offset, BitVec.toNat_setWidth, BitVec.toNat_mul]
  change req.start % 2 ^ 64 % W.space = req.start
  rw [Nat.mod_eq_of_lt h64]
  exact Nat.mod_eq_of_lt h

/-- What is copied is part of the data and within the capacity, and it is all
only if all of it is. -/
theorem accepted_no_wrap (W : LongWidth) (offset : BitVec W.bits) (segs : List BioVec)
    (h : offset.toNat + (dataOf segs).length < W.space) :
    (dataOf (accepted W offset segs)).length ≤ (dataOf segs).length ∧
      (accepted W offset segs ≠ [] →
        offset.toNat + (dataOf (accepted W offset segs)).length ≤ 1024 * 512) ∧
      (segs.length ≤ (accepted W offset segs).length → segs ≠ [] →
        offset.toNat + (dataOf segs).length ≤ 1024 * 512) := by
  induction segs generalizing offset with
  | nil => exact ⟨Nat.le_refl _, fun hne => absurd rfl hne, fun _ hne => absurd rfl hne⟩
  | cons bvec segs ih =>
    rw [dataOf_cons, List.length_append, ← Nat.add_assoc] at h
    have hlt : offset.toNat + bvec.bytes.length < W.space :=
      Nat.lt_of_le_of_lt (Nat.le_add_right _ _) h
    have hover := over_iff W hlt
    by_cases hgt : offset + BitVec.ofNat W.bits bvec.bytes.length >
        BitVec.ofNat W.bits (numSectors * myBlockSize)
    · simp only [accepted, if_pos hgt]
      refine ⟨Nat.zero_le _, fun hne => absurd rfl hne, fun hle => ?_⟩
      exact absurd hle (Nat.not_succ_le_zero _)
    · have hend := Nat.le_of_not_lt fun hgt' => hgt (hover.mpr hgt')
      have hnext := toNat_offset_add_lt W hlt
      obtain ⟨hle, hcap, hall⟩ := ih (offset + BitVec.ofNat W.bits bvec.bytes.length)
        (by rw [hnext]; exact h)
      rw [hnext] at hcap hall
      simp only [accepted, if_neg hgt, dataOf_cons, List.length_append, List.length_cons]
      refine ⟨Nat.add_le_add_left hle _, fun _ => ?_, fun hlen _ => ?_⟩
      · rw [← Nat.add_assoc]
        by_cases hnil : accepted W (offset + BitVec.ofNat W.bits bvec.bytes.length) segs = []
        · rw [hnil]
          exact hend
        · exact hcap hnil
      · rw [← Nat.add_assoc]
        by_cases hnil : segs = []
        · rw [hnil]
          exact hend
        · exact hall (Nat.le_of_succ_le_succ hlen) hnil

/-- What is copied of a request that does not wrap is a part of it, in its
place, and on the disk. -/
theorem address_no_wrap (W : LongWidth) {req : Request}
    (hwrap : req.start + req.data.length < W.space) {k : ℕ} (hk : k < (req.copied W).length) :
    req.address W k = req.start + k ∧ k < req.data.length ∧ req.start + k < 1024 * 512 := by
  have hoffset := toNat_offset W (Nat.lt_of_le_of_lt (Nat.le_add_right _ _) hwrap)
  obtain ⟨hle, hcap, -⟩ := accepted_no_wrap W (req.offset W) req.segs
    (by rw [hoffset]; exact hwrap)
  have hlt : k < req.data.length := Nat.lt_of_lt_of_le hk hle
  refine ⟨?_, hlt, ?_⟩
  · rw [Request.address, hoffset]
    exact Nat.mod_eq_of_lt (Nat.lt_trans (Nat.add_lt_add_left hlt _) hwrap)
  · rw [hoffset] at hcap
    refine Nat.lt_of_lt_of_le (Nat.add_lt_add_left hk _) (hcap fun hnil => ?_)
    rw [Request.copied, hnil] at hk
    exact Nat.not_lt_zero k hk

/-- And a segment of it is refused, unless it fits. -/
theorem refused_no_wrap (W : LongWidth) {req : Request}
    (hwrap : req.start + req.data.length < W.space) (hne : req.segs ≠ [])
    (hfit : ¬ req.InCapacity) :
    (accepted W (req.offset W) req.segs).length < req.segs.length := by
  have hoffset := toNat_offset W (Nat.lt_of_le_of_lt (Nat.le_add_right _ _) hwrap)
  obtain ⟨-, -, hall⟩ := accepted_no_wrap W (req.offset W) req.segs
    (by rw [hoffset]; exact hwrap)
  rw [hoffset] at hall
  by_contra hrefused
  exact hfit (hall (Nat.le_of_not_lt hrefused) hne)

/-- **Requests that do not wrap.** A request with segments, all of it in the
address space, is carried out exactly or refused as a whole if and only if it
fits, or is a read, or what is copied of it before a segment is refused was
there already. -/
theorem exact_iff_of_no_wrap (W : LongWidth) (mem : ℕ → Byte) (req : Request)
    (hwrap : req.start + req.data.length < W.space) (hne : req.segs ≠ []) :
    (blockQueueRq W mem req).Exact W mem req ↔
      req.InCapacity ∨ req.dir = .read ∨
        Mem.load mem req.start (req.copied W).length = req.copied W := by
  by_cases hfit : req.InCapacity
  · exact ⟨fun _ => Or.inl hfit, fun _ => exact_of_inCapacity W mem hfit⟩
  rw [exact_iff_harmless W mem hfit, or_iff_right hfit]
  constructor
  · intro hharmless
    cases hdir : req.dir with
    | read => exact Or.inl rfl
    | write =>
      refine Or.inr (Mem.load_eq_iff.mpr fun k hk => ?_)
      obtain ⟨haddress, hlt, hin⟩ := address_no_wrap W hwrap hk
      have hspace : (req.copied W).length ≤ k + W.space := by
        refine Nat.le_of_not_lt fun hgt => ?_
        -- the last byte copied would be a whole address space away
        have hlast := (address_no_wrap W hwrap hgt).2.1
        omega
      rw [← haddress]
      exact hharmless.same hdir k hk hspace (by rw [haddress]; exact hin)
  · intro hcond
    refine ⟨refused_no_wrap W hwrap hne hfit, fun k hk _ => ?_, fun hdir k hk _ _ => ?_⟩
    · obtain ⟨haddress, hlt, -⟩ := address_no_wrap W hwrap hk
      rw [haddress]
      exact ⟨Nat.le_add_right _ _, Nat.add_lt_add_left hlt _⟩
    · have hload := hcond.resolve_left (by rw [hdir]; decide)
      rw [(address_no_wrap W hwrap hk).1]
      exact Mem.load_eq_iff.mp hload k hk

/-- A write of one byte and another 512, at the last sector. -/
def straddling : Request :=
  ⟨1023, .write, [⟨[0xef], by decide⟩, ⟨List.replicate 512 0, by decide +kernel⟩]⟩

/-- A write of one byte at sector 2⁵⁵, which is 2⁶⁴ bytes from the start. -/
def farAway : Request := ⟨0x80000000000000, .write, [⟨[0xef], by decide⟩]⟩

/-- The first ends with an error, and its first byte is written; the second ends
with success, at the start of the disk. -/
theorem straddling_farAway :
    (blockQueueRq .w64 blockInit straddling).ended = [.ioerr] ∧
      (blockQueueRq .w64 blockInit straddling).mem 523776 = 0xef ∧
      ¬ (blockQueueRq .w64 blockInit straddling).Exact .w64 blockInit straddling ∧
      (blockQueueRq .w64 blockInit farAway).ended = [.ok] ∧
      (blockQueueRq .w64 blockInit farAway).mem 0 = 0xef ∧
      ¬ (blockQueueRq .w64 blockInit farAway).Exact .w64 blockInit farAway := by
  have hwritten : (blockQueueRq .w64 blockInit straddling).mem 523776 = 0xef := by
    decide +kernel
  have hended : (blockQueueRq .w64 blockInit farAway).ended = [.ok] := by decide +kernel
  refine ⟨by decide +kernel, hwritten, fun hexact => ?_, hended, by decide +kernel,
    fun hexact => ?_⟩
  · have hsame := hexact.mem (by decide +kernel) 523776 (by decide)
    rw [hwritten] at hsame
    cases hsame
  · have hioerr := hexact.ended (by decide +kernel)
    rw [hended] at hioerr
    cases hioerr

end Blk

end KernelDrvLearn
