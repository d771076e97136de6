import KernelDrvLearn.BlkProduce
import KernelDrvLearn.Circular
import KernelDrvLearn.Transition

/-!
# The byte stream of `myblkdev`

The ring of `myblkdev` between its kernel producer (`myblk_produce_data` of
`practice/myblkdev/myblkdev.c`) and its mapped consumer (`consume_ring` of
`practice/myblkdev/app/main.c`). Neither side holds a lock the other takes: each
load and store of a control word, and each byte copied, is a step, and the two
sides interleave in any way. The calls of the producer follow one another
(`mydev->lock`).

The control page is as `myblkprobe` leaves it and only these two write it. Then
nothing is lost, doubled or overwritten (`blk_stream`): what the consumer has
output, followed by the bytes it has still to read, is what the producer has
accepted. A producer that runs undisturbed does what `myblkProduceData` says
(`produce_alone`), and an undisturbed consumer empties the ring
(`consumeRing_drains`).
-/

namespace KernelDrvLearn

namespace Myblk

/-! ## The two programs

Producer and consumer, one load or store at a time. The size of a step is what the
hardware would guarantee, a word; everything a side has read it carries along in its own
state, where the other side cannot change it, though it may be out of date. -/

/-- A call of `myblk_produce_data`: its argument and the values it computed
from the indices it read. -/
structure Call where
  /-- the bytes of the argument -/
  src : List UInt8
  /-- the `head` it read -/
  head : BitVec 32
  /-- the `tail` it read -/
  tail : BitVec 32
  /-- the number of bytes it stores, `len` after the test of the free space -/
  len : BitVec 64

/-- The bytes it accepts: a prefix of its argument. -/
def Call.accepted (c : Call) : List UInt8 := c.src.take c.len.toNat

/-- Does it accept less than it was given? Then it has counted an overflow. -/
def Call.short (c : Call) : Bool := c.len.toNat < c.src.length

/-- The argument of a call as memory. -/
def Call.memory (c : Call) : ℕ → UInt8 := fun i => c.src.getD i 0

/-- `size_t len`, the length of the argument. -/
def lenOf (src : List UInt8) : BitVec 64 := BitVec.ofNat 64 src.length

/-- Where the producer stands in `myblk_produce_data`, with the values it has loaded. -/
inductive Producer where
  /-- in no call -/
  | idle
  /-- before it loads `ctrl->size` -/
  | loadSize (src : List UInt8)
  /-- before it loads `ctrl->head` -/
  | loadHead (src : List UInt8) (size : BitVec 32)
  /-- before it loads `ctrl->tail` -/
  | loadTail (src : List UInt8) (size head : BitVec 32)
  /-- before `ctrl->overflow++` -/
  | incOverflow (c : Call) (size : BitVec 32)
  /-- copying; the accesses still to come. With none left, before the store of
  `ctrl->head` -/
  | copy (c : Call) (size : BitVec 32) (todo : List (ℕ × ℕ))

/-- Where the consumer stands in `consume_ring`, with the values it has loaded. -/
inductive Consumer where
  /-- in no call -/
  | idle
  /-- at the `while`, with neither index loaded -/
  | test
  /-- at the `while`, with `ctrl->tail` loaded -/
  | testHead (tail : BitVec 32)
  /-- at the `while`, with `ctrl->head` loaded -/
  | testTail (head : BitVec 32)
  /-- before `tail = ctrl->tail` -/
  | bodyTail
  /-- before `head = ctrl->head` -/
  | bodyHead (tail : BitVec 32)
  /-- in the `else` branch, before it loads `ctrl->size` -/
  | bodySize (tail : BitVec 32)
  /-- in `fwrite(data + tail, 1, len, stdout)` with `k` bytes written. With all
  of them, before `ctrl->tail = next` -/
  | write (tail : BitVec 32) (len : BitVec 64) (k : ℕ) (next : BitVec 32)

/-- The shared memory, the two programs, and the stream so far. -/
structure State where
  /-- the control page and the data -/
  dev : Myblkdev
  /-- the producer -/
  producer : Producer
  /-- the consumer -/
  consumer : Consumer
  /-- record: the bytes the consumer has written out -/
  output : List UInt8
  /-- record: the finished calls of the producer, in order -/
  log : List Call

/-- What can happen next. -/
inductive Act where
  /-- a call `myblk_produce_data(mydev, src, len)` begins -/
  | produce (src : List UInt8)
  /-- a call `consume_ring(ctrl, data)` begins -/
  | consume
  /-- a step of the producer -/
  | prod
  /-- a step of the consumer. At the `while` C leaves the order of the two loads
  open; `headFirst` says which comes first -/
  | cons (headFirst : Bool)

/-- The producer has passed the test of the free space and begins to copy. -/
def startCopy (c : Call) (size : BitVec 32) : Producer :=
  .copy c size (if c.len > 0 then (copies c.head size c.len).flatMap Memcpy.bytes else [])

/-- One step of the producer: a load, a store, or a byte of the copy. -/
def prodStep (s : State) : Option State :=
  match s.producer with
  | .idle => none
  | .loadSize src => some { s with producer := .loadHead src s.dev.ctrl.size }
  | .loadHead src size => some { s with producer := .loadTail src size s.dev.ctrl.head }
  | .loadTail src size head =>
    let tail := s.dev.ctrl.tail
    let free := freeSpace head tail size
    let c : Call := ⟨src, head, tail, clampLen (lenOf src) free⟩
    if lenOf src > free.setWidth 64 then some { s with producer := .incOverflow c size }
    else some { s with producer := startCopy c size }
  | .incOverflow c size =>
    some { s with
      dev := ⟨{ s.dev.ctrl with overflow := s.dev.ctrl.overflow + 1 }, s.dev.data⟩
      producer := startCopy c size }
  | .copy c size todo =>
    match todo with
    | b :: todo =>
      some { s with
        dev := ⟨s.dev.ctrl, Function.update s.dev.data b.1 (c.memory b.2)⟩
        producer := .copy c size todo }
    | [] =>
      -- with nothing accepted `ctrl->head` is not stored
      let ctrl := if c.len > 0 then { s.dev.ctrl with head := nextHead c.head size c.len }
        else s.dev.ctrl
      some { s with dev := ⟨ctrl, s.dev.data⟩, producer := .idle, log := s.log ++ [c] }

/-- The two loads of the `while` are done. -/
def whileTest (tail head : BitVec 32) : Consumer := if tail ≠ head then .bodyTail else .idle

/-- One step of the consumer: a load, a store, or a byte of the `fwrite`. -/
def consStep (s : State) (headFirst : Bool) : Option State :=
  match s.consumer with
  | .idle => none
  | .test => some { s with consumer :=
      if headFirst then .testTail s.dev.ctrl.head else .testHead s.dev.ctrl.tail }
  | .testHead tail => some { s with consumer := whileTest tail s.dev.ctrl.head }
  | .testTail head => some { s with consumer := whileTest s.dev.ctrl.tail head }
  | .bodyTail => some { s with consumer := .bodyHead s.dev.ctrl.tail }
  | .bodyHead tail =>
    let head := s.dev.ctrl.head
    if tail < head then
      some { s with consumer := .write tail ((head - tail).setWidth 64) 0 head }
    else some { s with consumer := .bodySize tail }
  | .bodySize tail =>
    some { s with consumer := .write tail ((s.dev.ctrl.size - tail).setWidth 64) 0 0 }
  | .write tail len k next =>
    if k < len.toNat then
      some { s with
        consumer := .write tail len (k + 1) next
        output := s.output ++ [s.dev.data (tail.toNat + k)] }
    else some { s with
      dev := ⟨{ s.dev.ctrl with tail := next }, s.dev.data⟩, consumer := .test }

/-- One step of either side, or the beginning of a call. -/
def step (s : State) : Act → Option State
  | .produce src =>
    match s.producer with
    -- the length of an argument is a `size_t`
    | .idle => if src.length < 2 ^ 64 then some { s with producer := .loadSize src } else none
    | _ => none
  | .consume =>
    match s.consumer with
    | .idle => some { s with consumer := .test }
    | _ => none
  | .prod => prodStep s
  | .cons headFirst => consStep s headFirst

/-- The system after `myblkprobe`: `vzalloc`ed memory with `size` set. -/
def system : Lts State Act where
  init := ⟨⟨⟨0, 0, 65536, 0⟩, fun _ => 0⟩, .idle, .idle, [], []⟩
  step := step

/-! ## The stream

The purpose of the ring is that bytes come out in the order in which they went in. Which
bytes are still to come depends on where the two sides stand: during an `fwrite` some of
the bytes between the indices are out already. -/

/-- The number of bytes from index `tail` up to index `head`, around the ring. -/
def used (head tail : ℕ) : ℕ := (head + 65536 - tail) % 65536

/-- The bytes of the `fwrite` in progress that are written out already, with
`ctrl->tail` still before them. -/
def State.copied (s : State) : ℕ :=
  match s.consumer with
  | .write _ _ k _ => k
  | _ => 0

/-- The bytes the consumer has still to write out: those up to the head, from
the tail or from where its `fwrite` stands. -/
def State.unread (s : State) : List UInt8 :=
  window s.dev.data 65536 (s.dev.ctrl.tail.toNat + s.copied)
    (used s.dev.ctrl.head.toNat s.dev.ctrl.tail.toNat - s.copied)

/-- The calls that have passed the test of the free space. -/
def State.decided (s : State) : List Call :=
  match s.producer with
  | .copy c _ _ => s.log ++ [c]
  | _ => s.log

/-- The call stores as much of its argument as was free by the indices it read,
one byte always staying free. -/
def Call.Exact (c : Call) : Prop :=
  c.len.toNat = min c.src.length (65535 - used c.head.toNat c.tail.toNat)

/-! ## The invariant

Each side knows something that the other side's steps do not take away: the producer that
the space it has counted is free, as the consumer only makes more of it; the consumer that
the bytes it has counted are there, as the producer only adds to them. These two facts,
with the indices in range and the stream in order, are the invariant. -/

/-- The access that copies byte `j` of an argument. -/
def Call.byteAt (c : Call) (j : ℕ) : ℕ × ℕ := ((c.head.toNat + j) % 65536, j)

/-- Some bytes are copied behind the head, the rest is to come. -/
def Call.Copying (c : Call) (data : ℕ → UInt8) (todo : List (ℕ × ℕ)) : Prop :=
  ∃ k m, k + m = c.len.toNat ∧ todo = (List.range' k m).map c.byteAt ∧
    window data 65536 c.head.toNat k = c.src.take k

/-- What the call has computed is right, and still fits when `u` bytes of the
ring are in use. -/
structure Call.Ready (c : Call) (size head : BitVec 32) (u : ℕ) : Prop where
  /-- the size is that of the ring -/
  size_eq : size = 65536
  /-- the head it read is still the head -/
  head_eq : c.head = head
  /-- the length is exact -/
  exact : c.Exact
  /-- the bytes fit -/
  fits : u + c.len.toNat ≤ 65535

/-- What the producer knows, with `u` bytes of the ring in use. -/
def ProducerOk (dev : Myblkdev) (u : ℕ) : Producer → Prop
  | .idle => True
  | .loadSize src => src.length < 2 ^ 64
  | .loadHead src size => src.length < 2 ^ 64 ∧ size = 65536
  | .loadTail src size head => src.length < 2 ^ 64 ∧ size = 65536 ∧ head = dev.ctrl.head
  | .incOverflow c size => c.Ready size dev.ctrl.head u ∧ c.short = true
  | .copy c size todo => c.Ready size dev.ctrl.head u ∧ c.Copying dev.data todo

/-- What the consumer knows: a ring seen non-empty stays so, and the bytes of
an `fwrite` stay where they are. -/
def ConsumerOk (ctrl : MyblkRingCtrl) (u : ℕ) : Consumer → Prop
  | .idle => True
  | .test => True
  | .testHead tail => tail = ctrl.tail
  | .testTail head => ctrl.tail ≠ head → u ≠ 0
  | .bodyTail => u ≠ 0
  | .bodyHead tail => tail = ctrl.tail ∧ u ≠ 0
  | .bodySize tail => tail = ctrl.tail ∧ 65536 ≤ tail.toNat + u
  | .write tail len k next =>
    tail = ctrl.tail ∧ 0 < len.toNat ∧ k ≤ len.toNat ∧ len.toNat ≤ u ∧
      tail.toNat + len.toNat ≤ 65536 ∧ next.toNat = (tail.toNat + len.toNat) % 65536

/-- The invariant, with `u` bytes of the ring in use. -/
structure State.Inv (s : State) (u : ℕ) : Prop where
  /-- the size is never written -/
  size_eq : s.dev.ctrl.size = 65536
  /-- the indices are `u` apart -/
  head_eq : s.dev.ctrl.head.toNat = (s.dev.ctrl.tail.toNat + u) % 65536
  /-- the tail is in the ring -/
  tail_lt : s.dev.ctrl.tail.toNat < 65536
  /-- one byte stays free -/
  used_le : u ≤ 65535
  /-- nothing beyond the head is written out -/
  copied_le : s.copied ≤ u
  /-- the stream -/
  stream : s.output ++ window s.dev.data 65536 (s.dev.ctrl.tail.toNat + s.copied) (u - s.copied) =
    s.log.flatMap Call.accepted
  /-- the producer -/
  producer : ProducerOk s.dev u s.producer
  /-- the consumer -/
  consumer : ConsumerOk s.dev.ctrl u s.consumer
  /-- every call accepts what it should -/
  exact : ∀ c ∈ s.decided, c.Exact
  /-- `overflow` counts the short calls -/
  overflow : s.dev.ctrl.overflow.toNat = s.decided.countP Call.short % 4294967296

theorem init_inv : system.init.Inv 0 :=
  ⟨rfl, rfl, by decide, Nat.zero_le _, le_refl _, rfl, trivial, trivial,
    fun c hc => absurd hc List.not_mem_nil, rfl⟩

/-- The number of bytes in use is that between the indices. -/
theorem State.Inv.used_eq {s : State} {u : ℕ} (h : s.Inv u) :
    used s.dev.ctrl.head.toNat s.dev.ctrl.tail.toNat = u := by
  have hhead := h.head_eq
  have htail := h.tail_lt
  have hused := h.used_le
  simp only [used]
  omega

/-- The ring is empty exactly when the indices are equal. -/
theorem State.Inv.empty_iff {s : State} {u : ℕ} (h : s.Inv u) :
    s.dev.ctrl.tail = s.dev.ctrl.head ↔ u = 0 := by
  have hhead := h.head_eq
  have htail := h.tail_lt
  have hused := h.used_le
  rw [← BitVec.toNat_inj]
  omega

/-! ## The producer keeps the invariant

The producer writes behind the head only, into space that is free by an old tail and so by
the current one. Nothing changes for the consumer until the head is stored, and then the
new bytes are the next ones of the stream. -/

theorem lenOf_toNat {src : List UInt8} (h : src.length < 2 ^ 64) :
    (lenOf src).toNat = src.length := Nat.mod_eq_of_lt h

/-- The free space by indices of the ring. -/
theorem room_eq {head tail : ℕ} (hhead : head < 65536) (htail : tail < 65536) :
    room head tail 65536 = 65535 - used head tail := by
  simp only [room, used]
  split <;> omega

/-- The accesses of a copy of `len` bytes to `head`: byte by byte around the
ring, wherever the copy is split. -/
theorem copies_bytes (c : Call) (hhead : c.head.toNat < 65536) (hlen : c.len.toNat ≤ 65536) :
    (copies c.head 65536 c.len).flatMap Memcpy.bytes = (List.range c.len.toNat).map c.byteAt := by
  have hsize : (65536 : BitVec 32).toNat = 65536 := rfl
  rcases Nat.lt_or_ge 65536 (c.head.toNat + c.len.toNat) with hcross | hfit
  · have hfirst : ((65536 : BitVec 32) - c.head).toNat = 65536 - c.head.toNat := by
      rw [BitVec.toNat_sub, hsize]
      omega
    have hsecond : (c.len - ((65536 : BitVec 32) - c.head).setWidth 64).toNat =
        c.len.toNat - (65536 - c.head.toNat) := by
      rw [BitVec.toNat_sub, BitVec.toNat_setWidth, hfirst]
      omega
    rw [copies_of_lt (by omega) (by rw [hsize]; exact hcross), hfirst, hsecond]
    obtain ⟨second, hsum⟩ := Nat.exists_eq_add_of_le
      (show 65536 - c.head.toNat ≤ c.len.toNat by omega)
    rw [hsum, Nat.add_sub_cancel_left, List.range_add, List.map_append, List.map_map]
    simp only [List.flatMap_cons, List.flatMap_nil, List.append_nil, Memcpy.bytes]
    refine congrArg₂ (· ++ ·) ?_ ?_
    · refine List.map_congr_left fun k hk => ?_
      have hk' := List.mem_range.mp hk
      simp only [Call.byteAt, Prod.mk.injEq]
      omega
    · refine List.map_congr_left fun k hk => ?_
      have hk' := List.mem_range.mp hk
      simp only [Call.byteAt, Function.comp, Prod.mk.injEq, and_true]
      omega
  · rw [copies_of_le (by omega) (by rw [hsize]; exact hfit)]
    simp only [List.flatMap_cons, List.flatMap_nil, List.append_nil, Memcpy.bytes]
    refine List.map_congr_left fun k hk => ?_
    have hk' := List.mem_range.mp hk
    simp only [Call.byteAt, Prod.mk.injEq]
    omega

/-- The call is ready when it has loaded the tail. -/
theorem Call.ready_of_load {s : State} {u : ℕ} (h : s.Inv u) {src : List UInt8}
    (hsrc : src.length < 2 ^ 64) :
    Call.Ready ⟨src, s.dev.ctrl.head, s.dev.ctrl.tail, clampLen (lenOf src)
      (freeSpace s.dev.ctrl.head s.dev.ctrl.tail 65536)⟩ 65536 s.dev.ctrl.head u := by
  have hlen : (clampLen (lenOf src) (freeSpace s.dev.ctrl.head s.dev.ctrl.tail 65536)).toNat =
      min src.length (65535 - u) := by
    have hhead := h.head_eq
    rw [clampLen_toNat, lenOf_toNat hsrc, freeSpace_toNat,
      show (65536 : BitVec 32).toNat = 65536 from rfl, room_eq (by omega) h.tail_lt, h.used_eq]
  refine ⟨rfl, rfl, ?_, ?_⟩
  · simp only [Call.Exact, hlen, h.used_eq]
  · have hused := h.used_le
    simp only [hlen]
    omega

/-- A call that is ready begins to copy. -/
theorem Call.Ready.startCopy {dev : Myblkdev} {c : Call} {size : BitVec 32} {u : ℕ}
    (h : c.Ready size dev.ctrl.head u) (hhead : dev.ctrl.head.toNat < 65536) :
    ProducerOk dev u (Myblk.startCopy c size) := by
  refine ⟨h, 0, c.len.toNat, Nat.zero_add _, ?_, rfl⟩
  have hfits := h.fits
  rw [h.size_eq, copies_bytes c (by rw [h.head_eq]; exact hhead) (by omega), List.range_eq_range']
  split
  case isTrue => rfl
  case isFalse hpos =>
    have hzero : c.len.toNat = 0 := Nat.eq_zero_of_not_pos hpos
    rw [hzero]
    rfl

/-- One more byte is copied. -/
theorem Call.Copying.next {c : Call} {data : ℕ → UInt8} {b : ℕ × ℕ} {todo : List (ℕ × ℕ)}
    (h : c.Copying data (b :: todo)) (hlen : c.len.toNat ≤ c.src.length)
    (hsize : c.len.toNat ≤ 65535) :
    ∃ k, k < c.len.toNat ∧ b = c.byteAt k ∧
      c.Copying (Function.update data b.1 (c.memory b.2)) todo := by
  obtain ⟨k, m, hkm, htodo, hdone⟩ := h
  rcases m with _ | m
  · cases htodo
  obtain ⟨rfl, rfl⟩ := List.cons_eq_cons.mp htodo
  have hk : k < c.src.length := by omega
  refine ⟨k, by omega, rfl, k + 1, m, by omega, rfl, ?_⟩
  simp only [Call.byteAt, Call.memory]
  rw [window.push (by omega), hdone, List.take_add_one, List.getD_eq_getElem?_getD,
    List.getElem?_eq_getElem hk]
  rfl

/-- The consumer knows no less when the ring gets fuller. -/
theorem ConsumerOk.mono {ctrl ctrl' : MyblkRingCtrl} {u u' : ℕ} {cs : Consumer}
    (h : ConsumerOk ctrl u cs) (htail : ctrl'.tail = ctrl.tail) (hu : u ≤ u') :
    ConsumerOk ctrl' u' cs := by
  cases cs with
  | idle | test => trivial
  | testHead tail => exact h.trans htail.symm
  | testTail head =>
    intro hne
    have hpos := h (htail ▸ hne)
    omega
  | bodyTail => exact fun hz => h (by omega)
  | bodyHead tail => exact ⟨h.1.trans htail.symm, fun hz => h.2 (by omega)⟩
  | bodySize tail =>
    obtain ⟨heq, hle⟩ := h
    exact ⟨heq.trans htail.symm, by omega⟩
  | write tail len k next =>
    obtain ⟨heq, hpos, hk, hlen, hend, hnext⟩ := h
    exact ⟨heq.trans htail.symm, hpos, hk, by omega, hend, hnext⟩

/-- The producer does not disturb the bytes in use. -/
theorem State.Inv.copy_window {s : State} {u k : ℕ} (h : s.Inv u) (hfits : u + k < 65536)
    (v : UInt8) : window (Function.update s.dev.data ((s.dev.ctrl.head.toNat + k) % 65536) v) 65536
      (s.dev.ctrl.tail.toNat + s.copied) (u - s.copied) =
    window s.dev.data 65536 (s.dev.ctrl.tail.toNat + s.copied) (u - s.copied) := by
  have hcopied := h.copied_le
  have hidx : (s.dev.ctrl.head.toNat + k) % 65536 =
      (s.dev.ctrl.tail.toNat + s.copied + (u - s.copied + k)) % 65536 := by
    rw [h.head_eq]
    omega
  rw [hidx, window.update_of_le (by omega) (by omega)]

/-- The published bytes are the next ones of the stream. -/
theorem State.Inv.publish {s : State} {u : ℕ} (h : s.Inv u) {c : Call} {size : BitVec 32}
    (hready : c.Ready size s.dev.ctrl.head u) (hcopying : c.Copying s.dev.data []) :
    s.output ++ window s.dev.data 65536 (s.dev.ctrl.tail.toNat + s.copied)
      (u + c.len.toNat - s.copied) = (s.log ++ [c]).flatMap Call.accepted := by
  obtain ⟨k, m, hkm, htodo, hdone⟩ := hcopying
  have hm : m = 0 := by
    rcases m with _ | m
    · rfl
    · cases htodo
  have hk : k = c.len.toNat := by omega
  have hnew : window s.dev.data 65536 (s.dev.ctrl.tail.toNat + u) c.len.toNat = c.accepted := by
    rw [← window.mod_tail, ← h.head_eq, ← hready.head_eq, ← hk]
    exact hdone.trans (by rw [hk]; rfl)
  rw [Nat.sub_add_comm h.copied_le, window.add, ← List.append_assoc, h.stream, window.mod_tail,
    Nat.add_assoc, Nat.add_sub_cancel' h.copied_le, hnew, List.flatMap_append,
    List.flatMap_singleton]

/-- The head stored is as many bytes further. -/
theorem State.Inv.nextHead_eq {s : State} {u : ℕ} (h : s.Inv u) {c : Call} {size : BitVec 32}
    (hready : c.Ready size s.dev.ctrl.head u) :
    (nextHead c.head size c.len).toNat = (s.dev.ctrl.tail.toNat + (u + c.len.toNat)) % 65536 := by
  have hfits := hready.fits
  rw [hready.size_eq, nextHead_toNat (by omega) (by decide), hready.head_eq, h.head_eq,
    ← Nat.add_assoc]
  exact Nat.mod_add_mod ..

/-- **The producer's step.** It keeps the invariant, with the bytes in use as they were or
grown by its call. -/
theorem State.Inv.prodStep {s t : State} {u : ℕ} (h : s.Inv u)
    (hs : Myblk.prodStep s = some t) : ∃ u', t.Inv u' := by
  have hhead := h.head_eq
  have hhead_lt : s.dev.ctrl.head.toNat < 65536 := by omega
  have hpr := h.producer
  have hexact := h.exact
  have hover := h.overflow
  rcases hp : s.producer with
      _ | src | ⟨src, size⟩ | ⟨src, size, head⟩ | ⟨c, size⟩ | ⟨c, size, todo⟩ <;>
    rw [hp] at hpr <;> simp only [Myblk.prodStep, hp] at hs <;>
    simp only [decided, hp] at hexact hover
  case idle => cases hs
  case loadSize =>
    obtain rfl := Option.some.inj hs
    exact ⟨u, h.size_eq, h.head_eq, h.tail_lt, h.used_le, h.copied_le, h.stream,
      ⟨hpr, h.size_eq⟩, h.consumer, hexact, hover⟩
  case loadHead =>
    obtain rfl := Option.some.inj hs
    exact ⟨u, h.size_eq, h.head_eq, h.tail_lt, h.used_le, h.copied_le, h.stream,
      ⟨hpr.1, hpr.2, rfl⟩, h.consumer, hexact, hover⟩
  case loadTail =>
    obtain ⟨hsrc, hsize, hhd⟩ := hpr
    rw [hsize, hhd] at hs
    have hready := Call.ready_of_load h hsrc
    have hfree := (freeSpace s.dev.ctrl.head s.dev.ctrl.tail 65536).isLt
    have hlen := clampLen_toNat (lenOf src) (freeSpace s.dev.ctrl.head s.dev.ctrl.tail 65536)
    rw [lenOf_toNat hsrc] at hlen
    simp only [gt_iff_lt, BitVec.lt_def, BitVec.toNat_setWidth, lenOf_toNat hsrc] at hs
    split at hs
    case isTrue hlt =>
      obtain rfl := Option.some.inj hs
      refine ⟨u, h.size_eq, h.head_eq, h.tail_lt, h.used_le, h.copied_le, h.stream,
        ⟨hready, ?_⟩, h.consumer, hexact, hover⟩
      simp only [Call.short, hlen, decide_eq_true_eq]
      omega
    case isFalse hge =>
      obtain rfl := Option.some.inj hs
      have hshort : Call.short ⟨src, s.dev.ctrl.head, s.dev.ctrl.tail, clampLen (lenOf src)
          (freeSpace s.dev.ctrl.head s.dev.ctrl.tail 65536)⟩ = false := by
        simp only [Call.short, hlen, decide_eq_false_iff_not]
        omega
      refine ⟨u, h.size_eq, h.head_eq, h.tail_lt, h.used_le, h.copied_le, h.stream,
        hready.startCopy hhead_lt, h.consumer, List.forall_mem_append.mpr
          ⟨hexact, List.forall_mem_singleton.mpr hready.exact⟩, ?_⟩
      simp only [decided, Myblk.startCopy, List.countP_append, List.countP_singleton, hshort]
      exact hover
  case incOverflow =>
    obtain rfl := Option.some.inj hs
    obtain ⟨hready, hshort⟩ := hpr
    refine ⟨u, h.size_eq, h.head_eq, h.tail_lt, h.used_le, h.copied_le, h.stream,
      Call.Ready.startCopy hready hhead_lt, h.consumer.mono rfl (le_refl u),
      List.forall_mem_append.mpr ⟨hexact, List.forall_mem_singleton.mpr hready.exact⟩, ?_⟩
    simp only [decided, Myblk.startCopy, List.countP_append, List.countP_singleton, hshort,
      if_true, BitVec.toNat_add, hover]
    exact Nat.mod_add_mod ..
  case copy =>
    obtain ⟨hready, hcopying⟩ := hpr
    have hfits := hready.fits
    rcases todo with _ | ⟨b, todo⟩ <;> obtain rfl := Option.some.inj hs
    · -- the copied bytes become part of the ring
      have hstream := h.publish hready hcopying
      by_cases hpos : c.len > 0
      · simp only [if_pos hpos]
        exact ⟨u + c.len.toNat, h.size_eq, h.nextHead_eq hready, h.tail_lt, hfits,
          le_trans h.copied_le (Nat.le_add_right _ _), hstream, trivial,
          h.consumer.mono rfl (Nat.le_add_right _ _), hexact, hover⟩
      · have hzero : c.len.toNat = 0 := Nat.eq_zero_of_not_pos hpos
        simp only [if_neg hpos]
        rw [hzero, Nat.add_zero] at hstream
        exact ⟨u, h.size_eq, h.head_eq, h.tail_lt, h.used_le, h.copied_le, hstream, trivial,
          h.consumer, hexact, hover⟩
    · have hlen : c.len.toNat ≤ c.src.length := by
        have hex := hready.exact
        simp only [Call.Exact] at hex
        omega
      obtain ⟨k, hk, rfl, hcopying'⟩ := hcopying.next hlen (by omega)
      refine ⟨u, h.size_eq, h.head_eq, h.tail_lt, h.used_le, h.copied_le, ?_,
        ⟨hready, hcopying'⟩, h.consumer, hexact, hover⟩
      rw [← h.stream]
      refine congrArg (s.output ++ ·) ?_
      rw [← h.copy_window (k := k) (by omega) (c.memory k), ← hready.head_eq]
      rfl

/-! ## The consumer keeps the invariant

The consumer reads between the tail and an old head. It takes the bytes out when it stores
the tail, and until then they are in use, so that the producer leaves them alone. -/

/-- A step of the consumer that only moves it, to a place outside an `fwrite`
or to the start of one. -/
theorem State.Inv.move {s : State} {u : ℕ} (h : s.Inv u) (hout : s.copied = 0) {cs : Consumer}
    (hcs : ConsumerOk s.dev.ctrl u cs) (hcopied : State.copied { s with consumer := cs } = 0) :
    State.Inv { s with consumer := cs } u := by
  have hstream := h.stream
  rw [hout] at hstream
  refine ⟨h.size_eq, h.head_eq, h.tail_lt, h.used_le, ?_, ?_, h.producer, hcs, h.exact, h.overflow⟩
  · rw [hcopied]
    exact Nat.zero_le u
  · rw [hcopied]
    exact hstream

/-- The `while` continues only on a ring that is not empty. -/
theorem whileTest_ok {ctrl : MyblkRingCtrl} {u : ℕ} {tail head : BitVec 32}
    (h : tail ≠ head → u ≠ 0) : ConsumerOk ctrl u (whileTest tail head) := by
  simp only [whileTest]
  split
  case isTrue hne => exact h hne
  case isFalse => trivial

theorem whileTest_copied (s : State) (tail head : BitVec 32) :
    State.copied { s with consumer := whileTest tail head } = 0 := by
  simp only [whileTest]
  split <;> rfl

/-- The producer's bytes fit all the more when the ring gets emptier. -/
theorem ProducerOk.mono {dev dev' : Myblkdev} {u u' : ℕ} {pr : Producer}
    (h : ProducerOk dev u pr) (hhead : dev'.ctrl.head = dev.ctrl.head)
    (hdata : dev'.data = dev.data) (hu : u' ≤ u) : ProducerOk dev' u' pr := by
  have hready : ∀ {c : Call} {size : BitVec 32}, c.Ready size dev.ctrl.head u →
      c.Ready size dev'.ctrl.head u' := fun hr =>
    ⟨hr.size_eq, hr.head_eq.trans hhead.symm, hr.exact,
      le_trans (Nat.add_le_add_right hu _) hr.fits⟩
  cases pr with
  | idle | loadSize src | loadHead src size => exact h
  | loadTail src size head => exact ⟨h.1, h.2.1, h.2.2.trans hhead.symm⟩
  | incOverflow c size => exact ⟨hready h.1, h.2⟩
  | copy c size todo => exact ⟨hready h.1, hdata ▸ h.2⟩

/-- The ring holds the rest of the `fwrite` and what is behind it. -/
theorem State.Inv.fwrite {s : State} {u k : ℕ} (h : s.Inv u) (hcopied : s.copied = k) (hk : k < u)
    (hend : s.dev.ctrl.tail.toNat + k < 65536) :
    s.output ++ [s.dev.data (s.dev.ctrl.tail.toNat + k)] ++
      window s.dev.data 65536 (s.dev.ctrl.tail.toNat + (k + 1)) (u - (k + 1)) =
    s.log.flatMap Call.accepted := by
  rw [← h.stream, hcopied]
  obtain ⟨m, hm⟩ : ∃ m, u - k = m + 1 := ⟨u - k - 1, by omega⟩
  rw [hm, show u - (k + 1) = m by omega, window.succ_left, window.mod_tail,
    Nat.mod_eq_of_lt hend, List.append_assoc]
  rfl

/-- **The consumer's step.** It keeps the invariant, with the bytes in use as they were or
fewer by its `fwrite`. -/
theorem State.Inv.consStep {s t : State} {u : ℕ} {headFirst : Bool} (h : s.Inv u)
    (hs : Myblk.consStep s headFirst = some t) : ∃ u', t.Inv u' := by
  have hhead := h.head_eq
  have htail := h.tail_lt
  have hused := h.used_le
  have hempty := h.empty_iff
  have hcs := h.consumer
  rcases hc : s.consumer with _ | _ | tail | head | _ | tail | tail | ⟨tail, len, k, next⟩ <;>
    rw [hc] at hcs <;> simp only [Myblk.consStep, hc] at hs
  case idle => cases hs
  case test =>
    obtain rfl := Option.some.inj hs
    refine ⟨u, h.move (by simp only [copied, hc]) ?_ ?_⟩
    · cases headFirst with
      | false => exact rfl
      | true => exact fun hne => mt hempty.mpr hne
    · cases headFirst <;> rfl
  case testHead =>
    obtain rfl := Option.some.inj hs
    refine ⟨u, h.move (by simp only [copied, hc]) (whileTest_ok ?_) (whileTest_copied ..)⟩
    rw [hcs]
    exact mt hempty.mpr
  case testTail =>
    obtain rfl := Option.some.inj hs
    exact ⟨u, h.move (by simp only [copied, hc]) (whileTest_ok hcs) (whileTest_copied ..)⟩
  case bodyTail =>
    obtain rfl := Option.some.inj hs
    exact ⟨u, h.move (by simp only [copied, hc]) ⟨rfl, hcs⟩ rfl⟩
  case bodyHead =>
    obtain ⟨rfl, hpos⟩ := hcs
    simp only [BitVec.lt_def] at hs
    split at hs
    case isTrue hlt =>
      -- the bytes in use are those up to the head
      obtain rfl := Option.some.inj hs
      have hlen : ((s.dev.ctrl.head - s.dev.ctrl.tail).setWidth 64).toNat = u := by
        rw [BitVec.toNat_setWidth, BitVec.toNat_sub]
        omega
      refine ⟨u, h.move (by simp only [copied, hc]) ⟨rfl, ?_, Nat.zero_le _, ?_, ?_, ?_⟩ rfl⟩ <;>
        rw [hlen] <;> omega
    case isFalse hge =>
      -- they reach around the end
      obtain rfl := Option.some.inj hs
      exact ⟨u, h.move (by simp only [copied, hc]) ⟨rfl, by omega⟩ rfl⟩
  case bodySize =>
    obtain ⟨rfl, hwrap⟩ := hcs
    obtain rfl := Option.some.inj hs
    have hlen : ((s.dev.ctrl.size - s.dev.ctrl.tail).setWidth 64).toNat =
        65536 - s.dev.ctrl.tail.toNat := by
      rw [h.size_eq, BitVec.toNat_setWidth, BitVec.toNat_sub,
        show (65536 : BitVec 32).toNat = 65536 from rfl]
      omega
    have hzero : (0 : BitVec 32).toNat = 0 := rfl
    refine ⟨u, h.move (by simp only [copied, hc]) ⟨rfl, ?_, Nat.zero_le _, ?_, ?_, ?_⟩ rfl⟩ <;>
      rw [hlen] <;> omega
  case write =>
    obtain ⟨rfl, hpos, hk, hlen, hend, hnext⟩ := hcs
    have hcopied : s.copied = k := by simp only [copied, hc]
    split at hs
    case isTrue hlt =>
      obtain rfl := Option.some.inj hs
      exact ⟨u, h.size_eq, h.head_eq, h.tail_lt, h.used_le, (show k + 1 ≤ u by omega),
        h.fwrite hcopied (by omega) (by omega), h.producer, ⟨rfl, hpos, hlt, hlen, hend, hnext⟩,
        h.exact, h.overflow⟩
    case isFalse hge =>
      -- the tail moves behind the bytes written out
      obtain rfl := Option.some.inj hs
      have hk' : k = len.toNat := by omega
      have hstream := h.stream
      rw [hcopied, hk', ← window.mod_tail, ← hnext] at hstream
      refine ⟨u - len.toNat, h.size_eq, ?_, ?_, by omega, Nat.zero_le _, hstream, ?_, trivial,
        h.exact, h.overflow⟩
      · change s.dev.ctrl.head.toNat = (next.toNat + (u - len.toNat)) % 65536
        omega
      · change next.toNat < 65536
        omega
      · exact h.producer.mono rfl rfl (Nat.sub_le ..)

/-! ## The stream in every reachable state

From the two step lemmas, for any interleaving of any length. -/

/-- **Step lemma.** Every step of either side keeps the invariant. -/
theorem State.Inv.step {s t : State} {u : ℕ} {a : Act} (h : s.Inv u)
    (hs : Myblk.step s a = some t) : ∃ u', t.Inv u' := by
  cases a with
  | produce src =>
    have hexact := h.exact
    have hover := h.overflow
    simp only [Myblk.step] at hs
    split at hs
    case h_1 hp =>
      simp only [decided, hp] at hexact hover
      split at hs
      case isTrue hsrc =>
        obtain rfl := Option.some.inj hs
        exact ⟨u, h.size_eq, h.head_eq, h.tail_lt, h.used_le, h.copied_le, h.stream, hsrc,
          h.consumer, hexact, hover⟩
      case isFalse => cases hs
    case h_2 => cases hs
  | consume =>
    simp only [Myblk.step] at hs
    split at hs
    case h_1 hc =>
      obtain rfl := Option.some.inj hs
      exact ⟨u, h.move (by simp only [copied, hc]) trivial rfl⟩
    case h_2 => cases hs
  | prod => exact h.prodStep hs
  | cons headFirst => exact h.consStep hs

theorem reach_inv {s : State} (h : system.Reach (fun _ _ => True) s) : ∃ u, s.Inv u := by
  refine Lts.Reach.invariant (I := fun s => ∃ u, s.Inv u) ⟨0, init_inv⟩ ?_ h
  rintro s a t ⟨u, hi⟩ - hs
  exact hi.step hs

/-- **The byte stream.** In every state the two sides can reach, at every step
of either:

* both indices are in the ring;
* the bytes the consumer has written out, followed by those it has still to
  read, are the accepted bytes of the calls, in order;
* every call stores as many bytes as were free by the indices it read, or all;
* `overflow` counts, modulo `2 ^ 32`, the calls that stored less.

The indices a side goes by may be old by the time it uses them. They can only err to the
safe side: while the producer copies, the consumer makes room, and while the consumer
reads, the producer adds bytes behind those it has seen. One byte always stays free, so
a full ring is never taken for an empty one. -/
theorem blk_stream {s : State} (h : system.Reach (fun _ _ => True) s) :
    s.dev.ctrl.head.toNat < s.dev.ctrl.size.toNat ∧
    s.dev.ctrl.tail.toNat < s.dev.ctrl.size.toNat ∧
    s.output ++ s.unread = s.log.flatMap Call.accepted ∧
    (∀ c ∈ s.decided, c.Exact) ∧
    s.dev.ctrl.overflow.toNat = s.decided.countP Call.short % 4294967296 := by
  obtain ⟨u, hi⟩ := reach_inv h
  have hsize : s.dev.ctrl.size.toNat = 65536 := by
    rw [hi.size_eq]
    rfl
  have hhead := hi.head_eq
  have htail := hi.tail_lt
  refine ⟨by omega, by omega, ?_, hi.exact, hi.overflow⟩
  rw [State.unread, hi.used_eq]
  exact hi.stream

/-- Three bytes are stored, and while the consumer writes them out two more. -/
def threeThenTwo : List Act :=
  .produce [1, 2, 3] :: List.replicate 7 .prod ++
    [.consume, .cons false, .cons false, .produce [4, 5]] ++
    (List.replicate 5 [.cons false, .prod]).flatten ++ [.prod]

theorem blk_stream_threeThenTwo : ∃ s, system.exec system.init threeThenTwo = some s ∧
    s.output ++ s.unread = s.log.flatMap Call.accepted ∧ s.output = [1, 2, 3] ∧
    s.unread = [4, 5] := by
  have hrun : system.Run (fun _ _ => True) threeThenTwo := by decide +kernel
  exact ⟨_, rfl, (blk_stream (Lts.Reach.init.exec hrun rfl)).2.2.1, by decide +kernel,
    by decide +kernel⟩

/-- The producer stores one byte; the consumer writes it out. -/
def oneByte : List Act :=
  [.produce [7], .prod, .prod, .prod, .prod, .prod, .consume, .cons false, .cons false,
    .cons false, .cons false, .cons false]

/-- Between the `fwrite` and the store of the tail the byte is written out and
still between the indices. -/
theorem oneByte_twice : ∃ s, system.exec system.init oneByte = some s ∧
    s.output ++ window s.dev.data 65536 s.dev.ctrl.tail.toNat
      (used s.dev.ctrl.head.toNat s.dev.ctrl.tail.toNat) ≠ s.log.flatMap Call.accepted :=
  ⟨_, rfl, by decide +kernel⟩

/-! ## Each side alone

What a call does when nobody else moves is what the function computes: the steps of the
producer together are `myblkProduceData`, and those of the consumer empty the ring. This
ties the stepwise programs to the functions of the source. -/

theorem system_prod (s : State) : system.step s .prod = prodStep s := rfl

theorem system_cons (s : State) (headFirst : Bool) :
    system.step s (.cons headFirst) = consStep s headFirst := rfl

/-- The copy loop, undisturbed: all accesses are made, in their order. -/
theorem copy_alone {s : State} {c : Call} {size : BitVec 32} {todo : List (ℕ × ℕ)}
    (hp : s.producer = .copy c size todo) :
    system.Repeats .prod s { s with
      dev := ⟨s.dev.ctrl, copyBytes c.memory s.dev.data todo⟩, producer := .copy c size [] } := by
  induction todo generalizing s with
  | nil =>
    have hs : { s with dev := ⟨s.dev.ctrl, s.dev.data⟩, producer := .copy c size [] } = s := by
      rw [← hp]
    rw [copyBytes, List.foldl_nil, hs]
    exact Lts.Repeats.refl ..
  | cons b todo ih =>
    have hs : system.step s .prod = some { s with
        dev := ⟨s.dev.ctrl, Function.update s.dev.data b.1 (c.memory b.2)⟩
        producer := .copy c size todo } := by
      rw [system_prod]
      simp only [prodStep, hp]
    exact Lts.Repeats.head hs (ih rfl)

/-- From the start of the copy to the end of the call. -/
theorem startCopy_alone {s : State} {c : Call} {size : BitVec 32}
    (hp : s.producer = startCopy c size) :
    system.Repeats .prod s { s with
      dev := if c.len > 0 then
          ⟨{ s.dev.ctrl with head := nextHead c.head size c.len },
            copyBytes c.memory s.dev.data ((copies c.head size c.len).flatMap Memcpy.bytes)⟩
        else s.dev
      producer := .idle, log := s.log ++ [c] } := by
  refine Lts.Repeats.trans (copy_alone hp) (Lts.Repeats.head ?_ (Lts.Repeats.refl ..))
  rw [system_prod]
  simp only [prodStep]
  split <;> rfl

/-- The call as it is computed from the control words found. -/
def callOf (ctrl : MyblkRingCtrl) (src : List UInt8) : Call :=
  ⟨src, ctrl.head, ctrl.tail, clampLen (lenOf src) (freeSpace ctrl.head ctrl.tail ctrl.size)⟩

/-- The device after `myblkProduceData`, when `% size` does not fault. -/
theorem myblkProduceData_dev {dev : Myblkdev} {src : ℕ → UInt8} {len : BitVec 64}
    (hsize : dev.ctrl.size ≠ 0) :
    let free := freeSpace dev.ctrl.head dev.ctrl.tail dev.ctrl.size
    let ctrl := if len > free.setWidth 64 then
      { dev.ctrl with overflow := dev.ctrl.overflow + 1 } else dev.ctrl
    (myblkProduceData dev src len).dev =
      if clampLen len free > 0 then
        ⟨{ ctrl with head := nextHead dev.ctrl.head dev.ctrl.size (clampLen len free) },
          copyBytes src dev.data
            ((copies dev.ctrl.head dev.ctrl.size (clampLen len free)).flatMap Memcpy.bytes)⟩
      else ⟨ctrl, dev.data⟩ := by
  simp only [myblkProduceData, if_neg hsize]
  split <;> rfl

/-- **An undisturbed call** of the producer leaves the device as
`myblkProduceData` says. -/
theorem produce_alone {s : State} {src : List UInt8} (hp : s.producer = .loadSize src)
    (hsize : s.dev.ctrl.size ≠ 0) :
    system.Repeats .prod s { s with
      dev := (myblkProduceData s.dev (callOf s.dev.ctrl src).memory (lenOf src)).dev
      producer := .idle, log := s.log ++ [callOf s.dev.ctrl src] } := by
  refine Lts.Repeats.head (t := { s with producer := .loadHead src s.dev.ctrl.size }) ?_ ?_
  · rw [system_prod]
    simp only [prodStep, hp]
  refine Lts.Repeats.head
    (t := { s with producer := .loadTail src s.dev.ctrl.size s.dev.ctrl.head }) rfl ?_
  rw [myblkProduceData_dev hsize]
  have hcopy := fun dev => startCopy_alone (c := callOf s.dev.ctrl src)
    (s := { s with dev := dev, producer := startCopy (callOf s.dev.ctrl src) s.dev.ctrl.size }) rfl
  by_cases hlt : lenOf src > (freeSpace s.dev.ctrl.head s.dev.ctrl.tail s.dev.ctrl.size).setWidth 64
  · rw [if_pos hlt]
    refine Lts.Repeats.head
      (t := { s with producer := .incOverflow (callOf s.dev.ctrl src) s.dev.ctrl.size }) ?_ ?_
    · rw [system_prod]
      simp only [prodStep, if_pos hlt]
      rfl
    · exact Lts.Repeats.head rfl
        (hcopy ⟨{ s.dev.ctrl with overflow := s.dev.ctrl.overflow + 1 }, s.dev.data⟩)
  · rw [if_neg hlt]
    refine Lts.Repeats.head ?_ (hcopy s.dev)
    rw [system_prod]
    simp only [prodStep, if_neg hlt]
    rfl

/-- The `fwrite` and the store of the tail, undisturbed. -/
theorem write_alone {tail : BitVec 32} {len : BitVec 64} {next : BitVec 32}
    {b : Bool} (m : ℕ) : ∀ {s : State} {k : ℕ}, s.consumer = .write tail len k next →
    k + m = len.toNat → ∃ output, system.Repeats (.cons b) s { s with
      dev := ⟨{ s.dev.ctrl with tail := next }, s.dev.data⟩, consumer := .test
      output := output } := by
  induction m with
  | zero =>
    intro s k hc hk
    refine ⟨s.output, Lts.Repeats.head ?_ (Lts.Repeats.refl ..)⟩
    rw [system_cons]
    simp only [consStep, hc, if_neg (show ¬ k < len.toNat by omega)]
  | succ m ih =>
    intro s k hc hk
    obtain ⟨output, hrest⟩ := ih (s := { s with
      consumer := .write tail len (k + 1) next
      output := s.output ++ [s.dev.data (tail.toNat + k)] }) rfl (by omega)
    refine ⟨output, Lts.Repeats.head ?_ hrest⟩
    rw [system_cons]
    simp only [consStep, hc, if_pos (show k < len.toNat by omega)]

theorem State.Inv.repeats {s t : State} {u : ℕ} {a : Act} (h : s.Inv u)
    (hr : system.Repeats a s t) : ∃ u', t.Inv u' :=
  hr.invariant (I := fun s => ∃ u, s.Inv u) (fun _ _ ⟨_, hi⟩ hs => hi.step hs) ⟨u, h⟩

/-- The two loads of the `while`, undisturbed. -/
theorem while_alone {s : State} {b : Bool} (hc : s.consumer = .test) :
    system.Repeats (.cons b) s
      { s with consumer := whileTest s.dev.ctrl.tail s.dev.ctrl.head } := by
  refine Lts.Repeats.head
    (t := { s with
      consumer := if b then .testTail s.dev.ctrl.head else .testHead s.dev.ctrl.tail })
    ?_ (Lts.Repeats.head ?_ (Lts.Repeats.refl ..))
  · rw [system_cons]
    simp only [consStep, hc]
  · cases b <;> rfl

/-- The body up to the `fwrite`, undisturbed. -/
theorem body_alone {s : State} {b : Bool} (hc : s.consumer = .bodyTail) :
    ∃ len next, system.Repeats (.cons b) s
      { s with consumer := .write s.dev.ctrl.tail len 0 next } := by
  have htail : system.step s (.cons b) =
      some { s with consumer := .bodyHead s.dev.ctrl.tail } := by
    rw [system_cons]
    simp only [consStep, hc]
  by_cases hlt : s.dev.ctrl.tail < s.dev.ctrl.head
  · refine ⟨(s.dev.ctrl.head - s.dev.ctrl.tail).setWidth 64, s.dev.ctrl.head,
      Lts.Repeats.head htail (Lts.Repeats.head ?_ (Lts.Repeats.refl ..))⟩
    rw [system_cons]
    simp only [consStep, if_pos hlt]
  · refine ⟨(s.dev.ctrl.size - s.dev.ctrl.tail).setWidth 64, 0, Lts.Repeats.head htail
      (Lts.Repeats.head (t := { s with consumer := .bodySize s.dev.ctrl.tail }) ?_
        (Lts.Repeats.head rfl (Lts.Repeats.refl ..)))⟩
    rw [system_cons]
    simp only [consStep, if_neg hlt]

/-- One turn of the loop leaves fewer bytes in use. -/
theorem round_alone {s : State} {u : ℕ} {b : Bool} (h : s.Inv u) (hc : s.consumer = .test)
    (hu : u ≠ 0) : ∃ t u', system.Repeats (.cons b) s t ∧ t.consumer = .test ∧ t.log = s.log ∧
      t.Inv u' ∧ u' < u := by
  have hne : s.dev.ctrl.tail ≠ s.dev.ctrl.head := mt h.empty_iff.mp hu
  have hwhile := while_alone (b := b) hc
  rw [whileTest, if_pos hne] at hwhile
  obtain ⟨len, next, hbody⟩ := body_alone (b := b)
    (s := { s with consumer := .bodyTail }) rfl
  have hstart := hwhile.trans hbody
  -- the invariant bounds the `fwrite`
  obtain ⟨u₁, h₁⟩ := h.repeats hstart
  have hu₁ : u₁ = u := h₁.used_eq.symm.trans h.used_eq
  obtain ⟨-, hpos, -, hlen, -, hnext⟩ := h₁.consumer
  obtain ⟨output, hwrite⟩ := write_alone (b := b) (s := { s with
    consumer := .write s.dev.ctrl.tail len 0 next }) len.toNat rfl (Nat.zero_add _)
  have hround := hstart.trans hwrite
  obtain ⟨u', h'⟩ := h.repeats hround
  refine ⟨_, u', hround, rfl, rfl, h', ?_⟩
  have hhead := h.head_eq
  have htail := h.tail_lt
  have hused := h.used_le
  have hhead' : s.dev.ctrl.head.toNat = (next.toNat + u') % 65536 := h'.head_eq
  have hnext' : next.toNat = (s.dev.ctrl.tail.toNat + len.toNat) % 65536 := hnext
  have hused' := h'.used_le
  omega

theorem loop_drains {s : State} {u : ℕ} {b : Bool} (h : s.Inv u) (hc : s.consumer = .test) :
    ∃ t, system.Repeats (.cons b) s t ∧ t.consumer = .idle ∧ t.log = s.log ∧ t.Inv 0 := by
  induction u using Nat.strong_induction_on generalizing s with
  | _ u ih =>
    by_cases hu : u = 0
    · subst hu
      have hwhile := while_alone (b := b) hc
      rw [whileTest, if_neg (not_not_intro (h.empty_iff.mpr rfl))] at hwhile
      exact ⟨_, hwhile, rfl, rfl, h.move (by simp only [State.copied, hc]) trivial rfl⟩
    · obtain ⟨s', u', hround, hc', hlog, h', hlt⟩ := round_alone (b := b) h hc hu
      obtain ⟨t, hrest, hidle, hlog', ht⟩ := ih u' hlt h' hc'
      exact ⟨t, hround.trans hrest, hidle, hlog'.trans hlog, ht⟩

/-- **An undisturbed consumer** returns, with the ring empty and the bytes it
held written out. -/
theorem consumeRing_drains {s : State} (h : system.Reach (fun _ _ => True) s)
    (hc : s.consumer = .test) (b : Bool) :
    ∃ t, system.Repeats (.cons b) s t ∧ t.consumer = .idle ∧
      t.dev.ctrl.tail = t.dev.ctrl.head ∧ t.output = s.output ++ s.unread := by
  obtain ⟨u, hi⟩ := reach_inv h
  obtain ⟨t, hloop, hidle, hlog, ht⟩ := loop_drains (b := b) hi hc
  refine ⟨t, hloop, hidle, ht.empty_iff.mpr rfl, ?_⟩
  have hend := ht.stream
  rw [Nat.zero_sub, window.zero, List.append_nil, hlog] at hend
  rw [State.unread, hi.used_eq, hend]
  exact hi.stream.symm

end Myblk

end KernelDrvLearn
