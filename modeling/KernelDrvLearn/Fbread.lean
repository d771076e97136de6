import KernelDrvLearn.KernelApi
import KernelDrvLearn.Ringbuf
import KernelDrvLearn.Transition

/-!
# Reading the fake bell: `myfbread` against the interrupt thread

`myfbread` of `practice/myfakebell/myfakebell.c`, run by any number of readers
while `myirq_bottom` pushes samples. Each `ringbuf_push`, `ringbuf_getsize` and
`ringbuf_pop` is one step (they hold the ring's lock); the rest of `myfbread` is
local and goes with the ring operation before it. The sleep in
`wait_event_interruptible` ends when its condition holds, or by a signal.

* With **one** reader the sample stream is exact: what was delivered, followed
  by the ring, is what was pushed with the counted drops deleted; a read
  delivers exactly as many samples as it promised and no pop fails.
* With **several** readers the size read before the loop is stale by the time it
  is used. The calls are right exactly as long as no reader comes to a pop, or
  to the second `ringbuf_getsize`, and finds the ring drained by the others.
-/

namespace KernelDrvLearn

/-- `sizeof(struct rbdata)`, a 64-bit timestamp and two words. -/
abbrev rbdataBytes : ℕ := 16

namespace Fbread

/-! ## The call

`myfbread` between the ring operations. What it has read from the ring it keeps in `len`,
and what it has promised itself may be taken away by another reader before it comes back
to the ring. -/

/-- A call `myfbread(fp, usrbuf, count, off)`: its arguments, the variable
`len`, and a record of what it did. -/
structure Call where
  /-- the size of the user buffer -/
  count : ℕ
  /-- is `O_NONBLOCK` set in `fp->f_flags`? -/
  nonblock : Bool
  /-- the variable `len` -/
  len : Int
  /-- record: the result of its last `ringbuf_getsize` -/
  sizeRead : Int
  /-- record: the samples it popped, in order -/
  popped : List Rbdata
  /-- record: its successful writes to user memory, as offset and sample -/
  writes : List (Int × Rbdata)

/-- Where a reader stands in `myfbread`, with its call. -/
inductive Reader where
  /-- no call yet -/
  | idle
  /-- before the first `ringbuf_getsize` -/
  | enter (c : Call)
  /-- in `wait_event_interruptible` -/
  | wait (c : Call)
  /-- woken, before the second `ringbuf_getsize` -/
  | resize (c : Call)
  /-- in the loop, before the pop of index `i` -/
  | loop (c : Call) (i offset : Int)
  /-- returned -/
  | done (c : Call) (ret : Int)

/-- A call that has just begun, with nothing popped and nothing returned. -/
def begin (count : ℕ) (nonblock : Bool) : Call := ⟨count, nonblock, 0, 0, [], []⟩

/-- `if (len > count / sizeof(struct rbdata)) len = count / sizeof(struct rbdata)`;
the comparison converts `len` to `unsigned long`. -/
def clampLen (len : Int) (count : ℕ) : Int :=
  if toUlong len > count / rbdataBytes then wrap32 (count / rbdataBytes : ℕ) else len

/-- The head of the `for` loop with `ret == 0`: one more pop, or
`return offset`. -/
def loopHead (c : Call) (i offset : Int) : Reader :=
  if i < c.len then .loop c i offset else .done c offset

/-- The reader enters the loop with the size it has just read. -/
def startLoop (c : Call) (size : Int) : Reader :=
  loopHead { c with len := clampLen size c.count, sizeRead := size } 0 0

/-- What one step of a reader leaves: the reader, the ring and the samples
delivered to the user by the step. -/
structure Result where
  /-- the reader -/
  reader : Reader
  /-- the ring -/
  ring : Ringbuf
  /-- the samples delivered -/
  out : List Rbdata

/-- One step of `myfbread`. `copied` says whether `copy_to_user` succeeds, at
the steps that reach one. A reader asleep on an empty ring, or not in a call,
has no step. -/
def Reader.run (r : Ringbuf) (copied : Bool) : Reader → Option Result
  | idle => none
  | enter c =>
    let len := ringbufGetsize r
    if len = 0 then
      if c.nonblock then some ⟨done { c with sizeRead := len } eagain, r, []⟩
      else some ⟨wait { c with sizeRead := len }, r, []⟩
    else some ⟨startLoop c len, r, []⟩
  | wait c => if ringbufGetsize r ≠ 0 then some ⟨resize c, r, []⟩ else none
  | resize c => some ⟨startLoop c (ringbufGetsize r), r, []⟩
  | loop c i offset =>
    -- `v` is uninitialised here; it is used only after a pop has written it
    let res := ringbufPop r Rbdata.zero
    if res.ret ≠ 0 then some ⟨done c res.ret, res.ring, []⟩
    else
      let c := { c with popped := c.popped ++ [res.v] }
      if copied then
        let c := { c with writes := c.writes ++ [(offset, res.v)] }
        some ⟨loopHead c (i + 1) (wrap32 (offset + rbdataBytes)), res.ring, [res.v]⟩
      else some ⟨done c efault, res.ring, []⟩
  | done _ _ => none

/-! ## The device

The ring with all its readers and the interrupt thread. Which samples were pushed and
which delivered is recorded on the side, as what the statements are about. -/

/-- The ring, the readers, and the record of the sample stream so far. -/
structure State where
  /-- `mydev->myrb` -/
  ring : Ringbuf
  /-- the readers -/
  reader : ℕ → Reader
  /-- record: the samples pushed by `myirq_bottom` -/
  pushed : List Rbdata
  /-- record: the samples delivered by all reads -/
  delivered : List Rbdata

/-- What can happen next: a push, or a step of some reader. -/
inductive Act where
  /-- `myirq_bottom` pushes a sample -/
  | push (v : Rbdata)
  /-- reader `p` calls `read` -/
  | read (p : ℕ) (count : ℕ) (nonblock : Bool)
  /-- reader `p` takes a step; `copied` is the outcome of `copy_to_user` -/
  | run (p : ℕ) (copied : Bool)
  /-- a signal ends the sleep of reader `p` -/
  | signal (p : ℕ)

/-- Is the reader outside any call? -/
def Reader.free : Reader → Bool
  | idle => true
  | done _ _ => true
  | _ => false

/-- One step of the device: of the interrupt thread or of a reader. -/
def step (s : State) : Act → Option State
  | .push v => some { s with ring := ringbufPush s.ring v, pushed := s.pushed ++ [v] }
  | .read p count nonblock =>
    if (s.reader p).free then
      some { s with reader := Function.update s.reader p (.enter (begin count nonblock)) }
    else none
  | .run p copied =>
    ((s.reader p).run s.ring copied).map fun res =>
      { s with
        ring := res.ring
        reader := Function.update s.reader p res.reader
        delivered := s.delivered ++ res.out }
  | .signal p =>
    match s.reader p with
    | .wait c => some { s with reader := Function.update s.reader p (.done c erestartsys) }
    | _ => none

/-- The device after probe, with an empty ring and nobody reading. -/
def device : Lts State Act where
  init := ⟨ringbufInit, fun _ => .idle, [], []⟩
  step := step

/-! ## What one step of a reader does

On a well-formed ring the steps are the following eight, one constructor each;
every later argument is a case analysis of this relation. -/

/-- The call after a successful pop and copy of `x`. -/
def Call.took (c : Call) (offset : Int) (x : Rbdata) : Call :=
  { c with popped := c.popped ++ [x], writes := c.writes ++ [(offset, x)] }

/-- The steps of a reader, by what it finds in the ring. -/
inductive Reader.Steps (r : Ringbuf) : Bool → Reader → Result → Prop
  /-- nothing to read and `O_NONBLOCK` -/
  | again {copied : Bool} {c : Call} (hempty : r.abs = []) (hnb : c.nonblock = true) :
      Steps r copied (.enter c) ⟨.done { c with sizeRead := 0 } eagain, r, []⟩
  /-- nothing to read: sleep -/
  | sleep {copied : Bool} {c : Call} (hempty : r.abs = []) (hnb : c.nonblock = false) :
      Steps r copied (.enter c) ⟨.wait { c with sizeRead := 0 }, r, []⟩
  /-- something to read -/
  | start {copied : Bool} {c : Call} (hne : r.abs ≠ []) :
      Steps r copied (.enter c) ⟨startLoop c r.abs.length, r, []⟩
  /-- the sleep ends -/
  | wake {copied : Bool} {c : Call} (hne : r.abs ≠ []) :
      Steps r copied (.wait c) ⟨.resize c, r, []⟩
  /-- the size is read again -/
  | restart {copied : Bool} {c : Call} :
      Steps r copied (.resize c) ⟨startLoop c r.abs.length, r, []⟩
  /-- the pop fails -/
  | drained {copied : Bool} {c : Call} {i offset : Int} (hempty : r.abs = []) :
      Steps r copied (.loop c i offset) ⟨.done c (-1), r, []⟩
  /-- a sample is popped and copied -/
  | pop {c : Call} {i offset : Int} {x : Rbdata} {xs : List Rbdata} (hcons : r.abs = x :: xs) :
      Steps r true (.loop c i offset)
        ⟨loopHead (c.took offset x) (i + 1) (wrap32 (offset + 16)),
          (ringbufPop r Rbdata.zero).ring, [x]⟩
  /-- a sample is popped, its copy faults -/
  | fault {c : Call} {i offset : Int} {x : Rbdata} {xs : List Rbdata} (hcons : r.abs = x :: xs) :
      Steps r false (.loop c i offset)
        ⟨.done { c with popped := c.popped ++ [x] } efault,
          (ringbufPop r Rbdata.zero).ring, []⟩

theorem Reader.run_steps {r : Ringbuf} (hr : r.WF) {copied : Bool} {rd : Reader} {res : Result}
    (h : rd.run r copied = some res) : Reader.Steps r copied rd res := by
  have hsize : ringbufGetsize r = r.abs.length := hr.abs_length.symm
  cases rd with
  | idle => cases h
  | enter c =>
    simp only [run, hsize] at h
    -- an empty ring ends a nonblocking call and puts the others to sleep
    rcases habs : r.abs with _ | ⟨x, xs⟩ <;> rw [habs] at h
    · rw [if_pos (by rfl)] at h
      rcases hnb : c.nonblock with _ | _
      · rw [if_neg (by rw [hnb]; decide)] at h
        obtain rfl := Option.some.inj h
        exact .sleep habs hnb
      · rw [if_pos hnb] at h
        obtain rfl := Option.some.inj h
        exact .again habs hnb
    · have hne : r.abs ≠ [] := by rw [habs]; exact List.cons_ne_nil x xs
      have hlen : ¬ (((x :: xs).length : ℕ) : Int) = 0 := by
        rw [List.length_cons]
        omega
      rw [if_neg hlen, ← habs] at h
      obtain rfl := Option.some.inj h
      exact .start hne
  | wait c =>
    -- the condition of `wait_event_interruptible` is tested again
    simp only [run, hsize] at h
    split at h
    · rename_i hlen
      obtain rfl := Option.some.inj h
      refine .wake fun hnil => hlen ?_
      rw [hnil]
      rfl
    · cases h
  | resize c =>
    simp only [run, hsize] at h
    obtain rfl := Option.some.inj h
    exact .restart
  | loop c i offset =>
    simp only [run] at h
    rcases habs : r.abs with _ | ⟨x, xs⟩
    · rw [ringbufPop_empty hr habs, if_pos (show (-1 : Int) ≠ 0 by decide)] at h
      obtain rfl := Option.some.inj h
      exact .drained habs
    · obtain ⟨hret, hv, -, -, -⟩ := ringbufPop_cons hr habs Rbdata.zero
      rw [hret, hv, if_neg (by decide)] at h
      rcases copied with _ | _
      · obtain rfl := Option.some.inj h
        exact .fault habs
      · obtain rfl := Option.some.inj h
        exact .pop habs
  | done c ret => cases h

/-! ## The books of a call

Whatever the other readers do: a call in its loop has popped `i` samples,
copied them to adjacent places, and is bounded by the size it read and by its
buffer. -/

/-- `m` is the number of samples the call promised: the size it read, or what
fits its buffer. -/
structure Call.Sized (c : Call) (m : ℕ) : Prop where
  eq_min : (m : Int) = min c.sizeRead (c.count / 16 : ℕ)
  le : m ≤ 64

/-- The call popped `n` samples and delivered each of them, the `k`-th to the
`k`-th place of the user buffer. -/
structure Call.Did (c : Call) (n : ℕ) : Prop where
  popped : c.popped.length = n
  writes : c.writes = c.popped.mapIdx fun k v => (((16 * k : ℕ) : Int), v)

theorem Call.Did.took {c : Call} {n : ℕ} (h : c.Did n) (x : Rbdata) :
    (c.took (16 * n : ℕ) x).Did (n + 1) := by
  obtain ⟨hp, hw⟩ := h
  refine ⟨?_, ?_⟩
  · change (c.popped ++ [x]).length = n + 1
    rw [List.length_append, hp]
    rfl
  · change c.writes ++ [(((16 * n : ℕ) : Int), x)] = _
    simp only [Call.took, List.mapIdx_append, hw, hp]
    simp

/-- The books of a reader, at each place of `myfbread`. -/
def Reader.Inv : Reader → Prop
  | idle => True
  | enter c => c.Did 0
  | wait c => c.Did 0
  | resize c => c.Did 0
  | loop c i offset => ∃ n m : ℕ, i = n ∧ c.len = m ∧ n < m ∧ c.Sized m ∧ c.Did n ∧
      offset = (16 * n : ℕ)
  | done c ret => 0 ≤ ret → ∃ m : ℕ, c.Sized m ∧ c.Did m ∧ ret = (16 * m : ℕ)

theorem clampLen_eq {len : Int} {count : ℕ} (hlo : 0 ≤ len) (hhi : len ≤ 64) :
    clampLen len count = min len (count / 16 : ℕ) := by
  obtain ⟨n, rfl⟩ := Int.eq_ofNat_of_zero_le hlo
  have hulong : toUlong (n : Int) = n := toUlong_natCast (by simp only [intMax]; omega)
  rw [clampLen, hulong]
  change (if n > count / 16 then wrap32 (count / 16 : ℕ) else (n : Int)) = _
  by_cases h : n > count / 16
  · rw [if_pos h, wrap32_of_range (by omega) (by simp only [intMax]; omega)]
    omega
  · rw [if_neg h]
    omega

/-- The offset does not wrap: the samples promised fit the ring. -/
theorem Call.Sized.next_offset {c : Call} {n m : ℕ} (hs : c.Sized m) (hnm : n < m) :
    wrap32 (((16 * n : ℕ) : Int) + 16) = (16 * (n + 1) : ℕ) := by
  have hm := hs.le
  rw [wrap32_of_range (by omega) (by simp only [intMax]; omega)]
  omega

/-- At the head of the loop, with the books right. -/
theorem loopHead_inv {c : Call} {n m : ℕ} (hlen : c.len = m) (hnm : n ≤ m) (hs : c.Sized m)
    (hd : c.Did n) : (loopHead c n (16 * n : ℕ)).Inv := by
  by_cases h : (n : Int) < c.len
  · rw [loopHead, if_pos h]
    exact ⟨n, m, rfl, hlen, by omega, hs, hd, rfl⟩
  · rw [loopHead, if_neg h]
    obtain rfl : n = m := by omega
    exact fun _ => ⟨n, hs, hd, rfl⟩

/-- The number of samples a call promises when it reads the size `size`. -/
theorem startLoop_sized {c : Call} (hd : c.Did 0) {size : ℕ} (hsize : size ≤ 64) :
    ∃ (c' : Call) (m : ℕ), startLoop c size = loopHead c' 0 0 ∧ c'.len = m ∧ c'.Sized m ∧
      c'.Did 0 ∧ c'.count = c.count ∧ c'.nonblock = c.nonblock ∧ c'.sizeRead = size := by
  refine ⟨{ c with len := clampLen size c.count, sizeRead := size },
    min size (c.count / 16), rfl, ?_, ⟨?_, ?_⟩, ⟨hd.popped, hd.writes⟩, rfl, rfl, rfl⟩
  · change clampLen size c.count = _
    rw [clampLen_eq (by omega) (by omega)]
    omega
  · change ((min size (c.count / 16) : ℕ) : Int) = min (size : Int) (c.count / 16 : ℕ)
    omega
  · omega

/-- **One step keeps the books**, whatever the other readers did to the ring. -/
theorem Reader.Steps.inv {r : Ringbuf} (hr : r.WF) {copied : Bool} {rd : Reader} {res : Result}
    (h : Reader.Steps r copied rd res) (hi : rd.Inv) : res.reader.Inv := by
  have hle := hr.abs_length_le
  cases h with
  | again => exact fun h => absurd h (by decide)
  | sleep => exact ⟨hi.popped, hi.writes⟩
  | start hne =>
    obtain ⟨c', m, heq, hlen, hs, hd, -⟩ := startLoop_sized hi hle
    change (startLoop _ _).Inv
    rw [heq]
    exact loopHead_inv hlen (Nat.zero_le m) hs hd
  | wake => exact hi
  | restart =>
    obtain ⟨c', m, heq, hlen, hs, hd, -⟩ := startLoop_sized hi hle
    change (startLoop _ _).Inv
    rw [heq]
    exact loopHead_inv hlen (Nat.zero_le m) hs hd
  | drained => exact fun h => absurd h (by decide)
  | @pop c i offset x xs hcons =>
    obtain ⟨n, m, rfl, hlen, hnm, hs, hd, rfl⟩ := hi
    change (loopHead _ _ _).Inv
    rw [hs.next_offset hnm]
    exact loopHead_inv (c := c.took _ x) (n := n + 1) hlen hnm ⟨hs.eq_min, hs.le⟩ (hd.took x)
  | fault => exact fun h => absurd h (by decide)

/-! ## Steps of the device

The system's steps in terms of the relation above: a push, a call that begins or ends, and
the step of one reader, which does to the ring what that relation says. -/

/-- The steps of the device, with what each of them found. -/
inductive Moves (s : State) : Act → State → Prop
  /-- a push -/
  | push (v : Rbdata) :
      Moves s (.push v) { s with ring := ringbufPush s.ring v, pushed := s.pushed ++ [v] }
  /-- a new call -/
  | read {p count : ℕ} {nonblock : Bool} (hfree : (s.reader p).free = true) :
      Moves s (.read p count nonblock)
        { s with reader := Function.update s.reader p (.enter (begin count nonblock)) }
  /-- a step of a reader -/
  | run {p : ℕ} {copied : Bool} {res : Result}
      (hsteps : Reader.Steps s.ring copied (s.reader p) res) :
      Moves s (.run p copied)
        { s with
          ring := res.ring
          reader := Function.update s.reader p res.reader
          delivered := s.delivered ++ res.out }
  /-- a signal -/
  | signal {p : ℕ} {c : Call} (hwait : s.reader p = .wait c) :
      Moves s (.signal p)
        { s with reader := Function.update s.reader p (.done c erestartsys) }

theorem step_moves {s t : State} {a : Act} (hr : s.ring.WF) (h : step s a = some t) :
    Moves s a t := by
  cases a with
  | push v =>
    obtain rfl := Option.some.inj h
    exact .push v
  | read p count nonblock =>
    simp only [step] at h
    split at h
    · rename_i hfree
      obtain rfl := Option.some.inj h
      exact .read hfree
    · cases h
  | run p copied =>
    obtain ⟨res, hres, rfl⟩ := Option.map_eq_some_iff.mp h
    exact .run (Reader.run_steps hr hres)
  | signal p =>
    simp only [step] at h
    rcases hrd : s.reader p <;> rw [hrd] at h
    case wait c =>
      obtain rfl := Option.some.inj h
      exact .signal hrd
    all_goals cases h

/-- A step of a reader is a step of the device. -/
theorem step_run {s : State} {p : ℕ} {copied : Bool} {res : Result}
    (h : (s.reader p).run s.ring copied = some res) :
    device.step s (.run p copied) = some { s with
      ring := res.ring
      reader := Function.update s.reader p res.reader
      delivered := s.delivered ++ res.out } := by
  change Option.map _ ((s.reader p).run s.ring copied) = _
  rw [h, Option.map_some]

/-- A step of a reader leaves the ring as it is, or pops one sample. -/
theorem Reader.Steps.ring {r : Ringbuf} {copied : Bool} {rd : Reader} {res : Result}
    (h : Reader.Steps r copied rd res) :
    (res.ring = r ∧ res.out = []) ∨
      (res.ring = (ringbufPop r Rbdata.zero).ring ∧
        ∃ x xs, r.abs = x :: xs ∧ (copied = true → res.out = [x])) := by
  cases h with
  | pop hcons => exact Or.inr ⟨rfl, _, _, hcons, fun _ => rfl⟩
  | fault hcons => exact Or.inr ⟨rfl, _, _, hcons, fun h => by cases h⟩
  | again | sleep | start | wake | restart | drained => exact Or.inl ⟨rfl, rfl⟩

theorem Reader.Steps.ring_wf {r : Ringbuf} (hr : r.WF) {copied : Bool} {rd : Reader}
    {res : Result} (h : Reader.Steps r copied rd res) : res.ring.WF := by
  rcases h.ring with ⟨hring, -⟩ | ⟨hring, x, xs, hcons, -⟩ <;> rw [hring]
  · exact hr
  · exact (ringbufPop_cons hr hcons Rbdata.zero).2.2.1

/-- What holds under every interleaving: a well-formed ring and right books. -/
structure State.Inv (s : State) : Prop where
  wf : s.ring.WF
  books : ∀ p, (s.reader p).Inv

theorem State.Inv.init : device.init.Inv := ⟨Ringbuf.WF.init, fun _ => trivial⟩

theorem begin_did (count : ℕ) (nonblock : Bool) : (begin count nonblock).Did 0 := ⟨rfl, rfl⟩

/-- A property of all readers survives the update of one that has it. -/
theorem forall_update {P : Reader → Prop} {f : ℕ → Reader} (hf : ∀ q, P (f q)) {p : ℕ}
    {rd : Reader} (hrd : P rd) : ∀ q, P (Function.update f p rd q) :=
  (Function.forall_update_iff f fun _ x => P x).mpr ⟨hrd, fun q _ => hf q⟩

/-- **Step lemma** for what holds under every interleaving. -/
theorem State.Inv.moves {s t : State} {a : Act} (hi : s.Inv) (h : Moves s a t) : t.Inv := by
  obtain ⟨hwf, hbooks⟩ := hi
  cases h with
  | push v => exact ⟨ringbufPush_wf hwf v, hbooks⟩
  | read => exact ⟨hwf, forall_update hbooks (begin_did _ _)⟩
  | run hsteps =>
    exact ⟨hsteps.ring_wf hwf, forall_update hbooks (hsteps.inv hwf (hbooks _))⟩
  | signal => exact ⟨hwf, forall_update hbooks fun h => absurd h (by decide)⟩

/-! ## One reader: the sample stream

With one reader nobody takes a sample between its look at the size and its pops. Pushes do
not disturb it either: on a full ring they exchange old samples for new ones, and there
are never fewer than it has seen. So each pop finds a sample, the oldest, and the
deliveries are the ring's own order. -/

/-- The runs with one reader whose copies all succeed. -/
def OneReader (_ : State) : Act → Prop
  | .push _ => True
  | .read p _ _ => p = 0
  | .run p copied => p = 0 ∧ copied = true
  | .signal p => p = 0

instance OneReader.decidable (s : State) : ∀ a, Decidable (OneReader s a)
  | .push _ => isTrue trivial
  | .read p _ _ => inferInstanceAs (Decidable (p = 0))
  | .run p copied => inferInstanceAs (Decidable (p = 0 ∧ copied = true))
  | .signal p => inferInstanceAs (Decidable (p = 0))

/-- The ring still holds every sample the reader means to pop. -/
def Reader.Enough (r : Ringbuf) : Reader → Prop
  | loop c i _ => c.len - i ≤ r.abs.length
  | _ => True

/-- The history of the ring, as a ledger that the ring represents. -/
def State.Stream (s : State) : Prop :=
  ∃ L : Ledger Rbdata 64, L.pushed = s.pushed ∧ L.popped = s.delivered ∧
    s.ring.Rep ⟨L.queue, L.drops⟩

theorem State.Stream.push {s : State} (h : s.Stream) (v : Rbdata) :
    State.Stream { s with ring := ringbufPush s.ring v, pushed := s.pushed ++ [v] } := by
  obtain ⟨L, hpushed, hpopped, hrep⟩ := h
  refine ⟨L.push v, ?_, hpopped, hrep.push v⟩
  rw [← hpushed]
  rfl

theorem State.Stream.run {s : State} (h : s.Stream) {rd : Reader} {res : Result}
    (hsteps : Reader.Steps s.ring true rd res) (reader : ℕ → Reader) :
    State.Stream { s with
      ring := res.ring, reader := reader, delivered := s.delivered ++ res.out } := by
  obtain ⟨L, hpushed, hpopped, hrep⟩ := h
  rcases hsteps.ring with ⟨hring, hout⟩ | ⟨hring, x, xs, hcons, hout⟩
  · refine ⟨L, hpushed, ?_, ?_⟩
    · change L.popped = s.delivered ++ res.out
      rw [hout, List.append_nil, hpopped]
    · change res.ring.Rep _
      rw [hring]
      exact hrep
  · refine ⟨L.pop, hpushed, ?_, ?_⟩
    · change L.popped ++ L.queue.items.head?.toList = s.delivered ++ res.out
      have hitems : L.queue.items = x :: xs := hrep.abs.symm.trans hcons
      rw [hout rfl, hpopped, hitems]
      rfl
    · change res.ring.Rep _
      rw [hring]
      exact hrep.pop Rbdata.zero

/-- Pushes never take samples away from the reader: on a full ring they only
exchange the oldest for a newer one. -/
theorem Reader.Enough.push {r : Ringbuf} (hr : r.WF) {rd : Reader} (h : rd.Enough r)
    (v : Rbdata) : rd.Enough (ringbufPush r v) := by
  have hle := ringbufPush_length_le hr v
  cases rd with
  | loop c i offset =>
    have h' : c.len - i ≤ r.abs.length := h
    change c.len - i ≤ ((ringbufPush r v).abs.length : Int)
    omega
  | idle | enter | wait | resize | done => trivial

/-- In its loop the reader finds a sample. -/
theorem Reader.Enough.ne_nil {r : Ringbuf} {c : Call} {i offset : Int}
    (he : (Reader.loop c i offset).Enough r) (hi : (Reader.loop c i offset).Inv) : r.abs ≠ [] := by
  intro hempty
  obtain ⟨n, m, rfl, hlen, hnm, -⟩ := hi
  have he : c.len - n ≤ r.abs.length := he
  rw [hempty, hlen, List.length_nil] at he
  omega

theorem loopHead_enough {c : Call} {r : Ringbuf} {i offset : Int}
    (h : c.len - i ≤ r.abs.length) : (loopHead c i offset).Enough r := by
  by_cases hi : i < c.len
  · rw [loopHead, if_pos hi]
    exact h
  · rw [loopHead, if_neg hi]
    trivial

theorem startLoop_enough {r : Ringbuf} (hr : r.WF) {c : Call} (hd : c.Did 0) :
    (startLoop c r.abs.length).Enough r := by
  obtain ⟨c', m, heq, hlen, hs, -, -, -, hsize⟩ := startLoop_sized hd hr.abs_length_le
  rw [heq]
  refine loopHead_enough ?_
  rw [hlen, hs.eq_min, hsize]
  omega

/-- The reader's own steps keep enough samples for the rest of its loop. -/
theorem Reader.Steps.enough {r : Ringbuf} (hr : r.WF) {copied : Bool} {rd : Reader} {res : Result}
    (h : Reader.Steps r copied rd res) (hi : rd.Inv) (he : rd.Enough r) :
    res.reader.Enough res.ring := by
  cases h with
  | start => exact startLoop_enough hr hi
  | restart => exact startLoop_enough hr hi
  | @pop c i offset x xs hcons =>
    have he' : c.len - i ≤ r.abs.length := he
    obtain ⟨-, -, -, habs, -⟩ := ringbufPop_cons hr hcons Rbdata.zero
    refine loopHead_enough ?_
    change c.len - (i + 1) ≤ _
    rw [habs]
    rw [hcons, List.length_cons] at he'
    omega
  | again | sleep | wake | drained | fault => trivial

/-- The runs of one reader, whatever its copies do. -/
def LoneReader (_ : State) : Act → Prop
  | .push _ => True
  | .read p _ _ => p = 0
  | .run p _ => p = 0
  | .signal p => p = 0

instance LoneReader.decidable (s : State) : ∀ a, Decidable (LoneReader s a)
  | .push _ => isTrue trivial
  | .read p _ _ => inferInstanceAs (Decidable (p = 0))
  | .run p _ => inferInstanceAs (Decidable (p = 0))
  | .signal p => inferInstanceAs (Decidable (p = 0))

theorem OneReader.lone {s : State} {a : Act} (h : OneReader s a) : LoneReader s a := by
  cases a with
  | push v => trivial
  | read p count nonblock => exact h
  | run p copied => exact h.1
  | signal p => exact h

/-- What one reader can rely on, whatever its copies do. -/
structure State.Lone (s : State) : Prop where
  inv : s.Inv
  enough : (s.reader 0).Enough s.ring

theorem State.Lone.init : device.init.Lone := ⟨State.Inv.init, trivial⟩

/-- **Step lemma** for one reader: pushes leave it enough, and its pops are in order. -/
theorem State.Lone.step {s t : State} {a : Act} (hi : s.Lone) (hlone : LoneReader s a)
    (h : device.step s a = some t) : t.Lone := by
  obtain ⟨hinv, henough⟩ := hi
  have hm := step_moves hinv.wf h
  refine ⟨hinv.moves hm, ?_⟩
  cases hm with
  | push v => exact henough.push hinv.wf v
  | read =>
    obtain rfl := hlone
    change Reader.Enough _ (Function.update s.reader 0 _ 0)
    rw [Function.update_self]
    trivial
  | run hsteps =>
    obtain rfl := hlone
    change Reader.Enough _ (Function.update s.reader 0 _ 0)
    rw [Function.update_self]
    exact hsteps.enough hinv.wf (hinv.books 0) henough
  | signal =>
    obtain rfl := hlone
    change Reader.Enough _ (Function.update s.reader 0 _ 0)
    rw [Function.update_self]
    trivial

/-- And with copies that all succeed, so that what it pops is delivered. -/
structure State.Single (s : State) : Prop where
  inv : s.Inv
  stream : s.Stream
  enough : (s.reader 0).Enough s.ring

theorem State.Single.step {s t : State} {a : Act} (hi : s.Single) (hone : OneReader s a)
    (h : device.step s a = some t) : t.Single := by
  obtain ⟨hinv, hstream, henough⟩ := hi
  have hlone : State.Lone s := ⟨hinv, henough⟩
  have hnext := hlone.step hone.lone h
  refine ⟨hnext.inv, ?_, hnext.enough⟩
  cases step_moves hinv.wf h with
  | push v => exact hstream.push v
  | read => exact hstream
  | run hsteps =>
    obtain ⟨-, rfl⟩ := hone
    exact hstream.run hsteps _
  | signal => exact hstream

theorem reach_single {s : State} (h : device.Reach OneReader s) : s.Single := by
  refine h.invariant ⟨State.Inv.init, ⟨Ledger.empty, rfl, rfl, Ringbuf.Rep.init⟩, trivial⟩ ?_
  intro s a t hi hone hs
  exact hi.step hone hs

/-- The samples the reader's call has popped so far. -/
def Reader.popped : Reader → List Rbdata
  | idle => []
  | enter c => c.popped
  | wait c => c.popped
  | resize c => c.popped
  | loop c _ _ => c.popped
  | done c _ => c.popped

theorem loopHead_popped (c : Call) (i offset : Int) :
    (loopHead c i offset).popped = c.popped := by
  rw [loopHead]
  split <;> rfl

/-- Every write of a call that kept its books lies in the user buffer. -/
theorem Call.Did.writes_le {c : Call} {m : ℕ} (hs : c.Sized m) (hd : c.Did m) :
    ∀ w ∈ c.writes, 0 ≤ w.1 ∧ w.1 + 16 ≤ c.count := by
  intro w hw
  rw [hd.writes] at hw
  obtain ⟨k, hk, rfl⟩ := List.mem_mapIdx.mp hw
  have hmin := hs.eq_min
  rw [hd.popped] at hk
  omega

/-- In its loop, a single reader finds a sample, pops the oldest one and
delivers it. -/
theorem State.Single.loop_step {s : State} (h : s.Single) {c : Call} {i offset : Int}
    (hloop : s.reader 0 = .loop c i offset) :
    ∃ x xs t, s.ring.abs = x :: xs ∧ (ringbufPop s.ring Rbdata.zero).ret = 0 ∧
      device.step s (.run 0 true) = some t ∧ t.ring.abs = xs ∧
      t.delivered = s.delivered ++ [x] ∧ (t.reader 0).popped = c.popped ++ [x] := by
  have hbooks := h.inv.books 0
  have henough := h.enough
  rw [hloop] at hbooks henough
  rcases habs : s.ring.abs with _ | ⟨x, xs⟩
  · exact absurd habs (henough.ne_nil hbooks)
  · obtain ⟨hret, hv, -, htl, -⟩ := ringbufPop_cons h.inv.wf habs Rbdata.zero
    have hrun : (s.reader 0).run s.ring true =
        some ⟨loopHead (c.took offset x) (i + 1) (wrap32 (offset + 16)),
          (ringbufPop s.ring Rbdata.zero).ring, [x]⟩ := by
      rw [hloop]
      simp only [Reader.run, hret, hv]
      rfl
    refine ⟨x, xs, _, rfl, hret, step_run hrun, htl, rfl, ?_⟩
    simp only [Function.update_self, loopHead_popped]
    rfl

/-- **The sample stream of a single reader.** In every state reached by pushes
and by the reads of one reader:

* the samples delivered, followed by those in the ring, are the pushed ones
  with exactly the drops deleted, in order; `dropcount` is the number of drops
  as a 32-bit `int`;
* a read that returned a count delivered as many samples as the size it last
  read and its buffer allow, returned their bytes, and wrote inside its buffer;
* a pop inside the loop finds a sample, the oldest one, and delivers it. -/
theorem myfbread_stream {s : State} (h : device.Reach OneReader s) :
    (∃ drops : ℕ, List.Sublist (s.delivered ++ s.ring.abs) s.pushed ∧
      s.delivered.length + s.ring.abs.length + drops = s.pushed.length ∧
      s.ring.dropcount = wrap32 drops) ∧
    (∀ c ret, s.reader 0 = .done c ret → 0 ≤ ret →
      (c.popped.length : Int) = min c.sizeRead (c.count / 16 : ℕ) ∧
      ret = 16 * c.popped.length ∧ c.writes.map Prod.snd = c.popped ∧
      ∀ w ∈ c.writes, 0 ≤ w.1 ∧ w.1 + 16 ≤ c.count) ∧
    (∀ c i offset, s.reader 0 = .loop c i offset →
      ∃ x xs t, s.ring.abs = x :: xs ∧ (ringbufPop s.ring Rbdata.zero).ret = 0 ∧
        device.step s (.run 0 true) = some t ∧ t.ring.abs = xs ∧
        t.delivered = s.delivered ++ [x] ∧ (t.reader 0).popped = c.popped ++ [x]) := by
  have hsingle := reach_single h
  refine ⟨?_, ?_, fun c i offset hloop => hsingle.loop_step hloop⟩
  · obtain ⟨L, hpushed, hpopped, hrep⟩ := hsingle.stream
    have habs : s.ring.abs = L.queue.items := hrep.abs
    refine ⟨L.drops, ?_, ?_, hrep.lost⟩
    · rw [← hpushed, ← hpopped, habs]
      exact L.sublist
    · rw [← hpushed, ← hpopped, habs]
      exact L.total
  · intro c ret hdone hret
    have hbooks := hsingle.inv.books 0
    rw [hdone] at hbooks
    obtain ⟨m, hs, hd, rfl⟩ := hbooks hret
    refine ⟨?_, ?_, ?_, hd.writes_le hs⟩
    · rw [hd.popped]
      exact hs.eq_min
    · rw [hd.popped]
      omega
    · rw [hd.writes]
      exact List.ext_getElem (by simp) fun k _ _ => by simp

/-- The sample with this number, for runs on fixed inputs. -/
def sample (k : ℕ) : Rbdata := ⟨0, BitVec.ofNat 32 k, 0⟩

/-- The ring overflows once before a read of three samples, and once again in the
middle of it, after its first pop. -/
def overrun : List Act :=
  (List.range 65).map (.push <| sample ·) ++ [.read 0 48 false, .run 0 true, .run 0 true] ++
    [.push (sample 65), .push (sample 66), .run 0 true, .run 0 true]

theorem myfbread_stream_overrun :
    ∃ s, device.exec device.init overrun = some s ∧
      s.delivered = [sample 1, sample 3, sample 4] ∧ s.ring.dropcount = 2 ∧
      ∃ drops : ℕ, List.Sublist (s.delivered ++ s.ring.abs) s.pushed ∧
        s.delivered.length + s.ring.abs.length + drops = s.pushed.length ∧
        s.ring.dropcount = wrap32 drops := by
  have hrun : device.Run OneReader overrun := by decide +kernel
  obtain ⟨s, hexec⟩ := hrun.exec
  have hdel : (device.exec device.init overrun).map (fun s => (s.delivered, s.ring.dropcount)) =
      some ([sample 1, sample 3, sample 4], 2) := by
    decide +kernel
  rw [hexec] at hdel
  obtain ⟨hdel, hdrop⟩ := Prod.mk.inj (Option.some.inj hdel)
  exact ⟨s, hexec, hdel, hdrop, (myfbread_stream (Lts.Reach.init.exec hrun hexec)).1⟩

/-- Any number of pushes with no read in between. -/
theorem exec_pushes (n : ℕ) {s : State} (hs : device.Reach OneReader s) :
    ∃ t, device.exec s (List.replicate n (.push Rbdata.zero)) = some t ∧
      device.Reach OneReader t ∧ t.pushed.length = s.pushed.length + n ∧
      t.delivered = s.delivered := by
  induction n generalizing s with
  | zero => exact ⟨s, rfl, hs, rfl, rfl⟩
  | succ n ih =>
    have hstep : device.step s (.push Rbdata.zero) = _ := rfl
    obtain ⟨t, hexec, hreach, hlen, hdel⟩ := ih (hs.step (by trivial) hstep)
    refine ⟨t, ?_, hreach, ?_, hdel⟩
    · rw [List.replicate_succ, Lts.exec_cons, hstep]
      exact hexec
    · rw [hlen, List.length_append, List.length_singleton]
      omega

/-- `dropcount` itself is not the number of drops for ever: after `2 ^ 31 + 64`
pushes that nobody reads it has wrapped to a negative `int`. -/
theorem dropcount_wraps :
    ∃ s, device.exec device.init (List.replicate 2147483712 (.push Rbdata.zero)) = some s ∧
      device.Reach OneReader s ∧
      (s.delivered.length + s.ring.abs.length + s.ring.dropcount : Int) ≠ s.pushed.length := by
  obtain ⟨s, hexec, hreach, hlen, hdel⟩ := exec_pushes 2147483712 Lts.Reach.init
  refine ⟨s, hexec, hreach, ?_⟩
  have hsingle := reach_single hreach
  have habs := hsingle.inv.wf.abs_length_le
  obtain ⟨L, -, -, hrep⟩ := hsingle.stream
  have hmax : s.ring.dropcount ≤ 2147483647 := by
    rw [hrep.lost, wrap32]
    omega
  rw [hlen, hdel]
  change ((0 : ℕ) + s.ring.abs.length + s.ring.dropcount : Int) ≠ ((0 + 2147483712 : ℕ) : Int)
  omega

/-! ## Several readers

Several readers do take each other's samples. A reader has then decided to read, from a
size or because it was woken, and finds the ring drained; the loop takes that for an
error, and the sleeper for an end of file. There is no other way for a call to go wrong,
which makes the condition exact. -/

/-- The runs of several readers: buffers of at least one sample, no signals,
and copies that all succeed. -/
def SeveralReaders (_ : State) : Act → Prop
  | .push _ => True
  | .read _ count _ => rbdataBytes ≤ count
  | .run _ copied => copied = true
  | .signal _ => False

instance SeveralReaders.decidable (s : State) : ∀ a, Decidable (SeveralReaders s a)
  | .push _ => isTrue trivial
  | .read _ count _ => inferInstanceAs (Decidable (rbdataBytes ≤ count))
  | .run _ copied => inferInstanceAs (Decidable (copied = true))
  | .signal _ => isFalse id

/-- A result a reader can work with: the bytes of the samples it popped, at
least one, or `-EAGAIN` for a nonblocking call that popped nothing. -/
def Call.Good (c : Call) (ret : Int) : Prop :=
  (ret = 16 * c.popped.length ∧ c.popped ≠ []) ∨
    (c.nonblock = true ∧ ret = eagain ∧ c.popped = [])

/-- Has the reader decided, from a size it has read or from being woken, that
there is something to read? -/
def Reader.committed : Reader → Bool
  | resize _ => true
  | loop _ _ _ => true
  | _ => false

/-- The step does not bring a reader to an empty ring after it decided that
there is something to read. -/
def NotDrained (s : State) : Act → Prop
  | .run p _ => (s.reader p).committed = true → ringbufGetsize s.ring ≠ 0
  | _ => True

instance NotDrained.decidable (s : State) : ∀ a, Decidable (NotDrained s a)
  | .run p _ =>
    inferInstanceAs (Decidable ((s.reader p).committed = true → ringbufGetsize s.ring ≠ 0))
  | .push _ | .read .. | .signal _ => isTrue trivial

/-- The extra books of the calls that `SeveralReaders` begins. -/
def Reader.Fair : Reader → Prop
  | idle => True
  | enter c => 16 ≤ c.count
  | wait c => 16 ≤ c.count
  | resize c => 16 ≤ c.count
  | loop _ _ _ => True
  | done c ret => c.Good ret

/-- With room for a sample and a sample to read, the loop is entered. -/
theorem startLoop_fair {c : Call} (hd : c.Did 0) (hcount : 16 ≤ c.count) {size : ℕ}
    (hsize : size ≤ 64) (hpos : 0 < size) : (startLoop c size).Fair := by
  obtain ⟨c', m, heq, hlen, hs, -, hc, -, hr⟩ := startLoop_sized hd hsize
  have hmin := hs.eq_min
  rw [heq, loopHead, if_pos]
  · trivial
  · rw [hlen, hmin, hr, hc]
    omega

theorem loopHead_fair {c : Call} {n : ℕ} (hd : c.Did (n + 1)) :
    (loopHead c (n + 1 : ℕ) (16 * (n + 1) : ℕ)).Fair := by
  rw [loopHead]
  split
  · trivial
  · refine Or.inl ⟨?_, ?_⟩
    · rw [hd.popped]
      omega
    · intro hnil
      have := hd.popped
      rw [hnil] at this
      cases this

theorem length_pos_of_ne {r : Ringbuf} (h : r.abs ≠ []) : 0 < r.abs.length :=
  List.length_pos_iff.mpr h

/-- A step that does not find the ring drained keeps the books. -/
theorem Reader.Steps.fair {r : Ringbuf} (hr : r.WF) {rd : Reader} {res : Result}
    (h : Reader.Steps r true rd res) (hi : rd.Inv) (hf : rd.Fair)
    (hcond : rd.committed = true → ringbufGetsize r ≠ 0) : res.reader.Fair := by
  have hle := hr.abs_length_le
  cases h with
  | again hempty hnb =>
    have hd : Call.Did _ 0 := hi
    exact Or.inr ⟨hnb, rfl, List.eq_nil_of_length_eq_zero hd.popped⟩
  | sleep => exact hf
  | start hne => exact startLoop_fair hi hf hle (length_pos_of_ne hne)
  | wake => exact hf
  | restart =>
    refine startLoop_fair hi hf hle (length_pos_of_ne fun hnil => ?_)
    exact hcond rfl (hr.size_eq_zero_iff.mpr hnil)
  | drained hempty => exact absurd (hr.size_eq_zero_iff.mpr hempty) (hcond rfl)
  | @pop c i offset x xs hcons =>
    obtain ⟨n, m, rfl, hlen, hnm, hs, hd, rfl⟩ := hi
    change (loopHead _ _ _).Fair
    rw [hs.next_offset hnm]
    exact loopHead_fair (hd.took x)

/-- A step that finds the ring drained makes the call return a bad result: `0`,
or `-1` with the samples popped so far lost to the caller. -/
theorem Reader.Steps.bad {r : Ringbuf} (hr : r.WF) {rd : Reader} {res : Result}
    (h : Reader.Steps r true rd res) (hi : rd.Inv) (hcom : rd.committed = true)
    (hsize : ringbufGetsize r = 0) : ∃ c ret, res.reader = .done c ret ∧ ¬ c.Good ret := by
  have hnil : r.abs = [] := hr.size_eq_zero_iff.mp hsize
  cases h with
  | again | sleep | start | wake => cases hcom
  | @restart _ c =>
    have hd : c.Did 0 := hi
    obtain ⟨c', m, heq, hlen, hs, hd', -, -, hread⟩ :=
      startLoop_sized hd (Nat.le_of_eq (congrArg List.length hnil) |>.trans (Nat.zero_le 64))
    have hmin := hs.eq_min
    have hm : m = 0 := by
      rw [hread, hnil, List.length_nil] at hmin
      omega
    refine ⟨c', 0, ?_, ?_⟩
    · change startLoop c r.abs.length = _
      rw [heq, loopHead, if_neg]
      rw [hlen, hm]
      decide
    · rintro (⟨-, hne⟩ | ⟨-, hret, -⟩)
      · exact hne (List.eq_nil_of_length_eq_zero hd'.popped)
      · cases hret
  | drained =>
    refine ⟨_, _, rfl, ?_⟩
    rintro (⟨hret, -⟩ | ⟨-, hret, -⟩)
    · omega
    · cases hret
  | pop hcons =>
    rw [hnil] at hcons
    cases hcons

/-- Every call that has returned has a good result. -/
def State.AllGood (s : State) : Prop := ∀ p c ret, s.reader p = .done c ret → c.Good ret

/-- What several readers can rely on as long as none finds the ring drained. -/
structure State.Several (s : State) : Prop where
  inv : s.Inv
  fair : ∀ p, (s.reader p).Fair

theorem State.Several.init : device.init.Several := ⟨State.Inv.init, fun _ => trivial⟩

theorem State.Several.allGood {s : State} (h : s.Several) : s.AllGood := by
  intro p c ret hdone
  have hf := h.fair p
  rw [hdone] at hf
  exact hf

/-- **Step lemma** for several readers, as long as none comes to a drained ring. -/
theorem State.Several.step {s t : State} {a : Act} (hi : s.Several) (henv : SeveralReaders s a)
    (hcond : NotDrained s a) (h : device.step s a = some t) : t.Several := by
  obtain ⟨hinv, hfair⟩ := hi
  have hm := step_moves hinv.wf h
  refine ⟨hinv.moves hm, ?_⟩
  cases hm with
  | push => exact hfair
  | read => exact forall_update hfair henv
  | run hsteps =>
    obtain rfl : _ = true := henv
    exact forall_update hfair (hsteps.fair hinv.wf (hinv.books _) (hfair _) hcond)
  | signal => exact henv.elim

/-- A step onto a drained ring spoils the result of its call. -/
theorem State.Several.not_allGood {s t : State} {a : Act} (hi : s.Several)
    (henv : SeveralReaders s a) (hcond : ¬ NotDrained s a) (h : device.step s a = some t) :
    ¬ t.AllGood := by
  intro hgood
  cases step_moves hi.inv.wf h with
  | push | read | signal => exact hcond trivial
  | @run p copied res hsteps =>
    obtain rfl : copied = true := henv
    have hcom : (s.reader p).committed = true ∧ ringbufGetsize s.ring = 0 := by
      by_contra hnot
      exact hcond fun hcom hsize => hnot ⟨hcom, hsize⟩
    obtain ⟨c, ret, hdone, hbad⟩ := hsteps.bad hi.inv.wf (hi.inv.books p) hcom.1 hcom.2
    refine hbad (hgood p c ret ?_)
    exact (Function.update_self ..).trans hdone

/-- **Several readers, exactly.** Along a run of any number of readers every
call returns a good result if and only if no reader, having decided that there
is something to read, comes to a ring the others have drained. -/
theorem myfbread_good_iff {as : List Act} (hrun : device.Run SeveralReaders as) :
    device.Along (fun _ _ t => t.AllGood) device.init as ↔
      device.Along (fun s a _ => NotDrained s a) device.init as := by
  refine Lts.along_iff State.Several ?_ ?_ State.Several.init hrun
  · intro s a t hi henv hs
    constructor
    · intro hgood
      by_contra hcond
      exact hi.not_allGood henv hcond hs hgood
    · intro hcond
      exact (hi.step henv hcond hs).allGood
  · intro s a t hi henv hs hcond
    exact hi.step henv hcond hs

/-- Two readers take turns at three samples; then the second sleeps until the next. -/
def twoReaders : List Act :=
  [.push (sample 0), .push (sample 1), .push (sample 2), .read 0 32 false, .read 1 16 false,
    .run 0 true, .run 1 true, .run 0 true, .run 1 true, .run 0 true,
    .read 1 32 false, .run 1 true, .push (sample 3), .run 1 true, .run 1 true, .run 1 true]

theorem myfbread_good_iff_twoReaders :
    device.Along (fun _ _ t => t.AllGood) device.init twoReaders ∧
      (device.exec device.init twoReaders).map (fun s => s.delivered) =
        some [sample 0, sample 1, sample 2, sample 3] :=
  ⟨(myfbread_good_iff (by decide +kernel)).mpr (by decide +kernel), by decide +kernel⟩

/-- Two readers see two samples; each pops one, and then the first comes back
for its second. -/
def drained : List Act :=
  [.push Rbdata.zero, .push Rbdata.zero, .read 0 32 false, .read 1 32 false,
    .run 0 true, .run 1 true, .run 0 true, .run 1 true, .run 0 true]

/-- Two sleeping readers are woken by one sample; the first takes it. -/
def raced : List Act :=
  [.read 0 32 false, .read 1 32 false, .run 0 true, .run 1 true, .push Rbdata.zero,
    .run 0 true, .run 1 true, .run 0 true, .run 0 true, .run 1 true]

/-- A blocking call fails with `-1` after it has delivered a sample, and another
returns `0`, the end of file, without having read anything. -/
theorem myfbread_drained :
    (device.Run SeveralReaders drained ∧ ∃ s c, device.exec device.init drained = some s ∧
      s.reader 0 = .done c (-1) ∧ c.nonblock = false ∧ c.popped = [Rbdata.zero] ∧
      ¬ s.AllGood) ∧
    (device.Run SeveralReaders raced ∧ ∃ s c, device.exec device.init raced = some s ∧
      s.reader 1 = .done c 0 ∧ c.nonblock = false ∧ ¬ s.AllGood) := by
  refine ⟨⟨by decide +kernel, _, _, rfl, rfl, rfl, rfl, ?_⟩,
    ⟨by decide +kernel, _, _, rfl, rfl, rfl, ?_⟩⟩
  · intro hgood
    rcases hgood 0 _ (-1) rfl with ⟨hret, -⟩ | ⟨hnb, -⟩
    · omega
    · cases hnb
  · intro hgood
    rcases hgood 1 _ 0 rfl with ⟨-, hne⟩ | ⟨hnb, -⟩
    · exact hne rfl
    · cases hnb

end Fbread

end KernelDrvLearn
