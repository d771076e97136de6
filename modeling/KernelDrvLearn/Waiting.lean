import KernelDrvLearn.BellPoll
import KernelDrvLearn.BlkStream
import KernelDrvLearn.MysensorRing
import KernelDrvLearn.WaitQueue

/-!
# Who sleeps on the rings

The wait queues of `practice/mysensor/mysensor.c`, `practice/myfakebell/myfakebell.c`
and `practice/myblkdev/myblkdev.c`, with any number of blocking reads and polls.
In each of them nobody sleeps while there is something to read, or to be told of
by `poll`, unless the wake-up is still to come (`mysensor_wakes`, `myfb_wakes`,
`myblk_wakes`).

For a poll of the bell the alarm counts too, which comes with an event of the
device and not with a sample: what is still to come then is the interrupt. Resets of
the bell's ring are left out, since they take no lock (`RingReset`).
-/

namespace KernelDrvLearn

open WaitQueue

/-! ## The sensor

Readers and pollers wait for the same thing, a sample in the ring. The interrupt thread
pushes and then wakes, and only in between is there something that nobody has been told
of. -/

namespace Mysensor

namespace Wait

/-- The ring, and whether `mysensor_irq_thread` is between its push and its
`wake_up_interruptible`. -/
structure Shared where
  /-- `rb` -/
  rb : Ringbuffer
  /-- is the wake-up to come? -/
  pushed : Bool

/-- The others: the interrupt thread with its pushes and wake-ups, and the pops of
readers. -/
inductive Act where
  /-- `mysensor_irq_thread` pushes a sample -/
  | push (value : Int) (ts : Timespec64)
  /-- it wakes the sleepers -/
  | wake
  /-- a reader pops -/
  | pop (value : Int) (timestamp : Option (ℕ → Byte))

/-- Is it the wake-up of the interrupt thread? -/
def Act.wakes : Act → Bool
  | .wake => true
  | _ => false

/-- One step of them, if it can be taken. -/
def step (s : Shared) : Act → Option Shared
  | .push value ts => if s.pushed then none else some ⟨rbPush s.rb value ts, true⟩
  | .wake => if s.pushed then some ⟨s.rb, false⟩ else none
  | .pop value timestamp => some ⟨(rbPop s.rb value timestamp).rb, s.pushed⟩

/-- `mysensor_read` and `mysensor_poll` wait for `!rb_isempty(&dev->rb)`. -/
def queue (rb : Ringbuffer) : Queue Shared Act where
  sys := ⟨⟨rbInit rb, false⟩, step⟩
  cond s := decide (rbIsempty s.rb = 0)
  toCome s := s.pushed = true
  wakes _ a := a.wakes

/-- A pop of an empty ring leaves it so. -/
theorem rbPop_isempty {rb : Ringbuffer} {value : Int} {timestamp : Option (ℕ → Byte)}
    (h : rbIsempty (rbPop rb value timestamp).rb = 0) : rbIsempty rb = 0 := by
  by_contra hne
  have hsize : rb.size = 0 := by
    by_contra hsize
    exact hne (if_neg hsize)
  rw [rbPop, if_pos hsize] at h
  exact hne h

theorem announced (rb : Ringbuffer) : (queue rb).Announced fun _ => True := by
  rintro s a t - hs hwakes ⟨hcond, hnone⟩
  cases a with
  | push value ts =>
    obtain ⟨-, hs⟩ := Option.ite_none_left_eq_some.mp hs
    obtain rfl := Option.some.inj hs
    exact absurd rfl hnone
  | wake => cases hwakes
  | pop value timestamp =>
    obtain rfl := Option.some.inj hs
    exact ⟨decide_eq_true (rbPop_isempty (of_decide_eq_true hcond)), hnone⟩

/-- **Sleepers on the sensor.** However calls of `mysensor_read` and
`mysensor_poll` fall between pushes, pops and wake-ups: nobody sleeps while the
ring holds a sample, unless the interrupt thread has its wake-up to come; and when
it has not, everybody who waits gets on without help. -/
theorem mysensor_wakes {ι : Type} [DecidableEq ι] {rb : Ringbuffer}
    {s : WaitQueue.State Shared ι} (h : ((queue rb).system ι).Reach (fun _ _ => True) s)
    (hdata : rbIsempty s.shared.rb = 0) (i : ι) :
    ((s.sleeper i).Sleeps → s.shared.pushed = true) ∧
      (s.shared.pushed = false → ∃ as, (∀ a ∈ as, a.thread = some i) ∧
        ∃ t, ((queue rb).system ι).exec s as = some t ∧ t.sleeper i = .out ∧
          t.shared = s.shared) := by
  refine ⟨fun hsleeps => ?_, fun hpushed => ?_⟩
  · exact Queue.no_missed trivial (fun _ _ _ _ _ => trivial) (announced rb) h i hsleeps
      (decide_eq_true hdata)
  · exact Queue.served trivial (fun _ _ _ _ _ => trivial) (announced rb) h
      ⟨decide_eq_true hdata, Bool.eq_false_iff.mp hpushed⟩ i

/-- A ring as the kernel's memory has it. -/
def someRb : Ringbuffer := ⟨fun _ => 0, fun _ _ => 0, 0, 0, 0⟩

/-- A reader goes to sleep, and a sample is pushed, with the wake-up still to come. -/
def sleepAndPush : List (WaitQueue.Act Act ℕ) :=
  [WaitQueue.Act.enter 0, WaitQueue.Act.test 0, WaitQueue.Act.sleep 0,
    WaitQueue.Act.other (Act.push 7 ⟨1, 5⟩)]

theorem runs_sleepAndPush : (((queue someRb).system ℕ).exec ((queue someRb).system ℕ).init
    sleepAndPush).isSome = true := rfl

theorem mysensor_wakes_push : ∃ s, ((queue someRb).system ℕ).exec ((queue someRb).system ℕ).init
    sleepAndPush = some s ∧ s.sleeper 0 = .asleep ∧ s.shared.pushed = true :=
  have hexec := (Option.some_get runs_sleepAndPush).symm
  ⟨_, hexec, rfl, (mysensor_wakes (Lts.Reach.replay Lts.Reach.init hexec) rfl 0).1 (Or.inr rfl)⟩

end Wait

end Mysensor

/-! ## The bell

Two queues on one wait queue of the driver. Readers wait for a sample, and the interrupt
thread announces it. Polls wait for the alarm too, and that is announced by the interrupt
itself, as soon as the event is there: the wake-up comes with the sample. -/

namespace BellPoll

namespace Wait

open Fakebell

/-- The others: the device, the interrupt and the ioctls, and the readers. There is
no `FB_RESET_BUFFER` among them: it clears the ring without its lock, and a reader
that is inside then may find a size that was never there (`RingReset`). -/
inductive Act where
  /-- as before -/
  | bell (a : BellPoll.Act)
  /-- `myfbread` pops -/
  | pop (v : Rbdata)

/-- One step of them, as in the model of the polls, and the pops besides. -/
def step (s : BellPoll.State) : Act → Option BellPoll.State
  | .bell a => BellPoll.step s a
  | .pop v => some { s with dev := { s.dev with myrb := (ringbufPop s.dev.myrb v).ring } }

/-- The last step of `myirq_bottom` wakes; no other step of the interrupt does. -/
def wakes (s : BellPoll.State) : Act → Bool
  | .bell (.bottom ..) => match s.irq with
    | .wake => true
    | _ => false
  | _ => false

/-- `myfbread` waits for a sample, and its wait is that of `wait_event_interruptible`. -/
def readQueue : Queue BellPoll.State Act where
  sys := ⟨BellPoll.system.init, step⟩
  cond s := decide (ringbufGetsize s.dev.myrb ≠ 0)
  toCome s := s.irq = .wake
  wakes := wakes

/-- `poll` waits for a mask, and what is to come is the interrupt. `myfbpoll` reads
the status of the alarm and then the size of the ring; here both are one test. -/
def pollQueue : Queue BellPoll.State Act where
  sys := ⟨BellPoll.system.init, step⟩
  cond s := decide (myfbpoll s.dev ≠ 0)
  toCome s := s.irq ≠ .idle ∨ s.dev.mybell.Pending
  wakes := wakes

/-- A pop of an empty ring leaves it so. -/
theorem ringbufPop_getsize {r : Ringbuf} {v : Rbdata}
    (h : ringbufGetsize (ringbufPop r v).ring ≠ 0) : ringbufGetsize r ≠ 0 := by
  intro hsize
  have hlocked : r.spinLockIrqsave.size = 0 := hsize
  simp only [ringbufPop, if_pos hlocked] at h
  exact h hsize

/-- An event is pending once the device has raised it, whatever the status was. -/
theorem pending_event (d : FakeBellState) (status : BitVec 32) : (event d status).Pending := by
  rw [event, fakebellUpdateIrq]
  split <;> exact (by decide : fbIrqStatusPending &&& fbIrqStatusPending ≠ 0)

/-- When a poll has something to tell. -/
theorem myfbpoll_ne_zero_iff (d : Myfbdev) :
    myfbpoll d ≠ 0 ↔ Over (mbGetStatus d.mybell) ∨ ringbufGetsize d.myrb ≠ 0 := by
  by_cases hover : Over (mbGetStatus d.mybell)
  · have hstatus : myfbpollStatus d = pollpri := if_pos hover
    rw [myfbpoll, hstatus, myfbpollSize]
    split <;> simp [hover]
  · have hstatus : myfbpollStatus d = 0 := if_neg hover
    rw [myfbpoll, hstatus, myfbpollSize]
    split
    · next hsize => simp [hsize]
    · next hsize => simp [hover, not_not.mp hsize]

/-- What a step of driver and device can be that does not wake: an event, which is
pending then; a step of `myirq_bottom`, which pushes only to wake next; or one that
changes neither. -/
theorem bell_cases {s t : BellPoll.State} {a : BellPoll.Act}
    (hs : BellPoll.step s a = some t) (hwakes : wakes s (.bell a) = false) :
    (t.dev.mybell.Pending ∧ t.dev.myrb = s.dev.myrb ∧ t.irq = s.irq) ∨
      (t.irq ≠ .idle ∧ (t.irq = .wake ∨ t.dev.myrb = s.dev.myrb ∧ s.irq ≠ .wake)) ∨
      (t.dev = s.dev ∧ t.irq = s.irq) := by
  cases a with
  | event status =>
    obtain rfl := Option.some.inj hs
    exact Or.inl ⟨pending_event _ _, rfl, rfl⟩
  | top =>
    rcases hirq : s.irq with _ | _ | v | _ <;> simp only [BellPoll.step, hirq] at hs
    case idle =>
      obtain rfl := Option.some.inj hs
      dsimp only
      split
      · exact Or.inr (Or.inl ⟨by simp, Or.inr ⟨rfl, by simp⟩⟩)
      · exact Or.inr (Or.inr ⟨rfl, rfl⟩)
    all_goals cases hs
  | bottom sampleValue now =>
    change bottomStep s sampleValue now = some t at hs
    rcases hirq : s.irq with _ | _ | v | _ <;> simp only [bottomStep, hirq] at hs
    case idle => cases hs
    case enter =>
      obtain rfl := Option.some.inj hs
      exact Or.inr (Or.inl ⟨by simp, Or.inr ⟨rfl, by simp⟩⟩)
    case push =>
      obtain rfl := Option.some.inj hs
      exact Or.inr (Or.inl ⟨by simp, Or.inl rfl⟩)
    case wake => simp [wakes, hirq] at hwakes
  | clear =>
    -- the clear changes only what polls are owed
    obtain rfl := Option.some.inj hs
    exact Or.inr (Or.inr ⟨rfl, rfl⟩)
  | pollStatus i =>
    simp only [BellPoll.step] at hs
    split at hs
    case h_1 =>
      obtain rfl := Option.some.inj hs
      exact Or.inr (Or.inr ⟨rfl, rfl⟩)
    case h_2 => cases hs
  | pollSize i =>
    simp only [BellPoll.step] at hs
    split at hs
    case h_1 => cases hs
    case h_2 =>
      obtain rfl := Option.some.inj hs
      exact Or.inr (Or.inr ⟨rfl, rfl⟩)

theorem read_announced : readQueue.Announced fun _ => True := by
  rintro s a t - hs hwakes ⟨hcond, hnone⟩
  have hcond : ringbufGetsize t.dev.myrb ≠ 0 := of_decide_eq_true hcond
  suffices h : ringbufGetsize s.dev.myrb ≠ 0 ∧ s.irq ≠ .wake from ⟨decide_eq_true h.1, h.2⟩
  cases a with
  | bell a =>
    rcases bell_cases hs hwakes with ⟨-, hrb, hirq⟩ | ⟨-, hwake | ⟨hrb, hirq⟩⟩ | ⟨hdev, hirq⟩
    · exact ⟨hrb ▸ hcond, hirq ▸ hnone⟩
    · exact absurd hwake hnone
    · exact ⟨hrb ▸ hcond, hirq⟩
    · exact ⟨hdev ▸ hcond, hirq ▸ hnone⟩
  | pop v =>
    obtain rfl := Option.some.inj hs
    exact ⟨ringbufPop_getsize hcond, hnone⟩

theorem poll_announced : pollQueue.Announced fun _ => True := by
  rintro s a t - hs hwakes ⟨hcond, hnone⟩
  have hcond : myfbpoll t.dev ≠ 0 := of_decide_eq_true hcond
  obtain ⟨hidle, hpending⟩ := not_or.mp hnone
  suffices h : myfbpoll s.dev ≠ 0 ∧ t.irq = s.irq ∧ t.dev.mybell = s.dev.mybell from
    ⟨decide_eq_true h.1, fun hcome => hcome.elim (h.2.1 ▸ hidle) (h.2.2 ▸ hpending)⟩
  rw [myfbpoll_ne_zero_iff] at hcond ⊢
  cases a with
  | bell a =>
    rcases bell_cases hs hwakes with ⟨hevent, -⟩ | ⟨hirq, -⟩ | ⟨hdev, hirq⟩
    · exact absurd hevent hpending
    · exact absurd hirq hidle
    · exact ⟨hdev ▸ hcond, hirq, congrArg Myfbdev.mybell hdev⟩
  | pop v =>
    obtain rfl := Option.some.inj hs
    exact ⟨hcond.imp id ringbufPop_getsize, rfl, rfl⟩

/-- **Sleepers on the bell.** However readers and polls fall between the device,
the interrupt and the ioctls, those that reset the ring apart: no reader sleeps while
the ring holds a sample, unless `myirq_bottom` has its wake-up to come; and no poll
sleeps that would report a sample or the alarm, unless the interrupt is pending or
being handled. When nothing is to come, everybody who waits gets on without help. -/
theorem myfb_wakes {ι : Type} [DecidableEq ι] (i : ι) :
    (∀ s : WaitQueue.State BellPoll.State ι,
      (readQueue.system ι).Reach (fun _ _ => True) s → ringbufGetsize s.shared.dev.myrb ≠ 0 →
      ((s.sleeper i).Sleeps → s.shared.irq = .wake) ∧
        (s.shared.irq ≠ .wake → ∃ as, (∀ a ∈ as, a.thread = some i) ∧
          ∃ t, (readQueue.system ι).exec s as = some t ∧ t.sleeper i = .out ∧
            t.shared = s.shared)) ∧
    (∀ s : WaitQueue.State BellPoll.State ι,
      (pollQueue.system ι).Reach (fun _ _ => True) s → myfbpoll s.shared.dev ≠ 0 →
      ((s.sleeper i).Sleeps → s.shared.irq ≠ .idle ∨ s.shared.dev.mybell.Pending) ∧
        (s.shared.irq = .idle → ¬ s.shared.dev.mybell.Pending →
          ∃ as, (∀ a ∈ as, a.thread = some i) ∧
            ∃ t, (pollQueue.system ι).exec s as = some t ∧ t.sleeper i = .out ∧
              t.shared = s.shared)) := by
  refine ⟨fun s h hsize => ⟨fun hsleeps => ?_, fun hirq => ?_⟩,
    fun s h hmask => ⟨fun hsleeps => ?_, fun hirq hpending => ?_⟩⟩
  · exact Queue.no_missed trivial (fun _ _ _ _ _ => trivial) read_announced h i hsleeps
      (decide_eq_true hsize)
  · exact Queue.served trivial (fun _ _ _ _ _ => trivial) read_announced h
      ⟨decide_eq_true hsize, hirq⟩ i
  · exact Queue.no_missed trivial (fun _ _ _ _ _ => trivial) poll_announced h i hsleeps
      (decide_eq_true hmask)
  · exact Queue.served trivial (fun _ _ _ _ _ => trivial) poll_announced h
      ⟨decide_eq_true hmask, fun hcome => hcome.elim (absurd hirq) hpending⟩ i

/-- A poll goes to sleep, and an event over the threshold comes. -/
def sleepAndEvent : List (WaitQueue.Act Act ℕ) :=
  [WaitQueue.Act.enter 0, WaitQueue.Act.test 0, WaitQueue.Act.sleep 0,
    WaitQueue.Act.other (Act.bell (BellPoll.Act.event 3))]

theorem runs_sleepAndEvent : ((pollQueue.system ℕ).exec (pollQueue.system ℕ).init
    sleepAndEvent).isSome = true := rfl

theorem myfb_wakes_event : ∃ s, (pollQueue.system ℕ).exec (pollQueue.system ℕ).init
    sleepAndEvent = some s ∧ s.sleeper 0 = .asleep ∧
      (s.shared.irq ≠ .idle ∨ s.shared.dev.mybell.Pending) :=
  have hexec := (Option.some_get runs_sleepAndEvent).symm
  ⟨_, hexec, rfl, ((myfb_wakes 0).2 _ (Lts.Reach.replay Lts.Reach.init hexec) (by decide)).1
    (Or.inr rfl)⟩

end Wait

end BellPoll

/-! ## The block of shared memory

Here it is the producer that wakes, after it has stored the head. Polls wait for the
indices to differ; the steps of the consumer only take away what there is to read. -/

namespace Myblk

namespace Wait

/-- The two sides, and whether `myblk_produce_data` has its
`wake_up_interruptible` to do. -/
structure Shared where
  /-- the ring, the producer and the consumer -/
  ring : Myblk.State
  /-- is the wake-up to come? -/
  waking : Bool

/-- The others: the producer and the consumer, and the wake-up behind a call. -/
inductive Act where
  /-- as before -/
  | ring (a : Myblk.Act)
  /-- the producer wakes the sleepers -/
  | wake

/-- Is it the wake-up behind a call of the producer? -/
def Act.wakes : Act → Bool
  | .wake => true
  | _ => false

/-- The producer's last step, of a call that has stored something. -/
def publishes (s : Myblk.State) : Myblk.Act → Bool
  | .prod => match s.producer with
    | .copy c _ [] => decide (c.len > 0)
    | _ => false
  | _ => false

/-- Does the producer take it? -/
def producers : Myblk.Act → Bool
  | .produce _ | .prod => true
  | _ => false

/-- One step of them, if it can be taken. -/
def step (s : Shared) : Act → Option Shared
  | .ring a =>
    if s.waking = true ∧ producers a = true then none
    else (Myblk.step s.ring a).map fun ring => ⟨ring, s.waking || publishes s.ring a⟩
  | .wake => if s.waking then some { s with waking := false } else none

/-- `myblkpoll` waits for the indices to differ. It loads `head` and then `tail`, one
after the other; here both loads are one test. -/
def queue : Queue Shared Act where
  sys := ⟨⟨Myblk.system.init, false⟩, step⟩
  cond s := decide (s.ring.dev.ctrl.head ≠ s.ring.dev.ctrl.tail)
  toCome s := s.waking = true
  wakes _ a := a.wakes

/-- What is known of the ring: some number of its bytes is in use, and it is as the two
sides keep it. -/
def Inv (s : Shared) : Prop := ∃ u, s.ring.Inv u

theorem inv_init : Inv queue.sys.init := ⟨0, init_inv⟩

theorem inv_step {s t : Shared} {a : Act} (h : Inv s) (hs : queue.sys.step s a = some t) :
    Inv t := by
  cases a with
  | ring a =>
    obtain ⟨-, hs⟩ := Option.ite_none_left_eq_some.mp hs
    obtain ⟨ring, hring, rfl⟩ := Option.map_eq_some_iff.mp hs
    obtain ⟨u, hu⟩ := h
    exact hu.step hring
  | wake =>
    obtain ⟨-, hs⟩ := Option.ite_none_right_eq_some.mp hs
    obtain rfl := Option.some.inj hs
    exact h

/-- The consumer stores an index only when there was something to read. -/
theorem consStep_cases {s t : Myblk.State} {u : ℕ} {headFirst : Bool} (h : s.Inv u)
    (hs : consStep s headFirst = some t) : t.dev.ctrl = s.dev.ctrl ∨ u ≠ 0 := by
  have hcs := h.consumer
  rcases hc : s.consumer with _ | _ | tail | head | _ | tail | tail | ⟨tail, len, k, next⟩ <;>
    rw [hc] at hcs <;> simp only [consStep, hc] at hs
  case idle => cases hs
  case write =>
    obtain ⟨-, hpos, -, hle, -⟩ := hcs
    exact Or.inr (by omega)
  case bodyHead => exact Or.inr hcs.2
  all_goals
    obtain rfl := Option.some.inj hs
    exact Or.inl rfl

/-- The producer changes the index only by what it announces. -/
theorem prodStep_cases {s t : Myblk.State} (hs : prodStep s = some t)
    (hpub : publishes s .prod = false) :
    t.dev.ctrl.head = s.dev.ctrl.head ∧ t.dev.ctrl.tail = s.dev.ctrl.tail := by
  rcases hp : s.producer with _ | src | ⟨src, size⟩ | ⟨src, size, head⟩ | ⟨c, size⟩ |
    ⟨c, size, _ | ⟨b, todo⟩⟩ <;> simp only [prodStep, hp] at hs
  case idle => cases hs
  case loadTail =>
    split at hs <;> obtain rfl := Option.some.inj hs <;> exact ⟨rfl, rfl⟩
  case copy.nil =>
    have hlen : ¬ c.len > 0 := by simpa [publishes, hp] using hpub
    rw [if_neg hlen] at hs
    obtain rfl := Option.some.inj hs
    exact ⟨rfl, rfl⟩
  all_goals
    obtain rfl := Option.some.inj hs
    exact ⟨rfl, rfl⟩

/-- A call that begins changes nothing yet. -/
theorem begins_dev {s t : Myblk.State} {a : Myblk.Act}
    (ha : (∃ src, a = .produce src) ∨ a = .consume) (hs : Myblk.step s a = some t) :
    t.dev = s.dev := by
  rcases ha with ⟨src, rfl⟩ | rfl
  · simp only [Myblk.step] at hs
    split at hs
    case h_1 =>
      obtain ⟨-, hs⟩ := Option.ite_none_right_eq_some.mp hs
      obtain rfl := Option.some.inj hs
      rfl
    case h_2 => cases hs
  · simp only [Myblk.step] at hs
    split at hs
    case h_1 =>
      obtain rfl := Option.some.inj hs
      rfl
    case h_2 => cases hs

theorem announced : queue.Announced Inv := by
  rintro s a t ⟨u, hu⟩ hs hwakes ⟨hcond, hnone⟩
  have hcond : t.ring.dev.ctrl.head ≠ t.ring.dev.ctrl.tail := of_decide_eq_true hcond
  cases a with
  | wake => cases hwakes
  | ring a =>
    obtain ⟨-, hs⟩ := Option.ite_none_left_eq_some.mp hs
    obtain ⟨ring, hring, rfl⟩ := Option.map_eq_some_iff.mp hs
    obtain ⟨hwaking, hpub⟩ : s.waking = false ∧ publishes s.ring a = false := by
      simpa [queue] using hnone
    suffices h : s.ring.dev.ctrl.head ≠ s.ring.dev.ctrl.tail from
      ⟨decide_eq_true h, by simp [queue, hwaking]⟩
    cases a with
    | produce src =>
      have hdev := begins_dev (Or.inl ⟨src, rfl⟩) hring
      rwa [hdev] at hcond
    | consume =>
      have hdev := begins_dev (Or.inr rfl) hring
      rwa [hdev] at hcond
    | prod =>
      obtain ⟨hhead, htail⟩ := prodStep_cases hring hpub
      rwa [hhead, htail] at hcond
    | cons headFirst =>
      rcases consStep_cases hu hring with hctrl | hused
      · rwa [hctrl] at hcond
      · exact fun heq => hused (hu.empty_iff.mp heq.symm)

/-- **Sleepers on the shared memory.** However polls fall between the steps of
`myblk_produce_data` and `consume_ring`: nobody sleeps in `poll` while there are
bytes to read, unless the producer has its wake-up to come; and when it has not,
everybody who waits gets on without help. -/
theorem myblk_wakes {ι : Type} [DecidableEq ι] {s : WaitQueue.State Shared ι}
    (h : (queue.system ι).Reach (fun _ _ => True) s)
    (hdata : s.shared.ring.dev.ctrl.head ≠ s.shared.ring.dev.ctrl.tail) (i : ι) :
    ((s.sleeper i).Sleeps → s.shared.waking = true) ∧
      (s.shared.waking = false → ∃ as, (∀ a ∈ as, a.thread = some i) ∧
        ∃ t, (queue.system ι).exec s as = some t ∧ t.sleeper i = .out ∧
          t.shared = s.shared) := by
  refine ⟨fun hsleeps => ?_, fun hwaking => ?_⟩
  · exact Queue.no_missed inv_init (fun _ _ _ => inv_step) announced h i hsleeps
      (decide_eq_true hdata)
  · exact Queue.served inv_init (fun _ _ _ => inv_step) announced h
      ⟨decide_eq_true hdata, Bool.eq_false_iff.mp hwaking⟩ i

/-- A poll goes to sleep, and a byte is produced. -/
def sleepAndProduce : List (WaitQueue.Act Act ℕ) :=
  [WaitQueue.Act.enter 0, WaitQueue.Act.test 0, WaitQueue.Act.sleep 0,
    WaitQueue.Act.other (Act.ring (Myblk.Act.produce [104])),
    WaitQueue.Act.other (Act.ring Myblk.Act.prod), WaitQueue.Act.other (Act.ring Myblk.Act.prod),
    WaitQueue.Act.other (Act.ring Myblk.Act.prod), WaitQueue.Act.other (Act.ring Myblk.Act.prod),
    WaitQueue.Act.other (Act.ring Myblk.Act.prod)]

theorem runs_sleepAndProduce : ((queue.system ℕ).exec (queue.system ℕ).init
    sleepAndProduce).isSome = true := by
  decide

theorem myblk_wakes_produce : ∃ s, (queue.system ℕ).exec (queue.system ℕ).init
    sleepAndProduce = some s ∧ s.sleeper 0 = .asleep ∧ s.shared.waking = true :=
  have hexec := (Option.some_get runs_sleepAndProduce).symm
  ⟨_, hexec, by decide, (myblk_wakes (Lts.Reach.replay Lts.Reach.init hexec) (by decide) 0).1
    (Or.inr (by decide))⟩

end Wait

end Myblk

end KernelDrvLearn
