import KernelDrvLearn.Fakebell
import KernelDrvLearn.KernelApi
import KernelDrvLearn.Ringbuf
import KernelDrvLearn.Transition

/-!
# The high-priority alarm of the fake bell driver

`myfbpoll` of `practice/myfakebell/myfakebell.c` against the device, the two
halves of the interrupt and `FB_CLEAR_ALARM`. Each section under `mybelllock`
and each ring operation is one step, and any number of threads poll.

`POLLPRI` is computed from the live `STATUS` register, which `myirq_bottom` has
cleared before it pushes the sample, and `FB_CLEAR_ALARM` does nothing. So what
a poll reports depends on the events and acknowledgements around it and not on
the samples or on the ioctl (`myfbpoll_alarm_iff`).
-/

namespace KernelDrvLearn

namespace BellPoll

open Fakebell

/-! ## The driver

The functions that decide about `POLLPRI`. They meet in the `STATUS` register: an event
sets its bit, the handler's section acknowledges it, and `myfbpoll` reads it live. -/

/-- `MB_STATUS_OVER_THRESHOLD`, bit 1 of the `STATUS` register. -/
abbrev mbStatusOverThreshold : BitVec 32 := 2

/-- `struct myfbdev`: the device it drives and the samples. -/
structure Myfbdev where
  /-- `mybell` -/
  mybell : FakeBellState
  /-- `myrb` -/
  myrb : Ringbuf

/-- Is a status over the threshold? That is its bit 1. -/
def Over (status : BitVec 32) : Prop := status &&& mbStatusOverThreshold ≠ 0

instance (status : BitVec 32) : Decidable (Over status) := inferInstanceAs (Decidable (_ ≠ _))

/-- An event of the device: as `fakebell_timer_cb` raises it, with any status.
Nothing is assumed about when it comes. -/
def event (d : FakeBellState) (status : BitVec 32) : FakeBellState :=
  fakebellUpdateIrq
    { d with eventCount := d.eventCount + 1, status := status, irqStatus := fbIrqStatusPending }

/-- `myirq_top`, which only looks whether an interrupt is pending. -/
def myirqTop (d : Myfbdev) : Irqreturn :=
  if ¬ mbGetIrqStatus d.mybell &&& fbIrqStatusPending ≠ 0 then .none else .wakeThread

/-- The section of `myirq_bottom`. The value of `SAMPLE_VALUE` is an argument:
the documented device has no such register. -/
def myirqBottomSection (d : Myfbdev) (sampleValue : BitVec 32) : Myfbdev × Rbdata :=
  let v := Rbdata.zero
  let v := { v with sampleValue := sampleValue }
  let v := { v with status := mbGetStatus d.mybell }
  ({ d with mybell := mbAckIrq d.mybell }, v)

/-- The push of `myirq_bottom`, `now` being what `ktime_get_ns` returned. -/
def myirqBottomPush (d : Myfbdev) (v : Rbdata) (now : BitVec 64) : Myfbdev :=
  let v := { v with timestampNs := now }
  { d with myrb := ringbufPush d.myrb v }

/-- `FB_CLEAR_ALARM` of `myfbioctl`, which does nothing and returns 0. -/
def fbClearAlarm (d : Myfbdev) : Int × Myfbdev := (0, d)

/-- The section of `myfbpoll` and the mask it gives. -/
def myfbpollStatus (d : Myfbdev) : BitVec 32 :=
  let status := mbGetStatus d.mybell
  if status &&& mbStatusOverThreshold ≠ 0 then pollpri else 0

/-- The rest of `myfbpoll`: samples in the ring add `POLLIN`. -/
def myfbpollSize (d : Myfbdev) (mask : BitVec 32) : BitVec 32 :=
  if ringbufGetsize d.myrb ≠ 0 then mask ||| (pollin ||| pollrdnorm) else mask

/-- `myfbpoll`, undisturbed: its section and its look at the ring in one. -/
def myfbpoll (d : Myfbdev) : BitVec 32 := myfbpollSize d (myfbpollStatus d)

/-- What both modes of the program print at the end of a turn: the lines for `POLLERR`
and `POLLHUP`. -/
def endLines {Line : Type} (pollerr pollhup : Line) (revents : BitVec 32) : List Line :=
  (if revents &&& 0x8 ≠ 0 then [pollerr] else []) ++
    if revents &&& 0x10 ≠ 0 then [pollhup] else []

/-! ## Four parties

The device, the two halves of the interrupt, the threads that poll and those that clear
the alarm. What happened so far is recorded beside the state, because what a poll should
report is about the past: events, pushes and clears. -/

/-- Where the interrupt stands, between the event and the wake-up. -/
inductive Irq where
  /-- neither half runs -/
  | idle
  /-- `myirq_bottom`, before its section -/
  | enter
  /-- `myirq_bottom`, before the push of `v` -/
  | push (v : Rbdata)
  /-- `myirq_bottom`, before `wake_up_interruptible` -/
  | wake

/-- A call of `myfbpoll` from its section on. -/
structure Poll where
  /-- the mask so far -/
  mask : BitVec 32
  /-- record: was the alarm due at its section? -/
  due : Bool
  /-- record: was it to be quiet at its section? -/
  quiet : Bool

/-- Driver and threads, with a record of what each poll should report. -/
structure State where
  /-- device and driver -/
  dev : Myfbdev
  /-- the interrupt -/
  irq : Irq
  /-- the polls in progress -/
  poller : ℕ → Option Poll
  /-- record: the polls that have returned -/
  polls : List Poll
  /-- record: has `myirq_bottom` pushed a sample over the threshold since the
  latest `FB_CLEAR_ALARM`? -/
  due : Bool
  /-- record: has there been an `FB_CLEAR_ALARM` and no event over the
  threshold since? -/
  quiet : Bool
  /-- record: has there been an event since the latest acknowledgement, the
  latest of them over the threshold? -/
  unacked : Bool

/-- What can happen next, by any of the four parties. -/
inductive Act where
  /-- the device raises an event -/
  | event (status : BitVec 32)
  /-- `myirq_top` runs -/
  | top
  /-- `myirq_bottom` takes a step -/
  | bottom (sampleValue : BitVec 32) (now : BitVec 64)
  /-- `FB_CLEAR_ALARM` -/
  | clear
  /-- thread `i` calls `myfbpoll` and reads the status -/
  | pollStatus (i : ℕ)
  /-- it reads the size of the ring and returns -/
  | pollSize (i : ℕ)

/-- One step of `myirq_bottom`: its section, its push or its wake-up. -/
def bottomStep (s : State) (sampleValue : BitVec 32) (now : BitVec 64) : Option State :=
  match s.irq with
  | .idle => none
  | .enter =>
    let res := myirqBottomSection s.dev sampleValue
    some { s with dev := res.1, irq := .push res.2, unacked := false }
  | .push v =>
    some { s with
      dev := myirqBottomPush s.dev v now, irq := .wake, due := s.due || decide (Over v.status) }
  | .wake => some { s with irq := .idle }

/-- One step of one of the parties. -/
def step (s : State) : Act → Option State
  | .event status =>
    some { s with
      dev := { s.dev with mybell := event s.dev.mybell status }
      quiet := s.quiet && !decide (Over status)
      unacked := decide (Over status) }
  | .top =>
    -- the line is masked until `myirq_bottom` has returned
    match s.irq with
    | .idle => some { s with irq := if myirqTop s.dev = .wakeThread then .enter else .idle }
    | _ => none
  | .bottom sampleValue now => bottomStep s sampleValue now
  | .clear => some { s with dev := (fbClearAlarm s.dev).2, due := false, quiet := true }
  | .pollStatus i =>
    match s.poller i with
    | none =>
      some { s with
        poller := Function.update s.poller i (some ⟨myfbpollStatus s.dev, s.due, s.quiet⟩) }
    | some _ => none
  | .pollSize i =>
    match s.poller i with
    | none => none
    | some p =>
      some { s with
        poller := Function.update s.poller i none
        polls := { p with mask := myfbpollSize s.dev p.mask } :: s.polls }

/-- The device is probed and its interrupt enabled. -/
def system : Lts State Act where
  init :=
    ⟨⟨mbEnableIrq fakebellRealize, ringbufInit⟩, .idle, fun _ => none, [], false, false, false⟩
  step := step

/-- What a step can do to the register, to the record and to the polls. -/
inductive Moves (s : State) : Act → State → Prop
  /-- an event -/
  | event (status : BitVec 32) :
      Moves s (.event status) { s with
        dev := { s.dev with mybell := event s.dev.mybell status }
        quiet := s.quiet && !decide (Over status)
        unacked := decide (Over status) }
  /-- the interrupt starts, or `myirq_bottom` returns -/
  | irq {a : Act} (ha : a = .top ∨ ∃ sampleValue now, a = .bottom sampleValue now) (irq : Irq) :
      Moves s a { s with irq := irq }
  /-- the section of `myirq_bottom` -/
  | ack (sampleValue : BitVec 32) (now : BitVec 64) :
      Moves s (.bottom sampleValue now) { s with
        dev := { s.dev with mybell := mbAckIrq s.dev.mybell }
        irq := .push (myirqBottomSection s.dev sampleValue).2
        unacked := false }
  /-- the push of `myirq_bottom` -/
  | push (sampleValue : BitVec 32) (now : BitVec 64) (v : Rbdata) :
      Moves s (.bottom sampleValue now) { s with
        dev := myirqBottomPush s.dev v now, irq := .wake, due := s.due || decide (Over v.status) }
  /-- `FB_CLEAR_ALARM` -/
  | clear : Moves s .clear { s with due := false, quiet := true }
  /-- a poll reads the status -/
  | pollStatus (i : ℕ) :
      Moves s (.pollStatus i) { s with
        poller := Function.update s.poller i (some ⟨myfbpollStatus s.dev, s.due, s.quiet⟩) }
  /-- a poll returns -/
  | pollSize (i : ℕ) (p : Poll) (h : s.poller i = some p) :
      Moves s (.pollSize i) { s with
        poller := Function.update s.poller i none
        polls := { p with mask := myfbpollSize s.dev p.mask } :: s.polls }

theorem step_moves {s t : State} {a : Act} (hs : system.step s a = some t) : Moves s a t := by
  cases a with
  | event status =>
    obtain rfl := Option.some.inj hs
    exact .event status
  | top =>
    change (match s.irq with | .idle => _ | _ => none) = some t at hs
    split at hs
    case h_1 =>
      obtain rfl := Option.some.inj hs
      exact .irq (Or.inl rfl) _
    case h_2 => cases hs
  | bottom sampleValue now =>
    change bottomStep s sampleValue now = some t at hs
    rcases hirq : s.irq with _ | _ | v | _ <;> simp only [bottomStep, hirq] at hs
    case idle => cases hs
    case enter =>
      obtain rfl := Option.some.inj hs
      exact .ack sampleValue now
    case push =>
      obtain rfl := Option.some.inj hs
      exact .push sampleValue now v
    case wake =>
      obtain rfl := Option.some.inj hs
      exact .irq (Or.inr ⟨sampleValue, now, rfl⟩) .idle
  | clear =>
    obtain rfl := Option.some.inj hs
    exact .clear
  | pollStatus i =>
    change (match s.poller i with | none => _ | some _ => none) = some t at hs
    split at hs
    case h_1 =>
      obtain rfl := Option.some.inj hs
      exact .pollStatus i
    case h_2 => cases hs
  | pollSize i =>
    change (match s.poller i with | none => none | some p => _) = some t at hs
    split at hs
    case h_1 => cases hs
    case h_2 p hp =>
      obtain rfl := Option.some.inj hs
      exact .pollSize i p hp

/-- The two steps of a call that runs alone are `myfbpoll`. -/
theorem myfbpoll_alone {s : State} {i : ℕ} (h : s.poller i = none) :
    ∃ t, system.exec s [.pollStatus i, .pollSize i] = some t ∧ t.dev = s.dev ∧
      t.polls = ⟨myfbpoll s.dev, s.due, s.quiet⟩ :: s.polls := by
  have hstatus : system.step s (.pollStatus i) = some { s with
      poller := Function.update s.poller i (some ⟨myfbpollStatus s.dev, s.due, s.quiet⟩) } := by
    change step s (.pollStatus i) = _
    simp only [step, h]
  rw [Lts.exec_cons, hstatus, Option.bind_some, Lts.exec_cons]
  simp only [system, step, Function.update_self, Option.bind_some]
  exact ⟨_, rfl, rfl, rfl⟩

/-! ## What a poll owes

An alarm is due from the push of a sample over the threshold until the next clear, and
after a clear there is to be quiet until the next event over it. Between these two a poll
owes nothing in particular. -/

/-- It reports the alarm if that is due, and does not if it is to be quiet. -/
def Poll.Right (p : Poll) : Prop :=
  (p.due = true → p.mask &&& pollpri ≠ 0) ∧ (p.quiet = true → p.mask &&& pollpri = 0)

/-- All polls so far are right. -/
def State.Right (s : State) : Prop :=
  (∀ i p, s.poller i = some p → p.Right) ∧ ∀ p ∈ s.polls, p.Right

/-- Whoever polls while the alarm is due finds an unacknowledged event over the
threshold, raised after the one whose sample was pushed; whoever polls while it
is to be quiet finds none. -/
def PollMeets (s : State) : Act → Prop
  | .pollStatus _ => (s.due = true → s.unacked = true) ∧ (s.quiet = true → s.unacked = false)
  | _ => True

instance (s : State) : ∀ a, Decidable (PollMeets s a)
  | .pollStatus _ => inferInstanceAs (Decidable (_ ∧ _))
  | .event _ | .top | .bottom _ _ | .clear | .pollSize _ => isTrue trivial

/-- The register agrees with the record of events and acknowledgements. -/
def State.Live (s : State) : Prop := s.unacked = true ↔ Over (mbGetStatus s.dev.mybell)

theorem mbGetStatus_event (d : FakeBellState) (status : BitVec 32) :
    mbGetStatus (event d status) = status := by
  rw [mbGetStatus_eq, event, fakebellUpdateIrq_eq]

/-- **Step lemma.** The register goes on agreeing with the record. -/
theorem State.Live.step {s t : State} {a : Act} (h : s.Live) (hs : system.step s a = some t) :
    t.Live := by
  cases step_moves hs with
  | event status =>
    rw [State.Live, mbGetStatus_event]
    exact decide_eq_true_iff
  | ack =>
    -- the acknowledgement clears the register
    have hzero : mbGetStatus (mbAckIrq s.dev.mybell) = 0 := by rw [mbGetStatus_eq, mbAckIrq_eq]
    change false = true ↔ Over (mbGetStatus (mbAckIrq s.dev.mybell))
    rw [hzero]
    decide
  | irq | push | clear | pollStatus | pollSize => exact h

/-! ## What a poll reports

`POLLPRI` is bit 1 of the register at the moment of the section, and the register holds an
event until it is acknowledged. So a poll is right exactly when what it owes happens to be
what the register says, and the register has forgotten the sample that was pushed. -/

/-- `POLLPRI` is the live register, and not the last sample. -/
theorem myfbpollStatus_pollpri (d : Myfbdev) :
    myfbpollStatus d &&& pollpri ≠ 0 ↔ Over (mbGetStatus d.mybell) := by
  rw [myfbpollStatus, Over]
  split
  case isTrue h => exact iff_of_true (by decide) h
  case isFalse h => exact iff_of_false (by decide) h

/-- The size of the ring has no part in it. -/
theorem myfbpollSize_pollpri (d : Myfbdev) (mask : BitVec 32) :
    myfbpollSize d mask &&& pollpri = mask &&& pollpri := by
  rw [myfbpollSize]
  split
  · rw [BitVec.and_comm, BitVec.and_or_distrib_left, BitVec.and_comm pollpri mask]
    exact BitVec.or_zero
  · rfl

/-- A poll is right if and only if what it owes agrees with the register. -/
theorem State.Live.right_iff {s : State} (h : s.Live) :
    Poll.Right ⟨myfbpollStatus s.dev, s.due, s.quiet⟩ ↔
      (s.due = true → s.unacked = true) ∧ (s.quiet = true → s.unacked = false) := by
  have hpri : myfbpollStatus s.dev &&& pollpri ≠ 0 ↔ s.unacked = true :=
    (myfbpollStatus_pollpri s.dev).trans h.symm
  have hzero : myfbpollStatus s.dev &&& pollpri = 0 ↔ s.unacked = false := by
    rw [← not_iff_not, Bool.not_eq_false]
    exact hpri
  exact and_congr (imp_congr_right fun _ => hpri) (imp_congr_right fun _ => hzero)

/-- With one poller changed, it alone is to be looked at. -/
theorem pollers_update {poller : ℕ → Option Poll}
    (h : ∀ j p, poller j = some p → p.Right) (i : ℕ) (x : Option Poll) :
    (∀ j p, Function.update poller i x j = some p → p.Right) ↔ ∀ p, x = some p → p.Right :=
  (Function.forall_update_iff poller fun _ x => ∀ p, x = some p → p.Right).trans
    (and_iff_left fun j _ => h j)

/-- **One step.** The polls stay right if and only if the step meets the
condition. -/
theorem State.Right.step_iff {s t : State} {a : Act} (h : s.Right) (hlive : s.Live)
    (hs : system.step s a = some t) : t.Right ↔ PollMeets s a := by
  cases step_moves hs with
  | event | ack | push | clear => exact iff_of_true h trivial
  | irq ha =>
    rcases ha with rfl | ⟨sampleValue, now, rfl⟩ <;> exact iff_of_true h trivial
  | pollStatus i =>
    refine Iff.trans ?_ hlive.right_iff
    constructor
    · rintro ⟨hpollers, -⟩
      exact (pollers_update h.1 i _).mp hpollers _ rfl
    · intro hp
      refine ⟨(pollers_update h.1 i _).mpr ?_, h.2⟩
      rintro _ ⟨⟩
      exact hp
  | pollSize i p hpi =>
    refine iff_of_true ⟨(pollers_update h.1 i none).mpr nofun, ?_⟩ trivial
    intro q hq
    rcases List.mem_cons.mp hq with rfl | hq
    · -- the bit is as the section left it
      have hp := h.1 i p hpi
      rw [Poll.Right] at hp ⊢
      rw [myfbpollSize_pollpri]
      exact hp
    · exact h.2 q hq

/-- **The high-priority alarm.** In a run of events, interrupt, polls and
clears every poll reports `POLLPRI` while an over-threshold sample has been
pushed since the latest `FB_CLEAR_ALARM`, and none does between an
`FB_CLEAR_ALARM` and the next event over the threshold, if and only if each
poll of the first kind finds a further event over the threshold, not yet
acknowledged, and each of the second kind finds none. -/
theorem myfbpoll_alarm_iff {as : List Act} (h : system.Run (fun _ _ => True) as) :
    system.Along (fun _ _ t => t.Right) system.init as ↔
      system.Along (fun s a _ => PollMeets s a) system.init as := by
  refine Lts.along_iff (fun s => s.Live ∧ s.Right) ?_ ?_ ⟨?_, ?_⟩ h
  · rintro s a t ⟨hlive, hright⟩ - hs
    exact hright.step_iff hlive hs
  · rintro s a t ⟨hlive, hright⟩ - hs hmeets
    exact ⟨hlive.step hs, (hright.step_iff hlive hs).mpr hmeets⟩
  · exact ⟨nofun, fun hover => absurd hover (by decide)⟩
  · exact ⟨nofun, nofun⟩

/-- An event over the threshold, its sample pushed, a second such event and a
poll. -/
def overAgain : List Act :=
  [.event 3, .top, .bottom 7 1, .bottom 7 2, .event 3, .pollStatus 0, .pollSize 0]

theorem myfbpoll_alarm_iff_overAgain : system.Along (fun _ _ t => t.Right) system.init overAgain :=
  (myfbpoll_alarm_iff (by decide +kernel)).mpr (by decide +kernel)

/-- The same without the second event: the sample is pushed, its event acknowledged. -/
def overOnce : List Act :=
  [.event 3, .top, .bottom 7 1, .bottom 7 2, .pollStatus 0, .pollSize 0]

/-- The poll does not report the alarm, although it is due: its event has been
acknowledged. -/
theorem alarm_acked : ∃ s, system.exec system.init overOnce = some s ∧
    ∃ p, s.polls = [p] ∧ p.due = true ∧ p.mask &&& pollpri = 0 :=
  ⟨_, rfl, _, rfl, rfl, by decide +kernel⟩

end BellPoll

end KernelDrvLearn
