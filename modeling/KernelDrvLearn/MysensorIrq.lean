import KernelDrvLearn.Fakebell
import KernelDrvLearn.KernelApi
import KernelDrvLearn.MysensorRing
import KernelDrvLearn.Transition

/-!
# The interrupt of the sensor driver

`mysensor_irq_handler` and `mysensor_irq_thread` of
`practice/mysensor/mysensor.c` on the fake bell device, every register access
being a step of its own, so a timer tick may land between any two of them. The
interrupt is level-triggered and `IRQF_ONESHOT`: it is delivered while the line
is asserted, and the line stays masked from the hard handler until the thread
returns.

The thread pushes before it acknowledges. Ticks in between are skipped by the
device, ticks after the acknowledgement raise the next event, so **every event
is pushed exactly once** (`irq_exactly_once`). The register `event_count` is a
`u32` and counts the events modulo 2³²; after 2³² of them it is 0 again.
-/

namespace KernelDrvLearn

namespace Mysensor

open Fakebell

/-! ## The handlers

The handling of one interrupt is a straight line of register accesses and one push, on a
device whose timer goes on ticking. The line is masked from the delivery to the end, so
there is never a second handling beside it. -/

/-- The next step of the interrupt's handling. -/
inductive Pc where
  /-- none: the line is unmasked -/
  | idle
  /-- `mysensor_irq_handler` -/
  | handler
  /-- `mb_get_status` -/
  | getStatus
  /-- `mb_get_event_count` -/
  | getEventCount
  /-- `mb_get_irq_status` -/
  | getIrqStatus
  /-- `rb_push` -/
  | push
  /-- `mb_ack_irq` -/
  | ack
  /-- the second `mb_get_irq_status` -/
  | getIrqStatusAfter
  /-- `wake_up_interruptible`, and the return -/
  | wakeUp
  deriving DecidableEq

/-- The locals of `mysensor_irq_thread`, which it prints. -/
structure Locals where
  /-- `status` -/
  status : BitVec 32
  /-- `event_count` -/
  eventCount : BitVec 32
  /-- `irq_status_before` -/
  irqStatusBefore : BitVec 32
  /-- `irq_status_after` -/
  irqStatusAfter : BitVec 32

/-- A call of `rb_push`, by its event and its value. -/
structure PushCall where
  /-- the event it is for: the number of events raised when it is made -/
  event : ℕ
  /-- the value pushed -/
  value : Int

/-- Device and driver, with a history of events, pushes and results. -/
structure IrqState where
  /-- the device -/
  bell : FakeBellState
  /-- the next step of the handling -/
  pc : Pc
  /-- the locals of the thread -/
  loc : Locals
  /-- `dev->rb` -/
  rb : Ringbuffer
  /-- the static `data` -/
  data : Int
  /-- history: the events raised -/
  events : ℕ
  /-- history: the calls of `rb_push` -/
  pushed : List PushCall
  /-- history: what the handlers returned -/
  returns : List Irqreturn

/-- What can happen next: the timer, the probe, or a step of the handling. -/
inductive IrqAct where
  /-- the timer of the device -/
  | tick
  /-- `mb_enable_irq` in `mysensor_probe` -/
  | enable
  /-- the asserted line is delivered -/
  | deliver
  /-- the handling proceeds, at the time `ts` -/
  | run (ts : Timespec64)

/-- The handling proceeds by one step, in the hard handler first and then in its thread.
-/
def irqRun (s : IrqState) (ts : Timespec64) : Option IrqState :=
  match s.pc with
  | .idle => none
  | .handler =>
    let irqst := mbGetIrqStatus s.bell
    if irqst &&& fbIrqStatusPending = 0 then
      some { s with pc := .idle, returns := s.returns ++ [.none] }
    else some { s with pc := .getStatus, returns := s.returns ++ [.wakeThread] }
  | .getStatus =>
    some { s with loc := { s.loc with status := mbGetStatus s.bell }, pc := .getEventCount }
  | .getEventCount =>
    some { s with
      loc := { s.loc with eventCount := mbGetEventCount s.bell }, pc := .getIrqStatus }
  | .getIrqStatus =>
    some { s with loc := { s.loc with irqStatusBefore := mbGetIrqStatus s.bell }, pc := .push }
  | .push =>
    let value := s.data.tmod 100
    some { s with
      data := wrap32 (s.data + 1), rb := rbPush s.rb value ts, pc := .ack,
      pushed := s.pushed ++ [⟨s.events, value⟩] }
  | .ack => some { s with bell := mbAckIrq s.bell, pc := .getIrqStatusAfter }
  | .getIrqStatusAfter =>
    some { s with loc := { s.loc with irqStatusAfter := mbGetIrqStatus s.bell }, pc := .wakeUp }
  | .wakeUp => some { s with pc := .idle, returns := s.returns ++ [.handled] }

/-- One step; an interrupt is delivered while the line is asserted and nothing is being
handled. -/
def irqStep (s : IrqState) : IrqAct → Option IrqState
  | .tick =>
    some { s with
      bell := fakebellTimerCb s.bell,
      events := if s.bell.Pending then s.events else s.events + 1 }
  | .enable =>
    if s.bell.irqEnable = 0 then some { s with bell := mbEnableIrq s.bell } else none
  | .deliver =>
    if s.bell.irq = true ∧ s.pc = .idle then some { s with pc := .handler } else none
  | .run ts => irqRun s ts

/-- The device is reset and its driver being probed, its memory zeroed. -/
def irqSystem : Lts IrqState IrqAct where
  init :=
    { bell := fakebellRealize, pc := .idle, loc := ⟨0, 0, 0, 0⟩,
      rb := rbInit ⟨fun _ => 0, fun _ _ => 0, 0, 0, 0⟩, data := 0,
      events := 0, pushed := [], returns := [] }
  step := irqStep

/-- The pending event has not been pushed. -/
def IrqState.Unpushed (s : IrqState) : Prop :=
  s.bell.Pending ∧ ∀ p ∈ s.pushed, p.event ≠ s.events

/-! ## The invariant

An event is pending from the tick that raises it to its acknowledgement, and in between it
is pushed, once. Where the handling stands tells which of the two sides of the push it is
on. -/

/-- The events pushed so far are the first `n`, in order. -/
def FirstEvents (pushed : List PushCall) (n : ℕ) : Prop :=
  pushed.map PushCall.event = List.range' 1 n

theorem FirstEvents.length {pushed : List PushCall} {n : ℕ} (h : FirstEvents pushed n) :
    pushed.length = n := by
  rw [← List.length_map, h, List.length_range']

/-- The next event follows those that have been pushed, with no event left out. -/
theorem FirstEvents.push {pushed : List PushCall} {n : ℕ} (h : FirstEvents pushed n)
    (value : Int) : FirstEvents (pushed ++ [⟨n + 1, value⟩]) (n + 1) := by
  rw [FirstEvents, List.map_append, h, List.range'_concat, Nat.one_mul, Nat.add_comm 1]
  rfl

/-- Has the thread pushed the pending event, and not acknowledged it yet? -/
def Pc.Pushed : Pc → Prop
  | .ack => True
  | _ => False

/-- Is the event that raised the interrupt still to be pushed? -/
def Pc.Handling : Pc → Prop
  | .handler | .getStatus | .getEventCount | .getIrqStatus | .push => True
  | _ => False

/-- What holds between any two steps, of the device, the handling and the history. -/
structure IrqState.Inv (s : IrqState) : Prop where
  /-- the line follows the registers -/
  line : s.bell.LineOk
  /-- the pending bit is the only bit of its register -/
  bits : s.bell.irqStatus = 0 ∨ s.bell.irqStatus = fbIrqStatusPending
  /-- `event_count` counts the events -/
  count : s.bell.eventCount = BitVec.ofNat 32 s.events
  /-- a handler at work has its event pending -/
  handling : s.pc.Handling ∨ s.pc.Pushed → s.bell.Pending
  /-- before the acknowledgement the pushed event is the pending one -/
  acked : s.pc.Pushed → 0 < s.events ∧ FirstEvents s.pushed s.events
  /-- otherwise a pending event comes after those pushed -/
  fresh : ¬ s.pc.Pushed → s.bell.Pending → ∃ n, s.events = n + 1 ∧ FirstEvents s.pushed n
  /-- with nothing pending all events are pushed -/
  done : ¬ s.bell.Pending → FirstEvents s.pushed s.events
  /-- the hard handler found its event -/
  returns : Irqreturn.none ∉ s.returns

/-- A tick that is skipped changes nothing: an event is pending. -/
theorem IrqState.Inv.tick_pending {s : IrqState} (h : s.Inv) (hp : s.bell.Pending) :
    irqStep s .tick = some s := by
  obtain ⟨bell, pc, loc, rb, data, events, pushed, returns⟩ := s
  rw [irqStep, fakebellTimerCb_pending hp, if_pos hp]

/-- A tick that raises an event makes it the one to be pushed next. -/
theorem IrqState.Inv.tick_raise {s t : IrqState} (h : s.Inv) (hp : ¬ s.bell.Pending)
    (hs : irqStep s .tick = some t) : t.Inv := by
  rw [irqStep, fakebellTimerCb_raise hp, if_neg hp] at hs
  obtain rfl := Option.some.inj hs
  have hpend : ∀ b c, (FakeBellState.mk b fbStatusEventActive s.bell.irqEnable
      fbIrqStatusPending c).Pending := fun _ _ => FakeBellState.pending_of rfl
  have hnotPushed : ¬ s.pc.Pushed := fun hpc => hp (h.handling (Or.inr hpc))
  refine ⟨?_, Or.inr rfl, ?_, fun _ => hpend _ _, fun hpc => absurd hpc hnotPushed,
    fun _ _ => ⟨s.events, rfl, h.done hp⟩, fun hnot => absurd (hpend _ _) hnot, h.returns⟩
  · exact decide_eq_true_iff.trans ⟨fun hen => ⟨hen, hpend _ _⟩, fun hen => hen.1⟩
  · change s.bell.eventCount + 1 = BitVec.ofNat 32 (s.events + 1)
    rw [h.count, BitVec.ofNat_add]
    rfl

theorem IrqState.Inv.enable {s t : IrqState} (h : s.Inv) (hs : irqStep s .enable = some t) :
    t.Inv := by
  rw [irqStep] at hs
  split at hs
  case isFalse => cases hs
  case isTrue =>
    rw [mbEnableIrq_eq] at hs
    obtain rfl := Option.some.inj hs
    have hen : ∀ b, (FakeBellState.mk b s.bell.status 1 s.bell.irqStatus
        s.bell.eventCount).Enabled := fun _ => FakeBellState.enabled_of rfl
    refine ⟨?_, h.bits, h.count, h.handling, h.acked, h.fresh, h.done, h.returns⟩
    exact decide_eq_true_iff.trans ⟨fun hp => ⟨hen _, hp⟩, fun hp => hp.2⟩

theorem IrqState.Inv.deliver {s t : IrqState} (h : s.Inv) (hs : irqStep s .deliver = some t) :
    t.Inv := by
  rw [irqStep] at hs
  split at hs
  case isFalse => cases hs
  case isTrue hirq =>
    obtain rfl := Option.some.inj hs
    have hidle : ¬ s.pc.Pushed := by
      rw [hirq.2]
      exact id
    have hp : s.bell.Pending := (h.line.mp hirq.1).2
    exact ⟨h.line, h.bits, h.count, fun _ => hp, fun hpc => (nomatch hpc),
      fun _ => h.fresh hidle, h.done, h.returns⟩

/-- A register read of the thread changes its locals only. -/
theorem IrqState.Inv.read {s : IrqState} (h : s.Inv) {pc : Pc} (loc : Locals)
    (hs : ¬ s.pc.Pushed) (ht : ¬ pc.Pushed) (hpc : pc.Handling → s.pc.Handling) :
    IrqState.Inv { s with loc := loc, pc := pc } where
  line := h.line
  bits := h.bits
  count := h.count
  handling := by
    rintro (hp | hp)
    · exact h.handling (Or.inl (hpc hp))
    · exact absurd hp ht
  acked hp := absurd hp ht
  fresh _ := h.fresh hs
  done := h.done
  returns := h.returns

/-- The handling proceeds by one step, and an event is pushed before it is acknowledged.
-/
theorem IrqState.Inv.run {s t : IrqState} (h : s.Inv) {ts : Timespec64}
    (hs : irqRun s ts = some t) : t.Inv := by
  rcases hpc : s.pc <;> simp only [irqRun, hpc] at hs
  case idle => cases hs
  case handler =>
    -- only the thread acknowledges, and it has not been woken yet
    have hp : s.bell.Pending := h.handling (Or.inl (by rw [hpc]; trivial))
    rw [mbGetIrqStatus_eq, if_neg hp] at hs
    obtain rfl := Option.some.inj hs
    refine ⟨h.line, h.bits, h.count, fun _ => hp, fun hpc' => (nomatch hpc'),
      fun _ => h.fresh (by rw [hpc]; exact id), h.done, ?_⟩
    intro hmem
    rcases List.mem_append.mp hmem with hmem | hmem
    · exact h.returns hmem
    · cases List.mem_singleton.mp hmem
  case push =>
    obtain rfl := Option.some.inj hs
    have hp : s.bell.Pending := h.handling (Or.inl (by rw [hpc]; trivial))
    obtain ⟨n, hn, hfirst⟩ := h.fresh (by rw [hpc]; exact id) hp
    have hnext : 0 < s.events ∧
        FirstEvents (s.pushed ++ [⟨s.events, s.data.tmod 100⟩]) s.events := by
      rw [hn]
      exact ⟨Nat.succ_pos n, hfirst.push _⟩
    exact ⟨h.line, h.bits, h.count, fun _ => hp, fun _ => hnext, fun hpc' => absurd trivial hpc',
      fun hnot => absurd hp hnot, h.returns⟩
  case ack =>
    rw [mbAckIrq_eq] at hs
    obtain rfl := Option.some.inj hs
    have hnot : ¬ (FakeBellState.mk false 0 s.bell.irqEnable 0 s.bell.eventCount).Pending :=
      FakeBellState.not_pending_of rfl
    have hfirst : FirstEvents s.pushed s.events := (h.acked (by rw [hpc]; trivial)).2
    refine ⟨⟨fun h => (nomatch h), fun h => absurd h.2 hnot⟩, Or.inl rfl, h.count, ?_,
      fun hpc' => (nomatch hpc'), fun _ hp => absurd hp hnot, fun _ => hfirst, h.returns⟩
    rintro (hpc' | hpc') <;> cases hpc'
  case wakeUp =>
    obtain rfl := Option.some.inj hs
    have hret : Irqreturn.none ∉ s.returns ++ [Irqreturn.handled] := by
      intro hmem
      rcases List.mem_append.mp hmem with hmem | hmem
      · exact h.returns hmem
      · cases List.mem_singleton.mp hmem
    have hread : IrqState.Inv { s with pc := .idle } :=
      h.read s.loc (by rw [hpc]; exact id) id (fun hh => nomatch hh)
    exact ⟨hread.line, hread.bits, hread.count, hread.handling, hread.acked, hread.fresh,
      hread.done, hret⟩
  case getStatus | getEventCount | getIrqStatus =>
    obtain rfl := Option.some.inj hs
    exact h.read _ (by rw [hpc]; exact id) id (fun _ => by rw [hpc]; trivial)
  case getIrqStatusAfter =>
    obtain rfl := Option.some.inj hs
    exact h.read _ (by rw [hpc]; exact id) id (fun hh => nomatch hh)

/-- **Step lemma.** Whatever the step, each event is pushed once or still to be. -/
theorem IrqState.Inv.step {s t : IrqState} {a : IrqAct} (h : s.Inv)
    (hs : irqSystem.step s a = some t) : t.Inv := by
  cases a with
  | tick =>
    by_cases hp : s.bell.Pending
    · obtain rfl := Option.some.inj ((h.tick_pending hp).symm.trans hs)
      exact h
    · exact h.tick_raise hp hs
  | enable => exact h.enable hs
  | deliver => exact h.deliver hs
  | run ts => exact h.run hs

theorem IrqState.Inv.init : irqSystem.init.Inv where
  line := lineOk_realize
  bits := Or.inl rfl
  count := rfl
  handling := by rintro (hpc | hpc) <;> cases hpc
  acked hpc := nomatch hpc
  fresh _ hp := absurd hp (FakeBellState.not_pending_of rfl)
  done _ := rfl
  returns := List.not_mem_nil

/-- **Run lemma.** So it is in every reachable state. -/
theorem IrqState.Inv.reach {s : IrqState} (h : irqSystem.Reach (fun _ _ => True) s) : s.Inv :=
  h.invariant IrqState.Inv.init fun _ _ _ hi _ hs => hi.step hs

/-! ## Exactly once

What the invariant says of the events, in terms of the pushes: the first events are
pushed, in order and once each, and at most one is still to come. -/

instance (s : IrqState) : Decidable s.Unpushed := inferInstanceAs (Decidable (_ ∧ _))

/-- Every event raised has been pushed once, but for a pending one whose push is
still to come, and the register holds their number modulo 2³². The hard handler
never disowned the interrupt. -/
structure IrqState.ExactlyOnce (s : IrqState) : Prop where
  pushes : s.pushed.length + (if s.Unpushed then 1 else 0) = s.events
  register : s.bell.eventCount = BitVec.ofNat 32 s.events
  nodup : (s.pushed.map PushCall.event).Nodup
  returns : Irqreturn.none ∉ s.returns

/-- With all events pushed, the last one among them is the latest event. -/
theorem FirstEvents.not_unpushed {s : IrqState} (h : FirstEvents s.pushed s.events)
    (hp : 0 < s.events) : ¬ s.Unpushed := by
  rintro ⟨-, hnew⟩
  have hmem : s.events ∈ s.pushed.map PushCall.event := by
    rw [h, List.mem_range'_1]
    omega
  obtain ⟨p, hpushed, hevent⟩ := List.mem_map.mp hmem
  exact hnew p hpushed hevent

/-- With one event to come, it is not among those pushed. -/
theorem FirstEvents.unpushed {s : IrqState} {n : ℕ} (h : FirstEvents s.pushed n)
    (hn : s.events = n + 1) (hp : s.bell.Pending) : s.Unpushed := by
  refine ⟨hp, fun p hpushed hevent => ?_⟩
  have hmem : p.event ∈ s.pushed.map PushCall.event := List.mem_map_of_mem hpushed
  rw [h, List.mem_range'_1] at hmem
  omega

theorem FirstEvents.nodup {pushed : List PushCall} {n : ℕ} (h : FirstEvents pushed n) :
    (pushed.map PushCall.event).Nodup := by
  rw [h]
  exact List.nodup_range'

theorem IrqState.Inv.exactlyOnce {s : IrqState} (h : s.Inv) : s.ExactlyOnce := by
  by_cases hp : s.bell.Pending
  · by_cases hpc : s.pc.Pushed
    · obtain ⟨hpos, hfirst⟩ := h.acked hpc
      refine ⟨?_, h.count, hfirst.nodup, h.returns⟩
      rw [if_neg (hfirst.not_unpushed hpos), hfirst.length]
      rfl
    · obtain ⟨n, hn, hfirst⟩ := h.fresh hpc hp
      refine ⟨?_, h.count, hfirst.nodup, h.returns⟩
      rw [if_pos (hfirst.unpushed hn hp), hfirst.length, hn]
  · have hfirst := h.done hp
    refine ⟨?_, h.count, hfirst.nodup, h.returns⟩
    rw [if_neg fun hu => hp hu.1, hfirst.length]
    rfl

/-- **Every event is recorded exactly once.** In every state reached from
device reset, by any interleaving of timer ticks with the steps of probe and
handlers, the calls of `rb_push` are as many as the events, less one if the
pending event has not been pushed; `event_count` is the number of events modulo
2³²; no event was pushed twice; and the hard handler never returned
`IRQ_NONE`.

The device counts no event while one is pending, and only the acknowledgement makes room
for the next. Between the two the threaded handler passes its push once, so the events
pushed are the first ones, without a gap, and at most the latest is missing. -/
theorem irq_exactly_once (s : IrqState) (h : irqSystem.Reach (fun _ _ => True) s) :
    s.ExactlyOnce :=
  (IrqState.Inv.reach h).exactlyOnce

/-- The handling of one event. -/
def cycle : List IrqAct := [.tick, .deliver] ++ List.replicate 8 (.run ⟨0, 0⟩)

/-- An event raised while the driver waits is handled, and the driver waits
again. -/
theorem exec_cycle {s : IrqState} (hpc : s.pc = .idle) (hen : s.bell.irqEnable = 1)
    (hst : s.bell.irqStatus = 0) :
    ∃ t, irqSystem.exec s cycle = some t ∧ t.pc = .idle ∧ t.bell.irqEnable = 1 ∧
      t.bell.irqStatus = 0 ∧ t.pushed.length = s.pushed.length + 1 := by
  have hnot : ¬ s.bell.Pending := FakeBellState.not_pending_of hst
  have hon : s.bell.Enabled := FakeBellState.enabled_of hen
  simp only [cycle, List.replicate, List.cons_append, List.nil_append, Lts.exec_cons, Lts.exec_nil,
    irqSystem, irqStep, irqRun, fakebellTimerCb_raise hnot, decide_eq_true hon, hpc, and_self,
    if_true, Option.bind_some, mbGetIrqStatus_eq, mbAckIrq_eq]
  exact ⟨_, rfl, rfl, hen, rfl, List.length_append⟩

/-- The driver waits, with all events handled and the line unmasked. -/
structure IrqState.Quiet (s : IrqState) (n : ℕ) : Prop where
  reach : irqSystem.Reach (fun _ _ => True) s
  pc : s.pc = .idle
  enabled : s.bell.irqEnable = 1
  clear : s.bell.irqStatus = 0
  pushed : s.pushed.length = n

/-- Any number of events can be handled. -/
theorem exists_quiet (n : ℕ) : ∃ s : IrqState, s.Quiet n := by
  induction n with
  | zero =>
    have henable : ∃ s, irqSystem.exec irqSystem.init [.enable] = some s ∧ s.pc = .idle ∧
        s.bell.irqEnable = 1 ∧ s.bell.irqStatus = 0 ∧ s.pushed.length = 0 :=
      ⟨_, rfl, by decide⟩
    obtain ⟨s, hexec, hpc, hen, hst, hpushed⟩ := henable
    exact ⟨s, Lts.Reach.init.replay hexec, hpc, hen, hst, hpushed⟩
  | succ n ih =>
    obtain ⟨s, hreach, hpc, hen, hst, hpushed⟩ := ih
    obtain ⟨t, hexec, hpc', hen', hst', hpushed'⟩ := exec_cycle hpc hen hst
    exact ⟨t, hreach.replay hexec, hpc', hen', hst', by rw [hpushed', hpushed]⟩

theorem irq_exactly_once_quiet : ∃ s : IrqState, s.Quiet 1 ∧ s.ExactlyOnce := by
  obtain ⟨s, hs⟩ := exists_quiet 1
  exact ⟨s, hs, irq_exactly_once s hs.reach⟩

/-- After 2³² events, all of them pushed, `event_count` is 0. -/
theorem event_count_wraps : ∃ s, irqSystem.Reach (fun _ _ => True) s ∧
    s.pushed.length = 4294967296 ∧ ¬ s.Unpushed ∧ s.bell.eventCount.toNat = 0 := by
  obtain ⟨s, hs⟩ := exists_quiet 4294967296
  have hinv := IrqState.Inv.reach hs.reach
  have hnot : ¬ s.bell.Pending := FakeBellState.not_pending_of hs.clear
  refine ⟨s, hs.reach, hs.pushed, fun hu => hnot hu.1, ?_⟩
  rw [hinv.count, ← (hinv.done hnot).length, hs.pushed]
  rfl

end Mysensor

end KernelDrvLearn
