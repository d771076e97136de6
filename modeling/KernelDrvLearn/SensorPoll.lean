import Mathlib.Logic.Function.Basic
import KernelDrvLearn.Fakesensor

/-!
# Waiting for the alarm of the fake sensor

The ioctls of `Fakesensor`, now several at a time and not in one step: a setter,
the `get_alm` after it and `wake_up_interruptible` are steps of their own, and
the steps of other ioctls and of the pollers come in between. A poller registers
on `wq`, then tests the alarm, then sleeps if the mask was 0; a wake-up after
the registration makes it test again.

The alarm goes on only in an ioctl that wakes afterwards, or at least tests
again; a clear in between only turns it off. So an alarm that is on while a
poller sleeps on has an ioctl at work that will see to it (`no_missed_wakeup`).
-/

namespace KernelDrvLearn

namespace Sensor

namespace Poll

/-! ## Threads and pollers

The parties: threads in their ioctls, and pollers in the kernel's loop. A setter has its
test of the alarm and its wake-up still to come when it has stored its value, and a poller
may test in between. -/

/-- Where a thread stands in `device_unlocked_ioctl`. -/
inductive Thread where
  /-- in no ioctl -/
  | idle
  /-- the argument is copied, the command comes next -/
  | entered (ioctlnum : Ioctlnum) (new : BitVec 32)
  /-- past a setter, before `get_alm` -/
  | test
  /-- before `wake_up_interruptible` -/
  | wake
  deriving DecidableEq

/-- Where a poller stands in the kernel's poll loop. -/
inductive Poller where
  /-- not registered -/
  | out
  /-- registered, before `device_poll` tests the alarm; has a wake-up come
  since the registration or the last test? -/
  | testing (triggered : Bool)
  /-- the mask was 0; it sleeps until a wake-up has come -/
  | asleep (triggered : Bool)
  /-- returned with a mask -/
  | done (mask : BitVec 32)
  deriving DecidableEq

/-- A wake-up reaches the registered pollers, asleep or not. One that goes to sleep
afterwards finds itself woken. -/
def Poller.wakeUp : Poller → Poller
  | out => out
  | testing _ => testing true
  | asleep _ => asleep true
  | done mask => done mask

/-- One sensor with its threads and pollers. -/
structure State where
  /-- `mysensor->stat` -/
  stat : MysensorStatus
  /-- the threads -/
  thread : ℕ → Thread
  /-- the pollers -/
  poller : ℕ → Poller

/-- What can happen next: a command, or a step of a thread or a poller. -/
inductive Act where
  /-- thread `i` calls an ioctl; `left` bytes of the argument are not copied -/
  | ioctl (i : ℕ) (ioctlnum : Ioctlnum) (arg : BitVec 32) (left : ℕ)
  /-- thread `i` takes a step -/
  | run (i : ℕ)
  /-- poller `j` registers on `wq` -/
  | register (j : ℕ)
  /-- poller `j` tests the alarm -/
  | poll (j : ℕ)
  /-- poller `j`, woken, goes round the loop -/
  | again (j : ℕ)
  /-- poller `j` gives up, by a timeout or a signal -/
  | leave (j : ℕ)

/-- Thread `i` stands at `th`. -/
def State.setThread (s : State) (i : ℕ) (th : Thread) : State :=
  { s with thread := Function.update s.thread i th }

/-- Poller `j` stands at `pl`. -/
def State.setPoller (s : State) (j : ℕ) (pl : Poller) : State :=
  { s with poller := Function.update s.poller j pl }

/-- The first step of a command: its setter, or the whole of it. -/
def command (s : State) (i : ℕ) (ioctlnum : Ioctlnum) (new : BitVec 32) : State :=
  match ioctlnum with
  | .setTemp => { s with stat := (setTemp s.stat new).1 }.setThread i .test
  | .setHumidity => { s with stat := (setHum s.stat new).1 }.setThread i .idle
  | .setThreshold => { s with stat := (setLim s.stat new).1 }.setThread i .test
  | .clearAlarm => { s with stat := (setAlm s.stat 0).1 }.setThread i .idle
  | .triggerAlarm => { s with stat := (setAlm s.stat 1).1 }.setThread i .wake
  | .getStatus | .getTemp | .getHumidity | .getThreshold | .getAlarm | .unknown =>
    s.setThread i .idle

/-- One step of thread `i`, if it is in an ioctl. -/
def runStep (s : State) (i : ℕ) : Option State :=
  match s.thread i with
  | .idle => none
  | .entered ioctlnum new => some (command s i ioctlnum new)
  | .test => some (s.setThread i (if getAlm s.stat ≠ 0 then .wake else .idle))
  | .wake => some ({ s with poller := fun j => (s.poller j).wakeUp }.setThread i .idle)

/-- One step of a thread or of a poller. -/
def step (s : State) : Act → Option State
  | .ioctl i ioctlnum arg left =>
    if s.thread i = .idle then
      some (s.setThread i (.entered ioctlnum (cpy2kernel arg left)))
    else none
  | .run i => runStep s i
  | .register j =>
    match s.poller j with
    | .out | .done _ => some (s.setPoller j (.testing false))
    | _ => none
  | .poll j =>
    match s.poller j with
    | .testing triggered =>
      let mask := devicePoll s.stat
      some (s.setPoller j (if mask ≠ 0 then .done mask else .asleep triggered))
    | _ => none
  | .again j =>
    match s.poller j with
    | .asleep true => some (s.setPoller j (.testing false))
    | _ => none
  | .leave j =>
    match s.poller j with
    | .testing _ | .asleep _ => some (s.setPoller j .out)
    | _ => none

/-- A bound sensor that nobody uses yet. -/
def system : Lts State Act where
  init := ⟨initTempstat, fun _ => .idle, fun _ => .out⟩
  step := step

/-! ## One ioctl alone

Without others the steps of an ioctl are the ioctl of the other model, so that the two
speak of the same driver. -/

@[simp] theorem setThread_thread (s : State) (i : ℕ) (th : Thread) :
    (s.setThread i th).thread i = th := Function.update_self ..

/-- The registers an ioctl leaves, the wake-up given or not. -/
def State.after (s : State) (i : ℕ) (res : IoctlResult) : State :=
  { stat := res.stat
    thread := Function.update s.thread i .idle
    poller := if res.woken then fun j => (s.poller j).wakeUp else s.poller }

/-- A thread at its wake-up wakes, and is out of its ioctl. -/
theorem repeats_wake {s : State} {i : ℕ} (h : s.thread i = .wake) :
    system.Repeats (.run i) s
      ({ s with poller := fun j => (s.poller j).wakeUp }.setThread i .idle) := by
  refine Lts.Repeats.head ?_ (Lts.Repeats.refl _ _)
  change runStep s i = _
  rw [runStep, h]

/-- A thread at its test, left alone, tests and wakes. -/
theorem repeats_test {s : State} {i : ℕ} (h : s.thread i = .test) :
    system.Repeats (.run i) s
      (({ s with poller := if getAlm s.stat ≠ 0 then fun j => (s.poller j).wakeUp else s.poller }
        : State).setThread i .idle) := by
  have hstep : system.step s (.run i) =
      some (s.setThread i (if getAlm s.stat ≠ 0 then .wake else .idle)) := by
    change runStep s i = _
    rw [runStep, h]
  refine Lts.Repeats.head hstep ?_
  by_cases halm : getAlm s.stat ≠ 0
  · rw [if_pos halm, if_pos halm]
    have hwake := repeats_wake (setThread_thread s i .wake)
    simp only [State.setThread, Function.update_idem] at hwake ⊢
    exact hwake
  · rw [if_neg halm, if_neg halm]
    exact Lts.Repeats.refl _ _

/-- **The steps of an ioctl make up the ioctl**: run without interruption they
have the effect of `deviceUnlockedIoctl`, and wake the pollers if it does. -/
theorem repeats_ioctl {s : State} {i : ℕ} {ioctlnum : Ioctlnum} {arg : BitVec 32} {left : ℕ}
    (h : s.thread i = .entered ioctlnum (cpy2kernel arg left)) :
    system.Repeats (.run i) s (s.after i (deviceUnlockedIoctl s.stat ioctlnum arg left)) := by
  have hstep : system.step s (.run i) = some (command s i ioctlnum (cpy2kernel arg left)) := by
    change runStep s i = _
    rw [runStep, h]
  refine Lts.Repeats.head hstep ?_
  cases ioctlnum with
  | getStatus | getTemp | getHumidity | getThreshold | getAlarm | setHumidity | clearAlarm
  | unknown => exact Lts.Repeats.refl _ _
  | setTemp =>
    have htest := repeats_test (s := command s i .setTemp (cpy2kernel arg left)) (i := i)
      (Function.update_self ..)
    simp only [command, State.setThread, Function.update_idem] at htest ⊢
    simp only [State.after, deviceUnlockedIoctl, decide_eq_true_eq]
    exact htest
  | setThreshold =>
    have htest := repeats_test (s := command s i .setThreshold (cpy2kernel arg left)) (i := i)
      (Function.update_self ..)
    simp only [command, State.setThread, Function.update_idem] at htest ⊢
    simp only [State.after, deviceUnlockedIoctl, decide_eq_true_eq]
    exact htest
  | triggerAlarm =>
    have hwake := repeats_wake (s := command s i .triggerAlarm (cpy2kernel arg left)) (i := i)
      (Function.update_self ..)
    simp only [command, State.setThread, Function.update_idem] at hwake ⊢
    exact hwake

/-! ## No missed wake-up

When the alarm is on and a poller sleeps that tested it off, somebody has turned it on
since, and has the test or the wake-up still before him. Registering comes before the
test, so that wake-up reaches the poller. -/

/-- Has the thread its test or its wake-up still to come? -/
def Thread.ToCome : Thread → Prop
  | test | wake => True
  | _ => False

/-- Is the poller asleep, with no wake-up since its test? -/
def Poller.Sleeps : Poller → Prop
  | asleep false => True
  | _ => False

/-- While the alarm is on and a poller sleeps, a thread will see to it. -/
def State.Seen (s : State) : Prop :=
  s.stat.alarm ≠ 0 → (∃ j, (s.poller j).Sleeps) → ∃ i, (s.thread i).ToCome

theorem wakeUp_not_sleeps (pl : Poller) : ¬ pl.wakeUp.Sleeps := by
  cases pl <;> exact id

/-- A thread that has its test or wake-up to come answers for everything. -/
theorem State.Seen.of_toCome {s : State} {i : ℕ} {th : Thread} (h : th.ToCome) :
    (s.setThread i th).Seen :=
  fun _ _ => ⟨i, by rw [setThread_thread]; exact h⟩

/-- A step that leaves the alarm off needs no answer. -/
theorem State.Seen.of_off {s : State} (h : s.stat.alarm = 0) : s.Seen :=
  fun hon => absurd h hon

/-- A thread that has nothing to come may move on. -/
theorem State.Seen.setThread {s : State} (h : s.Seen) {i : ℕ} (hi : ¬ (s.thread i).ToCome)
    (th : Thread) : (s.setThread i th).Seen := by
  intro hon hsleeps
  obtain ⟨k, hk⟩ := h hon hsleeps
  have hki : k ≠ i := by
    rintro rfl
    exact hi hk
  refine ⟨k, ?_⟩
  change (Function.update s.thread i th k).ToCome
  rw [Function.update_of_ne hki]
  exact hk

/-- A poller that does not sleep on may move. -/
theorem State.Seen.setPoller {s : State} (h : s.Seen) {j : ℕ} {pl : Poller}
    (hpl : ¬ pl.Sleeps) : (s.setPoller j pl).Seen := by
  rintro hon ⟨k, hk⟩
  refine h hon ⟨k, ?_⟩
  by_cases hkj : k = j
  · subst hkj
    change (Function.update s.poller k pl k).Sleeps at hk
    rw [Function.update_self] at hk
    exact absurd hk hpl
  · change (Function.update s.poller j pl k).Sleeps at hk
    rw [Function.update_of_ne hkj] at hk
    exact hk

/-- **Step lemma** of the ioctls: the setters that can turn the alarm on have
their test or wake-up to come. -/
theorem State.Seen.command {s : State} (h : s.Seen) {i : ℕ} (hi : ¬ (s.thread i).ToCome)
    (ioctlnum : Ioctlnum) (new : BitVec 32) : (command s i ioctlnum new).Seen := by
  cases ioctlnum with
  | setTemp | setThreshold => exact State.Seen.of_toCome (show Thread.ToCome .test from trivial)
  | triggerAlarm => exact State.Seen.of_toCome (show Thread.ToCome .wake from trivial)
  | clearAlarm => exact State.Seen.of_off rfl
  | setHumidity | getStatus | getTemp | getHumidity | getThreshold | getAlarm | unknown =>
    exact h.setThread hi .idle

/-- **Step lemma** of the threads: whoever wakes has no poller left asleep. -/
theorem State.Seen.run {s t : State} (h : s.Seen) {i : ℕ} (hs : runStep s i = some t) :
    t.Seen := by
  rcases hth : s.thread i with _ | ⟨ioctlnum, new⟩ | _ | _ <;> simp only [runStep, hth] at hs
  case idle => cases hs
  case entered =>
    obtain rfl := Option.some.inj hs
    exact h.command (by rw [hth]; exact id) ioctlnum new
  case test =>
    obtain rfl := Option.some.inj hs
    by_cases halm : getAlm s.stat ≠ 0
    · rw [if_pos halm]
      exact State.Seen.of_toCome trivial
    · exact State.Seen.of_off (not_not.mp halm)
  case wake =>
    obtain rfl := Option.some.inj hs
    rintro - ⟨j, hj⟩
    exact absurd hj (wakeUp_not_sleeps _)

/-- **Step lemma.** A poller goes to sleep only when its test has found the alarm off, so
its own steps need no answer. -/
theorem State.Seen.step {s t : State} {a : Act} (h : s.Seen) (hs : system.step s a = some t) :
    t.Seen := by
  cases a with
  | ioctl i ioctlnum arg left =>
    change (if s.thread i = .idle then _ else none) = some t at hs
    split at hs
    case isTrue hidle =>
      obtain rfl := Option.some.inj hs
      exact h.setThread (by rw [hidle]; exact id) _
    case isFalse => cases hs
  | run i => exact h.run hs
  | register j =>
    change (match s.poller j with | .out | .done _ => _ | _ => none) = some t at hs
    split at hs
    case h_1 | h_2 =>
      obtain rfl := Option.some.inj hs
      exact h.setPoller id
    case h_3 => cases hs
  | poll j =>
    change (match s.poller j with | .testing triggered => _ | _ => none) = some t at hs
    split at hs
    case h_1 triggered hpl =>
      obtain rfl := Option.some.inj hs
      -- a poller falls asleep only on an alarm that is off
      by_cases halm : getAlm s.stat ≠ 0
      · have hmask : devicePoll s.stat ≠ 0 := by
          rw [devicePoll, if_pos halm]
          decide
        rw [if_pos hmask]
        exact h.setPoller id
      · exact State.Seen.of_off (not_not.mp halm)
    case h_2 => cases hs
  | again j =>
    change (match s.poller j with | .asleep true => _ | _ => none) = some t at hs
    split at hs
    case h_1 =>
      obtain rfl := Option.some.inj hs
      exact h.setPoller id
    case h_2 => cases hs
  | leave j =>
    change (match s.poller j with | .testing _ | .asleep _ => _ | _ => none) = some t at hs
    split at hs
    case h_1 | h_2 =>
      obtain rfl := Option.some.inj hs
      exact h.setPoller id
    case h_3 => cases hs

/-- **No alarm is slept through.** In no reachable state, whatever the threads
and pollers do, is the alarm on and a poller asleep since it tested it off,
with no ioctl in progress whose alarm test or wake-up is still to come.

The order of the poll is what counts: it registers first and looks at the alarm
afterwards. Whoever turns the alarm on after that look still has his wake-up to send,
and finds the poller registered. -/
theorem no_missed_wakeup {s : State} (h : system.Reach (fun _ _ => True) s) :
    ¬ (s.stat.alarm = 1 ∧ (∃ j, s.poller j = .asleep false) ∧
      ∀ i, s.thread i ≠ .test ∧ s.thread i ≠ .wake) := by
  have hseen : s.Seen := h.invariant (State.Seen.of_off rfl) fun _ _ _ hi _ hs => hi.step hs
  rintro ⟨hon, ⟨j, hj⟩, hnone⟩
  have hne : s.stat.alarm ≠ 0 := by
    rw [hon]
    decide
  obtain ⟨i, hi⟩ := hseen hne ⟨j, by rw [hj]; trivial⟩
  rcases hth : s.thread i <;> rw [hth] at hi
  case idle | entered => exact hi
  case test => exact (hnone i).1 hth
  case wake => exact (hnone i).2 hth

/-- A poller sleeps; the temperature rises and the thread is before its test. -/
def asleepAndHot : List Act :=
  [.register 0, .poll 0, .ioctl 0 .setTemp 101 0, .run 0]

theorem no_missed_wakeup_hot : ∃ s, system.exec system.init asleepAndHot = some s ∧
    s.stat.alarm = 1 ∧ s.poller 0 = .asleep false ∧
    ¬ ∀ i, s.thread i ≠ .test ∧ s.thread i ≠ .wake := by
  obtain ⟨s, hexec⟩ : ∃ s, system.exec system.init asleepAndHot = some s := ⟨_, rfl⟩
  have hstate : system.exec system.init asleepAndHot = some s ∧
      s.stat.alarm = 1 ∧ s.poller 0 = .asleep false := by
    obtain rfl := Option.some.inj hexec
    exact ⟨hexec, by decide +kernel, by decide +kernel⟩
  refine ⟨s, hexec, hstate.2.1, hstate.2.2, fun hnone => ?_⟩
  exact no_missed_wakeup (Lts.Reach.init.replay hexec)
    ⟨hstate.2.1, ⟨0, hstate.2.2⟩, hnone⟩

end Poll

end Sensor

end KernelDrvLearn
