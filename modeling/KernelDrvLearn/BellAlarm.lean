import KernelDrvLearn.BellPoll

/-!
# The alarm mode of the fake bell

`do_alarm_mode` of `practice/myfakebell/app/main.c`: it sets a threshold, and then
polls, prints the status and asks for `FB_CLEAR_ALARM`, for ever. The ioctl does nothing
and the program does not read.

So the first sample is enough: from its wake-up on the program never sleeps again,
whether there is an alarm or not, and the ring keeps the newest 64 samples
(`alarm_spins`).
-/

namespace KernelDrvLearn

namespace BellAlarm

open Fakebell BellPoll

/-! ## The driver

What `FB_SET_THRESHOLD` and `FB_GET_STATUS` do to the device. Their registers are not in
the description of the device, which ignores the writes, so a program that reads them back
may find anything there. -/

/-- `MB_REG_THRESHOLD`. The documented device has no such register, so what a program
reads there is an argument. -/
abbrev mbRegThreshold : ℕ := 0x14

/-- `mb_set_threshold`: a write to the register, of which the documented device takes no
notice. -/
def mbSetThreshold (d : FakeBellState) (v : BitVec 32) : FakeBellState :=
  mbWritel d mbRegThreshold v

/-- `FB_SET_THRESHOLD`; `copied` says whether `copy_from_user` succeeds. -/
def fbSetThreshold (d : Myfbdev) (newval : BitVec 32) (copied : Bool) : Int × Myfbdev :=
  if copied then (0, { d with mybell := mbSetThreshold d.mybell newval }) else (efault, d)

/-- The value `FB_GET_STATUS` returns, by the outcome of its `copy_to_user`. -/
def fbGetStatusRet (copied : Bool) : Int := if copied then 0 else efault

/-! ## The program

`do_alarm_mode` as a state machine: each system call is a step, and what is printed
between two of them is part of the first. `poll` is two steps, since `myfbpoll` looks at
the status and at the ring one after the other. -/

/-- A line of output: a call of `printf` or `perror`, with its arguments. -/
inductive Line where
  /-- `"[alarm] threshold set to %u\n"` -/
  | thresholdSet (threshold : BitVec 32)
  /-- `"[alarm] revents=0x%x\n"` -/
  | revents (mask : BitVec 32)
  /-- `"[alarm] status=0x%x threshold=%u last_sample=%u\n"` -/
  | status (status threshold lastSample : BitVec 32)
  /-- `"[alarm] clear alarm requested\n"` -/
  | clearRequested
  /-- `"[alarm] POLLERR\n"` -/
  | pollerr
  /-- `"[alarm] POLLHUP\n"` -/
  | pollhup
  /-- `perror("open")` -/
  | perrorOpen
  /-- `perror("ioctl(FB_SET_THRESHOLD)")` -/
  | perrorSetThreshold
  /-- `perror("poll")` -/
  | perrorPoll
  /-- `perror("ioctl(FB_GET_STATUS)")` -/
  | perrorGetStatus
  /-- `perror("ioctl(FB_CLEAR_ALARM)")` -/
  | perrorClearAlarm
  deriving DecidableEq

/-- Where the program is, with the mask that `poll` returned until it is used. -/
inductive App where
  /-- before `open` -/
  | start
  /-- before `FB_SET_THRESHOLD` -/
  | opened
  /-- in `poll`, before `myfbpoll` -/
  | poll
  /-- in `myfbpoll`, after its section -/
  | polled
  /-- asleep in `poll` -/
  | asleep
  /-- before `FB_GET_STATUS` -/
  | getStatus (revents : BitVec 32)
  /-- before `FB_CLEAR_ALARM` -/
  | clearAlarm (revents : BitVec 32)
  /-- it has returned -/
  | exited (ret : Int)

/-- The device, the program and its output. -/
structure State where
  /-- device, driver and other threads; the program is thread 0 -/
  dev : BellPoll.State
  /-- the program -/
  app : App
  /-- its output -/
  output : List Line
  /-- record: the samples pushed by `myirq_bottom` -/
  pushed : List Rbdata

/-- What can happen next: a step of the program or of anything else on the machine. -/
inductive Act where
  /-- the device, the interrupt or another thread -/
  | others (a : BellPoll.Act)
  /-- `open` -/
  | opens (ok : Bool)
  /-- `FB_SET_THRESHOLD` -/
  | setThreshold (copied : Bool)
  /-- the section of `myfbpoll` -/
  | pollStatus
  /-- the rest of it -/
  | pollSize
  /-- a signal ends the sleep -/
  | interrupted
  /-- `FB_GET_STATUS`, with what the registers it reads last hold -/
  | getStatus (copied : Bool) (threshold lastSample : BitVec 32)
  /-- `FB_CLEAR_ALARM` -/
  | clearAlarm

/-- Is it not a step of thread 0? The program is thread 0 of the driver, and takes its
steps itself. -/
def foreign : BellPoll.Act → Bool
  | .pollStatus i | .pollSize i => i != 0
  | _ => true

/-- What the next step of `myirq_bottom` pushes. -/
def pushes (irq : Irq) : BellPoll.Act → List Rbdata
  | .bottom _ now => match irq with
    | .push v => [{ v with timestampNs := now }]
    | _ => []
  | _ => []

/-- Is its next step the wake-up of all who sleep in `poll`? -/
def wakes (irq : Irq) : BellPoll.Act → Bool
  | .bottom _ _ => match irq with
    | .wake => true
    | _ => false
  | _ => false

/-- The program after a wake-up: asleep in `poll`, it goes through `myfbpoll` again. -/
def App.woken : App → App
  | .asleep => .poll
  | app => app

/-- `pfd.events` of the alarm mode, which asks for the samples too. -/
abbrev events : BitVec 32 := pollpri ||| pollin ||| pollrdnorm

/-- What is printed at the end of a turn. -/
def endLines (revents : BitVec 32) : List Line := BellPoll.endLines .pollerr .pollhup revents

/-- `myfbpoll` has returned `mask` to `poll`, which returns what was asked for, or sleeps.
-/
def reventsStep (s : State) (mask : BitVec 32) : State :=
  if mask = 0 then { s with app := .asleep }
  else if mask &&& events ≠ 0 then
    { s with app := .getStatus mask, output := s.output ++ [.revents mask] }
  else { s with app := .poll, output := s.output ++ ([.revents mask] ++ endLines mask) }

/-- A step of the program, with the part of the driver that its system call runs. -/
def appStep (threshold : BitVec 32) (s : State) : Act → Option State
  | .others _ => none
  | .opens ok =>
    match s.app with
    | .start =>
      if ok then some { s with app := .opened }
      else some { s with app := .exited 1, output := s.output ++ [.perrorOpen] }
    | _ => none
  | .setThreshold copied =>
    match s.app with
    | .opened =>
      let res := fbSetThreshold s.dev.dev threshold copied
      let s := { s with dev := { s.dev with dev := res.2 } }
      if res.1 < 0 then
        some { s with app := .exited 1, output := s.output ++ [.perrorSetThreshold] }
      else some { s with app := .poll, output := s.output ++ [.thresholdSet threshold] }
    | _ => none
  | .pollStatus =>
    match s.app with
    | .poll => (BellPoll.step s.dev (.pollStatus 0)).map fun dev =>
        { s with dev := dev, app := .polled }
    | _ => none
  | .pollSize =>
    match s.app, s.dev.poller 0 with
    | .polled, some p => (BellPoll.step s.dev (.pollSize 0)).map fun dev =>
        reventsStep { s with dev := dev } (myfbpollSize s.dev.dev p.mask)
    | _, _ => none
  | .interrupted =>
    match s.app with
    | .asleep => some { s with app := .exited 1, output := s.output ++ [.perrorPoll] }
    | _ => none
  | .getStatus copied threshold lastSample =>
    match s.app with
    | .getStatus mask =>
      if fbGetStatusRet copied < 0 then
        some { s with app := .exited 1, output := s.output ++ [.perrorGetStatus] }
      else some { s with
        app := .clearAlarm mask
        output := s.output ++ [.status (mbGetStatus s.dev.dev.mybell) threshold lastSample] }
    | _ => none
  | .clearAlarm =>
    match s.app with
    | .clearAlarm mask =>
      if (fbClearAlarm s.dev.dev).1 < 0 then
        some { s with app := .exited 1, output := s.output ++ [.perrorClearAlarm] }
      else (BellPoll.step s.dev .clear).map fun dev =>
        { s with
          dev := dev, app := .poll, output := s.output ++ ([.clearRequested] ++ endLines mask) }
    | _ => none

/-- One step: of the program, or of the others, who may wake it. -/
def step (threshold : BitVec 32) (s : State) : Act → Option State
  | .others a =>
    if foreign a then
      (BellPoll.step s.dev a).map fun dev =>
        { s with
          dev := dev
          app := if wakes s.dev.irq a then s.app.woken else s.app
          pushed := s.pushed ++ pushes s.dev.irq a }
    else none
  | a => appStep threshold s a

/-- The device after probe, the program before `open`. -/
def system (threshold : BitVec 32) : Lts State Act where
  init := ⟨BellPoll.system.init, .start, [], []⟩
  step := step threshold

/-! ## Steps

The system has many actions and few effects. A step adds to the ring or leaves it, moves
the interrupt on, and moves the program by one place; `Moves` lists these, and the
invariant is proved for the list. -/

/-- The program is between the two parts of `myfbpoll` or it has no call of it. -/
def Asks (dev : BellPoll.State) : App → Prop
  | .polled => ∃ p, dev.poller 0 = some p
  | _ => dev.poller 0 = none

/-- What the steps do to the ring, to the interrupt and to the program. -/
inductive Moves (s : State) : State → Prop
  /-- a sample is pushed -/
  | push (v : Rbdata) {dev : BellPoll.State} (hpoller : dev.poller 0 = s.dev.poller 0)
      (hring : dev.dev.myrb = ringbufPush s.dev.dev.myrb v) (hirq : dev.irq = .wake) :
      Moves s { s with dev := dev, pushed := s.pushed ++ [v] }
  /-- the wake-up -/
  | wake {dev : BellPoll.State} (hpoller : dev.poller 0 = s.dev.poller 0)
      (hring : dev.dev.myrb = s.dev.dev.myrb) : Moves s { s with dev := dev, app := s.app.woken }
  /-- another step of the others -/
  | others {dev : BellPoll.State} (hpoller : dev.poller 0 = s.dev.poller 0)
      (hring : dev.dev.myrb = s.dev.dev.myrb) (hirq : s.dev.irq = .wake → dev.irq = .wake) :
      Moves s { s with dev := dev }
  /-- a step of the program -/
  | own {dev : BellPoll.State} {app : App} {output : List Line}
      (hring : dev.dev.myrb = s.dev.dev.myrb) (hasks : Asks s.dev s.app → Asks dev app)
      (hasleep : app = .asleep → ringbufGetsize s.dev.dev.myrb = 0)
      (hended : ∀ ret, app = .exited ret → ret = 1) :
      Moves s { s with dev := dev, app := app, output := output }

theorem others_moves {s t : State} {threshold : BitVec 32} {a : BellPoll.Act}
    (h : step threshold s (.others a) = some t) : Moves s t := by
  obtain ⟨dev, app, output, pushed⟩ := s
  simp only [step] at h
  split at h
  case isFalse => cases h
  case isTrue hforeign =>
    obtain ⟨dev', hstep, rfl⟩ := Option.map_eq_some_iff.mp h
    cases a with
    | event status =>
      obtain rfl := Option.some.inj hstep
      simp only [pushes, wakes, List.append_nil]
      exact .others rfl rfl id
    | top =>
      -- the interrupt was idle, so there was no wake-up to come
      simp only [pushes, wakes, List.append_nil]
      simp only [BellPoll.step] at hstep
      split at hstep
      case h_1 hirq =>
        obtain rfl := Option.some.inj hstep
        exact .others rfl rfl fun hwake => by cases hirq.symm.trans hwake
      case h_2 => cases hstep
    | bottom sampleValue now =>
      cases hirq : dev.irq <;> simp only [BellPoll.step, bottomStep, hirq] at hstep
      case idle => cases hstep
      case enter =>
        obtain rfl := Option.some.inj hstep
        simp only [pushes, wakes, List.append_nil]
        exact .others rfl rfl fun hwake => by cases hirq.symm.trans hwake
      case push v =>
        -- the one step that reaches the ring
        obtain rfl := Option.some.inj hstep
        simp only [pushes, wakes]
        exact .push _ rfl rfl rfl
      case wake =>
        obtain rfl := Option.some.inj hstep
        simp only [pushes, wakes, List.append_nil]
        exact .wake rfl rfl
    | clear =>
      obtain rfl := Option.some.inj hstep
      simp only [pushes, wakes, List.append_nil]
      exact .others rfl rfl id
    | pollStatus i =>
      -- polls of other threads, the program being thread 0
      have hi : (0 : ℕ) ≠ i := by
        rintro rfl
        cases hforeign
      simp only [pushes, wakes, List.append_nil]
      simp only [BellPoll.step] at hstep
      split at hstep
      case h_1 =>
        obtain rfl := Option.some.inj hstep
        exact .others (Function.update_of_ne hi _ _) rfl id
      case h_2 => cases hstep
    | pollSize i =>
      have hi : (0 : ℕ) ≠ i := by
        rintro rfl
        cases hforeign
      simp only [pushes, wakes, List.append_nil]
      simp only [BellPoll.step] at hstep
      split at hstep
      case h_1 => cases hstep
      case h_2 =>
        obtain rfl := Option.some.inj hstep
        exact .others (Function.update_of_ne hi _ _) rfl id

/-- A mask without `POLLIN` comes from an empty ring. -/
theorem getsize_of_myfbpollSize {d : Myfbdev} {mask : BitVec 32}
    (h : myfbpollSize d mask &&& events = 0) : ringbufGetsize d.myrb = 0 := by
  rw [myfbpollSize] at h
  split at h
  case isTrue =>
    have hbit : ((mask ||| (pollin ||| pollrdnorm)) &&& events).getLsbD 0 = false := by
      rw [h]
      rfl
    simp at hbit
  case isFalse hsize => exact not_not.mp hsize

theorem own_moves {s t : State} {threshold : BitVec 32} {a : Act}
    (h : appStep threshold s a = some t) : Moves s t := by
  obtain ⟨dev, app, output, pushed⟩ := s
  cases a with
  | others a => cases h
  | opens ok =>
    cases app <;> simp only [appStep] at h
    case start =>
      split at h <;> obtain rfl := Option.some.inj h
      · exact .own rfl id (by simp) (by simp)
      · exact .own rfl id (by simp) fun ret hret => (App.exited.inj hret).symm
    all_goals cases h
  | setThreshold copied =>
    -- the threshold is a register of the device; the ring stays
    have hring : (fbSetThreshold dev.dev threshold copied).2.myrb = dev.dev.myrb := by
      rw [fbSetThreshold]
      split <;> rfl
    cases app <;> simp only [appStep] at h
    case opened =>
      split at h <;> obtain rfl := Option.some.inj h
      · exact .own hring id (by simp) fun ret hret => (App.exited.inj hret).symm
      · exact .own hring id (by simp) (by simp)
    all_goals cases h
  | pollStatus =>
    cases app <;> simp only [appStep] at h
    case poll =>
      obtain ⟨dev', hstep, rfl⟩ := Option.map_eq_some_iff.mp h
      simp only [BellPoll.step] at hstep
      split at hstep
      case h_1 =>
        obtain rfl := Option.some.inj hstep
        have hsome : Function.update dev.poller 0
            (some ⟨myfbpollStatus dev.dev, dev.due, dev.quiet⟩) 0 = _ := Function.update_self ..
        exact .own rfl (fun _ => ⟨_, hsome⟩) (by simp) (by simp)
      case h_2 => cases hstep
    all_goals cases h
  | pollSize =>
    cases app <;> simp only [appStep] at h
    case polled =>
      split at h
      case h_1 p hp =>
        obtain ⟨dev', hstep, rfl⟩ := Option.map_eq_some_iff.mp h
        simp only [BellPoll.step, hp] at hstep
        obtain rfl := Option.some.inj hstep
        rw [reventsStep]
        have hnone : Function.update dev.poller 0 none 0 = none := Function.update_self ..
        split
        case isTrue hzero =>
          -- it goes to sleep only if there is nothing in the ring
          exact .own rfl (fun _ => hnone)
            (fun _ => getsize_of_myfbpollSize (by rw [hzero]; rfl)) (by simp)
        case isFalse =>
          split
          · exact .own rfl (fun _ => hnone) (by simp) (by simp)
          · exact .own rfl (fun _ => hnone) (by simp) (by simp)
      case h_2 => cases h
    all_goals cases h
  | interrupted =>
    cases app <;> simp only [appStep] at h
    case asleep =>
      obtain rfl := Option.some.inj h
      exact .own rfl id (by simp) fun ret hret => (App.exited.inj hret).symm
    all_goals cases h
  | getStatus copied threshold lastSample =>
    cases app <;> simp only [appStep] at h
    case getStatus mask =>
      split at h <;> obtain rfl := Option.some.inj h
      · exact .own rfl id (by simp) fun ret hret => (App.exited.inj hret).symm
      · exact .own rfl id (by simp) (by simp)
    all_goals cases h
  | clearAlarm =>
    -- the ioctl changes neither the device nor the ring
    cases app <;> simp only [appStep] at h
    case clearAlarm mask =>
      split at h
      case isTrue =>
        obtain rfl := Option.some.inj h
        exact .own rfl id (by simp) fun ret hret => (App.exited.inj hret).symm
      case isFalse =>
        obtain ⟨dev', hstep, rfl⟩ := Option.map_eq_some_iff.mp h
        obtain rfl := Option.some.inj hstep
        exact .own rfl id (by simp) (by simp)
    all_goals cases h

/-- The program takes all steps but those of the others. -/
theorem step_own {threshold : BitVec 32} {s : State} {a : Act} (ha : ∀ b, a ≠ .others b) :
    step threshold s a = appStep threshold s a := by
  cases a
  case others b => exact absurd rfl (ha b)
  all_goals rfl

theorem step_moves {s t : State} {threshold : BitVec 32} {a : Act}
    (h : step threshold s a = some t) : Moves s t := by
  by_cases ha : ∃ b, a = .others b
  · obtain ⟨b, rfl⟩ := ha
    exact others_moves h
  · exact own_moves ((step_own fun b hb => ha ⟨b, hb⟩).symm.trans h)

/-! ## The invariant

The ring is never read, so it holds whatever was pushed last, and it is empty only before
the first push. After that `myfbpoll` reports `POLLIN` at every call: to sleep, the
program must have asked before the first push. -/

/-- What holds in every state reached: the ring is what nobody takes from, and the program
sleeps only while a wake-up is to come. -/
structure State.Inv (s : State) : Prop where
  ring : s.dev.dev.myrb.Rep (LossyFifo.filled s.pushed)
  asks : Asks s.dev s.app
  awake : s.app = .asleep → s.pushed ≠ [] → s.dev.irq = .wake
  ended : ∀ ret, s.app = .exited ret → ret = 1

theorem State.Inv.init (threshold : BitVec 32) : (system threshold).init.Inv where
  ring := Ringbuf.Rep.init
  asks := rfl
  awake := nofun
  ended := nofun

/-- The ring is empty only before the first push. -/
theorem State.Inv.getsize_eq {s : State} (hi : s.Inv) :
    ringbufGetsize s.dev.dev.myrb = (min s.pushed.length 64 : ℕ) := by
  obtain ⟨hitems, -⟩ := LossyFifo.filled_spec (show 0 < 64 by decide) s.pushed
  have hlength : s.dev.dev.myrb.abs.length = s.pushed.length - (s.pushed.length - 64) := by
    rw [hi.ring.abs, hitems, List.length_drop]
  have hsize : (s.dev.dev.myrb.abs.length : Int) = ringbufGetsize s.dev.dev.myrb :=
    hi.ring.wf.abs_length
  omega

theorem Asks.congr {dev dev' : BellPoll.State} {app : App}
    (hpoller : dev'.poller 0 = dev.poller 0) (h : Asks dev app) : Asks dev' app := by
  cases app
  case polled =>
    obtain ⟨p, hp⟩ := h
    exact ⟨p, hpoller.trans hp⟩
  all_goals exact hpoller.trans h

theorem Asks.woken {dev : BellPoll.State} {app : App} (h : Asks dev app) : Asks dev app.woken := by
  cases app <;> exact h

/-- **Step lemma.** Each of the moves keeps the invariant. -/
theorem State.Inv.moves {s t : State} (hi : s.Inv) (h : Moves s t) : t.Inv := by
  cases h with
  | push v hpoller hring hirq =>
    refine ⟨?_, hi.asks.congr hpoller, fun _ _ => hirq, hi.ended⟩
    rw [hring, LossyFifo.filled_append]
    exact hi.ring.push v
  | wake hpoller hring =>
    refine ⟨?_, (hi.asks.congr hpoller).woken, fun hasleep => ?_, fun ret hret => ?_⟩
    · rw [hring]
      exact hi.ring
    · cases happ : s.app <;> simp [App.woken, happ] at hasleep
    · cases happ : s.app <;> simp [App.woken, happ] at hret
      exact hi.ended ret (happ.trans (by rw [hret]))
  | others hpoller hring hirq =>
    refine ⟨?_, hi.asks.congr hpoller, fun hasleep hne => hirq (hi.awake hasleep hne), hi.ended⟩
    rw [hring]
    exact hi.ring
  | own hring hasks hasleep hended =>
    refine ⟨?_, hasks hi.asks, fun happ hne => ?_, hended⟩
    · rw [hring]
      exact hi.ring
    · have hsize := hi.getsize_eq
      have hpos : 0 < s.pushed.length := List.length_pos_iff.mpr hne
      rw [hasleep happ] at hsize
      omega

theorem reach_inv {threshold : BitVec 32} {s : State}
    (h : (system threshold).Reach (fun _ _ => True) s) : s.Inv :=
  h.invariant (State.Inv.init threshold) fun _ _ _ hi _ hs => hi.moves (step_moves hs)

/-! ## Turn after turn

With a sample in the ring the program needs nobody else any more. One turn, from `poll`
through the two ioctls, leads back to the same state with a few more lines printed, so any
number of turns does. -/

/-- A turn, with what the registers hold. -/
def turn (threshold lastSample : BitVec 32) : List Act :=
  [.pollStatus, .pollSize, .getStatus true threshold lastSample, .clearAlarm]

/-- How often the program has asked for `FB_CLEAR_ALARM`. -/
def clears (output : List Line) : ℕ := output.count .clearRequested

theorem clears_endLines (mask : BitVec 32) : clears (endLines mask) = 0 := by
  rw [endLines, BellPoll.endLines]
  split <;> split <;> rfl

/-- With a sample in the ring the program makes a turn, and nothing has changed. -/
theorem exec_turn {system_threshold threshold lastSample : BitVec 32} {s : State} (hi : s.Inv)
    (hne : s.pushed ≠ []) (happ : s.app = .poll) :
    ∃ t, (system system_threshold).exec s (turn threshold lastSample) = some t ∧
      t.app = .poll ∧ t.dev.dev = s.dev.dev ∧ t.pushed = s.pushed ∧
      clears t.output = clears s.output + 1 := by
  obtain ⟨dev, app, output, pushed⟩ := s
  obtain rfl : app = .poll := happ
  have hpoller : dev.poller 0 = none := hi.asks
  have hsize : ringbufGetsize dev.dev.myrb ≠ 0 := by
    have hsize := hi.getsize_eq
    have hpos : 0 < pushed.length := List.length_pos_iff.mpr hne
    simp only at hsize
    omega
  -- with a sample there `POLLIN` is reported, whatever the status is
  have hmask : myfbpollSize dev.dev (myfbpollStatus dev.dev) &&& events ≠ 0 :=
    fun hzero => hsize (getsize_of_myfbpollSize hzero)
  have hmask' : myfbpollSize dev.dev (myfbpollStatus dev.dev) ≠ 0 := by
    intro hzero
    rw [hzero] at hmask
    exact hmask rfl
  -- the poll is two steps, a look at the status and one at the size
  let p : Poll := ⟨myfbpollStatus dev.dev, dev.due, dev.quiet⟩
  let mask := myfbpollSize dev.dev p.mask
  let dev₁ : BellPoll.State := { dev with poller := Function.update dev.poller 0 (some p) }
  let dev₂ : BellPoll.State :=
    { dev₁ with
      poller := Function.update dev₁.poller 0 none, polls := { p with mask := mask } :: dev.polls }
  have hp : dev₁.poller 0 = some p := by simp [dev₁]
  have h₁ : step system_threshold ⟨dev, .poll, output, pushed⟩ .pollStatus =
      some ⟨dev₁, .polled, output, pushed⟩ := by
    simp only [step, appStep, BellPoll.step, hpoller]
    rfl
  have h₂ : step system_threshold ⟨dev₁, .polled, output, pushed⟩ .pollSize =
      some ⟨dev₂, .getStatus mask, output ++ [.revents mask], pushed⟩ := by
    have hrevents : reventsStep ⟨dev₂, .polled, output, pushed⟩ mask =
        ⟨dev₂, .getStatus mask, output ++ [.revents mask], pushed⟩ := by
      rw [reventsStep, if_neg hmask', if_pos hmask]
    simp only [step, appStep, BellPoll.step, hp]
    exact congrArg some hrevents
  refine ⟨⟨{ dev₂ with due := false, quiet := true }, .poll,
    output ++ [.revents mask] ++ [.status (mbGetStatus dev.dev.mybell) threshold lastSample] ++
      ([.clearRequested] ++ endLines mask), pushed⟩, ?_, rfl, rfl, rfl, ?_⟩
  · rw [turn, Lts.exec_cons]
    change (step system_threshold ⟨dev, .poll, output, pushed⟩ .pollStatus).bind _ = _
    rw [h₁, Option.bind_some, Lts.exec_cons]
    change (step system_threshold ⟨dev₁, .polled, output, pushed⟩ .pollSize).bind _ = _
    rw [h₂]
    rfl
  · have hend := clears_endLines mask
    simp only [clears, List.count_append] at hend ⊢
    rw [hend]
    rfl

/-- Any number of turns leave device and driver as they are, and print their lines. -/
theorem exec_turns {system_threshold threshold lastSample : BitVec 32} (n : ℕ) {s : State}
    (h : (system system_threshold).Reach (fun _ _ => True) s) (hne : s.pushed ≠ [])
    (happ : s.app = .poll) :
    ∃ t, (system system_threshold).exec s
        (List.replicate n (turn threshold lastSample)).flatten = some t ∧
      t.app = .poll ∧ t.dev.dev = s.dev.dev ∧ clears t.output = clears s.output + n := by
  induction n generalizing s with
  | zero => exact ⟨s, rfl, happ, rfl, rfl⟩
  | succ n ih =>
    obtain ⟨u, hu, happ', hdev, hpushed, hclears⟩ := exec_turn (reach_inv h) hne happ
    obtain ⟨t, ht, htapp, htdev, htclears⟩ := ih (h.replay hu) (hpushed ▸ hne) happ'
    refine ⟨t, ?_, htapp, htdev.trans hdev, ?_⟩
    · rw [List.replicate_succ, List.flatten_cons, Lts.exec_append _ hu]
      exact ht
    · rw [htclears, hclears]
      omega

/-- **The alarm mode spins.** In every state reached by the program, the device, the
interrupt and other threads that poll or clear the alarm:

* the ring holds the newest 64 samples pushed, and has counted the others as drops;
* once a sample has been pushed the program is asleep only until the wake-up that
  `myirq_bottom` has still to send, whatever the status is;
* from its `poll` it then makes any number of turns by itself. Each asks for
  `FB_CLEAR_ALARM`, and after all of them device and driver are as they were;
* it returns only with 1. -/
theorem alarm_spins {threshold : BitVec 32} {s : State}
    (h : (system threshold).Reach (fun _ _ => True) s) :
    (s.dev.dev.myrb.abs = s.pushed.drop (s.pushed.length - 64) ∧
      ringbufGetlost s.dev.dev.myrb = wrap32 (s.pushed.length - 64 : ℕ)) ∧
    (s.pushed ≠ [] → s.app = .asleep → s.dev.irq = .wake) ∧
    (s.pushed ≠ [] → s.app = .poll → ∀ (threshold' lastSample : BitVec 32) (n : ℕ),
      ∃ t, (system threshold).exec s
          (List.replicate n (turn threshold' lastSample)).flatten = some t ∧
        t.app = .poll ∧ t.dev.dev = s.dev.dev ∧ clears t.output = clears s.output + n) ∧
    (∀ ret, s.app = .exited ret → ret = 1) := by
  have hi := reach_inv h
  obtain ⟨hitems, hlost⟩ := LossyFifo.filled_spec (show 0 < 64 by decide) s.pushed
  refine ⟨⟨?_, ?_⟩, fun hne happ => hi.awake happ hne,
    fun hne happ threshold' lastSample n => exec_turns n h hne happ, hi.ended⟩
  · rw [hi.ring.abs, hitems]
  · rw [← hlost]
    exact hi.ring.lost

/-- One event that is not over the threshold wakes the program. -/
def oneEvent : List Act :=
  [.opens true, .setThreshold true, .pollStatus, .pollSize, .others (.event 1), .others .top,
    .others (.bottom 7 1000), .others (.bottom 0 1000), .others (.bottom 0 0)]

theorem alarm_spins_oneEvent :
    ∃ s, (system 50).exec (system 50).init oneEvent = some s ∧
      mbGetStatus s.dev.dev.mybell = 0 ∧
      ∃ t, (system 50).exec s (List.replicate 1000000 (turn 0 0)).flatten = some t ∧
        t.app = .poll ∧ t.dev.dev = s.dev.dev ∧ clears t.output = clears s.output + 1000000 := by
  have hrun : ∃ s, (system 50).exec (system 50).init oneEvent = some s ∧
      mbGetStatus s.dev.dev.mybell = 0 ∧ s.pushed = [⟨1000, 7, 1⟩] ∧ s.app = .poll :=
    ⟨_, rfl, rfl, rfl, rfl⟩
  obtain ⟨s, hexec, hstatus, hpushed, happ⟩ := hrun
  have hne : s.pushed ≠ [] := by
    rw [hpushed]
    exact List.cons_ne_nil _ _
  exact ⟨s, hexec, hstatus,
    (alarm_spins (Lts.Reach.init.replay hexec)).2.2.1 hne happ 0 0 1000000⟩

end BellAlarm

end KernelDrvLearn