import KernelDrvLearn.KernelApi
import KernelDrvLearn.OpenFiles
import KernelDrvLearn.Transition

/-!
# The life of a `myfakebell` device

Who touches the `struct myfbdev` of `practice/myfakebell/myfakebell.c`, and when:
`myfbprobe` with its unwinding, `myfbremove`, the two interrupt handlers and the
calls of the users, each taking its own steps. What the calls compute is not the
point here, so a step's finding (a size, a register, what a copy leaves) is any
number; what each step touches is (`Place.parts`, `IrqPlace.parts`).

The node can be opened from `cdev_add` to `cdev_del`. The driver core calls
`myfbremove` on a bound device, and releases the interrupt when it has returned,
waiting for a handler that is running. The line is masked until the handler has
finished (`IRQF_ONESHOT`).
-/

namespace KernelDrvLearn

namespace BellLife

/-- The parts of `struct myfbdev` that are read or written outside `myfbprobe`
and `myfbremove`. -/
inductive Part where
  /-- `pdev` -/
  | pdev
  /-- `pcdev` -/
  | pcdev
  /-- `mybell.base` -/
  | base
  /-- `mybelllock` -/
  | mybelllock
  /-- `myrb` -/
  | myrb
  /-- `wq` -/
  | wq
  deriving DecidableEq

/-! ## The file operations

Every access of `myfbopen`, `myfbrelease`, `myfbioctl`, `myfbread` and `myfbpoll` to the
device, in the order of the source. A place is a statement that is about to run; the
numbers it carries are what the operation needs to know later on. -/

/-- What a user asks for: each ioctl, `read` and `poll`. -/
inductive Op where
  /-- `FB_GET_STATUS` -/
  | getStatus
  /-- `FB_SET_THRESHOLD` -/
  | setThreshold
  /-- `FB_CLEAR_ALARM` -/
  | clearAlarm
  /-- `FB_GET_STATS` -/
  | getStats
  /-- `FB_RESET_BUFFER` -/
  | resetBuffer
  /-- an ioctl with any other number -/
  | invalid
  /-- `read` of `count` bytes, with or without `O_NONBLOCK` -/
  | read (count : ℕ) (nonblock : Bool)
  /-- `poll` -/
  | poll

/-- The next step of a file operation. -/
inductive Place where
  /-- the `dev_info` of `myfbopen` -/
  | fbopen
  /-- the `dev_info` of `myfbrelease` -/
  | fbrelease
  /-- `FB_GET_STATUS`: `spin_lock` -/
  | statusLock
  /-- `mb_get_status` -/
  | statusStatus
  /-- `mb_get_threshold` -/
  | statusThreshold
  /-- `mb_get_sample_value` -/
  | statusSample
  /-- `spin_unlock` -/
  | statusUnlock
  /-- the `copy_to_user` of an ioctl -/
  | copyToUser
  /-- a `dev_err`, and then the return of `ret` -/
  | devErr (ret : Int)
  /-- `FB_SET_THRESHOLD`: `copy_from_user` -/
  | copyFromUser
  /-- `spin_lock` -/
  | thresholdLock
  /-- `mb_set_threshold` -/
  | thresholdSet
  /-- `spin_unlock` -/
  | thresholdUnlock
  /-- `FB_CLEAR_ALARM` -/
  | clearAlarm
  /-- `FB_GET_STATS`: `ringbuf_getsize` -/
  | statsSize
  /-- `ringbuf_getlost` -/
  | statsLost
  /-- `FB_RESET_BUFFER`: `ringbuf_init` -/
  | resetBuffer
  /-- `myfbread`: the first `ringbuf_getsize` -/
  | readSize (count : ℕ) (nonblock : Bool)
  /-- `wait_event_interruptible`: the test before it sleeps -/
  | readWait (count : ℕ)
  /-- it sleeps, woken to test again -/
  | readSleep (count : ℕ)
  /-- the `ringbuf_getsize` after it -/
  | readSizeAgain (count : ℕ)
  /-- `ringbuf_pop`, with `left` turns of the loop to go -/
  | readPop (left offset : ℕ)
  /-- the `copy_to_user` after it -/
  | readCopy (left offset : ℕ)
  /-- `myfbpoll`: `poll_wait` -/
  | pollWait
  /-- `spin_lock` -/
  | pollLock
  /-- `mb_get_status` -/
  | pollStatus
  /-- `spin_unlock` -/
  | pollUnlock (status : ℕ)
  /-- `ringbuf_getsize` -/
  | pollSize (status : ℕ)

/-- What a step touches of the device. A copy to or from the user touches nothing of it.
-/
def Place.parts : Place → List Part
  | fbopen | fbrelease | devErr _ => [.pcdev]
  | statusLock | statusUnlock | thresholdLock | thresholdUnlock | pollLock | pollUnlock _ =>
    [.mybelllock]
  | statusStatus | statusThreshold | statusSample | thresholdSet | pollStatus => [.base]
  | statsSize | statsLost | resetBuffer | readSize _ _ | readWait _ | readSizeAgain _
  | readPop _ _ | pollSize _ => [.myrb]
  | readSleep _ => [.wq, .myrb]
  | pollWait => [.wq]
  | copyToUser | copyFromUser | clearAlarm | readCopy _ _ => []

/-- The head of the loop of `myfbread`: it returns the bytes copied when no turn is left.
-/
def readLoop (left offset : ℕ) : Next Place Unit :=
  if left = 0 then .ret offset else .goto (.readPop left offset)

/-- What `myfbpoll` returns, from the status and the size it has fetched. -/
def pollMask (status size : ℕ) : BitVec 32 :=
  let mask : BitVec 32 := if status / 2 % 2 = 1 then pollpri else 0
  if size ≠ 0 then mask ||| pollin ||| pollrdnorm else mask

/-- Where a step leads, given what it finds: a size, a register, or the outcome of a copy
or a sleep. -/
def Place.next : Place → ℕ → Next Place Unit
  | fbopen, _ => .opened ()
  | fbrelease, _ => .ret 0
  | statusLock, _ => .goto statusStatus
  | statusStatus, _ => .goto statusThreshold
  | statusThreshold, _ => .goto statusSample
  | statusSample, _ => .goto statusUnlock
  | statusUnlock, _ => .goto copyToUser
  | copyToUser, uncopied => if uncopied ≠ 0 then .goto (devErr efault) else .ret 0
  | devErr ret, _ => .ret ret
  | copyFromUser, uncopied =>
    if uncopied ≠ 0 then .goto (devErr efault) else .goto thresholdLock
  | thresholdLock, _ => .goto thresholdSet
  | thresholdSet, _ => .goto thresholdUnlock
  | thresholdUnlock, _ => .ret 0
  | clearAlarm, _ => .ret 0
  | statsSize, _ => .goto statsLost
  | statsLost, _ => .goto copyToUser
  | resetBuffer, _ => .ret 0
  | readSize count nonblock, len =>
    if len = 0 then
      if nonblock = true then .ret eagain else .goto (readWait count)
    else readLoop (min len (count / 16)) 0
  | readWait count, size =>
    if size ≠ 0 then .goto (readSizeAgain count) else .goto (readSleep count)
  | readSleep count, 0 => .goto (readSizeAgain count)
  | readSleep _, 1 => .goto (devErr erestartsys)
  -- the ring is still empty
  | readSleep count, _ + 2 => .goto (readSleep count)
  | readSizeAgain count, len => readLoop (min len (count / 16)) 0
  | readPop left offset, ret => if ret ≠ 0 then .ret (-1) else .goto (readCopy left offset)
  | readCopy left offset, uncopied =>
    if uncopied ≠ 0 then .goto (devErr efault) else readLoop (left - 1) (offset + 16)
  | pollWait, _ => .goto pollLock
  | pollLock, _ => .goto pollStatus
  | pollStatus, status => .goto (pollUnlock status)
  | pollUnlock status, _ => .goto (pollSize status)
  | pollSize status, size => .ret (pollMask status size).toInt

/-- Where an operation starts, by the `switch` of `myfbioctl` or as its own function. -/
def Op.entry : Op → Place
  | getStatus => .statusLock
  | setThreshold => .copyFromUser
  | clearAlarm => .clearAlarm
  | getStats => .statsSize
  | resetBuffer => .resetBuffer
  | invalid => .devErr einval
  | read count nonblock => .readSize count nonblock
  | poll => .pollWait

/-- `fops`. All files have the same `private_data`. -/
def fops : Fops Op Place Unit where
  openEntry := .fbopen
  entry := fun _ op => op.entry
  releaseEntry := fun _ => .fbrelease
  next := Place.next

/-! ## The interrupt handlers

`myirq_top` and, if it asks for it, `myirq_bottom`. The line is masked between them, so at
most one handler of a device runs, and it is at one place. -/

/-- The next step of a handler. -/
inductive IrqPlace where
  /-- `myirq_top`: `spin_lock` -/
  | topLock
  /-- `mb_get_irq_status` -/
  | topStatus
  /-- nothing pending: `dev_info` -/
  | topNone
  /-- and `spin_unlock` -/
  | topNoneUnlock
  /-- pending: `spin_unlock` -/
  | topUnlock
  /-- and `dev_info` -/
  | topInfo
  /-- `myirq_bottom`: `spin_lock` -/
  | bottomLock
  /-- `mb_get_sample_value` -/
  | bottomSample
  /-- `mb_get_status` -/
  | bottomStatus
  /-- `mb_ack_irq` -/
  | bottomAck
  /-- `spin_unlock` -/
  | bottomUnlock
  /-- `ringbuf_push` -/
  | bottomPush
  /-- `wake_up_interruptible` -/
  | bottomWake
  /-- `dev_info` -/
  | bottomInfo
  deriving DecidableEq

/-- What a step touches; each of them touches some part of the device. -/
def IrqPlace.parts : IrqPlace → List Part
  | topLock | topNoneUnlock | topUnlock | bottomLock | bottomUnlock => [.mybelllock]
  | topStatus | bottomSample | bottomStatus | bottomAck => [.base]
  | topNone | topInfo | bottomInfo => [.pdev]
  | bottomPush => [.myrb]
  | bottomWake => [.wq]

/-- Where a step leads; `none` is the end. -/
def IrqPlace.next : IrqPlace → ℕ → Option IrqPlace
  | topLock, _ => some topStatus
  | topStatus, irqstatus => if irqstatus % 2 = 1 then some topUnlock else some topNone
  | topNone, _ => some topNoneUnlock
  | topNoneUnlock, _ => none
  | topUnlock, _ => some topInfo
  | topInfo, _ => some bottomLock
  | bottomLock, _ => some bottomSample
  | bottomSample, _ => some bottomStatus
  | bottomStatus, _ => some bottomAck
  | bottomAck, _ => some bottomUnlock
  | bottomUnlock, _ => some bottomPush
  | bottomPush, _ => some bottomWake
  | bottomWake, _ => some bottomInfo
  | bottomInfo, _ => none

/-! ## Probe and remove

The same for `myfbprobe`, with its four error labels, and `myfbremove`. A probe publishes
the device at `cdev_add` and goes on for a while; a removal frees it in the middle, and
the interrupt after the end. -/

/-- What the driver core does next with the device. -/
inductive Driver where
  /-- `myfbprobe`: `kzalloc` -/
  | kzalloc
  /-- `ida_alloc_range` -/
  | idaAlloc
  /-- `cdev_add` -/
  | cdevAdd
  /-- `device_create` -/
  | deviceCreate
  /-- `platform_get_resource` -/
  | getResource
  /-- `devm_ioremap_resource` -/
  | ioremap
  /-- `myfakebell_init`: `spin_lock_init` -/
  | spinLockInit
  /-- `ringbuf_init` -/
  | ringbufInit
  /-- `init_waitqueue_head` -/
  | initWaitqueueHead
  /-- `mb_enable_irq` -/
  | enableIrq
  /-- `platform_get_irq` -/
  | getIrq
  /-- `devm_request_threaded_irq` -/
  | requestIrq
  /-- `platform_set_drvdata` -/
  | setDrvdata
  /-- `res_error`: `device_destroy` -/
  | resError
  /-- `cdevcreate_error`: `cdev_del` -/
  | cdevcreateError
  /-- `cdevadd_error`: `ida_free` -/
  | cdevaddError
  /-- `ida_error`: `kfree` -/
  | idaError
  /-- the probe has failed -/
  | failed
  /-- bound, until `myfbremove` is called -/
  | bound
  /-- `myfbremove`: `device_destroy` -/
  | deviceDestroy
  /-- `cdev_del` -/
  | cdevDel
  /-- `ida_free` -/
  | idaFree
  /-- `kfree` -/
  | kfree
  /-- `dev_info` -/
  | devInfo
  /-- it has returned: the interrupt is released -/
  | freeIrq
  /-- removed -/
  | removed
  deriving DecidableEq

/-- Between `cdev_add` and `cdev_del`, while the node can be opened. -/
def Driver.published : Driver → Bool
  | deviceCreate | getResource | ioremap | spinLockInit | ringbufInit | initWaitqueueHead
  | enableIrq | getIrq | requestIrq | setDrvdata | resError | cdevcreateError
  | bound | deviceDestroy | cdevDel => true
  | kzalloc | idaAlloc | cdevAdd | cdevaddError | idaError | failed
  | idaFree | kfree | devInfo | freeIrq | removed => false

/-- Between `devm_request_threaded_irq` and the release of the interrupt. -/
def Driver.requested : Driver → Bool
  | setDrvdata | bound | deviceDestroy | cdevDel | idaFree | kfree | devInfo | freeIrq => true
  | _ => false

/-- Past the `kfree` of `myfbremove`, when nothing of the device may be used. -/
def Driver.freed : Driver → Bool
  | devInfo | freeIrq | removed => true
  | _ => false

/-- The device and all that use it. -/
structure State where
  /-- probe and remove -/
  driver : Driver
  /-- the parts of `mydev` initialised -/
  ready : List Part
  /-- the handler, if one is running -/
  irq : Option IrqPlace
  /-- the files -/
  files : ℕ → File Place Unit

/-- Before `myfbprobe`: nothing is set up, no file open, no handler running. -/
def init : State := ⟨.kzalloc, [], none, fun _ => .closed⟩

/-- Goes on at another place of probe or remove. -/
def State.goto (s : State) (driver : Driver) : State := { s with driver := driver }

/-- A part of `mydev` has been initialised. -/
def State.setup (s : State) (part : Part) : State := { s with ready := part :: s.ready }

/-- A step of probe or remove; an acquisition succeeds if `ok`. -/
def driverStep (s : State) (ok : Bool) : Option State :=
  match s.driver with
  | .kzalloc => if ok = true then some ((s.setup .pdev).goto .idaAlloc) else some (s.goto .failed)
  | .idaAlloc => if ok = true then some (s.goto .cdevAdd) else some (s.goto .idaError)
  | .cdevAdd => if ok = true then some (s.goto .deviceCreate) else some (s.goto .cdevaddError)
  | .deviceCreate =>
    if ok = true then some ((s.setup .pcdev).goto .getResource)
    else some (s.goto .cdevcreateError)
  | .getResource => if ok = true then some (s.goto .ioremap) else some (s.goto .resError)
  | .ioremap =>
    if ok = true then some ((s.setup .base).goto .spinLockInit) else some (s.goto .resError)
  | .spinLockInit => some ((s.setup .mybelllock).goto .ringbufInit)
  | .ringbufInit => some ((s.setup .myrb).goto .initWaitqueueHead)
  | .initWaitqueueHead => some ((s.setup .wq).goto .enableIrq)
  | .enableIrq => some (s.goto .getIrq)
  | .getIrq => if ok = true then some (s.goto .requestIrq) else some (s.goto .resError)
  | .requestIrq => if ok = true then some (s.goto .setDrvdata) else some (s.goto .resError)
  | .setDrvdata => some (s.goto .bound)
  | .resError => some (s.goto .cdevcreateError)
  | .cdevcreateError => some (s.goto .cdevaddError)
  | .cdevaddError => some (s.goto .idaError)
  | .idaError => some (s.goto .failed)
  | .failed => none
  | .bound => some (s.goto .deviceDestroy)
  | .deviceDestroy => some (s.goto .cdevDel)
  | .cdevDel => some (s.goto .idaFree)
  | .idaFree => some (s.goto .kfree)
  | .kfree => some (s.goto .devInfo)
  | .devInfo => some (s.goto .freeIrq)
  | .freeIrq => if s.irq = none then some (s.goto .removed) else none
  | .removed => none

/-! ## Everybody together

One device with its driver, its interrupt and its users. The interrupt comes only while it
is requested, and a file is opened only while the device is published; apart from that the
steps come in any order. -/

/-- What happens next: a step of the driver core, of a handler, or of a user. -/
inductive Act where
  /-- a step of probe or remove -/
  | driver (ok : Bool)
  /-- the device interrupts -/
  | interrupt
  /-- a step of the handler, which finds `ret` -/
  | irq (ret : ℕ)
  /-- a user -/
  | user (a : FileAct Op)

/-- Can this be done at the node now? -/
def Driver.allows (driver : Driver) : FileAct Op → Bool
  | .openFile _ => driver.published
  | _ => true

/-- One step of one of the parties. -/
def step (s : State) : Act → Option State
  | .driver ok => driverStep s ok
  | .interrupt =>
    if s.driver.requested = true ∧ s.irq = none then some { s with irq := some .topLock } else none
  | .irq ret => s.irq.map fun p => { s with irq := p.next ret }
  | .user a =>
    if s.driver.allows a = true then
      (fops.step s.files a).map fun files => { s with files := files }
    else none

/-- One device from its probe on, with all who use it. -/
def device : Lts State Act where
  init := init
  step := step

/-! ## Steps -/

/-- A step of probe or remove leaves the users and the handler alone, and no
part is lost. -/
theorem driverStep_frame {s t : State} {ok : Bool} (h : driverStep s ok = some t) :
    t.files = s.files ∧ t.irq = s.irq ∧ s.ready ⊆ t.ready := by
  have hgoto : ∀ driver, some (s.goto driver) = some t →
      t.files = s.files ∧ t.irq = s.irq ∧ s.ready ⊆ t.ready := by
    rintro driver ⟨⟩
    exact ⟨rfl, rfl, List.Subset.refl _⟩
  have hsetup : ∀ part driver, some ((s.setup part).goto driver) = some t →
      t.files = s.files ∧ t.irq = s.irq ∧ s.ready ⊆ t.ready := by
    rintro part driver ⟨⟩
    exact ⟨rfl, rfl, List.subset_cons_self _ _⟩
  rw [driverStep] at h
  split at h <;> (try split at h) <;>
    first
    | exact hgoto _ h
    | exact hsetup _ _ h
    | cases h

/-! ## Calls that go on

A path of a call is a path of the whole system, as long as nobody else takes a step.
Defects are shown to be reachable by such paths. -/

/-- The driver does not hold a call up. -/
theorem allows_of_ne {driver : Driver} {a : FileAct Op} (h : ∀ g, a ≠ .openFile g) :
    driver.allows a = true := by
  cases a with
  | openFile f => exact absurd rfl (h f)
  | call f op => rfl
  | resume f i ret => rfl
  | release f => rfl

/-- What a user does is done to the files. -/
theorem step_user {s : State} {a : FileAct Op} {files : ℕ → File Place Unit}
    (hallows : s.driver.allows a = true) (hfiles : fops.step s.files a = some files) :
    device.step s (.user a) = some { s with files := files } := by
  change (if s.driver.allows a = true then (fops.step s.files a).map _ else none) = _
  rw [if_pos hallows, hfiles]
  rfl

theorem user_step {s t : State} {a : FileAct Op} (h : device.step s (.user a) = some t) :
    s.driver.allows a = true ∧
      ∃ files, fops.step s.files a = some files ∧ t = { s with files := files } := by
  obtain ⟨hallows, hmap⟩ := Option.ite_none_right_eq_some.mp h
  obtain ⟨files, hfiles, rfl⟩ := Option.map_eq_some_iff.mp hmap
  exact ⟨hallows, files, hfiles, rfl⟩

/-- With the rest of the device at rest, a call can be taken along any of its
paths. -/
theorem exec_walk {s : State} {f i : ℕ} {calls : List Place} {p q : Place} {rets : List ℕ}
    (h : s.files f = .opened () calls) (hp : calls[i]? = some p)
    (hwalk : fops.walk p rets = some q) :
    ∃ t, device.exec s (rets.map fun ret => .user (.resume f i ret)) = some t ∧
      t.driver = s.driver ∧ t.ready = s.ready ∧
        ∀ ret, Fops.resumed t.files (.resume f i ret : FileAct Op) = some q := by
  induction rets generalizing s calls p with
  | nil =>
    obtain rfl := Option.some.inj hwalk
    refine ⟨s, rfl, rfl, rfl, fun ret => ?_⟩
    rw [Fops.resumed, h]
    exact hp
  | cons ret rets ih =>
    rw [Fops.walk] at hwalk
    split at hwalk
    case h_1 r hr =>
      have hstep := Fops.step_resume h hp hr
      have hlt : i < calls.length := (List.getElem?_eq_some_iff.mp hp).1
      obtain ⟨t, hexec, hdriver, hready, hres⟩ := ih
        (s := { s with files := Function.update s.files f (.opened () (calls.set i r)) })
        (Function.update_self ..) (List.getElem?_set_self hlt) hwalk
      refine ⟨t, ?_, hdriver, hready, hres⟩
      rw [List.map_cons, Lts.exec_cons, step_user rfl hstep]
      exact hexec
    case h_2 => cases hwalk

end BellLife

end KernelDrvLearn
