import KernelDrvLearn.KernelApi
import KernelDrvLearn.OpenFiles
import KernelDrvLearn.Transition

/-!
# Removing a `myblkdev` device

The shared area of `practice/myblkdev/myblkdev.c` is used by the timer callback,
by `poll` and through the page tables of the processes that have mapped it.
`myblkremove` stops the timer with `del_timer_sync`, which does end it although
the callback starts it again, and then frees the area with `vfree` while files
may be open: `remap_pfn_range` takes no reference on the pages, and nothing
waits for `poll`. The memory of `mydev` goes with it, released by the driver
core when `myblkremove` has returned. `myblkexit` empties `minorconf` before it
unregisters the driver, so a device still bound gives back a minor that is no
longer there. With no file open at the `vfree`, and no device bound at the
`ida_destroy`, all is well (`myblk_removed`).

There may be any number of devices, each bound once. A mapping keeps its file
open, and an open file keeps the module loaded. What the steps of a call find is
any number.
-/

namespace KernelDrvLearn

namespace MyblkRemove

/-- `MAX_DEV_NUM`, the number of minors there are. -/
abbrev maxDevNum : ℕ := 16

/-- `PAGE_SIZE`, the unit in which the area is mapped. -/
abbrev pageSize : ℕ := 4096

/-- `MYBLK_MAP_SIZE`, the size of the area: 17 pages. -/
abbrev myblkMapSize : ℕ := pageSize + 16 * pageSize

/-- What is freed: the area and the device. -/
inductive Object where
  /-- `mydev` -/
  | mydev
  /-- `map_area`, `ctrl` and `data` included -/
  | mapArea
  deriving DecidableEq

/-! ## The file operations

What the calls of the users touch of a device. `mmap` is the one that outlives its call:
the pages it has inserted stay in the page tables until the process unmaps them or its
file is closed. -/

/-- What a user asks for: `poll`, or a mapping. -/
inductive Op where
  /-- `mmap` of `vsize` bytes at page `pgoff` -/
  | mmap (vsize pgoff : ℕ)
  /-- `poll` -/
  | poll

/-- The next step of a file operation. -/
inductive Place where
  /-- the `dev_info` of `myblkopen` -/
  | blkopen
  /-- the `dev_info` of `myblkrelease` -/
  | blkrelease
  /-- the tests of `myblkmmap` -/
  | mmapCheck (vsize pgoff : ℕ)
  /-- `vmalloc_to_pfn` and `remap_pfn_range` of the page at `offset` -/
  | mmapPage (offset vsize : ℕ)
  /-- the mapping is there: a load or store, or the unmapping -/
  | mapped
  /-- `myblkpoll`: `poll_wait` -/
  | pollWait
  /-- the test of head and tail -/
  | pollCtrl

/-- What a step uses of the two objects. -/
def Place.uses : Place → List Object
  | blkopen | blkrelease | pollWait => [.mydev]
  | mmapCheck _ _ => []
  | mmapPage _ _ | pollCtrl => [.mydev, .mapArea]
  | mapped => [.mapArea]

/-- Is a page of the area in the page tables? -/
def Place.maps : Place → Bool
  | mapped => true
  | mmapPage offset _ => 0 < offset
  | _ => false

/-- The head of the loop of `myblkmmap`. -/
def mmapLoop (offset vsize : ℕ) : Next Place Unit :=
  if offset < vsize then .goto (.mmapPage offset vsize) else .goto .mapped

/-- Where a step leads. -/
def Place.next : Place → ℕ → Next Place Unit
  | blkopen, _ => .opened ()
  | blkrelease, _ => .ret 0
  | mmapCheck vsize pgoff, _ =>
    if vsize > myblkMapSize ∨ vsize % pageSize ≠ 0 then .ret einval
    else if pgoff ≠ 0 then .ret einval
    else mmapLoop 0 vsize
  | mmapPage offset vsize, ret =>
    if ret ≠ 0 then .ret (-ret) else mmapLoop (offset + pageSize) vsize
  | mapped, 0 => .goto mapped
  | mapped, _ + 1 => .ret 0
  | pollWait, _ => .goto pollCtrl
  | pollCtrl, differ => .ret (if differ ≠ 0 then (pollin ||| pollrdnorm).toInt else 0)

/-- Where an operation starts, as a place of its function. -/
def Op.entry : Op → Place
  | mmap vsize pgoff => .mmapCheck vsize pgoff
  | poll => .pollWait

/-- `fops`, with the device as the `private_data`. -/
def fops : Fops Op Place Unit where
  openEntry := .blkopen
  entry := fun _ op => op.entry
  releaseEntry := fun _ => .blkrelease
  next := Place.next

/-! ## The timer

The callback produces, wakes the readers and starts the timer again. `del_timer_sync`
waits for a callback that is running and takes the timer out for good, so behind it none
will run. -/

/-- The next step of `myblk_timer_fn`. -/
inductive TimerPlace where
  /-- `myblk_produce_data`: the size -/
  | size
  /-- `spin_lock_irqsave` -/
  | lock
  /-- the ring, up to the new head -/
  | produce
  /-- `spin_unlock_irqrestore`; is there anything to wake up for? -/
  | unlock (wake : Bool)
  /-- `wake_up_interruptible` -/
  | wakeUp
  /-- `mod_timer`, and the return -/
  | modTimer

/-- What a step uses of the two objects. -/
def TimerPlace.uses : TimerPlace → List Object
  | size | produce => [.mydev, .mapArea]
  | lock | unlock _ | wakeUp | modTimer => [.mydev]

/-- The timer: not started, pending, or with its callback running. -/
inductive Timer where
  /-- not started -/
  | idle
  /-- started -/
  | pending
  /-- its callback is running -/
  | running (p : TimerPlace)

/-- Where a step of the callback leads. -/
def TimerPlace.next : TimerPlace → ℕ → Timer
  | size, _ => .running lock
  | lock, _ => .running produce
  | produce, len => .running (unlock (len ≠ 0))
  | unlock wake, _ => if wake = true then .running wakeUp else .running modTimer
  | wakeUp, _ => .running modTimer
  | modTimer, _ => .pending

/-! ## Probe, remove and exit

A removal in its steps, from `del_timer_sync` to the release, and an unloading on top of
it. `myblkexit` destroys the set of minors and then unregisters the driver, which removes
the devices still bound. -/

/-- What the driver core does next with a device. -/
inductive Driver where
  /-- not yet bound -/
  | absent
  /-- bound -/
  | bound
  /-- `myblkremove`: `del_timer_sync` -/
  | delTimer
  /-- `device_destroy` -/
  | deviceDestroy
  /-- `cdev_del` -/
  | cdevDel
  /-- `ida_free` -/
  | idaFree
  /-- `vfree` -/
  | vfree
  /-- it has returned: `mydev` is released -/
  | release
  /-- removed -/
  | gone
  deriving DecidableEq

/-- Can the node be opened? While the device is bound, and in a removal until `cdev_del`.
-/
def Driver.published : Driver → Bool
  | bound | delTimer | deviceDestroy | cdevDel => true
  | _ => false

/-- Is the device's minor still to be given back? -/
def Driver.holds : Driver → Bool
  | bound | delTimer | deviceDestroy | cdevDel | idaFree => true
  | _ => false

/-- May the timer be started or its callback be running? -/
def Driver.timed : Driver → Bool
  | bound | delTimer => true
  | _ => false

/-- Is this object freed at that place? -/
def Driver.freed : Driver → Object → Bool
  | release, .mapArea | gone, _ => true
  | _, _ => false

/-- A device: its driver, its timer, its files and its mappings. -/
structure Dev where
  /-- what is next -/
  driver : Driver
  /-- `minor` -/
  minor : ℕ
  /-- `timer` -/
  timer : Timer
  /-- its files -/
  files : ℕ → File Place Unit

/-- The driver and its devices, with the minors in use. -/
structure State where
  /-- has `myblkexit` not been called? -/
  loaded : Bool
  /-- the use count of the module -/
  users : ℕ
  /-- `minorconf` -/
  minorconf : Finset ℕ
  /-- the devices -/
  devs : ℕ → Dev

/-- The module is loaded, and no device is bound. -/
def init : State := ⟨true, 0, ∅, fun _ => ⟨.absent, 0, .idle, fun _ => .closed⟩⟩

/-- The state with another device. -/
def State.setDev (s : State) (d : ℕ) (dev : Dev) : State :=
  { s with devs := Function.update s.devs d dev }

@[simp] theorem State.setDev_self (s : State) (d : ℕ) (dev : Dev) : (s.setDev d dev).devs d = dev :=
  Function.update_self ..

theorem State.setDev_of_ne {d e : ℕ} (s : State) (dev : Dev) (h : e ≠ d) :
    (s.setDev d dev).devs e = s.devs e := Function.update_of_ne h ..

/-- `myblkprobe`, successful: the area is there, and its timer started. -/
def myblkprobe (s : State) (d : ℕ) : Option State :=
  (idaAllocRange s.minorconf maxDevNum).map fun minor =>
    { s with minorconf := insert minor s.minorconf }.setDev d
      ⟨.bound, minor, .pending, fun _ => .closed⟩

/-- A step of `myblkremove` and of the release after it. -/
def removeStep (s : State) (d : ℕ) : Option State :=
  let dev := s.devs d
  match dev.driver with
  | .delTimer =>
    match dev.timer with
    -- it waits for the callback
    | .running _ => none
    | _ => some (s.setDev d { dev with timer := .idle, driver := .deviceDestroy })
  | .deviceDestroy => some (s.setDev d { dev with driver := .cdevDel })
  | .cdevDel => some (s.setDev d { dev with driver := .idaFree })
  | .idaFree =>
    some ({ s with minorconf := s.minorconf.erase dev.minor }.setDev d
      { dev with driver := .vfree })
  | .vfree => some (s.setDev d { dev with driver := .release })
  | .release => some (s.setDev d { dev with driver := .gone })
  | .absent | .bound | .gone => none

/-- `myblkexit` up to its `ida_destroy`. The devices still bound are removed
next. -/
def myblkexit (s : State) : State := { s with loaded := false, minorconf := ∅ }

/-- Is the file closed? A closed file has no call in progress, and keeps nothing of the
device in use. -/
def isClosed : File Place Unit → Bool
  | .closed => true
  | _ => false

/-- What a user does at device `d`. A file that is not closed counts as a user of
the module, which cannot be opened any more when it is going. -/
def userStep (s : State) (d : ℕ) (a : FileAct Op) : Option State :=
  let dev := s.devs d
  match a with
  | .openFile f =>
    if s.loaded = true ∧ dev.driver.published = true then
      (fops.step dev.files (.openFile f)).map fun files =>
        { s with users := s.users + 1 }.setDev d { dev with files := files }
    else none
  | a =>
    (fops.step dev.files a).map fun files =>
      { s with users := if isClosed (files a.file) then s.users - 1 else s.users }.setDev d
        { dev with files := files }

/-- What happens next: to a device, or to the module. -/
inductive Act where
  /-- `myblkprobe` of a device -/
  | probe (d : ℕ)
  /-- `myblkremove` is called -/
  | remove (d : ℕ)
  /-- and goes on -/
  | driver (d : ℕ)
  /-- the timer expires -/
  | fire (d : ℕ)
  /-- its callback goes on, finding `ret` -/
  | timer (d ret : ℕ)
  /-- a user -/
  | user (d : ℕ) (a : FileAct Op)
  /-- `myblkexit` -/
  | exit

/-- One step of a device, a user, a timer or the module. -/
def step (s : State) : Act → Option State
  | .probe d => if s.loaded = true ∧ (s.devs d).driver = .absent then myblkprobe s d else none
  | .remove d =>
    if (s.devs d).driver = .bound then some (s.setDev d { s.devs d with driver := .delTimer })
    else none
  | .driver d => removeStep s d
  | .fire d =>
    match (s.devs d).timer with
    | .pending => some (s.setDev d { s.devs d with timer := .running .size })
    | _ => none
  | .timer d ret =>
    match (s.devs d).timer with
    | .running p => some (s.setDev d { s.devs d with timer := p.next ret })
    | _ => none
  | .user d a => userStep s d a
  | .exit => if s.loaded = true ∧ s.users = 0 then some (myblkexit s) else none

/-- The driver with all devices it is bound to. -/
def driver : Lts State Act where
  init := init
  step := step

/-! ## What should hold

Three promises. What is freed is not used; a mapping does not outlive its area; and a
minor is given back once, by a set that has it. -/

/-- The step uses nothing that is freed, and an `ida_free` finds its minor. -/
def Act.Safe (s : State) : Act → Prop
  | .timer d _ =>
    ∀ p, (s.devs d).timer = .running p → ∀ o ∈ p.uses, (s.devs d).driver.freed o = false
  | .user d a =>
    ∀ p, Fops.resumed (s.devs d).files a = some p → ∀ o ∈ p.uses,
      (s.devs d).driver.freed o = false
  | .driver d => (s.devs d).driver = .idaFree → (s.devs d).minor ∈ s.minorconf
  | _ => True

/-- No mapping is left to an area that is freed. -/
def State.Unmapped (s : State) : Prop :=
  ∀ d f, ∀ p ∈ ((s.devs d).files f).running, p.maps = true →
    (s.devs d).driver.freed .mapArea = false

/-- The `vfree` finds no file open, and `myblkexit` no device that holds its
minor. -/
def Act.Settled (s : State) : Act → Prop
  | .driver d => (s.devs d).driver = .vfree → Fops.Quiet (s.devs d).files
  | .exit => ∀ d, (s.devs d).driver.holds = false
  | _ => True

/-! ## The invariant

Device by device: what is freed follows from where the driver stands with it, the timer
runs only before it is deleted, and the minors in use are those of the devices that hold
one. -/

/-- What is true of a device, wherever its driver stands. -/
structure Dev.Ok (dev : Dev) (minorconf : Finset ℕ) : Prop where
  minor : dev.driver.holds = true → dev.minor ∈ minorconf
  timer : dev.driver.timed = false → dev.timer = .idle
  files : dev.driver = .absent ∨ dev.driver.freed .mapArea = true → Fops.Quiet dev.files

/-- The invariant: so is every device, and no two hold one minor. -/
structure State.Inv (s : State) : Prop where
  ok : ∀ d, (s.devs d).Ok s.minorconf
  distinct : ∀ d e, (s.devs d).driver.holds = true → (s.devs e).driver.holds = true →
    (s.devs d).minor = (s.devs e).minor → d = e

theorem State.Inv.init : MyblkRemove.init.Inv where
  ok := fun _ => ⟨nofun, fun _ => rfl, fun _ _ => rfl⟩
  distinct := fun _ _ => nofun

/-- A change to one device, which holds its minor only if it did before. -/
theorem State.Inv.setDev {s : State} (h : s.Inv) {d : ℕ} {dev : Dev}
    (hok : dev.Ok s.minorconf) (hminor : dev.minor = (s.devs d).minor)
    (hholds : dev.driver.holds = true → (s.devs d).driver.holds = true) :
    (s.setDev d dev).Inv where
  ok := (Function.forall_update_iff s.devs fun _ dev => dev.Ok s.minorconf).mpr
    ⟨hok, fun e _ => h.ok e⟩
  distinct := by
    have hold : ∀ e, ((s.setDev d dev).devs e).driver.holds = true →
        (s.devs e).driver.holds = true ∧ ((s.setDev d dev).devs e).minor = (s.devs e).minor := by
      refine (Function.forall_update_iff s.devs fun e dev => dev.driver.holds = true →
        (s.devs e).driver.holds = true ∧ dev.minor = (s.devs e).minor).mpr ⟨?_, ?_⟩
      · exact fun hd => ⟨hholds hd, hminor⟩
      · exact fun e _ he => ⟨he, rfl⟩
    intro e e' he he' heq
    obtain ⟨he, hm⟩ := hold e he
    obtain ⟨he', hm'⟩ := hold e' he'
    exact h.distinct e e' he he' (hm.symm.trans (heq.trans hm'))

/-! ## Every step

Each party's steps keep the invariant: the removal frees where nobody is left, if it is
settled, and a user can do nothing at a device that has no file open. -/

theorem State.Inv.probe {s t : State} (h : s.Inv) {d : ℕ} (hs : myblkprobe s d = some t) :
    t.Inv := by
  obtain ⟨minor, halloc, rfl⟩ := Option.map_eq_some_iff.mp hs
  obtain ⟨-, hfree⟩ := idaAllocRange_some halloc
  have hfresh : ∀ e, (s.devs e).driver.holds = true → (s.devs e).minor ≠ minor := by
    rintro e he rfl
    exact hfree ((h.ok e).minor he)
  constructor
  · refine (Function.forall_update_iff s.devs fun _ dev => dev.Ok (insert minor s.minorconf)).mpr
      ⟨⟨fun _ => Finset.mem_insert_self _ _, nofun, fun _ _ => rfl⟩, fun e _ => ?_⟩
    obtain ⟨hminor, htimer, hfiles⟩ := h.ok e
    exact ⟨fun he => Finset.mem_insert_of_mem (hminor he), htimer, hfiles⟩
  · intro e e' he he' heq
    by_cases hed : e = d <;> by_cases hed' : e' = d
    · rw [hed, hed']
    · rw [State.setDev_of_ne _ _ hed'] at he' heq
      rw [hed, State.setDev_self] at heq
      exact absurd heq.symm (hfresh e' he')
    · rw [State.setDev_of_ne _ _ hed] at he heq
      rw [hed', State.setDev_self] at heq
      exact absurd heq (hfresh e he)
    · rw [State.setDev_of_ne _ _ hed, State.setDev_of_ne _ _ hed'] at heq
      rw [State.setDev_of_ne _ _ hed] at he
      rw [State.setDev_of_ne _ _ hed'] at he'
      exact h.distinct e e' he he' heq

/-- Giving back the minor of a device that holds it. -/
theorem State.Inv.idaFree {s : State} (h : s.Inv) {d : ℕ} (hd : (s.devs d).driver = .idaFree) :
    ({ s with minorconf := s.minorconf.erase (s.devs d).minor }.setDev d
      { s.devs d with driver := .vfree }).Inv := by
  have hholds : (s.devs d).driver.holds = true := by
    rw [hd]
    rfl
  have htimer : (s.devs d).timer = .idle := (h.ok d).timer (by rw [hd]; rfl)
  have hvfree : (s.setDev d { s.devs d with driver := .vfree }).Inv := h.setDev
    ⟨nofun, fun _ => htimer, by rintro (hx | hx) <;> cases hx⟩ rfl nofun
  refine ⟨fun e => ?_, hvfree.distinct⟩
  obtain ⟨hminor, htimer, hfiles⟩ := hvfree.ok e
  refine ⟨fun he => Finset.mem_erase.mpr ⟨fun heq => ?_, hminor he⟩, htimer, hfiles⟩
  -- another device holds another minor
  by_cases hed : e = d
  · rw [hed, State.setDev_self] at he
    cases he
  · rw [State.setDev_of_ne _ _ hed] at he heq
    exact hed (h.distinct e d he hholds heq)

theorem State.Inv.removeStep {s t : State} (h : s.Inv) {d : ℕ}
    (hsettled : (s.devs d).driver = .vfree → Fops.Quiet (s.devs d).files)
    (hs : removeStep s d = some t) : t.Inv := by
  obtain ⟨hminor, htimer, hfiles⟩ := h.ok d
  rw [MyblkRemove.removeStep] at hs
  rcases hd : (s.devs d).driver <;> simp only [hd] at hs
  case delTimer =>
    rw [hd] at hminor
    split at hs
    · cases hs
    · obtain rfl := Option.some.inj hs
      exact h.setDev ⟨hminor, fun _ => rfl, by rintro (hx | hx) <;> cases hx⟩ rfl
        fun _ => by rw [hd]; rfl
  case deviceDestroy | cdevDel =>
    rw [hd] at hminor htimer
    obtain rfl := Option.some.inj hs
    exact h.setDev ⟨hminor, htimer, by rintro (hx | hx) <;> cases hx⟩ rfl fun _ => by rw [hd]; rfl
  case idaFree =>
    obtain rfl := Option.some.inj hs
    exact h.idaFree hd
  case vfree =>
    rw [hd] at htimer
    obtain rfl := Option.some.inj hs
    exact h.setDev ⟨nofun, htimer, fun _ => hsettled hd⟩ rfl nofun
  case release =>
    rw [hd] at htimer hfiles
    obtain rfl := Option.some.inj hs
    exact h.setDev ⟨nofun, htimer, fun _ => hfiles (Or.inr rfl)⟩ rfl nofun
  all_goals cases hs

/-- What a user does to a device: a step on its files, and an open only where there is a
node and the module is not going. -/
theorem userStep_cases {s t : State} {d : ℕ} {a : FileAct Op} (h : userStep s d a = some t) :
    ∃ users files, fops.step (s.devs d).files a = some files ∧
      t = { s with users := users }.setDev d { s.devs d with files := files } ∧
        ∀ f, a = .openFile f → s.loaded = true ∧ (s.devs d).driver.published = true := by
  cases a with
  | openFile f =>
    obtain ⟨hallows, hmap⟩ := Option.ite_none_right_eq_some.mp h
    obtain ⟨files, hfiles, rfl⟩ := Option.map_eq_some_iff.mp hmap
    exact ⟨_, files, hfiles, rfl, fun _ _ => hallows⟩
  | call f op | resume f i ret | release f =>
    obtain ⟨files, hfiles, rfl⟩ := Option.map_eq_some_iff.mp h
    exact ⟨_, files, hfiles, rfl, nofun⟩

/-- Where the area is freed or not yet there, and no file open, a user can do
nothing. -/
theorem userStep_quiet {s t : State} {d : ℕ} {a : FileAct Op}
    (hdriver : (s.devs d).driver = .absent ∨ (s.devs d).driver.freed .mapArea = true)
    (hquiet : Fops.Quiet (s.devs d).files) : userStep s d a ≠ some t := by
  intro h
  obtain ⟨users, files, hfiles, -, hopen⟩ := userStep_cases h
  obtain ⟨f, rfl⟩ := Fops.step_quiet hquiet hfiles
  obtain ⟨-, hpublished⟩ := hopen f rfl
  have hnot : ∀ driver : Driver, driver = .absent ∨ driver.freed .mapArea = true →
      driver.published = false := by
    rintro ⟨⟩ (hx | hx) <;> first | rfl | cases hx
  rw [hnot _ hdriver] at hpublished
  cases hpublished

theorem State.Inv.userStep {s t : State} (h : s.Inv) {d : ℕ} {a : FileAct Op}
    (hs : userStep s d a = some t) : t.Inv := by
  obtain ⟨hminor, htimer, hfiles⟩ := h.ok d
  obtain ⟨users, files, -, rfl, -⟩ := userStep_cases hs
  have husers : State.Inv { s with users := users } := ⟨h.ok, h.distinct⟩
  refine husers.setDev ⟨hminor, htimer, fun hdriver => ?_⟩ rfl id
  exact absurd hs (userStep_quiet hdriver (hfiles hdriver))

/-- **Step lemma.** A settled step keeps the invariant. -/
theorem State.Inv.step {s t : State} {a : Act} (h : s.Inv) (hsettled : a.Settled s)
    (hs : driver.step s a = some t) : t.Inv := by
  cases a with
  | probe d =>
    obtain ⟨-, hprobe⟩ := Option.ite_none_right_eq_some.mp hs
    exact h.probe hprobe
  | remove d =>
    obtain ⟨hd, heq⟩ := Option.ite_none_right_eq_some.mp hs
    obtain rfl := Option.some.inj heq
    obtain ⟨hminor, -, -⟩ := h.ok d
    rw [hd] at hminor
    exact h.setDev ⟨hminor, nofun, by rintro (hx | hx) <;> cases hx⟩ rfl fun _ => by rw [hd]; rfl
  | driver d => exact h.removeStep hsettled hs
  | fire d =>
    obtain ⟨hminor, htimer, hfiles⟩ := h.ok d
    change (match (s.devs d).timer with
      | .pending => some (s.setDev d { s.devs d with timer := .running .size })
      | _ => none) = some t at hs
    split at hs
    case h_1 hpending =>
      obtain rfl := Option.some.inj hs
      -- behind `del_timer_sync` the timer is idle and does not fire
      refine h.setDev ⟨hminor, fun htimed => ?_, hfiles⟩ rfl id
      exact absurd ((htimer htimed).symm.trans hpending) nofun
    case h_2 => cases hs
  | timer d ret =>
    obtain ⟨hminor, htimer, hfiles⟩ := h.ok d
    change (match (s.devs d).timer with
      | .running p => some (s.setDev d { s.devs d with timer := p.next ret })
      | _ => none) = some t at hs
    split at hs
    case h_1 p hrunning =>
      obtain rfl := Option.some.inj hs
      refine h.setDev ⟨hminor, fun htimed => ?_, hfiles⟩ rfl id
      exact absurd ((htimer htimed).symm.trans hrunning) nofun
    case h_2 => cases hs
  | user d a => exact h.userStep hs
  | exit =>
    obtain ⟨-, heq⟩ := Option.ite_none_right_eq_some.mp hs
    obtain rfl := Option.some.inj heq
    refine ⟨fun d => ?_, h.distinct⟩
    obtain ⟨-, htimer, hfiles⟩ := h.ok d
    refine ⟨fun hholds => ?_, htimer, hfiles⟩
    -- a settled exit finds no device that holds its minor
    have hholds : (s.devs d).driver.holds = true := hholds
    rw [hsettled d] at hholds
    cases hholds

/-! ## What follows

The promises, read off the invariant: the timer is gone before the first free, and the
files are closed by then. -/

/-- Nothing is freed while the timer may run. -/
theorem Driver.freed_of_timed {driver : Driver} (h : driver.timed = true) (o : Object) :
    driver.freed o = false := by
  cases driver <;> first | rfl | cases h

/-- The area goes first: where anything is freed, it is. -/
theorem Driver.freed_mapArea {driver : Driver} {o : Object} (h : driver.freed o = true) :
    driver.freed .mapArea = true := by
  cases driver <;> cases o <;> first | rfl | cases h

theorem State.Inv.safe {s t : State} {a : Act} (h : s.Inv) (hs : driver.step s a = some t) :
    a.Safe s := by
  cases a with
  | timer d ret =>
    intro p hrunning o _
    refine Driver.freed_of_timed ?_ o
    by_contra htimed
    have hidle := (h.ok d).timer (Bool.eq_false_of_not_eq_true htimed)
    exact absurd (hidle.symm.trans hrunning) nofun
  | user d a =>
    intro p _ o _
    by_contra hfreed
    have harea := Driver.freed_mapArea (Bool.eq_true_of_not_eq_false hfreed)
    exact absurd hs (userStep_quiet (Or.inr harea) ((h.ok d).files (Or.inr harea)))
  | driver d =>
    intro hd
    exact (h.ok d).minor (by rw [hd]; rfl)
  | probe d => trivial
  | remove d => trivial
  | fire d => trivial
  | exit => trivial

theorem State.Inv.unmapped {s : State} (h : s.Inv) : s.Unmapped := by
  intro d f p hp _
  by_contra hfreed
  have hquiet := (h.ok d).files (Or.inr (Bool.eq_true_of_not_eq_false hfreed))
  rw [hquiet f] at hp
  exact absurd hp List.not_mem_nil

/-! ## What goes wrong otherwise

From an unsettled step there is a way to a step that breaks a promise: a file or a mapping
that is left can be used, and a removal that is under way comes to its `ida_free`, since
nothing stands in its way. -/

/-- The next step may be one that is not safe. -/
def State.Unsafe (s : State) : Prop := ∃ a t, driver.step s a = some t ∧ ¬ a.Safe s

/-- A user's step, other than an open, is not held up. -/
theorem exists_userStep {s : State} {d : ℕ} {a : FileAct Op} {files : ℕ → File Place Unit}
    (hfiles : fops.step (s.devs d).files a = some files) (hopen : ∀ f, a ≠ .openFile f) :
    ∃ t, driver.step s (.user d a) = some t ∧ (t.devs d).files = files ∧
      (t.devs d).driver = (s.devs d).driver := by
  cases a with
  | openFile f => exact absurd rfl (hopen f)
  | call f op | resume f i ret | release f =>
    refine ⟨_, congrArg (Option.map _) hfiles, ?_, ?_⟩ <;> dsimp only <;> rw [State.setDev_self]

/-- With `mydev` freed, a step that uses it is not safe. -/
theorem unsafe_of_resumed {s : State} {d : ℕ} {a : FileAct Op} {p : Place}
    (hgone : (s.devs d).driver = .gone) (hp : Fops.resumed (s.devs d).files a = some p)
    (huses : .mydev ∈ p.uses) (hopen : ∀ f, a ≠ .openFile f) : s.Unsafe := by
  obtain ⟨files, hfiles⟩ := Fops.exists_resume (F := fops) hp
  obtain ⟨t, ht, -, -⟩ := exists_userStep hfiles hopen
  refine ⟨.user d a, t, ht, fun hsafe => ?_⟩
  have hfreed := hsafe p hp _ huses
  rw [hgone] at hfreed
  cases hfreed

/-- A file not closed when `mydev` is freed uses it, or can be made to, by a
`poll`. -/
theorem unsafe_of_file {s : State} {d f : ℕ} (hentry : Fops.AtEntry fops ((s.devs d).files f))
    (hgone : (s.devs d).driver = .gone) (hf : (s.devs d).files f ≠ .closed) :
    driver.CanReach State.Unsafe s := by
  rcases Fops.exists_entry hentry hf .poll with
    ⟨a, p, hp, hplace, hopen⟩ | ⟨a, files, data, hcall, hp, hopen⟩
  · refine Lts.CanReach.here (unsafe_of_resumed hgone hp ?_ hopen)
    rcases hplace with rfl | ⟨data, rfl⟩ <;> exact List.mem_singleton_self _
  · obtain ⟨t, ht, hfiles, hdriver⟩ := exists_userStep hcall fun _ => nofun
    refine Lts.CanReach.step ht (Lts.CanReach.here (unsafe_of_resumed (d := d) (a := a)
      (p := .pollWait) (hdriver.trans hgone) ?_ (List.mem_singleton_self _) hopen))
    rw [hfiles]
    exact hp

/-- How many steps the callback may still take. -/
def TimerPlace.left : TimerPlace → ℕ
  | size => 6
  | lock => 5
  | produce => 4
  | unlock _ => 3
  | wakeUp => 2
  | modTimer => 1

/-- How many it may take before the timer can be deleted. -/
def Timer.left : Timer → ℕ
  | running p => p.left
  | idle | pending => 0

/-- How many steps a removal has to its `ida_free`, once the timer is deleted. -/
def Driver.left : Driver → ℕ
  | bound => 4
  | delTimer => 3
  | deviceDestroy => 2
  | cdevDel => 1
  | _ => 0

/-- How many steps it may still take. -/
def Dev.left (dev : Dev) : ℕ := dev.timer.left + dev.driver.left

theorem TimerPlace.left_next (p : TimerPlace) (ret : ℕ) : (p.next ret).left < p.left := by
  cases p with
  | unlock wake =>
    cases wake with
    | false => exact (by decide : 1 < 3)
    | true => exact (by decide : 2 < 3)
  | size | lock | produce | wakeUp | modTimer => exact Nat.lt_succ_self _

/-- A removal can go on to its `ida_free`. -/
theorem goesOn {s : State} {d : ℕ} (hholds : (s.devs d).driver.holds = true)
    (hidaFree : (s.devs d).driver ≠ .idaFree) :
    ∃ a dev, driver.step s a = some (s.setDev d dev) ∧ dev.driver.holds = true ∧
      dev.left < (s.devs d).left := by
  have hremove : ∀ dev, removeStep s d = some (s.setDev d dev) →
      driver.step s (.driver d) = some (s.setDev d dev) := fun _ hs => hs
  rcases hd : (s.devs d).driver
  case bound =>
    refine ⟨.remove d, { s.devs d with driver := .delTimer }, if_pos hd, rfl, ?_⟩
    rw [Dev.left, Dev.left, hd]
    exact Nat.add_lt_add_left (Nat.lt_succ_self 3) _
  case delTimer =>
    rcases ht : (s.devs d).timer with _ | _ | p
    case running =>
      -- `del_timer_sync` waits for the callback
      refine ⟨.timer d 0, { s.devs d with timer := p.next 0 }, ?_, hholds, ?_⟩
      · change (match (s.devs d).timer with
          | .running p => some (s.setDev d { s.devs d with timer := p.next 0 })
          | _ => none) = _
        rw [ht]
      · rw [Dev.left, Dev.left, ht]
        exact Nat.add_lt_add_right (p.left_next 0) _
    all_goals
      refine ⟨.driver d, { s.devs d with timer := .idle, driver := .deviceDestroy },
        hremove _ ?_, rfl, ?_⟩
      · rw [removeStep, hd, ht]
      · rw [Dev.left, Dev.left, hd, ht]
        exact Nat.add_lt_add_left (Nat.lt_succ_self 2) _
  case deviceDestroy =>
    refine ⟨.driver d, { s.devs d with driver := .cdevDel }, hremove _ ?_, rfl, ?_⟩
    · rw [removeStep, hd]
    · rw [Dev.left, Dev.left, hd]
      exact Nat.add_lt_add_left (Nat.lt_succ_self 1) _
  case cdevDel =>
    refine ⟨.driver d, { s.devs d with driver := .idaFree }, hremove _ ?_, rfl, ?_⟩
    · rw [removeStep, hd]
    · rw [Dev.left, Dev.left, hd]
      exact Nat.add_lt_add_left (Nat.lt_succ_self 0) _
  case idaFree => exact absurd hd hidaFree
  all_goals
    rw [hd] at hholds
    cases hholds

/-- So it comes to it, by its own steps. -/
theorem canReach_idaFree {s : State} {d : ℕ} (h : (s.devs d).driver.holds = true) :
    driver.CanReach (fun u => ((u.devs d).driver.holds = true ∧ u.minorconf = s.minorconf) ∧
      (u.devs d).driver = .idaFree) s := by
  refine Lts.CanReach.of_measure (fun u => (u.devs d).left) ?_ ⟨h, rfl⟩
  rintro u ⟨hholds, hm⟩ hnot
  obtain ⟨a, dev, hs, hdev, hlt⟩ := goesOn hholds hnot
  refine ⟨a, u.setDev d dev, hs, ⟨?_, hm⟩, ?_⟩
  · rw [State.setDev_self]
    exact hdev
  · rw [State.setDev_self]
    exact hlt

/-- Each open and each release in progress is at its first step. -/
def State.AtEntry (s : State) : Prop := ∀ d f, Fops.AtEntry fops ((s.devs d).files f)

theorem State.AtEntry.setDev {s : State} (h : s.AtEntry) {d : ℕ} {dev : Dev}
    (hdev : ∀ f, Fops.AtEntry fops (dev.files f)) : (s.setDev d dev).AtEntry :=
  (Function.forall_update_iff s.devs fun _ dev => ∀ f, Fops.AtEntry fops (dev.files f)).mpr
    ⟨hdev, fun e _ => h e⟩

theorem State.AtEntry.step {s t : State} {a : Act} (h : s.AtEntry)
    (hs : driver.step s a = some t) : t.AtEntry := by
  cases a with
  | probe d =>
    obtain ⟨-, hprobe⟩ := Option.ite_none_right_eq_some.mp hs
    obtain ⟨minor, -, rfl⟩ := Option.map_eq_some_iff.mp hprobe
    exact State.AtEntry.setDev (s := { s with minorconf := _ }) h fun _ => trivial
  | remove d =>
    obtain ⟨-, heq⟩ := Option.ite_none_right_eq_some.mp hs
    obtain rfl := Option.some.inj heq
    exact h.setDev (h d)
  | driver d =>
    have hs : removeStep s d = some t := hs
    rw [removeStep] at hs
    rcases hd : (s.devs d).driver <;> simp only [hd] at hs
    case delTimer =>
      split at hs
      · cases hs
      · obtain rfl := Option.some.inj hs
        exact h.setDev (h d)
    case idaFree =>
      obtain rfl := Option.some.inj hs
      exact State.AtEntry.setDev (s := { s with minorconf := _ }) h (h d)
    case deviceDestroy | cdevDel | vfree | release =>
      obtain rfl := Option.some.inj hs
      exact h.setDev (h d)
    all_goals cases hs
  | fire d =>
    change (match (s.devs d).timer with
      | .pending => some (s.setDev d { s.devs d with timer := .running .size })
      | _ => none) = some t at hs
    split at hs
    case h_1 =>
      obtain rfl := Option.some.inj hs
      exact h.setDev (h d)
    case h_2 => cases hs
  | timer d ret =>
    change (match (s.devs d).timer with
      | .running p => some (s.setDev d { s.devs d with timer := p.next ret })
      | _ => none) = some t at hs
    split at hs
    case h_1 =>
      obtain rfl := Option.some.inj hs
      exact h.setDev (h d)
    case h_2 => cases hs
  | user d a =>
    obtain ⟨users, files, hfiles, rfl, -⟩ := userStep_cases hs
    exact State.AtEntry.setDev (s := { s with users := users }) h
      (Fops.AtEntry.step (fun _ _ => nofun) (fun _ _ _ => nofun) (h d) hfiles)
  | exit =>
    obtain ⟨-, heq⟩ := Option.ite_none_right_eq_some.mp hs
    obtain rfl := Option.some.inj heq
    exact h

/-- From a step that is not settled, one that is not safe can follow. -/
theorem unsettled {s t : State} {a : Act} (hentry : s.AtEntry) (hbad : ¬ a.Settled s)
    (hs : driver.step s a = some t) : driver.CanReach State.Unsafe t := by
  cases a with
  | driver d =>
    obtain ⟨hvfree, hopen⟩ := Classical.not_imp.mp hbad
    obtain ⟨f, hf⟩ := not_forall.mp hopen
    have hs : removeStep s d = some t := hs
    rw [removeStep] at hs
    simp only [hvfree] at hs
    obtain rfl := Option.some.inj hs
    -- the release of `mydev` comes next
    have hrelease : driver.step (s.setDev d { s.devs d with driver := .release }) (.driver d) =
        some ((s.setDev d { s.devs d with driver := .release }).setDev d
          { s.devs d with driver := .gone }) := by
      change removeStep _ d = _
      rw [removeStep, State.setDev_self]
    refine Lts.CanReach.step hrelease (unsafe_of_file (d := d) (f := f) ?_ ?_ ?_)
    · rw [State.setDev_self]
      exact hentry d f
    · rw [State.setDev_self]
    · rw [State.setDev_self]
      exact hf
  | exit =>
    obtain ⟨d, hd⟩ := not_forall.mp hbad
    obtain ⟨-, heq⟩ := Option.ite_none_right_eq_some.mp hs
    obtain rfl := Option.some.inj heq
    have hholds : ((myblkexit s).devs d).driver.holds = true := Bool.eq_true_of_not_eq_false hd
    refine (canReach_idaFree hholds).trans ?_
    rintro u ⟨⟨-, hm⟩, hidaFree⟩
    refine Lts.CanReach.here ⟨.driver d, ?_⟩
    have hstep : driver.step u (.driver d) =
        some ({ u with minorconf := u.minorconf.erase (u.devs d).minor }.setDev d
          { u.devs d with driver := .vfree }) := by
      change removeStep u d = _
      rw [removeStep, hidaFree]
    refine ⟨_, hstep, fun hsafe => ?_⟩
    have hmem := hsafe hidaFree
    rw [hm] at hmem
    exact absurd hmem (Finset.notMem_empty _)
  | probe d => exact absurd trivial hbad
  | remove d => exact absurd trivial hbad
  | fire d => exact absurd trivial hbad
  | timer d ret => exact absurd trivial hbad
  | user d a => exact absurd trivial hbad

/-- **When the shared area outlives its users.** In every state reached with a
`vfree` that finds no file open, and a `myblkexit` with no device that holds its
minor: no mapping is left to a freed area, no callback and no call uses what is
freed, and an `ida_free` finds its minor. From a step that does not meet this,
one that does any of it can follow. -/
theorem myblk_removed {s : State} (h : driver.Reach (fun s a => a.Settled s) s) :
    (s.Unmapped ∧ ∀ a t, driver.step s a = some t → a.Safe s) ∧
      ∀ a t, ¬ a.Settled s → driver.step s a = some t → driver.CanReach State.Unsafe t := by
  have hinv : s.Inv := h.invariant State.Inv.init fun _ _ _ hi hsettled hs => hi.step hsettled hs
  have hclosed : MyblkRemove.init.AtEntry := fun _ _ => trivial
  have hentry : s.AtEntry := h.invariant hclosed fun _ _ _ hi _ hs => hi.step hs
  exact ⟨⟨hinv.unmapped, fun _ _ hs => hinv.safe hs⟩, fun _ _ hbad hs => unsettled hentry hbad hs⟩

/-- A device is bound, its file opened and mapped. -/
def mappedRun : List Act :=
  [.probe 0, .user 0 (.openFile 0), .user 0 (.resume 0 0 0),
    .user 0 (.call 0 (.mmap pageSize 0)), .user 0 (.resume 0 0 0), .user 0 (.resume 0 0 0)]

/-- The device is removed, up to its `vfree`, with the timer about to start
again. -/
def removeRun : List Act :=
  [Act.fire 0, .remove 0] ++ List.replicate 6 (Act.timer 0 1) ++ List.replicate 5 (Act.driver 0)

/-- The mapping and the file are gone before the removal, and the device before
`myblkexit`. -/
def settledRun : List Act :=
  mappedRun ++ [Act.user 0 (.resume 0 0 1), .user 0 (.release 0), .user 0 (.resume 0 0 0)] ++
    removeRun ++ [Act.exit]

theorem myblk_removed_settled : ∃ s, driver.exec driver.init settledRun = some s ∧
    (s.devs 0).driver.freed .mapArea = true ∧ s.Unmapped := by
  have hrun : driver.Run (fun s a => a.Settled s) settledRun := by
    -- the mapping
    refine ⟨_, rfl, trivial, _, rfl, trivial, _, rfl, trivial, _, rfl, trivial, _, rfl, trivial, _,
      rfl, trivial, ?_⟩
    -- its end, and the release
    refine ⟨_, rfl, trivial, _, rfl, trivial, _, rfl, trivial, ?_⟩
    -- the timer and `myblkremove`
    refine ⟨_, rfl, trivial, _, rfl, trivial, _, rfl, trivial, _, rfl, trivial, _, rfl, trivial, _,
      rfl, trivial, _, rfl, trivial, _, rfl, trivial, ?_⟩
    refine ⟨_, rfl, nofun, _, rfl, nofun, _, rfl, nofun, _, rfl, nofun, _, rfl, fun _ => ?_, _, rfl,
      ?_, trivial⟩
    · rintro (_ | f) <;> rfl
    · rintro (_ | d) <;> rfl
  exact ⟨_, rfl, rfl, (myblk_removed (Lts.Reach.init.exec hrun rfl)).1.1⟩

/-- With the mapping there, it outlives the area; with `myblkexit` first, the
`ida_free` finds no minor. -/
theorem myblk_removed_use :
    (∃ s, driver.exec driver.init (mappedRun ++ removeRun) = some s ∧ ¬ s.Unmapped) ∧
    (∃ s, driver.exec driver.init
      ([Act.probe 0, .exit, .remove 0] ++ List.replicate 3 (Act.driver 0)) = some s ∧
        (driver.step s (.driver 0)).isSome ∧ ¬ Act.Safe s (.driver 0)) := by
  refine ⟨⟨_, rfl, fun h => ?_⟩, ⟨_, rfl, rfl, fun h => ?_⟩⟩
  · exact absurd (h 0 0 .mapped (List.mem_singleton_self _) rfl) (by decide)
  · exact absurd (h rfl) (Finset.notMem_empty _)

end MyblkRemove

end KernelDrvLearn
