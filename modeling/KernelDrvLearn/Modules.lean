import KernelDrvLearn.Lifecycle

/-!
# The modules of the repository

The `init`, `probe`, `remove` and `exit` functions, as what they acquire, check
and release on each path (`Lifecycle`), under the names of the source. Most
modules put everything back in every run, and report what fails
(`modules_restore`). Those that do not are exactly described:
`mysensor_clean_iff` and `myblkdev_clean_iff`, whose `exit` functions free what
removal still needs, and `conditional_clean_iff` for those whose `init` functions
leave something behind on some path, or go on without something they need.

A test device that a module registers is bound and removed like any other device;
its removal before `exit` goes on is a `remove` of its own.
-/

namespace KernelDrvLearn

namespace Modules

open Lifecycle Proc Value

/-- What the modules acquire, by the kernel's function for it. -/
inductive Resource where
  /-- a range of device numbers: `alloc_chrdev_region`, `register_chrdev` -/
  | region
  /-- `class_create` -/
  | cls
  /-- the registration of the driver -/
  | driver
  /-- the device structure: `devm_kzalloc`, `kzalloc`, `kmalloc` -/
  | mem
  /-- `ida_alloc_range` -/
  | minor
  /-- `cdev_add` -/
  | cdev
  /-- `device_create` -/
  | node
  /-- `device_create_file` of `dev_attr_config` -/
  | configFile
  /-- `device_create_file` of `dev_attr_status` -/
  | statusFile
  /-- `devm_ioremap_resource` -/
  | regs
  /-- `devm_request_threaded_irq` -/
  | irq
  /-- `vzalloc` of the shared area -/
  | mapArea
  /-- the timer -/
  | timer
  /-- `platform_device_alloc` -/
  | testdev
  /-- `platform_device_add` -/
  | testdevAdded
  /-- `platform_device_alloc`, the second -/
  | testdev2
  /-- `platform_device_add`, the second -/
  | testdev2Added
  /-- `pci_enable_device` -/
  | pciDevice
  /-- `dma_alloc_coherent` -/
  | txBuffer
  /-- `alloc_etherdev` -/
  | netdev
  /-- `register_netdev` -/
  | netdevRegistered
  /-- `platform_device_register_simple` -/
  | pdev
  /-- `spi_alloc_host` -/
  | ctlr
  /-- `spi_register_controller` -/
  | ctlrRegistered
  /-- `spi_new_device` -/
  | spiDev
  /-- `uart_register_driver` -/
  | uartDriver
  /-- `uart_add_one_port` -/
  | port
  /-- `block_memory`, `kernel_buffer`, `kmalloc_buffer` -/
  | buffer
  /-- `register_blkdev` -/
  | blkdev
  /-- `blk_mq_alloc_tag_set` -/
  | tagSet
  /-- `blk_mq_alloc_disk` -/
  | disk
  /-- `add_disk` -/
  | diskAdded
  /-- `vmalloc_buffer` -/
  | vmallocBuffer
  /-- `alloc_pages_buffer` -/
  | allocPagesBuffer
  /-- `get_free_pages_buffer` -/
  | getFreePagesBuffer
  /-- `bus_register` -/
  | bus
  /-- `bus_create_file` of `bus_attr_descr` -/
  | descr
  /-- `bus_create_file` of `bus_attr_pad` -/
  | pad
  /-- `device_register` of `my_bus_device` -/
  | busDevice
  /-- `my_bus_register_device` of `my_device` -/
  | childDevice
  /-- `proc_mkdir` -/
  | procDir
  /-- `proc_create` -/
  | procFile
  deriving DecidableEq

open Resource

/-- What has to be there to acquire, and to release: the numbers of a character
device and the structure it is in, the class of a node, the node of a file. -/
def needs : Resource → List Resource
  | cdev => [region]
  | node => [cls]
  | configFile | statusFile => [node]
  | irq => [mem, regs]
  | timer => [mem, mapArea]
  | testdevAdded => [testdev]
  | testdev2Added => [testdev2]
  | txBuffer => [pciDevice]
  | netdevRegistered => [netdev]
  | ctlr => [pdev]
  | ctlrRegistered => [ctlr]
  | spiDev => [ctlrRegistered]
  | port => [uartDriver, pdev]
  | tagSet => [mem]
  | disk => [tagSet]
  | diskAdded => [disk]
  | descr | pad => [bus]
  | procFile => [procDir]
  | _ => []

/-- `-ENOMEM`, returned where the source gives it by name. -/
def enomem : Value := const (-12)

/-- `-ENODEV`, returned where the source gives it by name. -/
def enodev : Value := const (-19)

/-- What a module with a driver holds once, and not for each device. -/
def ofModule : Resource → Bool
  | region | cls | driver | testdev | testdevAdded | testdev2 | testdev2Added => true
  | _ => false

/-! ## `practice/myconfig`

A character device with two sysfs files for each device, and two test devices for the
module. The error paths of the probe give back in one order or another what was acquired;
the second test device, when it cannot be added, makes `myintfinit` put the first one, and
forget it. -/

/-- `myconfigprobe`, with an unwinding of its own at each call. -/
def myconfigprobe : Proc Resource :=
  devm mem (ret enomem) <|
  get minor (ret errno) <|
  get cdev (put minor <| ret errno) <|
  get node (put minor <| put cdev <| ret errno) <|
  get configFile (put node <| put cdev <| put minor <| ret errno) <|
  get statusFile (put configFile <| put node <| put cdev <| put minor <| ret errno) <|
  ret zero

/-- `myconfigremove`: the files, the node, the character device and the minor. -/
def myconfigremove : List Resource := [configFile, statusFile, node, cdev, minor]

/-- `myintfinit`: the second test device. When it cannot be added the function
puts and forgets the first, if that is there, and keeps the second. -/
def myintfinitTestdev2 (first : Bool) : Proc Resource :=
  get testdev2 (ret zero) <|
  get testdev2Added (if first then put testdev <| null testdev <| ret zero else ret zero) <|
  ret zero

/-- `myintfinit`, with `TESTDRIVER` or without. -/
def myintfinit (testdriver : Bool) : Proc Resource :=
  get region (ret errno) <|
  get cls (put region <| ret errno) <|
  get driver (put cls <| put region <| ret errno) <|
  if testdriver then
    get testdev (myintfinitTestdev2 false) <|
    get testdevAdded (put testdev <| null testdev <| myintfinitTestdev2 false) <|
    myintfinitTestdev2 true
  else ret zero

/-- What `platform_device_unregister` releases, if the pointer is not `NULL`. -/
def unregisterTestdev : Exit Resource := .putIf testdev [testdevAdded, testdev]

/-- The same for the second. -/
def unregisterTestdev2 : Exit Resource := .putIf testdev2 [testdev2Added, testdev2]

/-- `myintfexit`; `ida_destroy` frees the minors still in use. -/
def myintfexit : List (Exit Resource) :=
  [unregisterTestdev, unregisterTestdev2, .unregister driver, .put cls, .put region,
    .putAll minor]

/-- `myconfig.c`: its driver, and its functions with the test devices or without. -/
def myconfig (testdriver : Bool) : Kmod Resource where
  shared := ofModule
  needs := needs
  init := myintfinit testdriver
  exit := myintfexit
  driver := some ⟨myconfigprobe, myconfigremove⟩

/-! ## `practice/mydevice`

The same without the sysfs files, and with test devices whose allocation is tested by a
macro that does not recognise its failure. -/

/-- `mydevprobe`, with an unwinding of its own at each call. -/
def mydevprobe : Proc Resource :=
  devm mem (ret enomem) <|
  get minor (ret errno) <|
  get cdev (put minor <| ret errno) <|
  get node (put cdev <| put minor <| ret errno) <|
  ret zero

/-- `mydevremove`, the reverse of the probe. -/
def mydevremove : List Resource := [node, cdev, minor]

/-- `mydevinit`: a test device. `platform_device_alloc` returns `NULL` when it fails,
of which `IS_ERR` is false, so `platform_device_add` is called in any case, and
`platform_device_put` of `NULL` does nothing. -/
def mydevinitTestdev (dev added : Resource) (next : Proc Resource) : Proc Resource :=
  get dev (get added (null dev next) next) <|
  get added (put dev <| null dev next) next

/-- `mydevinit`, with `TESTDRIVER` or without. -/
def mydevinit (testdriver : Bool) : Proc Resource :=
  get region (ret errno) <|
  get cls (put region <| ret errno) <|
  get driver (put cls <| put region <| ret errno) <|
  if testdriver then
    mydevinitTestdev testdev testdevAdded <| mydevinitTestdev testdev2 testdev2Added <| ret zero
  else ret zero

/-- `mydevexit`, which unregisters the test devices before the driver. -/
def mydevexit : List (Exit Resource) :=
  [unregisterTestdev, unregisterTestdev2, .unregister driver, .put cls, .put region,
    .putAll minor]

/-- `mydevice.c`: its driver, and its functions with the test devices or without. -/
def mydevice (testdriver : Bool) : Kmod Resource where
  shared := ofModule
  needs := needs
  init := mydevinit testdriver
  exit := mydevexit
  driver := some ⟨mydevprobe, mydevremove⟩

/-! ## `practice/myalarm`

Here the device itself does most of the releasing: memory, registers and interrupt are
acquired for as long as it is bound. -/

/-- A module whose resources are all its own. -/
def noDriver (init : Proc Resource) (exit : List (Exit Resource)) : Kmod Resource where
  shared _ := true
  needs := needs
  init := init
  exit := exit
  driver := none

/-- `block_init`; `mem` is `dev`, `buffer` is `block_memory`. -/
def blockInit : Proc Resource :=
  get buffer (ret enomem) <|
  get mem (put buffer <| ret enomem) <|
  get blkdev (put mem <| put buffer <| ret enomem) <|
  get tagSet (put blkdev <| put mem <| put buffer <| ret enomem) <|
  get disk (put tagSet <| put blkdev <| put mem <| put buffer <| ret enomem) <|
  get diskAdded (put disk <| put tagSet <| put blkdev <| put mem <| put buffer <|
    ret enomem) <|
  ret zero

namespace Mydevice

/-- `mydev_init` of `mydevice/mydevice/my_device.c`. The bus is another module's,
which stays loaded as long as this one is. -/
def mydevInit : Proc Resource := get childDevice (ret errno) <| ret zero

/-- `mydev_exit` of `mydevice/mydevice/my_device.c`. -/
def mydevExit : List (Exit Resource) := [.put childDevice]

end Mydevice

/-! ## The modules that put everything back

For these the checks of `Lifecycle` succeed on every path, so every run is clean.
A test device is the one thing a module does without: `myalarminit` goes on, and
returns 0, when it cannot register its own. -/

universe u

variable {δ : Type u} [DecidableEq δ]

/-- `mysensor_probe`, whose node needs the class that `mysensor_init` has created. -/
def mysensorProbe : Proc Resource :=
  devm mem (ret enomem) <|
  get cdev (ret (const (-1))) <|
  get node (put cdev <| ret errno) <|
  check (put node <| put cdev <| ret enodev) <|          -- platform_get_resource
  devm regs (put node <| put cdev <| ret errno) <|
  check (put node <| put cdev <| ret enodev) <|          -- platform_get_irq
  devm irq (put node <| put cdev <| ret errno) <|
  ret zero

/-- `mysensor_remove`, which destroys the node through its class. -/
def mysensorRemove : List Resource := [node, cdev]

/-- `mysensor_init` after `alloc_chrdev_region`, whose result it does not look at. -/
def mysensorInitClass : Proc Resource :=
  get cls (put region <| ret errno) <|
  get driver (ret errno) <|
  ret zero

/-- `mysensor_init`: the device numbers, the class and the driver. -/
def mysensorInit : Proc Resource := get region mysensorInitClass mysensorInitClass

/-- `mysensor_exit`: it destroys the class first, and unregisters the driver after it. -/
def mysensorExit : List (Exit Resource) := [.put cls, .put region, .unregister driver]

/-- `mysensor.c`: its driver and its functions. -/
def mysensor : Kmod Resource where
  shared := ofModule
  needs := needs
  init := mysensorInit
  exit := mysensorExit
  driver := some ⟨mysensorProbe, mysensorRemove⟩

/-- The device numbers were reserved, and with the class there the driver was
registered. -/
def MysensorLoads (p : Path Resource) : Prop :=
  region ∈ p.vars ∧ (cls ∈ p.vars → driver ∈ p.vars)

theorem mysensor_checked : mysensor.Sound ∧
    ∀ p ∈ mysensor.initPaths, MysensorLoads p ↔ mysensor.InitFits p := by
  unfold MysensorLoads
  decide +kernel

theorem mysensor_judged : mysensor.Judged δ MysensorLoads False where
  ways := mysensor_checked.2
  fits h := h.elim
  fails _ s vars order hs hloaded hperm hne := by
    obtain ⟨b, order, rfl⟩ := List.exists_cons_of_ne_nil hne
    have hclean := hs.clean
    rw [Kmod.Clean, Kmod.holds, hloaded] at hclean
    -- the class is freed, and then used to destroy the node of the first device
    refine not_owned_append (r := (cls, none)) (e := .freed) (u := .used) hclean ?_ ?_
      (Or.inl rfl) (by decide)
    · exact List.mem_append_left _ (List.mem_map_of_mem (by decide : cls ∈ [cls, region, driver]))
    · exact ⟨_, rfl⟩

/-- **`mysensor`.** A run is clean exactly when each `mysensor_init` got its
device numbers and, once it had its class, registered the driver, and no device
is bound at `mysensor_exit`. -/
theorem mysensor_clean_iff {as : List (Act Resource δ)} {s : State Resource δ}
    (hexec : (mysensor.system δ).exec (mysensor.system δ).init as = some s) :
    (mysensor.system δ).Along (fun _ _ t => mysensor.Clean t) (mysensor.system δ).init as ↔
      (mysensor.system δ).Run (fun _ a => mysensor.Ok MysensorLoads False a) as :=
  Kmod.clean_iff mysensor_checked.1 mysensor_judged hexec

/-- A run with the device removed before `mysensor_exit`, so that it is clean. -/
theorem mysensor_clean_iff_run : (mysensor.system ℕ).Along (fun _ _ t => mysensor.Clean t)
    (mysensor.system ℕ).init
      [Act.load [true, true, true], Act.probe 0 [true, true, true, true, true, true, true],
        Act.remove 0, Act.unload []] :=
  (mysensor_clean_iff rfl).mpr ⟨_, rfl, ⟨by decide, fun _ => by decide⟩, _, rfl, trivial,
    _, rfl, trivial, _, rfl, Or.inr rfl, trivial⟩

/-! ## `practice/myblkdev`

`myblkexit` empties the set of minors before it unregisters the driver, so that a device
still bound gives its minor back a second time. -/

/-- `myblkprobe`, with the shared area and its timer. -/
def myblkprobe : Proc Resource :=
  devm mem (ret enomem) <|
  get minor (ret errno) <|
  get cdev (put minor <| ret errno) <|
  get node (put cdev <| put minor <| ret errno) <|
  get mapArea (put node <| put cdev <| put minor <| ret enomem) <|
  set timer <|
  ret zero

/-- `myblkremove`, which deletes the timer before it frees the area. -/
def myblkremove : List Resource := [timer, node, cdev, minor, mapArea]

/-- `myblkinit`, with `TESTDRIVER` or without. -/
def myblkinit (testdriver : Bool) : Proc Resource :=
  get region (ret errno) <|
  get cls (put region <| ret errno) <|
  get driver (put cls <| put region <| ret errno) <|
  if testdriver then
    get testdev (ret zero) <|
    get testdevAdded (put testdev <| null testdev <| ret zero) <|
    ret zero
  else ret zero

/-- `myblkexit`: the minors, and the driver after them. -/
def myblkexit : List (Exit Resource) :=
  [unregisterTestdev, .putAll minor, .unregister driver, .put cls, .put region]

/-- `myblkdev.c`: its driver, and its functions with the test device or without. -/
def myblkdev (testdriver : Bool) : Kmod Resource where
  shared := ofModule
  needs := needs
  init := myblkinit testdriver
  exit := myblkexit
  driver := some ⟨myblkprobe, myblkremove⟩

theorem myblkdev_checked : ∀ testdriver, (myblkdev testdriver).Sound ∧
    ∀ p ∈ (myblkdev testdriver).initPaths, (myblkdev testdriver).InitFits p := by
  decide +kernel

/-- With a device bound `myblkexit` frees its minor twice: with all others, and
when it is removed. -/
theorem myblkexit_minor (testdriver : Bool) (vars : List Resource) {b : δ × List Resource}
    {order : List (δ × List Resource)} (hb : b.1 ∉ order.map Prod.fst) :
    ∃ us, usesOf (minor, some b.1) ((myblkdev testdriver).exitMarks vars myblkexit (b :: order)) =
      .freed :: .freed :: us := by
  have htest : usesOf (minor, some b.1) ((myblkdev testdriver).on (none : Option δ)
      (if testdev ∈ vars then releases (myblkdev testdriver).needs [testdevAdded, testdev]
        else [])) = [] := by
    split <;> rfl
  have hothers : usesOf (minor, some b.1)
      (order.map fun c => ⟨.freed, (myblkdev testdriver).place (some c.1) minor⟩) = [] := by
    refine usesOf_eq_nil fun a ha heq => ?_
    obtain ⟨c, hc, rfl⟩ := List.mem_map.mp ha
    exact hb (Option.some.inj (Prod.mk.inj heq).2 ▸ List.mem_map_of_mem hc)
  have hbefore : usesOf (minor, some b.1)
      ((myblkdev testdriver).on (some b.1) (releases needs [timer, node, cdev])) = [] := rfl
  obtain ⟨tail, htail⟩ : ∃ tail, (myblkdev testdriver).exitMarks vars
      [.unregister driver, .put cls, .put region] (b :: order) =
      (myblkdev testdriver).on (some b.1) (releases needs [timer, node, cdev]) ++
        ⟨.freed, (minor, some b.1)⟩ :: tail := ⟨_, rfl⟩
  have hfreed : ∀ l : List (Mark (Resource × Option δ)), usesOf (minor, some b.1)
      (⟨.freed, (minor, some b.1)⟩ :: l) = .freed :: usesOf (minor, some b.1) l :=
    fun l => usesOf_cons_of_eq rfl
  refine ⟨usesOf (minor, some b.1) tail, ?_⟩
  change usesOf _ (_ ++ ((⟨.freed, (minor, some b.1)⟩ :: order.map _) ++
    Kmod.exitMarks _ vars _ _)) = _
  rw [htail, usesOf_append, htest, List.nil_append, usesOf_append, usesOf_append, hbefore,
    hfreed, hfreed, hothers]
  rfl

theorem myblkdev_judged (testdriver : Bool) :
    (myblkdev testdriver).Judged δ (fun _ => True) False where
  ways p hp := iff_of_true trivial ((myblkdev_checked testdriver).2 p hp)
  fits h := h.elim
  fails _ s vars order hs hloaded hperm hne := by
    obtain ⟨b, order, rfl⟩ := List.exists_cons_of_ne_nil hne
    have hclean := hs.clean
    rw [Kmod.Clean, Kmod.holds, hloaded] at hclean
    -- the minor of the first device is freed with all others, and then by its removal
    refine not_owned_append (r := (minor, some b.1)) (e := .freed) (u := .freed) hclean ?_ ?_
      (Or.inl rfl) (by decide)
    · refine List.mem_append_right _ (List.mem_flatMap.mpr ⟨b, hperm.mem_iff.mp (by simp), ?_⟩)
      exact List.mem_map_of_mem (List.mem_append_left _ (by decide : minor ∈ myblkremove))
    · exact myblkexit_minor testdriver vars (hs.bound.perm hperm).notMem

/-- **`myblkdev`.** A run is clean exactly when no device is bound at
`myblkexit`, apart from the module's own test device, which it removes first. -/
theorem myblkdev_clean_iff (testdriver : Bool) {as : List (Act Resource δ)}
    {s : State Resource δ} (hexec : ((myblkdev testdriver).system δ).exec
      ((myblkdev testdriver).system δ).init as = some s) :
    ((myblkdev testdriver).system δ).Along (fun _ _ t => (myblkdev testdriver).Clean t)
        ((myblkdev testdriver).system δ).init as ↔
      ((myblkdev testdriver).system δ).Run
        (fun _ a => (myblkdev testdriver).Ok (fun _ => True) False a) as :=
  Kmod.clean_iff (myblkdev_checked testdriver).1 (myblkdev_judged testdriver) hexec

/-- With the device still bound at `myblkexit` the run is not clean. -/
theorem myblkdev_clean_iff_bound : ¬ ((myblkdev false).system ℕ).Along
    (fun _ _ t => (myblkdev false).Clean t) ((myblkdev false).system ℕ).init
      [Act.load [true, true, true], Act.probe 0 [true, true, true, true, true],
        Act.unload [(0, [mem])]] := by
  intro h
  obtain ⟨_, -, -, _, -, -, _, -, hok, -⟩ := (myblkdev_clean_iff false rfl).mp h
  exact hok.elim id (List.cons_ne_nil _ _)

/-! ## Modules with a condition

The `init` functions here leave something behind on some path, or go on with
something that is not there, and their `exit` functions fit the other paths only.
Each module comes with the ways through its `init` after which it is as it should
be, and a run is clean exactly as long as `init` goes one of these ways. -/

/-- `mem_alloc_init` of `mymem.c`: the structure and four buffers, each got in another
way. An error path gives back those before it. -/
def memAllocInit : Proc Resource :=
  get mem (ret enomem) <|
  get buffer (put mem <| ret enomem) <|
  get vmallocBuffer (put buffer <| put mem <| ret enomem) <|
  get allocPagesBuffer (put vmallocBuffer <| put buffer <| put mem <| ret enomem) <|
  get getFreePagesBuffer (put allocPagesBuffer <| put vmallocBuffer <| put buffer <| put mem <|
    ret enomem) <|
  ret zero

/-- `mem_alloc_exit`: its `drv` is a local variable and `NULL`, so nothing is freed. -/
def memAllocExit : List (Exit Resource) := []

/-- The labels `r_device` and `r_class` of `mycdev_init`. -/
def mycdevInitRDevice : Proc Resource := put cls <| put region <| ret (const (-1))

/-- `mycdev_init` of `charrw.c`, with its labels. -/
def mycdevInit : Proc Resource :=
  get region (ret (const (-1))) <|
  get cdev (put region <| ret (const (-1))) <|
  get cls (put region <| ret (const (-1))) <|
  get node mycdevInitRDevice <|
  get buffer mycdevInitRDevice <|
  ret zero

/-- `mycdev_exit`, which releases everything that a complete `mycdev_init` has. -/
def mycdevExit : List (Exit Resource) := [.put buffer, .put node, .put cls, .put cdev, .put region]

/-- `my_bus_init` of `my_bus.c`. -/
def myBusInit : Proc Resource :=
  get bus (ret errno) <|
  get descr (ret errno) <|
  get pad (ret errno) <|
  ret zero

/-- `my_bus_exit`: the files of the bus are removed before the bus. -/
def myBusExit : List (Exit Resource) := [.put descr, .put pad, .put bus]

namespace Mydevice

/-- `my_bus_init` of `mydevice/mybus/my_bus_raw.c` and `mydriver/mybus/my_bus_raw.c`,
which registers the device of the bus in any case. What it returns is the two
results or-ed, so negative if one is. -/
def myBusInit : Proc Resource :=
  get bus (get busDevice (ret errno) <| ret errno) <|
  get busDevice (ret errno) <|
  ret zero

/-- `my_bus_exit` of the same files. -/
def myBusExit : List (Exit Resource) := [.put bus, .put busDevice]

end Mydevice

namespace Mydriver

/-- `mydev_init` of `mydriver/mydevice/my_device.c`, which only logs that the device
could not be registered. -/
def mydevInit : Proc Resource :=
  get childDevice (get driver (ret errno) <| ret zero) <|
  get driver (ret errno) <|
  ret zero

/-- `mydev_exit` of `mydriver/mydevice/my_device.c`. -/
def mydevExit : List (Exit Resource) := [.put childDevice, .put driver]

end Mydriver

/-- `procfs_init`: a directory, and a file in it. -/
def procfsInit : Proc Resource :=
  get procDir (ret (const (-1))) <|
  get procFile (ret enomem) <|
  ret zero

/-- `procfs_exit`: `proc_remove` removes the directory with what is in it. -/
def procfsExit : List (Exit Resource) := [.put procFile, .put procDir]

/-- `chardev_init` of `chardev.c` and `chardev2_init` of `charioctl.c`, which do
not look at the results of `class_create` and `device_create`. -/
def chardevInit : Proc Resource :=
  get region (ret errno) <|
  get cls (get node (ret zero) <| ret zero) <|
  get node (ret zero) <|
  ret zero

/-- `chardev_exit` and `chardev2_exit`; `device_destroy` looks for the node. -/
def chardevExit : List (Exit Resource) := [.putIf node [node], .put cls, .put region]

/-- Once `first` is acquired, so is `last`. -/
def Both (first last : Resource) (p : Path Resource) : Bool :=
  decide (first ∈ p.vars → last ∈ p.vars)

/-- It was acquired on the way, and may be released again. -/
def Got (r : Resource) (p : Path Resource) : Bool := decide (⟨.obtained, r⟩ ∈ p.marks)

/-- Once the driver was registered, both test devices were allocated. -/
def TestdevsAllocated (p : Path Resource) : Bool :=
  decide (Got driver p → Got testdev p ∧ Got testdev2 p)

/-- The modules with the ways through `init` that are in order. -/
def conditional : List (Kmod Resource × (Path Resource → Bool)) :=
  [(myconfig true, Both testdev2 testdev2Added),
    (mydevice true, TestdevsAllocated),
    (noDriver memAllocInit memAllocExit, fun p => p.value ≠ .zero),
    (noDriver mycdevInit mycdevExit, Both cdev buffer),
    (noDriver myBusInit myBusExit, Both bus pad),
    (noDriver Mydevice.myBusInit Mydevice.myBusExit,
      fun p => Both bus busDevice p && Both busDevice bus p),
    (noDriver Mydriver.mydevInit Mydriver.mydevExit,
      fun p => Both childDevice driver p && Both driver childDevice p),
    (noDriver procfsInit procfsExit, Both procDir procFile),
    (noDriver chardevInit chardevExit, Both region cls)]

theorem conditional_checked : ∀ e ∈ conditional, e.1.Sound ∧
    (∀ p ∈ e.1.initPaths, e.2 p = true ↔ e.1.InitFits p) ∧
    ∀ q ∈ e.1.loads, e.1.ExitFits q.vars true e.1.exit (e.1.loadedHeld q.vars) := by
  decide +kernel

/-- **Clean under a condition.** A run of one of these modules is clean exactly when
each `init` went one of the named ways: `myintfinit` with its second test device
added or not allocated, `mydevinit` with both test devices allocated once its driver
was registered, `mem_alloc_init` failed, `mycdev_init` with its buffer once the device
was added, `my_bus_init` with its files once the bus was registered, or with the bus
and its device or neither, `mydev_init` with the device and the driver or neither,
`procfs_init` with its file once the directory was there, and the `init` functions of
the two character devices with their class once the numbers were registered. -/
theorem conditional_clean_iff {M : Kmod Resource} {ways : Path Resource → Bool}
    (hM : (M, ways) ∈ conditional) {as : List (Act Resource δ)} {s : State Resource δ}
    (hexec : (M.system δ).exec (M.system δ).init as = some s) :
    (M.system δ).Along (fun _ _ t => M.Clean t) (M.system δ).init as ↔
      (M.system δ).Run (fun _ a => M.Ok (fun p => ways p = true) True a) as := by
  obtain ⟨hsound, hways, hexit⟩ := conditional_checked _ hM
  exact Kmod.clean_iff hsound ⟨hways, fun _ => hexit, fun h => absurd trivial h⟩ hexec

/-- When the first test device of `mydevice.c` cannot be allocated, what is added is
none. -/
theorem conditional_clean_iff_mydevice :
    ¬ ((mydevice true).system ℕ).Along (fun _ _ t => (mydevice true).Clean t)
      ((mydevice true).system ℕ).init [Act.load [true, true, true, false]] := by
  intro h
  obtain ⟨_, -, hok, -⟩ :=
    (conditional_clean_iff (List.mem_cons_of_mem _ List.mem_cons_self) rfl).mp h
  have hway : TestdevsAllocated ((mydevice true).runInit [true, true, true, false]) = true := hok
  exact absurd hway (by decide)

end Modules

end KernelDrvLearn
