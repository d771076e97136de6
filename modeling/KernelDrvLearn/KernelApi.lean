import KernelDrvLearn.Memory
import Mathlib.Data.Finset.Erase
import Mathlib.Data.Finset.Insert
import Mathlib.Data.List.Basic

/-!
# The kernel around a driver

The numbers a driver returns to the kernel, its copies from user space, and the
services a character driver of platform devices uses, as far as they can be told
apart by what is registered: the range of device numbers, the class, the driver itself, the
character devices and the devices of the class. Whether an acquisition succeeds
is the caller's argument `ok`.

A device is looked up through its class, so without the class none can be
created, and destroying one finds nothing. Such calls are counted.
-/

namespace KernelDrvLearn

/-! ## What a driver returns

A system call of a driver returns a count, a mask, or a negative error number. The numbers
are those of the kernel's `errno.h` and `poll.h`, negated where the kernel negates them.
-/

/-- `-EPERM`, operation not permitted: the caller lacks a right, whatever the arguments
are. -/
abbrev eperm : Int := -1

/-- `-ENOENT`, no such entry. -/
abbrev enoent : Int := -2

/-- `-EAGAIN`, try again: for a nonblocking call that would have to sleep. -/
abbrev eagain : Int := -11

/-- `-ENOMEM`, out of memory, where an allocation has returned `NULL`. -/
abbrev enomem : Int := -12

/-- `-EFAULT`, a copy from or to user space that met a bad address. -/
abbrev efault : Int := -14

/-- `-EBUSY`, in use by somebody else. -/
abbrev ebusy : Int := -16

/-- `-ENODEV`, no such device, or none any more. -/
abbrev enodev : Int := -19

/-- `-EINVAL`, invalid argument: what was passed does not parse, or does not fit. -/
abbrev einval : Int := -22

/-- `-ERANGE`, a number that does not fit. -/
abbrev erange : Int := -34

/-- `-ECONNRESET`, which ends a URB that was unlinked. -/
abbrev econnreset : Int := -104

/-- `-ESHUTDOWN`, which ends a URB of a device that is gone. -/
abbrev eshutdown : Int := -108

/-- `-ERESTARTSYS`, a wait that a signal interrupted. -/
abbrev erestartsys : Int := -512

/-- `POLLIN`, there is something to read, so that a `read` would not sleep. -/
abbrev pollin : BitVec 32 := 0x0001

/-- `POLLPRI`, there is something urgent, such as an alarm. -/
abbrev pollpri : BitVec 32 := 0x0002

/-- `POLLRDNORM`, there is ordinary data to read. -/
abbrev pollrdnorm : BitVec 32 := 0x0040

/-- `irqreturn_t`: what an interrupt handler tells the kernel about the interrupt. -/
inductive Irqreturn where
  /-- `IRQ_NONE` -/
  | none
  /-- `IRQ_WAKE_THREAD` -/
  | wakeThread
  /-- `IRQ_HANDLED` -/
  | handled
  deriving DecidableEq

/-! ## Copies from user space

A copy from user space may fail in the middle. It reports how many bytes are missing, and
those before them are there already, which is the state a driver that gives up leaves
behind. -/

/-- What `copy_from_user` leaves in a destination of `n` bytes when it cannot
copy the last `uncopied` of them: `rest` is what stands there (zeros, as the
kernel documents it; no driver relies on that). -/
def copyFromUser (user : ℕ → Byte) (src n uncopied : ℕ) (rest : ℕ → Byte) : List Byte :=
  Mem.load user src (n - uncopied) ++ Mem.load rest (n - uncopied) (n - (n - uncopied))

@[simp] theorem length_copyFromUser (user : ℕ → Byte) (src n uncopied : ℕ) (rest : ℕ → Byte) :
    (copyFromUser user src n uncopied rest).length = n := by
  simp [copyFromUser]

/-- A copy that leaves nothing uncopied is the user's bytes, with what they do not cover
as it was. -/
theorem copyFromUser_of_min {n uncopied : ℕ} (h : min uncopied n = 0) (user : ℕ → Byte) (src : ℕ)
    (rest : ℕ → Byte) : copyFromUser user src n uncopied rest = Mem.load user src n := by
  rcases Nat.min_eq_zero_iff.mp h with rfl | rfl <;> simp [copyFromUser]

/-! ## Device numbers and registrations

What a driver registers in order to be found: a range of device numbers, a class,
character devices and the devices of the class. The kernel's own bookkeeping behind these
is left out; what matters is which of them are there, and which calls succeed. -/

/-- A device number, `dev_t`, with the minor in its 20 low bits. -/
abbrev DevT := ℕ

namespace DevT

/-- `MKDEV`, the device number of a major and a minor. -/
def mkdev (major minor : ℕ) : DevT := major * 1048576 + minor

/-- `MAJOR`, the upper part of a device number. -/
def major (dev : DevT) : ℕ := dev / 1048576

/-- `MINOR`, the lower part of a device number. -/
def minor (dev : DevT) : ℕ := dev % 1048576

theorem minor_mkdev {major minor : ℕ} (h : minor < 1048576) :
    (mkdev major minor).minor = minor := by
  rw [DevT.minor, mkdev, Nat.mul_add_mod_self_right, Nat.mod_eq_of_lt h]

end DevT

/-- `ida_alloc_range` from 0 to `max - 1`: the lowest free number. -/
def idaAllocRange (ida : Finset ℕ) (max : ℕ) : Option ℕ :=
  (List.range max).find? fun i => i ∉ ida

/-- What `ida_alloc_range` returns was free, and is in the range. -/
theorem idaAllocRange_some {ida : Finset ℕ} {max i : ℕ} (h : idaAllocRange ida max = some i) :
    i < max ∧ i ∉ ida := by
  have hfree := List.find?_some h
  exact ⟨List.mem_range.mp (List.mem_of_find?_eq_some h), of_decide_eq_true hfree⟩

/-- What is registered with the kernel at the moment, by this driver. -/
structure Registry where
  /-- the range of device numbers, `alloc_chrdev_region` -/
  region : Bool
  /-- the class -/
  cls : Bool
  /-- the driver -/
  driver : Bool
  /-- the numbers of the character devices, `cdev_add` -/
  cdevs : Finset DevT
  /-- the numbers of the devices of the class -/
  devices : Finset DevT
  /-- record: how often a device was created or destroyed with no class -/
  stray : ℕ

namespace Registry

/-- Nothing is registered, as before the module is loaded. -/
def empty : Registry := ⟨false, false, false, ∅, ∅, 0⟩

/-- `cdev_add`: from here on the device number can be opened. -/
def cdevAdd (k : Registry) (dev : DevT) : Registry := { k with cdevs := insert dev k.cdevs }

/-- `cdev_del`: from here on it cannot be opened any more, and the files that are open
stay open. -/
def cdevDel (k : Registry) (dev : DevT) : Registry := { k with cdevs := k.cdevs.erase dev }

/-- `device_create`: the registrations, and whether it succeeded. -/
def deviceCreate (k : Registry) (dev : DevT) (ok : Bool) : Registry × Bool :=
  if k.cls = true then
    if ok = true then ({ k with devices := insert dev k.devices }, true) else (k, false)
  else ({ k with stray := k.stray + 1 }, false)

/-- `device_destroy`, which goes through the class; without one it is counted as stray. -/
def deviceDestroy (k : Registry) (dev : DevT) : Registry :=
  if k.cls = true then { k with devices := k.devices.erase dev }
  else { k with stray := k.stray + 1 }

/-- `class_destroy`, which leaves the devices of the class behind. -/
def classDestroy (k : Registry) : Registry := { k with cls := false }

/-- `unregister_chrdev_region`, the last thing a driver gives back. -/
def unregisterChrdevRegion (k : Registry) : Registry := { k with region := false }

variable {k : Registry}

/-- With the class there, `device_create` goes by its outcome. -/
theorem deviceCreate_cls (h : k.cls = true) (dev : DevT) (ok : Bool) :
    k.deviceCreate dev ok =
      if ok = true then ({ k with devices := insert dev k.devices }, true) else (k, false) :=
  if_pos h

theorem deviceDestroy_cls (h : k.cls = true) (dev : DevT) :
    k.deviceDestroy dev = { k with devices := k.devices.erase dev } :=
  if_pos h

theorem deviceDestroy_noCls (h : k.cls = false) (dev : DevT) :
    k.deviceDestroy dev = { k with stray := k.stray + 1 } := by
  rw [deviceDestroy, h]
  rfl

end Registry

end KernelDrvLearn
