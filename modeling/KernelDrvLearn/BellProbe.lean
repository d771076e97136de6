import KernelDrvLearn.Held
import KernelDrvLearn.KernelApi
import KernelDrvLearn.Transition

/-!
# Binding `myfakebell` devices

`myfbprobe` and `myfbremove` of `practice/myfakebell/myfakebell.c` with all they
acquire and give back, the `IRQ_ENABLE` register of each device included. The
module is loaded; the driver core calls `probe` for a device that is not bound
and `remove` for one that is.

Minors, character devices, devices of the class and memory are always one per
bound device (`Driver.Inv`). The register is not put back: `mb_disable_irq` is
called nowhere, neither when a probe fails after `mb_enable_irq` nor by
`myfbremove`, and these are the only ways to leave a device enabled that is not
bound (`bell_restored_iff`).
-/

namespace KernelDrvLearn

namespace BellProbe

/-- `MAX_DEV_NUM`, the number of minors there are. -/
abbrev maxDevNum : ℕ := 16

/-- `struct myfbdev`. Its character device and its device of the class are known
by `devn`. -/
structure Myfbdev where
  /-- `pdev` -/
  pdev : ℕ
  /-- `minor` -/
  minor : ℕ
  /-- `devn` -/
  devn : DevT
  deriving DecidableEq

/-- The driver, the kernel around it and the devices. -/
structure Driver where
  /-- `minorconf` -/
  minorconf : Finset ℕ
  /-- `devnum` -/
  devnum : DevT
  /-- what is registered -/
  kernel : Registry
  /-- how many `struct myfbdev` are allocated -/
  allocated : ℕ
  /-- the register `IRQ_ENABLE` of each device -/
  irqEnable : ℕ → BitVec 32
  /-- the bound devices: their `platform_get_drvdata` -/
  bound : List Myfbdev

/-- The module is loaded, with this `devnum`. -/
def loaded (devnum : DevT) : Driver where
  minorconf := ∅
  devnum := devnum
  kernel := ⟨true, true, true, ∅, ∅, 0⟩
  allocated := 0
  irqEnable := fun _ => 0
  bound := []

/-- What the acquisitions of a probe return, in the order in which it makes them. -/
structure Acquire where
  /-- does `kzalloc` succeed? -/
  kzalloc : Bool
  /-- does `ida_alloc_range` find memory? -/
  idaAllocRange : Bool
  /-- `cdev_add` -/
  cdevAdd : Int
  /-- the error of `device_create`, 0 if there is none -/
  deviceCreate : Int
  /-- does `platform_get_resource` succeed? -/
  getResource : Bool
  /-- the error of `devm_ioremap_resource`, 0 if there is none -/
  ioremapResource : Int
  /-- `platform_get_irq` -/
  getIrq : Int
  /-- `devm_request_threaded_irq` -/
  requestIrq : Int

/-- `ida_alloc_range(&minorconf, 0, MAX_DEV_NUM - 1, GFP_KERNEL)`. -/
def allocMinor (s : Driver) (ok : Acquire) : Option ℕ :=
  if ok.idaAllocRange = true then idaAllocRange s.minorconf maxDevNum else none

/-- `mb_enable_irq(&mydev->mybell)`, which sets the register of this device. -/
def Driver.mbEnableIrq (s : Driver) (pdev : ℕ) : Driver :=
  { s with irqEnable := Function.update s.irqEnable pdev 1 }

/-- From `ida_error` on: the memory is freed. -/
def Driver.idaError (s : Driver) : Driver := { s with allocated := s.allocated - 1 }

/-- From `cdevadd_error` on: the minor is given back. -/
def Driver.cdevaddError (s : Driver) (minor : ℕ) : Driver :=
  { s with minorconf := s.minorconf.erase minor }.idaError

/-- From `cdevcreate_error` on: the character device is deleted. -/
def Driver.cdevcreateError (s : Driver) (minor : ℕ) (devn : DevT) : Driver :=
  { s with kernel := s.kernel.cdevDel devn }.cdevaddError minor

/-- From `res_error` on: the device of the class is destroyed. -/
def Driver.resError (s : Driver) (minor : ℕ) (devn : DevT) : Driver :=
  { s with kernel := s.kernel.deviceDestroy devn }.cdevcreateError minor devn

/-- `myfbprobe`: the state it leaves and the value it returns. From `mb_enable_irq` on a
failure goes to the same label as before it, and nothing there disables the interrupt. -/
def myfbprobe (s : Driver) (pdev : ℕ) (ok : Acquire) : Driver × Int :=
  if ok.kzalloc = false then (s, enomem)
  else
    let s := { s with allocated := s.allocated + 1 }
    match allocMinor s ok with
    | none => (s.idaError, enomem)
    | some minor =>
      let s := { s with minorconf := insert minor s.minorconf }
      let devn := DevT.mkdev s.devnum.major minor
      if ok.cdevAdd ≠ 0 then (s.cdevaddError minor, ok.cdevAdd)
      else
        let s := { s with kernel := s.kernel.cdevAdd devn }
        let res := s.kernel.deviceCreate devn (ok.deviceCreate = 0)
        let s := { s with kernel := res.1 }
        if res.2 = false then (s.cdevcreateError minor devn, ok.deviceCreate)
        else if ok.getResource = false then (s.resError minor devn, einval)
        else if ok.ioremapResource ≠ 0 then (s.resError minor devn, ok.ioremapResource)
        else
          let s := s.mbEnableIrq pdev
          if ok.getIrq < 0 then (s.resError minor devn, ok.getIrq)
          else if ok.requestIrq ≠ 0 then (s.resError minor devn, ok.requestIrq)
          else ({ s with bound := ⟨pdev, minor, devn⟩ :: s.bound }, 0)

/-- `myfbremove`, and the driver core unbinds the device. -/
def myfbremove (s : Driver) (mydev : Myfbdev) : Driver :=
  let s := { s with kernel := s.kernel.deviceDestroy mydev.devn }
  let s := { s with kernel := s.kernel.cdevDel mydev.devn }
  let s := { s with minorconf := s.minorconf.erase mydev.minor }
  let s := { s with allocated := s.allocated - 1 }
  { s with bound := s.bound.erase mydev }

/-- A call of the driver core. -/
inductive Call where
  /-- `myfbprobe` of a device that is not bound -/
  | probe (pdev : ℕ) (ok : Acquire)
  /-- `myfbremove` of a bound device -/
  | remove (pdev : ℕ)

/-- One call of the driver core, which probes unbound devices and removes bound ones. -/
def call (s : Driver) : Call → Option Driver
  | .probe pdev ok =>
    if ∀ mydev ∈ s.bound, mydev.pdev ≠ pdev then some (myfbprobe s pdev ok).1 else none
  | .remove pdev => (s.bound.find? fun mydev => mydev.pdev = pdev).map (myfbremove s)

/-- The driver core and the driver. -/
def core (devnum : DevT) : Lts Driver Call where
  init := loaded devnum
  step := call

/-! ## What should hold

A device that is not bound holds nothing: the driver has no minor, character device,
device of the class or memory for it, and its interrupt is disabled, as it was before the
probe. -/

/-- All is restored but for what the bound devices hold. -/
structure Driver.Restored (s : Driver) : Prop where
  /-- one minor for each bound device -/
  minors : s.minorconf.card = s.bound.length ∧ ∀ mydev ∈ s.bound, mydev.minor ∈ s.minorconf
  /-- no two the same -/
  distinct : (s.bound.map Myfbdev.minor).Nodup
  /-- one character device for each -/
  cdevs : s.kernel.cdevs.card = s.bound.length ∧ ∀ mydev ∈ s.bound, mydev.devn ∈ s.kernel.cdevs
  /-- one device of the class for each -/
  devices : s.kernel.devices.card = s.bound.length ∧
    ∀ mydev ∈ s.bound, mydev.devn ∈ s.kernel.devices
  /-- one `struct myfbdev` for each -/
  allocated : s.allocated = s.bound.length
  /-- and the interrupt of every other device is disabled -/
  disabled : ∀ pdev, (∀ mydev ∈ s.bound, mydev.pdev ≠ pdev) → s.irqEnable pdev = 0

/-- The probe gets as far as `mb_enable_irq`. -/
structure Acquire.Enables (ok : Acquire) (s : Driver) : Prop where
  kzalloc : ok.kzalloc = true
  minor : (allocMinor s ok).isSome
  cdevAdd : ok.cdevAdd = 0
  deviceCreate : ok.deviceCreate = 0
  getResource : ok.getResource = true
  ioremapResource : ok.ioremapResource = 0

/-- The call leaves no interrupt enabled: it is no removal, and no probe that
fails after `mb_enable_irq`. -/
def Call.Undone (s : Driver) : Call → Prop
  | .probe _ ok => ok.Enables s → 0 ≤ ok.getIrq ∧ ok.requestIrq = 0
  | .remove _ => False

/-! ## What is held

The books of the driver, apart from the interrupt: they are right whatever happens, since
the error labels of the probe give back in the reverse order what it has taken, and the
removal gives back all of it. -/

/-- Every bound device holds its minor, its character device, its device of the
class and its memory, and nothing else is held. -/
structure Driver.Inv (s : Driver) : Prop where
  minors : Held Myfbdev.minor s.bound s.minorconf
  below : ∀ i ∈ s.minorconf, i < maxDevNum
  cdevs : Held Myfbdev.devn s.bound s.kernel.cdevs
  devices : Held Myfbdev.devn s.bound s.kernel.devices
  number : ∀ mydev ∈ s.bound, mydev.devn = DevT.mkdev s.devnum.major mydev.minor
  allocated : s.allocated = s.bound.length
  pdevs : (s.bound.map Myfbdev.pdev).Nodup
  cls : s.kernel.cls = true

theorem Driver.Inv.loaded (devnum : DevT) : (loaded devnum).Inv where
  minors := Held.nil
  below := fun _ hi => absurd hi (Finset.notMem_empty _)
  cdevs := Held.nil
  devices := Held.nil
  number := fun _ hbound => absurd hbound List.not_mem_nil
  allocated := rfl
  pdevs := List.nodup_nil
  cls := rfl

/-- The state a successful probe leaves, `minor` being the minor it takes. -/
def Driver.bind (s : Driver) (pdev minor : ℕ) : Driver :=
  let devn := DevT.mkdev s.devnum.major minor
  { s with
    minorconf := insert minor s.minorconf
    kernel := { s.kernel with
      cdevs := insert devn s.kernel.cdevs
      devices := insert devn s.kernel.devices }
    allocated := s.allocated + 1
    irqEnable := Function.update s.irqEnable pdev 1
    bound := ⟨pdev, minor, devn⟩ :: s.bound }

/-- The minor of a probe was free. -/
theorem allocMinor_some {s : Driver} {ok : Acquire} {minor : ℕ}
    (h : allocMinor s ok = some minor) : minor < maxDevNum ∧ minor ∉ s.minorconf := by
  rw [allocMinor] at h
  split at h
  case isTrue => exact idaAllocRange_some h
  case isFalse => cases h

/-- The device number of a free minor is free. -/
theorem Driver.Inv.free {s : Driver} (h : s.Inv) {minor : ℕ} (hlt : minor < maxDevNum)
    (hfree : minor ∉ s.minorconf) {live : Finset DevT} (hlive : Held Myfbdev.devn s.bound live) :
    DevT.mkdev s.devnum.major minor ∉ live := by
  intro hmem
  obtain ⟨mydev, hbound, hnum⟩ := List.mem_map.mp ((hlive.mem_iff _).mp hmem)
  have hbelow : mydev.minor < maxDevNum := h.below _ (h.minors.mem hbound)
  have heq : mydev.minor = minor := by
    have hminor := congrArg DevT.minor ((h.number mydev hbound).symm.trans hnum)
    rwa [DevT.minor_mkdev (hbelow.trans (by decide)),
      DevT.minor_mkdev (hlt.trans (by decide))] at hminor
  exact hfree (heq ▸ h.minors.mem hbound)

/-- The state in which a probe holds all but the interrupt. -/
def Driver.acquired (s : Driver) (minor : ℕ) (irqEnable : ℕ → BitVec 32) : Driver :=
  let devn := DevT.mkdev s.devnum.major minor
  { s with
    minorconf := insert minor s.minorconf
    kernel := { s.kernel with
      cdevs := insert devn s.kernel.cdevs
      devices := insert devn s.kernel.devices }
    allocated := s.allocated + 1
    irqEnable := irqEnable }

/-- `res_error` puts back all that a probe has acquired but the register. -/
theorem Driver.Inv.resError {s : Driver} (h : s.Inv) {minor : ℕ} (hlt : minor < maxDevNum)
    (hfree : minor ∉ s.minorconf) (irqEnable : ℕ → BitVec 32) :
    (s.acquired minor irqEnable).resError minor (DevT.mkdev s.devnum.major minor) =
      { s with irqEnable := irqEnable } := by
  have hcls : (s.acquired minor irqEnable).kernel.cls = true := h.cls
  rw [Driver.resError, Registry.deviceDestroy_cls hcls]
  simp only [Driver.acquired, Driver.cdevcreateError, Driver.cdevaddError, Driver.idaError,
    Registry.cdevDel, Nat.add_sub_cancel, Finset.erase_insert hfree,
    Finset.erase_insert (h.free hlt hfree h.cdevs),
    Finset.erase_insert (h.free hlt hfree h.devices)]

/-- **What a probe does.** It fails before `mb_enable_irq` and has put
everything back, or fails after it and has put back all but the register, or
binds the device. -/
theorem Driver.Inv.probe_cases {s : Driver} (h : s.Inv) (pdev : ℕ) (ok : Acquire) :
    (¬ ok.Enables s ∧ (myfbprobe s pdev ok).1 = s) ∨
      (ok.Enables s ∧ ¬ (0 ≤ ok.getIrq ∧ ok.requestIrq = 0) ∧
        (myfbprobe s pdev ok).1 = s.mbEnableIrq pdev) ∨
      (ok.Enables s ∧ (0 ≤ ok.getIrq ∧ ok.requestIrq = 0) ∧
        ∃ minor < maxDevNum, minor ∉ s.minorconf ∧
          myfbprobe s pdev ok = (s.bind pdev minor, 0)) := by
  rw [myfbprobe]
  by_cases hkzalloc : ok.kzalloc = false
  · refine Or.inl ⟨fun he => ?_, by rw [if_pos hkzalloc]⟩
    rw [he.kzalloc] at hkzalloc
    cases hkzalloc
  rw [if_neg hkzalloc]
  dsimp only
  -- before `mb_enable_irq` a failure takes back all there is
  rcases hida : allocMinor { s with allocated := s.allocated + 1 } ok with _ | minor
  · refine Or.inl ⟨fun he => ?_, ?_⟩
    · have hsome : (allocMinor { s with allocated := s.allocated + 1 } ok).isSome := he.minor
      rw [hida] at hsome
      cases hsome
    · simp only [Driver.idaError, Nat.add_sub_cancel]
  obtain ⟨hlt, hfree⟩ := allocMinor_some hida
  have hback := h.resError hlt hfree
  dsimp only
  by_cases hcdevAdd : ok.cdevAdd ≠ 0
  · refine Or.inl ⟨fun he => hcdevAdd he.cdevAdd, ?_⟩
    rw [if_pos hcdevAdd]
    simp only [Driver.cdevaddError, Driver.idaError, Nat.add_sub_cancel,
      Finset.erase_insert hfree]
  rw [if_neg hcdevAdd, Registry.deviceCreate_cls (by exact h.cls)]
  by_cases hcreate : ok.deviceCreate = 0
  case neg =>
    refine Or.inl ⟨fun he => hcreate he.deviceCreate, ?_⟩
    simp only [decide_eq_false hcreate, if_false, if_true, Driver.cdevcreateError,
      Driver.cdevaddError, Driver.idaError, Registry.cdevAdd, Registry.cdevDel, Nat.add_sub_cancel,
      Finset.erase_insert hfree, Finset.erase_insert (h.free hlt hfree h.cdevs), reduceCtorEq]
  rw [decide_eq_true hcreate, if_pos rfl]
  dsimp only
  rw [if_neg (by decide)]
  by_cases hres : ok.getResource = false
  · refine Or.inl ⟨fun he => ?_, ?_⟩
    · rw [he.getResource] at hres
      cases hres
    · rw [if_pos hres]
      exact hback s.irqEnable
  rw [if_neg hres]
  by_cases hioremap : ok.ioremapResource ≠ 0
  · refine Or.inl ⟨fun he => hioremap he.ioremapResource, ?_⟩
    rw [if_pos hioremap]
    exact hback s.irqEnable
  rw [if_neg hioremap]
  -- all calls up to `mb_enable_irq` have succeeded
  have henables : ok.Enables s :=
    ⟨Bool.eq_true_of_not_eq_false hkzalloc, Option.isSome_of_eq_some hida, not_not.mp hcdevAdd,
      hcreate, Bool.eq_true_of_not_eq_false hres, not_not.mp hioremap⟩
  -- from here on a failure leaves the register set
  by_cases hgetIrq : ok.getIrq < 0
  · refine Or.inr (Or.inl ⟨henables, fun hirq => absurd hirq.1 (Int.not_le.mpr hgetIrq), ?_⟩)
    rw [if_pos hgetIrq]
    exact hback _
  rw [if_neg hgetIrq]
  by_cases hrequest : ok.requestIrq ≠ 0
  · refine Or.inr (Or.inl ⟨henables, fun hirq => hrequest hirq.2, ?_⟩)
    rw [if_pos hrequest]
    exact hback _
  rw [if_neg hrequest]
  exact Or.inr (Or.inr ⟨henables, ⟨Int.not_lt.mp hgetIrq, not_not.mp hrequest⟩, minor, hlt, hfree,
    rfl⟩)

theorem Driver.Inv.bind {s : Driver} (h : s.Inv) {pdev minor : ℕ}
    (hpdev : ∀ mydev ∈ s.bound, mydev.pdev ≠ pdev) (hlt : minor < maxDevNum)
    (hfree : minor ∉ s.minorconf) : (s.bind pdev minor).Inv := by
  have hminors := h.minors.acquire (b := ⟨pdev, minor, DevT.mkdev s.devnum.major minor⟩) hfree
  have hcdevs := h.cdevs.acquire (b := ⟨pdev, minor, DevT.mkdev s.devnum.major minor⟩)
    (h.free hlt hfree h.cdevs)
  have hdevices := h.devices.acquire (b := ⟨pdev, minor, DevT.mkdev s.devnum.major minor⟩)
    (h.free hlt hfree h.devices)
  refine ⟨hminors, fun i hi => ?_, hcdevs, hdevices, fun mydev hbound => ?_,
    congrArg Nat.succ h.allocated, List.nodup_cons.mpr ⟨fun hmem => ?_, h.pdevs⟩, h.cls⟩
  · rcases Finset.mem_insert.mp hi with rfl | hi
    · exact hlt
    · exact h.below i hi
  · rcases List.mem_cons.mp hbound with rfl | hbound
    · rfl
    · exact h.number mydev hbound
  · obtain ⟨mydev, hbound, heq⟩ := List.mem_map.mp hmem
    exact hpdev mydev hbound heq

theorem Driver.Inv.remove {s : Driver} (h : s.Inv) {mydev : Myfbdev} (hbound : mydev ∈ s.bound) :
    (myfbremove s mydev).Inv := by
  have hkernel : (myfbremove s mydev).kernel = { s.kernel with
      cdevs := s.kernel.cdevs.erase mydev.devn
      devices := s.kernel.devices.erase mydev.devn } := by
    change (s.kernel.deviceDestroy mydev.devn).cdevDel mydev.devn = _
    rw [Registry.deviceDestroy_cls h.cls]
    rfl
  have hsub : ∀ other ∈ s.bound.erase mydev, other ∈ s.bound := fun _ hmem =>
    List.mem_of_mem_erase hmem
  refine ⟨h.minors.release hbound, fun i hi => h.below i (Finset.mem_of_mem_erase hi), ?_, ?_,
    fun other hmem => h.number other (hsub other hmem), ?_, ?_, ?_⟩
  · rw [hkernel]
    exact h.cdevs.release hbound
  · rw [hkernel]
    exact h.devices.release hbound
  · change s.allocated - 1 = (s.bound.erase mydev).length
    rw [List.length_erase_of_mem hbound, h.allocated]
  · exact h.pdevs.sublist (List.erase_sublist.map _)
  · rw [hkernel]
    exact h.cls

/-! ## What a run keeps

The interrupt has no such labels. It is enabled by a probe and never disabled by anything,
so it matches the bound devices only in runs in which no device that was enabled is let
go. -/

/-- The interrupt of a device is enabled exactly while it is bound. -/
def Driver.Matched (s : Driver) : Prop :=
  ∀ pdev, s.irqEnable pdev = if ∃ mydev ∈ s.bound, mydev.pdev = pdev then 1 else 0

theorem Driver.Inv.restored {s : Driver} (h : s.Inv)
    (hdisabled : ∀ pdev, (∀ mydev ∈ s.bound, mydev.pdev ≠ pdev) → s.irqEnable pdev = 0) :
    s.Restored where
  minors := ⟨h.minors.card, fun _ => h.minors.mem⟩
  distinct := h.minors.nodup
  cdevs := ⟨h.cdevs.card, fun _ => h.cdevs.mem⟩
  devices := ⟨h.devices.card, fun _ => h.devices.mem⟩
  allocated := h.allocated
  disabled := hdisabled

theorem Driver.Matched.restored {s : Driver} (h : s.Inv) (hm : s.Matched) : s.Restored := by
  refine h.restored fun pdev hpdev => ?_
  rw [hm pdev, if_neg]
  rintro ⟨mydev, hbound, heq⟩
  exact hpdev mydev hbound heq

/-- What a call does to the books; the register is put back by none. -/
theorem Driver.Inv.call {s t : Driver} {a : Call} {devnum : DevT} (h : s.Inv)
    (hs : (core devnum).step s a = some t) : t.Inv := by
  cases a with
  | probe pdev ok =>
    obtain ⟨hpdev, heq⟩ := Option.ite_none_right_eq_some.mp hs
    obtain rfl := Option.some.inj heq
    rcases h.probe_cases pdev ok with ⟨-, hres⟩ | ⟨-, -, hres⟩ | ⟨-, -, minor, hlt, hfree, hres⟩
    · rw [hres]
      exact h
    · rw [hres]
      exact ⟨h.minors, h.below, h.cdevs, h.devices, h.number, h.allocated, h.pdevs, h.cls⟩
    · rw [hres]
      exact h.bind hpdev hlt hfree
  | remove pdev =>
    obtain ⟨mydev, hfind, rfl⟩ := Option.map_eq_some_iff.mp hs
    exact h.remove (List.mem_of_find?_eq_some hfind)

/-- A call that is undone keeps registers and bound devices together. -/
theorem Driver.Matched.call {s t : Driver} {a : Call} {devnum : DevT} (hm : s.Matched) (h : s.Inv)
    (hundone : a.Undone s) (hs : (core devnum).step s a = some t) : t.Matched := by
  cases a with
  | probe pdev ok =>
    obtain ⟨-, heq⟩ := Option.ite_none_right_eq_some.mp hs
    obtain rfl := Option.some.inj heq
    rcases h.probe_cases pdev ok with ⟨-, hres⟩ | ⟨henables, hfail, -⟩ | ⟨-, -, minor, -, -, hres⟩
    · rw [hres]
      exact hm
    · exact absurd (hundone henables) hfail
    · rw [hres]
      intro q
      by_cases hq : q = pdev
      · subst hq
        have hbound : ∃ mydev ∈ (s.bind q minor).bound, mydev.pdev = q :=
          ⟨_, List.mem_cons_self, rfl⟩
        rw [if_pos hbound]
        exact Function.update_self ..
      · have hiff : (∃ mydev ∈ (s.bind pdev minor).bound, mydev.pdev = q) ↔
            ∃ mydev ∈ s.bound, mydev.pdev = q := by
          refine ⟨?_, fun ⟨mydev, hbound, heq⟩ => ⟨mydev, List.mem_cons_of_mem _ hbound, heq⟩⟩
          rintro ⟨mydev, hbound, heq⟩
          rcases List.mem_cons.mp hbound with rfl | hbound
          · exact absurd heq.symm hq
          · exact ⟨mydev, hbound, heq⟩
        have hreg : (s.bind pdev minor).irqEnable q = s.irqEnable q := Function.update_of_ne hq ..
        rw [hreg, hm q]
        exact if_congr hiff.symm rfl rfl
  | remove pdev => exact absurd hundone id

/-- A call that is not leaves a device enabled that is not bound. -/
theorem Driver.Matched.not_restored {s t : Driver} {a : Call} {devnum : DevT} (hm : s.Matched)
    (h : s.Inv) (hbad : ¬ a.Undone s) (hs : (core devnum).step s a = some t) : ¬ t.Restored := by
  cases a with
  | probe pdev ok =>
    obtain ⟨hpdev, heq⟩ := Option.ite_none_right_eq_some.mp hs
    obtain rfl := Option.some.inj heq
    obtain ⟨henables, hfail⟩ := Classical.not_imp.mp hbad
    rcases h.probe_cases pdev ok with ⟨hnot, -⟩ | ⟨-, -, hres⟩ | ⟨-, hirq, -⟩
    · exact absurd henables hnot
    · rw [hres]
      intro hrestored
      have hzero := hrestored.disabled pdev hpdev
      have hone : (s.mbEnableIrq pdev).irqEnable pdev = 1 := Function.update_self ..
      rw [hone] at hzero
      exact absurd hzero (by decide)
    · exact absurd hirq hfail
  | remove pdev =>
    obtain ⟨mydev, hfind, rfl⟩ := Option.map_eq_some_iff.mp hs
    have hbound := List.mem_of_find?_eq_some hfind
    have hpdev : mydev.pdev = pdev := by
      have hkey := List.find?_some hfind
      exact of_decide_eq_true hkey
    intro hrestored
    have hperm : (s.bound.map Myfbdev.pdev).Perm
        (mydev.pdev :: (s.bound.erase mydev).map Myfbdev.pdev) :=
      (List.perm_cons_erase hbound).map Myfbdev.pdev
    have hnotMem := (List.nodup_cons.mp (hperm.nodup_iff.mp h.pdevs)).1
    have hzero := hrestored.disabled pdev fun other hother heq =>
      hnotMem (List.mem_map.mpr ⟨other, hother, heq.trans hpdev.symm⟩)
    have hone : s.irqEnable pdev = 1 := (hm pdev).trans (if_pos ⟨mydev, hbound, hpdev⟩)
    exact absurd (hone.symm.trans hzero) (by decide)

/-- **When everything is restored.** Along a run of probes and removals, with all
registers 0 at first, each call leaves the minors, the character devices, the
devices and the memory one per bound device, and the interrupt of every other
device disabled, if and only if the run has no removal and no probe that fails
after `mb_enable_irq`.

Minors, character devices, devices and memory are exact in every run: each label of a
failed probe gives back what was acquired before it. The interrupt has no label and no
counterpart in a removal, so it is what the condition is about. -/
theorem bell_restored_iff {devnum : DevT} {calls : List Call} {t : Driver}
    (hrun : (core devnum).exec (core devnum).init calls = some t) :
    (core devnum).Along (fun _ _ t => t.Restored) (core devnum).init calls ↔
      (core devnum).Run (fun s a => a.Undone s) calls := by
  have hinit : (core devnum).init.Inv ∧ (core devnum).init.Matched := by
    refine ⟨Driver.Inv.loaded devnum, fun pdev => ?_⟩
    refine (if_neg ?_).symm
    rintro ⟨mydev, hbound, -⟩
    exact absurd hbound List.not_mem_nil
  have henv : (core devnum).Along (fun _ _ _ => True) (core devnum).init calls :=
    (Lts.along_of_exec (fun _ => True) (fun _ _ _ _ _ => ⟨trivial, trivial⟩) trivial hrun).1
  refine Lts.along_iff (fun s => s.Inv ∧ s.Matched) ?_ ?_ hinit henv
  · rintro s a t ⟨h, hm⟩ - hs
    constructor
    · intro hrestored
      by_contra hbad
      exact hm.not_restored h hbad hs hrestored
    · exact fun hundone => (hm.call h hundone hs).restored (h.call hs)
  · rintro s a t ⟨h, hm⟩ - hs hundone
    exact ⟨h.call hs, hm.call h hundone hs⟩

/-- All acquisitions succeed, and the device is bound. -/
def Acquire.all : Acquire := ⟨true, true, 0, 0, true, 0, 7, 0⟩

/-- Two devices are bound, and a third probe fails at `device_create`. -/
def twoBound : List Call :=
  [.probe 0 .all, .probe 1 .all, .probe 2 { Acquire.all with deviceCreate := enomem }]

theorem bell_restored_iff_two :
    (core 251).Along (fun _ _ t => t.Restored) (core 251).init twoBound := by
  have hrun : (core 251).Run (fun s a => a.Undone s) twoBound :=
    ⟨_, rfl, fun _ => ⟨by decide, rfl⟩, _, rfl, fun _ => ⟨by decide, rfl⟩, _, rfl,
      fun _ => ⟨by decide, rfl⟩, trivial⟩
  obtain ⟨t, ht⟩ := hrun.exec
  exact (bell_restored_iff ht).mpr hrun

/-- A device removed is left enabled, and so is one for which no interrupt is
found. -/
theorem bell_not_restored :
    (¬ (core 251).Along (fun _ _ t => t.Restored) (core 251).init [.probe 0 .all, .remove 0]) ∧
    ¬ (core 251).Along (fun _ _ t => t.Restored) (core 251).init
      [.probe 0 { Acquire.all with getIrq := -6 }] := by
  constructor
  · rintro ⟨s, hs, -, t, ht, hrestored, -⟩
    obtain rfl := Option.some.inj hs
    obtain rfl := Option.some.inj ht
    exact absurd (hrestored.disabled 0 (by decide +kernel)) (by decide +kernel)
  · rintro ⟨s, hs, hrestored, -⟩
    obtain rfl := Option.some.inj hs
    exact absurd (hrestored.disabled 0 (by decide +kernel)) (by decide +kernel)

end BellProbe

end KernelDrvLearn
