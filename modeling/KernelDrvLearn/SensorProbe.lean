import KernelDrvLearn.Fakesensor
import KernelDrvLearn.Held
import KernelDrvLearn.KernelApi

/-!
# Binding the sensor driver

`myssdrv_init`, `myssdrv_probe`, `myssdrv_remove` and `myssdrv_exit` of
`myproject/driver/src/mysensordrv.c`, with the table of minors. The driver core
calls `probe` and `remove` one at a time, `remove` for bound devices only, and
`platform_driver_unregister` calls it for each device still bound.

A probe that fails puts everything back, and a bound device holds one minor, one
character device and one device of the class (`Driver.Inv`). `myssdrv_exit`
destroys the class before it unregisters the driver, so a device still bound
then is removed without its class, and that is all that goes wrong
(`sensor_resources_iff`).
-/

namespace KernelDrvLearn

namespace Sensor

namespace Probe

/-! ## Minors

A table of four entries and a count beside it. `get_minor` looks for a free entry from the
start, and both table and count change together. -/

/-- `DEVCOUNT`, the number of entries. -/
abbrev devcountMax : ℕ := 4

/-- `avaliable_minor` and `devcount`, under the names of the source. -/
structure Minors where
  /-- `avaliable_minor` -/
  avaliableMinor : ℕ → Int
  /-- `devcount` -/
  devcount : Int

/-- The loop of `get_minor` with `n` entries left to look at. -/
def getMinorLoop (m : Minors) : ℕ → Minors × Int
  | 0 => (m, -1)
  | n + 1 =>
    let i := devcountMax - (n + 1)
    if m.avaliableMinor i = 0 then
      (⟨Function.update m.avaliableMinor i 1, m.devcount + 1⟩, i)
    else getMinorLoop m n

/-- `get_minor`: a minor and the table, or an error. -/
def getMinor (m : Minors) : Minors × Int := getMinorLoop m devcountMax

/-- `return_minor`, which clears the entry and counts down. -/
def returnMinor (m : Minors) (i : ℕ) : Minors :=
  if i ≥ devcountMax then m
  else ⟨Function.update m.avaliableMinor i 0, m.devcount - 1⟩

/-- The set entries of the table, as a set. A minor is free if it is not among them. -/
def Minors.taken (m : Minors) : Finset ℕ :=
  (Finset.range devcountMax).filter fun i => m.avaliableMinor i ≠ 0

/-! ## The driver

`myssdrv_probe` with its labels, `myssdrv_remove`, and the two functions of the module.
The driver core keeps the list of bound devices and removes them when the driver is
unregistered. -/

/-- `mysensor_t`. Its character device and its device of the class are known by
`devnum`. -/
structure MysensorT where
  /-- `pdev` -/
  pdev : ℕ
  /-- `stat` -/
  stat : MysensorStatus
  /-- `devnum` -/
  devnum : DevT
  deriving DecidableEq

/-- `MINOR(mysensor->devnum)`, by which the minor is found again. -/
def MysensorT.minor (mysensor : MysensorT) : ℕ := mysensor.devnum.minor

/-- The variables of the driver, and the kernel around it. -/
structure Driver where
  /-- `avaliable_minor` and `devcount` -/
  minors : Minors
  /-- `chardevnum` -/
  chardevnum : DevT
  /-- what is registered -/
  kernel : Registry
  /-- how many `mysensor_t` are allocated -/
  allocated : ℕ
  /-- the bound devices: their `platform_get_drvdata` -/
  bound : List MysensorT

/-- The module is loaded, `myssdrv_init` not yet called. -/
def unloaded : Driver := ⟨⟨fun _ => 0, 0⟩, 0, .empty, 0, []⟩

/-- Which acquisitions of a probe succeed, in the order in which it makes them. -/
structure Acquire where
  /-- `kzalloc` -/
  kzalloc : Bool
  /-- `cdev_add` -/
  cdevAdd : Bool
  /-- `device_create` -/
  deviceCreate : Bool

/-- `return_minor(minor)`, on the driver's table. -/
def Driver.returnMinor (s : Driver) (minor : ℕ) : Driver :=
  { s with minors := Probe.returnMinor s.minors minor }

/-- `kfree(newsensor)`, counted as one structure less. -/
def Driver.kfree (s : Driver) : Driver := { s with allocated := s.allocated - 1 }

/-- `cdev_del(&newsensor->cdev)`, which is known by its device number. -/
def Driver.cdevDel (s : Driver) (devnum : DevT) : Driver :=
  { s with kernel := s.kernel.cdevDel devnum }

/-- `myssdrv_probe`: the driver it leaves and the value it returns. -/
def myssdrvProbe (s : Driver) (pdev : ℕ) (ok : Acquire) : Driver × Int :=
  let major := s.chardevnum.major
  let res := getMinor s.minors
  let s := { s with minors := res.1 }
  let minor := res.2
  if minor = -1 then (s, einval)
  else if ok.kzalloc = false then (s.returnMinor minor.toNat, enomem)
  else
    let s := { s with allocated := s.allocated + 1 }
    let devnum := DevT.mkdev major minor.toNat
    if ok.cdevAdd = false then ((s.returnMinor minor.toNat).kfree, enomem)
    else
      let s := { s with kernel := s.kernel.cdevAdd devnum }
      let res := s.kernel.deviceCreate devnum ok.deviceCreate
      let s := { s with kernel := res.1 }
      if res.2 = false then (((s.cdevDel devnum).returnMinor minor.toNat).kfree, enomem)
      else
        let newsensor : MysensorT := ⟨pdev, initTempstat, devnum⟩
        ({ s with bound := newsensor :: s.bound }, 0)

/-- `myssdrv_remove`, `mysensor` being the device's data. -/
def myssdrvRemove (s : Driver) (mysensor : MysensorT) : Driver :=
  let s := s.cdevDel mysensor.devnum
  let s := s.returnMinor mysensor.devnum.minor
  let s := { s with kernel := s.kernel.deviceDestroy mysensor.devnum }
  s.kfree

/-- The driver core removes a device and unbinds it. -/
def release (s : Driver) (mysensor : MysensorT) : Driver :=
  let s := myssdrvRemove s mysensor
  { s with bound := s.bound.erase mysensor }

/-- `platform_driver_unregister`, which removes every bound device first. -/
def platformDriverUnregister (s : Driver) : Driver :=
  let s := s.bound.foldl release s
  { s with kernel := { s.kernel with driver := false } }

/-- What the acquisitions of `myssdrv_init` return. -/
structure InitEnv where
  /-- `alloc_chrdev_region`: the major number, unless it fails -/
  allocChrdevRegion : Option ℕ
  /-- does `class_create` succeed? -/
  classCreate : Bool
  /-- `platform_driver_register` -/
  platformDriverRegister : Int

/-- `myssdrv_init`, with the unwinding of its labels. -/
def myssdrvInit (s : Driver) (env : InitEnv) : Driver × Int :=
  match env.allocChrdevRegion with
  | none => (s, -1)
  | some major =>
    let s := { s with
      chardevnum := DevT.mkdev major s.minors.devcount.toNat
      kernel := { s.kernel with region := true } }
    if env.classCreate = false then
      ({ s with kernel := s.kernel.unregisterChrdevRegion }, -1)
    else
      let s := { s with kernel := { s.kernel with cls := true } }
      if env.platformDriverRegister ≠ 0 then
        let s := { s with kernel := s.kernel.classDestroy }
        ({ s with kernel := s.kernel.unregisterChrdevRegion }, -1)
      else ({ s with kernel := { s.kernel with driver := true } }, 0)

/-- `myssdrv_exit`: it destroys the class, and unregisters the driver after it. -/
def myssdrvExit (s : Driver) : Driver :=
  let s := { s with kernel := s.kernel.classDestroy }
  let s := platformDriverUnregister s
  { s with kernel := s.kernel.unregisterChrdevRegion }

/-! ## Runs

What the driver core calls between `myssdrv_init` and `myssdrv_exit`: probes of devices
that are not bound, and removals of such as are. -/

/-- A call of the driver core. -/
inductive Call where
  /-- `myssdrv_probe` of a device that is not bound -/
  | probe (pdev : ℕ) (ok : Acquire)
  /-- `myssdrv_remove` of a bound device -/
  | remove (pdev : ℕ)

/-- One call of the driver core, if it would make it. -/
def call (s : Driver) : Call → Option Driver
  | .probe pdev ok =>
    if ∀ mysensor ∈ s.bound, mysensor.pdev ≠ pdev then some (myssdrvProbe s pdev ok).1 else none
  | .remove pdev => (s.bound.find? fun mysensor => mysensor.pdev = pdev).map (release s)

/-- The driver after `myssdrv_init` has left it as `s`. -/
def loaded (s : Driver) : Lts Driver Call where
  init := s
  step := call

/-! ## The table of minors

That a minor is free, taken and given back again, in terms of the set of the taken ones.
-/

theorem Minors.mem_taken {m : Minors} {i : ℕ} :
    i ∈ m.taken ↔ i < devcountMax ∧ m.avaliableMinor i ≠ 0 := by
  rw [Minors.taken, Finset.mem_filter, Finset.mem_range]

theorem mem_taken_mk {f : ℕ → Int} {c : Int} {i : ℕ} :
    i ∈ Minors.taken ⟨f, c⟩ ↔ i < devcountMax ∧ f i ≠ 0 :=
  Minors.mem_taken

/-- `get_minor` fails with every entry set, or takes a free one. -/
theorem getMinorLoop_cases (m : Minors) (n : ℕ) :
    (getMinorLoop m n = (m, -1) ∧
        ∀ i, devcountMax - n ≤ i → i < devcountMax → m.avaliableMinor i ≠ 0) ∨
      ∃ i < devcountMax, m.avaliableMinor i = 0 ∧
        getMinorLoop m n = (⟨Function.update m.avaliableMinor i 1, m.devcount + 1⟩, (i : Int)) := by
  induction n with
  | zero => exact Or.inl ⟨rfl, fun i hle hlt => absurd hle (Nat.not_le_of_lt hlt)⟩
  | succ n ih =>
    rw [getMinorLoop]
    split
    case isTrue hfree =>
      refine Or.inr ⟨devcountMax - (n + 1), ?_, hfree, rfl⟩
      exact Nat.sub_lt (by decide) (Nat.succ_pos n)
    case isFalse hset =>
      rcases ih with ⟨hres, hall⟩ | hfound
      · refine Or.inl ⟨hres, fun i hle hlt => ?_⟩
        rcases Nat.lt_or_eq_of_le hle with hlt' | rfl
        · exact hall i (by omega) hlt
        · exact hset
      · exact Or.inr hfound

theorem getMinor_cases (m : Minors) :
    (m.taken.card = devcountMax ∧ getMinor m = (m, -1)) ∨
      ∃ i < devcountMax, m.avaliableMinor i = 0 ∧
        getMinor m = (⟨Function.update m.avaliableMinor i 1, m.devcount + 1⟩, (i : Int)) := by
  rcases getMinorLoop_cases m devcountMax with ⟨hres, hall⟩ | hfound
  · have hfull : m.taken = Finset.range devcountMax := by
      refine Finset.filter_true_of_mem fun i hi => ?_
      exact hall i (Nat.zero_le i) (Finset.mem_range.mp hi)
    exact Or.inl ⟨by rw [hfull, Finset.card_range], hres⟩
  · exact Or.inr hfound

/-- A free entry leaves room for one more device. -/
theorem Minors.card_lt {m : Minors} {i : ℕ} (hi : i < devcountMax) (h : m.avaliableMinor i = 0) :
    m.taken.card < devcountMax := by
  have hsub : m.taken ⊂ Finset.range devcountMax := by
    refine Finset.filter_ssubset.mpr ⟨i, Finset.mem_range.mpr hi, ?_⟩
    exact not_not_intro h
  exact (Finset.card_lt_card hsub).trans_eq (Finset.card_range _)

theorem taken_get (m : Minors) {i : ℕ} (hi : i < devcountMax) (c : Int) :
    Minors.taken ⟨Function.update m.avaliableMinor i 1, c⟩ = insert i m.taken := by
  ext j
  rw [mem_taken_mk, Finset.mem_insert, Minors.mem_taken]
  by_cases hj : j = i
  · subst hj
    rw [Function.update_self]
    exact iff_of_true ⟨hi, by decide⟩ (Or.inl rfl)
  · rw [Function.update_of_ne hj]
    exact (or_iff_right hj).symm

theorem taken_returnMinor (m : Minors) {i : ℕ} (hi : i < devcountMax) :
    (returnMinor m i).taken = m.taken.erase i := by
  have hret : returnMinor m i = ⟨Function.update m.avaliableMinor i 0, m.devcount - 1⟩ :=
    if_neg (Nat.not_le_of_lt hi)
  rw [hret]
  ext j
  rw [mem_taken_mk, Finset.mem_erase, Minors.mem_taken]
  by_cases hj : j = i
  · subst hj
    rw [Function.update_self]
    exact iff_of_false (fun h => h.2 rfl) (fun h => h.1 rfl)
  · rw [Function.update_of_ne hj]
    exact (and_iff_right hj).symm

/-- Returning a minor just taken restores table and count. -/
theorem returnMinor_get (m : Minors) {i : ℕ} (hi : i < devcountMax)
    (h : m.avaliableMinor i = 0) :
    returnMinor ⟨Function.update m.avaliableMinor i 1, m.devcount + 1⟩ i = m := by
  rw [returnMinor, if_neg (Nat.not_le_of_lt hi)]
  dsimp only
  rw [Function.update_idem, ← h, Function.update_eq_self, Int.add_sub_cancel]

/-! ## What is held

Four kinds of things, each held by the bound devices and by nobody else. A probe takes
them one after the other, and the labels give them back in reverse. -/

/-- Every bound device holds its minor, its character device, its device of the
class and its memory; nothing else is held, and no device was ever created or
destroyed without the class. -/
structure Driver.Inv (s : Driver) : Prop where
  minors : Held MysensorT.minor s.bound s.minors.taken
  devcount : s.minors.devcount = s.bound.length
  cdevs : Held MysensorT.devnum s.bound s.kernel.cdevs
  devices : Held MysensorT.devnum s.bound s.kernel.devices
  allocated : s.allocated = s.bound.length
  cls : s.kernel.cls = true
  stray : s.kernel.stray = 0

/-- The state a successful probe leaves, `i` being the minor it takes. -/
def Driver.bind (s : Driver) (pdev i : ℕ) : Driver :=
  let devnum := DevT.mkdev s.chardevnum.major i
  { s with
    minors := ⟨Function.update s.minors.avaliableMinor i 1, s.minors.devcount + 1⟩
    kernel := { s.kernel with
      cdevs := insert devnum s.kernel.cdevs
      devices := insert devnum s.kernel.devices }
    allocated := s.allocated + 1
    bound := ⟨pdev, initTempstat, devnum⟩ :: s.bound }

/-- The device number of a free minor is free. -/
theorem Driver.Inv.free {s : Driver} (h : s.Inv) {i : ℕ} (hi : i < devcountMax)
    (hfree : i ∉ s.minors.taken) {live : Finset DevT}
    (hlive : Held MysensorT.devnum s.bound live) :
    DevT.mkdev s.chardevnum.major i ∉ live := by
  intro hmem
  obtain ⟨mysensor, hbound, hnum⟩ := List.mem_map.mp ((hlive.mem_iff _).mp hmem)
  have hminor : mysensor.minor = i := by
    rw [MysensorT.minor, hnum]
    exact DevT.minor_mkdev (hi.trans (by decide))
  exact hfree (hminor ▸ h.minors.mem hbound)

/-- **What a probe does.** It fails for lack of a minor and changes nothing, or
fails otherwise and has put everything back, or binds the device. -/
theorem Driver.Inv.probe_cases {s : Driver} (h : s.Inv) (pdev : ℕ) (ok : Acquire) :
    (s.bound.length = devcountMax ∧ myssdrvProbe s pdev ok = (s, einval)) ∨
      (s.bound.length < devcountMax ∧ myssdrvProbe s pdev ok = (s, enomem)) ∨
      ∃ i < devcountMax, s.minors.avaliableMinor i = 0 ∧ s.bound.length < devcountMax ∧
        myssdrvProbe s pdev ok = (s.bind pdev i, 0) := by
  rcases getMinor_cases s.minors with ⟨hfull, hget⟩ | ⟨i, hi, hfree, hget⟩
  · refine Or.inl ⟨h.minors.card.symm.trans hfull, ?_⟩
    rw [myssdrvProbe, hget]
    rfl
  · have hroom : s.bound.length < devcountMax := h.minors.card ▸ Minors.card_lt hi hfree
    have hne : ((i : ℕ) : Int) ≠ -1 := by omega
    have hnotTaken : i ∉ s.minors.taken := fun hmem => (Minors.mem_taken.mp hmem).2 hfree
    have hback := returnMinor_get s.minors hi hfree
    rw [myssdrvProbe, hget]
    dsimp only
    rw [if_neg hne, Int.toNat_natCast, Registry.deviceCreate_cls (by exact h.cls)]
    rcases ok with ⟨_ | _, cdevAdd, deviceCreate⟩
    · refine Or.inr (Or.inl ⟨hroom, ?_⟩)
      simp only [Driver.returnMinor, hback, if_true]
    rcases cdevAdd with _ | _
    · refine Or.inr (Or.inl ⟨hroom, ?_⟩)
      simp only [Driver.returnMinor, Driver.kfree, hback, if_true, if_false,
        Nat.add_sub_cancel, reduceCtorEq]
    rcases deviceCreate with _ | _
    · refine Or.inr (Or.inl ⟨hroom, ?_⟩)
      have hcdev : (insert (DevT.mkdev s.chardevnum.major i) s.kernel.cdevs).erase
          (DevT.mkdev s.chardevnum.major i) = s.kernel.cdevs :=
        Finset.erase_insert (h.free hi hnotTaken h.cdevs)
      simp only [Driver.returnMinor, Driver.kfree, Driver.cdevDel, Registry.cdevDel,
        Registry.cdevAdd, hback, hcdev, if_true, if_false, Nat.add_sub_cancel, reduceCtorEq]
    · exact Or.inr (Or.inr ⟨i, hi, hfree, hroom, rfl⟩)

theorem Driver.Inv.bind {s : Driver} (h : s.Inv) (pdev : ℕ) {i : ℕ} (hi : i < devcountMax)
    (hfree : s.minors.avaliableMinor i = 0) : (s.bind pdev i).Inv := by
  have hnotTaken : i ∉ s.minors.taken := fun hmem => (Minors.mem_taken.mp hmem).2 hfree
  have hminor : MysensorT.minor ⟨pdev, initTempstat, DevT.mkdev s.chardevnum.major i⟩ = i :=
    DevT.minor_mkdev (hi.trans (by decide))
  refine ⟨?_, ?_, h.cdevs.acquire (h.free hi hnotTaken h.cdevs),
    h.devices.acquire (h.free hi hnotTaken h.devices), ?_, h.cls, h.stray⟩
  · have htaken : (s.bind pdev i).minors.taken = insert i s.minors.taken := taken_get _ hi _
    have hacquire := h.minors.acquire (b := ⟨pdev, initTempstat, DevT.mkdev s.chardevnum.major i⟩)
      (by rw [hminor]; exact hnotTaken)
    rw [hminor] at hacquire
    rw [htaken]
    exact hacquire
  · change s.minors.devcount + 1 = ((s.bound.length + 1 : ℕ) : Int)
    rw [h.devcount]
    rfl
  · change s.allocated + 1 = s.bound.length + 1
    rw [h.allocated]

theorem Driver.Inv.release {s : Driver} (h : s.Inv) {mysensor : MysensorT}
    (hbound : mysensor ∈ s.bound) : (release s mysensor).Inv := by
  have hminor : mysensor.minor < devcountMax := (Minors.mem_taken.mp (h.minors.mem hbound)).1
  have hlength : (s.bound.erase mysensor).length = s.bound.length - 1 :=
    List.length_erase_of_mem hbound
  have hpos : 0 < s.bound.length := List.length_pos_of_mem hbound
  have hdestroy : (s.kernel.cdevDel mysensor.devnum).deviceDestroy mysensor.devnum =
      { s.kernel with
        cdevs := s.kernel.cdevs.erase mysensor.devnum
        devices := s.kernel.devices.erase mysensor.devnum } :=
    Registry.deviceDestroy_cls (show (s.kernel.cdevDel mysensor.devnum).cls = true from h.cls) _
  have hkernel : (Probe.release s mysensor).kernel =
      (s.kernel.cdevDel mysensor.devnum).deviceDestroy mysensor.devnum := rfl
  refine ⟨?_, ?_, ?_, ?_, ?_, ?_, ?_⟩
  · have htaken : (Probe.release s mysensor).minors.taken =
        s.minors.taken.erase mysensor.minor := taken_returnMinor _ hminor
    rw [htaken]
    exact h.minors.release hbound
  · have hret : (Probe.release s mysensor).minors.devcount = s.minors.devcount - 1 :=
      congrArg Minors.devcount (if_neg (Nat.not_le_of_lt hminor))
    have hlist : (Probe.release s mysensor).bound = s.bound.erase mysensor := rfl
    rw [hret, hlist, h.devcount, hlength]
    omega
  · rw [hkernel, hdestroy]
    exact h.cdevs.release hbound
  · rw [hkernel, hdestroy]
    exact h.devices.release hbound
  · change s.allocated - 1 = (s.bound.erase mysensor).length
    rw [hlength, h.allocated]
  · rw [hkernel, hdestroy]
    exact h.cls
  · rw [hkernel, hdestroy]
    exact h.stray

/-! ## What a run keeps

Along a run the books stay right, and a probe can tell from them whether there is a minor
left. -/

/-- What holds between calls: the books, and the class and driver being there. -/
structure Driver.Ok (s : Driver) : Prop where
  /-- `devcount` counts the set entries -/
  devcount : s.minors.devcount = s.minors.taken.card
  /-- they are as many as the bound devices -/
  bound : s.minors.taken.card = s.bound.length
  /-- the minors of the bound devices are distinct -/
  distinct : (s.bound.map MysensorT.minor).Nodup
  /-- and below 4 -/
  below : ∀ mysensor ∈ s.bound, mysensor.minor < devcountMax
  /-- devices are created and destroyed with the class -/
  stray : s.kernel.stray = 0

/-- A probe fails for lack of a minor exactly when 4 devices are bound, and if
it fails it leaves minors, character devices and devices as they were. -/
def Call.Meets (s t : Driver) : Call → Prop
  | .probe pdev ok =>
    ((myssdrvProbe s pdev ok).2 = einval ↔ s.bound.length = devcountMax) ∧
      ((myssdrvProbe s pdev ok).2 ≠ 0 → t.minors = s.minors ∧ t.kernel = s.kernel)
  | .remove _ => True

/-- Nothing is left of what the driver has acquired. -/
structure Driver.Clean (s : Driver) : Prop where
  minors : s.minors.taken = ∅
  cdevs : s.kernel.cdevs = ∅
  devices : s.kernel.devices = ∅
  cls : s.kernel.cls = false
  region : s.kernel.region = false
  /-- devices were destroyed with the class -/
  stray : s.kernel.stray = 0

/-- The discipline of a run: `s` is what `myssdrv_init` left, `calls` what the
driver core called until `myssdrv_exit`. -/
structure Disciplined (s : Driver) (calls : List Call) : Prop where
  /-- before the first call -/
  init : s.Ok
  /-- each call, and the state after it -/
  along : (loaded s).Along (fun s a t => a.Meets s t ∧ t.Ok) s calls
  /-- after `myssdrv_exit` -/
  exit : ∀ t, (loaded s).exec s calls = some t → (myssdrvExit t).Clean

theorem Driver.Inv.ok {s : Driver} (h : s.Inv) : s.Ok where
  devcount := by rw [h.devcount, h.minors.card]
  bound := h.minors.card
  distinct := h.minors.nodup
  below := by
    intro mysensor hbound
    exact (Minors.mem_taken.mp (h.minors.mem hbound)).1
  stray := h.stray

/-- **Step lemma.** A probe or a removal keeps the books. -/
theorem Driver.Inv.call {s₀ s t : Driver} (h : s.Inv) {a : Call}
    (hs : (loaded s₀).step s a = some t) : a.Meets s t ∧ t.Inv := by
  cases a with
  | probe pdev ok =>
    change (if ∀ mysensor ∈ s.bound, mysensor.pdev ≠ pdev then some (myssdrvProbe s pdev ok).1
      else none) = some t at hs
    split at hs
    case isFalse => cases hs
    case isTrue =>
      obtain rfl := Option.some.inj hs
      rw [Call.Meets]
      rcases h.probe_cases pdev ok with
        ⟨hfull, hres⟩ | ⟨hroom, hres⟩ | ⟨i, hi, hfree, hroom, hres⟩ <;> rw [hres]
      · exact ⟨⟨iff_of_true rfl hfull, fun _ => ⟨rfl, rfl⟩⟩, h⟩
      · exact ⟨⟨iff_of_false (show enomem ≠ einval by decide) hroom.ne, fun _ => ⟨rfl, rfl⟩⟩, h⟩
      · exact ⟨⟨iff_of_false (show (0 : Int) ≠ einval by decide) hroom.ne,
          fun hne => absurd rfl hne⟩, h.bind pdev hi hfree⟩
  | remove pdev =>
    obtain ⟨mysensor, hfind, rfl⟩ := Option.map_eq_some_iff.mp hs
    exact ⟨trivial, h.release (List.mem_of_find?_eq_some hfind)⟩

/-! ## The end of a run

`myssdrv_exit` destroys the class before it unregisters the driver. For a device that is
bound then, the removal comes afterwards, and its `device_destroy` has no class. -/

/-- Without the class every removal is a stray call. -/
theorem release_stray {s : Driver} (hcls : s.kernel.cls = false) (mysensor : MysensorT) :
    (release s mysensor).kernel.cls = false ∧
      (release s mysensor).kernel.stray = s.kernel.stray + 1 := by
  have hkernel : (release s mysensor).kernel =
      (s.kernel.cdevDel mysensor.devnum).deviceDestroy mysensor.devnum := rfl
  have hcls' : (s.kernel.cdevDel mysensor.devnum).cls = false := hcls
  rw [hkernel, Registry.deviceDestroy_noCls hcls']
  exact ⟨hcls, rfl⟩

/-- So are all of them, one for each device. -/
theorem foldl_release_stray (l : List MysensorT) {s : Driver} (hcls : s.kernel.cls = false) :
    (l.foldl release s).kernel.stray = s.kernel.stray + l.length := by
  induction l generalizing s with
  | nil => rfl
  | cons mysensor l ih =>
    obtain ⟨hcls', hstray⟩ := release_stray hcls mysensor
    rw [List.foldl_cons, ih hcls', hstray, List.length_cons]
    omega

/-- `myssdrv_exit` makes one stray call for each device still bound. -/
theorem myssdrvExit_stray (s : Driver) :
    (myssdrvExit s).kernel.stray = s.kernel.stray + s.bound.length :=
  foldl_release_stray s.bound rfl

/-- With no device bound it leaves nothing behind. -/
theorem Driver.Inv.exit {s : Driver} (h : s.Inv) (hbound : s.bound = []) :
    (myssdrvExit s).Clean := by
  have hminors := h.minors
  have hcdevs := h.cdevs
  have hdevices := h.devices
  rw [hbound] at hminors hcdevs hdevices
  have hexit : myssdrvExit s =
      { s with kernel := { s.kernel with cls := false, driver := false, region := false } } := by
    rw [myssdrvExit, platformDriverUnregister]
    dsimp only
    rw [hbound]
    rfl
  rw [hexit]
  exact ⟨hminors.eq_empty, hcdevs.eq_empty, hdevices.eq_empty, rfl, rfl, h.stray⟩

/-- A successful `myssdrv_init` leaves the driver loaded, and no device bound. -/
theorem myssdrvInit_inv {env : InitEnv} {s : Driver} (h : myssdrvInit unloaded env = (s, 0)) :
    s.Inv := by
  rcases env with ⟨_ | major, _ | _, ret⟩
  case none.false | none.true | some.false =>
    exact absurd (congrArg Prod.snd h) (show (-1 : Int) ≠ 0 by decide)
  case some.true =>
    rw [myssdrvInit] at h
    dsimp only at h
    rw [if_neg (by decide)] at h
    split at h
    case isTrue => exact absurd (congrArg Prod.snd h) (show (-1 : Int) ≠ 0 by decide)
    case isFalse =>
      obtain rfl := congrArg Prod.fst h
      have htaken : Minors.taken ⟨fun _ => 0, 0⟩ = ∅ := rfl
      exact ⟨htaken ▸ Held.nil, rfl, Held.nil, Held.nil, rfl, rfl, rfl⟩

/-- A failed one leaves nothing registered, on each of its paths. -/
theorem myssdrvInit_failed {env : InitEnv} (h : (myssdrvInit unloaded env).2 ≠ 0) :
    (myssdrvInit unloaded env).1.kernel = Registry.empty := by
  rcases env with ⟨_ | major, _ | _, ret⟩
  case none.false | none.true | some.false => rfl
  case some.true =>
    rw [myssdrvInit] at h ⊢
    dsimp only at h ⊢
    rw [if_neg (by decide)] at h ⊢
    split at h
    case isTrue hret =>
      rw [if_pos hret]
      rfl
    case isFalse => exact absurd rfl h

/-- **The resources of the sensor driver.** A run from a successful
`myssdrv_init` to `myssdrv_exit` keeps the discipline of its minors, character
devices, devices and class if and only if no device is still bound when
`myssdrv_exit` is called. -/
theorem sensor_resources_iff {env : InitEnv} {s t : Driver} {calls : List Call}
    (hinit : myssdrvInit unloaded env = (s, 0)) (hcalls : (loaded s).exec s calls = some t) :
    Disciplined s calls ↔ t.bound = [] := by
  have hs : s.Inv := myssdrvInit_inv hinit
  obtain ⟨halong, ht⟩ := Lts.along_of_exec Driver.Inv
    (R := fun s a t => a.Meets s t ∧ t.Ok)
    (fun _ _ _ h hstep => ⟨⟨(h.call hstep).1, (h.call hstep).2.ok⟩, (h.call hstep).2⟩) hs hcalls
  constructor
  · intro hdisc
    have hstray := (hdisc.exit t hcalls).stray
    rw [myssdrvExit_stray, ht.stray, Nat.zero_add] at hstray
    exact List.length_eq_zero_iff.mp hstray
  · intro hbound
    refine ⟨hs.ok, halong, fun u hu => ?_⟩
    obtain rfl := Option.some.inj (hcalls.symm.trans hu)
    exact ht.exit hbound

/-- What `myssdrv_init` leaves when all goes well. -/
def initialized : Driver := (myssdrvInit unloaded ⟨some 240, true, 0⟩).1

/-- One probe succeeds, one fails at `device_create`, and the device is removed. -/
def probedAndRemoved : List Call :=
  [.probe 0 ⟨true, true, true⟩, .probe 1 ⟨true, true, false⟩, .remove 0]

theorem sensor_resources_iff_removed : Disciplined initialized probedAndRemoved := by
  have hinit : myssdrvInit unloaded ⟨some 240, true, 0⟩ = (initialized, 0) := rfl
  exact (sensor_resources_iff hinit rfl).mpr rfl

/-- A device left bound is destroyed without its class. -/
theorem exit_bound : ¬ Disciplined initialized [.probe 0 ⟨true, true, true⟩] := by
  intro h
  exact absurd (h.exit _ rfl).stray (by decide +kernel)

end Probe

end Sensor

end KernelDrvLearn
