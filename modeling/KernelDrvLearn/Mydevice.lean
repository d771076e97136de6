import KernelDrvLearn.CInt
import KernelDrvLearn.Held
import KernelDrvLearn.KernelApi
import KernelDrvLearn.Transition

/-!
# The users of `mydevice`

The file operations of `practice/mydevice/mydevice.c` on one device. The device
counts its open files (`reference`, under `reflock`) and lets one of them in for
writing (`config_opened`, under `configlock`). A section of a lock is one step,
and so is every later access to the device; any number of files are opened, used
and released, in any interleaving. A file keeps its place in the list of files
for ever.

* One context at most holds the configuration, and `config_opened` says whether
  there is one, in every state (`State.ConfigExact`).
* `reference` is an `int`. It is the number of contexts between their `addref`
  and their `relref` as long as that number fits (`RefExact`).
* An open that fails changes nothing at any of its steps (`failed_untouched`).
-/

namespace KernelDrvLearn

namespace Mydev

/-! ## The device

Two counters under a lock each, and the configuration. A section is one step; `reference`
is an `int` and wraps like one. -/

/-- The part of `struct mydevice` the file operations change. -/
structure Mydevice where
  /-- the number of users -/
  reference : Int
  /-- the configuration -/
  config : Int
  /-- is the configuration open? -/
  configOpened : Bool
  /-- record: has `relref` ever found the count at 0? -/
  wasZero : Bool
  deriving DecidableEq

/-- `addref`, a section of `reflock` that counts one context more, as an `int` does. -/
def addref (mydev : Mydevice) : Mydevice :=
  { mydev with reference := wrap32 (mydev.reference + 1) }

/-- `relref`: the device afterwards and the value returned. A count of 0 it leaves alone.
-/
def relref (mydev : Mydevice) : Mydevice × Int :=
  if mydev.reference = 0 then ({ mydev with wasZero := true }, 0)
  else
    let ref := wrap32 (mydev.reference - 1)
    ({ mydev with reference := ref }, ref)

/-- `getref`, which takes `reflock` and only looks; `mydevremove` waits for it to return
0. -/
def getref (mydev : Mydevice) : Int := mydev.reference

/-! ## The file operations

One file from its open to its release, with reads and writes in between. A step is a
section of a lock, or an access outside of one; what the context knows of itself
(`is_config`) is kept beside the place. -/

/-- Where a read or a write of a file stands. -/
inductive FileOp where
  /-- `mydevread`, before the section of `configlock` -/
  | readLock
  /-- `mydevread`, before its `dev_info` -/
  | readInfo
  /-- `mydevwrite` of `configinfo=v`, before its first `dev_info` -/
  | writeInfo (v : Int)
  /-- before the section of `configlock` -/
  | writeLock (v : Int)
  /-- before its last `dev_info` -/
  | writeDone
  deriving DecidableEq

/-- Where a file stands between `mydevopen` and the end of `mydevrelease`. -/
inductive Pc where
  /-- `mydevopen`, before `kzalloc` -/
  | alloc
  /-- the context is allocated; for a writer, before the section of `configlock` -/
  | config
  /-- before the `dev_err` of a failing open, which frees the context and returns
  the error -/
  | error (ret : Int)
  /-- before `addref` -/
  | addref
  /-- before the `dev_info` of a successful open -/
  | openInfo
  /-- the file is open, with these reads and writes in progress -/
  | opened (ops : List FileOp)
  /-- `mydevrelease`, before `is_config` is looked at -/
  | release
  /-- before `kfree(myctx)` and `relref` -/
  | relref
  /-- `relref` has returned `ref`; before the wake-up -/
  | wake (ref : Int)
  /-- before the `dev_info` of the release -/
  | releaseInfo
  /-- `mydevopen` has returned an error -/
  | failed (ret : Int)
  /-- `mydevrelease` has returned -/
  | released
  deriving DecidableEq

/-- A file, with the context `mydevopen` allocates for it. -/
structure Client where
  /-- is `FMODE_WRITE` in `fp->f_mode`? -/
  fmodeWrite : Bool
  /-- `myctx->is_config` -/
  isConfig : Bool
  /-- where it stands -/
  pc : Pc
  deriving DecidableEq

/-- What a file does next, if it is at a place where it can. -/
inductive Event where
  /-- the `kzalloc` of `mydevopen` returns -/
  | alloc (ok : Bool)
  /-- the next step of `mydevopen` or `mydevrelease` -/
  | run
  /-- a call of `mydevread` -/
  | read
  /-- a call of `mydevwrite` with `configinfo=v` -/
  | write (v : Int)
  /-- the next step of its `k`-th read or write -/
  | op (k : ℕ)
  /-- the last reference to the file is dropped -/
  | release

/-- A step of a read or a write; it may end it. -/
def FileOp.next (mydev : Mydevice) : FileOp → Mydevice × Option FileOp
  | readLock => (mydev, some readInfo)
  | readInfo => (mydev, none)
  | writeInfo v => (mydev, some (writeLock v))
  | writeLock v => ({ mydev with config := v }, some writeDone)
  | writeDone => (mydev, none)

/-- A step of a file, on the device and its own context. -/
def Client.next (mydev : Mydevice) (c : Client) : Event → Option (Mydevice × Client)
  | .alloc ok =>
    match c.pc with
    | .alloc => some (mydev, { c with pc := if ok then .config else .error enomem })
    | _ => none
  | .run =>
    match c.pc with
    | .config =>
      if c.fmodeWrite then
        if mydev.configOpened then some (mydev, { c with pc := .error ebusy })
        else some ({ mydev with configOpened := true }, { c with isConfig := true, pc := .addref })
      else some (mydev, { c with pc := .addref })
    | .error ret => some (mydev, { c with pc := .failed ret })
    | .addref => some (addref mydev, { c with pc := .openInfo })
    | .openInfo => some (mydev, { c with pc := .opened [] })
    | .release =>
      if c.isConfig then some ({ mydev with configOpened := false }, { c with pc := .relref })
      else some (mydev, { c with pc := .relref })
    | .relref =>
      let res := relref mydev
      some (res.1, { c with pc := .wake res.2 })
    | .wake _ => some (mydev, { c with pc := .releaseInfo })
    | .releaseInfo => some (mydev, { c with pc := .released })
    | .alloc | .opened _ | .failed _ | .released => none
  | .read =>
    match c.pc with
    | .opened ops => some (mydev, { c with pc := .opened (ops ++ [.readLock]) })
    | _ => none
  | .write v =>
    match c.pc with
    -- without `is_config` it returns `-EPERM` at once
    | .opened ops =>
      if c.isConfig then some (mydev, { c with pc := .opened (ops ++ [.writeInfo v]) })
      else some (mydev, c)
    | _ => none
  | .op k =>
    match c.pc with
    | .opened ops =>
      ops[k]?.map fun op =>
        let res := op.next mydev
        (res.1, { c with pc := .opened (ops.take k ++ res.2.toList ++ ops.drop (k + 1)) })
    | _ => none
  | .release =>
    match c.pc with
    -- a file is released when no call is using it
    | .opened [] => some (mydev, { c with pc := .release })
    | _ => none

/-! ## Any number of files

Files are numbered by their opens and stay in the list for ever, so that a number always
means the same file. -/

/-- The device and all files ever opened. -/
structure State where
  /-- the device -/
  mydev : Mydevice
  /-- the files, in the order of their `open` calls -/
  clients : List Client

/-- What can happen next: an open, or a step of a file. -/
inductive Act where
  /-- a process calls `open` -/
  | open (fmodeWrite : Bool)
  /-- file `i` does a step -/
  | client (i : ℕ) (e : Event)

/-- One step of the device: of one file, or by a new one. -/
def step (s : State) : Act → Option State
  | .open fmodeWrite => some { s with clients := s.clients ++ [⟨fmodeWrite, false, .alloc⟩] }
  | .client i e =>
    s.clients[i]?.bind fun c => (c.next s.mydev e).map fun r => ⟨r.1, s.clients.set i r.2⟩

/-- The device as `mydevprobe` leaves it, with no file. -/
def device : Lts State Act where
  init := ⟨⟨0, 0, false, false⟩, []⟩
  step := step

/-- Has the context of this place gone past the point where `config_opened` is
cleared? -/
def Pc.cleared : Pc → Bool
  | .relref | .wake _ | .releaseInfo | .failed _ | .released => true
  | _ => false

/-- The context has `is_config` set and has not yet cleared `config_opened`. -/
def Client.holdsConfig (c : Client) : Bool := c.isConfig && !c.pc.cleared

/-- The context has executed `addref` and not yet `relref`. -/
def Client.counted (c : Client) : Bool :=
  match c.pc with
  | .openInfo | .opened _ | .release | .relref => true
  | _ => false

/-- The number of contexts between `addref` and `relref`. -/
def State.users (s : State) : ℕ := s.clients.countP Client.counted

/-- A step that is an `addref` leaves fewer than `n` users. -/
def AddrefBelow (n : ℕ) (s : State) : Act → Prop
  | .client i .run => ∀ c ∈ s.clients[i]?, c.pc = .addref → s.users + 1 < n
  | _ => True

instance (n : ℕ) (s : State) : ∀ a, Decidable (AddrefBelow n s a)
  | .client i .run =>
    inferInstanceAs (Decidable (∀ c ∈ s.clients[i]?, c.pc = .addref → s.users + 1 < n))
  | .open _ | .client _ (.alloc _) | .client _ .read | .client _ (.write _)
  | .client _ (.op _) | .client _ .release => isTrue trivial

/-! ## What one step of a file does

The inversion everything below is proved by. A step changes the device and one file; which
of the two counters it changes, and whether the file counts for it before and after, can
be read off its case. -/

/-- **Inversion.** A step opens a file, or is one of a file on the device and
its own context. -/
theorem step_cases {s t : State} {a : Act} (hs : step s a = some t) :
    (∃ w, a = .open w ∧ t = ⟨s.mydev, s.clients ++ [⟨w, false, .alloc⟩]⟩) ∨
    (∃ i e c r, a = .client i e ∧ s.clients[i]? = some c ∧ c.next s.mydev e = some r ∧
      t = ⟨r.1, s.clients.set i r.2⟩) := by
  cases a with
  | «open» w =>
    obtain rfl := Option.some.inj hs
    exact Or.inl ⟨w, rfl, rfl⟩
  | client i e =>
    obtain ⟨c, hc, hmap⟩ := Option.bind_eq_some_iff.mp hs
    obtain ⟨r, hr, ht⟩ := Option.map_eq_some_iff.mp hmap
    exact Or.inr ⟨i, e, c, r, rfl, hc, hr, ht.symm⟩

/-- A context that has not passed `configlock` is no configuration context. -/
def Client.Fresh (c : Client) : Prop :=
  match c.pc with
  | .alloc | .config | .error _ => c.isConfig = false
  | _ => True

/-- A file whose open can still fail, or has failed. -/
def Client.mayFail (c : Client) : Bool :=
  match c.pc with
  | .alloc | .config | .error _ | .failed _ => true
  | _ => false

/-- A file that is counted, and in use or about to be released. -/
def Pc.inUse : Pc → Bool
  | .openInfo | .opened _ | .release => true
  | _ => false

theorem Pc.cleared_of_inUse {pc : Pc} (h : pc.inUse = true) : pc.cleared = false := by
  cases pc <;> first | rfl | cases h

@[simp] theorem relref_configOpened (mydev : Mydevice) :
    (relref mydev).1.configOpened = mydev.configOpened := by
  simp only [relref]
  split <;> rfl

/-- What the steps of a file do: the cases of `Client.next`. -/
inductive Client.Steps (mydev : Mydevice) (c : Client) : Event → Mydevice × Client → Prop
  /-- the allocation returns -/
  | alloc {ok pc} : c.pc = .alloc → pc = .config ∨ pc = .error enomem →
      Steps mydev c (.alloc ok) (mydev, { c with pc := pc })
  /-- another context holds the configuration -/
  | busy : c.pc = .config → Steps mydev c .run (mydev, { c with pc := .error ebusy })
  /-- the configuration is opened -/
  | takeConfig : c.pc = .config → mydev.configOpened = false →
      Steps mydev c .run
        ({ mydev with configOpened := true }, { c with isConfig := true, pc := .addref })
  /-- a reader passes by -/
  | noConfig : c.pc = .config → Steps mydev c .run (mydev, { c with pc := .addref })
  /-- the open fails -/
  | fail {ret} : c.pc = .error ret → Steps mydev c .run (mydev, { c with pc := .failed ret })
  /-- `addref` -/
  | addref : c.pc = .addref → Steps mydev c .run (Mydev.addref mydev, { c with pc := .openInfo })
  /-- the file is used; only `config` may change -/
  | use {e config pc} : c.pc.inUse = true → pc.inUse = true →
      Steps mydev c e ({ mydev with config := config }, { c with pc := pc })
  /-- `config_opened` is cleared -/
  | clearConfig : c.pc = .release → c.isConfig = true →
      Steps mydev c .run ({ mydev with configOpened := false }, { c with pc := .relref })
  /-- the context of a reader has nothing to clear -/
  | noClear : c.pc = .release → c.isConfig = false →
      Steps mydev c .run (mydev, { c with pc := .relref })
  /-- `relref` -/
  | relref : c.pc = .relref →
      Steps mydev c .run ((Mydev.relref mydev).1, { c with pc := .wake (Mydev.relref mydev).2 })
  /-- the rest of the release -/
  | tail {pc} : (∃ ref, c.pc = .wake ref ∧ pc = .releaseInfo) ∨
      (c.pc = .releaseInfo ∧ pc = .released) → Steps mydev c .run (mydev, { c with pc := pc })

theorem Client.next_steps {mydev : Mydevice} {c : Client} {e : Event} {r : Mydevice × Client}
    (h : c.next mydev e = some r) : c.Steps mydev e r := by
  obtain ⟨fmodeWrite, isConfig, pc⟩ := c
  cases e with
  | alloc ok =>
    cases pc <;> simp only [next, reduceCtorEq] at h
    obtain rfl := Option.some.inj h
    refine Steps.alloc rfl ?_
    cases ok
    · exact Or.inr rfl
    · exact Or.inl rfl
  | run =>
    cases pc <;> simp only [next, reduceCtorEq] at h
    case config =>
      -- tested and set in one section of `configlock`
      split at h
      · split at h <;> obtain rfl := Option.some.inj h
        · exact Steps.busy rfl
        · exact Steps.takeConfig rfl (by simpa using ‹¬ mydev.configOpened = true›)
      · obtain rfl := Option.some.inj h
        exact Steps.noConfig rfl
    case error ret =>
      obtain rfl := Option.some.inj h
      exact Steps.fail rfl
    case addref =>
      obtain rfl := Option.some.inj h
      exact Steps.addref rfl
    case openInfo =>
      obtain rfl := Option.some.inj h
      exact Steps.use rfl rfl
    case release =>
      split at h <;> obtain rfl := Option.some.inj h
      · exact Steps.clearConfig rfl ‹_›
      · exact Steps.noClear rfl (by simpa using ‹¬ isConfig = true›)
    case relref =>
      obtain rfl := Option.some.inj h
      exact Steps.relref rfl
    case wake ref =>
      obtain rfl := Option.some.inj h
      exact Steps.tail (Or.inl ⟨ref, rfl, rfl⟩)
    case releaseInfo =>
      obtain rfl := Option.some.inj h
      exact Steps.tail (Or.inr ⟨rfl, rfl⟩)
  | read =>
    cases pc <;> simp only [next, reduceCtorEq] at h
    obtain rfl := Option.some.inj h
    exact Steps.use rfl rfl
  | write v =>
    cases pc <;> simp only [next, reduceCtorEq] at h
    split at h <;> obtain rfl := Option.some.inj h
    · exact Steps.use rfl rfl
    · exact Steps.use rfl rfl
  | op k =>
    cases pc <;> simp only [next, reduceCtorEq] at h
    obtain ⟨op, -, rfl⟩ := Option.map_eq_some_iff.mp h
    cases op <;> exact Steps.use rfl rfl
  | release =>
    -- `release` comes when no operation is in progress
    cases pc <;> simp only [next, reduceCtorEq] at h
    split at h
    case h_1 =>
      obtain rfl := Option.some.inj h
      exact Steps.use rfl rfl
    case h_2 => cases h

/-! ## The configuration

`config_opened` is set by the context that gets the configuration and cleared by the same
one. As it is tested and set in one section, no second context gets it in between. -/

/-- The invariant of `configlock`: the contexts that hold the configuration,
none or one, are counted by `config_opened`. -/
structure State.ConfigExact (s : State) : Prop where
  /-- the count -/
  count : s.clients.countP Client.holdsConfig = s.mydev.configOpened.toNat
  /-- early contexts are not configuration contexts -/
  fresh : ∀ c ∈ s.clients, c.Fresh

theorem Client.Steps.fresh {mydev : Mydevice} {c : Client} {e : Event} {r : Mydevice × Client}
    (h : c.Steps mydev e r) (hc : c.Fresh) : r.2.Fresh := by
  cases h with
  | alloc hpc hpc' =>
    simp only [Fresh, hpc] at hc
    rcases hpc' with rfl | rfl <;> exact hc
  | busy hpc =>
    simp only [Fresh, hpc] at hc
    exact hc
  | use hpc hpc' =>
    rename_i pc
    cases pc <;> trivial
  | tail hpc => rcases hpc with ⟨ref, -, rfl⟩ | ⟨-, rfl⟩ <;> trivial
  | takeConfig | noConfig | fail | addref | clearConfig | noClear | relref => trivial

/-- What a context takes or gives up is what `config_opened` loses or gains. -/
theorem Client.Steps.holdsConfig {mydev : Mydevice} {c : Client} {e : Event}
    {r : Mydevice × Client} (h : c.Steps mydev e r) (hc : c.Fresh)
    (hopen : c.holdsConfig = true → mydev.configOpened = true) :
    mydev.configOpened.toNat + r.2.holdsConfig.toNat =
      r.1.configOpened.toNat + c.holdsConfig.toNat := by
  cases h with
  | alloc hpc hpc' =>
    simp only [Fresh, hpc] at hc
    simp only [Client.holdsConfig, hc, Bool.false_and]
  | busy hpc | noConfig hpc | fail hpc =>
    simp only [Fresh, hpc] at hc
    simp only [Client.holdsConfig, hc, Bool.false_and]
  | takeConfig hpc hfree =>
    simp only [Fresh, hpc] at hc
    simp only [Client.holdsConfig, hc, hfree]
    rfl
  | addref hpc =>
    simp only [Client.holdsConfig, hpc]
    rfl
  | use hpc hpc' =>
    simp only [Client.holdsConfig, Pc.cleared_of_inUse hpc, Pc.cleared_of_inUse hpc']
  | clearConfig hpc hcfg =>
    have hheld : c.holdsConfig = true := by
      simp only [Client.holdsConfig, hcfg, hpc]
      rfl
    rw [hheld, hopen hheld]
    simp only [Client.holdsConfig, hcfg]
    rfl
  | noClear hpc hcfg => simp only [Client.holdsConfig, hcfg, Bool.false_and]
  | relref hpc =>
    simp only [Client.holdsConfig, hpc, relref_configOpened]
    rfl
  | tail hpc =>
    rcases hpc with ⟨ref, hpc, rfl⟩ | ⟨hpc, rfl⟩ <;> simp only [Client.holdsConfig, hpc] <;> rfl

theorem State.ConfigExact.step {s t : State} {a : Act} (h : s.ConfigExact)
    (hs : Mydev.step s a = some t) : t.ConfigExact := by
  obtain ⟨w, -, rfl⟩ | ⟨i, e, c, r, -, hc, hr, rfl⟩ := step_cases hs
  · refine ⟨?_, List.forall_mem_append.mpr ⟨h.fresh, List.forall_mem_singleton.mpr rfl⟩⟩
    rw [List.countP_append, h.count]
    rfl
  · have hsteps := Client.next_steps hr
    have hfresh := h.fresh c (List.mem_of_getElem? hc)
    have hopen : c.holdsConfig = true → s.mydev.configOpened = true := fun hheld => by
      have hpos := List.countP_pos_iff.mpr ⟨c, List.mem_of_getElem? hc, hheld⟩
      rw [h.count] at hpos
      cases hcfg : s.mydev.configOpened
      · rw [hcfg] at hpos
        cases hpos
      · rfl
    refine ⟨?_, fun d hd => ?_⟩
    · have hcount := countP_set_add Client.holdsConfig hc r.2
      have hstep := hsteps.holdsConfig hfresh hopen
      rw [h.count] at hcount
      simp only
      omega
    · rcases List.mem_or_eq_of_mem_set hd with hd | rfl
      · exact h.fresh d hd
      · exact hsteps.fresh hfresh

theorem reach_config {s : State} {ok : State → Act → Prop} (h : device.Reach ok s) :
    s.ConfigExact :=
  h.invariant ⟨rfl, fun _ hc => absurd hc List.not_mem_nil⟩ fun _ _ _ hi _ hs => hi.step hs

/-! ## The reference count

Each context counts once, from its `addref` to its `relref`. The sum over the files is
what the counter holds, as long as it fits an `int`; beyond that it is so modulo `2 ^ 32`,
and for telling some users from none that is enough. -/

theorem Client.counted_of_inUse {c : Client} (h : c.pc.inUse = true) : c.counted = true := by
  obtain ⟨fmodeWrite, isConfig, pc⟩ := c
  cases pc <;> first | rfl | cases h

/-- The invariant of `reflock`, with `users` contexts counted, fewer than `n`. -/
structure RefExact (n users : ℕ) (mydev : Mydevice) : Prop where
  /-- the bound -/
  users_lt : users < n
  /-- the count, as an `int` -/
  reference : mydev.reference = wrap32 users
  /-- no `relref` has found it at 0 -/
  notZero : mydev.wasZero = false

/-- Two's complement tells 0 from every smaller number of users. -/
theorem wrap32_users_ne_zero {k : ℕ} (hpos : 0 < k) (hlt : k < 4294967296) : wrap32 k ≠ 0 := by
  simp only [wrap32]
  omega

/-- `addref` counts one more, its own context. -/
theorem RefExact.addref {n users : ℕ} {mydev : Mydevice} (h : RefExact n users mydev)
    (hbelow : users + 1 < n) : RefExact n (users + 1) (Mydev.addref mydev) := by
  refine ⟨hbelow, ?_, h.notZero⟩
  simp only [Mydev.addref, h.reference, Int.natCast_add]
  exact wrap32_wrap32_add ..

/-- `relref` counts one less; it does not find the count at 0. -/
theorem RefExact.relref {n users : ℕ} {mydev : Mydevice} (hn : n ≤ 4294967296)
    (h : RefExact n (users + 1) mydev) : RefExact n users (Mydev.relref mydev).1 := by
  have hlt := h.users_lt
  have hne : mydev.reference ≠ 0 := by
    rw [h.reference]
    exact wrap32_users_ne_zero (Nat.succ_pos _) (by omega)
  simp only [Mydev.relref, if_neg hne]
  refine ⟨by omega, ?_, h.notZero⟩
  simp only [h.reference, Int.sub_eq_add_neg, wrap32_wrap32_add]
  congr 1
  omega

/-- A step of a file keeps the count exact; only `addref` and `relref` move it
over the border. -/
theorem Client.Steps.refExact {n users users' : ℕ} {mydev : Mydevice} {c : Client} {e : Event}
    {r : Mydevice × Client} (hn : n ≤ 4294967296) (h : c.Steps mydev e r)
    (hexact : RefExact n users mydev)
    (hcount : users' + c.counted.toNat = users + r.2.counted.toNat)
    (hbelow : e = .run → c.pc = .addref → users + 1 < n) : RefExact n users' r.1 := by
  have hkeep : r.2.counted = c.counted → r.1.reference = mydev.reference →
      r.1.wasZero = mydev.wasZero → RefExact n users' r.1 := by
    intro hcnt href hzero
    rw [hcnt] at hcount
    obtain rfl := Nat.add_right_cancel hcount
    exact ⟨hexact.users_lt, href.trans hexact.reference, hzero.trans hexact.notZero⟩
  cases h with
  | alloc hpc hpc' =>
    exact hkeep (by rcases hpc' with rfl | rfl <;> simp only [Client.counted, hpc]) rfl rfl
  | busy hpc | takeConfig hpc | noConfig hpc | fail hpc | clearConfig hpc | noClear hpc =>
    exact hkeep (by simp only [Client.counted, hpc]) rfl rfl
  | use hpc hpc' =>
    exact hkeep ((Client.counted_of_inUse hpc').trans (Client.counted_of_inUse hpc).symm) rfl rfl
  | tail hpc =>
    exact hkeep (by rcases hpc with ⟨ref, hpc, rfl⟩ | ⟨hpc, rfl⟩ <;>
      simp only [Client.counted, hpc]) rfl rfl
  | addref hpc =>
    simp only [Client.counted, hpc, Bool.toNat_false, Bool.toNat_true] at hcount
    obtain rfl : users' = users + 1 := hcount
    exact hexact.addref (hbelow rfl hpc)
  | relref hpc =>
    simp only [Client.counted, hpc, Bool.toNat_false, Bool.toNat_true] at hcount
    obtain rfl : users = users' + 1 := hcount.symm
    exact hexact.relref hn

theorem refExact_step {n : ℕ} (hn : n ≤ 4294967296) {s t : State} {a : Act}
    (h : RefExact n s.users s.mydev) (ha : AddrefBelow n s a) (hs : Mydev.step s a = some t) :
    RefExact n t.users t.mydev := by
  obtain ⟨w, -, rfl⟩ | ⟨i, e, c, r, rfl, hc, hr, rfl⟩ := step_cases hs
  · have husers : State.users ⟨s.mydev, s.clients ++ [⟨w, false, .alloc⟩]⟩ = s.users := by
      simp only [State.users, List.countP_append]
      rfl
    rw [husers]
    exact h
  · refine (Client.next_steps hr).refExact hn h (countP_set_add Client.counted hc r.2) ?_
    rintro rfl hpc
    exact ha c hc hpc

/-- With fewer than `n` users after every `addref` the count is exact, modulo
`2 ^ 32`. -/
theorem reach_reference {n : ℕ} (hpos : 0 < n) (hn : n ≤ 4294967296) {s : State}
    (h : device.Reach (AddrefBelow n) s) : RefExact n s.users s.mydev :=
  h.invariant (I := fun s => RefExact n s.users s.mydev) ⟨hpos, wrap32_zero.symm, rfl⟩
    fun _ _ _ hi ha hs => refExact_step hn hi ha hs

/-! ## An open that fails

Looking back from the failure: an open that fails has done so before its `addref`, and
without the configuration. So it has changed nothing. -/

/-- A step of file `i` leaves the device and the other files as they are. -/
def Untouched (i : ℕ) (s : State) (a : Act) (t : State) : Prop :=
  ∀ e, a = .client i e → t.mydev = s.mydev ∧ ∀ j, j ≠ i → t.clients[j]? = s.clients[j]?

theorem Client.mayFail_of_inUse {c : Client} (h : c.pc.inUse = true) : c.mayFail = false := by
  obtain ⟨fmodeWrite, isConfig, pc⟩ := c
  cases pc <;> first | rfl | cases h

/-- Before a failure a file has not touched the device, and could fail. -/
theorem Client.Steps.mayFail {mydev : Mydevice} {c : Client} {e : Event}
    {r : Mydevice × Client} (h : c.Steps mydev e r) (hr : r.2.mayFail = true) :
    r.1 = mydev ∧ c.mayFail = true := by
  cases h with
  | alloc hpc => exact ⟨rfl, by simp only [Client.mayFail, hpc]⟩
  | busy hpc | fail hpc => exact ⟨rfl, by simp only [Client.mayFail, hpc]⟩
  | use hpc hpc' =>
    rw [Client.mayFail_of_inUse hpc'] at hr
    cases hr
  | tail hpc => rcases hpc with ⟨ref, -, rfl⟩ | ⟨-, rfl⟩ <;> cases hr
  | takeConfig | noConfig | addref | clearConfig | noClear | relref => cases hr

/-- A file that has failed in the end could fail all along. -/
theorem mayFail_of_exec {s t : State} {as : List Act} {i : ℕ} {c d : Client}
    (hexec : device.exec s as = some t) (hc : s.clients[i]? = some c)
    (hd : t.clients[i]? = some d) (hfail : d.mayFail = true) : c.mayFail = true := by
  induction as generalizing s c with
  | nil =>
    obtain rfl := Option.some.inj hexec
    obtain rfl := Option.some.inj (hc.symm.trans hd)
    exact hfail
  | cons a as ih =>
    rw [Lts.exec_cons] at hexec
    obtain ⟨s₁, hs, hrest⟩ := Option.bind_eq_some_iff.mp hexec
    obtain ⟨w, -, rfl⟩ | ⟨j, e, c', r, -, hc', hr, rfl⟩ := step_cases hs
    · have hlt : i < s.clients.length := (List.getElem?_eq_some_iff.mp hc).1
      exact ih hrest (by rw [List.getElem?_append_left hlt]; exact hc)
    · by_cases hij : j = i
      · subst hij
        obtain rfl := Option.some.inj (hc.symm.trans hc')
        have hset : (s.clients.set j r.2)[j]? = some r.2 :=
          List.getElem?_set_self (List.getElem?_eq_some_iff.mp hc).1
        exact ((Client.next_steps hr).mayFail (ih hrest hset)).2
      · exact ih hrest (by rw [List.getElem?_set_ne hij]; exact hc)

/-- An open that fails leaves the device untouched at every step. -/
theorem failed_untouched {s t : State} {as : List Act} {i : ℕ} {d : Client}
    (hexec : device.exec s as = some t) (hd : t.clients[i]? = some d)
    (hfail : d.mayFail = true) : device.Along (Untouched i) s as := by
  induction as generalizing s with
  | nil => exact Lts.Along.nil
  | cons a as ih =>
    rw [Lts.exec_cons] at hexec
    obtain ⟨s₁, hs, hrest⟩ := Option.bind_eq_some_iff.mp hexec
    refine Lts.Along.cons hs ?_ (ih hrest)
    obtain ⟨w, rfl, -⟩ | ⟨j, e', c, r, rfl, hc, hr, rfl⟩ := step_cases hs
    · exact fun e he => nomatch he
    intro e he
    obtain ⟨rfl, rfl⟩ := Act.client.inj he
    have hset : (s.clients.set j r.2)[j]? = some r.2 :=
      List.getElem?_set_self (List.getElem?_eq_some_iff.mp hc).1
    have hmay : r.2.mayFail = true := mayFail_of_exec hrest hset hd hfail
    exact ⟨((Client.next_steps hr).mayFail hmay).1, fun k hk => List.getElem?_set_ne hk.symm⟩

/-! ## The users of the device

The three invariants together, with what they mean for the files. -/

/-- **The users of `mydevice`**, any number of them, at every step:

* at most one context holds the configuration, and `config_opened` says
  whether one does;
* as long as fewer than `2 ^ 31` contexts are counted at once, `reference` is
  their number, is not negative, and is never found at 0 by a `relref`;
* the steps of an open that fails change neither the device nor another
  context.

The first part rests on `configlock` alone, whatever the number of users. The second
holds as long as the count fits an `int`; past that `reference` wraps to a negative
number. -/
theorem mydevice_users :
    (∀ s, device.Reach (fun _ _ => True) s →
      s.clients.countP Client.holdsConfig ≤ 1 ∧
      (s.mydev.configOpened = true ↔ ∃ c ∈ s.clients, c.holdsConfig = true)) ∧
    (∀ s, device.Reach (AddrefBelow 2147483648) s →
      s.mydev.reference = s.users ∧ 0 ≤ s.mydev.reference ∧ s.mydev.wasZero = false) ∧
    (∀ as t i c ret, device.exec device.init as = some t → t.clients[i]? = some c →
      c.pc = .failed ret → device.Along (Untouched i) device.init as) := by
  refine ⟨fun s h => ?_, fun s h => ?_, fun as t i c ret hexec hc hpc => ?_⟩
  · have hcount := (reach_config h).count
    rw [← List.countP_pos_iff, hcount]
    cases s.mydev.configOpened
    · exact ⟨Nat.zero_le _, by decide⟩
    · exact ⟨Nat.le_refl 1, by decide⟩
  · obtain ⟨hlt, href, hzero⟩ := reach_reference (by decide) (by decide) h
    rw [wrap32_of_range (by omega) (by simp only [intMax]; omega)] at href
    exact ⟨href, by omega, hzero⟩
  · exact failed_untouched hexec hc (by simp only [Client.mayFail, hpc])

theorem device_step (s : State) (a : Act) : device.step s a = step s a := rfl

/-- A file at the end of the list does a step. -/
theorem step_last {d : Mydevice} {l : List Client} {c : Client} {e : Event}
    {r : Mydevice × Client} (h : c.next d e = some r) :
    device.step ⟨d, l ++ [c]⟩ (.client l.length e) = some ⟨r.1, l ++ [r.2]⟩ := by
  have hc : (l ++ [c])[l.length]? = some c := List.getElem?_concat_length
  rw [device_step]
  simp only [step, hc, Option.bind_some, h, Option.map_some,
    List.set_append_right _ _ (Nat.le_refl _), Nat.sub_self, List.set_cons_zero]

/-- One more reader opens the device, and is counted. -/
theorem open_reader {s : State} (h : device.Reach (fun _ _ => True) s) :
    ∃ t, device.Reach (fun _ _ => True) t ∧
      t.mydev.reference = wrap32 (s.mydev.reference + 1) := by
  have hopen : device.step s (.open false) =
      some ⟨s.mydev, s.clients ++ [⟨false, false, .alloc⟩]⟩ := rfl
  have halloc := step_last (d := s.mydev) (l := s.clients) (c := ⟨false, false, .alloc⟩)
    (e := .alloc true) rfl
  have hconfig := step_last (d := s.mydev) (l := s.clients) (c := ⟨false, false, .config⟩)
    (e := .run) rfl
  have haddref := step_last (d := s.mydev) (l := s.clients) (c := ⟨false, false, .addref⟩)
    (e := .run) rfl
  have hall := (((h.step trivial hopen).step trivial halloc).step trivial hconfig).step trivial
    haddref
  exact ⟨_, hall, rfl⟩

/-- After `2 ^ 31` opens `reference` is negative, with all the files in use. -/
theorem reference_negative :
    ∃ s, device.Reach (fun _ _ => True) s ∧ s.mydev.reference < 0 := by
  have hall : ∀ n : ℕ, ∃ s, device.Reach (fun _ _ => True) s ∧ s.mydev.reference = wrap32 n := by
    intro n
    induction n with
    | zero => exact ⟨_, Lts.Reach.init, wrap32_zero.symm⟩
    | succ n ih =>
      obtain ⟨s, hs, href⟩ := ih
      obtain ⟨t, ht, href'⟩ := open_reader hs
      refine ⟨t, ht, ?_⟩
      rw [href', href, wrap32_wrap32_add, Int.natCast_succ]
  obtain ⟨s, hs, href⟩ := hall 2147483648
  refine ⟨s, hs, ?_⟩
  rw [href]
  decide

end Mydev

end KernelDrvLearn
