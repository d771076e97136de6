import KernelDrvLearn.Ownership

/-!
# Life cycles of kernel modules

A module is loaded and unloaded, and its driver is probed for devices and
removed from them, any number of times and with any of the calls in between
failing. The functions of a module are given by what they acquire, check and
release on each of their paths (`Proc`), and a run of the system leaves the list
of marks of `Ownership`: what was obtained, used and freed, and for which device.

* `Kmod` — a module: its `init` and `exit`, and the `probe` and `remove` of the
  driver it registers. `Kmod.system` is the system.
* `Kmod.Clean` — nothing was misused so far, and what is held is exactly what
  `exit` and, for each bound device, `remove` would give back: after a failed
  `init` and after `exit` nothing.
* `Kmod.Sound`, `Kmod.InitFits`, `Kmod.ExitFits` — checks of single paths, for one
  device. By `Kmod.clean_iff` they decide every run over any number of devices.
-/

namespace KernelDrvLearn

namespace Lifecycle

universe u v

/-! ## Functions

The code of `init`, `probe`, `remove` and `exit` as far as resources are concerned. A
function is a tree, its paths are the ways its calls may turn out, and what happens along
a path is a list of marks. -/

/-- What a function returns: 0, the error of a call, or a number of its own. -/
inductive Value where
  /-- 0 -/
  | zero
  /-- the error of the call that failed -/
  | errno
  /-- a number of its own -/
  | const (c : Int)
  deriving DecidableEq

/-- The number returned, `e` being the error of the call that failed. -/
def Value.eval (e : Int) : Value → Int
  | zero => 0
  | errno => e
  | const c => c

/-- It is negative, as errors are, whatever call has failed. -/
def Value.IsError (v : Value) : Prop := ∀ e < 0, v.eval e < 0

instance : DecidablePred Value.IsError
  | .zero => isFalse fun h => absurd (h (-1) (by decide)) (by decide)
  | .errno => isTrue fun _ he => he
  | .const c => decidable_of_iff (c < 0) ⟨fun h _ _ => h, fun h => h (-1) (by decide)⟩

/-- The code of a function: a tree with a branch for each call that may fail. -/
inductive Proc (ρ : Type u) where
  /-- `return v;` -/
  | ret (v : Value)
  /-- acquire, and set the pointer to what was acquired -/
  | get (r : ρ) (err next : Proc ρ)
  /-- acquire for as long as the device is bound -/
  | devm (r : ρ) (err next : Proc ρ)
  /-- a call that may fail and acquires nothing -/
  | check (err next : Proc ρ)
  /-- acquire, which cannot fail -/
  | set (r : ρ) (next : Proc ρ)
  /-- release -/
  | put (r : ρ) (next : Proc ρ)
  /-- set the pointer to `NULL` -/
  | null (r : ρ) (next : Proc ρ)

/-- What happened on the way through a function. -/
structure Path (ρ : Type u) where
  /-- what was done with resources -/
  marks : List (Mark ρ)
  /-- what the device has to give back by itself, latest first -/
  devres : List ρ
  /-- the pointers that are not `NULL` -/
  vars : List ρ
  /-- what was returned -/
  value : Value

/-- Nothing happened yet: the beginning of every way. -/
def Path.start {ρ : Type u} : Path ρ := ⟨[], [], [], .zero⟩

variable {ρ : Type u} [DecidableEq ρ]

section

variable (needs : ρ → List ρ)

/-- Use what `r` rests on, as acquiring and releasing it does. -/
def uses (r : ρ) : List (Mark ρ) := (needs r).map (⟨.used, ·⟩)

/-- Release `r`, using what it rests on once more. -/
def release (r : ρ) : List (Mark ρ) := uses needs r ++ [⟨.freed, r⟩]

/-- Release one after another, in the order of the list. -/
def releases (rs : List ρ) : List (Mark ρ) := rs.flatMap (release needs)

/-- Marks added to a path, behind those that are there. -/
def Path.mark (p : Path ρ) (l : List (Mark ρ)) : Path ρ := { p with marks := p.marks ++ l }

/-- The call acquired `r`, and its pointer is set. -/
def Path.got (p : Path ρ) (r : ρ) : Path ρ :=
  { p.mark (uses needs r ++ [⟨.obtained, r⟩]) with vars := r :: p.vars }

/-- The call acquired `r` for the device. -/
def Path.managed (p : Path ρ) (r : ρ) : Path ρ :=
  { p.got needs r with devres := r :: p.devres }

/-- The pointer was set to `NULL`, so the tests that follow take the resource for one that
is not there. -/
def Path.null (p : Path ρ) (r : ρ) : Path ρ := { p with vars := p.vars.filter (· ≠ r) }

/-- The function with the given calls succeeding; calls without an entry fail. -/
def Proc.run : Proc ρ → List Bool → Path ρ → Path ρ
  | ret v, _, p => { p with value := v }
  | get r err next, oks, p =>
    if oks.headD false then next.run oks.tail (p.got needs r)
    else err.run oks.tail (p.mark (uses needs r))
  | devm r err next, oks, p =>
    if oks.headD false then next.run oks.tail (p.managed needs r)
    else err.run oks.tail (p.mark (uses needs r))
  | check err next, oks, p =>
    if oks.headD false then next.run oks.tail p else err.run oks.tail p
  | set r next, oks, p => next.run oks (p.got needs r)
  | put r next, oks, p => next.run oks (p.mark (release needs r))
  | null r next, oks, p => next.run oks (p.null r)

/-- All ways through a function, one for each way its calls may turn out. -/
def Proc.paths : Proc ρ → Path ρ → List (Path ρ)
  | ret v, p => [{ p with value := v }]
  | get r err next, p => next.paths (p.got needs r) ++ err.paths (p.mark (uses needs r))
  | devm r err next, p => next.paths (p.managed needs r) ++ err.paths (p.mark (uses needs r))
  | check err next, p => next.paths p ++ err.paths p
  | set r next, p => next.paths (p.got needs r)
  | put r next, p => next.paths (p.mark (release needs r))
  | null r next, p => next.paths (p.null r)

theorem Proc.run_mem_paths (c : Proc ρ) (oks : List Bool) (p : Path ρ) :
    c.run needs oks p ∈ c.paths needs p := by
  induction c generalizing oks p with
  | ret v => exact List.mem_singleton_self _
  | get r err next ihe ihn | devm r err next ihe ihn | check err next ihe ihn =>
    rw [run, paths, List.mem_append]
    split
    · exact Or.inl (ihn _ _)
    · exact Or.inr (ihe _ _)
  | set r next ih | put r next ih | null r next ih => exact ih _ _

end

/-! ## What a function returns

A function reports a failure when it returns an error exactly if a call has failed
that it needs. Some calls it can do without: a module loads without its test devices.
Whether a function reports is checked along its tree (`Tells`), with what has
happened so far as one bit. -/

section

variable (optional : ρ → Bool)

/-- Has a call failed that the function needs? It can do without the resources that
are `optional`. -/
def Proc.fails : Proc ρ → List Bool → Bool
  | ret _, _ => false
  | get r err next, oks =>
    if oks.headD false then next.fails oks.tail else !optional r || err.fails oks.tail
  | devm r err next, oks =>
    if oks.headD false then next.fails oks.tail else !optional r || err.fails oks.tail
  | check _ next, oks => if oks.headD false then next.fails oks.tail else true
  | set _ next, oks => next.fails oks
  | put _ next, oks => next.fails oks
  | null _ next, oks => next.fails oks

/-- On each way from here on, the function returns an error if a call has failed
that it needs, on this way or before, and 0 otherwise. -/
def Proc.Tells : Bool → Proc ρ → Prop
  | failed, ret v => if failed = true then v.IsError else v = .zero
  | failed, get r err next => Tells failed next ∧ Tells (failed || !optional r) err
  | failed, devm r err next => Tells failed next ∧ Tells (failed || !optional r) err
  | failed, check err next => Tells failed next ∧ Tells true err
  | failed, set _ next => Tells failed next
  | failed, put _ next => Tells failed next
  | failed, null _ next => Tells failed next

instance Proc.Tells.decidable : ∀ (failed : Bool) (c : Proc ρ), Decidable (c.Tells optional failed)
  | _, ret _ => inferInstanceAs (Decidable (ite _ _ _))
  | failed, get r err next =>
    have := Tells.decidable failed next
    have := Tells.decidable (failed || !optional r) err
    inferInstanceAs (Decidable (_ ∧ _))
  | failed, devm r err next =>
    have := Tells.decidable failed next
    have := Tells.decidable (failed || !optional r) err
    inferInstanceAs (Decidable (_ ∧ _))
  | failed, check err next =>
    have := Tells.decidable failed next
    have := Tells.decidable true err
    inferInstanceAs (Decidable (_ ∧ _))
  | failed, set _ next => Tells.decidable failed next
  | failed, put _ next => Tells.decidable failed next
  | failed, null _ next => Tells.decidable failed next

variable {optional}

/-- What the check says of a way. -/
theorem Proc.Tells.run {needs : ρ → List ρ} {failed : Bool} {c : Proc ρ}
    (h : c.Tells optional failed) (oks : List Bool) (p : Path ρ) :
    if (failed || c.fails optional oks) = true then (c.run needs oks p).value.IsError
    else (c.run needs oks p).value = .zero := by
  induction c generalizing failed oks p with
  | ret v =>
    rw [fails, Bool.or_false]
    exact h
  | get r err next ihe ihn | devm r err next ihe ihn =>
    rw [fails, Proc.run]
    split
    · exact ihn h.1 _ _
    · rw [← Bool.or_assoc]
      exact ihe h.2 _ _
  | check err next ihe ihn =>
    rw [fails, Proc.run]
    split
    · exact ihn h.1 _ _
    · have herr := ihe h.2 oks.tail p
      rw [Bool.true_or] at herr
      rw [Bool.or_true]
      exact herr
  | set r next ih | put r next ih | null r next ih => exact ih h _ _

end

/-! ## Modules

A module is its functions. It is loaded if `init` succeeds, bound to a device if `probe`
does, and unloaded by `exit`, which unregisters the driver; at that point the driver core
removes the devices still bound. -/

/-- A step of an `exit` function: it releases something, always, or if a pointer is set,
or for every bound device. -/
inductive Exit (ρ : Type u) where
  /-- release -/
  | put (r : ρ)
  /-- release if the pointer is not `NULL` -/
  | putIf (v : ρ) (rs : List ρ)
  /-- unregister the driver: it is removed from every bound device first -/
  | unregister (r : ρ)
  /-- free this of every bound device -/
  | putAll (r : ρ)

/-- A driver: what is done when a device is bound and when it is removed. -/
structure Driver (ρ : Type u) where
  /-- `probe` -/
  probe : Proc ρ
  /-- `remove` -/
  remove : List ρ

/-- A module: its functions, and what they rest on. -/
structure Kmod (ρ : Type u) where
  /-- the resources that are not of one device -/
  shared : ρ → Bool
  /-- what has to be there to acquire and to release a resource -/
  needs : ρ → List ρ
  /-- `module_init` -/
  init : Proc ρ
  /-- `module_exit` -/
  exit : List (Exit ρ)
  /-- the driver it registers, if any -/
  driver : Option (Driver ρ)

variable {δ : Type v}

/-- The module, the devices it is bound to, and what happened so far. -/
structure State (ρ : Type u) (δ : Type v) where
  /-- the module's pointers, if it is loaded -/
  loaded : Option (List ρ)
  /-- the bound devices, with what they give back by themselves -/
  bound : List (δ × List ρ)
  /-- what was done with resources -/
  marks : List (Mark (ρ × Option δ))

/-- What may happen. Calls that may fail succeed where the list says so. -/
inductive Act (ρ : Type u) (δ : Type v) where
  /-- `insmod` -/
  | load (oks : List Bool)
  /-- the driver core probes a device -/
  | probe (d : δ) (oks : List Bool)
  /-- the driver core removes the driver from a device -/
  | remove (d : δ)
  /-- `rmmod`, the bound devices being removed in this order -/
  | unload (order : List (δ × List ρ))

namespace Kmod

variable (M : Kmod ρ)

/-- A resource of the module or of a device. -/
def place (d : Option δ) : ρ ↪ ρ × Option δ where
  toFun r := (r, if M.shared r then none else d)
  inj' _ _ h := (Prod.mk.inj h).1

/-- Marks in a call for a device, or for none. -/
def on (d : Option δ) (l : List (Mark ρ)) : List (Mark (ρ × Option δ)) :=
  l.map (Mark.map (M.place d))

/-- The ways through `init`, from nothing. -/
def initPaths : List (Path ρ) := M.init.paths M.needs .start

/-- `init`, with the result of each call given in the order in which it makes them. -/
def runInit (oks : List Bool) : Path ρ := M.init.run M.needs oks .start

/-- What `remove` releases, if there is a driver. -/
def removed : List ρ := M.driver.elim [] Driver.remove

/-- What happens when a device is removed that has `devres` to give back. -/
def leave (devres : List ρ) : List (Mark ρ) := releases M.needs (M.removed ++ devres)

/-- What `exit` does, with these pointers and these bound devices. -/
def exitMarks (vars : List ρ) : List (Exit ρ) → List (δ × List ρ) → List (Mark (ρ × Option δ))
  | [], _ => []
  | .put r :: es, bound => M.on none (release M.needs r) ++ exitMarks vars es bound
  | .putIf v rs :: es, bound =>
    M.on none (if v ∈ vars then releases M.needs rs else []) ++ exitMarks vars es bound
  | .unregister r :: es, bound =>
    bound.flatMap (fun b => M.on (some b.1) (M.leave b.2)) ++ M.on none (release M.needs r) ++
      exitMarks vars es []
  | .putAll r :: es, bound =>
    bound.map (fun b => ⟨.freed, M.place (some b.1) r⟩) ++ exitMarks vars es bound

/-- One call of the module, by the kernel. -/
def step [DecidableEq δ] (s : State ρ δ) : Act ρ δ → Option (State ρ δ)
  | .load oks =>
    match s.loaded with
    | some _ => none
    | none =>
      let p := M.runInit oks
      some { s with
        loaded := if p.value = .zero then some p.vars else none
        marks := s.marks ++ M.on none p.marks }
  | .probe d oks =>
    match s.loaded, M.driver with
    | some _, some drv =>
      if d ∈ s.bound.map Prod.fst then none
      else
        let p := drv.probe.run M.needs oks .start
        if p.value = .zero then
          some { s with
            bound := (d, p.devres) :: s.bound
            marks := s.marks ++ M.on (some d) p.marks }
        -- a failed probe: the driver core gives back what was acquired for the device
        else some { s with
            marks := s.marks ++ M.on (some d) (p.marks ++ releases M.needs p.devres) }
    | _, _ => none
  | .remove d =>
    (s.bound.find? (·.1 = d)).map fun b =>
      { s with bound := s.bound.erase b, marks := s.marks ++ M.on (some d) (M.leave b.2) }
  | .unload order =>
    match s.loaded with
    | none => none
    | some vars =>
      if order.Perm s.bound then
        some ⟨none, [], s.marks ++ M.exitMarks vars M.exit order⟩
      else none

/-- The module and any number of devices; it is not loaded yet. -/
def system (δ : Type v) [DecidableEq δ] : Lts (State ρ δ) (Act ρ δ) where
  init := ⟨none, [], []⟩
  step := M.step

/-- `init`, and the `probe` of each device, return 0 if no call fails that they need,
and otherwise an error. -/
def Reports (optional : ρ → Bool) : Prop :=
  ∀ oks, (if M.init.fails optional oks = true then (M.runInit oks).value.IsError
      else (M.runInit oks).value = .zero) ∧
    ∀ drv ∈ M.driver, if drv.probe.fails optional oks = true
      then (drv.probe.run M.needs oks .start).value.IsError
      else (drv.probe.run M.needs oks .start).value = .zero

/-- What the module holds when it is loaded, with these pointers: what `exit`
releases of it. -/
def loadedHeld (vars : List ρ) : List ρ :=
  M.exit.flatMap fun
    | .put r | .unregister r => [r]
    | .putIf v rs => if v ∈ vars then rs else []
    | .putAll _ => []

/-- What the devices hold: what their removal releases. -/
def boundHeld (bound : List (δ × List ρ)) : List (ρ × Option δ) :=
  bound.flatMap fun b => (M.removed ++ b.2).map (M.place (some b.1))

/-- What is still to be released: what the module itself holds, and what each bound device
does. -/
def holds (s : State ρ δ) : List (ρ × Option δ) :=
  s.loaded.elim [] (fun vars => (M.loadedHeld vars).map (M.place none)) ++ M.boundHeld s.bound

/-- Nothing was misused, and what is held is what is still to be released. -/
def Clean [DecidableEq δ] (s : State ρ δ) : Prop := Owned (M.holds s) s.marks

/-! ## Checks

Conditions on single functions, which can be evaluated: on every path a function leaves
what the next one expects. Each is about a handful of resources, and about one device in
place of any number. -/

/-- The ways through `probe`, with the module loaded. -/
def probePaths : List (Path ρ) := M.driver.elim [] (·.probe.paths M.needs .start)

/-- A way through `init` leaves what `exit` releases, or nothing when it fails. -/
def InitFits (p : Path ρ) : Prop :=
  Replays [] p.marks (if p.value = .zero then M.loadedHeld p.vars else [])

instance (p : Path ρ) : Decidable (M.InitFits p) := inferInstanceAs (Decidable (Replays _ _ _))

/-- The ways through `init` that load the module. -/
def loads : List (Path ρ) := M.initPaths.filter fun q => q.value = .zero ∧ M.InitFits q

/-- With `A` held, a way through `probe` leaves in addition what `remove` and the
driver core release, or nothing when it fails. -/
def ProbeFits (A : List ρ) (p : Path ρ) : Prop :=
  if p.value = .zero then Replays A p.marks (A ++ (M.removed ++ p.devres))
  else Replays A (p.marks ++ releases M.needs p.devres) A

instance (A : List ρ) (p : Path ρ) : Decidable (M.ProbeFits A p) :=
  inferInstanceAs (Decidable (ite _ _ _))

/-- With `A` held by the module, removal releases all that a probe acquired. -/
def LeaveFits (A : List ρ) : Prop :=
  ∀ p ∈ M.probePaths, p.value = .zero →
    Replays (A ++ (M.removed ++ p.devres)) (M.leave p.devres) A

instance (A : List ρ) : Decidable (M.LeaveFits A) :=
  inferInstanceAs (Decidable (∀ p ∈ M.probePaths, p.value = .zero → Replays _ _ _))

/-- With `A` held by the module, the rest of `exit` releases all of it, and, if
devices may still be bound, all that they hold. -/
def ExitFits (vars : List ρ) : Bool → List (Exit ρ) → List ρ → Prop
  | busy, [], A => (busy = true → M.driver = none) ∧ A = []
  | busy, .put r :: es, A =>
    Replays A (release M.needs r) (A.erase r) ∧ ExitFits vars busy es (A.erase r)
  | busy, .putIf v rs :: es, A =>
    if v ∈ vars then
      Replays A (releases M.needs rs) (A.diff rs) ∧ ExitFits vars busy es (A.diff rs)
    else ExitFits vars busy es A
  | busy, .unregister r :: es, A =>
    (busy = true → M.LeaveFits A) ∧ Replays A (release M.needs r) (A.erase r) ∧
      ExitFits vars false es (A.erase r)
  | busy, .putAll _ :: es, A => busy = false ∧ ExitFits vars busy es A

instance ExitFits.decidable (vars : List ρ) :
    ∀ busy es A, Decidable (M.ExitFits vars busy es A)
  | _, [], _ => inferInstanceAs (Decidable (_ ∧ _))
  | busy, .put r :: es, A =>
    have := ExitFits.decidable vars busy es (A.erase r)
    inferInstanceAs (Decidable (_ ∧ _))
  | busy, .putIf _ rs :: es, A =>
    have := ExitFits.decidable vars busy es (A.diff rs)
    have := ExitFits.decidable vars busy es A
    inferInstanceAs (Decidable (ite _ _ _))
  | _, .unregister r :: es, A =>
    have := ExitFits.decidable vars false es (A.erase r)
    inferInstanceAs (Decidable (_ ∧ _ ∧ _))
  | busy, .putAll _ :: es, A =>
    have := ExitFits.decidable vars busy es A
    inferInstanceAs (Decidable (_ ∧ _))

/-- The checks that make the devices independent of each other. -/
structure Sound : Prop where
  /-- what `exit` releases is not of one device -/
  shared : ∀ q ∈ M.initPaths, ∀ r ∈ M.loadedHeld q.vars, M.shared r = true
  /-- what a removal releases is of one device -/
  own : ∀ p ∈ M.probePaths, ∀ r ∈ M.removed ++ p.devres, M.shared r = false
  /-- a probe puts back what it acquired, or leaves what its removal releases -/
  probe : ∀ q ∈ M.loads, ∀ p ∈ M.probePaths, M.ProbeFits (M.loadedHeld q.vars) p
  /-- removal releases it -/
  leave : ∀ q ∈ M.loads, M.LeaveFits (M.loadedHeld q.vars)
  /-- with no device bound `exit` releases the rest -/
  exit : ∀ q ∈ M.loads, M.ExitFits q.vars false M.exit (M.loadedHeld q.vars)

instance : Decidable M.Sound :=
  decidable_of_iff (_ ∧ _ ∧ _ ∧ _ ∧ _)
    ⟨fun h => ⟨h.1, h.2.1, h.2.2.1, h.2.2.2.1, h.2.2.2.2⟩,
      fun h => ⟨h.shared, h.own, h.probe, h.leave, h.exit⟩⟩

/-! ## Devices

From one device to any number. The resources of a device carry its number, so the marks of
a call for one device mention nothing of the others, and a check that was made on one
device holds among all of them. -/

/-- The devices were bound by a probe, and are distinct. -/
structure Bound (bound : List (δ × List ρ)) : Prop where
  /-- each was bound by a probe -/
  probed : ∀ b ∈ bound, ∃ p ∈ M.probePaths, p.value = .zero ∧ p.devres = b.2
  /-- they are distinct -/
  nodup : (bound.map Prod.fst).Nodup

variable {M} {bound order : List (δ × List ρ)} {b : δ × List ρ} {d : δ} {A B vars : List ρ}
  {m : List (Mark ρ)} {l : List (Mark (ρ × Option δ))}

theorem Bound.nil : M.Bound ([] : List (δ × List ρ)) := ⟨by simp, List.nodup_nil⟩

theorem Bound.perm (h : M.Bound bound) (hperm : order.Perm bound) : M.Bound order where
  probed b hb := h.probed b (hperm.mem_iff.mp hb)
  nodup := (hperm.map Prod.fst).nodup_iff.mpr h.nodup

theorem Bound.tail (h : M.Bound (b :: bound)) : M.Bound bound where
  probed c hc := h.probed c (List.mem_cons_of_mem _ hc)
  nodup := (List.nodup_cons.mp h.nodup).2

/-- Without a driver no device is bound. -/
theorem Bound.eq_nil (h : M.Bound bound) (hdriver : M.driver = none) : bound = [] := by
  refine List.eq_nil_iff_forall_not_mem.mpr fun b hb => ?_
  obtain ⟨p, hp, -⟩ := h.probed b hb
  rw [probePaths, hdriver] at hp
  exact List.not_mem_nil hp

theorem Bound.notMem (h : M.Bound (b :: bound)) : b.1 ∉ bound.map Prod.fst :=
  (List.nodup_cons.mp h.nodup).1

omit [DecidableEq ρ] in
@[simp] theorem boundHeld_nil : M.boundHeld ([] : List (δ × List ρ)) = [] := rfl

omit [DecidableEq ρ] in
theorem boundHeld_cons :
    M.boundHeld (b :: bound) = (M.removed ++ b.2).map (M.place (some b.1)) ++ M.boundHeld bound :=
  List.flatMap_cons

omit [DecidableEq ρ] in
theorem boundHeld_perm (hperm : order.Perm bound) :
    (M.boundHeld order).Perm (M.boundHeld bound) :=
  hperm.flatMap_right _

omit [DecidableEq ρ] in
/-- What is not of one device is the same in every call. -/
theorem map_place (hA : ∀ r ∈ A, M.shared r = true) (d d' : Option δ) :
    A.map (M.place d) = A.map (M.place d') := by
  refine List.map_congr_left fun r hr => ?_
  change (r, ite _ none d) = (r, ite _ none d')
  rw [if_pos (hA r hr), if_pos (hA r hr)]

/-- A call for a device mentions nothing that the other devices hold. -/
theorem Sound.place_notMem (hM : M.Sound) (hbound : M.Bound bound)
    (hd : d ∉ bound.map Prod.fst) (r : ρ) : M.place (some d) r ∉ M.boundHeld bound := by
  intro hmem
  obtain ⟨b, hb, hr⟩ := List.mem_flatMap.mp hmem
  obtain ⟨r', hr', heq⟩ := List.mem_map.mp hr
  obtain ⟨p, hp, -, hdevres⟩ := hbound.probed b hb
  have hown := hM.own p hp r' (hdevres ▸ hr')
  obtain ⟨rfl, hdev⟩ := Prod.mk.inj heq
  simp only [hown, Bool.false_eq_true, if_false, Option.some.injEq] at hdev
  exact hd (hdev ▸ List.mem_map_of_mem hb)

/-- A call for no device mentions nothing that the devices hold. -/
theorem Sound.place_none_notMem (hM : M.Sound) (hbound : M.Bound bound) (r : ρ) :
    M.place none r ∉ M.boundHeld bound := by
  intro hmem
  obtain ⟨b, hb, hr⟩ := List.mem_flatMap.mp hmem
  obtain ⟨r', hr', heq⟩ := List.mem_map.mp hr
  obtain ⟨p, hp, -, hdevres⟩ := hbound.probed b hb
  have hown := hM.own p hp r' (hdevres ▸ hr')
  obtain ⟨rfl, hdev⟩ := Prod.mk.inj heq
  simp [hown] at hdev

variable [DecidableEq δ]

/-- A call for no device does among all resources what it does on the module's own. -/
theorem Sound.on_none (hM : M.Sound) (hbound : M.Bound bound) (hm : Replays A m B)
    (h : Owned (A.map (M.place none) ++ M.boundHeld bound) l) :
    Owned (B.map (M.place none) ++ M.boundHeld bound) (l ++ M.on none m) :=
  h.replay hm fun a _ => hM.place_none_notMem hbound a.res

/-- A call for a device that is not bound does what it does on its own. -/
theorem Sound.on_some (hM : M.Sound) (hbound : M.Bound bound) (hd : d ∉ bound.map Prod.fst)
    (hm : Replays A m B) (h : Owned (A.map (M.place (some d)) ++ M.boundHeld bound) l) :
    Owned (B.map (M.place (some d)) ++ M.boundHeld bound) (l ++ M.on (some d) m) :=
  h.replay hm fun a _ => hM.place_notMem hbound hd a.res

/-- **Removal of a device** releases what its probe has acquired, and nothing of another
device. -/
theorem Sound.leave_one (hM : M.Sound) (hA : ∀ r ∈ A, M.shared r = true)
    (hfits : M.LeaveFits A) (hbound : M.Bound (b :: bound))
    (h : Owned (A.map (M.place none) ++ M.boundHeld (b :: bound)) l) :
    Owned (A.map (M.place none) ++ M.boundHeld bound) (l ++ M.on (some b.1) (M.leave b.2)) := by
  obtain ⟨p, hp, hzero, hdevres⟩ := hbound.probed b List.mem_cons_self
  rw [boundHeld_cons, map_place hA none (some b.1), ← List.append_assoc, ← List.map_append] at h
  rw [map_place hA none (some b.1)]
  exact hM.on_some hbound.tail hbound.notMem (hdevres ▸ hfits p hp hzero) h

/-- Removal of all devices, one after the other, leaves what the module holds. -/
theorem Sound.leave_all (hM : M.Sound) (hA : ∀ r ∈ A, M.shared r = true)
    (hfits : M.LeaveFits A) (hbound : M.Bound bound)
    (h : Owned (A.map (M.place none) ++ M.boundHeld bound) l) :
    Owned (A.map (M.place none))
      (l ++ bound.flatMap fun b => M.on (some b.1) (M.leave b.2)) := by
  induction bound generalizing l with
  | nil => simpa using h
  | cons b bound ih =>
    have hrest := ih hbound.tail (hM.leave_one hA hfits hbound h)
    simpa [List.flatMap_cons] using hrest

/-- **`exit`.** What passes the check releases all. -/
theorem Sound.exit_owned (hM : M.Sound) {es : List (Exit ρ)} {busy : Bool}
    (hA : ∀ r ∈ A, M.shared r = true) (hfits : M.ExitFits vars busy es A)
    (hbusy : busy = false → bound = []) (hbound : M.Bound bound)
    (h : Owned (A.map (M.place none) ++ M.boundHeld bound) l) :
    Owned [] (l ++ M.exitMarks vars es bound) := by
  induction es generalizing busy A bound l with
  | nil =>
    obtain ⟨hidle, rfl⟩ := hfits
    -- a module without a driver has no devices bound
    obtain rfl : bound = [] := by
      cases busy with
      | false => exact hbusy rfl
      | true => exact hbound.eq_nil (hidle rfl)
    simpa [exitMarks] using h
  | cons e es ih =>
    cases e with
    | put r =>
      obtain ⟨hrel, hrest⟩ := hfits
      rw [exitMarks, ← List.append_assoc]
      exact ih (fun x hx => hA x (List.mem_of_mem_erase hx)) hrest hbusy hbound
        (hM.on_none hbound hrel h)
    | putIf v rs =>
      rw [ExitFits] at hfits
      rw [exitMarks, ← List.append_assoc]
      split at hfits
      case isTrue hv =>
        obtain ⟨hrel, hrest⟩ := hfits
        rw [if_pos hv]
        exact ih (fun x hx => hA x ((List.diff_subset A rs) hx)) hrest hbusy hbound
          (hM.on_none hbound hrel h)
      case isFalse hv =>
        rw [if_neg hv]
        exact ih hA hfits hbusy hbound (by simpa [on] using h)
    | unregister r =>
      obtain ⟨hleave, hrel, hrest⟩ := hfits
      -- unregistering the driver removes it from every device first
      have hgone : Owned (A.map (M.place none))
          (l ++ bound.flatMap fun b => M.on (some b.1) (M.leave b.2)) := by
        cases busy with
        | false =>
          obtain rfl := hbusy rfl
          simpa using h
        | true => exact hM.leave_all hA (hleave rfl) hbound h
      have hfreed := hM.on_none Bound.nil hrel (by simpa using hgone)
      rw [exitMarks, ← List.append_assoc, ← List.append_assoc]
      exact ih (fun x hx => hA x (List.mem_of_mem_erase hx)) hrest (fun _ => rfl) Bound.nil hfreed
    | putAll r =>
      obtain ⟨hidle, hrest⟩ := hfits
      obtain rfl := hbusy hidle
      rw [exitMarks, List.map_nil, List.nil_append]
      exact ih hA hrest hbusy hbound h

/-! ## Runs

The checks of the single functions together: every call keeps the account, if it takes one
of the ways that fit. So whether a run is clean can be told from the ways its calls of
`init` and `exit` took. -/

variable {s t : State ρ δ} {a : Act ρ δ} {init : Path ρ → Prop} {busy : Prop}

/-- What holds between calls: the account is right, and the bound devices were bound by a
probe. -/
structure Inv (M : Kmod ρ) (s : State ρ δ) : Prop where
  /-- it is clean -/
  clean : M.Clean s
  /-- the pointers are those `init` left -/
  loaded : ∀ vars, s.loaded = some vars → ∃ q ∈ M.loads, q.vars = vars
  /-- without the module no device is bound -/
  unloaded : s.loaded = none → s.bound = []
  /-- the bound devices -/
  bound : M.Bound s.bound

theorem inv_init : M.Inv (M.system δ).init where
  clean := Owned.nil
  loaded vars h := by cases h
  unloaded _ := rfl
  bound := Bound.nil

/-- `init` went a way that `init` names, and devices are bound at `exit` only if
`busy`. -/
def Ok (M : Kmod ρ) (init : Path ρ → Prop) (busy : Prop) : Act ρ δ → Prop
  | .load oks => init (M.runInit oks)
  | .probe .. | .remove _ => True
  | .unload order => busy ∨ order = []

/-- The conditions `init` and `busy` are those of the checks: the named ways
through `init` fit, and with bound devices `exit` fits if `busy`, and otherwise
fails. -/
structure Judged (M : Kmod ρ) (δ : Type v) [DecidableEq δ] (init : Path ρ → Prop)
    (busy : Prop) : Prop where
  /-- the ways through `init` -/
  ways : ∀ p ∈ M.initPaths, init p ↔ M.InitFits p
  /-- with bound devices `exit` fits -/
  fits : busy → ∀ q ∈ M.loads, M.ExitFits q.vars true M.exit (M.loadedHeld q.vars)
  /-- or it fails -/
  fails : ¬ busy → ∀ (s : State ρ δ) vars order, M.Inv s → s.loaded = some vars →
    order.Perm s.bound → order ≠ [] → ¬ Owned [] (s.marks ++ M.exitMarks vars M.exit order)

theorem mem_loads {q : Path ρ} :
    q ∈ M.loads ↔ q ∈ M.initPaths ∧ q.value = .zero ∧ M.InitFits q := by
  simp [loads]

theorem clean_some {marks : List (Mark (ρ × Option δ))} :
    M.Clean ⟨some vars, bound, marks⟩ ↔
      Owned ((M.loadedHeld vars).map (M.place none) ++ M.boundHeld bound) marks :=
  Iff.rfl

theorem Inv.loadedHeld_shared (hs : M.Inv s) (hM : M.Sound) (hloaded : s.loaded = some vars) :
    ∀ r ∈ M.loadedHeld vars, M.shared r = true := by
  obtain ⟨q, hq, rfl⟩ := hs.loaded vars hloaded
  exact hM.shared q (mem_loads.mp hq).1

/-- **Loading** by a way that fits gives the module what `exit` will release. -/
theorem Inv.load (hs : M.Inv s) {oks : List Bool} (hstep : M.step s (.load oks) = some t) :
    (M.Clean t ↔ M.InitFits (M.runInit oks)) ∧ (M.InitFits (M.runInit oks) → M.Inv t) := by
  have hmem : M.runInit oks ∈ M.initPaths := Proc.run_mem_paths _ _ _ _
  obtain ⟨_ | vars, bound, marks⟩ := s
  case some => cases hstep
  obtain rfl : bound = [] := hs.unloaded rfl
  have hnil : Owned [] marks := hs.clean
  have hinit : M.InitFits (M.runInit oks) ↔ Owned ((if (M.runInit oks).value = .zero then
      M.loadedHeld (M.runInit oks).vars else []).map (M.place none))
        (marks ++ M.on (none : Option δ) (M.runInit oks).marks) := by
    rw [InitFits, ← owned_map_iff (M.place (none : Option δ))]
    exact ⟨hnil.append, hnil.of_append⟩
  obtain rfl := Option.some.inj hstep
  dsimp only
  split
  case isTrue hzero =>
    rw [if_pos hzero] at hinit
    rw [clean_some, boundHeld_nil, List.append_nil]
    refine ⟨hinit.symm, fun hfits => ⟨?_, ?_, (fun h => by cases h), Bound.nil⟩⟩
    · rw [clean_some, boundHeld_nil, List.append_nil]
      exact hinit.mp hfits
    · intro vars hvars
      obtain rfl := Option.some.inj hvars
      exact ⟨_, mem_loads.mpr ⟨hmem, hzero, hfits⟩, rfl⟩
  case isFalse hzero =>
    rw [if_neg hzero] at hinit
    refine ⟨hinit.symm, fun hfits => ⟨hinit.mp hfits, ?_, fun _ => rfl, Bound.nil⟩⟩
    rintro _ h
    cases h

/-- **A probe** gives the device what its removal will release, or nothing. -/
theorem Inv.probe (hM : M.Sound) (hs : M.Inv s) {oks : List Bool}
    (hstep : M.step s (.probe d oks) = some t) : M.Inv t := by
  obtain ⟨_ | vars, bound, marks⟩ := s
  case none => cases hstep
  have hshared := hs.loadedHeld_shared hM rfl
  have hclean := hs.clean
  rw [step] at hstep
  split at hstep
  case h_2 => cases hstep
  case h_1 drv hloaded hdrv =>
    obtain rfl := Option.some.inj hloaded
    split at hstep
    case isTrue => cases hstep
    case isFalse hd =>
      obtain ⟨q, hq, hvars⟩ := hs.loaded vars rfl
      have hpaths : M.probePaths = drv.probe.paths M.needs .start := by rw [probePaths, hdrv]; rfl
      have hmem : drv.probe.run M.needs oks .start ∈ M.probePaths :=
        hpaths ▸ Proc.run_mem_paths _ _ _ _
      -- the path taken is one of those that were checked
      have hfits := hvars ▸ hM.probe q hq _ hmem
      rw [ProbeFits] at hfits
      rw [clean_some, map_place hshared none (some d)] at hclean
      dsimp only at hstep
      split at hstep
      case isTrue hzero =>
        rw [if_pos hzero] at hfits
        obtain rfl := Option.some.inj hstep
        refine ⟨?_, hs.loaded, (fun h => by cases h), ?_, ?_⟩
        · have hown := hM.on_some hs.bound hd hfits hclean
          rw [clean_some, map_place hshared none (some d), boundHeld_cons]
          rwa [List.map_append, List.append_assoc] at hown
        · intro b hb
          obtain rfl | hb := List.mem_cons.mp hb
          · exact ⟨_, hmem, hzero, rfl⟩
          · exact hs.bound.probed b hb
        · exact List.nodup_cons.mpr ⟨hd, hs.bound.nodup⟩
      case isFalse hzero =>
        rw [if_neg hzero] at hfits
        obtain rfl := Option.some.inj hstep
        refine ⟨?_, hs.loaded, hs.unloaded, hs.bound⟩
        rw [clean_some, map_place hshared none (some d)]
        exact hM.on_some hs.bound hd hfits hclean

/-- **A removal** takes it back. -/
theorem Inv.remove (hM : M.Sound) (hs : M.Inv s)
    (hstep : M.step s (.remove d) = some t) : M.Inv t := by
  rw [step, Option.map_eq_some_iff] at hstep
  obtain ⟨b, hfind, rfl⟩ := hstep
  have hb := List.mem_of_find?_eq_some hfind
  obtain rfl : b.1 = d := by simpa using List.find?_some hfind
  obtain ⟨_ | vars, bound, marks⟩ := s
  case none =>
    obtain rfl : bound = [] := hs.unloaded rfl
    cases hb
  have hperm := List.perm_cons_erase hb
  have hbound := hs.bound.perm hperm.symm
  obtain ⟨q, hq, hvars⟩ := hs.loaded vars rfl
  have hclean := clean_some.mp hs.clean
  refine ⟨?_, hs.loaded, (fun h => by cases h), hbound.tail⟩
  exact hM.leave_one (hs.loadedHeld_shared hM rfl) (hvars ▸ hM.leave q hq) hbound
    (hclean.perm (List.Perm.append_left _ (boundHeld_perm hperm)))

/-- **Unloading** leaves nothing exactly if no device is bound, or `exit` gets along with
those that are. -/
theorem Inv.unload (hM : M.Sound) (hs : M.Inv s) (hjudged : M.Judged δ init busy)
    (hstep : M.step s (.unload order) = some t) :
    (M.Clean t ↔ busy ∨ order = []) ∧ (busy ∨ order = [] → M.Inv t) := by
  obtain ⟨_ | vars, bound, marks⟩ := s
  case none => cases hstep
  obtain ⟨hperm, hstep⟩ := Option.ite_none_right_eq_some.mp hstep
  obtain rfl := Option.some.inj hstep
  obtain ⟨q, hq, hvars⟩ := hs.loaded vars rfl
  have hclean := (clean_some.mp hs.clean).perm
    (List.Perm.append_left _ (boundHeld_perm hperm).symm)
  have hshared := hs.loadedHeld_shared hM rfl
  have hgood : busy ∨ order = [] → Owned [] (marks ++ M.exitMarks vars M.exit order) := by
    rintro (hbusy | rfl)
    · exact hM.exit_owned hshared (hvars ▸ hjudged.fits hbusy q hq) (fun h => by cases h)
        (hs.bound.perm hperm) hclean
    · exact hM.exit_owned hshared (hvars ▸ hM.exit q hq) (fun _ => rfl) Bound.nil hclean
  refine ⟨⟨fun h => ?_, hgood⟩, fun h => ⟨hgood h, (fun _ hv => by cases hv), fun _ => rfl,
    Bound.nil⟩⟩
  by_contra hnot
  obtain ⟨hbusy, hne⟩ := not_or.mp hnot
  exact hjudged.fails hbusy _ vars order hs rfl hperm hne h

/-- One call keeps the account if it meets the condition. -/
theorem Inv.step (hM : M.Sound) (hs : M.Inv s) (hjudged : M.Judged δ init busy)
    (hstep : M.step s a = some t) :
    (M.Clean t ↔ M.Ok init busy a) ∧ (M.Ok init busy a → M.Inv t) := by
  cases a with
  | load oks =>
    obtain ⟨hclean, hinv⟩ := hs.load hstep
    have hiff := hjudged.ways (M.runInit oks) (Proc.run_mem_paths _ _ _ _)
    exact ⟨hclean.trans hiff.symm, fun h => hinv (hiff.mp h)⟩
  | probe d oks =>
    have hinv := hs.probe hM hstep
    exact ⟨iff_of_true hinv.clean trivial, fun _ => hinv⟩
  | remove d =>
    have hinv := hs.remove hM hstep
    exact ⟨iff_of_true hinv.clean trivial, fun _ => hinv⟩
  | unload order => exact hs.unload hM hjudged hstep

/-- **Every run.** It is clean throughout exactly when its calls of `init` and
`exit` meet the conditions. -/
theorem clean_iff (hM : M.Sound) (hjudged : M.Judged δ init busy) {as : List (Act ρ δ)}
    (hexec : (M.system δ).exec (M.system δ).init as = some s) :
    (M.system δ).Along (fun _ _ t => M.Clean t) (M.system δ).init as ↔
      (M.system δ).Run (fun _ a => M.Ok init busy a) as := by
  have hrun : (M.system δ).Along (fun _ _ _ => True) (M.system δ).init as :=
    (Lts.along_of_exec (fun _ => True) (fun _ _ _ _ _ => ⟨trivial, trivial⟩) trivial hexec).1
  refine Lts.along_iff M.Inv (fun s a t hs _ hstep => ?_) (fun s a t hs _ hstep hok => ?_)
    inv_init hrun
  · exact (hs.step hM hjudged hstep).1
  · exact (hs.step hM hjudged hstep).2 hok

end Kmod

end Lifecycle

end KernelDrvLearn
