import KernelDrvLearn.Numerals
import KernelDrvLearn.Transition

/-!
# The kprobe switch

`mykprobe/kprobe_toggle.c`. The parameter `probe_enabled` can be written as soon
as its file is there, which is before `kprobe_toggle_init` runs, and until after
`kprobe_toggle_exit`; `set_probe_enabled` and `kprobe_toggle_exit` hold `kp_lock`,
`kprobe_toggle_init` does not. Every statement of these functions that touches
`kp`, `kp_registered` or `probe_enabled` is a step.

No call is made for a probe that is not registered, and none is left registered
by `kprobe_toggle_exit` (`kprobe_safe`). While no `set_probe_enabled` is on its
way, the probe is armed as `probe_enabled` says, unless one of two things happens
(`kprobe_tracks_iff`): `enable_kprobe` or `disable_kprobe` fails in
`set_probe_enabled`, which does not look; or `kprobe_toggle_init` disables the
probe after a write of 1 has enabled it again, since nothing holds such a write up
between its reading 0 and disabling. What is asked while `set_probe_enabled` holds
the lock is said at `Tracks`: nothing just before its call, which sets the probe
either way.
-/

namespace KernelDrvLearn

namespace KprobeToggle

/-! ## The module

Every statement is a step. The mutex is modelled by its holder, which stands somewhere
between taking it and giving it back; `kprobe_toggle_init` is a party of its own, as it
takes no lock. -/

/-- Where `kprobe_toggle_init` stands, and what comes after it. -/
inductive Init where
  /-- it has not registered the probe -/
  | start
  /-- it has, and sets `kp_registered` next -/
  | registered
  /-- it tests `probe_enabled` next -/
  | testing
  /-- it has read 0, and disables the probe next -/
  | disabling
  /-- the module is loaded -/
  | loaded
  /-- the module could not be loaded -/
  | failed
  /-- `kprobe_toggle_exit` was called -/
  | exited
  deriving DecidableEq

/-- Where the holder of `kp_lock` stands. -/
inductive Holder where
  /-- `set_probe_enabled`, before its tests -/
  | check (newVal : Bool)
  /-- before `enable_kprobe` or `disable_kprobe` -/
  | act (newVal : Bool)
  /-- before `probe_enabled = new_val` -/
  | write (newVal : Bool)
  /-- before `mutex_unlock` -/
  | unlock
  /-- `kprobe_toggle_exit`, before its test -/
  | exit
  deriving DecidableEq

/-- The variables, the probe in the kernel and where the functions stand. -/
structure State where
  /-- `probe_enabled`, as a truth value -/
  probeEnabled : Bool
  /-- `kp_registered` -/
  kpRegistered : Bool
  /-- `kp`: is it armed, if it is registered? -/
  kp : Option Bool
  /-- `kprobe_toggle_init` -/
  init : Init
  /-- the holder of `kp_lock` -/
  holder : Option Holder

/-- What `enable_kprobe` or `disable_kprobe` makes of the probe. -/
def State.arm (s : State) (works armed : Bool) : Option Bool :=
  if works then s.kp.map fun _ => armed else s.kp

/-- The text that `set_probe_enabled` goes on with: a number that is 0 or 1. -/
def newVal (val : List Byte) : Except Int Bool :=
  match kstrtoint val 0 with
  | .error e => .error e
  | .ok v => if v ≠ 0 ∧ v ≠ 1 then .error einval else .ok (v = 1)

/-- `get_probe_enabled`: the number and a newline, as the parameter's file shows it. -/
def getProbeEnabled (s : State) : List Byte := fmtD (if s.probeEnabled then 1 else 0) ++ [0x0a]

/-- `set_probe_enabled`, when nothing else runs: the value returned and the variables. It
does not look at what its call returns. -/
def setProbeEnabled (s : State) (val : List Byte) (works : Bool) : Int × State :=
  match newVal val with
  | .error e => (e, s)
  | .ok newVal =>
    if s.kpRegistered = false then (einval, s)
    else if newVal = s.probeEnabled then (0, s)
    else (0, { s with kp := s.arm works newVal, probeEnabled := newVal })

/-- What can happen next: loading, unloading, writes of the parameter, and the steps of
each. -/
inductive Act where
  /-- the module is loaded with a value for the parameter -/
  | param (val : List Byte) (works : Bool)
  /-- `register_kprobe` returns -/
  | register (ret : Int)
  /-- `kprobe_toggle_init` takes its next step; does `disable_kprobe` work? -/
  | init (works : Bool)
  /-- `set_probe_enabled` is called with a text, and takes the lock -/
  | set (val : List Byte)
  /-- `kprobe_toggle_exit` takes the lock -/
  | exit
  /-- the holder of the lock takes its next step; does the call it makes work? -/
  | run (works : Bool)
  deriving DecidableEq

/-- A step of `kprobe_toggle_init` after `register_kprobe`. -/
def initStep (s : State) (works : Bool) : Option State :=
  match s.init with
  | .registered => some { s with kpRegistered := true, init := .testing }
  | .testing => some { s with init := if s.probeEnabled then .loaded else .disabling }
  | .disabling => some { s with kp := s.arm works false, init := .loaded }
  | _ => none

/-- A step of the holder of the lock, by where it stands. -/
def runStep (s : State) (works : Bool) : Option State :=
  match s.holder with
  | none => none
  | some (.check newVal) =>
    some { s with holder := some <|
      if s.kpRegistered = false ∨ newVal = s.probeEnabled then .unlock else .act newVal }
  | some (.act newVal) =>
    some { s with kp := s.arm works newVal, holder := some (.write newVal) }
  | some (.write newVal) => some { s with probeEnabled := newVal, holder := some .unlock }
  | some .unlock => some { s with holder := none }
  | some .exit =>
    some { s with
      kp := if s.kpRegistered then none else s.kp
      kpRegistered := false
      holder := some .unlock }

/-- After the parameters were parsed: an error ends the loading. -/
def parsed (r : Int × State) : State := if r.1 ≠ 0 then { r.2 with init := .failed } else r.2

/-- One step. A text that is not accepted changes nothing. -/
def step (s : State) : Act → Option State
  | .param val works =>
    if s.init = .start ∧ s.holder = none then some (parsed (setProbeEnabled s val works))
    else none
  | .register ret =>
    if s.init = .start then
      if ret < 0 then some { s with init := .failed }
      else some { s with kp := some true, init := .registered }
    else none
  | .init works => initStep s works
  | .set val =>
    match newVal val with
    | .error _ => if s.init ≠ .failed then some s else none
    | .ok newVal =>
      if s.holder = none ∧ s.init ≠ .failed then some { s with holder := some (.check newVal) }
      else none
  | .exit =>
    if s.holder = none ∧ s.init = .loaded then
      some { s with holder := some .exit, init := .exited }
    else none
  | .run works => runStep s works

/-- The module before `kprobe_toggle_init`, its parameter already being there. -/
def system : Lts State Act where
  init := ⟨true, false, none, .start, none⟩
  step := step

/-! ## What always holds

The bookkeeping of the registration: the probe is there from `register_kprobe` until it is
unregistered, `kp_registered` follows it, and whoever tests the flag under the lock may
rely on it as long as the lock is held. -/

/-- What is registered, and when: the flag, the probe, and where the functions stand. -/
structure Inv (s : State) : Prop where
  /-- `kp_registered` is set from `kprobe_toggle_init` to `kprobe_toggle_exit` -/
  flag : s.kpRegistered = true ↔
    s.init = .testing ∨ s.init = .disabling ∨ s.init = .loaded ∨ s.holder = some .exit
  /-- the probe is registered then, and a little earlier -/
  kp : s.kp.isSome = true ↔ s.kpRegistered = true ∨ s.init = .registered
  /-- before that nothing has changed -/
  fresh : s.init = .start ∨ s.init = .registered → s.probeEnabled = true
  /-- and the probe is armed -/
  armed : s.init = .registered → s.kp = some true
  /-- a write that goes on found the flag set -/
  act : ∀ v, s.holder = some (.act v) ∨ s.holder = some (.write v) → s.kpRegistered = true
  /-- the probe is unregistered by `kprobe_toggle_exit` only -/
  exit : s.holder = some .exit → s.init = .exited

variable {s t : State} {a : Act}

@[simp, grind =] theorem arm_isSome (works armed : Bool) :
    (s.arm works armed).isSome = s.kp.isSome := by
  cases works <;> simp [State.arm]

theorem inv_init : Inv system.init := by constructor <;> simp [system]

theorem newVal_error {val : List Byte} {e : Int} (h : newVal val = .error e) : e < 0 := by
  rw [newVal] at h
  split at h
  case h_1 e' herr =>
    obtain rfl := Except.error.inj h
    exact kstrtoint_error herr
  case h_2 =>
    split at h
    case isTrue =>
      obtain rfl := Except.error.inj h
      decide
    case isFalse => cases h

/-- A value at load time is refused: the flag is not set yet. -/
theorem Inv.param (h : Inv s) (hstart : s.init = .start) (hnone : s.holder = none)
    (val : List Byte) (works : Bool) :
    (setProbeEnabled s val works).1 < 0 ∧ (setProbeEnabled s val works).2 = s := by
  have hflag : s.kpRegistered = false := by simpa [hstart, hnone] using h.flag
  rcases hval : newVal val with e | v
  · simpa only [setProbeEnabled, hval, and_true] using newVal_error hval
  · simp [setProbeEnabled, hval, hflag]

theorem Inv.initStep {works : Bool} (h : Inv s) (hstep : initStep s works = some t) : Inv t := by
  obtain ⟨hflag, hkp, hfresh, harmed, hact, hexit⟩ := h
  rw [KprobeToggle.initStep] at hstep
  split at hstep
  case h_1 hinit =>
    obtain rfl := Option.some.inj hstep
    constructor <;> simp_all
  case h_2 hinit =>
    obtain rfl := Option.some.inj hstep
    constructor <;> grind
  case h_3 hinit =>
    obtain rfl := Option.some.inj hstep
    constructor <;> simp_all
  case h_4 => cases hstep

theorem Inv.runStep {works : Bool} (h : Inv s) (hstep : runStep s works = some t) : Inv t := by
  obtain ⟨hflag, hkp, hfresh, harmed, hact, hexit⟩ := h
  rw [KprobeToggle.runStep] at hstep
  split at hstep
  case h_1 => cases hstep
  case h_2 v hholder =>
    obtain rfl := Option.some.inj hstep
    constructor <;> grind
  case h_3 v hholder =>
    obtain rfl := Option.some.inj hstep
    constructor <;> grind
  case h_4 v hholder =>
    obtain rfl := Option.some.inj hstep
    constructor <;> grind
  case h_5 hholder =>
    obtain rfl := Option.some.inj hstep
    constructor <;> simp_all
  case h_6 hholder =>
    obtain rfl := Option.some.inj hstep
    constructor <;> simp_all

theorem Inv.step (h : Inv s) (hstep : step s a = some t) : Inv t := by
  cases a with
  | param val works =>
    obtain ⟨⟨hstart, hnone⟩, hstep⟩ := Option.ite_none_right_eq_some.mp hstep
    obtain ⟨hneg, hsame⟩ := h.param hstart hnone val works
    obtain ⟨hflag, hkp, hfresh, harmed, hact, hexit⟩ := h
    obtain rfl := Option.some.inj hstep
    rw [parsed, if_pos (ne_of_lt hneg), hsame]
    constructor <;> simp_all
  | register ret =>
    obtain ⟨hstart, hstep⟩ := Option.ite_none_right_eq_some.mp hstep
    obtain ⟨hflag, hkp, hfresh, harmed, hact, hexit⟩ := h
    split at hstep
    case isTrue =>
      obtain rfl := Option.some.inj hstep
      constructor <;> simp_all
    case isFalse =>
      obtain rfl := Option.some.inj hstep
      constructor <;> simp_all
  | init works => exact h.initStep hstep
  | set val =>
    rw [KprobeToggle.step] at hstep
    split at hstep
    case h_1 =>
      obtain ⟨-, hstep⟩ := Option.ite_none_right_eq_some.mp hstep
      exact Option.some.inj hstep ▸ h
    case h_2 v hval =>
      obtain ⟨⟨hnone, -⟩, hstep⟩ := Option.ite_none_right_eq_some.mp hstep
      obtain ⟨hflag, hkp, hfresh, harmed, hact, hexit⟩ := h
      obtain rfl := Option.some.inj hstep
      constructor <;> simp_all
  | exit =>
    obtain ⟨⟨hnone, hloaded⟩, hstep⟩ := Option.ite_none_right_eq_some.mp hstep
    obtain ⟨hflag, hkp, hfresh, harmed, hact, hexit⟩ := h
    obtain rfl := Option.some.inj hstep
    constructor <;> simp_all
  | run works => exact h.runStep hstep

/-! ## The calls

Each of the kernel's functions for probes has a precondition, and the module meets it at
every call: it registers once, and touches the probe only in between. -/

/-- What is called for the probe, by the name of the kernel's function. -/
inductive Call where
  /-- `register_kprobe` -/
  | register
  /-- `enable_kprobe` or `disable_kprobe` -/
  | arm (armed : Bool)
  /-- `unregister_kprobe` -/
  | unregister

/-- A probe is registered once, and the other calls are for a registered one. -/
def Call.Fits (registered : Bool) : Call → Prop
  | .register => registered = false
  | _ => registered = true

/-- What a step calls, if it calls one of these. -/
def calls (s : State) : Act → List Call
  | .param val _ =>
    match newVal val with
    | .ok newVal =>
      if s.kpRegistered = true ∧ newVal ≠ s.probeEnabled then [.arm newVal] else []
    | .error _ => []
  | .register _ => [.register]
  | .init _ => if s.init = .disabling then [.arm false] else []
  | .run _ =>
    match s.holder with
    | some (.act newVal) => [.arm newVal]
    | some .exit => if s.kpRegistered then [.unregister] else []
    | _ => []
  | _ => []

theorem Inv.calls (h : Inv s) (hstep : KprobeToggle.step s a = some t) :
    ∀ c ∈ calls s a, c.Fits s.kp.isSome := by
  obtain ⟨hflag, hkp, hfresh, harmed, hact, hexit⟩ := h
  cases a with
  | param val works =>
    obtain ⟨⟨hstart, hnone⟩, -⟩ := Option.ite_none_right_eq_some.mp hstep
    have hfalse : s.kpRegistered = false := by simpa [hstart, hnone] using hflag
    rw [KprobeToggle.calls]
    split <;> simp [hfalse]
  | register ret =>
    obtain ⟨hstart, -⟩ := Option.ite_none_right_eq_some.mp hstep
    have hfalse : s.kpRegistered = false := by grind
    have hkp' : s.kp.isSome = false := by simpa [hfalse, hstart] using hkp
    simpa [KprobeToggle.calls, Call.Fits] using hkp'
  | init works =>
    rw [KprobeToggle.calls]
    split
    case isTrue hinit => simpa [Call.Fits] using hkp.mpr (.inl (hflag.mpr (.inr (.inl hinit))))
    case isFalse => simp
  | set val => simp [KprobeToggle.calls]
  | exit => simp [KprobeToggle.calls]
  | run works =>
    rw [KprobeToggle.calls]
    split
    case h_1 v hholder => simpa [Call.Fits] using hkp.mpr (.inl (hact v (.inl hholder)))
    case h_2 hholder => simpa [hflag.mpr (.inr (.inr (.inr hholder))), Call.Fits] using hkp
    case h_3 => simp

/-- When `kprobe_toggle_exit` is through, or loading has failed, no probe is left. -/
theorem Inv.gone (h : Inv s)
    (hend : s.init = .failed ∨ (s.init = .exited ∧ s.holder ≠ some .exit)) : s.kp = none := by
  have hsome := h.kp
  have hflag := h.flag
  have hexit := h.exit
  rcases hkp : s.kp with _ | armed
  · rfl
  · rw [hkp, Option.isSome_some] at hsome
    grind

/-- **What is called for the probe.** In every run, however writes of the
parameter fall between the steps of `kprobe_toggle_init` and `kprobe_toggle_exit`
and whatever the calls return: a probe is registered only when none is, and
enabled, disabled and unregistered only when one is; none is left after a failed
loading or after `kprobe_toggle_exit`; and a value given at loading always fails
it. -/
theorem kprobe_safe {as : List Act} (hexec : system.exec system.init as = some t) :
    system.Along (fun s a t =>
      (∀ c ∈ calls s a, c.Fits s.kp.isSome) ∧
      (t.init = .failed ∨ (t.init = .exited ∧ t.holder ≠ some .exit) → t.kp = none) ∧
      (∀ val works, a = .param val works → t.init = .failed)) system.init as := by
  refine (Lts.along_of_exec Inv (fun s a t h hstep => ?_) inv_init hexec).1
  have ht : Inv t := h.step hstep
  refine ⟨⟨h.calls hstep, ht.gone, ?_⟩, ht⟩
  rintro val works rfl
  obtain ⟨⟨hstart, hnone⟩, hsome⟩ := Option.ite_none_right_eq_some.mp hstep
  obtain rfl := Option.some.inj hsome
  rw [parsed, if_pos (ne_of_lt (h.param hstart hnone val works).1)]

/-! ## Is the probe as `probe_enabled` says?

The variable and the probe are changed by two statements, so between them they differ, and
the question makes sense only where nobody is between the two. Two things break it for
good: `kprobe_toggle_init` acts on a value it has read without the lock, and
`set_probe_enabled` writes the variable although its call has failed. -/

/-- While no `set_probe_enabled` holds the lock, the probe is armed as `probe_enabled`
says. While one does, less is asked. Between its tests and its call it is nothing,
for the call sets the probe either way; after the call the probe is as the new
value says, which `probe_enabled` is yet to get. At the tests of a write of 0 an
armed probe has `probe_enabled` set, but one with `probe_enabled` set may be
disabled, for it is disabled again; and at those of a write of 1 the two agree. -/
def Tracks (s : State) : Prop :=
  ∀ armed, s.kp = some armed → match s.holder with
    | some (.check false) => armed = true → s.probeEnabled = true
    | some (.act _) => True
    | some (.write newVal) => armed = newVal
    | _ => armed = s.probeEnabled

/-- `kprobe_toggle_init` disables a probe that is enabled. This does not count while
`set_probe_enabled` is at the tests of a write of 0, or between its tests and its
call: that call is about to set the probe anyway. -/
def Overrides (s : State) (a : Act) : Prop :=
  a = .init true ∧ s.init = .disabling ∧ s.kp = some true ∧
    s.holder ≠ some (.check false) ∧ ∀ v, s.holder ≠ some (.act v)

/-- `set_probe_enabled` does not notice that its call has failed. -/
def Misses (s : State) (a : Act) : Prop :=
  a = .run false ∧ ∃ v, s.holder = some (.act v) ∧ s.kp ≠ some v

instance (s : State) (a : Act) : Decidable (Overrides s a) :=
  inferInstanceAs (Decidable (_ ∧ _ ∧ _ ∧ _ ∧ ∀ v, s.holder ≠ some (.act v)))

instance (s : State) (a : Act) : Decidable (Misses s a) :=
  inferInstanceAs (Decidable (_ ∧ ∃ v, s.holder = some (.act v) ∧ s.kp ≠ some v))

theorem tracks_init : Tracks system.init := by simp [Tracks, system]

/-- Only the probe, the variable and the holder of the lock count. -/
theorem Tracks.congr (htracks : Tracks s) (hkp : t.kp = s.kp)
    (hprobe : t.probeEnabled = s.probeEnabled) (hholder : t.holder = s.holder) : Tracks t := by
  rwa [Tracks, hkp, hprobe, hholder]

/-- Before the lock is given up after the tests: the probe is as it should be, or
was not registered. -/
theorem Tracks.check {v : Bool} (h : Inv s) (htracks : Tracks s)
    (hholder : s.holder = some (.check v))
    (hdone : s.kpRegistered = false ∨ v = s.probeEnabled) :
    ∀ armed, s.kp = some armed → armed = s.probeEnabled := by
  intro armed hkp
  have hsome := h.kp
  rw [Tracks, hholder] at htracks
  rcases hdone with hflag | hsame
  · -- registered, but `kp_registered` is not set yet
    have hinit : s.init = .registered := by simpa [hkp, hflag] using hsome
    rw [h.fresh (.inr hinit)]
    exact Option.some.inj (hkp.symm.trans (h.armed hinit))
  · cases v with
    | false => simpa [← hsame] using htracks armed hkp
    | true => exact htracks armed hkp

theorem Tracks.initStep {works : Bool} (htracks : Tracks s)
    (hstep : KprobeToggle.initStep s works = some t) :
    Tracks t ↔ ¬ Overrides s (.init works) := by
  rw [KprobeToggle.initStep] at hstep
  split at hstep
  case h_1 hinit =>
    obtain rfl := Option.some.inj hstep
    exact iff_of_true (htracks.congr rfl rfl rfl) (by simp [Overrides, hinit])
  case h_2 hinit =>
    obtain rfl := Option.some.inj hstep
    exact iff_of_true (htracks.congr rfl rfl rfl) (by simp [Overrides, hinit])
  case h_3 hinit =>
    obtain rfl := Option.some.inj hstep
    cases works with
    | false => exact iff_of_true (htracks.congr rfl rfl rfl) (by simp [Overrides])
    | true =>
      rcases hkp : s.kp with _ | armed
      · simp [Tracks, Overrides, State.arm, hkp]
      · rw [Tracks] at htracks
        simp only [Tracks, Overrides, State.arm, hinit, hkp]
        grind
  case h_4 => cases hstep

theorem Tracks.runStep {works : Bool} (h : Inv s) (htracks : Tracks s)
    (hstep : KprobeToggle.runStep s works = some t) :
    Tracks t ↔ ¬ Misses s (.run works) := by
  rw [KprobeToggle.runStep] at hstep
  split at hstep
  case h_1 => cases hstep
  case h_2 v hholder =>
    obtain rfl := Option.some.inj hstep
    by_cases hdone : s.kpRegistered = false ∨ v = s.probeEnabled
    · simpa [Tracks, Misses, hholder, if_pos hdone] using htracks.check h hholder hdone
    · simp [Tracks, Misses, hholder, if_neg hdone]
  case h_3 v hholder =>
    obtain rfl := Option.some.inj hstep
    obtain ⟨armed, hkp⟩ := Option.isSome_iff_exists.mp (h.kp.mpr (.inl (h.act v (.inl hholder))))
    cases works <;> simp [Tracks, Misses, State.arm, hholder, hkp]
  case h_4 v hholder =>
    obtain rfl := Option.some.inj hstep
    simpa [Tracks, Misses, hholder] using htracks
  case h_5 hholder =>
    obtain rfl := Option.some.inj hstep
    simpa [Tracks, Misses, hholder] using htracks
  case h_6 hholder =>
    obtain rfl := Option.some.inj hstep
    simp [Tracks, Misses, hholder, h.flag]

theorem Tracks.step (h : Inv s) (htracks : Tracks s) (hstep : KprobeToggle.step s a = some t) :
    Tracks t ↔ ¬ Overrides s a ∧ ¬ Misses s a := by
  cases a with
  | param val works =>
    obtain ⟨⟨hstart, hnone⟩, hstep⟩ := Option.ite_none_right_eq_some.mp hstep
    obtain ⟨hneg, hsame⟩ := h.param hstart hnone val works
    obtain rfl := Option.some.inj hstep
    rw [parsed, if_pos (ne_of_lt hneg), hsame]
    exact iff_of_true (htracks.congr rfl rfl rfl) (by simp [Overrides, Misses])
  | register ret =>
    obtain ⟨hstart, hstep⟩ := Option.ite_none_right_eq_some.mp hstep
    have hprobe := h.fresh (.inl hstart)
    split at hstep
    case isTrue =>
      obtain rfl := Option.some.inj hstep
      exact iff_of_true (htracks.congr rfl rfl rfl) (by simp [Overrides, Misses])
    case isFalse =>
      have hflag := h.flag
      have hact := h.act
      obtain rfl := Option.some.inj hstep
      simp only [Tracks, Overrides, Misses, hprobe]
      grind
  | init works => simpa [Misses] using htracks.initStep hstep
  | set val =>
    rw [KprobeToggle.step] at hstep
    split at hstep
    case h_1 =>
      obtain ⟨-, hstep⟩ := Option.ite_none_right_eq_some.mp hstep
      obtain rfl := Option.some.inj hstep
      simpa [Overrides, Misses] using htracks
    case h_2 v hval =>
      obtain ⟨⟨hnone, -⟩, hstep⟩ := Option.ite_none_right_eq_some.mp hstep
      obtain rfl := Option.some.inj hstep
      rw [Tracks, hnone] at htracks
      -- the lock was free, so variable and probe agree so far
      refine iff_of_true (fun armed hkp => ?_) (by simp [Overrides, Misses])
      have hsame : armed = s.probeEnabled := htracks armed hkp
      cases v with
      | false => exact fun harmed => hsame ▸ harmed
      | true => exact hsame
  | exit =>
    obtain ⟨⟨hnone, -⟩, hstep⟩ := Option.ite_none_right_eq_some.mp hstep
    obtain rfl := Option.some.inj hstep
    rw [Tracks, hnone] at htracks
    simpa [Tracks, Overrides, Misses] using htracks
  | run works => simpa [Overrides] using htracks.runStep h hstep

/-- **Is the probe armed as `probe_enabled` says?** In every run, whenever no
`set_probe_enabled` is on its way, and as far as `Tracks` asks while one is: exactly
when no step of the run is one of two. `kprobe_toggle_init`, having read 0, disables
the probe although a write has enabled it since, and no other write is at the tests
of a 0 or before its call; or `set_probe_enabled` goes on after a call that failed
and was needed. -/
theorem kprobe_tracks_iff {as : List Act} (hexec : system.exec system.init as = some t) :
    system.Along (fun _ _ t => Tracks t) system.init as ↔
      system.Run (fun s a => ¬ Overrides s a ∧ ¬ Misses s a) as :=
  have hrun : system.Along (fun _ _ _ => True) system.init as :=
    (Lts.along_of_exec (fun _ => True) (fun _ _ _ _ _ => ⟨trivial, trivial⟩) trivial hexec).1
  Lts.along_iff (fun s => Inv s ∧ Tracks s)
    (fun _ _ _ h _ hstep => h.2.step h.1 hstep)
    (fun _ _ _ h _ hstep hgood => ⟨h.1.step hstep, (h.2.step h.1 hstep).mpr hgood⟩)
    ⟨inv_init, tracks_init⟩ hrun

/-- 0 is written, `kprobe_toggle_init` reads it, 1 is written, and the probe is
disabled all the same. -/
def overriding : List Act :=
  [.register 0, .init true, .set [0x30], .run true, .run true, .run true, .run true,
    .init true, .set [0x31], .run true, .run true, .run true, .run true, .init true]

theorem kprobe_safe_overriding : (system.exec system.init overriding).isSome = true ∧
    system.Along (fun s a t =>
      (∀ c ∈ calls s a, c.Fits s.kp.isSome) ∧
      (t.init = .failed ∨ (t.init = .exited ∧ t.holder ≠ some .exit) → t.kp = none) ∧
      (∀ val works, a = .param val works → t.init = .failed)) system.init overriding :=
  have hrun : (system.exec system.init overriding).isSome = true := by decide
  ⟨hrun, kprobe_safe (Option.some_get hrun).symm⟩

theorem kprobe_tracks_iff_overriding :
    system.exec system.init overriding = some ⟨true, true, some false, .loaded, none⟩ ∧
      ¬ system.Along (fun _ _ t => Tracks t) system.init overriding :=
  ⟨by rfl, (kprobe_tracks_iff (t := ⟨true, true, some false, .loaded, none⟩) (by rfl)).not.mpr
    (by decide)⟩

/-- What `get_probe_enabled` prints is read back as the value it has. -/
theorem newVal_getProbeEnabled : newVal (getProbeEnabled s) = .ok s.probeEnabled := by
  rw [getProbeEnabled]
  cases s.probeEnabled <;> decide

/-- So writing back what was read changes nothing, and it is refused only while
the probe is not registered. -/
theorem setProbeEnabled_getProbeEnabled (works : Bool) :
    setProbeEnabled s (getProbeEnabled s) works =
      (if s.kpRegistered = false then einval else 0, s) := by
  simp only [setProbeEnabled, newVal_getProbeEnabled, if_true]
  split <;> rfl

/-- A write with nothing else going on is `set_probe_enabled` as a whole. -/
theorem set_alone {val : List Byte} {v works : Bool} (hval : newVal val = .ok v)
    (hnone : s.holder = none) (hinit : s.init ≠ .failed) :
    ∃ n, system.exec s (.set val :: List.replicate n (.run works)) =
      some (setProbeEnabled s val works).2 := by
  obtain ⟨probeEnabled, kpRegistered, kp, init, holder⟩ := s
  obtain rfl : holder = none := hnone
  have hinit : init ≠ .failed := hinit
  by_cases hdone : kpRegistered = false ∨ v = probeEnabled
  · -- the tests, and the lock is given up
    refine ⟨2, ?_⟩
    simp [Lts.exec_cons, List.replicate, system, KprobeToggle.step, KprobeToggle.runStep, hval,
      setProbeEnabled, hinit, hdone]
    grind
  · refine ⟨4, ?_⟩
    rw [not_or] at hdone
    simp [Lts.exec_cons, List.replicate, system, KprobeToggle.step, KprobeToggle.runStep, hval,
      setProbeEnabled, hinit, hdone, State.arm]

end KprobeToggle

end KernelDrvLearn
