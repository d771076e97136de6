import Mathlib.Logic.Function.Basic
import KernelDrvLearn.Transition

/-!
# The register lock of the fake bell on one CPU

`mybelllock` of `practice/myfakebell/myfakebell.c` guards the device registers.
It is taken with plain `spin_lock` in process context (`FB_GET_STATUS`,
`FB_SET_THRESHOLD`, `myfbpoll`), in the threaded handler `myirq_bottom`, and in
the hard interrupt handler `myirq_top`. Plain `spin_lock` disables preemption
but not interrupts.

The model is one CPU. A context is a list of instructions still to execute;
the hard handler, once it interrupts, runs alone until it returns. The line is
masked from the hard handler until `myirq_bottom` returns (`IRQF_ONESHOT`). The
ring's own lock is taken with interrupts off, so a ring operation is one
instruction.

An interrupt that lands inside one of the process-context sections is fatal at
once, and it is the only thing that is (`bell_deadlock_iff`): `IRQF_ONESHOT`
keeps the handler out of the section of `myirq_bottom`.
-/

namespace KernelDrvLearn

namespace BellLock

/-! ## Code

The handlers as straight-line lists of instructions. What a context has left of its list
is all of it that matters; a `spin_lock` that finds the lock held has no effect, and the
context stays where it is. -/

/-- The registers the driver uses, of those of the device. -/
inductive Reg where
  /-- `MB_REG_STATUS` -/
  | status
  /-- `MB_REG_IRQ_STATUS` -/
  | irqStatus
  /-- `MB_REG_IRQ_ACK` -/
  | irqAck
  /-- `MB_REG_THRESHOLD` -/
  | threshold
  /-- `MB_REG_SAMPLE_VALUE` -/
  | sampleValue
  deriving DecidableEq

/-- The instructions of the handlers, as far as the lock is concerned. -/
inductive Instr where
  /-- `spin_lock(&mydev->mybelllock)` -/
  | spinLock
  /-- `spin_unlock(&mydev->mybelllock)` -/
  | spinUnlock
  /-- `mb_readl` -/
  | readl (r : Reg)
  /-- `mb_writel` -/
  | writel (r : Reg)
  /-- an operation of the sample ring, under its own irqsave lock -/
  | ringOp
  /-- `copy_from_user`; a fault ends the call -/
  | copyFromUser
  /-- anything else: `copy_to_user`, `poll_wait`, `ktime_get_ns`,
  `wake_up_interruptible`, `dev_info` -/
  | other
  deriving DecidableEq

/-- The system calls of process context that take the lock. -/
inductive Syscall where
  /-- `myfbioctl`, `FB_GET_STATUS` -/
  | getStatus
  /-- `myfbioctl`, `FB_SET_THRESHOLD` -/
  | setThreshold
  /-- `myfbpoll` -/
  | poll

/-- Their code, from the entry to the return; a copy may end it early. -/
def Syscall.code : Syscall → List Instr
  | getStatus =>
    [.spinLock, .readl .status, .readl .threshold, .readl .sampleValue, .spinUnlock, .other]
  | setThreshold => [.copyFromUser, .spinLock, .writel .threshold, .spinUnlock]
  | poll => [.other, .spinLock, .readl .status, .spinUnlock, .ringOp]

/-- `myirq_top`. Whether its `dev_info` stands before or after the release
depends on the pending bit; both places are instructions here. -/
def myirqTop : List Instr := [.spinLock, .readl .irqStatus, .other, .spinUnlock, .other]

/-- `myirq_bottom`, the threaded half, which takes the lock in process context. -/
def myirqBottom : List Instr :=
  [.spinLock, .readl .sampleValue, .readl .status, .writel .irqAck, .spinUnlock, .other,
    .ringOp, .other, .other]

/-- The contexts that run on the CPU: tasks, the handler thread, the hard interrupt. -/
inductive Ctx where
  /-- a task in process context -/
  | task (i : ℕ)
  /-- the interrupt thread, running `myirq_bottom` -/
  | thread
  /-- the hard interrupt, running `myirq_top` -/
  | top
  deriving DecidableEq

/-- The CPU, the lock and the device. -/
structure State where
  /-- what each context has left to execute; a context with nothing left is in
  no call, resp. not active -/
  code : Ctx → List Instr
  /-- the task or thread that has the CPU, or had it when it was interrupted -/
  running : Ctx
  /-- the holder of `mybelllock` -/
  lock : Option Ctx
  /-- does `myirq_top` return `IRQ_WAKE_THREAD`? -/
  wake : Bool
  /-- the pending bit of the device -/
  pending : Bool

/-- What can happen next on this CPU. -/
inductive Act where
  /-- the device raises an event -/
  | raise
  /-- the interrupt is delivered -/
  | irq
  /-- the scheduler gives the CPU to another context -/
  | schedule (c : Ctx)
  /-- the running task enters a system call -/
  | call (i : ℕ) (sys : Syscall)
  /-- the CPU executes an instruction -/
  | run
  /-- the `copy_from_user` of the running task faults -/
  | fault

/-- The context whose instructions the CPU executes: the hard interrupt if it
is active, else the running one. -/
def State.active (s : State) : Ctx := if s.code .top = [] then s.running else .top

/-- Context `c` has the instructions `l` left, and the others what they had. -/
def State.setCode (s : State) (c : Ctx) (l : List Instr) : State :=
  { s with code := Function.update s.code c l }

/-- When the hard handler has just executed its last instruction, it returns:
the thread is woken if it said so. -/
def State.finishTop (s : State) (c : Ctx) (l : List Instr) : State :=
  if c = .top ∧ l = [] ∧ s.wake = true then
    { (s.setCode c l).setCode .thread myirqBottom with wake := false }
  else s.setCode c l

/-- The effect of an instruction of context `c` on lock, device and handler;
`none` while it spins. -/
def Instr.effect (s : State) (c : Ctx) : Instr → Option State
  | spinLock => if s.lock = none then some { s with lock := some c } else none
  | spinUnlock => some { s with lock := none }
  | readl r => if c = .top ∧ r = .irqStatus then some { s with wake := s.pending } else some s
  | writel r => if r = .irqAck then some { s with pending := false } else some s
  | ringOp => some s
  | copyFromUser => some s
  | other => some s

/-- One step of the machine. Only the active context runs, and the hard interrupt comes on
top of it unless it is masked. -/
def step (s : State) : Act → Option State
  | .raise => some { s with pending := true }
  | .irq =>
    -- masked while `myirq_top` or `myirq_bottom` is active
    if s.code .top = [] ∧ s.code .thread = [] then some (s.setCode .top myirqTop) else none
  | .schedule c =>
    -- `spin_lock` disables preemption
    if s.code .top = [] ∧ s.lock = none ∧ c ≠ .top then some { s with running := c } else none
  | .call i sys =>
    if s.code .top = [] ∧ s.running = .task i ∧ s.code (.task i) = [] then
      some (s.setCode (.task i) sys.code)
    else none
  | .run =>
    match s.code s.active with
    | [] => none
    | instr :: l => (instr.effect s s.active).map fun t => t.finishTop s.active l
  | .fault =>
    match s.active, s.code s.active with
    | .task i, .copyFromUser :: _ => some (s.setCode (.task i) [])
    | _, _ => none

/-- The device is bound, no call in progress; task 0 has the CPU. -/
def cpu : Lts State Act where
  init := ⟨fun _ => [], .task 0, none, false, false⟩
  step := step

/-- `myirq_top` spins on the lock, and the context it interrupted holds it. -/
def State.Fatal (s : State) : Prop :=
  (∃ l, s.code .top = .spinLock :: l) ∧ s.lock = some s.running

/-- Does the code stand between a `spin_lock` and its `spin_unlock`? -/
def inSection : List Instr → Bool
  | [] => false
  | .spinLock :: _ => false
  | .spinUnlock :: _ => true
  | _ :: l => inSection l

/-- The interrupt does not land inside a section of the context it interrupts.
(That context is in a system call or idle: while `myirq_bottom` has code left
the line is masked.) -/
def IrqOutside (s : State) : Act → Prop
  | .irq => inSection (s.code s.running) = false
  | _ => True

instance (s : State) : ∀ a, Decidable (IrqOutside s a)
  | .irq => inferInstanceAs (Decidable (inSection (s.code s.running) = false))
  | .raise | .schedule _ | .call _ _ | .run | .fault => isTrue trivial

/-! ## Code is well bracketed

That a context holds the lock can be read off the code it has left: it does if a
`spin_unlock` comes before the next `spin_lock`. For the handlers this is checked once, by
evaluation. -/

/-- The code releases the lock it takes, and a call can fault only outside the
section; `held` says whether it holds the lock now. -/
def Bracketed : Bool → List Instr → Prop
  | held, [] => held = false
  | held, .spinLock :: l => held = false ∧ Bracketed true l
  | held, .spinUnlock :: l => held = true ∧ Bracketed false l
  | held, .copyFromUser :: l => held = false ∧ Bracketed false l
  | held, _ :: l => Bracketed held l

theorem Syscall.code_bracketed (sys : Syscall) : Bracketed false sys.code := by
  cases sys <;> simp [code, Bracketed]

theorem myirqTop_bracketed : Bracketed false myirqTop := by simp [myirqTop, Bracketed]

theorem myirqBottom_bracketed : Bracketed false myirqBottom := by simp [myirqBottom, Bracketed]

/-- Well-bracketed code is inside a section exactly when it holds the lock. -/
theorem Bracketed.inSection_eq {held : Bool} {l : List Instr} (h : Bracketed held l) :
    inSection l = held := by
  induction l with
  | nil => exact Eq.symm h
  | cons instr l ih =>
    cases instr with
    | spinLock => exact h.1.symm
    | spinUnlock => exact h.1.symm
    | copyFromUser =>
      obtain ⟨rfl, hl⟩ := h
      exact ih hl
    | readl | writel | ringOp | other => exact ih h

/-! ## The active context holds the lock, or nobody does

On one CPU a context that holds a spin lock cannot be preempted, so whoever holds the lock
is the one that runs, unless the hard interrupt has come on top of it. As long as no
interrupt does so inside a section, every lock that is taken is found free. -/

@[simp] theorem State.setCode_lock (s : State) (c : Ctx) (l : List Instr) :
    (s.setCode c l).lock = s.lock := rfl

@[simp] theorem State.setCode_running (s : State) (c : Ctx) (l : List Instr) :
    (s.setCode c l).running = s.running := rfl

@[simp] theorem State.setCode_self (s : State) (c : Ctx) (l : List Instr) :
    (s.setCode c l).code c = l := Function.update_self ..

theorem State.setCode_ne (s : State) {c d : Ctx} (l : List Instr) (h : d ≠ c) :
    (s.setCode c l).code d = s.code d := Function.update_of_ne h ..

theorem State.active_of_nil {s : State} (h : s.code .top = []) : s.active = s.running :=
  if_pos h

theorem State.active_of_ne {s : State} (h : s.code .top ≠ []) : s.active = .top :=
  if_neg h

/-- The invariant that lasts as long as no interrupt lands inside a section. -/
structure State.Inv (s : State) : Prop where
  /-- every context holds the lock exactly inside its sections -/
  bracketed : ∀ c, Bracketed (decide (s.lock = some c)) (s.code c)
  /-- nobody but the active context holds it -/
  holder : s.lock = none ∨ s.lock = some s.active
  /-- the hard interrupt is never scheduled -/
  running_ne : s.running ≠ .top

theorem init_inv : cpu.init.Inv := ⟨fun _ => rfl, Or.inl rfl, by simp [cpu]⟩

namespace State.Inv

variable {s t : State}

/-- A context with nothing left does not hold the lock. -/
theorem not_held (h : s.Inv) {c : Ctx} (hc : s.code c = []) : s.lock ≠ some c := by
  have hb := h.bracketed c
  rw [hc] at hb
  exact of_decide_eq_false hb

/-- While the invariant lasts the state is not fatal. -/
theorem not_fatal (h : s.Inv) : ¬ s.Fatal := by
  rintro ⟨⟨l, htop⟩, hlock⟩
  have hact : s.active = .top := State.active_of_ne (by rw [htop]; exact List.cons_ne_nil _ _)
  rcases h.holder with hnone | hsome
  · rw [hnone] at hlock
    cases hlock
  · rw [hlock, hact] at hsome
    exact h.running_ne (Option.some.inj hsome)

/-- New code for one context keeps the invariant when nobody holds the lock
and the code starts outside a section. -/
theorem setCode_free (h : s.Inv) (hfree : s.lock = none) {c : Ctx} {l : List Instr}
    (hl : Bracketed false l) : (s.setCode c l).Inv := by
  refine ⟨fun d => ?_, Or.inl hfree, h.running_ne⟩
  by_cases hd : d = c
  · subst hd
    rw [State.setCode_self, State.setCode_lock, hfree]
    exact hl
  · rw [State.setCode_ne s l hd]
    exact h.bracketed d

/-- Nobody holds the lock while the running context is outside its sections
and the hard handler is not active. -/
theorem lock_free (h : s.Inv) (htop : s.code .top = []) (hrun : s.lock ≠ some s.running) :
    s.lock = none := by
  rcases h.holder with hnone | hsome
  · exact hnone
  · rw [State.active_of_nil htop] at hsome
    exact absurd hsome hrun

/-- A context holds the lock exactly inside a section. -/
theorem inSection_iff (h : s.Inv) (c : Ctx) : inSection (s.code c) = true ↔ s.lock = some c := by
  rw [(h.bracketed c).inSection_eq, decide_eq_true_iff]

end State.Inv

/-- What an instruction does to the lock: it stays free or with the context
that executes, which holds it exactly if it has still to release it. -/
theorem Instr.effect_spec {s t : State} {c : Ctx} {instr : Instr} {l : List Instr}
    (hb : Bracketed (decide (s.lock = some c)) (instr :: l))
    (hhold : s.lock = none ∨ s.lock = some c) (hs : instr.effect s c = some t) :
    t.code = s.code ∧ t.running = s.running ∧
      Bracketed (decide (t.lock = some c)) l ∧ (t.lock = none ∨ t.lock = some c) := by
  cases instr with
  | spinLock =>
    obtain ⟨-, hl⟩ := hb
    simp only [effect] at hs
    split at hs
    · obtain rfl := Option.some.inj hs
      exact ⟨rfl, rfl, by simpa using hl, Or.inr rfl⟩
    · cases hs
  | spinUnlock =>
    obtain ⟨-, hl⟩ := hb
    obtain rfl := Option.some.inj hs
    exact ⟨rfl, rfl, hl, Or.inl rfl⟩
  | readl r =>
    simp only [effect] at hs
    split at hs <;> obtain rfl := Option.some.inj hs <;> exact ⟨rfl, rfl, hb, hhold⟩
  | writel r =>
    simp only [effect] at hs
    split at hs <;> obtain rfl := Option.some.inj hs <;> exact ⟨rfl, rfl, hb, hhold⟩
  | copyFromUser =>
    obtain ⟨hfree, hl⟩ := hb
    obtain rfl := Option.some.inj hs
    exact ⟨rfl, rfl, by rw [hfree]; exact hl, hhold⟩
  | ringOp | other =>
    obtain rfl := Option.some.inj hs
    exact ⟨rfl, rfl, hb, hhold⟩

/-- The active context executes one instruction, which keeps the invariant. -/
theorem State.Inv.run {s t : State} (h : s.Inv) (hs : step s .run = some t) : t.Inv := by
  simp only [step] at hs
  rcases hcode : s.code s.active with _ | ⟨instr, l⟩
  · rw [hcode] at hs
    cases hs
  rw [hcode] at hs
  obtain ⟨u, hu, rfl⟩ := Option.map_eq_some_iff.mp hs
  have hb := h.bracketed s.active
  rw [hcode] at hb
  obtain ⟨hcodeu, hrunu, hbl, hhold⟩ := Instr.effect_spec hb h.holder hu
  -- with the rest of the code stored, only the place of the holder is open
  have hkeep : ∀ c, Bracketed (decide ((u.setCode s.active l).lock = some c))
      ((u.setCode s.active l).code c) := by
    intro c
    by_cases hc : c = s.active
    · subst hc
      rw [State.setCode_self]
      exact hbl
    · have hs' : decide (s.lock = some c) = false := by
        rcases h.holder with hnone | hsome
        · simp [hnone]
        · simp [hsome, Ne.symm hc]
      have hu' : decide (u.lock = some c) = false := by
        rcases hhold with hnone | hsome
        · simp [hnone]
        · simp [hsome, Ne.symm hc]
      have hbc := h.bracketed c
      rw [hs'] at hbc
      rw [State.setCode_ne _ _ hc, State.setCode_lock, hu', hcodeu]
      exact hbc
  have hrunning : u.running ≠ .top := by
    rw [hrunu]
    exact h.running_ne
  by_cases htop : s.code .top = []
  · -- a task or the thread executes
    have hact : s.active = s.running := State.active_of_nil htop
    have hne : Ctx.top ≠ s.active := by
      rw [hact]
      exact h.running_ne.symm
    have hfin : u.finishTop s.active l = u.setCode s.active l :=
      if_neg fun hc => hne hc.1.symm
    have hact' : (u.setCode s.active l).active = s.active := by
      rw [State.active_of_nil (by rw [State.setCode_ne _ _ hne, hcodeu]; exact htop),
        State.setCode_running, hrunu, hact]
    rw [hfin]
    refine ⟨hkeep, ?_, hrunning⟩
    rw [hact']
    exact hhold
  · have hact : s.active = .top := State.active_of_ne htop
    rw [hact] at hkeep hbl hhold ⊢
    rcases hl : l with _ | ⟨instr', l'⟩
    · -- the hard handler returns: it no longer holds the lock
      rw [hl] at hkeep hbl
      have hfree : u.lock = none := by
        rcases hhold with hnone | hsome
        · exact hnone
        · exact absurd hsome (of_decide_eq_false hbl)
      have hback : (u.setCode .top []).Inv := ⟨hkeep, Or.inl hfree, hrunning⟩
      simp only [State.finishTop]
      split
      · have hwoken := hback.setCode_free (c := .thread) hfree myirqBottom_bracketed
        exact ⟨hwoken.bracketed, hwoken.holder, hwoken.running_ne⟩
      · exact hback
    · have hfin : u.finishTop .top (instr' :: l') = u.setCode .top (instr' :: l') :=
        if_neg fun hc => List.cons_ne_nil _ _ hc.2.1
      rw [hl] at hkeep
      rw [hfin]
      refine ⟨hkeep, ?_, hrunning⟩
      rw [State.active_of_ne (by rw [State.setCode_self]; exact List.cons_ne_nil _ _)]
      exact hhold

/-- **Step lemma.** An interrupt outside the sections, and every other step,
keeps the invariant. -/
theorem State.Inv.step {s t : State} {a : Act} (h : s.Inv) (ha : IrqOutside s a)
    (hs : BellLock.step s a = some t) : t.Inv := by
  cases a with
  | raise =>
    obtain rfl := Option.some.inj hs
    exact ⟨h.bracketed, h.holder, h.running_ne⟩
  | irq =>
    simp only [BellLock.step] at hs
    split at hs
    case isTrue hidle =>
      obtain ⟨htop, -⟩ := hidle
      obtain rfl := Option.some.inj hs
      have hrun : s.lock ≠ some s.running := by
        rw [Ne, ← h.inSection_iff, Bool.not_eq_true]
        exact ha
      exact h.setCode_free (h.lock_free htop hrun) myirqTop_bracketed
    case isFalse => cases hs
  | schedule c =>
    simp only [BellLock.step] at hs
    split at hs
    case isTrue hc =>
      obtain rfl := Option.some.inj hs
      exact ⟨h.bracketed, Or.inl hc.2.1, hc.2.2⟩
    case isFalse => cases hs
  | call i sys =>
    simp only [BellLock.step] at hs
    split at hs
    case isTrue hc =>
      obtain ⟨htop, hrun, hidle⟩ := hc
      obtain rfl := Option.some.inj hs
      refine h.setCode_free (h.lock_free htop ?_) sys.code_bracketed
      rw [hrun]
      exact h.not_held hidle
    case isFalse => cases hs
  | run => exact h.run hs
  | fault =>
    simp only [BellLock.step] at hs
    split at hs
    case h_1 i l hact hcode =>
      obtain rfl := Option.some.inj hs
      have htop : s.code .top = [] := by
        by_contra hne
        rw [State.active_of_ne hne] at hact
        cases hact
      -- a task at its `copy_from_user` is outside its section
      have hb := h.bracketed s.active
      rw [hcode] at hb
      rw [State.active_of_nil htop] at hb
      exact h.setCode_free (h.lock_free htop (of_decide_eq_false hb.1)) rfl
    case h_2 => cases hs

/-- An interrupt inside a section is fatal at once: the handler's first instruction cannot
succeed. -/
theorem State.Inv.irq_fatal {s t : State} (h : s.Inv) (ha : ¬ IrqOutside s .irq)
    (hs : BellLock.step s .irq = some t) : t.Fatal := by
  have hin : inSection (s.code s.running) = true := by simpa [IrqOutside] using ha
  simp only [BellLock.step] at hs
  split at hs
  case isTrue =>
    obtain rfl := Option.some.inj hs
    exact ⟨⟨_, State.setCode_self ..⟩, (h.inSection_iff s.running).mp hin⟩
  case isFalse => cases hs

/-- A fatal state is never left: the handler spins and nothing else runs. -/
theorem State.Fatal.forever {s t : State} {as : List Act} (h : s.Fatal)
    (hexec : cpu.exec s as = some t) : t.Fatal := by
  induction as generalizing s with
  | nil =>
    obtain rfl := Option.some.inj hexec
    exact h
  | cons a as ih =>
    rw [Lts.exec_cons] at hexec
    obtain ⟨s₁, hs, hrest⟩ := Option.bind_eq_some_iff.mp hexec
    obtain ⟨⟨l, htop⟩, hlock⟩ := h
    have hne : s.code .top ≠ [] := by
      rw [htop]
      exact List.cons_ne_nil _ _
    change BellLock.step s a = some s₁ at hs
    cases a <;> simp only [BellLock.step] at hs
    case raise =>
      obtain rfl := Option.some.inj hs
      exact ih (s := { s with pending := true }) ⟨⟨l, htop⟩, hlock⟩ hrest
    case irq | schedule | call => rw [if_neg fun hc => hne hc.1] at hs; cases hs
    case run =>
      rw [State.active_of_ne hne, htop] at hs
      simp [Instr.effect, hlock] at hs
    case fault => rw [State.active_of_ne hne] at hs; cases hs

/-- **When `mybelllock` deadlocks.** The states reached in a run are free of
the deadlock exactly if no interrupt of the run lands inside a section of
`FB_GET_STATUS`, `FB_SET_THRESHOLD` or `myfbpoll`. -/
theorem bell_deadlock_iff {as : List Act} (hrun : cpu.Run (fun _ _ => True) as) :
    cpu.Along (fun _ _ t => ¬ t.Fatal) cpu.init as ↔
      cpu.Along (fun s a _ => IrqOutside s a) cpu.init as := by
  refine Lts.along_iff State.Inv ?_ ?_ init_inv hrun
  · intro s a t hi _ hs
    constructor
    · intro hfatal
      by_contra ha
      cases a with
      | irq => exact hfatal (hi.irq_fatal ha hs)
      | raise | schedule | call | run | fault => exact ha trivial
    · intro ha
      exact (hi.step ha hs).not_fatal
  · intro s a t hi _ hs ha
    exact hi.step ha hs

/-- The interrupt comes after the section of an `FB_GET_STATUS`. -/
def afterStatus : List Act :=
  [.raise, .call 0 .getStatus, .run, .run, .run, .run, .run, .irq, .run, .run]

theorem bell_deadlock_iff_afterStatus : cpu.Along (fun _ _ t => ¬ t.Fatal) cpu.init afterStatus :=
  (bell_deadlock_iff (by decide +kernel)).mpr (by decide +kernel)

/-- The interrupt comes inside the section of an `FB_GET_STATUS`. -/
def insideStatus : List Act := [.raise, .call 0 .getStatus, .run, .irq]

/-- There it is fatal: the handler spins for ever. -/
theorem insideStatus_fatal : ∃ s, cpu.exec cpu.init insideStatus = some s ∧ s.Fatal :=
  ⟨_, rfl, ⟨_, rfl⟩, rfl⟩

end BellLock

end KernelDrvLearn
