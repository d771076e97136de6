import KernelDrvLearn.Transition
import Mathlib.Logic.Function.Basic

/-!
# Wait queues

Any number of threads sleep until a condition on a shared state is true, as with
`wait_event` or in `poll`: a thread registers, tests the condition, and if it is
false sleeps unless it was woken since it registered; woken, it starts again.
Everybody else is a transition system on the shared state, some of whose steps wake
all threads that are registered.

* `Queue` — what is waited for, which steps wake, and when a wake-up is *to come*.
* `Announced` — no other step makes the condition true with no wake-up to come.
* `Queue.no_missed` — then nobody sleeps while it is true and none is to come.
* `Queue.served` — and everybody who waits can leave then, without any help.
-/

namespace KernelDrvLearn

universe u v w

namespace WaitQueue

/-- A thread that may wait, by how far it has come towards sleeping. -/
inductive Sleeper where
  /-- it does not wait -/
  | out
  /-- it is registered, before its test; was it woken since? -/
  | queued (woken : Bool)
  /-- its test was false, and it is about to sleep; was it woken since it registered? -/
  | saw (woken : Bool)
  /-- it sleeps -/
  | asleep
  deriving DecidableEq

/-- A wake-up: who is registered is woken, and who is not has missed nothing. -/
def Sleeper.wake : Sleeper → Sleeper
  | .out => .out
  | .queued _ => .queued true
  | .saw _ => .saw true
  | .asleep => .queued false

/-- It sleeps, or will do so at its next step. -/
def Sleeper.Sleeps (p : Sleeper) : Prop := p = .saw false ∨ p = .asleep

instance (p : Sleeper) : Decidable p.Sleeps := inferInstanceAs (Decidable (_ ∨ _))

@[simp] theorem Sleeper.not_sleeps_wake (p : Sleeper) : ¬ p.wake.Sleeps := by
  cases p <;> simp [Sleeper.wake, Sleeper.Sleeps]

/-- A system that others wait for, with the condition they wait for and the steps that
wake. -/
structure Queue (σ : Type u) (α : Type v) where
  /-- the others -/
  sys : Lts σ α
  /-- what is waited for -/
  cond : σ → Bool
  /-- a wake-up is to come -/
  toCome : σ → Prop
  /-- the step wakes -/
  wakes : σ → α → Bool

variable {σ : Type u} {α : Type v} {ι : Type w} [DecidableEq ι]

/-- The shared state, and how far each of the threads is. -/
structure State (σ : Type u) (ι : Type w) where
  /-- the shared state -/
  shared : σ
  /-- the threads -/
  sleeper : ι → Sleeper

/-- What can happen next: a step of the shared system, or one of a thread. -/
inductive Act (α : Type v) (ι : Type w) where
  /-- the others take a step -/
  | other (a : α)
  /-- a thread begins to wait -/
  | enter (i : ι)
  /-- it tests the condition -/
  | test (i : ι)
  /-- it goes to sleep, unless it was woken -/
  | sleep (i : ι)
  /-- it is interrupted -/
  | interrupt (i : ι)

/-- Who takes the step, if it is a thread. -/
def Act.thread : Act α ι → Option ι
  | .other _ => none
  | .enter i | .test i | .sleep i | .interrupt i => some i

namespace State

/-- A thread moves, and nothing else does. -/
def move (s : State σ ι) (i : ι) (p : Sleeper) : State σ ι :=
  { s with sleeper := Function.update s.sleeper i p }

@[simp] theorem move_shared (s : State σ ι) (i : ι) (p : Sleeper) :
    (s.move i p).shared = s.shared := rfl

@[simp] theorem move_self (s : State σ ι) (i : ι) (p : Sleeper) :
    (s.move i p).sleeper i = p := by
  simp [move]

theorem move_ne (s : State σ ι) {i j : ι} (p : Sleeper) (h : j ≠ i) :
    (s.move i p).sleeper j = s.sleeper j := by
  simp [move, h]

end State

namespace Queue

variable (q : Queue σ α)

/-- One step, after which a waking action of the system has woken whoever was registered.
-/
def step (s : State σ ι) : Act α ι → Option (State σ ι)
  | .other a => (q.sys.step s.shared a).map fun shared =>
      ⟨shared, if q.wakes s.shared a then fun i => (s.sleeper i).wake else s.sleeper⟩
  | .enter i => if s.sleeper i = .out then some (s.move i (.queued false)) else none
  | .test i =>
    match s.sleeper i with
    | .queued woken => some (s.move i (if q.cond s.shared then .out else .saw woken))
    | _ => none
  | .sleep i =>
    match s.sleeper i with
    | .saw woken => some (s.move i (if woken then .queued false else .asleep))
    | _ => none
  | .interrupt i => if s.sleeper i = .asleep then some (s.move i .out) else none

/-- The system of all threads; nobody waits at first. -/
def system (ι : Type w) [DecidableEq ι] : Lts (State σ ι) (Act α ι) where
  init := ⟨q.sys.init, fun _ => .out⟩
  step := q.step

/-- The condition is true, and no wake-up is to come. -/
def Silent (s : σ) : Prop := q.cond s = true ∧ ¬ q.toCome s

/-- A step that does not wake does not make the condition true in silence, nor
silence what is true. -/
def Announced (I : σ → Prop) : Prop :=
  ∀ s a t, I s → q.sys.step s a = some t → q.wakes s a = false → q.Silent t → q.Silent s

variable {q}

/-- The invariant: nobody sleeps in silence, that is, with nothing to come that would wake
it. -/
def Inv (q : Queue σ α) (I : σ → Prop) (s : State σ ι) : Prop :=
  I s.shared ∧ (q.Silent s.shared → ∀ i, ¬ (s.sleeper i).Sleeps)

/-- A thread moves to where it does not sleep, or there is no silence. -/
theorem Inv.move {I : σ → Prop} {s : State σ ι} {i : ι} {p : Sleeper} (h : q.Inv I s)
    (hp : q.Silent s.shared → ¬ p.Sleeps) : q.Inv I (s.move i p) := by
  refine ⟨h.1, fun hsilent j => ?_⟩
  by_cases hj : j = i
  · rw [hj, State.move_self]
    exact hp hsilent
  · rw [State.move_ne s p hj]
    exact h.2 hsilent j

/-- **Step lemma.** Whatever the step, nobody sleeps in silence after it. -/
theorem Inv.step {I : σ → Prop} (hI : ∀ s a t, I s → q.sys.step s a = some t → I t)
    (hann : q.Announced I) {s t : State σ ι} {a : Act α ι} (h : q.Inv I s)
    (hstep : q.step s a = some t) : q.Inv I t := by
  cases a with
  | other a =>
    obtain ⟨shared, hs, rfl⟩ := Option.map_eq_some_iff.mp hstep
    refine ⟨hI _ _ _ h.1 hs, fun hsilent i => ?_⟩
    dsimp only
    split
    · exact Sleeper.not_sleeps_wake _
    · next hwakes =>
      exact h.2 (hann _ _ _ h.1 hs (Bool.eq_false_iff.mpr hwakes) hsilent) i
  | enter i =>
    obtain ⟨-, hs⟩ := Option.ite_none_right_eq_some.mp hstep
    obtain rfl := Option.some.inj hs
    exact h.move fun _ => by simp [Sleeper.Sleeps]
  | test i =>
    rw [Queue.step] at hstep
    split at hstep
    case h_1 woken _ =>
      obtain rfl := Option.some.inj hstep
      refine h.move fun hsilent => ?_
      rw [if_pos hsilent.1]
      simp [Sleeper.Sleeps]
    case h_2 => cases hstep
  | sleep i =>
    rw [Queue.step] at hstep
    split at hstep
    case h_1 woken hsaw =>
      obtain rfl := Option.some.inj hstep
      refine h.move fun hsilent => ?_
      cases woken with
      | false => exact absurd (Or.inl hsaw) (h.2 hsilent i)
      | true => simp [Sleeper.Sleeps]
    case h_2 => cases hstep
  | interrupt i =>
    obtain ⟨-, hs⟩ := Option.ite_none_right_eq_some.mp hstep
    obtain rfl := Option.some.inj hs
    exact h.move fun _ => by simp [Sleeper.Sleeps]

/-- **No missed wake-up.** In no reachable state does a thread sleep although the
condition is true and no wake-up is to come. -/
theorem no_missed {I : σ → Prop} (hinit : I q.sys.init)
    (hI : ∀ s a t, I s → q.sys.step s a = some t → I t) (hann : q.Announced I)
    {s : State σ ι} (h : (q.system ι).Reach (fun _ _ => True) s) (i : ι)
    (hsleeps : (s.sleeper i).Sleeps) (hcond : q.cond s.shared = true) : q.toCome s.shared := by
  have hinv : q.Inv I s := h.invariant ⟨hinit, fun _ _ => by simp [system, Sleeper.Sleeps]⟩
    fun s a t hs _ hstep => hs.step hI hann hstep
  by_contra hnot
  exact hinv.2 ⟨hcond, hnot⟩ i hsleeps

/-- **Everybody can leave.** With the condition true and no wake-up to come, a
thread that waits leaves by steps of its own. -/
theorem served {I : σ → Prop} (hinit : I q.sys.init)
    (hI : ∀ s a t, I s → q.sys.step s a = some t → I t) (hann : q.Announced I)
    {s : State σ ι} (h : (q.system ι).Reach (fun _ _ => True) s) (hsilent : q.Silent s.shared)
    (i : ι) : ∃ as : List (Act α ι), (∀ a ∈ as, a.thread = some i) ∧
      ∃ t, (q.system ι).exec s as = some t ∧ t.sleeper i = .out ∧ t.shared = s.shared := by
  have hawake : ¬ (s.sleeper i).Sleeps := fun hsleeps =>
    hsilent.2 (no_missed hinit hI hann h i hsleeps hsilent.1)
  have htest (s' : State σ ι) (woken : Bool) (hq : s'.sleeper i = .queued woken)
      (hc : q.cond s'.shared = true) : (q.system ι).step s' (.test i) = some (s'.move i .out) := by
    simp [system, Queue.step, hq, hc]
  rcases hp : s.sleeper i with _ | woken | woken | _
  · exact ⟨[], by simp, s, rfl, hp, rfl⟩
  · refine ⟨[.test i], by simp [Act.thread], s.move i .out, ?_, by simp, rfl⟩
    rw [Lts.exec_cons, htest s woken hp hsilent.1]
    rfl
  · cases woken with
    | false => exact absurd (Or.inl hp) hawake
    | true =>
      refine ⟨[.sleep i, .test i], by simp [Act.thread], (s.move i (.queued false)).move i .out,
        ?_, by simp, rfl⟩
      have hsleep : (q.system ι).step s (.sleep i) = some (s.move i (.queued false)) := by
        simp [system, Queue.step, hp]
      rw [Lts.exec_cons, hsleep, Option.bind_some, Lts.exec_cons,
        htest (s.move i (.queued false)) false (s.move_self i _) hsilent.1]
      rfl
  · exact absurd (Or.inr hp) hawake

end Queue

end WaitQueue

end KernelDrvLearn
