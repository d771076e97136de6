import KernelDrvLearn.Transition
import Mathlib.Logic.Function.Basic

/-!
# Calls under a try-lock

Any number of threads call into one object, whose calls run in small steps. A
*guarded* call takes a lock first; if the lock is held it gives up at once, and returns
that it was refused. The others run without the lock. Each step of a call may store to
the shared state. What a thread keeps to itself while it is inside, its *locals*, may be
changed by others as well (a *poke*), as with the memory of a process.

* `Calls.Exclusive` — the lock is held by exactly one guarded call or by nobody,
  in every run.
* `Calls.invariant` — what the steps of one call keep, of the shared state and of its
  own locals, any number of interleaved calls keep.
* `Calls.Alone` — a call that runs with nobody else around.
* `Calls.Legal` — a log whose guarded calls each did what they do alone.
* `Calls.serial` — if nobody else stores to the shared state while the lock is held,
  nor pokes who holds it, the log of every run is legal: guarded calls take effect one
  at a time, in the order in which they are done.
* `Calls.released` — whoever holds the lock gives it back by steps of its own.
-/

namespace KernelDrvLearn

universe u v w x y z

namespace TryLock

/-- Calls `κ` on a shared state `σ`, with locals `ℓ`, results `ρ` and pokes `δ`. -/
structure Calls (κ : Type u) (ℓ : Type v) (σ : Type w) (ρ : Type x) (δ : Type y) where
  /-- the call takes the lock, or gives up -/
  guarded : κ → Bool
  /-- what a guarded call returns that gives up -/
  refused : κ → ρ
  /-- where the call starts -/
  start : κ → ℓ
  /-- what a step stores -/
  store : ℓ → Option (σ → σ)
  /-- where a step leads, or the result -/
  next : ℓ → σ → ℓ ⊕ ρ
  /-- the locals after a poke -/
  poke : δ → ℓ → ℓ

/-- What has happened, for the log: a call ended, gave up, or stored something on its way
without the lock. -/
inductive Event (ι : Type z) (κ : Type u) (ℓ : Type v) (ρ : Type x) where
  /-- the call is done -/
  | done (i : ι) (k : κ) (r : ρ)
  /-- the call gave up -/
  | busy (i : ι) (k : κ) (r : ρ)
  /-- a step of a call that is not guarded stored -/
  | part (l : ℓ)

/-- The object, its lock, the log of what has happened to it, and where each thread is. -/
structure State (ι : Type z) (κ : Type u) (ℓ : Type v) (σ : Type w) (ρ : Type x) where
  /-- the lock is held -/
  lock : Bool
  /-- the shared state -/
  shared : σ
  /-- the call that a thread is inside, and its locals -/
  inside : ι → Option (κ × ℓ)
  /-- what has happened -/
  log : List (Event ι κ ℓ ρ)

/-- What can happen next: a call begins, takes a step, or is poked. -/
inductive Act (ι : Type z) (κ : Type u) (δ : Type y) where
  /-- a thread makes a call -/
  | call (i : ι) (k : κ)
  /-- its call takes a step -/
  | step (i : ι)
  /-- its locals are changed by another -/
  | poke (i : ι) (d : δ)

variable {κ : Type u} {ℓ : Type v} {σ : Type w} {ρ : Type x} {δ : Type y} {ι : Type z}

/-- The call is one of those that `fits` admits. -/
def Act.Fits (fits : κ → Prop) : Act ι κ δ → Prop
  | .call _ k => fits k
  | .step _ | .poke _ _ => True

instance (fits : κ → Prop) [DecidablePred fits] (a : Act ι κ δ) : Decidable (a.Fits fits) :=
  match a with
  | .call _ k => inferInstanceAs (Decidable (fits k))
  | .step _ | .poke _ _ => isTrue trivial

section
variable [DecidableEq ι]

/-- A thread goes in, on or out; the others stay where they are. -/
def State.move (s : State ι κ ℓ σ ρ) (i : ι) (p : Option (κ × ℓ)) : State ι κ ℓ σ ρ :=
  { s with inside := Function.update s.inside i p }

@[simp] theorem State.move_lock (s : State ι κ ℓ σ ρ) (i : ι) (p : Option (κ × ℓ)) :
    (s.move i p).lock = s.lock := rfl

@[simp] theorem State.move_shared (s : State ι κ ℓ σ ρ) (i : ι) (p : Option (κ × ℓ)) :
    (s.move i p).shared = s.shared := rfl

@[simp] theorem State.move_log (s : State ι κ ℓ σ ρ) (i : ι) (p : Option (κ × ℓ)) :
    (s.move i p).log = s.log := rfl

@[simp] theorem State.move_self (s : State ι κ ℓ σ ρ) (i : ι) (p : Option (κ × ℓ)) :
    (s.move i p).inside i = p := by
  simp [move]

theorem State.move_ne (s : State ι κ ℓ σ ρ) {i j : ι} (p : Option (κ × ℓ)) (h : j ≠ i) :
    (s.move i p).inside j = s.inside j := by
  simp [move, h]

end

namespace Calls

variable (c : Calls κ ℓ σ ρ δ)

/-- The shared state after a step of a call. -/
def effect (l : ℓ) (s : σ) : σ :=
  match c.store l with
  | none => s
  | some f => f s

/-- What a step that is not the last shows. -/
def parts (k : κ) (l : ℓ) : List (Event ι κ ℓ ρ) :=
  if c.guarded k = false ∧ (c.store l).isSome then [.part l] else []

section
variable [DecidableEq ι]

/-- A step of the call that a thread is inside. -/
def advance (s : State ι κ ℓ σ ρ) (i : ι) (k : κ) (l : ℓ) : State ι κ ℓ σ ρ :=
  match c.next l s.shared with
  | .inl l' =>
    { s.move i (some (k, l')) with
      shared := c.effect l s.shared
      log := s.log ++ c.parts k l }
  | .inr r =>
    { s.move i none with
      -- a guarded call releases the lock last
      lock := s.lock && !c.guarded k
      shared := c.effect l s.shared
      log := s.log ++ c.parts k l ++ [.done i k r] }

/-- One step of the object: a call that finds the lock held is refused at once. -/
def step (s : State ι κ ℓ σ ρ) : Act ι κ δ → Option (State ι κ ℓ σ ρ)
  | .call i k =>
    if (s.inside i).isSome then none
    else if c.guarded k then
      if s.lock then some { s with log := s.log ++ [.busy i k (c.refused k)] }
      else some { s.move i (some (k, c.start k)) with lock := true }
    else some (s.move i (some (k, c.start k)))
  | .step i => (s.inside i).map fun p => c.advance s i p.1 p.2
  | .poke i d => (s.inside i).map fun p => s.move i (some (p.1, c.poke d p.2))

/-- The object with its threads; nobody is inside at first, and the lock is free. -/
def system (ι : Type z) [DecidableEq ι] (init : σ) :
    Lts (State ι κ ℓ σ ρ) (Act ι κ δ) where
  init := ⟨false, init, fun _ => none, []⟩
  step := c.step

/-! ## What a step can do

A call is refused, takes the lock, or goes in without it; inside it goes on, ends, or is
poked. The invariants below are proved by these cases, and nothing else about the step
function is used. -/

/-- A step, by its kinds, each with its condition. -/
inductive Step (s : State ι κ ℓ σ ρ) : Act ι κ δ → State ι κ ℓ σ ρ → Prop where
  | busy {i k} (hi : s.inside i = none) (hk : c.guarded k = true) (hlock : s.lock = true) :
      Step s (.call i k) { s with log := s.log ++ [.busy i k (c.refused k)] }
  | take {i k} (hi : s.inside i = none) (hk : c.guarded k = true) (hlock : s.lock = false) :
      Step s (.call i k) { s.move i (some (k, c.start k)) with lock := true }
  | enter {i k} (hi : s.inside i = none) (hk : c.guarded k = false) :
      Step s (.call i k) (s.move i (some (k, c.start k)))
  | on {i k l l'} (hi : s.inside i = some (k, l)) (hnext : c.next l s.shared = .inl l') :
      Step s (.step i) { s.move i (some (k, l')) with
        shared := c.effect l s.shared
        log := s.log ++ c.parts k l }
  | last {i k l r} (hi : s.inside i = some (k, l)) (hnext : c.next l s.shared = .inr r) :
      Step s (.step i) { s.move i none with
        lock := s.lock && !c.guarded k
        shared := c.effect l s.shared
        log := s.log ++ c.parts k l ++ [.done i k r] }
  | poke {i d k l} (hi : s.inside i = some (k, l)) :
      Step s (.poke i d) (s.move i (some (k, c.poke d l)))

variable {c} in
theorem step_cases {s t : State ι κ ℓ σ ρ} {a : Act ι κ δ} (h : c.step s a = some t) :
    c.Step s a t := by
  cases a with
  | call i k =>
    rw [step] at h
    split at h
    case isTrue => cases h
    case isFalse hi =>
      have hi : s.inside i = none := Option.not_isSome_iff_eq_none.mp hi
      split at h
      case isTrue hk =>
        split at h
        case isTrue hlock =>
          obtain rfl := Option.some.inj h
          exact .busy hi hk hlock
        case isFalse hlock =>
          obtain rfl := Option.some.inj h
          exact .take hi hk (Bool.eq_false_iff.mpr hlock)
      case isFalse hk =>
        obtain rfl := Option.some.inj h
        exact .enter hi (Bool.eq_false_iff.mpr hk)
  | step i =>
    obtain ⟨⟨k, l⟩, hi, rfl⟩ := Option.map_eq_some_iff.mp h
    rw [advance]
    split
    case h_1 l' hnext => exact .on hi hnext
    case h_2 r hnext => exact .last hi hnext
  | poke i d =>
    obtain ⟨⟨k, l⟩, hi, rfl⟩ := Option.map_eq_some_iff.mp h
    exact .poke hi

end

/-! ## The lock

The lock is a bit that a call tests and sets in one step. It excludes: of the guarded
calls at most one is inside, and as long as one is, the lock is held. -/

/-- The thread is inside a guarded call. -/
def Holds (s : State ι κ ℓ σ ρ) (i : ι) : Prop :=
  ∃ k l, s.inside i = some (k, l) ∧ c.guarded k = true

/-- The lock is held by exactly one guarded call, or by nobody. -/
structure Exclusive (s : State ι κ ℓ σ ρ) : Prop where
  held : ∀ i, c.Holds s i → s.lock = true
  one : ∀ i j, c.Holds s i → c.Holds s j → i = j
  holder : s.lock = true → ∃ i, c.Holds s i

variable {c}

/-- Whoever holds the lock is the only one who does. -/
theorem Exclusive.ne_of_holds {s : State ι κ ℓ σ ρ} (h : c.Exclusive s) {i j : ι}
    (hi : c.Holds s i) (hne : j ≠ i) : ¬ c.Holds s j :=
  fun hj => hne (h.one j i hj hi)

/-- A call that goes on is inside as before. -/
theorem holds_on [DecidableEq ι] {s t : State ι κ ℓ σ ρ} {i : ι} {k : κ} {l l' : ℓ}
    (hi : s.inside i = some (k, l)) (ht : t.inside = (s.move i (some (k, l'))).inside) (j : ι) :
    c.Holds t j ↔ c.Holds s j := by
  by_cases hj : j = i
  · subst hj
    simp [Holds, ht, hi]
  · rw [Holds, Holds, ht, s.move_ne _ hj]

/-- Only the lock matters, and who is inside: a step that keeps these keeps the exclusion.
-/
theorem Exclusive.congr {s t : State ι κ ℓ σ ρ} (h : c.Exclusive s) (hlock : t.lock = s.lock)
    (hin : ∀ i, c.Holds t i ↔ c.Holds s i) : c.Exclusive t where
  held i hi := by
    rw [hlock]
    exact h.held i ((hin i).mp hi)
  one i j hi hj := h.one i j ((hin i).mp hi) ((hin j).mp hj)
  holder ht := by
    rw [hlock] at ht
    obtain ⟨i, hi⟩ := h.holder ht
    exact ⟨i, (hin i).mpr hi⟩

/-- **Step lemma.** A guarded call that goes in finds the lock free, and one that ends is
the one that holds it. -/
theorem Exclusive.step [DecidableEq ι] {s t : State ι κ ℓ σ ρ} {a : Act ι κ δ} (h : c.Exclusive s)
    (hstep : c.step s a = some t) : c.Exclusive t := by
  have hcases : c.Step s a t := step_cases hstep
  cases hcases with
  | busy hi hk hlock => exact h.congr rfl fun _ => Iff.rfl
  | @take i k hi hk hlock =>
    have hnone (j : ι) : ¬ c.Holds s j := fun hj => by simpa [hlock] using h.held j hj
    have honly (j : ι) (hj : c.Holds { s.move i (some (k, c.start k)) with lock := true } j) :
        j = i := by
      by_contra hne
      exact hnone j (by simpa only [Holds, s.move_ne _ hne] using hj)
    refine ⟨fun _ _ => rfl, fun j j' hj hj' => (honly j hj).trans (honly j' hj').symm,
      fun _ => ⟨i, k, c.start k, ?_, hk⟩⟩
    exact s.move_self i _
  | @enter i k hi hk =>
    refine h.congr rfl fun j => ?_
    by_cases hj : j = i
    · subst hj
      simp [Holds, hi, hk]
    · rw [Holds, Holds, s.move_ne _ hj]
  | on hi hnext => exact h.congr rfl (holds_on hi rfl)
  | @last i k l r hi hnext =>
    have hout (j : ι) (hj : j ≠ i) : (s.move i none).inside j = s.inside j := s.move_ne _ hj
    by_cases hk : c.guarded k = true
    · -- the holder leaves, and nobody is left inside
      have hnone (j : ι) : ¬ c.Holds (s.move i none) j := by
        rintro ⟨k', l', hj, hk'⟩
        by_cases hji : j = i
        · subst hji
          simp at hj
        · rw [hout j hji] at hj
          exact hji (h.one j i ⟨k', l', hj, hk'⟩ ⟨k, l, hi, hk⟩)
      refine ⟨fun j hj => absurd hj (hnone j), fun j _ hj => absurd hj (hnone j), fun ht => ?_⟩
      simp [hk] at ht
    · refine h.congr (by simp [hk]) fun j => ?_
      by_cases hji : j = i
      · subst hji
        simp [Holds, hi, hk]
      · rw [Holds, Holds, hout j hji]
  | poke hi => exact h.congr rfl (holds_on hi rfl)

/-- **Mutual exclusion**, in every run: the lock is held by exactly one guarded call or by
nobody. -/
theorem exclusive [DecidableEq ι] {init : σ} {ok : State ι κ ℓ σ ρ → Act ι κ δ → Prop}
    {s : State ι κ ℓ σ ρ} (h : (c.system ι init).Reach ok s) : c.Exclusive s := by
  refine h.invariant ⟨?_, ?_, ?_⟩ fun _ _ _ hs _ hstep => hs.step hstep
  · rintro i ⟨k, l, hi, -⟩
    cases hi
  · rintro i j ⟨k, l, hi, -⟩
    cases hi
  · intro hlock
    cases hlock

/-! ## Invariants of one call

An object whose calls interleave at every step is safe if each call is, provided that what
it relies on cannot be changed behind its back. So it is enough to look at one call at a
time: what its steps need of the shared state, and what they need of its own locals. -/

/-- Each of the parts has its invariant: the shared state, every thread's locals, every
result. -/
structure Kept (I : σ → Prop) (J : κ → ℓ → Prop) (R : κ → ρ → Prop)
    (s : State ι κ ℓ σ ρ) : Prop where
  shared : I s.shared
  inside : ∀ i k l, s.inside i = some (k, l) → J k l
  log : ∀ i k r, .done i k r ∈ s.log → R k r

/-- A thread moves to locals of which the invariant is true, or goes out. -/
theorem Kept.move [DecidableEq ι] {I : σ → Prop} {J : κ → ℓ → Prop} {R : κ → ρ → Prop}
    {s : State ι κ ℓ σ ρ} (h : Kept I J R s) {i : ι} {p : Option (κ × ℓ)}
    (hp : ∀ k l, p = some (k, l) → J k l) : Kept I J R (s.move i p) := by
  refine ⟨h.shared, fun j k l hj => ?_, h.log⟩
  by_cases hji : j = i
  · subst hji
    rw [State.move_self] at hj
    exact hp k l hj
  · rw [s.move_ne p hji] at hj
    exact h.inside j k l hj

/-- What is logged of a step that is not the last is not the end of a call. -/
theorem not_done_mem_parts {k k' : κ} {l : ℓ} {i : ι} {r : ρ} :
    Event.done i k' r ∉ (c.parts k l : List (Event ι κ ℓ ρ)) := by
  rw [parts]
  split
  · simp
  · simp

/-- **Invariant rule.** The shared state has an invariant `I`, the locals one that
relies on nothing else, `J`, and the results have `R`: it is enough to look at one
call. -/
theorem invariant [DecidableEq ι] {I : σ → Prop} {J : κ → ℓ → Prop} {R : κ → ρ → Prop}
    {fits : κ → Prop} {init : σ} (hinit : I init) (hstart : ∀ k, fits k → J k (c.start k))
    (hstore : ∀ k l s, I s → J k l → I (c.effect l s))
    (hon : ∀ k l s l', I s → J k l → c.next l s = .inl l' → J k l')
    (hlast : ∀ k l s r, I s → J k l → c.next l s = .inr r → R k r)
    (hpoke : ∀ k l d, J k l → J k (c.poke d l)) {s : State ι κ ℓ σ ρ}
    (h : (c.system ι init).Reach (fun _ a => Act.Fits fits a) s) : Kept I J R s := by
  -- at first nobody is inside and nothing is logged
  have hkept : Kept I J R (c.system ι init).init := by
    refine ⟨hinit, fun i k l hi => ?_, fun i k r hr => ?_⟩
    · cases hi
    · cases hr
  refine h.invariant hkept fun s a t hs hok hstep => ?_
  have hcases : c.Step s a t := step_cases hstep
  cases hcases with
  | busy hi hk hlock =>
    -- a refused call leaves only a line in the log
    refine ⟨hs.shared, hs.inside, fun j k' r hr => hs.log j k' r ?_⟩
    simpa using hr
  | @take i k hi hk hlock =>
    have hmove : Kept I J R (s.move i (some (k, c.start k))) := hs.move fun k' l hp => by
      obtain ⟨rfl, rfl⟩ : k = k' ∧ c.start k = l := by simpa using hp
      exact hstart k hok
    exact ⟨hmove.shared, hmove.inside, hmove.log⟩
  | @enter i k hi hk =>
    refine hs.move fun k' l hp => ?_
    obtain ⟨rfl, rfl⟩ : k = k' ∧ c.start k = l := by simpa using hp
    exact hstart k hok
  | @on i k l l' hi hnext =>
    have hmove : Kept I J R (s.move i (some (k, l'))) := hs.move fun k' m hp => by
      obtain ⟨rfl, rfl⟩ : k = k' ∧ l' = m := by simpa using hp
      exact hon k l s.shared l' hs.shared (hs.inside i k l hi) hnext
    refine ⟨hstore k l s.shared hs.shared (hs.inside i k l hi), hmove.inside,
      fun j k' r hr => hs.log j k' r ?_⟩
    simpa [not_done_mem_parts] using hr
  | @last i k l r hi hnext =>
    have hmove : Kept I J R (s.move i none) := hs.move fun k' m hp => by cases hp
    refine ⟨hstore k l s.shared hs.shared (hs.inside i k l hi), hmove.inside, fun j k' r' hr => ?_⟩
    rcases List.mem_append.mp hr with hr | hr
    · refine hs.log j k' r' ?_
      simpa [not_done_mem_parts] using hr
    · obtain ⟨rfl, rfl, rfl⟩ : j = i ∧ k' = k ∧ r' = r := by simpa using hr
      exact hlast k' l s.shared r' hs.shared (hs.inside j k' l hi) hnext
  | @poke i d k l hi =>
    refine hs.move fun k' m hp => ?_
    obtain ⟨rfl, rfl⟩ : k = k' ∧ c.poke d l = m := by simpa using hp
    exact hpoke k l d (hs.inside i k l hi)

/-! ## One at a time

What a lock is for. If those outside the lock leave the shared state alone while it is
held, then a run of the object might as well have run its guarded calls one after the
other, in the order in which they ended. `Legal` says so of the log, and `Serial` is what
the steps keep. -/

variable (c)

/-- The call, run alone from these locals and this shared state, ends with that
shared state and that result. -/
inductive Alone : ℓ → σ → σ → ρ → Prop where
  | last {l s r} (h : c.next l s = .inr r) : Alone l s (c.effect l s) r
  | on {l l' s t r} (h : c.next l s = .inl l') (rest : Alone l' (c.effect l s) t r) :
      Alone l s t r

/-- What an event does to the shared state, and what it returns, if calls are
atomic. A call that gave up has returned that it was refused, and nothing else. -/
def One : Event ι κ ℓ ρ → σ → σ → Prop
  | .done _ k r, s, t => if c.guarded k then c.Alone (c.start k) s t r else t = s
  | .busy _ k r, s, t => c.guarded k = true ∧ r = c.refused k ∧ t = s
  | .part l, s, t => t = c.effect l s

/-- The log leads from the one shared state to the other, each of its guarded calls
run alone. -/
def Legal : σ → List (Event ι κ ℓ ρ) → σ → Prop
  | s, [], t => t = s
  | s, e :: log, t => ∃ u, c.One e s u ∧ Legal u log t

variable {c}

theorem Legal.append {s t u : σ} {log log' : List (Event ι κ ℓ ρ)} (h : c.Legal s log t)
    (h' : c.Legal t log' u) : c.Legal s (log ++ log') u := by
  induction log generalizing s with
  | nil =>
    obtain rfl := h
    exact h'
  | cons e log ih =>
    obtain ⟨s', he, hlog⟩ := h
    exact ⟨s', he, ih hlog⟩

theorem Legal.snoc {s t u : σ} {log : List (Event ι κ ℓ ρ)} {e : Event ι κ ℓ ρ}
    (h : c.Legal s log t) (he : c.One e t u) : c.Legal s (log ++ [e]) u :=
  h.append ⟨u, he, rfl⟩

/-- A step that is not the last of a call that is not guarded. -/
theorem Legal.parts {s t : σ} {log : List (Event ι κ ℓ ρ)} {k : κ} {l : ℓ}
    (h : c.Legal s log t) (hk : c.guarded k = false) :
    c.Legal s (log ++ c.parts k l) (c.effect l t) := by
  rw [Calls.parts]
  split
  case isTrue => exact h.snoc rfl
  case isFalse hnot =>
    have hstore : c.store l = none := by simpa [hk] using hnot
    have heffect : c.effect l t = t := by rw [effect, hstore]
    rw [heffect, List.append_nil]
    exact h

/-- What a law of the calls says of a call that runs alone: `whole` is what is left
to be done from some locals on. -/
theorem Alone.eq {whole : ℓ → σ → σ × ρ} (hon : ∀ l s l', c.next l s = .inl l' →
      whole l s = whole l' (c.effect l s))
    (hlast : ∀ l s r, c.next l s = .inr r → whole l s = (c.effect l s, r))
    {l : ℓ} {s t : σ} {r : ρ} (h : c.Alone l s t r) : whole l s = (t, r) := by
  induction h with
  | last h => exact hlast _ _ _ h
  | on h _ ih => exact (hon _ _ _ h).trans ih

/-- A call whose steps make a measure smaller ends. -/
theorem alone_of_measure (measure : ℓ → ℕ)
    (hlt : ∀ l s l', c.next l s = .inl l' → measure l' < measure l) (l : ℓ) (s : σ) :
    ∃ t r, c.Alone l s t r := by
  induction hn : measure l using Nat.strongRecOn generalizing l s with
  | _ n ih =>
    rcases hnext : c.next l s with l' | r
    · obtain ⟨t, r, hrest⟩ := ih _ (hn ▸ hlt l s l' hnext) l' (c.effect l s) rfl
      exact ⟨t, r, .on hnext hrest⟩
    · exact ⟨_, r, .last hnext⟩

/-- Nobody stores to the shared state while another holds the lock, and who holds
it is not poked. -/
def Undisturbed (c : Calls κ ℓ σ ρ δ) (s : State ι κ ℓ σ ρ) : Act ι κ δ → Prop
  | .call _ _ => True
  | .step i => ∀ k l, s.inside i = some (k, l) → c.guarded k = false → s.lock = true →
      c.store l = none
  | .poke i _ => ¬ c.Holds s i

instance (s : State ι κ ℓ σ ρ) (i : ι) : Decidable (c.Holds s i) :=
  decidable_of_iff (((s.inside i).any fun p => c.guarded p.1) = true)
    (by simp [Holds, Option.any_eq_true])

instance (s : State ι κ ℓ σ ρ) (a : Act ι κ δ) : Decidable (c.Undisturbed s a) :=
  match a with
  | .call _ _ => isTrue trivial
  | .step i =>
    decidable_of_iff (((s.inside i).all fun p =>
        c.guarded p.1 || !s.lock || (c.store p.2).isNone) = true)
      (by
        rw [Undisturbed]
        rcases s.inside i with _ | ⟨k, l⟩
        · simp
        · cases hk : c.guarded k <;> cases hlock : s.lock <;> simp [hk])
  | .poke i _ => inferInstanceAs (Decidable (¬ c.Holds s i))

/-- The log is legal; the call that holds the lock has yet to do what it does alone. -/
structure Serial (c : Calls κ ℓ σ ρ δ) (init : σ) (s : State ι κ ℓ σ ρ) : Prop where
  free : s.lock = false → c.Legal init s.log s.shared
  held : ∀ i k l, s.inside i = some (k, l) → c.guarded k = true →
    ∃ s₀, c.Legal init s.log s₀ ∧ ∀ t r, c.Alone l s.shared t r → c.Alone (c.start k) s₀ t r

/-- A step of a call that is not guarded: while the lock is held it stores nothing,
and what it logs has no effect. -/
theorem Serial.unguarded {init : σ} {s t : State ι κ ℓ σ ρ} {k : κ} {l : ℓ}
    {es : List (Event ι κ ℓ ρ)} (h : c.Serial init s) (hex : c.Exclusive s)
    (hk : c.guarded k = false) (hstore : s.lock = true → c.store l = none)
    (hlock : t.lock = s.lock) (hshared : t.shared = c.effect l s.shared)
    (hin : ∀ j, c.Holds t j → t.inside j = s.inside j)
    (hlog : t.log = s.log ++ c.parts k l ++ es) (hes : ∀ u, c.Legal u es u) :
    c.Serial init t := by
  refine ⟨fun hfree => ?_, fun j k' m hj hk' => ?_⟩
  · rw [hlog, hshared]
    exact ((h.free (hlock ▸ hfree)).parts hk).append (hes _)
  · rw [hin j ⟨k', m, hj, hk'⟩] at hj
    have hstore : c.store l = none := hstore (hex.held j ⟨k', m, hj, hk'⟩)
    have hparts : (c.parts k l : List (Event ι κ ℓ ρ)) = [] := by simp [Calls.parts, hstore]
    have heffect : c.effect l s.shared = s.shared := by rw [effect, hstore]
    obtain ⟨s₀, hlegal, hrest⟩ := h.held j k' m hj hk'
    rw [hlog, hparts, List.append_nil, hshared, heffect]
    exact ⟨s₀, hlegal.append (hes s₀), hrest⟩

/-- **Step lemma.** A call that ends has done what it does alone, and the log stays legal.
-/
theorem Serial.step [DecidableEq ι] {init : σ} {s t : State ι κ ℓ σ ρ} {a : Act ι κ δ}
    (h : c.Serial init s) (hex : c.Exclusive s) (hok : c.Undisturbed s a)
    (hstep : c.step s a = some t) : c.Serial init t := by
  have hcases : c.Step s a t := step_cases hstep
  cases hcases with
  | @busy i k hi hk hlock =>
    refine ⟨fun hfree => ?_, fun j k' l' hj hk' => ?_⟩
    · simp [hlock] at hfree
    · obtain ⟨s₀, hlegal, hrest⟩ := h.held j k' l' hj hk'
      exact ⟨s₀, hlegal.snoc ⟨hk, rfl, rfl⟩, hrest⟩
  | @take i k hi hk hlock =>
    refine ⟨fun hfree => Bool.noConfusion hfree, fun j k' l' hj hk' => ?_⟩
    by_cases hji : j = i
    · subst hji
      obtain ⟨rfl, rfl⟩ : k = k' ∧ c.start k = l' := by simpa [State.move] using hj
      exact ⟨s.shared, h.free hlock, fun _ _ halone => halone⟩
    · have hj : s.inside j = some (k', l') := by simpa [State.move, hji] using hj
      have := hex.held j ⟨k', l', hj, hk'⟩
      simp [hlock] at this
  | @enter i k hi hk =>
    refine ⟨h.free, fun j k' l' hj hk' => ?_⟩
    by_cases hji : j = i
    · subst hji
      obtain ⟨rfl, -⟩ : k = k' ∧ c.start k = l' := by simpa using hj
      simp [hk] at hk'
    · exact h.held j k' l' (by rwa [s.move_ne _ hji] at hj) hk'
  | @on i k l l' hi hnext =>
    by_cases hk : c.guarded k = true
    · -- the holder goes on: alone, it would do the same
      have hlock : s.lock = true := hex.held i ⟨k, l, hi, hk⟩
      have hparts : (c.parts k l : List (Event ι κ ℓ ρ)) = [] := by simp [Calls.parts, hk]
      refine ⟨fun hfree => ?_, fun j k' m hj hk' => ?_⟩
      · simp [hlock] at hfree
      · by_cases hji : j = i
        · subst hji
          obtain ⟨rfl, rfl⟩ : k = k' ∧ l' = m := by simpa [State.move] using hj
          obtain ⟨s₀, hlegal, hrest⟩ := h.held j k l hi hk
          refine ⟨s₀, ?_, fun t r halone => hrest t r (.on hnext halone)⟩
          rw [hparts, List.append_nil]
          exact hlegal
        · have hj : s.inside j = some (k', m) := by simpa [State.move, hji] using hj
          exact absurd ⟨k', m, hj, hk'⟩ (hex.ne_of_holds ⟨k, l, hi, hk⟩ hji)
    · have hk : c.guarded k = false := Bool.eq_false_iff.mpr hk
      refine h.unguarded hex hk (hok k l hi hk) rfl rfl ?_ (List.append_nil _).symm fun _ => rfl
      rintro j ⟨k', m, hj, hk'⟩
      have hji : j ≠ i := by
        rintro rfl
        obtain ⟨rfl, -⟩ : k = k' ∧ l' = m := by simpa [State.move] using hj
        simp [hk] at hk'
      exact s.move_ne _ hji
  | @last i k l r hi hnext =>
    have hne (j : ι) (k' : κ) (m : ℓ) (hj : (s.move i none).inside j = some (k', m)) :
        j ≠ i := by
      rintro rfl
      simp at hj
    by_cases hk : c.guarded k = true
    · -- the holder is done, as it would be alone
      have hparts : (c.parts k l : List (Event ι κ ℓ ρ)) = [] := by simp [Calls.parts, hk]
      refine ⟨fun _ => ?_, fun j k' m hj hk' => ?_⟩
      · obtain ⟨s₀, hlegal, hrest⟩ := h.held i k l hi hk
        rw [hparts, List.append_nil]
        refine hlegal.snoc ?_
        rw [One, if_pos hk]
        exact hrest _ _ (.last hnext)
      · have hji : j ≠ i := hne j k' m hj
        have hj : s.inside j = some (k', m) := by simpa [State.move, hji] using hj
        exact absurd ⟨k', m, hj, hk'⟩ (hex.ne_of_holds ⟨k, l, hi, hk⟩ hji)
    · have hk : c.guarded k = false := Bool.eq_false_iff.mpr hk
      refine h.unguarded hex hk (hok k l hi hk) (by simp [hk]) rfl ?_ rfl
        fun u => ⟨u, by simp [One, hk], rfl⟩
      rintro j ⟨k', m, hj, -⟩
      exact s.move_ne _ (hne j k' m hj)
  | @poke i d k l hi =>
    refine ⟨h.free, fun j k' m hj hk' => ?_⟩
    have hji : j ≠ i := by
      rintro rfl
      obtain ⟨rfl, -⟩ : k = k' ∧ c.poke d l = m := by simpa using hj
      exact hok ⟨k, l, hi, hk'⟩
    exact h.held j k' m (by rwa [s.move_ne _ hji] at hj) hk'

/-- **One at a time.** If nobody disturbs the lock's holders, the log is legal. -/
theorem serial [DecidableEq ι] {init : σ} {s : State ι κ ℓ σ ρ}
    (h : (c.system ι init).Reach c.Undisturbed s) : c.Serial init s := by
  refine h.invariant_of (fun _ => exclusive) ⟨fun _ => rfl, ?_⟩
    fun _ _ _ hex hs hok hstep => hs.step hex hok hstep
  intro i k l hi
  cases hi

/-- **Released.** A guarded call that would end alone ends by steps of its own, and
the lock is free then. -/
theorem released [DecidableEq ι] {init t : σ} {s : State ι κ ℓ σ ρ} {i : ι} {k : κ} {l : ℓ} {r : ρ}
    (hi : s.inside i = some (k, l)) (hk : c.guarded k = true) (h : c.Alone l s.shared t r) :
    ∃ s', (c.system ι init).Repeats (.step i) s s' ∧ s'.lock = false ∧ s'.shared = t ∧
      s'.log = s.log ++ [.done i k r] := by
  have hparts (l : ℓ) : (c.parts k l : List (Event ι κ ℓ ρ)) = [] := by simp [Calls.parts, hk]
  have hstep (s : State ι κ ℓ σ ρ) (l : ℓ) (hi : s.inside i = some (k, l)) :
      (c.system ι init).step s (.step i) = some (c.advance s i k l) := by
    simp [system, Calls.step, hi]
  generalize hshared : s.shared = u at h
  induction h generalizing s with
  | @last l u r hnext =>
    subst hshared
    refine ⟨_, .head (hstep s l hi) (.refl _ _), ?_⟩
    simp [advance, hnext, hparts, hk]
  | @on l l' u t r hnext _ ih =>
    subst hshared
    obtain ⟨s', hrepeats, hs'⟩ := ih (s := c.advance s i k l) (by simp [advance, hnext, State.move])
      (by simp [advance, hnext])
    refine ⟨s', .head (hstep s l hi) hrepeats, ?_⟩
    have hlog : (c.advance s i k l).log = s.log := by simp [advance, hnext, hparts]
    rw [hlog] at hs'
    exact hs'

end Calls

end TryLock

end KernelDrvLearn
