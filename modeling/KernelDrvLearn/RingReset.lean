import KernelDrvLearn.Ringbuf
import KernelDrvLearn.Transition

/-!
# Resetting the sample ring under its users

`FB_RESET_BUFFER` calls `ringbuf_init` on a ring that other threads may be
using: a `memset` of the whole struct, lock word included, and then
`spin_lock_init`. It takes no lock. Here pushes and pops are broken into lock
acquisition, the tests, the single field updates and the release, by any number
of threads, and resets run between any two of these steps.

A push or pop inside its critical section is a thread with a list of statements
still to execute. What carries the invariant is what the ring will be *once the
list is finished* (`finish`): it represents the queue after the whole operation.

The discipline holds exactly as long as no reset step lands while an operation
is inside the critical section: such a step lets a second operation in
(`reset_lets_in`), and it may leave `head`, `tail` and `size` inconsistent for
good (`reset_corrupts`).
-/

namespace KernelDrvLearn

namespace RingReset

/-! ## Threads

Each operation is cut into the steps that others can come between: taking the lock, a
test, one field update, releasing the lock; and for a reset, the `memset` and the
initialisation of the lock. A thread inside carries the list of updates it has still to
make. -/

/-- The field updates of the critical sections. -/
inductive Stmt where
  /-- `memcpy(&r->data[r->head], v, sizeof(*v))` -/
  | store (v : Rbdata)
  /-- `r->head = (r->head + 1) % RINGBUF_SIZE` -/
  | advanceHead
  /-- `r->tail = (r->tail + 1) % RINGBUF_SIZE` -/
  | advanceTail
  /-- `r->size++` -/
  | incSize
  /-- `r->size--` -/
  | decSize
  /-- `r->dropcount++` -/
  | incDropcount

/-- The ring after one field update, all other fields being as they were. -/
def Stmt.apply (r : Ringbuf) : Stmt → Ringbuf
  | store v => r.store v
  | advanceHead => r.advanceHead
  | advanceTail => r.advanceTail
  | incSize => r.incSize
  | decSize => r.decSize
  | incDropcount => r.incDropcount

/-- The empty path of `ringbuf_push`, up to the release. -/
def emptyPath (v : Rbdata) : List Stmt := [.store v, .advanceHead, .incSize]

/-- The full path of `ringbuf_push`: the oldest sample makes room. -/
def fullPath (v : Rbdata) : List Stmt := [.advanceTail, .incDropcount, .store v, .advanceHead]

/-- The partly full path of `ringbuf_push`. -/
def roomPath (v : Rbdata) : List Stmt := [.incSize, .store v, .advanceHead]

/-- The rest of `ringbuf_pop` after its copy. -/
def popPath : List Stmt := [.advanceTail, .decSize]

/-- Where a thread stands, with the updates it has left. -/
inductive Pc where
  /-- in no operation -/
  | idle
  /-- push: before `spin_lock_irqsave` -/
  | pushLock (v : Rbdata)
  /-- push: before `if (r->size == 0)` -/
  | testEmpty (v : Rbdata)
  /-- push: before `if (r->size == RINGBUF_SIZE)` -/
  | testFull (v : Rbdata)
  /-- push: the updates still to do before the release -/
  | pushing (v : Rbdata) (todo : List Stmt)
  /-- pop: before `spin_lock_irqsave` -/
  | popLock
  /-- pop: before `if (r->size == 0)` -/
  | testPop
  /-- pop: before the copy -/
  | copyOut
  /-- pop: what it will return, and the updates still to do before the release -/
  | popping (out : Option Rbdata) (todo : List Stmt)
  /-- reset: before `memset` -/
  | memset
  /-- reset: before `spin_lock_init` -/
  | lockInit

/-- Is the thread inside the ring's critical section? -/
def Pc.inCS : Pc → Bool
  | testEmpty _ => true
  | testFull _ => true
  | pushing _ _ => true
  | testPop => true
  | copyOut => true
  | popping _ _ => true
  | _ => false

/-- Is the thread's next step one of a reset? -/
def Pc.resetting : Pc → Bool
  | memset => true
  | lockInit => true
  | _ => false

/-- The ring, the threads, and the samples since the last reset. -/
structure State where
  /-- the ring -/
  ring : Ringbuf
  /-- the threads -/
  pc : ℕ → Pc
  /-- record: samples whose push finished since the last reset -/
  pushed : List Rbdata
  /-- record: samples returned by pops since the last reset -/
  popped : List Rbdata

/-- What can happen next: a call begins, or a thread takes a step. -/
inductive Act where
  /-- thread `p` calls `ringbuf_push` -/
  | push (p : ℕ) (v : Rbdata)
  /-- thread `p` calls `ringbuf_pop` -/
  | pop (p : ℕ)
  /-- thread `p` issues `FB_RESET_BUFFER` -/
  | reset (p : ℕ)
  /-- thread `p` takes a step -/
  | run (p : ℕ)

/-- Thread `p` moves on to `pc`. -/
def State.goto (s : State) (p : ℕ) (pc : Pc) : State :=
  { s with pc := Function.update s.pc p pc }

/-- Thread `p` executes one field update and has `pc` left. -/
def State.exec (s : State) (p : ℕ) (stmt : Stmt) (pc : Pc) : State :=
  State.goto { s with ring := stmt.apply s.ring } p pc

@[simp] theorem State.goto_pc_self (s : State) (p : ℕ) (pc : Pc) : (s.goto p pc).pc p = pc :=
  Function.update_self ..

theorem State.goto_pc_ne (s : State) {p q : ℕ} (h : q ≠ p) (pc : Pc) :
    (s.goto p pc).pc q = s.pc q :=
  Function.update_of_ne h ..

@[simp] theorem State.goto_ring (s : State) (p : ℕ) (pc : Pc) : (s.goto p pc).ring = s.ring := rfl

/-- One step of thread `p`, if it has one. -/
def runStep (s : State) (p : ℕ) : Option State :=
  match s.pc p with
  | .idle => none
  | .pushLock v =>
    if s.ring.lk then none
    else some (State.goto { s with ring := s.ring.spinLockIrqsave } p (.testEmpty v))
  | .testEmpty v =>
    if s.ring.size = 0 then some (s.goto p (.pushing v (emptyPath v)))
    else some (s.goto p (.testFull v))
  | .testFull v =>
    if s.ring.size = ringbufSize then some (s.goto p (.pushing v (fullPath v)))
    else some (s.goto p (.pushing v (roomPath v)))
  | .pushing v (stmt :: todo) => some (s.exec p stmt (.pushing v todo))
  | .pushing v [] =>
    some (State.goto
      { s with ring := s.ring.spinUnlockIrqrestore, pushed := s.pushed ++ [v] } p .idle)
  | .popLock =>
    if s.ring.lk then none
    else some (State.goto { s with ring := s.ring.spinLockIrqsave } p .testPop)
  | .testPop =>
    if s.ring.size = 0 then some (s.goto p (.popping none []))
    else some (s.goto p .copyOut)
  | .copyOut => some (s.goto p (.popping (some s.ring.load) popPath))
  | .popping out (stmt :: todo) => some (s.exec p stmt (.popping out todo))
  | .popping out [] =>
    some (State.goto
      { s with ring := s.ring.spinUnlockIrqrestore, popped := s.popped ++ out.toList } p .idle)
  | .memset =>
    -- the lock word is cleared with the rest of the struct
    some (State.goto { s with ring := ringbufInit, pushed := [], popped := [] } p .lockInit)
  | .lockInit =>
    some (State.goto { s with ring := s.ring.spinLockInit } p .idle)

/-- An idle thread enters an operation, which begins with an attempt at the lock. -/
def call (s : State) (p : ℕ) (pc : Pc) : Option State :=
  match s.pc p with
  | .idle => some (s.goto p pc)
  | _ => none

/-- One step of the system, by one thread. -/
def step (s : State) : Act → Option State
  | .push p v => call s p (.pushLock v)
  | .pop p => call s p .popLock
  | .reset p => call s p .memset
  | .run p => runStep s p

/-- The ring after probe, with no operation in progress. -/
def system : Lts State Act where
  init := ⟨ringbufInit, fun _ => .idle, [], []⟩
  step := step

/-- No reset step lands while an operation is inside the critical section. -/
def ResetAlone (s : State) : Act → Prop
  | .run p => (s.pc p).resetting = true → ∀ q, (s.pc q).inCS = false
  | _ => True

/-! ## The ring an unfinished section will leave

A half-done operation leaves the indices inconsistent for a while. What counts is the ring
it is going to leave, which is known as soon as its path is chosen, since nobody else
touches the fields. -/

/-- The ring after the rest of a critical section and the release. -/
def finish (todo : List Stmt) (r : Ringbuf) : Ringbuf :=
  (todo.foldl Stmt.apply r).spinUnlockIrqrestore

/-- The three paths of a push end in the ring after `ringbuf_push`. -/
theorem finish_emptyPath {r : Ringbuf} (h : r.size = 0) (v : Rbdata) :
    finish (emptyPath v) r = ringbufPush r.spinUnlockIrqrestore v := by
  have hne : r.spinUnlockIrqrestore.size ≠ 64 := by
    change r.size ≠ 64
    omega
  rw [ringbufPush_of_ne hne]
  rfl

theorem finish_fullPath {r : Ringbuf} (h : r.size = 64) (v : Rbdata) :
    finish (fullPath v) r = ringbufPush r.spinUnlockIrqrestore v := by
  have hfull : r.spinUnlockIrqrestore.size = 64 := h
  rw [ringbufPush_of_full hfull]
  rfl

theorem finish_roomPath {r : Ringbuf} (h : r.size ≠ 64) (v : Rbdata) :
    finish (roomPath v) r = ringbufPush r.spinUnlockIrqrestore v := by
  have hne : r.spinUnlockIrqrestore.size ≠ 64 := h
  rw [ringbufPush_of_ne hne]
  rfl

/-- The rest of a pop ends in the ring after `ringbuf_pop`. -/
theorem finish_popPath {r : Ringbuf} (h : r.size ≠ 0) :
    finish popPath r = (ringbufPop r.spinUnlockIrqrestore Rbdata.zero).ring := by
  have hne : r.spinUnlockIrqrestore.size ≠ 0 := h
  rw [ringbufPop_of_ne hne]
  rfl

/-! ## The invariant

At most one thread is inside. If one is, the ring it will leave represents the queue after
its operation; if none is, the ring represents the queue now. A reset with nobody inside
starts a new history. -/

/-- What a thread inside the critical section owes: the ring it will leave
represents the queue after its operation. -/
def Pc.Owes (r : Ringbuf) (q : LossyFifo Rbdata 64) : Pc → Prop
  | testEmpty _ => r.spinUnlockIrqrestore.Rep q
  | testFull _ => r.spinUnlockIrqrestore.Rep q
  | pushing v todo => (finish todo r).Rep (q.push v)
  | testPop => r.spinUnlockIrqrestore.Rep q
  | copyOut => r.spinUnlockIrqrestore.Rep q ∧ r.size ≠ 0
  | popping out todo => (finish todo r).Rep q.rest ∧ out = q.queue.items.head?
  | _ => True

theorem Pc.owes_of_out {r : Ringbuf} {q : LossyFifo Rbdata 64} {pc : Pc}
    (h : pc.inCS = false) : pc.Owes r q := by
  cases pc with
  | idle | pushLock | popLock | memset | lockInit => trivial
  | testEmpty | testFull | pushing | testPop | copyOut | popping => cases h

/-- A push owes its queue as soon as its path is chosen. -/
theorem Pc.owes_pushing {r : Ringbuf} {q : LossyFifo Rbdata 64} {v : Rbdata} {path : List Stmt}
    (hrep : r.spinUnlockIrqrestore.Rep q)
    (hpath : finish path r = ringbufPush r.spinUnlockIrqrestore v) :
    (pushing v path).Owes r q := by
  change (finish path r).Rep (q.push v)
  rw [hpath]
  exact hrep.push v

/-- A pop of an empty ring has nothing to do. -/
theorem Pc.owes_popping_none {r : Ringbuf} {q : LossyFifo Rbdata 64}
    (hrep : r.spinUnlockIrqrestore.Rep q) (hsize : r.size = 0) :
    (popping none []).Owes r q := by
  have hempty : r.spinUnlockIrqrestore.abs = [] := hrep.wf.size_eq_zero_iff.mp hsize
  have hrest := hrep.pop Rbdata.zero
  rw [ringbufPop_empty hrep.wf hempty] at hrest
  refine ⟨hrest, ?_⟩
  rw [← hrep.abs, hempty]
  rfl

/-- A pop of another ring has copied its oldest sample. -/
theorem Pc.owes_popping_some {r : Ringbuf} {q : LossyFifo Rbdata 64}
    (hrep : r.spinUnlockIrqrestore.Rep q) (hsize : r.size ≠ 0) :
    (popping (some r.load) popPath).Owes r q := by
  refine ⟨?_, ?_⟩
  · rw [finish_popPath hsize]
    exact hrep.pop Rbdata.zero
  · rcases habs : r.spinUnlockIrqrestore.abs with _ | ⟨x, xs⟩
    · exact absurd (hrep.wf.size_eq_zero_iff.mpr habs) hsize
    · obtain ⟨-, hx, -⟩ := ringbufPop_cons hrep.wf habs Rbdata.zero
      have hne : r.spinUnlockIrqrestore.size ≠ 0 := hsize
      rw [ringbufPop_of_ne hne] at hx
      rw [← hrep.abs, habs, List.head?_cons, ← hx]
      rfl

/-- The queue of a ledger with its drops. -/
def fifo (L : Ledger Rbdata 64) : LossyFifo Rbdata 64 := ⟨L.queue, L.drops⟩

theorem fifo_push (L : Ledger Rbdata 64) (v : Rbdata) : fifo (L.push v) = (fifo L).push v := rfl

theorem fifo_pop (L : Ledger Rbdata 64) : fifo L.pop = (fifo L).rest := rfl

/-- The state of the ring and its threads, against the history `L` since the
last reset. -/
structure Inv (s : State) (L : Ledger Rbdata 64) : Prop where
  pushed : L.pushed = s.pushed
  popped : L.popped = s.popped
  /-- at most one thread is inside -/
  exclusive : ∀ p q, (s.pc p).inCS = true → (s.pc q).inCS = true → p = q
  /-- a thread inside holds the lock -/
  held : ∀ p, (s.pc p).inCS = true → s.ring.lk = true
  /-- with no thread inside, the ring represents the queue -/
  quiet : (∀ p, (s.pc p).inCS = false) → s.ring.Rep (fifo L)
  /-- a thread inside will leave it so -/
  owes : ∀ p, (s.pc p).Owes s.ring (fifo L)

namespace Inv

variable {s : State} {L : Ledger Rbdata 64}

theorem init : Inv system.init Ledger.empty where
  pushed := rfl
  popped := rfl
  exclusive _ _ h := by cases h
  held _ h := by cases h
  quiet _ := Ringbuf.Rep.init
  owes _ := trivial

/-- While a thread is inside, the others are outside. -/
theorem others (h : Inv s L) {p : ℕ} (hp : (s.pc p).inCS = true) :
    ∀ q, q ≠ p → (s.pc q).inCS = false := by
  intro q hq
  by_contra hin
  exact hq (h.exclusive q p (by simpa using hin) hp)

/-- While the lock is free, every thread is outside. -/
theorem out_of_free (h : Inv s L) (hlk : s.ring.lk = false) : ∀ q, (s.pc q).inCS = false := by
  intro q
  by_contra hin
  have := h.held q (by simpa using hin)
  rw [hlk] at this
  cases this

/-- A thread moves outside the section; ring and history stay. -/
theorem outside (h : Inv s L) {p : ℕ} {pc : Pc} (hp : (s.pc p).inCS = false)
    (hpc : pc.inCS = false) : Inv (s.goto p pc) L := by
  have hcs : ∀ q, ((s.goto p pc).pc q).inCS = (s.pc q).inCS := by
    intro q
    by_cases hq : q = p
    · rw [hq, State.goto_pc_self, hp, hpc]
    · rw [State.goto_pc_ne s hq]
  refine ⟨h.pushed, h.popped, ?_, ?_, ?_, ?_⟩
  · intro q q' hq hq'
    rw [hcs] at hq hq'
    exact h.exclusive q q' hq hq'
  · intro q hq
    rw [hcs] at hq
    exact h.held q hq
  · intro hall
    exact h.quiet fun q => by rw [← hcs]; exact hall q
  · intro q
    by_cases hq : q = p
    · rw [hq, State.goto_pc_self]
      exact Pc.owes_of_out hpc
    · rw [State.goto_pc_ne s hq]
      exact h.owes q

/-- A thread is inside, alone, and owes what it should. -/
theorem inside {p : ℕ} {pc : Pc} (hpushed : L.pushed = s.pushed) (hpopped : L.popped = s.popped)
    (hothers : ∀ q, q ≠ p → (s.pc q).inCS = false) (hlk : s.ring.lk = true)
    (howes : pc.Owes s.ring (fifo L)) (hpc : pc.inCS = true) : Inv (s.goto p pc) L := by
  have honly : ∀ q, ((s.goto p pc).pc q).inCS = true → q = p := by
    intro q hq
    by_contra hne
    rw [State.goto_pc_ne s hne, hothers q hne] at hq
    cases hq
  refine ⟨hpushed, hpopped, ?_, ?_, ?_, ?_⟩
  · intro q q' hq hq'
    rw [honly q hq, honly q' hq']
  · exact fun _ _ => hlk
  · intro hall
    have := hall p
    rw [State.goto_pc_self, hpc] at this
    cases this
  · intro q
    by_cases hq : q = p
    · rw [hq, State.goto_pc_self]
      exact howes
    · rw [State.goto_pc_ne s hq]
      exact Pc.owes_of_out (hothers q hq)

/-- No thread is inside, and the ring represents the queue. -/
theorem alone {p : ℕ} {pc : Pc} (hpushed : L.pushed = s.pushed) (hpopped : L.popped = s.popped)
    (hothers : ∀ q, q ≠ p → (s.pc q).inCS = false) (hrep : s.ring.Rep (fifo L))
    (hpc : pc.inCS = false) : Inv (s.goto p pc) L := by
  have hout : ∀ q, ((s.goto p pc).pc q).inCS = false := by
    intro q
    by_cases hq : q = p
    · rw [hq, State.goto_pc_self]
      exact hpc
    · rw [State.goto_pc_ne s hq]
      exact hothers q hq
  refine ⟨hpushed, hpopped, ?_, ?_, fun _ => hrep, fun q => Pc.owes_of_out (hout q)⟩
  · intro q _ hq
    rw [hout] at hq
    cases hq
  · intro q hq
    rw [hout] at hq
    cases hq

/-- A thread takes the lock; releasing it would leave the ring as it was. -/
theorem lock {p : ℕ} {pc : Pc} (h : Inv s L) (hlk : s.ring.lk = false)
    (howes : s.ring.spinLockIrqsave.spinUnlockIrqrestore.Rep (fifo L) →
      pc.Owes s.ring.spinLockIrqsave (fifo L)) (hpc : pc.inCS = true) :
    Inv (State.goto { s with ring := s.ring.spinLockIrqsave } p pc) L := by
  have hout := h.out_of_free hlk
  have hrep := h.quiet hout
  refine inside h.pushed h.popped (fun q _ => hout q) rfl (howes ?_) hpc
  rw [hrep.wf.unlock_eq]
  exact hrep

end Inv

/-- Field updates leave the lock word alone. -/
theorem Stmt.apply_lk (r : Ringbuf) (stmt : Stmt) : (stmt.apply r).lk = r.lk := by
  cases stmt <;> rfl

/-- A thread inside the section: nobody else is, and the lock is held. -/
theorem Inv.inSection {s : State} {L : Ledger Rbdata 64} {p : ℕ} {pc : Pc} (h : Inv s L)
    (hpc : s.pc p = pc) (hcs : pc.inCS = true) :
    (∀ q, q ≠ p → (s.pc q).inCS = false) ∧ s.ring.lk = true ∧ pc.Owes s.ring (fifo L) := by
  subst hpc
  exact ⟨h.others hcs, h.held p hcs, h.owes p⟩

/-- The tests of a push choose what it owes. -/
theorem Inv.testEmptyStep {s t : State} {L : Ledger Rbdata 64} {p : ℕ} {v : Rbdata} (h : Inv s L)
    (hpc : s.pc p = .testEmpty v) (hs : RingReset.runStep s p = some t) : Inv t L := by
  obtain ⟨hothers, hheld, howes⟩ := h.inSection hpc rfl
  simp only [RingReset.runStep, hpc] at hs
  split at hs
  case isTrue hsize =>
    obtain rfl := Option.some.inj hs
    have hpush := Pc.owes_pushing howes (finish_emptyPath hsize v)
    exact inside h.pushed h.popped hothers hheld hpush rfl
  case isFalse =>
    obtain rfl := Option.some.inj hs
    exact inside h.pushed h.popped hothers hheld howes rfl

theorem Inv.testFullStep {s t : State} {L : Ledger Rbdata 64} {p : ℕ} {v : Rbdata} (h : Inv s L)
    (hpc : s.pc p = .testFull v) (hs : RingReset.runStep s p = some t) : Inv t L := by
  obtain ⟨hothers, hheld, howes⟩ := h.inSection hpc rfl
  simp only [RingReset.runStep, hpc] at hs
  split at hs
  case isTrue hsize =>
    obtain rfl := Option.some.inj hs
    have hpush := Pc.owes_pushing howes (finish_fullPath hsize v)
    exact inside h.pushed h.popped hothers hheld hpush rfl
  case isFalse hsize =>
    obtain rfl := Option.some.inj hs
    have hpush := Pc.owes_pushing howes (finish_roomPath hsize v)
    exact inside h.pushed h.popped hothers hheld hpush rfl

/-- A push that is on its way executes a statement, or releases the lock and enters
the history. -/
theorem Inv.pushingStep {s t : State} {L : Ledger Rbdata 64} {p : ℕ} {v : Rbdata}
    {todo : List Stmt} (h : Inv s L) (hpc : s.pc p = .pushing v todo)
    (hs : RingReset.runStep s p = some t) : ∃ L', Inv t L' := by
  obtain ⟨hothers, hheld, howes⟩ := h.inSection hpc rfl
  simp only [RingReset.runStep, hpc] at hs
  rcases todo with _ | ⟨stmt, todo⟩
  · obtain rfl := Option.some.inj hs
    refine ⟨L.push v, alone ?_ h.popped hothers ?_ rfl⟩
    · change L.pushed ++ [v] = s.pushed ++ [v]
      rw [h.pushed]
    · rw [fifo_push]
      exact howes
  · obtain rfl := Option.some.inj hs
    refine ⟨L, inside h.pushed h.popped hothers ?_ howes rfl⟩
    exact (stmt.apply_lk s.ring).trans hheld

theorem Inv.testPopStep {s t : State} {L : Ledger Rbdata 64} {p : ℕ} (h : Inv s L)
    (hpc : s.pc p = .testPop) (hs : RingReset.runStep s p = some t) : Inv t L := by
  obtain ⟨hothers, hheld, howes⟩ := h.inSection hpc rfl
  simp only [RingReset.runStep, hpc] at hs
  split at hs
  case isTrue hsize =>
    obtain rfl := Option.some.inj hs
    have hpop := Pc.owes_popping_none howes hsize
    exact inside h.pushed h.popped hothers hheld hpop rfl
  case isFalse hsize =>
    obtain rfl := Option.some.inj hs
    exact inside h.pushed h.popped hothers hheld ⟨howes, hsize⟩ rfl

/-- The same for a pop that is on its way. -/
theorem Inv.poppingStep {s t : State} {L : Ledger Rbdata 64} {p : ℕ} {out : Option Rbdata}
    {todo : List Stmt} (h : Inv s L) (hpc : s.pc p = .popping out todo)
    (hs : RingReset.runStep s p = some t) : ∃ L', Inv t L' := by
  obtain ⟨hothers, hheld, hrep, hout⟩ := h.inSection hpc rfl
  simp only [RingReset.runStep, hpc] at hs
  rcases todo with _ | ⟨stmt, todo⟩
  · obtain rfl := Option.some.inj hs
    refine ⟨L.pop, alone h.pushed ?_ hothers ?_ rfl⟩
    · change L.popped ++ L.queue.items.head?.toList = s.popped ++ out.toList
      rw [h.popped, hout]
      rfl
    · rw [fifo_pop]
      exact hrep
  · obtain rfl := Option.some.inj hs
    refine ⟨L, inside h.pushed h.popped hothers ?_ ⟨hrep, hout⟩ rfl⟩
    exact (stmt.apply_lk s.ring).trans hheld

/-- The two steps of a reset with nobody inside the section. -/
theorem Inv.resetStep {s t : State} {L : Ledger Rbdata 64} {p : ℕ} (h : Inv s L)
    (hpc : s.pc p = .memset ∨ s.pc p = .lockInit) (hall : ∀ q, (s.pc q).inCS = false)
    (hs : RingReset.runStep s p = some t) : ∃ L', Inv t L' := by
  rcases hpc with hpc | hpc <;> simp only [RingReset.runStep, hpc] at hs
  · -- a new history begins
    obtain rfl := Option.some.inj hs
    exact ⟨Ledger.empty, alone rfl rfl (fun q _ => hall q) Ringbuf.Rep.init rfl⟩
  · obtain rfl := Option.some.inj hs
    have hrep := h.quiet hall
    have hrep' : s.ring.spinLockInit.Rep (fifo L) :=
      ⟨⟨rfl, hrep.wf.tail_nonneg, hrep.wf.tail_lt, hrep.wf.size_nonneg, hrep.wf.size_le,
        hrep.wf.head_eq⟩, hrep.abs, hrep.lost⟩
    exact ⟨L, alone h.pushed h.popped (fun q _ => hall q) hrep' rfl⟩

/-- **Step lemma.** A step that respects `ResetAlone` keeps the invariant, for
the history it leaves. -/
theorem Inv.runStep {s t : State} {L : Ledger Rbdata 64} {p : ℕ} (h : Inv s L)
    (hok : (s.pc p).resetting = true → ∀ q, (s.pc q).inCS = false)
    (hs : runStep s p = some t) : ∃ L', Inv t L' := by
  rcases hpc : s.pc p with _ | v | v | v | ⟨v, todo⟩ | _ | _ | _ | ⟨out, todo⟩ | _ | _
  case idle =>
    simp only [RingReset.runStep, hpc] at hs
    cases hs
  case pushLock | popLock =>
    simp only [RingReset.runStep, hpc] at hs
    rcases hlk : s.ring.lk <;> rw [hlk] at hs
    · obtain rfl := Option.some.inj hs
      exact ⟨L, h.lock hlk id rfl⟩
    · cases hs
  case testEmpty => exact ⟨L, h.testEmptyStep hpc hs⟩
  case testFull => exact ⟨L, h.testFullStep hpc hs⟩
  case pushing => exact h.pushingStep hpc hs
  case testPop => exact ⟨L, h.testPopStep hpc hs⟩
  case copyOut =>
    obtain ⟨hothers, hheld, hrep, hsize⟩ := h.inSection hpc rfl
    simp only [RingReset.runStep, hpc] at hs
    obtain rfl := Option.some.inj hs
    have hpop := Pc.owes_popping_some hrep hsize
    exact ⟨L, inside h.pushed h.popped hothers hheld hpop rfl⟩
  case popping => exact h.poppingStep hpc hs
  case memset => exact h.resetStep (Or.inl hpc) (hok (by rw [hpc]; rfl)) hs
  case lockInit => exact h.resetStep (Or.inr hpc) (hok (by rw [hpc]; rfl)) hs

/-- A call starts outside the section, and changes nothing yet. -/
theorem Inv.call {s t : State} {L : Ledger Rbdata 64} {p : ℕ} {pc : Pc} (h : Inv s L)
    (hpc : pc.inCS = false) (hs : call s p pc = some t) : Inv t L := by
  simp only [RingReset.call] at hs
  split at hs
  · rename_i hidle
    obtain rfl := Option.some.inj hs
    exact h.outside (by rw [hidle]; rfl) hpc
  · cases hs

theorem reach_inv {s : State} (h : system.Reach ResetAlone s) : ∃ L, Inv s L := by
  refine Lts.Reach.invariant (I := fun s => ∃ L, Inv s L) ⟨Ledger.empty, Inv.init⟩ ?_ h
  rintro s a t ⟨L, hi⟩ hok hs
  cases a with
  | push p v => exact ⟨L, hi.call rfl hs⟩
  | pop p => exact ⟨L, hi.call rfl hs⟩
  | reset p => exact ⟨L, hi.call rfl hs⟩
  | run p => exact hi.runStep hok hs

/-! ## A reset inside a section lets a second thread in

A reset clears the lock word whoever holds it. Then the lock looks free to everybody, the
resetting thread included, and the exclusion that all else rests on is gone. -/

/-- A thread that finds the lock free gets inside, whoever else is. -/
theorem push_enters {t : State} {q : ℕ} (hq : t.pc q = .idle) (hlk : t.ring.lk = false) :
    ∃ u, system.exec t [.push q Rbdata.zero, .run q] = some u ∧
      (u.pc q).inCS = true ∧ ∀ p, p ≠ q → u.pc p = t.pc p := by
  have hcall : system.step t (.push q Rbdata.zero) = some (t.goto q (.pushLock Rbdata.zero)) := by
    change call t q _ = _
    simp only [call, hq]
  have hrun : system.step (t.goto q (.pushLock Rbdata.zero)) (.run q) =
      some (State.goto { t.goto q (.pushLock Rbdata.zero) with
        ring := t.ring.spinLockIrqsave } q (.testEmpty Rbdata.zero)) := by
    change RingReset.runStep _ q = _
    simp only [RingReset.runStep, State.goto_pc_self, State.goto_ring, hlk, Bool.false_eq_true,
      if_false]
  refine ⟨State.goto { t.goto q (.pushLock Rbdata.zero) with
    ring := t.ring.spinLockIrqsave } q (.testEmpty Rbdata.zero), ?_, ?_, ?_⟩
  · rw [Lts.exec_cons, hcall, Option.bind_some, Lts.exec_cons, hrun, Option.bind_some,
      Lts.exec_nil]
  · rw [State.goto_pc_self]
    rfl
  · intro p hp
    rw [State.goto_pc_ne _ hp]
    exact State.goto_pc_ne t hp _

/-- A reset step leaves the lock free and no section entered or left. -/
theorem runStep_resetting {s t : State} {q : ℕ} (hres : (s.pc q).resetting = true)
    (hs : runStep s q = some t) :
    t.ring.lk = false ∧ (t.pc q = .idle ∨ t.pc q = .lockInit) ∧
      ∀ p, p ≠ q → t.pc p = s.pc p := by
  rcases hpc : s.pc q <;> rw [hpc] at hres <;> simp only [RingReset.runStep, hpc] at hs <;>
    try cases hres
  · obtain rfl := Option.some.inj hs
    exact ⟨rfl, Or.inr (State.goto_pc_self ..), fun p hp => State.goto_pc_ne _ hp _⟩
  · obtain rfl := Option.some.inj hs
    exact ⟨rfl, Or.inl (State.goto_pc_self ..), fun p hp => State.goto_pc_ne _ hp _⟩

/-- A reset step with an operation inside: the resetting thread can finish its
ioctl and enter the section beside it. -/
theorem reset_lets_in {s t : State} {a : Act} (hbad : ¬ ResetAlone s a)
    (hs : system.step s a = some t) :
    ∃ as u p q, system.exec t as = some u ∧ p ≠ q ∧ (u.pc p).inCS = true ∧
      (u.pc q).inCS = true := by
  cases a with
  | push | pop | reset => exact absurd trivial hbad
  | run q =>
    have hres : (s.pc q).resetting = true := by
      by_contra hno
      exact hbad fun hyes => absurd hyes hno
    obtain ⟨p, hp⟩ : ∃ p, (s.pc p).inCS = true := by
      by_contra hno
      refine hbad fun _ p => ?_
      by_contra hin
      exact hno ⟨p, by simpa using hin⟩
    have hne : p ≠ q := by
      rintro rfl
      cases hpc : s.pc p <;> rw [hpc] at hres hp <;> first | cases hres; done | cases hp
    obtain ⟨hlk, hq, hkeep⟩ := runStep_resetting hres hs
    rcases hq with hq | hq
    · obtain ⟨u, hexec, hin, hkeep'⟩ := push_enters hq hlk
      exact ⟨_, u, p, q, hexec, hne, by rw [hkeep' p hne, hkeep p hne]; exact hp, hin⟩
    · -- the `memset` is done, `spin_lock_init` still to come
      have hinit : system.step t (.run q) =
          some (State.goto { t with ring := t.ring.spinLockInit } q .idle) := by
        change RingReset.runStep t q = _
        simp only [RingReset.runStep, hq]
      obtain ⟨u, hexec, hin, hkeep'⟩ := push_enters
        (t := State.goto { t with ring := t.ring.spinLockInit } q .idle)
        (State.goto_pc_self ..) rfl
      refine ⟨[.run q, .push q Rbdata.zero, .run q], u, p, q, ?_, hne, ?_, hin⟩
      · rw [Lts.exec_cons, hinit, Option.bind_some]
        exact hexec
      · rw [hkeep' p hne, State.goto_pc_ne _ hne]
        change (t.pc p).inCS = true
        rw [hkeep p hne]
        exact hp

/-- **When a reset is atomic.** In every state reached with no reset step
landing inside a critical section, at most one operation is inside; with none
inside the indices are consistent; and what pops returned since the last reset,
followed by the ring, is a subsequence of what was pushed since, in order. And
if the next step is a reset step that does land inside a section, a state with
two operations inside can be reached from it.

The invariant speaks of the ring as it will be when the statements that are left of a
section have been executed. So a struct that is updated by half stands for a queue as
well, and no single statement needs an argument about the indices of its own. -/
theorem ring_reset_atomic {s : State} (h : system.Reach ResetAlone s) :
    (∀ p q, (s.pc p).inCS = true → (s.pc q).inCS = true → p = q) ∧
    ((∀ p, (s.pc p).inCS = false) →
      s.ring.head = (s.ring.tail + s.ring.size) % 64 ∧ 0 ≤ s.ring.size ∧ s.ring.size ≤ 64 ∧
      List.Sublist (s.popped ++ s.ring.abs) s.pushed) ∧
    List.Sublist s.popped s.pushed ∧
    (∀ a t, ¬ ResetAlone s a → system.step s a = some t →
      ∃ as u p q, system.exec t as = some u ∧ p ≠ q ∧ (u.pc p).inCS = true ∧
        (u.pc q).inCS = true) := by
  obtain ⟨L, hi⟩ := reach_inv h
  refine ⟨hi.exclusive, ?_, ?_, fun a t hbad hs => reset_lets_in hbad hs⟩
  · intro hall
    have hrep := hi.quiet hall
    refine ⟨hrep.wf.head_eq, hrep.wf.size_nonneg, hrep.wf.size_le, ?_⟩
    rw [hrep.abs, ← hi.popped, ← hi.pushed]
    exact L.sublist
  · rw [← hi.popped, ← hi.pushed]
    exact L.popped_sublist

/-- A reset on the quiet ring, and then a push as far as its test. -/
def quietReset : List Act := [.reset 1, .run 1, .run 1, .push 0 Rbdata.zero, .run 0, .run 0]

theorem ring_reset_atomic_quietReset : ∃ s, system.exec system.init quietReset = some s ∧
    (s.pc 0).inCS = true ∧ ∀ p, (s.pc p).inCS = true → p = 0 := by
  have hrun : system.Run ResetAlone quietReset := by
    refine ⟨_, rfl, trivial, _, rfl, fun _ p => ?_, _, rfl, fun _ p => ?_, _, rfl, trivial,
      _, rfl, (fun h => nomatch h), _, rfl, (fun h => nomatch h), trivial⟩ <;>
      rcases p with _ | _ | p <;> rfl
  exact ⟨_, rfl, rfl, fun p hp => (ring_reset_atomic (Lts.Reach.init.exec hrun rfl)).1 p 0 hp rfl⟩

/-- A reset between the head and the size update of a push. -/
def midPush : List Act :=
  [.push 0 Rbdata.zero, .run 0, .run 0, .run 0, .run 0, .reset 1, .run 1, .run 1, .run 0, .run 0]

/-- The ring is left inconsistent with no operation in progress. -/
theorem reset_corrupts :
    ∃ s, system.exec system.init midPush = some s ∧ (∀ p, s.pc p = .idle) ∧
      s.ring.head ≠ (s.ring.tail + s.ring.size) % 64 := by
  refine ⟨_, rfl, ?_, by decide +kernel⟩
  intro p
  rcases p with _ | _ | p <;> rfl

end RingReset

end KernelDrvLearn
