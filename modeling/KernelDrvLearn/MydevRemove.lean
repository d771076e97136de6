import KernelDrvLearn.Mydevice

/-!
# Removing `mydevice`

`mydevremove` of `practice/mydevice/mydevice.c` against the users of the device:
it waits until `reference` is 0, then destroys the node and returns, and the
memory of the device goes with it. The wait can be ended by a signal, whose
result is ignored.

The count covers a file from its `addref` to its `relref`. It does not cover an
open before its `addref`, a release after its `relref`, or an open that begins
once the wait is over and before `cdev_del`. `mydevremove_covers` says that
these gaps, with the signal, are all there is; `uncovered_returns` that each of
them is one.
-/

namespace KernelDrvLearn

namespace Mydev

/-! ## Code

`mydevremove` against the files. The count is tested under `reflock`, and between the
tests the removal sleeps until a release wakes it. What it does afterwards does not look
at the users again. -/

/-- Where `mydevremove` stands, before, in and after its wait. -/
inductive Remove where
  /-- not called -/
  | idle
  /-- in `wait_event_interruptible`, about to test `0 == getref(mydev)` -/
  | test
  /-- asleep on `mydev->wq` -/
  | asleep
  /-- the wait is over; before `device_destroy` -/
  | destroy
  /-- before `cdev_del` -/
  | cdevDel
  /-- before `ida_free` -/
  | idaFree
  /-- before `dev_info` -/
  | info
  /-- returned -/
  | returned
  deriving DecidableEq

/-- Is the character device there to be opened? -/
def Remove.registered : Remove → Bool
  | idle | test | asleep | destroy | cdevDel => true
  | idaFree | info | returned => false

/-- Is the wait over? From then on nobody is waited for. -/
def Remove.waited : Remove → Bool
  | idle | test | asleep => false
  | destroy | cdevDel | idaFree | info | returned => true

/-- The next step of `mydevremove`, on what it finds in the count. -/
def Remove.next (mydev : Mydevice) : Remove → Option Remove
  | idle => none
  | test => some (if getref mydev = 0 then destroy else asleep)
  | asleep => none
  | destroy => some cdevDel
  | cdevDel => some idaFree
  | idaFree => some info
  | info => some returned
  | returned => none

/-- `wake_up_interruptible(&mydev->wq)`, which ends a sleep and nothing else. -/
def Remove.wakeUp : Remove → Remove
  | asleep => test
  | remove => remove

/-- The device with its users, and `mydevremove`. -/
structure Bound where
  /-- the device and the files -/
  dev : State
  /-- `mydevremove` -/
  remove : Remove

/-- What can happen next: a step of a file, of the removal, or a signal. -/
inductive BoundAct where
  /-- a user opens the device or a file does a step -/
  | user (a : Act)
  /-- `mydevremove` is called -/
  | remove
  /-- it does a step -/
  | run
  /-- a signal ends its wait -/
  | signal

/-- Is the step the wake-up of a release that has seen the count reach 0? -/
def wakes (s : State) : Act → Bool
  | .client i .run => (s.clients[i]?.map Client.pc) = some (.wake 0)
  | _ => false

/-- One step; a release that has seen the count reach 0 wakes the removal. -/
def boundStep (s : Bound) : BoundAct → Option Bound
  | .user (.open w) =>
    if s.remove.registered then (step s.dev (.open w)).map fun d => ⟨d, s.remove⟩ else none
  | .user (.client i e) =>
    (step s.dev (.client i e)).map fun d =>
      ⟨d, if wakes s.dev (.client i e) then s.remove.wakeUp else s.remove⟩
  | .remove => if s.remove = .idle then some { s with remove := .test } else none
  | .run => (s.remove.next s.dev.mydev).map fun r => { s with remove := r }
  | .signal => if s.remove = .asleep then some { s with remove := .destroy } else none

/-- A bound device, which nobody removes yet. -/
def bound : Lts Bound BoundAct where
  init := ⟨device.init, .idle⟩
  step := boundStep

/-- The file is closed, or its open has failed, and nothing of the call is left
to do. -/
def Client.finished (c : Client) : Bool :=
  match c.pc with
  | .failed _ | .released => true
  | _ => false

/-! ## When the wait covers the users

The count covers a file for a part of its life only, from its `addref` to its `relref`.
The wait does its work if nobody is outside of that part when it ends, and nobody begins
afterwards. -/

/-- The step lets nobody past the wait: no open begins once the wait is over;
the test that ends it finds no open before its `addref` and no release past its
`relref`; a signal ends it only when nobody is left. -/
def Covers (s : Bound) : BoundAct → Prop
  | .user (.open _) => s.remove.waited = false
  | .run => s.remove = .test → getref s.dev.mydev = 0 →
      ∀ c ∈ s.dev.clients, c.counted = true ∨ c.finished = true
  | .signal => ∀ c ∈ s.dev.clients, c.finished = true
  | .user (.client _ _) | .remove => True

/-- There are fewer than `2 ^ 32` users, so that the count tells them from none. -/
def Countable (s : Bound) : BoundAct → Prop
  | .user a => AddrefBelow 4294967296 s.dev a
  | _ => True

instance (s : Bound) : ∀ a, Decidable (Covers s a)
  | .user (.open _) => inferInstanceAs (Decidable (s.remove.waited = false))
  | .run => inferInstanceAs (Decidable (s.remove = .test → getref s.dev.mydev = 0 →
      ∀ c ∈ s.dev.clients, c.counted = true ∨ c.finished = true))
  | .signal => inferInstanceAs (Decidable (∀ c ∈ s.dev.clients, c.finished = true))
  | .user (.client _ _) | .remove => isTrue trivial

instance (s : Bound) : ∀ a, Decidable (Countable s a)
  | .user a => inferInstanceAs (Decidable (AddrefBelow 4294967296 s.dev a))
  | .remove | .run | .signal => isTrue trivial

/-- The users of a bound device are those of the device. -/
theorem bound_dev {s : Bound} (h : bound.Reach (fun s a => Covers s a ∧ Countable s a) s) :
    device.Reach (AddrefBelow 4294967296) s.dev := by
  refine h.map Bound.dev rfl ?_
  rintro s a t ⟨-, hcount⟩ hs
  cases a with
  | user a =>
    refine Or.inr ⟨a, hcount, ?_⟩
    change boundStep s (.user a) = some t at hs
    cases a with
    | «open» w =>
      simp only [boundStep] at hs
      split at hs
      case isTrue =>
        obtain ⟨d, hd, rfl⟩ := Option.map_eq_some_iff.mp hs
        exact hd
      case isFalse => cases hs
    | client i e =>
      obtain ⟨d, hd, rfl⟩ := Option.map_eq_some_iff.mp hs
      exact hd
  | remove =>
    change boundStep s .remove = some t at hs
    simp only [boundStep] at hs
    split at hs
    case isTrue =>
      obtain rfl := Option.some.inj hs
      exact Or.inl rfl
    case isFalse => cases hs
  | run =>
    obtain ⟨r, -, rfl⟩ := Option.map_eq_some_iff.mp hs
    exact Or.inl rfl
  | signal =>
    change boundStep s .signal = some t at hs
    simp only [boundStep] at hs
    split at hs
    case isTrue =>
      obtain rfl := Option.some.inj hs
      exact Or.inl rfl
    case isFalse => cases hs

/-- A count of 0 means that no context is counted. -/
theorem RefExact.none_counted {n : ℕ} {s : State} (hn : n ≤ 4294967296)
    (h : RefExact n s.users s.mydev) (hzero : getref s.mydev = 0) :
    ∀ c ∈ s.clients, c.counted = false := by
  have hlt := h.users_lt
  have husers : s.users = 0 := by
    by_contra hpos
    exact wrap32_users_ne_zero (Nat.pos_of_ne_zero hpos) (by omega) (h.reference.symm.trans hzero)
  intro c hc
  exact Bool.eq_false_iff.mpr (List.countP_eq_zero.mp husers c hc)

/-- A file that is finished does nothing any more. -/
theorem Client.finished_next {mydev : Mydevice} {c : Client} {e : Event} {r : Mydevice × Client}
    (h : c.next mydev e = some r) : c.finished = false := by
  cases Client.next_steps h with
  | alloc hpc | busy hpc | takeConfig hpc | noConfig hpc | fail hpc | addref hpc
  | clearConfig hpc | noClear hpc | relref hpc => simp only [Client.finished, hpc]
  | use hpc =>
    obtain ⟨fmodeWrite, isConfig, pc⟩ := c
    cases pc <;> first | rfl | cases hpc
  | tail hpc => rcases hpc with ⟨ref, hpc, -⟩ | ⟨hpc, -⟩ <;> simp only [Client.finished, hpc]

/-- **Step lemma.** Once the wait is over every file is finished. -/
theorem finished_step {s t : Bound} {a : BoundAct}
    (hexact : RefExact 4294967296 s.dev.users s.dev.mydev)
    (h : s.remove.waited = true → ∀ c ∈ s.dev.clients, c.finished = true) (ha : Covers s a)
    (hs : boundStep s a = some t) :
    t.remove.waited = true → ∀ c ∈ t.dev.clients, c.finished = true := by
  intro hw
  cases a with
  | user a =>
    cases a with
    | «open» w =>
      simp only [boundStep] at hs
      split at hs
      case isTrue =>
        obtain ⟨d, -, rfl⟩ := Option.map_eq_some_iff.mp hs
        exact absurd (hw.symm.trans ha) (by decide)
      case isFalse => cases hs
    | client i e =>
      obtain ⟨d, hd, rfl⟩ := Option.map_eq_some_iff.mp hs
      have hw' : s.remove.waited = true := by
        simp only at hw
        split at hw
        · cases hr : s.remove <;> rw [hr] at hw <;> first | rfl | cases hw
        · exact hw
      -- a finished file has no step
      obtain ⟨w, hact, -⟩ | ⟨j, e', c, r, -, hc, hr, -⟩ := step_cases hd
      · cases hact
      · have hfin := h hw' c (List.mem_of_getElem? hc)
        rw [Client.finished_next hr] at hfin
        cases hfin
  | remove =>
    simp only [boundStep] at hs
    split at hs
    case isTrue =>
      obtain rfl := Option.some.inj hs
      cases hw
    case isFalse => cases hs
  | run =>
    obtain ⟨r, hr, rfl⟩ := Option.map_eq_some_iff.mp hs
    by_cases hw' : s.remove.waited = true
    · exact h hw'
    cases hrem : s.remove <;> rw [hrem] at hr hw' <;> simp only [Remove.next, reduceCtorEq] at hr
    case test =>
      split at hr <;> obtain rfl := Option.some.inj hr
      case isTrue hzero =>
        intro c hc
        have hnone := hexact.none_counted (Nat.le_refl _) hzero c hc
        rcases ha hrem hzero c hc with hcnt | hfin
        · rw [hnone] at hcnt
          cases hcnt
        · exact hfin
      case isFalse => cases hw
    case destroy | cdevDel | idaFree | info => exact absurd rfl hw'
  | signal =>
    simp only [boundStep] at hs
    split at hs
    case isTrue =>
      obtain rfl := Option.some.inj hs
      exact ha
    case isFalse => cases hs

theorem reach_finished {s : Bound} (h : bound.Reach (fun s a => Covers s a ∧ Countable s a) s) :
    s.remove.waited = true → ∀ c ∈ s.dev.clients, c.finished = true :=
  h.invariant_of (J := fun s => RefExact 4294967296 s.dev.users s.dev.mydev)
    (I := fun s => s.remove.waited = true → ∀ c ∈ s.dev.clients, c.finished = true)
    (fun _ hr => reach_reference (by decide) (Nat.le_refl _) (bound_dev hr))
    (fun hw => nomatch hw) fun _ _ _ hexact hi ha hs => finished_step hexact hi ha.1 hs

/-! ## When it does not

Conversely, once somebody is past the wait, nothing that `mydevremove` still does waits
for him. It can return at once, with the file as it is. -/

/-- Once the wait is over `mydevremove` can return at once. -/
theorem returns_at_once {s : Bound} (h : s.remove.waited = true) :
    bound.Repeats .run s { s with remove := .returned } := by
  have hrun : ∀ {t : Bound} {r : Remove}, t.remove.next t.dev.mydev = some r →
      bound.step t .run = some { t with remove := r } := by
    intro t r hr
    change (t.remove.next t.dev.mydev).map _ = _
    rw [hr]
    rfl
  have hinfo : bound.Repeats .run { s with remove := .info } { s with remove := .returned } :=
    Lts.Repeats.head (hrun rfl) (Lts.Repeats.refl ..)
  have hida := Lts.Repeats.head (hrun (t := { s with remove := .idaFree }) rfl) hinfo
  have hcdev := Lts.Repeats.head (hrun (t := { s with remove := .cdevDel }) rfl) hida
  have hdestroy := Lts.Repeats.head (hrun (t := { s with remove := .destroy }) rfl) hcdev
  obtain ⟨dev, remove⟩ := s
  cases remove with
  | idle | test | asleep => cases h
  | destroy => exact hdestroy
  | cdevDel => exact hcdev
  | idaFree => exact hida
  | info => exact hinfo
  | returned => exact Lts.Repeats.refl ..

/-- From a step the wait does not cover, `mydevremove` can return at once with
a user left. -/
theorem uncovered_returns {s t : Bound} {a : BoundAct} (hbad : ¬ Covers s a)
    (hs : bound.step s a = some t) :
    ∃ u, bound.Repeats .run t u ∧ u.remove = .returned ∧
      ∃ c ∈ u.dev.clients, c.finished = false := by
  suffices hleft : t.remove.waited = true ∧ ∃ c ∈ t.dev.clients, c.finished = false from
    ⟨_, returns_at_once hleft.1, rfl, hleft.2⟩
  change boundStep s a = some t at hs
  cases a with
  | user a =>
    cases a with
    | «open» w =>
      simp only [boundStep] at hs
      split at hs
      case isTrue =>
        obtain ⟨d, hd, rfl⟩ := Option.map_eq_some_iff.mp hs
        obtain rfl := Option.some.inj hd
        exact ⟨by simpa [Covers] using hbad, _,
          List.mem_append_right _ (List.mem_singleton_self _), rfl⟩
      case isFalse => cases hs
    | client i e => exact absurd trivial hbad
  | remove => exact absurd trivial hbad
  | run =>
    obtain ⟨r, hr, rfl⟩ := Option.map_eq_some_iff.mp hs
    simp only [Covers, not_forall, not_or, Bool.not_eq_true] at hbad
    obtain ⟨hrem, hzero, c, hc, -, hfin⟩ := hbad
    rw [hrem, Remove.next, if_pos hzero] at hr
    obtain rfl := Option.some.inj hr
    exact ⟨rfl, c, hc, hfin⟩
  | signal =>
    simp only [Covers, not_forall, Bool.not_eq_true] at hbad
    obtain ⟨c, hc, hfin⟩ := hbad
    simp only [boundStep] at hs
    split at hs
    case isTrue =>
      obtain rfl := Option.some.inj hs
      exact ⟨rfl, c, hc, hfin⟩
    case isFalse => cases hs

/-- **When the wait covers the users.** In every state reached with fewer than
`2 ^ 32` users by steps that let nobody past the wait: when `mydevremove` has
returned every file is finished; and from a next step that lets somebody past
it, `mydevremove` can return with a file not finished.

The bound on the users keeps `reference` from coming round to 0 with somebody inside.
All else is about who is past the wait without being counted. -/
theorem mydevremove_covers {s : Bound}
    (h : bound.Reach (fun s a => Covers s a ∧ Countable s a) s) :
    (s.remove = .returned → ∀ c ∈ s.dev.clients, c.finished = true) ∧
    (∀ a t, ¬ Covers s a → bound.step s a = some t →
      ∃ u, bound.Repeats .run t u ∧ u.remove = .returned ∧
        ∃ c ∈ u.dev.clients, c.finished = false) := by
  refine ⟨fun hret => reach_finished h ?_, fun a t hbad hs => uncovered_returns hbad hs⟩
  rw [hret]
  rfl

/-- A file is opened for writing, and its open is complete. -/
def openFile : List BoundAct :=
  [.user (.open true), .user (.client 0 (.alloc true)), .user (.client 0 .run),
    .user (.client 0 .run), .user (.client 0 .run)]

/-- It is released while `mydevremove` sleeps, and the wake-up is the last thing
but one that the release does. -/
def waitedFor : List BoundAct :=
  openFile ++ [BoundAct.remove, .run, .user (.client 0 .release), .user (.client 0 .run),
    .user (.client 0 .run), .user (.client 0 .run), .user (.client 0 .run),
    .run, .run, .run, .run, .run]

theorem mydevremove_covers_waitedFor : ∃ s, bound.exec bound.init waitedFor = some s ∧
    s.remove = .returned ∧ ∀ c ∈ s.dev.clients, c.finished = true := by
  have hrun : bound.Run (fun s a => Covers s a ∧ Countable s a) waitedFor := by decide +kernel
  exact ⟨_, rfl, rfl, (mydevremove_covers (Lts.Reach.init.exec hrun rfl)).1 rfl⟩

/-- A signal ends the wait for it, and nobody looks at the result. -/
def signalled : List BoundAct :=
  openFile ++ [BoundAct.remove, .run, .signal, .run, .run, .run, .run]

/-- It is released, and `mydevremove` reads the count before the release has
woken it. -/
def lateRelease : List BoundAct :=
  openFile ++ [BoundAct.user (.client 0 .release), .user (.client 0 .run), .user (.client 0 .run),
    .remove, .run, .run, .run, .run, .run]

/-- `mydevremove` has returned with the file open, or with the wake-up and the
`dev_info` of its release to come. -/
theorem mydevremove_leaves_users :
    (∃ s, bound.exec bound.init signalled = some s ∧ s.remove = .returned ∧
      s.dev.clients = [⟨true, true, .opened []⟩]) ∧
    (∃ s, bound.exec bound.init lateRelease = some s ∧ s.remove = .returned ∧
      s.dev.clients = [⟨true, true, .wake 0⟩]) :=
  ⟨⟨_, rfl, rfl, rfl⟩, ⟨_, rfl, rfl, rfl⟩⟩

end Mydev

end KernelDrvLearn
