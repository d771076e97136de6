import KernelDrvLearn.KernelApi
import KernelDrvLearn.Printf
import KernelDrvLearn.Transition

/-!
# The alarm flag and its client

The flag of `practice/myalarm/myalarm.c`, set by `alarm_irq_thread`, and the
client of `userapp/main.c`, which polls, reads and writes `"0"` in a loop. Each
section under `d->lock` is one step.

The flag does not count: `malm_write` clears whatever was raised before it, be
it before or after the `malm_read` the client answers. What the client can rely
on is therefore stated from its latest write on (`malm_poll_iff`), and an alarm
raised between a read and the write that follows it is lost (`raised_between`);
away from that window none is (`malm_poll_of_outside`).
-/

namespace KernelDrvLearn

namespace Myalarm

/-! ## The driver

Three short sections under one spin lock, on one `int`. The interrupt thread sets it, a
read and a poll look at it, and a write of 0 clears it. -/

/-- `malm_poll`: the mask it returns, by the flag. -/
def malmPoll (alarm : Int) : BitVec 32 := if alarm ≠ 0 then pollin ||| pollrdnorm else 0

/-- `malm_read`: the value returned and the bytes copied to the user. -/
def malmRead (alarm : Int) (count : ℕ) (copied : Bool) : Int × List Byte :=
  let kbuf := ascii "Alarm:" ++ fmtD alarm ++ ascii "\n"
  let len := kbuf.length
  if count < len then (einval, [])
  else if copied then (len, kbuf)
  else (efault, [])

/-- `malm_write`: the value returned and the flag. `newalarm` is what
`kstrtoint_from_user` made of the user's bytes, or its error. -/
def malmWrite (alarm : Int) (count : ℕ) (newalarm : Except Int Int) : Int × Int :=
  match newalarm with
  | .error ret => (ret, alarm)
  | .ok newalarm => (count, if newalarm = 0 ∧ alarm = 1 then 0 else alarm)

/-! ## Interrupt thread and client

The client is the loop of `main.c`: a poll, a read, a write. What is raised between its
read and its write it has not seen, and its write clears it. -/

/-- Where `alarm_irq_thread` stands, from the interrupt to the wake-up. -/
inductive Irq where
  /-- it does not run -/
  | idle
  /-- the event is acknowledged, the flag not yet set -/
  | raise
  /-- before `wake_up_interruptible` -/
  | wake
  deriving DecidableEq

/-- Where the client stands in its loop. -/
inductive Client where
  /-- in `poll`, before `malm_poll` -/
  | poll
  /-- in `poll`, asleep -/
  | asleep
  /-- before `read` -/
  | read
  /-- before `write` -/
  | write
  /-- out of the loop, after a failed call -/
  | stopped
  deriving DecidableEq

/-- Driver and client, with a record of what was raised since which call. -/
structure State where
  /-- `d->alarm` -/
  alarm : Int
  /-- the interrupt thread -/
  irq : Irq
  /-- the client -/
  client : Client
  /-- record: has the flag been set since the latest `malm_read`? -/
  sinceRead : Bool
  /-- record: has the flag been set since the latest `malm_write`? -/
  sinceWrite : Bool
  deriving DecidableEq

/-- What can happen next: an interrupt, or a step of the client. -/
inductive Act where
  /-- an interrupt starts the thread -/
  | interrupt
  /-- the thread takes a step -/
  | irq
  /-- the client takes a step; `copied` is the outcome of its copy -/
  | client (copied : Bool)

/-- One step of the thread. -/
def irqStep (s : State) : Option State :=
  match s.irq with
  | .idle => none
  | .raise => some { s with alarm := 1, irq := .wake, sinceRead := true, sinceWrite := true }
  | .wake =>
    some { s with irq := .idle, client := if s.client = .asleep then .poll else s.client }

/-- One step of the client. -/
def clientStep (s : State) (copied : Bool) : Option State :=
  match s.client with
  | .poll =>
    some { s with client := if malmPoll s.alarm &&& pollin ≠ 0 then .read else .asleep }
  | .asleep => none
  | .read =>
    let ret := (malmRead s.alarm 63 copied).1
    some { s with client := if ret < 0 then .stopped else .write, sinceRead := false }
  | .write =>
    -- `"0"` reads as 0
    let newalarm : Except Int Int := if copied then .ok 0 else .error efault
    let res := malmWrite s.alarm 1 newalarm
    if res.1 < 0 then some { s with client := .stopped }
    else some { s with client := .poll, alarm := res.2, sinceWrite := false }
  | .stopped => none

/-- One step of the thread or of the client. -/
def step (s : State) : Act → Option State
  | .interrupt => if s.irq = .idle then some { s with irq := .raise } else none
  | .irq => irqStep s
  | .client copied => clientStep s copied

/-- The device is probed and the client at its first poll. -/
def system : Lts State Act where
  init := ⟨0, .idle, .poll, false, false⟩
  step := step

/-- What a step can do to the flag and to the record. -/
inductive Moves (s : State) : Act → State → Prop
  /-- the thread starts -/
  | interrupt : Moves s .interrupt { s with irq := .raise }
  /-- the flag is set -/
  | raise (h : s.irq = .raise) :
      Moves s .irq { s with alarm := 1, irq := .wake, sinceRead := true, sinceWrite := true }
  /-- the client is woken if it sleeps -/
  | wake (client : Client)
      (h : client = s.client ∨ s.client = .asleep ∧ client = .poll) :
      Moves s .irq { s with irq := .idle, client := client }
  /-- the client polls -/
  | poll (copied : Bool) (h : s.client = .poll) (client : Client)
      (hclient : client = .read ∨ client = .asleep) :
      Moves s (.client copied) { s with client := client }
  /-- it reads -/
  | read (copied : Bool) (h : s.client = .read) (client : Client) :
      Moves s (.client copied) { s with client := client, sinceRead := false }
  /-- its write fails -/
  | fail (copied : Bool) (h : s.client = .write) :
      Moves s (.client copied) { s with client := .stopped }
  /-- its write succeeds -/
  | write (copied : Bool) (h : s.client = .write) :
      Moves s (.client copied)
        { s with client := .poll, alarm := (malmWrite s.alarm 1 (.ok 0)).2, sinceWrite := false }

theorem step_moves {s t : State} {a : Act} (hs : system.step s a = some t) : Moves s a t := by
  cases a with
  | interrupt =>
    change (if s.irq = .idle then _ else none) = some t at hs
    split at hs
    case isTrue =>
      obtain rfl := Option.some.inj hs
      exact .interrupt
    case isFalse => cases hs
  | irq =>
    change irqStep s = some t at hs
    rcases hirq : s.irq <;> simp only [irqStep, hirq] at hs
    case idle => cases hs
    case raise =>
      obtain rfl := Option.some.inj hs
      exact .raise hirq
    case wake =>
      obtain rfl := Option.some.inj hs
      by_cases hcl : s.client = .asleep <;> simp only [hcl, if_true, if_false]
      · exact .wake .poll (Or.inr ⟨hcl, rfl⟩)
      · exact .wake s.client (Or.inl rfl)
  | client copied =>
    change clientStep s copied = some t at hs
    rcases hcl : s.client <;> simp only [clientStep, hcl] at hs
    case asleep | stopped => cases hs
    case poll =>
      obtain rfl := Option.some.inj hs
      refine .poll copied hcl _ ?_
      split
      · exact Or.inl rfl
      · exact Or.inr rfl
    case read =>
      obtain rfl := Option.some.inj hs
      exact .read copied hcl _
    case write =>
      rcases copied with _ | _
      · obtain rfl := Option.some.inj hs
        exact .fail false hcl
      · obtain rfl := Option.some.inj hs
        exact .write true hcl

/-! ## What a poll reports

The flag is a level: it says that there was an alarm since the latest write, and not how
many, nor whether the client has read it. -/

/-- The flag tells whether it was set since the latest write. -/
def State.Exact (s : State) : Prop := s.alarm = if s.sinceWrite then 1 else 0

/-- **Step lemma.** The flag goes on telling whether it was set since the latest write. -/
theorem State.Exact.step {s t : State} {a : Act} (h : s.Exact) (hs : system.step s a = some t) :
    t.Exact := by
  cases step_moves hs with
  | interrupt | wake | poll | read | fail => exact h
  | raise => rfl
  | write =>
    -- the write clears a flag that was set, and leaves one that was not
    change (if (0 : Int) = 0 ∧ s.alarm = 1 then 0 else s.alarm) = 0
    rw [State.Exact] at h
    rcases hw : s.sinceWrite <;> rw [hw] at h <;> rw [h] <;> rfl

theorem malmPoll_ite (b : Bool) :
    malmPoll (if b then 1 else 0) &&& pollin ≠ 0 ↔ b = true := by
  cases b <;> decide

/-- **What the client sees.** In every state reached by any interleaving of
interrupts and client, `malm_poll` reports `POLLIN` if and only if
`alarm_irq_thread` has set the flag since the client's latest `malm_write`. -/
theorem malm_poll_iff {s : State} (h : system.Reach (fun _ _ => True) s) :
    malmPoll s.alarm &&& pollin ≠ 0 ↔ s.sinceWrite = true := by
  have hinit : State.Exact system.init := rfl
  have hexact : s.Exact := h.invariant hinit fun _ _ _ hi _ hs => hi.step hs
  rw [hexact]
  exact malmPoll_ite _

/-- An alarm raised after the write is reported. -/
def raisedAfter : List Act :=
  [.interrupt, .irq, .irq, .client true, .client true, .client true, .interrupt, .irq]

theorem malm_poll_iff_raisedAfter :
    ∃ s, system.exec system.init raisedAfter = some s ∧ s.client = .poll ∧
      malmPoll s.alarm &&& pollin ≠ 0 := by
  have hexec : system.exec system.init raisedAfter = some ⟨1, .wake, .poll, true, true⟩ := rfl
  exact ⟨_, hexec, rfl, (malm_poll_iff (Lts.Reach.init.replay hexec)).mpr rfl⟩

/-- The second alarm is raised between the read and the write. -/
def raisedBetween : List Act :=
  [.interrupt, .irq, .irq, .client true, .client true, .interrupt, .irq, .irq, .client true]

/-- It is erased: the next poll reports nothing. -/
theorem raised_between : ∃ s, system.exec system.init raisedBetween = some s ∧
    s.client = .poll ∧ s.sinceRead = true ∧ malmPoll s.alarm = 0 :=
  ⟨_, rfl, rfl, rfl, rfl⟩

/-! ## Away from the window

If no alarm comes between a read and the write after it, the write clears only what that
read has reported. Then nothing is lost, and a poll tells of everything since the latest
read. -/

/-- The flag is not set between a read of the client and the write after it. -/
def Outside (s : State) : Act → Prop
  | .irq => s.irq = .raise → s.client ≠ .write
  | _ => True

/-- What was raised since the read was raised since the write, except between
the two. -/
structure State.Kept (s : State) : Prop where
  kept : s.client ≠ .write → s.client ≠ .stopped → s.sinceRead = true → s.sinceWrite = true
  write : s.client = .write → s.sinceRead = false

/-- **Step lemma** away from the window: a write forgets nothing that was not read. -/
theorem State.Kept.step {s t : State} {a : Act} (h : s.Kept) (hout : Outside s a)
    (hs : system.step s a = some t) : t.Kept := by
  cases step_moves hs with
  | interrupt => exact ⟨h.kept, h.write⟩
  | raise hirq => exact ⟨fun _ _ _ => rfl, fun hcl => absurd hcl (hout hirq)⟩
  | wake client hclient =>
    rcases hclient with rfl | ⟨hcl, rfl⟩
    · exact ⟨h.kept, h.write⟩
    · refine ⟨?_, nofun⟩
      rintro - -
      exact h.kept (by rw [hcl]; nofun) (by rw [hcl]; nofun)
  | poll copied hcl client hclient =>
    refine ⟨?_, ?_⟩
    · rintro - -
      exact h.kept (by rw [hcl]; nofun) (by rw [hcl]; nofun)
    · rintro rfl
      rcases hclient with hclient | hclient <;> cases hclient
  | read copied hcl client =>
    refine ⟨?_, fun _ => rfl⟩
    rintro - - ⟨⟩
  | fail copied hcl => exact ⟨fun _ hstop => absurd rfl hstop, nofun⟩
  | write copied hcl =>
    refine ⟨?_, nofun⟩
    rintro - - hsince
    exact absurd (hsince.symm.trans (h.write hcl)) (by decide)

/-- **No alarm is lost outside the window.** In every run in which the flag is
never set between a `malm_read` of the client and its next `malm_write`, a poll
reports every alarm raised since the latest read. -/
theorem malm_poll_of_outside {s : State} (h : system.Reach Outside s) (hcl : s.client = .poll)
    (hsince : s.sinceRead = true) : malmPoll s.alarm &&& pollin ≠ 0 := by
  have hinit : State.Kept system.init := ⟨nofun, nofun⟩
  have hkept : s.Kept := h.invariant hinit fun _ _ _ hi hout hs => hi.step hout hs
  have hexact : State.Exact s :=
    h.invariant (show State.Exact system.init from rfl) fun _ _ _ hi _ hs => hi.step hs
  have hwrite : s.sinceWrite = true :=
    hkept.kept (by rw [hcl]; nofun) (by rw [hcl]; nofun) hsince
  rw [hexact]
  exact (malmPoll_ite _).mpr hwrite

end Myalarm

end KernelDrvLearn
