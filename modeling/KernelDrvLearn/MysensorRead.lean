import KernelDrvLearn.KernelApi
import KernelDrvLearn.MysensorRing
import KernelDrvLearn.Transition

/-!
# Reading the sensor: `mysensor_read` against the interrupt thread

`mysensor_read` of `practice/mysensor/mysensor.c`, run by any number of readers
while `mysensor_irq_thread` pushes samples. `rb_push`, `rb_pop` and `rb_isempty`
are one step each; the rest of a call is local and goes with the ring operation
before it. The sleep in `wait_event_interruptible` ends when `rb_isempty` is
false, or by a signal.

A blocking call tests the ring and pops from it in two steps. Another reader
may take the sample in between, and the call then fails with `-EFAULT`: the
calls are right exactly as long as that does not happen (`mysensor_read_iff`).
No sample is ever returned twice, drained or not.
-/

namespace KernelDrvLearn

namespace Mysensor

namespace Read

/-! ## The call

`mysensor_read` between the ring operations. It decides to pop when it has seen the ring
not empty or was woken, and the pop may still find the ring empty. -/

/-- A call `mysensor_read(file, buf, count, ppos)`: its flag, and its local
variables as the stack leaves them. -/
structure Call where
  /-- is `O_NONBLOCK` set in `file->f_flags`? -/
  nonblock : Bool
  /-- `value` -/
  value : Int
  /-- `timestamp` -/
  timestamp : ℕ → Byte
  /-- `output` -/
  output : ℕ → Byte

/-- Where a reader stands in `mysensor_read`, with its call. -/
inductive Reader where
  /-- in no call -/
  | idle
  /-- before the first operation on the ring: the pop, or the test in
  `wait_event_interruptible` -/
  | enter (c : Call)
  /-- past the wait, before the pop -/
  | ready (c : Call)

/-- A call that has returned, with what it took. -/
structure Returned where
  /-- the call -/
  call : Call
  /-- the value returned -/
  ret : Int
  /-- the bytes copied to `buf` -/
  out : List Byte
  /-- record: the number of the sample it popped, counting the pushes from 0 -/
  popped : Option ℕ

/-- `"Value: %d, Timestamp: %s"`, the record that a read returns. -/
def recordText (e : Entry) : List Byte :=
  ascii "Value: " ++ fmtD e.value ++ ascii ", Timestamp: " ++ e.timestamp

/-- The end of `mysensor_read` after a successful pop: `snprintf` and
`copy_to_user`, which succeeds if `copied`. -/
def finish (c : Call) (res : PopResult) (k : ℕ) (copied : Bool) : Returned :=
  let timestamp := res.timestamp.getD c.timestamp
  let text := recordText ⟨res.value, Mem.cstr timestamp 0 32⟩
  let output := snprintf c.output 0 64 text
  let len := text.length
  if copied then ⟨c, len, Mem.load output 0 len, some k⟩ else ⟨c, efault, [], some k⟩

/-! ## The device

The ring with its readers and the interrupt thread. Samples are known by their number in
the order of the pushes, which the ring itself does not keep. -/

/-- The ring, the readers, and a record of what happened so far. -/
structure State where
  /-- `dev->rb` -/
  rb : Ringbuffer
  /-- the readers -/
  reader : ℕ → Reader
  /-- record: the samples pushed -/
  pushed : List Entry
  /-- record: the calls that returned -/
  history : List Returned

/-- The number of the oldest sample in the ring: the ring holds the last `size`
samples pushed. -/
def State.oldest (s : State) : ℕ := s.pushed.length - s.rb.size.toNat

/-- The call of reader `p` returns. -/
def State.returns (s : State) (p : ℕ) (rb : Ringbuffer) (r : Returned) : State :=
  { s with rb := rb, reader := Function.update s.reader p .idle, history := s.history ++ [r] }

/-- What can happen next: a push, or a step of some reader. -/
inductive Act where
  /-- `mysensor_irq_thread` pushes a sample -/
  | push (value : BitVec 32) (ts : Timespec64)
  /-- reader `p` calls `read` -/
  | read (p : ℕ) (c : Call)
  /-- reader `p` takes a step; `copied` is the outcome of `copy_to_user` -/
  | run (p : ℕ) (copied : Bool)
  /-- a signal ends the sleep of reader `p` -/
  | signal (p : ℕ)

/-- One step of reader `p`, if it has one. -/
def runStep (s : State) (p : ℕ) (copied : Bool) : Option State :=
  match s.reader p with
  | .idle => none
  | .enter c =>
    if c.nonblock then
      let res := rbPop s.rb c.value (some c.timestamp)
      if res.ret < 0 then some (s.returns p res.rb ⟨c, eagain, [], none⟩)
      else some (s.returns p res.rb (finish c res s.oldest copied))
    else if rbIsempty s.rb = 0 then
      some { s with reader := Function.update s.reader p (.ready c) }
    else none
  | .ready c =>
    let res := rbPop s.rb c.value (some c.timestamp)
    if res.ret < 0 then some (s.returns p res.rb ⟨c, efault, [], none⟩)
    else some (s.returns p res.rb (finish c res s.oldest copied))

/-- One step of the device: of the interrupt thread or of a reader. -/
def step (s : State) : Act → Option State
  | .push value ts =>
    some { s with
      rb := rbPush s.rb value.toInt ts
      pushed := s.pushed ++ [Entry.ofPush value.toInt ts] }
  | .read p c =>
    match s.reader p with
    | .idle => some { s with reader := Function.update s.reader p (.enter c) }
    | _ => none
  | .run p copied => runStep s p copied
  | .signal p =>
    match s.reader p with
    | .enter c =>
      if c.nonblock then none else some (s.returns p s.rb ⟨c, erestartsys, [], none⟩)
    | _ => none

/-- The device after probe, its memory zeroed. -/
def device : Lts State Act where
  init := ⟨rbInit ⟨fun _ => 0, fun _ _ => 0, 0, 0, 0⟩, fun _ => .idle, [], []⟩
  step := step

/-! ## What one step does

The steps by what they find in the ring. Signals and failing copies are kept out of it, as
they are out of the runs looked at. -/

/-- The call returns the record of sample `k`. -/
def Returned.record (c : Call) (k : ℕ) (x : Entry) : Returned :=
  ⟨c, (recordText x).length, recordText x, some k⟩

/-- The steps that valid buffers and the absence of signals leave, with what
each of them found. -/
inductive Moves (s : State) : Act → State → Prop
  /-- a push -/
  | push (value : BitVec 32) (ts : Timespec64) :
      Moves s (.push value ts) { s with
        rb := rbPush s.rb value.toInt ts
        pushed := s.pushed ++ [Entry.ofPush value.toInt ts] }
  /-- a new call -/
  | read {p : ℕ} {c : Call} :
      Moves s (.read p c) { s with reader := Function.update s.reader p (.enter c) }
  /-- a nonblocking call finds nothing -/
  | again {p : ℕ} {c : Call} (hempty : s.rb.abs = []) (hrd : s.reader p = .enter c)
      (hnb : c.nonblock = true) :
      Moves s (.run p true) (s.returns p s.rb ⟨c, eagain, [], none⟩)
  /-- the wait ends -/
  | wake {p : ℕ} {c : Call} (hne : s.rb.abs ≠ []) (hrd : s.reader p = .enter c)
      (hnb : c.nonblock = false) :
      Moves s (.run p true) { s with reader := Function.update s.reader p (.ready c) }
  /-- a call past its wait finds nothing -/
  | drained {p : ℕ} {c : Call} (hempty : s.rb.abs = []) (hrd : s.reader p = .ready c) :
      Moves s (.run p true) (s.returns p s.rb ⟨c, efault, [], none⟩)
  /-- a call pops the oldest sample and returns its record -/
  | take {p : ℕ} {c : Call} {x : Entry} {xs : List Entry} (hcons : s.rb.abs = x :: xs)
      (hrd : s.reader p = .ready c ∨ (s.reader p = .enter c ∧ c.nonblock = true)) :
      Moves s (.run p true)
        (s.returns p (rbPop s.rb c.value (some c.timestamp)).rb (Returned.record c s.oldest x))

/-- The runs in which every buffer passed to `read` is valid, so that each copy to it
succeeds, and no signal ends a sleep. -/
def Undisturbed (_ : State) : Act → Prop
  | .push _ _ | .read _ _ => True
  | .run _ copied => copied = true
  | .signal _ => False

instance Undisturbed.decidable (s : State) : ∀ a, Decidable (Undisturbed s a)
  | .push _ _ | .read _ _ => isTrue trivial
  | .run _ copied => inferInstanceAs (Decidable (copied = true))
  | .signal _ => isFalse id

/-- Every sample pushed has a record that fits `output`. -/
def State.Fits (s : State) : Prop := ∀ e ∈ s.pushed, (recordText e).length < 64

theorem recordText_ofPush_length (value : BitVec 32) (ts : Timespec64) :
    (recordText (Entry.ofPush value.toInt ts)).length < 64 := by
  have hvalue := length_fmtD_toInt value
  have hstamp := Entry.ofPush_length value.toInt ts
  have hhead : (ascii "Value: ").length = 7 := by decide
  have hmid : (ascii ", Timestamp: ").length = 13 := by decide
  simp only [recordText, List.length_append, hhead, hmid]
  change 7 + (fmtD value.toInt).length + 13 + (Entry.ofPush value.toInt ts).timestamp.length < 64
  omega

/-- A pop that succeeds ends in the record of its sample. -/
theorem finish_eq {rb : Ringbuffer} (h : rb.WF) {x : Entry} {xs : List Entry}
    (hcons : rb.abs = x :: xs) (hfit : (recordText x).length < 64) (c : Call) (k : ℕ) :
    finish c (rbPop rb c.value (some c.timestamp)) k true = Returned.record c k x := by
  obtain ⟨-, hvalue, htext, -, -⟩ := rbPop_cons h hcons c.value (some c.timestamp)
  obtain ⟨buf, hbuf, hstr⟩ := Option.map_eq_some_iff.mp htext
  have he : (⟨x.value, x.timestamp⟩ : Entry) = x := rfl
  simp only [finish, hvalue, hbuf, Option.getD_some, hstr, he, if_true, load_snprintf hfit]
  rfl

theorem step_moves {s t : State} {a : Act} (hwf : s.rb.WF) (hfits : s.Fits)
    (hsub : ∀ e ∈ s.rb.abs, e ∈ s.pushed) (henv : Undisturbed s a)
    (hs : device.step s a = some t) : Moves s a t := by
  -- a pop, from an empty ring and from one that is not
  have hnil : ∀ c : Call, s.rb.abs = [] →
      rbPop s.rb c.value (some c.timestamp) = ⟨-1, c.value, some c.timestamp, s.rb⟩ :=
    fun c hempty => rbPop_empty hwf hempty _ _
  have hret : ∀ (c : Call) (x : Entry) (xs : List Entry), s.rb.abs = x :: xs →
      (rbPop s.rb c.value (some c.timestamp)).ret = 0 :=
    fun c x xs hcons => (rbPop_cons hwf hcons _ _).1
  have hfin : ∀ (c : Call) (x : Entry) (xs : List Entry), s.rb.abs = x :: xs →
      finish c (rbPop s.rb c.value (some c.timestamp)) s.oldest true =
        Returned.record c s.oldest x := by
    intro c x xs hcons
    refine finish_eq hwf hcons (hfits x (hsub x ?_)) c s.oldest
    rw [hcons]
    exact List.mem_cons_self
  cases a with
  | push value ts =>
    obtain rfl := Option.some.inj hs
    exact .push value ts
  | read p c =>
    change (match s.reader p with | .idle => _ | _ => _) = some t at hs
    rcases hrd : s.reader p <;> rw [hrd] at hs
    case idle =>
      obtain rfl := Option.some.inj hs
      exact .read
    case enter | ready => cases hs
  | signal p => exact henv.elim
  | run p copied =>
    obtain rfl : copied = true := henv
    change runStep s p true = some t at hs
    rcases hrd : s.reader p with _ | c | c <;> simp only [runStep, hrd] at hs
    case idle => cases hs
    case enter =>
      rcases hnb : c.nonblock with _ | _ <;> rw [hnb] at hs
      · rw [if_neg (by decide), rbIsempty_eq hwf] at hs
        by_cases hempty : s.rb.abs = []
        · rw [if_pos hempty, if_neg (by decide)] at hs
          cases hs
        · rw [if_neg hempty, if_pos rfl] at hs
          obtain rfl := Option.some.inj hs
          exact .wake hempty hrd hnb
      · rw [if_pos rfl] at hs
        rcases habs : s.rb.abs with _ | ⟨x, xs⟩
        · rw [hnil c habs, if_pos (show (-1 : Int) < 0 by decide)] at hs
          obtain rfl := Option.some.inj hs
          exact .again habs hrd hnb
        · rw [hret c x xs habs, if_neg (by decide), hfin c x xs habs] at hs
          obtain rfl := Option.some.inj hs
          exact .take habs (Or.inr ⟨hrd, hnb⟩)
    case ready =>
      rcases habs : s.rb.abs with _ | ⟨x, xs⟩
      · rw [hnil c habs, if_pos (show (-1 : Int) < 0 by decide)] at hs
        obtain rfl := Option.some.inj hs
        exact .drained habs hrd
      · rw [hret c x xs habs, if_neg (by decide), hfin c x xs habs] at hs
        obtain rfl := Option.some.inj hs
        exact .take habs (Or.inl hrd)

/-! ## The samples

Which samples are in the ring, and which were returned? The ring holds the last ones
pushed; a pop takes the oldest of these; and a push may drop it. So numbers only go up,
and none is taken twice. -/

/-- The numbers of the samples returned so far, in order. -/
def State.taken (s : State) : List ℕ := s.history.filterMap Returned.popped

/-- What holds under every interleaving: the ring holds the last samples
pushed, and those returned are older ones, each returned once. -/
structure State.Inv (s : State) : Prop where
  wf : s.rb.WF
  fits : s.Fits
  held : s.oldest + s.rb.abs.length = s.pushed.length
  suffix : s.rb.abs = s.pushed.drop s.oldest
  older : ∀ k ∈ s.taken, k < s.oldest
  nodup : s.taken.Nodup

theorem oldest_eq {s : State} (hwf : s.rb.WF) :
    s.oldest = s.pushed.length - s.rb.abs.length := by
  rw [State.oldest, ← hwf.abs_length]
  rfl

/-- The number of the oldest sample is known from the split of `pushed`. -/
theorem State.Inv.of_drop {s : State} (hwf : s.rb.WF) (hfits : s.Fits) {j : ℕ}
    (hheld : j + s.rb.abs.length = s.pushed.length) (hsuffix : s.rb.abs = s.pushed.drop j)
    (holder : ∀ k ∈ s.taken, k < j) (hnodup : s.taken.Nodup) : s.Inv := by
  have hj : s.oldest = j := by
    rw [oldest_eq hwf, ← hheld]
    exact Nat.add_sub_cancel _ _
  exact ⟨hwf, hfits, by rw [hj]; exact hheld, by rw [hj]; exact hsuffix, by rw [hj]; exact holder,
    hnodup⟩

theorem State.Inv.sub {s : State} (h : s.Inv) : ∀ e ∈ s.rb.abs, e ∈ s.pushed := by
  rw [h.suffix]
  exact fun e he => List.mem_of_mem_drop he

theorem State.Inv.init : device.init.Inv :=
  ⟨Ringbuffer.WF.init _, fun _ he => absurd he List.not_mem_nil, rfl, rfl,
    fun _ hk => absurd hk List.not_mem_nil, List.nodup_nil⟩

/-- A push may drop the oldest sample; the samples taken are older still. -/
theorem State.Inv.push {s : State} (h : s.Inv) (value : BitVec 32) (ts : Timespec64) :
    State.Inv { s with
      rb := rbPush s.rb value.toInt ts
      pushed := s.pushed ++ [Entry.ofPush value.toInt ts] } := by
  have hfits : ∀ e ∈ s.pushed ++ [Entry.ofPush value.toInt ts], (recordText e).length < 64 := by
    intro e he
    rcases List.mem_append.mp he with he | he
    · exact h.fits e he
    · rw [List.mem_singleton.mp he]
      exact recordText_ofPush_length value ts
  have hheld := h.held
  have hsuffix : (s.pushed ++ [Entry.ofPush value.toInt ts]).drop s.oldest =
      s.rb.abs ++ [Entry.ofPush value.toInt ts] := by
    rw [List.drop_append_of_le_length (by omega), ← h.suffix]
  by_cases hroom : s.rb.abs.length < 100
  · obtain ⟨hwf, habs⟩ := rbPush_room h.wf hroom value.toInt ts
    refine State.Inv.of_drop (j := s.oldest) hwf hfits ?_ (habs.trans hsuffix.symm) h.older h.nodup
    change s.oldest + (rbPush s.rb value.toInt ts).abs.length = _
    rw [habs, List.length_append, List.length_append, ← Nat.add_assoc, hheld]
  · have hfull : s.rb.abs.length = 100 := Nat.le_antisymm h.wf.abs_length_le (by omega)
    obtain ⟨hwf, habs⟩ := rbPush_full h.wf hfull value.toInt ts
    refine State.Inv.of_drop (j := s.oldest + 1) hwf hfits ?_ ?_ ?_ h.nodup
    · change s.oldest + 1 + (rbPush s.rb value.toInt ts).abs.length = _
      rw [habs, List.length_tail, List.length_append, List.length_append, List.length_singleton]
      omega
    · change (rbPush s.rb value.toInt ts).abs = List.drop _ _
      rw [habs, ← List.tail_drop, hsuffix]
    · exact fun k hk => Nat.lt_succ_of_lt (h.older k hk)

theorem taken_returns (s : State) (p : ℕ) (rb : Ringbuffer) (r : Returned) :
    (s.returns p rb r).taken = s.taken ++ r.popped.toList := by
  rw [State.taken, State.returns, List.filterMap_append, State.taken]
  rcases hr : r.popped with _ | k
  · rw [List.filterMap_cons_none hr]
    rfl
  · rw [List.filterMap_cons_some hr]
    rfl

/-- A call that returns without a sample takes none away. -/
theorem State.Inv.returns_none {s : State} (h : s.Inv) (p : ℕ) (c : Call) (ret : Int) :
    (s.returns p s.rb ⟨c, ret, [], none⟩).Inv := by
  have htaken : (s.returns p s.rb ⟨c, ret, [], none⟩).taken = s.taken := by
    rw [taken_returns]
    exact List.append_nil _
  exact State.Inv.of_drop h.wf h.fits h.held h.suffix (by rw [htaken]; exact h.older)
    (by rw [htaken]; exact h.nodup)

/-- A call that returns the oldest sample: its number is new. -/
theorem State.Inv.take {s : State} (h : s.Inv) {x : Entry} {xs : List Entry}
    (hcons : s.rb.abs = x :: xs) (p : ℕ) (c : Call) :
    (s.returns p (rbPop s.rb c.value (some c.timestamp)).rb
      (Returned.record c s.oldest x)).Inv := by
  obtain ⟨-, -, -, hwf, habs⟩ := rbPop_cons h.wf hcons c.value (some c.timestamp)
  have htaken : (s.returns p (rbPop s.rb c.value (some c.timestamp)).rb
      (Returned.record c s.oldest x)).taken = s.taken ++ [s.oldest] := taken_returns _ _ _ _
  refine State.Inv.of_drop (j := s.oldest + 1) hwf h.fits ?_ ?_ ?_ ?_
  · change s.oldest + 1 + (rbPop s.rb c.value (some c.timestamp)).rb.abs.length = s.pushed.length
    rw [habs, ← h.held, hcons, List.length_cons, Nat.add_assoc, Nat.add_comm 1]
  · change (rbPop s.rb c.value (some c.timestamp)).rb.abs = s.pushed.drop (s.oldest + 1)
    rw [habs, ← List.tail_drop, ← h.suffix, hcons]
    rfl
  · rw [htaken]
    intro k hk
    rcases List.mem_append.mp hk with hk | hk
    · exact Nat.lt_succ_of_lt (h.older k hk)
    · rw [List.mem_singleton.mp hk]
      exact Nat.lt_succ_self _
  · rw [htaken]
    refine List.nodup_append.mpr ⟨h.nodup, List.pairwise_singleton _ _, ?_⟩
    rintro k hk j hj rfl
    rw [List.mem_singleton.mp hj] at hk
    exact Nat.lt_irrefl _ (h.older _ hk)

/-- **Step lemma**, whether or not a reader comes to a drained ring. -/
theorem State.Inv.step {s t : State} {a : Act} (h : s.Inv) (henv : Undisturbed s a)
    (hs : device.step s a = some t) : t.Inv := by
  cases step_moves h.wf h.fits h.sub henv hs with
  | push value ts => exact h.push value ts
  | read | wake => exact ⟨h.wf, h.fits, h.held, h.suffix, h.older, h.nodup⟩
  | again | drained => exact h.returns_none _ _ _
  | take hcons => exact h.take hcons _ _

/-! ## The calls

A call can go wrong in one way. Between its wait and its pop another reader takes the last
sample, and the pop fails; a blocking reader then returns an error although it was told
that there is something. -/

/-- The call returned the record of a sample it popped, or it is nonblocking and
returned `-EAGAIN` with nothing popped. -/
def Returned.Good (pushed : List Entry) (r : Returned) : Prop :=
  (∃ k x, r.popped = some k ∧ pushed[k]? = some x ∧ r.out = recordText x ∧
      r.ret = (recordText x).length) ∨
    (r.call.nonblock = true ∧ r.ret = eagain ∧ r.popped = none)

/-- Every call that returned is good, and no two returned the same sample. -/
def State.AllGood (s : State) : Prop := (∀ r ∈ s.history, r.Good s.pushed) ∧ s.taken.Nodup

/-- Is the reader past its wait, and about to pop? -/
def Reader.past : Reader → Bool
  | ready _ => true
  | _ => false

/-- The step does not bring a reader past its wait to an empty ring. -/
def NotDrained (s : State) : Act → Prop
  | .run p _ => (s.reader p).past = true → rbIsempty s.rb = 0
  | _ => True

instance NotDrained.decidable (s : State) : ∀ a, Decidable (NotDrained s a)
  | .run p _ => inferInstanceAs (Decidable ((s.reader p).past = true → rbIsempty s.rb = 0))
  | .push _ _ | .read _ _ | .signal _ => isTrue trivial

/-- A record stays the record of its sample. -/
theorem Returned.Good.push {pushed : List Entry} {r : Returned} (h : r.Good pushed)
    (e : Entry) : r.Good (pushed ++ [e]) := by
  rcases h with ⟨k, x, hk, hx, hout, hret⟩ | h
  · refine Or.inl ⟨k, x, hk, ?_, hout, hret⟩
    rw [List.getElem?_append_left (List.getElem?_eq_some_iff.mp hx).1]
    exact hx
  · exact Or.inr h

/-- What the readers can rely on as long as none finds the ring drained. -/
structure State.Served (s : State) : Prop where
  inv : s.Inv
  good : ∀ r ∈ s.history, r.Good s.pushed

theorem State.Served.init : device.init.Served :=
  ⟨State.Inv.init, fun _ hr => absurd hr List.not_mem_nil⟩

/-- One more good call, which took a sample of its own or none. -/
theorem good_append {pushed : List Entry} {history : List Returned} {r : Returned}
    (h : ∀ r ∈ history, r.Good pushed) (hr : r.Good pushed) :
    ∀ r' ∈ history ++ [r], r'.Good pushed := by
  intro r' hr'
  rcases List.mem_append.mp hr' with hr' | hr'
  · exact h r' hr'
  · rw [List.mem_singleton.mp hr']
    exact hr

/-- **Step lemma** of the calls, as long as none finds the ring drained. -/
theorem State.Served.step {s t : State} {a : Act} (h : s.Served) (henv : Undisturbed s a)
    (hcond : NotDrained s a) (hs : device.step s a = some t) : t.Served := by
  refine ⟨h.inv.step henv hs, ?_⟩
  have hinv := h.inv
  cases step_moves hinv.wf hinv.fits hinv.sub henv hs with
  | push value ts => exact fun r hr => (h.good r hr).push _
  | read | wake => exact h.good
  | again hempty hrd hnb => exact good_append h.good (Or.inr ⟨hnb, rfl, rfl⟩)
  | drained hempty hrd =>
    have hne := hcond (by rw [hrd]; rfl)
    rw [rbIsempty_eq hinv.wf, if_pos hempty] at hne
    cases hne
  | @take p c x xs hcons =>
    refine good_append h.good (Or.inl ⟨s.oldest, x, rfl, ?_, rfl, rfl⟩)
    have hhead : s.rb.abs[0]? = some x := by
      rw [hcons]
      rfl
    rw [hinv.suffix, List.getElem?_drop] at hhead
    exact hhead

/-- A call that finds the ring drained returns `-EFAULT`. -/
theorem State.Served.not_allGood {s t : State} {a : Act} (h : s.Served)
    (henv : Undisturbed s a) (hcond : ¬ NotDrained s a) (hs : device.step s a = some t) :
    ¬ t.AllGood := by
  rintro ⟨hgood, -⟩
  have hinv := h.inv
  have hne : ∀ {p copied}, ¬ NotDrained s (.run p copied) →
      (s.reader p).past = true ∧ s.rb.abs = [] := by
    intro p copied hnot
    by_contra hno
    refine hnot fun hpast => ?_
    rw [rbIsempty_eq hinv.wf, if_neg fun hempty => hno ⟨hpast, hempty⟩]
  cases step_moves hinv.wf hinv.fits hinv.sub henv hs with
  | push | read => exact hcond trivial
  | again hempty hrd =>
    have hpast := (hne hcond).1
    rw [hrd] at hpast
    cases hpast
  | wake hnonempty => exact hnonempty (hne hcond).2
  | @drained p c hempty hrd =>
    rcases hgood _ (List.mem_append_right _ (List.mem_singleton_self _)) with
      ⟨k, x, hk, -⟩ | ⟨-, hret, -⟩
    · cases hk
    · cases hret
  | take hcons =>
    rw [(hne hcond).2] at hcons
    cases hcons

/-- **Blocking readers, exactly.** Along a run of any number of readers, every
call returns the record of a sample that no other call returned, or `-EAGAIN`
if it is nonblocking, if and only if no reader past its wait comes to an empty
ring. -/
theorem mysensor_read_iff {as : List Act} (hrun : device.Run Undisturbed as) :
    device.Along (fun _ _ t => t.AllGood) device.init as ↔
      device.Along (fun s a _ => NotDrained s a) device.init as := by
  refine Lts.along_iff State.Served ?_ ?_ State.Served.init hrun
  · intro s a t h henv hs
    constructor
    · intro hgood
      by_contra hcond
      exact h.not_allGood henv hcond hs hgood
    · intro hcond
      have hserved := h.step henv hcond hs
      exact ⟨hserved.good, hserved.inv.nodup⟩
  · exact fun s a t h henv hs hcond => h.step henv hcond hs

/-- **No sample is returned twice**, even by calls that fail. -/
theorem taken_nodup {s : State} (h : device.Reach Undisturbed s) : s.taken.Nodup :=
  (h.invariant State.Inv.init fun _ _ _ hi henv hs => hi.step henv hs).nodup

/-- A blocking call, with zeros on its stack. -/
def blocking : Call := ⟨false, 0, fun _ => 0, fun _ => 0⟩

/-- Two readers sleep; the first is woken by one sample and the second by the next,
and they take them the other way round. -/
def twoReaders : List Act :=
  [.read 0 blocking, .read 1 blocking, .push 7 ⟨1, 5⟩, .run 0 true, .push 8 ⟨2, 6⟩, .run 1 true,
    .run 1 true, .run 0 true]

theorem mysensor_read_iff_twoReaders :
    device.Along (fun _ _ t => t.AllGood) device.init twoReaders ∧
      (device.exec device.init twoReaders).map (·.taken) = some [0, 1] :=
  ⟨(mysensor_read_iff (by decide +kernel)).mpr (by decide +kernel), by decide +kernel⟩

/-- Two readers are woken by one sample; the first takes it. -/
def raced : List Act :=
  [.read 0 blocking, .read 1 blocking, .push 7 ⟨1, 5⟩, .run 0 true, .run 1 true,
    .run 0 true, .run 1 true]

/-- The second blocking call fails with `-EFAULT`. -/
theorem mysensor_read_raced : device.Run Undisturbed raced ∧
    ∃ s r, device.exec device.init raced = some s ∧ s.history[1]? = some r ∧
      r.call.nonblock = false ∧ r.ret = efault ∧ ¬ s.AllGood := by
  refine ⟨by decide +kernel, _, ⟨blocking, efault, [], none⟩, rfl, rfl, rfl, rfl, ?_⟩
  rintro ⟨hgood, -⟩
  rcases hgood ⟨blocking, efault, [], none⟩ (List.mem_of_getElem? (i := 1) rfl) with
    ⟨k, x, hk, -⟩ | ⟨hnb, -⟩
  · cases hk
  · cases hnb

end Read

end Mysensor

end KernelDrvLearn
