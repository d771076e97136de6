import KernelDrvLearn.MysensorRead

/-!
# The size of a read

One call of `mysensor_read` of `practice/mysensor/mysensor.c` as a whole, with
the `count` it is passed and with every outcome of its copy. Together with its
steps against other readers (`runStep_eq`) this is all the function does.

The sample is popped before anything is known of the copy, and `count` is not
looked at. Whatever the ring holds, the call respects `count` and loses nothing
if and only if it pops nothing, or the whole record fits and is copied
(`mysensor_read_safe_iff`).
-/

namespace KernelDrvLearn

namespace Mysensor

namespace Read

/-! ## One call

`mysensor_read` from its first test to its return, the ring being as the call finds it.
What can differ from call to call is an argument: whether a signal ends the sleep, and how
much of the copy fails. -/

/-- What `mysensor_read` leaves: the value, the bytes and the ring. -/
structure ReadResult where
  /-- the ring -/
  rb : Ringbuffer
  /-- the value returned -/
  ret : Int
  /-- the bytes copied to `buf` -/
  out : List Byte

/-- `mysensor_read`. The ring is as the call finds it when it pops. A signal may
end its sleep, if it sleeps, and `copy_to_user` leaves `left` bytes. -/
def mysensorRead (rb : Ringbuffer) (c : Call) (signal : Bool) (left _count : ℕ) : ReadResult :=
  let res := rbPop rb c.value (some c.timestamp)
  let copy : ReadResult :=
    let timestamp := res.timestamp.getD c.timestamp
    let text := recordText ⟨res.value, Mem.cstr timestamp 0 32⟩
    let output := snprintf c.output 0 64 text
    let len := text.length
    ⟨res.rb, if left ≠ 0 then efault else len, Mem.load output 0 (len - left)⟩
  if c.nonblock then
    if res.ret < 0 then ⟨res.rb, eagain, []⟩ else copy
  else if signal then
    ⟨rb, erestartsys, []⟩
  else
    if res.ret < 0 then ⟨res.rb, efault, []⟩ else copy

/-- The call stays within `count`; it removes a sample only if it delivers the
whole record, within `count`, and returns its length; and if it fails the ring
is as it was. -/
structure ReadResult.Safe (rb : Ringbuffer) (count : ℕ) (r : ReadResult) : Prop where
  out : r.out.length ≤ count
  ret : r.ret ≤ count
  removed : r.rb.abs ≠ rb.abs → ∃ x xs, rb.abs = x :: xs ∧ r.rb.abs = xs ∧
    r.out = recordText x ∧ r.ret = (recordText x).length
  error : r.ret < 0 → r.rb = rb

/-- A signal ends the call before it pops. -/
def Call.Interrupted (c : Call) (signal : Bool) : Prop := c.nonblock = false ∧ signal = true

/-! ## The rings of the device

What every reachable ring has in common. Its records are short enough for `output`, so
what `snprintf` returns is what it has stored. -/

/-- The ring is well formed, and every record fits `output`. -/
structure RingOk (rb : Ringbuffer) : Prop where
  wf : rb.WF
  fits : ∀ e ∈ rb.abs, (recordText e).length < 64

theorem RingOk.init (rb : Ringbuffer) : RingOk (rbInit rb) :=
  ⟨Ringbuffer.WF.init rb, fun _ he => absurd he List.not_mem_nil⟩

theorem RingOk.push {rb : Ringbuffer} (h : RingOk rb) (value : BitVec 32)
    (ts : Timespec64) : RingOk (rbPush rb value.toInt ts) := by
  have hnew : ∀ e ∈ rb.abs ++ [Entry.ofPush value.toInt ts], (recordText e).length < 64 := by
    intro e he
    rcases List.mem_append.mp he with he | he
    · exact h.fits e he
    · rw [List.mem_singleton.mp he]
      exact recordText_ofPush_length value ts
  rcases Nat.lt_or_eq_of_le h.wf.abs_length_le with hroom | hfull
  · obtain ⟨hwf, habs⟩ := rbPush_room h.wf hroom value.toInt ts
    exact ⟨hwf, by rw [habs]; exact hnew⟩
  · obtain ⟨hwf, habs⟩ := rbPush_full h.wf hfull value.toInt ts
    exact ⟨hwf, by rw [habs]; exact fun e he => hnew e (List.mem_of_mem_tail he)⟩

theorem RingOk.pop {rb : Ringbuffer} (h : RingOk rb) (value : Int)
    (timestamp : Option (ℕ → Byte)) : RingOk (rbPop rb value timestamp).rb := by
  rcases habs : rb.abs with _ | ⟨x, xs⟩
  · rw [rbPop_empty h.wf habs]
    exact h
  · obtain ⟨-, -, -, hwf, hrest⟩ := rbPop_cons h.wf habs value timestamp
    refine ⟨hwf, fun e he => h.fits e ?_⟩
    rw [hrest] at he
    rw [habs]
    exact List.mem_cons_of_mem x he

/-- A step of a reader pops or leaves the ring alone. -/
theorem runStep_rb {s t : State} {p : ℕ} {copied : Bool} (hs : runStep s p copied = some t) :
    t.rb = s.rb ∨ ∃ c : Call, t.rb = (rbPop s.rb c.value (some c.timestamp)).rb := by
  rcases hrd : s.reader p with _ | c | c <;> simp only [runStep, hrd] at hs
  case idle => cases hs
  case enter =>
    split at hs
    · split at hs <;> obtain rfl := Option.some.inj hs <;> exact Or.inr ⟨c, rfl⟩
    · split at hs
      · obtain rfl := Option.some.inj hs
        exact Or.inl rfl
      · cases hs
  case ready => split at hs <;> obtain rfl := Option.some.inj hs <;> exact Or.inr ⟨c, rfl⟩

/-- **The rings of the device**, signals and failing copies included. -/
theorem reach_ok {s : State} (h : device.Reach (fun _ _ => True) s) : RingOk s.rb := by
  refine h.invariant (I := fun s => RingOk s.rb) (RingOk.init _) ?_
  intro s a t hok _ hs
  cases a with
  | push value ts =>
    obtain rfl := Option.some.inj hs
    exact hok.push value ts
  | read p c =>
    rcases hrd : s.reader p <;> simp only [device, step, hrd, reduceCtorEq] at hs
    obtain rfl := Option.some.inj hs
    exact hok
  | run p copied =>
    rcases runStep_rb hs with hrb | ⟨c, hrb⟩ <;> rw [hrb]
    · exact hok
    · exact hok.pop _ _
  | signal p =>
    rcases hrd : s.reader p with _ | c | c <;> simp only [device, step, hrd, reduceCtorEq] at hs
    split at hs
    · cases hs
    · obtain rfl := Option.some.inj hs
      exact hok

/-! ## What a call does

Case by case: a call that is interrupted, one that finds nothing, and one that pops. The
last of these does not look at `count` at all. -/

theorem mysensorRead_interrupted (rb : Ringbuffer) {c : Call} {signal : Bool}
    (h : c.Interrupted signal) (left count : ℕ) :
    mysensorRead rb c signal left count = ⟨rb, erestartsys, []⟩ := by
  simp only [mysensorRead, h.1, h.2, Bool.false_eq_true, if_false, if_true]

/-- Nothing is there, and the call fails as a call on an empty ring does. -/
theorem mysensorRead_empty {rb : Ringbuffer} (h : RingOk rb) (hempty : rb.abs = []) {c : Call}
    {signal : Bool} (hint : ¬ c.Interrupted signal) (left count : ℕ) :
    mysensorRead rb c signal left count =
      ⟨rb, if c.nonblock then eagain else efault, []⟩ := by
  have hneg : (-1 : Int) < 0 := by decide
  rcases hnb : c.nonblock with _ | _
  · rcases hsig : signal with _ | _
    · simp only [mysensorRead, rbPop_empty h.wf hempty, hnb, hneg, Bool.false_eq_true, if_false,
        if_true]
    · exact absurd ⟨hnb, hsig⟩ hint
  · simp only [mysensorRead, rbPop_empty h.wf hempty, hnb, hneg, if_true]

/-- The oldest sample is popped, and its record copied. -/
theorem mysensorRead_cons {rb : Ringbuffer} (h : RingOk rb) {x : Entry} {xs : List Entry}
    (hcons : rb.abs = x :: xs) {c : Call} {signal : Bool} (hint : ¬ c.Interrupted signal)
    (left count : ℕ) :
    mysensorRead rb c signal left count =
      ⟨(rbPop rb c.value (some c.timestamp)).rb,
        if left ≠ 0 then efault else (recordText x).length,
        (recordText x).take ((recordText x).length - left)⟩ := by
  obtain ⟨hret, hvalue, htext, -, -⟩ := rbPop_cons h.wf hcons c.value (some c.timestamp)
  obtain ⟨buf, hbuf, hstr⟩ := Option.map_eq_some_iff.mp htext
  have hfit : (recordText x).length < 64 := h.fits x (by rw [hcons]; exact List.mem_cons_self)
  have hload : Mem.load (snprintf c.output 0 64 (recordText x)) 0
      ((recordText x).length - left) = (recordText x).take ((recordText x).length - left) := by
    rw [← Mem.load_take (Nat.sub_le (recordText x).length left), load_snprintf hfit]
  have he : (⟨x.value, x.timestamp⟩ : Entry) = x := rfl
  have hneg : ¬ (0 : Int) < 0 := by decide
  rcases hnb : c.nonblock with _ | _
  · rcases hsig : signal with _ | _
    · simp only [mysensorRead, hnb, hret, hneg, hvalue, hbuf, Option.getD_some, hstr, he, hload,
        Bool.false_eq_true, if_false]
    · exact absurd ⟨hnb, hsig⟩ hint
  · simp only [mysensorRead, hnb, hret, hneg, hvalue, hbuf, Option.getD_some, hstr, he, hload,
      if_true, if_false]

/-- **The call, step by step.** Against other readers the call is the step of
`runStep` that pops: the same ring, return value and bytes. -/
theorem runStep_eq {s : State} (h : RingOk s.rb) {p : ℕ} {c : Call}
    (hrd : (s.reader p = .enter c ∧ c.nonblock = true) ∨
      (s.reader p = .ready c ∧ c.nonblock = false)) {copied : Bool} {left : ℕ}
    (hleft : copied = true ∧ left = 0 ∨ copied = false ∧ 64 ≤ left) (count : ℕ) :
    let r := mysensorRead s.rb c false left count
    ∃ popped, runStep s p copied = some (s.returns p r.rb ⟨c, r.ret, r.out, popped⟩) := by
  have hint : ¬ c.Interrupted false := fun hi => Bool.false_ne_true hi.2
  rcases habs : s.rb.abs with _ | ⟨x, xs⟩
  · refine ⟨none, ?_⟩
    have hneg : (-1 : Int) < 0 := by decide
    rw [mysensorRead_empty h habs hint]
    rcases hrd with ⟨hrd, hnb⟩ | ⟨hrd, hnb⟩
    · simp only [runStep, hrd, hnb, rbPop_empty h.wf habs, hneg, if_true]
    · simp only [runStep, hrd, hnb, rbPop_empty h.wf habs, hneg, if_true, Bool.false_eq_true,
        if_false]
  · refine ⟨some s.oldest, ?_⟩
    obtain ⟨hret, hvalue, htext, -, -⟩ := rbPop_cons h.wf habs c.value (some c.timestamp)
    obtain ⟨buf, hbuf, hstr⟩ := Option.map_eq_some_iff.mp htext
    have hfit : (recordText x).length < 64 := h.fits x (by rw [habs]; exact List.mem_cons_self)
    have hneg : ¬ (0 : Int) < 0 := by decide
    -- the end of the call
    have hfinish : finish c (rbPop s.rb c.value (some c.timestamp)) s.oldest copied =
        ⟨c, if left ≠ 0 then efault else (recordText x).length,
          (recordText x).take ((recordText x).length - left), some s.oldest⟩ := by
      rcases hleft with ⟨rfl, rfl⟩ | ⟨rfl, hge⟩
      · rw [finish_eq h.wf habs hfit, Nat.sub_zero, List.take_length]
        rfl
      · have hnone : (recordText x).length - left = 0 := by omega
        rw [hnone, List.take_zero, if_pos (by omega : left ≠ 0)]
        rfl
    rw [mysensorRead_cons h habs hint]
    rcases hrd with ⟨hrd, hnb⟩ | ⟨hrd, hnb⟩
    · simp only [runStep, hrd, hnb, hret, hneg, if_true, if_false, hfinish]
    · simp only [runStep, hrd, hret, hneg, if_false, hfinish]

/-! ## Within `count`

A call that pops nothing is safe. One that pops is safe if its record fits into `count`
and is copied, and in no other case: the sample is gone by then, and `count` is not looked
at. -/

/-- A call that fails and pops nothing is safe. -/
theorem ReadResult.Safe.of_error (rb : Ringbuffer) (count : ℕ) {ret : Int} (hret : ret ≤ 0) :
    ReadResult.Safe rb count ⟨rb, ret, []⟩ :=
  ⟨Nat.zero_le _, Int.le_trans hret (Int.natCast_nonneg count), fun hne => absurd rfl hne,
    fun _ => rfl⟩

/-- A call that pops is safe if and only if the whole record fits and is
copied. -/
theorem safe_cons_iff {rb : Ringbuffer} (h : RingOk rb) {x : Entry} {xs : List Entry}
    (hcons : rb.abs = x :: xs) {c : Call} {signal : Bool} (hint : ¬ c.Interrupted signal)
    (left count : ℕ) :
    (mysensorRead rb c signal left count).Safe rb count ↔
      (recordText x).length ≤ count ∧ left = 0 := by
  obtain ⟨-, -, -, -, hrest⟩ := rbPop_cons h.wf hcons c.value (some c.timestamp)
  rw [mysensorRead_cons h hcons hint]
  constructor
  · rintro ⟨hout, -, -, herror⟩
    dsimp only at hout herror
    have hleft : left = 0 := by
      by_contra hne
      -- the error leaves a shorter ring
      rw [if_pos hne] at herror
      have hsame := congrArg Ringbuffer.abs (herror (by decide))
      rw [hrest, hcons] at hsame
      exact absurd (congrArg List.length hsame) (Nat.ne_of_lt (Nat.lt_succ_self _))
    rw [hleft, Nat.sub_zero, List.take_length] at hout
    exact ⟨hout, hleft⟩
  · rintro ⟨hle, rfl⟩
    rw [Nat.sub_zero, List.take_length, if_neg (not_not_intro rfl)]
    refine ⟨hle, Int.ofNat_le.mpr hle, fun _ => ⟨x, xs, hcons, hrest, rfl, rfl⟩, fun hneg => ?_⟩
    exact absurd hneg (Int.not_lt.mpr (Int.natCast_nonneg _))

/-- **Reads within `count`, exactly.** In every reachable state of the device a
call of `mysensor_read`, whatever its count and however its wait and its copy
end, writes and returns no more than `count`, removes a sample only with its
whole record delivered, and leaves the ring alone when it fails, if and only if
it is interrupted, or any sample it pops has a record that fits `count` and is
copied completely.

The sample is popped before anything is known of the copy, and `count` is looked at
nowhere. So the record of the oldest sample decides, and on an empty ring, or with a
signal, nothing can go wrong. -/
theorem mysensor_read_safe_iff {s : State} (h : device.Reach (fun _ _ => True) s) (c : Call)
    (signal : Bool) (left count : ℕ) :
    (mysensorRead s.rb c signal left count).Safe s.rb count ↔
      c.Interrupted signal ∨
        ∀ x xs, s.rb.abs = x :: xs → (recordText x).length ≤ count ∧ left = 0 := by
  have hok := reach_ok h
  by_cases hint : c.Interrupted signal
  · rw [mysensorRead_interrupted s.rb hint]
    exact ⟨fun _ => Or.inl hint, fun _ => .of_error s.rb count (by decide)⟩
  rcases habs : s.rb.abs with _ | ⟨x, xs⟩
  · rw [mysensorRead_empty hok habs hint]
    refine ⟨fun _ => Or.inr fun x xs hnil => absurd hnil.symm (List.cons_ne_nil x xs),
      fun _ => .of_error s.rb count ?_⟩
    split <;> decide
  · rw [safe_cons_iff hok habs hint, or_iff_right hint]
    constructor
    · intro hcond y ys hcons
      obtain ⟨rfl, rfl⟩ := List.cons.inj hcons
      exact hcond
    · exact fun hcond => hcond x xs rfl

/-- The device with one sample in its ring. -/
def sampled : State :=
  { device.init with
    rb := rbPush device.init.rb (7 : BitVec 32).toInt ⟨1, 5⟩
    pushed := [Entry.ofPush (7 : BitVec 32).toInt ⟨1, 5⟩] }

theorem sampled_reach : device.Reach (fun _ _ => True) sampled :=
  Lts.Reach.init.step (a := .push 7 ⟨1, 5⟩) trivial rfl

theorem sampled_abs : sampled.rb.abs = [Entry.ofPush (7 : BitVec 32).toInt ⟨1, 5⟩] :=
  (rbPush_room (Ringbuffer.WF.init _) (by decide) _ _).2

theorem mysensor_read_safe_iff_sampled :
    (mysensorRead sampled.rb blocking false 0 33).Safe sampled.rb 33 := by
  refine (mysensor_read_safe_iff sampled_reach blocking false 0 33).mpr (Or.inr ?_)
  intro x xs hcons
  rw [sampled_abs] at hcons
  obtain ⟨rfl, -⟩ := List.cons.inj hcons
  exact ⟨by decide +kernel, rfl⟩

/-- A read of 10 bytes writes and returns 33; and one whose copy fails returns
`-EFAULT`, and the sample is gone. -/
theorem sampled_unsafe :
    (mysensorRead sampled.rb blocking false 0 10).ret = 33 ∧
      ¬ (mysensorRead sampled.rb blocking false 0 10).Safe sampled.rb 10 ∧
      (mysensorRead sampled.rb blocking false 1 33).ret = efault ∧
      (mysensorRead sampled.rb blocking false 1 33).rb.size = 0 ∧
      ¬ (mysensorRead sampled.rb blocking false 1 33).Safe sampled.rb 33 := by
  have hret : (mysensorRead sampled.rb blocking false 0 10).ret = 33 := by decide +kernel
  have hfault : (mysensorRead sampled.rb blocking false 1 33).ret = efault := by decide +kernel
  have hgone : (mysensorRead sampled.rb blocking false 1 33).rb.size = 0 := by decide +kernel
  refine ⟨hret, fun hsafe => ?_, hfault, hgone, fun hsafe => ?_⟩
  · have hle := hsafe.ret
    rw [hret] at hle
    exact absurd hle (by decide)
  · have hsame := hsafe.error (by rw [hfault]; decide)
    rw [hsame] at hgone
    exact absurd hgone (by decide)

end Read

end Mysensor

end KernelDrvLearn
