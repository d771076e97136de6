import KernelDrvLearn.Fbread

/-!
# Faults in `myfbread`

The loop of `myfbread` pops a sample before it copies it to the user, and a
failed copy sets `ret`, which is then returned in place of `offset`. A call with
a failed copy therefore takes the samples it has delivered, and one more, out of
the ring and reports none of them. The call reports exactly what it has taken if
and only if each of its copies succeeds (`myfbread_reports_iff`).

One reader at a time; samples may be pushed while its call is in progress.
-/

namespace KernelDrvLearn

namespace Fbread

/-- The steps while a call of that reader is in progress. -/
def Act.inCall : Act → Bool
  | .push _ => true
  | .read _ _ _ => false
  | .run p _ => p = 0
  | .signal p => p = 0

/-- A copy to the user succeeds, if the step makes one. -/
def CopySucceeds (s : State) : Act → Prop
  | .run p copied => (∃ c i offset, s.reader p = .loop c i offset) → copied = true
  | _ => True

/-- How many samples a step of a reader takes out of the ring. -/
def Act.taken (a : Act) (s t : State) : ℕ :=
  match a with
  | .run _ _ => s.ring.abs.length - t.ring.abs.length
  | _ => 0

/-- How many samples the steps of the reader take out of the ring. -/
def removed (s : State) : List Act → ℕ
  | [] => 0
  | a :: as =>
    match device.step s a with
    | some t => a.taken s t + removed t as
    | none => 0

/-- The call reports what it took: the return value is the bytes of that many
samples, or an error and nothing was taken. -/
def Reports (ret : Int) (removed : ℕ) : Prop :=
  (0 ≤ ret → (removed : Int) = ret / (rbdataBytes : ℕ)) ∧ (ret < 0 → removed = 0)

/-! ## One step

A call is honest as long as it has not returned less than it took. Only a failed copy can
spoil that: the sample of that copy is popped already, and the return value is the error
instead of the offset. -/

/-- The reader has not returned, or reports what it popped. -/
def Reader.Honest (rd : Reader) : Prop := ∀ c ret, rd = .done c ret → Reports ret c.popped.length

theorem Call.Did.reports {c : Call} {m : ℕ} (h : c.Did m) :
    Reports (16 * m : ℕ) c.popped.length := by
  rw [Reports, h.popped]
  refine ⟨fun _ => ?_, fun hneg => absurd hneg (Int.not_lt.mpr (Int.natCast_nonneg _))⟩
  change (m : Int) = ((16 * m : ℕ) : Int) / ((16 : ℕ) : Int)
  omega

theorem Call.Did.reports_nothing {c : Call} (h : c.Did 0) {ret : Int} (hret : ret < 0) :
    Reports ret c.popped.length := by
  rw [Reports, h.popped]
  exact ⟨fun hnonneg => absurd hret (Int.not_lt.mpr hnonneg), fun _ => rfl⟩

theorem loopHead_honest {c : Call} {n : ℕ} (hd : c.Did n) :
    (loopHead c n (16 * n : ℕ)).Honest := by
  intro c' ret hdone
  rw [loopHead] at hdone
  split at hdone
  · cases hdone
  · cases hdone
    exact hd.reports

/-- A step with no failed copy keeps the call honest. -/
theorem Reader.Steps.honest {r : Ringbuf} (hr : r.WF) {copied : Bool} {rd : Reader} {res : Result}
    (h : Reader.Steps r copied rd res) (hi : rd.Inv) (he : rd.Enough r)
    (hcopy : (∃ c i offset, rd = .loop c i offset) → copied = true) : res.reader.Honest := by
  have hstart : ∀ c : Call, c.Did 0 → (startLoop c r.abs.length).Honest := by
    intro c hd
    obtain ⟨c', m, heq, -, -, hd', -⟩ := startLoop_sized hd hr.abs_length_le
    rw [heq]
    exact loopHead_honest (n := 0) hd'
  cases h with
  | @again _ c =>
    have hd : Call.Did { c with sizeRead := 0 } 0 := ⟨hi.popped, hi.writes⟩
    rintro _ _ ⟨⟩
    exact hd.reports_nothing (by decide)
  | sleep => exact fun _ _ => nofun
  | start => exact hstart _ hi
  | wake => exact fun _ _ => nofun
  | restart => exact hstart _ hi
  -- the ring still holds what is left to pop
  | drained hempty => exact absurd hempty (he.ne_nil hi)
  | @pop c i offset x xs hcons =>
    obtain ⟨n, m, rfl, -, hnm, hs, hd, rfl⟩ := hi
    change (loopHead _ _ _).Honest
    rw [hs.next_offset hnm]
    exact loopHead_honest (n := n + 1) (hd.took x)
  | fault => exact absurd (hcopy ⟨_, _, _, rfl⟩) nofun

/-- A failed copy ends the call, which reports nothing of what it popped. -/
theorem Reader.Steps.not_honest {r : Ringbuf} {rd : Reader} {res : Result}
    (h : Reader.Steps r false rd res) (hi : rd.Inv) (he : rd.Enough r)
    (hloop : ∃ c i offset, rd = .loop c i offset) :
    (∃ c ret, res.reader = .done c ret) ∧ ¬ res.reader.Honest := by
  obtain ⟨c, i, offset, rfl⟩ := hloop
  cases h with
  | drained hempty => exact absurd hempty (he.ne_nil hi)
  | fault hcons =>
    refine ⟨⟨_, _, rfl⟩, fun hhonest => ?_⟩
    have hnone := (hhonest _ _ rfl).2 (by decide)
    rw [List.length_append] at hnone
    exact absurd hnone (Nat.succ_ne_zero _)

/-- What a step takes out of the ring is what its call has popped in it. -/
theorem Reader.Steps.taken {r : Ringbuf} (hr : r.WF) {copied : Bool} {rd : Reader} {res : Result}
    (h : Reader.Steps r copied rd res) :
    res.reader.popped.length = rd.popped.length + (r.abs.length - res.ring.abs.length) := by
  have hpop : ∀ {x xs}, r.abs = x :: xs →
      r.abs.length - (ringbufPop r Rbdata.zero).ring.abs.length = 1 := by
    intro x xs hcons
    obtain ⟨-, -, -, habs, -⟩ := ringbufPop_cons hr hcons Rbdata.zero
    rw [habs, hcons, List.length_cons]
    exact Nat.add_sub_cancel_left _ _
  cases h with
  | again | sleep | wake | drained =>
    rw [Nat.sub_self]
    rfl
  | start | restart =>
    rw [Nat.sub_self, startLoop, loopHead_popped]
    rfl
  | pop hcons =>
    rw [hpop hcons, loopHead_popped]
    exact List.length_append
  | fault hcons =>
    rw [hpop hcons]
    exact List.length_append

/-! ## The whole call

From its begin to its return, with pushes anywhere in between. What it takes is counted on
the ring itself, and turns out to be what its own books say. -/

/-- One step of a call in progress. -/
theorem step_inCall {s t : State} {a : Act} (hi : s.Lone) (hcall : a.inCall = true)
    (hs : device.step s a = some t) :
    t.Lone ∧ (t.reader 0).popped.length = (s.reader 0).popped.length + a.taken s t := by
  have hself : ∀ rd, Function.update s.reader 0 rd 0 = rd := fun _ => Function.update_self ..
  have hlone : LoneReader s a := by
    cases a with
    | push v => trivial
    | read p count nonblock => cases hcall
    | run p copied => exact of_decide_eq_true hcall
    | signal p => exact of_decide_eq_true hcall
  refine ⟨hi.step hlone hs, ?_⟩
  cases step_moves hi.inv.wf hs with
  | push v => rfl
  | read => cases hcall
  | @run p copied res hsteps =>
    obtain rfl : p = 0 := hlone
    change (Function.update s.reader 0 _ 0).popped.length = _
    rw [hself]
    exact hsteps.taken hi.inv.wf
  | @signal p c hwait =>
    obtain rfl : p = 0 := hlone
    change (Function.update s.reader 0 _ 0).popped.length = _
    rw [hself, hwait]
    rfl

/-- A call that has returned is over. -/
theorem exec_done {as : List Act} (hcall : ∀ a ∈ as, a.inCall = true) {s t : State} {c : Call}
    {ret : Int} (hdone : s.reader 0 = .done c ret) (hexec : device.exec s as = some t) :
    t.reader 0 = .done c ret := by
  induction as generalizing s with
  | nil =>
    obtain rfl := Option.some.inj hexec
    exact hdone
  | cons a as ih =>
    rw [Lts.exec_cons] at hexec
    obtain ⟨u, hs, hrest⟩ := Option.bind_eq_some_iff.mp hexec
    refine ih (fun b hb => hcall b (List.mem_cons_of_mem _ hb)) ?_ hrest
    have hin := hcall a List.mem_cons_self
    cases a with
    | push v =>
      obtain rfl := Option.some.inj hs
      exact hdone
    | read p count nonblock => cases hin
    | run p copied =>
      obtain rfl : p = 0 := of_decide_eq_true hin
      obtain ⟨res, hres, -⟩ := Option.map_eq_some_iff.mp hs
      rw [hdone] at hres
      cases hres
    | signal p =>
      obtain rfl : p = 0 := of_decide_eq_true hin
      simp only [device, step, hdone, reduceCtorEq] at hs

/-- **One step of a call.** It stays honest just if a copy that the step makes
succeeds, and otherwise the call has returned. -/
theorem honest_step {s t : State} {a : Act} (hi : s.Lone) (hhonest : (s.reader 0).Honest)
    (hcall : a.inCall = true) (hs : device.step s a = some t) :
    (CopySucceeds s a → (t.reader 0).Honest) ∧
      (¬ CopySucceeds s a → (∃ c ret, t.reader 0 = .done c ret) ∧ ¬ (t.reader 0).Honest) := by
  have hself : ∀ rd, Function.update s.reader 0 rd 0 = rd := fun _ => Function.update_self ..
  have hbooks := hi.inv.books 0
  cases step_moves hi.inv.wf hs with
  | push v => exact ⟨fun _ => hhonest, fun hnot => absurd trivial hnot⟩
  | read => cases hcall
  | @run p copied res hsteps =>
    obtain rfl : p = 0 := of_decide_eq_true hcall
    change (_ → (Function.update s.reader 0 _ 0).Honest) ∧
      (_ → (∃ c ret, Function.update s.reader 0 _ 0 = .done c ret) ∧
        ¬ (Function.update s.reader 0 _ 0).Honest)
    rw [hself]
    refine ⟨fun hcopy => hsteps.honest hi.inv.wf hbooks hi.enough hcopy, fun hnot => ?_⟩
    obtain ⟨hloop, hcopied⟩ := Classical.not_imp.mp hnot
    obtain rfl := Bool.eq_false_of_not_eq_true hcopied
    exact hsteps.not_honest hbooks hi.enough hloop
  | @signal p c hwait =>
    obtain rfl : p = 0 := of_decide_eq_true hcall
    refine ⟨fun _ => ?_, fun hnot => absurd trivial hnot⟩
    change (Function.update s.reader 0 _ 0).Honest
    rw [hwait] at hbooks
    rw [hself]
    rintro _ _ ⟨⟩
    exact Call.Did.reports_nothing hbooks (by decide)

/-- **Run lemma** for what a call takes: it is what it pops. -/
theorem popped_removed {as : List Act} (hcall : ∀ a ∈ as, a.inCall = true) {s t : State}
    (hi : s.Lone) (hexec : device.exec s as = some t) :
    (t.reader 0).popped.length = (s.reader 0).popped.length + removed s as := by
  induction as generalizing s with
  | nil =>
    obtain rfl := Option.some.inj hexec
    rfl
  | cons a as ih =>
    rw [Lts.exec_cons] at hexec
    obtain ⟨u, hs, hrest⟩ := Option.bind_eq_some_iff.mp hexec
    obtain ⟨hu, htaken⟩ := step_inCall hi (hcall a List.mem_cons_self) hs
    have hremoved : removed s (a :: as) = a.taken s u + removed u as := by
      rw [removed, hs]
    rw [ih (fun b hb => hcall b (List.mem_cons_of_mem _ hb)) hu hrest, htaken, hremoved,
      Nat.add_assoc]

/-- **Run lemma** for what it reports: a call stays honest exactly as long as its copies
succeed. -/
theorem honest_iff {as : List Act} (hcall : ∀ a ∈ as, a.inCall = true) {s t : State} (hi : s.Lone)
    (hhonest : (s.reader 0).Honest) (hexec : device.exec s as = some t) :
    (t.reader 0).Honest ↔ device.Along (fun s a _ => CopySucceeds s a) s as := by
  induction as generalizing s with
  | nil =>
    obtain rfl := Option.some.inj hexec
    exact iff_of_true hhonest trivial
  | cons a as ih =>
    rw [Lts.exec_cons] at hexec
    obtain ⟨u, hs, hrest⟩ := Option.bind_eq_some_iff.mp hexec
    have hin := hcall a List.mem_cons_self
    have hcall' : ∀ b ∈ as, b.inCall = true := fun b hb => hcall b (List.mem_cons_of_mem _ hb)
    obtain ⟨hgood, hbad⟩ := honest_step hi hhonest hin hs
    by_cases hcopy : CopySucceeds s a
    · rw [ih hcall' (step_inCall hi hin hs).1 (hgood hcopy) hrest]
      constructor
      · exact fun halong => Lts.Along.cons hs hcopy halong
      · rintro ⟨v, hv, -, halong⟩
        obtain rfl := Option.some.inj (hs.symm.trans hv)
        exact halong
    · obtain ⟨⟨c, ret, hdone⟩, hnot⟩ := hbad hcopy
      have hsame := exec_done hcall' hdone hrest
      refine iff_of_false (fun hhonest => hnot ?_) fun halong => ?_
      · rw [hdone, ← hsame]
        exact hhonest
      · obtain ⟨v, -, hsucceeds, -⟩ := halong
        exact hcopy hsucceeds

/-- **What a call reports.** For a call of `myfbread` begun in any state reached
with one reader, any pushes while it is in progress and any outcomes of its
copies: it reports exactly the samples it takes out of the ring if and only if
each of its copies succeeds. -/
theorem myfbread_reports_iff {s t : State} (h : device.Reach LoneReader s) {c c' : Call}
    (hbegin : s.reader 0 = .enter c) {as : List Act} (hcall : ∀ a ∈ as, a.inCall = true)
    (hexec : device.exec s as = some t) {ret : Int} (hdone : t.reader 0 = .done c' ret) :
    Reports ret (removed s as) ↔ device.Along (fun s a _ => CopySucceeds s a) s as := by
  have hlone : s.Lone := h.invariant State.Lone.init fun _ _ _ hi hlone hs => hi.step hlone hs
  have hhonest : (s.reader 0).Honest := by
    rw [hbegin]
    exact fun _ _ => nofun
  have hpopped : c'.popped.length = removed s as := by
    have hremoved := popped_removed hcall hlone hexec
    have hbooks := hlone.inv.books 0
    rw [hbegin] at hbooks
    rw [hdone, hbegin, Reader.popped, Reader.popped, hbooks.popped, Nat.zero_add] at hremoved
    exact hremoved
  rw [← honest_iff hcall hlone hhonest hexec, hdone, ← hpopped]
  constructor
  · rintro hreports _ _ ⟨⟩
    exact hreports
  · exact fun hhonest => hhonest _ _ rfl

/-- Three samples, and a call for all of them. -/
def threeSamples : List Act := List.replicate 3 (.push Rbdata.zero) ++ [.read 0 48 true]

theorem myfbread_reports_iff_threeSamples : ∃ s, device.exec device.init threeSamples = some s ∧
    (Reports 48 (removed s (List.replicate 4 (.run 0 true))) ↔
      device.Along (fun s a _ => CopySucceeds s a) s (List.replicate 4 (.run 0 true))) := by
  have hrun : device.Run LoneReader threeSamples := by
    decide +kernel
  exact ⟨_, rfl, myfbread_reports_iff (Lts.Reach.init.exec hrun rfl) rfl (by decide) rfl rfl⟩

/-- The copy of the second sample fails: two samples are gone, and the call
returns `-EFAULT`. -/
theorem myfbread_reports_fault : ∃ s t c, device.exec device.init threeSamples = some s ∧
    device.exec s [.run 0 true, .run 0 true, .run 0 false] = some t ∧
      t.reader 0 = .done c efault ∧
        removed s [.run 0 true, .run 0 true, .run 0 false] = 2 ∧
          ¬ Reports efault (removed s [.run 0 true, .run 0 true, .run 0 false]) := by
  refine ⟨_, _, _, rfl, rfl, rfl, rfl, fun h => ?_⟩
  exact absurd (h.2 (by decide)) (by decide)

end Fbread

end KernelDrvLearn
