import KernelDrvLearn.BellLife

/-!
# When a `myfakebell` device is published

`myfbprobe` calls `cdev_add` and `device_create` first and initialises what the
file operations use afterwards, and when a later acquisition fails it frees the
device whether or not a file is open. So a user can find a part of the device
missing, or the whole of it; exactly the calls made too early, and the files
open when the probe unwinds, are to blame (`bell_published`).
-/

namespace KernelDrvLearn

namespace BellLife

/-- The parts that `myfbprobe` initialises with the node already there. -/
def Part.late : Part → Bool
  | base | mybelllock | myrb | wq => true
  | pdev | pcdev => false

/-- The parts that a call uses from this place on. -/
def Place.needs : Place → List Part
  | fbopen | fbrelease | copyToUser | devErr _ | clearAlarm => []
  | statusLock | statusStatus | statusThreshold | statusSample | statusUnlock
  | copyFromUser | thresholdLock | thresholdSet | thresholdUnlock => [.mybelllock, .base]
  | statsSize | statsLost | resetBuffer | readSizeAgain _ | readPop _ _ | readCopy _ _ => [.myrb]
  | readSize _ nonblock => if nonblock = true then [.myrb] else [.myrb, .wq]
  | readWait _ | readSleep _ => [.myrb, .wq]
  | pollWait | pollLock | pollStatus | pollUnlock _ | pollSize _ =>
    [.wq, .mybelllock, .base, .myrb]

/-- Is every part in the list initialised? -/
def State.Has (s : State) (parts : List Part) : Prop := ∀ part ∈ parts, part ∈ s.ready

/-- No step of a user's call uses a part not yet initialised, and none is made
after the probe has failed. -/
def Act.Published (s : State) : Act → Prop
  | .user a =>
    s.driver ≠ .failed ∧
      ∀ p, Fops.resumed s.files a = some p → s.Has (p.parts.filter Part.late)
  | _ => True

/-- A user makes a call only when the parts it uses are initialised, and the
probe comes to its `kfree` only when no file is open. -/
def Act.Timely (s : State) : Act → Prop
  | .user (.call _ op) => s.Has op.entry.needs
  | .driver _ => s.driver = .idaError → Fops.Quiet s.files
  | _ => True

/-! ## What the calls need

Each call uses certain parts on its way, and which ones can be told from the place it
starts at. A step leads to places that need no more, so a call that is made in time stays
in time. -/

/-- A step uses what its call needs. -/
theorem Place.parts_subset_needs (p : Place) : p.parts.filter Part.late ⊆ p.needs := by
  cases p with
  | readSize count nonblock => cases nonblock <;> simp [parts, needs, Part.late, List.filter_cons]
  | _ => simp [parts, needs, Part.late, List.filter_cons]

theorem readLoop_goto {left offset : ℕ} {q : Place} (h : readLoop left offset = .goto q) :
    q = .readPop left offset := by
  rw [readLoop] at h
  split at h
  · cases h
  · exact (Next.goto.inj h).symm

/-- A call needs no more as it goes on. -/
theorem Place.needs_next {p q : Place} {ret : ℕ} (h : p.next ret = .goto q) :
    q.needs ⊆ p.needs := by
  cases p with
  | copyToUser | copyFromUser | readWait count | readPop left offset =>
    rw [next] at h
    split at h <;> cases h <;> simp [needs]
  | readSize count nonblock =>
    rw [next] at h
    cases nonblock with
    | false =>
      split at h
      · cases h
        simp [needs]
      · rw [readLoop_goto h]
        simp [needs]
    | true =>
      split at h
      · cases h
      · rw [readLoop_goto h]
        simp [needs]
  | readSleep count =>
    rcases ret with _ | _ | ret <;> cases h <;> simp [needs]
  | readSizeAgain count =>
    rw [readLoop_goto h]
    simp [needs]
  | readCopy left offset =>
    rw [next] at h
    split at h
    · cases h
      simp [needs]
    · rw [readLoop_goto h]
      simp [needs]
  | _ => cases h <;> simp [needs]

/-! ## The run of a probe

Where no file can be open yet, or any more: before `cdev_add`, and behind the `kfree` of a
probe that failed. -/

/-- Where no file can be open, because there is no node. -/
def Driver.unopened : Driver → Bool
  | kzalloc | idaAlloc | cdevAdd | failed => true
  | _ => false

/-- The probe has failed only after its `kfree`, or for lack of memory. -/
theorem driverStep_unopened {s t : State} {ok : Bool} (h : driverStep s ok = some t)
    (ht : t.driver.unopened = true) : s.driver.unopened = true ∨ s.driver = .idaError := by
  rw [driverStep] at h
  split at h
  case h_1 hd | h_2 hd | h_3 hd | h_17 hd => simp [hd, Driver.unopened]
  all_goals
    (try split at h) <;> cases h <;> cases ht

/-! ## Published when complete

With users that wait until what they use is there, every part a call in progress needs is
initialised. A part is never lost again, so this lasts until the device is freed; and
then, with no file open, there is no call. -/

/-- What holds as long as users are timely. -/
structure State.Orderly (s : State) : Prop where
  /-- the calls in progress find what they need -/
  calls : Fops.Calls (fun p => s.Has p.needs) s.files
  /-- before the node is there and after a failed probe, no file is open -/
  quiet : s.driver.unopened = true → Fops.Quiet s.files

theorem State.Orderly.init : BellLife.init.Orderly where
  calls := Fops.Quiet.calls fun _ => rfl
  quiet := fun _ _ => rfl

theorem State.Orderly.step {s t : State} {a : Act} (h : s.Orderly) (htimely : a.Timely s)
    (hs : device.step s a = some t) : t.Orderly := by
  cases a with
  | driver ok =>
    have hs : driverStep s ok = some t := hs
    obtain ⟨hfiles, -, hready⟩ := driverStep_frame hs
    refine ⟨?_, fun ht => ?_⟩
    · rw [hfiles]
      exact fun f p hp part hpart => hready (h.calls f p hp part hpart)
    · rw [hfiles]
      rcases driverStep_unopened hs ht with hunopened | hfree
      · exact h.quiet hunopened
      · exact htimely hfree
  | interrupt =>
    obtain ⟨-, heq⟩ := Option.ite_none_right_eq_some.mp hs
    obtain rfl := Option.some.inj heq
    exact ⟨h.calls, h.quiet⟩
  | irq ret =>
    obtain ⟨p, -, rfl⟩ := Option.map_eq_some_iff.mp hs
    exact ⟨h.calls, h.quiet⟩
  | user a =>
    obtain ⟨hallows, files, hfiles, rfl⟩ := user_step hs
    refine ⟨?_, fun hunopened => ?_⟩
    · refine h.calls.step (fun _ hp => absurd hp List.not_mem_nil)
        (fun _ _ hp => absurd hp List.not_mem_nil) ?_ ?_ hfiles
      · rintro f op data rfl
        exact htimely
      · exact fun p ret q hp hnext part hpart => hp part (Place.needs_next hnext hpart)
    · obtain ⟨f, rfl⟩ := Fops.step_quiet (h.quiet hunopened) hfiles
      have hpublished : s.driver.published = true := hallows
      have hnot : ∀ d : Driver, d.unopened = true → d.published = false := by
        rintro ⟨⟩ hd <;> first | rfl | cases hd
      rw [hnot _ hunopened] at hpublished
      cases hpublished

/-- In such a state every step is as it should be. -/
theorem State.Orderly.published {s t : State} {a : Act} (h : s.Orderly)
    (hs : device.step s a = some t) : a.Published s := by
  cases a with
  | user a =>
    obtain ⟨hallows, files, hfiles, -⟩ := user_step hs
    refine ⟨fun hfailed => ?_, fun p hp part hpart => ?_⟩
    · rw [hfailed] at hallows
      obtain ⟨f, rfl⟩ := Fops.step_quiet (h.quiet (by rw [hfailed]; rfl)) hfiles
      cases hallows
    · exact h.calls.resumed hp part (p.parts_subset_needs hpart)
  | driver ok => trivial
  | interrupt => trivial
  | irq ret => trivial

/-! ## What goes wrong otherwise

The condition cannot be done without: a call that is made too early has a path to a step
that uses what is not there, and a file that is open when the device is freed can be used
afterwards. -/

/-- Whatever a call needs, some path of it comes to a step that uses it. -/
theorem Op.uses (op : Op) {part : Part} (h : part ∈ op.entry.needs) :
    ∃ rets q, fops.walk op.entry rets = some q ∧ part ∈ q.parts.filter Part.late := by
  cases op with
  | getStatus =>
    rcases List.mem_pair.mp h with rfl | rfl
    · exact ⟨[], _, rfl, by decide⟩
    · exact ⟨[0], _, rfl, by decide⟩
  | setThreshold =>
    rcases List.mem_pair.mp h with rfl | rfl
    · exact ⟨[0], _, rfl, by decide⟩
    · exact ⟨[0, 0], _, rfl, by decide⟩
  | clearAlarm | invalid => exact absurd h List.not_mem_nil
  | getStats | resetBuffer =>
    obtain rfl := List.mem_singleton.mp h
    exact ⟨[], _, rfl, by decide⟩
  | read count nonblock =>
    cases nonblock with
    | true =>
      obtain rfl := List.mem_singleton.mp h
      exact ⟨[], _, rfl, List.mem_singleton_self _⟩
    | false =>
      rcases List.mem_pair.mp h with rfl | rfl
      · exact ⟨[], _, rfl, List.mem_singleton_self _⟩
      -- the ring is empty
      · exact ⟨[0, 0], _, rfl, List.mem_cons_self⟩
  | poll =>
    have hcases : part = .wq ∨ part = .mybelllock ∨ part = .base ∨ part = .myrb := by
      simpa [Op.entry, Place.needs] using h
    rcases hcases with rfl | rfl | rfl | rfl
    · exact ⟨[], _, rfl, by decide⟩
    · exact ⟨[0], _, rfl, by decide⟩
    · exact ⟨[0, 0], _, rfl, by decide⟩
    · exact ⟨[0, 0, 0, 0], _, rfl, by decide⟩

/-- From a step that is not timely, a step that should not be can follow. -/
theorem untimely {s t : State} {a : Act} (hbad : ¬ a.Timely s) (hs : device.step s a = some t) :
    ∃ as u b v, device.exec t as = some u ∧ device.step u b = some v ∧ ¬ b.Published u := by
  rcases a with ok | _ | ret | ⟨f | ⟨f, op⟩ | ⟨f, i, ret⟩ | f⟩
  case driver =>
    -- the probe frees the device with file `f` not closed
    obtain ⟨hfree, hquiet⟩ := Classical.not_imp.mp hbad
    obtain ⟨f, hf⟩ := not_forall.mp hquiet
    have hs : driverStep s ok = some t := hs
    rw [driverStep, hfree] at hs
    obtain rfl := Option.some.inj hs
    obtain ⟨a, files, hstep, hopen⟩ := Fops.exists_step (F := fops) hf .clearAlarm
    exact ⟨[], s.goto .failed, .user a, _, rfl, step_user (allows_of_ne hopen) hstep,
      fun hpub => hpub.1 rfl⟩
  case user.call =>
    -- the call goes on to the step that uses the missing part
    obtain ⟨part, hpart, hmissing⟩ : ∃ part ∈ op.entry.needs, part ∉ s.ready := by
      by_contra hall
      refine hbad fun part hpart => ?_
      by_contra hmissing
      exact hall ⟨part, hpart, hmissing⟩
    obtain ⟨-, files, hfiles, rfl⟩ := user_step hs
    obtain ⟨data, calls, -, rfl⟩ := Fops.call_opened hfiles
    obtain ⟨rets, q, hwalk, hq⟩ := op.uses hpart
    obtain ⟨u, hexec, -, hready, hres⟩ := exec_walk
      (s := { s with files := Function.update s.files f (.opened data (calls ++ [op.entry])) })
      (Function.update_self ..) List.getElem?_concat_length hwalk
    obtain ⟨files', hstep⟩ := Fops.exists_resume (F := fops) (hres 0)
    refine ⟨_, u, .user (.resume f calls.length 0), _, hexec, step_user rfl hstep, fun hpub => ?_⟩
    have hmem := hpub.2 q (hres 0) part hq
    rw [hready] at hmem
    exact hmissing hmem
  all_goals exact absurd trivial hbad

/-- **When a device is published complete.** In every state reached with users
that make their calls when the parts they use are initialised, and no file open
when a failed probe frees the device: no step uses a part that is not
initialised, and none is made after the probe has failed. From a step that is
not timely in this way, one that uses a missing part, or the freed device, can
follow. -/
theorem bell_published {s : State} (h : device.Reach (fun s a => a.Timely s) s) :
    (∀ a t, device.step s a = some t → a.Published s) ∧
      ∀ a t, ¬ a.Timely s → device.step s a = some t →
        ∃ as u b v, device.exec t as = some u ∧ device.step u b = some v ∧ ¬ b.Published u := by
  have hinit : State.Orderly device.init := State.Orderly.init
  have horderly : s.Orderly := h.invariant hinit fun _ _ _ hi htimely hs => hi.step htimely hs
  exact ⟨fun _ _ hs => horderly.published hs, fun _ _ hbad hs => untimely hbad hs⟩

/-- The probe goes as far as `cdev_add`, and the node is there. -/
def cdevAdded : List Act := [.driver true, .driver true, .driver true]

/-- A user opens the node then, and waits with the `poll` until all is there. -/
def politePoll : List Act :=
  cdevAdded ++ [Act.user (.openFile 0), .user (.resume 0 0 0)] ++
    List.replicate 7 (Act.driver true) ++ [Act.user (.call 0 .poll)]

theorem bell_published_politePoll : ∃ s, device.exec device.init politePoll = some s ∧
    Act.Published s (.user (.resume 0 0 0)) := by
  have hrun : device.Run (fun s a => a.Timely s) politePoll := by
    refine ⟨_, rfl, nofun, _, rfl, nofun, _, rfl, nofun, _, rfl, trivial, _, rfl, trivial, ?_⟩
    refine ⟨_, rfl, nofun, _, rfl, nofun, _, rfl, nofun, _, rfl, nofun, _, rfl, nofun, ?_⟩
    refine ⟨_, rfl, nofun, _, rfl, nofun, _, rfl, ?_, trivial⟩
    exact fun part hpart => (by decide : ∀ part ∈ Op.poll.entry.needs, part ∈ _) part hpart
  refine ⟨_, rfl, (bell_published (Lts.Reach.init.exec hrun rfl)).1 _ _ rfl⟩

/-- A `poll` right after `cdev_add` uses `wq`, and a file opened then outlives
the device when `platform_get_resource` fails. -/
theorem bell_published_early :
    (∃ s, device.exec device.init (cdevAdded ++ [Act.user (.openFile 0), .user (.resume 0 0 0),
      .user (.call 0 .poll)]) = some s ∧ (device.step s (.user (.resume 0 0 0))).isSome ∧
        ¬ Act.Published s (.user (.resume 0 0 0))) ∧
    (∃ s, device.exec device.init (cdevAdded ++ [Act.user (.openFile 0), .user (.resume 0 0 0),
      .driver true, .driver false, .driver true, .driver true, .driver true, .driver true]) =
        some s ∧ (device.step s (.user (.release 0))).isSome ∧
        ¬ Act.Published s (.user (.release 0))) := by
  refine ⟨⟨_, rfl, rfl, fun h => ?_⟩, ⟨_, rfl, rfl, fun h => h.1 rfl⟩⟩
  exact absurd (h.2 _ rfl .wq (by decide)) (by decide)

end BellLife

end KernelDrvLearn
