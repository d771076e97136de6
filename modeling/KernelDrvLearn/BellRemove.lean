import KernelDrvLearn.BellLife

/-!
# Removing a `myfakebell` device

`myfbremove` frees the device with `kfree` and waits for nobody: not for the
files that are open, and not for the interrupt, which is released only when
`myfbremove` has returned and which nothing has disabled. A handler or a file
operation that comes after the `kfree` uses freed memory. None does exactly when
the `kfree` finds no file open and no handler running, and the device does not
interrupt before the release (`bell_removed`).
-/

namespace KernelDrvLearn

namespace BellLife

/-- No step of a handler or a user's call uses the device after `myfbremove` has
freed it. -/
def Act.Live (s : State) : Act → Prop
  | .irq _ => ∀ p, s.irq = some p → p.parts ≠ [] → s.driver.freed = false
  | .user a =>
    ∀ p, Fops.resumed s.files a = some p → p.parts ≠ [] → s.driver.freed = false
  | _ => True

/-- The `kfree` of `myfbremove` finds no file open and no handler running, and
the device does not interrupt after it. -/
def Act.Settled (s : State) : Act → Prop
  | .driver _ => s.driver = .kfree → Fops.Quiet s.files ∧ s.irq = none
  | .interrupt => s.driver.freed = false
  | _ => True

/-- After the `kfree` nobody is left: no file open and no handler running. -/
def State.Left (s : State) : Prop :=
  s.driver.freed = true → Fops.Quiet s.files ∧ s.irq = none

/-- The device is freed by that `kfree` only. -/
theorem driverStep_freed {s t : State} {ok : Bool} (h : driverStep s ok = some t)
    (ht : t.driver.freed = true) : s.driver.freed = true ∨ s.driver = .kfree := by
  rw [driverStep] at h
  split at h
  case h_23 hd => exact Or.inr hd
  case h_24 hd | h_25 hd => exact Or.inl (by rw [hd]; rfl)
  all_goals
    (try split at h) <;> cases h <;> cases ht

theorem State.Left.step {s t : State} {a : Act} (h : s.Left) (hsettled : a.Settled s)
    (hs : device.step s a = some t) : t.Left := by
  cases a with
  | driver ok =>
    have hs : driverStep s ok = some t := hs
    obtain ⟨hfiles, hirq, -⟩ := driverStep_frame hs
    intro hfreed
    rw [hfiles, hirq]
    rcases driverStep_freed hs hfreed with hfreed | hkfree
    · exact h hfreed
    · exact hsettled hkfree
  | interrupt =>
    obtain ⟨-, heq⟩ := Option.ite_none_right_eq_some.mp hs
    obtain rfl := Option.some.inj heq
    intro hfreed
    rw [Act.Settled] at hsettled
    exact absurd (hsettled.symm.trans hfreed) (by decide)
  | irq ret =>
    obtain ⟨p, hp, rfl⟩ := Option.map_eq_some_iff.mp hs
    intro hfreed
    obtain ⟨-, hnone⟩ := h hfreed
    rw [hnone] at hp
    cases hp
  | user a =>
    obtain ⟨hallows, files, hfiles, rfl⟩ := user_step hs
    intro hfreed
    obtain ⟨hquiet, -⟩ := h hfreed
    obtain ⟨f, rfl⟩ := Fops.step_quiet hquiet hfiles
    have hpublished : s.driver.published = true := hallows
    have hnot : ∀ d : Driver, d.freed = true → d.published = false := by
      rintro ⟨⟩ hd <;> first | rfl | cases hd
    rw [hnot _ hfreed] at hpublished
    cases hpublished

/-- So nobody uses the device after it was freed. -/
theorem State.Left.live {s : State} (h : s.Left) (a : Act) : a.Live s := by
  cases a with
  | irq ret =>
    intro p hp _
    by_contra hfreed
    obtain ⟨-, hnone⟩ := h (Bool.eq_true_of_not_eq_false hfreed)
    rw [hnone] at hp
    cases hp
  | user a =>
    intro p hp _
    by_contra hfreed
    obtain ⟨hquiet, -⟩ := h (Bool.eq_true_of_not_eq_false hfreed)
    rw [hquiet.resumed] at hp
    cases hp
  | driver ok => trivial
  | interrupt => trivial

/-! ## What goes wrong otherwise

A file open at the `kfree` can still be read or polled, and an interrupt that comes before
its release runs a handler; either of them is a use of freed memory, reached by a path
that only one party walks. -/

theorem atEntry_step {s t : State} {a : Act} (h : ∀ f, Fops.AtEntry fops (s.files f))
    (hs : device.step s a = some t) : ∀ f, Fops.AtEntry fops (t.files f) := by
  cases a with
  | driver ok =>
    have hs : driverStep s ok = some t := hs
    rw [(driverStep_frame hs).1]
    exact h
  | interrupt =>
    obtain ⟨-, heq⟩ := Option.ite_none_right_eq_some.mp hs
    obtain rfl := Option.some.inj heq
    exact h
  | irq ret =>
    obtain ⟨p, -, rfl⟩ := Option.map_eq_some_iff.mp hs
    exact h
  | user a =>
    obtain ⟨-, files, hfiles, rfl⟩ := user_step hs
    exact Fops.AtEntry.step (fun _ _ => nofun) (fun _ _ _ => nofun) h hfiles

/-- Every step of a handler uses the device. -/
theorem IrqPlace.parts_ne_nil (p : IrqPlace) : p.parts ≠ [] := by
  cases p <;> nofun

/-- A file not closed when the device is freed uses it, or can be made to: an
ioctl with an unknown number only writes to the log. -/
theorem use_of_file {s : State} {f : ℕ} (hentry : Fops.AtEntry fops (s.files f))
    (hfreed : s.driver.freed = true) (hf : s.files f ≠ .closed) :
    ∃ as u b v, device.exec s as = some u ∧ device.step u b = some v ∧ ¬ b.Live u := by
  have huse : ∀ (u : State) (a : FileAct Op) (p : Place), u.driver.freed = true →
      Fops.resumed u.files a = some p → p.parts ≠ [] → (∀ g, a ≠ .openFile g) →
        ∃ v, device.step u (.user a) = some v ∧ ¬ Act.Live u (.user a) := by
    intro u a p hfreed hp hparts hopen
    obtain ⟨files, hstep⟩ := Fops.exists_resume (F := fops) hp
    refine ⟨_, step_user (allows_of_ne hopen) hstep, fun hlive => ?_⟩
    have hnot := hlive p hp hparts
    rw [hfreed] at hnot
    cases hnot
  rcases Fops.exists_entry hentry hf .invalid with
    ⟨a, p, hp, hplace, hopen⟩ | ⟨a, files, data, hcall, hp, hopen⟩
  · have hparts : p.parts ≠ [] := by
      rcases hplace with rfl | ⟨data, rfl⟩ <;> exact List.cons_ne_nil _ _
    obtain ⟨v, hstep, hlive⟩ := huse s a p hfreed hp hparts hopen
    exact ⟨[], s, _, v, rfl, hstep, hlive⟩
  · obtain ⟨v, hstep, hlive⟩ :=
      huse { s with files := files } a _ hfreed hp (List.cons_ne_nil _ _) hopen
    refine ⟨[.user (.call f .invalid)], _, _, v, ?_, hstep, hlive⟩
    rw [Lts.exec_cons, step_user rfl hcall]
    rfl

/-- From a step that is not settled, a use of the freed device can follow. -/
theorem unsettled {s t : State} {a : Act} (hentry : ∀ f, Fops.AtEntry fops (s.files f))
    (hbad : ¬ a.Settled s) (hs : device.step s a = some t) :
    ∃ as u b v, device.exec t as = some u ∧ device.step u b = some v ∧ ¬ b.Live u := by
  have hhandler : ∀ u : State, u.driver.freed = true → u.irq ≠ none →
      ∃ as w b v, device.exec u as = some w ∧ device.step w b = some v ∧ ¬ b.Live w := by
    intro u hfreed hirq
    obtain ⟨p, hp⟩ := Option.ne_none_iff_exists'.mp hirq
    refine ⟨[], u, .irq 0, { u with irq := p.next 0 }, rfl, ?_, fun hlive => ?_⟩
    · change u.irq.map (fun p => { u with irq := p.next 0 }) = _
      rw [hp]
      rfl
    · have hnot := hlive p hp p.parts_ne_nil
      rw [hfreed] at hnot
      cases hnot
  cases a with
  | driver ok =>
    obtain ⟨hkfree, hleft⟩ := Classical.not_imp.mp hbad
    have hs : driverStep s ok = some t := hs
    rw [driverStep, hkfree] at hs
    obtain rfl := Option.some.inj hs
    by_cases hirq : s.irq = none
    · obtain ⟨f, hf⟩ := not_forall.mp fun hquiet => hleft ⟨hquiet, hirq⟩
      exact use_of_file (s := s.goto .devInfo) (hentry f) rfl hf
    · exact hhandler (s.goto .devInfo) rfl hirq
  | interrupt =>
    obtain ⟨-, heq⟩ := Option.ite_none_right_eq_some.mp hs
    obtain rfl := Option.some.inj heq
    exact hhandler _ (Bool.eq_true_of_not_eq_false hbad) (Option.some_ne_none _)
  | irq ret => exact absurd trivial hbad
  | user a => exact absurd trivial hbad

/-- **When nobody uses a freed device.** In every state reached with a `kfree`
that finds no file open and no handler running, and no interrupt between it and
the release of the interrupt: no step of a handler or of a file operation uses
the device after it was freed. From a step that does not meet this, a step that
does use it can follow. -/
theorem bell_removed {s : State} (h : device.Reach (fun s a => a.Settled s) s) :
    (∀ a t, device.step s a = some t → a.Live s) ∧
      ∀ a t, ¬ a.Settled s → device.step s a = some t →
        ∃ as u b v, device.exec t as = some u ∧ device.step u b = some v ∧ ¬ b.Live u := by
  have hinit : State.Left device.init := nofun
  have hleft : s.Left := h.invariant hinit fun _ _ _ hi hsettled hs => hi.step hsettled hs
  have hclosed : ∀ f, Fops.AtEntry fops (device.init.files f) := fun _ => trivial
  have hentry : ∀ f, Fops.AtEntry fops (s.files f) :=
    h.invariant (I := fun s => ∀ f, Fops.AtEntry fops (s.files f)) hclosed
      fun _ _ _ hi _ hs => atEntry_step hi hs
  exact ⟨fun a _ _ => hleft.live a, fun _ _ hbad hs => unsettled hentry hbad hs⟩

/-- The probe succeeds, and a user opens the node and leaves it open. -/
def opened : List Act :=
  List.replicate 13 (Act.driver true) ++ [Act.user (.openFile 0), .user (.resume 0 0 0)]

/-- `myfbremove` up to its `kfree`, with that included. -/
def removing : List Act := List.replicate 5 (.driver true)

/-- The file is released and the interrupt handled before `myfbremove` is
called. -/
def settledRemove : List Act :=
  opened ++ [Act.interrupt, .irq 0, .irq 0, .irq 0, .irq 0, .user (.release 0),
    .user (.resume 0 0 0)] ++ removing

theorem bell_removed_settled : ∃ s, device.exec device.init settledRemove = some s ∧
    s.driver.freed = true ∧ Act.Live s (.driver true) := by
  have hrun : device.Run (fun s a => a.Settled s) settledRemove := by
    -- the probe
    refine ⟨_, rfl, nofun, _, rfl, nofun, _, rfl, nofun, _, rfl, nofun, _, rfl, nofun, _, rfl,
      nofun, _, rfl, nofun, _, rfl, nofun, _, rfl, nofun, _, rfl, nofun, _, rfl, nofun, _, rfl,
      nofun, _, rfl, nofun, ?_⟩
    -- the file and the interrupt
    refine ⟨_, rfl, trivial, _, rfl, trivial, _, rfl, rfl, _, rfl, trivial, _, rfl, trivial, _,
      rfl, trivial, _, rfl, trivial, _, rfl, trivial, _, rfl, trivial, ?_⟩
    -- `myfbremove`
    refine ⟨_, rfl, nofun, _, rfl, nofun, _, rfl, nofun, _, rfl, nofun, _, rfl, fun _ => ⟨?_, rfl⟩,
      trivial⟩
    rintro (_ | f) <;> rfl
  exact ⟨_, rfl, rfl, (bell_removed (Lts.Reach.init.exec hrun rfl)).1 (.driver true) _ rfl⟩

/-- With the file open, an ioctl after the `kfree` uses the device; with no file
ever opened, an interrupt before its release does. -/
theorem bell_removed_use :
    (∃ s, device.exec device.init (opened ++ removing ++ [Act.user (.call 0 .getStatus)]) = some s ∧
      (device.step s (.user (.resume 0 0 0))).isSome ∧
        ¬ Act.Live s (.user (.resume 0 0 0))) ∧
    (∃ s, device.exec device.init
      (List.replicate 13 (Act.driver true) ++ removing ++ [Act.interrupt]) = some s ∧
        (device.step s (.irq 0)).isSome ∧ ¬ Act.Live s (.irq 0)) := by
  refine ⟨⟨_, rfl, rfl, fun h => ?_⟩, ⟨_, rfl, rfl, fun h => ?_⟩⟩
  · exact absurd (h _ rfl (List.cons_ne_nil _ _)) (by decide)
  · exact absurd (h _ rfl (IrqPlace.parts_ne_nil _)) (by decide)

end BellLife

end KernelDrvLearn
