import Mathlib.Algebra.Ring.Nat
import KernelDrvLearn.PanicbUrb

/-!
# Open files of the panic button

`panicb_open` copies the pointer to the device into `file->private_data`, and
nothing ever clears it: the test of `panicb_ioctl` for a null pointer never
fires. `panicb_disconnect`, and the `error` label of `panicb_probe`, free the
device whoever has it open, so an ioctl on a file that was open at the
`usb_deregister_dev` uses it after that. With no file open there, no ioctl comes
later (`panicb_unplugged`).
-/

namespace KernelDrvLearn

namespace Panicb

/-! ## What should hold

Two promises to the users: no step uses what was freed, and an ioctl that comes too late
is refused. Both come down to one thing, that nobody has the node open when it is
deregistered. -/

/-- Past `usb_deregister_dev`, or failed before the node was there. -/
def Driver.gone : Driver → Bool
  | error _ | failed | killUrb | killWait | free _ | disconnected => true
  | _ => false

/-- At `usb_deregister_dev`, of a disconnect or a failed probe. -/
def Driver.deregisters : Driver → Bool
  | deregisterFailed | deregister _ => true
  | _ => false

/-- A call at this place returns this. -/
def Place.Returns (p : Place) (value : Int) : Prop := ∀ ret, p.next ret = .ret value

/-- The step uses nothing that was freed before. -/
def Act.Live (s : State) : Act → Prop
  | .user a => ∀ p, Fops.resumed s.files a = some p → ∀ o ∈ p.uses, (s.heap o).Live
  | _ => True

/-- An ioctl that starts when the device is gone returns `-ENODEV`. -/
def Act.Refused (s : State) : Act → Prop
  | .user (.call f cmd) => s.driver.gone = true → ∀ data calls, s.files f = .opened data calls →
    (fops.entry data cmd).Returns enodev
  | _ => True

/-- `usb_deregister_dev` finds no file open. -/
def Act.Settled (s : State) : Act → Prop
  | .driver _ => s.driver.deregisters = true → ∀ f data calls, s.files f ≠ .opened data calls
  | _ => True

/-! ## The files

Whatever the driver does, the pointer that an open has put into a file stays there. So the
test for a null pointer decides nothing: the only way to refuse a call is to have no file.
-/

/-- The files of any run: opens and releases are single steps, an open in
progress holds `minor_rwsem`, and the pointer is there in each open file. -/
structure State.Files (s : State) : Prop where
  entry : ∀ f, Fops.AtEntry fops (s.files f)
  opening : ∀ f p, s.files f = .opening p → f ∈ s.opening
  data : ∀ f data calls, s.files f = .opened data calls → data = some ()

variable {eps : List UsbEndpointDescriptor} {fresh : ℕ → Byte} {s t : State}

theorem fops_open (ret : ℕ) (q : Place) : fops.next fops.openEntry ret ≠ .goto q := by
  cases ret <;> nofun

theorem fops_opened (p : Place) (ret : ℕ) (data : PrivateData)
    (h : fops.next p ret = .opened data) : data = some () := by
  change p.next ret = .opened data at h
  rw [Place.next.eq_def] at h
  split at h <;> (try split at h) <;> cases h
  rfl

/-- The others leave the files alone. -/
theorem step_files {a : Act} (hs : (device eps fresh).step s a = some t)
    (hother : ∀ b, a ≠ .user b) : t.files = s.files ∧ t.opening = s.opening := by
  cases a with
  | driver ok =>
    have hs : driverStep eps fresh s ok = some t := hs
    rw [Panicb.driverStep] at hs
    split at hs <;> (try split at hs) <;> (try split at hs) <;>
      first
      | obtain rfl := Option.some.inj hs; exact ⟨rfl, rfl⟩
      | cases hs
  | complete status data =>
    obtain ⟨-, heq⟩ := Option.ite_none_right_eq_some.mp hs
    obtain rfl := Option.some.inj heq
    exact ⟨rfl, rfl⟩
  | callback i ok =>
    obtain ⟨p, -, hs⟩ := Option.map_eq_some_iff.mp hs
    cases p <;> dsimp only at hs
    case submit => split at hs <;> obtain rfl := hs <;> exact ⟨rfl, rfl⟩
    all_goals
      obtain rfl := hs
      exact ⟨rfl, rfl⟩
  | user b => exact absurd rfl (hother b)

theorem State.Files.step {a : Act} (h : s.Files) (hs : (device eps fresh).step s a = some t) :
    t.Files := by
  by_cases huser : ∃ b, a = .user b
  · obtain ⟨b, rfl⟩ := huser
    obtain ⟨files, opening, hfiles, rfl, hopen, hkeep⟩ := userStep_cases hs
    refine ⟨Fops.AtEntry.step fops_open (fun _ _ _ => nofun) h.entry hfiles, fun f p hf => ?_,
      fun f data calls hf => ?_⟩
    · rcases Fops.step_opening fops_open h.entry hfiles hf with rfl | ⟨hne, hold⟩
      · exact (hopen f rfl).2
      · exact hkeep f (h.opening f p hold) hne
    · exact Fops.step_data fops_opened h.data hfiles hf
  · obtain ⟨hfiles, hopening⟩ := step_files hs fun b hb => huser ⟨b, hb⟩
    refine ⟨?_, ?_, ?_⟩ <;> rw [hfiles]
    · exact h.entry
    · rw [hopening]
      exact h.opening
    · exact h.data

/-! ## The node

With settled steps nobody has a file of a node that is gone, and so no call is made that
could use the device. While the node is there, so is the device. -/

/-- Where the node is not there, nobody has it open. -/
def State.Private (s : State) : Prop := s.driver.published = false → ∀ f, (s.files f).Idle

/-- The node goes with `usb_deregister_dev`, which waits for the opens. -/
theorem driverStep_published {ok : Bool} (hs : driverStep eps fresh s ok = some t)
    (hold : s.driver.published = true) (hnew : t.driver.published = false) :
    s.driver.deregisters = true ∧ s.opening = ∅ := by
  rw [Panicb.driverStep] at hs
  rcases hd : s.driver <;> simp only [hd] at hs
  case submitUrb => split at hs <;> obtain rfl := Option.some.inj hs <;> cases hnew
  case deregisterFailed | deregister => exact ⟨rfl, (Option.ite_none_right_eq_some.mp hs).1⟩
  case bound | getIntfdata | clearIntfdata =>
    obtain rfl := Option.some.inj hs
    cases hnew
  all_goals
    rw [hd] at hold
    cases hold

theorem State.Private.step {a : Act} (h : s.Private) (hfiles : s.Files) (hsettled : a.Settled s)
    (hs : (device eps fresh).step s a = some t) : t.Private := by
  intro hnew
  cases a with
  | driver ok =>
    rw [(step_files hs fun _ => nofun).1]
    by_cases hold : s.driver.published = true
    · obtain ⟨hderegisters, hopening⟩ := driverStep_published hs hold hnew
      intro f
      rcases hf : s.files f with _ | p | ⟨data, calls⟩ | p
      · trivial
      · have hmem := hfiles.opening f p hf
        rw [hopening] at hmem
        exact absurd hmem (Finset.notMem_empty _)
      · exact absurd hf (hsettled hderegisters f data calls)
      · trivial
    · exact h (Bool.eq_false_of_not_eq_true hold)
  | complete status data =>
    rw [(step_other hs fun _ => nofun).1] at hnew
    rw [(step_files hs fun _ => nofun).1]
    exact h hnew
  | callback i ok =>
    rw [(step_other hs fun _ => nofun).1] at hnew
    rw [(step_files hs fun _ => nofun).1]
    exact h hnew
  | user b =>
    obtain ⟨files, opening, hstep, rfl, hopen, -⟩ := userStep_cases hs
    rcases Fops.step_idle (h hnew) hstep with ⟨f, rfl⟩ | hidle
    · exact absurd ((hopen f rfl).1.symm.trans hnew) nofun
    · exact hidle

/-- The device is there with the node. -/
theorem State.Ok.live_dev (h : s.Ok) (hpublished : s.driver.published = true) :
    (s.heap .dev).Live := by
  have hstage : ∀ p : Driver, p.published = true → p.stage = 6 ∧ p.released .dev = false := by
    rintro ⟨⟩ hp <;> first | exact ⟨rfl, rfl⟩ | cases hp
  obtain ⟨hsix, hreleased⟩ := hstage _ hpublished
  exact h.freed.live hreleased (h.built.allocated .dev (by rw [hsix]; decide))

/-- A call that uses something is made on an open file. -/
theorem State.Files.idle_uses (h : s.Files) {a : FileAct Op} {p : Place}
    (hp : Fops.resumed s.files a = some p) (hidle : (s.files a.file).Idle) : p.uses = [] := by
  cases a with
  | resume f i ret =>
    have hmem : p ∈ (s.files f).running := List.mem_of_getElem? hp
    have hentry := h.entry f
    change (s.files f).Idle at hidle
    rcases hf : s.files f with _ | q | ⟨data, calls⟩ | q <;> rw [hf] at hidle hmem hentry
    · exact absurd hmem List.not_mem_nil
    · cases hidle
    · cases hidle
    · obtain ⟨data, rfl⟩ := hentry
      rw [List.mem_singleton.mp hmem]
      rfl
  | openFile f => cases hp
  | call f op => cases hp
  | release f => cases hp

theorem Place.eq_dev {p : Place} {o : Object} (h : o ∈ p.uses) : o = .dev := by
  cases p <;> first | exact List.mem_singleton.mp h | exact absurd h List.not_mem_nil

theorem State.Private.live (h : s.Private) (hok : s.Ok) (hfiles : s.Files) (a : Act) :
    a.Live s := by
  cases a with
  | user a =>
    intro p hp o ho
    rw [Place.eq_dev ho]
    refine hok.live_dev (Bool.eq_true_of_not_eq_false fun hnot => ?_)
    rw [hfiles.idle_uses hp (h hnot _)] at ho
    exact absurd ho List.not_mem_nil
  | driver ok => trivial
  | complete status data => trivial
  | callback i ok => trivial

theorem State.Private.refused (h : s.Private) (a : Act) : a.Refused s := by
  have hgone : ∀ p : Driver, p.gone = true → p.published = false := by
    rintro ⟨⟩ hp <;> first | rfl | cases hp
  cases a with
  | user a =>
    cases a with
    | call f cmd =>
      intro hs data calls hf
      have hidle := h (hgone _ hs) f
      rw [hf] at hidle
      cases hidle
    | openFile f => trivial
    | resume f i ret => trivial
    | release f => trivial
  | driver ok => trivial
  | complete status data => trivial
  | callback i ok => trivial

/-! ## What goes wrong otherwise

With a file open at the deregistration the teardown goes on as it would: the URB comes
back, the callbacks end, the four frees follow one another. None of these waits for the
file, and afterwards its ioctl takes a lock in freed memory. -/

/-- The next step may use what was freed already. -/
def Unsafe (eps : List UsbEndpointDescriptor) (fresh : ℕ → Byte) (s : State) : Prop :=
  ∃ a t, (device eps fresh).step s a = some t ∧ ¬ a.Live s

/-- How many steps a callback may still take. -/
def Callback.left : Callback → ℕ
  | start => 7
  | lock => 6
  | report => 5
  | unlock => 4
  | prInfo => 3
  | submit => 2
  | ret => 1

/-- How many steps the URB may still cause, when no submission is accepted. -/
def State.pending (s : State) : ℕ := 8 * s.flights + (s.callbacks.map Callback.left).sum

/-- How many steps probe or disconnect has left, past `usb_deregister_dev`. -/
def Driver.left : Driver → ℕ
  | killUrb => 6
  | killWait => 5
  | error o | free o => 4 - o.rank
  | _ => 0

theorem Urb.left_switch (urb : Urb) : urb.switch.left < Callback.start.left := by
  rw [Urb.switch]
  split
  · decide
  · split
    · split <;> decide
    · split <;> decide

variable (eps fresh) in
/-- With the URB in flight or a callback running, it goes on. -/
theorem exists_pending (hbusy : s.Busy) :
    ∃ a t, (device eps fresh).step s a = some t ∧ (∀ ok, a ≠ .driver ok) ∧ (∀ b, a ≠ .user b) ∧
      t.pending < s.pending := by
  rcases hcallbacks : s.callbacks with _ | ⟨p, ps⟩
  · -- the completion of a killed URB
    have hflight : 0 < s.flights := hbusy.resolve_right fun hne => hne hcallbacks
    refine ⟨.complete enoent [], _, if_pos ⟨hflight, Nat.zero_le _⟩, nofun, nofun, ?_⟩
    change 8 * (s.flights - 1) + ((s.callbacks ++ [Callback.start]).map Callback.left).sum <
      8 * s.flights + (s.callbacks.map Callback.left).sum
    rw [hcallbacks]
    change 8 * (s.flights - 1) + 7 < 8 * s.flights + 0
    omega
  · -- the first callback
    have hgoto : ∀ (u : State) (q : Callback), u.flights = s.flights → u.callbacks = s.callbacks →
        q.left < p.left → (u.callbackGoto 0 q).pending < s.pending := by
      intro u q hflights hsame hlt
      change 8 * u.flights + ((u.callbacks.set 0 q).map Callback.left).sum <
        8 * s.flights + (s.callbacks.map Callback.left).sum
      rw [hflights, hsame, hcallbacks]
      change 8 * s.flights + (q.left + (ps.map Callback.left).sum) <
        8 * s.flights + (p.left + (ps.map Callback.left).sum)
      omega
    have hstep : ∀ t, (callbackStep s 0 false = some t) → t.pending < s.pending →
        ∃ a t, (device eps fresh).step s a = some t ∧ (∀ ok, a ≠ .driver ok) ∧
          (∀ b, a ≠ .user b) ∧ t.pending < s.pending :=
      fun t ht hlt => ⟨.callback 0 false, t, ht, nofun, nofun, hlt⟩
    have hhead : ∀ f : Callback → State, s.callbacks[0]?.map f = some (f p) := by
      intro f
      rw [hcallbacks]
      rfl
    cases p with
    | start => exact hstep _ (hhead _) (hgoto _ _ rfl rfl s.urb.left_switch)
    | lock => exact hstep _ (hhead _) (hgoto _ _ rfl rfl (by decide))
    | report => exact hstep _ (hhead _) (hgoto _ _ rfl rfl (by decide))
    | unlock => exact hstep _ (hhead _) (hgoto _ _ rfl rfl (by decide))
    | prInfo => exact hstep _ (hhead _) (hgoto _ _ rfl rfl (by decide))
    | submit =>
      refine hstep _ (hhead _) ?_
      rw [if_neg fun h => Bool.false_ne_true h.1]
      exact hgoto _ _ rfl rfl (by decide)
    | ret =>
      refine hstep _ (hhead _) ?_
      change 8 * s.flights + ((s.callbacks.eraseIdx 0).map Callback.left).sum <
        8 * s.flights + (s.callbacks.map Callback.left).sum
      rw [hcallbacks]
      change 8 * s.flights + (ps.map Callback.left).sum <
        8 * s.flights + (1 + (ps.map Callback.left).sum)
      omega

/-- How many steps the teardown may still take. -/
def State.left (s : State) : ℕ := s.pending + s.driver.left

/-- The teardown can go on, whatever the users do. -/
def State.GoesOn (eps : List UsbEndpointDescriptor) (fresh : ℕ → Byte) (s : State) : Prop :=
  ∃ a t, (device eps fresh).step s a = some t ∧ t.driver.gone = true ∧ t.files = s.files ∧
    t.left < s.left

/-- It does by a step of its own, wherever it need not wait. -/
theorem goesOn_driver (hs : driverStep eps fresh s true = some t) (hgone : t.driver.gone = true)
    (hpending : t.pending = s.pending) (hleft : t.driver.left < s.driver.left) :
    s.GoesOn eps fresh := by
  have hs : (device eps fresh).step s (.driver true) = some t := hs
  refine ⟨_, t, hs, hgone, (step_files hs fun _ => nofun).1, ?_⟩
  rw [State.left, State.left, hpending]
  exact Nat.add_lt_add_left hleft _

/-- By one of the four frees, each of which leads to the next. -/
theorem goesOn_free (place : Object → Driver) (last : Driver) {o : Object}
    (hd : s.driver = place o) (hplace : ∀ o, (place o).gone = true ∧ (place o).left = 4 - o.rank)
    (hlast : last.gone = true ∧ last.left = 0)
    (hs : driverStep eps fresh s true = some ((s.free o).goto (o.next.elim last place))) :
    s.GoesOn eps fresh := by
  rcases ho : o.next with _ | o' <;> rw [ho] at hs
  · refine goesOn_driver hs hlast.1 rfl ?_
    change last.left < s.driver.left
    rw [hd, hlast.2, (hplace o).2]
    cases o <;> decide
  · refine goesOn_driver hs (hplace o').1 rfl ?_
    change (place o').left < s.driver.left
    rw [hd, (hplace o).2, (hplace o').2]
    cases o <;> cases ho <;> decide

variable (eps fresh) in
theorem goesOn (hgone : s.driver.gone = true) (hfailed : s.driver ≠ .failed)
    (hdisconnected : s.driver ≠ .disconnected) : s.GoesOn eps fresh := by
  rcases hd : s.driver
  case error o =>
    refine goesOn_free .error .failed hd (fun _ => ⟨rfl, rfl⟩) ⟨rfl, rfl⟩ ?_
    rw [driverStep, hd]
    cases o <;> rfl
  case killUrb =>
    refine goesOn_driver (t := s.goto .killWait) ?_ rfl rfl ?_
    · rw [driverStep, hd]
    · rw [hd]
      exact Nat.lt_succ_self 5
  case killWait =>
    by_cases hbusy : s.Busy
    · obtain ⟨a, t, hs, hother, huser, hlt⟩ := exists_pending eps fresh hbusy
      have hsame := (step_other hs hother).1
      refine ⟨a, t, hs, hsame.symm ▸ hgone, (step_files hs huser).1, ?_⟩
      rw [State.left, State.left, hsame]
      exact Nat.add_lt_add_right hlt _
    · obtain ⟨hflights, hcallbacks⟩ := not_or.mp hbusy
      refine goesOn_driver (t := s.goto (.free .intInUrb)) ?_ rfl rfl ?_
      · rw [driverStep, hd]
        exact if_pos ⟨Nat.eq_zero_of_not_pos hflights, Classical.not_not.mp hcallbacks⟩
      · rw [hd]
        exact Nat.lt_succ_self 4
  case free o =>
    refine goesOn_free .free .disconnected hd (fun _ => ⟨rfl, rfl⟩) ⟨rfl, rfl⟩ ?_
    rw [driverStep, hd]
    cases o <;> rfl
  case failed => exact absurd hd hfailed
  case disconnected => exact absurd hd hdisconnected
  all_goals
    rw [hd] at hgone
    cases hgone

/-- Past `usb_deregister_dev` the device comes to be freed. -/
theorem canReach_freed (hok : s.Ok) (hgone : s.driver.gone = true) :
    (device eps fresh).CanReach (fun u => u.files = s.files ∧ ¬ (u.heap .dev).Live) s := by
  have hreach : (device eps fresh).CanReach (fun u => (u.Ok ∧ u.driver.gone = true ∧
      u.files = s.files) ∧ (u.driver = .failed ∨ u.driver = .disconnected)) s := by
    refine Lts.CanReach.of_measure State.left ?_ ⟨hok, hgone, rfl⟩
    rintro u ⟨hok, hgone, hfiles⟩ hnot
    obtain ⟨hfailed, hdisconnected⟩ := not_or.mp hnot
    obtain ⟨a, t, hs, hgone, hsame, hlt⟩ := goesOn eps fresh hgone hfailed hdisconnected
    exact ⟨a, t, hs, ⟨hok.step hs, hgone, hsame.trans hfiles⟩, hlt⟩
  refine hreach.trans ?_
  rintro u ⟨⟨hok, -, hfiles⟩, hend⟩
  refine Lts.CanReach.here ⟨hfiles, hok.freed.not_live ?_⟩
  rcases hend with hd | hd <;> rw [hd] <;> rfl

variable (eps fresh) in
/-- A call that goes on can take its step. -/
theorem exists_resume (ret : ℕ) {f i : ℕ} {data : PrivateData} {calls : List Place} {p q : Place}
    (hf : s.files f = .opened data calls) (hp : calls[i]? = some p) (hq : p.next ret = .goto q)
    (hfinds : p.finds s ret = true) :
    Fops.resumed s.files (.resume f i ret : FileAct Op) = some p ∧
      ∃ t, (device eps fresh).step s (.user (.resume f i ret)) = some t ∧
        t.files f = .opened data (calls.set i q) ∧ t.heap = s.heap := by
  have hresumed : Fops.resumed s.files (.resume f i ret : FileAct Op) = some p := by
    rw [Fops.resumed, hf]
    exact hp
  refine ⟨hresumed, { s with
    files := Function.update s.files f (.opened data (calls.set i q))
    opening := s.opening.erase f }, ?_, Function.update_self .., rfl⟩
  change userStep s (.resume f i ret) = _
  rw [userStep, hresumed, Fops.step_resume (F := fops) hf hp hq]
  exact if_pos hfinds

/-- With the device freed, the ioctl of an open file uses it. -/
theorem unsafe_of_opened {f : ℕ} {calls : List Place} (hf : s.files f = .opened (some ()) calls)
    (hdead : ¬ (s.heap .dev).Live) : (device eps fresh).CanReach (Unsafe eps fresh) s := by
  have hcall : ∃ t, (device eps fresh).step s (.user (.call f 0)) = some t ∧
      t.files f = .opened (some ()) (calls ++ [.ioctlCheck (some ()) 0]) ∧ t.heap = s.heap :=
    ⟨_, congrArg (Option.map _) (Fops.step_call (F := fops) hf 0), Function.update_self .., rfl⟩
  obtain ⟨t, ht, htf, hheap⟩ := hcall
  -- the test of `dev` passes
  have hlast : (calls ++ [Place.ioctlCheck (some ()) 0])[calls.length]? =
      some (.ioctlCheck (some ()) 0) := List.getElem?_concat_length
  obtain ⟨-, u, hu, huf, hheap'⟩ :=
    exists_resume eps fresh 0 htf hlast rfl rfl
  -- and the lock is the device's
  have hlock := List.getElem?_set_self (a := Place.ioctlLock) (List.getElem?_eq_some_iff.mp hlast).1
  obtain ⟨hresumed, v, hv, -, -⟩ :=
    exists_resume eps fresh 0 huf hlock rfl rfl
  refine Lts.CanReach.step ht (Lts.CanReach.step hu (Lts.CanReach.here ⟨_, v, hv, fun hlive => ?_⟩))
  have hdev := hlive _ hresumed .dev (List.mem_singleton_self _)
  rw [hheap', hheap] at hdev
  exact hdead hdev

/-- After a `usb_deregister_dev` with a file open, a use of the freed device can
follow. -/
theorem unsettled {a : Act} (hok : s.Ok) (hfiles : s.Files) (hbad : ¬ a.Settled s)
    (hs : (device eps fresh).step s a = some t) :
    (device eps fresh).CanReach (Unsafe eps fresh) t := by
  cases a with
  | driver ok =>
    obtain ⟨hderegisters, hopen⟩ := Classical.not_imp.mp hbad
    obtain ⟨f, data, calls, hf⟩ : ∃ f data calls, s.files f = .opened data calls := by
      by_contra hnone
      exact hopen fun f data calls hf => hnone ⟨f, data, calls, hf⟩
    obtain rfl := hfiles.data f data calls hf
    have hgone : t.driver.gone = true := by
      have hs : driverStep eps fresh s ok = some t := hs
      rw [Panicb.driverStep] at hs
      rcases hd : s.driver <;> simp only [hd] at hs
      case deregisterFailed =>
        obtain ⟨-, heq⟩ := Option.ite_none_right_eq_some.mp hs
        obtain rfl := Option.some.inj heq
        rfl
      case deregister dev =>
        obtain ⟨-, heq⟩ := Option.ite_none_right_eq_some.mp hs
        split at heq <;> obtain rfl := Option.some.inj heq <;> rfl
      all_goals
        rw [hd] at hderegisters
        cases hderegisters
    refine (canReach_freed (hok.step hs) hgone).trans ?_
    rintro u ⟨hsame, hdead⟩
    have hfu : u.files f = .opened (some ()) calls := by
      rw [hsame, (step_files hs (by rintro b ⟨⟩)).1]
      exact hf
    exact unsafe_of_opened hfu hdead
  | complete status data => exact absurd trivial hbad
  | callback i ok => exact absurd trivial hbad
  | user a => exact absurd trivial hbad

/-- **When open files survive unplugging.** In every state reached with a
`usb_deregister_dev` that finds no file open: no step of a call uses the freed
device, and an ioctl that starts when the device is gone returns `-ENODEV`. From
a step that does not meet this, a use of the freed device can follow. -/
theorem panicb_unplugged (h : (device eps fresh).Reach (fun s a => a.Settled s) s) :
    (∀ a t, (device eps fresh).step s a = some t → a.Live s ∧ a.Refused s) ∧
      ∀ a t, ¬ a.Settled s → (device eps fresh).step s a = some t →
        (device eps fresh).CanReach (Unsafe eps fresh) t := by
  have hok : ∀ s, (device eps fresh).Reach (fun s a => a.Settled s) s → s.Ok :=
    fun _ => ok_of_reach
  have hclosed : Panicb.init.Files := ⟨fun _ => trivial, nofun, nofun⟩
  have hfiles : ∀ s, (device eps fresh).Reach (fun s a => a.Settled s) s → s.Files :=
    fun _ h => h.invariant hclosed fun _ _ _ hi _ hs => hi.step hs
  have hidle : Panicb.init.Private := fun _ _ => trivial
  have hprivate : s.Private := h.invariant_of hfiles hidle
    fun _ _ _ hf hi hsettled hs => hi.step hf hsettled hs
  exact ⟨fun a _ _ => ⟨hprivate.live (hok s h) (hfiles s h) a, hprivate.refused a⟩,
    fun _ _ hbad hs => unsettled (hok s h) (hfiles s h) hbad hs⟩

/-- The button is plugged in, and its probe succeeds. -/
def plugged : List Act := List.replicate 9 (.driver true)

/-- It is unplugged, and its disconnect runs to the end. -/
def unplugging : List Act :=
  List.replicate 5 (Act.driver true) ++
    [Act.complete enoent [], .callback 0 true, .callback 0 true] ++
    List.replicate 5 (Act.driver true)

/-- In between, a file is opened, read, and about to be released. -/
def readAndClosed : List Act :=
  [.user (.openFile 0), .user (.resume 0 0 1), .user (.call 0 0), .user (.resume 0 0 0),
    .user (.resume 0 0 0), .user (.resume 0 0 0), .user (.resume 0 0 0), .user (.resume 0 0 0),
    .user (.release 0)]

theorem panicb_unplugged_closed : ∃ s, (device buttonEndpoints fun _ => 0).exec Panicb.init
    (plugged ++ readAndClosed ++ unplugging) = some s ∧ (s.heap .dev).frees = 1 ∧
      Act.Live s (.user (.resume 0 0 0)) := by
  have hrun : (device buttonEndpoints fun _ => 0).Run (fun s a => a.Settled s)
      (plugged ++ readAndClosed ++ unplugging) := by
    -- the probe
    refine ⟨_, rfl, nofun, _, rfl, nofun, _, rfl, nofun, _, rfl, nofun, _, rfl, nofun, _, rfl,
      nofun, _, rfl, nofun, _, rfl, nofun, _, rfl, nofun, ?_⟩
    -- the file
    refine ⟨_, rfl, trivial, _, rfl, trivial, _, rfl, trivial, _, rfl, trivial, _, rfl, trivial, _,
      rfl, trivial, _, rfl, trivial, _, rfl, trivial, _, rfl, trivial, ?_⟩
    -- `panicb_disconnect`
    refine ⟨_, rfl, nofun, _, rfl, nofun, _, rfl, nofun, _, rfl, fun _ => ?closed, _, rfl, nofun, _,
      rfl, trivial, _, rfl, trivial, _, rfl, trivial, _, rfl, nofun, _, rfl, nofun, _, rfl, nofun,
      _, rfl, nofun, _, rfl, nofun, trivial⟩
    rintro (_ | f) data calls <;> nofun
  have hrelease : (((device buttonEndpoints fun _ => 0).exec Panicb.init
      (plugged ++ readAndClosed ++ unplugging)).bind fun s =>
        ((device buttonEndpoints fun _ => 0).step s (.user (.resume 0 0 0))).map fun _ =>
          (s.heap .dev).frees) = some 1 := by
    decide +kernel
  obtain ⟨s, hs, hmap⟩ := Option.bind_eq_some_iff.mp hrelease
  obtain ⟨t, ht, hfrees⟩ := Option.map_eq_some_iff.mp hmap
  exact ⟨s, hs, hfrees, ((panicb_unplugged (Lts.Reach.init.exec hrun hs)).1 _ t ht).1⟩

/-- With the file left open, the ioctl after the disconnect is not refused, and
takes the lock of the freed device; so it does after a failed probe. -/
theorem panicb_unplugged_open :
    (∃ s, (device buttonEndpoints fun _ => 0).exec Panicb.init (plugged ++
      [Act.user (.openFile 0), .user (.resume 0 0 1)] ++ unplugging) = some s ∧
        ¬ Act.Refused s (.user (.call 0 0))) ∧
    (∃ s, (device buttonEndpoints fun _ => 0).exec Panicb.init (plugged ++
      [Act.user (.openFile 0), .user (.resume 0 0 1)] ++ unplugging ++
        [.user (.call 0 0), .user (.resume 0 0 0)]) = some s ∧
          ((device buttonEndpoints fun _ => 0).step s (.user (.resume 0 0 0))).isSome ∧
            ¬ Act.Live s (.user (.resume 0 0 0))) ∧
    (∃ s, (device buttonEndpoints fun _ => 0).exec Panicb.init
      (List.replicate 8 (Act.driver true) ++ [Act.user (.openFile 0), .user (.resume 0 0 1)] ++
        List.replicate 6 (Act.driver false) ++
        [Act.user (.call 0 0), .user (.resume 0 0 0)]) = some s ∧
          ((device buttonEndpoints fun _ => 0).step s (.user (.resume 0 0 0))).isSome ∧
            ¬ Act.Live s (.user (.resume 0 0 0))) := by
  refine ⟨⟨_, rfl, fun h => ?_⟩, ⟨_, rfl, rfl, fun h => ?_⟩, ⟨_, rfl, rfl, fun h => ?_⟩⟩
  · exact absurd (h rfl _ _ rfl 0) nofun
  · exact absurd (h _ rfl .dev (List.mem_singleton_self _)).2 nofun
  · exact absurd (h _ rfl .dev (List.mem_singleton_self _)).2 nofun

end Panicb

end KernelDrvLearn
