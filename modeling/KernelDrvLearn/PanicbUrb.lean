import KernelDrvLearn.Held
import KernelDrvLearn.Panicb

/-!
# The URB of the panic button

The URB is in flight, or one callback is on its way to submit it again, or
neither: a token that the first submission makes, that goes back and forth
between the two, and that a refused submission or one of the three final
statuses ends. `panicb_disconnect` frees nothing before `usb_kill_urb` has waited
for the token to go, and the `error` label is only reached without one. The
buffer has room for a report, whatever `wMaxPacketSize` is.
-/

namespace KernelDrvLearn

namespace Panicb

/-! ## The token

Being allowed to submit the URB is a thing that at most one party has: the probe, the core
while the URB is in flight, or one callback until it submits or gives up. -/

/-- May the callback yet submit the URB? Then it has the token. -/
def Callback.holds : Callback → Bool
  | ret => false
  | _ => true

/-! ## Arrays

The two array functions leave the length of an array alone, as long as they are asked for
no more than it has; and that is so for a report, whose length is cut down before. -/

theorem length_memset {dst : List Byte} {v : Byte} {n : ℕ} (h : n ≤ dst.length) :
    (memset dst v n).length = dst.length := by
  rw [memset, List.length_append, List.length_replicate, List.length_drop]
  omega

theorem length_memcpy {dst src : List Byte} {n : ℕ} (hsrc : n ≤ src.length)
    (hdst : n ≤ dst.length) : (memcpy dst src n).length = dst.length := by
  rw [memcpy, List.length_append, List.length_take, List.length_drop]
  omega

/-- The report stays in the array: no more than `REPORT_SIZE` bytes are copied, however
many have arrived. -/
theorem UsbPanicb.length_report {dev : UsbPanicb} {intInBuffer : List Byte} {actualLength : ℕ}
    (hbuffer : reportSize ≤ intInBuffer.length) (hreport : dev.lastReport.length = reportSize) :
    (dev.report intInBuffer actualLength).lastReport.length = reportSize := by
  have hlen : reportLen actualLength ≤ reportSize := Nat.min_le_right _ _
  have hmemset : (memset dev.lastReport 0 reportSize).length = reportSize := by
    rw [length_memset (Nat.le_of_eq hreport.symm), hreport]
  change (memcpy (memset dev.lastReport 0 reportSize) intInBuffer (reportLen actualLength)).length =
    reportSize
  rw [length_memcpy (Nat.le_trans hlen hbuffer) (Nat.le_trans hlen (Nat.le_of_eq hmemset.symm)),
    hmemset]

theorem UsbPanicb.le_raiseSize (dev : UsbPanicb) : reportSize ≤ dev.raiseSize.intInSize := by
  rw [raiseSize]
  split
  case isTrue => exact Nat.le_refl _
  case isFalse hge => exact Nat.le_of_not_lt hge

@[simp] theorem UsbPanicb.raiseSize_lastReport (dev : UsbPanicb) :
    dev.raiseSize.lastReport = dev.lastReport := by
  rw [raiseSize]
  split <;> rfl

/-! ## The invariant

Four things: the token is held once; what the probe has built at its place is there; what
the frees have passed is freed, once each, and nothing else is; and behind `usb_kill_urb`
nothing is in flight and no callback runs. -/

/-- How far the probe has come, counted in what it has built. -/
def Driver.stage : Driver → ℕ
  | getDev => 1
  | endpoints => 2
  | kmalloc => 3
  | allocUrb => 4
  | fillIntUrb => 5
  | setIntfdata | registerDev | submitUrb | deregisterFailed | bound | getIntfdata
  | clearIntfdata _ | deregister _ | killUrb | killWait | free _ | disconnected => 6
  | kzalloc | error _ | failed => 0

/-- From where on an object is there, in that count. -/
def Object.stage : Object → ℕ
  | dev => 1
  | udev => 2
  | intInBuffer => 4
  | intInUrb => 5

/-- What the probe has built at a stage: the objects, and the sizes they have. -/
structure State.Built (s : State) (n : ℕ) : Prop where
  allocated : ∀ o : Object, o.stage ≤ n → (s.heap o).allocated = true
  size : 3 ≤ n → reportSize ≤ s.dev.intInSize
  buffer : 4 ≤ n → s.intInBuffer.length = s.dev.intInSize
  filled : 6 ≤ n → s.urb.transferBufferLength = s.dev.intInSize

/-- Is `intfdata`, or the `dev` read from it, as it should be here? -/
def Driver.Attached : Driver → Bool → Prop
  | registerDev, intfdata | submitUrb, intfdata | bound, intfdata | getIntfdata, intfdata =>
    intfdata = true
  | clearIntfdata dev, _ | deregister dev, _ => dev = true
  | _, _ => True

/-- The invariant: the token, the objects, the frees and the report. -/
structure State.Ok (s : State) : Prop where
  token : s.flights + s.callbacks.countP Callback.holds ≤ 1
  quiet : s.driver.active = false → s.flights = 0 ∧ s.callbacks = []
  freed : Freed s.heap s.driver.released
  built : s.Built s.driver.stage
  report : s.dev.lastReport.length = reportSize
  attached : s.driver.Attached s.intfdata
  start : s.driver = .kzalloc → s.heap = fun _ => .null

theorem State.Ok.init : Panicb.init.Ok where
  token := Nat.zero_le _
  quiet := fun _ => ⟨rfl, rfl⟩
  freed := Freed.null _
  built := by
    refine ⟨?_, nofun, nofun, nofun⟩
    rintro ⟨⟩ <;> exact nofun
  report := rfl
  attached := trivial
  start := fun _ => rfl

/-! ## Probe and disconnect

One lemma for each kind of step: going on, allocating, freeing, and the few that do more.
The places come in one order, and so do the stages, so that what is there at one place is
there at the next. -/

theorem State.Built.mono {s : State} {m n : ℕ} (h : s.Built n) (hmn : m ≤ n) : s.Built m where
  allocated := fun o ho => h.allocated o (Nat.le_trans ho hmn)
  size := fun hm => h.size (Nat.le_trans hm hmn)
  buffer := fun hm => h.buffer (Nat.le_trans hm hmn)
  filled := fun hm => h.filled (Nat.le_trans hm hmn)

/-- It is about the pointers and the sizes only. -/
theorem State.Built.of_eq {s t : State} {n : ℕ} (h : s.Built n) (hheap : t.heap = s.heap)
    (hsize : t.dev.intInSize = s.dev.intInSize)
    (hbuffer : t.intInBuffer.length = s.intInBuffer.length)
    (hurb : t.urb.transferBufferLength = s.urb.transferBufferLength) : t.Built n where
  allocated := by
    rw [hheap]
    exact h.allocated
  size := by
    rw [hsize]
    exact h.size
  buffer := by
    rw [hsize, hbuffer]
    exact h.buffer
  filled := by
    rw [hsize, hurb]
    exact h.filled

/-- Going on from one place to another. -/
theorem State.Ok.goto {s : State} (h : s.Ok) {q : Driver}
    (hactive : q.active = false → s.flights = 0 ∧ s.callbacks = [])
    (hreleased : q.released = s.driver.released) (hbuilt : s.Built q.stage)
    (hattached : q.Attached s.intfdata) (hstart : q ≠ .kzalloc) : (s.goto q).Ok where
  token := h.token
  quiet := hactive
  freed := by
    change Freed s.heap q.released
    rw [hreleased]
    exact h.freed
  built := hbuilt.of_eq rfl rfl rfl rfl
  report := h.report
  attached := hattached
  start := fun hq => absurd hq hstart

theorem Object.stage_le (o : Object) : o.stage ≤ 5 := by
  cases o <;> decide

/-- No two objects are allocated at one stage. -/
theorem Object.stage_lt {o o' : Object} (hne : o' ≠ o) (h : o'.stage ≤ o.stage) :
    o'.stage < o.stage := by
  refine Nat.lt_of_le_of_ne h fun heq => hne ?_
  cases o <;> cases o' <;> first | rfl | cases heq

/-- An object is allocated, and all that were before it. -/
theorem State.Built.alloc {s : State} {n : ℕ} (h : s.Built n) {o : Object}
    (hstage : o.stage ≤ n + 1) {o' : Object} (ho : o'.stage ≤ o.stage) :
    ((s.alloc o).heap o').allocated = true := by
  change (Function.update s.heap o ⟨true, 0⟩ o').allocated = true
  by_cases heq : o' = o
  · rw [heq, Function.update_self]
  · have hlt := Object.stage_lt heq ho
    rw [Function.update_of_ne heq]
    exact h.allocated o' (by omega)

theorem State.Ok.alloc {s : State} (h : s.Ok) {o : Object} {q : Driver}
    (hactive : s.driver.active = false) (hself : s.driver.released o = false)
    (hreleased : q.released = s.driver.released) (hq : q.stage = o.stage)
    (hstage : o.stage ≤ s.driver.stage + 1)
    (hsize : 3 ≤ o.stage → reportSize ≤ s.dev.intInSize)
    (hbuffer : 4 ≤ o.stage → s.intInBuffer.length = s.dev.intInSize)
    (hattached : q.Attached s.intfdata) (hstart : q ≠ .kzalloc) : ((s.alloc o).goto q).Ok where
  token := h.token
  quiet := fun _ => h.quiet hactive
  freed := by
    change Freed (s.alloc o).heap q.released
    rw [hreleased]
    exact h.freed.alloc hself
  built := by
    change State.Built _ q.stage
    rw [hq]
    exact ⟨fun o' ho => h.built.alloc hstage ho, hsize, hbuffer,
      fun hn => absurd (Nat.le_trans hn o.stage_le) (by decide)⟩
  report := h.report
  attached := hattached
  start := fun hq => absurd hq hstart

/-- And freed: the object is released, and the next one is due. -/
theorem State.Ok.free {s : State} (h : s.Ok) {o : Object} {q : Driver}
    (hactive : s.driver.active = false) (hself : s.driver.released o = false)
    (hreleased : q.released = Function.update s.driver.released o true)
    (hbuilt : s.Built q.stage) (hattached : q.Attached s.intfdata) (hstart : q ≠ .kzalloc) :
    ((s.free o).goto q).Ok where
  token := h.token
  quiet := fun _ => h.quiet hactive
  freed := by
    change Freed (s.free o).heap q.released
    rw [hreleased]
    exact h.freed.free hself
  built := by
    refine ⟨fun o' ho => ?_, hbuilt.size, hbuilt.buffer, hbuilt.filled⟩
    have hold := hbuilt.allocated o' ho
    change (Function.update s.heap o (s.heap o).free o').allocated = true
    by_cases heq : o' = o
    · subst heq
      rwa [Function.update_self, Block.free_allocated]
    · rwa [Function.update_of_ne heq]
  report := h.report
  attached := hattached
  start := fun hq => absurd hq hstart

/-- Nothing is released where the frees begin. -/
theorem Driver.released_first : (Driver.error .intInUrb).released = fun _ => false := by
  funext o
  cases o <;> rfl

theorem Object.released_self (o : Object) : (Driver.error o).released o = false :=
  decide_eq_false (Nat.lt_irrefl _)

/-- What is released after one more free. -/
theorem Object.released_next {o o' : Object} (h : o.next = some o') :
    (Driver.error o').released = Function.update (Driver.error o).released o true := by
  funext o''
  cases o <;> cases h <;> cases o'' <;> rfl

theorem Object.released_last {o : Object} (h : o.next = none) :
    Driver.failed.released = Function.update (Driver.error o).released o true := by
  funext o'
  cases o with
  | dev => cases o' <;> rfl
  | intInUrb | intInBuffer | udev => cases h

/-- To the `error` label, where the frees begin with the objects that are there. -/
theorem State.Ok.gotoError {s : State} (h : s.Ok) (hactive : s.driver.active = false)
    (hreleased : s.driver.released = fun _ => false) : (s.goto (.error .intInUrb)).Ok :=
  h.goto (fun _ => h.quiet hactive) (Driver.released_first.trans hreleased.symm)
    (h.built.mono (Nat.zero_le _)) trivial nofun

variable {eps : List UsbEndpointDescriptor} {fresh : ℕ → Byte} {s t : State}

/-- `kzalloc` of `dev`, which has nothing in it yet. -/
theorem State.Ok.kzallocStep {ok : Bool} (h : s.Ok) (hd : s.driver = .kzalloc)
    (hs : driverStep eps fresh s ok = some t) : t.Ok := by
  obtain ⟨driver, heap, dev, intInBuffer, urb, intfdata, flights, callbacks, opening, files⟩ := s
  obtain rfl : driver = .kzalloc := hd
  simp only [Panicb.driverStep] at hs
  obtain rfl : heap = fun _ => .null := h.start rfl
  split at hs <;> obtain rfl := Option.some.inj hs
  · have hzero : State.Ok ⟨.kzalloc, fun _ => .null, .zero, intInBuffer, urb, intfdata, flights,
      callbacks, opening, files⟩ := ⟨h.token, h.quiet, h.freed,
        ⟨h.built.allocated, nofun, nofun, nofun⟩, rfl, trivial, fun _ => rfl⟩
    exact hzero.alloc rfl rfl rfl rfl (Nat.le_refl _) nofun nofun trivial nofun
  · exact ⟨h.token, fun _ => h.quiet rfl, Freed.null _, ⟨h.built.allocated, nofun, nofun, nofun⟩,
      h.report, trivial, nofun⟩

/-- The endpoint is found, and the size of its packets is known from then on. -/
theorem State.Ok.endpointsStep {ok : Bool} (h : s.Ok) (hd : s.driver = .endpoints)
    (hs : driverStep eps fresh s ok = some t) : t.Ok := by
  obtain ⟨driver, heap, dev, intInBuffer, urb, intfdata, flights, callbacks, opening, files⟩ := s
  obtain rfl : driver = .endpoints := hd
  simp only [Panicb.driverStep] at hs
  split at hs <;> obtain rfl := Option.some.inj hs
  · exact h.gotoError rfl rfl
  · have hstage : ∀ o : Object, o.stage ≤ 3 → o.stage ≤ 2 := by
      rintro ⟨⟩ <;> decide
    refine ⟨h.token, fun _ => h.quiet rfl, h.freed, ⟨fun o ho => ?_, fun _ => ?_, nofun, nofun⟩,
      ?_, trivial, nofun⟩
    · exact h.built.allocated o (hstage o ho)
    · exact UsbPanicb.le_raiseSize _
    · change (dev.setEndpoint _).raiseSize.lastReport.length = reportSize
      rw [UsbPanicb.raiseSize_lastReport]
      exact h.report

/-- `kmalloc` of the buffer, of that size. -/
theorem State.Ok.kmallocStep {ok : Bool} (h : s.Ok) (hd : s.driver = .kmalloc)
    (hs : driverStep eps fresh s ok = some t) : t.Ok := by
  obtain ⟨driver, heap, dev, intInBuffer, urb, intfdata, flights, callbacks, opening, files⟩ := s
  obtain rfl : driver = .kmalloc := hd
  simp only [Panicb.driverStep] at hs
  split at hs <;> obtain rfl := Option.some.inj hs
  · have hbuffer : State.Ok ⟨.kmalloc, heap, dev, (List.range dev.intInSize).map fresh, urb,
      intfdata, flights, callbacks, opening, files⟩ := ⟨h.token, h.quiet, h.freed,
        ⟨h.built.allocated, h.built.size, nofun, nofun⟩, h.report, trivial, nofun⟩
    refine hbuffer.alloc rfl rfl rfl rfl (Nat.le_refl _) (fun _ => h.built.size (Nat.le_refl _))
      (fun _ => ?_) trivial nofun
    change ((List.range dev.intInSize).map fresh).length = dev.intInSize
    rw [List.length_map, List.length_range]
  · exact h.gotoError rfl rfl

/-- `usb_submit_urb`: nothing is in flight before. -/
theorem State.Ok.submitUrbStep {ok : Bool} (h : s.Ok) (hd : s.driver = .submitUrb)
    (hs : driverStep eps fresh s ok = some t) : t.Ok := by
  obtain ⟨driver, heap, dev, intInBuffer, urb, intfdata, flights, callbacks, opening, files⟩ := s
  obtain rfl : driver = .submitUrb := hd
  simp only [Panicb.driverStep] at hs
  split at hs <;> obtain rfl := Option.some.inj hs
  · obtain ⟨hflights, hcallbacks⟩ := h.quiet rfl
    refine ⟨?_, nofun, h.freed, h.built.of_eq rfl rfl rfl rfl, h.report, h.attached, nofun⟩
    change flights + 1 + callbacks.countP Callback.holds ≤ 1
    obtain rfl : flights = 0 := hflights
    obtain rfl : callbacks = [] := hcallbacks
    exact Nat.le_refl _
  · exact h.goto (fun _ => h.quiet rfl) rfl h.built trivial nofun

/-- **Step lemma** of `probe` and `disconnect`, by the place it is at. -/
theorem State.Ok.driverStep {ok : Bool} (h : s.Ok) (hs : driverStep eps fresh s ok = some t) :
    t.Ok := by
  have hstep := hs
  obtain ⟨driver, heap, dev, intInBuffer, urb, intfdata, flights, callbacks, opening, files⟩ := s
  cases driver <;> simp only [Panicb.driverStep] at hs
  case kzalloc => exact h.kzallocStep rfl hstep
  case getDev =>
    obtain rfl := Option.some.inj hs
    exact h.alloc rfl rfl rfl rfl (Nat.le_refl _) nofun nofun trivial nofun
  case endpoints => exact h.endpointsStep rfl hstep
  case kmalloc => exact h.kmallocStep rfl hstep
  case allocUrb =>
    split at hs <;> obtain rfl := Option.some.inj hs
    · have hbuilt : State.Built _ 4 := h.built
      exact h.alloc rfl rfl rfl rfl (Nat.le_refl _) (fun _ => hbuilt.size (by decide))
        (fun _ => hbuilt.buffer (by decide)) trivial nofun
    · exact h.gotoError rfl rfl
  case fillIntUrb =>
    -- from here on a submission finds buffer and size in the URB
    obtain rfl := Option.some.inj hs
    have hbuilt : State.Built _ 5 := h.built
    exact ⟨h.token, fun _ => h.quiet rfl, h.freed,
      ⟨fun o _ => hbuilt.allocated o o.stage_le, fun _ => hbuilt.size (by decide),
        fun _ => hbuilt.buffer (by decide), fun _ => rfl⟩, h.report, trivial, nofun⟩
  case setIntfdata =>
    obtain rfl := Option.some.inj hs
    exact ⟨h.token, h.quiet, h.freed, h.built.of_eq rfl rfl rfl rfl, h.report, rfl, nofun⟩
  case registerDev =>
    split at hs <;> obtain rfl := Option.some.inj hs
    · exact h.goto h.quiet rfl h.built h.attached nofun
    · exact h.gotoError rfl rfl
  case submitUrb => exact h.submitUrbStep rfl hstep
  case deregisterFailed =>
    split at hs
    · obtain rfl := Option.some.inj hs
      exact h.gotoError rfl rfl
    · cases hs
  case error o =>
    -- what is freed is the next object in the order, or the last one
    split at hs <;> obtain rfl := Option.some.inj hs
    case h_1 o' hnext =>
      exact h.free rfl (Object.released_self o) (Object.released_next hnext) h.built trivial nofun
    case h_2 hnext =>
      exact h.free rfl (Object.released_self o) (Object.released_last hnext) h.built trivial nofun
  case bound =>
    obtain rfl := Option.some.inj hs
    exact h.goto nofun rfl h.built h.attached nofun
  case getIntfdata =>
    obtain rfl := Option.some.inj hs
    exact h.goto nofun rfl h.built h.attached nofun
  case clearIntfdata dev' =>
    obtain rfl := Option.some.inj hs
    exact ⟨h.token, nofun, h.freed, h.built.of_eq rfl rfl rfl rfl, h.report, h.attached, nofun⟩
  case deregister dev' =>
    -- `panicb_probe` has attached the device, so it is not null
    obtain rfl : dev' = true := h.attached
    split at hs
    · obtain rfl := Option.some.inj hs
      exact h.goto nofun rfl h.built trivial nofun
    · cases hs
  case killUrb =>
    obtain rfl := Option.some.inj hs
    exact h.goto nofun rfl h.built trivial nofun
  case killWait =>
    split at hs
    case isTrue hquiet =>
      -- `usb_kill_urb` returns when nothing is in flight; then the frees begin
      obtain rfl := Option.some.inj hs
      exact h.goto (fun _ => hquiet) Driver.released_first h.built trivial nofun
    case isFalse => cases hs
  case free o =>
    split at hs <;> obtain rfl := Option.some.inj hs
    case h_1 o' hnext =>
      exact h.free rfl (Object.released_self o) (Object.released_next hnext) h.built trivial nofun
    case h_2 hnext =>
      exact h.free rfl (Object.released_self o) (Object.released_last hnext) h.built trivial nofun
  all_goals cases hs

/-! ## Completions, callbacks and users

The others do not free and do not allocate. They pass the token on between them: a
completion from the core to a callback, a submission back to the core. -/

/-- What the others leave alone: the driver, the objects and their sizes. -/
structure State.Frame (s t : State) : Prop where
  driver : t.driver = s.driver
  heap : t.heap = s.heap
  intfdata : t.intfdata = s.intfdata
  size : t.dev.intInSize = s.dev.intInSize
  buffer : t.intInBuffer.length = s.intInBuffer.length
  filled : t.urb.transferBufferLength = s.urb.transferBufferLength

theorem State.Ok.frame (h : s.Ok) (hf : s.Frame t)
    (htoken : t.flights + t.callbacks.countP Callback.holds ≤ 1)
    (hquiet : s.driver.active = false → t.flights = 0 ∧ t.callbacks = [])
    (hreport : t.dev.lastReport.length = reportSize) : t.Ok where
  token := htoken
  quiet := by
    rw [hf.driver]
    exact hquiet
  freed := by
    rw [hf.heap, hf.driver]
    exact h.freed
  built := by
    rw [hf.driver]
    exact h.built.of_eq hf.heap hf.size hf.buffer hf.filled
  report := hreport
  attached := by
    rw [hf.driver, hf.intfdata]
    exact h.attached
  start := by
    rw [hf.driver, hf.heap]
    exact h.start

theorem Driver.stage_of_active {p : Driver} (h : p.active = true) : p.stage = 6 := by
  cases p <;> first | rfl | cases h

theorem Driver.released_of_active {p : Driver} (h : p.active = true) (o : Object) :
    p.released o = false := by
  cases p <;> first | rfl | cases h

/-- With the URB in flight or a callback running, all is there. -/
theorem State.Ok.active (h : s.Ok) (hbusy : 0 < s.flights ∨ s.callbacks ≠ []) :
    s.driver.active = true ∧ s.Built 6 := by
  have hactive : s.driver.active = true := by
    by_contra hnot
    obtain ⟨hflights, hcallbacks⟩ := h.quiet (Bool.eq_false_of_not_eq_true hnot)
    rcases hbusy with hlt | hne
    · exact absurd hflights (Nat.ne_of_gt hlt)
    · exact hne hcallbacks
  exact ⟨hactive, Driver.stage_of_active hactive ▸ h.built⟩

theorem State.Ok.live (h : s.Ok) (hbusy : 0 < s.flights ∨ s.callbacks ≠ []) (o : Object) :
    (s.heap o).Live := by
  obtain ⟨hactive, hbuilt⟩ := h.active hbusy
  exact h.freed.live (Driver.released_of_active hactive o)
    (hbuilt.allocated o (Nat.le_trans o.stage_le (by decide)))

theorem State.Ok.completeStep {status : Int} {data : List Byte} (h : s.Ok)
    (hs : completeStep s status data = some t) : t.Ok := by
  obtain ⟨⟨hflight, hdata⟩, heq⟩ := Option.ite_none_right_eq_some.mp hs
  obtain rfl := Option.some.inj heq
  obtain ⟨hactive, hbuilt⟩ := h.active (Or.inl hflight)
  have hlen : data.length ≤ s.intInBuffer.length := by
    rw [hbuilt.buffer (by decide), ← hbuilt.filled (by decide)]
    exact hdata
  refine h.frame ⟨rfl, rfl, rfl, rfl, length_memcpy (Nat.le_refl _) hlen, rfl⟩ ?_
    (fun hnot => absurd (hactive.symm.trans hnot) nofun) h.report
  have htoken := h.token
  change s.flights - 1 + (s.callbacks ++ [Callback.start]).countP Callback.holds ≤ 1
  have hone : [Callback.start].countP Callback.holds = 1 := rfl
  rw [List.countP_append, hone]
  omega

theorem State.Ok.callbackStep {i : ℕ} {ok : Bool} (h : s.Ok)
    (hs : callbackStep s i ok = some t) : t.Ok := by
  obtain ⟨p, hp, hs⟩ := Option.map_eq_some_iff.mp hs
  have hbusy : s.callbacks ≠ [] := List.ne_nil_of_mem (List.mem_of_getElem? hp)
  obtain ⟨hactive, hbuilt⟩ := h.active (Or.inr hbusy)
  have hquiet : ∀ u : State, s.driver.active = false → u.flights = 0 ∧ u.callbacks = [] :=
    fun _ hnot => absurd (hactive.symm.trans hnot) nofun
  have htoken := h.token
  -- going on, with the token or without it
  have hset : p.holds = true → ∀ q : Callback,
      s.flights + (s.callbacks.set i q).countP Callback.holds ≤ 1 := by
    intro hholds q
    have hcount := countP_set_add Callback.holds hp q
    have hle := q.holds.toNat_le
    rw [hholds, Bool.toNat_true] at hcount
    omega
  cases p <;> dsimp only at hs
  case start =>
    obtain rfl := hs
    exact h.frame ⟨rfl, rfl, rfl, rfl, rfl, rfl⟩ (hset rfl _) (hquiet _) h.report
  case lock =>
    obtain rfl := hs
    exact h.frame ⟨rfl, rfl, rfl, rfl, rfl, rfl⟩ (hset rfl _) (hquiet _) h.report
  case report =>
    obtain rfl := hs
    have hroom : reportSize ≤ s.intInBuffer.length := by
      rw [hbuilt.buffer (by decide)]
      exact hbuilt.size (by decide)
    exact h.frame ⟨rfl, rfl, rfl, rfl, rfl, rfl⟩ (hset rfl _) (hquiet _)
      (UsbPanicb.length_report hroom h.report)
  case unlock =>
    obtain rfl := hs
    exact h.frame ⟨rfl, rfl, rfl, rfl, rfl, rfl⟩ (hset rfl _) (hquiet _) h.report
  case prInfo =>
    obtain rfl := hs
    exact h.frame ⟨rfl, rfl, rfl, rfl, rfl, rfl⟩ (hset rfl _) (hquiet _) h.report
  case submit =>
    split at hs <;> obtain rfl := hs
    · refine h.frame ⟨rfl, rfl, rfl, rfl, rfl, rfl⟩ ?_ (hquiet _) h.report
      have hcount : (s.callbacks.set i .ret).countP Callback.holds + 1 =
          s.callbacks.countP Callback.holds := countP_set_add Callback.holds hp .ret
      change s.flights + 1 + (s.callbacks.set i .ret).countP Callback.holds ≤ 1
      omega
    · exact h.frame ⟨rfl, rfl, rfl, rfl, rfl, rfl⟩ (hset rfl _) (hquiet _) h.report
  case ret =>
    obtain rfl := hs
    refine h.frame ⟨rfl, rfl, rfl, rfl, rfl, rfl⟩ ?_ (hquiet _) h.report
    have hle := (List.eraseIdx_sublist s.callbacks i).countP_le (p := Callback.holds)
    exact Nat.le_trans (Nat.add_le_add_left hle _) htoken

/-- A user changes the files and the opens in progress. -/
theorem userStep_cases {a : FileAct Op} (hs : userStep s a = some t) :
    ∃ files opening, fops.step s.files a = some files ∧
      t = { s with files := files, opening := opening } ∧
        (∀ f, a = .openFile f → s.driver.published = true ∧ f ∈ opening) ∧
          ∀ f ∈ s.opening, f ≠ a.file → f ∈ opening := by
  cases a with
  | openFile f =>
    obtain ⟨hpublished, hmap⟩ := Option.ite_none_right_eq_some.mp hs
    obtain ⟨files, hfiles, rfl⟩ := Option.map_eq_some_iff.mp hmap
    refine ⟨files, _, hfiles, rfl, ?_, fun g hg _ => Finset.mem_insert_of_mem hg⟩
    rintro _ ⟨⟩
    exact ⟨hpublished, Finset.mem_insert_self _ _⟩
  | resume f i ret =>
    obtain ⟨-, hmap⟩ := Option.ite_none_right_eq_some.mp hs
    obtain ⟨files, hfiles, rfl⟩ := Option.map_eq_some_iff.mp hmap
    exact ⟨files, _, hfiles, rfl, nofun, fun g hg hne => Finset.mem_erase.mpr ⟨hne, hg⟩⟩
  | call f op | release f =>
    obtain ⟨files, hfiles, rfl⟩ := Option.map_eq_some_iff.mp hs
    exact ⟨files, _, hfiles, rfl, nofun, fun g hg _ => hg⟩

/-- **Step lemma.** Every step of every party keeps the invariant. -/
theorem State.Ok.step {a : Act} (h : s.Ok) (hs : (device eps fresh).step s a = some t) : t.Ok := by
  cases a with
  | driver ok => exact h.driverStep hs
  | complete status data => exact h.completeStep hs
  | callback i ok => exact h.callbackStep hs
  | user a =>
    obtain ⟨files, opening, -, rfl, -⟩ := userStep_cases hs
    exact h.frame ⟨rfl, rfl, rfl, rfl, rfl, rfl⟩ h.token h.quiet h.report

/-- **Run lemma.** The invariant holds in every state reached. -/
theorem ok_of_reach {guard : State → Act → Prop} (h : (device eps fresh).Reach guard s) : s.Ok :=
  h.invariant State.Ok.init fun _ _ _ hi _ hs => hi.step hs

/-! ## What follows

The promises of the driver, read off the invariant: nothing is freed under a callback,
nothing is freed twice, nothing is forgotten, and the report stays in its arrays. -/

/-- Only `panicb_probe` and `panicb_disconnect` themselves go on, and free. -/
theorem step_other {a : Act} (hs : (device eps fresh).step s a = some t)
    (hother : ∀ ok, a ≠ .driver ok) : t.driver = s.driver ∧ t.heap = s.heap := by
  cases a with
  | driver ok => exact absurd rfl (hother ok)
  | complete status data =>
    obtain ⟨-, heq⟩ := Option.ite_none_right_eq_some.mp hs
    obtain rfl := Option.some.inj heq
    exact ⟨rfl, rfl⟩
  | callback i ok =>
    obtain ⟨p, -, hs⟩ := Option.map_eq_some_iff.mp hs
    cases p <;> dsimp only at hs
    case submit => split at hs <;> obtain rfl := hs <;> exact ⟨rfl, rfl⟩
    all_goals
      obtain rfl := hs
      exact ⟨rfl, rfl⟩
  | user a =>
    obtain ⟨files, opening, -, rfl, -⟩ := userStep_cases hs
    exact ⟨rfl, rfl⟩

/-- Nothing is freed before `usb_kill_urb` has returned. -/
theorem step_heap {a : Act} (hactive : s.driver.active = true)
    (hs : (device eps fresh).step s a = some t) : t.heap = s.heap := by
  by_cases hdriver : ∃ ok, a = .driver ok
  · obtain ⟨ok, rfl⟩ := hdriver
    have hs : driverStep eps fresh s ok = some t := hs
    rw [Panicb.driverStep] at hs
    rcases hd : s.driver <;> simp only [hd] at hs
    case bound | getIntfdata | clearIntfdata | killUrb =>
      obtain rfl := Option.some.inj hs
      rfl
    case deregister dev =>
      obtain ⟨-, heq⟩ := Option.ite_none_right_eq_some.mp hs
      split at heq <;> obtain rfl := Option.some.inj heq <;> rfl
    case killWait =>
      obtain ⟨-, heq⟩ := Option.ite_none_right_eq_some.mp hs
      obtain rfl := Option.some.inj heq
      rfl
    all_goals
      rw [hd] at hactive
      cases hactive
  · exact (step_other hs fun ok hok => hdriver ⟨ok, hok⟩).2

/-- The `memset` and the `memcpy` of the callback stay in the arrays. -/
def State.InBounds (s : State) : Prop :=
  reportSize ≤ s.dev.lastReport.length ∧
    reportLen s.urb.actualLength ≤ s.dev.lastReport.length ∧
      reportLen s.urb.actualLength ≤ s.intInBuffer.length

theorem State.Ok.inBounds (h : s.Ok) (hreport : .report ∈ s.callbacks) : s.InBounds := by
  obtain ⟨-, hbuilt⟩ := h.active (Or.inr (List.ne_nil_of_mem hreport))
  have hlen : reportLen s.urb.actualLength ≤ reportSize := Nat.min_le_right _ _
  have hroom : reportSize ≤ s.intInBuffer.length := by
    rw [hbuilt.buffer (by decide)]
    exact hbuilt.size (by decide)
  rw [State.InBounds, h.report]
  exact ⟨Nat.le_refl _, hlen, Nat.le_trans hlen hroom⟩

/-- The URB is in flight, or a callback is running. -/
def State.Busy (s : State) : Prop := 0 < s.flights ∨ s.callbacks ≠ []

/-- Each object was freed once, if it was there. -/
def State.Clean (s : State) : Prop :=
  ∀ o, (s.heap o).frees = if (s.heap o).allocated = true then 1 else 0

theorem State.Ok.clean (h : s.Ok) (hreleased : ∀ o, s.driver.released o = true) : s.Clean := by
  intro o
  rw [h.freed o, hreleased o]
  exact if_congr (and_iff_right rfl) rfl rfl

/-- **The URB protocol.** In every state reached: the URB is in flight at most once; while
it is, or a callback is running, all objects are there, and no step frees one; none is
freed twice; after a failed probe, and after a disconnect, each that was there has been
freed; and a callback at its report stays in the buffer and in `last_report`.

The submission of the URB is a token. The probe hands it to the core, the core to a
callback, and the callback back to the core or to nobody. `panicb_disconnect` frees behind
`usb_kill_urb`, which returns when nobody has the token, and the `error` label is reached
only if it was never handed out; so whoever has it finds every object that a callback
uses. -/
theorem urb_protocol (h : (device eps fresh).Reach (fun _ _ => True) s) :
    s.flights ≤ 1 ∧
    (s.Busy → (∀ o, (s.heap o).Live) ∧
      ∀ a t, (device eps fresh).step s a = some t → t.heap = s.heap) ∧
    (∀ o, (s.heap o).frees ≤ 1) ∧
    (s.driver = .failed → s.Clean) ∧
    (s.driver = .disconnected → ∀ o, (s.heap o).frees = 1) ∧
    (.report ∈ s.callbacks → s.InBounds) := by
  have hok := ok_of_reach h
  refine ⟨Nat.le_trans (Nat.le_add_right _ _) hok.token, fun hbusy => ⟨hok.live hbusy, ?_⟩,
    hok.freed.frees_le, fun hfailed => ?_, fun hgone o => ?_, hok.inBounds⟩
  · intro a t hs
    exact step_heap (hok.active hbusy).1 hs
  · refine hok.clean fun o => ?_
    rw [hfailed]
    rfl
  · have hbuilt : s.Built Driver.disconnected.stage := hgone ▸ hok.built
    have hclean : s.Clean := hok.clean fun o => by rw [hgone]; rfl
    rw [hclean o, if_pos (hbuilt.allocated o (Nat.le_trans o.stage_le (by decide)))]

/-- An interface with one endpoint, of four bytes. -/
def buttonEndpoints : List UsbEndpointDescriptor := [⟨0x81, 0x03, 4⟩]

/-- The button is plugged in and pressed, and unplugged with the URB in flight
again. -/
def pressedRun : List Act :=
  List.replicate 9 (Act.driver true) ++ [Act.complete 0 [1, 0, 0]] ++
    List.replicate 7 (Act.callback 0 true) ++ List.replicate 5 (Act.driver true) ++
    [Act.complete enoent [], .callback 0 true, .callback 0 true] ++
    List.replicate 5 (Act.driver true)

theorem urb_protocol_pressed : ∃ s,
    (device buttonEndpoints fun _ => 0).exec Panicb.init pressedRun = some s ∧
      s.dev.button = 1 ∧ ∀ o, (s.heap o).frees = 1 := by
  have hrun : ((device buttonEndpoints fun _ => 0).exec Panicb.init pressedRun).map
      (fun s => (s.driver, s.dev.button)) = some (.disconnected, 1) := by
    decide +kernel
  obtain ⟨s, hs, heq⟩ := Option.map_eq_some_iff.mp hrun
  obtain ⟨hdriver, hbutton⟩ := Prod.mk.inj heq
  exact ⟨s, hs, hbutton, (urb_protocol (Lts.Reach.init.replay hs)).2.2.2.2.1 hdriver⟩

end Panicb

end KernelDrvLearn
