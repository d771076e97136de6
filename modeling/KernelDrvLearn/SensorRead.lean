import KernelDrvLearn.Fakesensor
import KernelDrvLearn.Printf

/-!
# Reading the sensors

`device_read` of `myproject/driver/src/mysensordrv.c`, called by any number of
readers of any number of devices. The `sprintf` is one step, and so is every
test of a byte of `message` and every `put_user`.

`message` is `static`: one buffer for all. Beside the driver stands what each
device looks like to its readers, `alone`: there a call reads the text its own
`sprintf` made. The driver keeps to it, device by device, as long as no call
formats a different text while another is still reading, and no offset lies in
what an earlier text has left behind the present one (`device_read_isolated`).
-/

namespace KernelDrvLearn

namespace Sensor

namespace Read

/-! ## One call

`device_read` in steps: the `sprintf` into the shared buffer, the jump to the offset, and
then byte after byte. What it sees of the buffer is passed to it, so that the same call
can be run on the shared one and on one of its own. -/

/-- The text of a status, `"temp=%d humidity=%d alarm=%d\n"`. -/
def messageText (stat : MysensorStatus) : List Byte :=
  ascii "temp=" ++ fmtD (getTemp stat).toInt ++ ascii " humidity=" ++ fmtD (getHum stat).toInt ++
    ascii " alarm=" ++ fmtD (getAlm stat).toInt ++ ascii "\n"

/-- The `sprintf` into `message`: the text and its terminator. -/
def sprintf (message : ℕ → Byte) (stat : MysensorStatus) : ℕ → Byte :=
  Mem.store message 0 (messageText stat ++ [0])

/-- Where a call stands, with what it has put so far. -/
inductive Pc where
  /-- not called -/
  | idle
  /-- before the `sprintf` -/
  | sprintf
  /-- before the test of `message[*off]` -/
  | test
  /-- before the test of the loop -/
  | loop
  /-- before the `put_user` -/
  | put
  /-- returned `bytes_read` -/
  | returned
  deriving DecidableEq

/-- A call of `device_read`. -/
structure Call where
  /-- where it stands -/
  pc : Pc
  /-- `*off` -/
  off : ℕ
  /-- `message_ptr`, as an index into `message` -/
  messagePtr : ℕ
  /-- `size` -/
  size : ℕ
  /-- `bytes_read` -/
  bytesRead : ℕ
  /-- the bytes put to the user -/
  buf : List Byte
  /-- record: the status of the device at the `sprintf` -/
  sampled : MysensorStatus

/-- A call not made yet, of which nothing is to be seen. -/
def Call.none : Call := ⟨.idle, 0, 0, 0, 0, [], initTempstat⟩

/-- A call just made, before its `sprintf`. -/
def Call.start (off size : ℕ) : Call :=
  { Call.none with pc := .sprintf, off := off, size := size }

/-- One step of a call. `read` is how it sees `message`; what the `sprintf` does
to `message` is `State.format`. -/
def Call.run (read : ℕ → Byte) (stat : MysensorStatus) (c : Call) : Option Call :=
  match c.pc with
  | .idle => Option.none
  | .sprintf => some { c with pc := .test, sampled := stat }
  | .test =>
    if read c.off = 0 then some { c with off := 0, pc := .returned }
    else some { c with messagePtr := c.off, pc := .loop }
  | .loop =>
    if c.size ≠ 0 ∧ read c.messagePtr ≠ 0 then some { c with pc := .put }
    else some { c with off := c.off + c.bytesRead, pc := .returned }
  | .put =>
    some { c with
      buf := c.buf ++ [read c.messagePtr]
      messagePtr := c.messagePtr + 1
      size := c.size - 1
      bytesRead := c.bytesRead + 1
      pc := .loop }
  | .returned => Option.none

/-! ## One device

A device on its own, with its status and the calls on it. This is what each device should
look like from outside, whatever the others do. -/

/-- A bound device and the calls on it. -/
structure Device where
  /-- `mysensor->stat` -/
  stat : MysensorStatus
  /-- the calls, each number being used once -/
  calls : ℕ → Call

/-- What can happen at a device: a call is made, or takes a step, or the status changes.
-/
inductive Event where
  /-- call `i` is made -/
  | read (i off size : ℕ)
  /-- call `i` takes a step -/
  | run (i : ℕ)
  /-- an ioctl changes the status -/
  | status (stat : MysensorStatus)

/-- One step of a device, `read` being how a call sees `message`. -/
def Device.step (read : Call → ℕ → Byte) (d : Device) : Event → Option Device
  | .read i off size =>
    if (d.calls i).pc = .idle then
      some { d with calls := Function.update d.calls i (.start off size) }
    else none
  | .run i =>
    ((d.calls i).run (read (d.calls i)) d.stat).map fun c =>
      { d with calls := Function.update d.calls i c }
  | .status stat => some { d with stat := stat }

/-- The text a call formatted itself, and zeros behind it. -/
def Call.own (c : Call) (k : ℕ) : Byte := ((messageText c.sampled)[k]?).getD 0

/-- A device whose calls read what they formatted. -/
def alone (stat : MysensorStatus) : Lts Device Event where
  init := ⟨stat, fun _ => .none⟩
  step := Device.step Call.own

/-! ## The driver

All devices and the one static buffer, which the text of any call overwrites.
`Undisturbed` is the condition on a run under which nobody notices. -/

/-- All devices, and the buffer they share between them. -/
structure State where
  /-- memory from `message` on -/
  message : ℕ → Byte
  /-- the devices -/
  device : ℕ → Device

/-- The buffer after a step: another text, if the step is a `sprintf`. -/
def State.format (s : State) (d : ℕ) : Event → ℕ → Byte
  | .run i =>
    if ((s.device d).calls i).pc = .sprintf then sprintf s.message (s.device d).stat
    else s.message
  | .read _ _ _ => s.message
  | .status _ => s.message

/-- One step, at device `a.1`, the others looking on. -/
def step (s : State) (a : ℕ × Event) : Option State :=
  (Device.step (fun _ => s.message) (s.device a.1) a.2).map fun d =>
    ⟨s.format a.1 a.2, Function.update s.device a.1 d⟩

/-- The driver with devices of these statuses, and this in `message`. -/
def system (stat : ℕ → MysensorStatus) (message : ℕ → Byte) : Lts State (ℕ × Event) where
  init := ⟨message, fun d => ⟨stat d, fun _ => .none⟩⟩
  step := step

/-- What device `d` sees of a step. -/
def view (d : ℕ) (a : ℕ × Event) : Option Event := if a.1 = d then some a.2 else none

/-- Has the call a byte of `message` still to read? -/
def Call.Reading (c : Call) : Prop :=
  match c.pc with
  | .test | .put => True
  | .loop => c.size ≠ 0
  | .idle | .sprintf | .returned => False

/-- A call formats no text different from that of a call that is still reading;
and where the offset of a call is past the end of its text, the byte there is 0. -/
def Undisturbed (s : State) (a : ℕ × Event) : Prop :=
  match a.2 with
  | .run i =>
    let c := (s.device a.1).calls i
    (c.pc = .sprintf → ∀ d j, ((s.device d).calls j).Reading →
      messageText ((s.device d).calls j).sampled = messageText (s.device a.1).stat) ∧
    (c.pc = .test → (messageText c.sampled).length < c.off → s.message c.off = 0)
  | .read _ _ _ => True
  | .status _ => True

/-! ## A call that reads what it formatted

With a buffer of its own a call delivers a contiguous piece of its text, from the offset
on, whatever the number of bytes asked for. -/

/-- What a call has delivered is a piece of its text: nothing before the loop,
and in it what ends at `message_ptr`, which is within the text. -/
def Call.Ok (c : Call) : Prop :=
  match c.pc with
  | .idle | .sprintf | .test => c.buf = []
  | .loop =>
    c.messagePtr ≤ (messageText c.sampled).length ∧
      c.buf <:+ (messageText c.sampled).take c.messagePtr
  | .put =>
    c.messagePtr < (messageText c.sampled).length ∧
      c.buf <:+ (messageText c.sampled).take c.messagePtr
  | .returned => c.buf <:+: messageText c.sampled

theorem Call.Ok.isInfix {c : Call} (h : c.Ok) : c.buf <:+: messageText c.sampled := by
  rcases hpc : c.pc <;> simp only [Call.Ok, hpc] at h
  case idle | sprintf | test =>
    rw [h]
    exact List.nil_infix
  case loop | put => exact h.2.isInfix.trans (List.take_prefix _ _).isInfix
  case returned => exact h

/-- A byte of the text that is not 0 is within it. -/
theorem Call.lt_of_own_ne {c : Call} {k : ℕ} (h : c.own k ≠ 0) :
    k < (messageText c.sampled).length := by
  by_contra hle
  refine h ?_
  rw [Call.own, List.getElem?_eq_none (Nat.le_of_not_lt hle), Option.getD_none]

/-- The byte a call puts next continues what it has delivered. -/
theorem Call.suffix_put {c : Call} (hlt : c.messagePtr < (messageText c.sampled).length)
    (h : c.buf <:+ (messageText c.sampled).take c.messagePtr) :
    c.buf ++ [c.own c.messagePtr] <:+ (messageText c.sampled).take (c.messagePtr + 1) := by
  have hown : c.own c.messagePtr = (messageText c.sampled)[c.messagePtr] := by
    rw [Call.own, List.getElem?_eq_getElem hlt, Option.getD_some]
  rw [hown, List.take_succ_eq_append_getElem hlt]
  obtain ⟨before, hbefore⟩ := h
  exact ⟨before, by rw [← List.append_assoc, hbefore]⟩

/-- **Step lemma** of a call that reads its own text. -/
theorem Call.Ok.run {c c' : Call} {stat : MysensorStatus} (h : c.Ok)
    (hs : c.run c.own stat = some c') : c'.Ok := by
  rcases hpc : c.pc <;> simp only [Call.run, hpc] at hs <;> simp only [Call.Ok, hpc] at h
  case idle | returned => cases hs
  case sprintf =>
    obtain rfl := Option.some.inj hs
    exact h
  case test =>
    split at hs
    case isTrue =>
      obtain rfl := Option.some.inj hs
      change c.buf <:+: messageText c.sampled
      rw [h]
      exact List.nil_infix
    case isFalse hne =>
      obtain rfl := Option.some.inj hs
      refine ⟨Nat.le_of_lt (Call.lt_of_own_ne hne), ?_⟩
      change c.buf <:+ (messageText c.sampled).take c.off
      rw [h]
      exact List.nil_suffix
  case loop =>
    split at hs
    case isTrue hmore =>
      obtain rfl := Option.some.inj hs
      exact ⟨Call.lt_of_own_ne hmore.2, h.2⟩
    case isFalse =>
      obtain rfl := Option.some.inj hs
      exact h.2.isInfix.trans (List.take_prefix _ _).isInfix
  case put =>
    obtain rfl := Option.some.inj hs
    exact ⟨h.1, Call.suffix_put h.1 h.2⟩

/-! ## A call that reads the shared buffer

As long as the buffer holds the call's own text, its zero included, reading the shared
buffer is reading its own. Behind the text the two differ, so an offset there has to be at
a zero. -/

/-- The buffer holds the text of the call, with the zero behind it. -/
def Call.Holds (message : ℕ → Byte) (c : Call) : Prop :=
  ∀ k ≤ (messageText c.sampled).length, message k = c.own k

/-- A call finds what it has just formatted. -/
theorem holds_sprintf (message : ℕ → Byte) {c : Call} {stat : MysensorStatus}
    (h : messageText c.sampled = messageText stat) : c.Holds (sprintf message stat) := by
  intro k hk
  rw [h] at hk
  rw [Call.own, h, sprintf, Mem.store, if_neg (Nat.not_lt_zero k), Nat.sub_zero]
  rcases Nat.lt_or_eq_of_le hk with hlt | rfl
  · rw [List.getElem?_append_left hlt, List.getElem?_eq_getElem hlt]
    rfl
  · rw [List.getElem?_concat_length, List.getElem?_eq_none (Nat.le_refl _)]
    rfl

/-- A call that finds its text, and a zero at an offset behind it, does what it
would do with a buffer of its own. -/
theorem Call.Ok.run_eq {message : ℕ → Byte} {c : Call} (h : c.Ok)
    (hholds : c.Reading → c.Holds message)
    (hoff : c.pc = .test → (messageText c.sampled).length < c.off → message c.off = 0)
    (stat : MysensorStatus) : c.run message stat = c.run c.own stat := by
  rcases hpc : c.pc <;> simp only [Call.run, hpc] <;> simp only [Call.Ok, hpc] at h
  case test =>
    have hbyte : message c.off = c.own c.off := by
      by_cases hle : c.off ≤ (messageText c.sampled).length
      · exact hholds (by rw [Call.Reading, hpc]; trivial) _ hle
      · rw [hoff hpc (Nat.lt_of_not_le hle), Call.own,
          List.getElem?_eq_none (Nat.le_of_not_le hle), Option.getD_none]
    rw [hbyte]
  case loop =>
    by_cases hsize : c.size = 0
    · simp only [hsize, ne_eq, not_true_eq_false, false_and]
    · have hbyte : message c.messagePtr = c.own c.messagePtr :=
        hholds (by rw [Call.Reading, hpc]; exact hsize) _ h.1
      rw [hbyte]
  case put =>
    have hbyte : message c.messagePtr = c.own c.messagePtr :=
      hholds (by rw [Call.Reading, hpc]; trivial) _ (Nat.le_of_lt h.1)
    rw [hbyte]

/-- A call that reads after a step which is no `sprintf` was reading before it. -/
theorem Call.Reading.of_run {read : ℕ → Byte} {c c' : Call} {stat : MysensorStatus}
    (h : c'.Reading) (hne : c.pc ≠ .sprintf) (hs : c.run read stat = some c') :
    c.Reading ∧ c'.sampled = c.sampled := by
  rcases hpc : c.pc <;> simp only [Call.run, hpc] at hs
  case idle | returned => cases hs
  case sprintf => exact absurd hpc hne
  case test =>
    rw [Call.Reading, hpc]
    split at hs <;> obtain rfl := Option.some.inj hs <;> exact ⟨trivial, rfl⟩
  case loop =>
    rw [Call.Reading, hpc]
    split at hs
    case isTrue hmore =>
      obtain rfl := Option.some.inj hs
      exact ⟨hmore.1, rfl⟩
    case isFalse =>
      obtain rfl := Option.some.inj hs
      exact absurd h id
  case put =>
    rw [Call.Reading, hpc]
    obtain rfl := Option.some.inj hs
    exact ⟨trivial, rfl⟩

/-! ## All devices

Both together, for all calls at once: undisturbed runs keep the text of each call that
still reads in the buffer, and so each device goes its own way. -/

/-- All calls are at pieces of their texts, and the buffer holds the text of
every call that still reads. -/
structure State.Inv (s : State) : Prop where
  ok : ∀ d i, ((s.device d).calls i).Ok
  holds : ∀ d i, ((s.device d).calls i).Reading → ((s.device d).calls i).Holds s.message

theorem inv_init (stat : ℕ → MysensorStatus) (message : ℕ → Byte) :
    State.Inv (system stat message).init :=
  ⟨fun _ _ => rfl, fun _ _ h => absurd h id⟩

/-- A device does what it would do alone. -/
theorem State.Inv.step_eq {s : State} (h : s.Inv) {a : ℕ × Event} (ha : Undisturbed s a) :
    Device.step (fun _ => s.message) (s.device a.1) a.2 =
      Device.step Call.own (s.device a.1) a.2 := by
  obtain ⟨d, a⟩ := a
  cases a with
  | read i off size => rfl
  | status stat => rfl
  | run i =>
    have hrun := (h.ok d i).run_eq (h.holds d i) ha.2 (s.device d).stat
    simp only [Device.step, hrun]

/-- The invariant, when one call of one device changes. -/
theorem State.Inv.setCall {s t : State} (h : s.Inv) {d i : ℕ} {c : Call} (hok : c.Ok)
    (hdevice : t.device = Function.update s.device d
      { s.device d with calls := Function.update (s.device d).calls i c })
    (hc : c.Reading → c.Holds t.message)
    (hothers : ∀ d' j, ((s.device d').calls j).Reading →
      ((s.device d').calls j).Holds t.message) : t.Inv := by
  -- what holds of the new call and held of all others holds of all
  have hcall : ∀ P : Call → Prop, P c → (∀ d' j, P ((s.device d').calls j)) →
      ∀ d' j, P ((t.device d').calls j) := by
    intro P hnew hold
    rw [hdevice]
    refine (Function.forall_update_iff s.device fun _ dev => ∀ j, P (dev.calls j)).mpr
      ⟨?_, fun d' _ => hold d'⟩
    exact (Function.forall_update_iff (s.device d).calls fun _ x => P x).mpr
      ⟨hnew, fun j _ => hold d j⟩
  exact ⟨hcall Call.Ok hok h.ok,
    hcall (fun x => x.Reading → x.Holds t.message) hc hothers⟩

/-- **Step lemma.** An undisturbed step keeps every reader's text. -/
theorem State.Inv.step {s t : State} (h : s.Inv) {a : ℕ × Event} (ha : Undisturbed s a)
    (hs : step s a = some t) : t.Inv := by
  have heq := h.step_eq ha
  obtain ⟨d, a⟩ := a
  cases a with
  | read i off size =>
    obtain ⟨dev, hdev, rfl⟩ := Option.map_eq_some_iff.mp hs
    rw [Device.step] at hdev
    split at hdev
    case isFalse => cases hdev
    case isTrue =>
      obtain rfl := Option.some.inj hdev
      exact h.setCall (c := .start off size) rfl rfl (fun hread => absurd hread id) h.holds
  | status stat =>
    obtain ⟨dev, hdev, rfl⟩ := Option.map_eq_some_iff.mp hs
    obtain rfl := Option.some.inj hdev
    -- the calls are as they were
    constructor
    · exact (Function.forall_update_iff s.device fun _ dev => ∀ j, (dev.calls j).Ok).mpr
        ⟨h.ok d, fun d' _ => h.ok d'⟩
    · exact (Function.forall_update_iff s.device fun _ dev =>
        ∀ j, (dev.calls j).Reading → (dev.calls j).Holds s.message).mpr
        ⟨h.holds d, fun d' _ => h.holds d'⟩
  | run i =>
    obtain ⟨dev, hdev, rfl⟩ := Option.map_eq_some_iff.mp hs
    rw [heq] at hdev
    obtain ⟨c, hc, rfl⟩ := Option.map_eq_some_iff.mp hdev
    refine h.setCall ((h.ok d i).run hc) rfl ?_ ?_
    · intro hread
      by_cases hpc : ((s.device d).calls i).pc = .sprintf
      · -- the call has just formatted
        have hsampled : c.sampled = (s.device d).stat := by
          rw [Call.run, hpc] at hc
          obtain rfl := Option.some.inj hc
          rfl
        have hmessage : s.format d (.run i) = sprintf s.message (s.device d).stat := if_pos hpc
        change c.Holds (s.format d (.run i))
        rw [hmessage]
        exact holds_sprintf _ (congrArg messageText hsampled)
      · have hmessage : s.format d (.run i) = s.message := if_neg hpc
        obtain ⟨hread', hsampled⟩ := hread.of_run hpc hc
        have hholds := h.holds d i hread'
        change c.Holds (s.format d (.run i))
        rw [hmessage]
        rw [Call.Holds] at hholds ⊢
        simp only [Call.own, hsampled] at hholds ⊢
        exact hholds
    · intro d' j hread
      change ((s.device d').calls j).Holds (s.format d (.run i))
      by_cases hpc : ((s.device d).calls i).pc = .sprintf
      · have hmessage : s.format d (.run i) = sprintf s.message (s.device d).stat := if_pos hpc
        rw [hmessage]
        exact holds_sprintf _ (ha.1 hpc d' j hread)
      · have hmessage : s.format d (.run i) = s.message := if_neg hpc
        rw [hmessage]
        exact h.holds d' j hread

/-- **What a device sees of a run** is a run of its own. -/
theorem device_run {stat : ℕ → MysensorStatus} {message : ℕ → Byte} {as : List (ℕ × Event)}
    {s : State} (hrun : (system stat message).Run Undisturbed as)
    (hexec : (system stat message).exec (system stat message).init as = some s) (d : ℕ) :
    (alone (stat d)).exec (alone (stat d)).init (as.filterMap (view d)) = some (s.device d) := by
  refine Lts.exec_view (N := alone (stat d)) State.Inv (fun s => s.device d) (view d)
    (fun _ _ _ h ha hs => h.step ha hs) ?_ ?_ (inv_init stat message) hrun hexec
  · intro s a t b h ha hs hview
    rw [view] at hview
    split at hview
    case isFalse => cases hview
    case isTrue hd =>
      obtain rfl := Option.some.inj hview
      obtain ⟨dev, hdev, rfl⟩ := Option.map_eq_some_iff.mp hs
      rw [h.step_eq ha] at hdev
      subst hd
      change Device.step Call.own (s.device a.1) a.2 = some (Function.update s.device a.1 dev a.1)
      rw [Function.update_self]
      exact hdev
  · intro s a t h ha hs hview
    rw [view] at hview
    split at hview
    case isTrue => cases hview
    case isFalse hd =>
      obtain ⟨dev, hdev, rfl⟩ := Option.map_eq_some_iff.mp hs
      exact Function.update_of_ne (Ne.symm hd) ..

/-- **Isolation.** In a run in which no call formats a different text while
another is reading, and no offset lies in what an earlier text has left, every
call delivers a contiguous piece of the text of its own device, as the status
was at its `sprintf`; and a device for which the same happens in another such
run delivers the same, whatever the other devices hold and do. -/
theorem device_read_isolated {stat : ℕ → MysensorStatus} {message : ℕ → Byte}
    {as : List (ℕ × Event)} {s : State} (hrun : (system stat message).Run Undisturbed as)
    (hexec : (system stat message).exec (system stat message).init as = some s) :
    (∀ d i, ((s.device d).calls i).buf <:+: messageText ((s.device d).calls i).sampled) ∧
      ∀ (d : ℕ) (stat' : ℕ → MysensorStatus) (message' : ℕ → Byte) (as' : List (ℕ × Event))
        (s' : State), (system stat' message').Run Undisturbed as' →
        (system stat' message').exec (system stat' message').init as' = some s' →
        stat' d = stat d → as'.filterMap (view d) = as.filterMap (view d) →
        s'.device d = s.device d := by
  constructor
  · have hinv : s.Inv := by
      refine Lts.Reach.invariant (M := system stat message) (inv_init stat message)
        (fun _ _ _ h ha hs => h.step ha hs) ?_
      exact Lts.Reach.init.exec hrun hexec
    exact fun d i => (hinv.ok d i).isInfix
  · intro d stat' message' as' s' hrun' hexec' hstat hview
    have hs := device_run hrun hexec d
    have hs' := device_run hrun' hexec' d
    rw [hstat, hview] at hs'
    exact Option.some.inj (hs'.symm.trans hs)

/-- A call of device `d` with `steps` steps. -/
def readOf (d size steps : ℕ) : List (ℕ × Event) :=
  (d, .read 0 0 size) :: List.replicate steps (d, .run 0)

/-- Device 0 at 2 degrees, the others at `temp`. -/
def statAt (temp : BitVec 32) (d : ℕ) : MysensorStatus :=
  if d = 0 then initTempstat else { initTempstat with temp := temp }

theorem undisturbed_readOf :
    (system (statAt 2) fun _ => 0).Run Undisturbed (readOf 0 1 5) ∧
      (system (statAt 7) fun _ => 0).Run Undisturbed (readOf 1 0 3 ++ readOf 0 1 5) := by
  constructor
  · refine ⟨_, rfl, trivial, _, rfl, ⟨fun _ => ?_, nofun⟩,
      _, rfl, ⟨nofun, fun _ h => absurd h (Nat.not_lt_zero _)⟩, _, rfl, ⟨nofun, nofun⟩,
      _, rfl, ⟨nofun, nofun⟩, _, rfl, ⟨nofun, nofun⟩, trivial⟩
    rintro (_ | d) (_ | j) h <;> exact absurd h id
  · refine ⟨_, rfl, trivial, _, rfl, ⟨fun _ => ?_, nofun⟩,
      _, rfl, ⟨nofun, fun _ h => absurd h (Nat.not_lt_zero _)⟩, _, rfl, ⟨nofun, nofun⟩,
      _, rfl, trivial, _, rfl, ⟨fun _ => ?_, nofun⟩,
      _, rfl, ⟨nofun, fun _ h => absurd h (Nat.not_lt_zero _)⟩, _, rfl, ⟨nofun, nofun⟩,
      _, rfl, ⟨nofun, nofun⟩, _, rfl, ⟨nofun, nofun⟩, trivial⟩
    · rintro (_ | _ | d) (_ | j) h <;> exact absurd h id
    · rintro (_ | _ | d) (_ | j) h <;> exact absurd h id

/-- Device 1 changes and is read, and the call on device 0 sees nothing of it. -/
theorem device_read_isolated_readOf : ∃ s s',
    (system (statAt 2) fun _ => 0).exec (system (statAt 2) fun _ => 0).init (readOf 0 1 5) =
        some s ∧
      (system (statAt 7) fun _ => 0).exec (system (statAt 7) fun _ => 0).init
        (readOf 1 0 3 ++ readOf 0 1 5) = some s' ∧
      ((s.device 0).calls 0).buf <:+: messageText ((s.device 0).calls 0).sampled ∧
      s'.device 0 = s.device 0 := by
  obtain ⟨s, hs⟩ := undisturbed_readOf.1.exec
  obtain ⟨s', hs'⟩ := undisturbed_readOf.2.exec
  obtain ⟨hpieces, hsame⟩ := device_read_isolated undisturbed_readOf.1 hs
  exact ⟨s, s', hs, hs', hpieces 0 0, hsame 0 _ _ _ _ undisturbed_readOf.2 hs' rfl rfl⟩

/-- Device 1 formats between the `sprintf` of a call on device 0 and its loop. -/
def raced : List (ℕ × Event) :=
  [(0, .read 0 0 6), (0, .run 0)] ++ readOf 1 6 1 ++ List.replicate 14 (0, .run 0)

/-- The call delivers what is on device 1. -/
theorem device_read_raced :
    ∃ s, (system (statAt 7) fun _ => 0).exec (system (statAt 7) fun _ => 0).init raced = some s ∧
      ((s.device 0).calls 0).pc = .returned ∧ (s.device 0).stat = statAt 7 0 ∧
      ¬ ((s.device 0).calls 0).buf <:+: messageText (statAt 7 0) :=
  ⟨_, rfl, by decide +kernel, rfl, by decide +kernel⟩

end Read

end Sensor

end KernelDrvLearn
