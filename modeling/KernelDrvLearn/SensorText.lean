import KernelDrvLearn.Readout
import KernelDrvLearn.SensorRead

/-!
# The text of a sensor, read in turn

`device_read` of `myproject/driver/src/mysensordrv.c` when the calls are made
one after another, between changes of the status. It is what a call of the
stepwise model does when no one else takes a step (`deviceRead_alone`).

The `sprintf` leaves in `message[128]` what earlier, longer texts have there
behind the zero. A read at an offset the present text does not reach is
therefore the end of the file or a piece of an old text, by the byte that
happens to be there (`read_exact_iff`).
-/

namespace KernelDrvLearn

namespace Sensor

namespace Text

open Read

/-- The size of `message`, the driver's static buffer. -/
abbrev messageSize : ℕ := 128

/-- A device, and the buffer with what earlier texts have left. -/
structure State where
  /-- `mysensor->stat` -/
  stat : MysensorStatus
  /-- memory from `message` on -/
  message : ℕ → Byte

/-- A device with nothing read yet; there are other things behind `message`. -/
def init (stat : MysensorStatus) (behind : ℕ → Byte) : State :=
  ⟨stat, fun i => if i < messageSize then 0 else behind i⟩

/-- What `device_read` leaves: the bytes, the offset and the value. -/
structure ReadResult where
  /-- the buffer afterwards -/
  message : ℕ → Byte
  /-- what was read out of it -/
  readout : Mem.Readout

/-- `device_read`, with nobody else taking a step. -/
def deviceRead (s : State) (size off : ℕ) : ReadResult :=
  let message := sprintf s.message s.stat
  ⟨message, Mem.readout message size off⟩

/-- What happens to a device: its status changes, or it is read. -/
inductive Op where
  /-- the status changes -/
  | status (stat : MysensorStatus)
  /-- `read` -/
  | read (off size : ℕ)

/-- The device afterwards, and the buffer. -/
def Op.apply (s : State) : Op → State
  | status stat => { s with stat := stat }
  | read off size => { s with message := (deviceRead s size off).message }

/-- A device after a history of changes and reads. -/
def run (stat : MysensorStatus) (behind : ℕ → Byte) (ops : List Op) : State :=
  ops.foldl Op.apply (init stat behind)

/-- The read delivers and counts the bytes of the current text from the offset
on, at most `size` of them, and looks at no byte behind `message`. -/
structure ReadResult.Exact (stat : MysensorStatus) (size off : ℕ) (r : ReadResult) : Prop where
  out : r.readout.out =
    ((messageText stat).drop off).take (min size ((messageText stat).length - off))
  ret : r.readout.ret = min size ((messageText stat).length - off)
  touched : ∀ i ∈ r.readout.touched, i < messageSize

/-! ## The text in the buffer

The text always fits, and behind its zero stands what a longer text before it has left
there. -/

theorem zero_notMem_messageText (stat : MysensorStatus) : 0 ∉ messageText stat := by
  simp only [messageText, List.mem_append, not_or]
  exact ⟨⟨⟨⟨⟨⟨by decide, zero_notMem_fmtD _⟩, by decide⟩, zero_notMem_fmtD _⟩, by decide⟩,
    zero_notMem_fmtD _⟩, by decide⟩

/-- Whatever the registers hold, the text fits. -/
theorem length_messageText (stat : MysensorStatus) : (messageText stat).length < messageSize := by
  have htemp := length_fmtD_toInt (getTemp stat)
  have hhum := length_fmtD_toInt (getHum stat)
  have halm := length_fmtD_toInt (getAlm stat)
  have h₁ : (ascii "temp=").length = 5 := by decide
  have h₂ : (ascii " humidity=").length = 10 := by decide
  have h₃ : (ascii " alarm=").length = 7 := by decide
  have h₄ : (ascii "\n").length = 1 := by decide
  simp only [messageText, List.length_append, h₁, h₂, h₃, h₄, messageSize]
  omega

theorem endsAt_sprintf (message : ℕ → Byte) (stat : MysensorStatus) :
    Mem.EndsAt (sprintf message stat) (messageText stat).length :=
  Mem.endsAt_store (zero_notMem_messageText stat)

/-- A piece of the string is a piece of the text. -/
theorem load_sprintf (message : ℕ → Byte) (stat : MysensorStatus) {off k : ℕ}
    (h : off + k ≤ (messageText stat).length) :
    Mem.load (sprintf message stat) off k = ((messageText stat).drop off).take k := by
  have hall : Mem.load (sprintf message stat) 0 (messageText stat).length = messageText stat :=
    Mem.load_store_append _ _
  have := Mem.load_drop_take (m := sprintf message stat) (p := 0) h
  rwa [hall, Nat.zero_add] at this

/-- Behind the text the buffer is as it was. -/
theorem sprintf_of_lt (message : ℕ → Byte) {stat : MysensorStatus} {i : ℕ}
    (h : (messageText stat).length < i) : sprintf message stat i = message i := by
  refine Mem.store_of_le ?_
  rw [List.length_append, Nat.zero_add]
  exact h

/-! ## The calls of the stepwise model

Piece by piece: the `sprintf`, the test at the offset, the turns of the loop and its end.
Put together they are `deviceRead`, which is therefore no second model of the function. -/

/-- The driver, with this call `i` at device `d`. -/
def setCall (s : Read.State) (d i : ℕ) (c : Call) : Read.State :=
  let calls := Function.update (s.device d).calls i c
  { s with device := Function.update s.device d { s.device d with calls := calls } }

/-- A call in its loop, when the loop is done. -/
def finish (message : ℕ → Byte) (c : Call) : Call :=
  let bytes := Mem.cstr message c.messagePtr c.size
  { c with
    buf := c.buf ++ bytes
    messagePtr := c.messagePtr + bytes.length
    size := c.size - bytes.length
    bytesRead := c.bytesRead + bytes.length
    off := c.off + (c.bytesRead + bytes.length)
    pc := .returned }

/-- A step of the call that formats nothing. -/
theorem step_setCall {s : Read.State} {d i : ℕ} {c c' : Call} (hpc : c.pc ≠ .sprintf)
    (h : c.run s.message (s.device d).stat = some c') :
    step (setCall s d i c) (d, .run i) = some (setCall s d i c') := by
  simp only [step, Device.step, setCall, Function.update_self, h, Option.map_some, State.format,
    if_neg hpc, Function.update_idem]

/-- The `sprintf` of a call, which leads it to its test. -/
theorem sprintf_alone (s : Read.State) (d i : ℕ) {c : Call} (hpc : c.pc = .sprintf) :
    step (setCall s d i c) (d, .run i) =
      some (setCall { s with message := sprintf s.message (s.device d).stat } d i
        { c with pc := .test, sampled := (s.device d).stat }) := by
  simp only [step, Device.step, setCall, Function.update_self, Call.run, hpc, Option.map_some,
    State.format, if_true, Function.update_idem]

section Alone

variable {M : Lts Read.State (ℕ × Event)} (s : Read.State) (d i : ℕ) {c c' : Call}

theorem run_alone (hM : M.step = step) (hpc : c.pc ≠ .sprintf)
    (h : c.run s.message (s.device d).stat = some c') :
    M.step (setCall s d i c) (d, .run i) = some (setCall s d i c') := by
  rw [hM]
  exact step_setCall hpc h

/-- The end of the loop, and the return. -/
theorem exit_alone (hM : M.step = step) (hpc : c.pc = .loop)
    (hend : c.size = 0 ∨ s.message c.messagePtr = 0) :
    M.Repeats (d, .run i) (setCall s d i c) (setCall s d i (finish s.message c)) := by
  have hnil : Mem.cstr s.message c.messagePtr c.size = [] := by
    rcases hend with hsize | h0
    · rw [hsize]
      rfl
    · cases hsize : c.size with
      | zero => rfl
      | succ n => exact if_pos h0
  have hnot : ¬ (c.size ≠ 0 ∧ s.message c.messagePtr ≠ 0) := by
    rintro ⟨hsize, h0⟩
    exact hend.elim hsize h0
  refine Lts.Repeats.head (run_alone s d i hM (by rw [hpc]; decide) ?_) (Lts.Repeats.refl _ _)
  simp only [Call.run, hpc, if_neg hnot, finish, hnil, List.append_nil, List.length_nil,
    Nat.add_zero, Nat.sub_zero]

/-- A turn of the loop puts one byte. -/
theorem turn_alone (hM : M.step = step) (hpc : c.pc = .loop) (hsize : c.size ≠ 0)
    (h0 : s.message c.messagePtr ≠ 0) :
    M.Repeats (d, .run i) (setCall s d i c) (setCall s d i
      { c with
        buf := c.buf ++ [s.message c.messagePtr]
        messagePtr := c.messagePtr + 1
        size := c.size - 1
        bytesRead := c.bytesRead + 1 }) := by
  have hput : c.run s.message (s.device d).stat = some { c with pc := .put } := by
    rw [Call.run, hpc]
    exact if_pos ⟨hsize, h0⟩
  refine Lts.Repeats.head (run_alone s d i hM (by rw [hpc]; decide) hput) ?_
  refine Lts.Repeats.head (run_alone s d i hM (fun h => by cases h) ?_) (Lts.Repeats.refl _ _)
  rw [hpc]
  rfl

/-- The loop delivers the rest of the string. -/
theorem loop_alone (hM : M.step = step) (hpc : c.pc = .loop) :
    M.Repeats (d, .run i) (setCall s d i c) (setCall s d i (finish s.message c)) := by
  induction hsize : c.size generalizing c with
  | zero => exact exit_alone s d i hM hpc (Or.inl hsize)
  | succ n ih =>
    by_cases h0 : s.message c.messagePtr = 0
    · exact exit_alone s d i hM hpc (Or.inr h0)
    · -- one byte, and the loop again
      let c₁ : Call :=
        { c with
          buf := c.buf ++ [s.message c.messagePtr]
          messagePtr := c.messagePtr + 1
          size := c.size - 1
          bytesRead := c.bytesRead + 1 }
      have hfinish : finish s.message c₁ = finish s.message c := by
        simp only [finish, c₁, hsize, Nat.add_sub_cancel, Mem.cstr, if_neg h0, List.length_cons,
          List.append_assoc, List.singleton_append, Call.mk.injEq, and_true, true_and]
        omega
      rw [← hfinish]
      have hturn := turn_alone s d i hM hpc (by rw [hsize]; exact Nat.succ_ne_zero n) h0
      exact hturn.trans (ih (c := c₁) hpc (congrArg (· - 1) hsize))

/-- Once the text is in the buffer, a call delivers what can be read out of
it. -/
theorem test_alone (hM : M.step = step) (hpc : c.pc = .test) (hbuf : c.buf = [])
    (hread : c.bytesRead = 0) :
    ∃ c', M.Repeats (d, .run i) (setCall s d i c) (setCall s d i c') ∧ c'.pc = .returned ∧
      c'.buf = (Mem.readout s.message c.size c.off).out ∧
      c'.off = (Mem.readout s.message c.size c.off).offset ∧
      c'.bytesRead = (Mem.readout s.message c.size c.off).ret := by
  have hne : c.pc ≠ .sprintf := by
    rw [hpc]
    decide
  by_cases h0 : s.message c.off = 0
  · have htest : c.run s.message (s.device d).stat =
        some { c with off := 0, pc := .returned } := by
      rw [Call.run, hpc]
      exact if_pos h0
    rw [Mem.readout_of_zero h0]
    exact ⟨_, Lts.Repeats.head (run_alone s d i hM hne htest) (Lts.Repeats.refl _ _), rfl, hbuf,
      rfl, hread⟩
  · have htest : c.run s.message (s.device d).stat =
        some { c with messagePtr := c.off, pc := .loop } := by
      rw [Call.run, hpc]
      exact if_neg h0
    have hloop := loop_alone s d i (c := { c with messagePtr := c.off, pc := .loop }) hM rfl
    rw [Mem.readout_of_ne h0]
    refine ⟨_, Lts.Repeats.head (run_alone s d i hM hne htest) hloop, rfl, ?_, ?_, ?_⟩
    · rw [finish, hbuf, List.nil_append]
    · rw [finish, hread, Nat.zero_add]
    · rw [finish, hread, Nat.zero_add]

end Alone

/-- **A call alone.** In the stepwise model a call made on any device returns,
if only it takes steps, and by then has done what `device_read` does. -/
theorem deviceRead_alone (M : Lts Read.State (ℕ × Event)) (hM : M.step = step) (s : Read.State)
    {d i : ℕ} (hidle : ((s.device d).calls i).pc = .idle) (off size : ℕ) :
    let r := deviceRead ⟨(s.device d).stat, s.message⟩ size off
    ∃ n c, M.exec s ((d, Event.read i off size) :: List.replicate n (d, Event.run i)) =
        some (setCall { s with message := r.message } d i c) ∧
      c.pc = .returned ∧ c.buf = r.readout.out ∧ c.off = r.readout.offset ∧
      c.bytesRead = r.readout.ret := by
  intro r
  let c₀ : Call := .start off size
  let c₁ : Call := { c₀ with pc := .test, sampled := (s.device d).stat }
  let s₁ : Read.State := { s with message := r.message }
  have hread : M.step s (d, .read i off size) = some (setCall s d i c₀) := by
    rw [hM]
    simp only [step, Device.step, hidle, if_true, Option.map_some]
    rfl
  have hsprintf : M.step (setCall s d i c₀) (d, .run i) = some (setCall s₁ d i c₁) := by
    rw [hM]
    exact sprintf_alone s d i rfl
  obtain ⟨c, hrepeats, hc⟩ := test_alone s₁ d i (c := c₁) hM rfl rfl rfl
  obtain ⟨n, hn⟩ := Lts.Repeats.head hsprintf hrepeats
  refine ⟨n, c, ?_, hc⟩
  rw [Lts.exec_cons, hread]
  exact hn

/-! ## Exact reads

The general condition for reads of a string, on this buffer: in it every text ends, and
what stands behind it may be anything. -/

/-- What the text is, in terms of the string in the buffer. -/
theorem exact_readout_iff (s : State) (size off : ℕ) :
    (deviceRead s size off).Exact s.stat size off ↔
      (deviceRead s size off).readout.Exact (sprintf s.message s.stat)
        (messageText s.stat).length messageSize size off := by
  have hload : Mem.load (sprintf s.message s.stat) off
      (min size ((messageText s.stat).length - off)) =
        ((messageText s.stat).drop off).take (min size ((messageText s.stat).length - off)) := by
    by_cases hle : off ≤ (messageText s.stat).length
    · exact load_sprintf _ _ (by omega)
    · have hmin : min size ((messageText s.stat).length - off) = 0 := by omega
      rw [hmin]
      rfl
  constructor
  · rintro ⟨hout, hret, htouched⟩
    exact ⟨hout.trans hload.symm, hret, htouched⟩
  · rintro ⟨hout, hret, htouched⟩
    exact ⟨hout.trans hload, hret, htouched⟩

/-- **Sequential reads, exactly.** After any history of status changes and
reads, a read delivers exactly the bytes of the current text from its offset
on, and nothing behind the text, and stays within `message`, if and only if the
offset is in `message`, and within the text, or at a zero before the call, or
nothing is asked for. -/
theorem read_exact_iff (stat : MysensorStatus) (behind : ℕ → Byte) (ops : List Op)
    (size off : ℕ) :
    (deviceRead (run stat behind ops) size off).Exact (run stat behind ops).stat size off ↔
      off < messageSize ∧
        (off ≤ (messageText (run stat behind ops).stat).length ∨ size = 0 ∨
          (run stat behind ops).message off = 0) := by
  rw [exact_readout_iff, deviceRead, Mem.Readout.exact_iff (endsAt_sprintf _ _)
    (length_messageText _)]
  refine and_congr_right fun _ => ?_
  by_cases hle : off ≤ (messageText (run stat behind ops).stat).length
  · exact ⟨fun _ => Or.inl hle, fun _ => Or.inl hle⟩
  · rw [sprintf_of_lt _ (Nat.lt_of_not_le hle)]

/-- The first 33 bytes are read at -1000000000 degrees; then there are 2. -/
def shrunk : State :=
  run { initTempstat with temp := 0xc4653600 } (fun _ => 0) [.read 0 33, .status initTempstat]

/-- The next read, at 33, delivers the end of the old text. -/
theorem shrunk_stale :
    (messageText shrunk.stat).length = 26 ∧ (deviceRead shrunk 8 33).readout.ret = 3 ∧
      (deviceRead shrunk 8 33).readout.out = ascii "=0\n" ∧
      ¬ (deviceRead shrunk 8 33).Exact shrunk.stat 8 33 := by
  refine ⟨by decide +kernel, by decide +kernel, by decide +kernel, ?_⟩
  intro hexact
  exact absurd hexact.ret (by decide +kernel)

end Text

end Sensor

end KernelDrvLearn
