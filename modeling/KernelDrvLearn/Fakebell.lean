import Mathlib.Data.List.Basic

/-!
# The fake bell device

The device model printed in `practice/myalarm/README` (`fakebell.c`): four
registers, an interrupt line that is asserted exactly while the interrupt is
enabled and pending, and a timer whose tick raises an event unless one is
pending already. Below it the register accessors of `mybell.h`, which are what
the drivers see of the device.
-/

namespace KernelDrvLearn

namespace Fakebell

/-! ## The device

The device as its description prints it, in the order of the C file. Reads and writes of
other sizes, or at other offsets, do nothing; every write that may change the interrupt
goes through `fakebell_update_irq`. -/

/-- `FB_REG_STATUS`, the register with the reason of the latest event. -/
abbrev fbRegStatus : ℕ := 0x00

/-- `FB_REG_IRQ_ENABLE`, of which one bit is used. -/
abbrev fbRegIrqEnable : ℕ := 0x04

/-- `FB_REG_IRQ_STATUS`, the pending bit, which is read only. -/
abbrev fbRegIrqStatus : ℕ := 0x08

/-- `FB_REG_IRQ_ACK`, to which a 1 is written to acknowledge. -/
abbrev fbRegIrqAck : ℕ := 0x0c

/-- `FB_REG_EVENT_COUNT`, the number of events raised so far. -/
abbrev fbRegEventCount : ℕ := 0x10

/-- `FB_STATUS_EVENT_ACTIVE`, what `STATUS` holds until the event is acknowledged. -/
abbrev fbStatusEventActive : BitVec 32 := 1

/-- `FB_IRQ_ENABLE_EN`, the enable bit. -/
abbrev fbIrqEnableEn : BitVec 32 := 1

/-- `FB_IRQ_STATUS_PENDING`, the pending bit. -/
abbrev fbIrqStatusPending : BitVec 32 := 1

/-- `FakeBellState`: the interrupt line and the registers. -/
structure FakeBellState where
  /-- is the line asserted? -/
  irq : Bool
  /-- `status` -/
  status : BitVec 32
  /-- `irq_enable` -/
  irqEnable : BitVec 32
  /-- `irq_status` -/
  irqStatus : BitVec 32
  /-- `event_count` -/
  eventCount : BitVec 32

/-- Is an event pending? It is until it is acknowledged. -/
def FakeBellState.Pending (s : FakeBellState) : Prop := s.irqStatus &&& fbIrqStatusPending ≠ 0

/-- Is the interrupt enabled? The line is up only if it is. -/
def FakeBellState.Enabled (s : FakeBellState) : Prop := s.irqEnable &&& fbIrqEnableEn ≠ 0

instance (s : FakeBellState) : Decidable s.Pending := inferInstanceAs (Decidable (_ ≠ _))

instance (s : FakeBellState) : Decidable s.Enabled := inferInstanceAs (Decidable (_ ≠ _))

/-- `fakebell_update_irq`, which raises or lowers the line. -/
def fakebellUpdateIrq (s : FakeBellState) : FakeBellState :=
  if s.Enabled ∧ s.Pending then { s with irq := true } else { s with irq := false }

/-- `fakebell_read`, of four bytes; everything else reads as 0. -/
def fakebellRead (s : FakeBellState) (offset size : ℕ) : BitVec 64 :=
  if size ≠ 4 then 0
  else if offset = fbRegStatus then s.status.setWidth 64
  else if offset = fbRegIrqEnable then s.irqEnable.setWidth 64
  else if offset = fbRegIrqStatus then s.irqStatus.setWidth 64
  else if offset = fbRegEventCount then s.eventCount.setWidth 64
  else 0

/-- `fakebell_write`: an acknowledgement clears the status along with the pending bit. -/
def fakebellWrite (s : FakeBellState) (offset : ℕ) (value : BitVec 64) (size : ℕ) :
    FakeBellState :=
  if size ≠ 4 then s
  else if offset = fbRegIrqEnable then
    fakebellUpdateIrq { s with irqEnable := value.setWidth 32 &&& fbIrqEnableEn }
  else if offset = fbRegIrqAck then
    if value &&& 1 ≠ 0 then fakebellUpdateIrq { s with status := 0, irqStatus := 0 } else s
  else s

/-- `fakebell_timer_cb`: a tick raises an event, but not while one is pending. -/
def fakebellTimerCb (s : FakeBellState) : FakeBellState :=
  if ¬ s.Pending then
    let s := { s with eventCount := s.eventCount + 1 }
    let s := { s with status := fbStatusEventActive }
    let s := { s with irqStatus := fbIrqStatusPending }
    fakebellUpdateIrq s
  else s

/-- `fakebell_realize`, after which all registers are 0. -/
def fakebellRealize : FakeBellState := ⟨false, 0, 0, 0, 0⟩

/-! ## Register accessors

`mybell.h` by `readl` and `writel`, which go through the emulator's 64-bit values and are
cut down to 32 bits again. -/

/-- `mb_readl`: a read of four bytes from the device. -/
def mbReadl (d : FakeBellState) (reg : ℕ) : BitVec 32 := (fakebellRead d reg 4).setWidth 32

/-- `mb_writel`: a write of four bytes to the device. -/
def mbWritel (d : FakeBellState) (reg : ℕ) (val : BitVec 32) : FakeBellState :=
  fakebellWrite d reg (val.setWidth 64) 4

/-- `mb_get_status`, which reads the register live. -/
def mbGetStatus (d : FakeBellState) : BitVec 32 := mbReadl d fbRegStatus

/-- `mb_get_irq_status`. -/
def mbGetIrqStatus (d : FakeBellState) : BitVec 32 := mbReadl d fbRegIrqStatus

/-- `mb_get_event_count`, a 32-bit count that wraps. -/
def mbGetEventCount (d : FakeBellState) : BitVec 32 := mbReadl d fbRegEventCount

/-- `mb_enable_irq`, after which a pending event raises the line. -/
def mbEnableIrq (d : FakeBellState) : FakeBellState := mbWritel d fbRegIrqEnable 1

/-- `mb_ack_irq`, after which the device may raise its next event. -/
def mbAckIrq (d : FakeBellState) : FakeBellState := mbWritel d fbRegIrqAck 1

/-! ## What they do

What the drivers rely on, without the detour through the bus: the line is asserted exactly
when the interrupt is enabled and an event pending, and stays so through every access. -/

/-- The line follows the registers, as the device promises at any time. -/
def FakeBellState.LineOk (s : FakeBellState) : Prop := s.irq = true ↔ s.Enabled ∧ s.Pending

theorem FakeBellState.pending_of {s : FakeBellState} (h : s.irqStatus = fbIrqStatusPending) :
    s.Pending := by
  rw [FakeBellState.Pending, h]
  decide

theorem FakeBellState.not_pending_of {s : FakeBellState} (h : s.irqStatus = 0) : ¬ s.Pending := by
  rw [FakeBellState.Pending, h]
  decide

theorem FakeBellState.enabled_of {s : FakeBellState} (h : s.irqEnable = fbIrqEnableEn) :
    s.Enabled := by
  rw [FakeBellState.Enabled, h]
  decide

theorem lineOk_realize : fakebellRealize.LineOk :=
  ⟨fun h => (nomatch h), fun h => absurd h.2 (FakeBellState.not_pending_of rfl)⟩

theorem fakebellUpdateIrq_eq (s : FakeBellState) :
    fakebellUpdateIrq s = { s with irq := decide (s.Enabled ∧ s.Pending) } := by
  rw [fakebellUpdateIrq]
  split
  case isTrue h => rw [decide_eq_true h]
  case isFalse h => rw [decide_eq_false h]

/-- A tick is skipped while an event is pending. -/
theorem fakebellTimerCb_pending {s : FakeBellState} (h : s.Pending) : fakebellTimerCb s = s :=
  if_neg (not_not_intro h)

/-- Otherwise it raises an event: the count goes up, the pending bit is set, and the line
follows if it is enabled. -/
theorem fakebellTimerCb_raise {s : FakeBellState} (h : ¬ s.Pending) :
    fakebellTimerCb s =
      ⟨decide s.Enabled, fbStatusEventActive, s.irqEnable, fbIrqStatusPending,
        s.eventCount + 1⟩ := by
  have hpend : (FakeBellState.mk s.irq fbStatusEventActive s.irqEnable fbIrqStatusPending
      (s.eventCount + 1)).Pending := FakeBellState.pending_of rfl
  rw [fakebellTimerCb, if_pos h, fakebellUpdateIrq_eq]
  simp only [hpend, and_true]
  rfl

/-- A register goes through the 64 bits of `fakebell_read` unchanged. -/
theorem setWidth_setWidth_64 (x : BitVec 32) : (x.setWidth 64).setWidth 32 = x := by
  rw [BitVec.setWidth_setWidth_of_le _ (by decide), BitVec.setWidth_eq]

theorem mbGetStatus_eq (d : FakeBellState) : mbGetStatus d = d.status :=
  setWidth_setWidth_64 d.status

/-- `mb_get_irq_status` returns the register as it is, with the pending bit in it. -/
theorem mbGetIrqStatus_eq (d : FakeBellState) : mbGetIrqStatus d = d.irqStatus :=
  setWidth_setWidth_64 d.irqStatus

/-- The acknowledgement clears the event and drops the line. -/
theorem mbAckIrq_eq (d : FakeBellState) :
    mbAckIrq d = { d with irq := false, status := 0, irqStatus := 0 } := by
  have hnot : ¬ ((FakeBellState.mk d.irq 0 d.irqEnable 0 d.eventCount).Enabled ∧
      (FakeBellState.mk d.irq 0 d.irqEnable 0 d.eventCount).Pending) :=
    fun h => FakeBellState.not_pending_of rfl h.2
  have hack : mbAckIrq d =
      fakebellUpdateIrq ⟨d.irq, 0, d.irqEnable, 0, d.eventCount⟩ := rfl
  rw [hack, fakebellUpdateIrq_eq, decide_eq_false hnot]

/-- Enabling asserts the line if an event is pending. -/
theorem mbEnableIrq_eq (d : FakeBellState) :
    mbEnableIrq d = { d with irq := decide d.Pending, irqEnable := 1 } := by
  have hen : (FakeBellState.mk d.irq d.status 1 d.irqStatus d.eventCount).Enabled :=
    FakeBellState.enabled_of rfl
  have hwrite : mbEnableIrq d =
      fakebellUpdateIrq ⟨d.irq, d.status, 1, d.irqStatus, d.eventCount⟩ := rfl
  rw [hwrite, fakebellUpdateIrq_eq]
  simp only [hen, true_and]
  rfl

end Fakebell

end KernelDrvLearn
