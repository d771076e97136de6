import KernelDrvLearn.KernelApi
import KernelDrvLearn.LittleEndian
import KernelDrvLearn.Transition

/-!
# The alarm of the fake sensor

The registers of `myproject/driver/src/fakesensor.c` and the ioctls and the poll
of `myproject/driver/src/mysensordrv.c` on them. The registers are `u32`s, and
so is the comparison of temperature and threshold. Each command runs as one
step.

`SET_TEMP` compares; `SET_THRESHOLD` wakes the sleepers as `SET_TEMP` does, but
its setter leaves the alarm alone. A threshold lowered below the temperature
therefore goes unnoticed, unless the alarm is on already, and nothing else does
(`alarm_iff`).
-/

namespace KernelDrvLearn

namespace Sensor

open LittleEndian

/-! ## Registers

`fakesensor.c`: one structure of four words, with a getter and a setter for each. Only the
setter of the temperature does more than store: it compares, and raises the alarm. -/

/-- `struct mysensor_status`, all of whose words are unsigned. -/
structure MysensorStatus where
  /-- the temperature -/
  temp : BitVec 32
  /-- the humidity -/
  humidity : BitVec 32
  /-- the threshold of the alarm -/
  threshold : BitVec 32
  /-- is the alarm on? -/
  alarm : BitVec 32
  deriving DecidableEq

/-- `init_tempstat`: a cool sensor, a threshold of 100, and no alarm. -/
def initTempstat : MysensorStatus := ⟨2, 4, 100, 0⟩

/-- `get_temp`, the temperature as it was last set. -/
def getTemp (stat : MysensorStatus) : BitVec 32 := stat.temp

/-- `set_temp`, with the old value it returns. It is the one setter that looks at the
threshold. -/
def setTemp (stat : MysensorStatus) (val : BitVec 32) : MysensorStatus × BitVec 32 :=
  let old := stat.temp
  let stat := { stat with temp := val }
  if stat.temp > stat.threshold then ({ stat with alarm := 1 }, old) else (stat, old)

/-- `get_hum`. -/
def getHum (stat : MysensorStatus) : BitVec 32 := stat.humidity

/-- `set_hum`. -/
def setHum (stat : MysensorStatus) (val : BitVec 32) : MysensorStatus × BitVec 32 :=
  ({ stat with humidity := val }, stat.humidity)

/-- `get_alm`. -/
def getAlm (stat : MysensorStatus) : BitVec 32 := stat.alarm

/-- `set_alm`, with which the alarm is cleared, or set by hand. -/
def setAlm (stat : MysensorStatus) (val : BitVec 32) : MysensorStatus × BitVec 32 :=
  ({ stat with alarm := val }, stat.alarm)

/-- `get_lim`. -/
def getLim (stat : MysensorStatus) : BitVec 32 := stat.threshold

/-- `set_lim`, which stores the threshold and compares nothing. -/
def setLim (stat : MysensorStatus) (val : BitVec 32) : MysensorStatus × BitVec 32 :=
  ({ stat with threshold := val }, stat.threshold)

/-! ## Commands

`device_unlocked_ioctl` by its number. A command copies its argument from the user, or its
answer to it, and either copy may fail part of the way; what has been done to the
registers by then is done. -/

/-- The commands of `mysensor_ioctl.h`, setters and getters of the registers and the one
that returns them all. -/
inductive Ioctlnum where
  /-- `MYSENSOR_IOC_GET_STATUS` -/
  | getStatus
  /-- `MYSENSOR_IOC_GET_TEMP` -/
  | getTemp
  /-- `MYSENSOR_IOC_GET_HUMIDITY` -/
  | getHumidity
  /-- `MYSENSOR_IOC_GET_THRESHOLD` -/
  | getThreshold
  /-- `MYSENSOR_IOC_GET_ALARM` -/
  | getAlarm
  /-- `MYSENSOR_IOC_SET_TEMP` -/
  | setTemp
  /-- `MYSENSOR_IOC_SET_HUMIDITY` -/
  | setHumidity
  /-- `MYSENSOR_IOC_SET_THRESHOLD` -/
  | setThreshold
  /-- `MYSENSOR_IOC_CLEAR_ALARM` -/
  | clearAlarm
  /-- `MYSENSOR_IOC_TRIGGER_ALARM` -/
  | triggerAlarm
  /-- any other number -/
  | unknown
  deriving DecidableEq

/-- `cpy2kernel` into the zeroed `new`: the `left` last bytes of the argument
are not copied. -/
def cpy2kernel (arg : BitVec 32) (left : ℕ) : BitVec 32 :=
  (arg.setWidth (8 * (4 - left))).setWidth 32

/-- `cpy2user`: the bytes of these words, less the `left` last ones. -/
def cpy2user (words : List (BitVec 32)) (left : ℕ) : List (BitVec 8) :=
  (words.flatMap bytesOf).take (4 * words.length - left)

/-- What a command does: to the registers, to the sleepers and to the user. -/
structure IoctlResult where
  /-- the registers afterwards -/
  stat : MysensorStatus
  /-- the value returned -/
  ret : Int
  /-- were the sleepers on `wq` woken? -/
  woken : Bool
  /-- the bytes copied to the user -/
  out : List (BitVec 8)

/-- `device_unlocked_ioctl`. `arg` is the word at `ioctlparam`; of a copy from
or to there `left` bytes are not copied. -/
def deviceUnlockedIoctl (stat : MysensorStatus) (ioctlnum : Ioctlnum) (arg : BitVec 32)
    (left : ℕ) : IoctlResult :=
  let new := cpy2kernel arg left
  match ioctlnum with
  | .getTemp => ⟨stat, 0, false, cpy2user [getTemp stat] left⟩
  | .getHumidity => ⟨stat, 0, false, cpy2user [getHum stat] left⟩
  | .getThreshold => ⟨stat, 0, false, cpy2user [getLim stat] left⟩
  | .getAlarm => ⟨stat, 0, false, cpy2user [getAlm stat] left⟩
  | .getStatus =>
    ⟨stat, 0, false, cpy2user [stat.temp, stat.humidity, stat.threshold, stat.alarm] left⟩
  | .setTemp =>
    let stat := (setTemp stat new).1
    ⟨stat, 0, getAlm stat ≠ 0, []⟩
  | .setHumidity => ⟨(setHum stat new).1, 0, false, []⟩
  | .setThreshold =>
    let stat := (setLim stat new).1
    ⟨stat, 0, getAlm stat ≠ 0, []⟩
  | .clearAlarm => ⟨(setAlm stat 0).1, 0, false, []⟩
  | .triggerAlarm => ⟨(setAlm stat 1).1, 0, true, []⟩
  | .unknown => ⟨stat, einval, false, []⟩

/-- `device_poll`: the mask it returns, by the alarm alone. -/
def devicePoll (stat : MysensorStatus) : BitVec 32 :=
  if getAlm stat ≠ 0 then pollin ||| pollrdnorm else 0

/-! ## Runs of commands

The alarm is to be a function of what was set: after any command that changes temperature
or threshold it is on if the one is above the other. `SET_THRESHOLD` does not see to that,
so the condition is on its argument and the temperature at the time. -/

/-- A command with its argument, and how its copies end. -/
structure Command where
  /-- the command -/
  ioctlnum : Ioctlnum
  /-- the word at `ioctlparam` -/
  arg : BitVec 32
  /-- the bytes not copied -/
  left : ℕ

/-- The registers, and whether the last command woke the sleepers. -/
structure State where
  /-- `mysensor->stat` -/
  stat : MysensorStatus
  /-- did the last command wake the sleepers on `wq`? -/
  woken : Bool

/-- A bound sensor, whose registers were set up at probe. -/
def sensor : Lts State Command where
  init := ⟨initTempstat, false⟩
  step := fun s c =>
    let res := deviceUnlockedIoctl s.stat c.ioctlnum c.arg c.left
    some ⟨res.stat, res.woken⟩

/-- All bytes of the argument are copied. -/
def Copied (_ : State) (c : Command) : Prop := c.left = 0

instance (s : State) (c : Command) : Decidable (Copied s c) :=
  inferInstanceAs (Decidable (c.left = 0))

/-- The alarm is on, shown by poll, and the sleepers are woken. -/
def State.Alarmed (s : State) : Prop :=
  s.stat.alarm = 1 ∧ devicePoll s.stat &&& pollin ≠ 0 ∧ s.woken = true

/-- After the command, if it sets temperature or threshold, a temperature above
the threshold has raised the alarm. -/
def AlarmExact (c : Command) (t : State) : Prop :=
  c.ioctlnum = .setTemp ∨ c.ioctlnum = .setThreshold → t.stat.temp > t.stat.threshold → t.Alarmed

/-- The command does not lower the threshold below the temperature while the
alarm is off. -/
def NotLowered (s : State) (c : Command) : Prop :=
  c.ioctlnum = .setThreshold → s.stat.temp > c.arg → s.stat.alarm ≠ 0

instance (s : State) (c : Command) : Decidable (NotLowered s c) :=
  inferInstanceAs (Decidable (_ → _ → _ ≠ _))

/-- The alarm is off or on. It is a `u32`, but nothing ever stores another number there.
-/
def State.AlarmBool (s : State) : Prop := s.stat.alarm = 0 ∨ s.stat.alarm = 1

theorem cpy2kernel_all (arg : BitVec 32) : cpy2kernel arg 0 = arg := by
  rw [cpy2kernel, BitVec.setWidth_eq, BitVec.setWidth_eq]

/-- The temperature is compared when it is set. -/
theorem setTemp_alarm (stat : MysensorStatus) (val : BitVec 32) :
    (setTemp stat val).1 =
      { stat with temp := val, alarm := if val > stat.threshold then 1 else stat.alarm } := by
  simp only [setTemp]
  split <;> rfl

/-- With the alarm on everything else follows: poll shows it, and the command has woken
the sleepers. -/
theorem State.alarmed_iff {s : State} (hwoken : s.woken = decide (s.stat.alarm ≠ 0)) :
    s.Alarmed ↔ s.stat.alarm = 1 := by
  refine ⟨fun h => h.1, fun h => ⟨h, ?_, ?_⟩⟩
  · rw [devicePoll, getAlm, h]
    decide
  · rw [hwoken, h]
    rfl

/-- Commands leave the alarm off or on. -/
theorem alarmBool_step {s t : State} {c : Command} (h : s.AlarmBool)
    (hs : sensor.step s c = some t) : t.AlarmBool := by
  obtain rfl := Option.some.inj hs
  obtain ⟨ioctlnum, arg, left⟩ := c
  cases ioctlnum with
  | getStatus | getTemp | getHumidity | getThreshold | getAlarm | setHumidity | setThreshold
  | unknown => exact h
  | setTemp =>
    simp only [State.AlarmBool, deviceUnlockedIoctl, setTemp_alarm]
    split
    · exact Or.inr rfl
    · exact h
  | clearAlarm => exact Or.inl rfl
  | triggerAlarm => exact Or.inr rfl

/-- **Step lemma.** A command is exact if and only if it does not lower the
threshold below the temperature with the alarm off. -/
theorem alarmExact_iff {s t : State} {c : Command} (h : s.AlarmBool) (hc : Copied s c)
    (hs : sensor.step s c = some t) : AlarmExact c t ↔ NotLowered s c := by
  obtain rfl := Option.some.inj hs
  obtain ⟨ioctlnum, arg, left⟩ := c
  obtain rfl : left = 0 := hc
  cases ioctlnum with
  | getStatus | getTemp | getHumidity | getThreshold | getAlarm | setHumidity | clearAlarm
  | triggerAlarm | unknown =>
    refine ⟨fun _ hset => (nomatch hset), fun _ hset => ?_⟩
    rcases hset with hset | hset <;> cases hset
  | setTemp =>
    refine ⟨fun _ hset => (nomatch hset), fun _ _ hhot => ?_⟩
    refine (State.alarmed_iff rfl).mpr ?_
    simp only [deviceUnlockedIoctl, setTemp_alarm] at hhot ⊢
    exact if_pos hhot
  | setThreshold =>
    -- the setter only stores the threshold
    have hstat : (deviceUnlockedIoctl s.stat .setThreshold arg 0).stat =
        { s.stat with threshold := arg } := by
      simp only [deviceUnlockedIoctl, setLim, cpy2kernel_all]
    simp only [AlarmExact, NotLowered, hstat]
    constructor
    · intro hexact _ hlow hoff
      have hon : s.stat.alarm = 1 := (hexact (Or.inr trivial) hlow).1
      rw [hoff] at hon
      cases hon
    · intro hnot _ hlow
      refine (State.alarmed_iff rfl).mpr ?_
      rcases h with hoff | hon
      · exact absurd hoff (hnot trivial hlow)
      · exact hon

/-- **No missed alarm, exactly.** In a run of commands every `SET_TEMP` and
every `SET_THRESHOLD` leaves the alarm raised if the temperature is above the
threshold, if and only if no `SET_THRESHOLD` of the run lowers the threshold
below the temperature while the alarm is off. -/
theorem alarm_iff {as : List Command} (hrun : sensor.Run Copied as) :
    sensor.Along (fun _ c t => AlarmExact c t) sensor.init as ↔
      sensor.Along (fun s c _ => NotLowered s c) sensor.init as := by
  refine Lts.along_iff State.AlarmBool ?_ ?_ (Or.inl rfl) hrun
  · exact fun s c t h hc hs => alarmExact_iff h hc hs
  · exact fun s c t h _ hs _ => alarmBool_step h hs

/-- The temperature rises over the threshold, and the alarm is cleared. -/
def heat : List Command := [⟨.setTemp, 101, 0⟩, ⟨.clearAlarm, 0, 0⟩, ⟨.setTemp, 102, 0⟩]

theorem alarm_iff_heat : sensor.Along (fun _ c t => AlarmExact c t) sensor.init heat :=
  (alarm_iff (by decide +kernel)).mpr (by decide +kernel)

/-- The threshold is set to 1, below the initial temperature 2. -/
def lower : List Command := [⟨.setThreshold, 1, 0⟩]

/-- The alarm stays off and nobody is woken. -/
theorem lower_missed : sensor.Run Copied lower ∧ ∃ t, sensor.exec sensor.init lower = some t ∧
    t.stat.temp > t.stat.threshold ∧ t.stat.alarm = 0 ∧ devicePoll t.stat = 0 ∧ t.woken = false :=
  ⟨by decide +kernel, _, rfl, by decide, rfl, rfl, rfl⟩

end Sensor

end KernelDrvLearn
