import KernelDrvLearn.Fakesensor

/-!
# Faults in the sensor ioctls

`copy_from_user` and `copy_to_user` return how many bytes they have left. The
helpers `cpy2kernel` and `cpy2user` of `myproject/driver/src/mysensordrv.c`
compare that with the number of bytes asked for, and return nothing: the ioctl
goes on with what was copied, and returns 0. Beside the driver stands what its
commands are for, `effect`. A command takes its effect, or fails and changes
nothing, if and only if its copy is complete (`ioctl_honest_iff`).
-/

namespace KernelDrvLearn

namespace Sensor

open LittleEndian

/-- The number of bytes a command copies. -/
def Ioctlnum.copied : Ioctlnum → ℕ
  | .getStatus => 16
  | .getTemp | .getHumidity | .getThreshold | .getAlarm => 4
  | .setTemp | .setHumidity | .setThreshold => 4
  | .clearAlarm | .triggerAlarm | .unknown => 0

/-- What a command is for: a getter delivers its registers, a setter stores its
argument, and whatever may turn out an alarm wakes the sleepers. -/
def effect (stat : MysensorStatus) (ioctlnum : Ioctlnum) (arg : BitVec 32) : IoctlResult :=
  match ioctlnum with
  | .getStatus =>
    ⟨stat, 0, false,
      bytesOf stat.temp ++ bytesOf stat.humidity ++ bytesOf stat.threshold ++ bytesOf stat.alarm⟩
  | .getTemp => ⟨stat, 0, false, bytesOf stat.temp⟩
  | .getHumidity => ⟨stat, 0, false, bytesOf stat.humidity⟩
  | .getThreshold => ⟨stat, 0, false, bytesOf stat.threshold⟩
  | .getAlarm => ⟨stat, 0, false, bytesOf stat.alarm⟩
  | .setTemp =>
    let alarm := if stat.threshold < arg then 1 else stat.alarm
    ⟨{ stat with temp := arg, alarm := alarm }, 0, alarm ≠ 0, []⟩
  | .setHumidity => ⟨{ stat with humidity := arg }, 0, false, []⟩
  | .setThreshold => ⟨{ stat with threshold := arg }, 0, stat.alarm ≠ 0, []⟩
  | .clearAlarm => ⟨{ stat with alarm := 0 }, 0, false, []⟩
  | .triggerAlarm => ⟨{ stat with alarm := 1 }, 0, true, []⟩
  | .unknown => ⟨stat, einval, false, []⟩

/-- A copy leaves no more bytes than it has. -/
def InRange (_ : State) (c : Command) : Prop := c.left ≤ c.ioctlnum.copied

instance (s : State) (c : Command) : Decidable (InRange s c) :=
  inferInstanceAs (Decidable (_ ≤ _))

/-- A command whose copy is incomplete returns an error and leaves the registers
alone, and one whose copy is complete returns 0 and takes its effect. -/
def Honest (s : State) (c : Command) : Prop :=
  let res := deviceUnlockedIoctl s.stat c.ioctlnum c.arg c.left
  c.ioctlnum ≠ .unknown →
    (c.left ≠ 0 → res.ret < 0 ∧ res.stat = s.stat) ∧
      (c.left = 0 → res = effect s.stat c.ioctlnum c.arg)

/-! ## Complete and incomplete copies

The helpers return nothing, so the ioctl cannot know. What an incomplete copy leaves in
the kernel's variable is the bytes that came through and zeros for the others, and with
these it goes on. -/

/-- All bytes of the words. -/
theorem cpy2user_all (words : List (BitVec 32)) : cpy2user words 0 = words.flatMap bytesOf := by
  refine List.take_of_length_le (Nat.le_of_eq ?_)
  rw [Nat.sub_zero]
  induction words with
  | nil => rfl
  | cons w words ih =>
    rw [List.flatMap_cons, List.length_append, length_bytesOf, ih, List.length_cons, Nat.mul_succ,
      Nat.add_comm]

/-- A complete command takes its effect, and returns 0. This is where the faithful
function meets the independent statement of what a command is for. -/
theorem ioctl_effect (stat : MysensorStatus) (ioctlnum : Ioctlnum) (arg : BitVec 32) :
    deviceUnlockedIoctl stat ioctlnum arg 0 = effect stat ioctlnum arg := by
  cases ioctlnum with
  | getStatus =>
    simp only [deviceUnlockedIoctl, effect, cpy2user_all, List.flatMap_cons, List.flatMap_nil,
      List.append_nil, List.append_assoc]
  | getTemp | getHumidity | getThreshold | getAlarm =>
    simp only [deviceUnlockedIoctl, effect, cpy2user_all, List.flatMap_singleton]
    rfl
  | setTemp =>
    simp only [deviceUnlockedIoctl, effect, cpy2kernel_all, setTemp_alarm]
    rfl
  | setHumidity | setThreshold =>
    simp only [deviceUnlockedIoctl, effect, cpy2kernel_all]
    rfl
  | clearAlarm | triggerAlarm | unknown => rfl

/-- No command but an unknown one returns an error. -/
theorem ioctl_ret {ioctlnum : Ioctlnum} (h : ioctlnum ≠ .unknown) (stat : MysensorStatus)
    (arg : BitVec 32) (left : ℕ) : (deviceUnlockedIoctl stat ioctlnum arg left).ret = 0 := by
  cases ioctlnum with
  | unknown => exact absurd rfl h
  | _ => rfl

/-- **What an incomplete copy does** to the registers is what a complete one of
the same bytes, and zeros behind them, would do. -/
theorem ioctl_stat_incomplete (stat : MysensorStatus) (ioctlnum : Ioctlnum) (arg : BitVec 32)
    (left : ℕ) :
    (deviceUnlockedIoctl stat ioctlnum arg left).stat =
      (effect stat ioctlnum (cpy2kernel arg left)).stat := by
  rw [← ioctl_effect]
  cases ioctlnum with
  | setTemp | setHumidity | setThreshold => simp only [deviceUnlockedIoctl, cpy2kernel_all]
  | _ => rfl

/-! ## Runs

Command by command: a complete copy takes its full effect, and an incomplete one takes
some effect and returns 0. -/

/-- **Step lemma.** A command is honest if and only if its copy is complete. -/
theorem honest_iff {s : State} {c : Command} (h : InRange s c) : Honest s c ↔ Copied s c := by
  constructor
  · intro hhonest
    by_contra hleft
    have hknown : c.ioctlnum ≠ .unknown := by
      intro hunknown
      rw [InRange, hunknown] at h
      exact hleft (Nat.le_zero.mp h)
    have hneg := ((hhonest hknown).1 hleft).1
    rw [ioctl_ret hknown] at hneg
    exact absurd hneg (Int.lt_irrefl 0)
  · intro hleft _
    refine ⟨fun hne => absurd hleft hne, fun _ => ?_⟩
    rw [show c.left = 0 from hleft]
    exact ioctl_effect _ _ _

/-- **Faults, exactly.** Along any run of commands, whatever their arguments and
however much of them is copied, every command either takes its full effect or
returns an error and leaves the registers alone, if and only if every copy of
the run is complete. -/
theorem ioctl_honest_iff {as : List Command} (hrun : sensor.Run InRange as) :
    sensor.Along (fun s c _ => Honest s c) sensor.init as ↔
      sensor.Along (fun s c _ => Copied s c) sensor.init as := by
  refine Lts.along_iff (fun _ => True) ?_ ?_ trivial hrun
  · exact fun s c t _ hc _ => honest_iff hc
  · exact fun s c t _ _ _ _ => trivial

theorem ioctl_honest_iff_heat : sensor.Along (fun s c _ => Honest s c) sensor.init heat :=
  (ioctl_honest_iff (by decide +kernel)).mpr (by decide +kernel)

/-- `SET_TEMP` to 357, of which one byte is copied. -/
def torn : List Command := [⟨.setTemp, 357, 3⟩]

/-- It returns 0, the temperature is 101 and the alarm is on. -/
theorem torn_dishonest :
    sensor.Run InRange torn ∧ ¬ sensor.Along (fun s c _ => Honest s c) sensor.init torn ∧
      (deviceUnlockedIoctl initTempstat .setTemp 357 3).ret = 0 ∧
      (deviceUnlockedIoctl initTempstat .setTemp 357 3).stat = ⟨101, 4, 100, 1⟩ := by
  refine ⟨by decide +kernel, ?_, rfl, by decide +kernel⟩
  rintro ⟨_, -, hhonest, -⟩
  exact absurd ((honest_iff (s := sensor.init) (c := ⟨.setTemp, 357, 3⟩)
    (by decide)).mp hhonest) (by decide)

end Sensor

end KernelDrvLearn
