import KernelDrvLearn.Fakesensor

/-!
# Temperatures below zero

The ioctls of `mysensor_ioctl.h` and the command line tool pass a temperature
and a threshold as `int`, and `set_temp` takes one, but it stores it in a
`__u32` and compares there. The two orders agree just where the two numbers have
the same sign (`lt_agrees_iff`): a temperature below zero is above any threshold
that is not, and raises the alarm.
-/

namespace KernelDrvLearn

namespace Sensor

/-- The `int` passed with a command, as it arrives. -/
def Command.val (c : Command) : Int := (cpy2kernel c.arg c.left).toInt

/-- The `int` last passed to `SET_THRESHOLD`, or 100. -/
def lastThreshold (as : List Command) : Int :=
  as.foldl (fun t c => if c.ioctlnum = .setThreshold then c.val else t) 100

/-- The command turns the alarm on. -/
def Raises (s t : State) : Prop := s.stat.alarm = 0 ∧ t.stat.alarm = 1

/-- With the alarm off, a `SET_TEMP` turns it on just if the temperature is above
the threshold, and nothing else does but a `SET_THRESHOLD` to below the
temperature and `TRIGGER_ALARM`. -/
structure AlarmSigned (s : State) (c : Command) (t : State) : Prop where
  setTemp : c.ioctlnum = .setTemp → s.stat.alarm = 0 →
    (Raises s t ↔ s.stat.threshold.toInt < c.val)
  only : Raises s t → (c.ioctlnum = .setTemp ∧ s.stat.threshold.toInt < c.val) ∨
    (c.ioctlnum = .setThreshold ∧ c.val < s.stat.temp.toInt) ∨ c.ioctlnum = .triggerAlarm

/-- A `SET_TEMP` with the alarm off brings a temperature of the sign of the
threshold. -/
def SameSign (s : State) (c : Command) : Prop :=
  c.ioctlnum = .setTemp → s.stat.alarm = 0 → (c.val < 0 ↔ s.stat.threshold.toInt < 0)

instance (s : State) (c : Command) : Decidable (SameSign s c) :=
  inferInstanceAs (Decidable (_ → _ → (_ ↔ _)))

/-- The order of the words and that of the `int`s agree just where the signs do. -/
theorem lt_agrees_iff (x y : BitVec 32) :
    (x < y ↔ x.toInt < y.toInt) ↔ (y.toInt < 0 ↔ x.toInt < 0) := by
  have hx := x.isLt
  have hy := y.isLt
  rw [BitVec.lt_def, BitVec.toInt_eq_toNat_cond, BitVec.toInt_eq_toNat_cond]
  split <;> split <;> omega

/-- With the alarm off, `SET_TEMP` compares the words. -/
theorem raises_setTemp {s t : State} {arg : BitVec 32} {left : ℕ}
    (hs : sensor.step s ⟨.setTemp, arg, left⟩ = some t) (hoff : s.stat.alarm = 0) :
    Raises s t ↔ s.stat.threshold < cpy2kernel arg left := by
  obtain rfl := Option.some.inj hs
  simp only [Raises, deviceUnlockedIoctl, setTemp_alarm]
  rw [hoff]
  split
  case isTrue hlt => exact iff_of_true ⟨rfl, rfl⟩ hlt
  case isFalse hlt => exact iff_of_false (fun h => absurd h.2 (by decide)) hlt

/-- **Step lemma.** A command does what the `int`s say if and only if the signs agree,
where it compares. -/
theorem alarmSigned_iff {s t : State} {c : Command} (hs : sensor.step s c = some t) :
    AlarmSigned s c t ↔ SameSign s c := by
  obtain ⟨ioctlnum, arg, left⟩ := c
  cases ioctlnum with
  | setTemp =>
    have hraises := raises_setTemp hs
    have hagrees := lt_agrees_iff s.stat.threshold (cpy2kernel arg left)
    constructor
    · intro h _ hoff
      exact hagrees.mp ((hraises hoff).symm.trans (h.setTemp rfl hoff))
    · intro h
      have hexact : s.stat.alarm = 0 → (Raises s t ↔ _) :=
        fun hoff => (hraises hoff).trans (hagrees.mpr (h rfl hoff))
      exact ⟨fun _ => hexact, fun hr => Or.inl ⟨rfl, (hexact hr.1).mp hr⟩⟩
  | getStatus | getTemp | getHumidity | getThreshold | getAlarm | setHumidity | setThreshold
  | unknown =>
    obtain rfl := Option.some.inj hs
    refine iff_of_true ⟨nofun, ?_⟩ nofun
    rintro ⟨hoff, hon⟩
    exact absurd (hoff.symm.trans hon) (by decide)
  | clearAlarm =>
    obtain rfl := Option.some.inj hs
    refine iff_of_true ⟨nofun, ?_⟩ nofun
    rintro ⟨-, hon⟩
    cases hon
  | triggerAlarm => exact iff_of_true ⟨nofun, fun _ => Or.inr (Or.inr rfl)⟩ nofun

/-- The threshold is the one last passed, as a word. -/
theorem threshold_step {s t : State} {c : Command} (hs : sensor.step s c = some t) :
    t.stat.threshold.toInt =
      if c.ioctlnum = .setThreshold then c.val else s.stat.threshold.toInt := by
  obtain rfl := Option.some.inj hs
  obtain ⟨ioctlnum, arg, left⟩ := c
  cases ioctlnum with
  | setTemp =>
    simp only [deviceUnlockedIoctl, setTemp_alarm]
    rfl
  | getStatus | getTemp | getHumidity | getThreshold | getAlarm | setHumidity | setThreshold
  | clearAlarm | triggerAlarm | unknown => rfl

theorem threshold_exec {as : List Command} {s t : State} (hexec : sensor.exec s as = some t) :
    t.stat.threshold.toInt = as.foldl (fun t c => if c.ioctlnum = .setThreshold then c.val else t)
      s.stat.threshold.toInt := by
  induction as generalizing s with
  | nil =>
    obtain rfl := Option.some.inj hexec
    rfl
  | cons c as ih =>
    rw [Lts.exec_cons] at hexec
    obtain ⟨u, hs, hrest⟩ := Option.bind_eq_some_iff.mp hexec
    rw [ih hrest, threshold_step hs]
    rfl

/-- **No false alarm, exactly.** A run of commands turns the alarm on just where
the `int`s say so, if and only if every `SET_TEMP` of it that finds the alarm off
brings a temperature of the sign of the threshold. At the end of any run, the
threshold is the `int` last passed, and so it is with each command that may come
next. -/
theorem alarm_signed_iff (as : List Command) :
    (sensor.Along AlarmSigned sensor.init as ↔
      sensor.Along (fun s c _ => SameSign s c) sensor.init as) ∧
    ∀ s, sensor.exec sensor.init as = some s →
      s.stat.threshold.toInt = lastThreshold as ∧
        ∀ c t, sensor.step s c = some t → (AlarmSigned s c t ↔ SameSign s c) := by
  refine ⟨?_, fun s hexec => ⟨threshold_exec hexec, fun c t hs => alarmSigned_iff hs⟩⟩
  have hrun : ∀ (as : List Command) (s : State), sensor.Along (fun _ _ _ => True) s as := by
    intro as
    induction as with
    | nil => exact fun _ => trivial
    | cons c as ih => exact fun s => ⟨_, rfl, trivial, ih _⟩
  exact Lts.along_iff (fun _ => True) (fun _ _ _ _ _ hs => alarmSigned_iff hs)
    (fun _ _ _ _ _ _ _ => trivial) trivial (hrun as sensor.init)

/-- With the threshold 100 as it was, -1 raises the alarm; with the threshold -5,
3 does not. -/
theorem alarm_signed_wrong :
    ¬ sensor.Along AlarmSigned sensor.init [⟨.setTemp, -1, 0⟩] ∧
      ¬ sensor.Along AlarmSigned sensor.init [⟨.setThreshold, -5, 0⟩, ⟨.setTemp, 3, 0⟩] := by
  constructor
  · rintro ⟨t, hs, hsigned, -⟩
    obtain rfl := Option.some.inj hs
    exact absurd ((hsigned.setTemp rfl rfl).mp ⟨rfl, by decide⟩) (by decide)
  · rintro ⟨t, hs, -, u, hs', hsigned, -⟩
    obtain rfl := Option.some.inj hs
    obtain rfl := Option.some.inj hs'
    exact absurd ((hsigned.setTemp rfl rfl).mpr (by decide)).2 (by decide)

end Sensor

end KernelDrvLearn
