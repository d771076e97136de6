import KernelDrvLearn.CInt
import KernelDrvLearn.MysensorIrq

/-!
# The values of the sensor

`mysensor_irq_thread` of `practice/mysensor/mysensor.c` pushes
`data++ % 100`, `data` being a static `int` that is never reduced. For 2³¹
samples that is the number of the sample modulo 100. Then the counter is
`INT_MIN`, its remainders are negative, and as 2³² is no multiple of 100 they
are off when it is back at 0: in step with the number of samples, `data` is
again after 25 rounds (`mysensor_values_iff`).
-/

namespace KernelDrvLearn

namespace Mysensor

/-- The value pushed with `k` samples before it. -/
def sampleValue (k : ℕ) : Int := (wrap32 k).tmod 100

/-- `data` has been around a multiple of 25 times and is not negative; or it is
negative, both `k` and it are multiples of 100. -/
def InStep (k : ℕ) : Prop :=
  (k % 4294967296 < 2147483648 ∧ 25 ∣ k / 4294967296) ∨
    (2147483648 ≤ k % 4294967296 ∧ 100 ∣ k ∧ 25 ∣ k / 4294967296 + 1)

instance (k : ℕ) : Decidable (InStep k) := inferInstanceAs (Decidable (_ ∨ _))

/-- `data` counts the samples, and each of them has its value. -/
structure IrqState.Counted (s : IrqState) : Prop where
  data : s.data = wrap32 s.pushed.length
  values : s.pushed.map PushCall.value = (List.range s.pushed.length).map sampleValue

/-! ## Runs

`data` counts the pushes, as an `int`. That is an invariant of the interrupt's handling,
and with it the value of each sample is a function of its number. -/

theorem IrqState.Counted.init : irqSystem.init.Counted := ⟨wrap32_zero.symm, rfl⟩

/-- A step that pushes nothing keeps the account. -/
theorem IrqState.Counted.congr {s t : IrqState} (h : s.Counted) (hdata : t.data = s.data)
    (hpushed : t.pushed = s.pushed) : t.Counted :=
  ⟨by rw [hdata, hpushed, h.data], by rw [hpushed, h.values]⟩

/-- The push takes the value that is due, and counts itself. -/
theorem IrqState.Counted.push {s t : IrqState} (h : s.Counted) {event : ℕ}
    (hdata : t.data = wrap32 (s.data + 1))
    (hpushed : t.pushed = s.pushed ++ [⟨event, s.data.tmod 100⟩]) : t.Counted := by
  have hlen : t.pushed.length = s.pushed.length + 1 := by
    rw [hpushed, List.length_append]
    rfl
  constructor
  · rw [hdata, hlen, h.data, wrap32_wrap32_add, Int.natCast_succ]
  · rw [hlen, hpushed, List.map_append, h.values, List.range_succ, List.map_append,
      List.map_singleton, List.map_singleton, sampleValue, h.data]

/-- **Step lemma.** Ticks and register accesses push nothing. -/
theorem IrqState.Counted.step {s t : IrqState} {a : IrqAct} (h : s.Counted)
    (hs : irqSystem.step s a = some t) : t.Counted := by
  cases a with
  | tick =>
    obtain rfl := Option.some.inj hs
    exact h.congr rfl rfl
  | enable =>
    simp only [irqSystem, irqStep, Option.ite_none_right_eq_some] at hs
    obtain ⟨-, hs⟩ := hs
    obtain rfl := Option.some.inj hs
    exact h.congr rfl rfl
  | deliver =>
    simp only [irqSystem, irqStep, Option.ite_none_right_eq_some] at hs
    obtain ⟨-, hs⟩ := hs
    obtain rfl := Option.some.inj hs
    exact h.congr rfl rfl
  | run ts =>
    rcases hpc : s.pc <;> simp only [irqSystem, irqStep, irqRun, hpc] at hs
    case idle => cases hs
    case handler => split at hs <;> obtain rfl := Option.some.inj hs <;> exact h.congr rfl rfl
    case push =>
      obtain rfl := Option.some.inj hs
      exact h.push rfl rfl
    all_goals
      obtain rfl := Option.some.inj hs
      exact h.congr rfl rfl

/-- **Run lemma.** The account is right in every reachable state. -/
theorem IrqState.Counted.reach {s : IrqState} (h : irqSystem.Reach (fun _ _ => True) s) :
    s.Counted :=
  h.invariant IrqState.Counted.init fun _ _ _ hi _ hs => hi.step hs

theorem pushed_value {s : IrqState} (h : irqSystem.Reach (fun _ _ => True) s) {k : ℕ}
    (hk : k < s.pushed.length) : s.pushed[k].value = sampleValue k := by
  have hget := congrArg (·[k]?) (IrqState.Counted.reach h).values
  simpa [hk] using hget

/-! ## The values

Arithmetic of the remainders. With a negative `data` C's remainder is negative or 0, so
only 0 can be right; with one that is not negative the question is how often it has been
around, and 25 rounds make it come out even. -/

/-- While `data` is not negative: its remainder, from 0 to 99. -/
theorem sampleValue_of_lt {k : ℕ} (hk : k % 4294967296 < 2147483648) :
    sampleValue k = (k % 4294967296 % 100 : ℕ) := by
  have hwrap : wrap32 k = (k % 4294967296 : ℕ) := by
    rw [wrap32]
    omega
  rw [sampleValue, hwrap, Int.tmod_eq_emod_of_nonneg (Int.natCast_nonneg _)]
  rfl

/-- While it is: a remainder from -99 to 0. -/
theorem sampleValue_of_le {k : ℕ} (hk : 2147483648 ≤ k % 4294967296) :
    sampleValue k = -((4294967296 - k % 4294967296) % 100 : ℕ) := by
  have hwrap : wrap32 k = -((4294967296 - k % 4294967296 : ℕ) : Int) := by
    rw [wrap32]
    omega
  rw [sampleValue, hwrap, Int.neg_tmod, Int.tmod_eq_emod_of_nonneg (Int.natCast_nonneg _)]
  rfl

/-- The remainder of `data` is that of `k` after a multiple of 25 rounds: 2³² is
-4 modulo 100. -/
theorem mod_mod_iff {k : ℕ} : k % 4294967296 % 100 = k % 100 ↔ 25 ∣ k / 4294967296 := by
  have hk := Nat.div_add_mod k 4294967296
  generalize k / 4294967296 = q at hk ⊢
  generalize k % 4294967296 = r at hk ⊢
  subst hk
  omega

/-- Both remainders are 0: that of what is missing to the end of the round, and
that of `k`. -/
theorem mod_zero_iff {k : ℕ} :
    ((4294967296 - k % 4294967296) % 100 = 0 ∧ k % 100 = 0) ↔
      (100 ∣ k ∧ 25 ∣ k / 4294967296 + 1) := by
  have hk := Nat.div_add_mod k 4294967296
  have hlt := Nat.mod_lt k (by decide : 0 < 4294967296)
  generalize k / 4294967296 = q at hk ⊢
  generalize k % 4294967296 = r at hk hlt ⊢
  -- together they are whole rounds
  have hsum : 4294967296 - r + k = 4294967296 * (q + 1) := by omega
  constructor
  · rintro ⟨hr, h100⟩
    omega
  · rintro ⟨h100, hq⟩
    omega

/-- **The values, exactly.** In every reachable state the `k + 1`-st value
pushed is `k` modulo 100, from 0 to 99, if and only if `data` is in step.

`data` is an `int` that is only ever counted up. It is in step until it wraps to a
negative number, whose remainder in C is not positive; and `2 ^ 32` is no multiple of
100, so once it has been around it is out of step, until 25 rounds have made up for it. -/
theorem mysensor_values_iff {s : IrqState} (h : irqSystem.Reach (fun _ _ => True) s) {k : ℕ}
    (hk : k < s.pushed.length) :
    (s.pushed[k].value = (k % 100 : ℕ) ∧ 0 ≤ s.pushed[k].value ∧ s.pushed[k].value ≤ 99) ↔
      InStep k := by
  rw [pushed_value h hk, InStep]
  rcases Nat.lt_or_ge (k % 4294967296) 2147483648 with hlt | hge
  · have hv := Nat.mod_lt (k % 4294967296) (by decide : 0 < 100)
    rw [sampleValue_of_lt hlt, or_iff_left fun h => absurd h.1 (Nat.not_le.mpr hlt),
      and_iff_right hlt, ← mod_mod_iff]
    generalize k % 4294967296 % 100 = v at hv ⊢
    omega
  · rw [sampleValue_of_le hge, or_iff_right fun h => absurd h.1 (Nat.not_lt.mpr hge),
      and_iff_right hge, ← mod_zero_iff]
    generalize (4294967296 - k % 4294967296) % 100 = v
    omega

/-- Every sample is pushed in some run. -/
theorem exists_pushed (k : ℕ) :
    ∃ s, irqSystem.Reach (fun _ _ => True) s ∧ k < s.pushed.length := by
  obtain ⟨s, hs⟩ := exists_quiet (k + 1)
  exact ⟨s, hs.reach, by rw [hs.pushed]; exact Nat.lt_succ_self k⟩

/-- 207 samples after `data` has been around 25 times. -/
theorem mysensor_values_iff_rounds : ∃ (s : IrqState) (hk : 107374182607 < s.pushed.length),
    irqSystem.Reach (fun _ _ => True) s ∧ s.pushed[107374182607].value = 7 := by
  obtain ⟨s, hreach, hk⟩ := exists_pushed 107374182607
  exact ⟨s, hk, hreach, ((mysensor_values_iff hreach hk).mpr (by decide)).1⟩

/-- With 2³¹ samples before it, the value is -48. -/
theorem overflow_negative : ∃ (s : IrqState) (hk : 2147483648 < s.pushed.length),
    irqSystem.Reach (fun _ _ => True) s ∧ s.pushed[2147483648].value = -48 := by
  obtain ⟨s, hreach, hk⟩ := exists_pushed 2147483648
  refine ⟨s, hk, hreach, ?_⟩
  rw [pushed_value hreach hk]
  decide

end Mysensor

end KernelDrvLearn
