import KernelDrvLearn.Decimals

/-!
# What `kstrtoint` makes of a text

With base 0 it accepts a sign of either kind or none, a numeral of C and a
newline or none, if the number is an `int` (`kstrtoint_ok_iff`); anything else
it rejects. A `Numeral` is decimal, octal behind a zero, or hexadecimal behind
`0x`.

`%d` of `sscanf` reads of such a text the number its digits make in decimal, of
a hexadecimal one the zero before the `x`, and nothing behind a plus
(`Written.scanD`).
-/

namespace KernelDrvLearn

/-- The number these digits stand for in this base. -/
def valueIn (base : ℕ) (ds : List Byte) : ℕ :=
  ds.foldl (fun acc c => acc * base + (digitVal c).getD 0) 0

/-- A numeral: its base, its text and its digits. -/
inductive Numeral : ℕ → List Byte → List Byte → Prop
  /-- decimal digits, the first of them not zero -/
  | decimal {c : Byte} {ds : List Byte} (hc : c ≠ 0x30)
      (hds : ∀ d ∈ c :: ds, isdigitIn 10 d = true) : Numeral 10 (c :: ds) (c :: ds)
  /-- octal digits, the first of them zero -/
  | octal {ds : List Byte} (hds : ∀ d ∈ ds, isdigitIn 8 d = true) :
      Numeral 8 (0x30 :: ds) (0x30 :: ds)
  /-- `0x` or `0X`, and hexadecimal digits -/
  | hex {x : Byte} {ds : List Byte} (hx : tolower x = 0x78) (hne : ds ≠ [])
      (hds : ∀ d ∈ ds, isdigitIn 16 d = true) : Numeral 16 (0x30 :: x :: ds) ds

/-- The text is a sign or none, a numeral, and a newline or none. -/
structure Written (s sign text ds nl : List Byte) (base : ℕ) : Prop where
  eq : s = sign ++ (text ++ nl)
  sign : sign = [] ∨ sign = [0x2b] ∨ sign = [0x2d]
  numeral : Numeral base text ds
  newline : nl = [] ∨ nl = [0x0a]

/-- The number with its sign, a minus being the only sign that changes it. -/
def withSign (sign : List Byte) (n : ℕ) : Int := if sign = [0x2d] then -n else n

/-- The number is in the range of a 32-bit `int`. -/
def IsInt (i : Int) : Prop := -2147483648 ≤ i ∧ i < 2147483648

instance (i : Int) : Decidable (IsInt i) := inferInstanceAs (Decidable (_ ∧ _))

/-! ## Digits

As in any base: the digits at the front are the longest prefix of digits, and what stops
them is no digit of this base, though it may be one of another. -/

variable {base acc : ℕ} {s sign text ds rest nl : List Byte}

/-- Every text is digits of the base, as far as they go, and what stops them. -/
theorem exists_digitsIn (base : ℕ) (s : List Byte) : ∃ ds rest, s = ds ++ rest ∧
    (∀ c ∈ ds, isdigitIn base c = true) ∧
      ∀ c, rest.head? = some c → isdigitIn base c = false := by
  refine ⟨s.takeWhile (isdigitIn base), s.dropWhile (isdigitIn base),
    (List.takeWhile_append_dropWhile).symm, fun c hc => List.mem_takeWhile_imp hc, fun c hc => ?_⟩
  have hnot := List.head?_dropWhile_not (isdigitIn base) s
  rw [hc] at hnot
  simpa using hnot

theorem newline_stop (hnl : nl = [] ∨ nl = [0x0a]) (base : ℕ) :
    ∀ c, nl.head? = some c → isdigitIn base c = false := by
  rintro c hc
  rcases hnl with rfl | rfl
  · cases hc
  · obtain rfl := Option.some.inj hc
    rfl

/-! ## Numerals

A numeral always has a digit, and its first one is decimal: the prefix `0x` begins with
one. This is what tells a numeral from a sign. -/

/-- An octal digit is a decimal one, and no `x`. -/
theorem isdigitIn_eight {c : Byte} (h : isdigitIn 8 c = true) :
    isdigit c = true ∧ tolower c ≠ 0x78 := by
  have hall : ∀ c : Byte, isdigitIn 8 c = true → isdigit c = true ∧ tolower c ≠ 0x78 := by
    decide +kernel
  exact hall c h

/-- A numeral has digits, and begins with a decimal one. -/
theorem Numeral.spec (h : Numeral base text ds) :
    ds ≠ [] ∧ (∀ d ∈ ds, isdigitIn base d = true) ∧
      ∃ c text', text = c :: text' ∧ isdigit c = true := by
  cases h with
  | decimal hc hds =>
    have hc := hds _ List.mem_cons_self
    rw [isdigitIn_ten] at hc
    exact ⟨List.cons_ne_nil _ _, hds, _, _, rfl, hc⟩
  | octal hds =>
    refine ⟨List.cons_ne_nil _ _, fun d hd => ?_, _, _, rfl, by decide⟩
    rcases List.mem_cons.mp hd with rfl | hd
    · decide
    · exact hds d hd
  | hex hx hne hds => exact ⟨hne, hds, _, _, rfl, by decide⟩

/-! ## The base

With base 0 the kernel looks at the first two characters: `0x` before a hexadecimal digit
is base 16, any other zero in front base 8, the rest base 10. Each kind of numeral is
recognised as what it is, and nothing else is. -/

theorem fixupRadix_decimal (h : ¬ s[0]? = some 0x30) : fixupRadix 0 s = (10, s) := by
  simp only [fixupRadix, h, ne_eq, not_true_eq_false, if_false, false_and, and_false]

theorem fixupRadix_octal
    (h : ¬ (s[0]?.map tolower = some 0x78 ∧ (s[1]?.bind digitVal).isSome = true)) :
    fixupRadix 0 (0x30 :: s) = (8, 0x30 :: s) := by
  have h16 : ¬ 8 = 16 := by decide
  simp only [fixupRadix, List.getElem?_cons_zero, List.getElem?_cons_succ, h, h16, ne_eq,
    not_true_eq_false, if_false, if_true, false_and]

theorem fixupRadix_hex {x : Byte} (hx : tolower x = 0x78)
    (hd : (s[0]?.bind digitVal).isSome = true) : fixupRadix 0 (0x30 :: x :: s) = (16, s) := by
  simp only [fixupRadix, List.getElem?_cons_zero, List.getElem?_cons_succ, Option.map_some, hx, hd,
    ne_eq, not_true_eq_false, if_false, if_true, and_self, List.drop_succ_cons, List.drop_zero]

/-- **The base of a numeral is found out.** -/
theorem Numeral.fixupRadix (h : Numeral base text ds) (hnl : nl = [] ∨ nl = [0x0a]) :
    fixupRadix 0 (text ++ nl) = (base, ds ++ nl) := by
  cases h with
  | @decimal c ds hc hds => exact fixupRadix_decimal fun h => hc (Option.some.inj h)
  | @octal ds hds =>
    refine fixupRadix_octal fun hx => ?_
    cases ds with
    | nil =>
      have hnot : ¬ nl[0]?.map tolower = some 0x78 := by rcases hnl with rfl | rfl <;> decide
      exact hnot hx.1
    | cons c ds =>
      exact (isdigitIn_eight (hds c List.mem_cons_self)).2 (Option.some.inj hx.1)
  | @hex x ds hx hne hds =>
    obtain ⟨c, ds, rfl⟩ := List.exists_cons_of_ne_nil hne
    have hc : (digitVal c).isSome := Option.isSome_of_any (hds c List.mem_cons_self)
    exact fixupRadix_hex hx hc

/-- What is behind the prefix, when there are digits of the base, is a numeral. -/
theorem exists_numeral {base : ℕ} {s ds rest : List Byte}
    (hfix : KernelDrvLearn.fixupRadix 0 s = (base, ds ++ rest)) (hne : ds ≠ [])
    (hds : ∀ d ∈ ds, isdigitIn base d = true) :
    ∃ text, s = text ++ rest ∧ Numeral base text ds := by
  obtain ⟨c, ds, rfl⟩ := List.exists_cons_of_ne_nil hne
  by_cases h0 : s[0]? = some 0x30
  case neg =>
    rw [fixupRadix_decimal h0] at hfix
    obtain ⟨rfl, rfl⟩ := Prod.mk.inj hfix
    exact ⟨c :: ds, rfl, Numeral.decimal (fun hc => h0 (congrArg some hc)) hds⟩
  obtain ⟨s, rfl⟩ : ∃ s', s = 0x30 :: s' := by
    cases s with
    | nil => cases h0
    | cons d s => exact ⟨s, by rw [Option.some.inj h0]⟩
  by_cases hx : s[0]?.map tolower = some 0x78 ∧ (s[1]?.bind digitVal).isSome = true
  case neg =>
    rw [fixupRadix_octal hx] at hfix
    obtain ⟨rfl, heq⟩ := Prod.mk.inj hfix
    obtain ⟨rfl, rfl⟩ := List.cons.inj heq
    exact ⟨0x30 :: ds, rfl, Numeral.octal fun d hd => hds d (List.mem_cons_of_mem _ hd)⟩
  obtain ⟨hx, hd⟩ := hx
  cases s with
  | nil => cases hx
  | cons x s =>
    rw [fixupRadix_hex (Option.some.inj hx) hd] at hfix
    obtain ⟨rfl, rfl⟩ := Prod.mk.inj hfix
    exact ⟨0x30 :: x :: c :: ds, rfl, Numeral.hex (Option.some.inj hx) hne hds⟩

/-! ## `kstrtoint`

The functions `kstrtoint` is built of, from the digit loop outwards: `_kstrtoull` takes
the base and the newline, `kstrtoll` the sign and the range of a `long`, and `kstrtoint`
the range of an `int`. Each of them is shown exact: which texts it accepts, and what of
them it stores. -/

/-- **`_kstrtoull`** accepts a numeral, and perhaps a newline behind it. -/
theorem kstrtoullDigits_ok_iff {n : ℕ} : kstrtoullDigits s 0 = .ok n ↔
    ∃ text ds nl base, s = text ++ nl ∧ Numeral base text ds ∧ (nl = [] ∨ nl = [0x0a]) ∧
      n = valueIn base ds ∧ n < 18446744073709551616 := by
  constructor
  · intro h
    rw [kstrtoullDigits] at h
    rcases hfix : fixupRadix 0 s with ⟨base, s'⟩
    obtain ⟨ds, rest, rfl, hds, hstop⟩ := exists_digitsIn base s'
    rw [hfix] at h
    dsimp only at h
    rw [parseInteger_digitsIn hds hstop] at h
    split_ifs at h with hbig hlen hrest
    obtain rfl := Except.ok.inj h
    have hne : ds ≠ [] := by
      rintro rfl
      exact hlen rfl
    obtain ⟨text, rfl, hnumeral⟩ := exists_numeral hfix hne hds
    exact ⟨text, ds, rest, base, rfl, hnumeral, hrest, rfl, Nat.lt_of_not_le hbig⟩
  · rintro ⟨text, ds, nl, base, rfl, hnumeral, hnl, rfl, hlt⟩
    obtain ⟨hne, hds, -⟩ := hnumeral.spec
    have hlen : ¬ nl.length = (ds ++ nl).length := by
      have hpos := List.length_pos_iff.mpr hne
      rw [List.length_append]
      omega
    rw [kstrtoullDigits, hnumeral.fixupRadix hnl]
    dsimp only
    rw [parseInteger_digitsIn hds (newline_stop hnl base)]
    exact (if_neg (Nat.not_le.mpr hlt)).trans ((if_neg hlen).trans (if_pos hnl))

/-- A number that is a `long` or not, with its sign. -/
def toLong (sign : List Byte) (tmp : ℕ) : Except Int Int :=
  if -9223372036854775808 ≤ withSign sign tmp ∧ withSign sign tmp < 9223372036854775808 then
    .ok (withSign sign tmp) else .error erange

/-- What is behind the sign goes into `_kstrtoull`. -/
theorem kstrtoll_sign (hsign : sign = [] ∨ sign = [0x2b] ∨ sign = [0x2d])
    (hhead : sign = [] → ∀ c, s.head? = some c → c ≠ 0x2b ∧ c ≠ 0x2d) :
    kstrtoll (sign ++ s) 0 = (kstrtoullDigits s 0).bind (toLong sign) := by
  have hplus : (fun tmp : ℕ => if 9223372036854775808 ≤ tmp then Except.error erange
      else .ok (tmp : Int)) = toLong [] := by
    funext tmp
    have hsigned : withSign [] tmp = tmp := if_neg (List.cons_ne_nil _ _).symm
    rw [toLong, hsigned]
    split_ifs <;> first | rfl | omega
  have hminus : (fun tmp : ℕ => if 9223372036854775808 < tmp then Except.error erange
      else .ok (-(tmp : Int))) = toLong [0x2d] := by
    funext tmp
    have hsigned : withSign [0x2d] tmp = -tmp := if_pos rfl
    rw [toLong, hsigned]
    split_ifs <;> first | rfl | omega
  rcases hsign with rfl | rfl | rfl
  · rw [List.nil_append, kstrtoll, kstrtoull, hplus]
    · rintro s' rfl
      exact (hhead rfl _ rfl).1 rfl
    · rintro s' rfl
      exact (hhead rfl _ rfl).2 rfl
  · exact congrArg (kstrtoullDigits s 0).bind hplus
  · exact congrArg (kstrtoullDigits s 0).bind hminus

/-- Every text has a sign, or none. -/
theorem exists_sign (s : List Byte) : ∃ sign s', s = sign ++ s' ∧
    (sign = [] ∨ sign = [0x2b] ∨ sign = [0x2d]) ∧
      (sign = [] → ∀ c, s'.head? = some c → c ≠ 0x2b ∧ c ≠ 0x2d) := by
  by_cases hplus : s.head? = some 0x2b
  · obtain ⟨s', rfl⟩ := List.head?_eq_some_iff.mp hplus
    exact ⟨[0x2b], s', rfl, Or.inr (Or.inl rfl), fun h => absurd h (List.cons_ne_nil _ _)⟩
  by_cases hminus : s.head? = some 0x2d
  · obtain ⟨s', rfl⟩ := List.head?_eq_some_iff.mp hminus
    exact ⟨[0x2d], s', rfl, Or.inr (Or.inr rfl), fun h => absurd h (List.cons_ne_nil _ _)⟩
  · refine ⟨[], s, rfl, Or.inl rfl, fun _ c hc => ⟨?_, ?_⟩⟩
    · rintro rfl
      exact hplus hc
    · rintro rfl
      exact hminus hc

theorem bind_ok_iff {α β : Type} {x : Except Int α} {f : α → Except Int β} {b : β} :
    x.bind f = .ok b ↔ ∃ a, x = .ok a ∧ f a = .ok b := by
  cases x <;> simp [Except.bind]

theorem toLong_ok_iff {n : ℕ} {i : Int} : toLong sign n = .ok i ↔
    i = withSign sign n ∧ -9223372036854775808 ≤ i ∧ i < 9223372036854775808 := by
  rw [toLong]
  split_ifs with hrange
  · constructor
    · rintro h
      obtain rfl := Except.ok.inj h
      exact ⟨rfl, hrange⟩
    · rintro ⟨rfl, -⟩
      rfl
  · constructor
    · intro h
      cases h
    · rintro ⟨rfl, h⟩
      exact absurd h hrange

/-- **`kstrtoll`** takes the sign, and is exact. -/
theorem kstrtoll_ok_iff {i : Int} : kstrtoll s 0 = .ok i ↔
    ∃ sign text ds nl base, Written s sign text ds nl base ∧
      i = withSign sign (valueIn base ds) ∧
      -9223372036854775808 ≤ i ∧ i < 9223372036854775808 := by
  constructor
  · intro h
    obtain ⟨sign, s', rfl, hsign, hhead⟩ := exists_sign s
    rw [kstrtoll_sign hsign hhead] at h
    obtain ⟨n, hn, hlong⟩ := bind_ok_iff.mp h
    obtain ⟨text, ds, nl, base, rfl, hnumeral, hnl, rfl, -⟩ := kstrtoullDigits_ok_iff.mp hn
    exact ⟨sign, text, ds, nl, base, ⟨rfl, hsign, hnumeral, hnl⟩, toLong_ok_iff.mp hlong⟩
  · rintro ⟨sign, text, ds, nl, base, ⟨rfl, hsign, hnumeral, hnl⟩, hi, hlo, hhi⟩
    obtain ⟨-, -, c, text', rfl, hc⟩ := hnumeral.spec
    have hhead : sign = [] → ∀ d, (c :: text' ++ nl).head? = some d → d ≠ 0x2b ∧ d ≠ 0x2d := by
      intro _ d hd
      obtain rfl := Option.some.inj hd
      exact ⟨(isdigit_ne hc).2.1, (isdigit_ne hc).1⟩
    have hlt : valueIn base ds < 18446744073709551616 := by
      rw [hi, withSign] at hlo hhi
      split_ifs at hlo hhi <;> omega
    have hn := kstrtoullDigits_ok_iff.mpr ⟨_, ds, nl, base, rfl, hnumeral, hnl, rfl, hlt⟩
    rw [kstrtoll_sign hsign hhead]
    exact bind_ok_iff.mpr ⟨_, hn, toLong_ok_iff.mpr ⟨hi, hlo, hhi⟩⟩

theorem toInt_ofInt_iff {i : Int} : (BitVec.ofInt 32 i).toInt = i ↔ IsInt i := by
  constructor
  · intro h
    rw [← h]
    exact ⟨BitVec.le_toInt _, BitVec.toInt_lt⟩
  · rintro ⟨hlo, hhi⟩
    exact BitVec.toInt_ofInt_eq_self (by decide) hlo hhi

/-- **`kstrtoint`, exactly.** It accepts a text and stores `v` if and only if the text is
a numeral with sign and newline as they may be, whose value is `v` and fits. -/
theorem kstrtoint_ok_iff {v : BitVec 32} : kstrtoint s 0 = .ok v ↔
    ∃ sign text ds nl base, Written s sign text ds nl base ∧
      IsInt (withSign sign (valueIn base ds)) ∧
      v = BitVec.ofInt 32 (withSign sign (valueIn base ds)) := by
  rw [kstrtoint, bind_ok_iff]
  constructor
  · rintro ⟨i, hi, hv⟩
    obtain ⟨sign, text, ds, nl, base, hw, rfl, -⟩ := kstrtoll_ok_iff.mp hi
    split_ifs at hv with hint
    exact ⟨sign, text, ds, nl, base, hw, toInt_ofInt_iff.mp (not_not.mp hint),
      (Except.ok.inj hv).symm⟩
  · rintro ⟨sign, text, ds, nl, base, hw, hint, rfl⟩
    obtain ⟨hlo, hhi⟩ := hint
    refine ⟨_, kstrtoll_ok_iff.mpr ⟨sign, text, ds, nl, base, hw, rfl, by omega, by omega⟩, ?_⟩
    exact if_neg (not_not_intro (toInt_ofInt_iff.mpr ⟨hlo, hhi⟩))

theorem bind_error {α β : Type} {x : Except Int α} {f : α → Except Int β} {e : Int}
    (h : x.bind f = .error e) : x = .error e ∨ ∃ a, f a = .error e := by
  cases x with
  | error e' => exact Or.inl (congrArg Except.error (Except.error.inj h))
  | ok a => exact Or.inr ⟨a, h⟩

/-- What it returns for a text it rejects is negative. -/
theorem kstrtoint_error {e : Int} (h : kstrtoint s 0 = .error e) : e < 0 := by
  rcases bind_error h with h | ⟨i, hi⟩
  · obtain ⟨sign, s', rfl, hsign, hhead⟩ := exists_sign s
    rw [kstrtoll_sign hsign hhead] at h
    rcases bind_error h with h | ⟨n, hn⟩
    · rw [kstrtoullDigits] at h
      split_ifs at h <;> cases h <;> decide
    · rw [toLong] at hn
      split_ifs at hn
      cases hn
      decide
  · split_ifs at hi
    cases hi
    decide

/-! ## `%d` of the same text

What the driver's other parser makes of a text that `kstrtoint` accepts. `%d` knows no
bases and no plus: of an octal numeral it reads the digits in decimal, and of a
hexadecimal one the zero before the `x`. -/

/-- What `%d` reads of a numeral: a hexadecimal one ends for it before the `x`. -/
def readD (base : ℕ) (ds : List Byte) : ℕ := if base = 16 then 0 else digitsValue ds

/-- Decimal digits stand for the same number. -/
theorem valueIn_ten (hds : ∀ c ∈ ds, isdigitIn 10 c = true) : valueIn 10 ds = digitsValue ds :=
  foldl_digitVal (fun c hc => (isdigitIn_ten c).symm.trans (hds c hc)) 0

/-- The digits `%d` reads of a numeral, and what stops it. -/
theorem Numeral.parts (h : Numeral base text ds) (hnl : nl = [] ∨ nl = [0x0a])
    (hsign : sign = [] ∨ sign = [0x2d]) :
    ∃ ds' rest, Parts (sign ++ (text ++ nl)) [] sign ds' rest ∧ ds' ≠ [] ∧
      digitsValue ds' = readD base ds := by
  have hstop : ∀ c, nl.head? = some c → isdigit c = false := by
    intro c hc
    rcases hnl with rfl | rfl
    · cases hc
    · obtain rfl := Option.some.inj hc
      rfl
  cases h with
  | @decimal c ds hc hds =>
    refine ⟨c :: ds, nl, ⟨rfl, by simp, hsign, fun d hd => (isdigitIn_ten d).symm.trans (hds d hd),
      fun d hd => ⟨hstop d hd, fun _ h => by cases h⟩⟩, List.cons_ne_nil _ _, rfl⟩
  | @octal ds hds =>
    refine ⟨0x30 :: ds, nl, ⟨rfl, by simp, hsign, fun d hd => ?_,
      fun d hd => ⟨hstop d hd, fun _ h => by cases h⟩⟩, List.cons_ne_nil _ _, rfl⟩
    rcases List.mem_cons.mp hd with rfl | hd
    · decide
    · exact (isdigitIn_eight (hds d hd)).1
  | @hex x ds hx hne hds =>
    have hxnot : ∀ x : Byte, tolower x = 0x78 → isdigit x = false := by decide +kernel
    refine ⟨[0x30], x :: (ds ++ nl), ⟨rfl, by simp, hsign, fun d hd => ?_, fun d hd => ?_⟩,
      List.cons_ne_nil _ _, rfl⟩
    · rw [List.mem_singleton.mp hd]
      decide
    · obtain rfl := Option.some.inj hd
      exact ⟨hxnot x hx, fun _ h => by cases h⟩

/-- **`%d` of a text `kstrtoint` accepts.** Behind a plus it finds no number; otherwise it
finds the decimal reading, with the sign. -/
theorem Written.scanD (h : Written s sign text ds nl base) :
    scanD s = if sign = [0x2b] then none else some (withSign sign (readD base ds)) := by
  obtain ⟨rfl, hsign, hnumeral, hnl⟩ := h
  by_cases hplus : sign = [0x2b]
  · subst hplus
    have hparts : Parts ([0x2b] ++ (text ++ nl)) [] [] [] (0x2b :: (text ++ nl)) := by
      refine ⟨rfl, by simp, Or.inl rfl, by simp, fun c hc => ?_⟩
      obtain rfl := Option.some.inj hc
      decide
    rw [hparts.scanD, if_pos rfl, if_pos rfl]
  · have hsign' : sign = [] ∨ sign = [0x2d] := by
      rcases hsign with h | h | h
      · exact Or.inl h
      · exact absurd h hplus
      · exact Or.inr h
    obtain ⟨ds', rest, hparts, hne, hvalue⟩ := hnumeral.parts hnl hsign'
    rw [hparts.scanD, if_neg hne, if_neg hplus, hvalue]
    rcases hsign' with rfl | rfl <;> rfl

end KernelDrvLearn
