import KernelDrvLearn.KernelApi
import KernelDrvLearn.Printf

/-!
# Reading numbers

The kernel's `kstrtoint`, and the matching of a literal and a `%d` by its
`sscanf`, on strings without their terminating zero. They share the digit loop
`_parse_integer`; around it `kstrtoint` finds the base out, takes a sign of
either kind and a newline at the end and checks the range, while `%d` skips
blanks, takes a minus, stops at the first character that is no digit and drops
the high bits.

Both read back what `%d` of `snprintf` prints (`kstrtoint_fmtD`,
`sscanfD_fmtD`).
-/

namespace KernelDrvLearn

/-- `_tolower`, the kernel's one-bit conversion, as `_parse_integer` applies it before it
looks for a hexadecimal digit. -/
def tolower (c : Byte) : Byte := c ||| 0x20

/-- The value of a digit, decimal or hexadecimal. -/
def digitVal (c : Byte) : Option ℕ :=
  if 0x30 ≤ c.toNat ∧ c.toNat ≤ 0x39 then some (c.toNat - 0x30)
  else if 0x61 ≤ (tolower c).toNat ∧ (tolower c).toNat ≤ 0x66 then
    some ((tolower c).toNat - 0x61 + 10)
  else none

/-- `isdigit`, of the ASCII characters: `0` to `9`. -/
def isdigit (c : Byte) : Bool := decide (0x30 ≤ c.toNat ∧ c.toNat ≤ 0x39)

/-- A digit of this base. -/
def isdigitIn (base : ℕ) (c : Byte) : Bool := (digitVal c).any fun d => decide (d < base)

/-- `isspace`: the blank and the control characters that count as one, and the no-break
space of the kernel's table. -/
def isspace (c : Byte) : Bool :=
  decide (c.toNat = 0x20 ∨ (0x09 ≤ c.toNat ∧ c.toNat ≤ 0x0d) ∨ c.toNat = 0xa0)

/-- `_parse_integer`: the digits at the front, `acc` being the value of those
before them, and what comes after. The value is exact; it overflows if it is
2⁶⁴ or more. -/
def parseInteger (base acc : ℕ) : List Byte → ℕ × List Byte
  | [] => (acc, [])
  | c :: s =>
    match digitVal c with
    | none => (acc, c :: s)
    | some val => if val < base then parseInteger base (acc * base + val) s else (acc, c :: s)

/-- `_parse_integer_fixup_radix`: base 0 becomes 16 at `0x` and a hexadecimal digit, 8 at
any other zero, and 10 otherwise; the prefix of base 16 is skipped. -/
def fixupRadix (base : ℕ) (s : List Byte) : ℕ × List Byte :=
  let base :=
    if base ≠ 0 then base
    else if s[0]? = some 0x30 then
      if s[1]?.map tolower = some 0x78 ∧ (s[2]?.bind digitVal).isSome then 16 else 8
    else 10
  if base = 16 ∧ s[0]? = some 0x30 ∧ s[1]?.map tolower = some 0x78 then (base, s.drop 2)
  else (base, s)

/-! ## `kstrtoint`

The four functions of `lib/kstrtox.c`, each calling the one before it. All of them reject
an empty number, and what is left behind it other than one newline. -/

/-- `_kstrtoull`: the base, the digits, and at most one newline behind them. What
overflows is `-ERANGE`, and any other character `-EINVAL`. -/
def kstrtoullDigits (s : List Byte) (base : ℕ) : Except Int ℕ :=
  let fixed := fixupRadix base s
  let parsed := parseInteger fixed.1 0 fixed.2
  if 18446744073709551616 ≤ parsed.1 then .error erange
  else if parsed.2.length = fixed.2.length then .error einval
  else if parsed.2 = [] ∨ parsed.2 = [0x0a] then .ok parsed.1
  else .error einval

/-- `kstrtoull`, which takes a plus before the number. -/
def kstrtoull (s : List Byte) (base : ℕ) : Except Int ℕ :=
  match s with
  | 0x2b :: s => kstrtoullDigits s base
  | s => kstrtoullDigits s base

/-- `kstrtoll`, which takes a minus as well, and checks the range of a `long`. -/
def kstrtoll (s : List Byte) (base : ℕ) : Except Int Int :=
  match s with
  | 0x2d :: s =>
    (kstrtoullDigits s base).bind fun tmp =>
      if 9223372036854775808 < tmp then .error erange else .ok (-(tmp : Int))
  | s =>
    (kstrtoull s base).bind fun tmp =>
      if 9223372036854775808 ≤ tmp then .error erange else .ok (tmp : Int)

/-- `kstrtoint`, which also checks that the number survives as an `int`. -/
def kstrtoint (s : List Byte) (base : ℕ) : Except Int (BitVec 32) :=
  (kstrtoll s base).bind fun tmp =>
    if (BitVec.ofInt 32 tmp).toInt ≠ tmp then .error erange else .ok (BitVec.ofInt 32 tmp)

/-! ## `sscanf`

The two conversions the drivers' formats are made of. A literal has to be matched
character by character; `%d` is forgiving about blanks before the number, and about
everything behind it. -/

/-- Matching a literal without blanks and conversions. -/
def sscanfLiteral : List Byte → List Byte → Option (List Byte)
  | [], s => some s
  | _ :: _, [] => none
  | c :: lit, d :: s => if c = d then sscanfLiteral lit s else none

/-- `%d`: the value stored, if the conversion is made. -/
def sscanfD (s : List Byte) : Option (BitVec 32) :=
  let s := s.dropWhile isspace
  match s with
  | 0x2d :: s =>
    if s.head?.any isdigit then some (BitVec.ofInt 32 (-(parseInteger 10 0 s).1)) else none
  | s => if s.head?.any isdigit then some (BitVec.ofInt 32 (parseInteger 10 0 s).1) else none

/-! ## The digits of a number

The digit loop undoes printing. A printed number is the digits of its quotient by ten, and
its last digit, which is how the loop multiplies and adds; so the two meet by induction on
the number. -/

/-- The character of a decimal digit: `0` plus the digit. -/
def digitByte (d : ℕ) : Byte := BitVec.ofNat 8 (0x30 + d)

theorem digitByte_eq : ∀ d < 10, BitVec.ofNat 8 d.digitChar.toNat = digitByte d := by decide

theorem digitVal_digitByte : ∀ d < 10, digitVal (digitByte d) = some d := by decide

theorem isdigit_digitByte : ∀ d < 10, isdigit (digitByte d) = true := by decide

/-- A number below ten has one digit. -/
theorem digits_lt {n : ℕ} (h : n < 10) : digits n = [digitByte n] := by
  rw [digits, Nat.toDigits_of_lt_base h, List.map_singleton, digitByte_eq n h]

/-- The last digit comes off the end. -/
theorem digits_ge {n : ℕ} (h : 10 ≤ n) : digits n = digits (n / 10) ++ [digitByte (n % 10)] := by
  rw [digits, Nat.toDigits_of_base_le (by decide) h, List.map_append, List.map_singleton,
    digitByte_eq _ (Nat.mod_lt n (by decide)), digits]

/-- A number starts with a digit, and with a zero only if it is zero. -/
theorem digits_eq_cons (n : ℕ) :
    ∃ d ds, d < 10 ∧ digits n = digitByte d :: ds ∧ (n ≠ 0 → d ≠ 0) := by
  induction n using Nat.strongRecOn with
  | ind n ih =>
    by_cases hlt : n < 10
    · exact ⟨n, [], hlt, digits_lt hlt, id⟩
    · have hge : 10 ≤ n := Nat.le_of_not_lt hlt
      obtain ⟨d, ds, hd, heq, hne⟩ := ih (n / 10) (by omega)
      refine ⟨d, ds ++ [digitByte (n % 10)], hd, ?_, fun _ => hne (by omega)⟩
      rw [digits_ge hge, heq]
      rfl

theorem parseInteger_digit {d : ℕ} (hd : d < 10) (acc : ℕ) (s : List Byte) :
    parseInteger 10 acc (digitByte d :: s) = parseInteger 10 (acc * 10 + d) s := by
  rw [parseInteger, digitVal_digitByte d hd]
  exact if_pos hd

/-- **The digit loop reads a printed number.** -/
theorem parseInteger_digits (n : ℕ) (s : List Byte) :
    parseInteger 10 0 (digits n ++ s) = parseInteger 10 n s := by
  induction n using Nat.strongRecOn generalizing s with
  | ind n ih =>
    by_cases hlt : n < 10
    · rw [digits_lt hlt, List.singleton_append, parseInteger_digit hlt, Nat.zero_mul, Nat.zero_add]
    · have hge : 10 ≤ n := Nat.le_of_not_lt hlt
      have hdiv : n / 10 * 10 + n % 10 = n := by omega
      rw [digits_ge hge, List.append_assoc, ih (n / 10) (by omega), List.singleton_append,
        parseInteger_digit (Nat.mod_lt n (by decide)), hdiv]

/-- The digits of base 10 are those that `isdigit` knows. -/
theorem isdigitIn_ten : ∀ c : Byte, isdigitIn 10 c = isdigit c := by decide +kernel

/-- The digit loop takes digits of its base as long as there are any, and stops at what is
none. -/
theorem parseInteger_digitsIn {base acc : ℕ} {ds rest : List Byte}
    (hds : ∀ c ∈ ds, isdigitIn base c = true)
    (hstop : ∀ c, rest.head? = some c → isdigitIn base c = false) :
    parseInteger base acc (ds ++ rest) =
      (ds.foldl (fun acc c => acc * base + (digitVal c).getD 0) acc, rest) := by
  induction ds generalizing acc with
  | nil =>
    cases rest with
    | nil => rfl
    | cons c rest =>
      have hc := hstop c rfl
      rw [List.nil_append, parseInteger]
      rcases hval : digitVal c with _ | val
      · rfl
      · have hge : ¬ val < base := by simpa [isdigitIn, hval] using hc
        exact if_neg hge
  | cons c ds ih =>
    have hc := hds c List.mem_cons_self
    obtain ⟨val, hval, hlt⟩ : ∃ val, digitVal c = some val ∧ val < base := by
      simpa [isdigitIn, Option.any_eq_true] using hc
    rw [List.cons_append, parseInteger, hval, List.foldl_cons, hval, Option.getD_some,
      ← ih fun d hd => hds d (List.mem_cons_of_mem c hd)]
    exact if_pos hlt

/-- The decimal digits stop at any other character. -/
theorem parseInteger_stop {c : Byte} (hc : isdigit c = false) (acc : ℕ) (s : List Byte) :
    parseInteger 10 acc (c :: s) = (acc, c :: s) := by
  refine parseInteger_digitsIn (fun d hd => absurd hd List.not_mem_nil) fun d hd => ?_
  obtain rfl := Option.some.inj hd
  exact (isdigitIn_ten c).trans hc

/-! ## Printing and reading

What was printed with `%d` comes back, through either parser. The newline behind the
number is what `kstrtoint` allows and `%d` does not look at. -/

theorem parseInteger_newline (base n : ℕ) : parseInteger base n [0x0a] = (n, [0x0a]) := rfl

/-- Base 0 takes a printed number as decimal, and 0 as octal. -/
theorem fixupRadix_digits (n : ℕ) :
    fixupRadix 0 (digits n ++ [0x0a]) = (if n = 0 then 8 else 10, digits n ++ [0x0a]) := by
  by_cases h0 : n = 0
  · subst h0
    decide
  · obtain ⟨d, ds, hd, heq, hne⟩ := digits_eq_cons n
    have hzero : ∀ d < 10, d ≠ 0 → some (digitByte d) ≠ some 0x30 := by decide
    rw [heq, if_neg h0, fixupRadix]
    simp only [List.cons_append, List.getElem?_cons_zero, hzero d hd (hne h0), ne_eq,
      not_true_eq_false, if_false, false_and, and_false]

theorem digits_head (n : ℕ) : ∃ c s, digits n = c :: s ∧ isdigit c = true := by
  obtain ⟨d, ds, hd, heq, -⟩ := digits_eq_cons n
  exact ⟨_, ds, heq, isdigit_digitByte d hd⟩

/-- `_kstrtoull` reads a printed number and a newline. -/
theorem kstrtoullDigits_digits {n : ℕ} (h : n < 18446744073709551616) :
    kstrtoullDigits (digits n ++ [0x0a]) 0 = .ok n := by
  rw [kstrtoullDigits, fixupRadix_digits]
  by_cases h0 : n = 0
  · subst h0
    decide
  · have hlen : ([0x0a] : List Byte).length ≠ (digits n ++ [0x0a]).length := by
      obtain ⟨d, ds, -, heq, -⟩ := digits_eq_cons n
      rw [heq, List.length_append]
      exact Nat.ne_of_lt (Nat.lt_add_of_pos_left (Nat.succ_pos _))
    dsimp only
    rw [if_neg h0, parseInteger_digits, parseInteger_newline, if_neg (Nat.not_le_of_lt h),
      if_neg hlen, if_pos (Or.inr rfl)]

/-- A number does not start with a sign or a blank. -/
theorem isdigit_ne {c : Byte} (hc : isdigit c = true) :
    c ≠ 0x2d ∧ c ≠ 0x2b ∧ isspace c = false := by
  have hall : ∀ c : Byte, isdigit c = true → c ≠ 0x2d ∧ c ≠ 0x2b ∧ isspace c = false := by
    decide +kernel
  exact hall c hc

theorem kstrtoll_digit {c : Byte} (hc : isdigit c = true) (s : List Byte) (base : ℕ) :
    kstrtoll (c :: s) base = (kstrtoullDigits (c :: s) base).bind fun tmp =>
      if 9223372036854775808 ≤ tmp then .error erange else .ok (tmp : Int) := by
  obtain ⟨hminus, hplus, -⟩ := isdigit_ne hc
  rw [kstrtoll, kstrtoull]
  · intro s' heq
    exact hplus (List.cons.inj heq).1
  · intro s' heq
    exact hminus (List.cons.inj heq).1

theorem kstrtoll_minus (s : List Byte) (base : ℕ) :
    kstrtoll (0x2d :: s) base = (kstrtoullDigits s base).bind fun tmp =>
      if 9223372036854775808 < tmp then .error erange else .ok (-(tmp : Int)) :=
  rfl

theorem sscanfD_digit {c : Byte} (hc : isdigit c = true) (s : List Byte) :
    sscanfD (c :: s) = some (BitVec.ofInt 32 (parseInteger 10 0 (c :: s)).1) := by
  obtain ⟨hminus, -, hspace⟩ := isdigit_ne hc
  rw [sscanfD, List.dropWhile_cons_of_neg (by rw [hspace]; nofun)]
  split
  case h_1 heq => exact absurd (List.cons.inj heq).1 hminus
  case h_2 => exact if_pos hc

theorem sscanfD_minus {c : Byte} (hc : isdigit c = true) (s : List Byte) :
    sscanfD (0x2d :: c :: s) = some (BitVec.ofInt 32 (-(parseInteger 10 0 (c :: s)).1)) :=
  if_pos hc

theorem fmtD_neg {i : Int} (h : i < 0) : fmtD i = 0x2d :: digits i.natAbs := if_pos h

theorem fmtD_nonneg {i : Int} (h : 0 ≤ i) : fmtD i = digits i.natAbs := if_neg (Int.not_lt.mpr h)

/-- **`kstrtoint` inverts `%d`**, with a newline after the number. -/
theorem kstrtoint_fmtD (v : BitVec 32) : kstrtoint (fmtD v.toInt ++ [0x0a]) 0 = .ok v := by
  have hlo := BitVec.le_toInt v
  have hhi := BitVec.toInt_lt (x := v)
  have hdigits := kstrtoullDigits_digits (n := v.toInt.natAbs) (by omega)
  have hll : kstrtoll (fmtD v.toInt ++ [0x0a]) 0 = .ok v.toInt := by
    by_cases hneg : v.toInt < 0
    · have hle : ¬ 9223372036854775808 < v.toInt.natAbs := by omega
      have habs : -((v.toInt.natAbs : ℕ) : Int) = v.toInt := by omega
      rw [fmtD_neg hneg, List.cons_append, kstrtoll_minus, hdigits, Except.bind, if_neg hle, habs]
    · have hlt : ¬ 9223372036854775808 ≤ v.toInt.natAbs := by omega
      have habs : ((v.toInt.natAbs : ℕ) : Int) = v.toInt := by omega
      obtain ⟨c, s, heq, hc⟩ := digits_head v.toInt.natAbs
      rw [fmtD_nonneg (Int.not_lt.mp hneg)]
      rw [heq, List.cons_append] at hdigits ⊢
      rw [kstrtoll_digit hc, hdigits, Except.bind, if_neg hlt, habs]
  rw [kstrtoint, hll, Except.bind, BitVec.ofInt_toInt]
  exact if_neg (not_not_intro rfl)

/-- **`%d` of `sscanf` inverts `%d`**, with a newline after the number. -/
theorem sscanfD_fmtD (v : BitVec 32) : sscanfD (fmtD v.toInt ++ [0x0a]) = some v := by
  obtain ⟨c, s, heq, hc⟩ := digits_head v.toInt.natAbs
  have hparse : (parseInteger 10 0 (c :: (s ++ [0x0a]))).1 = v.toInt.natAbs := by
    rw [← List.cons_append, ← heq, parseInteger_digits, parseInteger_newline]
  by_cases hneg : v.toInt < 0
  · have habs : -((v.toInt.natAbs : ℕ) : Int) = v.toInt := by omega
    rw [fmtD_neg hneg, heq, List.cons_append, List.cons_append, sscanfD_minus hc, hparse, habs,
      BitVec.ofInt_toInt]
  · have habs : ((v.toInt.natAbs : ℕ) : Int) = v.toInt := by omega
    rw [fmtD_nonneg (Int.not_lt.mp hneg), heq, List.cons_append, sscanfD_digit hc, hparse, habs,
      BitVec.ofInt_toInt]

/-- A literal is matched by a text that begins with it, and what is left is what comes
behind it. -/
theorem sscanfLiteral_append (lit s : List Byte) : sscanfLiteral lit (lit ++ s) = some s := by
  induction lit with
  | nil => rfl
  | cons c lit ih =>
    rw [List.cons_append, sscanfLiteral, if_pos rfl]
    exact ih

end KernelDrvLearn
