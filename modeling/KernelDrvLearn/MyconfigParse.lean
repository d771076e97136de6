import KernelDrvLearn.CInt
import KernelDrvLearn.Myconfig
import KernelDrvLearn.Numerals
import KernelDrvLearn.Readout

/-!
# The two parsers of `myconfig`

`config_store` and `configwrite` of `practice/myconfig/myconfig.c` on the same
text: one parses it with `kstrtoint` and base 0, which checks the range and what
is behind the number, the other with `sscanf` and `%d`, which does neither and
knows no other base.

They agree on a text if and only if both find no number, or it is a number in
the range of `int`, without a plus, and decimal, or one whose decimal reading is
the same (`config_agree_iff`).
-/

namespace KernelDrvLearn

namespace Myconfig

/-- What is written to the character device for the text `t`. -/
def configLine (t : List Byte) : List Byte := ascii "config=" ++ t

/-- If the attribute takes the text, the character device sets the same value;
and if it does not, the write fails, and `config` stays. -/
structure Agrees (t : List Byte) : Prop where
  accepts : ∀ (config v : BitVec 32) (user : ℕ → Byte) (buf : ℕ),
    Mem.load user buf (configLine t).length = configLine t →
    configStore config (sysfsBuf t) t.length = (v, (t.length : Int)) →
      configwrite config user buf (configLine t).length 0 = (v, ((configLine t).length : Int))
  rejects : ∀ (config : BitVec 32) (user : ℕ → Byte) (buf : ℕ),
    Mem.load user buf (configLine t).length = configLine t →
    (configStore config (sysfsBuf t) t.length).2 < 0 →
      configwrite config user buf (configLine t).length 0 = (config, efault)

/-- The text is a number for `kstrtoint`, with its value. -/
def Accepted (s : List Byte) : Prop :=
  ∃ sign text ds nl base, Written s sign text ds nl base ∧ IsInt (withSign sign (valueIn base ds))

/-- Without a plus, and decimal; octal with digits that make the same number in
decimal, up to a multiple of 2³²; or a hexadecimal zero. -/
def SameNumber (sign ds : List Byte) (base : ℕ) : Prop :=
  sign ≠ [0x2b] ∧ (base = 10 ∨
    (base = 8 ∧ valueIn 8 ds % 4294967296 = digitsValue ds % 4294967296) ∨
      (base = 16 ∧ valueIn 16 ds = 0))

/-- There is no number for either of the parsers, or the same one for both. -/
def SameReading (s : List Byte) : Prop :=
  (¬ Accepted s ∧ ∀ n, ¬ Decimal s n) ∨
    ∃ sign text ds nl base, Written s sign text ds nl base ∧
      IsInt (withSign sign (valueIn base ds)) ∧ SameNumber sign ds base

variable {s t sign text ds nl : List Byte} {base : ℕ}

/-! ## The same number

When do two parsers agree? Only on numerals can both succeed. Of a decimal one they read
the same; of an octal one `%d` reads the digits in decimal; of a hexadecimal one it reads
a zero; behind a plus it finds nothing. -/

/-- A sign does not change whether two numbers are the same. -/
theorem withSign_mod_iff {m n : ℕ} (sign : List Byte) :
    withSign sign m % 4294967296 = withSign sign n % 4294967296 ↔
      m % 4294967296 = n % 4294967296 := by
  rw [withSign, withSign]
  split_ifs <;> omega

/-- **`%d` reads the value `kstrtoint` stores** if and only if it is the same
number for it. -/
theorem sscanfD_written_iff (h : Written s sign text ds nl base)
    (hint : IsInt (withSign sign (valueIn base ds))) :
    sscanfD s = some (BitVec.ofInt 32 (withSign sign (valueIn base ds))) ↔
      SameNumber sign ds base := by
  rw [sscanfD_eq, h.scanD, SameNumber]
  by_cases hplus : sign = [0x2b]
  · rw [if_pos hplus]
    exact iff_of_false (fun h => by cases h) fun h => h.1 hplus
  rw [if_neg hplus, Option.map_some, Option.some.injEq, ofInt_eq_iff, withSign_mod_iff,
    and_iff_right hplus]
  cases h.numeral with
  | decimal hc hds =>
    rw [valueIn_ten hds, readD, if_neg (by decide)]
    exact iff_of_true rfl (Or.inl rfl)
  | octal hds =>
    rw [readD, if_neg (by decide)]
    simp [eq_comm]
  | hex hx hne hds =>
    -- the number is smaller than 2³²
    have hlt : valueIn 16 ds < 4294967296 := by
      obtain ⟨hlo, hhi⟩ := hint
      rw [withSign] at hlo hhi
      split_ifs at hlo hhi <;> omega
    rw [readD, if_pos rfl, Nat.zero_mod, Nat.mod_eq_of_lt hlt]
    simp [eq_comm]

theorem kstrtoint_accepted {v : BitVec 32} (h : kstrtoint s 0 = .ok v) : Accepted s := by
  obtain ⟨sign, text, ds, nl, base, hw, hint, -⟩ := kstrtoint_ok_iff.mp h
  exact ⟨sign, text, ds, nl, base, hw, hint⟩

/-- **The parsers agree, exactly**, when what the text is for the one it is for the other.
-/
theorem parsers_agree_iff (s : List Byte) :
    ((∀ v, kstrtoint s 0 = .ok v → sscanfD s = some v) ∧
      (∀ e, kstrtoint s 0 = .error e → sscanfD s = none)) ↔ SameReading s := by
  constructor
  · rintro ⟨hok, herr⟩
    rcases hparse : kstrtoint s 0 with e | v
    · -- rejected by both
      refine Or.inl ⟨?_, fun n hn => ?_⟩
      · rintro ⟨sign, text, ds, nl, base, hw, hint⟩
        rw [kstrtoint_ok_iff.mpr ⟨sign, text, ds, nl, base, hw, hint, rfl⟩] at hparse
        cases hparse
      · have hnone := herr e hparse
        rw [sscanfD_eq, (decimal_iff s n).mp hn] at hnone
        cases hnone
    · obtain ⟨sign, text, ds, nl, base, hw, hint, rfl⟩ := kstrtoint_ok_iff.mp hparse
      exact Or.inr ⟨sign, text, ds, nl, base, hw, hint,
        (sscanfD_written_iff hw hint).mp (hok _ hparse)⟩
  · rintro (⟨hnot, hdecimal⟩ | ⟨sign, text, ds, nl, base, hw, hint, hsame⟩)
    · refine ⟨fun v hv => absurd (kstrtoint_accepted hv) hnot, fun e _ => ?_⟩
      rcases hscan : scanD s with _ | n
      · rw [sscanfD_eq, hscan]
        rfl
      · exact absurd ((decimal_iff s n).mpr hscan) (hdecimal n)
    · have hparse := kstrtoint_ok_iff.mpr ⟨sign, text, ds, nl, base, hw, hint, rfl⟩
      rw [hparse]
      refine ⟨fun v hv => ?_, fun e he => by cases he⟩
      rw [← Except.ok.inj hv]
      exact (sscanfD_written_iff hw hint).mpr hsame

/-! ## The two interfaces

From parsers to interfaces: each takes the text up to its first zero, one as it is and one
behind `config=`. The attribute returns the count or the error of the parser; the
character device an error if no conversion was made. -/

/-- What sysfs passes is parsed up to the first zero of the text. -/
theorem cstr_sysfsBuf (ht : t.length < pageSize) :
    Mem.cstr (sysfsBuf t) 0 pageSize = t.takeWhile (· ≠ 0) := by
  have hbuf : sysfsBuf t = Mem.store (fun _ => 0) 0 t := Mem.store_concat_zero rfl
  rw [hbuf]
  exact Mem.cstr_store_zero rfl ht

/-- The attribute takes the text if `kstrtoint` does. A count is not negative. -/
theorem configStore_stores_iff (config : BitVec 32) {v : BitVec 32} (ht : t.length < pageSize) :
    configStore config (sysfsBuf t) t.length = (v, (t.length : Int)) ↔
      kstrtoint (t.takeWhile (· ≠ 0)) 0 = .ok v := by
  rw [configStore, cstr_sysfsBuf ht]
  rcases hparse : kstrtoint (t.takeWhile (· ≠ 0)) 0 with e | v'
  · refine iff_of_false (fun h => ?_) fun h => by cases h
    have hneg := kstrtoint_error hparse
    obtain rfl : e = t.length := congrArg Prod.snd h
    exact absurd hneg (Int.not_lt.mpr (Int.natCast_nonneg _))
  · simp

/-- And it rejects the text, with a negative value, if and only if `kstrtoint` does. -/
theorem configStore_rejects_iff (config : BitVec 32) (ht : t.length < pageSize) :
    (configStore config (sysfsBuf t) t.length).2 < 0 ↔
      ∃ e, kstrtoint (t.takeWhile (· ≠ 0)) 0 = .error e := by
  rw [configStore, cstr_sysfsBuf ht]
  rcases hparse : kstrtoint (t.takeWhile (· ≠ 0)) 0 with e | v
  · exact iff_of_true (kstrtoint_error hparse) ⟨e, rfl⟩
  · refine iff_of_false (Int.not_lt.mpr (Int.natCast_nonneg _)) ?_
    rintro ⟨e, he⟩
    cases he

/-- The character device parses what is behind `config=`, up to the first zero. -/
theorem configwrite_line (config : BitVec 32) {user : ℕ → Byte} {buf : ℕ} (ht : t.length ≤ 1000)
    (hload : Mem.load user buf (configLine t).length = configLine t) :
    configwrite config user buf (configLine t).length 0 =
      (sscanfD (t.takeWhile (· ≠ 0))).elim (config, efault) fun conf =>
        (conf, ((configLine t).length : Int)) := by
  have hprefix : (ascii "config=").length = 7 := by decide
  have hlen : (configLine t).length < kbufSize := by
    rw [configLine, List.length_append, hprefix]
    exact Nat.lt_of_le_of_lt (Nat.add_le_add_left ht 7) (by decide)
  have hliteral : sscanfLiteral (ascii "config=") ((configLine t).takeWhile (· ≠ 0)) =
      some (t.takeWhile (· ≠ 0)) := by
    rw [sscanfLiteral_takeWhile (by decide), configLine, sscanfLiteral_append, Option.map_some]
  rw [configwrite_bytes config hlen hload, hliteral, Option.bind_some]
  cases sscanfD (t.takeWhile (· ≠ 0)) <;> rfl

/-- The write succeeds if `%d` makes a conversion, -/
theorem configwrite_stores_iff {config v : BitVec 32} {user : ℕ → Byte} {buf : ℕ}
    (ht : t.length ≤ 1000)
    (hload : Mem.load user buf (configLine t).length = configLine t) :
    configwrite config user buf (configLine t).length 0 =
        (v, ((configLine t).length : Int)) ↔ sscanfD (t.takeWhile (· ≠ 0)) = some v := by
  rw [configwrite_line config ht hload]
  rcases sscanfD (t.takeWhile (· ≠ 0)) with _ | conf
  · exact iff_of_false (fun h => by cases congrArg Prod.snd h) fun h => by cases h
  · simp

/-- The write returns an error if and only if `sscanf` makes no conversion. -/
theorem configwrite_fails_iff {config : BitVec 32} {user : ℕ → Byte} {buf : ℕ}
    (ht : t.length ≤ 1000)
    (hload : Mem.load user buf (configLine t).length = configLine t) :
    configwrite config user buf (configLine t).length 0 = (config, efault) ↔
      sscanfD (t.takeWhile (· ≠ 0)) = none := by
  rw [configwrite_line config ht hload]
  rcases sscanfD (t.takeWhile (· ≠ 0)) with _ | conf
  · exact iff_of_true rfl rfl
  · exact iff_of_false (fun h => by cases congrArg Prod.snd h) fun h => by cases h

/-- **Agreement, exactly.** The attribute and the character device agree on a
text of at most 1000 bytes if and only if, up to its first zero, there is no
number in it for either parser, or the same one for both.

The two parsers differ at the borders: one goes on to the end of the text and wants
nothing behind the number, the other stops behind it, and they treat values outside of
an `int` differently. Where the text up to its first zero is unambiguous, none of this
shows. -/
theorem config_agree_iff (ht : t.length ≤ 1000) :
    Agrees t ↔ SameReading (t.takeWhile (· ≠ 0)) := by
  have hpage : t.length < pageSize := Nat.lt_of_le_of_lt ht (by decide)
  rw [← parsers_agree_iff]
  constructor
  · intro h
    have hload : Mem.load (Mem.store (fun _ => 0) 0 (configLine t)) 0 (configLine t).length =
        configLine t := Mem.load_store
    refine ⟨fun v hv => ?_, fun e he => ?_⟩
    · have hstore := (configStore_stores_iff 0 hpage).mpr hv
      exact (configwrite_stores_iff ht hload).mp (h.accepts 0 v _ 0 hload hstore)
    · have hreject := (configStore_rejects_iff 0 hpage).mpr ⟨e, he⟩
      exact (configwrite_fails_iff ht hload).mp (h.rejects 0 _ 0 hload hreject)
  · rintro ⟨hok, herr⟩
    refine ⟨fun config v user buf hload hstore => ?_, fun config user buf hload hreject => ?_⟩
    · have hv := (configStore_stores_iff config hpage).mp hstore
      exact (configwrite_stores_iff ht hload).mpr (hok v hv)
    · obtain ⟨e, he⟩ := (configStore_rejects_iff config hpage).mp hreject
      exact (configwrite_fails_iff ht hload).mpr (herr e he)

/-! ## Texts on which they agree, and others

Decimal numbers are what a user writes, and on these the interfaces agree. They differ on
the other bases, on numbers with something behind them, and on numbers that are too large.
-/

/-- A user's buffer with the line for `t` in it. -/
def lineBuf (t : List Byte) : ℕ → Byte := Mem.store (fun _ => 0) 0 (configLine t)

theorem config_agree_iff_decimal : Agrees (ascii "-42\n") := by
  have hw : Written (ascii "-42\n") [0x2d] [0x34, 0x32] [0x34, 0x32] [0x0a] 10 :=
    ⟨rfl, Or.inr (Or.inr rfl), Numeral.decimal (by decide) (by decide), Or.inr rfl⟩
  have hsame : SameReading ((ascii "-42\n").takeWhile (· ≠ 0)) :=
    Or.inr ⟨_, _, _, _, _, hw, by decide, by decide, Or.inl rfl⟩
  exact (config_agree_iff (by decide)).mpr hsame

/-- The attribute stores 16 for `"0x10"` and the character device 0; and of
`"12abc"` and `"99999999999"`, which the attribute rejects, the character device
stores 12 and 1215752191. -/
theorem parsers_disagree :
    configStore 7 (sysfsBuf (ascii "0x10")) 4 = (16, 4) ∧
      configwrite 7 (lineBuf (ascii "0x10")) 0 11 0 = (0, 11) ∧
      configStore 7 (sysfsBuf (ascii "12abc")) 5 = (7, einval) ∧
      configwrite 7 (lineBuf (ascii "12abc")) 0 12 0 = (12, 12) ∧
      configStore 7 (sysfsBuf (ascii "99999999999")) 11 = (7, erange) ∧
      configwrite 7 (lineBuf (ascii "99999999999")) 0 18 0 = (1215752191, 18) ∧
      ¬ Agrees (ascii "0x10") := by
  have hstore : configStore 7 (sysfsBuf (ascii "0x10")) 4 = (16, 4) := by decide +kernel
  have hwrite : configwrite 7 (lineBuf (ascii "0x10")) 0 11 0 = (0, 11) := by decide +kernel
  refine ⟨hstore, hwrite, by decide +kernel, by decide +kernel, by decide +kernel,
    by decide +kernel, fun h => ?_⟩
  have heq := h.accepts 7 16 (lineBuf (ascii "0x10")) 0 Mem.load_store hstore
  exact absurd (hwrite.symm.trans heq) (by decide)

end Myconfig

end KernelDrvLearn
