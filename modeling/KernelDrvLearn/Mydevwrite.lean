import KernelDrvLearn.Decimals
import KernelDrvLearn.KernelApi

/-!
# A configuration write of `mydevice`

`mydevwrite` of `practice/mydevice/mydevice.c`: up to 64 bytes are copied into
`kbuf`, and `sscanf` takes a number out of them. The function goes on after an
incomplete copy, with the bytes there are; 64 bytes leave no room for a
terminator, so that `sscanf` reads on in the stack; and `%d` does not mind a
number too large for an `int`. (`configwrite` of `myconfig.c` does neither of
the first two.)

A write is exact and atomic if and only if it comes to none of these
(`mydevwrite_atomic_iff`).
-/

namespace KernelDrvLearn

namespace Mydev

namespace Write

/-- `sizeof(kbuf)`: 64 bytes, the terminator included. -/
abbrev kbufSize : ℕ := 64

/-- What `mydevwrite` leaves: `config`, the offset and the value. -/
structure WriteResult where
  /-- `mydev->config` -/
  config : BitVec 32
  /-- `*off` -/
  off : ℕ
  /-- the value returned -/
  ret : Int
  deriving DecidableEq

/-- `sscanf(s, "configinfo=%d", …)`: the number stored. -/
def sscanfConfiginfo (s : List Byte) : Option (BitVec 32) :=
  (sscanfLiteral (ascii "configinfo=") s).bind sscanfD

/-- `mydevwrite`. `uncopied` is what `copy_from_user` leaves, and `stack` is what
is behind `kbuf`. -/
def mydevwrite (config : BitVec 32) (isConfig : Bool) (off : ℕ) (user : ℕ → Byte)
    (usrbuf count uncopied : ℕ) (stack : List Byte) : WriteResult :=
  if off ≠ 0 then ⟨config, off, 0⟩
  else if isConfig = false then ⟨config, off, eperm⟩
  else if count > kbufSize then ⟨config, off, einval⟩
  else
    let kbuf := Mem.store (Mem.store (fun _ => 0) kbufSize stack) 0
      (Mem.load user usrbuf (count - uncopied))
    -- an incomplete copy is logged, and no more
    match sscanfConfiginfo (Mem.cstr kbuf 0 (kbufSize + stack.length)) with
    | none => ⟨config, off, einval⟩
    | some configinfo => ⟨configinfo, off + count, count⟩

/-! ## Exact and atomic writes

What a write ought to do, without a word about the parser: set `config` to the number in
the line or leave it alone, all or nothing, and by what was written only. -/

/-- The bytes begin with `configinfo=` and the decimal number `v`. -/
def ConfigLine (w : List Byte) (v : BitVec 32) : Prop :=
  ∃ t, w = ascii "configinfo=" ++ t ∧ Decimal t v.toInt

/-- A write by the holder, at offset 0: if all bytes are copied and begin with
`configinfo=` and an `int`, it sets `config` to that and returns `count`;
otherwise it fails and leaves `config` alone; and whatever is not written does
not matter. -/
structure Atomic (user : ℕ → Byte) (usrbuf count uncopied : ℕ) : Prop where
  accepts : ∀ v, uncopied = 0 → ConfigLine (Mem.load user usrbuf count) v →
    ∀ config stack, (mydevwrite config true 0 user usrbuf count uncopied stack).config = v ∧
      (mydevwrite config true 0 user usrbuf count uncopied stack).ret = count
  rejects : ¬ (uncopied = 0 ∧ ∃ v, ConfigLine (Mem.load user usrbuf count) v) →
    ∀ config stack, (mydevwrite config true 0 user usrbuf count uncopied stack).config = config ∧
      (mydevwrite config true 0 user usrbuf count uncopied stack).ret < 0
  same : ∀ (config : BitVec 32) (user' : ℕ → Byte) (usrbuf' : ℕ) (stack stack' : List Byte),
    Mem.load user' usrbuf' count = Mem.load user usrbuf count →
    mydevwrite config true 0 user' usrbuf' count uncopied stack' =
      mydevwrite config true 0 user usrbuf count uncopied stack

/-- In what is copied of an incomplete copy there is no number; and a number
that is copied completely is an `int`, and does not go on up to byte 64. -/
structure Clean (w : List Byte) (uncopied : ℕ) : Prop where
  cut : uncopied ≠ 0 → ∀ t n, w.take (w.length - uncopied) = ascii "configinfo=" ++ t →
    ¬ Decimal t n
  range : uncopied = 0 → ∀ t n, w = ascii "configinfo=" ++ t → Decimal t n →
    -2147483648 ≤ n ∧ n < 2147483648
  ended : uncopied = 0 → w.length = kbufSize → ∀ t, w = ascii "configinfo=" ++ t →
    ¬ Unfinished t

/-! ## What is parsed

`sscanf` reads a string, and there may be no zero among the bytes copied. Then it reads
on, and what it makes of the number depends on where the number ends. -/

/-- A zero ends what is parsed, so only the text before the first one counts. -/
theorem sscanfConfiginfo_takeWhile (s : List Byte) :
    sscanfConfiginfo (s.takeWhile (· ≠ 0)) = sscanfConfiginfo s := by
  rw [sscanfConfiginfo, sscanfLiteral_takeWhile (by decide), sscanfConfiginfo, Option.bind_map]
  congr 1
  funext t
  rw [Function.comp_apply, sscanfD_eq, sscanfD_eq, scanD_takeWhile]

theorem sscanfConfiginfo_eq_some_iff {s : List Byte} {v : BitVec 32} :
    sscanfConfiginfo s = some v ↔
      ∃ t n, s = ascii "configinfo=" ++ t ∧ Decimal t n ∧ BitVec.ofInt 32 n = v := by
  rw [sscanfConfiginfo, Option.bind_eq_some_iff]
  constructor
  · rintro ⟨t, hlit, hscan⟩
    rw [sscanfD_eq, Option.map_eq_some_iff] at hscan
    obtain ⟨n, hn, hv⟩ := hscan
    exact ⟨t, n, sscanfLiteral_eq_some_iff.mp hlit, (decimal_iff t n).mpr hn, hv⟩
  · rintro ⟨t, n, hlit, hn, hv⟩
    refine ⟨t, sscanfLiteral_eq_some_iff.mpr hlit, ?_⟩
    rw [sscanfD_eq, (decimal_iff t n).mp hn, Option.map_some, hv]

/-- What is behind 64 bytes does not matter if the number is finished. -/
theorem sscanfConfiginfo_append {w : List Byte} (hlen : w.length = kbufSize)
    (h : ∀ t, w = ascii "configinfo=" ++ t → ¬ Unfinished t) (stack : List Byte) :
    sscanfConfiginfo (w ++ stack) = sscanfConfiginfo w := by
  have hlit : (ascii "configinfo=").length ≤ w.length := by
    rw [hlen]
    decide
  rw [sscanfConfiginfo, sscanfLiteral_append_right hlit, sscanfConfiginfo]
  rcases hrest : sscanfLiteral (ascii "configinfo=") w with _ | t
  · rfl
  · have hfinished := h t (sscanfLiteral_eq_some_iff.mp hrest)
    rw [Option.map_some, Option.bind_some, Option.bind_some, sscanfD_eq, sscanfD_eq,
      scanD_append hfinished]

/-- And it does if the number goes on up to the last of them. -/
theorem sscanfConfiginfo_unfinished {t : List Byte} (h : Unfinished t) :
    sscanfConfiginfo (ascii "configinfo=" ++ t ++ [0x30]) ≠
      sscanfConfiginfo (ascii "configinfo=" ++ t ++ [0x31]) := by
  rw [List.append_assoc, List.append_assoc, sscanfConfiginfo, sscanfConfiginfo,
    sscanfLiteral_append, sscanfLiteral_append]
  exact sscanfD_unfinished h

theorem toInt_ofInt_range {n : Int} (hlo : -2147483648 ≤ n) (hhi : n < 2147483648) :
    (BitVec.ofInt 32 n).toInt = n := by
  rw [BitVec.toInt_ofInt]
  exact Int.bmod_eq_of_le (by omega) (by omega)

/-- The number of a configuration line is parsed. -/
theorem ConfigLine.parsed {w : List Byte} {v : BitVec 32} (h : ConfigLine w v) :
    sscanfConfiginfo w = some v := by
  obtain ⟨t, hw, hdec⟩ := h
  exact sscanfConfiginfo_eq_some_iff.mpr ⟨t, v.toInt, hw, hdec, BitVec.ofInt_toInt⟩

/-- What is parsed is a configuration line, if the number is an `int`. -/
theorem configLine_of_parsed {w : List Byte} {v : BitVec 32} (h : sscanfConfiginfo w = some v)
    (hrange : ∀ t n, w = ascii "configinfo=" ++ t → Decimal t n →
      -2147483648 ≤ n ∧ n < 2147483648) : ConfigLine w v := by
  obtain ⟨t, n, hw, hdec, rfl⟩ := sscanfConfiginfo_eq_some_iff.mp h
  obtain ⟨hlo, hhi⟩ := hrange t n hw hdec
  refine ⟨t, hw, ?_⟩
  rw [toInt_ofInt_range hlo hhi]
  exact hdec

/-! ## What a write does

The buffer holds what was copied, then zeros, and behind its 64 bytes the stack. So the
string parsed is what was copied, unless all 64 bytes were and there is no zero among
them. -/

/-- What `mydevwrite` makes of a number, or of none. -/
def result (config : BitVec 32) (count : ℕ) (parsed : Option (BitVec 32)) : WriteResult :=
  parsed.elim ⟨config, 0, einval⟩ fun v => ⟨v, count, count⟩

theorem result_inj {config : BitVec 32} {count : ℕ} {o o' : Option (BitVec 32)}
    (h : result config count o = result config count o') : o = o' := by
  have hne : einval ≠ (count : Int) :=
    Int.ne_of_lt (Int.lt_of_lt_of_le (by decide) (Int.natCast_nonneg count))
  rcases o with _ | v <;> rcases o' with _ | v'
  · rfl
  · exact absurd (congrArg WriteResult.ret h) hne
  · exact absurd (congrArg WriteResult.ret h).symm hne
  · exact congrArg some (congrArg WriteResult.config h)

/-- **What is parsed of `kbuf`** ends with what was copied, or goes on behind it. -/
theorem sscanfConfiginfo_kbuf {w : List Byte} (hw : w.length ≤ kbufSize) (stack : List Byte) :
    sscanfConfiginfo (Mem.cstr (Mem.store (Mem.store (fun _ => 0) kbufSize stack) 0 w) 0
        (kbufSize + stack.length)) =
      sscanfConfiginfo (if w.length < kbufSize then w else w ++ stack) := by
  split
  case isTrue hlt =>
    rw [Mem.cstr_store_zero, sscanfConfiginfo_takeWhile]
    · exact Mem.store_of_lt (by omega)
    · omega
  case isFalse hge =>
    have hfull : w.length = kbufSize := Nat.le_antisymm hw (Nat.not_lt.mp hge)
    have hstack : Mem.load (Mem.store (Mem.store (fun _ => 0) kbufSize stack) 0 w)
        (0 + kbufSize) stack.length = stack := by
      rw [Nat.zero_add]
      refine Eq.trans (Mem.load_congr fun i hi => ?_)
        (Mem.load_store (m := fun _ => (0 : Byte)))
      exact Mem.store_of_le (by omega)
    rw [Mem.cstr_eq_takeWhile, sscanfConfiginfo_takeWhile, Mem.load_add, hstack, ← hfull,
      Mem.load_store]

/-- A write by the holder at offset 0. -/
theorem mydevwrite_eq (config : BitVec 32) (user : ℕ → Byte) (usrbuf : ℕ) {count : ℕ}
    (hcount : count ≤ kbufSize) (uncopied : ℕ) (stack : List Byte) :
    mydevwrite config true 0 user usrbuf count uncopied stack =
      result config count (sscanfConfiginfo
        (if count - uncopied < kbufSize then Mem.load user usrbuf (count - uncopied)
        else Mem.load user usrbuf (count - uncopied) ++ stack)) := by
  have hlen : (Mem.load user usrbuf (count - uncopied)).length = count - uncopied :=
    Mem.load_length
  have hscan := sscanfConfiginfo_kbuf (w := Mem.load user usrbuf (count - uncopied))
    (by rw [hlen]; exact Nat.le_trans (Nat.sub_le count uncopied) hcount) stack
  rw [hlen] at hscan
  have hle : ¬ count > kbufSize := Nat.not_lt.mpr hcount
  simp only [mydevwrite, ne_eq, not_true_eq_false, if_false, Bool.true_eq_false, if_neg hle, hscan]
  generalize sscanfConfiginfo _ = parsed
  cases parsed with
  | none => rfl
  | some v => simp only [result, Option.elim_some, Nat.zero_add]

/-- A configuration line of fewer than 64 bytes is accepted. -/
theorem mydevwrite_line (config : BitVec 32) {user : ℕ → Byte} {usrbuf count : ℕ} {v : BitVec 32}
    (hcount : count < kbufSize) (hline : ConfigLine (Mem.load user usrbuf count) v)
    (stack : List Byte) :
    mydevwrite config true 0 user usrbuf count 0 stack = ⟨v, count, count⟩ := by
  rw [mydevwrite_eq config user usrbuf (Nat.le_of_lt hcount), Nat.sub_zero, if_pos hcount,
    hline.parsed]
  rfl

/-- A number that is parsed makes the write succeed. -/
theorem result_some_nonneg {config v : BitVec 32} {count : ℕ} {o : Option (BitVec 32)}
    (h : o = some v) : ¬ (result config count o).ret < 0 := by
  rw [h]
  exact Int.not_lt.mpr (Int.natCast_nonneg count)

/-- An incomplete copy is atomic exactly if nothing can be parsed of it. -/
theorem atomic_iff_of_cut {user : ℕ → Byte} {usrbuf count uncopied : ℕ}
    (hcount : count ≤ kbufSize) (hle : uncopied ≤ count) (hcut : uncopied ≠ 0) :
    Atomic user usrbuf count uncopied ↔
      sscanfConfiginfo (Mem.load user usrbuf (count - uncopied)) = none := by
  have hlt : count - uncopied < kbufSize := by omega
  have heq : ∀ config user' usrbuf' stack,
      mydevwrite config true 0 user' usrbuf' count uncopied stack =
        result config count (sscanfConfiginfo (Mem.load user' usrbuf' (count - uncopied))) := by
    intro config user' usrbuf' stack
    rw [mydevwrite_eq config user' usrbuf' hcount, if_pos hlt]
  constructor
  · intro hatomic
    have hneg := (hatomic.rejects (fun h => hcut h.1) 0 []).2
    rw [heq] at hneg
    rcases hparsed : sscanfConfiginfo (Mem.load user usrbuf (count - uncopied)) with _ | v
    · rfl
    · exact absurd hneg (result_some_nonneg hparsed)
  · intro hnone
    refine ⟨fun v h0 => absurd h0 hcut, fun _ config stack => ?_,
      fun config user' usrbuf' stack stack' hload => ?_⟩
    · rw [heq, hnone]
      exact ⟨rfl, (by decide : einval < 0)⟩
    · rw [heq, heq, ← Mem.load_take (Nat.sub_le count uncopied), hload,
        Mem.load_take (Nat.sub_le count uncopied)]

/-- Of a number that is no `int` there is no configuration line. -/
theorem not_configLine {w t : List Byte} {n : Int} (hw : w = ascii "configinfo=" ++ t)
    (hdec : Decimal t n) (hrange : ¬ (-2147483648 ≤ n ∧ n < 2147483648)) :
    ¬ ∃ v, ConfigLine w v := by
  rintro ⟨v, t', hw', hdec'⟩
  obtain rfl := List.append_cancel_left (hw.symm.trans hw')
  have hn : n = v.toInt := Option.some.inj
    (((decimal_iff t n).mp hdec).symm.trans ((decimal_iff t _).mp hdec'))
  have hlo := BitVec.le_toInt v
  have hhi := BitVec.toInt_lt (x := v)
  exact hrange (by omega)

/-- Of a clean write the bytes written are parsed, and no others. -/
theorem Clean.parsed {user : ℕ → Byte} {usrbuf count : ℕ} (hcount : count ≤ kbufSize)
    (h : Clean (Mem.load user usrbuf count) 0) (config : BitVec 32) (stack : List Byte) :
    mydevwrite config true 0 user usrbuf count 0 stack =
      result config count (sscanfConfiginfo (Mem.load user usrbuf count)) := by
  have hlen : (Mem.load user usrbuf count).length = count := Mem.load_length
  rw [mydevwrite_eq config user usrbuf hcount, Nat.sub_zero]
  split
  · rfl
  · have hfull : (Mem.load user usrbuf count).length = kbufSize := by omega
    rw [sscanfConfiginfo_append hfull (h.ended rfl hfull)]

/-- A complete copy that is atomic is clean. -/
theorem Atomic.clean {user : ℕ → Byte} {usrbuf count : ℕ} (hcount : count ≤ kbufSize)
    (hatomic : Atomic user usrbuf count 0) : Clean (Mem.load user usrbuf count) 0 := by
  refine ⟨fun h => absurd rfl h, fun _ t n hw hdec => ?_, fun _ hfull t hw hopen => ?_⟩
  · -- a number that is no `int` would have to be rejected
    by_contra hrange
    have hneg := (hatomic.rejects (fun h => not_configLine hw hdec hrange h.2) 0 []).2
    rw [mydevwrite_eq 0 user usrbuf hcount, Nat.sub_zero, List.append_nil, ite_self] at hneg
    exact result_some_nonneg (sscanfConfiginfo_eq_some_iff.mpr ⟨t, n, hw, hdec, rfl⟩) hneg
  · -- two stacks make two numbers
    have hsame := hatomic.same 0 user usrbuf [0x30] [0x31] rfl
    rw [Mem.load_length] at hfull
    have hge : ¬ count < kbufSize := by omega
    rw [mydevwrite_eq 0 user usrbuf hcount, mydevwrite_eq 0 user usrbuf hcount, Nat.sub_zero,
      if_neg hge, if_neg hge, hw] at hsame
    exact sscanfConfiginfo_unfinished hopen (result_inj hsame).symm

/-- A complete copy that is clean is atomic. -/
theorem Clean.atomic {user : ℕ → Byte} {usrbuf count : ℕ} (hcount : count ≤ kbufSize)
    (hclean : Clean (Mem.load user usrbuf count) 0) : Atomic user usrbuf count 0 := by
  refine ⟨fun v _ hline config stack => ?_, fun hno config stack => ?_,
    fun config user' usrbuf' stack stack' hload => ?_⟩
  · rw [hclean.parsed hcount, hline.parsed]
    exact ⟨rfl, rfl⟩
  · rw [hclean.parsed hcount]
    rcases hv : sscanfConfiginfo (Mem.load user usrbuf count) with _ | v
    · exact ⟨rfl, (by decide : einval < 0)⟩
    · exact absurd ⟨rfl, v, configLine_of_parsed hv (hclean.range rfl)⟩ hno
  · have hclean' : Clean (Mem.load user' usrbuf' count) 0 := by
      rw [hload]
      exact hclean
    rw [hclean'.parsed hcount, hclean.parsed hcount, hload]

/-- **Configuration writes, exactly.** A write of at most 64 bytes by the holder
at offset 0, whatever they are and however many of them are copied, is exact and
atomic, whatever `config` and the stack, if and only if what is copied of an
incomplete copy has no number, and a number that is copied completely is an
`int` and does not go on up to byte 64.

The driver tells the log of an incomplete copy and parses what has arrived all the same,
the buffer need not have an end, and a number need not fit an `int`. The condition has a
clause for each. -/
theorem mydevwrite_atomic_iff (user : ℕ → Byte) (usrbuf count uncopied : ℕ)
    (hcount : count ≤ kbufSize) (hle : uncopied ≤ count) :
    Atomic user usrbuf count uncopied ↔ Clean (Mem.load user usrbuf count) uncopied := by
  by_cases hcut : uncopied = 0
  · subst hcut
    exact ⟨Atomic.clean hcount, Clean.atomic hcount⟩
  · rw [atomic_iff_of_cut hcount hle hcut]
    have htake : (Mem.load user usrbuf count).take
        ((Mem.load user usrbuf count).length - uncopied) =
          Mem.load user usrbuf (count - uncopied) := by
      rw [Mem.load_length, Mem.load_take (Nat.sub_le count uncopied)]
    constructor
    · intro hnone
      refine ⟨fun _ t n hw hdec => ?_, fun h0 => absurd h0 hcut, fun h0 => absurd h0 hcut⟩
      rw [htake] at hw
      have hsome := sscanfConfiginfo_eq_some_iff.mpr ⟨t, n, hw, hdec, rfl⟩
      rw [hnone] at hsome
      cases hsome
    · intro hclean
      rcases hparsed : sscanfConfiginfo (Mem.load user usrbuf (count - uncopied)) with _ | v
      · rfl
      · obtain ⟨t, n, hw, hdec, -⟩ := sscanfConfiginfo_eq_some_iff.mp hparsed
        exact absurd hdec (hclean.cut hcut t n (htake.trans hw))

/-- A printed number and a newline: as `echo` writes it, any `int` is accepted. -/
theorem mydevwrite_printed (config v : BitVec 32) {user : ℕ → Byte} {usrbuf count : ℕ}
    (hline : Mem.load user usrbuf count =
      ascii "configinfo=" ++ (fmtD v.toInt ++ ascii "\n")) (stack : List Byte) :
    mydevwrite config true 0 user usrbuf count 0 stack = ⟨v, count, count⟩ := by
  have hcount : count < kbufSize := by
    have hlen := congrArg List.length hline
    have hfmt := length_fmtD_toInt v
    have h₁ : (ascii "configinfo=").length = 11 := by decide
    have h₂ : (ascii "\n").length = 1 := by decide
    rw [Mem.load_length, List.length_append, List.length_append, h₁, h₂] at hlen
    rw [hlen]
    change _ < 64
    omega
  have hdec : Decimal (fmtD v.toInt ++ ascii "\n") v.toInt := by
    refine decimal_fmtD v.toInt fun c hc => ?_
    obtain rfl : 0x0a = c := Option.some.inj hc
    decide
  exact mydevwrite_line config hcount ⟨_, hline, hdec⟩ stack

/-- `"configinfo=-42"`, a configuration line as a user would write it, in the memory of
the caller. -/
def line : ℕ → Byte := Mem.store (fun _ => 0) 0 (ascii "configinfo=-42")

theorem mydevwrite_atomic_iff_line : Atomic line 0 14 0 := by
  have hline : Mem.load line 0 14 = ascii "configinfo=" ++ ascii "-42" := by decide
  refine (mydevwrite_atomic_iff line 0 14 0 (by decide) (by decide)).mpr
    ⟨fun h => absurd rfl h, fun _ t n hw hdec => ?_, fun _ hlen => ?_⟩
  · obtain rfl := List.append_cancel_left (hw.symm.trans hline)
    have hscan : scanD (ascii "-42") = some (-42) := by decide
    obtain rfl := Option.some.inj (((decimal_iff _ n).mp hdec).symm.trans hscan)
    decide
  · rw [Mem.load_length] at hlen
    exact absurd hlen (by decide)

/-- `"configinfo="`, 52 blanks and `"7"`: 64 bytes. -/
def wide : ℕ → Byte :=
  Mem.store (fun _ => 0) 0 (ascii "configinfo=" ++ List.replicate 52 0x20 ++ ascii "7")

/-- `"configinfo=4294967297"`, whose number does not fit an `int`. -/
def large : ℕ → Byte := Mem.store (fun _ => 0) 0 (ascii "configinfo=4294967297")

/-- With the last byte of `"configinfo=-42"` left uncopied the write sets -4 and
returns 14; 64 bytes ending in 7 set 7 or 71, by what is behind them; and a
number over 2³² sets 1. -/
theorem line_wide_large :
    (mydevwrite 0 true 0 line 0 14 1 [] = ⟨-4, 14, 14⟩ ∧ ¬ Atomic line 0 14 1) ∧
      (mydevwrite 0 true 0 wide 0 64 0 [] = ⟨7, 64, 64⟩ ∧
        mydevwrite 0 true 0 wide 0 64 0 (ascii "1") = ⟨71, 64, 64⟩ ∧ ¬ Atomic wide 0 64 0) ∧
      (mydevwrite 0 true 0 large 0 21 0 [] = ⟨1, 21, 21⟩ ∧ ¬ Atomic large 0 21 0) := by
  have hcut : mydevwrite 0 true 0 line 0 14 1 [] = ⟨-4, 14, 14⟩ := by decide +kernel
  have h7 : mydevwrite 0 true 0 wide 0 64 0 [] = ⟨7, 64, 64⟩ := by decide +kernel
  have h71 : mydevwrite 0 true 0 wide 0 64 0 (ascii "1") = ⟨71, 64, 64⟩ := by decide +kernel
  refine ⟨⟨hcut, fun hatomic => ?_⟩, ⟨h7, h71, fun hatomic => ?_⟩, by decide +kernel,
    fun hatomic => ?_⟩
  · have hneg := (hatomic.rejects (fun h => absurd h.1 (by decide)) 0 []).2
    rw [hcut] at hneg
    exact absurd hneg (by decide)
  · have hsame := hatomic.same 0 wide 0 [] (ascii "1") rfl
    rw [h7, h71] at hsame
    exact absurd hsame (by decide)
  · have hclean := Atomic.clean (by decide) hatomic
    have hdec : Decimal (ascii "4294967297") 4294967297 := (decimal_iff _ _).mpr (by decide)
    exact absurd (hclean.range rfl (ascii "4294967297") _ (by decide) hdec).2 (by decide)

end Write

end Mydev

end KernelDrvLearn
