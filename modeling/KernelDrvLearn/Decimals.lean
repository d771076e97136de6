import Mathlib.Data.List.TakeWhile
import KernelDrvLearn.Strtox

/-!
# What `%d` of `sscanf` makes of a text

Any text comes apart in one way (`exists_parts`): blanks, a minus or none, digits,
and what stops the digits. `%d` stores the number these digits and the sign make,
if there are any digits (`Parts.scanD`), cut down to 32 bits (`sscanfD_eq`).

A text in which nothing stops the digits is `Unfinished`: what `%d` makes of it
depends on what comes behind it, and of any other text it does not
(`scanD_append`, `sscanfD_unfinished`).
-/

namespace KernelDrvLearn

/-! ## The parts of a text

`%d` skips blanks, takes a minus, takes digits as long as there are any, and leaves the
rest. `Parts` cuts a text in just this way, without saying how it was done; that there is
one way to do it is proved below. -/

/-- The number these digits stand for, without any bound on it. -/
def digitsValue (ds : List Byte) : ℕ := ds.foldl (fun acc c => acc * 10 + (c.toNat - 0x30)) 0

/-- The text is blanks, a minus or none, digits as far as they go, and the rest. -/
structure Parts (s blanks minus ds rest : List Byte) : Prop where
  eq : s = blanks ++ (minus ++ (ds ++ rest))
  blank : ∀ c ∈ blanks, isspace c = true
  sign : minus = [] ∨ minus = [0x2d]
  digit : ∀ c ∈ ds, isdigit c = true
  stop : ∀ c, rest.head? = some c → isdigit c = false ∧
    (minus = [] → ds = [] → c ≠ 0x2d ∧ isspace c = false)

/-- The number with its sign: negative behind a minus. -/
def signed (minus : List Byte) (n : ℕ) : Int := if minus = [] then n else -n

/-- The text begins with the decimal number `n`, whatever stands behind it. -/
def Decimal (s : List Byte) (n : Int) : Prop :=
  ∃ blanks minus ds rest, Parts s blanks minus ds rest ∧ ds ≠ [] ∧ n = signed minus (digitsValue ds)

/-- The number may go on behind the text: there is nothing in it that stops the digits. -/
def Unfinished (s : List Byte) : Prop := ∃ blanks minus ds, Parts s blanks minus ds []

/-- The number at the front of a text, exactly: what `%d` would store in an integer
without bounds. -/
def scanD (s : List Byte) : Option Int :=
  let s := s.dropWhile isspace
  let minus := if s.head? = some 0x2d then [0x2d] else []
  let s := if s.head? = some 0x2d then s.tail else s
  if s.head?.any isdigit then some (signed minus (parseInteger 10 0 s).1) else none

/-! ## Bytes -/

theorem digitVal_of_isdigit {c : Byte} (hc : isdigit c = true) :
    digitVal c = some (c.toNat - 0x30) ∧ c.toNat - 0x30 < 10 := by
  have hall : ∀ c : Byte, isdigit c = true →
      digitVal c = some (c.toNat - 0x30) ∧ c.toNat - 0x30 < 10 := by decide +kernel
  exact hall c hc

theorem isspace_not {c : Byte} (hc : isspace c = true) :
    c ≠ 0 ∧ c ≠ 0x2d ∧ isdigit c = false := by
  have hall : ∀ c : Byte, isspace c = true → c ≠ 0 ∧ c ≠ 0x2d ∧ isdigit c = false := by
    decide +kernel
  exact hall c hc

/-! ## Taking a text apart

Existence of the parts. The blanks and the digits are the longest prefixes of their kind,
so what stops each of them is known. -/

/-- The digits at the front, and what stops them. -/
theorem exists_digits (s : List Byte) : ∃ ds rest, s = ds ++ rest ∧
    (∀ c ∈ ds, isdigit c = true) ∧ ∀ c, rest.head? = some c → isdigit c = false := by
  refine ⟨s.takeWhile isdigit, s.dropWhile isdigit, (List.takeWhile_append_dropWhile).symm,
    fun c hc => List.mem_takeWhile_imp hc, fun c hc => ?_⟩
  have := List.head?_dropWhile_not isdigit s
  rw [hc] at this
  simpa using this

/-- Every text comes apart: blanks, sign, digits and rest are there, some of them empty.
-/
theorem exists_parts (s : List Byte) : ∃ blanks minus ds rest, Parts s blanks minus ds rest := by
  have hs : s = s.takeWhile isspace ++ s.dropWhile isspace :=
    (List.takeWhile_append_dropWhile).symm
  have hblank : ∀ c ∈ s.takeWhile isspace, isspace c = true := fun c hc =>
    List.mem_takeWhile_imp hc
  have hhead := List.head?_dropWhile_not isspace s
  generalize s.dropWhile isspace = s' at hs hhead
  by_cases hminus : s'.head? = some 0x2d
  · obtain ⟨t, rfl⟩ : ∃ t, s' = 0x2d :: t := List.head?_eq_some_iff.mp hminus
    obtain ⟨ds, rest, rfl, hdigit, hstop⟩ := exists_digits t
    exact ⟨_, [0x2d], ds, rest, hs, hblank, Or.inr rfl, hdigit,
      fun c hc => ⟨hstop c hc, fun hnil => absurd hnil (List.cons_ne_nil _ _)⟩⟩
  · obtain ⟨ds, rest, rfl, hdigit, hstop⟩ := exists_digits s'
    refine ⟨_, [], ds, rest, hs, hblank, Or.inl rfl, hdigit, fun c hc => ⟨hstop c hc, ?_⟩⟩
    rintro - rfl
    rw [List.nil_append] at hminus hhead
    refine ⟨fun h => hminus (h ▸ hc), ?_⟩
    rw [hc] at hhead
    simpa using hhead

/-! ## What is read

`scanD` computes on the text and `Parts` describes it; here the first is computed from the
second, so that the parts of a text are all one needs to know of it. -/

theorem foldl_digitVal {ds : List Byte} (hdigit : ∀ c ∈ ds, isdigit c = true) (acc : ℕ) :
    ds.foldl (fun acc c => acc * 10 + (digitVal c).getD 0) acc =
      ds.foldl (fun acc c => acc * 10 + (c.toNat - 0x30)) acc := by
  refine List.foldl_ext _ _ acc fun acc c hc => ?_
  rw [(digitVal_of_isdigit (hdigit c hc)).1, Option.getD_some]

theorem parseInteger_append {ds rest : List Byte} (hdigit : ∀ c ∈ ds, isdigit c = true)
    (hstop : ∀ c, rest.head? = some c → isdigit c = false) (acc : ℕ) :
    parseInteger 10 acc (ds ++ rest) =
      (ds.foldl (fun acc c => acc * 10 + (c.toNat - 0x30)) acc, rest) := by
  rw [← foldl_digitVal hdigit]
  exact parseInteger_digitsIn (fun c hc => (isdigitIn_ten c).trans (hdigit c hc))
    fun c hc => (isdigitIn_ten c).trans (hstop c hc)

variable {s blanks minus ds rest : List Byte}

theorem Parts.dropWhile (h : Parts s blanks minus ds rest) :
    s.dropWhile isspace = minus ++ (ds ++ rest) := by
  rw [h.eq, List.dropWhile_append_of_pos h.blank]
  rcases h.sign with rfl | rfl
  · rw [List.nil_append]
    cases ds with
    | cons d ds =>
      rw [List.cons_append, List.dropWhile_cons_of_neg]
      rw [(isdigit_ne (h.digit d List.mem_cons_self)).2.2]
      exact Bool.false_ne_true
    | nil =>
      cases rest with
      | nil => rfl
      | cons c rest =>
        rw [List.nil_append, List.dropWhile_cons_of_neg]
        rw [((h.stop c rfl).2 rfl rfl).2]
        exact Bool.false_ne_true
  · exact List.dropWhile_cons_of_neg (by decide)

/-- There is a minus behind them if it is one of the parts. -/
theorem Parts.head_iff (h : Parts s blanks minus ds rest) :
    (minus ++ (ds ++ rest)).head? = some 0x2d ↔ minus = [0x2d] := by
  rcases h.sign with rfl | rfl
  · refine iff_of_false (fun hhead => ?_) (List.cons_ne_nil _ _).symm
    rw [List.nil_append] at hhead
    cases ds with
    | cons d ds =>
      exact (isdigit_ne (h.digit d List.mem_cons_self)).1 (Option.some.inj hhead)
    | nil => exact ((h.stop 0x2d hhead).2 rfl rfl).1 rfl
  · exact iff_of_true rfl rfl

/-- There is a digit behind the sign if there are digits. -/
theorem Parts.any_head (h : Parts s blanks minus ds rest) :
    (ds ++ rest).head?.any isdigit = decide (ds ≠ []) := by
  cases ds with
  | cons d ds => exact h.digit d List.mem_cons_self
  | nil =>
    rw [List.nil_append]
    rcases hhead : rest.head? with _ | c
    · rfl
    · exact (h.stop c hhead).1

/-- **The number of a text** is read off its parts: none without digits, else their value
with the sign. -/
theorem Parts.scanD (h : Parts s blanks minus ds rest) :
    scanD s = if ds = [] then none else some (signed minus (digitsValue ds)) := by
  have hparse := parseInteger_append h.digit (fun c hc => (h.stop c hc).1) 0
  have hscan : KernelDrvLearn.scanD s =
      if (ds ++ rest).head?.any isdigit then
        some (signed minus (parseInteger 10 0 (ds ++ rest)).1) else none := by
    rw [KernelDrvLearn.scanD, h.dropWhile]
    rcases h.sign with hminus | hminus
    · have hhead : ¬ (minus ++ (ds ++ rest)).head? = some 0x2d := by
        rw [h.head_iff, hminus]
        exact (List.cons_ne_nil _ _).symm
      rw [if_neg hhead, if_neg hhead, hminus, List.nil_append]
    · rw [if_pos (h.head_iff.mpr hminus), if_pos (h.head_iff.mpr hminus), hminus]
      rfl
  rw [hscan, h.any_head, hparse]
  by_cases hnil : ds = []
  · rw [if_pos hnil, if_neg (by simpa using hnil)]
  · rw [if_neg hnil, if_pos (by simpa using hnil)]
    rfl

/-- A text has at most one number at its front. -/
theorem decimal_iff (s : List Byte) (n : Int) : Decimal s n ↔ scanD s = some n := by
  constructor
  · rintro ⟨blanks, minus, ds, rest, hparts, hne, rfl⟩
    rw [hparts.scanD, if_neg hne]
  · intro hscan
    obtain ⟨blanks, minus, ds, rest, hparts⟩ := exists_parts s
    rw [hparts.scanD] at hscan
    split at hscan
    · cases hscan
    · rename_i hne
      exact ⟨blanks, minus, ds, rest, hparts, hne, (Option.some.inj hscan).symm⟩

/-- **`%d`** stores the number, cut down to 32 bits. -/
theorem sscanfD_eq (s : List Byte) : sscanfD s = (scanD s).map (BitVec.ofInt 32) := by
  rw [sscanfD, scanD]
  generalize s.dropWhile isspace = t
  split
  case h_1 s' =>
    have hhead : ∀ {α : Type} (x y : α), (if (0x2d#8 :: s').head? = some 0x2d then x else y) = x :=
      fun _ _ => if_pos rfl
    rw [hhead, hhead, List.tail_cons]
    split <;> rfl
  case h_2 hnot =>
    have hhead : ¬ t.head? = some 0x2d := by
      intro hhead
      obtain ⟨t', rfl⟩ := List.head?_eq_some_iff.mp hhead
      exact hnot t' rfl
    rw [if_neg hhead, if_neg hhead]
    split <;> rfl

/-! ## What does not matter, and what does

A buffer is longer than the text in it. What comes behind a finished number has no
influence on it, and what comes behind an unfinished one always has: another digit would
give another number, even in the 32 bits stored. -/

/-- A zero ends the text. -/
theorem scanD_takeWhile (s : List Byte) : scanD (s.takeWhile (· ≠ 0)) = scanD s := by
  obtain ⟨blanks, minus, ds, rest, h⟩ := exists_parts s
  have hnonzero : ∀ c ∈ blanks ++ (minus ++ ds), decide (c ≠ 0) = true := by
    intro c hc
    refine decide_eq_true ?_
    rcases List.mem_append.mp hc with hc | hc
    · exact (isspace_not (h.blank c hc)).1
    rcases List.mem_append.mp hc with hc | hc
    · rcases h.sign with rfl | rfl
      · exact absurd hc List.not_mem_nil
      · rw [List.mem_singleton.mp hc]
        decide
    · rintro rfl
      exact absurd (h.digit 0 hc) (by decide)
  have hparts : Parts (s.takeWhile (· ≠ 0)) blanks minus ds (rest.takeWhile (· ≠ 0)) := by
    refine ⟨?_, h.blank, h.sign, h.digit, fun c hc => h.stop c ?_⟩
    · rw [h.eq, ← List.append_assoc minus, ← List.append_assoc,
        List.takeWhile_append_of_pos hnonzero, List.append_assoc, List.append_assoc]
    · cases rest with
      | nil => exact hc
      | cons d rest =>
        rw [List.takeWhile_cons] at hc
        split at hc
        · exact hc
        · cases hc
  rw [hparts.scanD, h.scanD]

/-- What is behind a text does not matter if its number is finished. -/
theorem scanD_append (hs : ¬ Unfinished s) (t : List Byte) : scanD (s ++ t) = scanD s := by
  obtain ⟨blanks, minus, ds, rest, h⟩ := exists_parts s
  cases rest with
  | nil => exact absurd ⟨blanks, minus, ds, h⟩ hs
  | cons c rest =>
    have hparts : Parts (s ++ t) blanks minus ds (c :: rest ++ t) := by
      refine ⟨?_, h.blank, h.sign, h.digit, h.stop⟩
      rw [h.eq, List.append_assoc, List.append_assoc, List.append_assoc]
    rw [hparts.scanD, h.scanD]

theorem Parts.concat (h : Parts s blanks minus ds []) {d : Byte} (hd : isdigit d = true) :
    Parts (s ++ [d]) blanks minus (ds ++ [d]) [] := by
  refine ⟨?_, h.blank, h.sign, fun c hc => ?_,
    fun c hc => absurd hc.symm (Option.some_ne_none c)⟩
  · rw [h.eq, List.append_nil, List.append_nil, List.append_assoc, List.append_assoc]
  · rcases List.mem_append.mp hc with hc | hc
    · exact h.digit c hc
    · rw [List.mem_singleton.mp hc]
      exact hd

theorem digitsValue_concat (ds : List Byte) (d : Byte) :
    digitsValue (ds ++ [d]) = digitsValue ds * 10 + (d.toNat - 0x30) := by
  rw [digitsValue, List.foldl_append]
  rfl

/-- What is behind an unfinished text matters, even to the 32 bits stored. -/
theorem sscanfD_unfinished (hs : Unfinished s) : sscanfD (s ++ [0x30]) ≠ sscanfD (s ++ [0x31]) := by
  obtain ⟨blanks, minus, ds, h⟩ := hs
  have hscan : ∀ {d : Byte}, isdigit d = true → sscanfD (s ++ [d]) =
      some (BitVec.ofInt 32 (signed minus (digitsValue ds * 10 + (d.toNat - 0x30)))) := by
    intro d hd
    rw [sscanfD_eq, (h.concat hd).scanD, if_neg (List.append_ne_nil_of_right_ne_nil _ (by simp)),
      digitsValue_concat]
    rfl
  rw [hscan (by decide), hscan (by decide)]
  intro heq
  have hmod := congrArg BitVec.toNat (Option.some.inj heq)
  rw [BitVec.toNat_ofInt, BitVec.toNat_ofInt] at hmod
  have h0 : (0x30 : Byte).toNat - 0x30 = 0 := rfl
  have h1 : (0x31 : Byte).toNat - 0x30 = 1 := rfl
  simp only [signed, h0, h1] at hmod
  split at hmod <;> omega

/-! ## Literals -/

theorem sscanfLiteral_eq_some_iff {lit s t : List Byte} :
    sscanfLiteral lit s = some t ↔ s = lit ++ t := by
  constructor
  · intro h
    induction lit generalizing s with
    | nil => exact Option.some.inj h
    | cons c lit ih =>
      cases s with
      | nil => cases h
      | cons d s =>
        rw [sscanfLiteral] at h
        split at h
        · rename_i hcd
          rw [List.cons_append, hcd, ih h]
        · cases h
  · rintro rfl
    exact sscanfLiteral_append lit t

/-- A zero ends the text for a literal too, as long as the literal has no zero in it. -/
theorem sscanfLiteral_takeWhile {lit : List Byte} (h0 : 0 ∉ lit) (s : List Byte) :
    sscanfLiteral lit (s.takeWhile (· ≠ 0)) =
      (sscanfLiteral lit s).map (List.takeWhile (· ≠ 0)) := by
  induction lit generalizing s with
  | nil => rfl
  | cons c lit ih =>
    have hc : c ≠ 0 := fun hz => h0 (hz ▸ List.mem_cons_self)
    cases s with
    | nil => rfl
    | cons d s =>
      rw [List.takeWhile_cons, sscanfLiteral]
      by_cases hd : d = 0
      · subst hd
        rw [if_neg hc]
        rfl
      · rw [if_pos (decide_eq_true hd), sscanfLiteral, ih fun h => h0 (List.mem_cons_of_mem c h)]
        split <;> rfl

/-- What is behind a text at least as long as the literal. -/
theorem sscanfLiteral_append_right {lit s : List Byte} (h : lit.length ≤ s.length)
    (t : List Byte) : sscanfLiteral lit (s ++ t) = (sscanfLiteral lit s).map (· ++ t) := by
  induction lit generalizing s with
  | nil => rfl
  | cons c lit ih =>
    cases s with
    | nil => exact absurd h (Nat.not_succ_le_zero _)
    | cons d s =>
      rw [List.cons_append, sscanfLiteral, sscanfLiteral, ih (Nat.le_of_succ_le_succ h)]
      split <;> rfl

/-! ## Printed numbers -/

theorem isdigit_of_mem_digits {n : ℕ} {c : Byte} (hc : c ∈ digits n) : isdigit c = true := by
  induction n using Nat.strongRecOn with
  | ind n ih =>
    by_cases hlt : n < 10
    · rw [digits_lt hlt, List.mem_singleton] at hc
      rw [hc]
      exact isdigit_digitByte n hlt
    · rw [digits_ge (Nat.le_of_not_lt hlt), List.mem_append, List.mem_singleton] at hc
      rcases hc with hc | rfl
      · exact ih (n / 10) (by omega) hc
      · exact isdigit_digitByte _ (Nat.mod_lt n (by decide))

theorem digitsValue_digits (n : ℕ) : digitsValue (digits n) = n := by
  have hstop : ∀ c, ([] : List Byte).head? = some c → isdigit c = false := fun c hc => by cases hc
  have hparse := parseInteger_append (fun c => isdigit_of_mem_digits (n := n)) hstop 0
  rw [parseInteger_digits] at hparse
  exact (congrArg Prod.fst hparse).symm

/-- **`%d` of `printf`** prints the decimal number. -/
theorem decimal_fmtD (i : Int) {rest : List Byte}
    (hstop : ∀ c, rest.head? = some c → isdigit c = false) : Decimal (fmtD i ++ rest) i := by
  have hne : digits i.natAbs ≠ [] := by
    obtain ⟨c, ds, heq, -⟩ := digits_head i.natAbs
    rw [heq]
    exact List.cons_ne_nil c ds
  by_cases hneg : i < 0
  · refine ⟨[], [0x2d], digits i.natAbs, rest, ⟨?_, by simp, Or.inr rfl,
      fun c hc => isdigit_of_mem_digits hc, fun c hc => ⟨hstop c hc, by simp⟩⟩, hne, ?_⟩
    · rw [fmtD_neg hneg]
      rfl
    · rw [digitsValue_digits, signed, if_neg (List.cons_ne_nil _ _)]
      omega
  · refine ⟨[], [], digits i.natAbs, rest, ⟨?_, by simp, Or.inl rfl,
      fun c hc => isdigit_of_mem_digits hc,
      fun c hc => ⟨hstop c hc, fun _ hnil => absurd hnil hne⟩⟩, hne, ?_⟩
    · rw [fmtD_nonneg (Int.not_lt.mp hneg)]
      rfl
    · rw [digitsValue_digits, signed, if_pos rfl]
      omega

end KernelDrvLearn
