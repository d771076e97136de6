import KernelDrvLearn.Mydevwrite
import KernelDrvLearn.Transition

/-!
# Reads and writes of one file of `mydevice`

`mydevread` and `mydevwrite` of `practice/mydevice/mydevice.c`, called one after
another on a file opened for writing. Both start with `if (*off) return 0;`, and
both move the offset: a write after a read, or after another write, does nothing
and returns 0. (`configwrite` of `myconfig.c` leaves the offset alone.)

Every write does what it is for, and the last one wins, if and only if none
comes after the offset has moved (`mydev_writes_iff`).
-/

namespace KernelDrvLearn

namespace Mydev

namespace Write

/-! ## The calls

A file opened for writing, with the offset that the kernel keeps for it. The offset is
passed to each call and stored again behind it, so a call sees what the ones before have
made of it. -/

/-- `"config=%d, privinfo=%d\n"`, with the numbers printed. -/
def configText (config privinfo : BitVec 32) : List Byte :=
  ascii "config=" ++ fmtD config.toInt ++ ascii ", privinfo=" ++ fmtD privinfo.toInt ++ ascii "\n"

/-- What `mydevread` leaves: the bytes, the offset and the value. -/
structure ReadResult where
  /-- the bytes copied to the user -/
  out : List Byte
  /-- `*off` -/
  off : ℕ
  /-- the value returned -/
  ret : Int

/-- `mydevread`; `copy_to_user` leaves `uncopied` bytes. -/
def mydevread (config privinfo : BitVec 32) (off count uncopied : ℕ) : ReadResult :=
  if off ≠ 0 then ⟨[], off, 0⟩
  else if count < kbufSize then ⟨[], off, einval⟩
  else
    let buf := snprintf (fun _ => 0) 0 kbufSize (configText config privinfo)
    let len := (configText config privinfo).length
    if uncopied ≠ 0 then ⟨Mem.load buf 0 (len - uncopied), off, einval⟩
    else ⟨Mem.load buf 0 len, off + len, len⟩

/-- The device and the file. -/
structure File where
  /-- `mydev->config` -/
  config : BitVec 32
  /-- the offset of the file -/
  off : ℕ

/-- A call on the file, by its arguments and the outcome of its copy. -/
inductive Act where
  /-- `mydevread` -/
  | read (count uncopied : ℕ)
  /-- `mydevwrite`, and what is behind its `kbuf` -/
  | write (user : ℕ → Byte) (usrbuf count uncopied : ℕ) (stack : List Byte)

/-- The result of a write to the file. -/
def File.write (s : File) (user : ℕ → Byte) (usrbuf count uncopied : ℕ) (stack : List Byte) :
    WriteResult :=
  mydevwrite s.config true s.off user usrbuf count uncopied stack

/-- A file opened for writing. -/
def file (config privinfo : BitVec 32) : Lts File Act where
  init := ⟨config, 0⟩
  step := fun s a =>
    match a with
    | .read count uncopied =>
      some { s with off := (mydevread s.config privinfo s.off count uncopied).off }
    | .write user usrbuf count uncopied stack =>
      let r := s.write user usrbuf count uncopied stack
      some ⟨r.config, r.off⟩

/-! ## Writes that do what they are for

A write is for setting the configuration. It does so at offset 0, and at no other: behind
a read or another write the offset has moved, and the write returns 0, which means that
nothing was written. -/

/-- All copies succeed, and reads have room for the text. -/
def Served (_ : File) : Act → Prop
  | .read count uncopied => kbufSize ≤ count ∧ uncopied = 0
  | .write _ _ _ uncopied _ => uncopied = 0

instance Served.decidable (s : File) : ∀ a, Decidable (Served s a)
  | .read count uncopied => inferInstanceAs (Decidable (kbufSize ≤ count ∧ uncopied = 0))
  | .write _ _ _ uncopied _ => inferInstanceAs (Decidable (uncopied = 0))

/-- The call is a well-formed write of `v`, shorter than 64 bytes. -/
def Act.Sets (v : BitVec 32) : Act → Prop
  | .read _ _ => False
  | .write user usrbuf count _ _ => count < kbufSize ∧ ConfigLine (Mem.load user usrbuf count) v

/-- A write does not return 0, and a well-formed one returns its count and sets
`config`. -/
def Takes (s : File) (a : Act) (t : File) : Prop :=
  match a with
  | .read _ _ => True
  | .write user usrbuf count uncopied stack =>
    (s.write user usrbuf count uncopied stack).ret ≠ 0 ∧
      ∀ v, a.Sets v → (s.write user usrbuf count uncopied stack).ret = count ∧ t.config = v

/-- The last well-formed write of the run wins. -/
def LastWins (M : Lts File Act) (as : List Act) : Prop :=
  ∀ before a after v t, as = before ++ a :: after → a.Sets v →
    (∀ a' ∈ after, ∀ v', ¬ a'.Sets v') → M.exec M.init as = some t → t.config = v

/-- If the call is a write, the offset is still 0. -/
def AtStart (s : File) : Act → Prop
  | .read _ _ => True
  | .write _ _ _ _ _ => s.off = 0

instance AtStart.decidable (s : File) : ∀ a, Decidable (AtStart s a)
  | .read _ _ => isTrue trivial
  | .write _ _ _ _ _ => inferInstanceAs (Decidable (s.off = 0))

variable {config privinfo : BitVec 32}

/-- A well-formed write at offset 0 takes. -/
theorem write_eq {s : File} {user : ℕ → Byte} {usrbuf count : ℕ} {v : BitVec 32}
    (hoff : s.off = 0) (hcount : count < kbufSize)
    (hline : ConfigLine (Mem.load user usrbuf count) v) (stack : List Byte) :
    s.write user usrbuf count 0 stack = ⟨v, count, count⟩ := by
  rw [File.write, hoff]
  exact mydevwrite_line s.config hcount hline stack

/-- No write at offset 0 returns 0. -/
theorem write_ret_ne {s : File} (hoff : s.off = 0) (user : ℕ → Byte) (usrbuf count : ℕ)
    (stack : List Byte) : (s.write user usrbuf count 0 stack).ret ≠ 0 := by
  rw [File.write, hoff]
  by_cases hle : count ≤ kbufSize
  · rw [mydevwrite_eq s.config user usrbuf hle, Nat.sub_zero]
    cases count with
    | zero =>
      -- there is nothing to parse
      have hnone : sscanfConfiginfo (Mem.load user usrbuf 0) = none := rfl
      rw [if_pos (by decide), hnone]
      exact (by decide : einval ≠ 0)
    | succ count =>
      generalize sscanfConfiginfo _ = parsed
      cases parsed with
      | none => exact (by decide : einval ≠ 0)
      | some v => exact Int.ofNat_ne_zero.mpr (Nat.succ_ne_zero count)
  · have hgt : count > kbufSize := Nat.lt_of_not_le hle
    simp only [mydevwrite, ne_eq, not_true_eq_false, if_false, Bool.true_eq_false, if_pos hgt]
    decide

/-- **Step lemma.** A call does what it is for if and only if it is no write behind the
start. -/
theorem takes_iff {s t : File} {a : Act} (hserved : Served s a)
    (hs : (file config privinfo).step s a = some t) : Takes s a t ↔ AtStart s a := by
  cases a with
  | read count uncopied => exact Iff.rfl
  | write user usrbuf count uncopied stack =>
    obtain rfl : uncopied = 0 := hserved
    obtain rfl := Option.some.inj hs
    constructor
    · intro htakes
      by_contra hoff
      exact htakes.1 (congrArg WriteResult.ret (if_pos hoff))
    · intro hoff
      refine ⟨write_ret_ne hoff user usrbuf count stack, fun v hsets => ?_⟩
      rw [write_eq hoff hsets.1 hsets.2]
      exact ⟨rfl, rfl⟩

/-- Once the offset has moved, only reads can follow, and `config` stays. -/
theorem config_frozen {s t : File} {as : List Act} (hoff : s.off ≠ 0)
    (hrun : (file config privinfo).Along (fun s a _ => AtStart s a) s as)
    (hexec : (file config privinfo).exec s as = some t) : t.config = s.config := by
  induction as generalizing s with
  | nil =>
    obtain rfl := Option.some.inj hexec
    rfl
  | cons a as ih =>
    obtain ⟨s₁, hs, hstart, hrest⟩ := hrun
    rw [Lts.exec_cons, hs] at hexec
    cases a with
    | read count uncopied =>
      obtain rfl := Option.some.inj hs
      have hsame : (mydevread s.config privinfo s.off count uncopied).off = s.off :=
        congrArg ReadResult.off (if_pos hoff)
      rw [hsame] at hrest hexec
      exact ih hoff hrest hexec
    | write user usrbuf count uncopied stack => exact absurd hstart hoff

/-- The last well-formed write wins if all are made at offset 0. -/
theorem lastWins_of_atStart {as : List Act} (hrun : (file config privinfo).Run Served as)
    (hstart : (file config privinfo).Along (fun s a _ => AtStart s a)
      (file config privinfo).init as) : LastWins (file config privinfo) as := by
  rintro before a after v t rfl hsets - hexec
  obtain ⟨s, hs, hfrom⟩ := hstart.of_append
  obtain ⟨s', hs', s₁, -, hserved, -⟩ := Lts.Along.of_append hrun
  obtain rfl := Option.some.inj (hs.symm.trans hs')
  rw [Lts.exec_append _ hs] at hexec
  obtain ⟨s₂, hstep, hoff, hrest⟩ := hfrom
  rw [Lts.exec_cons, hstep] at hexec
  cases a with
  | read count uncopied => exact absurd hsets id
  | write user usrbuf count uncopied stack =>
    obtain rfl : uncopied = 0 := hserved
    have hwrite := write_eq hoff hsets.1 hsets.2 stack
    obtain rfl := Option.some.inj hstep
    rw [hwrite] at hrest hexec
    refine config_frozen ?_ hrest hexec
    -- a write that takes is not empty
    rintro rfl
    exact absurd hsets.2.parsed (Option.some_ne_none v).symm

/-- **Reads and writes, exactly.** In a run of reads and writes on a file opened
for writing, no write returns 0, every well-formed write shorter than 64 bytes
returns its count and sets `config`, and the last of them wins, if and only if
every write is made while the offset is 0. -/
theorem mydev_writes_iff {as : List Act} (hrun : (file config privinfo).Run Served as) :
    ((file config privinfo).Along Takes (file config privinfo).init as ∧
      LastWins (file config privinfo) as) ↔
        (file config privinfo).Along (fun s a _ => AtStart s a) (file config privinfo).init as := by
  have hiff : (file config privinfo).Along Takes (file config privinfo).init as ↔
      (file config privinfo).Along (fun s a _ => AtStart s a) (file config privinfo).init as := by
    refine Lts.along_iff (fun _ => True) ?_ ?_ trivial hrun
    · exact fun s a t _ hserved hs => takes_iff hserved hs
    · exact fun s a t _ _ _ _ => trivial
  rw [hiff]
  exact ⟨fun h => h.1, fun h => ⟨h, lastWins_of_atStart hrun h⟩⟩

/-- A write of `"configinfo=-42"`, all of which is copied. -/
def writeLine : Act := .write line 0 14 0 []

theorem mydev_writes_iff_writeLine :
    (file 0 0).Along Takes (file 0 0).init [writeLine, Act.read 64 0] ∧
      LastWins (file 0 0) [writeLine, Act.read 64 0] :=
  (mydev_writes_iff (by decide +kernel)).mpr (by decide +kernel)

/-- After a read the write returns 0, and `config` stays. -/
theorem read_writeLine :
    (file 0 0).Run Served [Act.read 64 0, writeLine] ∧
      (File.write ⟨0, (mydevread 0 0 0 64 0).off⟩ line 0 14 0 []).ret = 0 ∧
      ((file 0 0).exec (file 0 0).init [Act.read 64 0, writeLine]).map File.config = some 0 ∧
      ¬ (file 0 0).Along Takes (file 0 0).init [Act.read 64 0, writeLine] := by
  have hret : (File.write ⟨0, (mydevread 0 0 0 64 0).off⟩ line 0 14 0 []).ret = 0 := by
    decide +kernel
  refine ⟨by decide +kernel, hret, by decide +kernel, ?_⟩
  rintro ⟨s, hs, -, t, ht, htakes, -⟩
  obtain rfl := Option.some.inj hs
  exact htakes.1 hret

end Write

end Mydev

end KernelDrvLearn
