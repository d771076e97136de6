import Mathlib.Data.List.TakeWhile
import KernelDrvLearn.Chunks
import KernelDrvLearn.Strtox

/-!
# The two configuration interfaces of `myconfig`

`practice/myconfig/myconfig.c` shows and sets one `int`, `config`, through a
character device (`configread`, `configwrite`) and through a sysfs attribute
(`config_show`, `config_store`). Each prints with `%d`; the character device
parses with `sscanf`, the attribute with `kstrtoint`. On what the driver prints
the two parsers agree, for every `int`, so each interface reads back what
either has shown (`myconfig_inverse`).

Buffers of user space are memories of their own, and `uncopied` is what the copy
from or to them leaves.
-/

namespace KernelDrvLearn

namespace Myconfig

/-- `PAGE_SIZE`, of the page that a show prints into. -/
abbrev pageSize : ℕ := 4096

/-- `sizeof(kbuf)`, the longest line that a write takes. -/
abbrev kbufSize : ℕ := 1024

/-- What `sysfs_emit` of this text shows: as much as fits the page. -/
def sysfsEmit (text : List Byte) : List Byte := text.take (pageSize - 1)

/-- The buffer sysfs passes to a store of this text. -/
def sysfsBuf (text : List Byte) : ℕ → Byte := Mem.store (fun _ => 0) 0 (text ++ [0])

/-- `config_show`: the number and a newline. -/
def configShow (config : BitVec 32) : List Byte := sysfsEmit (fmtD config.toInt ++ ascii "\n")

/-- `config_store`: `config`, and the value returned. -/
def configStore (config : BitVec 32) (buf : ℕ → Byte) (count : ℕ) : BitVec 32 × Int :=
  match kstrtoint (Mem.cstr buf 0 pageSize) 0 with
  | .error ret => (config, ret)
  | .ok val => (val, count)

/-- `configwrite`: `config`, and the value returned. -/
def configwrite (config : BitVec 32) (user : ℕ → Byte) (buf count uncopied : ℕ) :
    BitVec 32 × Int :=
  let len := min count (kbufSize - 1)
  let kbuf := Mem.store (fun _ => 0) 0 (Mem.load user buf (len - uncopied))
  if uncopied ≠ 0 then (config, efault)
  else
    let kbuf := Function.update kbuf len 0
    match (sscanfLiteral (ascii "config=") (Mem.cstr kbuf 0 kbufSize)).bind sscanfD with
    | none => (config, efault)
    | some conf => (conf, count)

/-- What `configread` prints, before it is cut into reads. -/
def configText (config : BitVec 32) : List Byte :=
  ascii "config=" ++ fmtD config.toInt ++ ascii "\n"

/-- What `configread` leaves: the bytes, the offset and the count. -/
structure ReadResult where
  /-- the bytes put into the user's buffer -/
  out : List Byte
  /-- `*offset` -/
  offset : ℕ
  /-- the value returned -/
  ret : Int

/-- `configread`: the text is printed anew at each call, and read from the offset on. -/
def configread (config : BitVec 32) (count offset uncopied : ℕ) : ReadResult :=
  let kbuf := snprintf (fun _ => 0) 0 kbufSize (configText config)
  let len := (configText config).length
  if offset ≥ len then ⟨[], offset, 0⟩
  else
    let count := if count > len - offset then len - offset else count
    if uncopied ≠ 0 then ⟨Mem.load kbuf offset (count - uncopied), offset, efault⟩
    else ⟨Mem.load kbuf offset count, offset + count, count⟩

/-! ## Calls

Through either interface, in any order: `config` is one variable, and whoever writes it
last has set it. -/

/-- A call that may set `config`, through either interface. -/
inductive Call where
  /-- `configwrite` -/
  | configwrite (user : ℕ → Byte) (buf count uncopied : ℕ)
  /-- `config_store` -/
  | configStore (buf : ℕ → Byte) (count : ℕ)

/-- The value of `config` after a call, and the value returned. -/
def Call.apply (config : BitVec 32) : Call → BitVec 32 × Int
  | .configwrite user buf count uncopied => Myconfig.configwrite config user buf count uncopied
  | .configStore buf count => Myconfig.configStore config buf count

/-- `config` after a sequence of calls, through either interface and in any order. -/
def run (config : BitVec 32) (calls : List Call) : BitVec 32 :=
  calls.foldl (fun config call => (call.apply config).1) config

/-- The offset before the `n`-th of a sequence of reads with these counts. -/
def offsets (config : BitVec 32) (counts : ℕ → ℕ) : ℕ → ℕ
  | 0 => 0
  | n + 1 => (configread config (counts n) (offsets config counts n) 0).offset

/-- The `n`-th of these reads, at the offset the ones before have left. -/
def reads (config : BitVec 32) (counts : ℕ → ℕ) (n : ℕ) : ReadResult :=
  configread config (counts n) (offsets config counts n) 0

/-- Both interfaces show the value `v`: a read of everything and the attribute. -/
def Shows (config v : BitVec 32) : Prop :=
  (configread config kbufSize 0 0).out = ascii "config=" ++ fmtD v.toInt ++ ascii "\n" ∧
    configShow config = fmtD v.toInt ++ ascii "\n"

/-- What makes the interfaces inverse and consistent at the value `c`. -/
structure Inverse (c : BitVec 32) : Prop where
  /-- reads with positive counts deliver the text, and then 0 -/
  reads : ∀ counts : ℕ → ℕ, (∀ n, 0 < counts n) → ∃ n,
    ((List.range n).map fun i => (reads c counts i).out).flatten = configText c ∧
      (∀ i, (reads c counts i).ret = (reads c counts i).out.length) ∧
      (∀ i < n, 0 < (reads c counts i).ret) ∧ ∀ i, n ≤ i → (reads c counts i).ret = 0
  /-- writing the text back sets `config` to `c` -/
  write : ∀ (config : BitVec 32) (user : ℕ → Byte) (buf : ℕ),
    Mem.load user buf (configText c).length = configText c →
      configwrite config user buf (configText c).length 0 = (c, ((configText c).length : Int))
  /-- so does storing what the attribute shows -/
  store : ∀ config : BitVec 32, configStore config (sysfsBuf (configShow c)) (configShow c).length =
    (c, ((configShow c).length : Int))
  /-- after any calls from `c` on, both interfaces show one value -/
  agree : ∀ calls : List Call, ∃ v, Shows (run c calls) v

/-! ## The texts fit

The longest number is `-2147483648`, and its text fits both buffers with its terminator,
so nothing is ever cut. -/

theorem length_configText_le (c : BitVec 32) : (configText c).length ≤ 19 := by
  have hlen := length_fmtD_toInt c
  have h1 : (ascii "config=").length = 7 := by decide
  have h2 : (ascii "\n").length = 1 := by decide
  rw [configText, List.length_append, List.length_append, h1, h2]
  omega

theorem zero_notMem_configText (c : BitVec 32) : 0 ∉ configText c := by
  rw [configText, List.mem_append, List.mem_append]
  rintro ((h | h) | h)
  · exact absurd h (by decide)
  · exact zero_notMem_fmtD _ h
  · exact absurd h (by decide)

/-- The attribute shows the whole number, since an `int` with its newline is far from
filling a page. -/
theorem configShow_eq (c : BitVec 32) : configShow c = fmtD c.toInt ++ ascii "\n" := by
  have hlen := length_fmtD_toInt c
  have h1 : (ascii "\n").length = 1 := by decide
  refine List.take_of_length_le ?_
  rw [List.length_append, h1]
  exact Nat.le_trans (Nat.add_le_add_right hlen 1) (by decide)

/-! ## Reading

A read prints the number again and delivers a part of the text. As long as the number
stays, reads in a row deliver the text, whatever their counts are. -/

/-- **A read delivers a chunk of the text**, and moves the offset past it. -/
theorem configread_eq (c : BitVec 32) (count offset : ℕ) :
    configread c count offset 0 =
      ⟨chunk (configText c) offset count, offset + (chunk (configText c) offset count).length,
        ((chunk (configText c) offset count).length : Int)⟩ := by
  have hlen := length_configText_le c
  rw [configread]
  dsimp only
  split
  case isTrue hend =>
    have hnil : chunk (configText c) offset count = [] := by
      rw [← List.length_eq_zero_iff, length_chunk]
      omega
    rw [hnil]
    rfl
  case isFalse hin =>
    have hmin : (if count > (configText c).length - offset then (configText c).length - offset
        else count) = (chunk (configText c) offset count).length := by
      rw [length_chunk]
      split <;> omega
    have hload : Mem.load (snprintf (fun _ => 0) 0 kbufSize (configText c)) 0
        (configText c).length = configText c :=
      load_snprintf (Nat.lt_of_le_of_lt hlen (by decide))
    have hin' : offset + (chunk (configText c) offset count).length ≤ (configText c).length := by
      rw [length_chunk]
      omega
    have hsub := Mem.load_drop_take (m := snprintf (fun _ => 0) 0 kbufSize (configText c)) (p := 0)
      hin'
    rw [hload, Nat.zero_add] at hsub
    rw [if_neg (not_not_intro rfl), hmin, hsub]
    exact congrArg (ReadResult.mk · _ _) chunk_length

/-! ## Writing

What comes in is parsed as a C string, up to its first zero. Of a text without one, no
longer than the buffer, that is the text itself. -/

/-- What is written, no longer than `kbuf`, is parsed up to its first zero. -/
theorem configwrite_bytes (config : BitVec 32) {user : ℕ → Byte} {buf : ℕ} {text : List Byte}
    (hlen : text.length < kbufSize) (hload : Mem.load user buf text.length = text) :
    configwrite config user buf text.length 0 =
      match (sscanfLiteral (ascii "config=") (text.takeWhile (· ≠ 0))).bind sscanfD with
      | none => (config, efault)
      | some conf => (conf, (text.length : Int)) := by
  have hmin : min text.length (kbufSize - 1) = text.length :=
    Nat.min_eq_left (Nat.le_sub_one_of_lt hlen)
  have hzero : Mem.store (fun _ => (0 : Byte)) 0 text text.length = 0 :=
    Mem.store_of_le (by rw [Nat.zero_add])
  have hkbuf : Function.update (Mem.store (fun _ => (0 : Byte)) 0 text) text.length 0 =
      Mem.store (fun _ => 0) 0 text := Function.update_eq_self_iff.mpr hzero.symm
  have hstr : Mem.cstr (Mem.store (fun _ => (0 : Byte)) 0 text) 0 kbufSize =
      text.takeWhile (· ≠ 0) := Mem.cstr_store_zero rfl hlen
  rw [configwrite]
  dsimp only
  rw [if_neg (not_not_intro rfl), hmin, Nat.sub_zero, hload, hkbuf, hstr]

/-- A written text without a zero, no longer than `kbuf`, is parsed. -/
theorem configwrite_eq (config : BitVec 32) {user : ℕ → Byte} {buf : ℕ} {text : List Byte}
    (h0 : 0 ∉ text) (hlen : text.length < kbufSize) (hload : Mem.load user buf text.length = text) :
    configwrite config user buf text.length 0 =
      match (sscanfLiteral (ascii "config=") text).bind sscanfD with
      | none => (config, efault)
      | some conf => (conf, (text.length : Int)) := by
  have htext : text.takeWhile (· ≠ 0) = text := by
    rw [List.takeWhile_eq_self_iff]
    intro c hc
    refine decide_eq_true ?_
    rintro rfl
    exact h0 hc
  rw [configwrite_bytes config hlen hload, htext]

/-- The text of the character device is parsed to its value. -/
theorem sscanf_configText (c : BitVec 32) :
    (sscanfLiteral (ascii "config=") (configText c)).bind sscanfD = some c := by
  rw [configText, List.append_assoc, sscanfLiteral_append]
  exact sscanfD_fmtD c

/-- So is that of the attribute: what it shows, stored, sets the same value. -/
theorem configStore_configShow (config c : BitVec 32) :
    configStore config (sysfsBuf (configShow c)) (configShow c).length =
      (c, ((configShow c).length : Int)) := by
  have h0 : 0 ∉ configShow c := by
    rw [configShow_eq, List.mem_append]
    rintro (h | h)
    · exact zero_notMem_fmtD _ h
    · exact absurd h (by decide)
  have hlen : (configShow c).length < pageSize := by
    rw [configShow, sysfsEmit, List.length_take]
    exact Nat.lt_of_le_of_lt (Nat.min_le_left _ _) (by decide)
  have hparse : kstrtoint (configShow c) 0 = .ok c := by
    rw [configShow_eq]
    exact kstrtoint_fmtD c
  rw [configStore, sysfsBuf, Mem.cstr_store h0 hlen, hparse]

/-! ## Inverse and consistent

Each interface reads back what either of them shows. So a value can be carried from one to
the other, and comes through. -/

/-- Both interfaces show `config`: the attribute as a bare number, the character device
behind `config=`. -/
theorem shows_self (config : BitVec 32) : Shows config config := by
  have hlen := length_configText_le config
  refine ⟨?_, configShow_eq config⟩
  rw [configread_eq]
  exact List.take_of_length_le (Nat.le_trans hlen (by decide))

theorem reads_spec (c : BitVec 32) {counts : ℕ → ℕ} (hcounts : ∀ n, 0 < counts n) :
    ∃ n, ((List.range n).map fun i => (reads c counts i).out).flatten = configText c ∧
      (∀ i, (reads c counts i).ret = (reads c counts i).out.length) ∧
      (∀ i < n, 0 < (reads c counts i).ret) ∧ ∀ i, n ≤ i → (reads c counts i).ret = 0 := by
  have hret : ∀ i, (reads c counts i).ret = (reads c counts i).out.length := by
    intro i
    rw [reads, configread_eq]
  have hout : ∀ i, (reads c counts i).out =
      chunk (configText c) (offsets c counts i) (counts i) := by
    intro i
    rw [reads, configread_eq]
  have hoffs : ∀ i, offsets c counts (i + 1) =
      offsets c counts i + (reads c counts i).out.length := by
    intro i
    rw [offsets, reads, configread_eq]
  obtain ⟨n, htext, hbefore, hafter⟩ := exists_end rfl hout hoffs hcounts
  refine ⟨n, htext, hret, fun i hi => ?_, fun i hi => ?_⟩
  · have hpos := List.length_pos_iff.mpr (hbefore i hi)
    rw [hret]
    omega
  · rw [hret, hafter i hi]
    rfl

/-- **The two interfaces are inverse and consistent**, at every `int`.

Both directions go through the decimal text of an `int`: `snprintf` prints it, and
`sscanf` and `kstrtoint` read it back to the same value. What the interfaces put around
it, `config=` and the newline, is passed over by the reader on that side. -/
theorem myconfig_inverse (c : BitVec 32) : Inverse c where
  reads := fun _ hcounts => reads_spec c hcounts
  write := by
    intro config user buf hload
    have hlen : (configText c).length < kbufSize :=
      Nat.lt_of_le_of_lt (length_configText_le c) (by decide)
    rw [configwrite_eq config (zero_notMem_configText c) hlen hload, sscanf_configText]
  store := fun config => configStore_configShow config c
  agree := fun calls => ⟨run c calls, shows_self _⟩

end Myconfig

end KernelDrvLearn
