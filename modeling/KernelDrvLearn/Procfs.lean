import KernelDrvLearn.KernelApi
import KernelDrvLearn.Printf
import KernelDrvLearn.Transition

/-!
# The proc buffer

`procfs_read` and `procfs_write` of `procfs/procfs.c`: one buffer for all files,
of whose content `procfs_buffer_size` is the size. A file is read once, from its
offset 0; the next read sets the offset back.

`procfs_read` also uses `procfs_buffer_size` as the length of its own transfer
(`mycdev_read` of `charrw.c`, which does the same otherwise, has a variable for
that), so a short read cuts off the content for everybody. What was written is
still there after a run of reads if and only if none of them was short
(`procfs_reads_iff`).
-/

namespace KernelDrvLearn

namespace Procfs

/-- `PROCFS_MAX_SIZE`, the size of the buffer. -/
abbrev procfsMaxSize : ℕ := 2048

/-- The buffer, with its size as the source calls it: how many bytes there are to read. -/
structure Proc where
  /-- `procfs_buffer` -/
  procfsBuffer : ℕ → Byte
  /-- `procfs_buffer_size` -/
  procfsBufferSize : ℕ

/-- What a call leaves: the buffer, the offset, the bytes and the value. -/
structure Result where
  /-- the buffer -/
  proc : Proc
  /-- `*offset` -/
  offset : ℕ
  /-- the bytes put into the user's buffer -/
  out : List Byte
  /-- the value returned -/
  ret : Int

/-- `procfs_read`; `copy_to_user` leaves `uncopied` bytes, or all it was asked for. -/
def procfsRead (p : Proc) (length offset uncopied : ℕ) : Result :=
  if offset ≠ 0 ∨ p.procfsBufferSize = 0 then ⟨p, 0, [], 0⟩
  else
    let size := min p.procfsBufferSize length
    let p := { p with procfsBufferSize := size }
    if min uncopied size ≠ 0 then
      ⟨p, offset, Mem.load p.procfsBuffer 0 (size - uncopied), efault⟩
    else ⟨p, offset + size, Mem.load p.procfsBuffer 0 size, size⟩

/-- `procfs_write`: the size is set first, then the bytes are copied. -/
def procfsWrite (p : Proc) (user : ℕ → Byte) (buffer length offset uncopied : ℕ)
    (rest : ℕ → Byte) : Result :=
  let size := min procfsMaxSize length
  let p := ⟨Mem.store p.procfsBuffer 0 (copyFromUser user buffer size uncopied rest), size⟩
  if min uncopied size ≠ 0 then ⟨p, offset, [], efault⟩
  else ⟨p, offset + size, [], size⟩

/-! ## Runs

Any number of files on one buffer, each with its own offset. A call is given the file it
is made on, and a read that is to be the first of a file finds offset 0. -/

/-- The offset a call works on: that of an open file, or one given with the call. -/
inductive Pos where
  /-- that of an open file, as `read` and `write` pass it -/
  | file (f : ℕ)
  /-- one of its own, as `pread` and `pwrite` pass it -/
  | given (offset : ℕ)

/-- A call on a file, with the outcome of its copy. -/
inductive Act where
  /-- `procfs_open` -/
  | openFile (f : ℕ)
  /-- `procfs_read` -/
  | read (pos : Pos) (length uncopied : ℕ)
  /-- `procfs_write` -/
  | write (pos : Pos) (user : ℕ → Byte) (buffer length uncopied : ℕ) (rest : ℕ → Byte)

/-- The buffer and the open files, by their offsets. -/
structure State where
  /-- the buffer -/
  proc : Proc
  /-- the offset of each file -/
  offset : ℕ → ℕ

namespace State

/-- The offset a call finds on its file. -/
def offsetAt (s : State) : Pos → ℕ
  | .file f => s.offset f
  | .given offset => offset

/-- What a call does to the buffer and to its caller. -/
def call (s : State) : Act → Result
  | .openFile _ => ⟨s.proc, 0, [], 0⟩
  | .read pos length uncopied => procfsRead s.proc length (s.offsetAt pos) uncopied
  | .write pos user buffer length uncopied rest =>
    procfsWrite s.proc user buffer length (s.offsetAt pos) uncopied rest

/-- The offsets when the call has left `offset`. -/
def moved (s : State) (offset : ℕ) : Act → ℕ → ℕ
  | .openFile f | .read (.file f) _ _ | .write (.file f) _ _ _ _ _ =>
    Function.update s.offset f offset
  | .read (.given _) _ _ | .write (.given _) _ _ _ _ _ => s.offset

/-- The state after a call: the buffer, and the offset of its file. -/
def next (s : State) (a : Act) : State := ⟨(s.call a).proc, s.moved (s.call a).offset a⟩

end State

/-- The module, from its initialisation on. -/
def procfs : Lts State Act where
  init := ⟨⟨fun _ => 0, 0⟩, fun _ => 0⟩
  step := fun s a => some (s.next a)

/-- The call is not a write. An open or a read leaves the bytes of the buffer alone. -/
def Act.NoWrite : Act → Prop
  | .openFile _ => True
  | .read _ _ _ => True
  | .write _ _ _ _ _ _ => False

/-- A freshly opened file, read with room for everything, has these bytes. -/
def State.Delivers (s : State) (l : List Byte) : Prop :=
  ∀ f length, procfsMaxSize ≤ length →
    let r := (s.next (.openFile f)).call (.read (.file f) length 0)
    r.out = l ∧ r.ret = l.length

/-- If the call is a read at offset 0, it has room for `m` bytes. -/
def Keeps (m : ℕ) (s : State) : Act → Prop
  | .read pos length _ => s.offsetAt pos = 0 → m ≤ length
  | _ => True

instance Keeps.decidable (m : ℕ) (s : State) : ∀ a, Decidable (Keeps m s a)
  | .openFile _ => isTrue trivial
  | .read pos length _ => inferInstanceAs (Decidable (s.offsetAt pos = 0 → m ≤ length))
  | .write _ _ _ _ _ _ => isTrue trivial

/-! ## What the calls do

Of the two variables a read changes one: the size, which it uses for its own transfer. So
a read with less room than there is content leaves less of it to everybody. -/

variable {p : Proc} {s t : State} {a : Act} {as : List Act}

/-- A read leaves the bytes alone. -/
@[simp] theorem procfsRead_buffer (p : Proc) (length offset uncopied : ℕ) :
    (procfsRead p length offset uncopied).proc.procfsBuffer = p.procfsBuffer := by
  simp only [procfsRead]
  split_ifs <;> rfl

/-- A read at offset 0 cuts the content off at its length. -/
theorem procfsRead_size (p : Proc) (length offset uncopied : ℕ) :
    (procfsRead p length offset uncopied).proc.procfsBufferSize =
      if offset = 0 then min p.procfsBufferSize length else p.procfsBufferSize := by
  simp only [procfsRead]
  split_ifs <;> simp_all

/-- A read of everything, with room for it, leaves the size as it is. -/
theorem procfsRead_all {length : ℕ} (h : p.procfsBufferSize ≤ length) :
    (procfsRead p length 0 0).out = Mem.load p.procfsBuffer 0 p.procfsBufferSize ∧
      (procfsRead p length 0 0).ret = p.procfsBufferSize := by
  by_cases h0 : p.procfsBufferSize = 0
  · simp [procfsRead, h0]
  · simp [procfsRead, h0, h]

/-- A write that succeeds has set the size and the bytes. -/
theorem procfsWrite_ok {user : ℕ → Byte} {buffer length offset uncopied : ℕ} {rest : ℕ → Byte}
    (h : (procfsWrite p user buffer length offset uncopied rest).ret ≠ efault) :
    (procfsWrite p user buffer length offset uncopied rest).proc =
      ⟨Mem.store p.procfsBuffer 0 (Mem.load user buffer (min length procfsMaxSize)),
        min length procfsMaxSize⟩ := by
  simp only [procfsWrite] at h ⊢
  split_ifs at h ⊢ with hfault
  · exact absurd rfl h
  · rw [copyFromUser_of_min (not_not.mp hfault), Nat.min_comm]

/-- What a fresh read delivers is the content. -/
theorem State.delivers_iff (h : s.proc.procfsBufferSize ≤ procfsMaxSize) {l : List Byte} :
    s.Delivers l ↔ l = Mem.load s.proc.procfsBuffer 0 s.proc.procfsBufferSize := by
  have hread : ∀ f length, procfsMaxSize ≤ length →
      ((s.next (.openFile f)).call (.read (.file f) length 0)).out =
          Mem.load s.proc.procfsBuffer 0 s.proc.procfsBufferSize ∧
        ((s.next (.openFile f)).call (.read (.file f) length 0)).ret =
          s.proc.procfsBufferSize := by
    intro f length hlen
    have hoff : (s.next (.openFile f)).offsetAt (.file f) = 0 := Function.update_self f 0 s.offset
    rw [State.call, hoff]
    exact procfsRead_all (Nat.le_trans h hlen)
  constructor
  · intro hdel
    rw [← (hread 0 procfsMaxSize (Nat.le_refl _)).1]
    exact (hdel 0 procfsMaxSize (Nat.le_refl _)).1.symm
  · rintro rfl f length hlen
    obtain ⟨hout, hret⟩ := hread f length hlen
    exact ⟨hout, by rw [hret, Mem.load_length]⟩

/-! ## Runs of reads

The bytes stay and the size can only shrink, so at the end it is what it was exactly if no
read on the way was short. -/

/-- **Step lemma.** The bytes stay, and the size does not grow. -/
theorem next_noWrite (ha : a.NoWrite) :
    (s.next a).proc.procfsBuffer = s.proc.procfsBuffer ∧
      (s.next a).proc.procfsBufferSize ≤ s.proc.procfsBufferSize := by
  cases a with
  | openFile f => exact ⟨rfl, Nat.le_refl _⟩
  | read pos length uncopied =>
    refine ⟨procfsRead_buffer _ _ _ _, ?_⟩
    rw [State.next, State.call, procfsRead_size]
    split
    · exact Nat.min_le_left _ _
    · exact Nat.le_refl _
  | write pos user buffer length uncopied rest => exact absurd ha id

/-- The size stays if and only if the read is not short. -/
theorem next_size_iff (ha : a.NoWrite) :
    (s.next a).proc.procfsBufferSize = s.proc.procfsBufferSize ↔
      Keeps s.proc.procfsBufferSize s a := by
  cases a with
  | openFile f => exact iff_of_true rfl trivial
  | read pos length uncopied =>
    rw [State.next, State.call, procfsRead_size, Keeps]
    split
    case isTrue h0 => simp [h0]
    case isFalse h0 => simp [h0]
  | write pos user buffer length uncopied rest => exact absurd ha id

/-- **Run lemma.** The bytes stay through any run of reads, and the size does not grow. -/
theorem exec_noWrite (has : ∀ a ∈ as, a.NoWrite) (hexec : procfs.exec s as = some t) :
    t.proc.procfsBuffer = s.proc.procfsBuffer ∧
      t.proc.procfsBufferSize ≤ s.proc.procfsBufferSize := by
  induction as generalizing s with
  | nil =>
    obtain rfl := Option.some.inj hexec
    exact ⟨rfl, Nat.le_refl _⟩
  | cons a as ih =>
    obtain ⟨hbuf, hsize⟩ := next_noWrite (s := s) (has a List.mem_cons_self)
    obtain ⟨hbuf', hsize'⟩ := ih (fun a' ha' => has a' (List.mem_cons_of_mem a ha')) hexec
    exact ⟨hbuf'.trans hbuf, Nat.le_trans hsize' hsize⟩

/-- After a run of reads the size is the same if and only if none was short. -/
theorem exec_size_iff {m : ℕ} (has : ∀ a ∈ as, a.NoWrite) (hm : s.proc.procfsBufferSize = m)
    (hexec : procfs.exec s as = some t) :
    t.proc.procfsBufferSize = m ↔ procfs.Along (fun s a _ => Keeps m s a) s as := by
  induction as generalizing s with
  | nil =>
    obtain rfl := Option.some.inj hexec
    exact iff_of_true hm Lts.Along.nil
  | cons a as ih =>
    have ha := has a List.mem_cons_self
    have has' : ∀ a' ∈ as, a'.NoWrite := fun a' ha' => has a' (List.mem_cons_of_mem a ha')
    have hstep := next_size_iff (s := s) ha
    rw [hm] at hstep
    constructor
    · intro ht
      -- sizes only go down, so this one is between two that are the same
      have hle := (exec_noWrite has' hexec).2
      have hle' := (next_noWrite (s := s) ha).2
      have hnext : (s.next a).proc.procfsBufferSize = m := by
        rw [hm] at hle'
        rw [ht] at hle
        exact Nat.le_antisymm hle' hle
      exact Lts.Along.cons rfl (hstep.mp hnext) ((ih has' hnext hexec).mp ht)
    · rintro ⟨s₁, hs, hkeeps, hrest⟩
      obtain rfl := Option.some.inj hs
      exact (ih has' (hstep.mpr hkeeps) hexec).mpr hrest

/-- **Reads, exactly.** After a successful write of `n` bytes and any run of
reads on any files, a fresh read delivers exactly the first `min n 2048` of the
bytes if and only if every read made at offset 0 had room for them.

A read that is not given room for the content takes the room it is given for the size of
the content. The bytes themselves are never touched by a read, so the size is all that
has to be watched along the run. -/
theorem procfs_reads_iff {pos : Pos} {user : ℕ → Byte} {buffer n uncopied : ℕ} {rest : ℕ → Byte}
    (hok : (s.call (.write pos user buffer n uncopied rest)).ret ≠ efault)
    (has : ∀ a ∈ as, a.NoWrite)
    (hexec : procfs.exec (s.next (.write pos user buffer n uncopied rest)) as = some t) :
    t.Delivers (Mem.load user buffer (min n procfsMaxSize)) ↔
      procfs.Along (fun s a _ => Keeps (min n procfsMaxSize) s a)
        (s.next (.write pos user buffer n uncopied rest)) as := by
  have hproc : (s.next (.write pos user buffer n uncopied rest)).proc =
      ⟨Mem.store s.proc.procfsBuffer 0 (Mem.load user buffer (min n procfsMaxSize)),
        min n procfsMaxSize⟩ := procfsWrite_ok hok
  generalize s.next (.write pos user buffer n uncopied rest) = s₁ at hproc hexec ⊢
  have hsize : s₁.proc.procfsBufferSize = min n procfsMaxSize := by rw [hproc]
  have hcontent : Mem.load s₁.proc.procfsBuffer 0 (min n procfsMaxSize) =
      Mem.load user buffer (min n procfsMaxSize) := by
    simp [hproc, Mem.load_store_of_length]
  obtain ⟨hbuf, hle⟩ := exec_noWrite has hexec
  rw [hsize] at hle
  rw [← exec_size_iff has hsize hexec,
    State.delivers_iff (Nat.le_trans hle (Nat.min_le_right _ _)), hbuf]
  constructor
  · intro h
    have hlen := congrArg List.length h
    rw [Mem.load_length, Mem.load_length] at hlen
    exact hlen.symm
  · intro h
    rw [h, hcontent]

/-! ## A text and its readers

Five bytes, read by readers with enough room and by one without. -/

/-- A user's buffer with `"hello"` in it. -/
def hello : ℕ → Byte := Mem.store (fun _ => 0) 0 (ascii "hello")

/-- The write of it, which succeeds. -/
def writeHello : Act := .write (.file 0) hello 0 5 0 fun _ => 0

theorem procfs_reads_iff_hello :
    ∃ t, procfs.exec (procfs.init.next writeHello)
        [Act.read (.file 1) 4096 0, Act.read (.file 1) 4096 0] = some t ∧
      t.Delivers (Mem.load hello 0 (min 5 procfsMaxSize)) := by
  have hok : (procfs.init.call writeHello).ret ≠ efault := by decide +kernel
  have hreads : ∀ a ∈ [Act.read (.file 1) 4096 0, Act.read (.file 1) 4096 0], a.NoWrite := by
    simp [Act.NoWrite]
  exact ⟨_, rfl, (procfs_reads_iff hok hreads rfl).mpr (by decide +kernel)⟩

/-- A read of two bytes leaves two bytes to everybody. -/
theorem short_read_truncates :
    ∃ t, procfs.exec procfs.init [writeHello, Act.read (.file 1) 2 0] = some t ∧
      t.Delivers (ascii "he") ∧ ¬ t.Delivers (ascii "hello") := by
  have hsize : (State.next (procfs.init.next writeHello)
      (Act.read (.file 1) 2 0)).proc.procfsBufferSize ≤ procfsMaxSize := by decide +kernel
  refine ⟨_, rfl, ?_, ?_⟩
  · rw [State.delivers_iff hsize]
    decide +kernel
  · rw [State.delivers_iff hsize]
    decide +kernel

end Procfs

end KernelDrvLearn
