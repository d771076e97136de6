import KernelDrvLearn.Procfs

/-!
# Failed calls on the proc buffer

`procfs_read` and `procfs_write` set `procfs_buffer_size` before they copy, and
leave it so when the copy fails; a write has then also overwritten the bytes.
What the other calls can see of the buffer is its size, the content of that size
and the offsets (`Same`), so a failed call goes unnoticed if and only if it
leaves these as they are (`failed_atomic_iff`).
-/

namespace KernelDrvLearn

namespace Procfs

/-- The bytes there are to read: those of the buffer, as many as the size says. -/
def Proc.content (p : Proc) : List Byte := Mem.load p.procfsBuffer 0 p.procfsBufferSize

/-- What the calls can see is the same. -/
structure Same (s t : State) : Prop where
  content : s.proc.content = t.proc.content
  offset : s.offset = t.offset

/-- What a call gives its caller: the bytes and the value returned. -/
def shows (s : State) (a : Act) : List Byte × Int := ((s.call a).out, (s.call a).ret)

/-- The call leaves the size, the content and the offsets as they were, and no
later calls are answered otherwise. -/
structure Atomic (s : State) (a : Act) : Prop where
  size : (s.next a).proc.procfsBufferSize = s.proc.procfsBufferSize
  bytes : Mem.load (s.next a).proc.procfsBuffer 0 s.proc.procfsBufferSize =
    Mem.load s.proc.procfsBuffer 0 s.proc.procfsBufferSize
  offset : (s.next a).offset = s.offset
  later : ∀ as, procfs.observe shows (s.next a) as = procfs.observe shows s as

/-- A read with room for the content; a write of as many bytes as there are,
which leaves the same bytes there. -/
def Harmless (s : State) : Act → Prop
  | .openFile _ => True
  | .read _ length _ => s.proc.procfsBufferSize ≤ length
  | .write _ user buffer length uncopied rest =>
    min procfsMaxSize length = s.proc.procfsBufferSize ∧
      copyFromUser user buffer s.proc.procfsBufferSize uncopied rest =
        Mem.load s.proc.procfsBuffer 0 s.proc.procfsBufferSize

instance Harmless.decidable (s : State) : ∀ a, Decidable (Harmless s a)
  | .openFile _ => isTrue trivial
  | .read _ length _ => inferInstanceAs (Decidable (s.proc.procfsBufferSize ≤ length))
  | .write _ _ _ _ _ _ => inferInstanceAs (Decidable (_ ∧ _))

variable {p q : Proc} {s t : State} {a : Act}

/-! ## What the calls can see

Two states with the same content and offsets answer every call alike and go on to such
states again, whatever stands behind the content. This is what makes a failed call
unnoticeable: it need not leave the buffer alone, only the content. -/

@[simp] theorem Proc.length_content (p : Proc) : p.content.length = p.procfsBufferSize :=
  Mem.load_length

/-- The same content has the same size, and the same beginnings. -/
theorem Proc.content_eq_iff : p.content = q.content ↔
    p.procfsBufferSize = q.procfsBufferSize ∧
      ∀ k ≤ p.procfsBufferSize, Mem.load p.procfsBuffer 0 k = Mem.load q.procfsBuffer 0 k := by
  constructor
  · intro h
    have hsize : p.procfsBufferSize = q.procfsBufferSize := by
      simpa using congrArg List.length h
    refine ⟨hsize, fun k hk => ?_⟩
    have hk' : k ≤ q.procfsBufferSize := hk.trans_eq hsize
    rw [← Mem.load_take hk, ← Mem.load_take hk']
    exact congrArg (List.take k) h
  · rintro ⟨hsize, htake⟩
    rw [content, content, ← hsize]
    exact htake _ (Nat.le_refl _)

/-- What stands behind a content does not change a read. -/
theorem procfsRead_congr (h : p.content = q.content) (length offset uncopied : ℕ) :
    (procfsRead p length offset uncopied).proc.content =
        (procfsRead q length offset uncopied).proc.content ∧
      (procfsRead p length offset uncopied).offset =
        (procfsRead q length offset uncopied).offset ∧
      (procfsRead p length offset uncopied).out = (procfsRead q length offset uncopied).out ∧
      (procfsRead p length offset uncopied).ret = (procfsRead q length offset uncopied).ret := by
  obtain ⟨hsize, htake⟩ := Proc.content_eq_iff.mp h
  have hmin := Nat.min_le_left p.procfsBufferSize length
  have hcut := htake _ hmin
  have hcut' := htake _ (Nat.le_trans (Nat.sub_le _ uncopied) hmin)
  simp only [procfsRead, ← hsize]
  split_ifs
  · simp [h]
  · simp [Proc.content, hcut, hcut']
  · simp [Proc.content, hcut]

/-- Nor a write: it sets the size, and all bytes up to it. -/
theorem procfsWrite_congr (p q : Proc) (user : ℕ → Byte) (buffer length offset uncopied : ℕ)
    (rest : ℕ → Byte) :
    (procfsWrite p user buffer length offset uncopied rest).proc.content =
        (procfsWrite q user buffer length offset uncopied rest).proc.content ∧
      (procfsWrite p user buffer length offset uncopied rest).offset =
        (procfsWrite q user buffer length offset uncopied rest).offset ∧
      (procfsWrite p user buffer length offset uncopied rest).out =
        (procfsWrite q user buffer length offset uncopied rest).out ∧
      (procfsWrite p user buffer length offset uncopied rest).ret =
        (procfsWrite q user buffer length offset uncopied rest).ret := by
  simp only [procfsWrite]
  split_ifs <;> simp [Proc.content, Mem.load_store_of_length]

/-- **Step lemma.** States the calls cannot tell apart answer alike, and remain so. -/
theorem Same.next (h : Same s t) (a : Act) :
    Same (s.next a) (t.next a) ∧ shows s a = shows t a := by
  have hat : ∀ pos, s.offsetAt pos = t.offsetAt pos := by
    intro pos
    cases pos with
    | file f => exact congrFun h.offset f
    | given offset => rfl
  have hmoved : ∀ offset, s.moved offset a = t.moved offset a := by
    intro offset
    simp only [State.moved, h.offset]
  have hcall : (s.call a).proc.content = (t.call a).proc.content ∧
      (s.call a).offset = (t.call a).offset ∧ (s.call a).out = (t.call a).out ∧
      (s.call a).ret = (t.call a).ret := by
    cases a with
    | openFile f => exact ⟨h.content, rfl, rfl, rfl⟩
    | read pos length uncopied =>
      rw [State.call, State.call, hat]
      exact procfsRead_congr h.content length (t.offsetAt pos) uncopied
    | write pos user buffer length uncopied rest =>
      rw [State.call, State.call, hat]
      exact procfsWrite_congr s.proc t.proc user buffer length (t.offsetAt pos) uncopied rest
  obtain ⟨hcontent, hoffset, hout, hret⟩ := hcall
  refine ⟨⟨hcontent, ?_⟩, Prod.ext hout hret⟩
  rw [State.next, State.next, hoffset, hmoved]

/-- **Run lemma.** They answer all later calls alike. -/
theorem Same.observe (h : Same s t) (as : List Act) :
    procfs.observe shows s as = procfs.observe shows t as :=
  Lts.observe_congr Same (fun s t a h => Or.inr ⟨s.next a, t.next a, rfl, rfl,
    (h.next a).2, (h.next a).1⟩) h as

/-! ## Failed calls

A failed read has cut the content off, and a failed write has replaced it. Either of them
goes unnoticed when by chance it has not. -/

/-- A read that fails has cut the content off. -/
theorem procfsRead_fault {length offset uncopied : ℕ}
    (h : (procfsRead p length offset uncopied).ret = efault) :
    (procfsRead p length offset uncopied).proc =
        ⟨p.procfsBuffer, min p.procfsBufferSize length⟩ ∧
      (procfsRead p length offset uncopied).offset = offset := by
  simp only [procfsRead] at h ⊢
  split_ifs at h ⊢
  · cases h
  · exact ⟨rfl, rfl⟩
  · cases h

/-- A write that fails has set the size, and the bytes. -/
theorem procfsWrite_fault {user : ℕ → Byte} {buffer length offset uncopied : ℕ}
    {rest : ℕ → Byte} (h : (procfsWrite p user buffer length offset uncopied rest).ret = efault) :
    (procfsWrite p user buffer length offset uncopied rest).proc.content =
        copyFromUser user buffer (min procfsMaxSize length) uncopied rest ∧
      (procfsWrite p user buffer length offset uncopied rest).offset = offset := by
  simp only [procfsWrite] at h ⊢
  split_ifs at h ⊢
  · simp [Proc.content, Mem.load_store_of_length]
  · cases h

/-- A failed call leaves the offsets alone. -/
theorem failed_offset (hfail : (s.call a).ret = efault) : (s.next a).offset = s.offset := by
  cases a with
  | openFile f => cases hfail
  | read pos length uncopied =>
    have hoff : (s.call (.read pos length uncopied)).offset = s.offsetAt pos :=
      (procfsRead_fault hfail).2
    rw [State.next, hoff]
    cases pos <;> simp [State.moved, State.offsetAt]
  | write pos user buffer length uncopied rest =>
    have hoff : (s.call (.write pos user buffer length uncopied rest)).offset = s.offsetAt pos :=
      (procfsWrite_fault hfail).2
    rw [State.next, hoff]
    cases pos <;> simp [State.moved, State.offsetAt]

/-- A failed call goes unnoticed if and only if the content is the same. -/
theorem atomic_iff_content (hfail : (s.call a).ret = efault) :
    Atomic s a ↔ (s.next a).proc.content = s.proc.content := by
  constructor
  · intro h
    rw [Proc.content, h.size, h.bytes]
    rfl
  · intro hcontent
    have hsame : Same (s.next a) s := ⟨hcontent, failed_offset hfail⟩
    obtain ⟨hsize, htake⟩ := Proc.content_eq_iff.mp hcontent
    exact ⟨hsize, htake _ (Nat.le_of_eq hsize.symm), hsame.offset, hsame.observe⟩

/-- **Failed calls, exactly.** A call that returns `-EFAULT` leaves the size, the
content and the offsets as they were, and the answers to all later calls, if and
only if it is a read with room for the content, or a write of as many bytes that
leaves the same ones there.

Both functions set the size before they copy. The exceptions are the calls where by
chance the new size, and what is in the buffer, are those from before. -/
theorem failed_atomic_iff (s : State) (a : Act) (hfail : (s.call a).ret = efault) :
    Atomic s a ↔ Harmless s a := by
  rw [atomic_iff_content hfail]
  cases a with
  | openFile f => cases hfail
  | read pos length uncopied =>
    have hproc : (s.next (.read pos length uncopied)).proc =
        ⟨s.proc.procfsBuffer, min s.proc.procfsBufferSize length⟩ := (procfsRead_fault hfail).1
    rw [hproc, Proc.content_eq_iff, Harmless]
    simp
  | write pos user buffer length uncopied rest =>
    have hcontent : (s.next (.write pos user buffer length uncopied rest)).proc.content =
        copyFromUser user buffer (min procfsMaxSize length) uncopied rest :=
      (procfsWrite_fault hfail).1
    rw [hcontent, Harmless]
    constructor
    · intro h
      have hsize : min procfsMaxSize length = s.proc.procfsBufferSize := by
        simpa using congrArg List.length h
      rw [hsize] at h
      exact ⟨hsize, h⟩
    · rintro ⟨hsize, h⟩
      rw [hsize]
      exact h

/-! ## A failed write

The size is that of the new text, and the bytes are some of the new and some of the old.
-/

/-- `"hello"` has been written, and nothing read. -/
def written : State := procfs.init.next writeHello

theorem failed_atomic_iff_room : Atomic written (.read (.file 1) 4096 3) :=
  (failed_atomic_iff written (.read (.file 1) 4096 3) (by decide +kernel)).mpr (by decide +kernel)

/-- A write of three bytes that fails leaves three bytes, and they are others. -/
theorem failed_write_shows :
    let bad := Act.write (.file 2) (fun _ => 0) 0 3 3 fun _ => 0
    (written.call bad).ret = efault ∧ (written.next bad).proc.procfsBufferSize = 3 ∧
      procfs.observe shows (written.next bad) [Act.read (.file 1) 4096 0] =
        [([0, 0, 0], 3)] ∧
      procfs.observe shows written [Act.read (.file 1) 4096 0] = [(ascii "hello", 5)] ∧
      ¬ Atomic written bad := by
  have hlater : procfs.observe shows
      (written.next (.write (.file 2) (fun _ => 0) 0 3 3 fun _ => 0))
        [Act.read (.file 1) 4096 0] = [([0, 0, 0], 3)] := by decide +kernel
  have hbefore : procfs.observe shows written [Act.read (.file 1) 4096 0] =
      [(ascii "hello", 5)] := by decide +kernel
  refine ⟨by decide +kernel, by decide +kernel, hlater, hbefore, fun h => ?_⟩
  have hsame := h.later [Act.read (.file 1) 4096 0]
  rw [hlater, hbefore] at hsame
  exact absurd hsame (by decide)

end Procfs

end KernelDrvLearn
