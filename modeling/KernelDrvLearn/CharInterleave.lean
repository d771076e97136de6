import KernelDrvLearn.Charioctl
import KernelDrvLearn.TryLock

/-!
# The calls of `char_dev`, interleaved

`read`, `write` and `ioctl` on `char_dev` byte by byte, made by any number of
processes at once. Only `device_ioctl` takes `already_open`; a `write` may land in
the middle of it, and a process's memory may be changed by its other threads.

* `in_bounds` — whatever lands where, `message[80]` stays the terminator, nothing
  outside `message[81]` is accessed, and `IOCTL_GET_MSG` stores 81 bytes at most.
* `lock_released` — at most one process is inside `device_ioctl`, and it always
  leaves by steps of its own, if the byte it asks for is inside `message[81]`.
* `ioctls_serial` — if meanwhile no `write` stores and its own memory stays as it
  is, every ioctl does what `deviceIoctl` does, one after the other, and those that
  come in between are refused with `-EBUSY`.
-/

namespace KernelDrvLearn

namespace Chardev

/-- The index that the caller itself chooses is inside `message[81]`: there is no
check of it. -/
def Call.Fits : Call → Prop
  | .read _ _ _ offset => offset ≤ bufLen
  | .ioctl _ .getNthByte param => param ≤ bufLen
  | _ => True

instance : DecidablePred Call.Fits
  | .read _ _ _ offset => inferInstanceAs (Decidable (offset ≤ bufLen))
  | .ioctl _ .getNthByte param => inferInstanceAs (Decidable (param ≤ bufLen))
  | .ioctl _ .setMsg _ | .ioctl _ .getMsg _ | .ioctl _ .unknown _ | .write _ _ _ => isTrue trivial

namespace Interleave

open TryLock

/-- Who has called `device_read` or `device_write`. -/
inductive Caller where
  /-- the process -/
  | syscall
  /-- `device_ioctl` -/
  | ioctl (param : ℕ)

/-- Where a process is, in the call it has made. -/
inductive Pc where
  /-- `switch (ioctl_num)` -/
  | switch (ioctlNum : IoctlNum) (param : ℕ)
  /-- `get_user(ch, tmp)` before the loop -/
  | first (param : ℕ)
  /-- the loop of `IOCTL_SET_MSG` -/
  | count (param i : ℕ) (ch : Byte)
  /-- the loop of `device_write` -/
  | copy (caller : Caller) (buffer length i : ℕ)
  /-- `!*(message_ptr + *offset)` -/
  | test (caller : Caller) (buffer length offset : ℕ)
  /-- `length && *message_ptr`, after `n` bytes -/
  | look (caller : Caller) (buffer length offset n : ℕ)
  /-- `put_user(*(message_ptr++), buffer++)` -/
  | put (caller : Caller) (buffer length offset n : ℕ)
  /-- `put_user('\0', ioctl_param + i)` -/
  | terminate (param n : ℕ)
  /-- `ret = (long)message[ioctl_param]` -/
  | nth (param : ℕ)
  /-- `atomic_set` and `return ret` -/
  | leave (ret : Int)

/-- A process inside: its memory, and where it is. -/
structure Local where
  /-- its memory -/
  user : ℕ → Byte
  /-- where it is -/
  pc : Pc

/-- What a call leaves to its process. -/
structure Ret where
  /-- its memory -/
  user : ℕ → Byte
  /-- `*offset`, of `read` -/
  offset : ℕ
  /-- the value returned -/
  ret : Int

/-- `device_read` returns to whoever has called it. -/
def Caller.read (caller : Caller) (user : ℕ → Byte) (offset n : ℕ) : Local ⊕ Ret :=
  match caller with
  | .syscall => .inr ⟨user, offset, n⟩
  | .ioctl param => .inl ⟨user, .terminate param n⟩

/-- `device_write` returns to whoever has called it. -/
def Caller.write (caller : Caller) (user : ℕ → Byte) (n : ℕ) : Local ⊕ Ret :=
  match caller with
  | .syscall => .inr ⟨user, 0, n⟩
  | .ioctl _ => .inl ⟨user, .leave success⟩

/-- The next step: where the process goes, or what its call returns. -/
def next (l : Local) (message : ℕ → Byte) : Local ⊕ Ret :=
  match l.pc with
  | .switch .setMsg param => .inl ⟨l.user, .first param⟩
  | .switch .getMsg param => .inl ⟨l.user, .test (.ioctl param) param 99 0⟩
  | .switch .getNthByte param => .inl ⟨l.user, .nth param⟩
  | .switch .unknown _ => .inl ⟨l.user, .leave success⟩
  | .first param => .inl ⟨l.user, .count param 0 (l.user param)⟩
  | .count param i ch =>
    if ch ≠ 0 ∧ i < bufLen then .inl ⟨l.user, .count param (i + 1) (l.user (param + i))⟩
    else .inl ⟨l.user, .copy (.ioctl param) param i 0⟩
  | .copy caller buffer length i =>
    if i < length ∧ i < bufLen then .inl ⟨l.user, .copy caller buffer length (i + 1)⟩
    else caller.write l.user i
  | .test caller buffer length offset =>
    if message offset = 0 then caller.read l.user 0 0
    else .inl ⟨l.user, .look caller buffer length offset 0⟩
  | .look caller buffer length offset n =>
    if n < length ∧ message (offset + n) ≠ 0 then .inl ⟨l.user, .put caller buffer length offset n⟩
    else caller.read l.user (offset + n) n
  | .put caller buffer length offset n =>
    -- the byte is read once more
    .inl ⟨Function.update l.user (buffer + n) (message (offset + n)),
      .look caller buffer length offset (n + 1)⟩
  | .terminate param n => .inl ⟨Function.update l.user (param + n) 0, .leave success⟩
  | .nth param => .inl ⟨l.user, .leave (message param).toInt⟩
  | .leave ret => .inr ⟨l.user, 0, ret⟩

/-- What it stores to `message`. -/
def store (l : Local) : Option ((ℕ → Byte) → ℕ → Byte) :=
  match l.pc with
  | .copy _ buffer length i =>
    if i < length ∧ i < bufLen then
      some fun message => Function.update message i (l.user (buffer + i))
    else none
  | _ => none

/-- The file operations of `char_dev`. A poke stores a byte to the memory of the
process. -/
def calls : Calls Call Local (ℕ → Byte) Ret (ℕ × Byte) where
  guarded
    | .read _ _ _ _ | .write _ _ _ => false
    | .ioctl _ _ _ => true
  refused
    | .ioctl user _ _ => ⟨user, 0, ebusy⟩
    -- `read` and `write` do not look at `already_open`
    | .read user _ _ _ | .write user _ _ => ⟨user, 0, success⟩
  start
    | .read user buffer length offset => ⟨user, .test .syscall buffer length offset⟩
    | .write user buffer length => ⟨user, .copy .syscall buffer length 0⟩
    | .ioctl user ioctlNum param => ⟨user, .switch ioctlNum param⟩
  store := store
  next := next
  poke d l := { l with user := Function.update l.user d.1 d.2 }

/-- A process, the message and everything else. -/
abbrev Sys (ι : Type) := TryLock.State ι Call Local (ℕ → Byte) Ret

/-- The module with the processes of `ι`, none of which is inside at first. -/
def system (ι : Type) [DecidableEq ι] : Lts (Sys ι) (Act ι Call (ℕ × Byte)) :=
  calls.system ι init.message

/-! ## What is accessed

The accesses of the next step, so that a state can be called in bounds: the byte of
`message` that it reads or writes, and the byte of the process's memory that it stores to.
-/

/-- The byte of `message` that the next step accesses. -/
def Local.touches (l : Local) : Option ℕ :=
  match l.pc with
  | .copy _ _ length i => if i < length ∧ i < bufLen then some i else none
  | .test _ _ _ offset => some offset
  | .look _ _ length offset n => if n < length then some (offset + n) else none
  | .put _ _ _ offset n => some (offset + n)
  | .nth param => some param
  | _ => none

/-- The byte of its own memory that the next step stores to. -/
def Local.fills (l : Local) : Option ℕ :=
  match l.pc with
  | .put _ buffer _ _ n => some (buffer + n)
  | .terminate param n => some (param + n)
  | _ => none

/-! ## In bounds

The loops end at a zero, and the bound of each is the terminator of `message`. No call
writes the last byte, so the terminator is there at any time, however the other bytes
change between two steps; and that is all a loop relies on. -/

/-- Only `IOCTL_GET_MSG` calls `device_read`, with its own parameter. -/
def Caller.Ok (k : Call) (buffer : ℕ) : Caller → Prop
  | .syscall => ∀ user param, k ≠ .ioctl user .getMsg param
  | .ioctl param => buffer = param ∧ ∃ user, k = .ioctl user .getMsg param

/-- Where a call can be: its index is inside the buffer. -/
def Pc.Ok (k : Call) : Pc → Prop
  | .switch ioctlNum param => k.Fits ∧ ∃ user, k = .ioctl user ioctlNum param
  | .test caller buffer _ offset => offset ≤ bufLen ∧ caller.Ok k buffer
  | .look caller buffer _ offset n => offset + n ≤ bufLen ∧ caller.Ok k buffer
  | .put caller buffer _ offset n => offset + n < bufLen ∧ caller.Ok k buffer
  | .terminate param n => n ≤ bufLen ∧ (Caller.ioctl param).Ok k param
  | .nth param => param ≤ bufLen ∧ ∃ user, k = .ioctl user .getNthByte param
  | .first _ | .count _ _ _ | .copy _ _ _ _ | .leave _ => True

theorem Caller.Ok.read {k : Call} {buffer offset n : ℕ} {caller : Caller} {user : ℕ → Byte}
    (h : caller.Ok k buffer) (hn : n ≤ bufLen) (hoffset : offset ≤ bufLen) :
    (∀ l, caller.read user offset n = .inl l → l.pc.Ok k) ∧
      ∀ r, caller.read user offset n = .inr r → r.offset ≤ bufLen := by
  cases caller with
  | syscall =>
    refine ⟨fun l hl => ?_, fun r hr => ?_⟩
    · cases hl
    · obtain rfl := Sum.inr.inj hr
      exact hoffset
  | ioctl param =>
    refine ⟨fun l hl => ?_, fun r hr => ?_⟩
    · obtain rfl := Sum.inl.inj hl
      exact ⟨hn, rfl, h.2⟩
    · cases hr

/-- What one step keeps, as long as the terminator is there. -/
theorem Pc.Ok.next {k : Call} {l : Local} {message : ℕ → Byte} (h : l.pc.Ok k)
    (hlast : message bufLen = 0) :
    (∀ l', next l message = .inl l' → l'.pc.Ok k) ∧
      ∀ r, next l message = .inr r → r.offset ≤ bufLen := by
  obtain ⟨user, pc⟩ := l
  cases pc with
  | switch ioctlNum param =>
    obtain ⟨hfits, user₀, rfl⟩ := h
    cases ioctlNum with
    | setMsg | unknown => simp [Interleave.next, Pc.Ok]
    | getMsg => simp [Interleave.next, Pc.Ok, Caller.Ok]
    | getNthByte => simpa [Interleave.next, Pc.Ok, Call.Fits] using hfits
  | first param => simp [Interleave.next, Pc.Ok]
  | count param i ch =>
    simp only [Interleave.next]
    split
    · simp [Pc.Ok]
    · simp [Pc.Ok]
  | copy caller buffer length i =>
    simp only [Interleave.next]
    split
    · simp [Pc.Ok]
    · cases caller with
      | syscall | ioctl param => simp [Caller.write, Pc.Ok]
  | test caller buffer length offset =>
    simp only [Interleave.next]
    split
    · exact h.2.read (Nat.zero_le _) (Nat.zero_le _)
    · simpa [Pc.Ok] using h
  | look caller buffer length offset n =>
    obtain ⟨hle, hcaller⟩ := h
    simp only [Interleave.next]
    split
    case isTrue hmore =>
      -- the byte is not the terminator
      have hne : offset + n ≠ bufLen := by
        intro heq
        exact hmore.2 (heq ▸ hlast)
      simpa [Pc.Ok] using ⟨Nat.lt_of_le_of_ne hle hne, hcaller⟩
    case isFalse => exact hcaller.read (Nat.le_of_add_left_le hle) hle
  | put caller buffer length offset n =>
    obtain ⟨hlt, hcaller⟩ := h
    simpa [Interleave.next, Pc.Ok] using ⟨hlt, hcaller⟩
  | terminate param n => simp [Interleave.next, Pc.Ok]
  | nth param => simp [Interleave.next, Pc.Ok]
  | leave ret => simp [Interleave.next]

/-- No step stores to the last byte. -/
theorem effect_last (l : Local) (message : ℕ → Byte) :
    calls.effect l message bufLen = message bufLen := by
  obtain ⟨user, pc⟩ := l
  cases pc with
  | copy caller buffer length i =>
    simp only [Calls.effect, calls, store]
    by_cases hmore : i < length ∧ i < bufLen
    · rw [if_pos hmore]
      exact Function.update_of_ne (Nat.ne_of_gt hmore.2) _ _
    · rw [if_neg hmore]
  | _ => rfl

/-- Where a call is, it accesses no byte outside. -/
theorem Pc.Ok.touches {k : Call} {l : Local} (h : l.pc.Ok k) {n : ℕ} (hn : l.touches = some n) :
    n ≤ bufLen := by
  obtain ⟨user, pc⟩ := l
  cases pc with
  | copy caller buffer length i =>
    obtain ⟨⟨-, hi⟩, hf⟩ := Option.ite_none_right_eq_some.mp hn
    obtain rfl := Option.some.inj hf
    exact Nat.le_of_lt hi
  | look caller buffer length offset m =>
    obtain ⟨-, hf⟩ := Option.ite_none_right_eq_some.mp hn
    obtain rfl := Option.some.inj hf
    exact h.1
  | test caller buffer length offset =>
    obtain rfl := Option.some.inj hn
    exact h.1
  | put caller buffer length offset m =>
    obtain rfl := Option.some.inj hn
    exact Nat.le_of_lt h.1
  | nth param =>
    obtain rfl := Option.some.inj hn
    exact h.1
  | _ => cases hn

/-- `IOCTL_GET_MSG` stores to the 81 bytes at its parameter only. -/
theorem Pc.Ok.fills {user : ℕ → Byte} {param : ℕ} {l : Local}
    (h : l.pc.Ok (.ioctl user .getMsg param)) {a : ℕ} (ha : l.fills = some a) :
    param ≤ a ∧ a ≤ param + bufLen := by
  obtain ⟨mem, pc⟩ := l
  cases pc with
  | put caller buffer length offset n =>
    obtain rfl := Option.some.inj ha
    obtain ⟨hlt, hcaller⟩ := h
    cases caller with
    | syscall => exact absurd rfl (hcaller user param)
    | ioctl param' =>
      obtain ⟨rfl, user', heq⟩ := hcaller
      obtain ⟨-, -, rfl⟩ := Call.ioctl.inj heq
      omega
  | terminate param' n =>
    obtain rfl := Option.some.inj ha
    obtain ⟨hle, -, user', heq⟩ := h
    obtain ⟨-, -, rfl⟩ := Call.ioctl.inj heq
    omega
  | _ => cases ha

/-- **In bounds.** Whatever the processes call, however their steps interleave and
whatever their other threads do to their memories, if no process itself gives an
offset or a byte number beyond `message[81]`, then the terminator stays, nothing
outside `message[81]` is accessed, `IOCTL_GET_MSG` stores to its 81 bytes only, and
a `read` leaves an offset that the next one may have. -/
theorem in_bounds {ι : Type} [DecidableEq ι] {s : Sys ι}
    (h : (system ι).Reach (fun _ a => Act.Fits Call.Fits a) s) :
    s.shared bufLen = 0 ∧
      (∀ i k l, s.inside i = some (k, l) → (∀ n, l.touches = some n → n ≤ bufLen) ∧
        ∀ user param, k = .ioctl user .getMsg param →
          ∀ a, l.fills = some a → param ≤ a ∧ a ≤ param + bufLen) ∧
      ∀ i k r, .done i k r ∈ s.log → r.offset ≤ bufLen := by
  have hstart (k : Call) (hfits : k.Fits) : (calls.start k).pc.Ok k := by
    cases k with
    | read user buffer length offset => exact ⟨hfits, fun _ _ heq => by cases heq⟩
    | write user buffer length => trivial
    | ioctl user ioctlNum param => exact ⟨hfits, user, rfl⟩
  have hkept := Calls.invariant (I := fun message : ℕ → Byte => message bufLen = 0)
    (J := fun k l => l.pc.Ok k) (R := fun _ r => r.offset ≤ bufLen) rfl hstart
    (fun _ l message hlast _ => (effect_last l message).trans hlast)
    (fun _ _ _ l' hlast hl hnext => (hl.next hlast).1 l' hnext)
    (fun _ _ _ r hlast hl hnext => (hl.next hlast).2 r hnext) (fun _ _ _ hl => hl) h
  refine ⟨hkept.shared, fun i k l hi => ⟨fun n hn => (hkept.inside i k l hi).touches hn, ?_⟩,
    hkept.log⟩
  rintro user param rfl a ha
  exact (hkept.inside i _ l hi).fills ha

/-- One process sets `"hi"`, and another one stores an `"o"` in the middle. -/
def torn : List (Act ℕ Call (ℕ × Byte)) :=
  [Act.call 0 (.ioctl hi .setMsg 0)] ++ List.replicate 7 (Act.step 0) ++
    [Act.call 1 (.write (fun _ => 111) 0 1), Act.step 1, Act.step 1] ++
    List.replicate 4 (Act.step 0)

theorem torn_runs : ((system ℕ).exec (system ℕ).init torn).isSome = true := by decide +kernel

theorem torn_fits : (system ℕ).Run (fun _ a => Act.Fits Call.Fits a) torn := by decide +kernel

theorem in_bounds_torn : ∃ s, (system ℕ).exec (system ℕ).init torn = some s ∧
    s.shared bufLen = 0 ∧ Mem.load s.shared 0 3 = ascii "oi" ++ [0] := by
  have hexec := (Option.some_get torn_runs).symm
  have hload : Mem.load (((system ℕ).exec (system ℕ).init torn).get torn_runs).shared 0 3 =
      ascii "oi" ++ [0] := by
    decide +kernel
  exact ⟨_, hexec, (in_bounds (Lts.Reach.exec Lts.Reach.init torn_fits hexec)).1, hload⟩

/-! ## What a call does alone

`whole` is what is left of a call at each of its places, in one go, and is made of the
functions of the module. That a step does the first bit of the rest goes by cases over the
places, with one lemma for each loop; then a call that runs alone does what its function
says. -/

/-- What `device_read` leaves, once it has returned. -/
def Caller.didRead (caller : Caller) (user : ℕ → Byte) (offset n : ℕ) : Ret :=
  match caller with
  | .syscall => ⟨user, offset, n⟩
  | .ioctl param => ⟨Function.update user (param + n) 0, 0, success⟩

/-- What `device_write` leaves, once it has returned. -/
def Caller.didWrite (caller : Caller) (user : ℕ → Byte) (n : ℕ) : Ret :=
  match caller with
  | .syscall => ⟨user, 0, n⟩
  | .ioctl _ => ⟨user, 0, success⟩

/-- The rest of a call, in one go. -/
def whole (l : Local) (message : ℕ → Byte) : (ℕ → Byte) × Ret :=
  match l.pc with
  | .switch ioctlNum param =>
    let out := deviceIoctl ⟨false, message⟩ l.user ioctlNum param
    (out.state.message, ⟨out.user, 0, out.ret⟩)
  | .first param =>
    let i := lengthLoop l.user param bufLen 0 (l.user param)
    ((deviceWrite message l.user param i).1, ⟨l.user, 0, success⟩)
  | .count param i ch =>
    let i := lengthLoop l.user param (bufLen - i) i ch
    ((deviceWrite message l.user param i).1, ⟨l.user, 0, success⟩)
  | .copy caller buffer length i =>
    let out := writeLoop l.user buffer length (bufLen - i) i message
    (out.1, caller.didWrite l.user out.2)
  | .test caller buffer length offset =>
    let out := deviceRead message l.user buffer length offset
    (message, caller.didRead out.user out.offset out.ret)
  | .look caller buffer length offset n =>
    let bytes := Mem.cstr message (offset + n) (length - n)
    (message, caller.didRead (Mem.store l.user (buffer + n) bytes) (offset + n + bytes.length)
      (n + bytes.length))
  | .put caller buffer length offset n =>
    let bytes := message (offset + n) :: Mem.cstr message (offset + (n + 1)) (length - (n + 1))
    (message, caller.didRead (Mem.store l.user (buffer + n) bytes) (offset + n + bytes.length)
      (n + bytes.length))
  | .terminate param n => (message, ⟨Function.update l.user (param + n) 0, 0, success⟩)
  | .nth param => (message, ⟨l.user, 0, (message param).toInt⟩)
  | .leave ret => (message, ⟨l.user, 0, ret⟩)

/-- Returning from `device_read` leaves what is left. -/
theorem Caller.whole_read (caller : Caller) (user message : ℕ → Byte) (offset n : ℕ) :
    (∀ l, caller.read user offset n = .inl l →
        (message, caller.didRead user offset n) = whole l message) ∧
      ∀ r, caller.read user offset n = .inr r →
        (message, caller.didRead user offset n) = (message, r) := by
  cases caller with
  | syscall => simp [Caller.read, Caller.didRead]
  | ioctl param => simp [Caller.read, Caller.didRead, whole]

/-- Returning from `device_write` leaves what is left. -/
theorem Caller.whole_write (caller : Caller) (user message : ℕ → Byte) (n : ℕ) :
    (∀ l, caller.write user n = .inl l →
        (message, caller.didWrite user n) = whole l message) ∧
      ∀ r, caller.write user n = .inr r →
        (message, caller.didWrite user n) = (message, r) := by
  cases caller with
  | syscall => simp [Caller.write, Caller.didWrite]
  | ioctl param => simp [Caller.write, Caller.didWrite, whole]

/-- The next step does the first bit of the rest. -/
def Follows (l : Local) (message : ℕ → Byte) : Prop :=
  (∀ l', next l message = .inl l' → whole l message = whole l' (calls.effect l message)) ∧
    ∀ r, next l message = .inr r → whole l message = (calls.effect l message, r)

section

variable (user message : ℕ → Byte) (caller : Caller) (buffer length offset : ℕ)

theorem follows_switch (ioctlNum : IoctlNum) (param : ℕ) :
    Follows ⟨user, .switch ioctlNum param⟩ message := by
  cases ioctlNum with
  | setMsg => simp [Follows, next, whole, deviceIoctl, Calls.effect, calls, store]
  | getMsg => simp [Follows, next, whole, deviceIoctl, Calls.effect, calls, store, Caller.didRead]
  | getNthByte => simp [Follows, next, whole, deviceIoctl, Calls.effect, calls, store]
  | unknown => simp [Follows, next, whole, deviceIoctl, Calls.effect, calls, store]

/-- A turn of the loop of `IOCTL_SET_MSG`, or its end. -/
theorem follows_count (param i : ℕ) (ch : Byte) :
    Follows ⟨user, .count param i ch⟩ message := by
  simp only [Follows, next]
  split
  case isTrue hmore =>
    obtain ⟨hch, hi⟩ := hmore
    obtain ⟨fuel, hfuel⟩ : ∃ fuel, bufLen - i = fuel + 1 := ⟨bufLen - (i + 1), by omega⟩
    have hrest : bufLen - (i + 1) = fuel := by omega
    have hloop : lengthLoop user param (fuel + 1) i ch =
        lengthLoop user param fuel (i + 1) (user (param + i)) := by
      rw [lengthLoop, if_neg hch]
    simp [whole, Calls.effect, calls, store, hloop, hfuel, hrest]
  case isFalse hmore =>
    have hdone : lengthLoop user param (bufLen - i) i ch = i := by
      rcases hfuel : bufLen - i with _ | fuel
      · rfl
      · have hch : ch = 0 := by
          by_contra hch
          exact hmore ⟨hch, by omega⟩
        rw [lengthLoop, if_pos hch]
    simp [whole, Calls.effect, calls, store, hdone, deviceWrite, Caller.didWrite]

/-- A turn of the loop of `device_write`, or its end. -/
theorem follows_copy (i : ℕ) : Follows ⟨user, .copy caller buffer length i⟩ message := by
  simp only [Follows, next]
  split
  case isTrue hmore =>
    obtain ⟨hlength, hi⟩ := hmore
    obtain ⟨fuel, hfuel⟩ : ∃ fuel, bufLen - i = fuel + 1 := ⟨bufLen - (i + 1), by omega⟩
    have hrest : bufLen - (i + 1) = fuel := by omega
    simp [whole, Calls.effect, calls, store, writeLoop, hlength, hi, hfuel, hrest]
  case isFalse hmore =>
    have hdone : writeLoop user buffer length (bufLen - i) i message = (message, i) := by
      rcases hfuel : bufLen - i with _ | fuel
      · rfl
      · have hlength : ¬ i < length := fun hlength => hmore ⟨hlength, by omega⟩
        rw [writeLoop, if_neg hlength]
    have heffect : calls.effect ⟨user, .copy caller buffer length i⟩ message = message := by
      simp [Calls.effect, calls, store, hmore]
    rw [heffect]
    simp only [whole, hdone]
    exact caller.whole_write user message i

theorem follows_test : Follows ⟨user, .test caller buffer length offset⟩ message := by
  have heffect : calls.effect ⟨user, .test caller buffer length offset⟩ message = message := rfl
  rw [Follows, heffect]
  simp only [next]
  split
  case isTrue hend =>
    simp only [whole, deviceRead, if_pos hend]
    exact caller.whole_read user message 0 0
  case isFalse hend =>
    simp only [whole, deviceRead, if_neg hend]
    simp

/-- A turn of the loop of `device_read`, or its end. -/
theorem follows_look (n : ℕ) : Follows ⟨user, .look caller buffer length offset n⟩ message := by
  have heffect : calls.effect ⟨user, .look caller buffer length offset n⟩ message = message := rfl
  rw [Follows, heffect]
  simp only [next]
  split
  case isTrue hmore =>
    obtain ⟨hn, hne⟩ := hmore
    obtain ⟨rest, hrest⟩ : ∃ rest, length - n = rest + 1 := ⟨length - (n + 1), by omega⟩
    have hrest' : length - (n + 1) = rest := by omega
    have hcstr : Mem.cstr message (offset + n) (rest + 1) =
        message (offset + n) :: Mem.cstr message (offset + (n + 1)) rest := by
      rw [Mem.cstr, if_neg hne, Nat.add_assoc]
    simp [whole, hcstr, hrest, hrest']
  case isFalse hmore =>
    have hnil : Mem.cstr message (offset + n) (length - n) = [] := by
      rcases hrest : length - n with _ | rest
      · rfl
      · have hzero : message (offset + n) = 0 := by
          by_contra hne
          exact hmore ⟨by omega, hne⟩
        rw [Mem.cstr, if_pos hzero]
    simp only [whole, hnil, Mem.store_nil, List.length_nil, Nat.add_zero]
    exact caller.whole_read user message (offset + n) n

end

/-- **Step lemma.** At every place the step does the first bit of the rest. -/
theorem follows (l : Local) (message : ℕ → Byte) : Follows l message := by
  obtain ⟨user, pc⟩ := l
  cases pc with
  | switch ioctlNum param => exact follows_switch user message ioctlNum param
  | first param => simp [Follows, next, whole, Calls.effect, calls, store]
  | count param i ch => exact follows_count user message param i ch
  | copy caller buffer length i => exact follows_copy user message caller buffer length i
  | test caller buffer length offset => exact follows_test user message caller buffer length offset
  | look caller buffer length offset n =>
    exact follows_look user message caller buffer length offset n
  | put caller buffer length offset n =>
    simp [Follows, next, whole, Calls.effect, calls, store, Mem.store_cons, Nat.add_assoc,
      Nat.add_comm 1]
  | terminate param n => simp [Follows, next, whole, Calls.effect, calls, store]
  | nth param => simp [Follows, next, whole, Calls.effect, calls, store]
  | leave ret => simp [Follows, next, whole, Calls.effect, calls, store]

/-- A call that runs alone does what is left of it. -/
theorem eq_of_alone {l : Local} {message t : ℕ → Byte} {r : Ret} (h : calls.Alone l message t r) :
    whole l message = (t, r) :=
  h.eq (fun l message => (follows l message).1) fun l message => (follows l message).2

/-- How many steps are left, at most. -/
def Pc.left : Pc → ℕ
  | .switch _ _ => 202
  | .first _ => 163
  | .count _ i _ => 82 + (bufLen - i)
  | .copy _ _ _ i => 1 + (bufLen - i)
  | .test _ _ length _ => 2 * length + 3
  | .look _ _ length _ n => 2 * (length - n) + 2
  | .put _ _ length _ n => 2 * (length - (n + 1)) + 3
  | .terminate _ _ | .nth _ => 1
  | .leave _ => 0

/-- Returning from `device_read` leaves one step. -/
theorem Caller.left_read {caller : Caller} {user : ℕ → Byte} {offset n : ℕ} {l : Local}
    (h : caller.read user offset n = .inl l) : l.pc.left = 1 := by
  cases caller with
  | syscall => cases h
  | ioctl param =>
    obtain rfl := Sum.inl.inj h
    rfl

/-- Every step leaves one step less to do. -/
theorem left_next {l l' : Local} {message : ℕ → Byte} (h : next l message = .inl l') :
    l'.pc.left < l.pc.left := by
  obtain ⟨user, pc⟩ := l
  cases pc with
  | switch ioctlNum param =>
    cases ioctlNum with
    | setMsg | getMsg | getNthByte | unknown =>
      obtain rfl := Sum.inl.inj h
      simp [Pc.left]
  | first param =>
    obtain rfl := Sum.inl.inj h
    simp [Pc.left, bufLen]
  | count param i ch =>
    -- the length is counted up to the 80 bytes of `BUF_LEN`
    simp only [next] at h
    split at h
    case isTrue hmore =>
      obtain rfl := Sum.inl.inj h
      simp only [Pc.left]
      omega
    case isFalse =>
      obtain rfl := Sum.inl.inj h
      simp only [Pc.left, bufLen]
      omega
  | copy caller buffer length i =>
    simp only [next] at h
    split at h
    case isTrue hmore =>
      obtain rfl := Sum.inl.inj h
      simp only [Pc.left]
      omega
    case isFalse =>
      -- an ioctl has `already_open` still to give back
      cases caller with
      | syscall => cases h
      | ioctl param =>
        obtain rfl := Sum.inl.inj h
        simp only [Pc.left]
        omega
  | test caller buffer length offset =>
    simp only [next] at h
    split at h
    case isTrue =>
      rw [Caller.left_read h]
      simp only [Pc.left]
      omega
    case isFalse =>
      obtain rfl := Sum.inl.inj h
      simp [Pc.left]
  | look caller buffer length offset n =>
    simp only [next] at h
    split at h
    case isTrue hmore =>
      obtain rfl := Sum.inl.inj h
      simp only [Pc.left]
      omega
    case isFalse =>
      rw [Caller.left_read h]
      simp only [Pc.left]
      omega
  | put caller buffer length offset n =>
    obtain rfl := Sum.inl.inj h
    simp [Pc.left]
  | terminate param n =>
    obtain rfl := Sum.inl.inj h
    simp [Pc.left]
  | nth param =>
    obtain rfl := Sum.inl.inj h
    simp [Pc.left]
  | leave ret => cases h

/-- Every call that runs alone ends, after at most as many steps as are left. -/
theorem alone_ends (l : Local) (message : ℕ → Byte) : ∃ t r, calls.Alone l message t r :=
  Calls.alone_of_measure (fun l : Local => l.pc.left) (fun _ _ _ => left_next) l message

/-! ## The lock

`already_open` is what the library calls a lock: taken in one atomic step, and given back
in the last step of an ioctl. That the ioctl gets so far needs that it does not fault on
the way. -/

/-- **The lock.** In every interleaving of calls whose own index is inside
`message[81]`, `already_open` is set exactly while a process is inside `device_ioctl`;
it is one process then, and it leaves, with the lock free, by steps of its own. A byte
number far outside may fault between taking and giving back the lock, and then the
lock stays taken. -/
theorem lock_released {ι : Type} [DecidableEq ι] {s : Sys ι}
    (h : (system ι).Reach (fun _ a => Act.Fits Call.Fits a) s) :
    (s.lock = false → ∀ i, ¬ calls.Holds s i) ∧
      (s.lock = true → ∃ i, calls.Holds s i ∧ (∀ j, calls.Holds s j → j = i) ∧
        ∃ t, (system ι).Repeats (.step i) s t ∧ t.lock = false) := by
  have hex : calls.Exclusive s := Calls.exclusive h
  refine ⟨fun hfree i hi => ?_, fun hlock => ?_⟩
  · have hlock := hex.held i hi
    rw [hfree] at hlock
    cases hlock
  · obtain ⟨i, hi⟩ := hex.holder hlock
    refine ⟨i, hi, fun j hj => hex.one j i hj hi, ?_⟩
    obtain ⟨k, l, hin, hk⟩ := hi
    obtain ⟨m, r, halone⟩ := alone_ends l s.shared
    have hreleased : ∃ t, (system ι).Repeats (.step i) s t ∧ t.lock = false ∧ t.shared = m ∧
        t.log = s.log ++ [.done i k r] :=
      Calls.released hin hk halone
    obtain ⟨t, hrepeats, hfree, -⟩ := hreleased
    exact ⟨t, hrepeats, hfree⟩

/-- The first of the two is inside, and the second begins. -/
theorem torn_begins : ((system ℕ).exec (system ℕ).init (torn.take 9)).isSome = true := by
  decide +kernel

theorem torn_begins_fits : (system ℕ).Run (fun _ a => Act.Fits Call.Fits a) (torn.take 9) := by
  decide +kernel

theorem lock_released_torn : ∃ s, (system ℕ).exec (system ℕ).init (torn.take 9) = some s ∧
    ∃ i, calls.Holds s i ∧ ∃ t, (system ℕ).Repeats (.step i) s t ∧ t.lock = false := by
  have hexec := (Option.some_get torn_begins).symm
  have hlock : (((system ℕ).exec (system ℕ).init (torn.take 9)).get torn_begins).lock = true := by
    decide +kernel
  obtain ⟨i, hi, -, ht⟩ :=
    (lock_released (Lts.Reach.exec Lts.Reach.init torn_begins_fits hexec)).2 hlock
  exact ⟨_, hexec, i, hi, ht⟩

/-! ## One ioctl after the other

The lock keeps ioctls apart, and nothing keeps a `write` away from them. So the history of
the module is one of whole ioctls as long as nobody writes while one is inside. -/

/-- The message after an event, ioctls in one go. -/
def after {ι : Type} (message : ℕ → Byte) : Event ι Call Local Ret → ℕ → Byte
  | .done _ (.ioctl user ioctlNum param) _ =>
    (deviceIoctl ⟨false, message⟩ user ioctlNum param).state.message
  | .part l => calls.effect l message
  | _ => message

/-- Every ioctl that is done has left what `deviceIoctl` leaves, and every one that was
refused has returned `-EBUSY` and left everything as it was. -/
def Atomic {ι : Type} : (ℕ → Byte) → List (Event ι Call Local Ret) → Prop
  | _, [] => True
  | message, .done i (.ioctl user ioctlNum param) r :: log =>
    r = ⟨(deviceIoctl ⟨false, message⟩ user ioctlNum param).user, 0,
        (deviceIoctl ⟨false, message⟩ user ioctlNum param).ret⟩ ∧
      Atomic (after message (.done i (.ioctl user ioctlNum param) r)) log
  | message, .busy _ k r :: log =>
    (∃ user ioctlNum param, k = .ioctl user ioctlNum param ∧ r = ⟨user, 0, ebusy⟩) ∧
      Atomic message log
  | message, e :: log => Atomic (after message e) log

/-- A legal log is one of ioctls in one go. -/
theorem atomic_of_legal {ι : Type} {message t : ℕ → Byte} {log : List (Event ι Call Local Ret)}
    (h : calls.Legal message log t) : Atomic message log ∧ t = log.foldl after message := by
  induction log generalizing message with
  | nil => exact ⟨trivial, h⟩
  | cons e log ih =>
    obtain ⟨u, he, hlog⟩ := h
    obtain ⟨hatomic, ht⟩ := ih hlog
    cases e with
    | done i k r =>
      cases k with
      | read user buffer length offset =>
        obtain rfl : u = message := he
        exact ⟨hatomic, ht⟩
      | write user buffer length =>
        obtain rfl : u = message := he
        exact ⟨hatomic, ht⟩
      | ioctl user ioctlNum param =>
        obtain ⟨hu, hr⟩ := Prod.mk.inj (eq_of_alone he)
        obtain rfl : _ = u := hu
        exact ⟨⟨hr.symm, hatomic⟩, ht⟩
    | busy i k r =>
      obtain ⟨hk, rfl, rfl⟩ := he
      cases k with
      | ioctl user ioctlNum param => exact ⟨⟨⟨user, ioctlNum, param, rfl, rfl⟩, hatomic⟩, ht⟩
      | read | write => cases hk
    | part l =>
      obtain rfl : u = calls.effect l message := he
      exact ⟨hatomic, ht⟩

/-- **One after the other.** Let the calls' own indices be inside `message[81]`. If no
`write` stores to the message while an ioctl is inside, and its process leaves its
memory alone meanwhile, then every ioctl that is done has left to its process, and to
the message, what `deviceIoctl` leaves in one go, in the order in which they were done.
Those that were refused have returned `-EBUSY` and left everything as it was. -/
theorem ioctls_serial {ι : Type} [DecidableEq ι] {s : Sys ι}
    (h : (system ι).Reach (fun s a => Act.Fits Call.Fits a ∧ calls.Undisturbed s a) s) :
    Atomic init.message s.log ∧
      (s.lock = false → s.shared = s.log.foldl after init.message) := by
  have h : (system ι).Reach calls.Undisturbed s := h.mono fun _ _ hok => hok.2
  have hserial : calls.Serial init.message s := Calls.serial h
  refine ⟨?_, fun hfree => (atomic_of_legal (hserial.free hfree)).2⟩
  rcases hlock : s.lock with _ | _
  · exact (atomic_of_legal (hserial.free hlock)).1
  · -- somebody is inside, and has logged nothing
    obtain ⟨i, k, l, hi, hk⟩ := (Calls.exclusive h).holder hlock
    obtain ⟨m, hlegal, -⟩ := hserial.held i k l hi hk
    exact (atomic_of_legal hlegal).1

/-- One process sets `"hi"`; another is refused meanwhile, and then gets it. -/
def setAndGet : List (Act ℕ Call (ℕ × Byte)) :=
  [Act.call 0 (.ioctl hi .setMsg 0), Act.step 0, Act.call 1 (.ioctl hi .getMsg 4)] ++
    List.replicate 10 (Act.step 0) ++ [Act.call 1 (.ioctl hi .getMsg 4)] ++
    List.replicate 9 (Act.step 1)

theorem setAndGet_runs : ((system ℕ).exec (system ℕ).init setAndGet).isSome = true := by
  decide +kernel

theorem setAndGet_undisturbed : (system ℕ).Run
    (fun s a => Act.Fits Call.Fits a ∧ calls.Undisturbed s a) setAndGet := by
  decide +kernel

theorem ioctls_serial_setAndGet : ∃ s, (system ℕ).exec (system ℕ).init setAndGet = some s ∧
    Atomic init.message s.log ∧ s.log.length = 3 ∧
    s.shared = s.log.foldl after init.message := by
  have hexec := (Option.some_get setAndGet_runs).symm
  have hlock : (((system ℕ).exec (system ℕ).init setAndGet).get setAndGet_runs).lock = false := by
    decide +kernel
  have hlog : (((system ℕ).exec (system ℕ).init setAndGet).get setAndGet_runs).log.length = 3 := by
    decide +kernel
  obtain ⟨hatomic, hshared⟩ :=
    ioctls_serial (Lts.Reach.exec Lts.Reach.init setAndGet_undisturbed hexec)
  exact ⟨_, hexec, hatomic, hlog, hshared hlock⟩

/-- Where a `write` does store meanwhile, the message is neither before nor after. -/
example : ¬ (system ℕ).Run calls.Undisturbed torn ∧
    ((system ℕ).exec (system ℕ).init torn).map (fun s =>
      (Mem.load s.shared 0 2, Mem.load (s.log.foldl after init.message) 0 2)) =
      some (ascii "oi", ascii "hi") := by
  decide +kernel

end Interleave

end Chardev

end KernelDrvLearn
