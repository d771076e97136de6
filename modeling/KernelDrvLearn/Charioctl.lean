import KernelDrvLearn.KernelApi
import KernelDrvLearn.Printf

/-!
# The message of `char_dev`

`message[81]` of `chardev/ioctl/charioctl.c`, with the reads, writes and ioctls
on it. User space is a memory of its own, and the pointers passed are valid.

`IOCTL_SET_MSG` measures the string with a loop that reads every character one
step late, so that its count includes the terminator, and stores that many
bytes, at most 80. The lag makes one exception: for the empty string the count
is 0, nothing is stored, and `IOCTL_GET_MSG` goes on delivering the old message
(`setMsg_getMsg_iff`).
-/

namespace KernelDrvLearn

namespace Chardev

/-- `BUF_LEN`, the longest message without its terminator. -/
abbrev bufLen : ℕ := 80

/-- `SUCCESS`, what the calls return that have nothing to count. -/
abbrev success : Int := 0

/-- The statics of the module: the message and the flag. -/
structure State where
  /-- `already_open`: is an ioctl in progress? -/
  alreadyOpen : Bool
  /-- `message` -/
  message : ℕ → Byte

/-- The module is loaded: the message is empty, and nobody is inside. -/
def init : State := ⟨false, fun _ => 0⟩

/-! ## Reading and writing

`device_read` and `device_write`, which the ioctls call as well. Their loops are over
bytes of the message, with the fuel that the loop's own test on the index gives. -/

/-- What `device_read` leaves: the bytes delivered, the offset and the count. -/
structure ReadResult where
  /-- the reader's memory -/
  user : ℕ → Byte
  /-- `*offset` -/
  offset : ℕ
  /-- the number of bytes -/
  ret : ℕ

/-- `device_read`. The loop `while (length && *message_ptr)` delivers the string
at `message + *offset`, at most `length` bytes of it. -/
def deviceRead (message user : ℕ → Byte) (buffer length offset : ℕ) : ReadResult :=
  if message offset = 0 then
    ⟨user, 0, 0⟩
  else
    let bytes := Mem.cstr message offset length
    ⟨Mem.store user buffer bytes, offset + bytes.length, bytes.length⟩

/-- The loop of `device_write` from index `i` on. The fuel is `BUF_LEN - i`, so
the second test of the loop is the fuel running out. -/
def writeLoop (user : ℕ → Byte) (buffer length : ℕ) :
    ℕ → ℕ → (ℕ → Byte) → (ℕ → Byte) × ℕ
  | 0, i, message => (message, i)
  | fuel + 1, i, message =>
    if i < length then
      writeLoop user buffer length fuel (i + 1) (Function.update message i (user (buffer + i)))
    else (message, i)

/-- `device_write`: the message and the value returned. -/
def deviceWrite (message user : ℕ → Byte) (buffer length : ℕ) : (ℕ → Byte) × ℕ :=
  writeLoop user buffer length bufLen 0 message

/-! ## The ioctls

`device_ioctl` by its number. `IOCTL_SET_MSG` first finds out how long the string of the
process is, and then calls `device_write` with that length. -/

/-- `ioctl_num`: the three numbers the module knows, and any other. -/
inductive IoctlNum where
  /-- `IOCTL_SET_MSG` -/
  | setMsg
  /-- `IOCTL_GET_MSG` -/
  | getMsg
  /-- `IOCTL_GET_NTH_BYTE` -/
  | getNthByte
  /-- any other number -/
  | unknown

/-- The loop of `IOCTL_SET_MSG` from index `i` on, `tmp` at `param + i` and the
character read before it in `ch`. The fuel is `BUF_LEN - i`. -/
def lengthLoop (user : ℕ → Byte) (param : ℕ) : ℕ → ℕ → Byte → ℕ
  | 0, i, _ => i
  | fuel + 1, i, ch =>
    if ch = 0 then i else lengthLoop user param fuel (i + 1) (user (param + i))

/-- What an ioctl leaves: the statics, the memory of the process and the value. -/
structure IoctlResult where
  /-- the statics -/
  state : State
  /-- the caller's memory -/
  user : ℕ → Byte
  /-- the value returned -/
  ret : Int

/-- `device_ioctl`, from the test of `already_open` to its reset. -/
def deviceIoctl (s : State) (user : ℕ → Byte) (ioctlNum : IoctlNum) (param : ℕ) : IoctlResult :=
  if s.alreadyOpen then
    ⟨s, user, ebusy⟩
  else
    match ioctlNum with
    | .setMsg =>
      -- the first character is read here and again in the first turn of the loop
      let i := lengthLoop user param bufLen 0 (user param)
      ⟨⟨false, (deviceWrite s.message user param i).1⟩, user, success⟩
    | .getMsg =>
      let out := deviceRead s.message user param 99 0
      ⟨⟨false, s.message⟩, Function.update out.user (param + out.ret) 0, success⟩
    | .getNthByte => ⟨⟨false, s.message⟩, user, (s.message param).toInt⟩
    | .unknown => ⟨⟨false, s.message⟩, user, success⟩

/-! ## Histories

The calls before the one that is looked at, by any processes. What is to be shown of a
call is to be shown after every history. -/

/-- A call, with the memory of the process that makes it. -/
inductive Call where
  /-- `read` -/
  | read (user : ℕ → Byte) (buffer length offset : ℕ)
  /-- `write` -/
  | write (user : ℕ → Byte) (buffer length : ℕ)
  /-- `ioctl` -/
  | ioctl (user : ℕ → Byte) (ioctlNum : IoctlNum) (param : ℕ)

/-- The statics after a call, whoever made it. -/
def Call.apply (s : State) : Call → State
  | read _ _ _ _ => s
  | write user buffer length => { s with message := (deviceWrite s.message user buffer length).1 }
  | ioctl user ioctlNum param => (deviceIoctl s user ioctlNum param).state

/-- The statics after a history of calls. -/
def run (calls : List Call) : State := calls.foldl Call.apply init

/-- Between calls no ioctl is in progress, and the last byte of the message,
which no call writes, is its terminator. -/
structure State.Ok (s : State) : Prop where
  idle : s.alreadyOpen = false
  last : s.message 80 = 0

/-! ## One lemma per loop

Each loop of the source as one function of the memory: what it stores, what it delivers,
how far it counts. The calls are computed from these. -/

theorem writeLoop_eq (user : ℕ → Byte) (buffer length fuel i : ℕ) (message : ℕ → Byte) :
    writeLoop user buffer length fuel i message =
      (Mem.store message i (Mem.load user (buffer + i) (min fuel (length - i))),
        i + min fuel (length - i)) := by
  induction fuel generalizing i message with
  | zero =>
    rw [Nat.zero_min, Mem.load_zero, Mem.store_nil]
    rfl
  | succ fuel ih =>
    rw [writeLoop]
    by_cases hi : i < length
    · have hmin : min (fuel + 1) (length - i) = min fuel (length - (i + 1)) + 1 := by omega
      rw [if_pos hi, ih, hmin, Mem.load_succ, Mem.store_cons, Nat.add_assoc buffer, Nat.add_assoc,
        Nat.add_comm 1]
    · have hmin : min (fuel + 1) (length - i) = 0 := by omega
      rw [if_neg hi, hmin, Mem.load_zero, Mem.store_nil]
      rfl

/-- `device_write` stores the first 80 bytes, and counts them. -/
theorem deviceWrite_eq (message user : ℕ → Byte) (buffer length : ℕ) :
    deviceWrite message user buffer length =
      (Mem.store message 0 (Mem.load user buffer (min 80 length)), min 80 length) := by
  rw [deviceWrite, writeLoop_eq, Nat.sub_zero, Nat.zero_add]
  rfl

/-- `device_read` delivers the string at the offset. -/
theorem deviceRead_eq (message user : ℕ → Byte) (buffer length offset : ℕ) :
    (deviceRead message user buffer length offset).user =
        Mem.store user buffer (Mem.cstr message offset length) ∧
      (deviceRead message user buffer length offset).ret =
        (Mem.cstr message offset length).length := by
  rw [deviceRead]
  split
  case isTrue h0 =>
    have hnil : Mem.cstr message offset length = [] := by
      cases length with
      | zero => rfl
      | succ n => exact if_pos h0
    rw [hnil]
    exact ⟨Mem.store_nil.symm, rfl⟩
  case isFalse => exact ⟨rfl, rfl⟩

/-- With a character in hand and the rest of the string ahead, the loop counts
that rest and its terminator. -/
theorem lengthLoop_eq {user : ℕ → Byte} {param fuel i : ℕ} {ch : Byte} {s : List Byte}
    (hch : ch ≠ 0) (h0 : 0 ∉ s) (hs : Mem.load user (param + i) (s.length + 1) = s ++ [0]) :
    lengthLoop user param fuel i ch = i + min fuel (s.length + 1) := by
  induction fuel generalizing i ch s with
  | zero =>
    rw [Nat.zero_min]
    rfl
  | succ fuel ih =>
    rw [lengthLoop, if_neg hch]
    cases s with
    | nil =>
      have hz : user (param + i) = 0 := by
        rw [List.length_nil, Mem.load_succ] at hs
        exact (List.cons.inj hs).1
      have hmin : min (fuel + 1) ([] : List Byte).length.succ = 1 := Nat.min_eq_right (by simp)
      rw [hz, hmin]
      cases fuel with
      | zero => rfl
      | succ fuel => exact if_pos rfl
    | cons b s =>
      rw [List.length_cons, Mem.load_succ, List.cons_append] at hs
      obtain ⟨hb, hs⟩ := List.cons.inj hs
      have hne : user (param + i) ≠ 0 := by
        rw [hb]
        rintro rfl
        exact h0 List.mem_cons_self
      rw [ih hne (fun h => h0 (List.mem_cons_of_mem b h)) hs, List.length_cons]
      omega

/-! ## Setting and getting

The string goes in with its terminator and comes out with it. The one string that does not
is the empty one: the loop that measures it has no character in hand yet when it meets the
zero, counts nothing, and so nothing is stored. -/

theorem State.Ok.init : Chardev.init.Ok := ⟨rfl, rfl⟩

/-- The last byte survives a write, whatever its length. -/
theorem deviceWrite_last (message user : ℕ → Byte) (buffer length : ℕ) :
    (deviceWrite message user buffer length).1 80 = message 80 := by
  have hle : 0 + (Mem.load user buffer (min 80 length)).length ≤ 80 := by
    rw [Mem.load_length, Nat.zero_add]
    exact Nat.min_le_left 80 length
  rw [deviceWrite_eq]
  exact Mem.store_of_le hle

theorem State.Ok.apply {s : State} (h : s.Ok) (call : Call) : (call.apply s).Ok := by
  obtain ⟨hidle, hlast⟩ := h
  cases call with
  | read user buffer length offset => exact ⟨hidle, hlast⟩
  | write user buffer length => exact ⟨hidle, (deviceWrite_last _ _ _ _).trans hlast⟩
  | ioctl user ioctlNum param =>
    simp only [Call.apply, deviceIoctl, hidle]
    cases ioctlNum with
    | setMsg => exact ⟨rfl, (deviceWrite_last _ _ _ _).trans hlast⟩
    | getMsg | getNthByte | unknown => exact ⟨rfl, hlast⟩

/-- Every history keeps the terminator at the end of the buffer. -/
theorem run_ok (calls : List Call) : (run calls).Ok := by
  have hfold : ∀ s : State, s.Ok → (calls.foldl Call.apply s).Ok := by
    induction calls with
    | nil => exact fun _ h => h
    | cons call calls ih => exact fun s h => ih _ (h.apply call)
  exact hfold _ State.Ok.init

/-- `IOCTL_GET_MSG` delivers the message with a terminator. -/
theorem getMsg_eq {s : State} (h : s.Ok) (user : ℕ → Byte) (param : ℕ) :
    deviceIoctl s user .getMsg param =
      ⟨s, Mem.store user param (Mem.cstr s.message 0 99 ++ [0]), success⟩ := by
  obtain ⟨huser, hret⟩ := deviceRead_eq s.message user param 99 0
  obtain ⟨alreadyOpen, message⟩ := s
  obtain rfl : alreadyOpen = false := h.idle
  simp only [deviceIoctl, huser, hret, Mem.store_append, Mem.store_singleton]
  rfl

/-- `IOCTL_SET_MSG` of a string that is not empty stores it with its
terminator, cut to 80 bytes. -/
theorem setMsg_eq {s : State} (h : s.Ok) {user : ℕ → Byte} {param : ℕ} {l : List Byte}
    (h0 : 0 ∉ l) (hl : Mem.load user param (l.length + 1) = l ++ [0]) (hne : l ≠ []) :
    deviceIoctl s user .setMsg param =
      ⟨⟨false, Mem.store s.message 0 (l.take 80 ++ [0])⟩, user, success⟩ := by
  have hfirst : user param ≠ 0 := by
    obtain ⟨b, l', rfl⟩ := List.exists_cons_of_ne_nil hne
    rw [List.length_cons, Mem.load_succ] at hl
    rw [(List.cons.inj hl).1]
    rintro rfl
    exact h0 List.mem_cons_self
  have hlen : lengthLoop user param bufLen 0 (user param) = min 80 (l.length + 1) := by
    rw [lengthLoop_eq hfirst h0 hl, Nat.zero_add]
  have hstore : (deviceWrite s.message user param (min 80 (l.length + 1))).1 =
      Mem.store s.message 0 (l.take 80 ++ [0]) := by
    rw [deviceWrite_eq, ← Nat.min_assoc, Nat.min_self]
    by_cases hlt : l.length < 80
    · rw [Nat.min_eq_right hlt, hl, List.take_of_length_le (Nat.le_of_lt hlt)]
    · -- the 80 bytes are all of the string; byte 80 is zero as it was
      have hge : 80 ≤ l.length := Nat.le_of_not_lt hlt
      have hload : Mem.load user param 80 = l.take 80 := by
        rw [← Mem.load_take (Nat.le_succ_of_le hge), hl, List.take_append_of_le_length hge]
      have hlen80 : 0 + (l.take 80).length = 80 := by
        rw [Nat.zero_add, List.length_take]
        exact Nat.min_eq_left hge
      have hlast : Mem.store s.message 0 (l.take 80) 80 = 0 :=
        (Mem.store_of_le (Nat.le_of_eq hlen80)).trans h.last
      rw [Nat.min_eq_left (Nat.le_succ_of_le hge), hload, Mem.store_append, hlen80,
        Mem.store_singleton, ← hlast, Function.update_eq_self]
  simp only [deviceIoctl, h.idle, hlen, hstore]
  rfl

/-- `IOCTL_SET_MSG` of the empty string stores nothing. -/
theorem setMsg_nil {s : State} (h : s.Ok) {user : ℕ → Byte} {param : ℕ} (h0 : user param = 0) :
    deviceIoctl s user .setMsg param = ⟨s, user, success⟩ := by
  obtain ⟨alreadyOpen, message⟩ := s
  obtain rfl : alreadyOpen = false := h.idle
  have hlen : lengthLoop user param bufLen 0 (user param) = 0 := by
    rw [h0]
    rfl
  simp only [deviceIoctl, hlen, deviceWrite_eq, Nat.min_zero, Mem.load_zero, Mem.store_nil]
  rfl

/-- `IOCTL_GET_MSG` into any memory succeeds, and delivers exactly `l` and a
terminator. -/
def State.Delivers (s : State) (l : List Byte) : Prop :=
  ∀ (user : ℕ → Byte) (param : ℕ), (deviceIoctl s user .getMsg param).ret = success ∧
    (deviceIoctl s user .getMsg param).user = Mem.store user param (l ++ [0])

/-- The position of the terminator shows in the memory. -/
theorem length_le_of_store_eq {l l' : List Byte}
    (h : Mem.store (fun _ => (1 : Byte)) 0 (l ++ [0]) = Mem.store (fun _ => 1) 0 (l' ++ [0])) :
    l.length ≤ l'.length := by
  by_contra hlt
  have hl : Mem.store (fun _ => (1 : Byte)) 0 (l ++ [0]) (0 + l.length) = 0 := by
    rw [Mem.store_add (by rw [List.length_append]; exact Nat.lt_succ_self _)]
    exact List.getElem_concat_length rfl _
  have hl' : Mem.store (fun _ => (1 : Byte)) 0 (l' ++ [0]) (0 + l.length) = 1 := by
    refine Mem.store_of_le ?_
    rw [List.length_append]
    exact Nat.add_le_add_left (Nat.lt_of_not_le hlt) 0
  rw [h, hl'] at hl
  cases hl

/-- What is delivered is the string in the message. -/
theorem State.Ok.delivers_iff {s : State} (h : s.Ok) {l : List Byte} :
    s.Delivers l ↔ Mem.cstr s.message 0 99 = l := by
  constructor
  · intro hd
    obtain ⟨-, huser⟩ := hd (fun _ => 1) 0
    rw [getMsg_eq h] at huser
    have hlen : (Mem.cstr s.message 0 99).length = l.length :=
      Nat.le_antisymm (length_le_of_store_eq huser) (length_le_of_store_eq huser.symm)
    have hload := congrArg (fun m => Mem.load m 0 (l.length + 1)) huser
    have hl : ∀ l' : List Byte, l'.length = l.length →
        Mem.load (Mem.store (fun _ => (1 : Byte)) 0 (l' ++ [0])) 0 (l.length + 1) = l' ++ [0] := by
      intro l' hl'
      rw [← hl']
      have := Mem.load_store (m := fun _ => (1 : Byte)) (p := 0) (l := l' ++ [0])
      rwa [List.length_append] at this
    exact List.append_cancel_right ((hl _ hlen).symm.trans (hload.trans (hl l rfl)))
  · rintro rfl user param
    rw [getMsg_eq h]
    exact ⟨rfl, rfl⟩

/-- **The round trip, exactly.** After any history, `IOCTL_SET_MSG` with a
string succeeds, and `IOCTL_GET_MSG` then delivers the first 80 bytes of the
string and a terminator, writing nothing else, if and only if the string is not
empty or the message was empty before. -/
theorem setMsg_getMsg_iff (calls : List Call) (user : ℕ → Byte) (param : ℕ) (l : List Byte)
    (h0 : 0 ∉ l) (hl : Mem.load user param (l.length + 1) = l ++ [0]) :
    ((deviceIoctl (run calls) user .setMsg param).ret = success ∧
      (deviceIoctl (run calls) user .setMsg param).state.Delivers (l.take 80)) ↔
        (l ≠ [] ∨ (run calls).message 0 = 0) := by
  have hok := run_ok calls
  by_cases hne : l = []
  · obtain rfl := hne
    have hz : user param = 0 := by
      rw [List.length_nil, Mem.load_succ] at hl
      exact (List.cons.inj hl).1
    rw [setMsg_nil hok hz, hok.delivers_iff, List.take_nil, Mem.cstr]
    constructor
    · rintro ⟨-, hcstr⟩
      split at hcstr
      case isTrue hmsg => exact Or.inr hmsg
      case isFalse => cases hcstr
    · rintro (h | hmsg)
      · exact absurd rfl h
      · exact ⟨rfl, if_pos hmsg⟩
  · rw [setMsg_eq hok h0 hl hne]
    refine ⟨fun _ => Or.inl hne, fun _ => ⟨rfl, ?_⟩⟩
    have hlast : (Mem.store (run calls).message 0 (l.take 80 ++ [0])) 80 = 0 := by
      have := (hok.apply (.ioctl user .setMsg param)).last
      rw [Call.apply, setMsg_eq hok h0 hl hne] at this
      exact this
    refine (State.Ok.delivers_iff ⟨rfl, hlast⟩).mpr ?_
    -- the string and its terminator fit
    have hlt : (l.take 80).length < 99 :=
      Nat.lt_of_le_of_lt (List.length_take_le 80 l) (by decide)
    have hstr : Mem.cstr (Mem.store (run calls).message 0 (l.take 80 ++ [0])) 0 99 =
        l.take 80 :=
      Mem.cstr_store (fun h => h0 (List.mem_of_mem_take h)) hlt
    exact hstr

/-- A process's memory with `"hi"` at address 0 and the empty string at 2. -/
def hi : ℕ → Byte := Mem.store (fun _ => 0) 0 (ascii "hi")

theorem setMsg_getMsg_iff_hi :
    (deviceIoctl (run []) hi .setMsg 0).state.Delivers (ascii "hi") :=
  ((setMsg_getMsg_iff [] hi 0 (ascii "hi") (by decide) (by decide)).mpr
    (Or.inl (by decide))).2

/-- After `"hi"`, the empty string is set and `"hi"` is delivered. -/
theorem setMsg_empty_keeps :
    Mem.load hi 2 1 = [0] ∧
      (deviceIoctl (run [.ioctl hi .setMsg 0]) hi .setMsg 2).ret = success ∧
      ¬ (deviceIoctl (run [.ioctl hi .setMsg 0]) hi .setMsg 2).state.Delivers [] ∧
      (deviceIoctl (run [.ioctl hi .setMsg 0]) hi .setMsg 2).state.Delivers (ascii "hi") := by
  have hok := run_ok [.ioctl hi .setMsg 0]
  have hmsg : Mem.cstr (run [.ioctl hi .setMsg 0]).message 0 99 = ascii "hi" := by decide +kernel
  rw [setMsg_nil hok rfl, hok.delivers_iff, hok.delivers_iff, hmsg]
  exact ⟨rfl, rfl, by decide, rfl⟩

end Chardev

end KernelDrvLearn
