import KernelDrvLearn.Charioctl
import KernelDrvLearn.Readout

/-!
# Reading and writing `char_dev`

`device_read` and `device_write` of `chardev/ioctl/charioctl.c`, in any state a
history of calls leaves. `message[80]` is always zero, so every message ends in
the buffer; but a shorter message leaves what was behind it.

A read compares the offset with nothing, so from behind the message it delivers
old bytes, or what is behind the buffer (`device_read_exact_iff`). A write stores
no terminator, as `IOCTL_SET_MSG` does, so what it writes runs on into the old
message (`device_write_exact_iff`).
-/

namespace KernelDrvLearn

namespace Chardev

/-- The size of `message`: `BUF_LEN`, and one byte for the terminator. -/
abbrev messageSize : ℕ := bufLen + 1

/-- Memory from `message` on: the message, and other things behind it. -/
def image (s : State) (behind : ℕ → Byte) (i : ℕ) : Byte :=
  if i < messageSize then s.message i else behind i

/-- The indices of `message` at which `device_read` looks. -/
def deviceReadTouched (message : ℕ → Byte) (length offset : ℕ) : List ℕ :=
  if message offset = 0 then [offset] else offset :: Mem.scan message offset length

/-- The read delivers and counts the bytes from the offset on of a message of
`n` bytes, at most `length` of them, and looks at no index above 80. -/
structure ReadExact (message : ℕ → Byte) (n length offset : ℕ) : Prop where
  user : ∀ (user : ℕ → Byte) (buffer : ℕ), (deviceRead message user buffer length offset).user =
    Mem.store user buffer (Mem.load message offset (min length (n - offset)))
  ret : ∀ (user : ℕ → Byte) (buffer : ℕ),
    (deviceRead message user buffer length offset).ret = min length (n - offset)
  touched : ∀ i ∈ deviceReadTouched message length offset, i ≤ 80

/-- The write of `b` counts its first 80 bytes, and they are what any large read
from the start and `IOCTL_GET_MSG` then deliver. -/
structure WriteExact (s : State) (user : ℕ → Byte) (buffer : ℕ) (b : List Byte) : Prop where
  ret : (deviceWrite s.message user buffer b.length).2 = min b.length 80
  read : ∀ (user' : ℕ → Byte) (buffer' length : ℕ), 80 ≤ length →
    let out := deviceRead ((Call.write user buffer b.length).apply s).message user' buffer' length 0
    out.user = Mem.store user' buffer' (b.take 80) ∧ out.ret = (b.take 80).length
  getMsg : ((Call.write user buffer b.length).apply s).Delivers (b.take 80)

/-! ## Reads

`device_read` is an instance of the general read of a string at an offset, on the memory
from `message` on. What lies behind the buffer is part of that memory, so that a read that
goes there can be told from one that does not. -/

/-- `device_read` reads the message out of memory, in the sense of the library. -/
theorem deviceRead_readout (message user : ℕ → Byte) (buffer length offset : ℕ) :
    deviceRead message user buffer length offset =
      ⟨Mem.store user buffer (Mem.readout message length offset).out,
        (Mem.readout message length offset).offset, (Mem.readout message length offset).ret⟩ := by
  rw [deviceRead, Mem.readout]
  split
  · rw [Mem.store_nil]
  · rfl

theorem deviceReadTouched_readout (message : ℕ → Byte) (length offset : ℕ) :
    deviceReadTouched message length offset = (Mem.readout message length offset).touched := by
  rw [deviceReadTouched, Mem.readout]
  split <;> rfl

/-- The terminator is in the buffer. -/
theorem image_last {s : State} (h : s.Ok) (behind : ℕ → Byte) : image s behind 80 = 0 := by
  rw [image, if_pos (by decide)]
  exact h.last

/-- An exact read, as one of the library. -/
theorem readExact_iff {message : ℕ → Byte} {n length offset : ℕ} :
    ReadExact message n length offset ↔
      (Mem.readout message length offset).Exact message n messageSize length offset := by
  constructor
  · rintro ⟨huser, hret, htouched⟩
    have hret' : (Mem.readout message length offset).ret = min length (n - offset) := by
      have := hret (fun _ => 0) 0
      rwa [deviceRead_readout] at this
    have hlen := hret'
    rw [Mem.readout_ret] at hlen
    refine ⟨?_, hret', fun i hi => ?_⟩
    · -- the bytes delivered show in the user's memory
      have hstore := huser (fun _ => 0) 0
      rw [deviceRead_readout] at hstore
      have hload := congrArg (fun m => Mem.load m 0 (min length (n - offset))) hstore
      rw [← hlen, Mem.load_store, hlen] at hload
      refine hload.trans ?_
      have := Mem.load_store (m := fun _ => (0 : Byte)) (p := 0)
        (l := Mem.load message offset (min length (n - offset)))
      rwa [Mem.load_length] at this
    · rw [← deviceReadTouched_readout] at hi
      exact Nat.lt_succ_of_le (htouched i hi)
  · rintro ⟨hout, hret, htouched⟩
    refine ⟨fun user buffer => ?_, fun user buffer => ?_, fun i hi => ?_⟩
    · rw [deviceRead_readout, hout]
    · rw [deviceRead_readout]
      exact hret
    · rw [deviceReadTouched_readout] at hi
      exact Nat.le_of_lt_succ (htouched i hi)

/-- An exact read does not depend on what is behind `message`. -/
theorem ReadExact.behind {s : State} {b b' : ℕ → Byte} {n length offset : ℕ}
    (h : ReadExact (image s b) n length offset) (user : ℕ → Byte) (buffer : ℕ) :
    deviceRead (image s b') user buffer length offset =
      deviceRead (image s b) user buffer length offset := by
  have hsame : Mem.readout (image s b') length offset = Mem.readout (image s b) length offset := by
    refine Mem.readout_congr fun i hi => ?_
    rw [← deviceReadTouched_readout] at hi
    have hin : i < messageSize := Nat.lt_succ_of_le (h.touched i hi)
    rw [image, image, if_pos hin, if_pos hin]
  rw [deviceRead_readout, deviceRead_readout, hsame]

/-- **Reads, exactly.** After any history, whatever is behind `message`, the
message ends at some `n` in the buffer, and a read delivers exactly its bytes
from the offset on, and stays in the buffer, if and only if the offset is in
the buffer, and within the message, or at a zero, or nothing is asked for.

The loop ends at a zero, and compares the offset with nothing. An offset inside the
message is safe because the message has an end in the buffer; one behind it is if the
reader meets a zero at once. -/
theorem device_read_exact_iff (calls : List Call) (behind : ℕ → Byte) :
    ∃ n ≤ 80, Mem.EndsAt (image (run calls) behind) n ∧ ∀ length offset : ℕ,
      ReadExact (image (run calls) behind) n length offset ↔
        offset ≤ 80 ∧ (offset ≤ n ∨ length = 0 ∨ image (run calls) behind offset = 0) := by
  obtain ⟨n, hn, hends⟩ := Mem.exists_endsAt (image_last (run_ok calls) behind)
  refine ⟨n, hn, hends, fun length offset => ?_⟩
  rw [readExact_iff, Mem.Readout.exact_iff hends (Nat.lt_succ_of_le hn)]
  exact and_congr_left fun _ => Nat.lt_succ_iff

/-- `"hello"` is set, and then `"hi"`, which leaves the end of the first behind it. -/
def shortened : List Call :=
  [.ioctl (Mem.store (fun _ => 0) 0 (ascii "hello")) .setMsg 0, .ioctl hi .setMsg 0]

/-- A read at 3 delivers the end of `"hello"`, and one at 81 looks behind the
buffer. -/
theorem shortened_stale :
    Mem.EndsAt (image (run shortened) fun _ => 0) 2 ∧
      ¬ ReadExact (image (run shortened) fun _ => 0) 2 80 3 ∧
      (deviceRead (image (run shortened) fun _ => 0) (fun _ => 0) 0 80 3).ret = 2 ∧
      81 ∈ deviceReadTouched (image (run shortened) fun _ => 0) 80 81 := by
  have hends : Mem.EndsAt (image (run shortened) fun _ => 0) 2 :=
    ⟨by decide +kernel, by decide +kernel⟩
  have hret : (deviceRead (image (run shortened) fun _ => 0) (fun _ => 0) 0 80 3).ret = 2 := by
    decide +kernel
  refine ⟨hends, fun hexact => ?_, hret, by decide +kernel⟩
  have := hexact.ret (fun _ => 0) 0
  rw [hret] at this
  exact absurd this (by decide)

/-! ## Writes

`device_write` stores no terminator. What ends the new message is therefore a zero that
was there before, at the right place, or the one at the end of the buffer. -/

/-- What a write leaves behind the message is what was there. -/
theorem message_write (s : State) {user : ℕ → Byte} {buffer : ℕ} {b : List Byte}
    (hb : Mem.load user buffer b.length = b) :
    ((Call.write user buffer b.length).apply s).message = Mem.store s.message 0 (b.take 80) := by
  have hload : Mem.load user buffer (min 80 b.length) = b.take 80 := by
    rw [← Mem.load_take (Nat.min_le_right 80 b.length), hb, ← List.take_eq_take_min]
  rw [Call.apply, deviceWrite_eq, hload]

/-- The byte behind the first 80 of the bytes written. -/
theorem behind_iff {s : State} (h : s.Ok) (b : List Byte) :
    s.message (0 + (b.take 80).length) = 0 ↔ 80 ≤ b.length ∨ s.message b.length = 0 := by
  rw [Nat.zero_add]
  by_cases hlong : 80 ≤ b.length
  · have hlen : (b.take 80).length = 80 := by
      rw [List.length_take]
      exact Nat.min_eq_left hlong
    rw [hlen]
    exact ⟨fun _ => Or.inl hlong, fun _ => h.last⟩
  · rw [List.take_of_length_le (Nat.le_of_not_le hlong)]
    exact ⟨Or.inr, fun hz => hz.resolve_left hlong⟩

/-- A write is exact if and only if what it leaves as the message is what it
wrote. -/
theorem writeExact_iff {s : State} (h : s.Ok) (user : ℕ → Byte) (buffer : ℕ) (b : List Byte) :
    WriteExact s user buffer b ↔
      Mem.cstr ((Call.write user buffer b.length).apply s).message 0 99 = b.take 80 := by
  have hok := h.apply (.write user buffer b.length)
  constructor
  · exact fun hexact => hok.delivers_iff.mp hexact.getMsg
  · intro hcstr
    refine ⟨?_, fun user' buffer' length hlength => ?_, hok.delivers_iff.mpr hcstr⟩
    · rw [deviceWrite_eq]
      exact Nat.min_comm _ _
    · have hle : (b.take 80).length ≤ 80 := List.length_take_le 80 b
      -- a larger buffer makes no difference
      have hread : Mem.cstr ((Call.write user buffer b.length).apply s).message 0 length =
          b.take 80 := by
        rw [← hcstr]
        refine Mem.cstr_of_length_le ?_ ?_ <;> rw [hcstr]
        · exact Nat.lt_of_le_of_lt hle (by decide)
        · exact Nat.le_trans hle hlength
      obtain ⟨huser, hret⟩ := deviceRead_eq
        ((Call.write user buffer b.length).apply s).message user' buffer' length 0
      rw [hread] at huser hret
      exact ⟨huser, hret⟩

/-- **Writes, exactly.** After any history, a write of bytes other than zero
counts the first 80, and from then on a large read from the start and
`IOCTL_GET_MSG` deliver these, with nothing of an older message behind them, if
and only if there are 80 of them, or the byte behind them was zero already. -/
theorem device_write_exact_iff (calls : List Call) (user : ℕ → Byte) (buffer : ℕ)
    (b : List Byte) (h0 : 0 ∉ b) (hb : Mem.load user buffer b.length = b) :
    WriteExact (run calls) user buffer b ↔
      80 ≤ b.length ∨ (run calls).message b.length = 0 := by
  have h0' : 0 ∉ b.take 80 := fun h => h0 (List.mem_of_mem_take h)
  have hlt : (b.take 80).length < 99 := Nat.lt_of_le_of_lt (List.length_take_le 80 b) (by decide)
  rw [writeExact_iff (run_ok calls), message_write (run calls) hb, Mem.cstr_store_iff h0' hlt,
    behind_iff (run_ok calls)]

theorem device_write_exact_iff_hi : WriteExact (run []) hi 0 (ascii "hi") :=
  (device_write_exact_iff [] hi 0 (ascii "hi") (by decide) (by decide)).mpr (Or.inr rfl)

/-- `"hello"` is written over whatever was there. -/
def hello : List Call := [.write (Mem.store (fun _ => 0) 0 (ascii "hello")) 0 5]

/-- Over `"hello"` a write of `"hi"` makes `"hillo"`. -/
theorem hello_hi :
    ¬ WriteExact (run hello) hi 0 (ascii "hi") ∧
      ((Call.write hi 0 2).apply (run hello)).Delivers (ascii "hillo") := by
  have hcstr : Mem.cstr ((Call.write hi 0 2).apply (run hello)).message 0 99 = ascii "hillo" := by
    decide +kernel
  have hdelivers := (((run_ok hello).apply (.write hi 0 2)).delivers_iff).mpr hcstr
  refine ⟨fun hexact => ?_, hdelivers⟩
  have hhi := ((run_ok hello).apply (.write hi 0 2)).delivers_iff.mp hexact.getMsg
  rw [hcstr] at hhi
  exact absurd hhi (by decide)

end Chardev

end KernelDrvLearn
