import KernelDrvLearn.CharFile

/-!
# The message of `char_dev`, byte by byte

`ioctl_get_nth_byte` of `chardev/ioctl/usrspace/chardrv_ioctl_usersapce.c`, which
asks for one byte of the message after another until it gets the terminator. The
terminator is always found (`ioctl_get_nth_byte_terminates`).

`IOCTL_GET_NTH_BYTE` returns the byte as a `long`. Here `char` is assumed to be
signed, as it is on x86 without `-funsigned-char` (kernels from 6.2 on are built with
it): a byte from 128 on comes out as a negative number, which `ioctl` takes for an
error. And the driver compares the index with nothing. So the program prints what
`IOCTL_GET_MSG` delivers, and the driver stays in the message, if and only if the
message is ASCII and the index is one of its own (`nth_byte_iff`).
-/

namespace KernelDrvLearn

namespace Chardev

/-! ## The program

`ioctl_get_nth_byte` with the C library's `ioctl` between it and the driver. The library
takes small negative values for errors, and the driver returns a byte as a number, so a
byte with its high bit set is mistaken for one. -/

/-- `ioctl` of the C library: the values from -4095 to -1 are errors, and -1 is
what it returns for them. -/
def libcIoctl (ret : Int) : Int := if -4095 ≤ ret ∧ ret < 0 then -1 else ret

/-- What the program leaves: its output and its exit code. -/
structure Program where
  /-- the value returned -/
  ret : Int
  /-- the bytes printed -/
  out : List Byte
  deriving DecidableEq

/-- The text printed on an error, `i` being past the byte asked for. -/
def failedText (i : ℕ) : List Byte :=
  ascii "\n ioctl_get_nth_byte failed at the " ++ fmtD i ++ ascii "'th byte:\n"

/-- The loop of `ioctl_get_nth_byte`, from `i` on and with `out` printed. -/
def nthByteLoop (s : State) : ℕ → ℕ → List Byte → Option Program
  | 0, _, _ => none
  | fuel + 1, i, out =>
    let res := deviceIoctl s (fun _ => 0) .getNthByte i
    let c := libcIoctl res.ret
    let i := i + 1
    if c < 0 then some ⟨c, out ++ failedText i⟩
    else
      let out := out ++ [BitVec.ofInt 8 c]
      if c ≠ 0 then nthByteLoop res.state fuel i out else some ⟨0, out⟩

/-- `ioctl_get_nth_byte`, cut off after `fuel` turns of its loop. -/
def ioctlGetNthByte (s : State) (fuel : ℕ) : Option Program :=
  nthByteLoop s fuel 0 (ascii "get_nth_byte message:")

/-! ## Agreement

Two ways of asking for the message ought to agree: byte by byte until the terminator, and
all at once with `IOCTL_GET_MSG`. And a single byte ought to be a byte of the message, or
else an error. -/

/-- The program ends with 0, and has printed what `IOCTL_GET_MSG` delivers. -/
def State.Agrees (s : State) : Prop :=
  ∃ l, s.Delivers l ∧
    ∃ fuel, ioctlGetNthByte s fuel = some ⟨0, ascii "get_nth_byte message:" ++ (l ++ [0])⟩

/-- `IOCTL_GET_NTH_BYTE` of `n` returns the same whatever is behind the message,
and an error if `n` is. -/
def State.Bounded (s : State) (n : ℕ) : Prop :=
  ∀ behind behind' user : ℕ → Byte,
    let ret := (deviceIoctl { s with message := image s behind } user .getNthByte n).ret
    ret = (deviceIoctl { s with message := image s behind' } user .getNthByte n).ret ∧
      (80 < n → ret < 0)

/-- The message `IOCTL_SET_MSG` leaves when it is passed `l`. -/
def stored (s : State) (l : List Byte) : List Byte :=
  if l = [] then Mem.cstr s.message 0 messageSize else l.take 80

/-! ## One turn of the loop

A turn has three outcomes, by the byte it gets: it prints it and goes on, prints it and
ends at the terminator, or ends with an error. -/

theorem getNthByte_eq {s : State} (h : s.Ok) (user : ℕ → Byte) (n : ℕ) :
    deviceIoctl s user .getNthByte n = ⟨s, user, (s.message n).toInt⟩ := by
  obtain ⟨alreadyOpen, message⟩ := s
  obtain rfl : alreadyOpen = false := h.idle
  rfl

/-- An ASCII character comes through; any other byte is an error. -/
theorem libcIoctl_toInt : ∀ b : Byte,
    libcIoctl b.toInt = if b.toNat < 128 then (b.toNat : Int) else -1 := by
  decide +kernel

theorem ofInt_toNat (b : Byte) : BitVec.ofInt 8 (b.toNat : Int) = b := by
  rw [BitVec.ofInt_natCast, BitVec.ofNat_toNat, BitVec.setWidth_eq]

/-- A turn at an ASCII character that is not the terminator. -/
theorem nthByteLoop_succ {s : State} (h : s.Ok) {i : ℕ} (hne : s.message i ≠ 0)
    (hlt : (s.message i).toNat < 128) (fuel : ℕ) (out : List Byte) :
    nthByteLoop s (fuel + 1) i out = nthByteLoop s fuel (i + 1) (out ++ [s.message i]) := by
  have hpos : ¬ ((s.message i).toNat : Int) < 0 := Int.not_lt.mpr (Int.natCast_nonneg _)
  have hnz : ((s.message i).toNat : Int) ≠ 0 := by
    intro hz
    exact hne (BitVec.eq_of_toNat_eq (Int.ofNat.inj hz))
  simp only [nthByteLoop, getNthByte_eq h, libcIoctl_toInt, if_pos hlt, if_neg hpos, if_pos hnz,
    ofInt_toNat]

/-- The turn at the terminator, with which the program returns 0. -/
theorem nthByteLoop_zero {s : State} (h : s.Ok) {i : ℕ} (hz : s.message i = 0) (fuel : ℕ)
    (out : List Byte) : nthByteLoop s (fuel + 1) i out = some ⟨0, out ++ [0]⟩ := by
  simp only [nthByteLoop, getNthByte_eq h, hz]
  rfl

/-- A turn at a byte that is no ASCII character. -/
theorem nthByteLoop_error {s : State} (h : s.Ok) {i : ℕ} (hge : ¬ (s.message i).toNat < 128)
    (fuel : ℕ) (out : List Byte) :
    nthByteLoop s (fuel + 1) i out = some ⟨-1, out ++ failedText (i + 1)⟩ := by
  simp only [nthByteLoop, getNthByte_eq h, libcIoctl_toInt, if_neg hge]
  rfl

/-! ## The loop

By induction on the rest of the message. That the loop returns at all needs only the
terminator, which every history keeps. -/

variable {s : State} {n : ℕ}

/-- Over ASCII characters the loop prints the rest of the message and its
terminator. -/
theorem nthByteLoop_ascii (h : s.Ok) (hends : Mem.EndsAt s.message n) (k : ℕ) :
    ∀ {i : ℕ}, i + k = n → (∀ j < n, (s.message j).toNat < 128) → ∀ out : List Byte,
      nthByteLoop s (k + 1) i out = some ⟨0, out ++ (Mem.load s.message i k ++ [0])⟩ := by
  induction k with
  | zero =>
    rintro i rfl _ out
    exact nthByteLoop_zero h hends.zero 0 out
  | succ k ih =>
    intro i hi hascii out
    have hlt : i < n := by omega
    rw [nthByteLoop_succ h (hends.nonzero i hlt) (hascii i hlt), ih (by omega) hascii,
      Mem.load_succ, List.append_assoc]
    rfl

/-- If the loop ends with 0, there were only ASCII characters. -/
theorem ascii_of_nthByteLoop (h : s.Ok) (hends : Mem.EndsAt s.message n) {fuel : ℕ} :
    ∀ {i : ℕ} {out out' : List Byte}, nthByteLoop s fuel i out = some ⟨0, out'⟩ →
      ∀ j, i ≤ j → j < n → (s.message j).toNat < 128 := by
  induction fuel with
  | zero =>
    intro i out out' hloop
    cases hloop
  | succ fuel ih =>
    intro i out out' hloop j hij hj
    have hne : s.message i ≠ 0 := hends.nonzero i (Nat.lt_of_le_of_lt hij hj)
    by_cases hlt : (s.message i).toNat < 128
    · rw [nthByteLoop_succ h hne hlt] at hloop
      rcases Nat.lt_or_eq_of_le hij with hij | rfl
      · exact ih hloop j hij hj
      · exact hlt
    · rw [nthByteLoop_error h hlt] at hloop
      cases hloop

/-- The loop ends, at the terminator or before. -/
theorem nthByteLoop_isSome (h : s.Ok) (hends : Mem.EndsAt s.message n) (k : ℕ) :
    ∀ {i : ℕ}, i + k = n → ∀ out : List Byte, (nthByteLoop s (k + 1) i out).isSome := by
  induction k with
  | zero =>
    rintro i rfl out
    exact Option.isSome_of_mem (nthByteLoop_zero h hends.zero 0 out)
  | succ k ih =>
    intro i hi out
    by_cases hlt : (s.message i).toNat < 128
    · rw [nthByteLoop_succ h (hends.nonzero i (by omega)) hlt]
      exact ih (by omega) _
    · rw [nthByteLoop_error h hlt]
      rfl

/-- **Termination.** After any history `ioctl_get_nth_byte` returns. -/
theorem ioctl_get_nth_byte_terminates (calls : List Call) :
    ∃ fuel, (ioctlGetNthByte (run calls) fuel).isSome := by
  obtain ⟨n, -, hends⟩ := Mem.exists_endsAt (run_ok calls).last
  exact ⟨n + 1, nthByteLoop_isSome (run_ok calls) hends n (Nat.zero_add n) _⟩

/-! ## When they agree

The program gets to the end exactly over ASCII characters, and the driver stays in the
message exactly for an index within it, which it does not check. -/

/-- What `IOCTL_GET_MSG` delivers of a message that ends at `n`. -/
theorem delivers_load_iff (h : s.Ok) (hn : n ≤ 80) (hends : Mem.EndsAt s.message n)
    {l : List Byte} : s.Delivers l ↔ l = Mem.load s.message 0 n := by
  rw [h.delivers_iff, hends.cstr_eq (Nat.zero_le n), Nat.sub_zero,
    Nat.min_eq_right (Nat.le_trans hn (by decide : 80 ≤ 99))]
  exact eq_comm

/-- The program agrees with `IOCTL_GET_MSG` if and only if the message is ASCII. -/
theorem agrees_iff (h : s.Ok) (hn : n ≤ 80) (hends : Mem.EndsAt s.message n) :
    s.Agrees ↔ ∀ j < n, (s.message j).toNat < 128 := by
  constructor
  · rintro ⟨l, -, fuel, hloop⟩ j hj
    exact ascii_of_nthByteLoop h hends hloop j (Nat.zero_le j) hj
  · intro hascii
    exact ⟨_, (delivers_load_iff h hn hends).mpr rfl, n + 1,
      nthByteLoop_ascii h hends n (Nat.zero_add n) hascii _⟩

/-- The driver stays in the message if and only if the index does. -/
theorem bounded_iff (h : s.Ok) : s.Bounded n ↔ n ≤ 80 := by
  have himage : ∀ behind : ℕ → Byte, State.Ok { s with message := image s behind } :=
    fun behind => ⟨h.idle, image_last h behind⟩
  constructor
  · intro hbounded
    by_contra hgt
    have hout : ¬ n < messageSize := fun hlt => hgt (Nat.le_of_lt_succ hlt)
    -- 0 and 1 behind the message are told apart
    have hsame := (hbounded (fun _ => 0) (fun _ => 1) (fun _ => 0)).1
    simp only [getNthByte_eq (himage _), image, if_neg hout] at hsame
    exact absurd hsame (by decide)
  · intro hle behind behind' user
    have hin : n < messageSize := Nat.lt_succ_of_le hle
    simp only [getNthByte_eq (himage _), image, if_pos hin]
    exact ⟨trivial, fun hgt => absurd hle (Nat.not_le_of_lt hgt)⟩

/-- What `IOCTL_SET_MSG` leaves is the message that was passed, cut to 80 bytes. -/
theorem stored_eq (h : s.Ok) {user : ℕ → Byte} {param : ℕ} {l : List Byte} (h0 : 0 ∉ l)
    (hl : Mem.load user param (l.length + 1) = l ++ [0]) :
    let t := (deviceIoctl s user .setMsg param).state
    t.Ok ∧ ∃ n ≤ 80, Mem.EndsAt t.message n ∧ Mem.load t.message 0 n = stored s l := by
  by_cases hne : l = []
  · subst hne
    have hz : user param = 0 := by
      rw [List.length_nil, Mem.load_succ] at hl
      exact (List.cons.inj hl).1
    rw [setMsg_nil h hz]
    obtain ⟨n, hn, hends⟩ := Mem.exists_endsAt h.last
    refine ⟨h, n, hn, hends, ?_⟩
    rw [stored, if_pos rfl, hends.cstr_eq (Nat.zero_le n), Nat.sub_zero,
      Nat.min_eq_right (Nat.le_succ_of_le hn)]
  · have hok := h.apply (.ioctl user .setMsg param)
    rw [Call.apply] at hok
    rw [setMsg_eq h h0 hl hne] at hok ⊢
    have h0' : 0 ∉ l.take 80 := fun hmem => h0 (List.mem_of_mem_take hmem)
    refine ⟨hok, (l.take 80).length, List.length_take_le 80 l, Mem.endsAt_store h0', ?_⟩
    rw [stored, if_neg hne]
    exact Mem.load_store_append (p := 0) (l.take 80) [0]

/-- **Byte by byte, exactly.** After any history and an `IOCTL_SET_MSG`,
`ioctl_get_nth_byte` prints what `IOCTL_GET_MSG` delivers and returns 0, and
`IOCTL_GET_NTH_BYTE` of `n` stays in the message or fails, if and only if the
message stored is ASCII and `n` is at most 80. -/
theorem nth_byte_iff (calls : List Call) (user : ℕ → Byte) (param : ℕ) (l : List Byte) (n : ℕ)
    (h0 : 0 ∉ l) (hl : Mem.load user param (l.length + 1) = l ++ [0]) :
    let s := (deviceIoctl (run calls) user .setMsg param).state
    (s.Agrees ∧ s.Bounded n) ↔ (∀ b ∈ stored (run calls) l, b.toNat < 128) ∧ n ≤ 80 := by
  obtain ⟨hok, k, hk, hends, hload⟩ := stored_eq (run_ok calls) h0 hl
  dsimp only
  rw [agrees_iff hok hk hends, bounded_iff hok, ← hload]
  refine and_congr_left fun _ => ⟨fun hascii b hb => ?_, fun hascii j hj => ?_⟩
  · obtain ⟨j, hj, rfl⟩ := List.mem_map.mp hb
    rw [Nat.zero_add]
    exact hascii j (List.mem_range.mp hj)
  · refine hascii _ (List.mem_map.mpr ⟨j, List.mem_range.mpr hj, ?_⟩)
    rw [Nat.zero_add]

theorem nth_byte_iff_hi :
    let s := (deviceIoctl (run []) hi .setMsg 0).state
    s.Agrees ∧ s.Bounded 1 :=
  (nth_byte_iff [] hi 0 (ascii "hi") 1 (by decide) (by decide)).mpr
    ⟨by decide +kernel, by decide⟩

/-- `"é"`, in Latin-1: one byte with its high bit set, and the terminator. -/
def accent : ℕ → Byte := Mem.store (fun _ => 0) 0 [0xe9]

/-- The program fails at the first byte of `"é"`; and byte 81 is not the
message's. -/
theorem accent_disagrees :
    let s := (deviceIoctl (run []) accent .setMsg 0).state
    s.Delivers [0xe9] ∧
      ioctlGetNthByte s 1 = some ⟨-1, ascii "get_nth_byte message:" ++ failedText 1⟩ ∧
      ¬ s.Agrees ∧ ¬ s.Bounded 81 := by
  intro s
  have hok : s.Ok := (run_ok []).apply (.ioctl accent .setMsg 0)
  have hends : Mem.EndsAt s.message 1 := ⟨by decide +kernel, by decide +kernel⟩
  refine ⟨(delivers_load_iff hok (by decide) hends).mpr (by decide +kernel), by decide +kernel,
    fun hagrees => ?_, fun hbounded => ?_⟩
  · exact absurd ((agrees_iff hok (by decide) hends).mp hagrees 0 (by decide)) (by decide +kernel)
  · exact absurd ((bounded_iff hok).mp hbounded) (by decide)

end Chardev

end KernelDrvLearn
