import KernelDrvLearn.Printf
import KernelDrvLearn.Readout
import KernelDrvLearn.Transition

/-!
# The scratch pad of `mybus`

`pad_show` and `pad_store` of `mybus/my_bus.c`, a sysfs attribute of the bus: one
prints the text of `scratch_pad` with a newline after it, the other prints what
sysfs passes into `scratch_pad`.

The size `pad_store` gives `snprintf` is the count of the bytes, with no room
for the terminator, so the last byte is never stored. When it is a newline
that is what the newline of `pad_show` makes good for: the text of the pad can
always be shown and stored back, and a text comes back if and only if it ends
with a newline (`pad_round_trip_iff`).
-/

namespace KernelDrvLearn

namespace MyBus

/-- `PAGE_SIZE`, the size of the page that a show prints into. -/
abbrev pageSize : ℕ := 4096

/-- `sizeof(scratch_pad)`: 256 bytes, its terminator included. -/
abbrev padSize : ℕ := 256

/-- The text of the pad: its bytes up to the first zero. -/
def padText (pad : ℕ → Byte) : List Byte := Mem.cstr pad 0 padSize

/-- `pad_show`: what it puts into the page, and the value returned. -/
def padShow (pad : ℕ → Byte) : List Byte × Int :=
  let text := padText pad ++ ascii "\n"
  (Mem.load (snprintf (fun _ => 0) 0 pageSize text) 0 text.length, text.length)

/-- `pad_store`: the pad, and the value returned. The buffer of sysfs is a page
and a byte for the terminator. -/
def padStore (pad buf : ℕ → Byte) (count : ℕ) : (ℕ → Byte) × Int :=
  let size := if count > padSize then padSize else count
  let text := Mem.cstr buf 0 (pageSize + 1)
  (snprintf pad 0 size text, text.length)

/-- The bus: stores of what is in `buf`. -/
def myBus : Lts (ℕ → Byte) ((ℕ → Byte) × ℕ) where
  init := Mem.store (fun _ => 0) 0 (ascii "Hello, this is scratch pad!\n")
  step := fun pad a => some (padStore pad a.1 a.2).1

variable {pad buf : ℕ → Byte} {s : List Byte}

/-- The buffer has these bytes and a terminator. -/
def Passes (buf : ℕ → Byte) (s : List Byte) : Prop := Mem.load buf 0 (s.length + 1) = s ++ [0]

instance : Decidable (Passes buf s) :=
  inferInstanceAs (Decidable (Mem.load buf 0 (s.length + 1) = s ++ [0]))

/-- The text without its trailing newline, if it has one, as a user means it who wrote it
with `echo`. -/
def chomp (s : List Byte) : List Byte := if s.getLast? = some 0x0a then s.dropLast else s

/-- What `pad_show` outputs, stored, leaves the pad as it is. -/
def StoresBack (pad : ℕ → Byte) : Prop :=
  ∀ buf, Passes buf (padShow pad).1 → (padStore pad buf (padShow pad).1.length).1 = pad

/-! ## The pad has a terminator

The pad starts with a short text in it, and no store writes its last byte other than as a
zero. So the text of the pad always ends in it. -/

/-- **Step lemma.** Its last byte remains zero. -/
theorem padStore_last (h : pad 255 = 0) (buf : ℕ → Byte) (count : ℕ) :
    (padStore pad buf count).1 255 = 0 := by
  have hsize : (if count > padSize then padSize else count) ≤ 255 + 1 := by
    split
    · exact Nat.le_refl _
    · exact Nat.le_of_not_lt ‹_›
  have hlast := snprintf_last (m := pad) (p := 0) (Mem.cstr buf 0 (pageSize + 1))
    (by rwa [Nat.zero_add]) hsize
  rwa [Nat.zero_add] at hlast

/-- **Run lemma.** The last byte is zero in every pad that stores can reach. -/
theorem pad_last (h : myBus.Reach (fun _ _ => True) pad) : pad 255 = 0 := by
  have hinit : myBus.init 255 = 0 := by decide +kernel
  refine h.invariant (I := fun pad => pad 255 = 0) hinit fun pad a pad' hpad _ hs => ?_
  obtain rfl := Option.some.inj hs
  exact padStore_last hpad a.1 a.2

/-- The text of a pad ends in it. -/
theorem exists_padText (h : pad 255 = 0) :
    ∃ n ≤ 255, Mem.EndsAt pad n ∧ padText pad = Mem.load pad 0 n := by
  obtain ⟨n, hn, hends⟩ := Mem.exists_endsAt h
  have hmin : min padSize (n - 0) = n := Nat.min_eq_right (Nat.le_trans hn (by decide))
  exact ⟨n, hn, hends, by rw [padText, hends.cstr_eq (Nat.zero_le n), hmin]⟩

/-! ## Showing and storing

What goes out is the text and a newline. What comes in is a text with its terminator, of
which `snprintf` drops the last byte to make room, so of a text with a trailing newline
the newline is lost, and of any other a byte of the text. -/

/-- All of the text is shown, followed by a newline. -/
theorem padShow_eq (h : pad 255 = 0) : (padShow pad).1 = padText pad ++ ascii "\n" := by
  obtain ⟨k, hk, -, htext⟩ := exists_padText h
  refine load_snprintf ?_
  have hnl : (ascii "\n").length = 1 := rfl
  rw [List.length_append, htext, Mem.load_length, hnl]
  exact Nat.lt_of_le_of_lt (Nat.succ_le_succ hk) (by decide)

/-- What a text that fits leaves in the pad: all but its last byte. -/
theorem padStore_eq (pad : ℕ → Byte) (h0 : 0 ∉ s) (hpos : 0 < s.length) (hlen : s.length ≤ padSize)
    (hbuf : Passes buf s) :
    padStore pad buf s.length = (Mem.store pad 0 (s.dropLast ++ [0]), (s.length : Int)) := by
  have htext : Mem.cstr buf 0 (pageSize + 1) = s := Mem.cstr_eq h0 hbuf
    (Nat.lt_of_le_of_lt hlen (by decide))
  have hsize : (if s.length > padSize then padSize else s.length) = s.length :=
    if_neg (Nat.not_lt.mpr hlen)
  simp only [padStore, htext, hsize]
  rw [snprintf, if_neg (Nat.ne_of_gt hpos), List.dropLast_eq_take]

theorem padText_padStore (pad : ℕ → Byte) (h0 : 0 ∉ s) (hpos : 0 < s.length)
    (hlen : s.length ≤ padSize) (hbuf : Passes buf s) :
    padText (padStore pad buf s.length).1 = s.dropLast := by
  have hlt : s.dropLast.length < padSize := by
    rw [List.length_dropLast]
    exact Nat.lt_of_lt_of_le (Nat.sub_lt hpos Nat.zero_lt_one) hlen
  rw [padStore_eq pad h0 hpos hlen hbuf]
  exact Mem.cstr_store (m := pad) (p := 0) (fun h => h0 (List.dropLast_subset s h)) hlt

/-- **Showing, then storing** leaves the pad as it is: what is lost is the newline that
`pad_show` has added. -/
theorem storesBack (h : pad 255 = 0) : StoresBack pad := by
  intro buf hbuf
  obtain ⟨n, hn, hends, htext⟩ := exists_padText h
  have hnl : (ascii "\n").length = 1 := rfl
  have hlen : (padText pad ++ ascii "\n").length = n + 1 := by
    rw [List.length_append, htext, Mem.load_length, hnl]
  have h0 : 0 ∉ padText pad ++ ascii "\n" := by
    rw [List.mem_append]
    rintro (h0 | h0)
    · exact Mem.cstr_ne_zero h0 rfl
    · exact absurd h0 (by decide)
  have hle : (padText pad ++ ascii "\n").length ≤ padSize := by
    rw [hlen]
    exact Nat.succ_le_succ hn
  rw [padShow_eq h] at hbuf ⊢
  rw [padStore_eq pad h0 (by omega) hle hbuf]
  -- without the newline it is the text again, with its terminator
  have hsame : (padText pad ++ ascii "\n").dropLast ++ [0] = Mem.load pad 0 (n + 1) := by
    have hzero : Mem.load pad (0 + n) 1 = [0] := by
      rw [Nat.zero_add, Mem.load_succ, hends.zero, Mem.load_zero]
    rw [Mem.load_add, hzero, htext]
    exact congrArg (· ++ [0]) List.dropLast_concat
  rw [hsame, Mem.store_load]

/-- Without its last byte, a text is what `chomp` makes of it if and only if that
byte is a newline. -/
theorem dropLast_eq_chomp_iff (hpos : 0 < s.length) :
    s.dropLast = chomp s ↔ s.getLast? = some 0x0a := by
  rw [chomp]
  split
  case isTrue h => exact iff_of_true rfl h
  case isFalse h =>
    refine iff_of_false (fun heq => ?_) h
    have hlen := congrArg List.length heq
    rw [List.length_dropLast] at hlen
    omega

/-- **Storing and showing, exactly.** For every reachable pad and every text of 1
to 255 bytes without a zero: the count is returned, the text is shown without
its trailing newline and followed by one, and what the pad shows can be stored
back, if and only if the text ends with a newline.

`snprintf` with the count as its size keeps the last byte for the terminator. What user
space writes mostly ends with a newline, and that is the byte which goes. -/
theorem pad_round_trip_iff (h : myBus.Reach (fun _ _ => True) pad) (h0 : 0 ∉ s)
    (hpos : 0 < s.length) (hlen : s.length ≤ 255) (hbuf : Passes buf s) :
    ((padStore pad buf s.length).2 = s.length ∧
      (padShow (padStore pad buf s.length).1).1 = chomp s ++ ascii "\n" ∧
      StoresBack pad) ↔ s.getLast? = some 0x0a := by
  have hlast := pad_last h
  have hlen' : s.length ≤ padSize := Nat.le_trans hlen (by decide)
  have hret : (padStore pad buf s.length).2 = s.length := by
    rw [padStore_eq pad h0 hpos hlen' hbuf]
  rw [padShow_eq (padStore_last hlast buf s.length), padText_padStore pad h0 hpos hlen' hbuf,
    List.append_left_inj, dropLast_eq_chomp_iff hpos, and_iff_right hret,
    and_iff_left (storesBack hlast)]

/-! ## Texts with and without a newline

The usual way to write to the file, and the way of a program that sends no newline. -/

/-- The buffer sysfs passes for this text. -/
def passing (s : List Byte) : ℕ → Byte := Mem.store (fun _ => 0) 0 s

theorem pad_round_trip_iff_newline :
    (padShow (padStore myBus.init (passing (ascii "ok\n")) 3).1).1 = ascii "ok\n" := by
  have hbuf : Passes (passing (ascii "ok\n")) (ascii "ok\n") := by decide
  exact ((pad_round_trip_iff Lts.Reach.init (by decide) (by decide) (by decide) hbuf).mpr
    (by decide)).2.1

/-- `"ok"`, stored without a newline, comes back as `"o"`. -/
theorem pad_loses_byte :
    Passes (passing (ascii "ok")) (ascii "ok") ∧
      (padStore myBus.init (passing (ascii "ok")) 2).2 = 2 ∧
      (padShow (padStore myBus.init (passing (ascii "ok")) 2).1).1 = ascii "o\n" ∧
      chomp (ascii "ok") ++ ascii "\n" = ascii "ok\n" := by
  refine ⟨by decide, by decide +kernel, by decide +kernel, by decide⟩

end MyBus

end KernelDrvLearn
