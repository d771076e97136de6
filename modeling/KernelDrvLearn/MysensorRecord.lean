import KernelDrvLearn.MysensorRead
import KernelDrvLearn.Strtox

/-!
# The records of the sensor

What `rb_push` and `mysensor_read` of `practice/mysensor/mysensor.c` print of a
value and the time it was pushed. At its longest the timestamp has 31 bytes for
a slot of 32, and the record 62 for an `output` of 64, so nothing is cut
anywhere between the push and the reader. `decodeRecord` takes a record apart:
no two samples have the same one (`record_encoding`).
-/

namespace KernelDrvLearn

namespace Mysensor

namespace Read

/-! ## Reading a record

A reader of its own, made to see that nothing is lost: it takes the numbers out of a
record and needs only to know its format. That it gets back what was printed shows that
different samples have different records. -/

/-- A decimal number at the front, and what comes after it. -/
def readInt (s : List Byte) : Int × List Byte :=
  if s.head? = some 0x2d then
    let parsed := parseInteger 10 0 s.tail
    (-(parsed.1 : Int), parsed.2)
  else
    let parsed := parseInteger 10 0 s
    (parsed.1, parsed.2)

/-- The value and the time in a record: three numbers, with `"Value: "`,
`", Timestamp: "` and `"."` before them. -/
def decodeRecord (s : List Byte) : BitVec 32 × Timespec64 :=
  let value := readInt (s.drop 7)
  let sec := readInt (value.2.drop 13)
  let nsec := readInt (sec.2.drop 1)
  (BitVec.ofInt 32 value.1, ⟨BitVec.ofInt 64 sec.1, BitVec.ofInt 64 nsec.1⟩)

/-- Zeros in front do not count. The nanoseconds are printed with nine digits, so they
mostly come with some. -/
theorem parseInteger_zeros (k : ℕ) (s : List Byte) :
    parseInteger 10 0 (List.replicate k 0x30 ++ s) = parseInteger 10 0 s := by
  induction k with
  | zero => rfl
  | succ k ih =>
    rw [List.replicate_succ, List.cons_append]
    exact (parseInteger_digit (by decide : 0 < 10) 0 _).trans ih

/-- Digits are read, with zeros in front, up to the next character. -/
theorem parseInteger_printed {c : Byte} (hc : isdigit c = false) (k n : ℕ) (s : List Byte) :
    parseInteger 10 0 (List.replicate k 0x30 ++ (digits n ++ c :: s)) = (n, c :: s) := by
  rw [parseInteger_zeros, parseInteger_digits, parseInteger_stop hc]

/-- Digits do not start with a minus, nor do zeros in front of them. -/
theorem head_printed (k n : ℕ) (s : List Byte) :
    (List.replicate k 0x30 ++ (digits n ++ s)).head? ≠ some 0x2d := by
  cases k with
  | zero =>
    obtain ⟨d, ds, heq, hd⟩ := digits_head n
    rw [heq]
    exact fun hhead => (isdigit_ne hd).1 (Option.some.inj hhead)
  | succ k =>
    rw [List.replicate_succ]
    exact fun hhead => absurd (Option.some.inj hhead) (by decide)

/-- A printed number is read, up to the next character. -/
theorem readInt_fmtD {c : Byte} (hc : isdigit c = false) (i : Int) (s : List Byte) :
    readInt (fmtD i ++ c :: s) = (i, c :: s) := by
  have hparse := parseInteger_printed hc 0 i.natAbs s
  have hhead := head_printed 0 i.natAbs (c :: s)
  rw [List.replicate_zero, List.nil_append] at hparse hhead
  by_cases hneg : i < 0
  · have habs : -((i.natAbs : ℕ) : Int) = i := by omega
    rw [fmtD_neg hneg, List.cons_append, readInt, if_pos List.head?_cons, List.tail_cons]
    simp only [hparse, habs]
  · have habs : ((i.natAbs : ℕ) : Int) = i := by omega
    rw [fmtD_nonneg (Int.not_lt.mp hneg), readInt, if_neg hhead]
    simp only [hparse, habs]

/-- A number printed with zeros is read. -/
theorem readInt_fmtZeroD {c : Byte} (hc : isdigit c = false) {i : Int} (hi : 0 ≤ i) (w : ℕ)
    (s : List Byte) : readInt (fmtZeroD w i ++ c :: s) = (i, c :: s) := by
  have habs : ((i.natAbs : ℕ) : Int) = i := by omega
  simp only [fmtZeroD, if_neg (Int.not_lt.mpr hi), List.nil_append, List.append_assoc]
  rw [readInt, if_neg (head_printed _ _ _)]
  simp only [parseInteger_printed hc, habs]

/-- **A record can be taken apart** into the value and the time that were printed. -/
theorem decodeRecord_recordText (value : BitVec 32) {ts : Timespec64}
    (hnsec : 0 ≤ ts.tvNsec.toInt) :
    decodeRecord (recordText ⟨value.toInt, stampText ts⟩) = (value, ts) := by
  have hcomma : ascii ", Timestamp: " = 0x2c :: ascii " Timestamp: " := by decide
  have hpoint : ascii "." = [0x2e] := by decide
  have hnewline : ascii "\n" = [0x0a] := by decide
  have hvalue : (recordText ⟨value.toInt, stampText ts⟩).drop 7 =
      fmtD value.toInt ++ 0x2c :: (ascii " Timestamp: " ++ stampText ts) := by
    rw [recordText, hcomma, List.append_assoc, List.append_assoc]
    exact List.drop_left' (by decide)
  have hsec : (0x2c :: (ascii " Timestamp: " ++ stampText ts)).drop 13 =
      fmtD ts.tvSec.toInt ++ 0x2e :: (fmtZeroD 9 ts.tvNsec.toInt ++ [0x0a]) := by
    rw [← List.cons_append, stampText, hpoint, hnewline, List.append_assoc, List.append_assoc]
    exact List.drop_left' (by decide)
  have hnsec' : (0x2e :: (fmtZeroD 9 ts.tvNsec.toInt ++ [0x0a])).drop 1 =
      fmtZeroD 9 ts.tvNsec.toInt ++ [0x0a] := rfl
  rw [decodeRecord, hvalue, readInt_fmtD (by decide)]
  dsimp only
  rw [hsec, readInt_fmtD (by decide), hnsec', readInt_fmtZeroD (by decide) hnsec]
  simp only [BitVec.ofInt_toInt]

/-! ## Writing a record

Lengths are counted at their longest: the number of seconds and the value with a sign and
all their digits. They fit, each with its terminator. -/

/-- The time is normalised: the nanoseconds are fewer than a second. -/
def Normal (ts : Timespec64) : Prop :=
  0 ≤ ts.tvNsec.toInt ∧ ts.tvNsec.toInt < 1000000000

instance (ts : Timespec64) : Decidable (Normal ts) :=
  inferInstanceAs (Decidable (_ ∧ _))

/-- What is printed of a value and a time reaches the reader uncut, whatever was
in the buffers before, and can be taken apart. -/
structure Encoded (value : BitVec 32) (ts : Timespec64) : Prop where
  stamp_length : (stampText ts).length < 32
  slot : ∀ rb : Ringbuffer,
    Mem.cstr ((rbPush rb value.toInt ts).timestamps rb.head.toNat) 0 32 = stampText ts
  record_length : (recordText ⟨value.toInt, stampText ts⟩).length < 64
  output : ∀ output : ℕ → Byte,
    Mem.load (snprintf output 0 64 (recordText ⟨value.toInt, stampText ts⟩)) 0
      (recordText ⟨value.toInt, stampText ts⟩).length = recordText ⟨value.toInt, stampText ts⟩
  read : ∀ (rb : Ringbuffer) (xs : List Entry) (c : Call) (k : ℕ), rb.WF →
    rb.abs = Entry.ofPush value.toInt ts :: xs →
    finish c (rbPop rb c.value (some c.timestamp)) k true =
      ⟨c, (recordText ⟨value.toInt, stampText ts⟩).length,
        recordText ⟨value.toInt, stampText ts⟩, some k⟩
  decode : decodeRecord (recordText ⟨value.toInt, stampText ts⟩) = (value, ts)

/-- At most 20 characters, a point, nine digits and a newline. -/
theorem length_stampText {ts : Timespec64} (h : Normal ts) :
    (stampText ts).length < 32 := by
  obtain ⟨hlo, hhi⟩ := h
  have hsec := length_fmtD_toInt64 ts.tvSec
  have hnsec : (fmtZeroD 9 ts.tvNsec.toInt).length = 9 :=
    length_fmtZeroD (by decide) hlo (by omega : ts.tvNsec.toInt.natAbs < 10 ^ 9)
  have hpoint : (ascii ".").length = 1 := by decide
  have hnewline : (ascii "\n").length = 1 := by decide
  simp only [stampText, List.length_append, hnsec, hpoint, hnewline]
  omega

/-- Nothing is cut off a timestamp: its text fits the slot. -/
theorem ofPush_eq {ts : Timespec64} (h : Normal ts) (value : Int) :
    Entry.ofPush value ts = ⟨value, stampText ts⟩ := by
  rw [Entry.ofPush, List.take_of_length_le (Nat.le_of_lt_succ (length_stampText h))]

/-- The slot of a push holds the timestamp. -/
theorem slot_push (rb : Ringbuffer) (value : Int) {ts : Timespec64} (h : Normal ts) :
    Mem.cstr ((rbPush rb value ts).timestamps rb.head.toNat) 0 32 = stampText ts := by
  have hentry := congrFun (entry_push rb value ts) rb.head.toNat
  rw [Function.update_self, ofPush_eq h] at hentry
  exact congrArg Entry.timestamp hentry

/-- **The encoding of a sample.** Whatever the value, and at any normalised
time, timestamp and record fit their buffers and reach the reader uncut; and two
samples with the same record are the same.

Two things make it work: the lengths, each counted at the longest number, and a decoder
that finds the parts again. Two samples with one record then have the same value and
time, because both are what the decoder makes of it. -/
theorem record_encoding (value : BitVec 32) (ts : Timespec64) (h : Normal ts) :
    Encoded value ts ∧ ∀ (value' : BitVec 32) (ts' : Timespec64), Normal ts' →
      recordText ⟨value.toInt, stampText ts⟩ = recordText ⟨value'.toInt, stampText ts'⟩ →
      value = value' ∧ ts = ts' := by
  have hlen : (recordText ⟨value.toInt, stampText ts⟩).length < 64 := by
    rw [← ofPush_eq h]
    exact recordText_ofPush_length value ts
  have hdecode := decodeRecord_recordText value h.1
  constructor
  · refine ⟨length_stampText h, fun rb => slot_push rb _ h, hlen, fun _ => load_snprintf hlen, ?_,
      hdecode⟩
    intro rb xs c k hwf hcons
    rw [ofPush_eq h] at hcons
    exact finish_eq hwf hcons hlen c k
  · intro value' ts' h' heq
    rw [heq, decodeRecord_recordText value' h'.1] at hdecode
    exact ⟨(Prod.mk.inj hdecode).1.symm, (Prod.mk.inj hdecode).2.symm⟩

/-- The longest timestamp and the longest record. -/
theorem record_encoding_longest :
    Encoded 0x80000000 ⟨0x8000000000000000, 999999999⟩ ∧
      (stampText ⟨0x8000000000000000, 999999999⟩).length = 31 :=
  ⟨(record_encoding 0x80000000 ⟨0x8000000000000000, 999999999⟩ (by decide)).1, by decide +kernel⟩

end Read

end Mysensor

end KernelDrvLearn
