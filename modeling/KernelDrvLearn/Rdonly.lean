import KernelDrvLearn.CInt
import KernelDrvLearn.Chunks
import KernelDrvLearn.KernelApi
import KernelDrvLearn.Printf
import KernelDrvLearn.Transition

/-!
# The read-only chardev

`chardev/rdonly/chardev.c`. A successful open writes a message with the number
of the session, and the reads of the session deliver it from the file's offset.
Every read looks for the end of the message anew, so it depends on nobody
writing it meanwhile; and nobody does, for the compare-and-swap of `device_open`
lets one session in at a time.

A file is one session, whoever reads from it. Two things are assumed of its readers:
their calls on one file come one after the other, so that each starts from the offset
that the one before has left (the kernel itself does not see to that for a character
device), and the buffers they pass are valid. The kernel releases a file when no call
on it is left.
-/

namespace KernelDrvLearn

namespace Rdonly

/-- `BUF_LEN`, the size of `msg`. -/
abbrev bufLen : ℕ := 80

/-- The values of `already_open`, as the enumeration of the source has them. -/
inductive CdevUse where
  /-- `CDEV_NOT_USED` -/
  | cdevNotUsed
  /-- `CDEV_EXCLUSIVE_OPEN` -/
  | cdevExclusiveOpen
  deriving DecidableEq

/-- What a file is doing, with its locals. -/
inductive Place where
  /-- not open -/
  | closed
  /-- past the compare-and-swap, before the `sprintf` -/
  | opening
  /-- open, no read in progress -/
  | idle
  /-- in the loop of a read, with these values of `length` and `bytes_read` -/
  | reading (length bytesRead : ℕ)
  deriving DecidableEq

/-- A file, with its offset and what its session has delivered. -/
structure File where
  /-- what it is doing -/
  place : Place
  /-- `*offset` -/
  offset : ℕ
  /-- the bytes the read in progress has put into its buffer -/
  out : List Byte
  /-- record: the number in its message -/
  told : Int
  /-- record: the chunks returned since it was opened or last returned 0 -/
  chunks : List (List Byte)
  /-- record: the chunks returned before each return of 0 -/
  rounds : List (List (List Byte))

/-- The statics of the module, and the files. -/
structure State where
  /-- `already_open` -/
  alreadyOpen : CdevUse
  /-- `msg` -/
  msg : ℕ → Byte
  /-- `counter` of `device_open` -/
  counter : BitVec 32
  /-- `count` of `device_release` -/
  count : BitVec 32
  /-- the use count of the module -/
  moduleUsers : Int
  /-- the kernel log -/
  log : List (List Byte)
  /-- the files -/
  files : ℕ → File
  /-- record: the numbers in the messages, in the order of the sessions -/
  told : List Int

/-- The module is loaded, and nobody has opened the device. -/
def init : State where
  alreadyOpen := .cdevNotUsed
  msg := fun _ => 0
  counter := 0
  count := 0
  moduleUsers := 0
  log := []
  files := fun _ => ⟨.closed, 0, [], 0, [], []⟩
  told := []

/-- The message with the number `k`, `k` being the sessions before it. -/
def message (k : Int) : List Byte :=
  ascii "I already told you " ++ fmtD k ++ ascii " times Hello world!\n"

/-! ## The operations

`device_open` is two steps, its compare-and-swap and the rest; a read is as many as it has
turns. In between, other files take theirs. -/

/-- `pr_err`, a line in the log. -/
def State.prErr (s : State) (text : List Byte) : State := { s with log := s.log ++ [text] }

/-- The state with another file. -/
def State.setFile (s : State) (f : ℕ) (file : File) : State :=
  { s with files := Function.update s.files f file }

/-- `device_open` up to its compare-and-swap, and what it returns if that fails. -/
def deviceOpen (s : State) (f : ℕ) : State × Option Int :=
  let s := s.prErr (ascii "device opened " ++ fmtD s.counter.toInt ++ ascii " times")
  match s.alreadyOpen with
  | .cdevExclusiveOpen => (s, some ebusy)
  | .cdevNotUsed =>
    ({ s with alreadyOpen := .cdevExclusiveOpen }.setFile f ⟨.opening, 0, [], 0, [], []⟩, none)

/-- The rest of `device_open`: the `sprintf` and `try_module_get`. -/
def deviceOpenSprintf (s : State) (f : ℕ) : State :=
  let k := s.counter.toInt
  let s := { s with
    msg := Mem.store s.msg 0 (message k ++ [0])
    counter := s.counter + 1
    moduleUsers := s.moduleUsers + 1
    told := s.told ++ [k] }
  s.setFile f ⟨.idle, 0, [], k, [], []⟩

/-- `device_release`, which lets the next open in. -/
def deviceRelease (s : State) (f : ℕ) : State :=
  let file := s.files f
  let s := s.prErr (ascii "device released " ++ fmtD s.count.toInt ++ ascii " times")
  let s := { s with count := s.count + 1 }
  let s := { s with alreadyOpen := .cdevNotUsed }
  { s with moduleUsers := s.moduleUsers - 1 }.setFile f { file with place := .closed }

/-- `device_read` of `length` bytes, up to its loop. -/
def deviceRead (s : State) (f length : ℕ) : State :=
  let file := s.files f
  if s.msg file.offset = 0 then
    s.setFile f { file with offset := 0, chunks := [], rounds := file.rounds ++ [file.chunks] }
  else s.setFile f { file with place := .reading length 0, out := [] }

/-- A turn of the loop of `device_read`, or its end and the return. -/
def deviceReadLoop (s : State) (f length bytesRead : ℕ) : State :=
  let file := s.files f
  let c := s.msg (file.offset + bytesRead)
  if length ≠ 0 ∧ c ≠ 0 then
    s.setFile f { file with
      place := .reading (length - 1) (bytesRead + 1), out := file.out ++ [c] }
  else
    s.setFile f { file with
      place := .idle, offset := file.offset + bytesRead, chunks := file.chunks ++ [file.out] }

/-- What happens next, on which file. -/
inductive Act where
  /-- a process opens file `f`: the compare-and-swap -/
  | cmpxchg (f : ℕ)
  /-- the rest of that open -/
  | sprintf (f : ℕ)
  /-- a process reads from file `f` -/
  | read (f length : ℕ)
  /-- the read in progress goes on -/
  | readLoop (f : ℕ)
  /-- the file is released -/
  | release (f : ℕ)

/-- One step of the module, on one file. -/
def step (s : State) : Act → Option State
  | .cmpxchg f => if (s.files f).place = .closed then some (deviceOpen s f).1 else none
  | .sprintf f => if (s.files f).place = .opening then some (deviceOpenSprintf s f) else none
  | .read f length => if (s.files f).place = .idle then some (deviceRead s f length) else none
  | .readLoop f =>
    match (s.files f).place with
    | .reading length bytesRead => some (deviceReadLoop s f length bytesRead)
    | _ => none
  | .release f => if (s.files f).place = .idle then some (deviceRelease s f) else none

/-- The module and its users. -/
def chardev : Lts State Act where
  init := init
  step := step

/-- A read asks for at least one byte. -/
def Act.Positive : Act → Prop
  | .read _ length => 0 < length
  | _ => True

instance : DecidablePred Act.Positive
  | .read _ length => inferInstanceAs (Decidable (0 < length))
  | .cmpxchg _ | .sprintf _ | .readLoop _ | .release _ => isTrue trivial

/-! ## What a session delivers

A session is from a successful open to the release. It has a number and a message, and its
reads are to deliver that message in pieces, as often as they come to its end. -/

/-- Is the file open, its open finished? -/
def File.Open (file : File) : Prop := file.place ≠ .closed ∧ file.place ≠ .opening

/-- What holds in every state: one session at most, numbered without gaps, each
of which delivers its own message. -/
structure State.Sessions (s : State) : Prop where
  /-- one session at a time -/
  exclusive : ∀ f g, (s.files f).place ≠ .closed → (s.files g).place ≠ .closed → f = g
  /-- the numbers are 0, 1, 2, … -/
  numbers : (s.told.length : Int) ≤ intMax + 1 → s.told = (List.range s.told.length).map Nat.cast
  /-- the session in progress has the last of them -/
  number : ∀ f, (s.files f).Open → s.told.getLast? = some (s.files f).told
  /-- the chunks up to a return of 0, none of them empty, make up the message -/
  rounds : ∀ f, ∀ round ∈ (s.files f).rounds,
    round.flatten = message (s.files f).told ∧ [] ∉ round
  /-- those since then are the message up to the offset -/
  delivered : ∀ f, (s.files f).Open →
    Delivered (message (s.files f).told) (s.files f).chunks (s.files f).offset

/-- What a step may do: an open that fails only writes to the log, and nothing
writes to `msg` while a file is open. -/
structure Act.Meets (s : State) (a : Act) (t : State) : Prop where
  failed : ∀ f, a = .cmpxchg f → s.alreadyOpen = .cdevExclusiveOpen →
    (deviceOpen s f).2 = some ebusy ∧ ∃ text, t = s.prErr text
  quiet : ∀ f, (s.files f).Open → t.msg = s.msg

/-! ## The message

`sprintf` leaves the text and its zero. The text has no zero in it, so a read that looks
for the end finds it where it should. -/

theorem zero_notMem_message (k : Int) : 0 ∉ message k := by
  rw [message, List.mem_append, List.mem_append]
  rintro ((h | h) | h)
  · exact absurd h (by decide)
  · exact zero_notMem_fmtD k h
  · exact absurd h (by decide)

/-- The message and its terminator fit in `msg`. -/
theorem length_message_lt (v : BitVec 32) : (message v.toInt).length < bufLen + 1 := by
  have hlen := length_fmtD_toInt v
  rw [message, List.length_append, List.length_append]
  have h1 : (ascii "I already told you ").length = 19 := by decide
  have h2 : (ascii " times Hello world!\n").length = 20 := by decide
  rw [h1, h2]
  have hfits : 19 + (fmtD v.toInt).length + 20 < 81 := by omega
  exact hfits

/-- `msg` holds this text, with its terminator. -/
def Holds (msg : ℕ → Byte) (text : List Byte) : Prop :=
  Mem.load msg 0 (text.length + 1) = text ++ [0]

theorem holds_store (msg : ℕ → Byte) (text : List Byte) :
    Holds (Mem.store msg 0 (text ++ [0])) text := by
  have hload := Mem.load_store (m := msg) (p := 0) (l := text ++ [0])
  rwa [List.length_append] at hload

/-- Up to its end the text can be read there, and the end told by the zero. -/
theorem Holds.get {msg : ℕ → Byte} {text : List Byte} (h : Holds msg text) {i : ℕ}
    (hi : i ≤ text.length) : (text ++ [0])[i]? = some (msg i) := by
  have hget := Mem.load_getElem? (m := msg) (p := 0) (Nat.lt_succ_of_le hi)
  rwa [h, Nat.zero_add] at hget

theorem Holds.zero_iff {msg : ℕ → Byte} {text : List Byte} (h : Holds msg text)
    (h0 : 0 ∉ text) {i : ℕ} (hi : i ≤ text.length) : msg i = 0 ↔ i = text.length := by
  have hget := h.get hi
  constructor
  · intro hz
    by_contra hne
    have hlt : i < text.length := by omega
    rw [List.getElem?_append_left hlt, hz] at hget
    exact h0 (List.mem_of_getElem? hget)
  · rintro rfl
    rw [List.getElem?_concat_length] at hget
    exact (Option.some.inj hget).symm

/-! ## The invariant

The compare-and-swap lets one file in at a time. As `msg` is written only behind it, the
file that is in finds its own message until it is released. -/

/-- The file delivers its message, up to its offset. -/
structure InSession (msg : ℕ → Byte) (told : List Int) (file : File) : Prop where
  number : told.getLast? = some file.told
  msg : Holds msg (message file.told)
  delivered : Delivered (message file.told) file.chunks file.offset

/-- The read in progress has put these bytes of it into its buffer. -/
structure InRead (file : File) (length bytesRead : ℕ) : Prop where
  lt : file.offset < (message file.told).length
  pos : 0 < bytesRead + length
  out : file.out = chunk (message file.told) file.offset bytesRead
  length : file.out.length = bytesRead

/-- What is true of a file by its place. -/
def FileOk (msg : ℕ → Byte) (told : List Int) (file : File) : Prop :=
  match file.place with
  | .closed | .opening => True
  | .idle => InSession msg told file
  | .reading length bytesRead => InSession msg told file ∧ InRead file length bytesRead

/-- The rounds of a file, each up to a return of 0, are whole messages. -/
def RoundsOk (file : File) : Prop :=
  ∀ round ∈ file.rounds, round.flatten = message file.told ∧ [] ∉ round

/-- The invariant: one file at most is in, and `msg` holds its message. -/
structure State.Inv (s : State) : Prop where
  exclusive : ∀ f g, (s.files f).place ≠ .closed → (s.files g).place ≠ .closed → f = g
  free : s.alreadyOpen = .cdevNotUsed → ∀ f, (s.files f).place = .closed
  counter : s.counter = BitVec.ofNat 32 s.told.length
  told : s.told = (List.range s.told.length).map fun i => (BitVec.ofNat 32 i).toInt
  rounds : ∀ f, RoundsOk (s.files f)
  files : ∀ f, FileOk s.msg s.told (s.files f)

theorem State.Inv.init : Rdonly.init.Inv where
  exclusive := fun _ _ hf => absurd rfl hf
  free := fun _ _ => rfl
  counter := rfl
  told := rfl
  rounds := fun _ _ hround => absurd hround List.not_mem_nil
  files := fun _ => trivial

/-- An open file is in its session. -/
theorem State.Inv.inSession {s : State} (h : s.Inv) {f : ℕ} (hf : (s.files f).Open) :
    InSession s.msg s.told (s.files f) := by
  obtain ⟨hclosed, hopening⟩ := hf
  have hfile := h.files f
  rw [FileOk] at hfile
  rcases hplace : (s.files f).place with _ | _ | _ | ⟨length, bytesRead⟩
  case closed => exact absurd hplace hclosed
  case opening => exact absurd hplace hopening
  all_goals rw [hplace] at hfile
  case idle => exact hfile
  case reading => exact hfile.1

/-- While one file is not closed, all others are. -/
theorem State.Inv.others {s : State} (h : s.Inv) {f g : ℕ} (hf : (s.files f).place ≠ .closed)
    (hg : g ≠ f) : (s.files g).place = .closed := by
  by_contra hne
  exact hg (h.exclusive g f hne hf)

/-- A change to a file in its session. -/
theorem State.Inv.setFile {s : State} (h : s.Inv) {f : ℕ} {file : File}
    (hf : (s.files f).place ≠ .closed) (hrounds : RoundsOk file)
    (hfile : FileOk s.msg s.told file) : (s.setFile f file).Inv where
  exclusive := by
    have hclosed : ∀ g, ((s.setFile f file).files g).place ≠ .closed → g = f := by
      intro g hg
      by_contra hne
      rw [State.setFile] at hg
      dsimp only at hg
      rw [Function.update_of_ne hne] at hg
      exact hg (h.others hf hne)
    intro g g' hg hg'
    rw [hclosed g hg, hclosed g' hg']
  free := fun hfree => absurd (h.free hfree f) hf
  counter := h.counter
  told := h.told
  rounds := (Function.forall_update_iff s.files fun _ file => RoundsOk file).mpr
    ⟨hrounds, fun g _ => h.rounds g⟩
  files := (Function.forall_update_iff s.files fun _ file => FileOk s.msg s.told file).mpr
    ⟨hfile, fun g _ => h.files g⟩

/-! ## Every step

A step is one of five kinds, each with its lemma. -/

theorem State.Inv.deviceOpen {s : State} (h : s.Inv) (f : ℕ) : (deviceOpen s f).1.Inv := by
  rw [Rdonly.deviceOpen]
  split
  case h_1 => exact ⟨h.exclusive, h.free, h.counter, h.told, h.rounds, h.files⟩
  case h_2 hfree =>
    have hclosed : ∀ g, (s.files g).place = .closed := h.free hfree
    refine ⟨?_, nofun, h.counter, h.told, ?_, ?_⟩
    · have hother : ∀ g, (Function.update s.files f ⟨.opening, 0, [], 0, [], []⟩ g).place ≠
          .closed → g = f := by
        intro g hg
        by_contra hne
        rw [Function.update_of_ne hne] at hg
        exact hg (hclosed g)
      intro g g' hg hg'
      rw [hother g hg, hother g' hg']
    · refine (Function.forall_update_iff s.files fun _ file => RoundsOk file).mpr ⟨?_, ?_⟩
      · exact fun _ hround => absurd hround List.not_mem_nil
      · exact fun g _ => h.rounds g
    · refine (Function.forall_update_iff s.files fun _ file => FileOk s.msg s.told file).mpr
        ⟨trivial, fun g _ => h.files g⟩

theorem State.Inv.deviceOpenSprintf {s : State} (h : s.Inv) {f : ℕ}
    (hf : (s.files f).place = .opening) : (deviceOpenSprintf s f).Inv := by
  have hne : (s.files f).place ≠ .closed := by
    rw [hf]
    nofun
  -- nobody else has a session, so nobody sees `msg` change
  have hmid : State.Inv { s with
      msg := Mem.store s.msg 0 (message s.counter.toInt ++ [0])
      counter := s.counter + 1
      moduleUsers := s.moduleUsers + 1
      told := s.told ++ [s.counter.toInt] } := by
    refine ⟨h.exclusive, h.free, ?_, ?_, h.rounds, ?_⟩
    · rw [h.counter, List.length_append, BitVec.ofNat_add]
      rfl
    · rw [List.length_append, List.length_singleton, List.range_succ, List.map_append, ← h.told,
        h.counter]
      rfl
    · intro g
      by_cases hg : g = f
      · rw [FileOk, hg, hf]
        trivial
      · rw [FileOk, h.others hne hg]
        trivial
  refine hmid.setFile hne (fun _ hround => absurd hround List.not_mem_nil) ?_
  exact ⟨List.getLast?_concat .., holds_store _ _, Delivered.start⟩

theorem State.Inv.deviceRelease {s : State} (h : s.Inv) {f : ℕ}
    (hf : (s.files f).place = .idle) : (deviceRelease s f).Inv := by
  have hne : (s.files f).place ≠ .closed := by
    rw [hf]
    nofun
  have hclosed : ∀ g, (Function.update s.files f { s.files f with place := .closed } g).place =
      .closed := by
    refine (Function.forall_update_iff s.files fun _ file => file.place = .closed).mpr ⟨rfl, ?_⟩
    exact fun g hg => h.others hne hg
  refine ⟨fun g _ hg => absurd (hclosed g) hg, fun _ => hclosed, h.counter, h.told, ?_, ?_⟩
  · exact (Function.forall_update_iff s.files fun _ file => RoundsOk file).mpr
      ⟨h.rounds f, fun g _ => h.rounds g⟩
  · intro g
    rw [FileOk]
    change match (Function.update s.files f { s.files f with place := .closed } g).place with
      | .closed | .opening => True
      | .idle => _
      | .reading length bytesRead => _
    rw [hclosed g]
    trivial

theorem State.Inv.deviceRead {s : State} (h : s.Inv) {f length : ℕ}
    (hf : (s.files f).place = .idle) (hpos : 0 < length) : (deviceRead s f length).Inv := by
  have hopen : (s.files f).Open := by
    rw [File.Open, hf]
    exact ⟨nofun, nofun⟩
  obtain ⟨hnumber, hmsg, hdel⟩ := h.inSession hopen
  have hzero := hmsg.zero_iff (zero_notMem_message _) hdel.le
  rw [Rdonly.deviceRead]
  split
  case isTrue hz =>
    have hend := hzero.mp hz
    refine h.setFile hopen.1 ?_ ?_
    · intro round hround
      rcases List.mem_append.mp hround with hround | hround
      · exact h.rounds f round hround
      · rw [List.mem_singleton.mp hround]
        exact ⟨hdel.all (Nat.le_of_eq hend.symm), hdel.ne_nil⟩
    · rw [FileOk]
      dsimp only
      rw [hf]
      exact ⟨hnumber, hmsg, Delivered.start⟩
  case isFalse hz =>
    refine h.setFile hopen.1 (h.rounds f) ⟨⟨hnumber, hmsg, hdel⟩, ?_, ?_, ?_, rfl⟩
    · have hle := hdel.le
      have hne : (s.files f).offset ≠ _ := fun heq => hz (hzero.mpr heq)
      exact Nat.lt_of_le_of_ne hle hne
    · rw [Nat.zero_add]
      exact hpos
    · exact (List.take_zero ..).symm

theorem State.Inv.deviceReadLoop {s : State} (h : s.Inv) {f length bytesRead : ℕ}
    (hf : (s.files f).place = .reading length bytesRead) :
    (deviceReadLoop s f length bytesRead).Inv := by
  have hne : (s.files f).place ≠ .closed := by
    rw [hf]
    nofun
  have hfile := h.files f
  rw [FileOk, hf] at hfile
  obtain ⟨⟨hnumber, hmsg, hdel⟩, hlt, hpos, hout, hlen⟩ := hfile
  have hread : bytesRead ≤ (message (s.files f).told).length - (s.files f).offset := by
    rw [← hlen, hout, length_chunk]
    exact Nat.min_le_right _ _
  have hle : (s.files f).offset + bytesRead ≤ (message (s.files f).told).length := by omega
  have hzero := hmsg.zero_iff (zero_notMem_message _) hle
  rw [Rdonly.deviceReadLoop]
  split
  case isTrue hmore =>
    obtain ⟨hlength, hc⟩ := hmore
    have hlt' : (s.files f).offset + bytesRead < (message (s.files f).told).length :=
      Nat.lt_of_le_of_ne hle fun heq => hc (hzero.mpr heq)
    have hget := hmsg.get hle
    rw [List.getElem?_append_left hlt'] at hget
    refine h.setFile hne (h.rounds f) ⟨⟨hnumber, hmsg, hdel⟩, hlt, by omega, ?_, ?_⟩
    · rw [chunk_succ hget, ← hout]
    · dsimp only
      rw [List.length_append, hlen]
      rfl
  case isFalse hstop =>
    refine h.setFile hne (h.rounds f) ⟨hnumber, hmsg, ?_⟩
    -- the loop ended with its length used up, or at the end of the message
    have hall : (s.files f).out = chunk (message (s.files f).told) (s.files f).offset
        (bytesRead + length) := by
      rw [hout]
      by_cases hlength : length = 0
      · rw [hlength, Nat.add_zero]
      · have hend : (s.files f).offset + bytesRead = (message (s.files f).told).length := by
          by_contra hne'
          exact hstop ⟨hlength, fun hc => hne' (hzero.mp hc)⟩
        have hdrop : ((message (s.files f).told).drop (s.files f).offset).length = bytesRead := by
          rw [List.length_drop]
          omega
        rw [chunk, chunk, List.take_of_length_le (Nat.le_of_eq hdrop),
          List.take_of_length_le (by omega)]
    have hsnoc := hdel.snoc hpos hlt
    rw [← hall, hlen] at hsnoc
    exact hsnoc

/-- **Step lemma.** No step writes to `msg` under a session. -/
theorem State.Inv.step {s t : State} {a : Act} (h : s.Inv) (hpos : a.Positive)
    (hs : chardev.step s a = some t) : t.Inv := by
  cases a with
  | cmpxchg f =>
    obtain ⟨-, heq⟩ := Option.ite_none_right_eq_some.mp hs
    obtain rfl := Option.some.inj heq
    exact h.deviceOpen f
  | sprintf f =>
    obtain ⟨hf, heq⟩ := Option.ite_none_right_eq_some.mp hs
    obtain rfl := Option.some.inj heq
    exact h.deviceOpenSprintf hf
  | read f length =>
    obtain ⟨hf, heq⟩ := Option.ite_none_right_eq_some.mp hs
    obtain rfl := Option.some.inj heq
    exact h.deviceRead hf hpos
  | readLoop f =>
    change (match (s.files f).place with
      | .reading length bytesRead => some (Rdonly.deviceReadLoop s f length bytesRead)
      | _ => none) = some t at hs
    split at hs
    case h_1 length bytesRead hf =>
      obtain rfl := Option.some.inj hs
      exact h.deviceReadLoop hf
    case h_2 => cases hs
  | release f =>
    obtain ⟨hf, heq⟩ := Option.ite_none_right_eq_some.mp hs
    obtain rfl := Option.some.inj heq
    exact h.deviceRelease hf

/-! ## The sessions

What the invariant says of the sessions, in the terms of a user. -/

/-- The first 2³¹ values of the counter are the numbers themselves. -/
theorem toInt_ofNat_of_le {i : ℕ} (hi : (i : Int) ≤ intMax) :
    (BitVec.ofNat 32 i).toInt = (i : Int) := by
  have hi' : (i : Int) ≤ 2147483647 := hi
  rw [BitVec.toInt_ofNat', Int.bmod_eq_of_le (by omega) (by omega)]

theorem State.Inv.sessions {s : State} (h : s.Inv) : s.Sessions where
  exclusive := h.exclusive
  numbers := by
    intro hle
    conv_lhs => rw [h.told]
    refine List.map_congr_left fun i hi => toInt_ofNat_of_le ?_
    have hlt := List.mem_range.mp hi
    omega
  number := fun _ hf => (h.inSession hf).number
  rounds := h.rounds
  delivered := fun _ hf => (h.inSession hf).delivered

/-- With the device open, the compare-and-swap fails. -/
theorem deviceOpen_failed {s : State} (hopen : s.alreadyOpen = .cdevExclusiveOpen) (f : ℕ) :
    deviceOpen s f =
      (s.prErr (ascii "device opened " ++ fmtD s.counter.toInt ++ ascii " times"),
        some ebusy) := by
  have hopen' : (s.prErr (ascii "device opened " ++ fmtD s.counter.toInt ++
      ascii " times")).alreadyOpen = .cdevExclusiveOpen := hopen
  rw [deviceOpen, hopen']

/-- The compare-and-swap leaves `msg` alone, whether it succeeds or fails. -/
theorem deviceOpen_msg (s : State) (f : ℕ) : (deviceOpen s f).1.msg = s.msg := by
  rw [deviceOpen]
  split <;> rfl

/-- So does a read, which only looks at it. -/
theorem deviceRead_msg (s : State) (f length : ℕ) : (deviceRead s f length).msg = s.msg := by
  rw [deviceRead]
  split <;> rfl

theorem deviceReadLoop_msg (s : State) (f length bytesRead : ℕ) :
    (deviceReadLoop s f length bytesRead).msg = s.msg := by
  rw [deviceReadLoop]
  split <;> rfl

theorem State.Inv.meets {s t : State} {a : Act} (h : s.Inv) (hs : chardev.step s a = some t) :
    a.Meets s t where
  failed := by
    rintro f rfl hopen
    obtain ⟨-, heq⟩ := Option.ite_none_right_eq_some.mp hs
    obtain rfl := Option.some.inj heq
    rw [deviceOpen_failed hopen]
    exact ⟨rfl, _, rfl⟩
  quiet := by
    intro f hf
    cases a with
    | cmpxchg g =>
      obtain ⟨-, heq⟩ := Option.ite_none_right_eq_some.mp hs
      obtain rfl := Option.some.inj heq
      exact deviceOpen_msg s g
    | sprintf g =>
      -- the file being opened would be the one that is open
      obtain ⟨hg, -⟩ := Option.ite_none_right_eq_some.mp hs
      obtain rfl := h.exclusive f g hf.1 (by rw [hg]; nofun)
      exact absurd hg hf.2
    | read g length =>
      obtain ⟨-, heq⟩ := Option.ite_none_right_eq_some.mp hs
      obtain rfl := Option.some.inj heq
      exact deviceRead_msg s g length
    | readLoop g =>
      change (match (s.files g).place with
        | .reading length bytesRead => some (Rdonly.deviceReadLoop s g length bytesRead)
        | _ => none) = some t at hs
      split at hs
      case h_1 length bytesRead hg =>
        obtain rfl := Option.some.inj hs
        exact deviceReadLoop_msg s g length bytesRead
      case h_2 => cases hs
    | release g =>
      obtain ⟨-, heq⟩ := Option.ite_none_right_eq_some.mp hs
      obtain rfl := Option.some.inj heq
      rfl

/-- **Exclusive sessions.** Whatever files are opened, read with positive
lengths and released, in any order: there is one session at a time, a failed
open leaves only a line in the log, and nothing writes to `msg` while a file is
open; the sessions are numbered 0, 1, 2, …, and up to each return of 0 a session
delivers the message with its number.

`already_open` lets one file in, so the one buffer of the module belongs to that file
until its release. The invariant says what the file has read so far, in terms of the
message with its number. -/
theorem rdonly_sessions {s : State} (h : chardev.Reach (fun _ a => a.Positive) s) :
    s.Sessions ∧ ∀ a t, chardev.step s a = some t → a.Meets s t := by
  have hinit : State.Inv chardev.init := State.Inv.init
  have hinv : s.Inv := h.invariant hinit fun _ _ _ hi hpos hs => hi.step hpos hs
  exact ⟨hinv.sessions, fun _ _ hs => hinv.meets hs⟩

/-- Two sessions; the second reads its message in chunks of 30 bytes, to the
end, while a third process fails to open the device. -/
def twoSessions : List Act :=
  [Act.cmpxchg 0, .sprintf 0, .release 0, .cmpxchg 1, .sprintf 1, .read 1 30, .cmpxchg 2] ++
    List.replicate 31 (Act.readLoop 1) ++ [Act.read 1 30] ++ List.replicate 11 (Act.readLoop 1) ++
    [Act.read 1 30]

theorem rdonly_sessions_two : ∃ s, chardev.exec chardev.init twoSessions = some s ∧
    s.told = [0, 1] ∧ (s.files 1).rounds.map List.flatten = [message 1] ∧ s.Sessions := by
  have hrun : chardev.Run (fun _ a => a.Positive) twoSessions := by decide +kernel
  have hdelivers : (chardev.exec chardev.init twoSessions).map
      (fun s => (s.told, (s.files 1).rounds.map List.flatten)) = some ([0, 1], [message 1]) := by
    decide +kernel
  obtain ⟨s, hs, hmap⟩ := Option.map_eq_some_iff.mp hdelivers
  obtain ⟨htold, hrounds⟩ := Prod.mk.inj hmap
  exact ⟨s, hs, htold, hrounds, (rdonly_sessions (Lts.Reach.init.exec hrun hs)).1⟩

end Rdonly

end KernelDrvLearn
