import KernelDrvLearn.BellPoll
import KernelDrvLearn.Fbread
import KernelDrvLearn.LittleEndian

/-!
# The reader of the fake bell

`do_read_mode` of `practice/myfakebell/app/main.c`: it polls, reads up to eight
records into a buffer, and prints them, for ever. `myfbread` stores a record as it lies
in memory, 16 bytes, and the program takes it out of its buffer again. Between any two
of its steps, and inside its `read`, the interrupt thread may push.

As the only reader, and with no one who resets the ring, the program prints the samples
that were pushed, in order and each once, apart from the counted drops
(`reader_prints`). It never sleeps in `read` and sees no end of file, and it leaves its
loop only when `poll` fails.
-/

namespace KernelDrvLearn

namespace BellReader

open LittleEndian Fbread

/-! ## Records

The 16 bytes of `struct rbdata` as `copy_to_user` takes them from the driver and the
program finds them in its buffer: a 64-bit timestamp and two 32-bit words, without
padding. -/

/-- `struct rbdata` in memory: its three fields, one behind the other. -/
def encode (x : Rbdata) : List Byte :=
  leBytes 8 x.timestampNs.toNat ++ leBytes 4 x.sampleValue.toNat ++ leBytes 4 x.status.toNat

/-- The `struct rbdata` that lies in memory, field by field. -/
def decode (l : List Byte) : Rbdata :=
  ⟨BitVec.ofNat 64 (leNat (l.take 8)), BitVec.ofNat 32 (leNat ((l.drop 8).take 4)),
    BitVec.ofNat 32 (leNat (l.drop 12))⟩

theorem length_encode (x : Rbdata) : (encode x).length = rbdataBytes := by
  simp [encode]

theorem decode_encode (x : Rbdata) : decode (encode x) = x := by
  obtain ⟨timestampNs, sampleValue, status⟩ := x
  have ht : leNat (leBytes 8 timestampNs.toNat) = timestampNs.toNat :=
    leNat_leBytes_of_lt timestampNs.isLt
  have hv : leNat (leBytes 4 sampleValue.toNat) = sampleValue.toNat :=
    leNat_leBytes_of_lt sampleValue.isLt
  have hs : leNat (leBytes 4 status.toNat) = status.toNat := leNat_leBytes_of_lt status.isLt
  have h0 : (encode ⟨timestampNs, sampleValue, status⟩).take 8 = leBytes 8 timestampNs.toNat := by
    rw [encode, List.append_assoc]
    exact List.take_left' (length_leBytes 8 _)
  have hdrop : (encode ⟨timestampNs, sampleValue, status⟩).drop 8 =
      leBytes 4 sampleValue.toNat ++ leBytes 4 status.toNat := by
    rw [encode, List.append_assoc]
    exact List.drop_left' (length_leBytes 8 _)
  have h12 : (encode ⟨timestampNs, sampleValue, status⟩).drop 12 = leBytes 4 status.toNat := by
    rw [encode]
    exact List.drop_left' (by simp)
  rw [decode, h0, hdrop, List.take_left' (length_leBytes 4 _), h12, ht, hv, hs]
  simp

/-! ## The program

`do_read_mode` as a state machine. Its `read` is the reader of the driver model, which
takes its own steps; the program waits in `read` until that has returned, and then goes
through its buffer. -/

/-- A line of output: a call of `printf` or `perror`, with its arguments. -/
inductive Line where
  /-- `"[read] waiting on %s\n"` -/
  | waiting
  /-- `"[read] revents=0x%x\n"` -/
  | revents (mask : BitVec 32)
  /-- `"[read] alarm/high-priority event detected\n"` -/
  | alarm
  /-- `"[read] EOF\n"` -/
  | eof
  /-- `"[read] got %zd bytes, %d samples\n"` -/
  | got (n cnt : Int)
  /-- `"  sample[%d]: ts=%llu ns value=%u status=0x%x\n"` -/
  | sample (i : ℕ) (x : Rbdata)
  /-- `"[read] POLLERR\n"` -/
  | pollerr
  /-- `"[read] POLLHUP\n"` -/
  | pollhup
  /-- `perror("open")` -/
  | perrorOpen
  /-- `perror("poll")` -/
  | perrorPoll
  /-- `perror("read")` -/
  | perrorRead

/-- The samples printed, in the order of their lines. -/
def samples (output : List Line) : List Rbdata :=
  output.filterMap fun
    | .sample _ x => some x
    | _ => none

/-- Where the program is, with its locals. -/
inductive App where
  /-- before `open` -/
  | start
  /-- in `poll` -/
  | poll
  /-- in `read`, with what was in `buf` before -/
  | read (revents : BitVec 32) (buf : ℕ → Byte)
  /-- in the loop that prints, before the `i`th of `cnt` records -/
  | print (revents : BitVec 32) (buf : ℕ → Byte) (cnt i : ℕ)
  /-- it has returned -/
  | exited (ret : Int)

/-- The device, the program and its output. -/
structure State where
  /-- the driver -/
  dev : Fbread.State
  /-- the program -/
  app : App
  /-- its output -/
  output : List Line

/-- What can happen next: a push of the driver, or a step of the program. -/
inductive Act where
  /-- `myirq_bottom` pushes a sample -/
  | push (v : Rbdata)
  /-- the program opens the device, or cannot -/
  | opens (ok : Bool)
  /-- `poll` returns; `mybell` is the device it has found, and `buf` is what lies in the
  buffer of this turn -/
  | poll (mybell : Fakebell.FakeBellState) (buf : ℕ → Byte)
  /-- a signal ends `poll` -/
  | interrupted
  /-- a step inside `read`; the buffer is there, so that copies succeed -/
  | read
  /-- a signal ends the sleep in `read` -/
  | signal
  /-- `read` returns -/
  | returns
  /-- a record is printed -/
  | print

/-- `sizeof(buf)`: eight records. -/
abbrev sizeofBuf : ℕ := 8 * rbdataBytes

/-- What is printed when `poll` has returned, before anything is read. -/
def pollLines (revents : BitVec 32) : List Line :=
  [.revents revents] ++ if revents &&& pollpri ≠ 0 then [.alarm] else []

/-- What is printed at the end of a turn. -/
def endLines (revents : BitVec 32) : List Line := BellPoll.endLines .pollerr .pollhup revents

/-- `poll` has returned: `read` is called if there is something to read. -/
def pollStep (s : State) (mybell : Fakebell.FakeBellState) (buf : ℕ → Byte) : Option State :=
  let mask := BellPoll.myfbpoll ⟨mybell, s.dev.ring⟩
  if mask = 0 then none
  else if mask &&& (pollin ||| pollrdnorm) ≠ 0 then
    (device.step s.dev (.read 0 sizeofBuf false)).map fun dev =>
      { s with dev := dev, app := .read mask buf, output := s.output ++ pollLines mask }
  else some { s with app := .poll, output := s.output ++ (pollLines mask ++ endLines mask) }

/-- The buffer after a call of `myfbread`. -/
def filled (buf : ℕ → Byte) (c : Call) : ℕ → Byte :=
  c.writes.foldl (fun m w => Mem.store m w.1.toNat (encode w.2)) buf

/-- `read` has returned: a failure, the end of file, or samples to be printed. -/
def returnStep (s : State) (mask : BitVec 32) (buf : ℕ → Byte) : Option State :=
  match s.dev.reader 0 with
  | .done c n =>
    if n < 0 then some { s with app := .exited 1, output := s.output ++ [.perrorRead] }
    else if n = 0 then some { s with app := .exited 0, output := s.output ++ [.eof] }
    else
      let cnt := wrap32 (n / rbdataBytes)
      some { s with
        app := .print mask (filled buf c) cnt.toNat 0
        output := s.output ++ [.got n cnt] }
  | _ => none

/-- One step of the program or the driver. -/
def step (s : State) : Act → Option State
  | .push v => (device.step s.dev (.push v)).map fun dev => { s with dev := dev }
  | .opens ok =>
    match s.app with
    | .start =>
      if ok then some { s with app := .poll, output := s.output ++ [.waiting] }
      else some { s with app := .exited 1, output := s.output ++ [.perrorOpen] }
    | _ => none
  | .poll mybell buf =>
    match s.app with
    | .poll => pollStep s mybell buf
    | _ => none
  | .interrupted =>
    match s.app with
    | .poll => some { s with app := .exited 1, output := s.output ++ [.perrorPoll] }
    | _ => none
  | .read =>
    match s.app with
    | .read _ _ => (device.step s.dev (.run 0 true)).map fun dev => { s with dev := dev }
    | _ => none
  | .signal =>
    match s.app with
    | .read _ _ => (device.step s.dev (.signal 0)).map fun dev => { s with dev := dev }
    | _ => none
  | .returns =>
    match s.app with
    | .read mask buf => returnStep s mask buf
    | _ => none
  | .print =>
    match s.app with
    | .print mask buf cnt i =>
      if i < cnt then
        some { s with
          app := .print mask buf cnt (i + 1)
          output := s.output ++ [.sample i (decode (Mem.load buf (rbdataBytes * i) rbdataBytes))] }
      else some { s with app := .poll, output := s.output ++ endLines mask }
    | _ => none

/-- The device after probe, the program before `open`. -/
def system : Lts State Act where
  init := ⟨device.init, .start, []⟩
  step := step

/-! ## What is still to be printed

Between the ring and the output a sample is in one of three places: in the copies the
driver has made for this call, in the program's buffer, or on its way out of it. `pending`
collects these, oldest first. -/

/-- The samples the program has taken from the device and not printed yet. -/
def State.pending (s : State) : List Rbdata :=
  match s.app with
  | .read _ _ => (s.dev.reader 0).popped
  | .print _ buf cnt i =>
    (List.range' i (cnt - i)).map fun k => decode (Mem.load buf (rbdataBytes * k) rbdataBytes)
  | _ => []

theorem samples_append (l l' : List Line) : samples (l ++ l') = samples l ++ samples l' :=
  List.filterMap_append

/-- The buffer after a call that kept its books: the samples it popped, one after the
other. -/
theorem filled_eq {c : Call} {m : ℕ} (hd : c.Did m) (buf : ℕ → Byte) :
    filled buf c = Mem.store buf 0 (c.popped.flatMap encode) := by
  have hplace : c.writes.map (fun w => (w.1.toNat, w.2)) =
      c.popped.mapIdx fun k x => (0 + rbdataBytes * k, x) := by
    rw [hd.writes]
    refine List.ext_getElem (by simp) fun k _ _ => ?_
    rw [List.getElem_map, List.getElem_mapIdx, List.getElem_mapIdx, Nat.zero_add]
    rfl
  calc filled buf c
      = (c.writes.map fun w => (w.1.toNat, w.2)).foldl
          (fun m w => Mem.store m w.1 (encode w.2)) buf := by rw [List.foldl_map]; rfl
    _ = Mem.store buf 0 (c.popped.flatMap encode) := by
      rw [hplace]
      exact foldl_store length_encode buf 0 c.popped

/-- The records that lie in it. -/
theorem records_filled {c : Call} {m : ℕ} (hd : c.Did m) (buf : ℕ → Byte) :
    ((List.range' 0 m).map fun k =>
      decode (Mem.load (filled buf c) (rbdataBytes * k) rbdataBytes)) = c.popped := by
  refine List.ext_getElem (by simp [hd.popped]) fun k hk hk' => ?_
  have hload := load_record length_encode buf 0 c.popped hk'
  rw [Nat.zero_add] at hload
  rw [List.getElem_map, List.getElem_range', filled_eq hd, Nat.one_mul, Nat.zero_add, hload,
    decode_encode]

/-! ## The call that the program makes

A `read` is called only when `poll` has found the ring not empty, with room for eight
records. As the program is the only reader, the ring cannot become empty before the call
has taken something; so it does not sleep, and returns at least one sample. -/

/-- The places of a call with room for eight samples that was made when there was one. -/
def Reads (r : Ringbuf) : Reader → Prop
  | .enter c => c.count = sizeofBuf ∧ r.abs ≠ []
  | .loop c _ _ => c.count = sizeofBuf ∧ 0 < c.sizeRead
  | .done c n => c.count = sizeofBuf ∧ 0 < c.sizeRead ∧ 0 ≤ n
  | _ => False

theorem reads_loopHead {r : Ringbuf} {c : Call} {i offset : Int} (hcount : c.count = sizeofBuf)
    (hsize : 0 < c.sizeRead) (hoffset : 0 ≤ offset) : Reads r (loopHead c i offset) := by
  rw [loopHead]
  split
  · exact ⟨hcount, hsize⟩
  · exact ⟨hcount, hsize, hoffset⟩

/-- A push takes nothing away: what the call relied on is still there. -/
theorem Reads.push {r : Ringbuf} (hr : r.WF) {rd : Reader} (h : Reads r rd) (v : Rbdata) :
    Reads (ringbufPush r v) rd := by
  cases rd with
  | enter c =>
    refine ⟨h.1, fun hnil => h.2 ?_⟩
    have hle := ringbufPush_length_le hr v
    rw [hnil] at hle
    exact List.eq_nil_of_length_eq_zero (Nat.le_zero.mp hle)
  | loop | done => exact h
  | idle | wait | resize => exact h.elim

/-- **One step of the call** stays at these places. -/
theorem Reads.steps {r : Ringbuf} (hr : r.WF) {rd : Reader} {res : Result}
    (hsteps : Reader.Steps r true rd res) (hinv : rd.Inv) (henough : rd.Enough r)
    (h : Reads r rd) : Reads res.ring res.reader ∧ res.reader.popped = rd.popped ++ res.out := by
  cases hsteps with
  | again hempty => exact absurd hempty h.2
  | sleep hempty => exact absurd hempty h.2
  | @start _ c hne =>
    obtain ⟨c', m, heq, -, -, hd, hcount, -, hsize⟩ := startLoop_sized hinv hr.abs_length_le
    have hpos : 0 < r.abs.length := List.length_pos_iff.mpr hne
    have hnil : (Reader.enter c).popped = [] :=
      List.eq_nil_of_length_eq_zero (Call.Did.popped hinv)
    have hnil' : c'.popped = [] := List.eq_nil_of_length_eq_zero hd.popped
    refine ⟨?_, ?_⟩
    · rw [heq]
      exact reads_loopHead (hcount.trans h.1) (by omega) (Int.le_refl 0)
    · rw [heq, loopHead_popped, hnil', hnil]
      rfl
  | wake => exact h.elim
  | restart => exact h.elim
  | drained hempty => exact absurd hempty (henough.ne_nil hinv)
  | @pop c i offset x xs hcons =>
    obtain ⟨n, m, -, -, hnm, hs, -, rfl⟩ := hinv
    refine ⟨?_, loopHead_popped _ _ _⟩
    rw [hs.next_offset hnm]
    exact reads_loopHead (c := c.took _ x) h.1 h.2 (by omega)

/-! ## The invariant

Two accounts are kept: that of the samples, from the push to the printed line, and that of
the program's calls, which says where the reader of the driver may be while the program is
at a certain place. -/

/-- A line the program may print: no end of file, no failure of `read`, and one to eight
samples a turn. -/
def Line.Fine : Line → Prop
  | .eof => False
  | .perrorRead => False
  | .got n cnt => 1 ≤ cnt ∧ cnt ≤ 8 ∧ n = rbdataBytes * cnt
  | _ => True

/-- Where the reader of the driver is when the program is at `app`. -/
def Place (dev : Fbread.State) : App → Prop
  | .read _ _ => Reads dev.ring (dev.reader 0)
  | _ => (dev.reader 0).free = true

/-- What holds in every state reached: both accounts, and lines that are fine. -/
structure State.Inv (s : State) : Prop where
  single : s.dev.Single
  place : Place s.dev s.app
  shown : samples s.output ++ s.pending = s.dev.delivered
  fine : ∀ l ∈ s.output, l.Fine
  ended : ∀ ret, s.app = .exited ret →
    ret = 1 ∧ (.perrorOpen ∈ s.output ∨ .perrorPoll ∈ s.output)

theorem State.Inv.init : system.init.Inv where
  single := reach_single Lts.Reach.init
  place := rfl
  shown := rfl
  fine := fun _ hl => absurd hl List.not_mem_nil
  ended := fun _ happ => by cases happ

/-- **The program moves on** and prints some lines, the device untouched. -/
theorem State.Inv.prints {s : State} (hi : s.Inv) {app : App} {l : List Line}
    (hplace : Place s.dev app) (hfine : ∀ x ∈ l, x.Fine)
    (hpending : samples l ++ State.pending ⟨s.dev, app, []⟩ = s.pending)
    (hended : ∀ ret, app = .exited ret → ret = 1 ∧ (.perrorOpen ∈ l ∨ .perrorPoll ∈ l)) :
    State.Inv { s with app := app, output := s.output ++ l } where
  single := hi.single
  place := hplace
  shown := by
    have hshown := hi.shown
    rw [← hpending, ← List.append_assoc, ← samples_append] at hshown
    exact hshown
  fine := fun x hx => (List.mem_append.mp hx).elim (hi.fine x) (hfine x)
  ended := fun ret happ => by
    obtain ⟨hret, hl⟩ := hended ret happ
    exact ⟨hret, hl.imp (List.mem_append_right _) (List.mem_append_right _)⟩

/-- **The device moves**, the program stays where it is. -/
theorem State.Inv.moves {s : State} (hi : s.Inv) {a : Fbread.Act} {dev : Fbread.State}
    (hone : OneReader s.dev a) (hstep : device.step s.dev a = some dev)
    (hplace : Place dev s.app)
    (hpending : samples s.output ++ State.pending { s with dev := dev } = dev.delivered) :
    State.Inv { s with dev := dev } where
  single := hi.single.step hone hstep
  place := hplace
  shown := hpending
  fine := hi.fine
  ended := hi.ended

/-! ## Steps

The moves of the system by who makes them: the program prints and moves on, or the device
moves and the program stays. Either keeps the accounts by a lemma of its own. -/

/-- Lines that a step prints before any sample. -/
def Quiet (l : List Line) : Prop := samples l = [] ∧ ∀ x ∈ l, x.Fine

theorem Quiet.append {l l' : List Line} (h : Quiet l) (h' : Quiet l') : Quiet (l ++ l') := by
  refine ⟨?_, fun x hx => (List.mem_append.mp hx).elim (h.2 x) (h'.2 x)⟩
  rw [samples_append, h.1, h'.1, List.append_nil]

theorem quiet_pollLines (mask : BitVec 32) : Quiet (pollLines mask) := by
  rw [pollLines]
  split <;> simp [Quiet, samples, Line.Fine]

theorem quiet_endLines (mask : BitVec 32) : Quiet (endLines mask) := by
  rw [endLines, BellPoll.endLines]
  split <;> split <;> simp [Quiet, samples, Line.Fine]

/-- `POLLIN` says that the ring is not empty. -/
theorem myfbpoll_pollin {d : BellPoll.Myfbdev}
    (h : BellPoll.myfbpoll d &&& (pollin ||| pollrdnorm) ≠ 0) : ringbufGetsize d.myrb ≠ 0 := by
  intro hsize
  rw [BellPoll.myfbpoll, BellPoll.myfbpollSize, if_neg (not_not.mpr hsize),
    BellPoll.myfbpollStatus] at h
  split at h <;> exact h rfl

/-- The steps, by where the program is. -/
inductive Moves (dev : Fbread.State) (output : List Line) : App → State → Prop
  /-- a push -/
  | push (app : App) (v : Rbdata) {dev' : Fbread.State}
      (hstep : device.step dev (.push v) = some dev') : Moves dev output app ⟨dev', app, output⟩
  /-- the device is open -/
  | opened : Moves dev output .start ⟨dev, .poll, output ++ [.waiting]⟩
  /-- it is not -/
  | refused : Moves dev output .start ⟨dev, .exited 1, output ++ [.perrorOpen]⟩
  /-- nothing to read -/
  | turned {l : List Line} (hl : Quiet l) : Moves dev output .poll ⟨dev, .poll, output ++ l⟩
  /-- something to read -/
  | called {l : List Line} (hl : Quiet l) (mask : BitVec 32) (buf : ℕ → Byte)
      {dev' : Fbread.State} (hsize : ringbufGetsize dev.ring ≠ 0)
      (hstep : device.step dev (.read 0 sizeofBuf false) = some dev') :
      Moves dev output .poll ⟨dev', .read mask buf, output ++ l⟩
  /-- a signal ends `poll` -/
  | interrupted : Moves dev output .poll ⟨dev, .exited 1, output ++ [.perrorPoll]⟩
  /-- a step inside `read` -/
  | run (mask : BitVec 32) (buf : ℕ → Byte) {dev' : Fbread.State}
      (hstep : device.step dev (.run 0 true) = some dev') :
      Moves dev output (.read mask buf) ⟨dev', .read mask buf, output⟩
  /-- a signal ends the sleep in `read` -/
  | signal (mask : BitVec 32) (buf : ℕ → Byte) {c : Call} {dev' : Fbread.State}
      (hwait : dev.reader 0 = .wait c) :
      Moves dev output (.read mask buf) ⟨dev', .read mask buf, output⟩
  /-- `read` returns -/
  | returned (mask : BitVec 32) (buf : ℕ → Byte) {c : Call} {n : Int} {s : State}
      (hdone : dev.reader 0 = .done c n)
      (hstep : returnStep ⟨dev, .read mask buf, output⟩ mask buf = some s) :
      Moves dev output (.read mask buf) s
  /-- a sample is printed -/
  | printed (mask : BitVec 32) (buf : ℕ → Byte) {cnt i : ℕ} (hi : i < cnt) :
      Moves dev output (.print mask buf cnt i) ⟨dev, .print mask buf cnt (i + 1),
        output ++ [.sample i (decode (Mem.load buf (rbdataBytes * i) rbdataBytes))]⟩
  /-- all are -/
  | done (mask : BitVec 32) (buf : ℕ → Byte) {cnt i : ℕ} (hi : cnt ≤ i) {l : List Line}
      (hl : Quiet l) : Moves dev output (.print mask buf cnt i) ⟨dev, .poll, output ++ l⟩

theorem step_moves {dev : Fbread.State} {app : App} {output : List Line} {a : Act} {t : State}
    (h : step ⟨dev, app, output⟩ a = some t) : Moves dev output app t := by
  cases a with
  | push v =>
    simp only [step, Option.map_eq_some_iff] at h
    obtain ⟨dev', hstep, rfl⟩ := h
    exact .push app v hstep
  | opens ok =>
    cases app
    case start =>
      simp only [step] at h
      split at h
      · obtain rfl := Option.some.inj h
        exact .opened
      · obtain rfl := Option.some.inj h
        exact .refused
    all_goals cases h
  | poll mybell buf =>
    cases app
    case poll =>
      simp only [step, pollStep] at h
      split at h
      -- nothing to report: `poll` goes on sleeping
      · cases h
      split at h
      · rename_i hin
        obtain ⟨dev', hstep, rfl⟩ := Option.map_eq_some_iff.mp h
        exact .called (quiet_pollLines _) _ buf (myfbpoll_pollin hin) hstep
      · obtain rfl := Option.some.inj h
        exact .turned ((quiet_pollLines _).append (quiet_endLines _))
    all_goals cases h
  | interrupted =>
    cases app
    case poll =>
      obtain rfl := Option.some.inj h
      exact .interrupted
    all_goals cases h
  | read =>
    cases app
    case read mask buf =>
      simp only [step, Option.map_eq_some_iff] at h
      obtain ⟨dev', hstep, rfl⟩ := h
      exact .run mask buf hstep
    all_goals cases h
  | signal =>
    cases app
    case read mask buf =>
      simp only [step, Option.map_eq_some_iff] at h
      obtain ⟨dev', hstep, rfl⟩ := h
      rcases hrd : dev.reader 0 <;> simp [device, Fbread.step, hrd] at hstep
      exact .signal mask buf hrd
    all_goals cases h
  | returns =>
    cases app
    case read mask buf =>
      simp only [step] at h
      cases hrd : dev.reader 0
      case done c n => exact .returned mask buf hrd h
      all_goals simp [returnStep, hrd] at h
    all_goals cases h
  | print =>
    cases app
    case print mask buf cnt i =>
      simp only [step] at h
      split at h
      · rename_i hi
        obtain rfl := Option.some.inj h
        exact .printed mask buf hi
      · rename_i hi
        obtain rfl := Option.some.inj h
        exact .done mask buf (Nat.le_of_not_lt hi) (quiet_endLines mask)
    all_goals cases h

/-- The program has just returned from `read`: what the driver had copied is in its buffer
now. -/
theorem State.Inv.returned {dev : Fbread.State} {mask : BitVec 32} {buf : ℕ → Byte}
    {output : List Line} (hi : State.Inv ⟨dev, .read mask buf, output⟩) {c : Call} {n : Int}
    (hdone : dev.reader 0 = .done c n) {t : State}
    (hstep : returnStep ⟨dev, .read mask buf, output⟩ mask buf = some t) : t.Inv := by
  have hplace : Reads dev.ring (dev.reader 0) := hi.place
  have hbooks := hi.single.inv.books 0
  rw [hdone] at hplace hbooks
  obtain ⟨hcount, hsize, hn⟩ := hplace
  obtain ⟨m, hs, hd, rfl⟩ := hbooks hn
  have hmin := hs.eq_min
  rw [hcount, show sizeofBuf / 16 = 8 from rfl] at hmin
  have hm : 1 ≤ m ∧ m ≤ 8 := by omega
  have hcnt : wrap32 (((16 * m : ℕ) : Int) / (rbdataBytes : ℕ)) = m := by
    have hdiv : ((16 * m : ℕ) : Int) / (rbdataBytes : ℕ) = m := by
      change ((16 * m : ℕ) : Int) / 16 = m
      omega
    rw [hdiv, wrap32_of_range (by omega) (by simp only [intMax]; omega)]
  simp only [returnStep, hdone, hcnt] at hstep
  rw [if_neg (by omega), if_neg (by omega)] at hstep
  obtain rfl := Option.some.inj hstep
  refine hi.prints ?_ ?_ ?_ nofun
  · change (dev.reader 0).free = true
    rw [hdone]
    rfl
  · simp only [List.mem_singleton, forall_eq]
    change 1 ≤ (m : Int) ∧ (m : Int) ≤ 8 ∧ ((16 * m : ℕ) : Int) = 16 * m
    omega
  · change [] ++ List.map _ (List.range' 0 ((m : Int).toNat - 0)) = (dev.reader 0).popped
    rw [hdone, Int.toNat_natCast, Nat.sub_zero]
    exact records_filled hd buf

/-- **Step lemma.** No step loses a sample or prints one that is not due. -/
theorem State.Inv.step {s t : State} {a : Act} (hi : s.Inv) (h : system.step s a = some t) :
    t.Inv := by
  obtain ⟨dev, app, output⟩ := s
  have hshown := hi.shown
  have hplace := hi.place
  cases step_moves h with
  | push app v hstep =>
    obtain rfl := Option.some.inj hstep
    refine hi.moves (a := .push v) trivial rfl ?_ hshown
    -- a `read` in progress keeps the samples it has counted on
    cases app
    case read => exact Reads.push hi.single.inv.wf hplace v
    all_goals exact hplace
  | opened => exact hi.prints hplace (by simp [Line.Fine]) rfl nofun
  | refused => exact hi.prints hplace (by simp [Line.Fine]) rfl (by simp)
  | turned hl => exact hi.prints hplace hl.2 (by rw [hl.1]; rfl) nofun
  | @called l hl mask buf dev' hsize hstep =>
    -- `poll` has reported `POLLIN`, and only this program takes samples out
    have hfree : (dev.reader 0).free = true := hplace
    have hprint : State.Inv ⟨dev, .poll, output ++ l⟩ :=
      hi.prints hplace hl.2 (by rw [hl.1]; rfl) nofun
    have hone : OneReader dev (.read 0 sizeofBuf false) := rfl
    have hne : dev.ring.abs ≠ [] := fun hnil =>
      hsize (hi.single.inv.wf.size_eq_zero_iff.mpr hnil)
    have hsingle := hi.single.step hone hstep
    have hmoves : Fbread.Moves dev (.read 0 sizeofBuf false) dev' :=
      Fbread.step_moves hi.single.inv.wf hstep
    cases hmoves with
    | read =>
      refine ⟨hsingle, ?_, ?_, hprint.fine, nofun⟩
      · change Reads dev.ring (Function.update dev.reader 0 (.enter (begin sizeofBuf false)) 0)
        rw [Function.update_self]
        exact ⟨rfl, hne⟩
      · change samples (output ++ l) ++
          (Function.update dev.reader 0 (.enter (begin sizeofBuf false)) 0).popped = dev.delivered
        rw [Function.update_self]
        exact hprint.shown
  | interrupted => exact hi.prints hplace (by simp [Line.Fine]) rfl (by simp)
  | @run mask buf dev' hstep =>
    have hone : OneReader dev (.run 0 true) := ⟨rfl, rfl⟩
    have hmoves : Fbread.Moves dev (.run 0 true) dev' :=
      Fbread.step_moves hi.single.inv.wf hstep
    cases hmoves with
    | @run _ _ res hsteps =>
      obtain ⟨hreads, hpopped⟩ :=
        Reads.steps hi.single.inv.wf hsteps (hi.single.inv.books 0) hi.single.enough hplace
      refine hi.moves hone hstep ?_ ?_
      · change Reads res.ring (Function.update dev.reader 0 res.reader 0)
        rw [Function.update_self]
        exact hreads
      · change samples output ++ (Function.update dev.reader 0 res.reader 0).popped =
          dev.delivered ++ res.out
        rw [Function.update_self, hpopped, ← List.append_assoc]
        exact congrArg (· ++ res.out) hshown
  | signal mask buf hwait =>
    -- a signal ends a wait, and this `read` never waits
    have hreads : Reads dev.ring (dev.reader 0) := hplace
    rw [hwait] at hreads
    exact hreads.elim
  | returned mask buf hdone hstep => exact hi.returned hdone hstep
  | @printed mask buf cnt i hlt =>
    refine hi.prints hplace (by simp [Line.Fine]) ?_ nofun
    change [decode _] ++ List.map _ (List.range' (i + 1) (cnt - (i + 1))) =
      List.map _ (List.range' i (cnt - i))
    obtain ⟨k, rfl⟩ := Nat.exists_eq_add_of_lt hlt
    rw [show i + k + 1 - i = k + 1 by omega, show i + k + 1 - (i + 1) = k by omega]
    rfl
  | @done mask buf cnt i hle l hl =>
    refine hi.prints hplace hl.2 ?_ nofun
    rw [hl.1]
    change [] = List.map _ (List.range' i (cnt - i))
    rw [Nat.sub_eq_zero_of_le hle]
    rfl

theorem reach_inv {s : State} (h : system.Reach (fun _ _ => True) s) : s.Inv :=
  h.invariant State.Inv.init fun _ _ _ hi _ hs => hi.step hs

/-- The reader of the driver does not sleep. -/
theorem State.Inv.awake {s : State} (hi : s.Inv) (c : Call) : s.dev.reader 0 ≠ .wait c := by
  intro hwait
  have hplace := hi.place
  cases happ : s.app <;> simp [happ, Place, hwait, Reads, Reader.free] at hplace

/-- **The reader as a system.** In every state reached by the program and the interrupt
thread, in any order and with any data:

* the samples printed, followed by those taken but not printed yet and by those in the
  ring, are the pushed ones with exactly the drops deleted, in order;
* no line says end of file or that `read` failed, and each `read` brings one to eight
  whole samples;
* the program never sleeps in `read`;
* it has returned only where `open` or `poll` failed, with 1. -/
theorem reader_prints {s : State} (h : system.Reach (fun _ _ => True) s) :
    (∃ drops : ℕ, List.Sublist (samples s.output ++ s.pending ++ s.dev.ring.abs) s.dev.pushed ∧
      (samples s.output).length + s.pending.length + s.dev.ring.abs.length + drops =
        s.dev.pushed.length ∧
      s.dev.ring.dropcount = wrap32 drops) ∧
    (∀ l ∈ s.output, l ≠ .eof ∧ l ≠ .perrorRead ∧
      ∀ n cnt, l = .got n cnt → 1 ≤ cnt ∧ cnt ≤ 8 ∧ n = rbdataBytes * cnt) ∧
    (∀ c, s.dev.reader 0 ≠ .wait c) ∧
    (∀ ret, s.app = .exited ret →
      ret = 1 ∧ (.perrorOpen ∈ s.output ∨ .perrorPoll ∈ s.output)) := by
  have hi := reach_inv h
  refine ⟨?_, fun l hl => ?_, hi.awake, hi.ended⟩
  · obtain ⟨L, hpushed, hpopped, hrep⟩ := hi.single.stream
    have habs : s.dev.ring.abs = L.queue.items := hrep.abs
    have hlength : (samples s.output).length + s.pending.length = L.popped.length := by
      rw [hpopped, ← hi.shown, List.length_append]
    refine ⟨L.drops, ?_, ?_, hrep.lost⟩
    · rw [hi.shown, ← hpushed, ← hpopped, habs]
      exact L.sublist
    · rw [hlength, ← hpushed, habs]
      exact L.total
  · have hfine := hi.fine l hl
    refine ⟨?_, ?_, ?_⟩
    · rintro rfl
      exact hfine
    · rintro rfl
      exact hfine
    · rintro n cnt rfl
      exact hfine

/-- Two samples are pushed, and a third while the program reads; all are printed, in two
turns. -/
def threeSamples : List Act :=
  let v (k : ℕ) : Rbdata := ⟨BitVec.ofNat 64 (1000 * k), BitVec.ofNat 32 k, 0⟩
  let bell (status : BitVec 32) : Fakebell.FakeBellState := ⟨false, status, 1, 0, 3⟩
  let buf : ℕ → Byte := fun _ => 0
  [.opens true, .push (v 1), .push (v 2), .poll (bell 0) buf, .read, .push (v 3), .read, .read,
    .returns, .print, .print, .print, .poll (bell 3) buf, .read, .read, .returns, .print]

theorem reader_prints_threeSamples :
    ∃ s, system.exec system.init threeSamples = some s ∧ s.dev.pushed.length = 3 ∧
      samples s.output = s.dev.pushed ∧ s.pending = [] ∧
      (∃ drops : ℕ,
        List.Sublist (samples s.output ++ s.pending ++ s.dev.ring.abs) s.dev.pushed ∧
        (samples s.output).length + s.pending.length + s.dev.ring.abs.length + drops =
          s.dev.pushed.length ∧
        s.dev.ring.dropcount = wrap32 drops) := by
  have hexec : ∃ s, system.exec system.init threeSamples = some s ∧ s.dev.pushed.length = 3 ∧
      samples s.output = s.dev.pushed ∧ s.pending = [] := ⟨_, rfl, rfl, rfl, rfl⟩
  obtain ⟨s, hexec, hlength, hall, hnone⟩ := hexec
  exact ⟨s, hexec, hlength, hall, hnone, (reader_prints (Lts.Reach.init.replay hexec)).1⟩

end BellReader

end KernelDrvLearn
