import KernelDrvLearn.Ownership
import KernelDrvLearn.Prog
import KernelDrvLearn.SensorFault
import KernelDrvLearn.Strtox

/-!
# The sensor tool and its driver

`myproject/app/sensor_tool.c` as a program of system calls, which are answered by
the sensor driver: `deviceUnlockedIoctl` and `devicePoll` on the registers of the
device that a path leads to. Any call may fail instead.

Beside it stands what a command line is for (`asked`, `Asked.reply`), as a table.
A command does that and prints its reply, or fails and changes nothing
(`wp_command`).
-/

namespace KernelDrvLearn

namespace SensorTool

open LittleEndian Prog Sensor

/-! ## System calls

The machine as the tool sees it: open files that lead to devices, and calls that the
driver answers or that fail. The state of the machine is a function of the calls so far,
so that nothing has to be carried along. -/

/-- A C string, without its terminating zero. -/
abbrev Text : Type := List Byte

/-- The calls of the C library that the tool makes. -/
inductive Op where
  /-- `open` with `O_RDWR` -/
  | openRdwr (dev : Text)
  /-- `ioctl`; `arg` is the first word at its argument -/
  | ioctl (fd : ℕ) (cmd : Ioctlnum) (arg : BitVec 32)
  /-- `poll` of one file, for `POLLIN` and `POLLRDNORM` -/
  | poll (fd : ℕ) (timeoutMs : Int)
  /-- `close` -/
  | close (fd : ℕ)
  /-- `printf` -/
  | printf (text : Text)
  /-- `perror` -/
  | perror (s : Text)
  /-- `fprintf(stderr, …)` -/
  | fprintfStderr (text : Text)

/-- What they return: `none` is -1. -/
@[reducible] def Res : Op → Type
  | .openRdwr _ => Option ℕ
  | .ioctl .. => Option (List Byte)
  | .poll .. => Option (BitVec 32)
  | .close _ | .printf _ | .perror _ | .fprintfStderr _ => Unit

/-- What a call does with the open files. -/
def marks : Answered Res → List (Mark ℕ)
  | ⟨.openRdwr _, none⟩ => []
  | ⟨.openRdwr _, some fd⟩ => [⟨.obtained, fd⟩]
  | ⟨.ioctl fd _ _, _⟩ => [⟨.used, fd⟩]
  | ⟨.poll fd _, _⟩ => [⟨.used, fd⟩]
  | ⟨.close fd, _⟩ => [⟨.freed, fd⟩]
  | _ => []

/-- What was done with the open files. -/
def trace (h : History Res) : List (Mark ℕ) := h.flatMap marks

/-- The devices, the open files and what was printed. -/
structure World where
  /-- the registers of each device -/
  stats : ℕ → MysensorStatus
  /-- the device of each open file -/
  files : ℕ → ℕ
  /-- what was printed -/
  out : Text

variable (node : Text → ℕ)

/-- What a call does. A failed one does nothing. -/
def after (w : World) : Answered Res → World
  | ⟨.openRdwr dev, some fd⟩ => { w with files := Function.update w.files fd (node dev) }
  | ⟨.ioctl fd cmd arg, some _⟩ =>
    let d := w.files fd
    { w with
      stats := Function.update w.stats d (deviceUnlockedIoctl (w.stats d) cmd arg 0).stat }
  | ⟨.printf text, _⟩ => { w with out := w.out ++ text }
  | _ => w

/-- After the calls so far. All sensors start with `init_tempstat`. -/
def world (h : History Res) : World := h.foldl (after node) ⟨fun _ => initTempstat, fun _ => 0, []⟩

/-- What the calls may return: an open file is a new one, an ioctl and a poll are
answered by the driver, and a poll without a timeout does not time out. -/
def Answers (h : History Res) : (op : Op) → Res op → Prop
  | .openRdwr _, fd => ∀ n ∈ fd, n ∉ held (trace h)
  | .ioctl fd cmd arg, out => ∀ bytes ∈ out,
      let res := deviceUnlockedIoctl ((world node h).stats ((world node h).files fd)) cmd arg 0
      bytes = res.out ∧ res.ret = 0
  | .poll fd timeoutMs, revents => ∀ mask ∈ revents,
      if mask = 0 then 0 ≤ timeoutMs
      else mask = devicePoll ((world node h).stats ((world node h).files fd))
  | _, _ => True

/-! ## The tool

`sensor_tool.c` by its functions. Where the source jumps to a label, a function here
returns where `main` goes on; `usage` and the texts of the output are those of the source.
-/

/-- `isspace` of the C library, in the C locale. -/
def isspaceC (c : Byte) : Bool := decide (c.toNat = 0x20 ∨ (0x09 ≤ c.toNat ∧ c.toNat ≤ 0x0d))

/-- `strtol` with base 10, of 64 bits. -/
def strtol (s : Text) : Int :=
  let s := s.dropWhile isspaceC
  let n : Int :=
    match s with
    | 0x2d :: s => -(parseInteger 10 0 s).1
    | 0x2b :: s => (parseInteger 10 0 s).1
    | s => (parseInteger 10 0 s).1
  max (-9223372036854775808) (min n 9223372036854775807)

/-- `atoi`: `strtol`, cut down to an `int`. -/
def atoi (s : Text) : BitVec 32 := BitVec.ofInt 32 (strtol s)

/-- The word at a byte of memory, as the tool reads a status. -/
def wordAt (bytes : List Byte) (off : ℕ) : BitVec 32 :=
  BitVec.ofNat 32 ((bytes.getD off 0).toNat + 0x100 * (bytes.getD (off + 1) 0).toNat +
    0x10000 * (bytes.getD (off + 2) 0).toNat + 0x1000000 * (bytes.getD (off + 3) 0).toNat)

/-- `%x`, without zeros in front. -/
def fmtX (w : BitVec 32) : Text :=
  (Nat.toDigits 16 w.toNat).map fun c => BitVec.ofNat 8 c.toNat

/-- A line of output, with its newline. -/
def line (s : String) : Text := ascii s ++ [0x0a]

/-- `usage`, with the name of the program. -/
def usageText (prog : Text) : Text :=
  line "Usage:" ++
  (["get_status", "get_temp", "get_humidity", "get_threshold", "get_alarm", "set_temp <value>",
      "set_humidity <value>", "set_threshold <value>", "clear_alarm", "trigger_alarm",
      "wait_alarm", "wait_alarm_timeout <ms>"].flatMap fun s =>
    ascii "  " ++ prog ++ line (" <dev> " ++ s)) ++
  [0x0a] ++ line "Example:" ++
  ["get_status", "set_temp 88", "wait_alarm", "wait_alarm_timeout 5000"].flatMap fun s =>
    ascii "  " ++ prog ++ line (" /dev/mychardev0 " ++ s)

/-- `usage`, which prints to `stderr`. -/
def usage (prog : Text) : Prog Res Unit := perform (Op.printf (usageText prog))

/-- `do_get_int`: an ioctl, and a line with its number. -/
def doGetInt (fd : ℕ) (cmd : Ioctlnum) (name : Text) : Prog Res Int := do
  match ← perform (Op.ioctl fd cmd 0) with
  | none =>
    perform (Op.perror (ascii "ioctl"))
    pure (-1)
  | some bytes =>
    perform (Op.printf (name ++ ascii ": " ++ fmtD (wordAt bytes 0).toInt ++ [0x0a]))
    pure 0

/-- `do_set_int`: an ioctl with a number, and a line that says so. -/
def doSetInt (fd : ℕ) (cmd : Ioctlnum) (name arg : Text) : Prog Res Int := do
  let val := atoi arg
  match ← perform (Op.ioctl fd cmd val) with
  | none =>
    perform (Op.perror (ascii "ioctl"))
    pure (-1)
  | some _ =>
    perform (Op.printf (name ++ ascii " set to " ++ fmtD val.toInt ++ [0x0a]))
    pure 0

/-- The flags that `do_wait_alarm` names, of those a sensor can set. -/
def flags (revents : BitVec 32) : Text :=
  (if revents &&& pollin ≠ 0 then ascii " POLLIN" else []) ++
    if revents &&& pollrdnorm ≠ 0 then ascii " POLLRDNORM" else []

/-- `do_wait_alarm`: a poll without a timeout, and a line with what it found. -/
def doWaitAlarm (fd : ℕ) (timeoutMs : Int) : Prog Res Int := do
  perform (Op.printf (
    if timeoutMs < 0 then line "waiting for alarm indefinitely..."
    else ascii "waiting for alarm, timeout=" ++ fmtD timeoutMs ++ line " ms..."))
  match ← perform (Op.poll fd timeoutMs) with
  | none =>
    perform (Op.perror (ascii "poll"))
    pure (-1)
  | some revents =>
    if revents = 0 then
      perform (Op.printf (line "poll timeout"))
      pure 0
    else
      perform (Op.printf (line "poll returned: 1"))
      perform (Op.printf (ascii "revents: 0x" ++ fmtX revents ++ flags revents ++ [0x0a]))
      if revents &&& (pollin ||| pollrdnorm) ≠ 0 then
        perform (Op.printf (line "alarm event detected"))
        pure 0
      else pure 0

/-- Where `main` goes on after a command: to its end or to `err`. -/
inductive Goto where
  /-- to `return 0` -/
  | done
  /-- to `usage_err` -/
  | usageErr
  /-- to `err` -/
  | err

/-- To `err` if a command has failed. -/
def orErr (p : Prog Res Int) : Prog Res Goto := do
  let ret ← p
  if ret < 0 then pure .err else pure .done

/-- A command that needs a value: without one the tool says so, and leaves by way of its
usage. -/
def withValue (name : String) (rest : List Text) (p : Text → Prog Res Goto) : Prog Res Goto := do
  match rest with
  | [] =>
    perform (Op.fprintfStderr (line ("missing value for " ++ name)))
    pure .usageErr
  | arg :: _ => p arg

/-- `MYSENSOR_IOC_CLEAR_ALARM` and `MYSENSOR_IOC_TRIGGER_ALARM`, which take no value. -/
def control (fd : ℕ) (cmd : Ioctlnum) (msg : String) : Prog Res Goto := do
  match ← perform (Op.ioctl fd cmd 0) with
  | none =>
    perform (Op.perror (ascii "ioctl"))
    pure .err
  | some _ =>
    perform (Op.printf (line msg))
    pure .done

/-- The commands of `main`: `name` is `argv[2]`, and `rest` comes after it. -/
def command (fd : ℕ) (name : Text) (rest : List Text) : Prog Res Goto := do
  if name = ascii "get_status" then
    match ← perform (Op.ioctl fd .getStatus 0) with
    | none =>
      perform (Op.perror (ascii "ioctl"))
      pure .err
    | some st =>
      perform (Op.printf (ascii "temp=" ++ digits (wordAt st 0).toNat ++
        ascii " humidity=" ++ digits (wordAt st 4).toNat ++
        ascii " threshold=" ++ digits (wordAt st 8).toNat ++
        ascii " alarm=" ++ digits (wordAt st 12).toNat ++ [0x0a]))
      pure .done
  else if name = ascii "get_temp" then orErr (doGetInt fd .getTemp (ascii "temp"))
  else if name = ascii "get_humidity" then orErr (doGetInt fd .getHumidity (ascii "humidity"))
  else if name = ascii "get_threshold" then orErr (doGetInt fd .getThreshold (ascii "threshold"))
  else if name = ascii "get_alarm" then orErr (doGetInt fd .getAlarm (ascii "alarm"))
  else if name = ascii "set_temp" then
    withValue "set_temp" rest fun arg => orErr (doSetInt fd .setTemp (ascii "temp") arg)
  else if name = ascii "set_humidity" then
    withValue "set_humidity" rest fun arg => orErr (doSetInt fd .setHumidity (ascii "humidity") arg)
  else if name = ascii "set_threshold" then
    withValue "set_threshold" rest fun arg =>
      orErr (doSetInt fd .setThreshold (ascii "threshold") arg)
  else if name = ascii "clear_alarm" then control fd .clearAlarm "alarm cleared"
  else if name = ascii "trigger_alarm" then control fd .triggerAlarm "alarm triggered"
  else if name = ascii "wait_alarm" then orErr (doWaitAlarm fd (-1))
  else if name = ascii "wait_alarm_timeout" then
    match rest with
    | [] =>
      perform (Op.fprintfStderr (line "missing timeout(ms) for wait_alarm_timeout"))
      pure .usageErr
    | arg :: _ =>
      let timeoutMs := (atoi arg).toInt
      if timeoutMs < 0 then
        perform (Op.fprintfStderr (line "timeout must be >= 0"))
        pure .err
      else orErr (doWaitAlarm fd timeoutMs)
  else
    perform (Op.fprintfStderr (ascii "unknown command: " ++ name ++ [0x0a]))
    pure .usageErr

/-- `main`, with `argv`, up to its exit status. -/
def main (argv : List Text) : Prog Res Int := do
  match argv with
  | prog :: dev :: name :: rest =>
    match ← perform (Op.openRdwr dev) with
    | none =>
      perform (Op.perror (ascii "open"))
      pure 1
    | some fd =>
      match ← command fd name rest with
      | .done =>
        perform (Op.close fd)
        pure 0
      | .usageErr =>
        usage prog
        perform (Op.close fd)
        pure 1
      | .err =>
        perform (Op.close fd)
        pure 1
  | _ =>
    usage (argv.headD [])
    pure 1

/-- The tool is run with one command line after another; each leaves its exit
status. -/
def session : List (List Text) → Prog Res (List Int)
  | [] => pure []
  | argv :: argvs => do
    let ret ← main argv
    let rets ← session argvs
    pure (ret :: rets)

/-! ## What a command line is for

The same from the other side: a command line asks a device for something, and what that
does and prints can be said without any program. The devices after a session follow from
the command lines that have succeeded. -/

/-- An ioctl of a device, with its argument. -/
structure Asked where
  /-- the device -/
  dev : ℕ
  /-- the command -/
  cmd : Ioctlnum
  /-- its argument -/
  arg : BitVec 32

/-- The commands without a value, with their ioctls. -/
def plain : List (Text × Ioctlnum) :=
  [(ascii "get_status", .getStatus), (ascii "get_temp", .getTemp),
    (ascii "get_humidity", .getHumidity), (ascii "get_threshold", .getThreshold),
    (ascii "get_alarm", .getAlarm), (ascii "clear_alarm", .clearAlarm),
    (ascii "trigger_alarm", .triggerAlarm)]

/-- The commands with a value, with their ioctls. -/
def valued : List (Text × Ioctlnum) :=
  [(ascii "set_temp", .setTemp), (ascii "set_humidity", .setHumidity),
    (ascii "set_threshold", .setThreshold)]

/-- What a command line asks for, if it is not a wait. -/
def asked : List Text → Option Asked
  | _ :: dev :: name :: rest =>
    match plain.lookup name with
    | some cmd => some ⟨node dev, cmd, 0⟩
    | none =>
      match rest with
      | [] => none
      | arg :: _ => (valued.lookup name).map fun cmd => ⟨node dev, cmd, atoi arg⟩
  | _ => none

/-- What it does to the devices, by the driver's own ioctl. -/
def Asked.serve (a : Asked) (stats : ℕ → MysensorStatus) : ℕ → MysensorStatus :=
  Function.update stats a.dev (effect (stats a.dev) a.cmd a.arg).stat

/-- What it prints, from the driver's answer. -/
def Asked.reply (a : Asked) (stats : ℕ → MysensorStatus) : Text :=
  let stat := stats a.dev
  match a.cmd with
  | .getStatus =>
    ascii "temp=" ++ digits stat.temp.toNat ++ ascii " humidity=" ++ digits stat.humidity.toNat ++
      ascii " threshold=" ++ digits stat.threshold.toNat ++
      ascii " alarm=" ++ digits stat.alarm.toNat ++ [0x0a]
  | .getTemp => ascii "temp" ++ ascii ": " ++ fmtD stat.temp.toInt ++ [0x0a]
  | .getHumidity => ascii "humidity" ++ ascii ": " ++ fmtD stat.humidity.toInt ++ [0x0a]
  | .getThreshold => ascii "threshold" ++ ascii ": " ++ fmtD stat.threshold.toInt ++ [0x0a]
  | .getAlarm => ascii "alarm" ++ ascii ": " ++ fmtD stat.alarm.toInt ++ [0x0a]
  | .setTemp => ascii "temp" ++ ascii " set to " ++ fmtD a.arg.toInt ++ [0x0a]
  | .setHumidity => ascii "humidity" ++ ascii " set to " ++ fmtD a.arg.toInt ++ [0x0a]
  | .setThreshold => ascii "threshold" ++ ascii " set to " ++ fmtD a.arg.toInt ++ [0x0a]
  | .clearAlarm => line "alarm cleared"
  | .triggerAlarm => line "alarm triggered"
  | .unknown => []

/-- The devices after a command line and its exit status. -/
def served (stats : ℕ → MysensorStatus) (argv : List Text) (ret : Int) : ℕ → MysensorStatus :=
  if ret = 0 then (asked node argv).elim stats fun a => a.serve stats else stats

/-- The devices after a session, by its command lines. -/
def devices (argvs : List (List Text)) (rets : List Int) : ℕ → MysensorStatus :=
  (argvs.zip rets).foldl (fun stats r => served node stats r.1 r.2) fun _ => initTempstat

/-! ## Words and numbers

A number goes through the tool as text, as an `int`, as four bytes and as text again. Each
of these steps can be undone. -/

theorem bytesOf_eq (w : BitVec 32) : bytesOf w =
    [BitVec.ofNat 8 w.toNat, BitVec.ofNat 8 (w.toNat / 256), BitVec.ofNat 8 (w.toNat / 256 / 256),
      BitVec.ofNat 8 (w.toNat / 256 / 256 / 256)] := rfl

/-- A word is read back from its bytes. -/
theorem wordAt_zero (w : BitVec 32) (bytes : List Byte) : wordAt (bytesOf w ++ bytes) 0 = w := by
  apply BitVec.eq_of_toNat_eq
  have hw := w.isLt
  simp only [wordAt, bytesOf_eq, List.cons_append, List.getD_cons_zero, List.getD_cons_succ,
    BitVec.toNat_ofNat]
  omega

theorem wordAt_add (w : BitVec 32) (bytes : List Byte) (off : ℕ) :
    wordAt (bytesOf w ++ bytes) (off + 4) = wordAt bytes off := rfl

theorem wordAt_bytesOf (w : BitVec 32) : wordAt (bytesOf w) 0 = w := by
  simpa using wordAt_zero w []

/-- The words of `MYSENSOR_IOC_GET_STATUS`, in the order of the fields of the structure.
-/
theorem wordAt_status (stat : MysensorStatus) :
    let st := (effect stat .getStatus 0).out
    wordAt st 0 = stat.temp ∧ wordAt st 4 = stat.humidity ∧ wordAt st 8 = stat.threshold ∧
      wordAt st 12 = stat.alarm := by
  simp only [effect, List.append_assoc]
  refine ⟨wordAt_zero _ _, ?_, ?_, ?_⟩
  · rw [wordAt_add _ _ 0, wordAt_zero]
  · rw [wordAt_add _ _ 4, wordAt_add _ _ 0, wordAt_zero]
  · rw [wordAt_add _ _ 8, wordAt_add _ _ 4, wordAt_add _ _ 0, wordAt_bytesOf]

theorem strtol_digit {c : Byte} (hc : isdigit c = true) (s : Text) :
    strtol (c :: s) = max (-9223372036854775808)
      (min ((parseInteger 10 0 (c :: s)).1 : Int) 9223372036854775807) := by
  have hspace : ∀ c : Byte, isdigit c = true → isspaceC c = false := by decide +kernel
  obtain ⟨hminus, hplus, -⟩ := isdigit_ne hc
  rw [strtol, List.dropWhile_cons_of_neg (by rw [hspace c hc]; nofun)]
  split
  case h_1 heq => exact absurd (List.cons.inj heq).1 hminus
  case h_2 heq => exact absurd (List.cons.inj heq).1 hplus
  case h_3 => rfl

theorem strtol_minus (s : Text) : strtol (0x2d :: s) = max (-9223372036854775808)
    (min (-((parseInteger 10 0 s).1 : Int)) 9223372036854775807) := rfl

/-- `atoi` reads back what `%d` prints, for every `int`. So a value goes through a command
line unchanged. -/
theorem atoi_fmtD (v : BitVec 32) : atoi (fmtD v.toInt) = v := by
  have hlo := BitVec.le_toInt v
  have hhi := BitVec.toInt_lt (x := v)
  have hparse : (parseInteger 10 0 (digits v.toInt.natAbs)).1 = v.toInt.natAbs := by
    have hdigits := parseInteger_digits v.toInt.natAbs []
    rw [List.append_nil] at hdigits
    rw [hdigits]
    rfl
  have hstrtol : strtol (fmtD v.toInt) = v.toInt := by
    by_cases hneg : v.toInt < 0
    · rw [fmtD_neg hneg, strtol_minus, hparse]
      omega
    · obtain ⟨c, s, heq, hc⟩ := digits_head v.toInt.natAbs
      rw [fmtD_nonneg (Int.not_lt.mp hneg), heq, strtol_digit hc, ← heq, hparse]
      omega
  rw [atoi, hstrtol, BitVec.ofInt_toInt]

/-! ## One call

What each system call may do to the files and the devices, as a rule for programs. `At`
says how the world stands between two calls of a command. -/

/-- A file is open, beside others, and the world is as told. -/
structure At (node : Text → ℕ) (fds : List ℕ) (w : World) (h : History Res) : Prop where
  owns : Owned fds (trace h)
  world : world node h = w

section Calls

variable {node} {fds : List ℕ} {fd : ℕ} {w : World} {h : History Res}

theorem At.snoc {fds' : List ℕ} (hat : At node fds w h) (a : Answered Res)
    (howned : Owned fds' (trace h ++ marks a)) : At node fds' (after node w a) (h ++ [a]) := by
  refine ⟨by simpa [trace] using howned, ?_⟩
  rw [SensorTool.world, List.foldl_append, List.foldl_cons, List.foldl_nil, ← hat.world]
  rfl

/-- A call that has nothing to do with the files. -/
theorem At.keep (hat : At node fds w h) (a : Answered Res) (hmarks : marks a = []) :
    At node fds (after node w a) (h ++ [a]) :=
  hat.snoc a (by rw [hmarks, List.append_nil]; exact hat.owns)

/-- An ioctl fails, or is served by the driver, with its effect and its answer. -/
theorem wp_ioctl {Q : Option (List Byte) → History Res → Prop} {cmd : Ioctlnum} {arg : BitVec 32}
    (hat : At node fds w h) (hfd : fd ∈ fds)
    (hnone : ∀ h', At node fds w h' → Q none h')
    (hsome : ∀ h', At node fds
      { w with stats := (⟨w.files fd, cmd, arg⟩ : Asked).serve w.stats } h' →
      Q (some (effect (w.stats (w.files fd)) cmd arg).out) h') :
    wp (Answers node) (perform (Op.ioctl fd cmd arg)) Q h := by
  refine wp_perform.mpr fun out hout => ?_
  have hat' := hat.snoc ⟨.ioctl fd cmd arg, out⟩ (hat.owns.use hfd)
  cases out with
  | none => exact hnone _ hat'
  | some bytes =>
    obtain ⟨hbytes, -⟩ := hout bytes rfl
    rw [hat.world, ioctl_effect] at hbytes
    subst hbytes
    refine hsome _ ?_
    rwa [after, ioctl_effect] at hat'

theorem wp_printf {Q : Unit → History Res → Prop} {text : Text} (hat : At node fds w h)
    (hQ : ∀ h', At node fds { w with out := w.out ++ text } h' → Q () h') :
    wp (Answers node) (perform (Op.printf text)) Q h :=
  wp_perform.mpr fun _ _ => hQ _ (hat.keep ⟨.printf text, ()⟩ rfl)

theorem wp_perror {Q : Unit → History Res → Prop} {s : Text} (hat : At node fds w h)
    (hQ : ∀ h', At node fds w h' → Q () h') :
    wp (Answers node) (perform (Op.perror s)) Q h :=
  wp_perform.mpr fun _ _ => hQ _ (hat.keep ⟨.perror s, ()⟩ rfl)

theorem wp_fprintfStderr {Q : Unit → History Res → Prop} {text : Text} (hat : At node fds w h)
    (hQ : ∀ h', At node fds w h' → Q () h') :
    wp (Answers node) (perform (Op.fprintfStderr text)) Q h :=
  wp_perform.mpr fun _ _ => hQ _ (hat.keep ⟨.fprintfStderr text, ()⟩ rfl)

theorem wp_poll {Q : Option (BitVec 32) → History Res → Prop} {timeoutMs : Int}
    (hat : At node fds w h) (hfd : fd ∈ fds) (hQ : ∀ r h', At node fds w h' → Q r h') :
    wp (Answers node) (perform (Op.poll fd timeoutMs)) Q h :=
  wp_perform.mpr fun r _ => hQ r _ (hat.snoc ⟨.poll fd timeoutMs, r⟩ (hat.owns.use hfd))

/-! ## The commands

Each function of the tool ends in one of two ways: nothing was done, or what was asked for
was done and printed. `Ends` says so, and passes from the functions to `main`. -/

/-- How a command ends that asks for `a`: with nothing changed unless it is done,
and else with `a` served, and its reply printed. -/
def Ends (node : Text → ℕ) (fds : List ℕ) (w : World) (a : Option Asked) (done : Prop)
    (h : History Res) : Prop :=
  (¬ done → ∃ out, At node fds { w with out := out } h) ∧
  (done → ∃ out, (∀ b ∈ a, out = w.out ++ b.reply w.stats) ∧
    At node fds { w with stats := a.elim w.stats (·.serve w.stats), out := out } h)

/-- It is not done, and the devices are as before. -/
theorem At.failed {a : Option Asked} {done : Prop} {out : Text}
    (hat : At node fds { w with out := out } h) (hdone : ¬ done) : Ends node fds w a done h :=
  ⟨fun _ => ⟨out, hat⟩, fun hd => absurd hd hdone⟩

/-- It is done, and its reply is printed. -/
theorem At.served {a : Asked} {done : Prop} (hdone : done)
    (hat : At node fds { w with stats := a.serve w.stats, out := w.out ++ a.reply w.stats } h) :
    Ends node fds w (some a) done h :=
  ⟨fun hnot => absurd hdone hnot, fun _ => ⟨_, by simp, hat⟩⟩

/-- A wait is done: nothing has changed, and a line is printed. -/
theorem At.waited {done : Prop} {out : Text} (hdone : done)
    (hat : At node fds { w with out := out } h) : Ends node fds w none done h :=
  ⟨fun hnot => absurd hdone hnot, fun _ => ⟨out, by simp, hat⟩⟩

theorem wp_doGetInt {cmd : Ioctlnum} {name : Text} (hat : At node fds w h) (hfd : fd ∈ fds)
    (hreply : (⟨w.files fd, cmd, 0⟩ : Asked).reply w.stats = name ++ ascii ": " ++
      fmtD (wordAt (effect (w.stats (w.files fd)) cmd 0).out 0).toInt ++ [0x0a]) :
    wp (Answers node) (doGetInt fd cmd name)
      (fun ret => Ends node fds w (some ⟨w.files fd, cmd, 0⟩) (¬ ret < 0)) h := by
  rw [doGetInt, wp_bind]
  refine wp_ioctl hat hfd (fun h hat => ?_) fun h hat => ?_
  · rw [wp_bind]
    exact wp_perror hat fun h hat => wp_pure.mpr (hat.failed (by decide))
  · rw [wp_bind]
    refine wp_printf hat fun h hat => wp_pure.mpr (At.served (by decide) ?_)
    rwa [hreply]

theorem wp_doSetInt {cmd : Ioctlnum} {name arg : Text} (hat : At node fds w h) (hfd : fd ∈ fds)
    (hreply : (⟨w.files fd, cmd, atoi arg⟩ : Asked).reply w.stats =
      name ++ ascii " set to " ++ fmtD (atoi arg).toInt ++ [0x0a]) :
    wp (Answers node) (doSetInt fd cmd name arg)
      (fun ret => Ends node fds w (some ⟨w.files fd, cmd, atoi arg⟩) (¬ ret < 0)) h := by
  rw [doSetInt, wp_bind]
  refine wp_ioctl hat hfd (fun h hat => ?_) fun h hat => ?_
  · rw [wp_bind]
    exact wp_perror hat fun h hat => wp_pure.mpr (hat.failed (by decide))
  · rw [wp_bind]
    refine wp_printf hat fun h hat => wp_pure.mpr (At.served (by decide) ?_)
    rwa [hreply]

theorem wp_control {cmd : Ioctlnum} {msg : String} (hat : At node fds w h) (hfd : fd ∈ fds)
    (hreply : (⟨w.files fd, cmd, 0⟩ : Asked).reply w.stats = line msg) :
    wp (Answers node) (control fd cmd msg)
      (fun g => Ends node fds w (some ⟨w.files fd, cmd, 0⟩) (g = .done)) h := by
  rw [control, wp_bind]
  refine wp_ioctl hat hfd (fun h hat => ?_) fun h hat => ?_
  · rw [wp_bind]
    exact wp_perror hat fun h hat => wp_pure.mpr (hat.failed (by simp))
  · rw [wp_bind]
    refine wp_printf hat fun h hat => wp_pure.mpr (At.served rfl ?_)
    rwa [hreply]

theorem wp_doWaitAlarm {timeoutMs : Int} (hat : At node fds w h) (hfd : fd ∈ fds) :
    wp (Answers node) (doWaitAlarm fd timeoutMs)
      (fun ret => Ends node fds w none (¬ ret < 0)) h := by
  rw [doWaitAlarm, wp_bind]
  refine wp_printf hat fun h hat => ?_
  rw [wp_bind]
  refine wp_poll hat hfd fun revents h hat => ?_
  cases revents with
  | none =>
    rw [wp_bind]
    exact wp_perror hat fun h hat => wp_pure.mpr (hat.failed (by decide))
  | some revents =>
    dsimp only
    split
    · rw [wp_bind]
      exact wp_printf hat fun h hat => wp_pure.mpr (At.waited (by decide) hat)
    · rw [wp_bind]
      refine wp_printf hat fun h hat => ?_
      rw [wp_bind]
      refine wp_printf hat fun h hat => ?_
      split
      · rw [wp_bind]
        exact wp_printf hat fun h hat => wp_pure.mpr (At.waited (by decide) hat)
      · exact wp_pure.mpr (At.waited (by decide) hat)

theorem wp_orErr {p : Prog Res Int} {a : Option Asked}
    (hp : wp (Answers node) p (fun ret => Ends node fds w a (¬ ret < 0)) h) :
    wp (Answers node) (orErr p) (fun g => Ends node fds w a (g = .done)) h := by
  rw [orErr, wp_bind]
  refine wp_mono (fun ret h hends => ?_) hp
  split
  · next hneg => simpa [Ends, hneg] using hends
  · next hpos => simpa [Ends, hpos] using hends

/-- A command whose value is missing, or that goes on with it. -/
theorem wp_withValue {name : String} {rest : List Text} {p : Text → Prog Res Goto}
    {a : Text → Option Asked} (hat : At node fds w h)
    (hp : ∀ arg, wp (Answers node) (p arg) (fun g => Ends node fds w (a arg) (g = .done)) h) :
    wp (Answers node) (withValue name rest p)
      (fun g => Ends node fds w (rest.head?.bind a) (g = .done)) h := by
  cases rest with
  | nil =>
    rw [withValue, wp_bind]
    exact wp_fprintfStderr hat fun h hat => wp_pure.mpr (hat.failed (by simp))
  | cons arg rest => exact hp arg

variable {prog dev name : Text} {rest : List Text} {cmd : Ioctlnum}

theorem asked_plain (hname : plain.lookup name = some cmd) :
    asked node (prog :: dev :: name :: rest) = some ⟨node dev, cmd, 0⟩ := by
  simp only [asked, hname]

theorem asked_valued (hplain : plain.lookup name = none) (hname : valued.lookup name = some cmd) :
    asked node (prog :: dev :: name :: rest) =
      rest.head?.bind fun arg => some ⟨node dev, cmd, atoi arg⟩ := by
  cases rest with
  | nil => simp [asked, hplain]
  | cons arg rest => simp [asked, hplain, hname]

theorem asked_wait (hplain : plain.lookup name = none) (hname : valued.lookup name = none) :
    asked node (prog :: dev :: name :: rest) = none := by
  cases rest with
  | nil => simp [asked, hplain]
  | cons arg rest => simp [asked, hplain, hname]

/-- A getter, by its ioctl and the printing of its number. -/
theorem wp_get {s : String} (hat : At node fds w h) (hfd : fd ∈ fds) (hdev : w.files fd = node dev)
    (hname : plain.lookup name = some cmd)
    (hreply : (⟨w.files fd, cmd, 0⟩ : Asked).reply w.stats = ascii s ++ ascii ": " ++
      fmtD (wordAt (effect (w.stats (w.files fd)) cmd 0).out 0).toInt ++ [0x0a]) :
    wp (Answers node) (orErr (doGetInt fd cmd (ascii s)))
      (fun g => Ends node fds w (asked node (prog :: dev :: name :: rest)) (g = .done)) h := by
  rw [asked_plain hname, ← hdev]
  exact wp_orErr (wp_doGetInt hat hfd hreply)

/-- A setter, by the parsing of its value and its ioctl. -/
theorem wp_set {s s' : String} (hat : At node fds w h) (hfd : fd ∈ fds)
    (hdev : w.files fd = node dev) (hplain : plain.lookup name = none)
    (hname : valued.lookup name = some cmd)
    (hreply : ∀ val : BitVec 32, (⟨w.files fd, cmd, val⟩ : Asked).reply w.stats =
      ascii s ++ ascii " set to " ++ fmtD val.toInt ++ [0x0a]) :
    wp (Answers node)
      (withValue s' rest fun arg => orErr (doSetInt fd cmd (ascii s) arg))
      (fun g => Ends node fds w (asked node (prog :: dev :: name :: rest)) (g = .done)) h := by
  rw [asked_valued hplain hname, ← hdev]
  exact wp_withValue hat fun arg => wp_orErr (wp_doSetInt hat hfd (hreply (atoi arg)))

/-- An alarm command, by its ioctl. -/
theorem wp_alarm {msg : String} (hat : At node fds w h) (hfd : fd ∈ fds)
    (hdev : w.files fd = node dev) (hname : plain.lookup name = some cmd)
    (hreply : (⟨w.files fd, cmd, 0⟩ : Asked).reply w.stats = line msg) :
    wp (Answers node) (control fd cmd msg)
      (fun g => Ends node fds w (asked node (prog :: dev :: name :: rest)) (g = .done)) h := by
  rw [asked_plain hname, ← hdev]
  exact wp_control hat hfd hreply

theorem wp_command (prog : Text) (hat : At node fds w h) (hfd : fd ∈ fds)
    (hdev : w.files fd = node dev) :
    wp (Answers node) (command fd name rest)
      (fun g => Ends node fds w (asked node (prog :: dev :: name :: rest)) (g = .done)) h := by
  -- one name after another, as the program compares them
  unfold command
  by_cases hname : name = ascii "get_status"
  · rw [if_pos hname, asked_plain (by rw [hname]; rfl), ← hdev, wp_bind]
    refine wp_ioctl hat hfd (fun h hat => ?_) fun h hat => ?_
    · rw [wp_bind]
      exact wp_perror hat fun h hat => wp_pure.mpr (hat.failed (by simp))
    · rw [wp_bind]
      refine wp_printf hat fun h hat => wp_pure.mpr (At.served rfl ?_)
      obtain ⟨htemp, hhumidity, hthreshold, halarm⟩ := wordAt_status (w.stats (w.files fd))
      -- the reply prints the words in the order of the fields
      rwa [htemp, hhumidity, hthreshold, halarm] at hat
  rw [if_neg hname]
  by_cases hname : name = ascii "get_temp"
  · rw [if_pos hname]
    exact wp_get hat hfd hdev (by rw [hname]; rfl) (by simp [Asked.reply, effect, wordAt_bytesOf])
  rw [if_neg hname]
  by_cases hname : name = ascii "get_humidity"
  · rw [if_pos hname]
    exact wp_get hat hfd hdev (by rw [hname]; rfl) (by simp [Asked.reply, effect, wordAt_bytesOf])
  rw [if_neg hname]
  by_cases hname : name = ascii "get_threshold"
  · rw [if_pos hname]
    exact wp_get hat hfd hdev (by rw [hname]; rfl) (by simp [Asked.reply, effect, wordAt_bytesOf])
  rw [if_neg hname]
  by_cases hname : name = ascii "get_alarm"
  · rw [if_pos hname]
    exact wp_get hat hfd hdev (by rw [hname]; rfl) (by simp [Asked.reply, effect, wordAt_bytesOf])
  rw [if_neg hname]
  by_cases hname : name = ascii "set_temp"
  · rw [if_pos hname]
    exact wp_set hat hfd hdev (by rw [hname]; rfl) (by rw [hname]; rfl) fun _ => rfl
  rw [if_neg hname]
  by_cases hname : name = ascii "set_humidity"
  · rw [if_pos hname]
    exact wp_set hat hfd hdev (by rw [hname]; rfl) (by rw [hname]; rfl) fun _ => rfl
  rw [if_neg hname]
  by_cases hname : name = ascii "set_threshold"
  · rw [if_pos hname]
    exact wp_set hat hfd hdev (by rw [hname]; rfl) (by rw [hname]; rfl) fun _ => rfl
  rw [if_neg hname]
  by_cases hname : name = ascii "clear_alarm"
  · rw [if_pos hname]
    exact wp_alarm hat hfd hdev (by rw [hname]; rfl) rfl
  rw [if_neg hname]
  by_cases hname : name = ascii "trigger_alarm"
  · rw [if_pos hname]
    exact wp_alarm hat hfd hdev (by rw [hname]; rfl) rfl
  rw [if_neg hname]
  by_cases hname : name = ascii "wait_alarm"
  · rw [if_pos hname, asked_wait (by rw [hname]; rfl) (by rw [hname]; rfl)]
    exact wp_orErr (wp_doWaitAlarm hat hfd)
  rw [if_neg hname]
  by_cases hname : name = ascii "wait_alarm_timeout"
  · rw [if_pos hname, asked_wait (by rw [hname]; rfl) (by rw [hname]; rfl)]
    cases rest with
    | nil =>
      dsimp only
      rw [wp_bind]
      exact wp_fprintfStderr hat fun h hat => wp_pure.mpr (hat.failed (by simp))
    | cons arg rest =>
      dsimp only
      split
      · rw [wp_bind]
        exact wp_fprintfStderr hat fun h hat => wp_pure.mpr (hat.failed (by simp))
      · exact wp_orErr (wp_doWaitAlarm hat hfd)
  -- no name fits: an unknown command
  rw [if_neg hname, wp_bind]
  exact wp_fprintfStderr hat fun h hat => wp_pure.mpr (hat.failed (by simp))

end Calls

end SensorTool

end KernelDrvLearn
