import KernelDrvLearn.SensorTool

/-!
# Sessions with the sensor tool

One command line after another, for any devices. In every session the registers of
all devices are what the command lines that returned 0 have asked for, each of
these has printed what it should, one that returned 1 has changed nothing, and
each file that was opened is closed again (`tool_spec`). So what a getter prints
is the last value set (`get_prints_set`).
-/

namespace KernelDrvLearn

namespace SensorTool

open Prog Sensor

variable (node : Text → ℕ)

section Calls

variable {node} {fds : List ℕ} {fd : ℕ} {w : World} {h : History Res}
  {prog dev name : Text} {rest : List Text} {cmd : Ioctlnum}

/-! ## The tool and its sessions

From the commands to the command line: `main` opens the device, runs a command, and closes
the file on each of its paths. A session then goes by its command lines, each from where
the one before has left the devices. -/

/-- How a command line ends: the files as before, and the devices served. -/
structure Ran (node : Text → ℕ) (fds : List ℕ) (w : World) (argv : List Text) (ret : Int)
    (h : History Res) : Prop where
  owns : Owned fds (trace h)
  status : ret = 0 ∨ ret = 1
  stats : (world node h).stats = served node w.stats argv ret
  out : ret = 0 → ∀ a ∈ asked node argv, (world node h).out = w.out ++ a.reply w.stats

/-- A file that is opened is a new one, and leads to its device. -/
theorem wp_open {Q : Option ℕ → History Res → Prop} (hat : At node fds w h)
    (hnone : ∀ h', At node fds w h' → Q none h')
    (hsome : ∀ fd h', At node (fd :: fds)
      { w with files := Function.update w.files fd (node dev) } h' → Q (some fd) h') :
    wp (Answers node) (perform (Op.openRdwr dev)) Q h := by
  refine wp_perform.mpr fun fd hfd => ?_
  cases fd with
  | none => exact hnone _ (hat.keep ⟨.openRdwr dev, none⟩ rfl)
  | some fd =>
    have hnew : fd ∉ fds := fun hmem => hfd fd rfl (hat.owns.mem_held.mpr hmem)
    exact hsome fd _ (hat.snoc ⟨.openRdwr dev, some fd⟩ (hat.owns.obtain hnew))

theorem wp_close {Q : Unit → History Res → Prop} (hat : At node (fd :: fds) w h)
    (hQ : ∀ h', At node fds w h' → Q () h') :
    wp (Answers node) (perform (Op.close fd)) Q h :=
  wp_perform.mpr fun _ _ => hQ _ (hat.snoc ⟨.close fd, ()⟩ (hat.owns.release (Or.inl rfl)))

/-- It has failed, and has changed nothing. -/
theorem At.ran {argv : List Text} {w' : World} (hat : At node fds w' h)
    (hstats : w'.stats = w.stats) : Ran node fds w argv 1 h :=
  ⟨hat.owns, Or.inr rfl, by rw [hat.world, hstats]; rfl, by simp⟩

/-- Too few words: the usage is printed, and nothing opened. -/
theorem wp_usage {argv : List Text} (hat : At node fds w h) :
    wp (Answers node) (do usage prog; pure (1 : Int)) (fun ret => Ran node fds w argv ret) h := by
  rw [usage, wp_bind]
  exact wp_printf hat fun h hat => wp_pure.mpr (hat.ran rfl)

theorem wp_main {argv : List Text} (hat : At node fds w h) :
    wp (Answers node) (main argv) (fun ret => Ran node fds w argv ret) h := by
  rcases argv with _ | ⟨prog, _ | ⟨dev, _ | ⟨name, rest⟩⟩⟩
  · exact wp_usage hat
  · exact wp_usage hat
  · exact wp_usage hat
  rw [main, wp_bind]
  refine wp_open hat (fun h hat => ?_) fun fd h hat => ?_
  · rw [wp_bind]
    exact wp_perror hat fun h hat => wp_pure.mpr (hat.ran rfl)
  rw [wp_bind]
  have hdev : Function.update w.files fd (node dev) fd = node dev := Function.update_self ..
  refine wp_mono (fun g h hends => ?_) (wp_command prog hat List.mem_cons_self hdev)
  cases g with
  | done =>
    obtain ⟨out, hout, hat⟩ := hends.2 rfl
    rw [wp_bind]
    refine wp_close hat fun h hat => wp_pure.mpr ⟨hat.owns, Or.inl rfl, ?_, fun _ a ha => ?_⟩
    · rw [hat.world]
      rfl
    · rw [hat.world]
      exact hout a ha
  | usageErr =>
    obtain ⟨out, hat⟩ := hends.1 (by simp)
    rw [usage, wp_bind]
    refine wp_printf hat fun h hat => ?_
    rw [wp_bind]
    exact wp_close hat fun h hat => wp_pure.mpr (hat.ran rfl)
  | err =>
    obtain ⟨out, hat⟩ := hends.1 (by simp)
    rw [wp_bind]
    exact wp_close hat fun h hat => wp_pure.mpr (hat.ran rfl)

/-- After a session no file is open, and the devices are as its command lines say. -/
theorem wp_session {argvs : List (List Text)} (hat : At node fds w h) :
    wp (Answers node) (session argvs) (fun rets h => Owned fds (trace h) ∧
      rets.length = argvs.length ∧ (world node h).stats =
        (argvs.zip rets).foldl (fun stats r => served node stats r.1 r.2) w.stats) h := by
  induction argvs generalizing w h with
  | nil => exact wp_pure.mpr ⟨hat.owns, rfl, by rw [hat.world]; rfl⟩
  | cons argv argvs ih =>
    rw [session, wp_bind]
    refine wp_mono (fun ret h hran => ?_) (wp_main hat)
    rw [wp_bind]
    refine wp_mono (fun rets h ⟨howns, hlen, hstats⟩ => wp_pure.mpr ⟨howns, ?_, ?_⟩)
      (ih ⟨hran.owns, rfl⟩)
    · rw [List.length_cons, hlen, List.length_cons]
    · rw [hstats, hran.stats]
      rfl

end Calls

variable {argvs : List (List Text)} {argv : List Text} {rets : List Int} {ret : Int}
  {h h' : History Res}

/-- A session and one more command line, with what that has added. -/
theorem ran_session (hrun : Runs (Answers node) [] (session argvs) rets h)
    (hmain : Runs (Answers node) h (main argv) ret h') :
    Ran node [] { world node h with stats := devices node argvs rets } argv ret h' ∧
      rets.length = argvs.length := by
  have hinit : At node [] ⟨fun _ => initTempstat, fun _ => 0, []⟩ [] := ⟨Owned.nil, rfl⟩
  obtain ⟨howns, hlen, hstats⟩ := hrun.spec (wp_session hinit)
  refine ⟨hmain.spec (wp_main ⟨howns, ?_⟩), hlen⟩
  rw [devices, ← hstats]

/-- **The tool and the driver.** After any session, whatever calls have failed in
it: a command line returns 0 or 1; with 0 its device has done what it asks for,
from the state that the command lines before have led to, and its reply is
printed; with 1 all devices are as before. And every file opened so far was
closed, once, and not used after that. -/
theorem tool_spec (hrun : Runs (Answers node) [] (session argvs) rets h)
    (hmain : Runs (Answers node) h (main argv) ret h') :
    (ret = 0 ∨ ret = 1) ∧
      (world node h').stats = served node (devices node argvs rets) argv ret ∧
      (ret = 0 → ∀ a ∈ asked node argv,
        (world node h').out = (world node h).out ++ a.reply (devices node argvs rets)) ∧
      ∀ fd, Lifetimes (usesOf fd (trace h')) :=
  have hran := (ran_session node hrun hmain).1
  ⟨hran.status, hran.stats, hran.out, fun fd => hran.owns.lifetimes fd⟩

/-! ## A machine with one sensor

An environment in which every call succeeds, to see that there are such sessions. -/

/-- All paths lead to the one device. -/
def oneNode : Text → ℕ := fun _ => 0

/-- Calls succeed if they can, and are answered by the driver. -/
def env (h : History Res) : (op : Op) → Res op
  | .openRdwr _ => if 3 ∈ held (trace h) then none else some 3
  | .ioctl fd cmd arg =>
    let res := deviceUnlockedIoctl ((world oneNode h).stats ((world oneNode h).files fd)) cmd arg 0
    if res.ret = 0 then some res.out else none
  | .poll fd timeoutMs =>
    let mask := devicePoll ((world oneNode h).stats ((world oneNode h).files fd))
    if mask = 0 ∧ timeoutMs < 0 then none else some mask
  | .close _ | .printf _ | .perror _ | .fprintfStderr _ => ()

theorem env_answers (h : History Res) (op : Op) : Answers oneNode h op (env h op) := by
  cases op with
  | openRdwr dev =>
    intro n hn
    by_cases h3 : 3 ∈ held (trace h)
    · simp [env, if_pos h3] at hn
    · obtain rfl : 3 = n := by simpa [env, if_neg h3] using hn
      exact h3
  | ioctl fd cmd arg =>
    intro bytes hbytes
    obtain ⟨hret, hout⟩ := Option.ite_none_right_eq_some.mp hbytes
    exact ⟨(Option.some.inj hout).symm, hret⟩
  | poll fd timeoutMs =>
    intro mask hmask
    obtain ⟨hwait, hmask⟩ := Option.ite_none_left_eq_some.mp hmask
    obtain rfl := Option.some.inj hmask
    split
    · next hzero => exact Int.not_lt.mp fun hneg => hwait ⟨hzero, hneg⟩
    · rfl
  | close | printf | perror | fprintfStderr => trivial

/-- `set_temp 88`, run on that machine. -/
def heat : List (List Text) :=
  [[ascii "sensor_tool", ascii "/dev/mychardev0", ascii "set_temp", fmtD (88 : BitVec 32).toInt]]

/-- `get_temp`, which shows what was set. -/
def look : List Text := [ascii "sensor_tool", ascii "/dev/mychardev0", ascii "get_temp"]

theorem tool_spec_heat :
    let h := ((session heat).run env []).2
    let ret := ((main look).run env h).1
    let h' := ((main look).run env h).2
    let rets := ((session heat).run env []).1
    (ret = 0 ∨ ret = 1) ∧
      (world oneNode h').stats = served oneNode (devices oneNode heat rets) look ret ∧
      (ret = 0 → ∀ a ∈ asked oneNode look,
        (world oneNode h').out = (world oneNode h).out ++ a.reply (devices oneNode heat rets)) ∧
      ∀ fd, Lifetimes (usesOf fd (trace h')) :=
  tool_spec oneNode (runs_run env_answers _ _) (runs_run env_answers _ _)

/-! ## What is set is printed

A setting is a register that only its own command changes. So what a command line has set,
later getters print, until it is set again. -/

/-- What can be set: each of the registers that has a command. -/
inductive Setting where
  /-- the temperature -/
  | temp
  /-- the humidity -/
  | humidity
  /-- the threshold -/
  | threshold

namespace Setting

/-- Its name, in the names of the commands. -/
def name : Setting → String
  | temp => "temp"
  | humidity => "humidity"
  | threshold => "threshold"

/-- The command that sets it, by the driver's number. -/
def setCmd : Setting → Ioctlnum
  | temp => .setTemp
  | humidity => .setHumidity
  | threshold => .setThreshold

/-- Its register, in the status of a device. -/
def value : Setting → MysensorStatus → BitVec 32
  | temp => MysensorStatus.temp
  | humidity => MysensorStatus.humidity
  | threshold => MysensorStatus.threshold

/-- Setting it sets the register to the value. -/
theorem value_set (f : Setting) (stat : MysensorStatus) (arg : BitVec 32) :
    f.value (effect stat f.setCmd arg).stat = arg := by
  cases f <;> rfl

/-- Other commands leave it alone, whatever they do. -/
theorem value_effect {f : Setting} {cmd : Ioctlnum} (hcmd : cmd ≠ f.setCmd)
    (stat : MysensorStatus) (arg : BitVec 32) :
    f.value (effect stat cmd arg).stat = f.value stat := by
  cases f <;> cases cmd <;> first | rfl | exact absurd rfl hcmd

theorem asked_set (f : Setting) (prog dev arg : Text) (rest : List Text) :
    asked node (prog :: dev :: ascii ("set_" ++ f.name) :: arg :: rest) =
      some ⟨node dev, f.setCmd, atoi arg⟩ := by
  cases f <;> exact asked_valued rfl rfl

/-- What its getter asks for, and what is printed then. -/
theorem asked_get (f : Setting) (prog dev : Text) (rest : List Text) :
    ∃ a, asked node (prog :: dev :: ascii ("get_" ++ f.name) :: rest) = some a ∧
      ∀ stats, a.reply stats =
        ascii f.name ++ ascii ": " ++ fmtD (f.value (stats (node dev))).toInt ++ [0x0a] := by
  cases f <;> exact ⟨_, asked_plain rfl, fun _ => rfl⟩

/-- A command line that does not set it, or fails, or is for another device. -/
theorem value_served {f : Setting} {stats : ℕ → MysensorStatus} {d : ℕ}
    (hother : ret = 0 → ∀ a ∈ asked node argv, a.dev = d → a.cmd ≠ f.setCmd) :
    f.value (served node stats argv ret d) = f.value (stats d) := by
  by_cases hret : ret = 0
  · rcases hasked : asked node argv with _ | a
    · rw [served, if_pos hret, hasked, Option.elim_none]
    · rw [served, if_pos hret, hasked, Option.elim_some, Asked.serve]
      by_cases hd : a.dev = d
      · subst hd
        rw [Function.update_self, value_effect (hother hret a hasked rfl)]
      · rw [Function.update_of_ne (Ne.symm hd)]
  · rw [served, if_neg hret]

/-- Any number of such command lines leave it alone. -/
theorem value_foldl {f : Setting} {d : ℕ} {runs : List (List Text × Int)}
    (hother : ∀ r ∈ runs, r.2 = 0 → ∀ a ∈ asked node r.1, a.dev = d → a.cmd ≠ f.setCmd)
    (stats : ℕ → MysensorStatus) :
    f.value (runs.foldl (fun stats r => served node stats r.1 r.2) stats d) =
      f.value (stats d) := by
  induction runs generalizing stats with
  | nil => rfl
  | cons r runs ih =>
    rw [List.foldl_cons, ih fun r' hr' => hother r' (List.mem_cons_of_mem r hr'),
      value_served node (hother r List.mem_cons_self)]

end Setting

/-- **What is set is printed.** A value is set by a command line that returns 0.
Whatever else is run, and fails or not, as long as no command line that returns 0
sets it again on that device: a getter of the same device that returns 0 prints
that value. -/
theorem get_prints_set (f : Setting) (v : BitVec 32) {before later : List (List Text)}
    {prog prog' dev dev' : Text} {rest rest' : List Text} {rets rets' : List Int}
    {h h' : History Res} (hlen : rets.length = before.length)
    (hrun : Runs (Answers node) [] (session (before ++
      (prog :: dev :: ascii ("set_" ++ f.name) :: fmtD v.toInt :: rest) :: later))
      (rets ++ 0 :: rets') h)
    (hlater : ∀ r ∈ later.zip rets', r.2 = 0 → ∀ a ∈ asked node r.1, a.dev = node dev →
      a.cmd ≠ f.setCmd)
    (hdev : node dev' = node dev)
    (hget : Runs (Answers node) h (main (prog' :: dev' :: ascii ("get_" ++ f.name) :: rest'))
      0 h') :
    (world node h').out =
      (world node h).out ++ (ascii f.name ++ ascii ": " ++ fmtD v.toInt ++ [0x0a]) := by
  obtain ⟨a, hasked, hreply⟩ := f.asked_get node prog' dev' rest'
  have hran := (ran_session node hrun hget).1
  rw [hran.out rfl a hasked, hreply, hdev, devices, List.zip_append hlen.symm, List.foldl_append,
    List.zip_cons_cons, List.foldl_cons, Setting.value_foldl node hlater, served, if_pos rfl,
    Setting.asked_set, Option.elim_some, Asked.serve, Function.update_self, Setting.value_set,
    atoi_fmtD]

theorem get_prints_set_heat :
    let h := ((session heat).run env []).2
    (world oneNode ((main look).run env h).2).out =
      (world oneNode h).out ++
        (ascii "temp" ++ ascii ": " ++ fmtD (88 : BitVec 32).toInt ++ [0x0a]) := by
  have hheat := runs_run env_answers (session heat) []
  have hlook := runs_run env_answers (main look) ((session heat).run env []).2
  have hret : ((session heat).run env []).1 = [0] := by decide
  have hret' : ((main look).run env ((session heat).run env []).2).1 = 0 := by decide
  rw [hret] at hheat
  rw [hret'] at hlook
  have hlen : ([] : List Int).length = ([] : List (List Text)).length := rfl
  exact get_prints_set oneNode .temp 88 hlen hheat (by simp) rfl hlook

end SensorTool

end KernelDrvLearn
