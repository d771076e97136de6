import Mathlib.Data.List.Basic
import Mathlib.Logic.Function.Basic

/-!
# Open files and the calls on them

What a driver sees of its users: files that are opened and released, and
between the two, on each file, any number of calls that run at the same time.
The kernel releases a file when no call on it is left. A driver is a table of
operations (`Fops`): where each of them starts, and where a call goes from each
place, given what the step it takes there finds.

The rules below are what a teardown argument needs. With every file closed
nothing but an open can happen (`Fops.step_quiet`), and what the operations
preserve from place to place is true of every call in progress
(`Fops.Calls.step`).
-/

namespace KernelDrvLearn

/-- Where a call goes after a step. -/
inductive Next (Place Data : Type) where
  /-- it goes on -/
  | goto (p : Place)
  /-- an open succeeds, with this `private_data` -/
  | opened (data : Data)
  /-- it returns; an open fails with this -/
  | ret (value : Int)

/-- The operations of a driver: for each call on a file its first place, and for each
place the next one. -/
structure Fops (Op Place Data : Type) where
  /-- where an open starts -/
  openEntry : Place
  /-- where an operation on an open file starts -/
  entry : Data → Op → Place
  /-- where a release starts -/
  releaseEntry : Data → Place
  /-- where a call goes, `ret` being what its step finds -/
  next : Place → ℕ → Next Place Data

/-- A file, as the driver has to reckon with it: closed, or in one of the stages between
its open and its release. -/
inductive File (Place Data : Type) where
  /-- not open -/
  | closed
  /-- an open is in progress -/
  | opening (p : Place)
  /-- open, with these calls in progress -/
  | opened (data : Data) (calls : List Place)
  /-- the release is in progress -/
  | releasing (p : Place)

/-- What users do, and what the kernel does for them: calls begin, take a step, and end in
any order. -/
inductive FileAct (Op : Type) where
  /-- open file `f` -/
  | openFile (f : ℕ)
  /-- start a call on it -/
  | call (f : ℕ) (op : Op)
  /-- the `i`-th call in progress on it takes a step, which finds `ret` -/
  | resume (f i ret : ℕ)
  /-- the last reference to it is gone -/
  | release (f : ℕ)

/-- The file an action is about: all others stay as they are. -/
def FileAct.file {Op : Type} : FileAct Op → ℕ
  | openFile f | call f _ | resume f _ _ | release f => f

variable {Op Place Data : Type}

namespace File

/-- The calls in progress on a file, each at the place it has come to. -/
def running : File Place Data → List Place
  | closed => []
  | opening p => [p]
  | opened _ calls => calls
  | releasing p => [p]

/-- Nobody has the file open or is opening it. -/
def Idle : File Place Data → Prop
  | closed | releasing _ => True
  | opening _ | opened _ _ => False

/-- The file after a step of its `i`-th call. -/
def advance (i : ℕ) : File Place Data → Next Place Data → File Place Data
  | closed, _ => closed
  | opening _, .goto q => opening q
  | opening _, .opened data => opened data []
  | opening _, .ret _ => closed
  | opened data calls, .goto q => opened data (calls.set i q)
  | opened data calls, .opened _ => opened data (calls.eraseIdx i)
  | opened data calls, .ret _ => opened data (calls.eraseIdx i)
  | releasing _, .goto q => releasing q
  | releasing _, .opened _ => closed
  | releasing _, .ret _ => closed

/-- A call in progress after a step was in progress before, or has just come
to its place. -/
theorem mem_running_advance {file : File Place Data} {i : ℕ} {next : Next Place Data} {p : Place}
    (h : p ∈ (file.advance i next).running) : p ∈ file.running ∨ next = .goto p := by
  cases file with
  | closed => exact Or.inl h
  | opening q =>
    cases next with
    | goto r => exact Or.inr (congrArg _ (List.mem_singleton.mp h).symm)
    | opened data => exact absurd h List.not_mem_nil
    | ret value => exact absurd h List.not_mem_nil
  | opened data calls =>
    cases next with
    | goto r =>
      rcases List.mem_or_eq_of_mem_set h with hmem | rfl
      · exact Or.inl hmem
      · exact Or.inr rfl
    | opened data => exact Or.inl (List.mem_of_mem_eraseIdx h)
    | ret value => exact Or.inl (List.mem_of_mem_eraseIdx h)
  | releasing q =>
    cases next with
    | goto r => exact Or.inr (congrArg _ (List.mem_singleton.mp h).symm)
    | opened data => exact absurd h List.not_mem_nil
    | ret value => exact absurd h List.not_mem_nil

/-- A file open after a step has just been opened, or was open before. -/
theorem of_advance_opened {file : File Place Data} {i : ℕ} {next : Next Place Data} {data : Data}
    {calls : List Place} (h : file.advance i next = .opened data calls) :
    next = .opened data ∨ ∃ calls', file = .opened data calls' := by
  rcases file with _ | p | ⟨data', calls'⟩ | p <;> rcases next with q | data'' | value <;> cases h
  case opening.opened => exact Or.inl rfl
  all_goals exact Or.inr ⟨calls', rfl⟩

/-- A file being opened after a step was so before. -/
theorem of_advance_opening {file : File Place Data} {i : ℕ} {next : Next Place Data} {p : Place}
    (h : file.advance i next = .opening p) : next = .goto p ∧ ∃ q, file = .opening q := by
  rcases file with _ | q | ⟨data, calls⟩ | q <;> rcases next with r | data' | value <;> cases h
  exact ⟨rfl, q, rfl⟩

end File

namespace Fops

variable (F : Fops Op Place Data)

/-- An action on one file, if the kernel would let it happen. -/
def fileStep (file : File Place Data) : FileAct Op → Option (File Place Data)
  | .openFile _ =>
    match file with
    | .closed => some (.opening F.openEntry)
    | _ => none
  | .call _ op =>
    match file with
    | .opened data calls => some (.opened data (calls ++ [F.entry data op]))
    | _ => none
  | .resume _ i ret => file.running[i]?.map fun p => file.advance i (F.next p ret)
  | .release _ =>
    match file with
    | .opened data [] => some (.releasing (F.releaseEntry data))
    | _ => none

/-- An action on the files: that of the file it is about. -/
def step (files : ℕ → File Place Data) (a : FileAct Op) : Option (ℕ → File Place Data) :=
  (F.fileStep (files a.file) a).map (Function.update files a.file)

/-- The place of the call that an action resumes. -/
def resumed (files : ℕ → File Place Data) : FileAct Op → Option Place
  | .resume f i _ => (files f).running[i]?
  | _ => none

/-- No file is open, or being opened or released. -/
def Quiet (files : ℕ → File Place Data) : Prop := ∀ f, files f = .closed

/-- All calls in progress are at places of this kind. -/
def Calls (P : Place → Prop) (files : ℕ → File Place Data) : Prop :=
  ∀ f, ∀ p ∈ (files f).running, P p

variable {F} {files files' : ℕ → File Place Data} {a : FileAct Op} {P : Place → Prop}

/-- With no file open, the only thing that can happen is an open. -/
theorem step_quiet (h : Quiet files) (hs : F.step files a = some files') :
    ∃ f, a = .openFile f := by
  obtain ⟨file, hfile, -⟩ := Option.map_eq_some_iff.mp hs
  rw [h a.file] at hfile
  cases a with
  | openFile f => exact ⟨f, rfl⟩
  | call f op => cases hfile
  | resume f i ret => cases hfile
  | release f => cases hfile

theorem Quiet.resumed (h : Quiet files) : resumed files a = none := by
  cases a with
  | resume f i ret =>
    rw [Fops.resumed, h f]
    rfl
  | openFile f => rfl
  | call f op => rfl
  | release f => rfl

theorem Quiet.calls (h : Quiet files) : Calls P files := by
  intro f p hp
  rw [h f] at hp
  exact absurd hp List.not_mem_nil

/-- The call that an action resumes is one of those in progress, and at one of their
places. -/
theorem Calls.resumed (h : Calls P files) {p : Place} (hp : resumed files a = some p) : P p := by
  cases a with
  | resume f i ret => exact h f p (List.mem_of_getElem? hp)
  | openFile f => cases hp
  | call f op => cases hp
  | release f => cases hp

/-- **Calls in progress.** What is true of the places where calls start and
preserved from place to place is true of all calls in progress. -/
theorem Calls.step (h : Calls P files) (hopen : P F.openEntry)
    (hrelease : ∀ data, P (F.releaseEntry data))
    (hcall : ∀ f op data, a = .call f op → P (F.entry data op))
    (hnext : ∀ p ret q, P p → F.next p ret = .goto q → P q)
    (hs : F.step files a = some files') : Calls P files' := by
  obtain ⟨file, hfile, rfl⟩ := Option.map_eq_some_iff.mp hs
  have hnew : ∀ p ∈ file.running, P p := by
    intro p hp
    have hold := h a.file
    cases a with
    | openFile f =>
      change (match files f with
        | .closed => some (.opening F.openEntry)
        | _ => none) = some file at hfile
      split at hfile
      case h_1 =>
        obtain rfl := Option.some.inj hfile
        rw [List.mem_singleton.mp hp]
        exact hopen
      case h_2 => cases hfile
    | call f op =>
      change (match files f with
        | .opened data calls => some (.opened data (calls ++ [F.entry data op]))
        | _ => none) = some file at hfile
      split at hfile
      case h_1 data calls heq =>
        obtain rfl := Option.some.inj hfile
        change ∀ p ∈ (files f).running, P p at hold
        rw [heq] at hold
        -- a call that runs already, or the new one
        rcases List.mem_append.mp hp with hp | hp
        · exact hold p hp
        · rw [List.mem_singleton.mp hp]
          exact hcall f op data rfl
      case h_2 => cases hfile
    | resume f i ret =>
      obtain ⟨q, hq, rfl⟩ := Option.map_eq_some_iff.mp hfile
      -- another call, or this one at its next place
      rcases File.mem_running_advance hp with hp | hgoto
      · exact hold p hp
      · exact hnext q ret p (hold q (List.mem_of_getElem? hq)) hgoto
    | release f =>
      change (match files f with
        | .opened data [] => some (.releasing (F.releaseEntry data))
        | _ => none) = some file at hfile
      split at hfile
      case h_1 data heq =>
        obtain rfl := Option.some.inj hfile
        rw [List.mem_singleton.mp hp]
        exact hrelease data
      case h_2 => cases hfile
  exact (Function.forall_update_iff files fun _ file => ∀ p ∈ file.running, P p).mpr
    ⟨hnew, fun g _ => h g⟩

/-! ## Calls that can be made

Safety needs to know what may happen, and tightness what can be made to happen: on a file
that is open a call can be started, and a call in progress can always take its next step.
-/

/-- A call can be started on an open file, and from then on is in progress. -/
theorem step_call {f : ℕ} {data : Data} {calls : List Place} (h : files f = .opened data calls)
    (op : Op) : F.step files (.call f op) =
      some (Function.update files f (.opened data (calls ++ [F.entry data op]))) := by
  have hstep : F.fileStep (files f) (.call f op) =
      some (.opened data (calls ++ [F.entry data op])) := by
    rw [h]
    rfl
  rw [step, FileAct.file, hstep]
  rfl

theorem call_opened {f : ℕ} {op : Op} (h : F.step files (.call f op) = some files') :
    ∃ data calls, files f = .opened data calls ∧
      files' = Function.update files f (.opened data (calls ++ [F.entry data op])) := by
  rcases hfile : files f with _ | p | ⟨data, calls⟩ | p
  case opened =>
    rw [step_call hfile] at h
    exact ⟨data, calls, rfl, (Option.some.inj h).symm⟩
  all_goals
    obtain ⟨file, hstep, -⟩ := Option.map_eq_some_iff.mp h
    rw [FileAct.file, hfile] at hstep
    cases hstep

/-- The call that an action resumes can take its step. -/
theorem exists_resume {p : Place} (h : resumed files a = some p) :
    ∃ files', F.step files a = some files' := by
  cases a with
  | resume f i ret =>
    have hstep : F.fileStep (files f) (.resume f i ret) =
        some ((files f).advance i (F.next p ret)) := congrArg (Option.map _) h
    exact ⟨_, congrArg (Option.map (Function.update files f)) hstep⟩
  | openFile f => cases h
  | call f op => cases h
  | release f => cases h

/-- On a file that is not closed, something can be done. -/
theorem exists_step {f : ℕ} (h : files f ≠ .closed) (op : Op) :
    ∃ a files', F.step files a = some files' ∧ ∀ g, a ≠ .openFile g := by
  rcases hfile : files f with _ | p | ⟨data, calls⟩ | p
  case closed => exact absurd hfile h
  case opening =>
    have hstep : F.fileStep (files f) (.resume f 0 0) =
        some (File.advance 0 (.opening p) (F.next p 0)) := by
      rw [hfile]
      rfl
    exact ⟨.resume f 0 0, _, congrArg (Option.map (Function.update files f)) hstep, fun _ => nofun⟩
  case opened => exact ⟨.call f op, _, step_call hfile op, fun _ => nofun⟩
  case releasing =>
    have hstep : F.fileStep (files f) (.resume f 0 0) =
        some (File.advance 0 (.releasing p) (F.next p 0)) := by
      rw [hfile]
      rfl
    exact ⟨.resume f 0 0, _, congrArg (Option.map (Function.update files f)) hstep, fun _ => nofun⟩

variable (F) in
/-- The place a call comes to when its steps find these numbers one after the other. -/
def walk : Place → List ℕ → Option Place
  | p, [] => some p
  | p, ret :: rets =>
    match F.next p ret with
    | .goto q => walk q rets
    | _ => none

/-- A step of a call that goes on. -/
theorem step_resume {f i ret : ℕ} {data : Data} {calls : List Place} {p q : Place}
    (h : files f = .opened data calls) (hp : calls[i]? = some p) (hq : F.next p ret = .goto q) :
    F.step files (.resume f i ret) =
      some (Function.update files f (.opened data (calls.set i q))) := by
  have hstep : F.fileStep (files f) (.resume f i ret) = some (.opened data (calls.set i q)) := by
    rw [h, fileStep, File.running, hp, Option.map_some, hq]
    rfl
  rw [step, FileAct.file, hstep]
  rfl

/-! ## Files that are not closed

A driver that may be opened has a step to come that touches it. Which one depends on the
stage the file is in; in each of them there is one, and it leads to the first place of a
call. -/

variable (F) in
/-- An open or a release in progress is at its first step. -/
def AtEntry (file : File Place Data) : Prop :=
  match file with
  | .opening p => p = F.openEntry
  | .releasing p => ∃ data, p = F.releaseEntry data
  | .closed | .opened _ _ => True

/-- Where an open and a release are a single step, that is so throughout. -/
theorem AtEntry.fileStep {file file' : File Place Data}
    (hopen : ∀ ret q, F.next F.openEntry ret ≠ .goto q)
    (hrelease : ∀ data ret q, F.next (F.releaseEntry data) ret ≠ .goto q)
    (h : AtEntry F file) (hs : F.fileStep file a = some file') : AtEntry F file' := by
  rcases file with _ | p | ⟨data, calls⟩ | p <;> cases a
  case closed.openFile =>
    obtain rfl := Option.some.inj hs
    exact rfl
  case opening.resume f i ret =>
    obtain rfl : p = F.openEntry := h
    obtain ⟨q, hq, rfl⟩ := Option.map_eq_some_iff.mp hs
    rw [List.mem_singleton.mp (List.mem_of_getElem? hq)]
    rcases hnext : F.next F.openEntry ret with r | data | value
    · exact absurd hnext (hopen ret r)
    · trivial
    · trivial
  case opened.call f op =>
    obtain rfl := Option.some.inj hs
    trivial
  case opened.resume f i ret =>
    obtain ⟨q, -, rfl⟩ := Option.map_eq_some_iff.mp hs
    rcases F.next q ret with r | data' | value <;> trivial
  case opened.release f =>
    cases calls with
    | nil =>
      obtain rfl := Option.some.inj hs
      exact ⟨data, rfl⟩
    | cons p calls => cases hs
  case releasing.resume f i ret =>
    obtain ⟨data, rfl⟩ : ∃ data, p = F.releaseEntry data := h
    obtain ⟨q, hq, rfl⟩ := Option.map_eq_some_iff.mp hs
    rw [List.mem_singleton.mp (List.mem_of_getElem? hq)]
    rcases hnext : F.next (F.releaseEntry data) ret with r | data' | value
    · exact absurd hnext (hrelease data ret r)
    · trivial
    · trivial
  all_goals cases hs

theorem AtEntry.step (hopen : ∀ ret q, F.next F.openEntry ret ≠ .goto q)
    (hrelease : ∀ data ret q, F.next (F.releaseEntry data) ret ≠ .goto q)
    (h : ∀ f, AtEntry F (files f)) (hs : F.step files a = some files') :
    ∀ f, AtEntry F (files' f) := by
  obtain ⟨file, hfile, rfl⟩ := Option.map_eq_some_iff.mp hs
  exact (Function.forall_update_iff files fun _ file => AtEntry F file).mpr
    ⟨(h _).fileStep hopen hrelease hfile, fun g _ => h g⟩

/-- **A file not closed leads to a step.** It has an open or a release at its
first step, or a call that can be made on it comes to its first step. -/
theorem exists_entry {f : ℕ} (hentry : AtEntry F (files f)) (hf : files f ≠ .closed) (op : Op) :
    (∃ (a : FileAct Op) (p : Place), resumed files a = some p ∧
      (p = F.openEntry ∨ ∃ data, p = F.releaseEntry data) ∧ ∀ g, a ≠ .openFile g) ∨
    ∃ (a : FileAct Op) (files' : ℕ → File Place Data) (data : Data),
      F.step files (.call f op) = some files' ∧ resumed files' a = some (F.entry data op) ∧
        ∀ g, a ≠ .openFile g := by
  rcases hfile : files f with _ | p | ⟨data, calls⟩ | p
  case closed => exact absurd hfile hf
  case opening =>
    rw [hfile] at hentry
    refine Or.inl ⟨.resume f 0 0, p, ?_, Or.inl hentry, fun _ => nofun⟩
    rw [resumed, hfile]
    rfl
  case opened =>
    refine Or.inr ⟨.resume f calls.length 0, _, data, step_call hfile op, ?_, fun _ => nofun⟩
    rw [resumed, Function.update_self]
    exact List.getElem?_concat_length
  case releasing =>
    rw [hfile] at hentry
    refine Or.inl ⟨.resume f 0 0, p, ?_, Or.inr hentry, fun _ => nofun⟩
    rw [resumed, hfile]
    rfl

/-! ## Files that are not open

How a file comes to be open, or to be opened: only through an open. Where a driver waits
for its users before it frees anything, this is what it waits for. -/

/-- With no file open or being opened, that stays so but for an open. -/
theorem step_idle (h : ∀ f, (files f).Idle) (hs : F.step files a = some files') :
    (∃ f, a = .openFile f) ∨ ∀ f, (files' f).Idle := by
  obtain ⟨file, hfile, rfl⟩ := Option.map_eq_some_iff.mp hs
  have hidle : (∃ f, a = .openFile f) ∨ file.Idle := by
    have hold := h a.file
    rcases hf : files a.file with _ | p | ⟨data, calls⟩ | p <;> rw [hf] at hold hfile
    case closed =>
      cases a with
      | openFile f => exact Or.inl ⟨f, rfl⟩
      | call f op | resume f i ret | release f => cases hfile
    case releasing =>
      cases a with
      | resume f i ret =>
        obtain ⟨q, -, rfl⟩ := Option.map_eq_some_iff.mp hfile
        refine Or.inr ?_
        rcases F.next q ret with r | data | value <;> trivial
      | openFile f | call f op | release f => cases hfile
    all_goals cases hold
  exact hidle.imp_right fun hidle =>
    (Function.forall_update_iff files fun _ file => file.Idle).mpr ⟨hidle, fun g _ => h g⟩

/-- What is true of the `private_data` of every open is true of every open file. -/
theorem step_data {Q : Data → Prop} (hopen : ∀ p ret data, F.next p ret = .opened data → Q data)
    (h : ∀ f data calls, files f = .opened data calls → Q data)
    (hs : F.step files a = some files') {f : ℕ} {data : Data} {calls : List Place}
    (hf : files' f = .opened data calls) : Q data := by
  obtain ⟨file, hfile, rfl⟩ := Option.map_eq_some_iff.mp hs
  by_cases hne : f = a.file
  · subst hne
    rw [Function.update_self] at hf
    subst hf
    cases a with
    | openFile g =>
      rcases hold : files g with _ | p | ⟨data', calls'⟩ | p <;>
        rw [FileAct.file, hold] at hfile <;> cases hfile
    | call g op =>
      rcases hold : files g with _ | p | ⟨data', calls'⟩ | p <;>
        rw [FileAct.file, hold] at hfile <;> cases hfile
      exact h g data calls' hold
    | resume g i ret =>
      obtain ⟨q, -, hadvance⟩ := Option.map_eq_some_iff.mp hfile
      rcases File.of_advance_opened hadvance with hnext | ⟨calls', hold⟩
      · exact hopen q ret data hnext
      · exact h g data calls' hold
    | release g =>
      rcases hold : files g with _ | p | ⟨data', _ | calls'⟩ | p <;>
        rw [FileAct.file, hold] at hfile <;> cases hfile
  · rw [Function.update_of_ne hne] at hf
    exact h f data calls hf

/-- Where an open is a single step, a file is being opened after a step because
it has just begun, or was before and was left alone. -/
theorem step_opening (hopen : ∀ ret q, F.next F.openEntry ret ≠ .goto q)
    (h : ∀ f, AtEntry F (files f)) (hs : F.step files a = some files') {f : ℕ} {p : Place}
    (hf : files' f = .opening p) : a = .openFile f ∨ f ≠ a.file ∧ files f = .opening p := by
  obtain ⟨file, hfile, rfl⟩ := Option.map_eq_some_iff.mp hs
  by_cases hne : f = a.file
  · subst hne
    rw [Function.update_self] at hf
    subst hf
    cases a with
    | openFile g => exact Or.inl rfl
    | call g op =>
      rcases hold : files g with _ | p | ⟨data', calls'⟩ | p <;>
        rw [FileAct.file, hold] at hfile <;> cases hfile
    | resume g i ret =>
      obtain ⟨q, hq, hadvance⟩ := Option.map_eq_some_iff.mp hfile
      obtain ⟨hnext, r, hold⟩ := File.of_advance_opening hadvance
      have hentry := h g
      change files g = .opening r at hold
      rw [hold] at hentry
      obtain rfl : r = F.openEntry := hentry
      change (files g).running[i]? = some q at hq
      rw [hold] at hq
      rw [List.mem_singleton.mp (List.mem_of_getElem? hq)] at hnext
      exact absurd hnext (hopen ret p)
    | release g =>
      rcases hold : files g with _ | p | ⟨data', _ | calls'⟩ | p <;>
        rw [FileAct.file, hold] at hfile <;> cases hfile
  · rw [Function.update_of_ne hne] at hf
    exact Or.inr ⟨hne, hf⟩

end Fops

end KernelDrvLearn
