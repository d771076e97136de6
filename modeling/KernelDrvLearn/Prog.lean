import Mathlib.Data.List.Basic

/-!
# Programs that call their environment

A program returns, or makes a call and goes on with the answer: a tree with a
branch for every answer (`Prog`). What the environment may answer can depend on
all calls and answers so far, the *history*; `ok h op r` says that `r` is such an
answer.

* `Runs` — the runs of a program, with the history they leave.
* `wp` — what must be true of the history for every run to end well; the rules
  are `wp_bind`, `wp_mono` and, for a loop over a list, `wp_forEach`.
* `run` — the run in an environment given by a function.
* `Since` — each call since some point was made when something was true.
-/

namespace KernelDrvLearn

universe u v w

/-- A call and the answer it got. -/
structure Answered {Op : Type u} (Res : Op → Type v) where
  /-- the call -/
  op : Op
  /-- the answer -/
  res : Res op

/-- The calls and answers so far, in order: all a program can know of its environment. -/
abbrev History {Op : Type u} (Res : Op → Type v) := List (Answered Res)

/-- A program of calls `Op`, answered in `Res`. -/
inductive Prog {Op : Type u} (Res : Op → Type v) (α : Type v) where
  /-- return -/
  | ret (a : α) : Prog Res α
  /-- make a call, and go on with the answer -/
  | call (op : Op) (k : Res op → Prog Res α) : Prog Res α

namespace Prog

variable {Op : Type u} {Res : Op → Type v} {α β : Type v} {ι : Type w}

/-- One program after another: the second goes by what the first has returned, and its
calls follow. -/
protected def bind : Prog Res α → (α → Prog Res β) → Prog Res β
  | ret a, f => f a
  | call op k, f => call op fun r => (k r).bind f

instance : Monad (Prog Res) where
  pure := ret
  bind := Prog.bind

/-- One call, returning its answer. -/
def perform (op : Op) : Prog Res (Res op) := call op ret

/-- A loop over a list, one turn for each element. -/
def forEach (f : ι → Prog Res PUnit) : List ι → Prog Res PUnit
  | [] => pure ⟨⟩
  | i :: is => f i >>= fun _ => forEach f is

/-! ## Runs

A run takes one branch at each call, among those the environment may answer. `wp` turns
the question round: what has to be true of the history before, so that every run ends as
wanted, however the calls are answered. -/

/-- From the history `h` the program returns `a` and leaves the history `h'`. -/
inductive Runs (ok : History Res → (op : Op) → Res op → Prop) :
    History Res → Prog Res α → α → History Res → Prop
  /-- it returns -/
  | ret (h : History Res) (a : α) : Runs ok h (ret a) a h
  /-- it makes a call -/
  | call {h h' : History Res} {op : Op} {k : Res op → Prog Res α} {r : Res op} {a : α}
      (hr : ok h op r) (hk : Runs ok (h ++ [⟨op, r⟩]) (k r) a h') : Runs ok h (call op k) a h'

/-- Every run from `h` ends in `Q`, with whatever answers the environment may give. -/
def wp (ok : History Res → (op : Op) → Res op → Prop) :
    Prog Res α → (α → History Res → Prop) → History Res → Prop
  | ret a, Q, h => Q a h
  | call op k, Q, h => ∀ r, ok h op r → wp ok (k r) Q (h ++ [⟨op, r⟩])

variable {ok : History Res → (op : Op) → Res op → Prop} {h h' : History Res} {p : Prog Res α}
  {a : α} {Q Q' : α → History Res → Prop}

/-- **Soundness.** What `wp` promises is true at the end of each run. -/
theorem Runs.spec (hrun : Runs ok h p a h') (hwp : wp ok p Q h) : Q a h' := by
  induction hrun with
  | ret h a => exact hwp
  | call hr _ ih => exact ih (hwp _ hr)

/-- A run adds to the history, and changes nothing that is in it. -/
theorem Runs.extends (hrun : Runs ok h p a h') : ∃ seg, h' = h ++ seg := by
  induction hrun with
  | ret h a => exact ⟨[], (List.append_nil h).symm⟩
  | call _ _ ih =>
    obtain ⟨seg, rfl⟩ := ih
    exact ⟨_, List.append_assoc _ _ seg⟩

/-! ## Rules

One rule for each way of putting a program together. A proof about a program follows its
text: a call is a case analysis over its answers, and a loop needs an invariant, stated
for what is left of the list. -/

@[simp] theorem wp_pure : wp ok (pure a) Q h ↔ Q a h := Iff.rfl

@[simp] theorem wp_perform {op : Op} {Q : Res op → History Res → Prop} :
    wp ok (perform op) Q h ↔ ∀ r, ok h op r → Q r (h ++ [⟨op, r⟩]) := Iff.rfl

/-- One program after another: the first has to end where the second may begin. -/
@[simp] theorem wp_bind {f : α → Prog Res β} {Q : β → History Res → Prop} :
    wp ok (p >>= f) Q h ↔ wp ok p (fun a => wp ok (f a) Q) h := by
  induction p generalizing h with
  | ret a => exact Iff.rfl
  | call op k ih => exact forall_congr' fun r => imp_congr_right fun _ => ih r

/-- A weaker end: what every run does, it does to anything weaker as well. -/
theorem wp_mono (hQ : ∀ a h, Q a h → Q' a h) (hwp : wp ok p Q h) : wp ok p Q' h := by
  induction p generalizing h with
  | ret a => exact hQ a h hwp
  | call op k ih => exact fun r hr => ih r (hwp r hr)

/-- **Loops.** What each turn keeps, for what is left of the list, is true at the
end with nothing left. -/
theorem wp_forEach {f : ι → Prog Res PUnit} (I : List ι → History Res → Prop)
    (hstep : ∀ i is h, I (i :: is) h → wp ok (f i) (fun _ => I is) h) {is : List ι}
    (h0 : I is h) : wp ok (forEach f is) (fun _ => I []) h := by
  induction is generalizing h with
  | nil => exact h0
  | cons i is ih =>
    rw [forEach, wp_bind]
    exact wp_mono (fun _ _ hI => ih hI) (hstep i is h h0)

/-! ## What is true at the calls

Some promises are not about the end but about every call on the way: that a buffer was
complete when it was sent, say. `Since` collects them in the history as the calls are
made. -/

/-- Each call since the history `h` was made at a history at which it is `good`. -/
def Since (good : History Res → Op → Prop) (h h' : History Res) : Prop :=
  ∃ seg, h' = h ++ seg ∧ ∀ pre a post, seg = pre ++ a :: post → good (h ++ pre) a.op

variable {good : History Res → Op → Prop}

theorem Since.refl (h : History Res) : Since good h h :=
  ⟨[], (List.append_nil h).symm, by simp⟩

/-- One more good call keeps all calls good. -/
theorem Since.snoc {op : Op} {r : Res op} (hsince : Since good h h') (hgood : good h' op) :
    Since good h (h' ++ [⟨op, r⟩]) := by
  obtain ⟨seg, rfl, hseg⟩ := hsince
  refine ⟨seg ++ [⟨op, r⟩], List.append_assoc _ _ _, fun pre a post heq => ?_⟩
  rcases List.eq_nil_or_concat post with rfl | ⟨post, b, rfl⟩
  · obtain ⟨rfl, rfl⟩ : seg = pre ∧ ⟨op, r⟩ = a := by simpa using heq
    exact hgood
  · have heq' : seg ++ [⟨op, r⟩] = (pre ++ a :: post) ++ [b] := by simpa using heq
    exact hseg pre a post (List.append_inj_left' heq' rfl)

/-! ## Environments

A run in a fixed environment can be computed, which shows that a specification speaks of
something: there are runs, and the answers they get are among those allowed. -/

/-- The run in an environment that answers by a function of the history. -/
def run (env : History Res → (op : Op) → Res op) : Prog Res α → History Res → α × History Res
  | ret a, h => (a, h)
  | call op k, h => (k (env h op)).run env (h ++ [⟨op, env h op⟩])

/-- The computed run is one of the runs, if the environment answers as it may. -/
theorem runs_run {env : History Res → (op : Op) → Res op} (henv : ∀ h op, ok h op (env h op))
    (p : Prog Res α) (h : History Res) : Runs ok h p (p.run env h).1 (p.run env h).2 := by
  induction p generalizing h with
  | ret a => exact Runs.ret h a
  | call op k ih => exact Runs.call (henv h op) (ih _ _)

end Prog

end KernelDrvLearn
