import Mathlib.Data.List.Basic

/-!
# Transition systems with guarded runs

The layer every concurrent component is stated over. A system is an initial
state and a *guarded, executable* step function: `step s a` is `some t` when
action `a` is enabled at `s`, and `none` otherwise. All nondeterminism (which
thread runs, where an interrupt lands, whether a copy fails) is in the choice
of the action, so an interleaving is a list of actions.

* `exec` — replay a list of actions.
* `observe out` — what the steps of a run show.
* `CanReach P` — some run leads to a state of which `P` is true.
* `Reach ok` — the states reached by steps that each meet the guard `ok`; with
  the guard `fun _ _ => True` these are all reachable states.
* `Along R` — the list is a run, and every step of it is in the relation `R`.
  Conditions on steps (`R` ignores the state after) and properties of every
  state reached (`R` ignores the state before) are both of this form, so "the
  property holds throughout the run exactly when its steps meet the condition"
  is an equivalence of two `Along`s, proved step by step (`along_iff`).
-/

namespace KernelDrvLearn

universe u v w x

/-- A labelled transition system: one initial state and a partial step function. Given the
action the step is deterministic; which actions come, and in which order, is what a run
chooses. -/
structure Lts (σ : Type u) (α : Type v) where
  /-- the initial state -/
  init : σ
  /-- the state after an action, if the action is enabled -/
  step : σ → α → Option σ

namespace Lts

variable {σ : Type u} {α : Type v} (M : Lts σ α)

/-! ## Runs

A run is the list of its actions. `exec` replays it, and `Along R` says besides that each
of its steps, with the states before and after, is in the relation `R`. The rules at the
end compare two such relations, or two systems, step by step, and conclude about whole
runs. -/

/-- Replay a list of actions; `none` as soon as one of them is disabled. -/
def exec : σ → List α → Option σ
  | s, [] => some s
  | s, a :: as => (M.step s a).bind fun t => exec t as

@[simp] theorem exec_nil (s : σ) : M.exec s [] = some s := rfl

theorem exec_cons (s : σ) (a : α) (as : List α) :
    M.exec s (a :: as) = (M.step s a).bind fun t => M.exec t as := rfl

/-- Replaying two lists in sequence: the second goes on from the state in which the first
ends, so a run may be cut anywhere. -/
theorem exec_append {s t : σ} {as bs : List α} (h : M.exec s as = some t) :
    M.exec s (as ++ bs) = M.exec t bs := by
  induction as generalizing s with
  | nil =>
    obtain rfl := Option.some.inj h
    rfl
  | cons a as ih =>
    rw [exec_cons] at h
    obtain ⟨s₁, h₁, h₂⟩ := Option.bind_eq_some_iff.mp h
    rw [List.cons_append, exec_cons, h₁]
    exact ih h₂

/-- The list is a run from `s` and each of its steps is in the relation `R`. -/
def Along (R : σ → α → σ → Prop) : σ → List α → Prop
  | _, [] => True
  | s, a :: as => ∃ t, M.step s a = some t ∧ R s a t ∧ Along R t as

/-- A run from the initial state whose steps all meet the guard `ok`. -/
def Run (ok : σ → α → Prop) (as : List α) : Prop :=
  M.Along (fun s a _ => ok s a) M.init as

variable {M}

theorem Along.nil {R : σ → α → σ → Prop} {s : σ} : M.Along R s [] := trivial

theorem Along.cons {R : σ → α → σ → Prop} {s t : σ} {a : α} {as : List α}
    (hs : M.step s a = some t) (hR : R s a t) (h : M.Along R t as) :
    M.Along R s (a :: as) :=
  ⟨t, hs, hR, h⟩

/-- Whether a list is a run in a decidable relation is checked by replaying it. -/
instance Along.decidable {R : σ → α → σ → Prop} [∀ s a t, Decidable (R s a t)] :
    ∀ (s : σ) (as : List α), Decidable (M.Along R s as)
  | _, [] => isTrue trivial
  | s, a :: as =>
    match h : M.step s a with
    | none => isFalse (by
        rintro ⟨t, ht, -⟩
        rw [h] at ht
        cases ht)
    | some t =>
      haveI : Decidable (M.Along R t as) := Along.decidable t as
      decidable_of_iff (R s a t ∧ M.Along R t as) (by
        constructor
        · rintro ⟨hr, ht⟩
          exact Along.cons h hr ht
        · rintro ⟨t', ht', hr, hrest⟩
          obtain rfl := Option.some.inj (h.symm.trans ht')
          exact ⟨hr, hrest⟩)

instance Run.decidable {ok : σ → α → Prop} [∀ s a, Decidable (ok s a)] (as : List α) :
    Decidable (M.Run ok as) :=
  inferInstanceAs (Decidable (M.Along (fun s a _ => ok s a) M.init as))

/-- A run replays to some final state: no action of it is disabled. -/
theorem Along.exec {R : σ → α → σ → Prop} {s : σ} {as : List α} (h : M.Along R s as) :
    ∃ t, M.exec s as = some t := by
  induction as generalizing s with
  | nil => exact ⟨s, rfl⟩
  | cons a as ih =>
    obtain ⟨t, hs, -, ht⟩ := h
    obtain ⟨u, hu⟩ := ih ht
    exact ⟨u, by rw [exec_cons, hs]; exact hu⟩

/-- The end of a run is a run from where its beginning leads, with the same relation on
its steps. -/
theorem Along.of_append {R : σ → α → σ → Prop} {s : σ} {as bs : List α}
    (h : M.Along R s (as ++ bs)) : ∃ t, M.exec s as = some t ∧ M.Along R t bs := by
  induction as generalizing s with
  | nil => exact ⟨s, rfl, h⟩
  | cons a as ih =>
    obtain ⟨t, hs, -, ht⟩ := h
    obtain ⟨u, hu, hrest⟩ := ih ht
    exact ⟨u, by rw [exec_cons, hs]; exact hu, hrest⟩

/-- What replays under an invariant whose steps are in a relation is a run in
that relation, and keeps the invariant. -/
theorem along_of_exec {R : σ → α → σ → Prop} (I : σ → Prop)
    (hstep : ∀ s a t, I s → M.step s a = some t → R s a t ∧ I t)
    {s t : σ} {as : List α} (hs : I s) (hexec : M.exec s as = some t) :
    M.Along R s as ∧ I t := by
  induction as generalizing s with
  | nil =>
    obtain rfl := Option.some.inj hexec
    exact ⟨Along.nil, hs⟩
  | cons a as ih =>
    rw [exec_cons] at hexec
    obtain ⟨s₁, h₁, hrest⟩ := Option.bind_eq_some_iff.mp hexec
    obtain ⟨hr, hI⟩ := hstep _ _ _ hs h₁
    obtain ⟨halong, ht⟩ := ih hI hrest
    exact ⟨Along.cons h₁ hr halong, ht⟩

/-- **Step-by-step implication.** Under an invariant of the steps in `R`, a step
relation that `R` implies on single steps holds along the runs of `R`. -/
theorem Along.imp {R R' : σ → α → σ → Prop} (I : σ → Prop)
    (hstep : ∀ s a t, I s → M.step s a = some t → R s a t → R' s a t ∧ I t)
    {s : σ} {as : List α} (hs : I s) (h : M.Along R s as) : M.Along R' s as := by
  induction as generalizing s with
  | nil => exact Along.nil
  | cons a as ih =>
    obtain ⟨t, hst, hr, hrest⟩ := h
    obtain ⟨hr', ht⟩ := hstep s a t hs hst hr
    exact Along.cons hst hr' (ih ht hrest)

/-- **Step-by-step equivalence.** Under an invariant that the steps in `R'`
preserve, and along runs that meet the guard `env`, two step relations that
agree on single steps hold along the same runs. -/
theorem along_iff {R R' : σ → α → σ → Prop} {env : σ → α → Prop} (I : σ → Prop)
    (hiff : ∀ s a t, I s → env s a → M.step s a = some t → (R s a t ↔ R' s a t))
    (hI : ∀ s a t, I s → env s a → M.step s a = some t → R' s a t → I t)
    {s : σ} {as : List α} (hs : I s) (henv : M.Along (fun s a _ => env s a) s as) :
    M.Along R s as ↔ M.Along R' s as := by
  induction as generalizing s with
  | nil => exact Iff.rfl
  | cons a as ih =>
    obtain ⟨t, hst, hea, hrest⟩ := henv
    have hstep : R s a t ↔ R' s a t := hiff s a t hs hea hst
    constructor
    · rintro ⟨t', ht', hr, h⟩
      obtain rfl := Option.some.inj (hst.symm.trans ht')
      have hr' := hstep.mp hr
      exact Along.cons hst hr' ((ih (hI s a t hs hea hst hr') hrest).mp h)
    · rintro ⟨t', ht', hr', h⟩
      obtain rfl := Option.some.inj (hst.symm.trans ht')
      exact Along.cons hst (hstep.mpr hr') ((ih (hI s a t hs hea hst hr') hrest).mpr h)

/-- **Refinement rule.** If under an invariant every step is, in a part of the state,
the step of another system, then so is every run. -/
theorem exec_map {τ : Type w} {N : Lts τ α} (I : σ → Prop) (f : σ → τ)
    (hI : ∀ s a t, I s → M.step s a = some t → I t)
    (hstep : ∀ s a, I s → N.step (f s) a = (M.step s a).map f) {s : σ} (hs : I s)
    (as : List α) : N.exec (f s) as = (M.exec s as).map f := by
  induction as generalizing s with
  | nil => rfl
  | cons a as ih =>
    rw [exec_cons, exec_cons, hstep s a hs]
    rcases hst : M.step s a with _ | t
    · rfl
    · exact ih (hI s a t hs hst)

/-- **Projection rule.** Under an invariant of the guarded steps: if a part of
the state sees each guarded step as a step of its own or not at all, it sees a
guarded run as the run of what it sees. Two guarded runs that it sees alike
therefore leave it alike, whatever the rest of the state does. -/
theorem exec_view {τ : Type w} {β : Type x} {N : Lts τ β} {ok : σ → α → Prop}
    (I : σ → Prop) (part : σ → τ) (view : α → Option β)
    (hI : ∀ s a t, I s → ok s a → M.step s a = some t → I t)
    (hstep : ∀ s a t b, I s → ok s a → M.step s a = some t → view a = some b →
      N.step (part s) b = some (part t))
    (hskip : ∀ s a t, I s → ok s a → M.step s a = some t → view a = none → part t = part s)
    {s t : σ} {as : List α} (hs : I s) (hrun : M.Along (fun s a _ => ok s a) s as)
    (hexec : M.exec s as = some t) :
    N.exec (part s) (as.filterMap view) = some (part t) := by
  induction as generalizing s with
  | nil =>
    obtain rfl := Option.some.inj hexec
    rfl
  | cons a as ih =>
    obtain ⟨s₁, h₁, hok, hrest⟩ := hrun
    rw [exec_cons, h₁] at hexec
    have hpart := ih (hI _ _ _ hs hok h₁) hrest hexec
    rcases hview : view a with _ | b
    · rw [List.filterMap_cons_none hview, ← hskip _ _ _ hs hok h₁ hview]
      exact hpart
    · rw [List.filterMap_cons_some hview, exec_cons, hstep _ _ _ _ hs hok h₁ hview]
      exact hpart

/-! ## What a run shows

A component is often judged by what its users see (the results of their calls, the texts
printed), and not by its state. Two systems, or one from two states, that show the same
along every list of actions cannot be told apart from outside. -/

variable (M) in
/-- What the enabled steps of a list of actions show, one after another. -/
def observe {β : Type w} (out : σ → α → β) : σ → List α → List β
  | _, [] => []
  | s, a :: as => (M.step s a).elim [] fun t => out s a :: observe out t as

/-- **Simulation rule for what is shown.** If related states take the same
actions, show the same and stay related, runs from them show the same. -/
theorem observe_congr {β : Type w} {out : σ → α → β} (rel : σ → σ → Prop)
    (hstep : ∀ s s' a, rel s s' → (M.step s a = none ∧ M.step s' a = none) ∨
      ∃ t t', M.step s a = some t ∧ M.step s' a = some t' ∧ out s a = out s' a ∧ rel t t')
    {s s' : σ} (h : rel s s') (as : List α) : M.observe out s as = M.observe out s' as := by
  induction as generalizing s s' with
  | nil => rfl
  | cons a as ih =>
    rcases hstep s s' a h with ⟨hs, hs'⟩ | ⟨t, t', hs, hs', hout, hrel⟩
    · simp [observe, hs, hs']
    · simp [observe, hs, hs', hout, ih hrel]

/-! ## Repeating an action

A loop of the source is an action that is taken until its test fails. What a turn
preserves the loop preserves, whatever the number of turns. -/

variable (M) in
/-- Taking action `a` again and again, any number of times, leads from `s` to `t`. -/
def Repeats (a : α) (s t : σ) : Prop := ∃ n, M.exec s (List.replicate n a) = some t

theorem Repeats.refl (a : α) (s : σ) : M.Repeats a s s := ⟨0, rfl⟩

/-- One step before a repetition makes a repetition one turn longer. -/
theorem Repeats.head {a : α} {s t u : σ} (hs : M.step s a = some t) (h : M.Repeats a t u) :
    M.Repeats a s u := by
  obtain ⟨n, hn⟩ := h
  refine ⟨n + 1, ?_⟩
  rw [List.replicate_succ, exec_cons, hs]
  exact hn

theorem Repeats.trans {a : α} {s t u : σ} (h : M.Repeats a s t) (h' : M.Repeats a t u) :
    M.Repeats a s u := by
  obtain ⟨n, hn⟩ := h
  obtain ⟨m, hm⟩ := h'
  refine ⟨n + m, ?_⟩
  rw [List.replicate_add, exec_append M hn]
  exact hm

/-- What every such step preserves, the repetition preserves: the rule for the invariant
of a loop. -/
theorem Repeats.invariant {a : α} {I : σ → Prop}
    (hstep : ∀ s t, I s → M.step s a = some t → I t) {s t : σ} (h : M.Repeats a s t)
    (hs : I s) : I t := by
  obtain ⟨n, hn⟩ := h
  induction n generalizing s with
  | zero =>
    obtain rfl := Option.some.inj hn
    exact hs
  | succ n ih =>
    rw [List.replicate_succ, exec_cons] at hn
    obtain ⟨s₁, h₁, hrest⟩ := Option.bind_eq_some_iff.mp hn
    exact ih (hstep _ _ hs h₁) hrest

/-! ## What can still happen

Safety says what no run does. The other question is whether a run can still come to an
end: `CanReach P` asks for one continuation that gets there, which is what "the defect can
follow from here" and "the waiter gets out by its own steps" both mean. -/

variable (M) in
/-- Some run from `s` ends in a state of which `P` is true. -/
def CanReach (P : σ → Prop) (s : σ) : Prop := ∃ as t, M.exec s as = some t ∧ P t

theorem CanReach.here {P : σ → Prop} {s : σ} (h : P s) : M.CanReach P s := ⟨[], s, rfl, h⟩

/-- One step before: what can be reached from the state after can be reached from the
state before. -/
theorem CanReach.step {P : σ → Prop} {s t : σ} {a : α} (hs : M.step s a = some t)
    (h : M.CanReach P t) : M.CanReach P s := by
  obtain ⟨as, u, hexec, hu⟩ := h
  refine ⟨a :: as, u, ?_, hu⟩
  rw [exec_cons, hs]
  exact hexec

theorem CanReach.trans {P Q : σ → Prop} {s : σ} (h : M.CanReach P s)
    (hPQ : ∀ t, P t → M.CanReach Q t) : M.CanReach Q s := by
  obtain ⟨as, t, hexec, ht⟩ := h
  obtain ⟨bs, u, hexec', hu⟩ := hPQ t ht
  refine ⟨as ++ bs, u, ?_, hu⟩
  rw [exec_append M hexec]
  exact hexec'

/-- **Progress rule.** If from every state of which `I` is true, and `P` not yet,
some step keeps `I` true and makes `measure` smaller, `P` is reached. -/
theorem CanReach.of_measure {I P : σ → Prop} (measure : σ → ℕ)
    (hstep : ∀ s, I s → ¬ P s → ∃ a t, M.step s a = some t ∧ I t ∧ measure t < measure s)
    {s : σ} (hs : I s) : M.CanReach (fun t => I t ∧ P t) s := by
  induction hn : measure s using Nat.strongRecOn generalizing s with
  | _ n ih =>
    by_cases hP : P s
    · exact CanReach.here ⟨hs, hP⟩
    · obtain ⟨a, t, hst, ht, hlt⟩ := hstep s hs hP
      exact CanReach.step hst (ih (measure t) (hn ▸ hlt) ht rfl)

/-! ## Reachability

The states that some guarded run leads to, defined as a predicate on states and not
through the list of actions, so that an invariant goes by induction on how the state was
reached. -/

variable (M) in
/-- The states reached from the initial one by steps that meet the guard `ok`. -/
inductive Reach (ok : σ → α → Prop) : σ → Prop
  /-- the initial state -/
  | init : Reach ok M.init
  /-- one more enabled step that meets the guard -/
  | step {s t : σ} {a : α} :
      Reach ok s → ok s a → M.step s a = some t → Reach ok t

/-- **Invariant rule.** What holds initially and is preserved by every guarded
step holds in every state reached by guarded steps. -/
theorem Reach.invariant {ok : σ → α → Prop} {I : σ → Prop} (hinit : I M.init)
    (hstep : ∀ s a t, I s → ok s a → M.step s a = some t → I t)
    {s : σ} (h : M.Reach ok s) : I s := by
  induction h with
  | init => exact hinit
  | step _ ha hs ih => exact hstep _ _ _ ih ha hs

/-- Invariant rule relative to facts `J` already known of every reached state: invariants
may be proved one after the other. -/
theorem Reach.invariant_of {ok : σ → α → Prop} {I J : σ → Prop}
    (hJ : ∀ s, M.Reach ok s → J s) (hinit : I M.init)
    (hstep : ∀ s a t, J s → I s → ok s a → M.step s a = some t → I t)
    {s : σ} (h : M.Reach ok s) : I s := by
  induction h with
  | init => exact hinit
  | step hr ha hs ih => exact hstep _ _ _ (hJ _ hr) ih ha hs

/-- A weaker guard reaches what a stronger one does, so what is proved of every state
reached under the weaker one holds under the stronger. -/
theorem Reach.mono {ok ok' : σ → α → Prop} (hok : ∀ s a, ok s a → ok' s a) {s : σ}
    (h : M.Reach ok s) : M.Reach ok' s := by
  induction h with
  | init => exact Reach.init
  | step _ ha hs ih => exact Reach.step ih (hok _ _ ha) hs

/-- Replaying a guarded run from a reached state ends in a reached state: reachability of
the end of a concrete run is its replay. -/
theorem Reach.exec {ok : σ → α → Prop} {s t : σ} {as : List α} (h : M.Reach ok s)
    (hrun : M.Along (fun s a _ => ok s a) s as) (hexec : M.exec s as = some t) :
    M.Reach ok t := by
  induction as generalizing s with
  | nil =>
    obtain rfl := Option.some.inj hexec
    exact h
  | cons a as ih =>
    obtain ⟨s₁, hs, ha, hrest⟩ := hrun
    rw [exec_cons, hs] at hexec
    exact ih (Reach.step h ha hs) hrest hexec

/-- Without a guard every replay from a reached state ends in a reached state. -/
theorem Reach.replay {s t : σ} {as : List α} (h : M.Reach (fun _ _ => True) s)
    (hexec : M.exec s as = some t) : M.Reach (fun _ _ => True) t := by
  induction as generalizing s with
  | nil =>
    obtain rfl := Option.some.inj hexec
    exact h
  | cons a as ih =>
    rw [exec_cons] at hexec
    obtain ⟨s₁, hs, hrest⟩ := Option.bind_eq_some_iff.mp hexec
    exact ih (Reach.step h trivial hs) hrest

/-- **Simulation rule.** A state map that sends each guarded step of `M` to a
guarded step of `N`, or to no step at all, sends reached states to reached
states. -/
theorem Reach.map {τ : Type w} {β : Type x} {N : Lts τ β} {ok : σ → α → Prop}
    {ok' : τ → β → Prop} (f : σ → τ) (hinit : f M.init = N.init)
    (hstep : ∀ s a t, ok s a → M.step s a = some t →
      f t = f s ∨ ∃ b, ok' (f s) b ∧ N.step (f s) b = some (f t))
    {s : σ} (h : M.Reach ok s) : N.Reach ok' (f s) := by
  induction h with
  | init =>
    rw [hinit]
    exact Reach.init
  | step _ ha hs ih =>
    rcases hstep _ _ _ ha hs with heq | ⟨b, hb, hN⟩
    · rw [heq]
      exact ih
    · exact Reach.step ih hb hN

end Lts

end KernelDrvLearn
