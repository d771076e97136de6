import KernelDrvLearn.Held
import KernelDrvLearn.Transition

/-!
# Ownership

What a program does with its resources, as a list of *marks*: it obtains a
resource, uses it, frees it or hands it over to somebody else. The system
`ownership` replays the list against the set of resources held, and stops at a
resource obtained twice, or used, freed or handed over while it is not held.

* `Owned rs l` — the marks `l` replay, and leave exactly the resources `rs` held.
  Each kind of mark has its rule (`Owned.obtain`, `Owned.use`, `Owned.release`),
  for one resource and for a list of them.
* `Lifetimes` — what one resource may go through: any number of lifetimes, each
  of which begins when it is obtained and ends when it is freed or handed over,
  once. When nothing stays held every resource did (`Owned.lifetimes`).
* `Replays A m B` — from `A` held the marks `m` replay and leave `B` held. They do
  so with more held that they do not mention (`exec_union`), and under other names
  (`exec_map`); `Owned.replay` is both.
-/

namespace KernelDrvLearn

universe u v

/-- What is done with a resource: obtained, used, freed, or handed over to somebody who
frees it. -/
inductive Use where
  /-- it is obtained -/
  | obtained
  /-- it is used -/
  | used
  /-- it is freed -/
  | freed
  /-- it is handed over -/
  | handed
  deriving DecidableEq

/-- The uses that end a lifetime: a free, and a handing over. -/
def Use.Ends (e : Use) : Prop := e = freed ∨ e = handed

/-- A use of a resource: what is done, and to which one. -/
structure Mark (ρ : Type u) where
  /-- the use -/
  use : Use
  /-- the resource -/
  res : ρ
  deriving DecidableEq

variable {ρ : Type u} [DecidableEq ρ]

/-! ## The resources held

The list of marks is replayed like a run. A step that may not be taken, such as a use of
what is not held, has no successor, so a list that replays is one in which nothing is used
after its end, and nothing ended twice. -/

/-- What is held after a mark, given what was held before. -/
def Mark.after (S : Finset ρ) (a : Mark ρ) : Finset ρ :=
  match a.use with
  | .obtained => insert a.res S
  | .used => S
  | .freed | .handed => S.erase a.res

/-- The resources a program holds, step by step: a system whose actions are the marks. -/
def ownership : Lts (Finset ρ) (Mark ρ) where
  init := ∅
  step S a := if a.use = .obtained ↔ a.res ∉ S then some (a.after S) else none

/-- What is held after a list of marks, whether or not it replays. -/
def held (l : List (Mark ρ)) : Finset ρ := l.foldl Mark.after ∅

variable {S T : Finset ρ} {l : List (Mark ρ)} {r : ρ} {rs ms : List ρ} {e : Use}

theorem step_obtained (hr : r ∉ S) :
    ownership.step S ⟨.obtained, r⟩ = some (insert r S) :=
  if_pos (iff_of_true rfl hr)

theorem step_used (hr : r ∈ S) : ownership.step S ⟨.used, r⟩ = some S :=
  if_pos (iff_of_false (fun h => by cases h) (not_not_intro hr))

theorem step_ends (he : e.Ends) (hr : r ∈ S) :
    ownership.step S ⟨e, r⟩ = some (S.erase r) := by
  obtain rfl | rfl := he
  · exact if_pos (iff_of_false (fun h => by cases h) (not_not_intro hr))
  · exact if_pos (iff_of_false (fun h => by cases h) (not_not_intro hr))

/-- What a step does: the condition it is taken under, and what is held then. -/
theorem step_cases {a : Mark ρ} (h : ownership.step S a = some T) :
    (a.use = .obtained ∧ a.res ∉ S ∧ T = insert a.res S) ∨
      (a.use = .used ∧ a.res ∈ S ∧ T = S) ∨
      (a.use.Ends ∧ a.res ∈ S ∧ T = S.erase a.res) := by
  obtain ⟨hguard, hT⟩ := Option.ite_none_right_eq_some.mp h
  obtain rfl := Option.some.inj hT
  obtain ⟨u, r⟩ := a
  cases u with
  | obtained => exact Or.inl ⟨rfl, hguard.mp rfl, rfl⟩
  | used => exact Or.inr (Or.inl ⟨rfl, by simpa using hguard, rfl⟩)
  | freed => exact Or.inr (Or.inr ⟨Or.inl rfl, by simpa using hguard, rfl⟩)
  | handed => exact Or.inr (Or.inr ⟨Or.inr rfl, by simpa using hguard, rfl⟩)

/-- A step leaves the other resources alone. -/
theorem step_frame {a : Mark ρ} (h : ownership.step S a = some T) (hne : r ≠ a.res) :
    r ∈ T ↔ r ∈ S := by
  obtain ⟨-, -, rfl⟩ | ⟨-, -, rfl⟩ | ⟨-, -, rfl⟩ := step_cases h
  · exact Finset.mem_insert.trans (or_iff_right hne)
  · exact Iff.rfl
  · exact Finset.mem_erase.trans (and_iff_right hne)

/-- A list that replays leaves held what `held` says. -/
theorem exec_foldl (h : ownership.exec S l = some T) : l.foldl Mark.after S = T := by
  induction l generalizing S with
  | nil => exact Option.some.inj h
  | cons a l ih =>
    rw [Lts.exec_cons] at h
    obtain ⟨S₁, hstep, hrest⟩ := Option.bind_eq_some_iff.mp h
    obtain ⟨-, hS₁⟩ := Option.ite_none_right_eq_some.mp hstep
    obtain rfl := Option.some.inj hS₁
    exact ih hrest

/-! ## Owning a list

`Owned rs l` is what a program proves as it goes along. Each kind of mark has its rule,
for one resource and for a list of them, and histories can be cut and joined where nothing
is held. -/

/-- The marks replay, and then exactly the resources `rs` are held, each once. -/
def Owned (rs : List ρ) (l : List (Mark ρ)) : Prop :=
  ∃ S, ownership.exec ∅ l = some S ∧ Held id rs S

namespace Owned

/-- At the start nothing is held, and there is no mark. -/
theorem nil : Owned [] ([] : List (Mark ρ)) := ⟨∅, rfl, Held.nil⟩

theorem mem_held (h : Owned rs l) : r ∈ held l ↔ r ∈ rs := by
  obtain ⟨S, hexec, hS⟩ := h
  rw [held, exec_foldl hexec, hS.mem_iff, List.map_id]

theorem nodup (h : Owned rs l) : rs.Nodup := by
  obtain ⟨S, -, hS⟩ := h
  rw [← List.map_id rs]
  exact hS.nodup

/-- One more mark, if its step can be taken. -/
theorem snoc {a : Mark ρ} (hexec : ownership.exec ∅ l = some S)
    (hstep : ownership.step S a = some T) (hT : Held id rs T) : Owned rs (l ++ [a]) :=
  ⟨T, by rw [Lts.exec_append _ hexec, Lts.exec_cons, hstep]; rfl, hT⟩

/-- **Obtain.** A resource that is not held may be obtained, and is held then. -/
theorem obtain (h : Owned rs l) (hr : r ∉ rs) : Owned (r :: rs) (l ++ [⟨.obtained, r⟩]) := by
  have hheld := mt h.mem_held.mp hr
  obtain ⟨S, hexec, hS⟩ := h
  rw [held, exec_foldl hexec] at hheld
  exact snoc hexec (step_obtained hheld) (hS.acquire hheld)

/-- **Use.** A resource that is held may be used, and stays held. -/
theorem use (h : Owned rs l) (hr : r ∈ rs) : Owned rs (l ++ [⟨.used, r⟩]) := by
  obtain ⟨S, hexec, hS⟩ := h
  exact snoc hexec (step_used (hS.mem hr)) hS

/-- **Free** or **hand over.** A resource that is held may be given up, once. -/
theorem release (h : Owned (r :: rs) l) (he : e.Ends) : Owned rs (l ++ [⟨e, r⟩]) := by
  obtain ⟨S, hexec, hS⟩ := h
  have hrest := hS.release List.mem_cons_self
  rw [List.erase_cons_head] at hrest
  exact snoc hexec (step_ends he (hS.mem List.mem_cons_self)) hrest

/-- The order in which the resources are listed does not matter. -/
theorem perm (h : Owned rs l) (hperm : rs.Perm ms) : Owned ms l := by
  obtain ⟨S, hexec, hS⟩ := h
  exact ⟨S, hexec, (hperm.map id).nodup_iff.mp hS.nodup,
    fun r => (hS.mem_iff r).trans (hperm.map id).mem_iff⟩

/-- Obtain a list of resources, all different and none of them held. -/
theorem obtainAll (h : Owned rs l) (hms : ms.Nodup) (hfree : ∀ r ∈ ms, r ∉ rs) :
    Owned (ms ++ rs) (l ++ ms.map (⟨.obtained, ·⟩)) := by
  induction ms generalizing rs l with
  | nil => simpa using h
  | cons m ms ih =>
    obtain ⟨hm, hms⟩ := List.nodup_cons.mp hms
    have hone := h.obtain (hfree m List.mem_cons_self)
    have hall := ih hone hms fun r hr hmem => by
      obtain rfl | hmem := List.mem_cons.mp hmem
      · exact hm hr
      · exact hfree r (List.mem_cons_of_mem _ hr) hmem
    simpa using hall.perm List.perm_middle

/-- Use a list of resources, all of them held. -/
theorem useAll (h : Owned rs l) (hms : ∀ r ∈ ms, r ∈ rs) :
    Owned rs (l ++ ms.map (⟨.used, ·⟩)) := by
  induction ms generalizing l with
  | nil => simpa using h
  | cons m ms ih =>
    have hone := h.use (hms m List.mem_cons_self)
    simpa using ih hone fun r hr => hms r (List.mem_cons_of_mem _ hr)

/-- Free or hand over a list of resources, all of them held. -/
theorem releaseAll (h : Owned (ms ++ rs) l) (he : e.Ends) :
    Owned rs (l ++ ms.map (⟨e, ·⟩)) := by
  induction ms generalizing l with
  | nil => simpa using h
  | cons m ms ih => simpa using ih (h.release he)

/-- What starts with nothing held does so on its own. -/
theorem of_append {l' : List (Mark ρ)} (h : Owned [] l) (h' : Owned rs (l ++ l')) :
    Owned rs l' := by
  obtain ⟨S, hexec, hS⟩ := h
  obtain ⟨T, hexec', hT⟩ := h'
  obtain rfl := hS.eq_empty
  rw [Lts.exec_append _ hexec] at hexec'
  exact ⟨T, hexec', hT⟩

/-- What starts with nothing held can be put behind what ends so. -/
theorem append {l' : List (Mark ρ)} (h : Owned [] l) (h' : Owned rs l') :
    Owned rs (l ++ l') := by
  obtain ⟨S, hexec, hS⟩ := h
  obtain ⟨T, hexec', hT⟩ := h'
  obtain rfl := hS.eq_empty
  exact ⟨T, (Lts.exec_append _ hexec).trans hexec', hT⟩

end Owned

/-! ## Lifetimes

The same from the side of one resource. Its marks alone are any number of whole lifetimes,
each of them an obtaining, some uses and one end: nothing before, between or behind. -/

/-- What is done with one resource, in order. -/
def usesOf (r : ρ) (l : List (Mark ρ)) : List Use := (l.filter (·.res = r)).map Mark.use

theorem usesOf_cons_of_eq {a : Mark ρ} (h : a.res = r) :
    usesOf r (a :: l) = a.use :: usesOf r l := by
  simp [usesOf, h]

theorem usesOf_cons_of_ne {a : Mark ρ} (h : a.res ≠ r) : usesOf r (a :: l) = usesOf r l := by
  simp [usesOf, h]

/-- Any number of lifetimes: obtained, used any number of times, then freed or
handed over. -/
inductive Lifetimes : List Use → Prop
  /-- none -/
  | nil : Lifetimes []
  /-- one, and those after it -/
  | cons (n : ℕ) {e : Use} (he : e.Ends) {us : List Use} (h : Lifetimes us) :
      Lifetimes (.obtained :: (List.replicate n .used ++ e :: us))

/-- What remains of a lifetime, and those after it. -/
def Remaining (us : List Use) : Prop :=
  ∃ n e us', us = List.replicate n .used ++ e :: us' ∧ e.Ends ∧ Lifetimes us'

theorem Remaining.lifetimes {us : List Use} (h : Remaining us) :
    Lifetimes (.obtained :: us) := by
  obtain ⟨n, e, us', rfl, he, h⟩ := h
  exact .cons n he h

theorem Remaining.used {us : List Use} (h : Remaining us) : Remaining (.used :: us) := by
  obtain ⟨n, e, us', rfl, he, h⟩ := h
  exact ⟨n + 1, e, us', rfl, he, h⟩

/-- What a list that replays does with a resource not held in the end. -/
theorem exec_lifetimes (h : ownership.exec S l = some T) (hr : r ∉ T) :
    (r ∉ S → Lifetimes (usesOf r l)) ∧ (r ∈ S → Remaining (usesOf r l)) := by
  induction l generalizing S with
  | nil =>
    obtain rfl := Option.some.inj h
    exact ⟨fun _ => .nil, fun hS => absurd hS hr⟩
  | cons a l ih =>
    rw [Lts.exec_cons] at h
    obtain ⟨S₁, hstep, hrest⟩ := Option.bind_eq_some_iff.mp h
    obtain ⟨hout, hin⟩ := ih hrest
    by_cases ha : a.res = r
    · rw [usesOf_cons_of_eq ha]
      subst ha
      obtain ⟨hu, hS, rfl⟩ | ⟨hu, hS, rfl⟩ | ⟨hu, hS, rfl⟩ := step_cases hstep
      · rw [hu]
        exact ⟨fun _ => (hin (Finset.mem_insert_self _ _)).lifetimes, fun h => absurd h hS⟩
      · rw [hu]
        exact ⟨fun h => absurd hS h, fun _ => (hin hS).used⟩
      · exact ⟨fun h => absurd hS h, fun _ => ⟨0, _, _, rfl, hu, hout (Finset.notMem_erase _ _)⟩⟩
    · have hframe := step_frame hstep (Ne.symm ha)
      rw [usesOf_cons_of_ne ha]
      exact ⟨fun h => hout (mt hframe.mp h), fun h => hin (hframe.mpr h)⟩

/-- **Nothing held in the end.** Then every resource went through whole
lifetimes. -/
theorem Owned.lifetimes (h : Owned [] l) (r : ρ) : Lifetimes (usesOf r l) := by
  obtain ⟨S, hexec, hS⟩ := h
  obtain rfl := hS.eq_empty
  exact (exec_lifetimes hexec (Finset.notMem_empty r)).1 (Finset.notMem_empty r)

/-- A resource held is not given back when its next use but one does not obtain
it again. -/
theorem not_owned_append {m : List (Mark ρ)} (h : Owned rs l) (hr : r ∈ rs) {u : Use}
    (huses : ∃ us, usesOf r m = e :: u :: us) (he : e.Ends) (hu : u ≠ .obtained) :
    ¬ Owned [] (l ++ m) := by
  rintro ⟨T, hall, hT⟩
  obtain ⟨us, huses⟩ := huses
  obtain ⟨S, hexec, hS⟩ := h
  obtain rfl := hT.eq_empty
  rw [Lts.exec_append _ hexec] at hall
  obtain ⟨n, e', us', heq, -, hrest⟩ :=
    (exec_lifetimes hall (Finset.notMem_empty r)).2 (hS.mem hr)
  rw [huses] at heq
  cases n with
  | zero =>
    obtain ⟨-, rfl⟩ := List.cons.inj heq
    cases hrest
    exact hu rfl
  | succ n =>
    obtain ⟨rfl, -⟩ := List.cons.inj heq
    obtain h | h := he <;> cases h

theorem usesOf_eq_nil (h : ∀ a ∈ l, a.res ≠ r) : usesOf r l = [] := by
  simpa [usesOf] using h

theorem usesOf_append (r : ρ) (l m : List (Mark ρ)) :
    usesOf r (l ++ m) = usesOf r l ++ usesOf r m := by
  simp [usesOf]

/-! ## Frames and renamings

Marks say nothing about resources they do not mention, and the names of resources play no
part. So what was shown once of a procedure holds wherever it runs, on resources of the
caller's choice. -/

/-- Marks leave the resources they do not mention alone. -/
theorem exec_frame (h : ownership.exec S l = some T) (hr : ∀ a ∈ l, a.res ≠ r) :
    r ∈ T ↔ r ∈ S := by
  induction l generalizing S with
  | nil =>
    obtain rfl := Option.some.inj h
    exact Iff.rfl
  | cons a l ih =>
    rw [Lts.exec_cons] at h
    obtain ⟨S₁, hstep, hrest⟩ := Option.bind_eq_some_iff.mp h
    have hne := (hr a List.mem_cons_self).symm
    exact (ih hrest fun b hb => hr b (List.mem_cons_of_mem _ hb)).trans (step_frame hstep hne)

/-- **Frame.** Marks replay as well with more held that they do not mention. -/
theorem exec_union {F : Finset ρ} (h : ownership.exec S l = some T)
    (hF : ∀ a ∈ l, a.res ∉ F) : ownership.exec (S ∪ F) l = some (T ∪ F) := by
  induction l generalizing S with
  | nil =>
    obtain rfl := Option.some.inj h
    rfl
  | cons a l ih =>
    rw [Lts.exec_cons] at h
    obtain ⟨S₁, hstep, hrest⟩ := Option.bind_eq_some_iff.mp h
    have haF := hF a List.mem_cons_self
    have hone : ownership.step (S ∪ F) a = some (S₁ ∪ F) := by
      obtain ⟨u, r⟩ := a
      obtain ⟨hu, hr, rfl⟩ | ⟨hu, hr, rfl⟩ | ⟨hu, hr, rfl⟩ := step_cases hstep
      · obtain rfl : u = .obtained := hu
        rw [Finset.insert_union]
        exact step_obtained (by simp [hr, haF])
      · obtain rfl : u = .used := hu
        exact step_used (Finset.mem_union_left _ hr)
      · have herase : (S ∪ F).erase r = S.erase r ∪ F := by
          rw [Finset.erase_union_distrib, Finset.erase_eq_of_notMem haF]
        exact herase ▸ step_ends hu (Finset.mem_union_left _ hr)
    rw [Lts.exec_cons, hone]
    exact ih hrest fun b hb => hF b (List.mem_cons_of_mem _ hb)

variable {τ : Type v} [DecidableEq τ]

/-- A mark under another name. -/
def Mark.map (f : τ → ρ) (a : Mark τ) : Mark ρ := ⟨a.use, f a.res⟩

/-- **Renaming.** Replaying does not depend on the names. -/
theorem exec_map (f : τ ↪ ρ) (A : Finset τ) (m : List (Mark τ)) :
    ownership.exec (A.map f) (m.map (Mark.map f)) =
      (ownership.exec A m).map (Finset.map f) := by
  induction m generalizing A with
  | nil => rfl
  | cons a m ih =>
    have hone : ownership.step (A.map f) (a.map f) = (ownership.step A a).map (Finset.map f) := by
      obtain ⟨u, r⟩ := a
      cases u <;>
        simp [ownership, Mark.map, Mark.after, Finset.map_insert, Finset.map_erase, apply_ite]
    rw [List.map_cons, Lts.exec_cons, Lts.exec_cons, hone]
    cases ownership.step A a with
    | none => rfl
    | some B => exact ih B

/-! ## Replaying on its own

A procedure is judged from the resources it starts with to those it leaves. That judgement
is local: it can be taken by evaluation on a handful of resources, and be used among
others. -/

/-- From exactly `A` held the marks replay, and leave exactly `B` held. -/
def Replays (A : List ρ) (m : List (Mark ρ)) (B : List ρ) : Prop :=
  B.Nodup ∧ ownership.exec A.toFinset m = some B.toFinset

instance (A : List ρ) (m : List (Mark ρ)) (B : List ρ) : Decidable (Replays A m B) :=
  inferInstanceAs (Decidable (_ ∧ _))

theorem owned_iff_replays : Owned rs l ↔ Replays [] l rs := by
  constructor
  · rintro ⟨S, hexec, hS⟩
    have hSrs : S = rs.toFinset := Finset.ext fun r => by simp [hS.mem_iff]
    exact ⟨by simpa using hS.nodup, hSrs ▸ hexec⟩
  · rintro ⟨hrs, hexec⟩
    exact ⟨rs.toFinset, hexec, by simpa using hrs, by simp⟩

/-- Ownership is the same under other names, as long as different resources keep different
names. -/
theorem owned_map_iff (f : τ ↪ ρ) {B : List τ} {m : List (Mark τ)} :
    Owned (B.map f) (m.map (Mark.map f)) ↔ Replays [] m B := by
  have hexec : ownership.exec ∅ (m.map (Mark.map f)) =
      (ownership.exec ∅ m).map (Finset.map f) := by
    rw [← exec_map, Finset.map_empty]
  have hB : (B.map f).toFinset = B.toFinset.map f := by
    ext r
    simp
  rw [owned_iff_replays, Replays, Replays, List.nodup_map_iff f.injective, List.toFinset_nil,
    List.toFinset_nil, hexec, hB, Option.map_eq_some_iff]
  refine and_congr_right fun _ => ⟨?_, fun h => ⟨_, h, rfl⟩⟩
  rintro ⟨T, hT, heq⟩
  rw [hT, Finset.map_injective f heq]

/-- **Local replay.** What replays on some resources replays, under other names,
where they are held with others that it does not mention. -/
theorem Owned.replay {f : τ ↪ ρ} {A B : List τ} {m : List (Mark τ)}
    (h : Owned (A.map f ++ rs) l) (hm : Replays A m B) (hrs : ∀ a ∈ m, f a.res ∉ rs) :
    Owned (B.map f ++ rs) (l ++ m.map (Mark.map f)) := by
  have hnodup := h.nodup
  have hmem := fun r => h.mem_held (r := r)
  obtain ⟨S, hexec, hS⟩ := h
  rw [held, exec_foldl hexec] at hmem
  obtain rfl : S = A.toFinset.map f ∪ rs.toFinset := by
    ext r
    simp [hmem r]
  have hmap : ownership.exec (A.toFinset.map f) (m.map (Mark.map f)) =
      some (B.toFinset.map f) := by
    rw [exec_map, hm.2]
    rfl
  have hall := exec_union (F := rs.toFinset) hmap (by simpa [Mark.map] using hrs)
  refine ⟨_, (Lts.exec_append _ hexec).trans hall, ?_, by simp⟩
  rw [List.map_id, List.nodup_append']
  refine ⟨hm.1.map f.injective, hnodup.of_append_right, ?_⟩
  -- a resource in both would have been held before already, or mentioned
  intro r hrB hrrs
  have hkeep := exec_frame (r := r) hmap fun a ha heq => by
    obtain ⟨b, hb, rfl⟩ := List.mem_map.mp ha
    subst heq
    exact hrs b hb hrrs
  have hrA : r ∈ A.map f := by simpa using hkeep.mp (by simpa using hrB)
  exact List.disjoint_of_nodup_append hnodup hrA hrrs

end KernelDrvLearn
