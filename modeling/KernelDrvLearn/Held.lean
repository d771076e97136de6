import Mathlib.Data.Finset.Card
import Mathlib.Data.List.Perm.Basic
import Mathlib.Data.List.Dedup

/-!
# Resources and their holders

A set of live resources against a list of holders, each of which holds one:
`Held key holders live` says that no two hold the same one and that nothing
else is live. Acquiring a free resource and releasing a held one keep it so,
which is all that acquisition and clean-up code has to show, step by step, for
each kind of resource it touches. Where each holder has its entry in a list,
`countP_set_add` counts them.
-/

namespace KernelDrvLearn

universe u v

variable {β : Type u} {ρ : Type v}

/-- Each holder holds one live resource, no two the same one, and no other
resource is live. -/
structure Held (key : β → ρ) (holders : List β) (live : Finset ρ) : Prop where
  /-- no two hold the same -/
  nodup : (holders.map key).Nodup
  /-- live is what is held -/
  mem_iff : ∀ r, r ∈ live ↔ r ∈ holders.map key

namespace Held

variable {key : β → ρ} {holders : List β} {live : Finset ρ} {b : β}

/-- Nobody holds anything, and nothing is live: where a run begins. -/
theorem nil : Held key [] ∅ where
  nodup := List.nodup_nil
  mem_iff := by
    intro r
    exact iff_of_false (Finset.notMem_empty r) List.not_mem_nil

/-- What is held is live: its holder may use it. -/
theorem mem (h : Held key holders live) (hb : b ∈ holders) : key b ∈ live :=
  (h.mem_iff _).mpr (List.mem_map_of_mem hb)

variable [DecidableEq ρ]

/-- **Acquire.** A new holder of a resource that was free. -/
theorem acquire (h : Held key holders live) (hfree : key b ∉ live) :
    Held key (b :: holders) (insert (key b) live) where
  nodup := by
    rw [List.map_cons, List.nodup_cons, ← h.mem_iff]
    exact ⟨hfree, h.nodup⟩
  mem_iff := by
    intro r
    rw [Finset.mem_insert, List.map_cons, List.mem_cons, h.mem_iff]

/-- **Release.** A holder gives its resource back, and from then on nobody holds it. -/
theorem release [DecidableEq β] (h : Held key holders live) (hb : b ∈ holders) :
    Held key (holders.erase b) (live.erase (key b)) := by
  have hperm : (holders.map key).Perm (key b :: (holders.erase b).map key) :=
    (List.perm_cons_erase hb).map key
  have hnodup : (key b :: (holders.erase b).map key).Nodup := hperm.nodup_iff.mp h.nodup
  obtain ⟨hnotMem, hrest⟩ := List.nodup_cons.mp hnodup
  refine ⟨hrest, fun r => ?_⟩
  rw [Finset.mem_erase, h.mem_iff, hperm.mem_iff, List.mem_cons]
  constructor
  · rintro ⟨hne, heq | hmem⟩
    · exact absurd heq hne
    · exact hmem
  · intro hmem
    refine ⟨?_, Or.inr hmem⟩
    rintro rfl
    exact hnotMem hmem

/-- There are as many live resources as holders, since no two hold the same one. -/
theorem card (h : Held key holders live) : live.card = holders.length := by
  have hlive : live = (holders.map key).toFinset := by
    ext r
    rw [h.mem_iff, List.mem_toFinset]
  rw [hlive, List.toFinset_card_of_nodup h.nodup, List.length_map]

/-- Without holders nothing is live. So whatever a run has acquired is back when the last
holder has gone. -/
theorem eq_empty (h : Held key [] live) : live = ∅ :=
  Finset.card_eq_zero.mp h.card

end Held

/-- Replacing one entry of a list moves a count by the difference of the two. -/
theorem countP_set_add {α : Type} (p : α → Bool) {l : List α} {i : ℕ} {a : α}
    (h : l[i]? = some a) (b : α) :
    (l.set i b).countP p + (p a).toNat = l.countP p + (p b).toNat := by
  obtain ⟨hi, rfl⟩ := List.getElem?_eq_some_iff.mp h
  rw [List.countP_set hi]
  have hpos : p l[i] = true → 0 < l.countP p := fun hp =>
    List.countP_pos_iff.mpr ⟨_, List.getElem_mem hi, hp⟩
  cases ha : p l[i] <;> cases p b <;> simp only [ha, Bool.toNat_true, Bool.toNat_false,
    if_true, Bool.false_eq_true, if_false] at hpos ⊢
  all_goals first | omega | skip
  all_goals have := hpos trivial; omega

end KernelDrvLearn
