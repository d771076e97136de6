import Mathlib.Data.List.Basic
import Mathlib.Order.Nat

/-!
# Reading a text in chunks

A reader keeps an offset into a text, and each read takes at most `count` items
from there and moves the offset past them. The chunks that bring it to an offset
make up the text before it (`Delivered`), however long they are; and when every
count is positive, the chunks before the first empty one make up the whole text
(`exists_end`).
-/

namespace KernelDrvLearn

universe u

variable {α : Type u} {text : List α} {chunks : List (List α)} {off count : ℕ}

/-- What a read of at most `count` items finds at `off`. -/
def chunk (text : List α) (off count : ℕ) : List α := (text.drop off).take count

theorem length_chunk : (chunk text off count).length = min count (text.length - off) := by
  rw [chunk, List.length_take, List.length_drop]

/-- Asking for as much as there is gives all of it. -/
theorem chunk_length : chunk text off (chunk text off count).length = chunk text off count := by
  rw [length_chunk, chunk, chunk, List.take_eq_take_iff, List.length_drop]
  omega

/-- A read finds nothing exactly at the end. -/
theorem chunk_eq_nil_iff (hcount : 0 < count) : chunk text off count = [] ↔ text.length ≤ off := by
  rw [← List.length_eq_zero_iff, length_chunk]
  omega

/-- A chunk one item longer, if there is a further item. -/
theorem chunk_succ {c : α} (hc : text[off + count]? = some c) :
    chunk text off (count + 1) = chunk text off count ++ [c] := by
  rw [chunk, List.take_add_one, List.getElem?_drop, hc]
  rfl

/-- A chunk continues what comes before it: together they are the text up to the new
offset. -/
theorem take_append_chunk :
    text.take off ++ chunk text off count = text.take (off + (chunk text off count).length) := by
  rw [List.take_add, length_chunk, chunk]
  refine congrArg (text.take off ++ ·) ?_
  by_cases hle : count ≤ text.length - off
  · rw [Nat.min_eq_left hle]
  · rw [Nat.min_eq_right (by omega), List.take_of_length_le (by rw [List.length_drop]; omega),
      List.take_of_length_le (by rw [List.length_drop])]

/-- These chunks, none of them empty, bring the reader from the start of the
text to `off`. -/
structure Delivered (text : List α) (chunks : List (List α)) (off : ℕ) : Prop where
  /-- together they are the text before `off` -/
  flatten : chunks.flatten = text.take off
  /-- which lies in the text -/
  le : off ≤ text.length
  /-- none is empty -/
  ne_nil : [] ∉ chunks

namespace Delivered

/-- Nothing is read yet, and the reader is at the start. -/
theorem start : Delivered text [] 0 where
  flatten := rfl
  le := Nat.zero_le _
  ne_nil := List.not_mem_nil

/-- **One more read.** A read that finds something adds its chunk, and moves the reader
past it. -/
theorem snoc (h : Delivered text chunks off) (hcount : 0 < count) (hoff : off < text.length) :
    Delivered text (chunks ++ [chunk text off count]) (off + (chunk text off count).length) where
  flatten := by
    rw [List.flatten_append, List.flatten_singleton, h.flatten]
    exact take_append_chunk
  le := by
    rw [length_chunk]
    omega
  ne_nil := by
    rw [List.mem_append, List.mem_singleton]
    rintro (hmem | hnil)
    · exact h.ne_nil hmem
    · have hend := (chunk_eq_nil_iff hcount).mp hnil.symm
      omega

/-- At the end the text has been delivered. -/
theorem all (h : Delivered text chunks off) (hend : text.length ≤ off) : chunks.flatten = text := by
  rw [h.flatten, List.take_of_length_le hend]

end Delivered

/-- **Reading to the end.** A reader that starts at 0 and asks for a positive
count each time gets, before the first empty chunk, chunks that make up the
text, and only empty ones from then on. -/
theorem exists_end {counts offs : ℕ → ℕ} {out : ℕ → List α} (hstart : offs 0 = 0)
    (hout : ∀ n, out n = chunk text (offs n) (counts n))
    (hoffs : ∀ n, offs (n + 1) = offs n + (out n).length) (hcounts : ∀ n, 0 < counts n) :
    ∃ n, ((List.range n).map out).flatten = text ∧ (∀ i < n, out i ≠ []) ∧
      ∀ i, n ≤ i → out i = [] := by
  have hmono : ∀ n k, offs n ≤ offs (n + k) := by
    intro n k
    induction k with
    | zero => exact Nat.le_refl _
    | succ k ih =>
      rw [← Nat.add_assoc, hoffs]
      exact Nat.le_trans ih (Nat.le_add_right _ _)
  -- each read before the end moves the offset
  have hreach : ∃ n, text.length ≤ offs n := by
    by_contra hno
    have hgrow : ∀ n, n ≤ offs n := by
      intro n
      induction n with
      | zero => exact Nat.zero_le _
      | succ n ih =>
        have hne : out n ≠ [] := by
          rw [hout, Ne, chunk_eq_nil_iff (hcounts n)]
          exact fun hle => hno ⟨n, hle⟩
        have hpos := List.length_pos_iff.mpr hne
        rw [hoffs]
        omega
    exact hno ⟨text.length, hgrow _⟩
  have hbefore : ∀ i < Nat.find hreach, offs i < text.length :=
    fun i hi => Nat.lt_of_not_le (Nat.find_min hreach hi)
  have hdelivered : ∀ n ≤ Nat.find hreach, Delivered text ((List.range n).map out) (offs n) := by
    intro n hn
    induction n with
    | zero =>
      rw [hstart]
      exact Delivered.start
    | succ n ih =>
      have hsnoc := (ih (Nat.le_of_succ_le hn)).snoc (hcounts n) (hbefore n hn)
      rw [List.range_succ, List.map_append, hoffs, List.map_singleton, hout]
      exact hsnoc
  refine ⟨Nat.find hreach, (hdelivered _ (Nat.le_refl _)).all (Nat.find_spec hreach), ?_, ?_⟩
  · intro i hi
    rw [hout, Ne, chunk_eq_nil_iff (hcounts i)]
    exact Nat.not_le_of_lt (hbefore i hi)
  · intro i hi
    obtain ⟨k, rfl⟩ := Nat.exists_eq_add_of_le hi
    rw [hout, chunk_eq_nil_iff (hcounts _)]
    exact Nat.le_trans (Nat.find_spec hreach) (hmono _ k)

end KernelDrvLearn
