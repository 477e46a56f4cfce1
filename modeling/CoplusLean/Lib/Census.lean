import Mathlib.Data.Finset.Card
import Mathlib.Logic.Function.Basic

/-!
# Counting the threads in a class of states

`Census P f n` says that exactly `n` indices have a value in the class `P`. It is kept as
a relation, so that the number of threads in a class can be followed through the changes
of one thread at a time without an enumeration of all threads.
-/

namespace CoplusLean.Lib

variable {ι β : Type*} [DecidableEq ι] {P : β → Prop} {f : ι → β} {n : Nat} {i : ι} {b : β}

def Census (P : β → Prop) (f : ι → β) (n : Nat) : Prop :=
  ∃ s : Finset ι, (∀ i, i ∈ s ↔ P (f i)) ∧ s.card = n

omit [DecidableEq ι] in
lemma census_const (hb : ¬P b) : Census P (fun _ : ι => b) 0 :=
  ⟨∅, fun i => by simp [hb], rfl⟩

omit [DecidableEq ι] in
lemma Census.exists_of_pos (h : Census P f n) (hn : 0 < n) : ∃ i, P (f i) := by
  obtain ⟨s, hs, rfl⟩ := h
  obtain ⟨i, hi⟩ := Finset.card_pos.mp hn
  exact ⟨i, (hs i).mp hi⟩

omit [DecidableEq ι] in
lemma Census.not_of_zero (h : Census P f 0) (i : ι) : ¬P (f i) := by
  obtain ⟨s, hs, hcard⟩ := h
  rw [← hs, Finset.card_eq_zero.mp hcard]
  exact Finset.notMem_empty i

lemma Census.same (h : Census P f n) (hiff : P b ↔ P (f i)) :
    Census P (Function.update f i b) n := by
  obtain ⟨s, hs, hcard⟩ := h
  refine ⟨s, fun j => ?_, hcard⟩
  by_cases hj : j = i
  · subst hj
    rw [hs, Function.update_self, hiff]
  · rw [hs, Function.update_of_ne hj]

lemma Census.enter (h : Census P f n) (hold : ¬P (f i)) (hnew : P b) :
    Census P (Function.update f i b) (n + 1) := by
  obtain ⟨s, hs, hcard⟩ := h
  refine ⟨insert i s, fun j => ?_, ?_⟩
  · by_cases hj : j = i
    · subst hj
      simp [hnew]
    · simp [hj, hs]
  · rw [Finset.card_insert_of_notMem (by rw [hs]; exact hold), hcard]

lemma Census.leave (h : Census P f n) (hold : P (f i)) (hnew : ¬P b) :
    ∃ m, n = m + 1 ∧ Census P (Function.update f i b) m := by
  obtain ⟨s, hs, hcard⟩ := h
  have hi : i ∈ s := (hs i).mpr hold
  have hpos : 0 < s.card := Finset.card_pos.mpr ⟨i, hi⟩
  refine ⟨s.card - 1, by omega, s.erase i, fun j => ?_, Finset.card_erase_of_mem hi⟩
  by_cases hj : j = i
  · subst hj
    simp [hnew]
  · simp [hj, hs]

end CoplusLean.Lib
