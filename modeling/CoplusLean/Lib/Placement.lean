import Mathlib.Logic.Function.Basic
import Mathlib.Data.List.Nodup

/-!
# Every item in one place

A function `place` gives each item its place. Collections that hold exactly the items of
their place are then disjoint, and moving one item from a place to another touches only
the two collections it leaves and enters.
-/

namespace CoplusLean.Lib

variable {ι Q : Type*} [DecidableEq ι] {place : ι → Q} {q p : Q} {t : ι} {P P' : ι → Prop}

/-- `P` holds exactly the items at the place `q`. -/
def At (place : ι → Q) (q : Q) (P : ι → Prop) : Prop := ∀ t, P t ↔ place t = q

lemma At.keep (h : At place q P) (hold : place t ≠ q) (hnew : p ≠ q) :
    At (Function.update place t p) q P := by
  intro s
  by_cases hs : s = t
  · subst hs
    rw [Function.update_self, h s]
    exact iff_of_false hold hnew
  · rw [Function.update_of_ne hs]
    exact h s

lemma At.enter (h : At place q P) (hP : ∀ s, P' s ↔ P s ∨ s = t) :
    At (Function.update place t q) q P' := by
  intro s
  rw [hP]
  by_cases hs : s = t
  · subst hs
    simp
  · rw [Function.update_of_ne hs, h s]
    simp [hs]

lemma At.leave (h : At place q P) (hnew : p ≠ q) (hP : ∀ s, P' s ↔ P s ∧ s ≠ t) :
    At (Function.update place t p) q P' := by
  intro s
  rw [hP]
  by_cases hs : s = t
  · subst hs
    simp [hnew]
  · rw [Function.update_of_ne hs, h s]
    simp [hs]

omit [DecidableEq ι] in
lemma At.congr (h : At place q P) (hP : ∀ s, P' s ↔ P s) : At place q P' :=
  fun s => (hP s).trans (h s)

lemma mem_eraseIdx_iff {l : List ι} (hl : l.Nodup) {k : Nat} {a : ι} (hk : l[k]? = some a)
    (b : ι) : b ∈ l.eraseIdx k ↔ b ∈ l ∧ b ≠ a := by
  obtain ⟨hlt, rfl⟩ := List.getElem?_eq_some_iff.mp hk
  rw [← hl.erase_getElem k hlt, hl.mem_erase_iff, and_comm]

/-! ## Moving several items at once -/

/-- All items of `ts` move to `p`. -/
def relocate (place : ι → Q) (ts : List ι) (p : Q) : ι → Q :=
  fun s => if s ∈ ts then p else place s

section Relocate

variable {ts : List ι}

lemma relocate_of_mem (h : t ∈ ts) : relocate place ts p t = p := if_pos h

lemma relocate_of_notMem (h : t ∉ ts) : relocate place ts p t = place t := if_neg h

lemma At.relocate_keep (h : At place q P) (hold : ∀ s ∈ ts, place s ≠ q) (hnew : p ≠ q) :
    At (relocate place ts p) q P := by
  intro s
  by_cases hs : s ∈ ts
  · rw [relocate_of_mem hs, h s]
    exact iff_of_false (hold s hs) hnew
  · rw [relocate_of_notMem hs]
    exact h s

lemma At.relocate_enter (h : At place q P) (hP : ∀ s, P' s ↔ P s ∨ s ∈ ts) :
    At (relocate place ts q) q P' := by
  intro s
  rw [hP]
  by_cases hs : s ∈ ts
  · simp [relocate_of_mem hs, hs]
  · simp [relocate_of_notMem hs, hs, h s]

lemma At.relocate_leave (h : At place q P) (hnew : p ≠ q) (hP : ∀ s, P' s ↔ P s ∧ s ∉ ts) :
    At (relocate place ts p) q P' := by
  intro s
  rw [hP]
  by_cases hs : s ∈ ts
  · simp [relocate_of_mem hs, hs, hnew]
  · simp [relocate_of_notMem hs, hs, h s]

end Relocate

/-! ## Slots

A family of holders, each with a slot for one item; the place `mk j` is the slot of `j`. -/

section Slots

variable {κ β : Type*} [DecidableEq κ] {f : κ → β} {slot : β → Option ι} {mk : κ → Q} {i : κ}
  {x : β}

lemma slots_same (h : ∀ j, At place (mk j) fun s => slot (f j) = some s)
    (hx : slot x = slot (f i)) (hold : ∀ j, place t ≠ mk j) (hnew : ∀ j, p ≠ mk j) :
    ∀ j, At (Function.update place t p) (mk j)
      fun s => slot (Function.update f i x j) = some s := by
  intro j
  refine ((h j).keep (hold j) (hnew j)).congr fun s => ?_
  by_cases hj : j = i
  · subst hj
    rw [Function.update_self, hx]
  · rw [Function.update_of_ne hj]

lemma slots_leave (h : ∀ j, At place (mk j) fun s => slot (f j) = some s)
    (hmk : Function.Injective mk) (hi : slot (f i) = some t) (hx : slot x = none)
    (hnew : ∀ j, p ≠ mk j) :
    ∀ j, At (Function.update place t p) (mk j)
      fun s => slot (Function.update f i x j) = some s := by
  intro j
  by_cases hj : j = i
  · subst hj
    refine (h j).leave (hnew j) fun s => ?_
    rw [Function.update_self, hx, hi]
    simp [eq_comm]
  · have hplace : place t = mk i := (h i t).mp hi
    rw [Function.update_of_ne hj]
    exact (h j).keep (hplace ▸ fun heq => hj (hmk heq).symm) (hnew j)

lemma slots_enter (h : ∀ j, At place (mk j) fun s => slot (f j) = some s)
    (hmk : Function.Injective mk) (hi : slot (f i) = none) (hx : slot x = some t)
    (hold : ∀ j, place t ≠ mk j) :
    ∀ j, At (Function.update place t (mk i)) (mk j)
      fun s => slot (Function.update f i x j) = some s := by
  intro j
  by_cases hj : j = i
  · subst hj
    refine (h j).enter fun s => ?_
    rw [Function.update_self, hx, hi]
    simp [eq_comm]
  · rw [Function.update_of_ne hj]
    exact (h j).keep (hold j) fun heq => hj (hmk heq).symm

end Slots

end CoplusLean.Lib
