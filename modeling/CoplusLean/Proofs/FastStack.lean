import CoplusLean.Models.FastQueue
import Mathlib.Data.List.Basic

/-!
# `PushOnlyFastStack` used one call at a time

The stack is the list of the items pushed so far, cut into chunks of `unitSize` cells that
are installed on demand. Tokens are positions in that list.
-/

namespace CoplusLean.PushOnlyFastStack

open Lib

variable {α : Type*} [Inhabited α]

/-- The chunk table holds exactly `items`, with default values behind them in the last
chunk; calls beyond `maxSize` leave no trace but their count. -/
structure Holds (s : PushOnlyFastStack α) (items : List α) : Prop where
  unit_pos : 0 < s.unitSize
  table : s.stacks_.length = (s.maxSize + s.unitSize - 1) / s.unitSize
  count : items.length = min s.pushCount s.maxSize
  absent : ∀ m < s.stacks_.length, items.length ≤ m * s.unitSize → s.stacks_[m]? = some none
  present : ∀ m, m * s.unitSize < items.length → ∃ chunk, s.stacks_[m]? = some (some chunk) ∧
    chunk.length = s.unitSize ∧
    ∀ j < s.unitSize, chunk[j]? = some (items.getD (m * s.unitSize + j) default)

lemma holds_new (unitSize maxSize : Nat) (h : 0 < unitSize) :
    (new unitSize maxSize : PushOnlyFastStack α).Holds [] where
  unit_pos := h
  table := by simp [new]
  count := by simp [new]
  absent m hm _ := by
    simp only [new, List.length_replicate] at hm ⊢
    simp [hm]
  present m hm := by simp at hm

/-- A token of the stack is below the last chunk's end. -/
lemma div_lt_table {s : PushOnlyFastStack α} {items : List α} (hs : s.Holds items) {t : Nat}
    (ht : t < s.maxSize) : t / s.unitSize < s.stacks_.length := by
  rw [hs.table, Nat.div_lt_iff_lt_mul hs.unit_pos]
  have h := Nat.div_add_mod (s.maxSize + s.unitSize - 1) s.unitSize
  have hlt := Nat.mod_lt (s.maxSize + s.unitSize - 1) hs.unit_pos
  have hpos := hs.unit_pos
  rw [Nat.mul_comm] at h
  omega

/-- What `get` returns for a token of an installed chunk, also beyond the last item. -/
theorem get_of_chunk {s : PushOnlyFastStack α} {items : List α} (hs : s.Holds items) {t : Nat}
    (ht31 : t < 2147483648) (ht : t ≤ s.maxSize)
    (hchunk : t / s.unitSize * s.unitSize < items.length) :
    s.get (t : Int) = .found (items.getD t default) := by
  have hdm := Nat.div_add_mod' t s.unitSize
  have hsize : ¬sizeT (t : Int) > s.maxSize := by
    rw [sizeT_of_nonneg (by omega) (by omega)]
    omega
  obtain ⟨chunk, htable, -, hitems⟩ := hs.present (t / s.unitSize) hchunk
  have hsub : t - t / s.unitSize * s.unitSize = t % s.unitSize := by omega
  have hcell := hitems (t % s.unitSize) (Nat.mod_lt t hs.unit_pos)
  rw [hdm] at hcell
  simp only [get, if_neg hsize, Int.toNat_natCast, htable, hsub, List.getD_eq_getElem?_getD, hcell,
    Option.getD_some]

/-- Every pushed item is found under its token. -/
theorem get_of_lt {s : PushOnlyFastStack α} {items : List α} (hs : s.Holds items)
    (hmax : s.maxSize < 2147483648) {t : Nat} {x : α} (ht : items[t]? = some x) :
    s.get (t : Int) = .found x := by
  have hlt : t < items.length := (List.getElem?_eq_some_iff.mp ht).1
  have hcount := hs.count
  have hdm := Nat.div_add_mod' t s.unitSize
  rw [get_of_chunk hs (by omega) (by omega) (by omega), List.getD_eq_getElem?_getD, ht, Option.getD_some]

lemma get_of_gt {s : PushOnlyFastStack α} {t : Nat} (ht31 : t < 2147483648)
    (ht : s.maxSize < t) : s.get (t : Int) = .fail := by
  have hsize : sizeT (t : Int) > s.maxSize := by
    rw [sizeT_of_nonneg (by omega) (by omega)]
    omega
  simp [get, hsize]

/-- A token beyond the installed chunks finds nothing, and leaves the table at its end. -/
theorem get_of_no_chunk {s : PushOnlyFastStack α} {items : List α} (hs : s.Holds items) {t : Nat}
    (ht31 : t < 2147483648) (ht : t ≤ s.maxSize)
    (hchunk : items.length ≤ t / s.unitSize * s.unitSize) :
    s.get (t : Int) = if t / s.unitSize < s.stacks_.length then .fail else .outOfBounds := by
  have hsize : ¬sizeT (t : Int) > s.maxSize := by
    rw [sizeT_of_nonneg (by omega) (by omega)]
    omega
  simp only [get, if_neg hsize, Int.toNat_natCast]
  by_cases htable : t / s.unitSize < s.stacks_.length
  · rw [if_pos htable, hs.absent _ htable hchunk]
  · rw [if_neg htable, List.getElem?_eq_none (by omega)]

/-- A token that finds something lies in an installed chunk. -/
theorem chunk_of_get {s : PushOnlyFastStack α} {items : List α} (hs : s.Holds items) {t : Nat}
    {x : α} (ht : t < 2147483648) (h : s.get (t : Int) = .found x) :
    items.getD t default = x := by
  have hlt := Nat.mod_lt t hs.unit_pos
  by_cases hsize : sizeT (t : Int) > s.maxSize
  · simp [get, hsize] at h
  · have hle : t ≤ s.maxSize := by
      rw [sizeT_of_nonneg (by omega) (by omega)] at hsize
      omega
    by_cases hchunk : t / s.unitSize * s.unitSize < items.length
    · rw [get_of_chunk hs ht hle hchunk] at h
      exact GetResult.found.inj h
    · rw [get_of_no_chunk hs ht hle (by omega)] at h
      split_ifs at h

/-- A call on a full stack fails and only counts. -/
theorem push_of_full {s : PushOnlyFastStack α} {items : List α} (hs : s.Holds items)
    (hfull : s.maxSize ≤ s.pushCount)
    (hmax : s.maxSize < 2147483648) (hcount : s.pushCount < 4294967296) (x : α) :
    s.push x = (-1, { s with pushCount := s.pushCount + 1 }) ∧
      (s.push x).2.Holds items := by
  have hslot : sizeT (int32 s.pushCount) ≥ s.maxSize := by
    by_cases h : s.pushCount < 2147483648
    · rw [int32_of_lt (by omega) (by omega), sizeT_of_nonneg (by omega) (by omega)]
      omega
    · have hneg : int32 s.pushCount < 0 := by
        unfold int32
        omega
      have := sizeT_of_neg hneg (by have := (int32_bounds s.pushCount).1; omega)
      omega
  have hpush : s.push x = (-1, { s with pushCount := s.pushCount + 1 }) := by
    simp only [push, hslot, if_true]
  refine ⟨hpush, ?_⟩
  rw [hpush]
  exact ⟨hs.unit_pos, hs.table, by have := hs.count; simp only; omega, hs.absent, hs.present⟩

/-- Another item leaves the items at the other positions as they are. -/
lemma getD_concat_of_ne {items : List α} {t : Nat} (ht : t ≠ items.length) (x : α) :
    (items ++ [x]).getD t default = items.getD t default := by
  rw [List.getD_eq_getElem?_getD, List.getD_eq_getElem?_getD]
  rcases Nat.lt_or_gt_of_ne ht with h | h
  · rw [List.getElem?_append_left h]
  · rw [List.getElem?_eq_none (by simp only [List.length_append, List.length_singleton]; omega),
      List.getElem?_eq_none (by omega)]

/-- The chunk that receives the next item, freshly allocated when the item is its first. -/
lemma Holds.chunk_of_next {s : PushOnlyFastStack α} {items : List α} (hs : s.Holds items)
    {m : Nat} (hm : m < s.stacks_.length) (hle : m * s.unitSize ≤ items.length) :
    ∃ chunk : List α,
      (s.stacks_.getD m none).getD (List.replicate s.unitSize default) = chunk ∧
        chunk.length = s.unitSize ∧
        ∀ j < s.unitSize, chunk[j]? = some (items.getD (m * s.unitSize + j) default) := by
  rcases Nat.lt_or_eq_of_le hle with hlt | heq
  · obtain ⟨chunk, hchunk, hcl, hcells⟩ := hs.present m hlt
    exact ⟨chunk, by rw [List.getD_eq_getElem?_getD, hchunk]; rfl, hcl, hcells⟩
  · rw [List.getD_eq_getElem?_getD, hs.absent m hm heq.ge]
    refine ⟨_, rfl, by simp, fun j hj => ?_⟩
    have hnone : items[m * s.unitSize + j]? = none := List.getElem?_eq_none (by omega)
    simp [List.getD_eq_getElem?_getD, hnone, hj]

/-- A call on a stack with room returns the next token and appends the item. -/
theorem push_of_lt {s : PushOnlyFastStack α} {items : List α} (hs : s.Holds items)
    (h31 : s.pushCount < 2147483648) (hroom : s.pushCount < s.maxSize) (x : α) :
    (s.push x).1 = s.pushCount ∧ (s.push x).2.pushCount = s.pushCount + 1 ∧
      (s.push x).2.maxSize = s.maxSize ∧ (s.push x).2.unitSize = s.unitSize ∧
      (s.push x).2.Holds (items ++ [x]) := by
  have hlen : items.length = s.pushCount := by
    rw [hs.count]
    omega
  have hslot : int32 s.pushCount = s.pushCount := int32_of_lt (by omega) (by omega)
  have hsize : ¬sizeT (s.pushCount : Int) ≥ s.maxSize := by
    rw [sizeT_of_nonneg (by omega) (by omega)]
    omega
  have hdm := Nat.div_add_mod' s.pushCount s.unitSize
  have hmod := Nat.mod_lt s.pushCount hs.unit_pos
  have hmain := div_lt_table hs hroom
  have hsub : s.pushCount - s.pushCount / s.unitSize * s.unitSize = s.pushCount % s.unitSize := by
    omega
  simp only [push, hslot, if_neg hsize, Int.toNat_natCast, hsub]
  obtain ⟨chunk, hold, hcl, hcells⟩ := hs.chunk_of_next hmain (by omega)
  rw [hold]
  refine ⟨trivial, trivial, trivial, trivial, hs.unit_pos, ?_, ?_, ?_, ?_⟩
  · simp only [List.length_set]
    exact hs.table
  · simp only [List.length_append, List.length_singleton]
    omega
  · intro m hm hle
    simp only [List.length_set, List.length_append, List.length_singleton] at hm hle ⊢
    have hne : s.pushCount / s.unitSize ≠ m := by
      rintro rfl
      omega
    rw [List.getElem?_set_ne hne]
    exact hs.absent m hm (by omega)
  · intro m hm
    simp only [List.length_append, List.length_singleton] at hm ⊢
    by_cases hmeq : s.pushCount / s.unitSize = m
    · subst hmeq
      refine ⟨chunk.set (s.pushCount % s.unitSize) x, ?_, by simp [hcl], ?_⟩
      · rw [List.getElem?_set_self hmain]
      · intro j hj
        by_cases hjx : j = s.pushCount % s.unitSize
        · subst hjx
          rw [List.getElem?_set_self (by omega), hdm, ← hlen, List.getD_eq_getElem?_getD,
            List.getElem?_concat_length, Option.getD_some]
        · rw [List.getElem?_set_ne (Ne.symm hjx), hcells j hj, getD_concat_of_ne (by omega)]
    · have hmlt : m * s.unitSize < items.length := by
        by_contra hge
        have heq : m * s.unitSize = s.pushCount := by omega
        exact hmeq (by rw [← heq, Nat.mul_div_cancel _ hs.unit_pos])
      obtain ⟨old, hchunk, hol, hcells'⟩ := hs.present m hmlt
      refine ⟨old, by rw [List.getElem?_set_ne hmeq]; exact hchunk, hol, ?_⟩
      intro j hj
      rw [hcells' j hj, getD_concat_of_ne]
      intro heq
      apply hmeq
      rw [← hlen, ← heq, Nat.add_comm, Nat.add_mul_div_right _ _ hs.unit_pos, Nat.div_eq_of_lt hj,
        Nat.zero_add]

lemma push_of_room {s : PushOnlyFastStack α} {items : List α} (hs : s.Holds items)
    (hmax : s.maxSize < 2147483648) (hroom : s.pushCount < s.maxSize) (x : α) :
    (s.push x).1 = s.pushCount ∧ (s.push x).2.pushCount = s.pushCount + 1 ∧
      (s.push x).2.maxSize = s.maxSize ∧ (s.push x).2.unitSize = s.unitSize ∧
      (s.push x).2.Holds (items ++ [x]) :=
  push_of_lt hs (by omega) hroom x

end CoplusLean.PushOnlyFastStack
