import CoplusLean.Models.FastQueue
import Mathlib.Data.List.Perm.Basic
import Mathlib.Data.List.Rotate

/-!
# The locked ring `SlowQueue`

`contents` reads the occupied cells from `head` round to `tail`. Popping takes the first
of them. Pushing appends one, except that filling the ring while `head` is zero moves both
ends to one and thereby rotates the contents; the occupied cells stay the same.
-/

namespace CoplusLean.SlowQueue

variable {α : Type*}

/-- The shape every ring of at least two cells keeps. -/
structure WellFormed (q : SlowQueue α) : Prop where
  two_le : 2 ≤ q.maxSize
  length_ring : q.ring.length = q.maxSize
  head_lt : q.head < q.maxSize
  tail_lt : q.tail < q.maxSize

/-- The stored values, in the order in which they will be popped. -/
def contents (q : SlowQueue α) : List α :=
  if q.head = q.tail ∧ q.tail = 0 then []
  else if q.head < q.tail then (q.ring.drop q.head).take (q.tail - q.head)
  else q.ring.drop q.head ++ q.ring.take q.tail

lemma wellFormed_new [Inhabited α] {n : Nat} (hn : 2 ≤ n) : (new n : SlowQueue α).WellFormed :=
  ⟨hn, by simp [new], by simp only [new]; omega, by simp only [new]; omega⟩

@[simp] lemma contents_new [Inhabited α] (n : Nat) : (new n : SlowQueue α).contents = [] := by
  simp [new, contents]

lemma contents_of_empty {q : SlowQueue α} (h : q.head = q.tail ∧ q.tail = 0) :
    q.contents = [] := by
  simp [contents, h]

lemma contents_of_lt {q : SlowQueue α} (h : q.head < q.tail) :
    q.contents = (q.ring.drop q.head).take (q.tail - q.head) := by
  have : ¬(q.head = q.tail ∧ q.tail = 0) := by omega
  simp [contents, this, h]

lemma contents_of_ge {q : SlowQueue α} (h : q.tail ≤ q.head) (h0 : 0 < q.head) :
    q.contents = q.ring.drop q.head ++ q.ring.take q.tail := by
  have h1 : ¬(q.head = q.tail ∧ q.tail = 0) := by omega
  have h2 : ¬q.head < q.tail := by omega
  simp [contents, h1, h2]

lemma length_contents_le {q : SlowQueue α} (hq : q.WellFormed) :
    q.contents.length ≤ q.maxSize := by
  obtain ⟨-, hr, hh, ht⟩ := hq
  unfold contents
  split_ifs <;> simp only [List.length_nil, List.length_take, List.length_drop,
    List.length_append, hr] <;> omega

theorem size_eq_length {q : SlowQueue α} (hq : q.WellFormed) : q.size = q.contents.length := by
  obtain ⟨-, hr, hh, ht⟩ := hq
  unfold size contents
  split_ifs <;> simp only [List.length_nil, List.length_take, List.length_drop,
    List.length_append, hr] <;> omega

/-- The value a pop returns, followed by what it leaves. -/
theorem contents_eq_cons [Inhabited α] {q : SlowQueue α} (hq : q.WellFormed)
    (h : ¬(q.head = q.tail ∧ q.tail = 0)) :
    q.contents = q.ring.getD q.head default :: (q.pop).2.contents := by
  obtain ⟨h2, hr, hh, ht⟩ := hq
  have hget : q.ring.drop q.head = q.ring.getD q.head default :: q.ring.drop (q.head + 1) := by
    rw [List.drop_eq_getElem_cons (by omega)]
    simp [List.getD_eq_getElem?_getD, List.getElem?_eq_getElem (show q.head < q.ring.length by omega)]
  unfold pop
  rw [if_neg h]
  by_cases hlt : q.head < q.tail
  · rw [contents_of_lt hlt, hget, show q.tail - q.head = (q.tail - (q.head + 1)) + 1 by omega,
      List.take_succ_cons]
    rw [if_neg (by omega : ¬q.head + 1 = q.maxSize)]
    by_cases he : q.head + 1 = q.tail
    · simp [he, contents]
    · simp only [he, if_false]
      rw [contents_of_lt (by simp only; omega)]
  · rw [contents_of_ge (by omega) (by omega), hget, List.cons_append]
    by_cases hm : q.head + 1 = q.maxSize
    · have hnil : q.ring.drop (q.head + 1) = [] := List.drop_eq_nil_of_le (by omega)
      rw [hnil, List.nil_append, if_pos hm]
      by_cases h0 : 0 = q.tail
      · simp [← h0, contents]
      · simp only [h0, if_false]
        rw [contents_of_lt (by simp only; omega)]
        simp
    · rw [if_neg hm, if_neg (by omega : ¬q.head + 1 = q.tail)]
      rw [contents_of_ge (by simp only; omega) (by simp)]

lemma wellFormed_pop [Inhabited α] {q : SlowQueue α} (hq : q.WellFormed) :
    (q.pop).2.WellFormed := by
  obtain ⟨h2, hr, hh, ht⟩ := hq
  simp only [pop]
  split_ifs <;> refine ⟨h2, hr, ?_, ?_⟩ <;> simp only <;> omega

/-- What `pop` does: nothing on an empty queue, else it hands out the first value. -/
theorem pop_spec [Inhabited α] {q : SlowQueue α} (hq : q.WellFormed) :
    (q.pop).1 = q.contents.head? ∧ (q.pop).2.contents = q.contents.tail ∧
      (q.pop).2.WellFormed := by
  refine ⟨?_, ?_, wellFormed_pop hq⟩
  · by_cases h : q.head = q.tail ∧ q.tail = 0
    · simp [pop, contents_of_empty h, h]
    · rw [contents_eq_cons hq h]
      simp only [pop, if_neg h, List.head?_cons]
      split_ifs <;> rfl
  · by_cases h : q.head = q.tail ∧ q.tail = 0
    · simp [pop, contents_of_empty h, h]
    · rw [contents_eq_cons hq h, List.tail_cons]

lemma set_tail_split {l : List α} {n : Nat} (hn : n < l.length) (x : α) :
    l.set n x = l.take n ++ x :: l.drop (n + 1) := by
  rw [List.set_eq_take_append_cons_drop, if_pos hn]

/-- The push that would fill the ring from a head at cell zero: it moves both ends to one. -/
def FillsFromZero (q : SlowQueue α) : Prop := q.head = 0 ∧ q.tail + 1 = q.maxSize

instance (q : SlowQueue α) : Decidable q.FillsFromZero := inferInstanceAs (Decidable (_ ∧ _))

/-- One value more, at the end; no cell is left unset. -/
def Appended (q : SlowQueue α) (x : α) (result : Bool × SlowQueue α) : Prop :=
  result.1 = true ∧ result.2.WellFormed ∧ result.2.contents = q.contents ++ [x]

lemma push_of_empty {q : SlowQueue α} (hq : q.WellFormed) (h0 : q.head = 0) (ht : q.tail = 0)
    (x : α) : q.Appended x (q.push x) := by
  obtain ⟨h2, hr, hh, -⟩ := hq
  have hz : q.contents = [] := contents_of_empty ⟨by omega, ht⟩
  have hset := set_tail_split (by omega : 0 < q.ring.length) x
  unfold push
  rw [if_pos (by omega), if_pos h0]
  refine ⟨rfl, ⟨h2, by simp [hr], hh, by simp only; omega⟩, ?_⟩
  rw [contents_of_lt (by simp only; omega), hz]
  simp only [h0, ht, hset]
  simp

/-- The occupied cells lie between the two ends and the next cell is not the last. -/
lemma push_of_between {q : SlowQueue α} (hq : q.WellFormed) (hlt : q.head < q.tail)
    (hm : q.tail + 1 ≠ q.maxSize) (x : α) : q.Appended x (q.push x) := by
  obtain ⟨h2, hr, hh, ht⟩ := hq
  have hset := set_tail_split (by omega : q.tail < q.ring.length) x
  have hne0 : ¬(q.head = q.tail + 1 ∧ q.tail + 1 = 0) := by omega
  unfold push
  rw [if_neg (by omega : ¬q.head = q.tail)]
  simp only [hm, if_false, hne0]
  refine ⟨rfl, ⟨h2, by simp [hr], hh, by simp only; omega⟩, ?_⟩
  rw [contents_of_lt (by simp only; omega), contents_of_lt hlt]
  simp only
  rw [hset, List.drop_append_of_le_length (by simp only [List.length_take]; omega),
    List.take_append, List.drop_take]
  have h3 : (List.take (q.tail - q.head) (q.ring.drop q.head)).length = q.tail - q.head := by
    simp only [List.length_take, List.length_drop]
    omega
  rw [h3, List.take_of_length_le (by omega),
    show q.tail + 1 - q.head - (q.tail - q.head) = 0 + 1 by omega, List.take_succ_cons,
    List.take_zero]

/-- The last cell is written: the ring holds the old contents and the value in one piece. -/
lemma set_last {q : SlowQueue α} (hq : q.WellFormed) (hlt : q.head < q.tail)
    (hm : q.tail + 1 = q.maxSize) (x : α) :
    (q.ring.set q.tail x).drop q.head = q.contents ++ [x] := by
  have hr := hq.length_ring
  have hset := set_tail_split (by omega : q.tail < q.ring.length) x
  rw [List.drop_eq_nil_of_le (by omega)] at hset
  rw [hset, List.drop_append_of_le_length (by simp only [List.length_take]; omega),
    contents_of_lt hlt, List.take_drop, Nat.add_sub_cancel' hlt.le]

lemma push_of_last {q : SlowQueue α} (hq : q.WellFormed) (hlt : q.head < q.tail)
    (hm : q.tail + 1 = q.maxSize) (h0 : q.head ≠ 0) (x : α) : q.Appended x (q.push x) := by
  have hlast := set_last hq hlt hm x
  obtain ⟨h2, hr, hh, ht⟩ := hq
  unfold push
  rw [if_neg (by omega : ¬q.head = q.tail)]
  simp only [hm, if_true, h0, false_and, if_false]
  refine ⟨rfl, ⟨h2, by simp [hr], by simp only; omega, by simp only; omega⟩, ?_⟩
  rw [contents_of_ge (Nat.zero_le _) (by simp only; omega)]
  simp only [List.take_zero, List.append_nil]
  exact hlast

/-- The occupied cells wrap round the end of the ring. -/
lemma push_of_wrapped {q : SlowQueue α} (hq : q.WellFormed) (hgt : q.tail < q.head) (x : α) :
    q.Appended x (q.push x) := by
  obtain ⟨h2, hr, hh, ht⟩ := hq
  have hset := set_tail_split (by omega : q.tail < q.ring.length) x
  have hold : q.contents = q.ring.drop q.head ++ q.ring.take q.tail :=
    contents_of_ge (by omega) (by omega)
  have hne : ¬q.head = q.tail := by omega
  have hm : ¬q.tail + 1 = q.maxSize := by omega
  have hne0 : ¬(q.head = q.tail + 1 ∧ q.tail + 1 = 0) := by omega
  unfold push
  simp only [hne, if_false, hm, hne0]
  refine ⟨rfl, ⟨h2, by simp [hr], hh, by simp only; omega⟩, ?_⟩
  rw [contents_of_ge (by simp only; omega) (by simp only; omega), hold]
  simp only
  have htake : (q.ring.set q.tail x).take (q.tail + 1) = q.ring.take q.tail ++ [x] := by
    rw [hset, List.take_append, List.take_of_length_le (by simp only [List.length_take]; omega)]
    simp only [List.length_take]
    rw [show q.tail + 1 - min q.tail q.ring.length = 0 + 1 by omega, List.take_succ_cons,
      List.take_zero]
  have hdrop : (q.ring.set q.tail x).drop q.head = q.ring.drop q.head :=
    List.drop_set_of_lt (by omega)
  rw [htake, hdrop, List.append_assoc]

/-- Filling the ring from cell zero puts the oldest value behind all others. -/
lemma push_of_fillsFromZero {q : SlowQueue α} (hq : q.WellFormed) (hfill : q.FillsFromZero)
    (x : α) : (q.push x).1 = true ∧ (q.push x).2.WellFormed ∧
      (q.push x).2.contents = (q.contents ++ [x]).rotate 1 := by
  obtain ⟨h0, hm⟩ := hfill
  have h2 := hq.two_le
  have hlast := set_last hq (by omega) hm x
  have hr := hq.length_ring
  rw [h0, List.drop_zero] at hlast
  unfold push
  rw [if_neg (by omega : ¬q.head = q.tail)]
  simp only [hm, if_true, h0, and_self]
  refine ⟨trivial, ⟨h2, by simp [hr], by simp only; omega, by simp only; omega⟩, ?_⟩
  rw [contents_of_ge (le_refl _) (by simp), ← hlast,
    List.rotate_eq_drop_append_take (by simp only [List.length_set]; omega)]

lemma length_contents_of_full {q : SlowQueue α} (hq : q.WellFormed) (hfull : q.head = q.tail)
    (h0 : q.head ≠ 0) : q.contents.length = q.maxSize := by
  have hr := hq.length_ring
  have hh := hq.head_lt
  rw [contents_of_ge (by omega) (by omega)]
  simp only [List.length_append, List.length_drop, List.length_take]
  omega

lemma length_contents_lt {q : SlowQueue α} (hq : q.WellFormed)
    (hroom : ¬(q.head = q.tail ∧ q.head ≠ 0)) : q.contents.length < q.maxSize := by
  obtain ⟨h2, hr, hh, ht⟩ := hq
  unfold contents
  split_ifs <;> simp only [List.length_nil, List.length_take, List.length_drop,
    List.length_append, hr] <;> omega

/-- Every other push with room appends. -/
theorem push_of_room {q : SlowQueue α} (hq : q.WellFormed)
    (hroom : q.contents.length < q.maxSize) (hfill : ¬q.FillsFromZero) (x : α) :
    q.Appended x (q.push x) := by
  rcases Nat.lt_trichotomy q.head q.tail with hlt | heq | hgt
  · by_cases hm : q.tail + 1 = q.maxSize
    · exact push_of_last hq hlt hm (fun h0 => hfill ⟨h0, hm⟩) x
    · exact push_of_between hq hlt hm x
  · by_cases h0 : q.head = 0
    · exact push_of_empty hq h0 (by omega) x
    · exact absurd (length_contents_of_full hq heq h0) (by omega)
  · exact push_of_wrapped hq hgt x

lemma push_of_full {q : SlowQueue α} (hq : q.WellFormed) (hfull : q.contents.length = q.maxSize)
    (x : α) : q.push x = (false, q) := by
  have hends : q.head = q.tail ∧ q.head ≠ 0 := by
    by_contra hroom
    exact absurd (length_contents_lt hq hroom) (by omega)
  unfold push
  rw [if_pos hends.1, if_neg hends.2]

/-- What `push` does: a full queue refuses, otherwise one value joins the contents. -/
theorem push_spec {q : SlowQueue α} (hq : q.WellFormed) (x : α) :
    (q.contents.length = q.maxSize ∧ q.push x = (false, q)) ∨
    (q.contents.length < q.maxSize ∧ (q.push x).1 = true ∧ (q.push x).2.WellFormed ∧
      (q.push x).2.contents.Perm (q.contents ++ [x])) := by
  by_cases hfull : q.contents.length = q.maxSize
  · exact .inl ⟨hfull, push_of_full hq hfull x⟩
  · have hroom : q.contents.length < q.maxSize := by
      have := length_contents_le hq
      omega
    refine .inr ⟨hroom, ?_⟩
    by_cases hfill : q.FillsFromZero
    · obtain ⟨hok, hwf, hcontents⟩ := push_of_fillsFromZero hq hfill x
      exact ⟨hok, hwf, hcontents ▸ List.rotate_perm _ _⟩
    · obtain ⟨hok, hwf, hcontents⟩ := push_of_room hq hroom hfill x
      exact ⟨hok, hwf, by rw [hcontents]⟩

end CoplusLean.SlowQueue
