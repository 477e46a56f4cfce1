import CoplusLean.Models.FastQueue
import Mathlib.Data.List.Range
import Mathlib.Data.Nat.Basic

/-!
# `FastLocalQueue` used one call at a time

Between calls the revoke counters account for every refused attempt, so the four inner
counters describe a bounded FIFO and the tests of `push` and `pop` decide full and empty,
however often the `uint32_t` counters have wrapped.
-/

namespace CoplusLean.FastLocalQueue

variable {α : Type*} {n : Nat}

/-- The sizes for which the slot of a ticket survives the wrapping of the counters. -/
structure SlotSize (n : Nat) : Prop where
  pos : 0 < n
  dvd : n ∣ 4294967296
  lt : n < 2147483648

lemma slotSize_kLocalQueueSize : SlotSize kLocalQueueSize :=
  ⟨by decide, by decide, by decide⟩

lemma load_mod (hn : SlotSize n) (k : Nat) : load k % n = k % n :=
  Nat.mod_mod_of_dvd k hn.dvd

/-- No call is under way: the counters of the two ends agree. -/
structure Quiet (n : Nat) (q : FastLocalQueue α) : Prop where
  enqueue : q.enqueueCount = q.enqueueRevoke + q.tail
  dequeue : q.dequeueCount = q.dequeueRevoke + q.head
  tailFast : q.tailFast = q.tail
  headFast : q.headFast = q.head
  head_le : q.head ≤ q.tail
  tail_le : q.tail ≤ q.head + n

/-- The stored values, first the one to be popped next. -/
def contents (n : Nat) (q : FastLocalQueue α) : List α :=
  (List.range (q.tail - q.head)).map fun i => q.data ((q.head + i) % n)

@[simp] lemma length_contents (q : FastLocalQueue α) :
    (q.contents n).length = q.tail - q.head := by
  simp [contents]

lemma quiet_new [Inhabited α] : (new : FastLocalQueue α).Quiet n :=
  ⟨rfl, rfl, rfl, rfl, Nat.le_refl _, Nat.zero_le _⟩

@[simp] lemma contents_new [Inhabited α] : (new : FastLocalQueue α).contents n = [] := by
  simp [contents, new]

lemma mod_ne_of_lt {a b : Nat} (hab : a < b) (hb : b < a + n) : a % n ≠ b % n := by
  intro heq
  obtain ⟨k, hk⟩ := (Nat.modEq_iff_dvd' hab.le).mp heq
  have hk0 : 0 < k := Nat.pos_of_ne_zero (by rintro rfl; omega)
  have := Nat.le_mul_of_pos_right n hk0
  omega

lemma contents_congr {q r : FastLocalQueue α} (hhead : r.head = q.head)
    (htail : r.tail = q.tail)
    (hdata : ∀ i < q.tail - q.head, r.data ((q.head + i) % n) = q.data ((q.head + i) % n)) :
    r.contents n = q.contents n := by
  simp only [contents, hhead, htail]
  apply List.map_congr_left
  intro i hi
  exact hdata i (List.mem_range.mp hi)

/-- The cell after the last one is none of the occupied ones: their tickets span less
than `n`. -/
lemma contents_write {q r : FastLocalQueue α} {x : α} (hroom : q.tail < q.head + n)
    (hhead : r.head = q.head) (htail : r.tail = q.tail)
    (hdata : r.data = Function.update q.data (q.tail % n) x) :
    r.contents n = q.contents n := by
  apply contents_congr hhead htail
  intro i hi
  rw [hdata]
  exact Function.update_of_ne (mod_ne_of_lt (by omega) (by omega)) _ _

lemma contents_snoc {q r : FastLocalQueue α} (hge : q.head ≤ q.tail) (hhead : r.head = q.head)
    (htail : r.tail = q.tail + 1) (hdata : r.data = q.data) :
    r.contents n = q.contents n ++ [q.data (q.tail % n)] := by
  simp only [contents, hhead, htail, hdata]
  rw [show q.tail + 1 - q.head = (q.tail - q.head) + 1 by omega, List.range_succ,
    List.map_append, List.map_singleton, Nat.add_sub_cancel' hge]

lemma contents_cons {q r : FastLocalQueue α} (hlt : q.head < q.tail)
    (hhead : r.head = q.head + 1) (htail : r.tail = q.tail) (hdata : r.data = q.data) :
    q.contents n = q.data (q.head % n) :: r.contents n := by
  simp only [contents, hhead, htail, hdata]
  rw [show q.tail - q.head = (q.tail - (q.head + 1)) + 1 by omega, List.range_succ_eq_map,
    List.map_cons, List.map_map]
  refine congrArg₂ _ rfl (List.map_congr_left fun i _ => ?_)
  simp only [Function.comp_apply, Nat.succ_eq_add_one]
  rw [show q.head + (i + 1) = q.head + 1 + i by omega]

lemma noRoom_iff {q : FastLocalQueue α} (hq : q.Quiet n) (hstored : q.tail - q.head < 4294967295) :
    noRoom n (q.enqueueCount + 1) q.enqueueRevoke q.head ↔ (q.contents n).length = n := by
  have hle := hq.tail_le
  have hge := hq.head_le
  have hval : sub (sub (load (q.enqueueCount + 1)) (load q.enqueueRevoke)) (load q.head) =
      q.tail - q.head + 1 := by
    rw [hq.enqueue]
    unfold sub load
    omega
  rw [noRoom, hval, length_contents]
  omega

lemma noItem_iff {q : FastLocalQueue α} (hq : q.Quiet n) (hstored : q.tail - q.head < 2147483649) :
    noItem (q.dequeueCount + 1) q.dequeueRevoke q.tail ↔ q.contents n = [] := by
  have hge := hq.head_le
  rw [← List.length_eq_zero_iff, length_contents]
  unfold noItem
  rw [hq.dequeue]
  unfold sub load
  omega

/-- A push with room, before it is known where its ticket leads. -/
lemma push_of_room {q : FastLocalQueue α} (hq : q.Quiet n)
    (hstored : q.tail - q.head < 4294967295) (hroom : q.tail - q.head < n) (x : α) :
    (q.push n x).1 = true ∧ (q.push n x).2.Quiet n ∧ (q.push n x).2.tail = q.tail + 1 ∧
      (q.push n x).2.head = q.head ∧
      (q.push n x).2.data = Function.update q.data (load q.tail % n) x := by
  have hfull : ¬noRoom n (q.enqueueCount + 1) q.enqueueRevoke q.head := by
    rw [noRoom_iff hq hstored, length_contents]
    omega
  have hge := hq.head_le
  have hcount := hq.enqueue
  simp only [push, if_neg hfull, hq.tailFast]
  refine ⟨trivial, ⟨?_, hq.dequeue, rfl, hq.headFast, ?_, ?_⟩, trivial, trivial, trivial⟩
  · simp only
    omega
  · simp only
    omega
  · simp only
    omega

lemma push_of_full {q : FastLocalQueue α} (hq : q.Quiet n)
    (hstored : q.tail - q.head < 4294967295) (hfull : q.tail - q.head = n) (x : α) :
    (q.push n x).1 = false ∧ (q.push n x).2.Quiet n ∧ (q.push n x).2.tail = q.tail ∧
      (q.push n x).2.head = q.head ∧ (q.push n x).2.data = q.data := by
  have htest : noRoom n (q.enqueueCount + 1) q.enqueueRevoke q.head := by
    rw [noRoom_iff hq hstored, length_contents, hfull]
  have hcount := hq.enqueue
  simp only [push, if_pos htest]
  refine ⟨trivial, ⟨?_, hq.dequeue, hq.tailFast, hq.headFast, hq.head_le, hq.tail_le⟩, trivial,
    trivial, trivial⟩
  simp only
  omega

lemma pop_of_item {q : FastLocalQueue α} (hq : q.Quiet n)
    (hstored : q.tail - q.head < 2147483649) (hitem : q.head < q.tail) :
    (q.pop n).1 = some (q.data (load q.head % n)) ∧ (q.pop n).2.Quiet n ∧
      (q.pop n).2.tail = q.tail ∧ (q.pop n).2.head = q.head + 1 ∧ (q.pop n).2.data = q.data := by
  have hne : q.contents n ≠ [] := by
    rw [ne_eq, ← List.length_eq_zero_iff, length_contents]
    omega
  have hcount := hq.dequeue
  have hle := hq.tail_le
  simp only [pop, if_neg (mt (noItem_iff hq hstored).mp hne), hq.headFast]
  refine ⟨trivial, ⟨hq.enqueue, ?_, hq.tailFast, rfl, ?_, ?_⟩, trivial, trivial, trivial⟩
  · simp only
    omega
  · simp only
    omega
  · simp only
    omega

lemma pop_of_empty {q : FastLocalQueue α} (hq : q.Quiet n) (hempty : q.tail = q.head) :
    (q.pop n).1 = none ∧ (q.pop n).2.Quiet n ∧ (q.pop n).2.tail = q.tail ∧
      (q.pop n).2.head = q.head ∧ (q.pop n).2.data = q.data := by
  have hnil : q.contents n = [] := by
    rw [← List.length_eq_zero_iff, length_contents]
    omega
  have hcount := hq.dequeue
  simp only [pop, if_pos ((noItem_iff hq (by omega)).mpr hnil)]
  refine ⟨trivial, ⟨hq.enqueue, ?_, hq.tailFast, hq.headFast, hq.head_le, hq.tail_le⟩, trivial,
    trivial, trivial⟩
  simp only
  omega

/-- What the 32-bit arithmetic needs of a state: the number stored stays within the test of
`pop`, and the tickets at both ends lead to their own cells. -/
structure InRange (n : Nat) (q : FastLocalQueue α) : Prop where
  stored : q.tail - q.head < 2147483649
  tail : load q.tail % n = q.tail % n
  head : load q.head % n = q.head % n

lemma inRange_of_slotSize (hn : SlotSize n) {q : FastLocalQueue α} (hq : q.Quiet n) :
    q.InRange n := by
  have hlt := hn.lt
  have hle := hq.tail_le
  exact ⟨by omega, load_mod hn _, load_mod hn _⟩

/-- What `push` does: a full queue refuses and keeps its contents, else the value goes to
the end. -/
theorem push_of_inRange {q : FastLocalQueue α} (hq : q.Quiet n) (hr : q.InRange n) (x : α) :
    (q.push n x).2.Quiet n ∧
      (q.push n x).1 = decide ((q.contents n).length < n) ∧
      (q.push n x).2.contents n =
        if (q.contents n).length < n then q.contents n ++ [x] else q.contents n := by
  have hstored := hr.stored
  have hle := hq.tail_le
  have hge := hq.head_le
  rw [length_contents]
  by_cases hroom : q.tail - q.head < n
  · obtain ⟨hok, hquiet, htail, hhead, hdata⟩ := push_of_room hq (by omega) hroom x
    rw [hr.tail] at hdata
    rw [if_pos hroom, hok]
    refine ⟨hquiet, by simp [hroom], ?_⟩
    -- first the cell behind the last one is written, then the tail takes it in
    let written : FastLocalQueue α :=
      { q with data := Function.update q.data (q.tail % n) x }
    have hwrite : written.contents n = q.contents n := contents_write (by omega) rfl rfl rfl
    have hsnoc : (q.push n x).2.contents n = written.contents n ++ [written.data (q.tail % n)] :=
      contents_snoc (q := written) hge hhead htail hdata
    rw [hsnoc, hwrite]
    simp only [written, Function.update_self]
  · obtain ⟨hok, hquiet, htail, hhead, hdata⟩ := push_of_full hq (by omega) (by omega) x
    rw [if_neg hroom, hok]
    refine ⟨hquiet, by simp [hroom], ?_⟩
    apply contents_congr hhead htail
    intro i _
    rw [hdata]

/-- What `pop` does: an empty queue refuses, else the first value leaves. -/
theorem pop_of_inRange {q : FastLocalQueue α} (hq : q.Quiet n) (hr : q.InRange n) :
    (q.pop n).2.Quiet n ∧ (q.pop n).1 = (q.contents n).head? ∧
      (q.pop n).2.contents n = (q.contents n).tail := by
  have hge := hq.head_le
  by_cases hitem : q.head < q.tail
  · obtain ⟨hval, hquiet, htail, hhead, hdata⟩ := pop_of_item hq hr.stored hitem
    have hcons : q.contents n = q.data (q.head % n) :: (q.pop n).2.contents n :=
      contents_cons hitem hhead htail hdata
    refine ⟨hquiet, ?_, ?_⟩
    · rw [hval, hr.head, hcons, List.head?_cons]
    · rw [hcons, List.tail_cons]
  · obtain ⟨hval, hquiet, htail, hhead, -⟩ := pop_of_empty hq (by omega)
    have hnil : q.contents n = [] := by
      rw [← List.length_eq_zero_iff, length_contents]
      omega
    refine ⟨hquiet, ?_, ?_⟩
    · rw [hval, hnil, List.head?_nil]
    · rw [hnil, List.tail_nil, ← List.length_eq_zero_iff, length_contents]
      omega

theorem size_of_inRange {q : FastLocalQueue α} (hq : q.Quiet n) (hr : q.InRange n) :
    q.size = (q.contents n).length := by
  have hstored := hr.stored
  have hge := hq.head_le
  rw [length_contents]
  unfold size sub load
  omega

lemma push_spec (hn : SlotSize n) {q : FastLocalQueue α} (hq : q.Quiet n) (x : α) :
    (q.push n x).2.Quiet n ∧
      (q.push n x).1 = decide ((q.contents n).length < n) ∧
      (q.push n x).2.contents n =
        if (q.contents n).length < n then q.contents n ++ [x] else q.contents n :=
  push_of_inRange hq (inRange_of_slotSize hn hq) x

lemma pop_spec (hn : SlotSize n) {q : FastLocalQueue α} (hq : q.Quiet n) :
    (q.pop n).2.Quiet n ∧ (q.pop n).1 = (q.contents n).head? ∧
      (q.pop n).2.contents n = (q.contents n).tail :=
  pop_of_inRange hq (inRange_of_slotSize hn hq)

lemma size_eq_length (hn : SlotSize n) {q : FastLocalQueue α} (hq : q.Quiet n) :
    q.size = (q.contents n).length :=
  size_of_inRange hq (inRange_of_slotSize hn hq)

end CoplusLean.FastLocalQueue
