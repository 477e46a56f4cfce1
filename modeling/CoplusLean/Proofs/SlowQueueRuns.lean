import CoplusLean.Lib.FifoObject
import CoplusLean.Proofs.SlowQueue

/-!
# Runs of `SlowQueue`

Every call holds the lock, so a run is a list of calls. No value is lost or made up in any
run. The order is kept by every push but one: the one that fills the ring while `head` is
zero sets both ends to one, and the oldest value is then popped last.
-/

namespace CoplusLean.SlowQueue

open Lib

variable {α : Type*} [Inhabited α]

/-- `SlowQueue` as a queue object. -/
def object : FifoObject (SlowQueue α) α := ⟨push, pop⟩

/-- The ring cell a call would access in this state. -/
def ringIndex (q : SlowQueue α) : FifoCall α → Option Nat
  | .push _ =>
    if q.head = q.tail then if q.head = 0 then some 0 else none else some q.tail
  | .pop => if q.head = q.tail ∧ q.tail = 0 then none else some q.head

omit [Inhabited α] in
lemma ringIndex_lt {q : SlowQueue α} (hq : q.WellFormed) (c : FifoCall α) {i : Nat}
    (hi : i ∈ q.ringIndex c) : i < q.maxSize := by
  have h2 := hq.two_le
  have hh := hq.head_lt
  have ht := hq.tail_lt
  cases c with
  | push x =>
    unfold ringIndex at hi
    split_ifs at hi <;> simp only [Option.mem_def, Option.some.injEq, reduceCtorEq] at hi <;> omega
  | pop =>
    unfold ringIndex at hi
    split_ifs at hi <;> simp only [Option.mem_def, Option.some.injEq, reduceCtorEq] at hi <;> omega

omit [Inhabited α] in
lemma maxSize_push (q : SlowQueue α) (x : α) : (q.push x).2.maxSize = q.maxSize := by
  simp only [push]
  split_ifs <;> rfl

lemma maxSize_pop (q : SlowQueue α) : (q.pop).2.maxSize = q.maxSize := by
  simp only [pop]
  split_ifs <;> rfl

/-- The ring of `n` cells that every call keeps. -/
def Ring (n : Nat) (q : SlowQueue α) : Prop := q.WellFormed ∧ q.maxSize = n

lemma ring_new {n : Nat} (hn : 2 ≤ n) : (new n : SlowQueue α).Ring n := ⟨wellFormed_new hn, rfl⟩

lemma ring_call {n : Nat} (q : SlowQueue α) (c : FifoCall α) (hq : q.Ring n) :
    ((object.call q c).2).Ring n := by
  obtain ⟨hwf, hn⟩ := hq
  cases c with
  | push x =>
    refine ⟨?_, (maxSize_push q x).trans hn⟩
    change (q.push x).2.WellFormed
    obtain ⟨-, hpush⟩ | ⟨-, -, hpush, -⟩ := push_spec hwf x
    · rw [hpush]
      exact hwf
    · exact hpush
  | pop => exact ⟨wellFormed_pop hwf, (maxSize_pop q).trans hn⟩

omit [Inhabited α] in
lemma contents_push_perm {q : SlowQueue α} (hq : q.WellFormed) (x : α) :
    ((q.push x).2.contents).Perm (q.contents ++ if (q.push x).1 then [x] else []) := by
  obtain ⟨-, hpush⟩ | ⟨-, hok, -, hperm⟩ := push_spec hq x
  · simp [hpush]
  · rw [hok]
    exact hperm

lemma contents_pop {q : SlowQueue α} (hq : q.WellFormed) :
    q.contents = (q.pop).1.toList ++ (q.pop).2.contents := by
  obtain ⟨hitem, hrest, -⟩ := pop_spec hq
  rw [hitem, hrest]
  cases q.contents <;> rfl

lemma allGood_true (q : SlowQueue α) (calls : List (FifoCall α)) :
    object.AllGood (fun _ _ => True) q calls :=
  along_of_forall _ q fun _ _ => trivial

/-- In every run the values popped and the values stored are together the values whose push
returned true; full and empty are told apart exactly, and no access leaves the ring. -/
theorem slowQueue_conserves (maxSize : Nat) (hsize : 2 ≤ maxSize) (calls : List (FifoCall α)) :
    let q := object.after (new maxSize) calls
    (object.delivered (new maxSize) calls ++ q.contents).Perm
        (object.accepted (new maxSize) calls) ∧
      (∀ x, (q.push x).1 = false ↔ q.contents.length = maxSize) ∧
      ((q.pop).1 = none ↔ q.contents.length = 0) ∧
      q.size = q.contents.length ∧
      ∀ c, ∀ i ∈ q.ringIndex c, i < maxSize := by
  intro q
  have hgood := allGood_true (new maxSize : SlowQueue α) calls
  obtain ⟨hwf, hn⟩ : q.Ring maxSize :=
    FifoObject.after_invariant (fun s c hs _ => ring_call s c hs) (ring_new hsize) hgood
  refine ⟨?_, ?_, ?_, size_eq_length hwf, ?_⟩
  · have hperm := FifoObject.delivered_perm (o := object) (P := Ring maxSize) contents
      (fun s c hs _ => ring_call s c hs) (fun s x hs _ => contents_push_perm hs.1 x)
      (fun s hs _ => List.Perm.of_eq (contents_pop hs.1))
      (ring_new hsize) hgood
    rw [contents_new, List.nil_append] at hperm
    exact hperm
  · intro x
    obtain ⟨hfull, hpush⟩ | ⟨hroom, hpush, -, -⟩ := push_spec hwf x
    · simp [hpush, hfull, hn]
    · rw [hpush]
      simp only [Bool.true_eq_false, false_iff]
      omega
  · rw [(pop_spec hwf).1, List.head?_eq_none_iff, List.length_eq_zero_iff]
  · intro c i hi
    rw [← hn]
    exact ringIndex_lt hwf c hi

theorem slowQueue_conserves_two :
    let q := object.after (new 2) [.push 1, .push 2, .pop]
    (object.delivered (new 2) [.push 1, .push 2, .pop] ++ q.contents).Perm
        (object.accepted (new 2) [.push 1, .push 2, .pop]) ∧
      (∀ x, (q.push x).1 = false ↔ q.contents.length = 2) ∧
      ((q.pop).1 = none ↔ q.contents.length = 0) ∧
      q.size = q.contents.length ∧
      ∀ c : FifoCall Nat, ∀ i ∈ q.ringIndex c, i < 2 :=
  slowQueue_conserves 2 (le_refl 2) [.push 1, .push 2, .pop]

/-- The pushes that keep the order. -/
def KeepsOrder (q : SlowQueue α) : FifoCall α → Prop
  | .push _ => ¬q.FillsFromZero
  | .pop => True

instance (q : SlowQueue α) : ∀ c : FifoCall α, Decidable (q.KeepsOrder c)
  | .push _ => inferInstanceAs (Decidable (¬_))
  | .pop => inferInstanceAs (Decidable True)

omit [Inhabited α] in
lemma contents_push {q : SlowQueue α} (hq : q.WellFormed) (x : α) (hfill : ¬q.FillsFromZero) :
    (q.push x).2.contents = q.contents ++ if (q.push x).1 then [x] else [] := by
  by_cases hfull : q.contents.length = q.maxSize
  · simp [push_of_full hq hfull]
  · have hroom : q.contents.length < q.maxSize := lt_of_le_of_ne (length_contents_le hq) hfull
    obtain ⟨hok, -, hcontents⟩ := push_of_room hq hroom hfill x
    rw [hok]
    exact hcontents

/-- In every run without a push that fills the ring from cell zero, the values are popped
in the order in which they were pushed. -/
theorem slowQueue_keeps_order (maxSize : Nat) (hsize : 2 ≤ maxSize) (calls : List (FifoCall α))
    (hgood : object.AllGood KeepsOrder (new maxSize) calls) :
    object.delivered (new maxSize) calls <+: object.accepted (new maxSize) calls := by
  have horder := FifoObject.delivered_eq (o := object) (P := Ring maxSize) contents
    (fun s c hs _ => ring_call s c hs) (fun s x hs hg => contents_push hs.1 x hg)
    (fun s hs _ => contents_pop hs.1) (ring_new hsize) hgood
  rw [contents_new, List.nil_append] at horder
  exact ⟨_, horder⟩

theorem slowQueue_keeps_order_three :
    object.delivered (new 3) [.push 1, .push 2, .pop, .push 3, .pop, .pop] <+:
      object.accepted (new 3) [.push 1, .push 2, .pop, .push 3, .pop, .pop] :=
  slowQueue_keeps_order 3 (by decide) _ (by unfold FifoObject.AllGood; decide)

/-- Two pushes fill a ring of two cells; the pop then returns the second value. -/
theorem slowQueue_breaks_order_two :
    ¬object.delivered (new 2) [.push 1, .push 2, .pop] <+:
      object.accepted (new 2) [.push 1, .push 2, .pop] := by
  decide

end CoplusLean.SlowQueue
