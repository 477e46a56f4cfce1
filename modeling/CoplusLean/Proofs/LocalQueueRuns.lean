import CoplusLean.Lib.FifoObject
import CoplusLean.Proofs.LocalQueue
import Mathlib.Logic.Nontrivial.Basic

/-!
# `FastLocalQueue` against the bounded FIFO

For a size that divides `2 ^ 32` and is at most `2 ^ 31` the queue answers every list of
calls as a bounded FIFO does. For any other size it does so only while the counters have
not wrapped and fewer than `2 ^ 31` values are stored: the cells of two stored values
coincide across the wrap of a counter that the size does not divide, and the test of
`pop` takes more than `2 ^ 31` stored values for none.
-/

namespace CoplusLean.FastLocalQueue

open Lib

variable {α : Type*} {n : Nat}

/-- `FastLocalQueue<T, n>` as a queue object. -/
def object (n : Nat) : FifoObject (FastLocalQueue α) α := ⟨push n, pop n⟩

/-- The queue answers the calls as a FIFO of `n` places, and `size` is the number stored. -/
def RefinesFifo [Inhabited α] (n : Nat) (calls : List (FifoCall α)) : Prop :=
  (object n).replies new calls = (fifoOfSize n α).replies [] calls ∧
    ((object n).after new calls).size = ((fifoOfSize n α).after [] calls).length

/-- A push before the ticket counter has wrapped, or for a size that divides its range; and
one that leaves the number stored within the range of the test of `pop`. -/
def Unwrapped (n : Nat) (q : FastLocalQueue α) : FifoCall α → Prop
  | .push _ => (n ∣ 4294967296 ∨ q.tail < 4294967296) ∧
      (n ≤ 2147483648 ∨ q.tail - q.head < 2147483648)
  | .pop => True

/-- What the calls that meet `Unwrapped` keep. -/
structure Faithful (n : Nat) (q : FastLocalQueue α) (l : List α) : Prop where
  quiet : q.Quiet n
  stored : q.tail - q.head < 2147483649
  wrap : n ∣ 4294967296 ∨ q.tail ≤ 4294967296
  contents : q.contents n = l

lemma cell_eq {k : Nat} (h : n ∣ 4294967296 ∨ k < 4294967296) : load k % n = k % n := by
  rcases h with hdvd | hlt
  · exact Nat.mod_mod_of_dvd k hdvd
  · rw [load, Nat.mod_eq_of_lt hlt]

lemma faithful_new [Inhabited α] : Faithful n (new : FastLocalQueue α) [] :=
  ⟨quiet_new, by simp [new], .inr (Nat.zero_le _), contents_new⟩

/-- The ticket at the tail may be the first one of the second round when nothing is to be
pushed, so the range of the tail is asked for apart. -/
lemma Faithful.inRange {q : FastLocalQueue α} {l : List α} (hq : Faithful n q l)
    (htail : n ∣ 4294967296 ∨ q.tail < 4294967296) : q.InRange n := by
  have hge := hq.quiet.head_le
  refine ⟨hq.stored, cell_eq htail, cell_eq ?_⟩
  exact htail.imp_right fun h => by omega

lemma Faithful.push {q : FastLocalQueue α} {l : List α} (hq : Faithful n q l) (x : α)
    (hgood : q.Unwrapped n (.push x)) :
    (q.push n x).1 = ((fifoOfSize n α).push l x).1 ∧
      Faithful n (q.push n x).2 ((fifoOfSize n α).push l x).2 := by
  have hr := hq.inRange hgood.1
  obtain ⟨hquiet, hok, hcontents⟩ := push_of_inRange hq.quiet hr x
  have hstored := hq.stored
  have hle := hq.quiet.tail_le
  have hlen : q.tail - q.head = l.length := by rw [← hq.contents, length_contents]
  rw [hq.contents] at hok hcontents
  by_cases hroom : l.length < n
  · obtain ⟨-, -, htail, hhead, -⟩ := push_of_room hq.quiet (by omega) (by omega) x
    rw [if_pos hroom] at hcontents
    simp only [fifoOfSize, hok, hroom, decide_true, if_true, true_and]
    refine ⟨hquiet, ?_, ?_, hcontents⟩
    · have hsmall := hgood.2
      omega
    · exact hgood.1.imp_right fun h => by omega
  · obtain ⟨-, -, htail, hhead, -⟩ := push_of_full hq.quiet (by omega) (by omega) x
    rw [if_neg hroom] at hcontents
    simp only [fifoOfSize, hok, hroom, decide_false, if_false, true_and]
    refine ⟨hquiet, by omega, ?_, hcontents⟩
    rw [htail]
    exact hq.wrap

lemma Faithful.pop {q : FastLocalQueue α} {l : List α} (hq : Faithful n q l) :
    (q.pop n).1 = ((fifoOfSize n α).pop l).1 ∧
      Faithful n (q.pop n).2 ((fifoOfSize n α).pop l).2 := by
  have hge := hq.quiet.head_le
  have hstored := hq.stored
  by_cases hitem : q.head < q.tail
  · obtain ⟨hval, hquiet, htail, hhead, hdata⟩ := pop_of_item hq.quiet hq.stored hitem
    have hcons : l = q.data (q.head % n) :: (q.pop n).2.contents n := by
      rw [← hq.contents]
      exact contents_cons hitem hhead htail hdata
    have hcell : load q.head % n = q.head % n := cell_eq (hq.wrap.imp_right fun h => by omega)
    simp only [fifoOfSize]
    refine ⟨?_, hquiet, by omega, by rw [htail]; exact hq.wrap, ?_⟩
    · rw [hval, hcell, hcons, List.head?_cons]
    · rw [hcons, List.tail_cons]
  · obtain ⟨hval, hquiet, htail, hhead, -⟩ := pop_of_empty hq.quiet (by omega)
    have hnil : l = [] := by
      rw [← hq.contents, ← List.length_eq_zero_iff, length_contents]
      omega
    simp only [fifoOfSize, hnil]
    refine ⟨hval, hquiet, by omega, by rw [htail]; exact hq.wrap, ?_⟩
    rw [List.tail_nil, ← List.length_eq_zero_iff, length_contents]
    omega

lemma Faithful.call {q : FastLocalQueue α} {l : List α} (c : FifoCall α) (hq : Faithful n q l)
    (hgood : q.Unwrapped n c) :
    ((object n).call q c).1 = ((fifoOfSize n α).call l c).1 ∧
      Faithful n ((object n).call q c).2 ((fifoOfSize n α).call l c).2 := by
  cases c with
  | push x =>
    obtain ⟨hreply, hnext⟩ := hq.push x hgood
    exact ⟨congrArg _ hreply, hnext⟩
  | pop =>
    obtain ⟨hreply, hnext⟩ := hq.pop
    exact ⟨congrArg _ hreply, hnext⟩

lemma Faithful.size_eq {q : FastLocalQueue α} {l : List α} (hq : Faithful n q l) :
    q.size = l.length := by
  have hstored := hq.stored
  have hge := hq.quiet.head_le
  rw [← hq.contents, length_contents]
  unfold FastLocalQueue.size sub load
  omega

section Runs

variable [Inhabited α]

/-- Runs whose calls all meet `Unwrapped` end in a faithful state. -/
lemma faithful_after {calls : List (FifoCall α)}
    (hgood : (object n).AllGood (Unwrapped n) new calls) :
    (object n).replies new calls = (fifoOfSize n α).replies [] calls ∧
      Faithful n ((object n).after new calls) ((fifoOfSize n α).after [] calls) :=
  FifoObject.replies_eq (fun _ _ c hst hg => hst.call c hg) faithful_new hgood

lemma refinesFifo_of_unwrapped {calls : List (FifoCall α)}
    (hgood : (object n).AllGood (Unwrapped n) new calls) : RefinesFifo n calls :=
  ⟨(faithful_after hgood).1, (faithful_after hgood).2.size_eq⟩

/-- The reply to a pop after any calls. -/
lemma RefinesFifo.pop_eq {calls : List (FifoCall α)} (h : RefinesFifo n (calls ++ [.pop])) :
    (((object n).after new calls).pop n).1 = ((fifoOfSize n α).after [] calls).head? := by
  have hreplies := h.1
  rw [FifoObject.replies_append, FifoObject.replies_append] at hreplies
  have hlast := (List.append_inj' hreplies rfl).2
  simpa [FifoObject.replies, FifoObject.call, object, fifoOfSize] using hlast

end Runs

/-- `k` pushes of one value. -/
def pushes (k : Nat) (x : α) : List (FifoCall α) := List.replicate k (.push x)

/-- `k` times a push and a pop. -/
def rounds (k : Nat) (x : α) : List (FifoCall α) :=
  (List.replicate k [FifoCall.push x, FifoCall.pop]).flatten

lemma fifo_pushes {l : List α} {k : Nat} (hk : l.length + k ≤ n) (x : α) :
    (fifoOfSize n α).after l (pushes k x) = l ++ List.replicate k x := by
  induction k generalizing l with
  | zero => simp [pushes, FifoObject.after]
  | succ k ih =>
    have hroom : l.length < n := by omega
    rw [pushes, List.replicate_succ, FifoObject.after]
    simp only [FifoObject.call, fifoOfSize, hroom, if_true]
    refine (ih (by simp only [List.length_append, List.length_singleton]; omega)).trans ?_
    rw [List.replicate_succ, List.append_assoc, List.singleton_append]

lemma fifo_rounds (hn : 1 ≤ n) (k : Nat) (x : α) :
    (fifoOfSize n α).after [] (rounds k x) = [] := by
  have hroom : 0 < n := hn
  induction k with
  | zero => rfl
  | succ k ih =>
    have happ : rounds (k + 1) x = [.push x, .pop] ++ rounds k x := by
      simp [rounds, List.replicate_succ]
    have hround : (fifoOfSize n α).after [] [.push x, .pop] = [] := by
      simp [FifoObject.after, FifoObject.call, fifoOfSize, hroom]
    rw [happ, FifoObject.after_append, hround, ih]

/-- Pushes that find room, followed through the counters and the one cell `cell`. -/
lemma after_pushes {q : FastLocalQueue α} {k : Nat} (hq : q.Quiet n)
    (hk : q.tail - q.head + k ≤ n) (hsmall : q.tail - q.head + k < 4294967295) (x : α) :
    let r := (object n).after q (pushes k x)
    r.Quiet n ∧ r.tail = q.tail + k ∧ r.head = q.head ∧
      ∀ i < k, r.data (load (q.tail + i) % n) = x := by
  induction k with
  | zero => exact ⟨hq, rfl, rfl, fun i hi => absurd hi (Nat.not_lt_zero i)⟩
  | succ k ih =>
    have hge := hq.head_le
    obtain ⟨hquiet, htail, hhead, hcells⟩ := ih (by omega) (by omega)
    have happ : pushes (k + 1) x = pushes k x ++ [.push x] := List.replicate_succ'
    rw [happ, FifoObject.after_append]
    obtain ⟨-, hquiet', htail', hhead', hdata⟩ := push_of_room hquiet (by omega) (by omega) x
    refine ⟨hquiet', by simp only [FifoObject.after, FifoObject.call, object] at *; omega, ?_, ?_⟩
    · exact hhead'.trans hhead
    · intro i hi
      refine (congrFun hdata _).trans ?_
      rw [htail]
      by_cases hcell : load (q.tail + i) % n = load (q.tail + k) % n
      · rw [hcell, Function.update_self]
      · rw [Function.update_of_ne hcell]
        refine hcells i (lt_of_le_of_ne (by omega) ?_)
        rintro rfl
        exact hcell rfl

section Exact

variable [Inhabited α]

/-- Before the counters wrap, rounds of a push and a pop leave the queue empty. -/
lemma after_rounds (hn : 1 ≤ n) {k : Nat} (hk : k ≤ 4294967296) (x : α) :
    let r := (object n).after new (rounds k x)
    r.Quiet n ∧ r.tail = k ∧ r.head = k := by
  induction k with
  | zero => exact ⟨quiet_new, rfl, rfl⟩
  | succ k ih =>
    obtain ⟨hquiet, htail, hhead⟩ := ih (by omega)
    have happ : rounds (k + 1) x = rounds k x ++ [.push x, .pop] := by
      simp [rounds, List.replicate_succ']
    rw [happ, FifoObject.after_append]
    generalize (object n).after new (rounds k x) = r at *
    obtain ⟨-, hquiet', htail', hhead', -⟩ := push_of_room hquiet (by omega) (by omega) x
    obtain ⟨-, hpopped, htail'', hhead'', -⟩ := pop_of_item hquiet' (by omega) (by omega)
    have hround : (object n).after r [.push x, .pop] = ((r.push n x).2.pop n).2 := rfl
    rw [hround]
    exact ⟨hpopped, by omega, by omega⟩

/-- More than `2 ^ 31` stored values look like none to `pop`. -/
lemma not_refinesFifo_of_large (hlarge : 2147483648 < n) {k : Nat} (hk : k = 2147483649) (x : α) :
    ¬RefinesFifo n (pushes k x ++ [.pop]) := by
  intro h
  have hpop := h.pop_eq
  rw [fifo_pushes (by simp only [List.length_nil]; omega), List.nil_append,
    List.head?_replicate, if_neg (by omega)] at hpop
  obtain ⟨hquiet, htail, hhead, -⟩ := after_pushes (n := n) (q := (new : FastLocalQueue α))
    (k := k) quiet_new (by simp only [new]; omega) (by simp only [new]; omega) x
  generalize (object n).after new (pushes k x) = r at *
  have htest : noItem (r.dequeueCount + 1) r.dequeueRevoke r.tail := by
    unfold noItem
    rw [hquiet.dequeue, htail, hhead]
    simp only [new]
    unfold sub load
    omega
  simp [FastLocalQueue.pop, htest] at hpop

/-- A size that does not divide `2 ^ 32` brings a value pushed before the wrap and one pushed
after it to the same cell. -/
lemma not_refinesFifo_of_not_dvd (hn : 1 ≤ n) (hsmall : n ≤ 2147483648)
    (hdvd : ¬n ∣ 4294967296) {k : Nat} (hk : k = 4294967295) {x y : α} (hxy : x ≠ y) :
    ¬RefinesFifo n ((rounds k x ++ [.push x] ++ pushes (n - 1) y) ++ [.pop]) := by
  intro h
  have hpop := h.pop_eq
  -- the cell of the last ticket before the wrap is taken again within `n - 1` pushes
  have hcell : 4294967295 % n < n - 1 := by
    have hlt := Nat.mod_lt 4294967295 (by omega : 0 < n)
    have hne : 4294967295 % n ≠ n - 1 := by
      intro heq
      apply hdvd
      have hdiv := Nat.div_add_mod 4294967295 n
      refine ⟨4294967295 / n + 1, ?_⟩
      rw [Nat.mul_add, Nat.mul_one]
      omega
    omega
  have hspec : (fifoOfSize n α).after [] (rounds k x ++ [.push x] ++ pushes (n - 1) y) =
      [x] ++ List.replicate (n - 1) y := by
    rw [FifoObject.after_append, FifoObject.after_append, fifo_rounds hn]
    have hone : (fifoOfSize n α).after [] [.push x] = [x] :=
      fifo_pushes (k := 1) (by simp only [List.length_nil]; omega) x
    rw [hone]
    exact fifo_pushes (by simp only [List.length_singleton]; omega) y
  obtain ⟨hquiet₁, htail₁, hhead₁⟩ := after_rounds (α := α) hn
    (by omega : k ≤ 4294967296) x
  rw [hspec, FifoObject.after_append, FifoObject.after_append, List.singleton_append,
    List.head?_cons] at hpop
  generalize (object n).after new (rounds k x) = r₁ at *
  obtain ⟨hquiet₂, htail₂, hhead₂, -⟩ :=
    after_pushes (k := 1) hquiet₁ (by omega) (by omega) x
  have hone : pushes 1 x = [.push x] := rfl
  rw [hone] at hquiet₂ htail₂ hhead₂
  generalize (object n).after r₁ [.push x] = r₂ at *
  obtain ⟨hquiet₃, htail₃, hhead₃, hcells⟩ :=
    after_pushes (k := n - 1) hquiet₂ (by omega) (by omega) y
  generalize (object n).after r₂ (pushes (n - 1) y) = r₃ at *
  have hy : r₃.data (4294967295 % n) = y := by
    have hwrapped : load (r₂.tail + 4294967295 % n) % n = 4294967295 % n := by
      have hload : load (r₂.tail + 4294967295 % n) = 4294967295 % n := by
        unfold load
        omega
      rw [hload, Nat.mod_mod]
    rw [← hwrapped]
    exact hcells _ hcell
  obtain ⟨hval, -⟩ := pop_of_item hquiet₃ (by omega) (by omega)
  have hload : load r₃.head = 4294967295 := by
    rw [hhead₃, hhead₂, hhead₁, hk]
    rfl
  rw [hval, hload, hy] at hpop
  exact hxy (Option.some.inj hpop).symm

/-- Runs before any wrap refine the bounded FIFO of capacity `n`; all runs do exactly for
the sizes that divide the range of the counters and fit the test of `pop`. -/
theorem localQueue_refines_fifo [Nontrivial α] (n : Nat) (hn : 1 ≤ n) :
    (∀ calls : List (FifoCall α), (object n).AllGood (Unwrapped n) new calls →
        RefinesFifo n calls) ∧
      ((∀ calls : List (FifoCall α), RefinesFifo n calls) ↔
        n ∣ 4294967296 ∧ n ≤ 2147483648) := by
  refine ⟨fun calls hgood => refinesFifo_of_unwrapped hgood, ?_, ?_⟩
  · intro h
    have hsmall : n ≤ 2147483648 := by
      by_contra hlarge
      exact not_refinesFifo_of_large (by omega) rfl (default : α) (h _)
    refine ⟨?_, hsmall⟩
    by_contra hdvd
    obtain ⟨x, y, hxy⟩ := exists_pair_ne α
    exact not_refinesFifo_of_not_dvd hn hsmall hdvd rfl hxy (h _)
  · rintro ⟨hdvd, hsmall⟩ calls
    apply refinesFifo_of_unwrapped
    have hall : Along (object n).step (fun _ _ => True) (new : FastLocalQueue α) calls :=
      along_of_forall _ new fun _ _ => trivial
    apply hall.mono
    intro q c _
    cases c with
    | push x => exact ⟨.inl hdvd, .inl hsmall⟩
    | pop => trivial

theorem localQueue_refines_fifo_fifty :
    (∀ calls : List (FifoCall Nat), (object 50).AllGood (Unwrapped 50) new calls →
        RefinesFifo 50 calls) ∧
      ((∀ calls : List (FifoCall Nat), RefinesFifo 50 calls) ↔
        50 ∣ 4294967296 ∧ 50 ≤ 2147483648) :=
  localQueue_refines_fifo 50 (by decide)

/-- The size used by the tests: after `2 ^ 32 - 1` rounds a value pushed before the wrap of
the counter is overwritten by one pushed after it. -/
theorem localQueue_not_fifo_fifty :
    ¬RefinesFifo 50 ((rounds 4294967295 0 ++ [.push 0] ++ pushes (50 - 1) 1) ++ [.pop]) :=
  not_refinesFifo_of_not_dvd (by decide) (by decide) (by decide) rfl (by decide : (0 : Nat) ≠ 1)

end Exact

end CoplusLean.FastLocalQueue
