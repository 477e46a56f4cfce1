import CoplusLean.Proofs.QueueSteps
import Mathlib.Data.Nat.ModEq
import Mathlib.Tactic.Ring

/-!
# When `FastQueue::pop` returns

Turn `k` of the probing loop looks at position `(index + k * (k + 2)) % size`, and the loop
is left when the unreduced position meets `index`. So the call returns exactly when some
turn finds a value or meets the exit test, the table of queues is not empty and no turn
before that one reads behind the table.
-/

namespace CoplusLean.FastQueue

open Lib

variable {α : Type*} [Inhabited α]

/-- `queue_count`: the number the positions are reduced by. -/
def queueCount (q : FastQueue α) : Nat := q.queueList.size.toNat

/-- The position that turn `k` of `pop` looks at. -/
def turnSlot (n index k : Nat) : Nat := (index + k * (k + 2)) % n

lemma turnSlot_succ (n index k : Nat) :
    (turnSlot n index k + (2 * (k + 1) + 1)) % n = turnSlot n index (k + 1) := by
  unfold turnSlot
  rw [Nat.mod_add_mod]
  congr 1
  ring

/-- The exit test before turn `k + 1`, freed of the remainder. -/
lemma exit_iff {n index : Nat} (hindex : index < n) (k : Nat) :
    turnSlot n index k + (2 * (k + 1) + 1) = index ↔
      2 * (k + 1) + 1 ≤ index ∧ n ∣ (k + 1) * (k + 1 + 2) := by
  have hmul : (k + 1) * (k + 1 + 2) = k * (k + 2) + (2 * (k + 1) + 1) := by ring
  unfold turnSlot
  rw [hmul]
  constructor
  · intro hexit
    have hlt := Nat.mod_lt (index + k * (k + 2)) (by omega : 0 < n)
    refine ⟨by omega, ?_⟩
    have hmod : (index + (k * (k + 2) + (2 * (k + 1) + 1))) % n = index % n := by
      rw [← Nat.add_assoc, ← Nat.mod_add_mod, hexit]
    exact (Nat.modEq_iff_dvd' (Nat.le_add_right _ _)).mp hmod.symm |>.trans (by simp)
  · rintro ⟨hle, hdvd⟩
    obtain ⟨c, hc⟩ := hdvd
    have hsplit : index + k * (k + 2) = (index - (2 * (k + 1) + 1)) + n * c := by omega
    rw [hsplit, Nat.add_mul_mod_self_left, Nat.mod_eq_of_lt (by omega)]
    omega

/-- Turn `k` ends the loop: by the exit test before it, or by a value it finds. -/
def EndsAt (q : FastQueue α) (index k : Nat) : Prop :=
  (1 ≤ k ∧ 2 * k + 1 ≤ index ∧ q.queueCount ∣ k * (k + 2)) ∨
    (turnSlot q.queueCount index k < kQueueMaxCount ∧
      q.stored.getD (turnSlot q.queueCount index k) [] ≠ [])

/-- `pop` comes to an end: there is a queue, and a turn that ends the loop with no turn
before it that reads the entry right behind the table. -/
def PopEnds (q : FastQueue α) (index : Nat) : Prop :=
  0 < q.queueList.size ∧ ∃ k, q.EndsAt index k ∧
    ∀ j < k, turnSlot q.queueCount index j ≠ kQueueMaxCount

/-- No local queue holds a value. -/
def AllEmpty (q : FastQueue α) : Prop := ∀ p < q.tokenBound, q.stored.getD p [] = []

section Probe

variable {q : FastQueue α} (hq : q.Sound)

omit [Inhabited α] in
lemma lt_created {p : Nat} (hp : p < q.queueCount) : p < q.created := by
  have hint : q.queueList.size ≤ q.created := by
    unfold PushOnlyFastStack.size created int32
    omega
  unfold queueCount at hp
  omega

include hq

lemma probe_behind {p : Nat} (hp : p < q.queueCount) (hge : kQueueMaxCount ≤ p) :
    q.probe p = if p = kQueueMaxCount then none else some none := by
  have hmax : q.queueList.maxSize = 100 := hq.list_max
  have hunit := hq.list_unit
  have h31 : p < 2147483648 := by
    have hbound : q.queueList.size < 2147483648 := (int32_bounds _).2
    unfold queueCount at hp
    omega
  unfold kQueueMaxCount at hge ⊢
  by_cases heq : p = 100
  · have hget : q.queueList.get (p : Int) = .outOfBounds := by
      have hlen : ((List.range q.tokenBound).map some).length ≤ 100 := by
        rw [List.length_map, List.length_range]
        exact Nat.min_le_right _ _
      rw [PushOnlyFastStack.get_of_no_chunk hq.list h31 (by omega) (by rw [hunit, heq]; exact hlen),
        if_neg (by rw [hq.list.table, hunit, hmax, heq]; decide)]
    simp only [probe, hget]
    rw [if_pos heq]
  · have hget : q.queueList.get (p : Int) = .fail :=
      PushOnlyFastStack.get_of_gt h31 (by omega)
    simp only [probe, hget, heq, if_false]

/-- One turn of the loop: it finds a value, leaves the table, or leaves the stored values as
they are and goes on. -/
lemma probeOr_cases {p : Nat} (hp : p < q.queueCount)
    (next : FastQueue α → Option (Option α × FastQueue α)) :
    (p < kQueueMaxCount ∧ q.stored.getD p [] ≠ [] ∧ ∃ x q', q.probeOr p next = some (some x, q')) ∨
    (p = kQueueMaxCount ∧ q.probeOr p next = none) ∨
    (p ≠ kQueueMaxCount ∧ ¬(p < kQueueMaxCount ∧ q.stored.getD p [] ≠ []) ∧
      ∃ q', Probed q none q' ∧ q.probeOr p next = next q') := by
  by_cases hlt : p < kQueueMaxCount
  · have hbound : p < q.tokenBound := lt_min (lt_created hp) hlt
    obtain ⟨q', hprobe, hprobed⟩ := probe_of_valid hq hbound
    rcases hxs : q.stored.getD p [] with _ | ⟨x, rest⟩
    · rw [hxs, List.head?_nil] at hprobe hprobed
      exact .inr (.inr ⟨by omega, by simp, q', hprobed, by simp only [probeOr, hprobe]⟩)
    · rw [hxs, List.head?_cons] at hprobe
      exact .inl ⟨hlt, by simp, x, q', by simp only [probeOr, hprobe]⟩
  · have hprobe := probe_behind hq hp (by omega)
    by_cases heq : p = kQueueMaxCount
    · rw [if_pos heq] at hprobe
      exact .inr (.inl ⟨heq, by simp only [probeOr, hprobe]⟩)
    · rw [if_neg heq] at hprobe
      exact .inr (.inr ⟨heq, fun h => hlt h.1, q, .nothing hq, by simp only [probeOr, hprobe]⟩)

end Probe

/-- The value of `cur` at the top of turn `i`. -/
def atTurn (n index : Nat) : Nat → Nat
  | 0 => index
  | i + 1 => turnSlot n index i + (2 * (i + 1) + 1)

lemma atTurn_mod (n index i : Nat) : atTurn n index i % n = turnSlot n index i := by
  cases i with
  | zero => simp [atTurn, turnSlot]
  | succ i => exact turnSlot_succ n index i

/-- The loop goes on into turn `i` unless the exit test is met. -/
lemma turn_iff {n index : Nat} (hindex : index < n) (i : Nat) :
    (i = 0 ∨ atTurn n index i ≠ index) ↔ ¬(1 ≤ i ∧ 2 * i + 1 ≤ index ∧ n ∣ i * (i + 2)) := by
  cases i with
  | zero => simp
  | succ i =>
    have hexit := exit_iff hindex i
    simp only [atTurn, Nat.add_eq_zero_iff, one_ne_zero, and_false, false_or, ne_eq, hexit,
      Nat.le_add_left, true_and]

omit [Inhabited α] in
lemma EndsAt.of_probed {q q' : FastQueue α} (h : Probed q none q') {index k : Nat} :
    q'.EndsAt index k ↔ q.EndsAt index k := by
  have hstored : q'.stored = q.stored := h.took
  simp only [EndsAt, queueCount, hstored, h.same.list]

/-- One turn of `popProbe`, from a state in which there are queues. -/
lemma popProbe_succ {q : FastQueue α} (hsize : 0 < q.queueList.size) {index : Nat}
    (hindex : index < q.queueCount) (fuel i : Nat) :
    popProbe q index (fuel + 1) i (atTurn q.queueCount index i) =
      if 1 ≤ i ∧ 2 * i + 1 ≤ index ∧ q.queueCount ∣ i * (i + 2) then some (none, q)
      else q.probeOr (turnSlot q.queueCount index i) fun q₁ =>
        popProbe q₁ index fuel (i + 1) (atTurn q.queueCount index (i + 1)) := by
  have hturn := turn_iff hindex i
  by_cases hexit : 1 ≤ i ∧ 2 * i + 1 ≤ index ∧ q.queueCount ∣ i * (i + 2)
  · rw [popProbe, if_neg (mt hturn.mp (not_not.mpr hexit)), if_pos hexit]
  · rw [popProbe, if_pos (hturn.mpr hexit), if_neg (by omega), if_neg hexit]
    have hslot : atTurn q.queueCount index i % q.queueList.size.toNat =
        turnSlot q.queueCount index i := atTurn_mod _ _ _
    simp only [hslot]
    rfl

section Loop

variable {index : Nat}

/-- A loop that returns has met a turn that ends it. -/
lemma ends_of_popProbe (fuel : Nat) : ∀ (q : FastQueue α) (i : Nat), q.Sound →
    0 < q.queueList.size → index < q.queueCount → ∀ r q',
    popProbe q index fuel i (atTurn q.queueCount index i) = some (r, q') →
      (∃ k, i ≤ k ∧ q.EndsAt index k ∧
        ∀ j, i ≤ j → j < k → turnSlot q.queueCount index j ≠ kQueueMaxCount) ∧
      (q.AllEmpty → r = none) := by
  induction fuel with
  | zero =>
    intro q i _ _ _ r q' h
    simp [popProbe] at h
  | succ fuel ih =>
    intro q i hq hsize hindex r q' h
    rw [popProbe_succ hsize hindex] at h
    split_ifs at h with hexit
    · simp only [Option.some.injEq, Prod.mk.injEq] at h
      exact ⟨⟨i, le_refl i, .inl hexit, fun j h1 h2 => by omega⟩, fun _ => h.1.symm⟩
    · have hlt : turnSlot q.queueCount index i < q.queueCount := Nat.mod_lt _ (by omega)
      obtain ⟨hmax, hfound, -⟩ | ⟨-, hout⟩ | ⟨hne, -, q₁, hprobed, hnext⟩ := probeOr_cases hq hlt
        fun q₁ => popProbe q₁ index fuel (i + 1) (atTurn q.queueCount index (i + 1))
      · refine ⟨⟨i, le_refl i, .inr ⟨hmax, hfound⟩, fun j h1 h2 => by omega⟩, fun hempty => ?_⟩
        exact absurd (hempty _ (lt_min (lt_created hlt) hmax)) hfound
      · rw [hout] at h
        cases h
      · have hcount : q₁.queueCount = q.queueCount := by rw [queueCount, hprobed.same.list]; rfl
        rw [hnext, ← hcount] at h
        obtain ⟨⟨k, hk, hends, hbefore⟩, hnone⟩ := ih q₁ (i + 1) hprobed.sound
          (by rw [hprobed.same.list]; exact hsize) (by rw [hcount]; exact hindex) r q' h
        rw [hcount] at hbefore
        refine ⟨⟨k, by omega, (EndsAt.of_probed hprobed).mp hends, fun j h1 h2 => ?_⟩, ?_⟩
        · by_cases hj : j = i
          · rw [hj]
            exact hne
          · exact hbefore j (by omega) h2
        · intro hempty
          apply hnone
          intro p hp
          rw [show q₁.stored = q.stored from hprobed.took]
          refine hempty p ?_
          rw [tokenBound, created, hprobed.same.list] at hp
          exact hp

/-- A turn that ends the loop is reached, or an earlier one ends it. -/
lemma popProbe_of_ends (m : Nat) : ∀ (q : FastQueue α) (i : Nat), q.Sound →
    0 < q.queueList.size → index < q.queueCount → q.EndsAt index (i + m) →
    (∀ j, i ≤ j → j < i + m → turnSlot q.queueCount index j ≠ kQueueMaxCount) →
    ∃ r q', popProbe q index (m + 1) i (atTurn q.queueCount index i) = some (r, q') := by
  induction m with
  | zero =>
    intro q i hq hsize hindex hends _
    rw [popProbe_succ hsize hindex]
    by_cases hexit : 1 ≤ i ∧ 2 * i + 1 ≤ index ∧ q.queueCount ∣ i * (i + 2)
    · rw [if_pos hexit]
      exact ⟨none, q, rfl⟩
    · rw [if_neg hexit]
      rcases hends with hends | ⟨hmax, hfound⟩
      · exact absurd hends hexit
      · have hlt : turnSlot q.queueCount index i < q.queueCount := Nat.mod_lt _ (by omega)
        obtain ⟨-, -, x, q', hsome⟩ | ⟨heq, -⟩ | ⟨-, hnot, -⟩ := probeOr_cases hq hlt
          fun q₁ => popProbe q₁ index 0 (i + 1) (atTurn q.queueCount index (i + 1))
        · exact ⟨some x, q', hsome⟩
        · rw [Nat.add_zero] at hmax
          omega
        · exact absurd ⟨hmax, hfound⟩ hnot
  | succ m ih =>
    intro q i hq hsize hindex hends hbefore
    rw [popProbe_succ hsize hindex]
    by_cases hexit : 1 ≤ i ∧ 2 * i + 1 ≤ index ∧ q.queueCount ∣ i * (i + 2)
    · rw [if_pos hexit]
      exact ⟨none, q, rfl⟩
    · rw [if_neg hexit]
      have hlt : turnSlot q.queueCount index i < q.queueCount := Nat.mod_lt _ (by omega)
      obtain ⟨-, -, x, q', hsome⟩ | ⟨heq, -⟩ | ⟨-, -, q₁, hprobed, hnext⟩ := probeOr_cases hq hlt
        fun q₁ => popProbe q₁ index (m + 1) (i + 1) (atTurn q.queueCount index (i + 1))
      · exact ⟨some x, q', hsome⟩
      · exact absurd heq (hbefore i (le_refl i) (by omega))
      · have hcount : q₁.queueCount = q.queueCount := by rw [queueCount, hprobed.same.list]; rfl
        rw [hnext, ← hcount]
        refine ih q₁ (i + 1) hprobed.sound (by rw [hprobed.same.list]; exact hsize)
          (by rw [hcount]; exact hindex) ?_ ?_
        · rw [EndsAt.of_probed hprobed, show i + 1 + m = i + (m + 1) by omega]
          exact hends
        · intro j h1 h2
          rw [hcount]
          exact hbefore j (by omega) (by omega)

end Loop

/-- For every number and content of local queues and every outcome of `UInt`, `pop` returns,
with false if all queues are empty, exactly under `PopEnds`. -/
theorem pop_returns_iff (q : FastQueue α) (hq : q.Sound) (index : Nat)
    (hindex : QueueWorld.UIntOutcome q.queueList.size index) :
    (∃ fuel r q', q.pop index fuel = some (r, q') ∧ (q.AllEmpty → r = none)) ↔
      q.PopEnds index := by
  constructor
  · rintro ⟨fuel, r, q', hpop, -⟩
    by_cases hsize : 0 < q.queueList.size
    · have hlt : index < q.queueCount := by
        unfold QueueWorld.UIntOutcome at hindex
        unfold queueCount
        omega
      obtain ⟨⟨k, -, hends, hbefore⟩, -⟩ := ends_of_popProbe fuel q 0 hq hsize hlt r q' hpop
      exact ⟨hsize, k, hends, fun j hj => hbefore j (Nat.zero_le j) hj⟩
    · -- an empty `QueueList`: the first turn divides by zero
      exfalso
      cases fuel with
      | zero => simp [pop, popProbe] at hpop
      | succ fuel =>
        rw [pop, popProbe, if_pos (.inl rfl), if_pos (by omega)] at hpop
        cases hpop
  · rintro ⟨hsize, k, hends, hbefore⟩
    have hlt : index < q.queueCount := by
      unfold QueueWorld.UIntOutcome at hindex
      unfold queueCount
      omega
    have hends₀ : q.EndsAt index (0 + k) := by
      rw [Nat.zero_add]
      exact hends
    obtain ⟨r, q', hpop⟩ := popProbe_of_ends k q 0 hq hsize hlt hends₀
      (fun j _ hj => hbefore j (by omega))
    exact ⟨k + 1, r, q', hpop, (ends_of_popProbe (k + 1) q 0 hq hsize hlt r q' hpop).2⟩

/-- Two handles, of which the second pushes: the first turn finds an empty queue. -/
def secondQueue : List (QueueCall Nat) := [.create 0, .create 1, .push 1 7]

theorem pop_returns_iff_second :
    ∃ w : QueueWorld Nat, exec QueueWorld.step QueueWorld.init secondQueue = some w ∧
      (∃ fuel r q', w.queue.pop 0 fuel = some (r, q') ∧ (w.queue.AllEmpty → r = none)) ∧
        w.queue.PopEnds 0 := by
  obtain ⟨w, hrun, hends⟩ : ∃ w : QueueWorld Nat,
      exec QueueWorld.step QueueWorld.init secondQueue = some w ∧ w.queue.PopEnds 0 :=
    ⟨_, rfl, by decide +kernel, 1, .inr (by decide +kernel), by decide +kernel⟩
  have hsteady : w.Steady := exec_invariant (fun _ _ _ hs hc ht => hs.step hc ht)
    QueueWorld.steady_init (QueueWorld.along_endInRange QueueWorld.steady_init (by decide)) hrun
  have hiff := pop_returns_iff w.queue hsteady.sound 0 (.inl hends.1)
  exact ⟨w, hrun, hiff.2 hends, hends⟩

/-- The queue right after its first handle was made: one empty local queue. -/
def oneQueue : FastQueue Nat := (newHandle new).1

/-- Without local queues `pop` divides by zero; with one empty local queue it never ends. -/
theorem pop_never_returns_none_one :
    (¬∃ fuel r q', (new : FastQueue Nat).pop 0 fuel = some (r, q')) ∧
      ¬∃ fuel r q', oneQueue.pop 0 fuel = some (r, q') := by
  constructor
  · rintro ⟨fuel, r, q', hpop⟩
    cases fuel with
    | zero => cases hpop
    | succ fuel =>
      rw [pop, popProbe, if_pos (.inl rfl), if_pos (by decide)] at hpop
      cases hpop
  · rintro ⟨fuel, r, q', hpop⟩
    have hsound : oneQueue.Sound := by
      have hacquired := acquire_cases (sound_new (α := Nat)) ⟨0, none⟩ (by decide)
      have hone : oneQueue = (acquire ((new : FastQueue Nat), ⟨0, none⟩)).1 := rfl
      rw [hone]
      generalize acquire ((new : FastQueue Nat), ⟨0, none⟩) = s at *
      cases hacquired <;> assumption
    have hcount : oneQueue.queueCount = 1 := by decide
    have hstored : oneQueue.stored = [[]] := by decide
    obtain ⟨⟨k, -, hends, -⟩, -⟩ := ends_of_popProbe fuel oneQueue 0 hsound (by decide)
      (by decide : 0 < oneQueue.queueCount) r q' hpop
    rcases hends with ⟨-, hle, -⟩ | ⟨-, hfound⟩
    · omega
    · rw [hcount, hstored, turnSlot, Nat.mod_one] at hfound
      exact hfound rfl

end CoplusLean.FastQueue
