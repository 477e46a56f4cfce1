import CoplusLean.Proofs.QueueReach
import Mathlib.Data.List.GetD

/-!
# When `push_hard` finds room

`push_hard` looks at one local queue, the one its handle holds or takes from the front of
the free list, and at the room for a new one. It returns false when that queue is full and
one hundred queues exist, whatever room the other queues have. And a queue whose token the
free list refused stays out of reach, however empty it becomes.
-/

namespace CoplusLean

open Lib FastQueue

variable {α : Type*} [Inhabited α]

namespace FastQueue

/-- Every one of the `kQueueMaxCount` local queues exists and is full. -/
def AllFull (q : FastQueue α) : Prop :=
  kQueueMaxCount ≤ q.created ∧ ∀ p < kQueueMaxCount, q.Full p

/-- The local queue that `push_hard` tries first. -/
def target (q : FastQueue α) (h : ProducerHandle) : Option Nat :=
  match h.local_ with
  | some p => some p
  | none => q.freeTokens.head?.map Int.toNat

/-- A queue can still be created, or the first queue tried has room. -/
def RoomInSight (q : FastQueue α) (h : ProducerHandle) : Prop :=
  q.created < kQueueMaxCount ∨ ∃ p, q.target h = some p ∧ ¬q.Full p

/-- A queue can still be created, or the first queue tried has room whenever any queue has. -/
def TriesRoom (q : FastQueue α) (h : ProducerHandle) : Prop :=
  q.created < kQueueMaxCount ∨
    ((∃ p < kQueueMaxCount, ¬q.Full p) → ∃ p, q.target h = some p ∧ ¬q.Full p)

omit [Inhabited α] in
lemma triesRoom_iff (q : FastQueue α) (h : ProducerHandle) :
    (¬q.RoomInSight h → q.AllFull) ↔ q.TriesRoom h := by
  unfold RoomInSight AllFull TriesRoom
  by_cases hroom : q.created < kQueueMaxCount
  · simp [hroom]
  · have hfull : (∀ p < kQueueMaxCount, q.Full p) ↔ ¬∃ p < kQueueMaxCount, ¬q.Full p := by
      push Not
      exact Iff.rfl
    simp only [hroom, false_or, not_lt.1 hroom, true_and, hfull]
    exact not_imp_not

section PushedHard

variable {x : α} {s : FastQueue α × ProducerHandle} {result : Bool × FastQueue α × ProducerHandle}

/-- From the state in which the first attempts start: false when there is no queue, or a
full one and no new one. -/
lemma PushedHard.false_iff (h : PushedHard x s result) :
    result.1 = false ↔ ∀ p, s.2.local_ = some p → s.1.Full p ∧ kQueueMaxCount ≤ s.1.created := by
  cases h with
  | noQueue hlocal => simp [hlocal]
  | first p q' hlocal hroom hsound hsame hstored =>
    refine iff_of_false (by simp) fun h => ?_
    exact hroom (h p hlocal).1
  | moved p q' hlocal hfull hlimit hsound hcreated hfree hflag hstored =>
    refine iff_of_false (by simp) fun h => ?_
    have := (h p hlocal).2
    omega
  | stuck p q' hlocal hfull hlimit hsound hcreated hfree hflag hstored =>
    refine iff_of_true rfl fun p' hp' => ?_
    obtain rfl : p = p' := by
      rw [hlocal] at hp'
      exact Option.some.inj hp'
    exact ⟨hfull, hlimit⟩

end PushedHard

/-- `push_hard` returns false exactly when there is no room in sight. -/
lemma pushHard_false_iff {q : FastQueue α} (hq : q.Sound) {h : ProducerHandle}
    (hh : q.ValidHandle h) (hcount : q.created + 18 ≤ 4294967296) (x : α) :
    (q.pushHard h x).1 = false ↔ ¬q.RoomInSight h := by
  obtain ⟨s, hstart, hres⟩ := pushHard_cases hq hh hcount x
  rw [hres.false_iff]
  unfold RoomInSight target
  cases hstart with
  | held p hlocal =>
    simp only [hlocal, Option.some.injEq, forall_eq', exists_eq_left', not_or, not_lt, not_not]
    exact and_comm
  | acquired s hlocal hacquired =>
    cases hacquired with
    | reused q' t rest hfree hrest hlist hheap hflag hsound =>
      have hfull : q'.Full t.toNat ↔ q.Full t.toNat := by simp only [Full, stored, hheap]
      have hcreated : q'.created = q.created := by simp only [created, hlist]
      simp only [hlocal, hfree, List.head?_cons, Option.map_some, Option.some.injEq, forall_eq',
        exists_eq_left', not_or, not_lt, not_not, hfull, hcreated]
      exact and_comm
    | created hfree hroom hsound =>
      refine iff_of_false (fun hall => ?_) (fun hnot => hnot (.inl hroom))
      exact not_full_extended hq _ (hall q.created rfl).1
    | failed q' hfree hfull hcreated hlist hstored hflag hsound =>
      refine iff_of_true (by simp [hlocal]) ?_
      simp only [hlocal, hfree, List.head?_nil, Option.map_none, reduceCtorEq, false_and,
        exists_false, or_false]
      omega

end FastQueue

namespace QueueWorld

/-- In every reachable state, `push_hard` on a live handle returns false only with all queues full
exactly when the first queue it tries has room whenever any has; and every queue is available to
producers exactly when no call of the run has dropped a token. -/
theorem pushHard_refuses_full_iff (calls : List (QueueCall α)) (w : QueueWorld α)
    (hrun : exec step init calls = some w) (hok : Along step EndInRange init calls)
    (hcount : w.queue.created + 18 ≤ 4294967296) :
    (∀ k h, w.handles k = some h → ∀ x,
      (((w.queue.pushHard h x).1 = false → w.queue.AllFull) ↔ w.queue.TriesRoom h)) ∧
    (w.AllAvailable ↔ Along step KeepsTokens init calls) := by
  have hw : w.Steady := exec_invariant (P := Steady) (fun _ _ _ hs hc ht => hs.step hc ht)
    steady_init hok hrun
  refine ⟨fun k h hk x => ?_, allAvailable_iff_along hrun hok⟩
  rw [pushHard_false_iff hw.sound (hw.valid k h hk) hcount]
  exact triesRoom_iff _ _

/-- Handle `0` alone, on queue `c` that holds `m` values; the queues before it are full. -/
structure Lined (w : QueueWorld α) (c m : Nat) : Prop where
  steady : w.Steady
  handle : w.handles 0 = some ⟨c, some c⟩
  created : w.queue.created = c + 1
  full : ∀ p < c, w.queue.Full p
  last : (w.queue.stored.getD c []).length = m

omit [Inhabited α] in
lemma Lined.length_stored {w : QueueWorld α} {c m : Nat} (hw : w.Lined c m) :
    w.queue.stored.length = c + 1 := by
  rw [FastQueue.length_stored, hw.steady.sound.length_heap, hw.created]

/-- `push_hard` of handle `0`, from the state in which its first attempts start. -/
lemma Lined.step {w : QueueWorld α} {c m : Nat} (hw : w.Lined c m) (hc : c < 100) (x : α) :
    ∃ w', w.step (.pushHard 0 x) = some w' ∧ w'.Steady ∧
      ∃ result, PushedHard x (w.queue, ⟨c, some c⟩) result ∧ w'.queue = result.2.1 ∧
        w'.handles 0 = some result.2.2 := by
  have hcount : w.EndInRange (.pushHard 0 x) := by
    rw [EndInRange, hw.created]
    omega
  obtain ⟨w', hstep⟩ : ∃ w', w.step (.pushHard 0 x) = some w' := by
    simp [QueueWorld.step, hw.handle]
  refine ⟨w', hstep, hw.steady.step hcount hstep, ?_⟩
  obtain ⟨s, hstart, hres⟩ :=
    pushHard_cases hw.steady.sound (hw.steady.valid 0 _ hw.handle) hcount x
  simp only [QueueWorld.step, hw.handle, Option.some.injEq] at hstep
  rw [← hstep]
  cases hstart with
  | held p hlocal => exact ⟨_, hres, rfl, by simp⟩
  | acquired s hlocal hacquired => simp at hlocal

/-- A value goes into the last queue while it has room. -/
lemma Lined.fill {w : QueueWorld α} {c m : Nat} (hw : w.Lined c m) (hc : c < 100) (hm : m < 32)
    (x : α) : ∃ w', w.step (.pushHard 0 x) = some w' ∧ w'.Lined c (m + 1) := by
  have hlen := hw.length_stored
  have h32 : kLocalQueueSize = 32 := rfl
  obtain ⟨w', hstep, hsteady, result, hres, hqueue, hhandle⟩ := hw.step hc x
  refine ⟨w', hstep, ?_⟩
  have hroom : ¬w.queue.Full c := by
    have := hw.last
    rw [Full]
    omega
  cases hres with
  | noQueue hlocal => simp at hlocal
  | first p q' hlocal hroom hsound hsame hstored =>
    obtain rfl : c = p := by simpa using hlocal
    simp only at hstored hqueue
    refine ⟨hsteady, hhandle, ?_, ?_, ?_⟩
    · rw [hqueue, FastQueue.created, hsame.list]
      exact hw.created
    · intro p hp
      have hfull := hw.full p hp
      rw [Full] at hfull
      rw [Full, hqueue, hstored, List.getD_eq_getElem?_getD, List.getElem?_set_ne (by omega),
        ← List.getD_eq_getElem?_getD]
      exact hfull
    · rw [hqueue, hstored, List.getD_eq_getElem?_getD, List.getElem?_set_self (by omega),
        Option.getD_some, List.length_append, hw.last]
      rfl
  | moved p q' hlocal hfull hlimit hsound hcreated hfree hflag hstored =>
    obtain rfl : c = p := by simpa using hlocal
    exact absurd hfull hroom
  | stuck p q' hlocal hfull hlimit hsound hcreated hfree hflag hstored =>
    obtain rfl : c = p := by simpa using hlocal
    exact absurd hfull hroom

/-- When the last queue is full, the value goes into a new one. -/
lemma Lined.extend {w : QueueWorld α} {c : Nat} (hw : w.Lined c 32) (hc : c < 99) (x : α) :
    ∃ w', w.step (.pushHard 0 x) = some w' ∧ w'.Lined (c + 1) 1 := by
  have hlen := hw.length_stored
  have hlast : w.queue.Full c := hw.last
  have hcreated' := hw.created
  have hmax : kQueueMaxCount = 100 := rfl
  obtain ⟨w', hstep, hsteady, result, hres, hqueue, hhandle⟩ := hw.step (by omega) x
  refine ⟨w', hstep, ?_⟩
  cases hres with
  | noQueue hlocal => simp at hlocal
  | first p q' hlocal hroom hsound hsame hstored =>
    obtain rfl : c = p := by simpa using hlocal
    exact absurd hlast hroom
  | moved p q' hlocal hfull hlimit hsound hcreated hfree hflag hstored =>
    simp only at hstored hcreated hhandle hqueue
    rw [hcreated'] at hcreated hhandle
    refine ⟨hsteady, hhandle, by rw [hqueue, hcreated], ?_, ?_⟩
    · intro p hp
      rw [Full, hqueue, hstored, List.getD_append _ _ _ _ (by omega)]
      by_cases hpc : p = c
      · rw [hpc]
        exact hlast
      · exact hw.full p (by omega)
    · rw [hqueue, hstored, List.getD_append_right _ _ _ _ (by omega), hlen]
      simp
  | stuck p q' hlocal hfull hlimit hsound hcreated hfree hflag hstored =>
    simp only at hlimit
    omega

/-- Values until the last queue is full. -/
lemma Lined.fillAll {c : Nat} (hc : c < 100) (x : α) (j : Nat) : ∀ {w : QueueWorld α} {m : Nat},
    w.Lined c m → m + j = 32 →
    ∃ w', exec QueueWorld.step w (List.replicate j (.pushHard 0 x)) = some w' ∧ w'.Lined c 32 := by
  induction j with
  | zero =>
    intro w m hw hm
    obtain rfl : m = 32 := by omega
    exact ⟨w, rfl, hw⟩
  | succ j ih =>
    intro w m hw hm
    obtain ⟨w₁, hstep, hw₁⟩ := hw.fill hc (by omega) x
    obtain ⟨w₂, hrun, hw₂⟩ := ih hw₁ (by omega)
    exact ⟨w₂, by simp [List.replicate_succ, hstep, hrun], hw₂⟩

lemma lined_create : ∃ w : QueueWorld α, init.step (.create 0) = some w ∧ w.Lined 0 0 := by
  have hzero : (FastQueue.new : FastQueue α).created = 0 := rfl
  obtain ⟨w, hstep⟩ : ∃ w : QueueWorld α, init.step (.create 0) = some w := by
    simp [QueueWorld.step, init]
  have hsteady := steady_init.step (by rw [EndInRange, init, hzero]; omega) hstep
  refine ⟨w, hstep, ?_⟩
  have hacquired := acquire_cases (sound_new (α := α)) ⟨0, none⟩ (by omega)
  simp only [QueueWorld.step, init, newHandle, Option.some.injEq] at hstep
  have hqueue : w.queue = (acquire ((FastQueue.new : FastQueue α), ⟨0, none⟩)).1 := by
    rw [← hstep]
  have hhandle : w.handles 0 = some (acquire ((FastQueue.new : FastQueue α), ⟨0, none⟩)).2 := by
    rw [← hstep]
    simp
  generalize acquire ((FastQueue.new : FastQueue α), ⟨0, none⟩) = s at *
  cases hacquired with
  | reused q' t rest hfree hrest hlist hheap hflag hsound =>
    simp [freeTokens, FastQueue.new] at hfree
  | created hfree hroom hsound =>
    simp only at hqueue hhandle
    rw [hzero] at hhandle
    refine ⟨hsteady, hhandle, ?_, fun p hp => absurd hp (Nat.not_lt_zero p), ?_⟩
    · rw [hqueue, (createQueue_of_room sound_new hroom).2.2, hzero]
    · rw [hqueue, stored_extended]
      rfl
  | failed q' hfree hfull hcreated hlist hstored hflag hsound =>
    rw [hzero] at hfull
    exact absurd hfull (by decide)

/-- Handle `0` fills `c + 1` queues. -/
def fillingCalls (x : α) (c : Nat) : List (QueueCall α) :=
  .create 0 :: List.replicate (32 * (c + 1)) (.pushHard 0 x)

omit [Inhabited α] in
lemma length_fillingCalls (x : α) (c : Nat) :
    (fillingCalls x c).length = 32 * (c + 1) + 1 := by
  rw [fillingCalls, List.length_cons, List.length_replicate]

omit [Inhabited α] in
lemma Lined.allFull {w : QueueWorld α} (hw : w.Lined 99 32) : w.queue.AllFull := by
  have hmax : kQueueMaxCount = 100 := rfl
  refine ⟨by rw [hw.created, hmax], fun p hp => ?_⟩
  by_cases hlast : p = 99
  · rw [hlast]
    exact hw.last
  · exact hw.full p (by omega)

lemma lined_filling (x : α) (c : Nat) (hc : c < 100) :
    ∃ w, exec step init (fillingCalls x c) = some w ∧ w.Lined c 32 := by
  induction c with
  | zero =>
    obtain ⟨w, hstep, hw⟩ := lined_create (α := α)
    obtain ⟨w', hrun, hw'⟩ := hw.fillAll hc x 32 (by omega)
    refine ⟨w', ?_, hw'⟩
    rw [fillingCalls, exec_cons, hstep, Option.bind_some, Nat.zero_add, Nat.mul_one]
    exact hrun
  | succ c ih =>
    obtain ⟨w, hrun, hw⟩ := ih (by omega)
    obtain ⟨w₁, hstep, hw₁⟩ := hw.extend (by omega) x
    obtain ⟨w₂, hrun₂, hw₂⟩ := hw₁.fillAll hc x 31 (by omega)
    refine ⟨w₂, ?_, hw₂⟩
    have hsplit : fillingCalls x (c + 1) =
        fillingCalls x c ++ .pushHard 0 x :: List.replicate 31 (.pushHard 0 x) := by
      rw [fillingCalls, fillingCalls, List.cons_append, ← List.replicate_succ,
        List.replicate_append_replicate]
      rfl
    rw [hsplit, exec_append, hrun, Option.bind_some, exec_cons, hstep, Option.bind_some, hrun₂]

theorem pushHard_refuses_full_iff_filled :
    ∃ w : QueueWorld Nat, exec step init (fillingCalls 7 99) = some w ∧ w.queue.AllFull ∧
      (∀ k h, w.handles k = some h → ∀ x,
        (((w.queue.pushHard h x).1 = false → w.queue.AllFull) ↔ w.queue.TriesRoom h)) ∧
      (w.AllAvailable ↔ Along step KeepsTokens (init : QueueWorld Nat) (fillingCalls 7 99)) := by
  obtain ⟨w, hrun, hw⟩ := lined_filling 7 99 (by decide)
  refine ⟨w, hrun, hw.allFull, ?_⟩
  refine pushHard_refuses_full_iff _ w hrun (along_endInRange steady_init ?_) ?_
  · rw [length_fillingCalls]
    decide
  · rw [hw.created]
    omega

/-- A pop at the first queue of a full line. -/
lemma Lined.drain {w : QueueWorld α} (hw : w.Lined 99 32) :
    ∃ w', w.step (.popHard 0) = some w' ∧ w'.handles = w.handles ∧
      w'.queue.created = w.queue.created ∧
      w'.queue.stored = w.queue.stored.set 0 (w.queue.stored.getD 0 []).tail := by
  have hmax : kQueueMaxCount = 100 := rfl
  have hsize : w.queue.queueList.size = 100 := by
    have hcreated := hw.created
    rw [FastQueue.created] at hcreated
    rw [PushOnlyFastStack.size, hcreated]
    exact int32_of_lt (by omega) (by omega)
  have hbound : 0 < w.queue.tokenBound := by
    rw [tokenBound, hw.created]
    decide
  obtain ⟨q', hprobe, -, hsame, hstored⟩ := probe_at hw.steady.sound hbound
  obtain ⟨x, rest, hxs⟩ : ∃ x rest, w.queue.stored.getD 0 [] = x :: rest := by
    apply List.exists_cons_of_length_pos
    have hfull := hw.full 0 (by omega)
    rw [Full] at hfull
    rw [hfull]
    decide
  rw [hxs, List.head?_cons] at hprobe
  have hpop : w.queue.popHard 0 = some (some x, q') := by
    simp only [popHard, popDown, probeOr, hprobe]
  have houtcome : UIntOutcome w.queue.queueList.size 0 := by
    rw [UIntOutcome, hsize]
    omega
  have hstep : w.step (.popHard 0) =
      some { w with queue := q', popped := w.afterPop (some x) } := by
    simp only [QueueWorld.step, if_pos houtcome, hpop, Option.map_some]
  refine ⟨_, hstep, rfl, ?_, ?_⟩
  · simp only [FastQueue.created, hsame.list]
  · rw [← hstored]

/-- At most `limit` handles are alive at any time of the run, `alive` of them at its start. -/
def handlesWithin (limit : Nat) : Nat → List (QueueCall α) → Bool
  | _, [] => true
  | alive, .create _ :: calls => alive < limit && handlesWithin limit (alive + 1) calls
  | alive, .destroy _ :: calls => handlesWithin limit (alive - 1) calls
  | alive, _ :: calls => handlesWithin limit alive calls

omit [Inhabited α] in
lemma handlesWithin_replicate (limit alive n : Nat) (x : α) (rest : List (QueueCall α)) :
    handlesWithin limit alive (List.replicate n (.pushHard 0 x) ++ rest) =
      handlesWithin limit alive rest := by
  induction n with
  | zero => rfl
  | succ n ih =>
    simp only [List.replicate_succ, List.cons_append, handlesWithin, ih]

/-- A full line from which one value was popped still refuses. -/
lemma Lined.refuses {w : QueueWorld α} (hw : w.Lined 99 32) (x : α) :
    ∃ w' h, w.step (.popHard 0) = some w' ∧ w'.handles 0 = some h ∧
      (w'.queue.pushHard h x).1 = false ∧ ¬w'.queue.AllFull := by
  obtain ⟨w', hstep, hhandles, hcreated, hstored⟩ := hw.drain
  have hmax : kQueueMaxCount = 100 := rfl
  have h32 : kLocalQueueSize = 32 := rfl
  have hlen := hw.length_stored
  have hsteady : w'.Steady := hw.steady.step (by rw [EndInRange, hw.created]; omega) hstep
  have hhandle := hw.handle
  rw [← hhandles] at hhandle
  refine ⟨w', _, hstep, hhandle, ?_, ?_⟩
  · rw [pushHard_false_iff hsteady.sound (hsteady.valid 0 _ hhandle) (by
      rw [hcreated, hw.created]; omega)]
    rintro (hlt | ⟨p, hp, hroom⟩)
    · rw [hcreated, hw.created] at hlt
      omega
    · obtain rfl : 99 = p := by simpa [target] using hp
      apply hroom
      rw [Full, hstored, List.getD_eq_getElem?_getD, List.getElem?_set_ne (by decide),
        ← List.getD_eq_getElem?_getD]
      exact hw.last
  · rintro ⟨-, hfull⟩
    have hfirst := hfull 0 (by omega)
    rw [Full, hstored, List.getD_eq_getElem?_getD, List.getElem?_set_self (by omega),
      Option.getD_some, List.length_tail] at hfirst
    have hbefore := hw.full 0 (by omega)
    rw [Full] at hbefore
    omega

omit [Inhabited α] in
lemma handlesWithin_filling (limit c : Nat) (hlimit : 0 < limit) (x : α) :
    handlesWithin limit 0 (fillingCalls x c ++ [.popHard 0]) = true := by
  rw [fillingCalls, List.cons_append, handlesWithin, handlesWithin_replicate]
  simp [handlesWithin, hlimit]

/-- One handle fills all hundred queues, one value is popped from the first of them, and
`push_hard` still fails. -/
theorem pushHard_refuses_drained :
    ∃ (w : QueueWorld Nat) (h : ProducerHandle),
      exec step init (fillingCalls 7 99 ++ [.popHard 0]) = some w ∧
        handlesWithin kFreeListSize 0 (fillingCalls 7 99 ++ [.popHard 0]) = true ∧
        w.handles 0 = some h ∧ (w.queue.pushHard h 7).1 = false ∧ ¬w.queue.AllFull := by
  obtain ⟨w, hrun, hw⟩ := lined_filling 7 99 (by decide)
  obtain ⟨w', h, hstep, hhandle, hfalse, hroom⟩ := hw.refuses 7
  refine ⟨w', h, ?_, handlesWithin_filling _ _ (by decide) _, hhandle, hfalse, hroom⟩
  rw [exec_append, hrun, Option.bind_some, exec_cons, hstep, Option.bind_some, exec_nil]

end QueueWorld

end CoplusLean
