import CoplusLean.Proofs.QueuedPool
import CoplusLean.Proofs.SchedulerPlaces

/-!
# No task of the pool is lost

As long as every `push_hard` is accepted, a task that was made is ready, held by a worker,
registered on a trigger or finished. The pool runs like a scheduler whose pushes are all accepted,
so each of its tasks has one place, the `FastQueue` being one of them.
-/

namespace CoplusLean

open Lib FastQueue

namespace PoolWorld

variable {w w' : PoolWorld} {i t : Nat}

/-- The task is in one of the collections of the scheduler. -/
def Tracked (w : PoolWorld) (t : Nat) : Prop :=
  t ∈ w.ready ∨ (∃ i, (w.worker i).task = some t ∨ (w.worker i).child = some t) ∨
    (∃ τ, w.waitingOn t = some τ) ∨ t ∈ w.finished

lemma tracked_task (h : (w.worker i).task = some t) : w.Tracked t := .inr (.inl ⟨i, .inl h⟩)

lemma tracked_child (h : (w.worker i).child = some t) : w.Tracked t := .inr (.inl ⟨i, .inr h⟩)

def AllTracked (w : PoolWorld) : Prop := ∀ t < w.created, w.Tracked t

lemma allTracked_init : init.AllTracked := fun _ h => absurd h (Nat.not_lt_zero _)

/-- No push of the step is refused. -/
def Accepting : PoolStep → Prop
  | .go accepted | .requeue _ accepted | .pushChild _ accepted => accepted = true
  | .notify _ accepted => accepted = []
  | .pop _ _ | .call _ _ | .waitPush _ | .register _ => True

/-- Only the worker `i` changes its phase, and what it held is accounted for. -/
lemma Tracked.of_worker {x : WorkerPhase} (h : w.Tracked t)
    (hworker : w'.worker = Function.update w.worker i x) (hready : t ∈ w.ready → w'.Tracked t)
    (hheld : (w.worker i).task = some t ∨ (w.worker i).child = some t → w'.Tracked t)
    (hwaiting : ∀ τ, w.waitingOn t = some τ → w'.Tracked t) (hfinished : w.finished ⊆ w'.finished) :
    w'.Tracked t := by
  rcases h with h | ⟨j, h⟩ | ⟨τ, h⟩ | h
  · exact hready h
  · by_cases hj : j = i
    · subst hj
      exact hheld h
    · exact .inr (.inl ⟨j, by rw [hworker, Function.update_of_ne hj]; exact h⟩)
  · exact hwaiting τ h
  · exact .inr (.inr (.inr (hfinished h)))

/-- The worker `i` keeps its task and its child. -/
lemma Tracked.of_phase {x : WorkerPhase} (h : w.Tracked t)
    (hworker : w'.worker = Function.update w.worker i x) (htask : x.task = (w.worker i).task)
    (hchild : x.child = (w.worker i).child) (hready : w'.ready = w.ready)
    (hwaiting : w'.waitingOn = w.waitingOn) (hfinished : w'.finished = w.finished) :
    w'.Tracked t := by
  have hx : w'.worker i = x := by rw [hworker, Function.update_self]
  refine h.of_worker hworker (fun h => .inl (hready ▸ h)) (fun h => ?_)
    (fun τ h => .inr (.inr (.inl ⟨τ, by rw [hwaiting, h]⟩))) (by rw [hfinished]; exact fun _ h => h)
  rcases h with h | h
  · exact tracked_task (by rw [hx, htask, h])
  · exact tracked_child (by rw [hx, hchild, h])

/-- The worker `i` is left without a task and a child, and what it pushes is ready. -/
lemma Tracked.of_push {s : Nat} (h : w.Tracked t)
    (hheld : (w.worker i).task = some t ∨ (w.worker i).child = some t → t = s) :
    ((w.setWorker i .idle).pushReady true s).Tracked t :=
  h.of_worker rfl (fun h => .inl (List.mem_append_left _ h))
    (fun h => .inl (List.mem_append_right _ (by rw [hheld h]; exact List.mem_cons_self)))
    (fun τ h => .inr (.inr (.inl ⟨τ, h⟩))) fun _ h => h

lemma AllTracked.step {a : PoolStep} (hw : w.AllTracked) (ha : Accepting a)
    (hstep : w.step a = some w') : w'.AllTracked := by
  cases a with
  | go accepted =>
    obtain rfl : accepted = true := ha
    cases hstep
    intro t ht
    rcases Nat.lt_succ_iff_lt_or_eq.mp ht with ht | rfl
    · rcases hw t ht with h | h | h
      · exact .inl (List.mem_append_left _ h)
      · exact .inr (.inl h)
      · exact .inr (.inr h)
    · exact .inl (List.mem_append_right _ List.mem_cons_self)
  | pop i index =>
    simp only [PoolWorld.step] at hstep
    split at hstep
    case h_1 task hidle htask =>
      cases hstep
      intro t ht
      refine (hw t ht).of_worker rfl (fun h => ?_) (by simp [hidle, WorkerPhase.task,
        WorkerPhase.child]) (fun τ h => .inr (.inr (.inl ⟨τ, h⟩))) fun _ h => h
      obtain ⟨hlt, rfl⟩ := List.getElem?_eq_some_iff.mp htask
      rcases List.mem_cons.mp ((List.getElem_cons_eraseIdx_perm hlt).mem_iff.mpr h) with rfl | h
      · exact tracked_task (i := i) (by simp [setWorker, WorkerPhase.task])
      · exact .inl h
    · cases hstep
  | call i status =>
    simp only [PoolWorld.step] at hstep
    split at hstep
    case h_1 current hi =>
      cases hstep
      unfold callReturns
      split
      · exact fun t ht => (hw t ht).of_phase rfl (by rw [hi]; rfl) (by rw [hi]; rfl) rfl rfl rfl
      · exact fun t ht => (hw t ht).of_phase rfl (by rw [hi]; rfl) (by rw [hi]; rfl) rfl rfl rfl
      · intro t ht
        rcases Nat.lt_succ_iff_lt_or_eq.mp ht with ht | rfl
        · refine (hw t ht).of_worker rfl .inl (fun h => ?_) (fun τ h => .inr (.inr (.inl ⟨τ, h⟩)))
            fun _ h => h
          obtain rfl : current = t := by simpa [hi, WorkerPhase.task, WorkerPhase.child] using h
          exact tracked_task (i := i) (by simp [setWorker, WorkerPhase.task])
        · exact tracked_child (i := i) (by simp [setWorker, WorkerPhase.child])
      · intro t ht
        refine (hw t ht).of_worker rfl .inl (fun h => ?_) (fun τ h => .inr (.inr (.inl ⟨τ, h⟩)))
          fun _ h => List.mem_append_left _ h
        obtain rfl : current = t := by simpa [hi, WorkerPhase.task, WorkerPhase.child] using h
        exact .inr (.inr (.inr (List.mem_append_right _ List.mem_cons_self)))
    · cases hstep
  | requeue i accepted =>
    obtain rfl : accepted = true := ha
    simp only [PoolWorld.step] at hstep
    split at hstep
    case h_1 current hi =>
      cases hstep
      refine fun t ht => (hw t ht).of_push fun h => ?_
      simpa [hi, WorkerPhase.task, WorkerPhase.child, eq_comm] using h
    · cases hstep
  | waitPush i =>
    simp only [PoolWorld.step] at hstep
    split at hstep
    case h_1 hi =>
      cases hstep
      exact fun t ht => (hw t ht).of_phase rfl (by rw [hi]; rfl) (by rw [hi]; rfl) rfl rfl rfl
    · cases hstep
  | register i =>
    simp only [PoolWorld.step] at hstep
    split at hstep
    case h_1 current id τ child hi =>
      cases hstep
      intro t ht
      by_cases hcurrent : t = current
      · subst hcurrent
        exact .inr (.inr (.inl ⟨τ, by simp [PoolWorld.register]⟩))
      · refine (hw t ht).of_worker rfl .inl (fun h => ?_) (fun τ' h => ?_) fun _ h => h
        · have hchild : child = some t := by
            simpa [hi, WorkerPhase.task, WorkerPhase.child, Ne.symm hcurrent] using h
          exact tracked_child (i := i)
            (by simp [PoolWorld.register, setWorker, WorkerPhase.child, hchild])
        · exact .inr (.inr (.inl ⟨τ', by simp [PoolWorld.register, setWorker, hcurrent, h]⟩))
    · cases hstep
  | pushChild i accepted =>
    obtain rfl : accepted = true := ha
    simp only [PoolWorld.step] at hstep
    split at hstep
    case h_1 hi =>
      cases hstep
      exact fun t ht => (hw t ht).of_phase rfl (by rw [hi]; rfl) (by rw [hi]; rfl) rfl rfl rfl
    case h_2 child hi =>
      cases hstep
      refine fun t ht => (hw t ht).of_push fun h => ?_
      simpa [hi, WorkerPhase.task, WorkerPhase.child, eq_comm] using h
    · cases hstep
  | notify τ accepted =>
    obtain ⟨tried, -, rfl⟩ := Option.map_eq_some_iff.mp hstep
    intro t ht
    by_cases hwoken : t ∈ woken tried
    · exact .inl (List.mem_append_right _ hwoken)
    · rcases hw t ht with h | h | ⟨τ', h⟩ | h
      · exact .inl (List.mem_append_left _ h)
      · exact .inr (.inl h)
      · exact .inr (.inr (.inl ⟨τ', by rw [afterNotify_eq]; simp [hwoken, h]⟩))
      · exact .inr (.inr (.inr h))

end PoolWorld

namespace QueuedPool

variable {c c' : QueuedPool} {a : QueuedPoolStep}

/-- The condition on a step: `wait_queue` has room for the task that is pushed to it. -/
def WaitRoom (c : QueuedPool) : QueuedPoolStep → Prop
  | .waitPush _ => c.pool.waitQueue.pushCount < kWaitQueueSize
  | _ => True

/-- The condition on a step: no trigger is notified after a `notify` of it has pushed a task. -/
def NotifyOnce (c : QueuedPool) : QueuedPoolStep → Prop
  | .notify τ => τ ∉ c.pool.served
  | _ => True

instance (c : QueuedPool) : DecidablePred c.WaitRoom
  | .waitPush _ => inferInstanceAs (Decidable (_ < _))
  | .go | .pop _ _ | .call _ _ | .requeue _ | .register _ | .pushChild _ | .notify _ =>
    isTrue trivial

instance (c : QueuedPool) : DecidablePred c.NotifyOnce
  | .notify _ => inferInstanceAs (Decidable (_ ∉ _))
  | .go | .pop _ _ | .call _ _ | .requeue _ | .waitPush _ | .register _ | .pushChild _ =>
    isTrue trivial

/-- Every place has its collection in the pool, and every task is in the one of its place. -/
structure Housed (c : QueuedPool) (place : Nat → Place) : Prop where
  unborn : At place .unborn (c.pool.created ≤ ·)
  ready_once : c.tasks.stored.flatten.Nodup
  no_null : none ∉ c.tasks.stored.flatten
  ready : At place .ready (some · ∈ c.tasks.stored.flatten)
  task : ∀ i, At place (.worker i) fun t => (c.pool.worker i).task = some t
  child : ∀ i, At place (.child i) fun t => (c.pool.worker i).child = some t
  waiting : ∀ τ, At place (.waiting τ) fun t => c.pool.waitingOn t = some τ
  finished : At place .finished (· ∈ c.pool.finished)
  lost : At place .lost fun _ => False

/-- The scheduler that the pool runs like, with the places of its tasks. -/
structure Tracks (c : QueuedPool) (w : PoolWorld) (items : List (Option Nat))
    (place : Nat → Place) : Prop where
  agrees : c.Agrees w
  registry : w.Registry items
  placed : w.Placed place
  tracked : w.AllTracked

lemma tracks_init : init.Tracks .init [] fun _ => .unborn :=
  ⟨agrees_init, PoolWorld.registry_init, PoolWorld.placed_init, PoolWorld.allTracked_init⟩

lemma shows_cases {w : PoolWorld} {bs : List PoolStep} (hshows : Shows a bs) (hc : c.Agrees w)
    (hroom : c.WaitRoom a) (honce : c.NotifyOnce a) :
    bs = [] ∨ ∃ b, bs = [b] ∧ PoolWorld.Accepting b ∧ w.WaitRoom b ∧ w.NotifyOnce b := by
  obtain ⟨ready, rfl, -⟩ := hc.eq
  cases hshows with
  | popFails worker middle => exact .inl rfl
  | go | requeue | pushChild => exact .inr ⟨_, rfl, rfl, trivial, trivial⟩
  | pop | call | register => exact .inr ⟨_, rfl, trivial, trivial, trivial⟩
  | waitPush worker => exact .inr ⟨_, rfl, trivial, hroom, trivial⟩
  | notify trigger => exact .inr ⟨_, rfl, rfl, trivial, honce⟩

lemma Tracks.step {w : PoolWorld} {items : List (Option Nat)} {place : Nat → Place}
    (hc : c.Tracks w items place) (hok : c.CreateOk a) (hroom : c.WaitRoom a)
    (honce : c.NotifyOnce a) (hstep : c.step a = some c') :
    ∃ w' items' place', c'.Tracks w' items' place' := by
  obtain ⟨bs, v, hshows, hrun, hagrees⟩ := matched_step hc.agrees hok hstep
  rcases shows_cases hshows hc.agrees hroom honce with rfl | ⟨b, rfl, haccepts, hroom', honce'⟩
  · obtain rfl : w = v := Option.some.inj hrun
    exact ⟨w, items, place, hagrees, hc.registry, hc.placed, hc.tracked⟩
  · have hb : w.step b = some v := by simpa using hrun
    obtain ⟨items', hregistry⟩ := hc.registry.step hroom' hb
    obtain ⟨place', hplaced⟩ := hc.placed.step hc.registry honce' hb
    exact ⟨v, items', place', hagrees, hregistry, hplaced, hc.tracked.step haccepts hb⟩

/-- A task that was made is in one of the collections, so its place is not `lost`. -/
lemma Tracks.housed {w : PoolWorld} {items : List (Option Nat)} {place : Nat → Place}
    (hc : c.Tracks w items place) : c.Housed place := by
  obtain ⟨ready, rfl, hstores⟩ := hc.agrees.eq
  have hperm : c.tasks.stored.flatten.Perm (ready.map some) := Holds.perm hstores
  have hp := hc.placed
  have hborn : ∀ t, place t ≠ .unborn → t < c.pool.created := fun t ht => hp.lt_created ht
  -- what a task is tracked by decides its place
  have hgone : ∀ t < c.pool.created, place t ≠ .unborn ∧ place t ≠ .lost ∧
      (place t = .finished → t ∈ c.pool.finished) := by
    intro t ht
    rcases hc.tracked t ht with h | ⟨i, h | h⟩ | ⟨τ, h⟩ | h
    · simp [(hp.ready t).mp h]
    · simp [(hp.task i t).mp h]
    · simp [(hp.child i t).mp h]
    · simp [(hp.waiting τ t).mp h]
    · simp [hp.finished t h, show t ∈ c.pool.finished from h]
  refine ⟨fun t => ⟨hp.unborn t, fun h => ?_⟩, ?_, ?_, fun t => ?_, hp.task, hp.child, hp.waiting,
    fun t => ⟨hp.finished t, fun h => ?_⟩, fun t => ⟨False.elim, fun h => ?_⟩⟩
  · by_contra hlt
    exact (hgone t (by omega)).1 h
  · exact hperm.nodup_iff.mpr (hp.nodup.map (Option.some_injective _))
  · simp [hperm.mem_iff]
  · have hready : some t ∈ c.tasks.stored.flatten ↔ t ∈ ready := by
      rw [hperm.mem_iff, List.mem_map_of_injective (Option.some_injective _)]
    exact hready.trans (hp.ready t)
  · exact (hgone t (hborn t (by simp [h]))).2.2 h
  · exact (hgone t (hborn t (by simp [h]))).2.1 h

/-- In every run in which `create_queue` does not fail, the wait table has room and a trigger is not
notified again after it has woken a task, each task of the pool has one place: it is not made yet,
once in the `FastQueue`, held by one worker, as the task that it runs or as the one that it has to
push, registered on one trigger or finished. No task is lost. -/
theorem tasks_in_one_place {run : List QueuedPoolStep} {c : QueuedPool}
    (hok : Along step (fun c a => c.CreateOk a ∧ c.WaitRoom a ∧ c.NotifyOnce a) init run)
    (hrun : exec step init run = some c) : ∃ place, c.Housed place := by
  obtain ⟨w, items, place, hc⟩ := exec_invariant
    (P := fun c : QueuedPool => ∃ w items place, c.Tracks w items place)
    (fun _ _ _ ⟨_, _, _, hc⟩ hgood hs => hc.step hgood.1 hgood.2.1 hgood.2.2 hs)
    ⟨_, _, _, tracks_init⟩ hok hrun
  exact ⟨place, hc.housed⟩

/-- The task `0` ends, the task `1` is woken and the task that it made is with a worker. -/
theorem tasks_in_one_place_await :
    ∃ c, exec step init (awaitRun ++ [.pop 3 0, .call 3 .kFinished, .pop 4 0]) = some c ∧
      c.pool.created = 3 ∧ c.pool.finished = [0] ∧ ∃ place, c.Housed place := by
  let run := awaitRun ++ [.pop 3 0, .call 3 .kFinished, .pop 4 0]
  have hok : Along step (fun c a => c.CreateOk a ∧ c.WaitRoom a ∧ c.NotifyOnce a) init run := by
    decide +kernel
  have hresult : (exec step init run).map (fun c => (c.pool.created, c.pool.finished)) =
      some (3, [0]) := by decide +kernel
  obtain ⟨c, hc, hvalues⟩ := Option.map_eq_some_iff.mp hresult
  obtain ⟨hcreated, hfinished⟩ := Prod.mk.inj hvalues
  exact ⟨c, hc, hcreated, hfinished, tasks_in_one_place hok hc⟩

end QueuedPool

end CoplusLean
