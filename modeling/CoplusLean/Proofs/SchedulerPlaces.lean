import CoplusLean.Lib.Placement
import CoplusLean.Proofs.SchedulerRegistry

/-!
# No task is scheduled twice

Every task is in one place: the ready queue, one worker, the `wait_for_task` of a worker,
registered on a trigger, finished, or lost by a refused push. `notify` never clears the
list of waiters, so a second `notify` of a trigger re-enqueues tasks that are elsewhere by
then; while each trigger wakes tasks only once, the places stay apart.
-/

namespace CoplusLean

open Lib

/-- The place of a task. -/
inductive Place where
  | unborn
  | ready
  | worker (i : Nat)
  | child (i : Nat)
  | waiting (trigger : Nat)
  | finished
  | lost
deriving DecidableEq, Repr

/-- The task that a worker holds, from `pop_hard` until its push back or its `Register`. -/
def WorkerPhase.task : WorkerPhase → Option Nat
  | .running t => some t
  | .yielded t => some t
  | .waiting t _ _ => some t
  | .waitPushed t _ _ _ => some t
  | _ => none

def WorkerPhase.child : WorkerPhase → Option Nat
  | .waiting _ _ c => c
  | .waitPushed _ _ _ c => c
  | .registered c => c
  | _ => none

namespace PoolWorld

variable {w w' : PoolWorld} {place : Nat → Place} {i t : Nat}

/-- The condition on a step: no trigger is notified after a `notify` of it has re-enqueued
a task. -/
def NotifyOnce (w : PoolWorld) : PoolStep → Prop
  | .notify τ _ => τ ∉ w.served
  | _ => True

instance (w : PoolWorld) : DecidablePred w.NotifyOnce
  | .notify _ _ => inferInstanceAs (Decidable (_ ∉ _))
  | .go _ | .pop _ _ | .call _ _ | .requeue _ _ | .waitPush _ | .register _
  | .pushChild _ _ => isTrue trivial

/-- The collections of the scheduler agree with the places. -/
structure Placed (w : PoolWorld) (place : Nat → Place) : Prop where
  nodup : w.ready.Nodup
  ready : At place .ready (· ∈ w.ready)
  task : ∀ i, At place (.worker i) fun t => (w.worker i).task = some t
  child : ∀ i, At place (.child i) fun t => (w.worker i).child = some t
  waiting : ∀ τ, At place (.waiting τ) fun t => w.waitingOn t = some τ
  finished : ∀ t ∈ w.finished, place t = .finished
  unborn : ∀ t, w.created ≤ t → place t = .unborn
  waiters : ∀ τ, τ ∉ w.served → (w.tasksOn τ).Nodup ∧ At place (.waiting τ) (· ∈ w.tasksOn τ)

lemma placed_init : init.Placed fun _ => .unborn := by
  constructor <;> simp [init, At, WorkerPhase.task, WorkerPhase.child, tasksOn, registrationsOn]

/-- A worker that keeps its task and its child may change its phase. -/
lemma Placed.of_phase (hw : w.Placed place) {x : WorkerPhase}
    (htask : x.task = (w.worker i).task) (hchild : x.child = (w.worker i).child)
    (hworker : w'.worker = Function.update w.worker i x) (hready : w'.ready = w.ready)
    (hwaiting : w'.waitingOn = w.waitingOn) (hfinished : w'.finished = w.finished)
    (hcreated : w'.created = w.created) (hserved : w'.served = w.served)
    (hregs : w'.registrations = w.registrations) : w'.Placed place where
  nodup := hready ▸ hw.nodup
  ready := hready ▸ hw.ready
  task := by
    intro j
    refine (hw.task j).congr fun s => ?_
    rw [hworker]
    by_cases hj : j = i
    · subst hj
      rw [Function.update_self, htask]
    · rw [Function.update_of_ne hj]
  child := by
    intro j
    refine (hw.child j).congr fun s => ?_
    rw [hworker]
    by_cases hj : j = i
    · subst hj
      rw [Function.update_self, hchild]
    · rw [Function.update_of_ne hj]
  waiting := hwaiting ▸ hw.waiting
  finished := hfinished ▸ hw.finished
  unborn := hcreated ▸ hw.unborn
  waiters := by
    intro τ hτ
    rw [tasksOn, registrationsOn, hregs]
    exact hw.waiters τ (hserved ▸ hτ)

/-- Where a task goes by a `push_hard`. -/
def pushPlace (accepted : Bool) : Place := if accepted then .ready else .lost

lemma Placed.ready_push (hw : w.Placed place) (hold : place t ≠ .ready) (accepted : Bool)
    {r : List Nat} (hready : r = if accepted then w.ready ++ [t] else w.ready) :
    r.Nodup ∧ At (Function.update place t (pushPlace accepted)) .ready (· ∈ r) := by
  cases accepted with
  | false =>
    rw [hready]
    exact ⟨hw.nodup, hw.ready.keep hold (by simp [pushPlace])⟩
  | true =>
    have hmem : t ∉ w.ready := fun h => hold ((hw.ready t).mp h)
    simp only [if_true] at hready
    rw [hready]
    refine ⟨?_, hw.ready.enter fun s => by simp⟩
    rw [List.nodup_append]
    refine ⟨hw.nodup, List.nodup_singleton t, ?_⟩
    rintro a ha b hb rfl
    rw [List.mem_singleton.mp hb] at ha
    exact hmem ha

lemma pushPlace_ne (accepted : Bool) :
    pushPlace accepted ≠ .finished ∧ (∀ i, pushPlace accepted ≠ .worker i) ∧
      (∀ i, pushPlace accepted ≠ .child i) ∧ (∀ τ, pushPlace accepted ≠ .waiting τ) := by
  cases accepted <;> simp [pushPlace]

lemma worker_injective : Function.Injective Place.worker := fun _ _ h => by cases h; rfl

lemma child_injective : Function.Injective Place.child := fun _ _ h => by cases h; rfl

/-! The parts of `Placed` that a move of the task `t` to the place `p` leaves alone. -/

section Moves

variable {p : Place}

lemma Placed.lt_created (hw : w.Placed place) (h : place t ≠ .unborn) : t < w.created := by
  by_contra hle
  exact h (hw.unborn t (by omega))

lemma Placed.unborn_move (hw : w.Placed place) {c : Nat} (hc : w.created ≤ c) (ht : t < c) :
    ∀ s, c ≤ s → Function.update place t p s = .unborn := by
  intro s hs
  rw [Function.update_of_ne (by omega)]
  exact hw.unborn s (by omega)

lemma Placed.finished_move (hw : w.Placed place) (hold : place t ≠ .finished) :
    ∀ s ∈ w.finished, Function.update place t p s = .finished := by
  intro s hs
  have hplace := hw.finished s hs
  rw [Function.update_of_ne (by rintro rfl; exact hold hplace), hplace]

lemma Placed.waiting_move (hw : w.Placed place) (hold : ∀ τ, place t ≠ .waiting τ)
    (hnew : ∀ τ, p ≠ .waiting τ) :
    ∀ τ, At (Function.update place t p) (.waiting τ) fun s => w.waitingOn s = some τ :=
  fun τ => (hw.waiting τ).keep (hold τ) (hnew τ)

lemma Placed.waiters_move (hw : w.Placed place) (hold : ∀ τ, place t ≠ .waiting τ)
    (hnew : ∀ τ, p ≠ .waiting τ) :
    ∀ τ, τ ∉ w.served → (w.tasksOn τ).Nodup ∧
      At (Function.update place t p) (.waiting τ) (· ∈ w.tasksOn τ) :=
  fun τ hτ => ⟨(hw.waiters τ hτ).1, (hw.waiters τ hτ).2.keep (hold τ) (hnew τ)⟩

end Moves

lemma Placed.go (hw : w.Placed place) (accepted : Bool) :
    Placed { w.pushReady accepted w.created with created := w.created + 1 }
      (Function.update place w.created (pushPlace accepted)) := by
  have hplace := hw.unborn w.created le_rfl
  obtain ⟨-, hworker, hchild, hwaiting⟩ := pushPlace_ne accepted
  have hready := hw.ready_push (t := w.created) (r := (w.pushReady accepted w.created).ready)
    (by simp [hplace]) accepted (by cases accepted <;> rfl)
  have hrest : w.pushReady accepted w.created =
      { w with ready := (w.pushReady accepted w.created).ready } := by
    cases accepted <;> rfl
  rw [hrest]
  exact
    { nodup := hready.1
      ready := hready.2
      task := fun i => (hw.task i).keep (by simp [hplace]) (hworker i)
      child := fun i => (hw.child i).keep (by simp [hplace]) (hchild i)
      waiting := hw.waiting_move (by simp [hplace]) hwaiting
      finished := hw.finished_move (by simp [hplace])
      unborn := hw.unborn_move (Nat.le_succ _) (Nat.lt_succ_self _)
      waiters := hw.waiters_move (by simp [hplace]) hwaiting }

lemma Placed.pop (hw : w.Placed place) {index : Nat} (hidle : w.worker i = .idle)
    (ht : w.ready[index]? = some t) :
    Placed { w.setWorker i (.running t) with ready := w.ready.eraseIdx index }
      (Function.update place t (.worker i)) := by
  have hplace : place t = .ready := (hw.ready t).mp (List.mem_of_getElem? ht)
  exact
    { nodup := hw.nodup.sublist (List.eraseIdx_sublist _ _)
      ready := hw.ready.leave (by simp) (mem_eraseIdx_iff hw.nodup ht)
      task := slots_enter hw.task worker_injective (by rw [hidle]; rfl) rfl (by simp [hplace])
      child := slots_same hw.child (by rw [hidle]; rfl) (by simp [hplace]) (by simp)
      waiting := hw.waiting_move (by simp [hplace]) (by simp)
      finished := hw.finished_move (by simp [hplace])
      unborn := hw.unborn_move le_rfl (hw.lt_created (by simp [hplace]))
      waiters := hw.waiters_move (by simp [hplace]) (by simp) }

lemma Placed.spawn (hw : w.Placed place) {τ : Nat} (hi : w.worker i = .running t) :
    Placed { w.setWorker i (.waiting t τ (some w.created)) with created := w.created + 1 }
      (Function.update place w.created (.child i)) := by
  have hplace := hw.unborn w.created le_rfl
  exact
    { nodup := hw.nodup
      ready := hw.ready.keep (by simp [hplace]) (by simp)
      task := slots_same hw.task (by rw [hi]; rfl) (by simp [hplace]) (by simp)
      child := slots_enter hw.child child_injective (by rw [hi]; rfl) rfl (by simp [hplace])
      waiting := hw.waiting_move (by simp [hplace]) (by simp)
      finished := hw.finished_move (by simp [hplace])
      unborn := hw.unborn_move (Nat.le_succ _) (Nat.lt_succ_self _)
      waiters := hw.waiters_move (by simp [hplace]) (by simp) }

lemma Placed.finish (hw : w.Placed place) (hi : w.worker i = .running t) :
    Placed { w.setWorker i .idle with finished := w.finished ++ [t] }
      (Function.update place t .finished) := by
  have hplace : place t = .worker i := (hw.task i t).mp (by rw [hi]; rfl)
  exact
    { nodup := hw.nodup
      ready := hw.ready.keep (by simp [hplace]) (by simp)
      task := slots_leave hw.task worker_injective (by rw [hi]; rfl) rfl (by simp)
      child := slots_same hw.child (by rw [hi]; rfl) (by simp [hplace]) (by simp)
      waiting := hw.waiting_move (by simp [hplace]) (by simp)
      finished := by
        intro s hs
        rcases List.mem_append.mp hs with hs | hs
        · exact hw.finished_move (by simp [hplace]) s hs
        · rw [List.mem_singleton.mp hs, Function.update_self]
      unborn := hw.unborn_move le_rfl (hw.lt_created (by simp [hplace]))
      waiters := hw.waiters_move (by simp [hplace]) (by simp) }

lemma pushReady_setWorker (accepted : Bool) (x : WorkerPhase) :
    (w.setWorker i x).pushReady accepted t =
      { w with worker := Function.update w.worker i x
               ready := ((w.setWorker i x).pushReady accepted t).ready } := by
  cases accepted <;> rfl

lemma Placed.requeue (hw : w.Placed place) (accepted : Bool) (hi : w.worker i = .yielded t) :
    Placed ((w.setWorker i .idle).pushReady accepted t)
      (Function.update place t (pushPlace accepted)) := by
  have hplace : place t = .worker i := (hw.task i t).mp (by rw [hi]; rfl)
  obtain ⟨-, hworker, hchild, hwaiting⟩ := pushPlace_ne accepted
  have hready := hw.ready_push (t := t) (r := ((w.setWorker i .idle).pushReady accepted t).ready)
    (by simp [hplace]) accepted (by cases accepted <;> rfl)
  rw [pushReady_setWorker]
  exact
    { nodup := hready.1
      ready := hready.2
      task := slots_leave hw.task worker_injective (by rw [hi]; rfl) rfl hworker
      child := slots_same hw.child (by rw [hi]; rfl) (by simp [hplace]) hchild
      waiting := hw.waiting_move (by simp [hplace]) hwaiting
      finished := hw.finished_move (by simp [hplace])
      unborn := hw.unborn_move le_rfl (hw.lt_created (by simp [hplace]))
      waiters := hw.waiters_move (by simp [hplace]) hwaiting }

lemma Placed.pushChild (hw : w.Placed place) (accepted : Bool)
    (hi : w.worker i = .registered (some t)) :
    Placed ((w.setWorker i .idle).pushReady accepted t)
      (Function.update place t (pushPlace accepted)) := by
  have hplace : place t = .child i := (hw.child i t).mp (by rw [hi]; rfl)
  obtain ⟨-, hworker, hchild, hwaiting⟩ := pushPlace_ne accepted
  have hready := hw.ready_push (t := t) (r := ((w.setWorker i .idle).pushReady accepted t).ready)
    (by simp [hplace]) accepted (by cases accepted <;> rfl)
  rw [pushReady_setWorker]
  exact
    { nodup := hready.1
      ready := hready.2
      task := slots_same hw.task (by rw [hi]; rfl) (by simp [hplace]) hworker
      child := slots_leave hw.child child_injective (by rw [hi]; rfl) rfl hchild
      waiting := hw.waiting_move (by simp [hplace]) hwaiting
      finished := hw.finished_move (by simp [hplace])
      unborn := hw.unborn_move le_rfl (hw.lt_created (by simp [hplace]))
      waiters := hw.waiters_move (by simp [hplace]) hwaiting }

lemma tasksOn_register {τ τ' : Nat} {id : Int} {x : WorkerPhase} :
    ((w.setWorker i x).register t id τ).tasksOn τ' =
      w.tasksOn τ' ++ if τ' = τ then [t] else [] := by
  simp only [tasksOn, registrationsOn, PoolWorld.register, setWorker, List.filter_append,
    List.map_append]
  by_cases hτ : τ' = τ
  · simp [hτ]
  · simp [hτ, Ne.symm hτ]

lemma Placed.register (hw : w.Placed place) {τ : Nat} {id : Int} {c : Option Nat}
    (hi : w.worker i = .waitPushed t id τ c) :
    Placed ((w.setWorker i (.registered c)).register t id τ)
      (Function.update place t (.waiting τ)) := by
  have hplace : place t = .worker i := (hw.task i t).mp (by rw [hi]; rfl)
  have hnone : ∀ τ', w.waitingOn t ≠ some τ' := by
    intro τ' h
    have := (hw.waiting τ' t).mp h
    simp [hplace] at this
  constructor
  · exact hw.nodup
  · exact hw.ready.keep (by simp [hplace]) (by simp)
  · exact slots_leave hw.task worker_injective (by rw [hi]; rfl) rfl (by simp)
  · exact slots_same hw.child (by rw [hi]; rfl) (by simp [hplace]) (by simp)
  · intro τ'
    by_cases hτ : τ' = τ
    · subst hτ
      refine (hw.waiting τ').enter fun s => ?_
      by_cases hs : s = t
      · subst hs
        simp [PoolWorld.register]
      · simp [PoolWorld.register, setWorker, hs]
    · refine ((hw.waiting τ').keep (by simp [hplace]) (by simp [Ne.symm hτ])).congr fun s => ?_
      by_cases hs : s = t
      · subst hs
        simp [PoolWorld.register, Ne.symm hτ, hnone]
      · simp [PoolWorld.register, setWorker, hs]
  · exact hw.finished_move (by simp [hplace])
  · exact hw.unborn_move le_rfl (hw.lt_created (by simp [hplace]))
  · intro τ' hserved
    obtain ⟨hnodup, hat⟩ := hw.waiters τ' hserved
    have hmem : t ∉ w.tasksOn τ' := by
      intro h
      have := (hat t).mp h
      simp [hplace] at this
    rw [tasksOn_register]
    by_cases hτ : τ' = τ
    · subst hτ
      rw [if_pos rfl]
      refine ⟨?_, hat.enter fun s => by simp⟩
      rw [List.nodup_append]
      refine ⟨hnodup, List.nodup_singleton t, ?_⟩
      rintro a ha b hb rfl
      rw [List.mem_singleton.mp hb] at ha
      exact hmem ha
    · rw [if_neg hτ, List.append_nil]
      exact ⟨hnodup, hat.keep (by simp [hplace]) (by simp [Ne.symm hτ])⟩

/-- The tasks that a `notify` puts into the ready queue. -/
def woken (tried : List (Nat × Bool)) : List Nat := (tried.filter (·.2)).map (·.1)

lemma woken_sublist (tasks : List Nat) (accepted : List Bool) :
    (woken (withOutcomes tasks accepted)).Sublist tasks := by
  induction tasks generalizing accepted with
  | nil => exact List.Sublist.refl _
  | cons t ts ih =>
    simp only [woken, withOutcomes, List.filter_cons]
    split
    · exact (ih accepted.tail).cons_cons t
    · exact (ih accepted.tail).cons t

lemma afterNotify_eq (τ : Nat) (tried : List (Nat × Bool)) :
    w.afterNotify τ tried =
      { w with ready := w.ready ++ woken tried
               waitingOn := fun t => if t ∈ woken tried then none else w.waitingOn t
               served := if woken tried = [] then w.served else τ :: w.served } := rfl

lemma Placed.notify (hw : w.Placed place) {τ : Nat} (hserved : τ ∉ w.served)
    (accepted : List Bool) :
    Placed (w.afterNotify τ (withOutcomes (w.tasksOn τ) accepted))
      (relocate place (woken (withOutcomes (w.tasksOn τ) accepted)) .ready) := by
  obtain ⟨hnodup, hat⟩ := hw.waiters τ hserved
  have hsub := woken_sublist (w.tasksOn τ) accepted
  rw [afterNotify_eq]
  generalize woken (withOutcomes (w.tasksOn τ) accepted) = ts at hsub
  have hplace : ∀ s ∈ ts, place s = .waiting τ := fun s hs => (hat s).mp (hsub.subset hs)
  constructor
  · rw [List.nodup_append]
    refine ⟨hw.nodup, hnodup.sublist hsub, ?_⟩
    rintro a ha b hb rfl
    have := (hw.ready a).mp ha
    rw [hplace a hb] at this
    cases this
  · exact hw.ready.relocate_enter fun s => List.mem_append
  · exact fun i => (hw.task i).relocate_keep (fun s hs => by simp [hplace s hs]) (by simp)
  · exact fun i => (hw.child i).relocate_keep (fun s hs => by simp [hplace s hs]) (by simp)
  · refine fun τ' => (hw.waiting τ').relocate_leave (by simp) fun s => ?_
    by_cases hs : s ∈ ts <;> simp [hs]
  · intro s hs
    have hfin := hw.finished s hs
    rw [relocate_of_notMem (fun h => by simp [hplace s h] at hfin), hfin]
  · intro s hs
    have hun := hw.unborn s hs
    rw [relocate_of_notMem (fun h => by simp [hplace s h] at hun), hun]
  · intro τ' hτ'
    simp only at hτ'
    by_cases hnil : ts = []
    · rw [if_pos hnil] at hτ'
      obtain ⟨hnodup', hat'⟩ := hw.waiters τ' hτ'
      exact ⟨hnodup', hat'.relocate_keep (by simp [hnil]) (by simp)⟩
    · rw [if_neg hnil, List.mem_cons, not_or] at hτ'
      obtain ⟨hnodup', hat'⟩ := hw.waiters τ' hτ'.2
      refine ⟨hnodup', hat'.relocate_keep (fun s hs => ?_) (by simp)⟩
      simp [hplace s hs, Ne.symm hτ'.1]

lemma Placed.step {items : List (Option Nat)} {a : PoolStep} (hw : w.Placed place)
    (hreg : w.Registry items) (hok : w.NotifyOnce a) (hstep : w.step a = some w') :
    ∃ place', w'.Placed place' := by
  cases a with
  | go accepted =>
    cases hstep
    exact ⟨_, hw.go accepted⟩
  | pop i index =>
    simp only [PoolWorld.step] at hstep
    split at hstep
    case h_1 hidle ht =>
      cases hstep
      exact ⟨_, hw.pop hidle ht⟩
    · cases hstep
  | call i status =>
    simp only [PoolWorld.step] at hstep
    split at hstep
    case h_1 current hi =>
      cases hstep
      unfold callReturns
      split
      · exact ⟨_, hw.of_phase (by rw [hi]; rfl) (by rw [hi]; rfl) rfl rfl rfl rfl rfl rfl rfl⟩
      · exact ⟨_, hw.of_phase (by rw [hi]; rfl) (by rw [hi]; rfl) rfl rfl rfl rfl rfl rfl rfl⟩
      · exact ⟨_, hw.spawn hi⟩
      · exact ⟨_, hw.finish hi⟩
    · cases hstep
  | requeue i accepted =>
    simp only [PoolWorld.step] at hstep
    split at hstep
    case h_1 hi =>
      cases hstep
      exact ⟨_, hw.requeue accepted hi⟩
    · cases hstep
  | waitPush i =>
    simp only [PoolWorld.step] at hstep
    split at hstep
    case h_1 hi =>
      cases hstep
      exact ⟨_, hw.of_phase (by rw [hi]; rfl) (by rw [hi]; rfl) rfl rfl rfl rfl rfl rfl rfl⟩
    · cases hstep
  | register i =>
    simp only [PoolWorld.step] at hstep
    split at hstep
    case h_1 hi =>
      cases hstep
      exact ⟨_, hw.register hi⟩
    · cases hstep
  | pushChild i accepted =>
    simp only [PoolWorld.step] at hstep
    split at hstep
    case h_1 hi =>
      cases hstep
      exact ⟨_, hw.of_phase (by rw [hi]; rfl) (by rw [hi]; rfl) rfl rfl rfl rfl rfl rfl rfl⟩
    case h_2 hi =>
      cases hstep
      exact ⟨_, hw.pushChild accepted hi⟩
    · cases hstep
  | notify τ accepted =>
    rw [hreg.notify_eq] at hstep
    cases hstep
    exact ⟨_, hw.notify hok accepted⟩

/-! ## Whole runs -/

/-- Each task is at most once in the ready queue and the workers taken together, a finished
one in neither, and a `notify` that is still allowed re-enqueues each task waiting on its
trigger once and no other. -/
structure ScheduledOnce (w : PoolWorld) : Prop where
  ready_once : w.ready.Nodup
  worker_once : ∀ i j t, (w.worker i).task = some t → (w.worker j).task = some t → i = j
  apart : ∀ i t, (w.worker i).task = some t → t ∉ w.ready
  finished_gone : ∀ t ∈ w.finished, t ∉ w.ready ∧ ∀ i, (w.worker i).task ≠ some t
  notified_once : ∀ τ, τ ∉ w.served → ∃ w', w.step (.notify τ []) = some w' ∧
    ∀ t, w'.ready.count t = w.ready.count t + if w.waitingOn t = some τ then 1 else 0

lemma Placed.scheduledOnce {items : List (Option Nat)} (hw : w.Placed place)
    (hreg : w.Registry items) : w.ScheduledOnce where
  ready_once := hw.nodup
  worker_once := by
    intro i j t hi hj
    have hplace := (hw.task i t).mp hi
    rw [(hw.task j t).mp hj] at hplace
    exact (worker_injective hplace).symm
  apart := by
    intro i t hi hready
    have hplace := (hw.task i t).mp hi
    rw [(hw.ready t).mp hready] at hplace
    cases hplace
  finished_gone := by
    intro t ht
    have hplace := hw.finished t ht
    refine ⟨fun hready => ?_, fun i hi => ?_⟩
    · rw [(hw.ready t).mp hready] at hplace
      cases hplace
    · rw [(hw.task i t).mp hi] at hplace
      cases hplace
  notified_once := by
    intro τ hτ
    obtain ⟨hnodup, hat⟩ := hw.waiters τ hτ
    refine ⟨_, hreg.notify_eq τ [], fun t => ?_⟩
    have hmem : w.waitingOn t = some τ ↔ t ∈ w.tasksOn τ := (hw.waiting τ t).trans (hat t).symm
    simp only [afterNotify, woken_of_all_accepted, List.count_append, hmem]
    rw [hnodup.count]

/-- In every run in which a trigger is not notified again after it has woken a task, and
the wait table has room, no task is scheduled twice. -/
theorem tasks_scheduled_once (steps : List PoolStep) (w : PoolWorld)
    (hok : Along step (fun w a => w.WaitRoom a ∧ w.NotifyOnce a) init steps)
    (hrun : exec step init steps = some w) : w.ScheduledOnce := by
  have hinv : ∃ items place, w.Registry items ∧ w.Placed place := by
    refine exec_invariant (P := fun w : PoolWorld => ∃ items place, w.Registry items ∧ w.Placed place)
      ?_ ⟨[], _, registry_init, placed_init⟩ hok hrun
    rintro u a v ⟨items, place, hreg, hw⟩ hgood hstep
    obtain ⟨items', hreg'⟩ := hreg.step hgood.1 hstep
    obtain ⟨place', hw'⟩ := hw.step hreg hgood.2 hstep
    exact ⟨items', place', hreg', hw'⟩
  obtain ⟨items, place, hreg, hw⟩ := hinv
  exact hw.scheduledOnce hreg

/-- Two tasks wait on the trigger 0 and are woken; one of them ends. -/
theorem tasks_scheduled_once_woken :
    ∃ w, exec step init (suspendOne ++ suspendOne ++
        [.notify 0 [], .pop 0 0, .call 0 .kFinished]) = some w ∧
      w.ready = [1] ∧ w.finished = [0] ∧ w.ScheduledOnce :=
  ⟨_, rfl, rfl, rfl, tasks_scheduled_once (suspendOne ++ suspendOne ++
    [.notify 0 [], .pop 0 0, .call 0 .kFinished]) _ (by decide +kernel) rfl⟩

/-- A second `notify` of the trigger re-enqueues a task whose body has ended. -/
theorem tasks_not_scheduled_once_renotified :
    ¬∀ (steps : List PoolStep) (w : PoolWorld), exec step init steps = some w →
      w.ScheduledOnce := by
  intro h
  have hrun : ∃ w, exec step init (suspendOne ++
      [.notify 0 [], .pop 0 0, .call 0 .kFinished, .notify 0 []]) = some w ∧
      w.ready = [0] ∧ w.finished = [0] := ⟨_, rfl, rfl, rfl⟩
  obtain ⟨w, hrun, hready, hfinished⟩ := hrun
  have hgone := (h _ w hrun).finished_gone 0 (by simp [hfinished])
  exact hgone.1 (by simp [hready])

end PoolWorld

end CoplusLean
