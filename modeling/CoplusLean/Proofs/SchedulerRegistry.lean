import CoplusLean.Lib.Run
import CoplusLean.Models.Scheduler
import CoplusLean.Proofs.FastStack

/-!
# The wait table of the scheduler

As long as `wait_queue` has room, the id under which a waiting task is registered leads
back to that task in every later state, and `notify` reaches all tasks registered on its
trigger in the order of their registration. `wait_queue` is append-only: the task that
waits after `kWaitQueueSize` suspensions is registered under the id `-1`.
-/

namespace CoplusLean.PoolWorld

open Lib

variable {w w' : PoolWorld} {items : List (Option Nat)}

def registrationsOn (w : PoolWorld) (trigger : Nat) : List (Nat × Nat × Int) :=
  w.registrations.filter (·.1 = trigger)

/-- The tasks registered on a trigger, in the order of registration. -/
def tasksOn (w : PoolWorld) (trigger : Nat) : List Nat :=
  (w.registrationsOn trigger).map (·.2.1)

/-- The condition on a step: `wait_queue` has room for the task that is pushed to it. -/
def WaitRoom (w : PoolWorld) : PoolStep → Prop
  | .waitPush _ => w.waitQueue.pushCount < kWaitQueueSize
  | _ => True

instance (w : PoolWorld) : DecidablePred w.WaitRoom
  | .waitPush _ => inferInstanceAs (Decidable (_ < _))
  | .go _ | .pop _ _ | .call _ _ | .requeue _ _ | .register _ | .pushChild _ _
  | .notify _ _ => isTrue trivial

def Resolves (items : List (Option Nat)) (id : Int) (task : Nat) : Prop :=
  ∃ k : Nat, id = k ∧ items[k]? = some (some task)

/-- `wait_queue` holds `items`, and every id given out leads to its task there. -/
structure Registry (w : PoolWorld) (items : List (Option Nat)) : Prop where
  holds : w.waitQueue.Holds items
  maxSize : w.waitQueue.maxSize = kWaitQueueSize
  pushed : ∀ i t id τ c, w.worker i = .waitPushed t id τ c → Resolves items id t
  registered : ∀ x ∈ w.registrations, Resolves items x.2.2 x.2.1
  waiters : ∀ τ, w.waiters τ = (w.registrationsOn τ).map (·.2.2)

lemma registry_init : init.Registry [] where
  holds := PushOnlyFastStack.holds_new 10 kWaitQueueSize (by decide)
  maxSize := rfl
  pushed := by simp [init]
  registered := by simp [init]
  waiters := by simp [init, registrationsOn]

lemma Resolves.mono {id : Int} {task : Nat} (h : Resolves items id task) (x : Option Nat) :
    Resolves (items ++ [x]) id task := by
  obtain ⟨k, hid, hk⟩ := h
  refine ⟨k, hid, ?_⟩
  rw [List.getElem?_append_left (List.getElem?_eq_some_iff.mp hk).1, hk]

lemma Registry.get_eq (hw : w.Registry items) {id : Int} {task : Nat}
    (h : Resolves items id task) : w.waitQueue.get id = .found (some task) := by
  obtain ⟨k, rfl, hk⟩ := h
  exact PushOnlyFastStack.get_of_lt hw.holds (by rw [hw.maxSize]; decide) hk

/-- A step that neither pushes to the table nor registers keeps the registry, whatever
phase its worker goes to. -/
lemma Registry.of_same (hw : w.Registry items) (hqueue : w'.waitQueue = w.waitQueue)
    (hwaiters : w'.waiters = w.waiters) (hregs : w'.registrations = w.registrations)
    (hworker : ∀ i t id τ c, w'.worker i = .waitPushed t id τ c →
      w.worker i = .waitPushed t id τ c) : w'.Registry items where
  holds := by rw [hqueue]; exact hw.holds
  maxSize := by rw [hqueue]; exact hw.maxSize
  pushed i t id τ c h := hw.pushed i t id τ c (hworker i t id τ c h)
  registered := by rw [hregs]; exact hw.registered
  waiters τ := by rw [hwaiters, hw.waiters, registrationsOn, registrationsOn, hregs]

lemma worker_of_update {i j : Nat} {x y : WorkerPhase} {f : Nat → WorkerPhase}
    (h : Function.update f i x j = y) (hx : x ≠ y) : f j = y := by
  by_cases hj : j = i
  · subst hj
    rw [Function.update_self] at h
    exact absurd h hx
  · rwa [Function.update_of_ne hj] at h

@[simp] lemma pushReady_waitQueue (accepted : Bool) (t : Nat) :
    (w.pushReady accepted t).waitQueue = w.waitQueue := by
  unfold pushReady
  split <;> rfl

@[simp] lemma pushReady_waiters (accepted : Bool) (t : Nat) :
    (w.pushReady accepted t).waiters = w.waiters := by
  unfold pushReady
  split <;> rfl

@[simp] lemma pushReady_registrations (accepted : Bool) (t : Nat) :
    (w.pushReady accepted t).registrations = w.registrations := by
  unfold pushReady
  split <;> rfl

@[simp] lemma pushReady_worker (accepted : Bool) (t : Nat) :
    (w.pushReady accepted t).worker = w.worker := by
  unfold pushReady
  split <;> rfl

lemma Registry.waitPush (hw : w.Registry items) {i current τ : Nat} {c : Option Nat}
    (hroom : w.waitQueue.pushCount < kWaitQueueSize) :
    Registry { w.setWorker i (.waitPushed current (w.waitQueue.push (some current)).1 τ c) with
      waitQueue := (w.waitQueue.push (some current)).2 } (items ++ [some current]) := by
  have hmax : w.waitQueue.maxSize < 2147483648 := by rw [hw.maxSize]; decide
  have hroom' : w.waitQueue.pushCount < w.waitQueue.maxSize := by rw [hw.maxSize]; exact hroom
  obtain ⟨hid, -, hsize, -, hholds⟩ :=
    PushOnlyFastStack.push_of_room hw.holds hmax hroom' (some current)
  have hlen : items.length = w.waitQueue.pushCount := by
    rw [hw.holds.count]
    omega
  exact
    { holds := hholds
      maxSize := hsize.trans hw.maxSize
      pushed := by
        intro j t id τ' c' hj
        simp only [setWorker] at hj
        by_cases hji : j = i
        · subst hji
          rw [Function.update_self, WorkerPhase.waitPushed.injEq] at hj
          obtain ⟨rfl, rfl, rfl, rfl⟩ := hj
          exact ⟨w.waitQueue.pushCount, hid, by rw [← hlen]; simp⟩
        · rw [Function.update_of_ne hji] at hj
          exact (hw.pushed j t id τ' c' hj).mono _
      registered := fun x hx => (hw.registered x hx).mono _
      waiters := hw.waiters }

lemma Registry.register (hw : w.Registry items) {i current τ : Nat} {id : Int} {c : Option Nat}
    (hi : w.worker i = .waitPushed current id τ c) :
    Registry ((w.setWorker i (.registered c)).register current id τ) items where
  holds := hw.holds
  maxSize := hw.maxSize
  pushed j t id' τ' c' hj := hw.pushed j t id' τ' c' (worker_of_update hj (by simp))
  registered := by
    intro x hx
    rcases List.mem_append.mp hx with hx | hx
    · exact hw.registered x hx
    · rw [List.mem_singleton.mp hx]
      exact hw.pushed i current id τ c hi
  waiters := by
    intro τ'
    simp only [PoolWorld.register, setWorker, registrationsOn, List.filter_append, List.map_append]
    by_cases hτ : τ' = τ
    · subst hτ
      simp [hw.waiters τ', registrationsOn]
    · simp [Function.update_of_ne hτ, Ne.symm hτ, hw.waiters τ', registrationsOn]

lemma Registry.step {a : PoolStep} (hw : w.Registry items) (hok : w.WaitRoom a)
    (hstep : w.step a = some w') : ∃ items', w'.Registry items' := by
  cases a with
  | go accepted =>
    cases hstep
    exact ⟨items, hw.of_same (by simp) (by simp) (by simp) (by simp)⟩
  | pop i index =>
    simp only [PoolWorld.step] at hstep
    split at hstep
    · cases hstep
      exact ⟨items, hw.of_same rfl rfl rfl fun _ _ _ _ _ h => worker_of_update h (by simp)⟩
    · cases hstep
  | call i status =>
    simp only [PoolWorld.step] at hstep
    split at hstep
    · cases hstep
      refine ⟨items, ?_⟩
      unfold callReturns
      split
      all_goals exact hw.of_same rfl rfl rfl fun _ _ _ _ _ h => worker_of_update h (by simp)
    · cases hstep
  | requeue i accepted =>
    simp only [PoolWorld.step] at hstep
    split at hstep
    · cases hstep
      refine ⟨items, hw.of_same (by simp [setWorker]) (by simp [setWorker]) (by simp [setWorker]) ?_⟩
      intro j t id τ c h
      rw [pushReady_worker] at h
      exact worker_of_update h (by simp)
    · cases hstep
  | waitPush i =>
    simp only [PoolWorld.step] at hstep
    split at hstep
    · cases hstep
      exact ⟨_, hw.waitPush hok⟩
    · cases hstep
  | register i =>
    simp only [PoolWorld.step] at hstep
    split at hstep
    case h_1 hi =>
      cases hstep
      exact ⟨items, hw.register hi⟩
    · cases hstep
  | pushChild i accepted =>
    simp only [PoolWorld.step] at hstep
    split at hstep
    · cases hstep
      exact ⟨items, hw.of_same rfl rfl rfl fun _ _ _ _ _ h => worker_of_update h (by simp)⟩
    · cases hstep
      refine ⟨items, hw.of_same (by simp [setWorker]) (by simp [setWorker]) (by simp [setWorker]) ?_⟩
      intro j t id τ c h
      rw [pushReady_worker] at h
      exact worker_of_update h (by simp)
    · cases hstep
  | notify τ accepted =>
    obtain ⟨tried, -, rfl⟩ := Option.map_eq_some_iff.mp hstep
    exact ⟨items, hw.of_same rfl rfl rfl fun _ _ _ _ _ h => h⟩

/-! ## What `notify` reaches -/

/-- Tasks paired with the outcomes of their pushes, accepted where the outcomes end. -/
def withOutcomes : List Nat → List Bool → List (Nat × Bool)
  | [], _ => []
  | t :: ts, accepted => (t, accepted.headD true) :: withOutcomes ts accepted.tail

lemma woken_of_all_accepted (tasks : List Nat) :
    ((withOutcomes tasks []).filter (·.2)).map (·.1) = tasks := by
  induction tasks with
  | nil => rfl
  | cons t ts ih => simpa [withOutcomes] using ih

lemma notifyLoop_of_resolves {q : PushOnlyFastStack (Option Nat)}
    (regs : List (Nat × Nat × Int)) (accepted : List Bool)
    (h : ∀ x ∈ regs, q.get x.2.2 = .found (some x.2.1)) :
    notifyLoop q (regs.map (·.2.2)) accepted =
      some (withOutcomes (regs.map (·.2.1)) accepted) := by
  induction regs generalizing accepted with
  | nil => rfl
  | cons x xs ih =>
    have hx := h x List.mem_cons_self
    have hxs := ih accepted.tail fun y hy => h y (List.mem_cons_of_mem x hy)
    simp only [List.map_cons, notifyLoop, hx, hxs, withOutcomes, Option.map_some]

lemma Registry.resolved (hw : w.Registry items) :
    ∀ x ∈ w.registrations, w.waitQueue.get x.2.2 = .found (some x.2.1) :=
  fun x hx => hw.get_eq (hw.registered x hx)

/-- With the table intact `notify` tries exactly the tasks registered on its trigger. -/
lemma Registry.notify_eq (hw : w.Registry items) (τ : Nat) (accepted : List Bool) :
    w.step (.notify τ accepted) =
      some (w.afterNotify τ (withOutcomes (w.tasksOn τ) accepted)) := by
  have hloop := notifyLoop_of_resolves (w.registrationsOn τ) accepted
    fun x hx => hw.resolved x (List.mem_filter.mp hx).1
  rw [PoolWorld.step, hw.waiters, hloop, Option.map_some, tasksOn]

lemma registry_of_run {steps : List PoolStep} (hok : Along step WaitRoom init steps)
    (hrun : exec step init steps = some w) : ∃ items, w.Registry items :=
  exec_invariant (P := fun w : PoolWorld => ∃ items, w.Registry items)
    (fun _ _ _ ⟨_, hw⟩ hc hs => hw.step hc hs) ⟨[], registry_init⟩ hok hrun

/-- The ids registered so far lead to their tasks, and a `notify` whose pushes are accepted
re-enqueues every task registered on its trigger. -/
def ReachesWaiters (w : PoolWorld) : Prop :=
  (∀ x ∈ w.registrations, w.waitQueue.get x.2.2 = .found (some x.2.1)) ∧
    ∀ τ, ∃ w', w.step (.notify τ []) = some w' ∧ w'.ready = w.ready ++ w.tasksOn τ

/-- In every run in which the table has room at each suspension, every registered id leads
to its task from then on. -/
theorem registered_tasks_reached (steps : List PoolStep) (w : PoolWorld)
    (hok : Along step WaitRoom init steps) (hrun : exec step init steps = some w) :
    w.ReachesWaiters := by
  obtain ⟨items, hw⟩ := registry_of_run hok hrun
  refine ⟨hw.resolved, fun τ => ⟨_, hw.notify_eq τ [], ?_⟩⟩
  simp only [afterNotify, woken_of_all_accepted]

/-- A new task is made, runs on the worker 0 and waits on the trigger 0. -/
def suspendOne : List PoolStep :=
  [.go true, .pop 0 0, .call 0 (.kWaiting 0 false), .waitPush 0, .register 0, .pushChild 0 true]

theorem registered_tasks_reached_two :
    ∃ w, exec step init (suspendOne ++ suspendOne) = some w ∧ w.tasksOn 0 = [0, 1] ∧
      w.ReachesWaiters :=
  ⟨_, rfl, rfl, registered_tasks_reached (suspendOne ++ suspendOne) _ (by decide +kernel) rfl⟩

/-- One more suspension from a state where the worker 0 and the ready queue are free. -/
lemma exec_suspendOne (hidle : w.worker 0 = .idle) (hready : w.ready = []) :
    ∃ w', exec step w suspendOne = some w' ∧ w'.worker 0 = .idle ∧ w'.ready = [] ∧
      w'.waitQueue = (w.waitQueue.push (some w.created)).2 ∧
      w'.registrations =
        w.registrations ++ [(0, w.created, (w.waitQueue.push (some w.created)).1)] := by
  simp [suspendOne, PoolWorld.step, pushReady, hidle, hready, setWorker, callReturns,
    PoolWorld.register]

/-- After `n` suspensions within the capacity the table has taken `n` pushes. -/
lemma exec_suspensions (n : Nat) (hn : n ≤ kWaitQueueSize) :
    ∃ w items, exec step init (List.replicate n suspendOne).flatten = some w ∧
      w.worker 0 = .idle ∧ w.ready = [] ∧ w.waitQueue.pushCount = n ∧
      w.waitQueue.maxSize = kWaitQueueSize ∧ w.waitQueue.Holds items := by
  induction n with
  | zero => exact ⟨init, [], rfl, rfl, rfl, rfl, rfl, registry_init.holds⟩
  | succ n ih =>
    obtain ⟨w, items, hrun, hidle, hready, hcount, hsize, hholds⟩ := ih (by omega)
    obtain ⟨w', hrun', hidle', hready', hqueue, -⟩ := exec_suspendOne hidle hready
    have hpush := PushOnlyFastStack.push_of_room hholds (by rw [hsize]; decide)
      (by rw [hcount, hsize]; omega) (some w.created)
    refine ⟨w', items ++ [some w.created], ?_, hidle', hready', ?_, ?_, ?_⟩
    · rw [List.replicate_succ', List.flatten_append, exec_append, hrun]
      simpa using hrun'
    · rw [hqueue, hpush.2.1, hcount]
    · rw [hqueue, hpush.2.2.1, hsize]
    · rw [hqueue]
      exact hpush.2.2.2.2

/-- The suspension after `kWaitQueueSize` others is registered under an id that leads to
no task. -/
theorem registered_tasks_not_reached_full :
    ¬∀ (steps : List PoolStep) (w : PoolWorld), exec step init steps = some w →
      w.ReachesWaiters := by
  intro h
  obtain ⟨w, items, hrun, hidle, hready, hcount, hsize, hholds⟩ :=
    exec_suspensions kWaitQueueSize le_rfl
  obtain ⟨w', hrun', -, -, hqueue, hregs⟩ := exec_suspendOne hidle hready
  have hpush := PushOnlyFastStack.push_of_full hholds (by rw [hsize, hcount])
    (by rw [hsize]; decide) (by rw [hcount]; decide) (some w.created)
  have hall : exec step init ((List.replicate kWaitQueueSize suspendOne).flatten ++ suspendOne) =
      some w' := by
    rw [exec_append, hrun]
    exact hrun'
  have hget := (h _ w' hall).1 (0, w.created, -1) (by rw [hregs, hpush.1]; simp)
  have hfail : w'.waitQueue.get (-1) = .fail := by
    have hmax : w'.waitQueue.maxSize = kWaitQueueSize := by rw [hqueue, hpush.1, hsize]
    rw [PushOnlyFastStack.get, hmax]
    exact if_pos (by decide)
  rw [hfail] at hget
  cases hget

end CoplusLean.PoolWorld
