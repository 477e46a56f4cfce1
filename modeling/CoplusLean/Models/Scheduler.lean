import CoplusLean.Models.FastQueue

/-!
# The scheduler: `ThreadPool`, triggers and `notify`

Tasks and triggers are numbers. The ready queue `tasks` is the list of what it holds; its
`pop_hard` may return any element and each `push_hard` may be refused, so both outcomes
are part of the labels. The three copies of the worker loop are one machine: a worker goes
through the phases below, and the body of the task it runs decides what `call()` returns.
-/

namespace CoplusLean

/-- What `call()` returns, with the trigger and the task that an `await` leaves in
`FiberData`: `spawn` tells whether `wait_for_task` is set to a new task. -/
inductive CallStatus where
  | kReady
  | kWaiting (trigger : Nat) (spawn : Bool)
  | kFinished
deriving DecidableEq, Repr

/-- Where a worker stands in its loop. -/
inductive WorkerPhase where
  | idle
  | running (current : Nat)
  | yielded (current : Nat)
  | waiting (current trigger : Nat) (waitForTask : Option Nat)
  | waitPushed (current : Nat) (id : Int) (trigger : Nat) (waitForTask : Option Nat)
  | registered (waitForTask : Option Nat)
deriving DecidableEq, Repr

inductive PoolStep where
  | go (accepted : Bool)
  | pop (worker index : Nat)
  | call (worker : Nat) (status : CallStatus)
  | requeue (worker : Nat) (accepted : Bool)
  | waitPush (worker : Nat)
  | register (worker : Nat)
  | pushChild (worker : Nat) (accepted : Bool)
  | notify (trigger : Nat) (accepted : List Bool)
deriving DecidableEq, Repr

def kWaitQueueSize : Nat := 1000

/-- Tasks `0 .. created - 1` have been made. The last four fields are history variables:
the tasks whose body has ended, the trigger that a registered task waits on, the triggers
of which some `notify` re-enqueued a task, and every call of `Register` with its trigger,
its task and its id. -/
structure PoolWorld where
  ready : List Nat
  waitQueue : PushOnlyFastStack (Option Nat)
  waiters : Nat → List Int
  worker : Nat → WorkerPhase
  created : Nat
  finished : List Nat
  waitingOn : Nat → Option Nat
  served : List Nat
  registrations : List (Nat × Nat × Int)

namespace PoolWorld

def init : PoolWorld where
  ready := []
  waitQueue := .new 10 kWaitQueueSize
  waiters := fun _ => []
  worker := fun _ => .idle
  created := 0
  finished := []
  waitingOn := fun _ => none
  served := []
  registrations := []

/-- `push_hard` on the ready queue. -/
def pushReady (w : PoolWorld) (accepted : Bool) (task : Nat) : PoolWorld :=
  if accepted then { w with ready := w.ready ++ [task] } else w

def setWorker (w : PoolWorld) (worker : Nat) (phase : WorkerPhase) : PoolWorld :=
  { w with worker := Function.update w.worker worker phase }

/-- The return of `call()` for the task `current`. -/
def callReturns (w : PoolWorld) (worker current : Nat) : CallStatus → PoolWorld
  | .kReady => w.setWorker worker (.yielded current)
  | .kWaiting trigger false => w.setWorker worker (.waiting current trigger none)
  | .kWaiting trigger true =>
    { w.setWorker worker (.waiting current trigger (some w.created)) with
      created := w.created + 1 }
  | .kFinished => { w.setWorker worker .idle with finished := w.finished ++ [current] }

/-- `TriggerData::Register`. -/
def register (w : PoolWorld) (current : Nat) (id : Int) (trigger : Nat) : PoolWorld :=
  { w with waiters := Function.update w.waiters trigger (w.waiters trigger ++ [id])
           waitingOn := Function.update w.waitingOn current (some trigger)
           registrations := w.registrations ++ [(trigger, current, id)] }

/-- The loop of `notify`: the tasks it pushes, each with the outcome of its `push_hard`
(accepted where the list of outcomes has ended). It stops at the first id that
`wait_queue.get` rejects. -/
def notifyLoop (waitQueue : PushOnlyFastStack (Option Nat)) :
    List Int → List Bool → Option (List (Nat × Bool))
  | [], _ => some []
  | id :: ids, accepted =>
    match waitQueue.get id with
    | .fail => some []
    | .found (some task) =>
      (notifyLoop waitQueue ids accepted.tail).map ((task, accepted.headD true) :: ·)
    | .found none => none
    | .outOfBounds => none

/-- What remains of `notify` when its loop has tried to push `tried`. -/
def afterNotify (w : PoolWorld) (trigger : Nat) (tried : List (Nat × Bool)) : PoolWorld :=
  let woken := (tried.filter (·.2)).map (·.1)
  { w with ready := w.ready ++ woken
           waitingOn := fun t => if t ∈ woken then none else w.waitingOn t
           served := if woken = [] then w.served else trigger :: w.served }

def step (w : PoolWorld) : PoolStep → Option PoolWorld
  | .go accepted =>
    some { w.pushReady accepted w.created with created := w.created + 1 }
  | .pop worker index =>
    match w.worker worker, w.ready[index]? with
    | .idle, some task =>
      some { w.setWorker worker (.running task) with ready := w.ready.eraseIdx index }
    | _, _ => none
  | .call worker status =>
    match w.worker worker with
    | .running current => some (w.callReturns worker current status)
    | _ => none
  | .requeue worker accepted =>
    match w.worker worker with
    | .yielded current => some ((w.setWorker worker .idle).pushReady accepted current)
    | _ => none
  | .waitPush worker =>
    match w.worker worker with
    | .waiting current trigger waitForTask =>
      let pushed := w.waitQueue.push (some current)
      some { w.setWorker worker (.waitPushed current pushed.1 trigger waitForTask) with
        waitQueue := pushed.2 }
    | _ => none
  | .register worker =>
    match w.worker worker with
    | .waitPushed current id trigger waitForTask =>
      some ((w.setWorker worker (.registered waitForTask)).register current id trigger)
    | _ => none
  | .pushChild worker accepted =>
    match w.worker worker with
    | .registered none => some (w.setWorker worker .idle)
    | .registered (some child) => some ((w.setWorker worker .idle).pushReady accepted child)
    | _ => none
  | .notify trigger accepted =>
    (notifyLoop w.waitQueue (w.waiters trigger) accepted).map (w.afterNotify trigger)

end PoolWorld

end CoplusLean
