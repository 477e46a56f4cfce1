import CoplusLean.Models.Scheduler

/-!
# `ThreadPool` with the `FastQueue` of its tasks

The model of the scheduler takes the ready queue for a list whose `push_hard` and `pop_hard` may
do anything that such a queue can do. Here `tasks` is the `FastQueue` of the source, a call of
which is one step, and whether a push is accepted and which task is popped is up to it. All else is
a `PoolWorld`, whose own list of ready tasks is not used.
-/

namespace CoplusLean

/-- The outcome `middle` of `corand` in `pop_hard` is all that is left open. -/
inductive QueuedPoolStep where
  | go
  | pop (worker middle : Nat)
  | call (worker : Nat) (status : CallStatus)
  | requeue (worker : Nat)
  | waitPush (worker : Nat)
  | register (worker : Nat)
  | pushChild (worker : Nat)
  | notify (trigger : Nat)
deriving DecidableEq, Repr

/-- An element of `tasks` is a pointer to a task, null for an element that was not written. -/
structure QueuedPool where
  tasks : FastQueue (Option Nat)
  pool : PoolWorld

namespace QueuedPool

def init : QueuedPool := ⟨.new, .init⟩

/-- `push_hard` through a handle of its own, which is destroyed behind it. -/
def pushTask (tasks : FastQueue (Option Nat)) (task : Nat) : Bool × FastQueue (Option Nat) :=
  let (tasks, handle) := tasks.newHandle
  let (status, tasks, handle) := tasks.pushHard handle (some task)
  (status, tasks.deleteHandle handle)

/-- The loop of `notify`: the tasks that it pushes through its handle, each with the result of its
`push_hard`. It stops at the first id that `wait_queue.get` rejects. -/
def notifyLoop (waitQueue : PushOnlyFastStack (Option Nat)) :
    List Int → FastQueue (Option Nat) × ProducerHandle →
      Option (List (Nat × Bool) × FastQueue (Option Nat) × ProducerHandle)
  | [], s => some ([], s)
  | id :: ids, s =>
    match waitQueue.get id with
    | .fail => some ([], s)
    | .found (some task) =>
      let (status, s) := s.1.pushHard s.2 (some task)
      (notifyLoop waitQueue ids s).map fun (tried, s) => ((task, status) :: tried, s)
    | .found none => none
    | .outOfBounds => none

def step (c : QueuedPool) : QueuedPoolStep → Option QueuedPool
  | .go =>
    let task := c.pool.created
    some ⟨(pushTask c.tasks task).2, { c.pool with created := task + 1 }⟩
  | .pop worker middle =>
    match c.pool.worker worker with
    | .idle =>
      if QueueWorld.UIntOutcome c.tasks.queueList.size middle then
        match c.tasks.popHard middle with
        | some (none, tasks) => some { c with tasks := tasks }
        | some (some (some task), tasks) => some ⟨tasks, c.pool.setWorker worker (.running task)⟩
        | some (some none, _) => none
        | none => none
      else none
    | _ => none
  | .call worker status =>
    (c.pool.step (.call worker status)).map fun pool => { c with pool := pool }
  | .requeue worker =>
    match c.pool.worker worker with
    | .yielded current => some ⟨(pushTask c.tasks current).2, c.pool.setWorker worker .idle⟩
    | _ => none
  | .waitPush worker => (c.pool.step (.waitPush worker)).map fun pool => { c with pool := pool }
  | .register worker => (c.pool.step (.register worker)).map fun pool => { c with pool := pool }
  | .pushChild worker =>
    match c.pool.worker worker with
    | .registered none => some { c with pool := c.pool.setWorker worker .idle }
    | .registered (some child) =>
      some ⟨(pushTask c.tasks child).2, c.pool.setWorker worker .idle⟩
    | _ => none
  | .notify trigger =>
    let made := c.tasks.newHandle
    (notifyLoop c.pool.waitQueue (c.pool.waiters trigger) made).map fun (tried, tasks, handle) =>
      ⟨tasks.deleteHandle handle, { c.pool.afterNotify trigger tried with ready := c.pool.ready }⟩

end QueuedPool

end CoplusLean
