import Mathlib.Logic.Function.Basic

/-!
# Fibers: `ToFiber`, `FiberTask`, `yield` and `await`

A worker is a thread that executes one fiber at a time: its own scheduler fiber, which was
made of the thread by `InitEnv`, or the fiber of a task. `SwitchToFiber` makes another fiber
the current one, and that fiber goes on where it last gave up control. What a fiber does
between two switches only touches the thread-local `FiberData` of the worker that executes
it and the task object, so it is one step.
-/

namespace CoplusLean

inductive TaskStatus where
  | kUnknown
  | kFinished
  | kReady
  | kWaiting
deriving DecidableEq, Repr

/-- A `RawFiber`. -/
inductive Fiber where
  | nilFiber
  | scheduler (worker : Nat)
  | task (task : Nat)
deriving DecidableEq, Repr

/-- The thread-local variables of a worker. -/
structure FiberData where
  publicStatus : TaskStatus
  callerFiber : Fiber
  waitForTask : Option Nat
  trigger : Option Nat
deriving DecidableEq, Repr

/-- Where the fiber of a task goes on when control reaches it: at the start of `_co_proxy`,
after the `ToFiber()` of `yield` or of an `await`, or after the one of `_co_proxy`. It is in
`body` while it executes. -/
inductive Spot where
  | start
  | body
  | inYield
  | inAwait (trigger : Nat)
  | ended
deriving DecidableEq, Repr

/-- Where a scheduler fiber goes on: in the loop of the worker, or after the `ToFiber` of the
`call()` of that number on a task. -/
inductive SchedulerSpot where
  | loop
  | inCall (task serial : Nat)
deriving DecidableEq, Repr

/-- `lastCall` is the number of the `call()` that last resumed the task, and `called` tells
that it has not returned yet. -/
structure FiberTask where
  status : TaskStatus
  retRoutine : Fiber
  workRoutine : Fiber
  spot : Spot
  lastCall : Option Nat
  called : Bool
deriving DecidableEq, Repr

/-- `returned` is what the last `call()` on a worker returned, with its task; `calls` counts
the calls of `call()` made so far. -/
structure FiberWorld where
  current : Nat → Fiber
  data : Nat → FiberData
  place : Nat → SchedulerSpot
  task : Nat → FiberTask
  returned : Nat → Option (Nat × TaskStatus)
  calls : Nat

inductive FiberStep where
  | call (worker task : Nat)
  | enter (worker : Nat)
  | yield (worker : Nat)
  | awaitTrigger (worker trigger : Nat)
  | awaitSeconds (worker trigger : Nat)
  | awaitFunction (worker trigger child : Nat)
  | bodyReturn (worker : Nat)
  | callReturn (worker : Nat)
deriving DecidableEq, Repr

namespace FiberWorld

def init : FiberWorld where
  current := .scheduler
  data := fun _ => ⟨.kUnknown, .nilFiber, none, none⟩
  place := fun _ => .loop
  task := fun _ => ⟨.kUnknown, .nilFiber, .nilFiber, .start, none, false⟩
  returned := fun _ => none
  calls := 0

def setData (w : FiberWorld) (worker : Nat) (data : FiberData) : FiberWorld :=
  { w with data := Function.update w.data worker data }

def setTask (w : FiberWorld) (t : Nat) (task : FiberTask) : FiberWorld :=
  { w with task := Function.update w.task t task }

def setSpot (w : FiberWorld) (t : Nat) (spot : Spot) : FiberWorld :=
  w.setTask t { w.task t with spot := spot }

def switchToFiber (w : FiberWorld) (worker : Nat) (f : Fiber) : FiberWorld :=
  { w with current := Function.update w.current worker f }

def toFiber (w : FiberWorld) (worker : Nat) (f : Fiber) : FiberWorld :=
  let temp := (w.data worker).callerFiber
  let w := w.setData worker { w.data worker with callerFiber := w.current worker }
  if f = .nilFiber then w.switchToFiber worker temp else w.switchToFiber worker f

/-- `FiberTask::call` up to the switch. -/
def call (w : FiberWorld) (worker t : Nat) : FiberWorld :=
  let task := w.task t
  let workRoutine := if task.workRoutine = .nilFiber then .task t else task.workRoutine
  let w := w.setTask t { task with
    status := .kReady
    retRoutine := w.current worker
    workRoutine := workRoutine
    lastCall := some w.calls
    called := true }
  let w := w.setData worker { w.data worker with publicStatus := .kReady }
  toFiber { w with place := Function.update w.place worker (.inCall t w.calls)
                   returned := Function.update w.returned worker none
                   calls := w.calls + 1 } worker workRoutine

/-- `FiberTask::call` after the switch. -/
def callReturn (w : FiberWorld) (worker scheduler t : Nat) : FiberWorld :=
  let status := (w.data worker).publicStatus
  let w := w.setTask t { w.task t with status := status, called := false }
  { w with place := Function.update w.place scheduler .loop
           returned := Function.update w.returned worker (some (t, status)) }

/-- The fiber goes on in its body; `yield` and the `await` functions set the status first. -/
def enter (w : FiberWorld) (worker t : Nat) : FiberWorld :=
  match (w.task t).spot with
  | .start => w.setSpot t .body
  | _ => (w.setData worker { w.data worker with publicStatus := .kReady }).setSpot t .body

def yield (w : FiberWorld) (worker t : Nat) : FiberWorld :=
  (w.setSpot t .inYield).toFiber worker .nilFiber

/-- The common part of the `await` functions. -/
def await (w : FiberWorld) (worker t trigger : Nat) (waitForTask : Option Nat) : FiberWorld :=
  let w := w.setData worker { w.data worker with
    trigger := some trigger
    publicStatus := .kWaiting
    waitForTask := waitForTask }
  (w.setSpot t (.inAwait trigger)).toFiber worker .nilFiber

def awaitTrigger (w : FiberWorld) (worker t trigger : Nat) : FiberWorld :=
  w.await worker t trigger none

def awaitSeconds (w : FiberWorld) (worker t trigger : Nat) : FiberWorld :=
  w.await worker t trigger none

def awaitFunction (w : FiberWorld) (worker t trigger child : Nat) : FiberWorld :=
  w.await worker t trigger (some child)

/-- The end of `raw_call` and of `_co_proxy`. -/
def bodyReturn (w : FiberWorld) (worker t : Nat) : FiberWorld :=
  let w := w.setData worker { w.data worker with publicStatus := .kFinished }
  (w.setSpot t .ended).toFiber worker .nilFiber

/-- A step that the body of the task executed by `worker` makes. -/
def inBody (w : FiberWorld) (worker : Nat) (f : Nat → FiberWorld) : Option FiberWorld :=
  match w.current worker with
  | .task t => if (w.task t).spot = .body then some (f t) else none
  | _ => none

def step (w : FiberWorld) : FiberStep → Option FiberWorld
  | .call worker t =>
    match w.current worker with
    | .scheduler s =>
      -- a task is not called while it is running or after it has finished
      if w.place s = .loop ∧ (w.task t).called = false ∧ (w.task t).spot ≠ .ended then
        some (w.call worker t)
      else none
    | _ => none
  | .enter worker =>
    match w.current worker with
    | .task t =>
      match (w.task t).spot with
      | .body => none
      -- a fiber whose function returns is undefined
      | .ended => none
      | _ => some (w.enter worker t)
    | _ => none
  | .yield worker => w.inBody worker (w.yield worker)
  | .awaitTrigger worker trigger => w.inBody worker (w.awaitTrigger worker · trigger)
  | .awaitSeconds worker trigger => w.inBody worker (w.awaitSeconds worker · trigger)
  | .awaitFunction worker trigger child => w.inBody worker (w.awaitFunction worker · trigger child)
  | .bodyReturn worker => w.inBody worker (w.bodyReturn worker)
  | .callReturn worker =>
    match w.current worker with
    | .scheduler s =>
      match w.place s with
      | .inCall t _ => some (w.callReturn worker s t)
      | .loop => none
    | _ => none

end FiberWorld

end CoplusLean
