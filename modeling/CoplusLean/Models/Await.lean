import CoplusLean.Models.Scheduler

/-!
# `await` on the scheduler

The worker loop of `PoolWorld` together with what the bodies of the tasks do: `yield`, the
three kinds of `await`, `notify`, and the steps of a task made by `await(func)`, whose body
runs `func`, notifies the trigger of its parent and, when `func` returns a value, stores the
result in the future by returning from the packaged function. A timer callback may run at
any time after `CreateTimerQueueTimer`. To resume a fiber that is being executed or has
ended is undefined, so such a step does not exist.
-/

namespace CoplusLean

/-- What a trigger was made for: by user code, by `await(func)` for the task `child`, or by
`await(seconds)` of the task `task`. -/
inductive TriggerUse where
  | user
  | child (child : Nat)
  | timer (task : Nat)
deriving DecidableEq, Repr

/-- Where the fiber of a task stands; `arming` is between the two halves of
`await(seconds)`. -/
inductive TaskSpot where
  | start
  | body
  | arming (trigger : Nat)
  | inYield
  | inTrigger (trigger : Nat)
  | inFunction (child : Nat)
  | inTimer (trigger : Nat)
  | ended
deriving DecidableEq, Repr

/-- The data captured by the function of a task made by `await(func)`; `returning` tells that
`func` has a result. -/
structure Job where
  trigger : Nat
  parent : Nat
  returning : Bool
deriving DecidableEq, Repr

/-- How far the function of such a task has come. -/
inductive JobStage where
  | func
  | funcDone
  | notified
  | published
deriving DecidableEq, Repr

/-- `fired` lists the timers whose callback has run, `wakes` every task that a `notify` has
put into the ready queue with its trigger, and `resumedFrom` where a task was suspended before
it was last resumed. -/
structure AwaitWorld where
  pool : PoolWorld
  triggers : Nat
  use : Nat → TriggerUse
  job : Nat → Option Job
  stage : Nat → JobStage
  spot : Nat → TaskSpot
  resumedFrom : Nat → TaskSpot
  fired : List Nat
  wakes : List (Nat × Nat)

inductive AwaitStep where
  | newTrigger
  | go (accepted : Bool)
  | pop (worker index : Nat)
  | yield (worker : Nat)
  | awaitTrigger (worker trigger : Nat)
  | awaitFunction (worker : Nat) (returning : Bool)
  | armTimer (worker : Nat)
  | suspendTimer (worker : Nat)
  | funcReturn (worker : Nat)
  | childNotify (worker : Nat) (accepted : List Bool)
  | publish (worker : Nat)
  | bodyReturn (worker : Nat)
  | requeue (worker : Nat) (accepted : Bool)
  | waitPush (worker : Nat)
  | register (worker : Nat)
  | pushChild (worker : Nat) (accepted : Bool)
  | notify (trigger : Nat) (accepted : List Bool)
  | timerCallback (trigger : Nat) (accepted : List Bool)
deriving DecidableEq, Repr

namespace AwaitWorld

def init : AwaitWorld where
  pool := .init
  triggers := 0
  use := fun _ => .user
  job := fun _ => none
  stage := fun _ => .func
  spot := fun _ => .start
  resumedFrom := fun _ => .start
  fired := []
  wakes := []

/-- A step of the worker loop or of `go`. -/
def onPool (w : AwaitWorld) (a : PoolStep) : Option AwaitWorld :=
  (w.pool.step a).map fun pool => { w with pool := pool }

/-- The task whose body `worker` executes. -/
def body (w : AwaitWorld) (worker : Nat) : Option Nat :=
  match w.pool.worker worker with
  | .running t => if w.spot t = .body then some t else none
  | _ => none

/-- The task that executes code of the user on `worker`: in a task made by `await(func)` that
is `func`. -/
def userCode (w : AwaitWorld) (worker : Nat) : Option Nat :=
  (w.body worker).bind fun t => if w.job t = none ∨ w.stage t = .func then some t else none

/-- The task made by `await(func)` that `worker` executes at `stage`, with its data. -/
def jobAt (w : AwaitWorld) (worker : Nat) (stage : JobStage) : Option (Nat × Job) :=
  (w.body worker).bind fun t =>
    match w.job t with
    | some job => if w.stage t = stage then some (t, job) else none
    | none => none

/-- The fiber of `t` gives up control and its `call()` returns `status`. -/
def leave (w : AwaitWorld) (worker t : Nat) (status : CallStatus) (spot : TaskSpot) :
    AwaitWorld :=
  { w with pool := w.pool.callReturns worker t status
           spot := Function.update w.spot t spot }

def setStage (w : AwaitWorld) (t : Nat) (stage : JobStage) : AwaitWorld :=
  { w with stage := Function.update w.stage t stage }

def awaitFunction (w : AwaitWorld) (worker t : Nat) (returning : Bool) : AwaitWorld :=
  let temp := w.triggers
  let child := w.pool.created
  { w.leave worker t (.kWaiting temp true) (.inFunction child) with
    triggers := w.triggers + 1
    use := Function.update w.use temp (.child child)
    job := Function.update w.job child (some ⟨temp, t, returning⟩) }

/-- `await(seconds)` up to the return of `AsyncTimer::await`. -/
def armTimer (w : AwaitWorld) (t : Nat) : AwaitWorld :=
  let temp := w.triggers
  { w with triggers := w.triggers + 1
           use := Function.update w.use temp (.timer t)
           spot := Function.update w.spot t (.arming temp) }

def notify (w : AwaitWorld) (trigger : Nat) (accepted : List Bool) : Option AwaitWorld :=
  (w.pool.step (.notify trigger accepted)).map fun pool =>
    { w with pool := pool
             wakes := w.wakes ++ (pool.ready.drop w.pool.ready.length).map (Prod.mk trigger) }

/-- The fiber of a task can be resumed. -/
def resumable (w : AwaitWorld) (t : Nat) : Bool :=
  match w.spot t with
  | .body => false
  | .arming _ => false
  | .ended => false
  | _ => true

/-- `pop_hard` and the `call()` that resumes the task. -/
def pop (w : AwaitWorld) (worker index : Nat) : Option AwaitWorld :=
  w.pool.ready[index]?.bind fun t =>
    if w.resumable t then
      (w.pool.step (.pop worker index)).map fun pool =>
        { w with pool := pool
                 spot := Function.update w.spot t .body
                 resumedFrom := Function.update w.resumedFrom t (w.spot t) }
    else none

def suspendTimer (w : AwaitWorld) (worker : Nat) : Option AwaitWorld :=
  match w.pool.worker worker with
  | .running t =>
    match w.spot t with
    | .arming trigger => some (w.leave worker t (.kWaiting trigger false) (.inTimer trigger))
    | _ => none
  | _ => none

/-- The end of a body, for a task made by `await(func)` after its last step. -/
def bodyReturn (w : AwaitWorld) (worker : Nat) : Option AwaitWorld :=
  (w.body worker).bind fun t =>
    match w.job t with
    | none => some (w.leave worker t .kFinished .ended)
    | some job =>
      if w.stage t = (if job.returning then .published else .notified) then
        some (w.leave worker t .kFinished .ended)
      else none

def timerCallback (w : AwaitWorld) (trigger : Nat) (accepted : List Bool) : Option AwaitWorld :=
  match w.use trigger with
  | .timer _ =>
    if trigger ∈ w.fired then none
    else (w.notify trigger accepted).map fun v => { v with fired := trigger :: w.fired }
  | _ => none

def step (w : AwaitWorld) : AwaitStep → Option AwaitWorld
  | .newTrigger => some { w with triggers := w.triggers + 1 }
  | .go accepted => w.onPool (.go accepted)
  | .pop worker index => w.pop worker index
  | .yield worker => (w.userCode worker).map fun t => w.leave worker t .kReady .inYield
  | .awaitTrigger worker trigger =>
    if trigger < w.triggers ∧ w.use trigger = .user then
      (w.userCode worker).map fun t =>
        w.leave worker t (.kWaiting trigger false) (.inTrigger trigger)
    else none
  | .awaitFunction worker returning =>
    (w.userCode worker).map fun t => w.awaitFunction worker t returning
  | .armTimer worker => (w.userCode worker).map w.armTimer
  | .suspendTimer worker => w.suspendTimer worker
  | .funcReturn worker => (w.jobAt worker .func).map fun x => w.setStage x.1 .funcDone
  | .childNotify worker accepted =>
    (w.jobAt worker .funcDone).bind fun x =>
      (w.notify x.2.trigger accepted).map (·.setStage x.1 .notified)
  | .publish worker =>
    (w.jobAt worker .notified).bind fun x =>
      if x.2.returning then some (w.setStage x.1 .published) else none
  | .bodyReturn worker => w.bodyReturn worker
  | .requeue worker accepted => w.onPool (.requeue worker accepted)
  | .waitPush worker => w.onPool (.waitPush worker)
  | .register worker => w.onPool (.register worker)
  | .pushChild worker accepted => w.onPool (.pushChild worker accepted)
  | .notify trigger accepted =>
    if trigger < w.triggers ∧ w.use trigger = .user then w.notify trigger accepted else none
  | .timerCallback trigger accepted => w.timerCallback trigger accepted

end AwaitWorld

end CoplusLean
