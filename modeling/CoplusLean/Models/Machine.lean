import CoplusLean.Lib.MachineInt

/-!
# `Machine`: a scheduler thread that can be joined and restarted

The threads of a `Machine` share its flag `close_` and its counter `job_count_` with it, and
nothing else, so a machine is a record with the threads started so far. A scheduler function
shows only in what each call of it returns. `join` and `restart` are called one after the
other by the owner; `t_.join()` waits, so a call of `join` that has to wait is two steps, and
a thread may take any number of steps between any two steps of the owner.
-/

namespace CoplusLean

open Lib

/-- Where a thread of a machine stands: in front of the guard of its loop, in `schedule()`,
or past the loop. -/
inductive LoopPhase where
  | guard
  | scheduling
  | ended
deriving DecidableEq, Repr

/-- `t_` is the place in `threads` of the thread that it stands for, `none` when it is not
joinable. The default constructor leaves the pointer `job_count_` unset. -/
structure Machine where
  t : Option Nat
  close : Bool
  jobCount : Option Int
  threads : List LoopPhase
deriving DecidableEq, Repr

/-- What ends the program: `t_.join()` on a thread that is not joinable, or the move of a
thread into a `std::thread` that is still joinable. -/
inductive MachineFault where
  | notJoinable
  | terminate
deriving DecidableEq, Repr

namespace Machine

def joinable (m : Machine) : Bool := m.t.isSome

/-- The start of a thread with the loop: its number, and the machine with it. -/
def startThread (m : Machine) : Nat × Machine :=
  (m.threads.length, { m with threads := m.threads ++ [.guard] })

/-- `Machine(scheduler)`. -/
def ofScheduler : Machine :=
  let (thread, m) :=
    startThread { t := none, close := false, jobCount := some 0, threads := [] }
  { m with t := some thread }

/-- `Machine()`. -/
def empty : Machine := { t := none, close := true, jobCount := none, threads := [] }

/-- `restart`: what it returns, and the machine after it. The thread is started before it is
moved into `t_`. -/
def restart (m : Machine) : Except MachineFault (Bool × Machine) :=
  if !m.close then .ok (false, m)
  else
    let (thread, m') := m.startThread
    if m'.joinable then .error .terminate else .ok (true, { m' with t := some thread })

/-- One step of a thread: it loads `close_` at the guard of its loop, or its `schedule()`
returns `job`. -/
def threadStep (m : Machine) (thread : Nat) (job : Bool) : Option Machine :=
  match m.threads[thread]? with
  | some .guard =>
    some { m with
      threads := m.threads.set thread (if !m.close then .scheduling else .ended) }
  | some .scheduling =>
    some { m with
      threads := m.threads.set thread .guard
      jobCount := if job then m.jobCount.map fun n => int32 (n + 1) else m.jobCount }
  | _ => none

/-- The return of `t_.join()`, which waits until the thread has ended. -/
def threadJoined (m : Machine) : Option (Except MachineFault Machine) :=
  match m.t with
  | none => some (.error .notJoinable)
  | some thread =>
    if m.threads[thread]? = some .ended then some (.ok { m with t := none }) else none

/-- A whole call of `join`, when `lastJob` is what a `schedule()` that is still executing
returns. -/
def join (m : Machine) (lastJob : Bool) : Except MachineFault Machine :=
  if m.close then .ok m
  else
    match m.t with
    | none => .error .notJoinable
    | some thread =>
      .ok { t := none
            close := true
            jobCount :=
              if m.threads[thread]? = some .scheduling ∧ lastJob then
                m.jobCount.map fun n => int32 (n + 1)
              else m.jobCount
            threads := m.threads.set thread .ended }

/-- The machine has a thread, and the loop of that thread goes on. -/
def running (m : Machine) : Bool :=
  !m.close && m.t.any fun thread => m.threads[thread]?.any (· ≠ .ended)

end Machine

/-- Whether the owner of a machine is between two calls or waits in `t_.join()`. -/
inductive OwnerPhase where
  | idle
  | joining
deriving DecidableEq, Repr

/-- A machine with its owner. The last two fields are history variables: the thread that the
constructor or the last `restart` that returned true has started, while no `join` has been
called since, and the threads that a `t_.join()` has waited for. -/
structure MachineWorld where
  machine : Machine
  owner : OwnerPhase
  fault : Option MachineFault
  current : Option Nat
  joined : List Nat
deriving DecidableEq, Repr

inductive MachineStep where
  | join
  | joinReturn
  | restart
  | thread (thread : Nat) (job : Bool)
deriving DecidableEq, Repr

namespace MachineWorld

/-- After `Machine(scheduler)`. -/
def init : MachineWorld where
  machine := .ofScheduler
  owner := .idle
  fault := none
  current := Machine.ofScheduler.t
  joined := []

/-- The call of `join` up to `t_.join()`. -/
def callJoin (w : MachineWorld) : MachineWorld :=
  if w.machine.close then { w with current := none } -- already closed
  else { w with machine := { w.machine with close := true }, owner := .joining, current := none }

/-- The return of `t_.join()`, and of the `join` that it is in. -/
def returnJoin (w : MachineWorld) : Option MachineWorld :=
  match w.machine.threadJoined with
  | none => none
  | some (.error fault) => some { w with fault := some fault }
  | some (.ok m) =>
    some { w with machine := m, owner := .idle, joined := w.machine.t.toList ++ w.joined }

def callRestart (w : MachineWorld) : MachineWorld :=
  match w.machine.restart with
  | .error fault => { w with fault := some fault }
  | .ok (false, m) => { w with machine := m }
  | .ok (true, m) => { w with machine := m, current := m.t }

/-- Nothing goes on after a fault. -/
def step (w : MachineWorld) (s : MachineStep) : Option MachineWorld :=
  if w.fault.isSome then none
  else
    match s with
    | .join => if w.owner = .idle then some w.callJoin else none
    | .joinReturn => if w.owner = .joining then w.returnJoin else none
    | .restart => if w.owner = .idle then some w.callRestart else none
    | .thread thread job =>
      (w.machine.threadStep thread job).map fun m => { w with machine := m }

end MachineWorld

end CoplusLean
