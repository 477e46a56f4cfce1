import CoplusLean.Models.Machine

/-!
# The machines of a `ThreadPool`: the constructor and `resize`

A pool counts the main thread in `threadSize`, and not in `machines`. The constructor of
`std::thread` throws when the system starts no more threads, so `maxThreads`, the number of
threads that the process can have with the main one, is an argument here. Calls of `resize`
exclude each other by the mutex `mutating`; the threads of the machines go on between them.
-/

namespace CoplusLean

open Lib

/-- How a constructor or a `resize` ends without a pool: the `std::system_error` of a thread
that does not start, `machines.begin() + newSize` after `machines.end()`, or a fault of a
machine. -/
inductive ResizeError where
  | systemError
  | passesEnd
  | machine (fault : MachineFault)
deriving DecidableEq, Repr

structure ThreadPool where
  machines : List Machine
  threadSize : Nat
deriving DecidableEq, Repr

inductive ResizeStep where
  | resize (newSize : Nat) (lastJobs : Nat → Bool)
  | thread (machine thread : Nat) (job : Bool)

namespace ThreadPool

/-- `for(int i = ..; i < size; i++) machines.push_back(..)`, when `room` more threads can be
started. The comparison is one of `size_t`. -/
def pushLoop (size : Nat) : Nat → Int → List Machine → Except ResizeError (List Machine)
  | room, i, machines =>
    if sizeT i < size then
      match room with
      | 0 => .error .systemError
      | room + 1 => pushLoop size room (int32 (i + 1)) (machines ++ [.ofScheduler])
    else .ok machines

/-- How many threads can still be started next to those of the machines. -/
def room (maxThreads : Nat) (machines : List Machine) : Nat :=
  maxThreads - 1 - machines.countP Machine.joinable

/-- `ThreadPool()`, when `hardware_concurrency()` returns `c`. -/
def new (maxThreads : Nat) (c : UInt32) : Except ResizeError ThreadPool :=
  match pushLoop (sizeT (c.toNat - 1)) (room maxThreads []) 0 [] with
  | .error e => .error e
  | .ok machines => .ok { machines := machines, threadSize := c.toNat }

/-- `join` on each machine. The first argument gives what the `schedule()` that is executed on
a machine returns. -/
def joinAll (lastJobs : Nat → Bool) : List Machine → Except ResizeError (List Machine)
  | [] => .ok []
  | m :: ms =>
    match m.join (lastJobs 0) with
    | .error fault => .error (.machine fault)
    | .ok m' =>
      match joinAll (fun k => lastJobs (k + 1)) ms with
      | .error e => .error e
      | .ok ms' => .ok (m' :: ms')

/-- `std::vector::resize`. A machine that goes takes its thread handle with it, which must
not be joinable. -/
def vectorResize (newSize : Nat) (machines : List Machine) :
    Except ResizeError (List Machine) :=
  if (machines.drop newSize).any Machine.joinable then .error (.machine .terminate)
  else .ok (machines.take newSize ++ List.replicate (newSize - machines.length) .empty)

def resize (maxThreads newSize : Nat) (lastJobs : Nat → Bool) (p : ThreadPool) :
    Except ResizeError ThreadPool :=
  if newSize < p.threadSize then
    if p.machines.length < newSize then .error .passesEnd
    else
      match joinAll lastJobs (p.machines.drop newSize) with
      | .error e => .error e
      | .ok closed =>
        match vectorResize newSize (p.machines.take newSize ++ closed) with
        | .error e => .error e
        | .ok machines => .ok { machines := machines, threadSize := newSize }
  else if p.threadSize < newSize then
    match pushLoop newSize (room maxThreads p.machines) (int32 p.threadSize) p.machines with
    | .error e => .error e
    | .ok machines => .ok { machines := machines, threadSize := newSize }
  else .ok { p with threadSize := newSize }

/-- One call of `resize` that returns, or one step of a thread of a machine. -/
def step (maxThreads : Nat) (p : ThreadPool) : ResizeStep → Option ThreadPool
  | .resize newSize lastJobs => (p.resize maxThreads newSize lastJobs).toOption
  | .thread machine thread job =>
    match p.machines[machine]? with
    | none => none
    | some m =>
      (m.threadStep thread job).map fun m' => { p with machines := p.machines.set machine m' }

/-- The number of machines whose loop goes on. -/
def running (p : ThreadPool) : Nat := p.machines.countP Machine.running

/-- The arguments of the calls of `resize`, in order. -/
def sizes (steps : List ResizeStep) : List Nat :=
  steps.filterMap fun
    | .resize newSize _ => some newSize
    | .thread _ _ _ => none

end ThreadPool

end CoplusLean
