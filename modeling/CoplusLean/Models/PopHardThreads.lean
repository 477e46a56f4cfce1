import CoplusLean.Models.FastQueueThreads

/-!
# `pop_hard` of a `FastQueue` used by many threads

The consumers call `pop_hard`, each one call at a time. A call of `get`, a load of the size of
`QueueList` and an atomic step of a `pop` on a local queue are one step each, and the handles and
the other consumers make any number of steps in between.
-/

namespace CoplusLean

/-- Where a consumer stands: in the loop down from `middle` or in the loop up, there in front of
`get(index)`, in the `pop` of the local queue that was found, or behind one that has failed. -/
inductive ProbePhase where
  | idle
  | down (index middle : Nat) (approximateSize : Int)
  | downPop (local_ index middle : Nat) (approximateSize : Int)
  | up (index : Nat) (approximateSize : Int)
  | upPop (local_ index : Nat) (approximateSize : Int)
  | upFailed (index : Nat) (approximateSize : Int)
deriving DecidableEq, Repr

/-- A handle makes a step, a consumer calls `pop_hard`, or it makes the next step of its call. -/
inductive QueueUserStep (α : Type*) where
  | handle (a : FastQueueStep α)
  | popHard (consumer middle : Nat)
  | next (consumer : Nat)
deriving DecidableEq, Repr

/-- `returned` lists the consumer, the local queue and the value of every `pop_hard` that returned
true, in the order of the returns. -/
structure QueueUsers (α : Type*) where
  shared : FastQueueWorld α
  probe : Nat → ProbePhase
  returned : List (Nat × Nat × α)

/-- What `pop` returns with its last step. -/
def Phase.popResult {α : Type*} : Phase α → Option (Option α)
  | .popRefused _ => some none
  | .popRead _ ret => some (some ret)
  | _ => none

/-- The first or the next step of `pop` on a thread. -/
def LocalWorld.popNext {α : Type*} (queueSize : Nat) (w : LocalWorld α) (thread : Nat) :
    Option (LocalWorld α) :=
  match w.phase thread with
  | .idle => w.step queueSize (.pop thread)
  | _ => w.step queueSize (.advance thread)

namespace ProbePhase

/-- The next turn of the loop down, or the loop up behind it. -/
def downNext (index middle : Nat) (approximateSize : Int) : ProbePhase :=
  match index with
  | 0 => .up (middle + 1) approximateSize
  | index + 1 => .down index middle approximateSize

end ProbePhase

namespace QueueUsers

open FastQueue ProbePhase

variable {α : Type*}

def init [Inhabited α] : QueueUsers α := ⟨.init, fun _ => .idle, []⟩

def setProbe (w : QueueUsers α) (consumer : Nat) (phase : ProbePhase) : QueueUsers α :=
  { w with probe := Function.update w.probe consumer phase }

/-- After a step of `local->pop(ret)`, the last one if it has a result; `failed` is what follows a
`pop` that fails. -/
def afterPop (w : QueueUsers α) (consumer local_ : Nat) (failed : ProbePhase) :
    Option (Option α) → QueueUsers α
  | none => w
  | some none => w.setProbe consumer failed
  | some (some ret) =>
    { w.setProbe consumer .idle with returned := w.returned ++ [(consumer, local_, ret)] }

/-- The next step of `local->pop(ret)`, the first one included. -/
def popNext (w : QueueUsers α) (consumer local_ : Nat) (failed : ProbePhase) :
    Option (QueueUsers α) :=
  let thread := 2 * consumer + 1
  let l := w.shared.locals local_
  (l.popNext kLocalQueueSize thread).map fun l' =>
    let shared := { w.shared with locals := Function.update w.shared.locals local_ l' }
    afterPop { w with shared := shared } consumer local_ failed (l.phase thread).popResult

def next (w : QueueUsers α) (consumer : Nat) : Option (QueueUsers α) :=
  let list := w.shared.queue.queueList
  match w.probe consumer with
  | .idle => none
  | .down index middle approximateSize =>
    match list.get index with
    | .outOfBounds => none
    | .found (some p) => some (w.setProbe consumer (.downPop p index middle approximateSize))
    | _ => some (w.setProbe consumer (downNext index middle approximateSize))
  | .downPop p index middle approximateSize =>
    w.popNext consumer p (downNext index middle approximateSize)
  | .up index approximateSize =>
    if (index : Int) < approximateSize then
      match list.get index with
      | .outOfBounds => none
      | .found (some p) => some (w.setProbe consumer (.upPop p index approximateSize))
      | _ => some (w.setProbe consumer .idle)
    else some (w.setProbe consumer .idle)
  | .upPop p index approximateSize => w.popNext consumer p (.upFailed index approximateSize)
  | .upFailed index approximateSize =>
    some (w.setProbe consumer (.up (index + 1)
      (if (index : Int) = approximateSize - 1 then list.size else approximateSize)))

/-- `middle` is the outcome of `corand.UInt(approximateSize)`. -/
def step [Inhabited α] (w : QueueUsers α) : QueueUserStep α → Option (QueueUsers α)
  | .handle a =>
    match a with
    | .pop _ _ => none
    | .popNext _ _ => none
    | a => (w.shared.step a).map fun shared => { w with shared := shared }
  | .popHard consumer middle =>
    let approximateSize := w.shared.queue.queueList.size
    match w.probe consumer with
    | .idle =>
      if QueueWorld.UIntOutcome approximateSize middle then
        some (w.setProbe consumer (.down middle middle approximateSize))
      else none
    | _ => none
  | .next consumer => w.next consumer

end QueueUsers

end CoplusLean
