import CoplusLean.Models.LocalQueueThreads

/-!
# `FastQueue` used by many threads

Any number of producer handles and consumers work on one queue. Each operation on `FreeList`
(which has a lock), each call of `create_queue` and each atomic step of a local queue is one step
of an arbitrary interleaving; a `get` goes with the step that gave the handle its token. The local
queues are in `locals` by their pointers, with the calls on them that are under way; the objects on
`heap` are only names here. A handle is the thread `2 * handle` of its local queue, and a consumer
the thread `2 * consumer + 1` of the queue it pops from.
-/

namespace CoplusLean

/-- Where a handle stands: in one of the loops over `apply` and `preempt`, with the item if the
loop is that of `push_hard`, in a loop over `local_->push`, or in front of `FreeList.push(token)`.
The numbers are the attempts left. -/
inductive HandlePhase (α : Type*) where
  | gone
  | applying (attempts : Nat) (item : Option α)
  | preempting (attempts : Nat) (item : Option α)
  | ready
  | pushing (item : α)
  | trying (attempts : Nat) (item : α)
  | leaving (item : α)
  | moving (attempts : Nat) (item : α)
  | retrying (attempts : Nat) (item : α)
  | deleting
deriving DecidableEq, Repr

/-- A handle begins a call, or makes the next step of the call it is in; a consumer begins or goes
on with a `pop` of the local queue under `index`. -/
inductive FastQueueStep (α : Type*) where
  | create (handle : Nat)
  | push (handle : Nat) (item : α)
  | pushHard (handle : Nat) (item : α)
  | destroy (handle : Nat)
  | next (handle : Nat)
  | pop (consumer index : Nat)
  | popNext (consumer index : Nat)
deriving DecidableEq, Repr

structure FastQueueWorld (α : Type*) where
  queue : FastQueue α
  locals : Nat → LocalWorld α
  handles : Nat → ProducerHandle
  phase : Nat → HandlePhase α

namespace HandlePhase

open FastQueue

variable {α : Type*}

/-- The item that a handle pushes to its local queue. -/
def pushes : HandlePhase α → Option α
  | .pushing item => some item
  | .trying _ item => some item
  | .retrying _ item => some item
  | _ => none

/-- After an `apply` that has failed. -/
def afterApply (attempts : Nat) (item : Option α) : HandlePhase α :=
  if attempts = 0 then .preempting (kProducerRetry - 1) item else .applying attempts item

/-- Behind the loops over `apply` and `preempt`: the constructor returns, and so does `push_hard`
without a local queue. -/
def acquired (local_ : Option Nat) (item : Option α) : HandlePhase α :=
  match item, local_ with
  | some item, some _ => .trying (kProducerRetry - 1) item
  | _, _ => .ready

/-- Behind the second loop over `preempt` of `push_hard`. -/
def moved (local_ : Option Nat) (item : α) : HandlePhase α :=
  match local_ with
  | none => .ready
  | some _ => .retrying (kProducerRetry - 1) item

/-- After `local_->push(item)` has returned. -/
def afterPush (ok : Bool) : HandlePhase α → HandlePhase α
  | .trying attempts item =>
    if ok then .ready else if attempts - 1 = 0 then .leaving item else .trying (attempts - 1) item
  | .retrying attempts item =>
    if ok ∨ attempts - 1 = 0 then .ready else .retrying (attempts - 1) item
  | _ => .ready

/-- After a step of `local_->push(item)`, the last one if it has a result. -/
def afterStep (result : Option Bool) (phase : HandlePhase α) : HandlePhase α :=
  match result with
  | none => phase
  | some ok => phase.afterPush ok

end HandlePhase

/-- What `push` returns with its last step. -/
def Phase.result {α : Type*} : Phase α → Option Bool
  | .pushRefused _ => some false
  | .pushWritten _ _ => some true
  | _ => none

/-- The first or the next step of `push(item)` on a thread. -/
def LocalWorld.pushNext {α : Type*} (queueSize : Nat) (w : LocalWorld α) (thread : Nat) (item : α) :
    Option (LocalWorld α) :=
  match w.phase thread with
  | .idle => w.step queueSize (.push thread item)
  | _ => w.step queueSize (.advance thread)

namespace FastQueueWorld

open FastQueue HandlePhase

variable {α : Type*}

def init [Inhabited α] : FastQueueWorld α := ⟨.new, fun _ => .init, fun _ => ⟨0, none⟩, fun _ => .gone⟩

def setPhase (w : FastQueueWorld α) (handle : Nat) (phase : HandlePhase α) : FastQueueWorld α :=
  { w with phase := Function.update w.phase handle phase }

/-- `FreeList` and `QueueList` and the handle after an `apply` or a `preempt`. -/
def setHandle (w : FastQueueWorld α) (handle : Nat) (s : FastQueue α × ProducerHandle)
    (phase : HandlePhase α) : FastQueueWorld α :=
  { w.setPhase handle phase with
    queue := s.1
    handles := Function.update w.handles handle s.2 }

/-- The next step of `local_->push(item)`, the first one included. -/
def pushNext (w : FastQueueWorld α) (handle : Nat) (item : α) : Option (FastQueueWorld α) :=
  match (w.handles handle).local_ with
  | none => none
  | some p =>
    let thread := 2 * handle
    ((w.locals p).pushNext kLocalQueueSize thread item).map fun l =>
      { w.setPhase handle ((w.phase handle).afterStep ((w.locals p).phase thread).result) with
        locals := Function.update w.locals p l }

def next [Inhabited α] (w : FastQueueWorld α) (handle : Nat) : Option (FastQueueWorld α) :=
  let s := (w.queue, w.handles handle)
  match w.phase handle with
  | .applying attempts item =>
    let (ok, s') := apply s
    some (w.setHandle handle s'
      (if ok then acquired s'.2.local_ item else afterApply (attempts - 1) item))
  | .preempting attempts item =>
    let (ok, s') := preempt s
    some (w.setHandle handle s' (if ok ∨ attempts - 1 = 0 then acquired s'.2.local_ item
      else .preempting (attempts - 1) item))
  | .pushing item => w.pushNext handle item
  | .trying _ item => w.pushNext handle item
  | .retrying _ item => w.pushNext handle item
  | .leaving item =>
    some { w.setPhase handle (.moving (kProducerRetry - 1) item) with
      queue := w.queue.giveBack s.2.token }
  | .moving attempts item =>
    let (ok, s') := preempt s
    some (w.setHandle handle s' (if ok ∨ attempts - 1 = 0 then moved s'.2.local_ item
      else .moving (attempts - 1) item))
  | .deleting =>
    some { w.setPhase handle .gone with queue := w.queue.giveBack s.2.token }
  | .gone => none
  | .ready => none

/-- A step of a `pop` on the local queue that `get(index)` finds. -/
def popStep (w : FastQueueWorld α) (index : Nat) (act : ThreadStep α) : Option (FastQueueWorld α) :=
  match w.queue.lookup index with
  | (true, some p) =>
    ((w.locals p).step kLocalQueueSize act).map fun l =>
      { w with locals := Function.update w.locals p l }
  | _ => none

def step [Inhabited α] (w : FastQueueWorld α) : FastQueueStep α → Option (FastQueueWorld α)
  | .create handle =>
    match w.phase handle with
    | .gone =>
      some (w.setHandle handle (w.queue, ⟨0, none⟩) (.applying (kProducerRetry - 1) none))
    | _ => none
  | .push handle item =>
    match w.phase handle, (w.handles handle).local_ with
    | .ready, none => some w
    | .ready, some _ => some (w.setPhase handle (.pushing item))
    | _, _ => none
  | .pushHard handle item =>
    match w.phase handle, (w.handles handle).local_ with
    | .ready, none => some (w.setPhase handle (.applying (kProducerRetry - 1) (some item)))
    | .ready, some _ => some (w.setPhase handle (.trying (kProducerRetry - 1) item))
    | _, _ => none
  | .destroy handle =>
    match w.phase handle, (w.handles handle).local_ with
    | .ready, none => some (w.setPhase handle .gone)
    | .ready, some _ => some (w.setPhase handle .deleting)
    | _, _ => none
  | .next handle => w.next handle
  | .pop consumer index => w.popStep index (.pop (2 * consumer + 1))
  | .popNext consumer index => w.popStep index (.advance (2 * consumer + 1))

end FastQueueWorld

end CoplusLean
