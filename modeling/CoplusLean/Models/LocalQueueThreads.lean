import CoplusLean.Models.FastQueue

/-!
# `FastLocalQueue` used by many threads

Each atomic operation of `push` and `pop` and each access to a cell of `data_` is one step
of an arbitrary interleaving. A thread between two steps keeps the local variables of its
call in its phase; like the counters themselves they are the numbers of `fetch_add` calls,
and `load` gives the `uint32_t` values that the tests compare.
-/

namespace CoplusLean

/-- Where a thread stands in a call. -/
inductive Phase (α : Type*) where
  | idle
  | pushLoaded (item : α) (enqRevoke : Nat)
  | pushDrawn (item : α) (enqRevoke enq : Nat)
  | pushRefused (enq : Nat)
  | pushAdmitted (item : α) (enq : Nat)
  | pushTicket (item : α) (ticket : Nat)
  | pushWritten (item : α) (ticket : Nat)
  | popLoaded (deqRevoke : Nat)
  | popDrawn (deqRevoke deq : Nat)
  | popRefused (deq : Nat)
  | popAdmitted (deq : Nat)
  | popTicket (ticket : Nat)
  | popRead (ticket : Nat) (ret : α)
deriving DecidableEq, Repr

/-- A thread begins a call, or makes the next step of the call it is in. -/
inductive ThreadStep (α : Type*) where
  | push (thread : Nat) (item : α)
  | pop (thread : Nat)
  | advance (thread : Nat)
deriving DecidableEq, Repr

/-- `pushed` and `popped` list the ticket and the value of every call that returned true,
in the order of the returns. -/
structure LocalWorld (α : Type*) where
  queue : FastLocalQueue α
  phase : Nat → Phase α
  pushed : List (Nat × α)
  popped : List (Nat × α)

namespace LocalWorld

variable {α : Type*}

def init [Inhabited α] : LocalWorld α := ⟨.new, fun _ => .idle, [], []⟩

/-- Moves a thread to another phase and replaces the queue. -/
def move (w : LocalWorld α) (thread : Nat) (phase : Phase α) (queue : FastLocalQueue α) :
    LocalWorld α :=
  { w with queue := queue, phase := Function.update w.phase thread phase }

open FastLocalQueue in
/-- The next step of the call that `thread` is in. -/
def advance (queueSize : Nat) (w : LocalWorld α) (thread : Nat) : Option (LocalWorld α) :=
  let q := w.queue
  match w.phase thread with
  | .idle => none
  | .pushLoaded item enqRevoke =>
    some (w.move thread (.pushDrawn item enqRevoke (q.enqueueCount + 1))
      { q with enqueueCount := q.enqueueCount + 1 })
  | .pushDrawn item enqRevoke enq =>
    if noRoom queueSize enq enqRevoke q.head then some (w.move thread (.pushRefused enq) q)
    else some (w.move thread (.pushAdmitted item enq) q)
  | .pushRefused _ =>
    some (w.move thread .idle { q with enqueueRevoke := q.enqueueRevoke + 1 })
  | .pushAdmitted item _ =>
    some (w.move thread (.pushTicket item q.tailFast) { q with tailFast := q.tailFast + 1 })
  | .pushTicket item ticket =>
    some (w.move thread (.pushWritten item ticket)
      { q with data := Function.update q.data (load ticket % queueSize) item })
  | .pushWritten item ticket =>
    some { w.move thread .idle { q with tail := q.tail + 1 } with
      pushed := w.pushed ++ [(ticket, item)] }
  | .popLoaded deqRevoke =>
    some (w.move thread (.popDrawn deqRevoke (q.dequeueCount + 1))
      { q with dequeueCount := q.dequeueCount + 1 })
  | .popDrawn deqRevoke deq =>
    if noItem deq deqRevoke q.tail then some (w.move thread (.popRefused deq) q)
    else some (w.move thread (.popAdmitted deq) q)
  | .popRefused _ =>
    some (w.move thread .idle { q with dequeueRevoke := q.dequeueRevoke + 1 })
  | .popAdmitted _ =>
    some (w.move thread (.popTicket q.headFast) { q with headFast := q.headFast + 1 })
  | .popTicket ticket =>
    some (w.move thread (.popRead ticket (q.data (load ticket % queueSize))) q)
  | .popRead ticket ret =>
    some { w.move thread .idle { q with head := q.head + 1 } with
      popped := w.popped ++ [(ticket, ret)] }

def step (queueSize : Nat) (w : LocalWorld α) : ThreadStep α → Option (LocalWorld α)
  | .push thread item =>
    match w.phase thread with
    | .idle => some (w.move thread (.pushLoaded item w.queue.enqueueRevoke) w.queue)
    | _ => none
  | .pop thread =>
    match w.phase thread with
    | .idle => some (w.move thread (.popLoaded w.queue.dequeueRevoke) w.queue)
    | _ => none
  | .advance thread => w.advance queueSize thread

end LocalWorld

end CoplusLean
