import CoplusLean.Lib.MachineInt
import Mathlib.Logic.Function.Basic

/-!
# The queues of `fast_queue.h`

`PushOnlyFastStack`, `SlowQueue`, `FastLocalQueue` and `FastQueue` with its producer
handles, each call taken as one step. Pointers to local queues are indices into `heap`,
which lists the objects in the order of their `new` expressions. Access outside an array
has no result: `get` reports it as `outOfBounds` and the calls that meet it return `none`.
-/

namespace CoplusLean

open Lib

/-! ## PushOnlyFastStack -/

/-- The chunk table is `stacks`; `pushCount` counts the `fetch_add` calls on `end`, an
`int` that therefore holds `int32 pushCount`. -/
structure PushOnlyFastStack (α : Type*) where
  unitSize : Nat
  maxSize : Nat
  stacks_ : List (Option (List α))
  pushCount : Nat
deriving DecidableEq, Repr

inductive GetResult (α : Type*) where
  | fail
  | found (item : α)
  | outOfBounds
deriving DecidableEq, Repr

namespace PushOnlyFastStack

variable {α : Type*}

def new (unitSize maxSize : Nat) : PushOnlyFastStack α :=
  ⟨unitSize, maxSize, List.replicate ((maxSize + unitSize - 1) / unitSize) none, 0⟩

/-- The constructor for any sizes of type `size_t`: the rounding sum wraps modulo `2 ^ 64`,
and the loop that clears the table has an `int` counter, which a larger table overflows. -/
def construct (unitSize maxSize : Nat) : Option (PushOnlyFastStack α) :=
  let chunks := (maxSize + unitSize - 1) % 18446744073709551616 / unitSize
  if chunks < 2147483648 then some ⟨unitSize, maxSize, List.replicate chunks none, 0⟩ else none

/-- The value of `end.load()`. -/
def size (s : PushOnlyFastStack α) : Int := int32 s.pushCount

/-- `token > max_size` compares an `int` with a `size_t`. -/
def get [Inhabited α] (s : PushOnlyFastStack α) (token : Int) : GetResult α :=
  if sizeT token > s.maxSize then .fail
  else
    let mainSlot := token.toNat / s.unitSize
    let subSlot := token.toNat - mainSlot * s.unitSize
    match s.stacks_[mainSlot]? with
    | none => .outOfBounds
    | some none => .fail
    | some (some chunk) => .found (chunk.getD subSlot default)

/-- Returns the new token, or `-1` when the stack is full. -/
def push [Inhabited α] (s : PushOnlyFastStack α) (newItem : α) : Int × PushOnlyFastStack α :=
  let slot := int32 s.pushCount
  let s := { s with pushCount := s.pushCount + 1 }
  if sizeT slot ≥ s.maxSize then (-1, s)
  else
    let mainSlot := slot.toNat / s.unitSize
    let subSlot := slot.toNat - mainSlot * s.unitSize
    let oldStack := (s.stacks_.getD mainSlot none).getD (List.replicate s.unitSize default)
    (slot, { s with stacks_ := s.stacks_.set mainSlot (some (oldStack.set subSlot newItem)) })

end PushOnlyFastStack

/-! ## SlowQueue -/

/-- Only `head = tail = 0` is empty, any other `head = tail` is full. -/
structure SlowQueue (α : Type*) where
  maxSize : Nat
  ring : List α
  head : Nat
  tail : Nat
deriving DecidableEq, Repr

namespace SlowQueue

variable {α : Type*}

def new [Inhabited α] (maxSize : Nat) : SlowQueue α :=
  ⟨maxSize, List.replicate maxSize default, 0, 0⟩

def pop [Inhabited α] (q : SlowQueue α) : Option α × SlowQueue α :=
  if q.head = q.tail ∧ q.tail = 0 then (none, q)
  else
    let slot := q.head
    let head := if q.head + 1 = q.maxSize then 0 else q.head + 1
    let item := q.ring.getD slot default
    if head = q.tail then (some item, { q with head := 0, tail := 0 })
    else (some item, { q with head := head })

def push (q : SlowQueue α) (item : α) : Bool × SlowQueue α :=
  if q.head = q.tail then
    if q.head = 0 then (true, { q with tail := q.tail + 1, ring := q.ring.set 0 item })
    else (false, q)
  else
    let ring := q.ring.set q.tail item
    let tail := if q.tail + 1 = q.maxSize then 0 else q.tail + 1
    if q.head = tail ∧ tail = 0 then (true, { q with ring := ring, head := 1, tail := 1 })
    else (true, { q with ring := ring, tail := tail })

def size (q : SlowQueue α) : Nat :=
  if q.head = q.tail ∧ q.tail = 0 then 0
  else if q.head = q.tail then q.maxSize
  else if q.head > q.tail then q.tail + q.maxSize - q.head
  else q.tail - q.head

end SlowQueue

/-! ## FastLocalQueue -/

/-- Each counter is the number of `fetch_add` calls made on it; the `uint32_t` atomic
holds that number modulo `2 ^ 32`, which is what `load` returns. -/
structure FastLocalQueue (α : Type*) where
  enqueueCount : Nat
  enqueueRevoke : Nat
  dequeueCount : Nat
  dequeueRevoke : Nat
  head : Nat
  tail : Nat
  headFast : Nat
  tailFast : Nat
  data : Nat → α

namespace FastLocalQueue

variable {α : Type*}

def new [Inhabited α] : FastLocalQueue α := ⟨0, 0, 0, 0, 0, 0, 0, 0, fun _ => default⟩

/-- The value of an atomic counter. -/
def load (counter : Nat) : Nat := counter % 4294967296

/-- Subtraction of `uint32_t` values. -/
def sub (a b : Nat) : Nat := (a + (4294967296 - b)) % 4294967296

/-- The test of `push`: the ticket `enq` exceeds the capacity. -/
def noRoom (queueSize enq enqRevoke head : Nat) : Prop :=
  sub (sub (load enq) (load enqRevoke)) (load head) > queueSize

/-- The test of `pop`: the ticket `deq` has no completed push to match it. -/
def noItem (deq deqRevoke tail : Nat) : Prop :=
  sub (load tail) (sub (load deq) (load deqRevoke)) > 2147483647

instance (queueSize enq enqRevoke head : Nat) : Decidable (noRoom queueSize enq enqRevoke head) :=
  inferInstanceAs (Decidable (_ > _))

instance (deq deqRevoke tail : Nat) : Decidable (noItem deq deqRevoke tail) :=
  inferInstanceAs (Decidable (_ > _))

def push (queueSize : Nat) (q : FastLocalQueue α) (item : α) : Bool × FastLocalQueue α :=
  let enqRevoke := q.enqueueRevoke
  let q := { q with enqueueCount := q.enqueueCount + 1 }
  let enq := q.enqueueCount
  if noRoom queueSize enq enqRevoke q.head then
    (false, { q with enqueueRevoke := q.enqueueRevoke + 1 })
  else
    let slot := load q.tailFast % queueSize
    (true, { q with tailFast := q.tailFast + 1, data := Function.update q.data slot item,
                    tail := q.tail + 1 })

def pop (queueSize : Nat) (q : FastLocalQueue α) : Option α × FastLocalQueue α :=
  let deqRevoke := q.dequeueRevoke
  let q := { q with dequeueCount := q.dequeueCount + 1 }
  let deq := q.dequeueCount
  if noItem deq deqRevoke q.tail then
    (none, { q with dequeueRevoke := q.dequeueRevoke + 1 })
  else
    let slot := load q.headFast % queueSize
    (some (q.data slot), { q with headFast := q.headFast + 1, head := q.head + 1 })

def size (q : FastLocalQueue α) : Nat := sub (load q.tail) (load q.head)

end FastLocalQueue

/-! ## FastQueue -/

def kLocalQueueSize : Nat := 32
def kFreeListSize : Nat := 50
def kQueueMaxCount : Nat := 100

/-- `createFailed` is a history variable: some call of `create_queue` returned false. -/
structure FastQueue (α : Type*) where
  queueList : PushOnlyFastStack (Option Nat)
  freeList : SlowQueue Int
  heap : List (FastLocalQueue α)
  createFailed : Bool

/-- `token` has no value of its own before the first `apply` or `preempt`; nothing reads
it while `local_` is null. -/
structure ProducerHandle where
  token : Int
  local_ : Option Nat
deriving DecidableEq, Repr

namespace FastQueue

variable {α : Type*}

def new : FastQueue α :=
  ⟨.new 10 kQueueMaxCount, .new kFreeListSize, [], false⟩

/-- Replaces the object a pointer refers to. -/
def store (q : FastQueue α) (p : Nat) (l : FastLocalQueue α) : FastQueue α :=
  { q with heap := q.heap.set p l }

def createQueue [Inhabited α] (q : FastQueue α) : Option Int × FastQueue α :=
  let pushed := q.queueList.push (some q.heap.length)
  let q := { q with queueList := pushed.2, heap := q.heap ++ [.new] }
  if pushed.1 < 0 then (none, { q with createFailed := true }) else (some pushed.1, q)

/-- The pointer stored under a token, as `get` hands it to `local_`. -/
def lookup (q : FastQueue α) (token : Int) : Bool × Option Nat :=
  match q.queueList.get token with
  | .found p => (true, p)
  | _ => (false, none)

/-- `while(--retry && !f()) { }` from `retry = n + 1`; the result is `retry != 0`. -/
def retryLoop {σ : Type*} (f : σ → Bool × σ) : Nat → σ → Bool × σ
  | 0, s => (false, s)
  | n + 1, s =>
    match f s with
    | (true, s') => (true, s')
    | (false, s') => retryLoop f n s'

/-- `kProducerRetry - 1` attempts are made before `retry` reaches zero. -/
def kProducerRetry : Nat := 10

def apply (s : FastQueue α × ProducerHandle) : Bool × FastQueue α × ProducerHandle :=
  match s.1.freeList.pop with
  | (none, freeList) => (false, { s.1 with freeList := freeList }, s.2)
  | (some token, freeList) =>
    let q := { s.1 with freeList := freeList }
    let found := q.lookup token
    (found.1, q, ⟨token, found.2⟩)

def preempt [Inhabited α] (s : FastQueue α × ProducerHandle) :
    Bool × FastQueue α × ProducerHandle :=
  match s.1.createQueue with
  | (none, q) => (false, q, s.2)
  | (some token, q) =>
    let found := q.lookup token
    (found.1, q, ⟨token, found.2⟩)

/-- The loops over `apply` and then `preempt` shared by the constructor and `push_hard`. -/
def acquire [Inhabited α] (s : FastQueue α × ProducerHandle) : FastQueue α × ProducerHandle :=
  match retryLoop apply (kProducerRetry - 1) s with
  | (true, s) => s
  | (false, s) => (retryLoop preempt (kProducerRetry - 1) s).2

/-- The constructor of `ProducerHandle`. -/
def newHandle [Inhabited α] (q : FastQueue α) : FastQueue α × ProducerHandle :=
  acquire (q, ⟨0, none⟩)

/-- `queue_->FreeList.push(token)`, its result not looked at. -/
def giveBack (q : FastQueue α) (token : Int) : FastQueue α :=
  { q with freeList := (q.freeList.push token).2 }

/-- The destructor of `ProducerHandle`. -/
def deleteHandle (q : FastQueue α) (h : ProducerHandle) : FastQueue α :=
  match h.local_ with
  | none => q
  | some _ => q.giveBack h.token

def pushLocal [Inhabited α] (item : α) (p : Nat) (q : FastQueue α) : Bool × FastQueue α :=
  let result := (q.heap.getD p .new).push kLocalQueueSize item
  (result.1, q.store p result.2)

/-- `ProducerHandle::push`. -/
def push [Inhabited α] (q : FastQueue α) (h : ProducerHandle) (item : α) : Bool × FastQueue α :=
  match h.local_ with
  | none => (false, q)
  | some p => pushLocal item p q

/-- The end of `push_hard` after all attempts on the first local queue failed. -/
def pushSecond [Inhabited α] (s : FastQueue α × ProducerHandle) (item : α) :
    Bool × FastQueue α × ProducerHandle :=
  let s := (retryLoop preempt (kProducerRetry - 1) (s.1.giveBack s.2.token, s.2)).2
  match s.2.local_ with
  | none => (false, s)
  | some p =>
    let pushed := retryLoop (pushLocal item p) (kProducerRetry - 1) s.1
    (pushed.1, pushed.2, s.2)

/-- The attempts of `push_hard` on the queue at `p` and, when all fail, what follows. -/
def pushFirst [Inhabited α] (s : FastQueue α × ProducerHandle) (p : Nat) (item : α) :
    Bool × FastQueue α × ProducerHandle :=
  match retryLoop (pushLocal item p) (kProducerRetry - 1) s.1 with
  | (true, q) => (true, q, s.2)
  | (false, q) => pushSecond (q, s.2) item

/-- `ProducerHandle::push_hard`. -/
def pushHard [Inhabited α] (q : FastQueue α) (h : ProducerHandle) (item : α) :
    Bool × FastQueue α × ProducerHandle :=
  let s := if h.local_ = none then acquire (q, h) else (q, h)
  match s.2.local_ with
  | none => (false, s)
  | some p => pushFirst s p item

/-- Pops from the local queue at `index`: `none` when the chunk table is left, `some none`
when `get` fails or finds a null pointer. -/
def probe [Inhabited α] (q : FastQueue α) (index : Nat) :
    Option (Option (Option α × FastQueue α)) :=
  match q.queueList.get index with
  | .outOfBounds => none
  | .fail => some none
  | .found none => some none
  | .found (some p) =>
    let result := (q.heap.getD p .new).pop kLocalQueueSize
    some (some (result.1, q.store p result.2))

/-- Probes `index` and, when nothing was popped there, goes on with `next`. -/
def probeOr [Inhabited α] (q : FastQueue α) (index : Nat)
    (next : FastQueue α → Option (Option α × FastQueue α)) : Option (Option α × FastQueue α) :=
  match q.probe index with
  | none => none
  | some none => next q
  | some (some (none, q)) => next q
  | some (some (some item, q)) => some (some item, q)

/-- The loop of `pop_hard` from `index` down to zero. -/
def popDown [Inhabited α] (q : FastQueue α) : Nat → Option (Option α × FastQueue α)
  | 0 => q.probeOr 0 fun q => some (none, q)
  | index + 1 => q.probeOr (index + 1) fun q => popDown q index

/-- The loop of `pop_hard` from `index` up to `approximateSize`, which is read again at
the last index. Every turn advances `index`, so `fuel` bounds the number of turns. -/
def popUp [Inhabited α] (q : FastQueue α) : Nat → Nat → Int → Option (Option α × FastQueue α)
  | 0, _, _ => some (none, q)
  | fuel + 1, index, approximateSize =>
    if (index : Int) < approximateSize then
      match q.probe index with
      | none => none
      | some none => some (none, q)
      | some (some (some item, q)) => some (some item, q)
      | some (some (none, q)) =>
        let approximateSize :=
          if (index : Int) = approximateSize - 1 then q.queueList.size else approximateSize
        popUp q fuel (index + 1) approximateSize
    else some (none, q)

/-- `middle` is the outcome of `corand.UInt(approximateSize)`. -/
def popHard [Inhabited α] (q : FastQueue α) (middle : Nat) : Option (Option α × FastQueue α) :=
  let approximateSize := q.queueList.size
  match popDown q middle with
  | none => none
  | some (some item, q) => some (some item, q)
  | some (none, q) => popUp q approximateSize.toNat (middle + 1) approximateSize

/-- The probing loop of `pop`: `i`, `cur` and the start `index`. The loop need not end, so
it runs on fuel; `none` also stands for the division by zero of an empty `QueueList`. -/
def popProbe [Inhabited α] (q : FastQueue α) (index : Nat) :
    Nat → Nat → Nat → Option (Option α × FastQueue α)
  | 0, _, _ => none
  | fuel + 1, i, cur =>
    if i = 0 ∨ cur ≠ index then
      if q.queueList.size ≤ 0 then none
      else
        let cur := cur % q.queueList.size.toNat
        q.probeOr cur fun q => popProbe q index fuel (i + 1) (cur + (2 * (i + 1) + 1))
    else some (none, q)

/-- `index` is the outcome of `corand.UInt(QueueList.size())`. -/
def pop [Inhabited α] (q : FastQueue α) (index fuel : Nat) : Option (Option α × FastQueue α) :=
  popProbe q index fuel 0 index

/-- The scan of `element_count` over the indices from `index` on. -/
def countFrom [Inhabited α] (q : FastQueue α) : Nat → Nat → Int → Nat → Option Nat
  | 0, _, _, totalCount => some totalCount
  | fuel + 1, index, approximateSize, totalCount =>
    if (index : Int) < approximateSize then
      match q.queueList.get index with
      | .outOfBounds => none
      | .fail => countFrom q fuel (index + 1) approximateSize totalCount
      | .found none => countFrom q fuel (index + 1) approximateSize totalCount
      | .found (some p) =>
        let totalCount := totalCount + (q.heap.getD p .new).size
        let approximateSize :=
          if (index : Int) = approximateSize - 1 then q.queueList.size else approximateSize
        countFrom q fuel (index + 1) approximateSize totalCount
    else some totalCount

def elementCount [Inhabited α] (q : FastQueue α) : Option Nat :=
  countFrom q q.queueList.size.toNat 0 q.queueList.size 0

end FastQueue

/-! ## Runs -/

/-- One call on a queue. Handles have numbers; the random outcomes of `corand` and the
turns granted to `pop` are part of the label. -/
inductive QueueCall (α : Type*) where
  | create (handle : Nat)
  | destroy (handle : Nat)
  | push (handle : Nat) (item : α)
  | pushHard (handle : Nat) (item : α)
  | pop (index fuel : Nat)
  | popHard (middle : Nat)
  | elementCount
deriving DecidableEq, Repr

/-- A queue with its live handles. `pushed` lists the values whose `push` or `push_hard`
returned true, `popped` the values returned by successful pops. -/
structure QueueWorld (α : Type*) where
  queue : FastQueue α
  handles : Nat → Option ProducerHandle
  pushed : List α
  popped : List α

namespace QueueWorld

variable {α : Type*}

def init : QueueWorld α := ⟨.new, fun _ => none, [], []⟩

/-- The outcomes of `corand.UInt(n)`: `0 .. n - 1`, and `0` when `n = 0`. -/
def UIntOutcome (n : Int) (k : Nat) : Prop := (k : Int) < n ∨ (n = 0 ∧ k = 0)

instance (n : Int) (k : Nat) : Decidable (UIntOutcome n k) :=
  inferInstanceAs (Decidable (_ ∨ _))

def afterPush (w : QueueWorld α) (ok : Bool) (item : α) : List α :=
  if ok then w.pushed ++ [item] else w.pushed

def afterPop (w : QueueWorld α) (item : Option α) : List α := w.popped ++ item.toList

def step [Inhabited α] (w : QueueWorld α) : QueueCall α → Option (QueueWorld α)
  | .create h =>
    match w.handles h with
    | some _ => none
    | none =>
      let made := w.queue.newHandle
      some { w with queue := made.1, handles := Function.update w.handles h (some made.2) }
  | .destroy h =>
    match w.handles h with
    | none => none
    | some handle =>
      some { w with queue := w.queue.deleteHandle handle,
                    handles := Function.update w.handles h none }
  | .push h item =>
    match w.handles h with
    | none => none
    | some handle =>
      let done := w.queue.push handle item
      some { w with queue := done.2, pushed := w.afterPush done.1 item }
  | .pushHard h item =>
    match w.handles h with
    | none => none
    | some handle =>
      let done := w.queue.pushHard handle item
      some { w with queue := done.2.1, handles := Function.update w.handles h (some done.2.2),
                    pushed := w.afterPush done.1 item }
  | .pop index fuel =>
    if UIntOutcome w.queue.queueList.size index then
      (w.queue.pop index fuel).map fun done =>
        { w with queue := done.2, popped := w.afterPop done.1 }
    else none
  | .popHard middle =>
    if UIntOutcome w.queue.queueList.size middle then
      (w.queue.popHard middle).map fun done =>
        { w with queue := done.2, popped := w.afterPop done.1 }
    else none
  | .elementCount => w.queue.elementCount.map fun _ => w

end QueueWorld

end CoplusLean
