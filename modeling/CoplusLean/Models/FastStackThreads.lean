import CoplusLean.Models.FastQueue

/-!
# `PushOnlyFastStack` used by many threads

Each atomic operation of `push` and `get` and each access to a cell of a chunk is one step
of an arbitrary interleaving. Chunks are named by the order of their `new` expressions and
`heap` gives their cells; a chunk that lost the race is deleted by its allocator and its
name is dropped.
-/

namespace CoplusLean

open Lib

/-- Where a thread stands in a call, with the local variables of the call. -/
inductive StackPhase (α : Type*) where
  | idle
  | pushCalled (item : α)
  | pushSlot (item : α) (slot : Nat)
  | pushAllocated (item : α) (slot newStack : Nat)
  | pushChunk (item : α) (slot oldStack : Nat)
  | getCalled (token : Nat) (pushed : α)
  | getChunk (token oldStack : Nat) (pushed : α)
  | outOfBounds
deriving DecidableEq, Repr

/-- A thread begins a call, or makes the next step of the call it is in. -/
inductive StackStep (α : Type*) where
  | push (thread : Nat) (item : α)
  | get (thread : Nat) (token : Nat)
  | advance (thread : Nat)
deriving DecidableEq, Repr

/-- `calls` counts the calls of `push`, `returned` lists the item and the result of those
that returned. `installed` lists the main slots whose compare-exchange succeeded. `got`
lists the results of `get`, each with the item whose push had returned that token. -/
structure StackWorld (α : Type*) where
  unitSize : Nat
  maxSize : Nat
  stacks_ : List (Option Nat)
  pushCount : Nat
  heap : Nat → Nat → α
  allocated : Nat
  phase : Nat → StackPhase α
  calls : Nat
  returned : List (α × Int)
  installed : List Nat
  got : List (α × GetResult α)

namespace StackWorld

variable {α : Type*}

/-- The world around a newly constructed stack. -/
def init [Inhabited α] (s : PushOnlyFastStack α) : StackWorld α :=
  { unitSize := s.unitSize, maxSize := s.maxSize, stacks_ := List.replicate s.stacks_.length none,
    pushCount := 0, heap := fun _ _ => default, allocated := 0, phase := fun _ => .idle,
    calls := 0, returned := [], installed := [], got := [] }

/-- Moves a thread to another phase. -/
def move (w : StackWorld α) (thread : Nat) (phase : StackPhase α) : StackWorld α :=
  { w with phase := Function.update w.phase thread phase }

/-- `push` returns. -/
def returnToken (w : StackWorld α) (thread : Nat) (item : α) (token : Int) : StackWorld α :=
  { w.move thread .idle with returned := w.returned ++ [(item, token)] }

/-- `get` returns. -/
def returnItem (w : StackWorld α) (thread : Nat) (pushed : α) (result : GetResult α) :
    StackWorld α :=
  { w.move thread .idle with got := w.got ++ [(pushed, result)] }

/-- The next step of the call that `thread` is in. -/
def advance [Inhabited α] (w : StackWorld α) (thread : Nat) : Option (StackWorld α) :=
  match w.phase thread with
  | .idle => none
  | .outOfBounds => none
  | .pushCalled item =>
    let slot := int32 w.pushCount
    let w := { w with pushCount := w.pushCount + 1 }
    if sizeT slot ≥ w.maxSize then some (w.returnToken thread item (-1))
    else some (w.move thread (.pushSlot item slot.toNat))
  | .pushSlot item slot =>
    match w.stacks_[slot / w.unitSize]? with
    | none => some (w.move thread .outOfBounds)
    | some none =>
      some ({ w with heap := Function.update w.heap w.allocated fun _ => default,
                     allocated := w.allocated + 1 }.move thread
        (.pushAllocated item slot w.allocated))
    | some (some oldStack) => some (w.move thread (.pushChunk item slot oldStack))
  | .pushAllocated item slot newStack =>
    match w.stacks_[slot / w.unitSize]? with
    | none => some (w.move thread .outOfBounds)
    | some none =>
      some ({ w with stacks_ := w.stacks_.set (slot / w.unitSize) (some newStack),
                     installed := w.installed ++ [slot / w.unitSize] }.move thread
        (.pushChunk item slot newStack))
    | some (some oldStack) => some (w.move thread (.pushChunk item slot oldStack))
  | .pushChunk item slot oldStack =>
    let subSlot := slot - slot / w.unitSize * w.unitSize
    some ({ w with heap := Function.update w.heap oldStack
                     (Function.update (w.heap oldStack) subSlot item) }.returnToken thread item slot)
  | .getCalled token pushed =>
    if sizeT token > w.maxSize then some (w.returnItem thread pushed .fail)
    else
      match w.stacks_[token / w.unitSize]? with
      | none => some (w.move thread .outOfBounds)
      | some none => some (w.returnItem thread pushed .fail)
      | some (some oldStack) => some (w.move thread (.getChunk token oldStack pushed))
  | .getChunk token oldStack pushed =>
    let subSlot := token - token / w.unitSize * w.unitSize
    some (w.returnItem thread pushed (.found (w.heap oldStack subSlot)))

/-- The item whose push returned this token. -/
def itemOf (w : StackWorld α) (token : Nat) : Option α :=
  (w.returned.find? fun r => r.2 = (token : Int)).map Prod.fst

/-- A thread calls `get` only with a token that a push has returned. -/
def step [Inhabited α] (w : StackWorld α) : StackStep α → Option (StackWorld α)
  | .push thread item =>
    match w.phase thread with
    | .idle => some { w.move thread (.pushCalled item) with calls := w.calls + 1 }
    | _ => none
  | .get thread token =>
    match w.phase thread, w.itemOf token with
    | .idle, some pushed => some (w.move thread (.getCalled token pushed))
    | _, _ => none
  | .advance thread => w.advance thread

end StackWorld

end CoplusLean
