import CoplusLean.Models.Arena

/-!
# `Arena` with its clients

Clients call `Malloc` and `Free`, or `allocator<T>::allocate` over them, and write to the
blocks they have got and not given back. The marks of the memory are cleared at the start of
each call, so that they tell what the call has stored to.
-/

namespace CoplusLean

open Lib

namespace Arena

/-- The bytes a client may use of the block at `ptr`: an object of its bin, or the span behind
its header. -/
def capacity (a : Arena) (ptr : Int) : Int :=
  let hPage := a.spanHandleOf (pageHandleOf ptr)
  if a.get (.flag hPage) ≤ 0 then kBinSlotTemplate (-a.get (.flag hPage))
  else a.get (.flag hPage) * kPageLen - kSpanHeaderSize

/-- `allocator<T>::allocate` for a type of `size` bytes: the product is a `size_t`, the
parameter of `Malloc` an `int32_t`. -/
def allocate (a : Arena) (size n : Nat) (commit : Bool) : Outcome × Arena :=
  a.malloc (int32 (sizeT (n * size))) commit

/-- `allocator<T>::max_size` -/
def maxSize (size : Nat) : Nat := sizeT kTotalSizeByte / size

def unmark (a : Arena) : Arena := { a with mem := a.mem.unmark }

end Arena

structure ArenaWorld where
  arena : Arena
  /-- The blocks that were served and not yet freed. -/
  live : List Int

inductive ArenaStep where
  | malloc (size : Int) (commit : Bool)
  | free (ptr : Int)
  | write (ptr x : Int) (b : BitVec 8)
deriving DecidableEq, Repr

namespace ArenaWorld

/-- The live blocks after a call of `Malloc` with this outcome. -/
def served (live : List Int) : Arena.Outcome → List Int
  | .block ptr => ptr :: live
  | .null => live
  | .badAlloc => live

def step (w : ArenaWorld) : ArenaStep → Option ArenaWorld
  | .malloc size commit =>
    let r := w.arena.unmark.malloc (int32 size) commit
    some ⟨r.2, served w.live r.1⟩
  | .free ptr =>
    if ptr ∈ w.live then some ⟨w.arena.unmark.free ptr, w.live.erase ptr⟩ else none
  | .write ptr x b =>
    if ptr ∈ w.live ∧ ptr ≤ x ∧ x < ptr + w.arena.capacity ptr then
      some { w with arena := { w.arena with mem := w.arena.mem.write x 1 fun _ => b } }
    else none

end ArenaWorld

end CoplusLean
