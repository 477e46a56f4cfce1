import CoplusLean.Models.Arena

/-!
# The indices that `Malloc` uses

The entries of `bin_` and `span_list_` that a call of `Malloc` reads or writes, in the order
in which it comes to them; an entry that is used again right away is listed once. Behind the
first index out of bounds nothing is known of the program, and what the list says from there
on does not matter.
-/

namespace CoplusLean.Arena

open Lib

/-- The entries that the search for a bigger span reads. -/
def searchIndices (a : Arena) (bigSpanSlot : Int) : List ListId :=
  .span bigSpanSlot ::
    if a.get (.spanList bigSpanSlot) ≤ 0 ∧ bigSpanSlot ≤ kSpanSlotSize then
      a.searchIndices (bigSpanSlot + 1)
    else []
termination_by (kSpanSlotSize + 1 - bigSpanSlot).toNat

/-- The search, and the entry to which `AllocMaxChunkFromHeap` adds a chunk. -/
def biggerIndices (a : Arena) (spanSlot : Int) (commit : Bool) : List ListId :=
  a.searchIndices (int16 (spanSlot + 1)) ++
    if a.searchSpan (int16 (spanSlot + 1)) > kSpanSlotSize ∧
        (a.allocMaxChunkFromHeap commit).isSome then
      [.span kSpanSlotSize]
    else []

/-- The list that is split, the list of the rest, and behind them what `used` adds. -/
def splitIndices (a : Arena) (bigSpanSlot spanSlot : Int) (used : List ListId) : List ListId :=
  .span bigSpanSlot ::
    if a.get (.spanList bigSpanSlot) ≤ 0 then []
    else .span (int16 (bigSpanSlot - spanSlot)) :: used

def mallocBigIndices (a : Arena) (spanSlot : Int) (commit : Bool) : List ListId :=
  .span spanSlot ::
    if a.get (.spanList spanSlot) > 0 then []
    else
      a.biggerIndices spanSlot commit ++
        match a.biggerSpan spanSlot commit with
        | none => []
        | some (bigSpanSlot, a) => a.splitIndices bigSpanSlot spanSlot []

def newPageIndices (a : Arena) (binSlot : Int) (commit : Bool) : List ListId :=
  let usedSpanSize := binSpanSize binSlot
  .span usedSpanSize ::
    if a.get (.spanList usedSpanSize) > 0 then [.bin binSlot]
    else
      a.biggerIndices usedSpanSize commit ++
        match a.biggerSpan usedSpanSize commit with
        | none => []
        | some (bigSpanSlot, a) => a.splitIndices bigSpanSlot usedSpanSize [.bin binSlot]

def mallocSmallIndices (a : Arena) (binSlot : Int) (commit : Bool) : List ListId :=
  .bin binSlot ::
    let hPage := a.candidate binSlot
    if hPage > 0 ∧ a.get (.oFree hPage) > 1 then [] else a.newPageIndices binSlot commit

def mallocIndices (a : Arena) (size : Int) (commit : Bool) : List ListId :=
  if size ≤ 0 then []
  else if size > kMaxObjectAvailable then a.mallocBigIndices (int16 (spanSlotOf size)) commit
  else a.mallocSmallIndices (binSlot size) commit

end CoplusLean.Arena
