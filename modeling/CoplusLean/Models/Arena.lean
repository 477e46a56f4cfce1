import CoplusLean.Lib.ByteMemory

/-!
# `Arena`: a page heap with free spans and bins of small objects

The arena keeps everything in the memory it manages. Addresses are offsets from
`kMemoryAllocStart`. The first `kSelfReservedPage` pages hold `bin_`, `span_list_` and the
bit set `is_head_`; the header of a span or of a bin page stands at the start of its first
page. `Commit` is the system's: its answer is an argument of every call that may ask for it.
-/

namespace CoplusLean

open Lib

namespace Arena

def kPageTotalSize : Int := 1024 * 16 * 11

/-- The longest span, in pages; also `kMaxChunkAvailable`. -/
def kSpanSlotSize : Int := 60

def kPageLen : Int := 4096

def kBinSlotSize : Int := 39

def kMaxObjectAvailable : Int := 4080

def kPageHandleSize : Int := 4

def kPageOffsetSize : Int := 4

def kSpanHeaderSize : Int := 12

def kPageHeaderSize : Int := 16

def kFlagSize : Int := 4

/-- `kMemoryCapacity`, and `kMemoryAllocEnd` as an offset. -/
def kTotalSizeByte : Int := kPageTotalSize * kPageLen

def kSelfReservedPage : Int :=
  ((kPageTotalSize + 1) / 8 + kPageHandleSize * (kBinSlotSize + kSpanSlotSize + 2)) / kPageLen + 1

def kBinSlotTemplate (slot : Int) : Int :=
  [0, 4, 8, 16, 32, 48, 56, 64, 72, 80, 88, 96, 112, 128, 144, 160, 176, 192,
    208, 224, 240, 256, 272, 288, 320, 352, 384, 448, 512, 576, 672, 800,
    1024, 1088, 1344, 1632, 2016, 2720, 3040, 4080].getD slot.toNat 0

def ptrOf (hPage : Int) : Int := (hPage + kSelfReservedPage - 1) * kPageLen

def spanSlotOf (nSize : Int) : Int := int32 (nSize + kSpanHeaderSize - 1) / kPageLen + 1

def pageHandleOf (ptr : Int) : Int := ptr / kPageLen - kSelfReservedPage + 1

def binSpanSize (binSlot : Int) : Int :=
  if binSlot > 37 then 6 else if binSlot ≥ 32 then 4 else 2

/-- The loop of `BinSlot`. -/
def searchBinSlot (size lo hi : Int) : Int :=
  if hi > lo + 1 then
    let mid := lo + (hi - lo) / 2
    if kBinSlotTemplate mid = size then mid
    else if kBinSlotTemplate mid < size then searchBinSlot size mid hi
    else searchBinSlot size lo mid
  else hi
termination_by (hi - lo).toNat

def binSlot (size : Int) : Int :=
  if size ≤ 48 then
    if size ≤ 4 then 1
    else if size ≤ 8 then 2
    else if size ≤ 16 then 3
    else if size ≤ 32 then 4
    else 5
  else if size ≤ 96 then (size - 1) / 8
  else if size ≤ 288 then (size - 1) / 16 + 6
  else searchBinSlot size 24 kBinSlotSize

/-- The lists of pages: the pages of a bin, and the free spans of a length. -/
inductive ListId where
  | bin (slot : Int)
  | span (slot : Int)
deriving DecidableEq, Repr

/-- The fields of `SpanHeader` and `PageHeader`, packed. -/
inductive Field where
  | flag
  | hPri
  | hNext
  | oFree
  | nUsed
deriving DecidableEq, Repr

/-- An integer the arena keeps in its memory: an entry of `bin_` or `span_list_`, or a field
of the header of a page. -/
inductive Cell where
  | table (i : ListId)
  | field (f : Field) (hPage : Int)
deriving DecidableEq, Repr

def ListId.addr : ListId → Int
  | bin slot => kPageHandleSize * slot
  | span slot => kPageHandleSize * (kBinSlotSize + 1) + kPageHandleSize * slot

def Field.offset : Field → Int
  | flag => 0
  | hPri => 4
  | hNext => 8
  | oFree => 12
  | nUsed => 14

/-- `oFree` and `nUsed` are `int16_t`, the other fields `int32_t`. -/
def Field.short : Field → Bool
  | oFree => true
  | nUsed => true
  | _ => false

namespace Cell

abbrev bin (slot : Int) : Cell := table (.bin slot)

abbrev spanList (slot : Int) : Cell := table (.span slot)

abbrev flag (hPage : Int) : Cell := field .flag hPage

abbrev hPri (hPage : Int) : Cell := field .hPri hPage

abbrev hNext (hPage : Int) : Cell := field .hNext hPage

abbrev oFree (hPage : Int) : Cell := field .oFree hPage

abbrev nUsed (hPage : Int) : Cell := field .nUsed hPage

def addr : Cell → Int
  | table i => i.addr
  | field f hPage => ptrOf hPage + f.offset

def short : Cell → Bool
  | table _ => false
  | field f _ => f.short

end Cell

/-- The address of `is_head_`, a `bitset<kPageTotalSize + 1>`. -/
def isHeadAddr : Int :=
  kPageHandleSize * (kBinSlotSize + 1) + kPageHandleSize * (kSpanSlotSize + 1)

/-- The size of `is_head_`: whole words of 32 bits. -/
def isHeadSize : Int := (kPageTotalSize + 1 + 31) / 32 * 4

end Arena

structure Arena where
  mem : Memory
  kMemoryReservedStart : Int
  kHeapAllocPage : Int

namespace Arena

def get (a : Arena) (c : Cell) : Int :=
  if c.short then a.mem.load16 c.addr else a.mem.load32 c.addr

def set (a : Arena) (c : Cell) (v : Int) : Arena :=
  { a with mem := if c.short then a.mem.store16 c.addr v else a.mem.store32 c.addr v }

def memset (a : Arena) (ptr : Int) (b : BitVec 8) (n : Int) : Arena :=
  { a with mem := a.mem.memset ptr b n }

/-- `(*is_head_)[hPage]` -/
def isHead (a : Arena) (hPage : Int) : Bool := a.mem.bit isHeadAddr hPage

def setHead (a : Arena) (hPage : Int) : Arena := { a with mem := a.mem.setBit isHeadAddr hPage }

def resetHead (a : Arena) (hPage : Int) : Arena :=
  { a with mem := a.mem.resetBit isHeadAddr hPage }

/-! ## Linked pages -/

/-- `LinkedNodeDelete`: the macro reads the links of the node again for its second half. -/
def linkedNodeDelete (a : Arena) (node : Int) : Arena :=
  let a := if a.get (.hPri node) > 0 then
      a.set (.hNext (a.get (.hPri node))) (a.get (.hNext node)) else a
  if a.get (.hNext node) > 0 then
    a.set (.hPri (a.get (.hNext node))) (a.get (.hPri node)) else a

def linkedNodeDeleteHead (a : Arena) (node : Int) : Arena :=
  if a.get (.hNext node) > 0 then
    a.memset (ptrOf (a.get (.hNext node)) + kFlagSize) 0#8 kPageHandleSize else a

/-- Takes a page out of the list at `root`, by whether it has a predecessor. -/
def unlink (a : Arena) (root : Cell) (hPage : Int) : Arena :=
  if a.get (.hPri hPage) = 0 then (a.set root (a.get (.hNext hPage))).linkedNodeDeleteHead hPage
  else a.linkedNodeDelete hPage

/-- Takes the first page out of `span_list_[slot]`. -/
def popSpan (a : Arena) (slot hPage : Int) : Arena :=
  (a.set (.spanList slot) (a.get (.hNext hPage))).linkedNodeDeleteHead hPage

/-- Links a page in as the first one of `bin_[slot]`. -/
def pushBin (a : Arena) (slot hPage : Int) : Arena :=
  let a := a.set (.hPri hPage) 0
  let a := a.set (.hNext hPage) (a.get (.bin slot))
  let a := a.set (.bin slot) hPage
  if a.get (.hNext hPage) > 0 then a.set (.hPri (a.get (.hNext hPage))) hPage else a

/-- `SpanHandleOf(PageHandle)` -/
def spanHandleOf (a : Arena) (hPage : Int) : Int :=
  if hPage > 0 ∧ ¬a.isHead hPage then a.spanHandleOf (hPage - 1) else hPage
termination_by hPage.toNat

/-! ## Heap -/

/-- `AllocMemFromHeap`; `none` is `bad_alloc`. -/
def allocMemFromHeap (a : Arena) (size : Int) (commit : Bool) : Option (Int × Arena) :=
  if a.kHeapAllocPage + size / kPageLen > kPageTotalSize ∨
      a.kMemoryReservedStart + size > kTotalSizeByte then none
  else if commit then
    some (a.kMemoryReservedStart,
      { a with
        kMemoryReservedStart := a.kMemoryReservedStart + size
        kHeapAllocPage := a.kHeapAllocPage + size / kPageLen })
  else none

def allocArbitaryChunkFromHeap (a : Arena) (page : Int) (commit : Bool) : Option Arena :=
  (a.allocMemFromHeap (page * kPageLen) commit).map fun (newSpan, a) =>
    let hNewSpan := pageHandleOf newSpan
    let a := a.setHead hNewSpan
    let a := a.set (.flag hNewSpan) page
    let a := a.set (.hNext hNewSpan) (a.get (.spanList page))
    let a := if a.get (.spanList page) > 0 then
        a.set (.hPri (a.get (.spanList page))) hNewSpan else a
    let a := a.set (.spanList page) hNewSpan
    a.set (.hPri hNewSpan) 0

def allocMaxChunkFromHeap (a : Arena) (commit : Bool) : Option Arena :=
  a.allocArbitaryChunkFromHeap kSpanSlotSize commit

/-! ## `Malloc` -/

inductive Outcome where
  | badAlloc
  | null
  | block (ptr : Int)
deriving DecidableEq, Repr

/-- The search for a bigger span; it reads the entry before it tests the bound. -/
def searchSpan (a : Arena) (bigSpanSlot : Int) : Int :=
  if a.get (.spanList bigSpanSlot) ≤ 0 ∧ bigSpanSlot ≤ kSpanSlotSize then
    a.searchSpan (bigSpanSlot + 1)
  else bigSpanSlot
termination_by (kSpanSlotSize + 1 - bigSpanSlot).toNat

/-- `bigSpanSlot` and the arena after the heap was asked for a chunk where the search went
out of bounds. -/
def biggerSpan (a : Arena) (spanSlot : Int) (commit : Bool) : Option (Int × Arena) :=
  let bigSpanSlot := a.searchSpan (int16 (spanSlot + 1))
  if bigSpanSlot > kSpanSlotSize then
    (a.allocMaxChunkFromHeap commit).map fun a => (bigSpanSlot - 1, a)
  else some (bigSpanSlot, a)

/-- Turns the pages from `hPage` on into a free span of `anotherSpan` pages. -/
def addRest (a : Arena) (hPage anotherSpan : Int) : Arena :=
  let a := a.setHead hPage
  let a := a.set (.flag hPage) anotherSpan
  let a := a.set (.hPri hPage) 0
  let a := a.set (.hNext hPage) (a.get (.spanList anotherSpan))
  let a := if a.get (.hNext hPage) > 0 then a.set (.hPri (a.get (.hNext hPage))) hPage else a
  a.set (.spanList anotherSpan) hPage

def mallocBig (a : Arena) (spanSlot : Int) (commit : Bool) : Outcome × Arena :=
  let hPage := a.get (.spanList spanSlot)
  if hPage > 0 then
    let a := a.popSpan spanSlot hPage
    let a := a.set (.hNext hPage) (-1)
    (.block (ptrOf hPage + kSpanHeaderSize), a)
  else
    match a.biggerSpan spanSlot commit with
    | none => (.badAlloc, a)
    | some (bigSpanSlot, a) =>
      let hPage := a.get (.spanList bigSpanSlot)
      if hPage ≤ 0 then (.null, a)
      else
        let a := a.popSpan bigSpanSlot hPage
        let a := a.set (.flag hPage) spanSlot
        let a := a.set (.hNext hPage) (-1)
        let a := a.addRest (hPage + spanSlot) (int16 (bigSpanSlot - spanSlot))
        (.block (ptrOf hPage + kSpanHeaderSize), a)

/-- Serves the object that `oFree` of the page points to. -/
def takeObject (a : Arena) (hPage binSlot : Int) : Outcome × Arena :=
  let a := a.set (.nUsed hPage) (a.get (.nUsed hPage) + 1)
  let freeObject := ptrOf hPage + a.get (.oFree hPage)
  if a.mem.load16 freeObject = 0 ∧ freeObject + kBinSlotTemplate binSlot * 2 ≤
      ptrOf hPage + binSpanSize binSlot * kPageLen then
    -- not initialised: the next object becomes the free one
    let a := a.set (.oFree hPage) (a.get (.oFree hPage) + kBinSlotTemplate binSlot)
    (.block freeObject, a.memset (freeObject + kBinSlotTemplate binSlot) 0#8 kPageOffsetSize)
  else
    (.block freeObject, a.set (.oFree hPage) (a.mem.load16 freeObject))

/-- Turns a span that is in no list into a page of the bin and serves its first object. -/
def makePage (a : Arena) (hPage binSlot : Int) : Outcome × Arena :=
  let a := a.set (.flag hPage) (-binSlot)
  let a := a.set (.nUsed hPage) 1
  let a := a.pushBin binSlot hPage
  let a := a.set (.oFree hPage) (kPageHeaderSize + kBinSlotTemplate binSlot)
  (.block (ptrOf hPage + kPageHeaderSize),
    a.memset (ptrOf hPage + kPageHeaderSize + kBinSlotTemplate binSlot) 0#8 kPageOffsetSize)

def newPage (a : Arena) (binSlot : Int) (commit : Bool) : Outcome × Arena :=
  let usedSpanSize := binSpanSize binSlot
  let hPage := a.get (.spanList usedSpanSize)
  if hPage > 0 then (a.popSpan usedSpanSize hPage).makePage hPage binSlot
  else
    match a.biggerSpan usedSpanSize commit with
    | none => (.badAlloc, a)
    | some (bigSpanSlot, a) =>
      let hPage := a.get (.spanList bigSpanSlot)
      if hPage ≤ 0 then (.null, a)
      else
        let a := a.popSpan bigSpanSlot hPage
        let a := a.addRest (hPage + usedSpanSize) (int16 (bigSpanSlot - usedSpanSize))
        a.makePage hPage binSlot

/-- The page `Malloc` looks at: the first of the bin, or the second when the first is full. -/
def candidate (a : Arena) (binSlot : Int) : Int :=
  let hPage := a.get (.bin binSlot)
  if hPage > 0 ∧ a.get (.oFree hPage) ≤ 1 then a.get (.hNext hPage) else hPage

def mallocSmall (a : Arena) (binSlot : Int) (commit : Bool) : Outcome × Arena :=
  let hPage := a.candidate binSlot
  if hPage > 0 ∧ a.get (.oFree hPage) > 1 then a.takeObject hPage binSlot
  else a.newPage binSlot commit

def malloc (a : Arena) (size : Int) (commit : Bool) : Outcome × Arena :=
  if size ≤ 0 then (.null, a)
  else if size > kMaxObjectAvailable then a.mallocBig (int16 (spanSlotOf size)) commit
  else a.mallocSmall (binSlot size) commit

/-! ## `Free` -/

/-- Makes a page the first of its bin when it has fewer objects in use than the first. -/
def moveToFront (a : Arena) (hPage : Int) : Arena :=
  let slot := -a.get (.flag hPage)
  let first := a.get (.bin slot)
  if a.get (.nUsed first) > a.get (.nUsed hPage) then
    let a := a.set (.hPri first) hPage
    let a := a.set (.hNext first) (a.get (.hNext hPage))
    let a := a.set (.hPri (a.get (.hNext hPage))) (a.get (.hNext hPage))
    let a := a.set (.hNext hPage) first
    let a := a.set (.hPri hPage) 0
    a.set (.bin slot) hPage
  else a

/-- The object goes to the front of the free objects of its page. -/
def releaseObject (a : Arena) (hPage ptr : Int) : Arena :=
  let a := { a with mem := a.mem.store16 ptr (a.get (.oFree hPage)) }
  a.set (.oFree hPage) (ptr - ptrOf hPage)

/-- Links a span in as the first one of its list. -/
def pushSpan (a : Arena) (hPage : Int) : Arena :=
  let slot := a.get (.flag hPage)
  let a := if a.get (.spanList slot) > 0 then a.set (.hPri (a.get (.spanList slot))) hPage else a
  let a := a.set (.hNext hPage) (a.get (.spanList slot))
  let a := a.set (.hPri hPage) 0
  a.set (.spanList slot) hPage

/-- A neighbour that may be merged: free and short enough. -/
def Mergeable (a : Arena) (hNeighbor maxToMerge : Int) : Prop :=
  a.get (.hNext hNeighbor) ≥ 0 ∧ a.get (.flag hNeighbor) > 0 ∧
    a.get (.flag hNeighbor) ≤ maxToMerge

instance (a : Arena) (hNeighbor maxToMerge : Int) : Decidable (a.Mergeable hNeighbor maxToMerge) :=
  inferInstanceAs (Decidable (_ ∧ _ ∧ _))

/-- Takes a free span out of its list and off the heads. -/
def detach (a : Arena) (hNeighbor : Int) : Arena :=
  (a.unlink (.spanList (a.get (.flag hNeighbor))) hNeighbor).resetHead hNeighbor

/-- The arena and `maxToMerge` after the look at the span behind. -/
def mergeForward (a : Arena) (hPage : Int) : Arena × Int :=
  let hNeighbor := hPage + a.get (.flag hPage)
  let maxToMerge := kSpanSlotSize - a.get (.flag hPage)
  if hNeighbor ≤ a.kHeapAllocPage - kSelfReservedPage ∧ a.Mergeable hNeighbor maxToMerge then
    let a := a.detach hNeighbor
    let a := a.set (.flag hPage) (a.get (.flag hPage) + a.get (.flag hNeighbor))
    (a, maxToMerge - a.get (.flag hNeighbor))
  else (a, maxToMerge)

/-- The arena and the handle of the merged span after the look at the span before. -/
def mergeBackward (a : Arena) (hPage maxToMerge : Int) : Arena × Int :=
  let hNeighbor := a.spanHandleOf (hPage - 1)
  if hNeighbor > 0 ∧ a.get (.spanList (a.get (.flag hPage))) > 0 ∧ a.get (.flag hPage) < 12 ∧
      a.Mergeable hNeighbor maxToMerge then
    let a := a.detach hNeighbor
    (a.set (.flag hNeighbor) (a.get (.flag hNeighbor) + a.get (.flag hPage)), hNeighbor)
  else (a, hPage)

def mergeSpan (a : Arena) (hPage : Int) : Arena :=
  let a := a.resetHead hPage
  let (a, maxToMerge) := a.mergeForward hPage
  let (a, hPage) := a.mergeBackward hPage maxToMerge
  let a := (a.setHead hPage).pushSpan hPage
  if a.get (.hNext hPage) > 0 then a.set (.hPri (a.get (.hNext hPage))) hPage else a

/-- A span goes back to the free ones: at once where its list is empty or it is long. -/
def releaseSpan (a : Arena) (hPage : Int) : Arena :=
  if a.get (.spanList (a.get (.flag hPage))) ≤ 0 ∨ a.get (.flag hPage) ≥ 12 then a.pushSpan hPage
  else a.mergeSpan hPage

/-- Whether the page stays in its bin; `nUsed` is already counted down. -/
def KeepPage (a : Arena) (hPage : Int) : Prop :=
  a.get (.nUsed hPage) > 0 ∨
    a.get (.oFree hPage) < binSpanSize (-a.get (.flag hPage)) * 512 ∨
    a.get (.bin (-a.get (.flag hPage))) = hPage

instance (a : Arena) (hPage : Int) : Decidable (a.KeepPage hPage) :=
  inferInstanceAs (Decidable (_ ∨ _ ∨ _))

def freeObject (a : Arena) (hPage ptr : Int) : Arena :=
  let a := a.set (.nUsed hPage) (a.get (.nUsed hPage) - 1)
  if a.KeepPage hPage then (a.releaseObject hPage ptr).moveToFront hPage
  else
    let a := a.unlink (.bin (-a.get (.flag hPage))) hPage
    let a := a.set (.flag hPage) (binSpanSize (-a.get (.flag hPage)))
    a.releaseSpan hPage

def free (a : Arena) (ptr : Int) : Arena :=
  let hPage := a.spanHandleOf (pageHandleOf ptr)
  if a.get (.flag hPage) ≤ 0 then a.freeObject hPage ptr else a.releaseSpan hPage

/-! ## `Init` -/

/-- `n` chunks of `page` pages; `commit i` is the answer to the `i`-th request. -/
def allocChunks (page : Int) (commit : Nat → Bool) : Nat → Arena → Option Arena
  | 0, a => some a
  | n + 1, a =>
    (allocChunks page commit n a).bind (·.allocArbitaryChunkFromHeap page (commit n))

/-- The three tables, constructed in place. -/
def constructTables (a : Arena) : Arena :=
  let a := a.memset 0 0#8 (kPageHandleSize * (kBinSlotSize + 1))
  let a := a.memset (kPageHandleSize * (kBinSlotSize + 1)) 0#8 (kPageHandleSize * (kSpanSlotSize + 1))
  a.memset isHeadAddr 0#8 isHeadSize

/-- `Init` on a fresh reservation with contents `mem`. -/
def init (mem : Memory) (commit : Nat → Bool) : Option Arena :=
  (allocMemFromHeap ⟨mem, 0, 0⟩ (kPageLen * kSelfReservedPage) (commit 0)).bind fun (_, a) =>
    (allocChunks 2 (fun i => commit (i + 1)) 128 a.constructTables).bind
      (allocChunks kSpanSlotSize (fun i => commit (i + 129)) 1024)

end Arena

end CoplusLean
