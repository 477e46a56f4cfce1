import CoplusLean.Proofs.ArenaSafety

/-!
# Filling the pages of a bin

`Init` succeeds when the system commits. Calls of `Malloc` of one small size then fill one
page after the other. What a `Free` into a full page leads to is computed from there: its
only free object is taken for one that was never served, and a page in the middle of its bin
that is moved to the front leaves its successor with a wrong `hPri`.
-/

namespace CoplusLean

open Lib

namespace Arena

variable {a b : Arena} {n s h : Int}

/-! ## The heap counters -/

/-- The two counters of the heap belong together. -/
def Counters (a : Arena) : Prop := a.kMemoryReservedStart = a.kHeapAllocPage * 4096

lemma allocMemFromHeap_of_room (ha : a.Counters) (hroom : a.kHeapAllocPage + n ≤ 180224) :
    a.allocMemFromHeap (n * 4096) true = some (a.kMemoryReservedStart,
      { a with
        kMemoryReservedStart := a.kMemoryReservedStart + n * 4096
        kHeapAllocPage := a.kHeapAllocPage + n }) := by
  have htotal : kPageTotalSize = 180224 := by decide
  have hbytes : kTotalSizeByte = 738197504 := by decide
  have hlen : kPageLen = 4096 := rfl
  unfold Counters at ha
  have hdiv : n * 4096 / 4096 = n := by omega
  unfold allocMemFromHeap
  rw [htotal, hbytes, hlen, hdiv, if_neg (by omega), if_pos rfl]

/-- A chunk of `n` pages. -/
lemma alloc_of_room (ha : a.Counters) (hroom : a.kHeapAllocPage + n ≤ 180224) :
    ∃ b, a.allocArbitaryChunkFromHeap n true = some b ∧ b.Counters ∧
      b.kHeapAllocPage = a.kHeapAllocPage + n := by
  have hlen : kPageLen = 4096 := rfl
  unfold allocArbitaryChunkFromHeap
  rw [hlen, allocMemFromHeap_of_room ha hroom]
  refine ⟨_, rfl, ?_, ?_⟩
  · unfold Counters at ha ⊢
    dsimp only
    split_ifs <;> simp only [set_kHeapAllocPage, set_kMemoryReservedStart, setHead_kHeapAllocPage,
      setHead_kMemoryReservedStart] <;> omega
  · dsimp only
    split_ifs <;> simp only [set_kHeapAllocPage, setHead_kHeapAllocPage]

lemma allocChunks_of_room (hn : 0 ≤ n) (k : Nat) (ha : a.Counters)
    (hroom : a.kHeapAllocPage + n * k ≤ 180224) :
    ∃ b, allocChunks n (fun _ => true) k a = some b ∧ b.Counters ∧
      b.kHeapAllocPage = a.kHeapAllocPage + n * k := by
  induction k with
  | zero => exact ⟨a, rfl, ha, by simp⟩
  | succ k ih =>
    rw [Nat.cast_succ, Int.mul_add, Int.mul_one] at hroom ⊢
    obtain ⟨c, hc, hcounters, hheap⟩ := ih (by omega)
    obtain ⟨b, hb, hcounters', hheap'⟩ := alloc_of_room (n := n) hcounters (by omega)
    refine ⟨b, ?_, hcounters', by omega⟩
    rw [allocChunks, hc, Option.bind_some, hb]

/-- `Init` with any numbers of chunks for which there is room. -/
lemma chunks_of_room (mem : Memory) (j k : Nat) (hroom : 6 + 2 * (j : Int) + 60 * k ≤ 180224) :
    ∃ a, ((allocMemFromHeap ⟨mem, 0, 0⟩ (kPageLen * kSelfReservedPage) true).bind
      fun (_, a) => (allocChunks 2 (fun _ => true) j a.constructTables).bind
        (allocChunks kSpanSlotSize (fun _ => true) k)) = some a ∧
      a.kHeapAllocPage = 6 + 2 * (j : Int) + 60 * k := by
  have hsize : kPageLen * kSelfReservedPage = 6 * 4096 := by decide
  have hstart : Counters ⟨mem, 0, 0⟩ := rfl
  rw [hsize, allocMemFromHeap_of_room hstart (show (0 : Int) + 6 ≤ 180224 by decide),
    Option.bind_some]
  dsimp only
  generalize hfirst : (⟨mem, 0 + 6 * 4096, 0 + 6⟩ : Arena) = first
  have hsix : first.constructTables.kHeapAllocPage = 6 := by
    rw [← hfirst]
    rfl
  have htables : first.constructTables.Counters := by
    rw [← hfirst]
    exact (rfl : (0 : Int) + 6 * 4096 = (0 + 6) * 4096)
  obtain ⟨b, hb, hcounters, hheap⟩ := allocChunks_of_room (n := 2) (by omega) j htables (by omega)
  obtain ⟨c, hc, -, hheap'⟩ := allocChunks_of_room (n := kSpanSlotSize) (by decide) k hcounters
    (by rw [kSpanSlotSize]; omega)
  refine ⟨c, ?_, ?_⟩
  · rw [hb, Option.bind_some, hc]
  · rw [kSpanSlotSize] at hheap'
    omega

lemma init_of_room (mem : Memory) :
    ∃ a, init mem (fun _ => true) = some a ∧ a.kHeapAllocPage = 61702 := by
  obtain ⟨a, ha, hheap⟩ := chunks_of_room mem 128 1024 (by decide)
  exact ⟨a, ha, hheap⟩

@[simp] lemma memset_kHeapAllocPage (a : Arena) (ptr n : Int) (v : BitVec 8) :
    (a.memset ptr v n).kHeapAllocPage = a.kHeapAllocPage := rfl

lemma popSpan_kHeapAllocPage (a : Arena) (slot h : Int) :
    (a.popSpan slot h).kHeapAllocPage = a.kHeapAllocPage := by
  unfold popSpan linkedNodeDeleteHead
  split_ifs <;> rfl

lemma addRest_kHeapAllocPage (a : Arena) (h k : Int) :
    (a.addRest h k).kHeapAllocPage = a.kHeapAllocPage := by
  unfold addRest
  dsimp only
  split_ifs <;> rfl

lemma makePage_kHeapAllocPage (a : Arena) (h s : Int) :
    (a.makePage h s).2.kHeapAllocPage = a.kHeapAllocPage := by
  unfold makePage pushBin
  dsimp only
  split_ifs <;> rfl

lemma biggerSpan_of_room (ha : a.Counters) (hroom : a.kHeapAllocPage + 60 ≤ 180224) (k : Int) :
    ∃ big b, a.biggerSpan k true = some (big, b) ∧ b.kHeapAllocPage ≤ a.kHeapAllocPage + 60 := by
  unfold biggerSpan
  dsimp only
  split
  · obtain ⟨b, hb, -, hheap⟩ := alloc_of_room (n := kSpanSlotSize) ha hroom
    refine ⟨a.searchSpan (int16 (k + 1)) - 1, b, ?_, le_of_eq hheap⟩
    rw [allocMaxChunkFromHeap, hb]
    rfl
  · exact ⟨_, a, rfl, by omega⟩

/-- With room for another chunk, a new page can be made. -/
lemma newPage_of_room (ha : a.Counters) (hroom : a.kHeapAllocPage + 60 ≤ 180224) (s : Int) :
    (a.newPage s true).1 ≠ .badAlloc ∧
      (a.newPage s true).2.kHeapAllocPage ≤ a.kHeapAllocPage + 60 := by
  obtain ⟨big, b, hbig, hheap⟩ := biggerSpan_of_room ha hroom (binSpanSize s)
  have hmade : ∀ c h, (makePage c h s).1 ≠ .badAlloc := by
    intro c h
    unfold makePage
    simp
  unfold newPage
  simp only [hbig]
  split_ifs
  · refine ⟨hmade _ _, ?_⟩
    rw [makePage_kHeapAllocPage, popSpan_kHeapAllocPage]
    omega
  · exact ⟨by simp, hheap⟩
  · refine ⟨hmade _ _, ?_⟩
    rw [makePage_kHeapAllocPage, addRest_kHeapAllocPage, popSpan_kHeapAllocPage]
    exact hheap

/-- With room for another chunk, a chunk can be served. -/
lemma mallocBig_of_room (ha : a.Counters) (hroom : a.kHeapAllocPage + 60 ≤ 180224) (k : Int) :
    (a.mallocBig k true).1 ≠ .badAlloc := by
  obtain ⟨big, b, hbig, -⟩ := biggerSpan_of_room ha hroom k
  unfold mallocBig
  simp only [hbig]
  split_ifs <;> simp

/-! ## Filling pages -/

/-- The objects of a page from which the first `k` objects were served. -/
def filled (s : Int) (k : Nat) : PageObjects :=
  ⟨((List.range k).map (objectOffset s)).reverse, [], k⟩

lemma filled_one (s : Int) : filled s 1 = ⟨[16], [], 1⟩ := by simp [filled, objectOffset]

lemma serve_filled (s : Int) (k : Nat) : (filled s k).serve s = filled s (k + 1) := by
  simp [filled, PageObjects.serve, List.range_succ]

lemma mem_filled {k : Nat} {o : Int} : o ∈ (filled s k).used ↔ ∃ j < k, objectOffset s j = o := by
  simp [filled]

lemma chain_filled (s : Int) (k : Nat) :
    (filled s k).chain s = if Fits s k then [objectOffset s k] else [] := rfl

variable {live : List Int} {g : Layout} {obj : Int → PageObjects} {k : Nat}

/-- The pages of the bin are `pages`, all of them full. -/
structure Stage (a : Arena) (live : List Int) (s : Int) (k : Nat) (pages : List Int) (g : Layout)
    (obj : Int → PageObjects) : Prop where
  holds : Holds a live g obj
  list : g.list (.bin s) = pages
  full : ∀ x ∈ pages, obj x = filled s k

lemma Holds.oFree_eq (hw : Holds a live g obj) (huse : g.use h = some (n, .page s)) :
    a.get (.oFree h) = ((obj h).chain s).headD 0 := by
  rw [get_oFree, (hw.pages h n s huse).oFree]

lemma Holds.root_eq (hw : Holds a live g obj) (h1 : 1 ≤ s) (h39 : s ≤ 39)
    (hlist : (g.list (.bin s)).head? = some h) : a.get (.bin s) = h := by
  have hi : (ListId.bin s).Valid := ⟨by omega, by omega⟩
  rw [hw.spans.lists.root_eq _ hi, List.headD_eq_head?_getD, hlist]
  rfl

/-- The first page of the bin is the one that `Malloc` looks at when it has a free object. -/
lemma Holds.candidate_eq (hw : Holds a live g obj) (h1 : 1 ≤ s) (h39 : s ≤ 39)
    (hlist : (g.list (.bin s)).head? = some h) (hfree : 1 < a.get (.oFree h)) :
    a.candidate s = h := by
  unfold candidate
  simp only [hw.root_eq h1 h39 hlist]
  rw [if_neg (by omega)]

lemma Holds.mallocSmall_first (hw : Holds a live g obj) (h1 : 1 ≤ s) (h39 : s ≤ 39)
    (hlist : (g.list (.bin s)).head? = some h) (hfree : 1 < a.get (.oFree h)) (commit : Bool) :
    a.mallocSmall s commit = a.takeObject h s := by
  have hmem := List.mem_of_head? hlist
  obtain ⟨hh, -⟩ := hw.spans.use_page (hw.spans.bin_use h1 h39 hmem)
  have hb := hw.spans.sound.bounds hh
  unfold Arena.mallocSmall
  simp only [hw.candidate_eq h1 h39 hlist hfree]
  rw [if_pos (by omega)]

/-- The page whose first objects were served goes on with the next. -/
lemma Holds.serveNext (hw : Holds a live g obj) (h1 : 1 ≤ s) (h39 : s ≤ 39)
    (hlist : (g.list (.bin s)).head? = some h) (hobj : obj h = filled s k) (hfits : Fits s k)
    (commit : Bool) :
    (a.mallocSmall s commit).1 = .block (ptrOf h + objectOffset s k) ∧
      Holds (a.mallocSmall s commit).2 ((ptrOf h + objectOffset s k) :: live) g
        (Function.update obj h (filled s (k + 1))) ∧
      (a.mallocSmall s commit).2.kHeapAllocPage = a.kHeapAllocPage := by
  have hi : (ListId.bin s).Valid := ⟨by omega, by omega⟩
  have ht := kBinSlotTemplate_bounds h1 h39
  have hmem : h ∈ g.list (.bin s) := List.mem_of_head? hlist
  have huse := hw.spans.bin_use h1 h39 hmem
  obtain ⟨hh, hkind, -⟩ := hw.spans.use_page huse
  have hb := hw.spans.sound.bounds hh
  have hchain : (obj h).chain s = [objectOffset s k] := by rw [hobj, chain_filled, if_pos hfits]
  have hfree : a.get (.oFree h) = objectOffset s k := by
    rw [hw.oFree_eq huse, hchain]
    rfl
  have hoff := hfits.bound h1 h39
  have hsmall := hw.mallocSmall_first h1 h39 hlist (by omega) commit
  have hserved := hw.spans.takeObject hh hkind (hw.pages h _ s huse) hchain (by
    rintro ⟨-, -, hused⟩
    rw [hobj, mem_filled, ← objectOffset_succ] at hused
    obtain ⟨j, hj, heq⟩ := hused
    have := objectOffset_injective h1 h39 heq
    omega)
  have hholds := (hw.addObject huse hserved).1
  rw [hobj, serve_filled] at hholds
  rw [hsmall]
  refine ⟨hserved.block, hholds, ?_⟩
  rw [takeObject_eq rfl hfree]
  dsimp only
  split_ifs <;> rfl

/-- No page of the bin has a free object. -/
lemma Stage.oFree_eq_zero {pages : List Int} (hw : Stage a live s k pages g obj) (h1 : 1 ≤ s)
    (h39 : s ≤ 39) (hfull : ¬Fits s k) {x : Int} (hx : x ∈ g.list (.bin s)) :
    a.get (.oFree x) = 0 := by
  rw [hw.holds.oFree_eq (hw.holds.spans.bin_use h1 h39 hx), hw.full x (hw.list ▸ hx), chain_filled,
    if_neg hfull]
  rfl

lemma Stage.reuseOk {pages : List Int} (hw : Stage a live s k pages g obj) (h1 : 1 ≤ s)
    (h39 : s ≤ 39) (hfull : ¬Fits s k) : a.ReuseOk s live := by
  intro hpos hopen
  have hmem := hw.holds.spans.candidate_mem (s := s) ⟨by omega, by omega⟩ hpos
  have hzero := hw.oFree_eq_zero h1 h39 hfull hmem
  omega

/-- Behind the objects that were served in a row no object is in use. -/
lemma Holds.reuseOk_filled (hw : Holds a live g obj) (h1 : 1 ≤ s) (h39 : s ≤ 39)
    (hlist : (g.list (.bin s)).head? = some h) (hobj : obj h = filled s k) (hfits : Fits s k) :
    a.ReuseOk s live := by
  have huse := hw.spans.bin_use h1 h39 (List.mem_of_head? hlist)
  obtain ⟨hh, hkind, hlen, -⟩ := hw.spans.use_page huse
  have hoff := hfits.bound h1 h39
  have ht := kBinSlotTemplate_bounds h1 h39
  have hfree : a.get (.oFree h) = objectOffset s k := by
    rw [hw.oFree_eq huse, hobj, chain_filled, if_pos hfits]
    rfl
  intro _ _ _ hroom hlive
  rw [hw.candidate_eq h1 h39 hlist (by omega), hfree] at hroom hlive
  obtain ⟨x, o, ho, heq⟩ := (hw.mem _).1 hlive
  -- the block that would be there is one of the same page
  obtain ⟨n, -, -, hhandle, -⟩ := hw.spans.block_cases hw.pages ho
  have hown : a.spanHandleOf (pageHandleOf (ptrOf h + (objectOffset s k + kBinSlotTemplate s))) =
      h := by
    apply hw.spans.spanHandleOf_ptr hh (by omega)
    simp only [ptrOf_eq]
    omega
  rw [← heq, hown] at hhandle
  subst hhandle
  have hsame : o = objectOffset s (k + 1) := by
    rw [objectOffset_succ]
    omega
  rw [blocks, huse] at ho
  simp only [hobj] at ho
  obtain ⟨j, hj, hoffset⟩ := mem_filled.1 ho
  have hindex := objectOffset_injective h1 h39 (hoffset.trans hsame)
  omega

/-- A free object that links to another one is not taken for one that was never served. -/
lemma Holds.reuseOk_linked (hw : Holds a live g obj) (h1 : 1 ≤ s) (h39 : s ≤ 39)
    (hlist : (g.list (.bin s)).head? = some h) {o o' : Int} {t : List Int}
    (hchain : (obj h).chain s = o :: o' :: t) : a.ReuseOk s live := by
  have huse := hw.spans.bin_use h1 h39 (List.mem_of_head? hlist)
  have hp := hw.pages h _ s huse
  have hfree : a.get (.oFree h) = o := by
    rw [hw.oFree_eq huse, hchain]
    rfl
  have ho := hp.chain_bounds h1 h39 (o := o) (by simp [hchain])
  have ho' := hp.chain_bounds h1 h39 (o := o') (by simp [hchain])
  intro _ _ hzero
  rw [hw.candidate_eq h1 h39 hlist (by omega), hfree] at hzero
  have hlink := hp.chained
  rw [hchain] at hlink
  have hnext : a.mem.load16 (ptrOf h + o) = o' := hlink.1
  omega

/-- Where all pages of the bin are full, a new one is made. -/
lemma Stage.nextPage {pages : List Int} (hw : Stage a live s k pages g obj) (h1 : 1 ≤ s)
    (h39 : s ≤ 39) (hfull : ¬Fits s k) (hroom : a.kHeapAllocPage + 60 ≤ 180224) :
    ∃ h g', h ∉ pages ∧ (a.mallocSmall s true).1 = .block (ptrOf h + 16) ∧
      Holds (a.mallocSmall s true).2 ((ptrOf h + 16) :: live) g'
        (Function.update obj h (filled s 1)) ∧
      g'.list (.bin s) = h :: pages ∧
      (a.mallocSmall s true).2.kHeapAllocPage ≤ a.kHeapAllocPage + 60 := by
  have hi : (ListId.bin s).Valid := ⟨by omega, by omega⟩
  have hcounters : a.Counters := hw.holds.spans.reserved
  have hcandidate : ¬(a.candidate s > 0 ∧ a.get (.oFree (a.candidate s)) > 1) := by
    rintro ⟨hpos, hopen⟩
    rw [hw.oFree_eq_zero h1 h39 hfull (hw.holds.spans.candidate_mem hi hpos)] at hopen
    omega
  have hsmall : a.mallocSmall s true = a.newPage s true := by
    unfold Arena.mallocSmall
    exact if_neg hcandidate
  obtain ⟨hserves, hheap⟩ := newPage_of_room hcounters hroom s
  rw [hsmall]
  rcases hw.holds.spans.newPage hw.holds.settled h1 h39 true with
    hthrow | ⟨h, g', hblock, hentered, hsettled⟩
  · rw [hthrow] at hserves
    exact absurd rfl hserves
  · have hholds := hw.holds.addPage hentered hsettled h1 h39
    rw [← filled_one s] at hholds
    have hlist : g'.list (.bin s) = h :: pages := by rw [hentered.bins, if_pos rfl, hw.list]
    have hnodup := hholds.spans.lists.nodup _ hi
    rw [hlist, List.nodup_cons] at hnodup
    exact ⟨h, g', hnodup.1, hblock, hholds, hlist, hheap⟩

end Arena

namespace ArenaWorld

open Arena

variable {w : ArenaWorld} {s : Int} {k : Nat}

/-- The bin of `s` has these pages, each with `k` objects in use and no other, and the heap has
room. -/
def FullPages (w : ArenaWorld) (s : Int) (k : Nat) (pages : List Int) (room : Int) : Prop :=
  (∃ g obj, Stage w.arena w.live s k pages g obj) ∧ w.arena.kHeapAllocPage + room ≤ 180224

/-- A call of `Malloc` for an object; the new world is named so that it is not unfolded. -/
lemma step_malloc {size : Int} (hsize : 1 ≤ size) (hmax : size ≤ 4080) (hslot : binSlot size = s)
    (commit : Bool) :
    ∃ w', w.step (.malloc size commit) = some w' ∧
      w'.arena = (w.arena.unmark.mallocSmall s commit).2 ∧
      w'.live = served w.live (w.arena.unmark.mallocSmall s commit).1 := by
  have hlimit : kMaxObjectAvailable = 4080 := rfl
  have hmalloc : w.arena.unmark.malloc (int32 size) commit =
      w.arena.unmark.mallocSmall s commit := by
    unfold Arena.malloc
    rw [int32_of_lt (by omega) (by omega), if_neg (by omega), if_neg (by omega), hslot]
  refine ⟨_, rfl, ?_, ?_⟩
  · dsimp only
    rw [hmalloc]
  · dsimp only
    rw [hmalloc]

lemma careful_malloc {size : Int} (hsize : 1 ≤ size) (hmax : size ≤ 4080)
    (hslot : binSlot size = s) (hreuse : w.arena.ReuseOk s w.live) (commit : Bool) :
    Careful w (.malloc size commit) := by
  have hlimit : kMaxObjectAvailable = 4080 := rfl
  have hcall : w.arena.MallocCareful (int32 size) w.live := by
    unfold MallocCareful
    rw [int32_of_lt (by omega) (by omega), if_neg (by omega), hslot]
    exact fun _ => hreuse
  exact hcall

/-- The first page of the bin has `j` objects in use, the others are full. -/
def FrontPage (w : ArenaWorld) (s : Int) (j k : Nat) (h : Int) (pages : List Int) (room : Int) :
    Prop :=
  (∃ g obj, Holds w.arena w.live g obj ∧ g.list (.bin s) = h :: pages ∧ obj h = filled s j ∧
    ∀ x ∈ pages, obj x = filled s k) ∧ w.arena.kHeapAllocPage + room ≤ 180224

section fill

variable {size h room : Int} {pages : List Int} {j : Nat} (hsize : 1 ≤ size) (hmax : size ≤ 4080)
  (hslot : binSlot size = s)

include hsize hmax hslot

lemma slot_bounds : 1 ≤ s ∧ s ≤ 39 := by
  obtain ⟨h1, h39, -⟩ := binSlot_spec hsize hmax
  rw [← hslot]
  exact ⟨h1, h39⟩

/-- One more object of the first page. -/
lemma FrontPage.step (hw : FrontPage w s j k h pages room) (hfits : Fits s j) :
    ∃ w', w.step (.malloc size true) = some w' ∧ FrontPage w' s (j + 1) k h pages room := by
  obtain ⟨⟨g, obj, hholds, hlist, hobj, hfull⟩, hroom⟩ := hw
  obtain ⟨h1, h39⟩ := slot_bounds hsize hmax hslot
  have hi : (ListId.bin s).Valid := ⟨by omega, by omega⟩
  have hnodup := hholds.spans.lists.nodup _ hi
  rw [hlist, List.nodup_cons] at hnodup
  obtain ⟨hblock, hnext, hheap⟩ := hholds.unmark.serveNext h1 h39 (by rw [hlist]; rfl) hobj hfits true
  obtain ⟨w', hstep, harena, hlive⟩ := step_malloc (w := w) hsize hmax hslot true
  rw [hblock] at hlive
  rw [← harena] at hnext hheap
  refine ⟨w', hstep, ⟨g, Function.update obj h (filled s (j + 1)), ?_, hlist, ?_, ?_⟩, ?_⟩
  · rw [hlive]
    exact hnext
  · rw [Function.update_self]
  · intro x hx
    rw [Function.update_of_ne (ne_of_mem_of_not_mem hx hnodup.1), hfull x hx]
  · rw [hheap]
    exact hroom

lemma FrontPage.careful (hw : FrontPage w s j k h pages room) (hfits : Fits s j) :
    Careful w (.malloc size true) := by
  obtain ⟨⟨g, obj, hholds, hlist, hobj, -⟩, -⟩ := hw
  obtain ⟨h1, h39⟩ := slot_bounds hsize hmax hslot
  exact careful_malloc hsize hmax hslot
    (hholds.reuseOk_filled h1 h39 (by rw [hlist]; rfl) hobj hfits) true

lemma FrontPage.exec (hw : FrontPage w s j k h pages room) (m : Nat)
    (hfits : ∀ i < j + m, Fits s i) :
    ∃ w', exec ArenaWorld.step w (List.replicate m (.malloc size true)) = some w' ∧
      Along ArenaWorld.step Careful w (List.replicate m (.malloc size true)) ∧
      FrontPage w' s (j + m) k h pages room := by
  induction m generalizing w j with
  | zero => exact ⟨w, rfl, trivial, hw⟩
  | succ m ih =>
    obtain ⟨u, hu, hnext⟩ := hw.step hsize hmax hslot (hfits j (by omega))
    obtain ⟨w', hrun, hcareful, hdone⟩ := ih hnext fun i hi => hfits i (by omega)
    rw [List.replicate_succ]
    refine ⟨w', ?_, ?_, by rwa [show j + 1 + m = j + (m + 1) by omega] at hdone⟩
    · rw [exec_cons, hu, Option.bind_some, hrun]
    · exact along_cons hu (hw.careful hsize hmax hslot (hfits j (by omega))) hcareful

/-- As many calls as a page has objects fill a new page. -/
lemma FullPages.fill (hw : FullPages w s k pages (room + 60)) (hspace : 0 ≤ room) (hk : 1 ≤ k)
    (hfits : ∀ i < k, Fits s i) (hfull : ¬Fits s k) :
    ∃ w' h, Lib.exec ArenaWorld.step w (List.replicate k (.malloc size true)) = some w' ∧
      Along ArenaWorld.step Careful w (List.replicate k (.malloc size true)) ∧
      FullPages w' s k (h :: pages) room := by
  obtain ⟨⟨g, obj, hstage⟩, hroom⟩ := hw
  obtain ⟨h1, h39⟩ := slot_bounds hsize hmax hslot
  obtain ⟨n, rfl⟩ : ∃ n, k = n + 1 := ⟨k - 1, by omega⟩
  have hsame : w.arena.unmark.kHeapAllocPage = w.arena.kHeapAllocPage := rfl
  obtain ⟨h, g', hnot, hblock, hholds, hlist, hheap⟩ :=
    (Stage.mk hstage.holds.unmark hstage.list hstage.full).nextPage h1 h39 hfull (by omega)
  obtain ⟨u, hfirst, harena, hlive⟩ := step_malloc (w := w) hsize hmax hslot true
  rw [hblock] at hlive
  rw [← harena] at hholds hheap
  have hfront : FrontPage u s 1 (n + 1) h pages room := by
    refine ⟨⟨g', Function.update obj h (filled s 1), ?_, hlist, ?_, fun x hx => ?_⟩, ?_⟩
    · rw [hlive]
      exact hholds
    · rw [Function.update_self]
    · rw [Function.update_of_ne (ne_of_mem_of_not_mem hx hnot), hstage.full x hx]
    · omega
  obtain ⟨w', hrun, hcareful, ⟨g₁, obj₁, hholds₁, hlist₁, hobj₁, hfull₁⟩, hroom₁⟩ :=
    hfront.exec hsize hmax hslot n fun i hi => hfits i (by omega)
  rw [List.replicate_succ]
  refine ⟨w', h, ?_, ?_, ⟨g₁, obj₁, hholds₁, hlist₁, ?_⟩, hroom₁⟩
  · rw [exec_cons, hfirst, Option.bind_some, hrun]
  · exact along_cons hfirst
      (careful_malloc hsize hmax hslot (hstage.reuseOk h1 h39 hfull) true) hcareful
  · intro x hx
    rcases List.mem_cons.1 hx with rfl | hx
    · rw [hobj₁, Nat.add_comm]
    · exact hfull₁ x hx

end fill

/-- After `Init` the bin is empty. -/
lemma fullPages_init {mem : Memory} {commit : Nat → Bool} {a : Arena} {room : Int}
    (ha : init mem commit = some a) (h1 : 1 ≤ s) (h39 : s ≤ 39)
    (hroom : a.kHeapAllocPage + room ≤ 180224) : FullPages ⟨a, []⟩ s k [] room := by
  obtain ⟨g, hg⟩ := unused_init ha
  have hi : (ListId.bin s).Valid := ⟨by omega, by omega⟩
  have hholds := hg.holds fun _ => filled s k
  refine ⟨⟨g, fun _ => filled s k, hholds, ?_, by simp⟩, hroom⟩
  rw [List.eq_nil_iff_forall_not_mem]
  intro h hmem
  have huse := hholds.spans.bin_use h1 h39 hmem
  rw [hg.none] at huse
  cases huse

end ArenaWorld

namespace Arena

variable {a : Arena} {live : List Int} {g : Layout} {obj : Int → PageObjects} {h s n o : Int}

/-- An object goes back to the first page of its bin, which stays where it is. -/
lemma Holds.free_first (hw : Holds a live g obj) (huse : g.use h = some (n, .page s))
    (hlist : (g.list (.bin s)).head? = some h) (ho : o ∈ (obj h).used) :
    Returned a g h s (obj h) o (a.free (ptrOf h + o)) := by
  obtain ⟨hh, hkind, hlen, h1, h39, hsize⟩ := hw.spans.use_page huse
  have hi : (ListId.bin s).Valid := ⟨by omega, by omega⟩
  have hb := hw.spans.sound.bounds hh
  have hflag := hw.spans.page h s hh hkind
  have hroot := hw.root_eq h1 h39 hlist
  have hkeep : (a.set (.nUsed h) (a.get (.nUsed h) - 1)).KeepPage h := by
    refine .inr (.inr ?_)
    rw [get_set_field, if_neg (by simp), hflag, neg_neg, get_table_set_field a _ hi hb.1, hroot]
  have hret := hw.spans.releaseObject hh hkind (hw.pages h n s huse) ho
  rw [hw.free_eq huse ho hkeep]
  have hroot' := hret.spans.lists.root_eq _ hi
  have hflag' := hret.spans.page h s hh hkind
  generalize (a.set (.nUsed h) (a.get (.nUsed h) - 1)).releaseObject h (ptrOf h + o) = b at *
  have hsame : b.moveToFront h = b := by
    unfold moveToFront
    dsimp only
    rw [hflag', neg_neg, hroot', List.headD_eq_head?_getD, hlist]
    exact if_neg (lt_irrefl _)
  rw [hsame]
  exact hret

lemma Holds.of_returned (hw : Holds a live g obj) (huse : g.use h = some (n, .page s))
    (ho : o ∈ (obj h).used) {b : Arena} (hret : Returned a g h s (obj h) o b) :
    Holds b (live.erase (ptrOf h + o)) g (Function.update obj h ((obj h).release o)) := by
  have hpages := hw.pages.of_guarded hw.spans huse hret.agree hret.page
  apply hw.erase (by simpa [blocks, huse] using ho) hret.spans hw.settled hpages
  intro x
  by_cases hxh : x = h
  · subst hxh
    simp [blocks, huse, PageObjects.release]
  · simp [blocks, hxh]

/-- The first page of a bin is not moved. -/
lemma Holds.freeCareful_first (hw : Holds a live g obj) (huse : g.use h = some (n, .page s))
    (hlist : (g.list (.bin s)).head? = some h) (ho : o ∈ (obj h).used) :
    a.FreeCareful (ptrOf h + o) := by
  obtain ⟨hh, hkind, -, h1, h39, -⟩ := hw.spans.use_page huse
  have hblock : o ∈ blocks g obj h := by simpa [blocks, huse] using ho
  obtain ⟨m, -, -, hhandle, -⟩ := hw.spans.block_cases hw.pages hblock
  unfold FreeCareful MoveOk
  simp only [hhandle, hw.spans.page h s hh hkind, neg_neg, hw.root_eq h1 h39 hlist]
  exact fun _ hne => absurd rfl hne

/-- The end of the free objects is taken for an object that was never served, and a link is
stored behind it. -/
lemma takeObject_stores (hfree : a.get (.oFree h) = o) (ho : 16 ≤ o)
    (hzero : a.mem.load16 (ptrOf h + o) = 0)
    (hroom : o + 2 * kBinSlotTemplate s ≤ binSpanSize s * 4096) :
    (a.takeObject h s).1 = .block (ptrOf h + o) ∧
      (a.takeObject h s).2.mem.touched (ptrOf h + o + kBinSlotTemplate s) = true := by
  have hmem := set_mem_field a .nUsed h (a.get (.nUsed h) + 1)
  have hzero₁ : (a.set (.nUsed h) (a.get (.nUsed h) + 1)).mem.load16 (ptrOf h + o) = 0 := by
    rw [hmem, Memory.load16_write, hzero]
    simp only [Field.offset, Field.short, if_true]
    omega
  rw [takeObject_eq rfl hfree, if_pos ⟨hzero₁, hroom⟩]
  refine ⟨rfl, ?_⟩
  have hfour : kPageOffsetSize = 4 := rfl
  simp only [memset, Memory.memset, Memory.write, hfour]
  rw [if_pos (by omega)]

/-- The first object of a full page was freed: it is the only free one. -/
lemma Returned.only {b : Arena} {k : Nat} (hret : Returned a g h s (filled s k) o b)
    (hfull : ¬Fits s k) : b.get (.oFree h) = o ∧ b.mem.load16 (ptrOf h + o) = 0 := by
  have hchain : ((filled s k).release o).chain s = [o] := by
    have hempty := chain_filled s k
    rw [if_neg hfull] at hempty
    exact congrArg (o :: ·) hempty
  have hlink := hret.page.chained
  rw [hchain] at hlink
  refine ⟨?_, hlink.1⟩
  rw [get_oFree, hret.page.oFree, hchain]
  rfl

/-- A page that has a predecessor and a successor is moved to the front: `hPri` of the
successor is the successor itself. -/
lemma Spans.moveToFront_middle (hs : Spans a g 0) (h1 : 1 ≤ s) (h39 : s ≤ 39) {x y : Int}
    (hlist : g.list (.bin s) = [x, h, y]) (hless : a.get (.nUsed x) > a.get (.nUsed h)) :
    ¬(a.moveToFront h).BinLinked s := by
  have hi : (ListId.bin s).Valid := ⟨by omega, by omega⟩
  have hlinked := hs.lists.linked _ hi
  have hnodup := hs.lists.nodup _ hi
  have hroot : a.get (.bin s) = x := by rw [hs.lists.root_eq _ hi, hlist]; rfl
  have hbounds : ∀ z ∈ g.list (.bin s), 1 ≤ z ∧ z ≤ 180218 := fun z hz => hs.bounds_of_mem hi hz
  have hmem := (hs.sound.mem_bin (h := h) hi).1 (by simp [hlist])
  rw [hlist] at hlinked hnodup hbounds
  have hx := hbounds x (by simp)
  have hh := hbounds h (by simp)
  have hy := hbounds y (by simp)
  obtain ⟨-, -, -, hnext, -⟩ := hlinked
  have hnext : a.get (.hNext h) = y := hnext
  simp only [List.nodup_cons, List.mem_cons, List.not_mem_nil, or_false, not_or] at hnodup
  obtain ⟨⟨hxh, hxy⟩, hhy, -⟩ := hnodup
  have hflag := hs.page h s hmem.1 hmem.2
  have hwrap : ∀ z : Int, 1 ≤ z → z ≤ 180218 → int32 z = z := fun z h0 h1 =>
    int32_of_lt (by omega) (by omega)
  have hmove : a.moveToFront h = (((((a.set (.hPri x) h).set (.hNext x) y).set (.hPri y) y).set
      (.hNext h) x).set (.hPri h) 0).set (.bin s) h := by
    unfold Arena.moveToFront
    simp only [hflag, neg_neg, hroot]
    rw [if_pos hless]
    simp [hnext, Ne.symm hxh]
  rw [hmove]
  rintro ⟨l, hbin, hlinked', -, -⟩
  simp only [get_set_table _ _ hi hi, if_true, hwrap h hh.1 hh.2] at hbin
  cases l with
  | nil =>
    simp only [List.headD_nil] at hbin
    omega
  | cons z t =>
    obtain rfl : h = z := hbin
    obtain ⟨-, hsecond, hrest⟩ := hlinked'
    simp only [get_field_set_table _ _ hi hh.1, get_set_field, reduceCtorEq, false_and, if_false,
      and_self, if_true, Field.wrap_hNext, hwrap x hx.1 hx.2] at hsecond
    cases t with
    | nil =>
      simp only [List.headD_nil] at hsecond
      omega
    | cons z t =>
      obtain rfl : x = z := hsecond
      obtain ⟨-, hthird, hrest⟩ := hrest
      simp only [get_field_set_table _ _ hi hx.1, get_set_field, reduceCtorEq, false_and, if_false,
        true_and, if_true, if_neg hxh, Field.wrap_hNext, hwrap y hy.1 hy.2] at hthird
      cases t with
      | nil =>
        simp only [List.headD_nil] at hthird
        omega
      | cons z t =>
        obtain rfl : y = z := hthird
        have hpri := hrest.1
        simp only [get_field_set_table _ _ hi hy.1, get_set_field, reduceCtorEq, false_and,
          if_false, true_and, if_true, if_neg (Ne.symm hhy), Field.wrap_hPri,
          hwrap y hy.1 hy.2] at hpri
        exact hxy hpri.symm

lemma binSlot_largest : binSlot 4080 = 39 := by
  obtain ⟨h1, h39, hsize⟩ := binSlot_spec (show (1 : Int) ≤ 4080 by decide) (by decide)
  generalize binSlot 4080 = slot at *
  interval_cases slot <;> first | rfl | exact absurd hsize (by decide)

end Arena

namespace ArenaWorld

open Arena

lemma step_free {w : ArenaWorld} {ptr : Int} (hptr : ptr ∈ w.live) :
    ∃ w', w.step (.free ptr) = some w' ∧ w'.arena = w.arena.unmark.free ptr ∧
      w'.live = w.live.erase ptr := by
  refine ⟨_, if_pos hptr, ?_, ?_⟩
  · dsimp only
  · dsimp only

variable {w : ArenaWorld} {g : Layout} {obj : Int → PageObjects} {h s o : Int}

/-- An object of the first page of a bin is freed. -/
lemma step_free_first (hw : Holds w.arena w.live g obj) (h1 : 1 ≤ s) (h39 : s ≤ 39)
    (hlist : (g.list (.bin s)).head? = some h) (ho : o ∈ (obj h).used) :
    ∃ w', w.step (.free (ptrOf h + o)) = some w' ∧ Careful w (.free (ptrOf h + o)) ∧
      Holds w'.arena w'.live g (Function.update obj h ((obj h).release o)) := by
  have huse := hw.spans.bin_use h1 h39 (List.mem_of_head? hlist)
  have hptr : ptrOf h + o ∈ w.live := (hw.mem _).2 ⟨h, o, by simpa [blocks, huse] using ho, rfl⟩
  obtain ⟨w', hstep, harena, hlive⟩ := step_free hptr
  have hcareful : w.arena.FreeCareful (ptrOf h + o) := hw.freeCareful_first huse hlist ho
  refine ⟨w', hstep, hcareful, ?_⟩
  rw [harena, hlive]
  exact hw.unmark.of_returned huse ho (hw.unmark.free_first huse hlist ho)

/-- An object that was freed is served again. -/
lemma step_malloc_again {size o' : Int} {t : List Int} (hw : Holds w.arena w.live g obj)
    (hsize : 1 ≤ size) (hmax : size ≤ 4080) (hslot : binSlot size = s)
    (hlist : (g.list (.bin s)).head? = some h) (hchain : (obj h).chain s = o :: o' :: t) :
    ∃ w', w.step (.malloc size true) = some w' ∧ Careful w (.malloc size true) ∧
      w'.live = (ptrOf h + o) :: w.live := by
  obtain ⟨h1, h39⟩ := slot_bounds hsize hmax hslot
  have huse := hw.spans.bin_use h1 h39 (List.mem_of_head? hlist)
  obtain ⟨hh, hkind, -⟩ := hw.spans.use_page huse
  have hfree : w.arena.unmark.get (.oFree h) = o := by
    rw [hw.unmark.oFree_eq huse, hchain]
    rfl
  have hb := (hw.pages h _ s huse).chain_bounds h1 h39 (hchain ▸ List.mem_cons_self)
  obtain ⟨w', hstep, -, hlive⟩ := step_malloc (w := w) hsize hmax hslot true
  refine ⟨w', hstep, ?_, ?_⟩
  · exact careful_malloc hsize hmax hslot (hw.reuseOk_linked h1 h39 hlist hchain) true
  · rw [hlive, hw.unmark.mallocSmall_first h1 h39 hlist (by omega),
      (hw.unmark.spans.takeObject_block hh hkind hfree hb.1).1]
    rfl

end ArenaWorld

end CoplusLean
