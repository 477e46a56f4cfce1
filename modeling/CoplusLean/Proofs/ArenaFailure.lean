import CoplusLean.Proofs.ArenaRuns

/-!
# When `Malloc` throws

A request fails only where the first two pages of its bin have no free object, no free span
is long enough and the heap has no room for another chunk; then nothing was written. All that
matters of the state is that the heap counters agree and that the tables hold handles.
-/

namespace CoplusLean.Arena

open Lib

/-- The lists of free spans and of bin pages are well linked and within the heap, and the two
counters of the heap agree. -/
structure WellLinked (a : Arena) : Prop where
  lists : ∃ l : ListId → List Int,
    ListFamily 0 ListId.Valid (fun i => a.get (.table i)) (fun h => a.get (.hPri h))
      (fun h => a.get (.hNext h)) l ∧
    ∀ i, i.Valid → ∀ h ∈ l i, 1 ≤ h ∧ h ≤ a.kHeapAllocPage - kSelfReservedPage
  heap : kSelfReservedPage ≤ a.kHeapAllocPage ∧ a.kHeapAllocPage ≤ kPageTotalSize
  reserved : a.kMemoryReservedStart = a.kHeapAllocPage * kPageLen

/-- One of the first two pages of the bin has a free object. -/
def ServesObject (a : Arena) (slot : Int) : Prop :=
  ∃ h, (h = a.get (.bin slot) ∨ 0 < a.get (.bin slot) ∧ h = a.get (.hNext (a.get (.bin slot)))) ∧
    0 < h ∧ 1 < a.get (.oFree h)

/-- The number of pages a request needs. -/
def pagesNeeded (size : Int) : Int :=
  if size ≤ kMaxObjectAvailable then binSpanSize (binSlot size) else spanSlotOf size

variable {a b : Arena} {k slot size : Int}

lemma pagesNeeded_bounds (h1 : 1 ≤ size) (hsize : size ≤ 245748) :
    1 ≤ pagesNeeded size ∧ pagesNeeded size ≤ 60 := by
  unfold pagesNeeded
  split
  · have hbounds := binSpanSize_bounds (binSlot size)
    omega
  · rw [spanSlotOf_eq h1 hsize]
    omega

lemma WellLinked.table_nonneg (ha : a.WellLinked) {i : ListId} (hi : i.Valid) :
    0 ≤ a.get (.table i) := by
  obtain ⟨l, hl, hbounds⟩ := ha.lists
  by_cases hz : a.get (.table i) = 0
  · exact hz.ge
  · have hfirst := hbounds i hi _ (hl.mem_of_root_ne hi hz)
    omega

/-- What the operations keep is more than is needed here. -/
theorem WellFormed.wellLinked (ha : a.WellFormed) : a.WellLinked := by
  obtain ⟨g, hs, -⟩ := ha
  have hself : kSelfReservedPage = 6 := by decide
  have htotal : kPageTotalSize = 180224 := by decide
  have htop := hs.sound.top_bounds
  have hheap := hs.heap
  refine ⟨⟨g.list, hs.lists, ?_⟩, ⟨by omega, by omega⟩, hs.reserved⟩
  intro i hi h hh
  have hspan := hs.sound.span h (hs.head_of_mem hi hh).1
  omega

/-! ## The search for a span -/

lemma le_searchSpan (a : Arena) (k : Int) : k ≤ a.searchSpan k := by
  fun_induction a.searchSpan k with
  | case1 k hempty ih => omega
  | case2 k hstop => exact le_rfl

lemma searchSpan_skips (a : Arena) {j : Int} (hkj : k ≤ j) (hj : j < a.searchSpan k) :
    a.get (.spanList j) ≤ 0 := by
  fun_induction a.searchSpan k with
  | case1 k hempty ih =>
    rcases eq_or_lt_of_le hkj with heq | hlt
    · rw [← heq]
      exact hempty.1
    · exact ih (by omega) hj
  | case2 k hstop => omega

/-- The search ends within the table exactly where a span is long enough. -/
lemma searchSpan_le_iff (a : Arena) (hk : k ≤ 61) :
    a.searchSpan k ≤ 60 ↔ ∃ j, k ≤ j ∧ j ≤ 60 ∧ 0 < a.get (.spanList j) := by
  obtain ⟨hge, -, hpos⟩ := searchSpan_spec a rfl hk
  constructor
  · exact fun hle => ⟨_, hge, hle, hpos hle⟩
  · rintro ⟨j, hkj, hj, hspan⟩
    by_contra hgt
    have hskip := searchSpan_skips a hkj (by omega)
    omega

/-- The heap gives no chunk: the system refuses, or there is no room for one. -/
def HeapRefuses (a : Arena) (commit : Bool) : Prop :=
  commit = false ∨ kPageTotalSize < a.kHeapAllocPage + kSpanSlotSize

lemma allocMaxChunkFromHeap_eq_none_iff
    (hres : a.kMemoryReservedStart = a.kHeapAllocPage * kPageLen) {commit : Bool} :
    a.allocMaxChunkFromHeap commit = none ↔ a.HeapRefuses commit := by
  have hpage : kPageLen = 4096 := rfl
  rw [hpage] at hres
  have hslot : kSpanSlotSize = 60 := rfl
  have htotal : kTotalSizeByte = kPageTotalSize * 4096 := rfl
  have hdiv : kSpanSlotSize * kPageLen / kPageLen = 60 := by decide
  rw [allocMaxChunkFromHeap, allocArbitaryChunkFromHeap, Option.map_eq_none_iff, allocMemFromHeap,
    hdiv, HeapRefuses, hslot, hpage, htotal]
  cases commit with
  | false => simp
  | true =>
    rw [if_pos rfl]
    constructor
    · intro hnone
      refine .inr ?_
      by_contra hroom
      rw [if_neg (by omega)] at hnone
      cases hnone
    · rintro (hfalse | hfull)
      · cases hfalse
      · exact if_pos (.inl hfull)

/-- A chunk from the heap is the first free span of its length. -/
lemma allocMaxChunkFromHeap_pos (ha : a.WellLinked) {commit : Bool}
    (hb : a.allocMaxChunkFromHeap commit = some b) : 0 < b.get (.spanList 60) := by
  have hself : kSelfReservedPage = 6 := by decide
  have htotal : kPageTotalSize = 180224 := by decide
  have hpage : kPageLen = 4096 := rfl
  have hheap := ha.heap
  have hres := ha.reserved
  rw [hpage] at hres
  rw [allocMaxChunkFromHeap, allocArbitaryChunkFromHeap] at hb
  obtain ⟨⟨p, c⟩, halloc, rfl⟩ := Option.map_eq_some_iff.1 hb
  obtain ⟨hp, -⟩ := allocMemFromHeap_eq_some halloc
  have hhandle : pageHandleOf p = a.kHeapAllocPage - 5 := by
    rw [pageHandleOf_eq, hp]
    omega
  have hi : (ListId.span 60).Valid := ⟨by omega, by omega⟩
  have hslot : kSpanSlotSize = 60 := rfl
  simp only [hhandle, hslot]
  rw [get_table_set_field _ _ hi (by omega), get_set_table _ _ hi hi, if_pos rfl,
    int32_of_lt (by omega) (by omega)]
  omega

/-- A request for `k` pages can be met from the free spans or from the heap. -/
def HasSpan (a : Arena) (k : Int) : Prop :=
  (∃ j, k ≤ j ∧ j ≤ 60 ∧ 0 < a.get (.spanList j)) ∨ a.kHeapAllocPage + 60 ≤ kPageTotalSize

/-- Where no span of `k` pages is free, a longer one is found unless there is none. -/
lemma biggerSpan_cases (ha : a.WellLinked) (h1 : 1 ≤ k) (h60 : k ≤ 60)
    (hempty : ¬0 < a.get (.spanList k)) :
    (a.biggerSpan k true = none ∧ ¬a.HasSpan k) ∨
      ∃ big b, a.biggerSpan k true = some (big, b) ∧ 0 < b.get (.spanList big) ∧ a.HasSpan k := by
  have hslot : kSpanSlotSize = 60 := rfl
  have hw : int16 (k + 1) = k + 1 := int16_of_lt (by omega) (by omega)
  obtain ⟨hge, hle, hpos⟩ := searchSpan_spec a rfl (show k + 1 ≤ 61 by omega)
  have hiff := searchSpan_le_iff a (show k + 1 ≤ 61 by omega)
  unfold Arena.biggerSpan
  rw [hw, hslot]
  dsimp only
  generalize a.searchSpan (k + 1) = r at *
  by_cases hr : r > 60
  · -- every list from `k` on is empty, the heap decides
    have hnone : ¬∃ j, k ≤ j ∧ j ≤ 60 ∧ 0 < a.get (.spanList j) := by
      rintro ⟨j, hkj, hj, hspan⟩
      rcases eq_or_lt_of_le hkj with rfl | hlt
      · exact hempty hspan
      · have hfound := hiff.2 ⟨j, by omega, hj, hspan⟩
        omega
    obtain rfl : r = 61 := by omega
    rw [if_pos hr]
    cases halloc : a.allocMaxChunkFromHeap true with
    | none =>
      have hfull := (allocMaxChunkFromHeap_eq_none_iff ha.reserved).1 halloc
      simp only [HeapRefuses, Bool.true_eq_false, false_or] at hfull
      exact .inl ⟨rfl, fun h => h.elim hnone (not_le.2 hfull)⟩
    | some b =>
      have hroom : ¬kPageTotalSize < a.kHeapAllocPage + 60 := by
        intro hfull
        rw [(allocMaxChunkFromHeap_eq_none_iff ha.reserved).2 (.inr hfull)] at halloc
        cases halloc
      exact .inr ⟨60, b, rfl, allocMaxChunkFromHeap_pos ha halloc, .inr (not_lt.1 hroom)⟩
  · rw [if_neg hr]
    have hspan := hpos (by omega)
    exact .inr ⟨r, a, rfl, hspan, .inl ⟨r, by omega, by omega, hspan⟩⟩

/-- What is left for a request of this slot, whatever the slot: nothing in the lists that the
call looks at, and no chunk of the heap. -/
def Exhausted (a : Arena) (slot : Int) (commit : Bool) : Prop :=
  a.get (.spanList slot) ≤ 0 ∧
    (∀ j, int16 (slot + 1) ≤ j → j ≤ kSpanSlotSize → a.get (.spanList j) ≤ 0) ∧
    a.HeapRefuses commit

/-- The search leaves the table exactly where every list it looks at is empty. -/
lemma searchSpan_gt_iff (a : Arena) :
    60 < a.searchSpan k ↔ ∀ j, k ≤ j → j ≤ 60 → a.get (.spanList j) ≤ 0 := by
  rcases le_or_gt k 61 with hk | hk
  · rw [← not_le, searchSpan_le_iff a hk]
    push Not
    exact Iff.rfl
  · constructor
    · exact fun _ j hkj h60 => by omega
    · have hle := le_searchSpan a k
      omega

lemma biggerSpan_eq_none_iff (hres : a.kMemoryReservedStart = a.kHeapAllocPage * kPageLen)
    {commit : Bool} : a.biggerSpan slot commit = none ↔
      (∀ j, int16 (slot + 1) ≤ j → j ≤ 60 → a.get (.spanList j) ≤ 0) ∧ a.HeapRefuses commit := by
  have hslot : kSpanSlotSize = 60 := rfl
  rw [← searchSpan_gt_iff, ← allocMaxChunkFromHeap_eq_none_iff hres]
  unfold Arena.biggerSpan
  dsimp only
  rw [hslot]
  split
  · rename_i hr
    rw [Option.map_eq_none_iff, and_iff_right hr]
  · rename_i hr
    exact iff_of_false (Option.some_ne_none _) fun h => hr h.1

/-- A chunk of whatever slot is refused exactly where nothing is left. -/
lemma mallocBig_throws_iff (hres : a.kMemoryReservedStart = a.kHeapAllocPage * kPageLen)
    {commit : Bool} : (a.mallocBig slot commit).1 = .badAlloc ↔ a.Exhausted slot commit := by
  have hnone : (a.get (.spanList slot) ≤ 0 ∧ a.biggerSpan slot commit = none) ↔
      a.Exhausted slot commit := and_congr_right fun _ => biggerSpan_eq_none_iff hres
  rw [← hnone]
  -- the result is named so that the call is unfolded in its equation only
  obtain ⟨r, hr⟩ : ∃ r, a.mallocBig slot commit = r := ⟨_, rfl⟩
  rw [hr]
  unfold mallocBig at hr
  dsimp only at hr
  split at hr
  · rename_i hpos
    refine iff_of_false ?_ fun h => absurd h.1 (not_le.2 hpos)
    simp [← hr]
  · rename_i hempty
    rw [and_iff_right (not_lt.1 hempty)]
    split at hr
    · rename_i hbig
      exact iff_of_true (by simp [← hr]) hbig
    · rename_i hbig
      refine iff_of_false ?_ (by simp [hbig])
      split at hr <;> simp [← hr]

/-! ## The two paths -/

/-- How a call that needs `k` pages ends. -/
structure Fails (a : Arena) (k : Int) (r : Outcome × Arena) : Prop where
  iff : r.1 = .badAlloc ↔ ¬a.HasSpan k
  unchanged : r.1 = .badAlloc → r.2 = a
  not_null : r.1 ≠ .null

lemma Fails.of_block {r : Outcome × Arena} (hr : ∃ p, r.1 = .block p) (hspan : a.HasSpan k) :
    Fails a k r := by
  obtain ⟨p, hp⟩ := hr
  constructor <;> simp [hp, hspan]

lemma Fails.of_throw (hspan : ¬a.HasSpan k) : Fails a k (.badAlloc, a) :=
  ⟨by simpa using hspan, fun _ => rfl, by simp⟩

lemma mallocBig_fails (ha : a.WellLinked) (h1 : 1 ≤ k) (h60 : k ≤ 60) :
    Fails a k (a.mallocBig k true) := by
  unfold mallocBig
  dsimp only
  split
  · rename_i hpos
    exact .of_block ⟨_, rfl⟩ (.inl ⟨k, le_rfl, h60, hpos⟩)
  · rename_i hempty
    rcases biggerSpan_cases ha h1 h60 hempty with ⟨hnone, hspan⟩ | ⟨big, b, hbig, hpos, hspan⟩
    · rw [hnone]
      exact .of_throw hspan
    · rw [hbig]
      dsimp only
      rw [if_neg (not_le.2 hpos)]
      exact .of_block ⟨_, rfl⟩ hspan

lemma newPage_fails (ha : a.WellLinked) : Fails a (binSpanSize slot) (a.newPage slot true) := by
  have hsize := binSpanSize_bounds slot
  unfold newPage
  dsimp only
  split
  · rename_i hpos
    exact .of_block ⟨_, rfl⟩ (.inl ⟨_, le_rfl, by omega, hpos⟩)
  · rename_i hempty
    rcases biggerSpan_cases ha (by omega) (by omega) hempty with
      ⟨hnone, hspan⟩ | ⟨big, b, hbig, hpos, hspan⟩
    · rw [hnone]
      exact .of_throw hspan
    · rw [hbig]
      dsimp only
      rw [if_neg (not_le.2 hpos)]
      exact .of_block ⟨_, rfl⟩ hspan

/-- The page that `Malloc` looks at stands for the first two. -/
lemma servesObject_iff (a : Arena) (slot : Int) :
    a.ServesObject slot ↔ a.candidate slot > 0 ∧ a.get (.oFree (a.candidate slot)) > 1 := by
  unfold ServesObject candidate
  dsimp only
  generalize a.get (.bin slot) = first
  constructor
  · rintro ⟨h, heq | ⟨hfirst, heq⟩, hpos, hfree⟩
    · rw [heq] at hpos hfree
      have hserve : ¬(first > 0 ∧ a.get (.oFree first) ≤ 1) := fun h => absurd hfree (not_lt.2 h.2)
      rw [if_neg hserve]
      exact ⟨hpos, hfree⟩
    · rw [heq] at hpos hfree
      split
      · exact ⟨hpos, hfree⟩
      · rename_i hfull
        exact ⟨hfirst, not_le.1 fun h => hfull ⟨hfirst, h⟩⟩
  · rintro ⟨hpos, hfree⟩
    split at hpos
    · rename_i hfull
      rw [if_pos hfull] at hfree
      exact ⟨_, .inr ⟨hfull.1, rfl⟩, hpos, hfree⟩
    · rename_i hfull
      rw [if_neg hfull] at hfree
      exact ⟨_, .inl rfl, hpos, hfree⟩

lemma takeObject_served (a : Arena) (h slot : Int) : ∃ p, (a.takeObject h slot).1 = .block p := by
  unfold takeObject
  dsimp only
  split <;> exact ⟨_, rfl⟩

lemma malloc_eq_mallocBig (a : Arena) (hsize : size ≤ 245748) (hbig : kMaxObjectAvailable < size)
    (commit : Bool) :
    pagesNeeded size = spanSlotOf size ∧
      a.malloc size commit = a.mallocBig (spanSlotOf size) commit := by
  have hmax : kMaxObjectAvailable = 4080 := rfl
  have hslot := spanSlotOf_eq (n := size) (by omega) hsize
  unfold malloc pagesNeeded
  rw [if_neg (not_le.2 hbig), if_neg (by omega), if_pos hbig, int16_of_lt (by omega) (by omega)]
  exact ⟨rfl, rfl⟩

lemma malloc_eq_mallocSmall (a : Arena) (h1 : 1 ≤ size) (hsmall : size ≤ kMaxObjectAvailable)
    (commit : Bool) :
    pagesNeeded size = binSpanSize (binSlot size) ∧
      a.malloc size commit = a.mallocSmall (binSlot size) commit := by
  unfold malloc pagesNeeded
  rw [if_pos hsmall, if_neg (by omega), if_neg (not_lt.2 hsmall)]
  exact ⟨rfl, rfl⟩

/-- The two paths put together. -/
lemma malloc_fails (ha : a.WellLinked) (h1 : 1 ≤ size) (hsize : size ≤ 245748) :
    ((a.malloc size true).1 = .badAlloc ↔
      ¬(size ≤ kMaxObjectAvailable ∧ a.ServesObject (binSlot size)) ∧
        ¬a.HasSpan (pagesNeeded size)) ∧
    ((a.malloc size true).1 = .badAlloc → (a.malloc size true).2 = a) ∧
    (a.malloc size true).1 ≠ .null := by
  have hpages := pagesNeeded_bounds h1 hsize
  rcases lt_or_ge kMaxObjectAvailable size with hbig | hsmall
  · obtain ⟨hneeded, hmalloc⟩ := malloc_eq_mallocBig a hsize hbig true
    have hfails := mallocBig_fails ha hpages.1 hpages.2
    rw [hneeded] at hfails
    rw [hmalloc, hneeded]
    refine ⟨?_, hfails.unchanged, hfails.not_null⟩
    rw [hfails.iff]
    exact (and_iff_right fun h => absurd h.1 (not_le.2 hbig)).symm
  · obtain ⟨hneeded, hmalloc⟩ := malloc_eq_mallocSmall a h1 hsmall true
    rw [hmalloc, hneeded, mallocSmall, servesObject_iff]
    split
    · rename_i hserve
      obtain ⟨p, hp⟩ := takeObject_served a (a.candidate (binSlot size)) (binSlot size)
      simp [hserve, hsmall, hp]
    · rename_i hserve
      have hfails : Fails a (binSpanSize (binSlot size)) (a.newPage (binSlot size) true) :=
        newPage_fails ha
      refine ⟨?_, hfails.unchanged, hfails.not_null⟩
      rw [hfails.iff]
      exact (and_iff_right fun h => hserve h.2).symm

/-- A request of 1 to 245748 bytes throws exactly where no object, no free span and no memory
of the heap is left for it; then the arena is as before. It never returns a null pointer. -/
theorem malloc_throws_iff (a : Arena) (ha : a.WellLinked) (size : Int) (h1 : 1 ≤ size)
    (hsize : size ≤ 245748) :
    ((a.malloc size true).1 = .badAlloc ↔
      ¬(size ≤ kMaxObjectAvailable ∧ a.ServesObject (binSlot size)) ∧
        (∀ j, pagesNeeded size ≤ j → j ≤ kSpanSlotSize → a.get (.spanList j) = 0) ∧
        kPageTotalSize < a.kHeapAllocPage + 60) ∧
    ((a.malloc size true).1 = .badAlloc → (a.malloc size true).2 = a) ∧
    (a.malloc size true).1 ≠ .null := by
  have hpages := pagesNeeded_bounds h1 hsize
  obtain ⟨hiff, hrest⟩ := malloc_fails ha h1 hsize
  refine ⟨hiff.trans (and_congr_right fun _ => ?_), hrest⟩
  have hslot : kSpanSlotSize = 60 := rfl
  rw [hslot, HasSpan, not_or, not_le]
  refine and_congr_left fun _ => ?_
  constructor
  · intro hnone j hj h60
    have hnonneg := ha.table_nonneg (i := .span j) ⟨by omega, by omega⟩
    have hpos : ¬0 < a.get (.spanList j) := fun hpos => hnone ⟨j, hj, h60, hpos⟩
    exact le_antisymm (not_lt.1 hpos) hnonneg
  · rintro hnone ⟨j, hj, h60, hpos⟩
    exact absurd (hnone j hj h60) hpos.ne'

lemma wellLinked_bare : bare.WellLinked := by
  have hself : kSelfReservedPage = 6 := by decide
  refine ⟨⟨fun _ => [], ?_, by simp⟩, ?_, ?_⟩
  · constructor <;> simp [get_bare]
  · rw [hself]
    exact ⟨le_rfl, by decide⟩
  · decide

/-- The bare arena when the heap has given all its pages away. -/
def exhausted : Arena :=
  { bare with
    kHeapAllocPage := kPageTotalSize
    kMemoryReservedStart := kPageTotalSize * kPageLen }

lemma get_exhausted (c : Cell) : exhausted.get c = 0 := get_bare c

lemma wellLinked_exhausted : exhausted.WellLinked := by
  refine ⟨⟨fun _ => [], ?_, by simp⟩, ⟨by decide, le_rfl⟩, rfl⟩
  constructor <;> simp [get_exhausted]

/-- A call that is served and one that throws. -/
theorem malloc_throws_iff_bare :
    (((bare.malloc 5000 true).1 = .badAlloc ↔
      ¬((5000 : Int) ≤ kMaxObjectAvailable ∧ bare.ServesObject (binSlot 5000)) ∧
        (∀ j, pagesNeeded 5000 ≤ j → j ≤ kSpanSlotSize → bare.get (.spanList j) = 0) ∧
        kPageTotalSize < bare.kHeapAllocPage + 60) ∧
    ((bare.malloc 5000 true).1 = .badAlloc → (bare.malloc 5000 true).2 = bare) ∧
    (bare.malloc 5000 true).1 ≠ .null) ∧
    (exhausted.malloc 5000 true).1 = .badAlloc ∧ (exhausted.malloc 5000 true).2 = exhausted := by
  refine ⟨malloc_throws_iff bare wellLinked_bare 5000 (by decide) (by decide), ?_⟩
  obtain ⟨hiff, hsame, -⟩ :=
    malloc_throws_iff exhausted wellLinked_exhausted 5000 (by decide) (by decide)
  have hthrows := hiff.2 ⟨fun h => absurd h.1 (by decide), fun j _ _ => get_exhausted _, by decide⟩
  exact ⟨hthrows, hsame hthrows⟩

end CoplusLean.Arena
