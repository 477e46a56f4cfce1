import CoplusLean.Proofs.ArenaBigChunks

/-!
# Requests for a chunk

From any heap that is cut into spans, a request for a chunk of up to 60 pages ends with a heap
cut into spans, but for one case: the whole of a span that was just taken from the heap is asked
for. Then the rest of no pages gets a header, and `span_list_[0]` is no longer empty.
-/

namespace CoplusLean.Arena

open Lib

variable {a b : Arena} {g : Layout} {h k n : Int} {commit : Bool} {F S : Int → Prop}
  {len : Int → Int} {free : Int → Prop}

/-- What the operations keep is more than is needed here. -/
theorem WellFormed.tiled (ha : a.WellFormed) : ∃ len free, Tiled a len free ∧ Labelled a len free := by
  obtain ⟨g, hs, -⟩ := ha
  have hsimilar : Similar (fun _ => False) (fun _ => False) a a :=
    ⟨rfl, rfl, fun _ _ => rfl, fun _ => rfl⟩
  exact ⟨g.len, _, hs.tiled hsimilar fun h hfalse => hfalse.elim, hs.free⟩

/-! ## The longest chunk -/

/-- A chunk from the heap is asked for where no span of the greatest length is free. -/
lemma biggerSpan_longest (a : Arena) (commit : Bool) (hk : k = 60) :
    a.biggerSpan k commit = (a.allocMaxChunkFromHeap commit).map fun b => (k, b) := by
  have hslot : kSpanSlotSize = 60 := rfl
  have hw : int16 (k + 1) = k + 1 := int16_of_lt (by omega) (by omega)
  obtain ⟨hge, hle, -⟩ := searchSpan_spec a rfl (show k + 1 ≤ 61 by omega)
  unfold Arena.biggerSpan
  rw [hw, hslot]
  dsimp only
  generalize a.searchSpan (k + 1) = r at hge hle ⊢
  have hr : r - 1 = k := by omega
  rw [if_pos (by omega), hr]

lemma mallocBig_longest_none (hk : k = 60) (hempty : a.get (.spanList k) = 0)
    (hnone : a.allocMaxChunkFromHeap commit = none) : a.mallocBig k commit = (.badAlloc, a) := by
  have hbig : a.biggerSpan k commit = none := by
    rw [biggerSpan_longest a commit hk, hnone, Option.map_none]
  unfold mallocBig
  dsimp only
  rw [if_neg (not_lt_of_ge hempty.le), hbig]

lemma get_addRest (a : Arena) (h n : Int) : (a.addRest h n).get (.spanList n) = int32 h := by
  unfold addRest
  dsimp only
  rw [get_set_self]
  simp [Cell.short]

/-- The rest of no pages gets a header and becomes the first of the spans without pages. -/
lemma mallocBig_longest_some (hk : k = 60) (hempty : a.get (.spanList k) = 0)
    (hsome : a.allocMaxChunkFromHeap commit = some b) (hpos : 0 < b.get (.spanList k)) :
    ∃ p c, a.mallocBig k commit = (.block p, c) ∧
      c.get (.spanList 0) = int32 (b.get (.spanList k) + k) := by
  have hbig : a.biggerSpan k commit = some (k, b) := by
    rw [biggerSpan_longest a commit hk, hsome, Option.map_some]
  have hw : int16 (k - k) = 0 := by
    rw [sub_self]
    exact int16_of_lt (by omega) (by omega)
  unfold mallocBig
  dsimp only
  rw [if_neg (not_lt_of_ge hempty.le), hbig]
  dsimp only
  rw [if_neg (not_le_of_gt hpos), hw]
  exact ⟨_, _, rfl, get_addRest _ _ _⟩

lemma allocMaxChunkFromHeap_none (hres : a.kMemoryReservedStart = a.kHeapAllocPage * kPageLen)
    (hrefused : ¬(commit = true ∧ a.kHeapAllocPage + kSpanSlotSize ≤ kPageTotalSize)) :
    a.allocMaxChunkFromHeap commit = none := by
  rw [allocMaxChunkFromHeap_eq_none_iff hres]
  by_contra hgives
  unfold HeapRefuses at hgives
  rw [not_or, Bool.not_eq_false, not_lt] at hgives
  exact hrefused hgives

/-- The span that the heap gives is behind the old ones and within the heap. -/
lemma Represented.root_of_alloc (hr : Represented F S a b g)
    (hroom : a.kHeapAllocPage + kSpanSlotSize ≤ kPageTotalSize) :
    ∃ c, a.allocMaxChunkFromHeap true = some c ∧ 0 < c.get (.spanList kSpanSlotSize) ∧
      c.get (.spanList kSpanSlotSize) ≤ 180218 := by
  have hslot : kSpanSlotSize = 60 := rfl
  have hpage : kPageLen = 4096 := rfl
  have htop := hr.spans.sound.top_bounds
  have hres : a.kMemoryReservedStart = (g.top + 6) * 4096 := by
    rw [← hr.similar.reserved, hr.spans.reserved, hr.spans.heap]
  have hheap : a.kHeapAllocPage = g.top + 6 := by rw [← hr.similar.heap, hr.spans.heap]
  have hstart : pageHandleOf a.kMemoryReservedStart = g.top + 1 := by
    rw [pageHandleOf_eq, hres]
    omega
  have hrel := hr.similar.allocMaxChunkFromHeap (by omega) (by omega) true
  cases ha : a.allocMaxChunkFromHeap true with
  | none =>
    rw [allocMaxChunkFromHeap_eq_none_iff (by rw [hres, hheap, hpage])] at ha
    rcases ha with hfalse | hfull
    · cases hfalse
    · omega
  | some c =>
    rw [ha] at hrel
    cases hb : b.allocMaxChunkFromHeap true with
    | none =>
      rw [hb] at hrel
      cases hrel
    | some d =>
      rw [hb] at hrel
      cases hrel with
      | some hcd =>
        obtain ⟨g₁, hs₁, -, -, hpos⟩ :=
          hr.spans.allocArbitaryChunkFromHeap (n := kSpanSlotSize) hr.settled (by decide)
            (by decide) hb
        have hi : (ListId.span kSpanSlotSize).Valid := ⟨by decide, le_rfl⟩
        have hbounds := hs₁.root_bounds hi
        have htop₁ := hs₁.sound.top_bounds
        have hroot := hcd.get_spanList (k := kSpanSlotSize) (by decide) (by decide)
        rw [hroot] at hpos hbounds
        exact ⟨c, rfl, hpos, hbounds.2.trans htop₁.2⟩

lemma Tiled.not_carves (ha : Tiled a len free) (hempty : a.get (.spanList kSpanSlotSize) = 0)
    (hroom : a.kHeapAllocPage + kSpanSlotSize ≤ kPageTotalSize) :
    ¬Carves a len free kSpanSlotSize (a.mallocBig kSpanSlotSize true) := by
  obtain ⟨F, S, b, g, hr, -⟩ := ha.represented
  obtain ⟨c, halloc, hpos, hle⟩ := hr.root_of_alloc hroom
  have hslot : kSpanSlotSize = 60 := rfl
  obtain ⟨p, d, hserved, hrest⟩ := mallocBig_longest_some hslot hempty halloc hpos
  rw [hserved]
  rintro (hthrow | ⟨h, len', free', -, hcarved⟩)
  · cases hthrow
  · -- the rest would be in a list that a tiling has empty
    have hnone := hcarved.tiled.none
    dsimp only at hnone
    rw [hrest] at hnone
    generalize c.get (.spanList kSpanSlotSize) = r at hpos hle hnone
    rw [int32_of_lt (by omega) (by omega)] at hnone
    omega

lemma Tiled.carves (ha : Tiled a len free) (h1 : 1 ≤ k) (h60 : k ≤ kSpanSlotSize)
    (hmax : k = kSpanSlotSize → a.get (.spanList k) ≠ 0) :
    Carves a len free k (a.mallocBig k commit) := by
  obtain ⟨F, S, b, g, hr, rfl, hfree, hF⟩ := ha.represented
  obtain rfl : (fun h => g.kind h = .free) = free := funext fun h => propext (hfree h)
  apply hr.carves hF h1 h60
  intro hk
  have hi : (ListId.span k).Valid := ⟨by omega, h60⟩
  have hne := hmax hk
  have hbounds := (hr.spans.root_bounds hi).1
  rw [← hr.similar.get_spanList (by omega) (h60.trans (by decide))] at hne
  rw [← hk]
  exact lt_of_le_of_ne hbounds hne.symm

/-- A chunk request ends with the heap cut into spans, its pages taken from the free ones and
nothing written behind the heap, unless it takes a whole span of the greatest length fresh from
the heap. -/
theorem malloc_carves_iff (a : Arena) (len : Int → Int) (free : Int → Prop) (size : Int)
    (commit : Bool) (ha : Tiled a len free) (hbig : kMaxObjectAvailable < size)
    (hint : size + kSpanHeaderSize - 1 ≤ 2147483647) (hslot : spanSlotOf size ≤ kSpanSlotSize) :
    Carves a len free (spanSlotOf size) (a.malloc size commit) ↔
      ¬(spanSlotOf size = kSpanSlotSize ∧ a.get (.spanList kSpanSlotSize) = 0 ∧ commit = true ∧
        a.kHeapAllocPage + kSpanSlotSize ≤ kPageTotalSize) := by
  have hobject : kMaxObjectAvailable = 4080 := rfl
  have hheader : kSpanHeaderSize = 12 := rfl
  have hpage : kPageLen = 4096 := rfl
  have hmax : kSpanSlotSize = 60 := rfl
  have hsize : size ≤ 245748 := by
    unfold spanSlotOf at hslot
    rw [int32_of_lt (by omega) (by omega), hheader, hpage] at hslot
    omega
  have hneeded := pagesNeeded_bounds (by omega) hsize
  obtain ⟨hpages, hmalloc⟩ := malloc_eq_mallocBig a hsize hbig commit
  rw [hpages] at hneeded
  rw [hmalloc]
  generalize spanSlotOf size = k at hneeded ⊢
  by_cases hlongest : k = kSpanSlotSize ∧ a.get (.spanList kSpanSlotSize) = 0
  · obtain ⟨rfl, hempty⟩ := hlongest
    constructor
    · rintro hcarves ⟨-, -, rfl, hroom⟩
      exact ha.not_carves hempty hroom hcarves
    · intro hrefused
      left
      have hnone : a.allocMaxChunkFromHeap commit = none := by
        apply allocMaxChunkFromHeap_none ha.reserved
        exact fun h => hrefused ⟨rfl, hempty, h⟩
      rw [mallocBig_longest_none hmax hempty hnone]
  · have hcarves : Carves a len free k (a.mallocBig k commit) := by
      apply ha.carves hneeded.1 hneeded.2
      intro hk hempty
      exact hlongest ⟨hk, hk ▸ hempty⟩
    exact ⟨fun _ h => hlongest ⟨h.1, h.2.1⟩, fun _ => hcarves⟩

lemma tiled_bare : Tiled bare (fun _ => 0) (fun _ => False) := by
  have hself : kSelfReservedPage = 6 := by decide
  have hheap : bare.kHeapAllocPage = 6 := rfl
  refine ⟨by decide, by decide, by simp, ?_, ?_, ?_, get_bare _⟩
  · intro j h1 hj
    omega
  · simp [bare, isHead, Memory.bit]
  · intro k _ _
    exact ⟨[], get_bare _, trivial, List.nodup_nil, by simp⟩

theorem malloc_carves_iff_bare :
    Carves bare (fun _ => 0) (fun _ => False) (spanSlotOf 5000) (bare.malloc 5000 true) := by
  apply (malloc_carves_iff bare _ _ 5000 true tiled_bare (by decide) (by decide) (by decide)).2
  have hslot : spanSlotOf 5000 = 2 := by decide
  rw [hslot]
  simp [kSpanSlotSize]

/-- The whole of a fresh span of the greatest length is asked for. -/
theorem malloc_not_carves : Tiled bare (fun _ => 0) (fun _ => False) ∧
    kMaxObjectAvailable < 245748 ∧ spanSlotOf 245748 ≤ kSpanSlotSize ∧
    ¬Carves bare (fun _ => 0) (fun _ => False) (spanSlotOf 245748) (bare.malloc 245748 true) := by
  have hslot : spanSlotOf 245748 = 60 := by decide
  have hmalloc := (malloc_eq_mallocBig bare (le_refl 245748) (by decide) true).2
  rw [hslot] at hmalloc
  refine ⟨tiled_bare, by decide, by decide, ?_⟩
  rw [hslot, hmalloc]
  exact tiled_bare.not_carves (get_bare _) (by decide)

end CoplusLean.Arena
