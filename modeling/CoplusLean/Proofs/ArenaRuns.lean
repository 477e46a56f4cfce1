import CoplusLean.Lib.Run
import CoplusLean.Proofs.ArenaBlocks

/-!
# Runs of the arena

The steps of a run are calls of `Malloc` and `Free` and stores of the clients. `Careful` is
what a step must avoid: the two defects of the bins and the sizes for which `span_list_` is
left or the longest span is split.
-/

namespace CoplusLean

open Lib

namespace Arena

/-- The free object that `Malloc` would serve is not taken for one that was never served while
the object behind it is in use. -/
def ReuseOk (a : Arena) (slot : Int) (live : List Int) : Prop :=
  let h := a.candidate slot
  let o := a.get (.oFree h)
  h > 0 → o > 1 → a.mem.load16 (ptrOf h + o) = 0 →
    o + 2 * kBinSlotTemplate slot ≤ binSpanSize slot * 4096 →
      ptrOf h + (o + kBinSlotTemplate slot) ∉ live

/-- The slot of a chunk is one of `span_list_`, and the longest span need not be split. -/
def SlotOk (a : Arena) (slot : Int) : Prop :=
  1 ≤ slot ∧ slot ≤ 60 ∧ (slot = 60 → 0 < a.get (.spanList 60))

instance (a : Arena) (slot : Int) (live : List Int) : Decidable (a.ReuseOk slot live) :=
  inferInstanceAs (Decidable (_ → _ → _ → _ → _ ∉ _))

instance (a : Arena) (slot : Int) : Decidable (a.SlotOk slot) :=
  inferInstanceAs (Decidable (_ ∧ _ ∧ (_ → _)))

instance (a : Arena) (h : Int) : Decidable (a.MoveOk h) :=
  inferInstanceAs (Decidable (_ → _ → _ → _ ∧ _ ∧ _))

section malloc

variable {a : Arena} {live : List Int} {g : Layout} {obj : Int → PageObjects} {h s : Int}

/-- The page that `Malloc` looks at is a page of the bin. -/
lemma Spans.candidate_mem (hs : Spans a g 0) (hi : (ListId.bin s).Valid)
    (hpos : 0 < a.candidate s) : a.candidate s ∈ g.list (.bin s) := by
  unfold candidate at hpos ⊢
  dsimp only at hpos ⊢
  split
  · rename_i hfull
    rw [if_pos hfull] at hpos
    rcases hs.table_cases hi with ⟨hz, -⟩ | ⟨hroot, -⟩
    · exact absurd hz (ne_of_gt hfull.1)
    · rcases hs.hNext_cases hi hroot with hz | ⟨hnext, -⟩
      · exact absurd hz (ne_of_gt hpos)
      · exact hnext
  · rename_i hopen
    rw [if_neg hopen] at hpos
    rcases hs.table_cases hi with ⟨hz, -⟩ | ⟨hroot, -⟩
    · exact absurd hz (ne_of_gt hpos)
    · exact hroot

lemma Spans.candidate_use (hs : Spans a g 0) (h1 : 1 ≤ s) (h39 : s ≤ 39)
    (hpos : 0 < a.candidate s) : g.use (a.candidate s) = some (binSpanSize s, .page s) :=
  hs.bin_use h1 h39 (hs.candidate_mem ⟨by omega, by omega⟩ hpos)

/-- The capacity of an object in use and of a chunk. -/
lemma Holds.capacity_object (hw : Holds a live g obj) {n o : Int}
    (huse : g.use h = some (n, .page s)) (ho : o ∈ (obj h).used) :
    a.capacity (ptrOf h + o) = kBinSlotTemplate s := by
  have hblock : o ∈ blocks g obj h := by simpa [blocks, huse] using ho
  obtain ⟨m, -, -, -, ⟨hchunk, -⟩ | ⟨t, hpage, -, -, hcap, -⟩⟩ :=
    hw.spans.block_cases hw.pages hblock
  · rw [huse] at hchunk
    simp at hchunk
  · rw [huse, Option.some.injEq, Prod.mk.injEq, Kind.page.injEq] at hpage
    rw [hcap, hpage.2]

lemma Holds.capacity_chunk (hw : Holds a live g obj) {n : Int} (huse : g.use h = some (n, .chunk)) :
    a.capacity (ptrOf h + 12) = n * 4096 - 12 := by
  have hblock : (12 : Int) ∈ blocks g obj h := by simp [blocks, huse]
  obtain ⟨m, -, -, -, ⟨hchunk, -, hcap, -⟩ | ⟨t, hpage, -⟩⟩ := hw.spans.block_cases hw.pages hblock
  · rw [huse, Option.some.injEq, Prod.mk.injEq] at hchunk
    rw [hcap, hchunk.1]
  · rw [huse] at hpage
    simp at hpage

/-- The call throws, or it serves a block of this capacity. -/
def Serves (capacity : Int) (r : Outcome × Arena) : Prop :=
  r.1 = .badAlloc ∨ ∃ ptr, r.1 = .block ptr ∧ r.2.capacity ptr = capacity

/-- What a call of `Malloc` leaves behind. -/
def MallocOk (a : Arena) (live : List Int) (capacity : Int) (r : Outcome × Arena) : Prop :=
  (∃ g' obj', Holds r.2 (ArenaWorld.served live r.1) g' obj' ∧
    Quiet a live r.2 (ArenaWorld.served live r.1)) ∧
  Serves capacity r

lemma quiet_refl (a : Arena) (live : List Int) : Quiet a live a live :=
  fun _ _ _ _ _ _ => ⟨rfl, rfl⟩

lemma Holds.serveObject (hw : Holds a live g obj) {n o : Int} (huse : g.use h = some (n, .page s))
    {r : Outcome × Arena} (hserved : Served a g h s (obj h) o r) :
    MallocOk a live (kBinSlotTemplate s) r := by
  obtain ⟨hholds, hquiet⟩ := hw.addObject huse hserved
  refine ⟨⟨g, Function.update obj h ((obj h).serve s), ?_, ?_⟩, .inr ⟨_, hserved.block, ?_⟩⟩
  · rw [hserved.block]
    exact hholds
  · rw [hserved.block]
    exact hquiet
  · apply hholds.capacity_object huse
    rw [Function.update_self, hserved.used]
    exact List.mem_cons_self

lemma Holds.servePage (hw : Holds a live g obj) (h1 : 1 ≤ s) (h39 : s ≤ 39) {r : Outcome × Arena}
    {g' : Layout} (hblock : r.1 = .block (ptrOf h + 16)) (hentered : Entered a g s h r.2 g')
    (hsettled : g'.OnlyHeld 0) : MallocOk a live (kBinSlotTemplate s) r := by
  have hholds := hw.addPage hentered hsettled h1 h39
  refine ⟨⟨g', Function.update obj h ⟨[16], [], 1⟩, ?_, ?_⟩, .inr ⟨_, hblock, ?_⟩⟩
  · rw [hblock]
    exact hholds
  · exact hw.quiet_of_agree hentered.agree
  · apply hholds.capacity_object (n := binSpanSize s)
    · rw [hentered.use, Function.update_self]
    · rw [Function.update_self]
      exact List.mem_singleton_self 16

lemma Holds.throws (hw : Holds a live g obj) (capacity : Int) :
    MallocOk a live capacity (.badAlloc, a) :=
  ⟨⟨g, obj, hw, quiet_refl a live⟩, .inl rfl⟩

lemma Holds.mallocSmall (hw : Holds a live g obj) (h1 : 1 ≤ s) (h39 : s ≤ 39)
    (hreuse : a.ReuseOk s live) (commit : Bool) :
    MallocOk a live (kBinSlotTemplate s) (a.mallocSmall s commit) := by
  unfold Arena.mallocSmall
  dsimp only
  split
  · rename_i hserve
    have huse := hw.spans.candidate_use h1 h39 hserve.1
    obtain ⟨hh, hkind, -⟩ := hw.spans.use_page huse
    have hreuse := hreuse hserve.1 hserve.2
    generalize a.candidate s = h at *
    have hp := hw.pages h _ s huse
    have hfree : a.get (.oFree h) = ((obj h).chain s).headD 0 := by rw [get_oFree, hp.oFree]
    cases hchain : (obj h).chain s with
    | nil =>
      rw [hchain, List.headD_nil] at hfree
      omega
    | cons o t =>
      rw [hchain, List.headD_cons] at hfree
      rw [hfree] at hreuse
      have hserved := hw.spans.takeObject hh hkind hp hchain (by
        rintro ⟨hzero, hroom, hused⟩
        apply hreuse hzero hroom
        rw [hw.mem]
        exact ⟨h, _, by simpa [blocks, huse] using hused, rfl⟩)
      exact hw.serveObject huse hserved
  · rcases hw.spans.newPage hw.settled h1 h39 commit with hthrow | ⟨h, g', hblock, hentered, hsettled⟩
    · rw [hthrow]
      exact hw.throws _
    · exact hw.servePage h1 h39 hblock hentered hsettled

lemma Holds.mallocBig (hw : Holds a live g obj) (hslot : a.SlotOk s) (commit : Bool) :
    MallocOk a live (s * 4096 - 12) (a.mallocBig s commit) := by
  rcases hw.spans.mallocBig hw.settled hslot.1 hslot.2.1 hslot.2.2 commit with
    hthrow | ⟨h, g', hblock, hmade⟩
  · rw [hthrow]
    exact hw.throws _
  · have hholds := hw.addChunk hmade
    refine ⟨⟨g', obj, ?_, ?_⟩, .inr ⟨_, hblock, ?_⟩⟩
    · rw [hblock]
      exact hholds
    · exact hw.quiet_of_agree hmade.agree
    · apply hholds.capacity_chunk
      rw [hmade.use, Function.update_self]

/-- The condition on a call of `Malloc`. -/
def MallocCareful (a : Arena) (size : Int) (live : List Int) : Prop :=
  if size > kMaxObjectAvailable then a.SlotOk (int16 (spanSlotOf size))
  else 0 < size → a.ReuseOk (binSlot size) live

instance (a : Arena) (size : Int) (live : List Int) : Decidable (a.MallocCareful size live) :=
  inferInstanceAs (Decidable (if size > kMaxObjectAvailable then a.SlotOk _
    else 0 < size → a.ReuseOk _ live))

/-- The capacity of the block that `Malloc` serves. -/
def servedCapacity (size : Int) : Int :=
  if size > kMaxObjectAvailable then int16 (spanSlotOf size) * 4096 - 12
  else kBinSlotTemplate (binSlot size)

lemma Holds.malloc (hw : Holds a live g obj) {size : Int} (hsize : 0 < size)
    (hok : a.MallocCareful size live) (commit : Bool) :
    MallocOk a live (servedCapacity size) (a.malloc size commit) := by
  have hpos : ¬size ≤ 0 := not_le.2 hsize
  unfold MallocCareful at hok
  unfold Arena.malloc servedCapacity
  rw [if_neg hpos]
  by_cases hbig : size > kMaxObjectAvailable
  · rw [if_pos hbig] at hok
    rw [if_pos hbig, if_pos hbig]
    exact hw.mallocBig hok commit
  · rw [if_neg hbig] at hok
    rw [if_neg hbig, if_neg hbig]
    obtain ⟨h1, h39, -⟩ := binSlot_spec (by omega : 1 ≤ size) (not_lt.1 hbig)
    exact hw.mallocSmall h1 h39 (hok hsize) commit

/-- An object is served from its page also where it is taken for one that was never served. -/
lemma Spans.takeObject_block (hs : Spans a g 0) (hh : g.len h ≠ 0) (hkind : g.kind h = .page s)
    {o : Int} (hfree : a.get (.oFree h) = o) (hlow : 16 ≤ o) :
    (a.takeObject h s).1 = .block (ptrOf h + o) ∧ Spans (a.takeObject h s).2 g 0 := by
  obtain ⟨h1, h39, hlen⟩ := hs.sound.page h s hh hkind
  have ht := kBinSlotTemplate_bounds h1 h39
  obtain ⟨hs₁, -⟩ := hs.set_header (s := s) hh (.inr rfl) (a.get (.nUsed h) + 1)
  rw [takeObject_eq rfl hfree]
  refine ⟨rfl, ?_⟩
  dsimp only
  split
  · rename_i hcond
    obtain ⟨-, hroom⟩ := hcond
    obtain ⟨hs₂, -⟩ := hs₁.set_header (s := s) hh (.inl rfl) (o + kBinSlotTemplate s)
    exact hs₂.clear_link hh (by omega) (by omega)
  · exact (hs₁.set_header (s := s) hh (.inl rfl) _).1

lemma Spans.capacity_page (hs : Spans a g 0) (hh : g.len h ≠ 0) (hkind : g.kind h = .page s)
    {o : Int} (hlow : 0 ≤ o) (hhigh : o < binSpanSize s * 4096) :
    a.capacity (ptrOf h + o) = kBinSlotTemplate s := by
  obtain ⟨h1, h39, hlen⟩ := hs.sound.page h s hh hkind
  have hflag := hs.page h s hh hkind
  have hhandle : a.spanHandleOf (pageHandleOf (ptrOf h + o)) = h := by
    apply hs.spanHandleOf_ptr hh (by omega)
    simp only [ptrOf_eq]
    omega
  unfold capacity
  simp only [hhandle, hflag, neg_neg]
  rw [if_pos (by omega)]

/-- Whatever object of the page `Malloc` serves, its capacity is that of the slot. -/
lemma Holds.mallocSmall_capacity (hw : Holds a live g obj) (h1 : 1 ≤ s) (h39 : s ≤ 39)
    (commit : Bool) : Serves (kBinSlotTemplate s) (a.mallocSmall s commit) := by
  have ht := kBinSlotTemplate_bounds h1 h39
  unfold Arena.mallocSmall
  dsimp only
  split
  · rename_i hserve
    have huse := hw.spans.candidate_use h1 h39 hserve.1
    obtain ⟨hh, hkind, -⟩ := hw.spans.use_page huse
    generalize a.candidate s = h at *
    have hp := hw.pages h _ s huse
    have hfree : a.get (.oFree h) = ((obj h).chain s).headD 0 := by rw [get_oFree, hp.oFree]
    cases hchain : (obj h).chain s with
    | nil =>
      rw [hchain, List.headD_nil] at hfree
      omega
    | cons o t =>
      rw [hchain, List.headD_cons] at hfree
      have hb := hp.chain_bounds h1 h39 (hchain ▸ List.mem_cons_self)
      obtain ⟨hblock, hs'⟩ := hw.spans.takeObject_block hh hkind hfree hb.1
      exact .inr ⟨_, hblock, hs'.capacity_page hh hkind (by omega) (by omega)⟩
  · rcases hw.spans.newPage hw.settled h1 h39 commit with hthrow | ⟨h, g', hblock, hentered, hsettled⟩
    · rw [hthrow]
      exact .inl rfl
    · exact (hw.servePage h1 h39 hblock hentered hsettled).2

lemma spanSlotOf_eq {n : Int} (h1 : 1 ≤ n) (hmax : n ≤ 245748) :
    spanSlotOf n = (n + 11) / 4096 + 1 := by
  have hheader : kSpanHeaderSize = 12 := rfl
  rw [spanSlotOf, hheader, int32_of_lt (by omega) (by omega), kPageLen]
  congr 2
  omega

/-- For sizes up to the longest span the block is large enough. -/
lemma le_servedCapacity {size : Int} (h1 : 1 ≤ size) (hmax : size ≤ 245748) :
    size ≤ servedCapacity size := by
  unfold servedCapacity
  split
  · rw [spanSlotOf_eq h1 hmax, int16_of_lt (by omega) (by omega)]
    omega
  · rename_i hsmall
    exact (binSlot_spec h1 (not_lt.1 hsmall)).2.2

/-- A request for the longest span finds one free. -/
def LongestFree (a : Arena) (size : Int) : Prop :=
  spanSlotOf size = kSpanSlotSize → 0 < a.get (.spanList kSpanSlotSize)

/-- The capacity of what is served does not depend on the defect of the bins. -/
lemma Holds.malloc_capacity (hw : Holds a live g obj) {size : Int} (h1 : 1 ≤ size)
    (hmax : size ≤ 245748) (hlong : a.LongestFree size) (commit : Bool) :
    Serves (servedCapacity size) (a.malloc size commit) := by
  have hpos : ¬size ≤ 0 := by omega
  unfold Arena.malloc servedCapacity
  rw [if_neg hpos]
  by_cases hbig : size > kMaxObjectAvailable
  · rw [if_pos hbig, if_pos hbig]
    have hslot := spanSlotOf_eq h1 hmax
    rw [int16_of_lt (by omega) (by omega)]
    exact (hw.mallocBig ⟨by omega, by omega, hlong⟩ commit).2
  · rw [if_neg hbig, if_neg hbig]
    obtain ⟨hslot, h39, -⟩ := binSlot_spec h1 (not_lt.1 hbig)
    exact hw.mallocSmall_capacity hslot h39 commit

/-- The condition on a call of `Free`. -/
def FreeCareful (a : Arena) (ptr : Int) : Prop :=
  let h := a.spanHandleOf (pageHandleOf ptr)
  a.get (.flag h) ≤ 0 → a.MoveOk h

lemma Holds.free (hw : Holds a live g obj) {ptr : Int} (hptr : ptr ∈ live)
    (hok : a.FreeCareful ptr) :
    ∃ g' obj', Holds (a.free ptr) (live.erase ptr) g' obj' ∧
      Quiet a live (a.free ptr) (live.erase ptr) := by
  obtain ⟨h, o, ho, rfl⟩ := (hw.mem ptr).1 hptr
  obtain ⟨n, hh, -, hhandle, ⟨huse, rfl, -⟩ | ⟨s, huse, hused, -⟩⟩ :=
    hw.spans.block_cases hw.pages ho
  · exact hw.freeChunk huse
  · obtain ⟨-, hkind, -, h1, -⟩ := hw.spans.use_page huse
    have hflag := hw.spans.page h s hh hkind
    unfold FreeCareful at hok
    rw [hhandle] at hok
    exact hw.freeObject huse hused (hok (by omega))

end malloc

end Arena

end CoplusLean
