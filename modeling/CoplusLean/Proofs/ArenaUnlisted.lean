import CoplusLean.Proofs.ArenaIndices

/-!
# The entries that `Malloc` leaves alone

What `mallocIndices` does not list, `Malloc` neither reads nor stores to: a value that is stored
to such an entry before the call does not change what the call does, and it is there afterwards.
-/

namespace CoplusLean.Arena

open Lib

variable {a : Arena} {i : ListId} {c : Cell} {h k n p slot size v u : Int} {commit : Bool}

/-- The bytes of the cell are not those of the entry. -/
def Beside (i : ListId) (c : Cell) : Prop :=
  c.addr + (if c.short then 2 else 4) ≤ i.addr ∨ i.addr + 4 ≤ c.addr

lemma beside_field (f : Field) (hi : i.Valid) (hh : 1 ≤ h) : Beside i (.field f h) := by
  have hbound := hi.bounds
  have haddr := field_addr f hh
  exact Or.inr (by omega)

/-- The entries behind the end of `span_list_` are apart from the tables too. -/
lemma beside_spanList (hi : i.Valid) (hk : 0 ≤ k) (hne : i ≠ .span k) :
    Beside i (.spanList k) := by
  cases i <;> simp only [Beside, Cell.addr, Cell.short, ListId.addr, ListId.Valid, ne_eq,
    ListId.span.injEq, kPageHandleSize, kBinSlotSize, Bool.false_eq_true, if_false] at * <;> omega

lemma beside_bin (hi : i.Valid) (h0 : 0 ≤ slot) (h39 : slot ≤ 39) (hne : i ≠ .bin slot) :
    Beside i (.bin slot) := by
  have hapart := hi.apart (j := .bin slot) ⟨h0, h39⟩ hne
  simp only [Beside, Cell.addr, Cell.short, Bool.false_eq_true, if_false]
  omega

/-- What a call returns, with `v` stored to the entry after it. -/
def storedAfter (i : ListId) (v : Int) (r : Outcome × Arena) : Outcome × Arena :=
  (r.1, r.2.set (.table i) v)

lemma storedAfter_mk (o : Outcome) : storedAfter i v (o, a) = (o, a.set (.table i) v) := rfl

/-! ## The single accesses -/

lemma get_beside (hc : Beside i c) : (a.set (.table i) v).get c = a.get c :=
  get_of_write (set_mem a v _) hc

lemma set_beside (hc : Beside i c) :
    (a.set (.table i) v).set c u = (a.set c u).set (.table i) v := by
  simp only [set_eq_write]
  congr 1
  exact Memory.write_comm a.mem _ _ hc.symm

lemma memset_beside (hi : i.Valid) (hp : 404 ≤ p) (b : BitVec 8) :
    (a.set (.table i) v).memset p b n = (a.memset p b n).set (.table i) v := by
  have hbound := hi.bounds
  unfold memset set
  congr 1
  exact Memory.write_comm a.mem _ _ (Or.inl (by simp only [Cell.addr]; omega))

lemma load16_beside (hi : i.Valid) (hp : 404 ≤ p) :
    (a.set (.table i) v).mem.load16 p = a.mem.load16 p := by
  have hbound := hi.bounds
  rw [set_mem]
  exact Memory.load16_write a.mem _ (Or.inr (by simp only [Cell.addr, Cell.short]; omega))

lemma setHead_beside (hi : i.Valid) (hh : 0 ≤ h) :
    (a.set (.table i) v).setHead h = (a.setHead h).set (.table i) v := by
  have hbound := hi.bounds
  have hbyte : (a.set (.table i) v).mem.byte (isHeadAddr + h / 8) =
      a.mem.byte (isHeadAddr + h / 8) := by
    rw [set_mem, isHeadAddr_eq]
    exact Memory.byte_write_of_outside a.mem _ (Or.inr (by simp only [Cell.addr, Cell.short]; omega))
  unfold setHead Memory.setBit
  rw [hbyte]
  unfold set
  congr 1
  exact Memory.write_comm a.mem _ _ (Or.inl (by simp only [Cell.addr, isHeadAddr_eq]; omega))

/-! ## The parts of `Malloc` -/

/-- The heap is asked without a look at the tables. -/
lemma allocMemFromHeap_beside :
    (a.set (.table i) v).allocMemFromHeap n commit =
      (a.allocMemFromHeap n commit).map fun r => (r.1, r.2.set (.table i) v) := by
  unfold allocMemFromHeap
  rw [set_kHeapAllocPage, set_kMemoryReservedStart]
  split
  · simp only [Option.map_none]
  · split
    · simp only [Option.map_some, Option.some.injEq]
      rfl
    · simp only [Option.map_none]

/-- The search begins with a look at its first entry. -/
lemma span_mem_searchIndices (a : Arena) (k : Int) : .span k ∈ a.searchIndices k := by
  rw [searchIndices]
  exact List.mem_cons_self

section parts

variable (hi : i.Valid)
include hi

lemma linkedNodeDeleteHead_beside (h1 : 1 ≤ h) :
    (a.set (.table i) v).linkedNodeDeleteHead h =
      (a.linkedNodeDeleteHead h).set (.table i) v := by
  unfold linkedNodeDeleteHead
  rw [get_beside (beside_field .hNext hi h1)]
  split
  · apply memset_beside hi
    rw [ptrOf_eq, kFlagSize]
    omega
  · rfl

lemma popSpan_beside (hk : Beside i (.spanList k)) (h1 : 1 ≤ h) :
    (a.set (.table i) v).popSpan k h = (a.popSpan k h).set (.table i) v := by
  unfold popSpan
  rw [get_beside (beside_field .hNext hi h1), set_beside hk, linkedNodeDeleteHead_beside hi h1]

/-- A link that is set only where a page follows. -/
lemma setNext_beside {x : Int} :
    (if x > 0 then (a.set (.table i) v).set (.hPri x) u else a.set (.table i) v) =
      (if x > 0 then a.set (.hPri x) u else a).set (.table i) v := by
  split
  · rename_i hx
    exact set_beside (beside_field .hPri hi (by omega))
  · rfl

lemma pushBin_beside (hbin : Beside i (.bin slot)) (h1 : 1 ≤ h) :
    (a.set (.table i) v).pushBin slot h = (a.pushBin slot h).set (.table i) v := by
  have hfield : ∀ f : Field, Beside i (.field f h) := fun f => beside_field f hi h1
  unfold pushBin
  dsimp only
  rw [set_beside (hfield .hPri), get_beside hbin, set_beside (hfield .hNext), set_beside hbin,
    get_beside (hfield .hNext), setNext_beside hi]

lemma makePage_beside (hbin : Beside i (.bin slot)) (h0 : 0 ≤ kBinSlotTemplate slot) (h1 : 1 ≤ h) :
    (a.set (.table i) v).makePage h slot =
      storedAfter i v (a.makePage h slot) := by
  have hfield : ∀ f : Field, Beside i (.field f h) := fun f => beside_field f hi h1
  have hobject : 404 ≤ ptrOf h + kPageHeaderSize + kBinSlotTemplate slot := by
    rw [ptrOf_eq, kPageHeaderSize]
    omega
  unfold makePage
  dsimp only
  rw [storedAfter_mk, set_beside (hfield .flag), set_beside (hfield .nUsed), pushBin_beside hi hbin h1,
    set_beside (hfield .oFree), memset_beside hi hobject]

lemma takeObject_beside (h0 : 0 ≤ kBinSlotTemplate slot) (h1 : 1 ≤ h)
    (hfree : 0 < a.get (.oFree h)) :
    (a.set (.table i) v).takeObject h slot =
      storedAfter i v (a.takeObject h slot) := by
  have hfield : ∀ f : Field, Beside i (.field f h) := fun f => beside_field f hi h1
  have hobject : 404 ≤ ptrOf h + a.get (.oFree h) := by
    rw [ptrOf_eq]
    omega
  unfold takeObject
  dsimp only
  rw [get_beside (hfield .nUsed), set_beside (hfield .nUsed)]
  have hkept : (a.set (.nUsed h) (a.get (.nUsed h) + 1)).get (.oFree h) = a.get (.oFree h) := by
    simp
  rw [get_beside (hfield .oFree), hkept, load16_beside hi hobject]
  split
  · rw [storedAfter_mk, set_beside (hfield .oFree), memset_beside hi (by omega)]
  · rw [storedAfter_mk, set_beside (hfield .oFree)]

lemma addRest_beside (hn : Beside i (.spanList n)) (h1 : 1 ≤ h) :
    (a.set (.table i) v).addRest h n = (a.addRest h n).set (.table i) v := by
  have hfield : ∀ f : Field, Beside i (.field f h) := fun f => beside_field f hi h1
  unfold addRest
  dsimp only
  rw [setHead_beside hi (by omega), set_beside (hfield .flag), set_beside (hfield .hPri),
    get_beside hn, set_beside (hfield .hNext), get_beside (hfield .hNext), setNext_beside hi,
    set_beside hn]

/-! ## The search and the heap -/

lemma searchSpan_beside (h0 : 0 ≤ k) (hout : i ∉ a.searchIndices k) :
    (a.set (.table i) v).searchSpan k = a.searchSpan k := by
  fun_induction a.searchSpan k with
  | case1 k hempty ih =>
    have hne : i ≠ .span k := fun heq => hout (heq ▸ span_mem_searchIndices a k)
    have hrest : i ∉ a.searchIndices (k + 1) := by
      intro hmem
      apply hout
      rw [searchIndices, if_pos hempty]
      exact List.mem_cons_of_mem _ hmem
    conv_lhs => unfold searchSpan
    rw [get_beside (beside_spanList hi h0 hne), if_pos hempty]
    exact ih (by omega) hrest
  | case2 k hstop =>
    have hne : i ≠ .span k := fun heq => hout (heq ▸ span_mem_searchIndices a k)
    conv_lhs => unfold searchSpan
    rw [get_beside (beside_spanList hi h0 hne), if_neg hstop]

lemma allocMaxChunkFromHeap_beside (hheap : ptrOf 1 ≤ a.kMemoryReservedStart)
    (hout : (a.allocMaxChunkFromHeap commit).isSome → i ≠ .span kSpanSlotSize) :
    (a.set (.table i) v).allocMaxChunkFromHeap commit =
      (a.allocMaxChunkFromHeap commit).map (·.set (.table i) v) := by
  unfold allocMaxChunkFromHeap allocArbitaryChunkFromHeap
  rw [allocMemFromHeap_beside]
  cases hmem : a.allocMemFromHeap (kSpanSlotSize * kPageLen) commit with
  | none => rfl
  | some r =>
    obtain ⟨p, b⟩ := r
    have hp : p = a.kMemoryReservedStart := by
      unfold allocMemFromHeap at hmem
      split_ifs at hmem
      cases hmem
      rfl
    have h1 : 1 ≤ pageHandleOf p := by
      rw [ptrOf_eq] at hheap
      rw [pageHandleOf_eq]
      omega
    have hsome : (a.allocMaxChunkFromHeap commit).isSome := by
      unfold allocMaxChunkFromHeap allocArbitaryChunkFromHeap
      rw [hmem]
      rfl
    have hspan := beside_spanList hi (k := kSpanSlotSize) (by decide) (hout hsome)
    simp only [Option.map_some, Option.some.injEq]
    generalize pageHandleOf p = h at h1
    generalize kSpanSlotSize = n at hspan
    have hfield : ∀ f : Field, Beside i (.field f h) := fun f => beside_field f hi h1
    rw [setHead_beside hi (by omega), set_beside (hfield .flag), get_beside hspan,
      set_beside (hfield .hNext), get_beside hspan, setNext_beside hi, set_beside hspan,
      set_beside (hfield .hPri)]

lemma biggerSpan_beside (hheap : ptrOf 1 ≤ a.kMemoryReservedStart) (h0 : 0 ≤ int16 (k + 1))
    (hout : i ∉ a.biggerIndices k commit) :
    (a.set (.table i) v).biggerSpan k commit =
      (a.biggerSpan k commit).map fun r => (r.1, r.2.set (.table i) v) := by
  have hsearch : i ∉ a.searchIndices (int16 (k + 1)) := fun hmem =>
    hout (List.mem_append_left _ hmem)
  unfold biggerSpan
  dsimp only
  rw [searchSpan_beside hi h0 hsearch]
  split
  · rename_i hgt
    have hmax : (a.allocMaxChunkFromHeap commit).isSome → i ≠ .span kSpanSlotSize := by
      rintro hsome rfl
      apply hout
      apply List.mem_append_right
      rw [if_pos ⟨hgt, hsome⟩]
      exact List.mem_singleton_self _
    rw [allocMaxChunkFromHeap_beside hi hheap hmax, Option.map_map, Option.map_map]
    rfl
  · rfl

end parts

/-- The span that is split has a list behind the start of the table, and so has its rest. -/
lemma biggerSpan_bounds {big : Int} {b : Arena} (h0 : 0 ≤ k) (hk : k < 32767)
    (hbig : a.biggerSpan k commit = some (big, b)) :
    0 ≤ big ∧ 0 ≤ int16 (big - k) := by
  have hw : int16 (k + 1) = k + 1 := int16_of_lt (by omega) (by omega)
  have hslot : kSpanSlotSize = 60 := rfl
  have hsearch : k + 1 ≤ a.searchSpan (k + 1) ∧
      (a.searchSpan (k + 1) ≤ 61 ∨ a.searchSpan (k + 1) = k + 1) := by
    refine ⟨le_searchSpan a (k + 1), ?_⟩
    rcases le_or_gt (k + 1) 61 with hle | hgt
    · exact Or.inl (searchSpan_spec a rfl hle).2.1
    · right
      unfold searchSpan
      rw [if_neg]
      omega
  unfold biggerSpan at hbig
  rw [hw, hslot] at hbig
  dsimp only at hbig
  have hle : k ≤ big ∧ big ≤ k + 60 := by
    split at hbig
    · obtain ⟨c, -, hc⟩ := Option.map_eq_some_iff.1 hbig
      cases hc
      omega
    · cases hbig
      omega
  rw [int16_of_lt (by omega) (by omega)]
  omega

/-- The lists of a split that are not listed as used are beside the entry. -/
lemma beside_of_split {used : List ListId} {big : Int} {b : Arena} (hi : i.Valid) (h0 : 0 ≤ k)
    (hk : k < 32767) (hbig : a.biggerSpan k commit = some (big, b))
    (hout : i ∉ b.splitIndices big k used) :
    Beside i (.spanList big) ∧ (b.get (.spanList big) > 0 →
      Beside i (.spanList (int16 (big - k))) ∧ i ∉ used) := by
  obtain ⟨hbig0, hrest0⟩ := biggerSpan_bounds h0 hk hbig
  rw [splitIndices, List.mem_cons, not_or] at hout
  refine ⟨beside_spanList hi hbig0 hout.1, fun hpos => ?_⟩
  have hrest := hout.2
  rw [if_neg (not_le.2 hpos), List.mem_cons, not_or] at hrest
  exact ⟨beside_spanList hi hrest0 hrest.1, hrest.2⟩

section requests

variable (hi : i.Valid) (hheap : ptrOf 1 ≤ a.kMemoryReservedStart)
include hi hheap

lemma mallocBig_beside (h0 : 0 ≤ k) (hk : k < 32767) (hout : i ∉ a.mallocBigIndices k commit) :
    (a.set (.table i) v).mallocBig k commit =
      storedAfter i v (a.mallocBig k commit) := by
  unfold mallocBigIndices at hout
  rw [List.mem_cons, not_or] at hout
  obtain ⟨hne, hout⟩ := hout
  have hlist := beside_spanList hi h0 hne
  unfold mallocBig
  dsimp only
  rw [get_beside hlist]
  split
  · rename_i hpos
    rw [storedAfter_mk, popSpan_beside hi hlist (by omega),
      set_beside (beside_field .hNext hi (by omega))]
  · rename_i hnone
    rw [if_neg hnone, List.mem_append, not_or] at hout
    have hw : int16 (k + 1) = k + 1 := int16_of_lt (by omega) (by omega)
    rw [biggerSpan_beside hi hheap (by omega) hout.1]
    cases hbig : a.biggerSpan k commit with
    | none => rfl
    | some r =>
      obtain ⟨big, b⟩ := r
      have hsplit := hout.2
      simp only [hbig] at hsplit
      obtain ⟨hbeside, hrest⟩ := beside_of_split hi h0 hk hbig hsplit
      simp only [Option.map_some]
      rw [get_beside hbeside]
      split
      · rfl
      · rename_i hpos
        obtain ⟨hadd, -⟩ := hrest (not_le.1 hpos)
        have hfield : ∀ f : Field, Beside i (.field f (b.get (.spanList big))) :=
          fun f => beside_field f hi (by omega)
        rw [storedAfter_mk, popSpan_beside hi hbeside (by omega), set_beside (hfield .flag),
          set_beside (hfield .hNext), addRest_beside hi hadd (by omega)]

lemma newPage_beside (h1 : 1 ≤ slot) (h39 : slot ≤ 39) (hout : i ∉ a.newPageIndices slot commit) :
    (a.set (.table i) v).newPage slot commit =
      storedAfter i v (a.newPage slot commit) := by
  have htemplate := (kBinSlotTemplate_bounds h1 h39).1
  have hsize := binSpanSize_bounds slot
  unfold newPageIndices at hout
  unfold newPage
  dsimp only at hout ⊢
  generalize binSpanSize slot = k at hsize hout ⊢
  rw [List.mem_cons, not_or] at hout
  obtain ⟨hne, hout⟩ := hout
  have hlist := beside_spanList hi (by omega) hne
  rw [get_beside hlist]
  split
  · rename_i hpos
    rw [if_pos hpos, List.mem_singleton] at hout
    have hbin := beside_bin hi (by omega) h39 hout
    rw [popSpan_beside hi hlist (by omega), makePage_beside hi hbin (by omega) (by omega)]
  · rename_i hnone
    rw [if_neg hnone, List.mem_append, not_or] at hout
    have hw : int16 (k + 1) = k + 1 := int16_of_lt (by omega) (by omega)
    rw [biggerSpan_beside hi hheap (by omega) hout.1]
    cases hbig : a.biggerSpan k commit with
    | none => rfl
    | some r =>
      obtain ⟨big, b⟩ := r
      have hsplit := hout.2
      simp only [hbig] at hsplit
      obtain ⟨hbeside, hrest⟩ := beside_of_split hi (by omega) (by omega) hbig hsplit
      simp only [Option.map_some]
      rw [get_beside hbeside]
      split
      · rfl
      · rename_i hpos
        obtain ⟨hadd, hused⟩ := hrest (not_le.1 hpos)
        rw [List.mem_singleton] at hused
        have hbin := beside_bin hi (by omega) h39 hused
        rw [popSpan_beside hi hbeside (by omega), addRest_beside hi hadd (by omega),
          makePage_beside hi hbin (by omega) (by omega)]

lemma mallocSmall_beside (h1 : 1 ≤ slot) (h39 : slot ≤ 39)
    (hout : i ∉ a.mallocSmallIndices slot commit) :
    (a.set (.table i) v).mallocSmall slot commit =
      storedAfter i v (a.mallocSmall slot commit) := by
  unfold mallocSmallIndices at hout
  dsimp only at hout
  rw [List.mem_cons, not_or] at hout
  obtain ⟨hne, hout⟩ := hout
  have hbin := beside_bin hi (by omega) h39 hne
  have hcandidate : (a.set (.table i) v).candidate slot = a.candidate slot := by
    unfold candidate
    dsimp only
    rw [get_beside hbin]
    by_cases hpos : a.get (.bin slot) > 0
    · have hfield : ∀ f : Field, Beside i (.field f (a.get (.bin slot))) :=
        fun f => beside_field f hi (by omega)
      rw [get_beside (hfield .oFree), get_beside (hfield .hNext)]
    · rw [if_neg (fun h => hpos h.1), if_neg (fun h => hpos h.1)]
  unfold mallocSmall
  dsimp only
  rw [hcandidate]
  by_cases hserve : a.candidate slot > 0 ∧ a.get (.oFree (a.candidate slot)) > 1
  · have hget := get_beside (a := a) (v := v)
      (beside_field .oFree hi (show 1 ≤ a.candidate slot by omega))
    have htemplate := (kBinSlotTemplate_bounds h1 h39).1
    rw [hget, if_pos hserve, if_pos hserve]
    exact takeObject_beside hi (by omega) (by omega) (by omega)
  · have hskip : ¬(a.candidate slot > 0 ∧
        (a.set (.table i) v).get (.oFree (a.candidate slot)) > 1) := by
      rintro ⟨hpos, hfree⟩
      rw [get_beside (beside_field .oFree hi (by omega))] at hfree
      exact hserve ⟨hpos, hfree⟩
    rw [if_neg hserve] at hout
    rw [if_neg hskip, if_neg hserve]
    exact newPage_beside hi hheap h1 h39 hout

end requests

/-- A call neither reads nor stores to an entry that is not listed, as long as the slot of a long
request is not cut to a negative one. -/
theorem malloc_beside (hi : i.Valid) (hheap : ptrOf 1 ≤ a.kMemoryReservedStart)
    (hslot : kMaxObjectAvailable < size →
      0 ≤ int16 (spanSlotOf size) ∧ int16 (spanSlotOf size) < 32767)
    (hout : i ∉ a.mallocIndices size commit) :
    (a.set (.table i) v).malloc size commit =
      storedAfter i v (a.malloc size commit) := by
  unfold mallocIndices at hout
  unfold malloc
  split
  · rfl
  · rename_i hpos
    rw [if_neg hpos] at hout
    split
    · rename_i hbig
      rw [if_pos hbig] at hout
      exact mallocBig_beside hi hheap (hslot hbig).1 (hslot hbig).2 hout
    · rename_i hsmall
      rw [if_neg hsmall] at hout
      have hmax : kMaxObjectAvailable = 4080 := rfl
      have hclass : 1 ≤ binSlot size ∧ binSlot size ≤ 39 ∧ size ≤ kBinSlotTemplate (binSlot size) :=
        binSlot_spec (by omega) (by omega)
      exact mallocSmall_beside hi hheap hclass.1 hclass.2.1 hout

end CoplusLean.Arena
