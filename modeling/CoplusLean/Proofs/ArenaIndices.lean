import CoplusLean.Models.ArenaIndices
import CoplusLean.Proofs.ArenaFailure
import CoplusLean.Proofs.ArenaGuarantees

/-!
# `Malloc` and the bounds of its tables

The search for a bigger span reads the entry before it tests the bound, and the slot of a
large request is never tested. All indices are within the tables exactly where the request is
served from a page of its bin or from a free span that is in the lists.
-/

namespace CoplusLean.Arena

open Lib

variable {a b : Arena} {k big slot size : Int} {commit : Bool} {i : ListId}

/-- A span of at least `k` pages is free. -/
def HasFreeSpan (a : Arena) (k : Int) : Prop :=
  ∃ j, k ≤ j ∧ j ≤ kSpanSlotSize ∧ 0 < a.get (.spanList j)

/-- What a request needs to stay within the tables. -/
def Supplied (a : Arena) (size : Int) : Prop :=
  size ≤ 0 ∨
    size ≤ kMaxObjectAvailable ∧
      (a.ServesObject (binSlot size) ∨ a.HasFreeSpan (binSpanSize (binSlot size))) ∨
    kMaxObjectAvailable < size ∧ 0 ≤ int16 (spanSlotOf size) ∧
      a.HasFreeSpan (int16 (spanSlotOf size))

/-! ## The search -/

/-- The search reads the entries up to the one at which it stops. -/
lemma searchSpan_mem_searchIndices (a : Arena) (k : Int) :
    .span (a.searchSpan k) ∈ a.searchIndices k := by
  fun_induction a.searchSpan k with
  | case1 k hempty ih =>
    rw [searchIndices, if_pos hempty]
    exact List.mem_cons_of_mem _ ih
  | case2 k hstop =>
    rw [searchIndices]
    exact List.mem_cons_self

lemma exists_of_mem_searchIndices (hi : i ∈ a.searchIndices k) :
    ∃ j, k ≤ j ∧ j ≤ a.searchSpan k ∧ i = .span j := by
  fun_induction a.searchSpan k with
  | case1 k hempty ih =>
    rw [searchIndices, if_pos hempty, List.mem_cons] at hi
    rcases hi with rfl | hi
    · have hle := le_searchSpan a (k + 1)
      exact ⟨k, le_rfl, by omega, rfl⟩
    · obtain ⟨j, hkj, hj, rfl⟩ := ih hi
      exact ⟨j, by omega, hj, rfl⟩
  | case2 k hstop =>
    rw [searchIndices, if_neg hstop, List.mem_singleton] at hi
    exact ⟨k, le_rfl, le_rfl, hi⟩

/-- The search stays within the table exactly where it finds a span. -/
lemma searchIndices_valid_iff (h0 : 0 ≤ k) (h61 : k ≤ 61) :
    (∀ i ∈ a.searchIndices k, i.Valid) ↔ a.searchSpan k ≤ 60 := by
  constructor
  · intro hall
    exact (hall _ (searchSpan_mem_searchIndices a k)).2
  · intro hle i hi
    obtain ⟨j, hkj, hj, rfl⟩ := exists_of_mem_searchIndices hi
    exact ⟨by omega, by omega⟩

/-- Where a longer span is free, the heap is not asked. -/
lemma biggerSpan_of_free (commit : Bool) (h0 : 0 ≤ k) (h60 : k ≤ 60) (hle : a.searchSpan (k + 1) ≤ 60) :
    a.biggerSpan k commit = some (a.searchSpan (k + 1), a) ∧
      a.biggerIndices k commit = a.searchIndices (k + 1) := by
  have hw : int16 (k + 1) = k + 1 := int16_of_lt (by omega) (by omega)
  have hslot : kSpanSlotSize = 60 := rfl
  unfold biggerSpan biggerIndices
  rw [hw, hslot]
  dsimp only
  rw [if_neg (by omega), if_neg (by omega), List.append_nil]
  exact ⟨rfl, rfl⟩

/-! ## The two paths -/

/-- The indices of a search for `k` pages and of the split: those of `taken` are used where a
span of `k` pages is free, those of `used` behind the split. -/
lemma spanIndices_valid_iff {taken used : List ListId} (htaken : ∀ i ∈ taken, i.Valid)
    (hused : ∀ i ∈ used, i.Valid) :
    (∀ i ∈ ListId.span k :: (if a.get (.spanList k) > 0 then taken
        else a.biggerIndices k commit ++
          match a.biggerSpan k commit with
          | none => []
          | some (bigSpanSlot, a) => a.splitIndices bigSpanSlot k used), i.Valid) ↔
      0 ≤ k ∧ a.HasFreeSpan k := by
  have hslot : kSpanSlotSize = 60 := rfl
  rw [List.forall_mem_cons]
  constructor
  · rintro ⟨⟨h0, h60⟩, hall⟩
    refine ⟨h0, ?_⟩
    by_cases hpos : a.get (.spanList k) > 0
    · exact ⟨k, le_rfl, h60, hpos⟩
    · rw [if_neg hpos, List.forall_mem_append] at hall
      have hw : int16 (k + 1) = k + 1 := int16_of_lt (by omega) (by omega)
      have hsearch : ∀ i ∈ a.searchIndices (k + 1), i.Valid := by
        intro i hi
        apply hall.1
        rw [biggerIndices, hw]
        exact List.mem_append_left _ hi
      have hle := (searchIndices_valid_iff (by omega) (by omega)).1 hsearch
      obtain ⟨j, hkj, hj, hfree⟩ := (searchSpan_le_iff a (by omega)).1 hle
      exact ⟨j, by omega, hj, hfree⟩
  · rintro ⟨h0, j, hkj, hj, hfree⟩
    have h60 : k ≤ 60 := by omega
    refine ⟨⟨h0, h60⟩, ?_⟩
    by_cases hpos : a.get (.spanList k) > 0
    · rw [if_pos hpos]
      exact htaken
    · have hne : k ≠ j := fun heq => hpos (heq ▸ hfree)
      have hle : a.searchSpan (k + 1) ≤ 60 :=
        (searchSpan_le_iff a (by omega)).2 ⟨j, by omega, by omega, hfree⟩
      have hge := le_searchSpan a (k + 1)
      obtain ⟨hbigger, hindices⟩ := biggerSpan_of_free commit h0 h60 hle
      have hw : int16 (a.searchSpan (k + 1) - k) = a.searchSpan (k + 1) - k :=
        int16_of_lt (by omega) (by omega)
      rw [if_neg hpos, hbigger, hindices, List.forall_mem_append]
      refine ⟨(searchIndices_valid_iff (by omega) (by omega)).2 hle, ?_⟩
      dsimp only
      rw [splitIndices, hw, List.forall_mem_cons]
      refine ⟨⟨by omega, hle⟩, ?_⟩
      split
      · simp
      · rw [List.forall_mem_cons]
        exact ⟨⟨by omega, by omega⟩, hused⟩

lemma mallocBigIndices_valid_iff :
    (∀ i ∈ a.mallocBigIndices k commit, i.Valid) ↔ 0 ≤ k ∧ a.HasFreeSpan k :=
  spanIndices_valid_iff (by simp) (by simp)

lemma newPageIndices_valid_iff (h1 : 1 ≤ slot) (h39 : slot ≤ 39) :
    (∀ i ∈ a.newPageIndices slot commit, i.Valid) ↔ a.HasFreeSpan (binSpanSize slot) := by
  have hsize := binSpanSize_bounds slot
  have hbin : ∀ i ∈ [ListId.bin slot], i.Valid := by
    rw [List.forall_mem_singleton]
    exact ⟨by omega, h39⟩
  exact (spanIndices_valid_iff hbin hbin).trans (and_iff_right (by omega))

lemma mallocSmallIndices_valid_iff (h1 : 1 ≤ slot) (h39 : slot ≤ 39) :
    (∀ i ∈ a.mallocSmallIndices slot commit, i.Valid) ↔
      a.ServesObject slot ∨ a.HasFreeSpan (binSpanSize slot) := by
  have hbin : (ListId.bin slot).Valid := ⟨by omega, h39⟩
  rw [mallocSmallIndices, List.forall_mem_cons, and_iff_right hbin, servesObject_iff]
  dsimp only
  by_cases hserve : a.candidate slot > 0 ∧ a.get (.oFree (a.candidate slot)) > 1
  · rw [if_pos hserve]
    exact iff_of_true (by simp) (Or.inl hserve)
  · rw [if_neg hserve, newPageIndices_valid_iff h1 h39]
    exact (or_iff_right hserve).symm

/-- In every state, every request uses entries of the two tables only exactly where it is
served from a page of its bin or from a free span, or asks for nothing. -/
theorem mallocIndices_valid_iff (a : Arena) (size : Int) (commit : Bool) :
    (∀ i ∈ a.mallocIndices size commit, i.Valid) ↔ a.Supplied size := by
  have hmax : kMaxObjectAvailable = 4080 := rfl
  unfold mallocIndices Supplied
  rcases le_or_gt size 0 with hnone | hpos
  · rw [if_pos hnone]
    exact iff_of_true (by simp) (Or.inl hnone)
  · rw [if_neg (not_le.2 hpos), or_iff_right (not_le.2 hpos)]
    rcases le_or_gt size kMaxObjectAvailable with hsmall | hbig
    · obtain ⟨h1, h39, -⟩ := binSlot_spec hpos hsmall
      rw [if_neg (not_lt.2 hsmall), mallocSmallIndices_valid_iff h1 h39]
      constructor
      · exact fun hserved => Or.inl ⟨hsmall, hserved⟩
      · rintro (⟨-, hserved⟩ | ⟨hbig, -⟩)
        · exact hserved
        · exact absurd hsmall (not_le.2 hbig)
    · rw [if_pos hbig, mallocBigIndices_valid_iff]
      constructor
      · exact fun hserved => Or.inr ⟨hbig, hserved⟩
      · rintro (⟨hsmall, -⟩ | ⟨-, hserved⟩)
        · exact absurd hbig (not_lt.2 hsmall)
        · exact hserved

end CoplusLean.Arena

namespace CoplusLean.ArenaWorld

open Lib Arena

/-- A request of 61 pages right after `Init` reads behind `span_list_`. -/
theorem mallocIndices_not_valid :
    ¬∀ (mem : Memory) (commit : Nat → Bool) (a : Arena), init mem commit = some a →
      ∀ (as : List ArenaStep) (w : ArenaWorld), exec ArenaWorld.step ⟨a, []⟩ as = some w →
        ∀ (size : Int) (granted : Bool), ∀ i ∈ w.arena.mallocIndices (int32 size) granted,
          i.Valid := by
  intro hclaim
  obtain ⟨a, ha, -⟩ := init_of_room freshMemory
  have hall := hclaim freshMemory _ a ha [] ⟨a, []⟩ rfl 245749 true
  have hslot : int16 (spanSlotOf (int32 245749)) = 61 := by decide
  have hbig : int32 245749 > kMaxObjectAvailable := by decide
  have hpos : ¬int32 245749 ≤ 0 := by decide
  rw [mallocIndices, if_neg hpos, if_pos hbig, hslot] at hall
  have hindex := hall (.span 61) (by rw [mallocBigIndices]; exact List.mem_cons_self)
  exact absurd hindex.2 (by decide)

end CoplusLean.ArenaWorld
