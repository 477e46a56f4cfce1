import CoplusLean.Proofs.ArenaWellFormed
import Mathlib.Order.Bounds.Basic

/-!
# The class that `Malloc` selects for a size

A binary search over the table of sizes finds the least slot that is large enough as long as
its lower end is too small. `BinSlot` starts the search at slot 24, so the sizes that belong
there get the next slot.
-/

namespace CoplusLean.Arena

open Lib

/-- The slots whose objects are large enough. -/
def LargeEnough (size : Int) : Set Int := {i | 1 ≤ i ∧ size ≤ kBinSlotTemplate i}

/-- The version of `BinSlot` that is commented out: one search over the whole table. -/
def plainBinSlot (size : Int) : Int := searchBinSlot size 0 kBinSlotSize

/-- The class of `size` is the smallest one that holds it. -/
structure TightestClass (size : Int) : Prop where
  bin : size ≤ kMaxObjectAvailable → IsLeast (LargeEnough size) (binSlot size)
  plain : size ≤ kMaxObjectAvailable → binSlot size = plainBinSlot size
  span : kMaxObjectAvailable < size →
    IsLeast {p | size + kSpanHeaderSize ≤ p * kPageLen} (spanSlotOf size)

/-! ## The table -/

lemma kBinSlotTemplate_succ {i : Int} (h0 : 0 ≤ i) (h39 : i < 39) :
    kBinSlotTemplate i < kBinSlotTemplate (i + 1) := by
  interval_cases i <;> decide

lemma kBinSlotTemplate_mono {i j : Int} (h0 : 0 ≤ i) (hij : i ≤ j) (h39 : j ≤ 39) :
    kBinSlotTemplate i ≤ kBinSlotTemplate j := by
  induction j, hij using Int.leInduction with
  | base => exact le_rfl
  | succ j hij ih =>
    have hstep := kBinSlotTemplate_succ (i := j) (by omega) (by omega)
    exact (ih (by omega)).trans hstep.le

/-- A slot is the least one as soon as the slot before it is too small. -/
lemma isLeast_of_pred {size p slot : Int} (hp : p + 1 = slot) (h0 : 0 ≤ p) (h39 : slot ≤ 39)
    (hpred : kBinSlotTemplate p < size) (hslot : size ≤ kBinSlotTemplate slot) :
    IsLeast (LargeEnough size) slot := by
  refine ⟨⟨by omega, hslot⟩, ?_⟩
  rintro i ⟨hi, hsize⟩
  by_contra hlt
  have hmono := kBinSlotTemplate_mono (i := i) (j := p) (by omega) (by omega) (by omega)
  omega

/-! ## `BinSlot` -/

/-- The invariant of the search: the lower end is too small and the upper end is not. -/
lemma searchBinSlot_isLeast {size lo hi : Int} (h0 : 0 ≤ lo) (hlt : lo < hi) (h39 : hi ≤ 39)
    (hlo : kBinSlotTemplate lo < size) (hhi : size ≤ kBinSlotTemplate hi) :
    IsLeast (LargeEnough size) (searchBinSlot size lo hi) := by
  fun_induction searchBinSlot size lo hi with
  | case1 lo hi hgap mid heq =>
    have hstep := kBinSlotTemplate_succ (i := mid - 1) (by omega) (by omega)
    rw [sub_add_cancel] at hstep
    exact isLeast_of_pred (p := mid - 1) (by omega) (by omega) (by omega) (by omega) heq.ge
  | case2 lo hi hgap mid hne hsmall ih =>
    exact ih (by omega) (by omega) h39 hsmall hhi
  | case3 lo hi hgap mid hne hlarge ih =>
    exact ih h0 (by omega) (by omega) hlo (by omega)
  | case4 lo hi hgap =>
    exact isLeast_of_pred (by omega) h0 h39 hlo hhi

lemma plainBinSlot_isLeast {size : Int} (h1 : 1 ≤ size) (hsize : size ≤ kMaxObjectAvailable) :
    IsLeast (LargeEnough size) (plainBinSlot size) := by
  have hfirst : kBinSlotTemplate 0 = 0 := by decide
  have hlast : kBinSlotTemplate 39 = kMaxObjectAvailable := by decide
  exact searchBinSlot_isLeast le_rfl (by decide) le_rfl (by omega) (hsize.trans hlast.ge)

/-- The sizes of slot 24 are not found from there: every slot the search looks at is larger. -/
lemma searchBinSlot_missed {size : Int} (h320 : size ≤ 320) :
    searchBinSlot size 24 kBinSlotSize = 25 := by
  have t31 : kBinSlotTemplate 31 = 800 := by decide
  have t27 : kBinSlotTemplate 27 = 448 := by decide
  have t25 : kBinSlotTemplate 25 = 352 := by decide
  have hslots : kBinSlotSize = 39 := rfl
  have m31 : (24 : Int) + (39 - 24) / 2 = 31 := by decide
  have m27 : (24 : Int) + (31 - 24) / 2 = 27 := by decide
  have m25 : (24 : Int) + (27 - 24) / 2 = 25 := by decide
  rw [hslots, searchBinSlot]
  simp only [m31, t31]
  rw [if_pos (by omega), if_neg (by omega), if_neg (by omega), searchBinSlot]
  simp only [m27, t27]
  rw [if_pos (by omega), if_neg (by omega), if_neg (by omega), searchBinSlot]
  simp only [m25, t25]
  rw [if_pos (by omega), if_neg (by omega), if_neg (by omega), searchBinSlot]
  exact if_neg (by omega)

lemma binSlot_isLeast {size : Int} (h1 : 1 ≤ size) (hsize : size ≤ kMaxObjectAvailable)
    (hgap : ¬(289 ≤ size ∧ size ≤ 320)) : IsLeast (LargeEnough size) (binSlot size) := by
  obtain ⟨t0, t1, t2, t3, t4, t5⟩ := kBinSlotTemplate_first
  unfold binSlot
  split
  · -- the first five slots, by comparison
    split_ifs
    · exact isLeast_of_pred (p := 0) rfl (by omega) (by omega) (by omega) (by omega)
    · exact isLeast_of_pred (p := 1) rfl (by omega) (by omega) (by omega) (by omega)
    · exact isLeast_of_pred (p := 2) rfl (by omega) (by omega) (by omega) (by omega)
    · exact isLeast_of_pred (p := 3) rfl (by omega) (by omega) (by omega) (by omega)
    · exact isLeast_of_pred (p := 4) rfl (by omega) (by omega) (by omega) (by omega)
  · split
    · -- steps of eight; the slot before the first of them is slot 5
      have height := kBinSlotTemplate_eight (show 6 ≤ (size - 1) / 8 by omega) (by omega)
      apply isLeast_of_pred (p := (size - 1) / 8 - 1) (by omega) (by omega) (by omega)
      · rcases eq_or_ne ((size - 1) / 8) 6 with hsix | hsix
        · rw [hsix, show (6 : Int) - 1 = 5 from rfl, t5]
          omega
        · rw [kBinSlotTemplate_eight (by omega) (by omega)]
          omega
      · omega
    · split
      · -- steps of sixteen; the slot before the first of them is slot 11
        have hsixteen := kBinSlotTemplate_sixteen (show 12 ≤ (size - 1) / 16 + 6 by omega) (by omega)
        apply isLeast_of_pred (p := (size - 1) / 16 + 5) (by omega) (by omega) (by omega)
        · rcases eq_or_ne ((size - 1) / 16) 6 with hsix | hsix
          · rw [hsix, show (6 : Int) + 5 = 11 from rfl, kBinSlotTemplate_eight (by omega) le_rfl]
            omega
          · rw [kBinSlotTemplate_sixteen (by omega) (by omega)]
            omega
        · omega
      · have t24 : kBinSlotTemplate 24 = 320 := by decide
        have hlast : kBinSlotTemplate kBinSlotSize = kMaxObjectAvailable := by decide
        have hslots : kBinSlotSize = 39 := rfl
        exact searchBinSlot_isLeast (by omega) (by omega) (by omega) (by omega) (by omega)

/-- Slot 24 would do for the sizes that `BinSlot` gives slot 25. -/
lemma binSlot_gap {size : Int} (h289 : 289 ≤ size) (h320 : size ≤ 320) :
    binSlot size = 25 ∧ 24 ∈ LargeEnough size := by
  have t24 : kBinSlotTemplate 24 = 320 := by decide
  refine ⟨?_, by decide, by omega⟩
  unfold binSlot
  rw [if_neg (by omega), if_neg (by omega), if_neg (by omega)]
  exact searchBinSlot_missed h320

/-! ## `SpanSlotOf` -/

lemma spanSlotOf_isLeast {size : Int} (h1 : 1 ≤ size) (hsize : size ≤ 245748) :
    IsLeast {p | size + kSpanHeaderSize ≤ p * kPageLen} (spanSlotOf size) := by
  have hheader : kSpanHeaderSize = 12 := rfl
  have hpage : kPageLen = 4096 := rfl
  rw [spanSlotOf, hheader, hpage, int32_of_lt (by omega) (by omega)]
  constructor
  · show size + 12 ≤ _
    omega
  · intro p hp
    have hp' : size + 12 ≤ p * 4096 := hp
    omega

/-- Of the sizes that `Malloc` serves, exactly 289 to 320 get a class that is not the
tightest. -/
theorem tightestClass_iff (size : Int) (h1 : 1 ≤ size) (hsize : size ≤ 245748) :
    TightestClass size ↔ ¬(289 ≤ size ∧ size ≤ 320) := by
  constructor
  · rintro htight ⟨h289, h320⟩
    obtain ⟨hslot, hmem⟩ := binSlot_gap h289 h320
    have hle := (htight.bin (by rw [kMaxObjectAvailable]; omega)).2 hmem
    omega
  · intro hgap
    constructor
    · exact fun hsmall => binSlot_isLeast h1 hsmall hgap
    · intro hsmall
      exact (binSlot_isLeast h1 hsmall hgap).unique (plainBinSlot_isLeast h1 hsmall)
    · exact fun _ => spanSlotOf_isLeast h1 hsize

theorem tightestClass_iff_page : TightestClass 5000 ↔ ¬(289 ≤ (5000 : Int) ∧ (5000 : Int) ≤ 320) :=
  tightestClass_iff 5000 (by decide) (by decide)

/-- An object of 300 bytes gets one of 352 although there are objects of 320. -/
theorem not_tightestClass_300 : ¬∀ size : Int, 1 ≤ size → size ≤ 245748 → TightestClass size := by
  intro h
  have htight := h 300 (by decide) (by decide)
  obtain ⟨hslot, hmem⟩ := binSlot_gap (show 289 ≤ (300 : Int) by decide) (by decide)
  have hle := (htight.bin (by decide)).2 hmem
  omega

end CoplusLean.Arena
