import CoplusLean.Proofs.ArenaClasses
import CoplusLean.Proofs.ArenaGuarantees
import Mathlib.Algebra.Ring.Divisibility.Basic

/-!
# Alignment of what `allocate` returns

An object lies 16 bytes and some objects behind the start of its page, a chunk 12 bytes
behind the start of its span. From slot 2 on the sizes of objects are multiples of eight, so
objects are as aligned as their type needs; a chunk is a multiple of four only.
-/

namespace CoplusLean

open Lib

namespace Arena

variable {a : Arena} {live : List Int} {g : Layout} {obj : Int → PageObjects} {s k ptr : Int}
  {commit : Bool}

/-! ## Where blocks begin -/

/-- A chunk begins behind the header of a span. -/
lemma mallocBig_address (hptr : (a.mallocBig k commit).1 = .block ptr) :
    ∃ h, ptr = ptrOf h + 12 := by
  have hheader : kSpanHeaderSize = 12 := rfl
  unfold mallocBig at hptr
  dsimp only at hptr
  rw [hheader] at hptr
  split at hptr
  · exact ⟨_, (Outcome.block.inj hptr).symm⟩
  · split at hptr
    · cases hptr
    · split at hptr
      · cases hptr
      · exact ⟨_, (Outcome.block.inj hptr).symm⟩

/-- The first object of a new page begins behind the header of the page. -/
lemma newPage_address (hptr : (a.newPage s commit).1 = .block ptr) :
    ∃ h, ptr = ptrOf h + objectOffset s 0 := by
  have hfirst : objectOffset s 0 = 16 := by
    rw [objectOffset, Nat.cast_zero, mul_zero, add_zero]
  have hheader : kPageHeaderSize = 16 := rfl
  rw [hfirst]
  unfold newPage makePage at hptr
  dsimp only at hptr
  rw [hheader] at hptr
  split at hptr
  · exact ⟨_, (Outcome.block.inj hptr).symm⟩
  · split at hptr
    · cases hptr
    · split at hptr
      · cases hptr
      · exact ⟨_, (Outcome.block.inj hptr).symm⟩

/-- A free object of a page is one of the objects the page is divided into. -/
lemma PageOk.oFree_offset {m : Memory} {h : Int} {p : PageObjects} (hp : PageOk m h s p)
    (h1 : 1 ≤ s) (h39 : s ≤ 39) (hfree : m.load16 (ptrOf h + 12) > 1) :
    ∃ j, m.load16 (ptrOf h + 12) = objectOffset s j := by
  rw [hp.oFree] at hfree ⊢
  have hmem : (p.chain s).headD 0 ∈ p.chain s := by
    cases hchain : p.chain s with
    | nil =>
      rw [hchain] at hfree
      exact absurd hfree (by simp)
    | cons o t => simp
  obtain ⟨-, j, -, hj, -⟩ := hp.mem_chain h1 h39 hmem
  exact ⟨j, hj⟩

/-- An object of a small request begins at a multiple of its slot behind the header. -/
lemma Holds.mallocSmall_address (hw : Holds a live g obj) (h1 : 1 ≤ s) (h39 : s ≤ 39)
    (hptr : (a.mallocSmall s commit).1 = .block ptr) :
    ∃ h j, ptr = ptrOf h + objectOffset s j := by
  unfold Arena.mallocSmall at hptr
  dsimp only at hptr
  split at hptr
  · rename_i hserve
    have huse := hw.spans.candidate_use h1 h39 hserve.1
    generalize a.candidate s = h at *
    rw [get_oFree] at hserve
    obtain ⟨j, hj⟩ := (hw.pages h _ s huse).oFree_offset h1 h39 hserve.2
    rw [takeObject_eq rfl ((get_oFree a h).trans hj)] at hptr
    exact ⟨h, j, (Outcome.block.inj hptr).symm⟩
  · obtain ⟨h, hh⟩ := newPage_address hptr
    exact ⟨h, 0, hh⟩

/-! ## Divisibility -/

lemma eight_dvd_kBinSlotTemplate (h2 : 2 ≤ s) (h39 : s ≤ 39) : 8 ∣ kBinSlotTemplate s := by
  interval_cases s <;> decide

/-- The alignments the types have. -/
def IsAlignment (align : Nat) : Prop := align = 1 ∨ align = 2 ∨ align = 4 ∨ align = 8

lemma IsAlignment.dvd_eight {align : Nat} (halign : IsAlignment align) : (align : Int) ∣ 8 := by
  rcases halign with rfl | rfl | rfl | rfl <;> decide

lemma IsAlignment.dvd_four {align : Nat} (halign : IsAlignment align) (h4 : align ≤ 4) :
    (align : Int) ∣ 4 := by
  rcases halign with rfl | rfl | rfl | rfl
  · decide
  · decide
  · decide
  · omega

/-- The pages of the heap begin at multiples of the page length. -/
lemma dvd_base_add_ptrOf {base h : Int} (hbase : kPageLen ∣ base) {n : Int} (hn : n ∣ 8) :
    n ∣ base + ptrOf h := by
  have hpage : (8 : Int) ∣ kPageLen := by decide
  have hptr : kPageLen ∣ ptrOf h := ⟨h + kSelfReservedPage - 1, by rw [ptrOf, mul_comm]⟩
  exact hn.trans (hpage.trans (dvd_add hbase hptr))

/-- The slot of a multiple of the alignment has objects that are a multiple of it. -/
lemma dvd_kBinSlotTemplate {align size : Nat} (halign : IsAlignment align) (hsize : 1 ≤ size)
    (hdvd : align ∣ size) (hsmall : (size : Int) ≤ kMaxObjectAvailable) :
    (align : Int) ∣ kBinSlotTemplate (binSlot size) := by
  obtain ⟨h1, h39, hlarge⟩ := binSlot_spec (by omega) hsmall
  rcases eq_or_lt_of_le h1 with hone | htwo
  · -- slot 1 has objects of four bytes, so the alignment is at most four
    have hfirst : kBinSlotTemplate 1 = 4 := by decide
    rw [← hone, hfirst] at hlarge ⊢
    exact halign.dvd_four ((Nat.le_of_dvd hsize hdvd).trans (by omega))
  · exact halign.dvd_eight.trans (eight_dvd_kBinSlotTemplate htwo h39)

lemma Holds.object_aligned (hw : Holds a live g obj) {base : Int} (hbase : kPageLen ∣ base)
    {align size : Nat} (halign : IsAlignment align) (hsize : 1 ≤ size) (hdvd : align ∣ size)
    (hsmall : (size : Int) ≤ kMaxObjectAvailable)
    (hptr : (a.mallocSmall (binSlot size) commit).1 = .block ptr) : (align : Int) ∣ base + ptr := by
  obtain ⟨h1, h39, -⟩ := binSlot_spec (show 1 ≤ (size : Int) by omega) hsmall
  obtain ⟨h, j, rfl⟩ := hw.mallocSmall_address h1 h39 hptr
  have hslot := dvd_kBinSlotTemplate halign hsize hdvd hsmall
  rw [← add_assoc, objectOffset]
  apply dvd_add (dvd_base_add_ptrOf hbase halign.dvd_eight)
  apply dvd_add _ (hslot.mul_right _)
  exact halign.dvd_eight.trans (by decide)

lemma chunk_aligned_iff {base : Int} (hbase : kPageLen ∣ base) {align : Nat}
    (halign : IsAlignment align) (hptr : (a.mallocBig k commit).1 = .block ptr) :
    (align : Int) ∣ base + ptr ↔ align ≤ 4 := by
  obtain ⟨h, rfl⟩ := mallocBig_address hptr
  rw [← add_assoc, dvd_add_right (dvd_base_add_ptrOf hbase halign.dvd_eight)]
  rcases halign with rfl | rfl | rfl | rfl <;> decide

end Arena

namespace ArenaWorld

open Arena

/-- In the states of runs that avoid the defects a block that `allocate` serves is aligned for
its type exactly where the type needs at most four bytes or the block is an object. -/
theorem allocate_aligned_iff (mem : Memory) (commit : Nat → Bool) (a : Arena)
    (ha : init mem commit = some a) (as : List ArenaStep)
    (hcareful : Along ArenaWorld.step Careful ⟨a, []⟩ as) (w : ArenaWorld)
    (hrun : exec ArenaWorld.step ⟨a, []⟩ as = some w) (base : Int) (hbase : kPageLen ∣ base)
    (align size n : Nat) (halign : IsAlignment align) (hsize : 1 ≤ size) (hdvd : align ∣ size)
    (hn : 1 ≤ n) (hmax : n * size ≤ 245748) (granted : Bool) (ptr : Int)
    (hptr : (w.arena.allocate size n granted).1 = .block ptr) :
    (align : Int) ∣ base + ptr ↔ align ≤ 4 ∨ n * size ≤ 4080 := by
  obtain ⟨g, obj, hholds⟩ := represents_of_run ha hcareful hrun
  have hmaxObject : kMaxObjectAvailable = 4080 := rfl
  have hpos : 1 ≤ n * size := Nat.mul_pos hn hsize
  have harg : int32 (sizeT ((n : Int) * size)) = (n * size : Nat) := by
    rw [← Nat.cast_mul, sizeT_of_nonneg (by omega) (by omega), Int.toNat_natCast,
      int32_of_lt (by omega) (by omega)]
  unfold allocate malloc at hptr
  rw [harg, if_neg (by omega)] at hptr
  split at hptr
  · rename_i hbig
    rw [chunk_aligned_iff hbase halign hptr]
    omega
  · rename_i hsmall
    have haligned := hholds.object_aligned hbase halign hpos (hdvd.mul_left n) (by omega) hptr
    exact iff_of_true haligned (.inr (by omega))

/-- 4088 bytes are a chunk of two pages. -/
lemma allocate_pages (a : Arena) {size n : Nat} (hsize : n * size = 4088) (commit : Bool) :
    a.allocate size n commit = a.mallocBig 2 commit := by
  have hbig : int32 (sizeT 4088) > kMaxObjectAvailable := by decide
  have hslot : int16 (spanSlotOf (int32 (sizeT 4088))) = 2 := by decide
  unfold allocate malloc
  rw [← Nat.cast_mul, hsize, Nat.cast_ofNat, if_neg (by decide), if_pos hbig, hslot]

/-- While the heap has room a chunk of two pages is served. -/
lemma serves_pages {a : Arena} {live : List Int} {g : Layout} {obj : Int → PageObjects}
    (hw : Holds a live g obj) (hroom : a.kHeapAllocPage + 60 ≤ 180224) :
    ∃ ptr, (a.mallocBig 2 true).1 = .block ptr := by
  have hserves := hw.mallocBig (s := 2) ⟨by decide, by decide, fun h => absurd h (by decide)⟩ true
  rcases hserves.2 with hthrow | ⟨ptr, hptr, -⟩
  · exact absurd hthrow (mallocBig_of_room (a := a) hw.spans.reserved hroom 2)
  · exact ⟨ptr, hptr⟩

/-- Right after `Init` a chunk of two pages is served. -/
lemma init_serves_pages :
    ∃ a ptr, init freshMemory (fun _ => true) = some a ∧ (a.mallocBig 2 true).1 = .block ptr := by
  obtain ⟨a, ha, hheap⟩ := init_of_room freshMemory
  obtain ⟨g, hg⟩ := unused_init ha
  obtain ⟨ptr, hptr⟩ := serves_pages (hg.holds fun _ => ⟨[], [], 0⟩) (by omega)
  exact ⟨a, ptr, ha, hptr⟩

/-- Six objects of 4080 bytes are served before. -/
theorem allocate_aligned_iff_words :
    ∃ a w ptr, init freshMemory (fun _ => true) = some a ∧
      exec ArenaWorld.step ⟨a, []⟩ (List.replicate 6 (.malloc 4080 true)) = some w ∧
      (w.arena.allocate 4 1022 true).1 = .block ptr ∧
        (((4 : Nat) : Int) ∣ 4096 + ptr ↔ 4 ≤ 4 ∨ 1022 * 4 ≤ 4080) := by
  obtain ⟨a, ha, hheap⟩ := init_of_room freshMemory
  have hstart : FullPages ⟨a, []⟩ 39 6 [] (60 + 60) :=
    fullPages_init ha (by decide) (by decide) (by omega)
  obtain ⟨w, h, hrun, hcareful, ⟨g, obj, hholds, -⟩, hroom⟩ := fill_largest hstart (by decide)
  obtain ⟨ptr, hptr⟩ := serves_pages hholds hroom
  rw [← allocate_pages w.arena (show 1022 * 4 = 4088 from rfl)] at hptr
  refine ⟨a, w, ptr, ha, hrun, hptr, ?_⟩
  exact allocate_aligned_iff freshMemory (fun _ => true) a ha _ hcareful w hrun 4096
    (by decide) 4 4 1022 (.inr (.inr (.inl rfl))) (by decide) (by decide) (by decide) (by decide)
    true ptr hptr

/-- A block of 511 values of eight bytes that need an alignment of eight, right after `Init`. -/
theorem allocate_misaligned :
    ¬∀ (mem : Memory) (commit : Nat → Bool) (a : Arena), init mem commit = some a →
      ∀ (as : List ArenaStep) (w : ArenaWorld), exec ArenaWorld.step ⟨a, []⟩ as = some w →
        ∀ base : Int, kPageLen ∣ base → ∀ align size n : Nat, IsAlignment align → 1 ≤ size →
          align ∣ size → 1 ≤ n → n * size ≤ 245748 → ∀ (granted : Bool) (ptr : Int),
            (w.arena.allocate size n granted).1 = .block ptr → (align : Int) ∣ base + ptr := by
  intro hclaim
  have height : IsAlignment 8 := .inr (.inr (.inr rfl))
  obtain ⟨a, ptr, ha, hptr⟩ := init_serves_pages
  have hcall := hptr
  rw [← allocate_pages a (show 511 * 8 = 4088 from rfl)] at hcall
  have hbad := hclaim freshMemory _ a ha [] ⟨a, []⟩ rfl 0 (dvd_zero _) 8 8 511 height (by decide)
    (by decide) (by decide) (by decide) true ptr hcall
  rw [chunk_aligned_iff (dvd_zero _) height hptr] at hbad
  exact absurd hbad (by decide)

end ArenaWorld

end CoplusLean
