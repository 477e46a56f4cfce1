import CoplusLean.Proofs.ArenaSafety

/-!
# What `Free` of an object writes

`Free` of an object whose page stays in its bin writes the first bytes of the object, the
header of the page, links of pages of the same bin and the entry of the bin. The move to the
front also writes `hPri` of the page behind; for the last page of a bin this is handle `0`,
whose header lies in `is_head_`.
-/

namespace CoplusLean.Arena

open Lib

/-- The bytes that may change when `ptr` in the page `h` of the bin `slot` is freed. -/
def FreeFrame (a : Arena) (h slot ptr x : Int) : Prop :=
  (ptr ≤ x ∧ x < ptr + 2) ∨
    (ptrOf h ≤ x ∧ x < ptrOf h + kPageHeaderSize) ∨
    (∃ y, a.IsSpan y ∧ a.get (.flag y) = -slot ∧ ptrOf y + 4 ≤ x ∧ x < ptrOf y + 12) ∨
    ((ListId.bin slot).addr ≤ x ∧ x < (ListId.bin slot).addr + kPageHandleSize)

/-- Nothing else changes. -/
structure Framed (a : Arena) (h slot ptr : Int) (b : Arena) : Prop where
  heap : b.kHeapAllocPage = a.kHeapAllocPage
  reserved : b.kMemoryReservedStart = a.kMemoryReservedStart
  byte : ∀ x, ¬FreeFrame a h slot ptr x → b.mem.byte x = a.mem.byte x

/-- The page is not the first of its bin and has fewer objects in use, counted down. -/
def MovesToFront (a : Arena) (h slot : Int) : Prop :=
  a.get (.bin slot) ≠ h ∧ int16 (a.get (.nUsed h) - 1) < a.get (.nUsed (a.get (.bin slot)))

variable {a b : Arena} {g : Layout} {h s ptr x : Int}

/-! ## Cells and bytes -/

lemma byte_set_of_outside (a : Arena) (c : Cell) (v : Int)
    (hx : x < c.addr ∨ c.addr + (if c.short then 2 else 4) ≤ x) :
    (a.set c v).mem.byte x = a.mem.byte x := by
  rw [set_mem]
  exact Memory.byte_write_of_outside _ _ hx

/-- A cell is made of its bytes. -/
lemma get_of_cell_bytes {c : Cell} (hbyte : ∀ x, c.addr ≤ x → x < c.addr + (if c.short then 2 else 4) →
    b.mem.byte x = a.mem.byte x) : b.get c = a.get c := by
  unfold get
  split
  · rename_i hshort
    rw [if_pos hshort] at hbyte
    exact Memory.load16_congr hbyte
  · rename_i hlong
    rw [if_neg hlong] at hbyte
    exact Memory.load32_congr hbyte

lemma get_hPri (a : Arena) (h : Int) : a.get (.hPri h) = a.mem.load32 (ptrOf h + 4) := by
  simp [get, Cell.short, Cell.addr, Field.short, Field.offset]

/-- The object is released: its first bytes and the last fields of the header are written. -/
lemma byte_releaseObject (hx : x < ptr ∨ ptr + 2 ≤ x)
    (hheader : x < ptrOf h + 12 ∨ ptrOf h + 16 ≤ x) (v : Int) :
    ((a.set (.nUsed h) v).releaseObject h ptr).mem.byte x = a.mem.byte x := by
  unfold releaseObject
  dsimp only
  rw [byte_set_of_outside, Memory.store16, Memory.byte_write_of_outside _ _ hx, byte_set_of_outside]
  · simp only [Cell.addr, Cell.short, Field.offset, Field.short, if_true]
    omega
  · simp only [Cell.addr, Cell.short, Field.offset, Field.short, if_true]
    omega

/-- What the release of an object leaves for the move to the front. -/
structure Kept (a b : Arena) (g : Layout) (h s ptr : Int) : Prop where
  heap : b.kHeapAllocPage = a.kHeapAllocPage ∧ b.kMemoryReservedStart = a.kMemoryReservedStart
  byte : ∀ x, x < ptr ∨ ptr + 2 ≤ x → x < ptrOf h + 12 ∨ ptrOf h + 16 ≤ x →
    b.mem.byte x = a.mem.byte x
  flag : b.get (.flag h) = -s
  root : b.get (.bin s) = a.get (.bin s)
  hNext : b.get (.hNext h) = a.get (.hNext h)
  hPri : b.get (.hPri 0) = a.get (.hPri 0)
  nUsed : b.get (.nUsed h) = int16 (a.get (.nUsed h) - 1)
  nUseds : ∀ y, g.len y ≠ 0 → y ≠ h → b.get (.nUsed y) = a.get (.nUsed y)

lemma Spans.kept (hs : Spans a g 0) (hh : g.len h ≠ 0) (hpage : g.kind h = .page s)
    (hlow : ptrOf h + 16 ≤ ptr) (hhigh : ptr + 2 ≤ ptrOf (h + g.len h)) :
    Kept a ((a.set (.nUsed h) (a.get (.nUsed h) - 1)).releaseObject h ptr) g h s ptr := by
  have hspan := hs.sound.span h hh
  have hslot := hs.sound.page h s hh hpage
  have hbyte : ∀ x, x < ptr ∨ ptr + 2 ≤ x → x < ptrOf h + 12 ∨ ptrOf h + 16 ≤ x →
      ((a.set (.nUsed h) (a.get (.nUsed h) - 1)).releaseObject h ptr).mem.byte x =
        a.mem.byte x := fun x hx hheader => byte_releaseObject hx hheader _
  have hi : (ListId.bin s).Valid := ⟨by omega, by omega⟩
  have hbin := hi.bounds
  have hflag := hs.page h s hh hpage
  have hused : ((a.set (.nUsed h) (a.get (.nUsed h) - 1)).releaseObject h ptr).get (.nUsed h) =
      int16 (a.get (.nUsed h) - 1) := by
    unfold Arena.releaseObject
    dsimp only
    rw [get_set_field, if_neg (by simp)]
    rw [get_of_write (a := a.set (.nUsed h) (a.get (.nUsed h) - 1)) (p := ptr) (n := 2) rfl]
    · rw [get_set_field, if_pos ⟨rfl, rfl⟩, Field.wrap_nUsed]
    · simp only [Cell.addr, Cell.short, Field.offset, Field.short, if_true]
      omega
  rw [ptrOf_eq] at hlow hhigh
  refine ⟨⟨rfl, rfl⟩, hbyte, ?_, ?_, ?_, ?_, hused, ?_⟩
  · rw [← hflag]
    apply get_of_cell_bytes
    intro x h0 h1
    simp only [Cell.addr, Cell.short, Field.offset, Field.short, Bool.false_eq_true, if_false,
      ptrOf_eq] at h0 h1 hbyte
    exact hbyte x (by omega) (by omega)
  · apply get_of_cell_bytes
    intro x h0 h1
    simp only [Cell.addr, Cell.short, Bool.false_eq_true, if_false, ptrOf_eq] at h0 h1 hbyte
    exact hbyte x (by omega) (by omega)
  · apply get_of_cell_bytes
    intro x h0 h1
    simp only [Cell.addr, Cell.short, Field.offset, Field.short, Bool.false_eq_true, if_false,
      ptrOf_eq] at h0 h1 hbyte
    exact hbyte x (by omega) (by omega)
  · apply get_of_cell_bytes
    intro x h0 h1
    simp only [Cell.addr, Cell.short, Field.offset, Field.short, Bool.false_eq_true, if_false,
      ptrOf_eq] at h0 h1 hbyte
    exact hbyte x (by omega) (by omega)
  · intro y hy hne
    have hbeside := hs.sound.beside hh hy hne
    have hlen := hs.sound.span y hy
    apply get_of_cell_bytes
    intro x h0 h1
    simp only [Cell.addr, Cell.short, Field.offset, Field.short, if_true, ptrOf_eq] at h0 h1 hbyte
    exact hbyte x (by omega) (by omega)

/-! ## The move to the front -/

/-- The stores of the move, in their order. -/
def frontStores (b : Arena) (s h first n : Int) : Arena :=
  (((((b.set (.hPri first) h).set (.hNext first) n).set (.hPri n) n).set (.hNext h) first).set
    (.hPri h) 0).set (.bin s) h

lemma Kept.moveToFront (hk : Kept a b g h s ptr) {first : Int} (hfirst : a.get (.bin s) = first) :
    b.moveToFront h = if b.get (.nUsed first) > b.get (.nUsed h) then
      frontStores b s h first (a.get (.hNext h)) else b := by
  have hroot := hk.root
  rw [hfirst] at hroot
  unfold Arena.moveToFront
  simp only [hk.flag, neg_neg, hroot]
  split
  · rename_i hless
    have hne : first ≠ h := by
      rintro rfl
      exact absurd hless (lt_irrefl _)
    have hn : (b.set (.hPri first) h).get (.hNext h) = a.get (.hNext h) := by
      rw [get_set_field, if_neg (by simp), hk.hNext]
    have hn' : ((b.set (.hPri first) h).set (.hNext first) (a.get (.hNext h))).get (.hNext h) =
        a.get (.hNext h) := by
      rw [get_set_field, if_neg fun heq => hne heq.2.symm, hn]
    rw [hn, hn']
    rfl
  · rfl

/-- The bytes that the move writes. -/
lemma byte_frontStores {first n : Int} (hfirst : x < ptrOf first + 4 ∨ ptrOf first + 12 ≤ x)
    (hn : x < ptrOf n + 4 ∨ ptrOf n + 8 ≤ x) (hh : x < ptrOf h + 4 ∨ ptrOf h + 12 ≤ x)
    (hbin : x < (ListId.bin s).addr ∨ (ListId.bin s).addr + 4 ≤ x) :
    (frontStores b s h first n).mem.byte x = b.mem.byte x := by
  unfold frontStores
  rw [byte_set_of_outside _ _ _ hbin, byte_set_of_outside, byte_set_of_outside,
    byte_set_of_outside, byte_set_of_outside, byte_set_of_outside]
  all_goals
    simp only [Cell.addr, Cell.short, Field.offset, Field.short, Bool.false_eq_true, if_false]
    omega

/-- Behind the last page of a bin the move clears the word of handle `0`. -/
lemma byte_frontStores_last {first : Int} (h1 : 1 ≤ h) (hbin : (ListId.bin s).addr + 4 ≤ 404)
    (h0 : ptrOf 0 + 4 ≤ x) (hlt : x < ptrOf 0 + 8) :
    (frontStores b s h first 0).mem.byte x = 0#8 := by
  simp only [ptrOf_eq] at h0 hlt
  unfold frontStores
  rw [byte_set_of_outside, byte_set_of_outside, byte_set_of_outside, set_mem,
    Memory.byte_write_of_inside, Memory.byteOf_zero]
  all_goals
    simp only [Cell.addr, Cell.short, Field.offset, Field.short, Bool.false_eq_true, if_false,
      ptrOf_eq]
    omega

/-! ## The frame -/

/-- The pages of the bin may have their links written. -/
lemma Spans.isSpan_of_mem (hs : Spans a g 0) (hi : (ListId.bin s).Valid) {y : Int}
    (hy : y ∈ g.list (.bin s)) : a.IsSpan y ∧ a.get (.flag y) = -s ∧ g.len y ≠ 0 := by
  obtain ⟨hlen, hkind⟩ := (hs.sound.mem_bin hi).1 hy
  exact ⟨hs.isSpan_iff.2 hlen, hs.page y s hlen hkind, hlen⟩

lemma Spans.first_mem (hs : Spans a g 0) (hi : (ListId.bin s).Valid) (hh : g.len h ≠ 0)
    (hpage : g.kind h = .page s) : a.get (.bin s) ∈ g.list (.bin s) := by
  have hmem : h ∈ g.list (.bin s) := (hs.sound.mem_bin hi).2 ⟨hh, hpage⟩
  rcases hs.table_cases hi with ⟨-, hnil⟩ | ⟨hfirst, -⟩
  · rw [hnil] at hmem
    cases hmem
  · exact hfirst

lemma Kept.moves_iff (hk : Kept a b g h s ptr) (hfirst : g.len (a.get (.bin s)) ≠ 0) :
    b.get (.nUsed (a.get (.bin s))) > b.get (.nUsed h) ↔ a.MovesToFront h s := by
  unfold MovesToFront
  by_cases heq : a.get (.bin s) = h
  · rw [heq]
    exact iff_of_false (lt_irrefl _) fun hmoves => hmoves.1 rfl
  · rw [hk.nUseds _ hfirst heq, hk.nUsed]
    exact (and_iff_right heq).symm

lemma Spans.free_eq (hs : Spans a g 0) (hh : g.len h ≠ 0) (hpage : g.kind h = .page s)
    (hlow : ptrOf h ≤ ptr) (hhigh : ptr < ptrOf (h + g.len h))
    (hkeep : (a.set (.nUsed h) (a.get (.nUsed h) - 1)).KeepPage h) :
    a.free ptr =
      ((a.set (.nUsed h) (a.get (.nUsed h) - 1)).releaseObject h ptr).moveToFront h := by
  have hslot := hs.sound.page h s hh hpage
  have hflag := hs.page h s hh hpage
  unfold Arena.free Arena.freeObject
  rw [hs.spanHandleOf_ptr hh hlow hhigh]
  dsimp only
  rw [if_pos (by omega), if_pos hkeep]

/-- The word of handle `0` is outside of all that may change. -/
lemma not_freeFrame_zero (h1 : 1 ≤ h) (hlow : ptrOf h + 16 ≤ ptr)
    (hbin : (ListId.bin s).addr + 4 ≤ 404) (h0 : ptrOf 0 + 4 ≤ x) (hlt : x < ptrOf 0 + 8) :
    ¬FreeFrame a h s ptr x := by
  have hsize : kPageHandleSize = 4 := rfl
  simp only [ptrOf_eq] at hlow h0 hlt
  rintro (hx | hx | ⟨y, hy, -, hx⟩ | hx)
  · omega
  · rw [ptrOf_eq] at hx
    omega
  · have hpos := hy.1
    rw [ptrOf_eq] at hx
    omega
  · omega

/-- Behind another page of the bin, or behind handle `0`. -/
lemma byte_front {first n : Int} (hspan : a.IsSpan first)
    (hflag : a.get (.flag first) = -s) (hx : ¬FreeFrame a h s ptr x)
    (hn : x < ptrOf n + 4 ∨ ptrOf n + 8 ≤ x) (hkept : b.mem.byte x = a.mem.byte x) :
    (frontStores b s h first n).mem.byte x = a.mem.byte x := by
  have hheader : kPageHeaderSize = 16 := rfl
  have hsize : kPageHandleSize = 4 := rfl
  rw [byte_frontStores _ hn, hkept]
  · by_contra hcon
    exact hx (Or.inr (Or.inl (by omega)))
  · by_contra hcon
    exact hx (Or.inr (Or.inr (Or.inr (by omega))))
  · by_contra hcon
    have hin : ptrOf first + 4 ≤ x ∧ x < ptrOf first + 12 := by omega
    exact hx (Or.inr (Or.inr (Or.inl ⟨first, hspan, hflag, hin⟩)))

/-- The frame of `Free` where the page stays in its bin. -/
lemma Spans.framed_iff (hs : Spans a g 0) (hh : g.len h ≠ 0) (hpage : g.kind h = .page s)
    (hlow : ptrOf h + 16 ≤ ptr) (hhigh : ptr + 2 ≤ ptrOf (h + g.len h))
    (hkeep : (a.set (.nUsed h) (a.get (.nUsed h) - 1)).KeepPage h) :
    Framed a h s ptr (a.free ptr) ↔
      ¬(a.MovesToFront h s ∧ a.get (.hNext h) = 0 ∧ a.get (.hPri 0) ≠ 0) := by
  have hslot := hs.sound.page h s hh hpage
  have hi : (ListId.bin s).Valid := ⟨by omega, by omega⟩
  have hb := hs.sound.bounds hh
  have hbin := hi.bounds
  obtain ⟨hspan, hflag, hlen⟩ := hs.isSpan_of_mem hi (hs.first_mem hi hh hpage)
  obtain ⟨b, hfree, hk⟩ : ∃ b, a.free ptr = b.moveToFront h ∧ Kept a b g h s ptr :=
    ⟨_, hs.free_eq hh hpage (by omega) (by omega) hkeep, hs.kept hh hpage hlow hhigh⟩
  have hkept : ∀ x, ¬FreeFrame a h s ptr x → b.mem.byte x = a.mem.byte x := by
    have hheader : kPageHeaderSize = 16 := rfl
    intro x hx
    apply hk.byte
    · by_contra hcon
      exact hx (Or.inl (by omega))
    · by_contra hcon
      exact hx (Or.inr (Or.inl (by omega)))
  have hnext := hs.hNext_cases hi ((hs.sound.mem_bin hi).2 ⟨hh, hpage⟩)
  have hcounters : Framed a h s ptr (a.free ptr) ↔
      ∀ x, ¬FreeFrame a h s ptr x → (b.moveToFront h).mem.byte x = a.mem.byte x := by
    rw [hfree]
    refine ⟨Framed.byte, Framed.mk ?_ ?_⟩
    · rw [hk.moveToFront rfl, ← hk.heap.1]
      split <;> rfl
    · rw [hk.moveToFront rfl, ← hk.heap.2]
      split <;> rfl
  rw [hcounters, hk.moveToFront rfl]
  by_cases hmoves : a.MovesToFront h s
  · rw [if_pos ((hk.moves_iff hlen).2 hmoves)]
    generalize a.get (.hNext h) = n at *
    rcases hnext with rfl | ⟨hnext, -⟩
    · -- behind the last page stands handle `0`
      constructor
      · rintro hframe ⟨-, -, hword⟩
        apply hword
        rw [get_hPri]
        apply Memory.load32_eq_zero
        intro x h0 h1
        rw [← hframe x (not_freeFrame_zero hb.1 hlow hbin.2 h0 (by omega)),
          byte_frontStores_last hb.1 hbin.2 h0 (by omega)]
      · intro hword x hx
        have hzero : a.get (.hPri 0) = 0 := by
          by_contra hne
          exact hword ⟨hmoves, rfl, hne⟩
        rw [get_hPri] at hzero
        by_cases hin : ptrOf 0 + 4 ≤ x ∧ x < ptrOf 0 + 8
        · rw [byte_frontStores_last hb.1 hbin.2 hin.1 hin.2,
            Memory.byte_eq_zero_of_load32 hzero hin.1 (by omega)]
        · exact byte_front hspan hflag hx (by omega) (hkept x hx)
    · -- the links of another page of the bin may change
      obtain ⟨hspan', hflag', hlen'⟩ := hs.isSpan_of_mem hi hnext
      have hpos := hspan'.1
      apply iff_of_true
      · intro x hx
        apply byte_front hspan hflag hx _ (hkept x hx)
        by_contra hcon
        have hin : ptrOf n + 4 ≤ x ∧ x < ptrOf n + 12 := by omega
        exact hx (Or.inr (Or.inr (Or.inl ⟨n, hspan', hflag', hin⟩)))
      · rintro ⟨-, hlast, -⟩
        omega
  · rw [if_neg fun hless => hmoves ((hk.moves_iff hlen).1 hless)]
    exact iff_of_true hkept fun h => hmoves h.1

/-- The bit set, the other entries of the tables and the headers of all other spans stay as
they were. -/
lemma Framed.rest (hs : Spans a g 0) (hh : g.len h ≠ 0) (hpage : g.kind h = .page s)
    (hlow : ptrOf h + 16 ≤ ptr) (hhigh : ptr + 2 ≤ ptrOf (h + g.len h))
    (hframed : Framed a h s ptr b) :
    (∀ x, 0 ≤ x → x ≤ 180224 → b.isHead x = a.isHead x) ∧
      (∀ i, i.Valid → i ≠ .bin s → b.get (.table i) = a.get (.table i)) ∧
      ∀ f y, g.len y ≠ 0 → a.get (.flag y) ≠ -s → b.get (.field f y) = a.get (.field f y) := by
  have hslot := hs.sound.page h s hh hpage
  have hi : (ListId.bin s).Valid := ⟨by omega, by omega⟩
  have hspan := hs.sound.span h hh
  have hflag := hs.page h s hh hpage
  have hheader : kPageHeaderSize = 16 := rfl
  have hsize : kPageHandleSize = 4 := rfl
  have hbin := hi.bounds
  simp only [ptrOf_eq] at hlow hhigh
  -- below the heap only the entry of the bin may change
  have hbelow : ∀ x, x < 24576 → x < (ListId.bin s).addr ∨ (ListId.bin s).addr + 4 ≤ x →
      b.mem.byte x = a.mem.byte x := by
    intro x hx hout
    apply hframed.byte
    rintro (hin | hin | ⟨z, hz, -, hin⟩ | hin)
    · omega
    · rw [ptrOf_eq] at hin
      omega
    · have hpos := hz.1
      rw [ptrOf_eq] at hin
      omega
    · omega
  refine ⟨?_, ?_, ?_⟩
  · intro x h0 h1
    apply Memory.bit_congr
    rw [isHeadAddr_eq]
    exact hbelow _ (by omega) (by omega)
  · intro i hvalid hne
    have hapart := hvalid.apart hi hne
    have hbounds := hvalid.bounds
    apply get_of_cell_bytes
    intro x h0 h1
    simp only [Cell.addr, Cell.short, Bool.false_eq_true, if_false] at h0 h1
    exact hbelow x (by omega) (by omega)
  · intro f y hy hother
    have hne : y ≠ h := by
      rintro rfl
      exact hother hflag
    have hbeside := hs.sound.beside hh hy hne
    have hspan' := hs.sound.span y hy
    have hf := f.bounds
    apply get_of_cell_bytes
    intro x h0 h1
    simp only [Cell.addr, Cell.short, ptrOf_eq] at h0 h1
    apply hframed.byte
    rintro (hin | hin | ⟨z, -, hz, hin⟩ | hin)
    · omega
    · rw [ptrOf_eq] at hin
      omega
    · have hzy : z ≠ y := by
        rintro rfl
        exact hother hz
      rw [ptrOf_eq] at hin
      omega
    · omega

/-- From every well-formed arena, `Free` of an object whose page stays in its bin writes what
belongs to the object, its page and its bin only, unless it moves the last page of the bin to
the front while a bit of the first word of handle `0`, inside `is_head_`, is set. -/
theorem free_frame_iff (a : Arena) (ha : a.WellFormed) (h slot ptr : Int) (hspan : a.IsSpan h)
    (h1 : 1 ≤ slot) (hflag : a.get (.flag h) = -slot) (hlow : ptrOf h + kPageHeaderSize ≤ ptr)
    (hhigh : ptr + kBinSlotTemplate slot ≤ ptrOf (h + binSpanSize slot))
    (hkeep : (a.set (.nUsed h) (a.get (.nUsed h) - 1)).KeepPage h) :
    Framed a h slot ptr (a.free ptr) ↔
      ¬(a.MovesToFront h slot ∧ a.get (.hNext h) = 0 ∧ a.get (.hPri 0) ≠ 0) := by
  obtain ⟨g, hs, hheld⟩ := ha
  have hh := hs.isSpan_iff.1 hspan
  have hpage := hs.kind_of_flag_neg hh h1 hflag (hheld h hh)
  obtain ⟨-, h39, hlen⟩ := hs.sound.page h slot hh hpage
  have ht := kBinSlotTemplate_bounds h1 h39
  rw [← hlen] at hhigh
  exact hs.framed_iff hh hpage hlow (by omega) hkeep

/-! ## A heap of pages and chunks -/

/-- Chunks of two pages from the first handle on, until the heap has 160704 pages. -/
def chunksOnly : Arena where
  mem :=
    { byte := fun x =>
        if 404 ≤ x ∧ x < 404 + 20088 then 0xAA#8
        else if 24576 ≤ x ∧ (x - 24576) % 8192 = 0 then 2#8
        else if 24576 ≤ x ∧ 8 ≤ (x - 24576) % 8192 ∧ (x - 24576) % 8192 < 12 then 0xFF#8
        else 0#8
      touched := fun _ => false }
  kMemoryReservedStart := 160710 * 4096
  kHeapAllocPage := 160710

/-- Two of the spans are held. -/
def chunksLayout : Layout where
  top := 160704
  len h := if 1 ≤ h ∧ h ≤ 160703 ∧ h % 2 = 1 then 2 else 0
  kind h := if h = 1 ∨ h = 3 then .held else .chunk
  list _ := []

lemma chunksLayout_kind (h : Int) : chunksLayout.kind h = .held ∨ chunksLayout.kind h = .chunk := by
  unfold chunksLayout
  dsimp only
  split <;> simp

lemma chunksLayout_sound : chunksLayout.Sound := by
  constructor
  · simp [chunksLayout]
  · intro h hh
    simp only [chunksLayout] at hh ⊢
    split at hh <;> simp_all
    omega
  · intro h j hh h0 h1
    simp only [chunksLayout] at hh h1 ⊢
    split at hh
    · rename_i hin
      rw [if_pos hin] at h1
      exact if_neg (by omega)
    · exact absurd rfl hh
  · intro h hh
    simp only [chunksLayout] at hh ⊢
    split at hh
    · rename_i hin
      rw [if_pos hin]
      by_cases hlast : h = 160703
      · exact Or.inl (by omega)
      · rw [if_pos (by omega)]
        exact Or.inr (by decide)
    · exact absurd rfl hh
  · simp [chunksLayout]
  · intro h s hh hpage
    rcases chunksLayout_kind h with hk | hk <;> rw [hk] at hpage <;> cases hpage
  · intro i h hi
    have hhome : chunksLayout.home h = none := by
      unfold Layout.home
      rcases chunksLayout_kind h with hk | hk <;> rw [hk]
    rw [hhome]
    simp [chunksLayout]

lemma isHead_chunksOnly {h : Int} (h0 : 0 ≤ h) (h1 : h ≤ 180224) :
    chunksOnly.isHead h = true ↔ h ≤ 160703 ∧ h % 2 = 1 := by
  have hbits : (0xAA#8).getLsbD (h % 8).toNat = decide (h % 2 = 1) := by
    have hcases : h % 8 = 0 ∨ h % 8 = 1 ∨ h % 8 = 2 ∨ h % 8 = 3 ∨ h % 8 = 4 ∨ h % 8 = 5 ∨
        h % 8 = 6 ∨ h % 8 = 7 := by omega
    have hodd : h % 2 = h % 8 % 2 := by omega
    rw [hodd]
    rcases hcases with hr | hr | hr | hr | hr | hr | hr | hr <;> rw [hr] <;> decide
  unfold isHead Memory.bit
  rw [isHeadAddr_eq]
  simp only [chunksOnly]
  by_cases hlow : h ≤ 160703
  · rw [if_pos (by omega), hbits]
    simp [hlow]
  · rw [if_neg (by omega), if_neg (by omega), if_neg (by omega)]
    simp [hlow]

/-- The header of a chunk. -/
lemma get_chunksOnly {h : Int} (h1 : 1 ≤ h) (hodd : h % 2 = 1) :
    chunksOnly.get (.flag h) = 2 ∧ chunksOnly.get (.hNext h) = -1 := by
  have hbyte : ∀ k, 0 ≤ k → k < 12 → chunksOnly.mem.byte (ptrOf h + k) =
      if k = 0 then 2#8 else if 8 ≤ k then 0xFF#8 else 0#8 := by
    intro k h0 hk
    have hrest : (ptrOf h + k - 24576) % 8192 = k := by
      rw [ptrOf_eq]
      omega
    have hge : 24576 ≤ ptrOf h + k := by
      rw [ptrOf_eq]
      omega
    simp only [chunksOnly, hrest]
    rw [if_neg (by omega)]
    simp only [hge, hk, true_and, and_true]
  have hflag : chunksOnly.get (.flag h) = chunksOnly.mem.load32 (ptrOf h + 0) := by
    simp [get, Cell.short, Cell.addr, Field.short, Field.offset]
  have hnext : chunksOnly.get (.hNext h) = chunksOnly.mem.load32 (ptrOf h + 8) := by
    simp [get, Cell.short, Cell.addr, Field.short, Field.offset]
  have h0 := hbyte 0 (by omega) (by omega)
  have h1 := hbyte 1 (by omega) (by omega)
  have h2 := hbyte 2 (by omega) (by omega)
  have h3 := hbyte 3 (by omega) (by omega)
  have h8 := hbyte 8 (by omega) (by omega)
  have h9 := hbyte 9 (by omega) (by omega)
  have h10 := hbyte 10 (by omega) (by omega)
  have h11 := hbyte 11 (by omega) (by omega)
  rw [hflag, hnext]
  constructor
  · unfold Memory.load32
    simp only [add_assoc, h0, Int.reduceAdd, h1, h2, h3]
    decide
  · unfold Memory.load32
    simp only [add_assoc, h8, Int.reduceAdd, h9, h10, h11]
    decide

lemma spans_chunksOnly : Spans chunksOnly chunksLayout 0 := by
  have hlow : ∀ x, 0 ≤ x → x < 404 → chunksOnly.mem.byte x = 0#8 := by
    intro x h0 h1
    simp only [chunksOnly]
    rw [if_neg (by omega), if_neg (by omega), if_neg (by omega)]
  have htable : ∀ i : ListId, i.Valid → chunksOnly.get (.table i) = 0 := by
    intro i hi
    have hb := hi.bounds
    have hget : chunksOnly.get (.table i) = chunksOnly.mem.load32 i.addr := by
      simp [get, Cell.short, Cell.addr]
    rw [hget]
    apply Memory.load32_eq_zero
    intro x h0 h1
    exact hlow x (by omega) (by omega)
  have hspan : ∀ h, chunksLayout.len h ≠ 0 → 1 ≤ h ∧ h % 2 = 1 ∧ chunksLayout.len h = 2 := by
    intro h hh
    simp only [chunksLayout] at hh ⊢
    split at hh <;> simp_all
  constructor
  · exact chunksLayout_sound
  · rfl
  · rfl
  · intro h h0 h1
    rw [isHead_chunksOnly h0 h1]
    simp only [chunksLayout]
    split <;> simp_all <;> omega
  · constructor <;> simp +contextual [htable, chunksLayout]
  · intro h hh hfree
    rcases chunksLayout_kind h with hk | hk <;> rw [hk] at hfree <;> cases hfree
  · intro h hh _
    obtain ⟨h1, hodd, hlen⟩ := hspan h hh
    rw [hlen]
    exact get_chunksOnly h1 hodd
  · intro h s hh hpage
    rcases chunksLayout_kind h with hk | hk <;> rw [hk] at hpage <;> cases hpage

/-- The first two spans are pages of the first bin, each with one object in use. -/
def twoPages : Arena := ((chunksOnly.makePage 3 1).2.makePage 1 1).2

def pagesLayout : Layout := (chunksLayout.enter 3 1).enter 1 1

lemma spans_twoPages : Spans twoPages pagesLayout 0 ∧ twoPages.get (.nUsed 1) = 1 ∧
    twoPages.get (.nUsed 3) = 1 ∧ twoPages.get (.oFree 3) = 20 := by
  have hheld : ∀ h, h = 1 ∨ h = 3 → chunksLayout.len h = 2 ∧ chunksLayout.kind h = .held := by
    rintro h (rfl | rfl) <;> simp [chunksLayout]
  obtain ⟨hlen₃, hheld₃⟩ := hheld 3 (Or.inr rfl)
  obtain ⟨hlen₁, hheld₁⟩ := hheld 1 (Or.inl rfl)
  have hsize : binSpanSize 1 = 2 := by decide
  have hobject : kBinSlotTemplate 1 = 4 := by decide
  have he₃ := (spans_chunksOnly.makePage (h := 3) (s := 1) (by omega) hheld₃ (by omega) (by omega)
    (by omega)).2
  have hheld₁' : (chunksLayout.enter 3 1).kind 1 = .held := by
    simp [Layout.enter, hheld₁]
  have he₁ := (he₃.spans.makePage (h := 1) (s := 1) (show chunksLayout.len 1 ≠ 0 by omega) hheld₁'
    (by omega) (by omega) (show chunksLayout.len 1 = _ by omega)).2
  have hoccupied : (chunksLayout.enter 3 1).Occupied 3 := by
    refine ⟨show chunksLayout.len 3 ≠ 0 by omega, Or.inr ⟨1, ?_⟩⟩
    simp [Layout.enter]
  -- the second page leaves the object fields of the first one alone
  have hkeep : ∀ x, ptrOf 3 + 12 ≤ x → x < ptrOf 3 + 16 →
      twoPages.mem.byte x = (chunksOnly.makePage 3 1).2.mem.byte x := by
    intro x h0 h1
    have hend : ptrOf (3 + (chunksLayout.enter 3 1).len 3) = ptrOf 3 + 8192 := by
      rw [show (chunksLayout.enter 3 1).len 3 = 2 from hlen₃]
      simp only [ptrOf_eq]
      omega
    exact (he₁.agree x ⟨3, hoccupied, h0, by omega⟩).1
  refine ⟨he₁.spans, he₁.nUsed, ?_, ?_⟩
  · rw [← he₃.nUsed]
    apply get_of_cell_bytes
    intro x h0 h1
    simp only [Cell.addr, Cell.short, Field.offset, Field.short, if_true] at h0 h1
    exact hkeep x (by omega) (by omega)
  · rw [show (20 : Int) = 16 + kBinSlotTemplate 1 by omega, ← he₃.oFree]
    apply get_of_cell_bytes
    intro x h0 h1
    simp only [Cell.addr, Cell.short, Field.offset, Field.short, if_true] at h0 h1
    exact hkeep x (by omega) (by omega)

lemma pagesLayout_kind (h : Int) :
    pagesLayout.kind h = if h = 1 ∨ h = 3 then .page 1 else .chunk := by
  unfold pagesLayout Layout.enter chunksLayout
  by_cases h1 : h = 1
  · simp [h1]
  · by_cases h3 : h = 3
    · simp [h3]
    · simp [h1, h3]

/-- What the theorem needs to know of the arena. -/
structure LastOfTwo (a : Arena) : Prop where
  wellFormed : a.WellFormed
  span : a.IsSpan 3
  flag : a.get (.flag 3) = -1
  keep : (a.set (.nUsed 3) (a.get (.nUsed 3) - 1)).KeepPage 3
  moves : a.MovesToFront 3 1
  last : a.get (.hNext 3) = 0
  word : a.get (.hPri 0) ≠ 0

lemma lastOfTwo_twoPages : LastOfTwo twoPages := by
  obtain ⟨hs, hused₁, hused₃, hfree₃⟩ := spans_twoPages
  have hi : (ListId.bin 1).Valid := ⟨by omega, by omega⟩
  have hlist : pagesLayout.list (.bin 1) = [1, 3] := by
    simp [pagesLayout, Layout.enter, chunksLayout]
  have hh : pagesLayout.len 3 ≠ 0 := by
    simp [pagesLayout, Layout.enter, chunksLayout]
  have hpage : pagesLayout.kind 3 = .page 1 := by
    rw [pagesLayout_kind]
    simp
  have hroot : twoPages.get (.bin 1) = 1 := by
    rw [hs.lists.root_eq _ hi, hlist]
    simp
  have hlinked := hs.lists.linked _ hi
  rw [hlist] at hlinked
  have hflag := hs.page 3 1 hh hpage
  constructor
  · refine ⟨pagesLayout, hs, fun h _ => ?_⟩
    rw [pagesLayout_kind]
    split <;> simp
  · exact hs.isSpan_iff.2 hh
  · exact hflag
  · right
    left
    have hsize : binSpanSize 1 = 2 := by decide
    simp only [get_set_field, reduceCtorEq, false_and, if_false, hfree₃, hflag, neg_neg, hsize]
    decide
  · refine ⟨by rw [hroot]; decide, ?_⟩
    rw [hroot, hused₁, hused₃]
    decide
  · exact hlinked.2.2.2.1
  · intro hzero
    rw [get_hPri] at hzero
    -- the span at handle 160641 has its bit there
    have hhead : twoPages.isHead 160641 = true := by
      rw [hs.heads 160641 (by decide) (by decide)]
      simp [pagesLayout, Layout.enter, chunksLayout]
    have hbyte : twoPages.mem.byte 20484 = 0#8 :=
      Memory.byte_eq_zero_of_load32 hzero (by rw [ptrOf_eq]; decide) (by rw [ptrOf_eq]; decide)
    unfold isHead Memory.bit at hhead
    rw [isHeadAddr_eq, show (404 : Int) + 160641 / 8 = 20484 by decide, hbyte] at hhead
    simp at hhead

theorem free_frame_iff_twoPages :
    Framed twoPages 3 1 (ptrOf 3 + 16) (twoPages.free (ptrOf 3 + 16)) ↔
      ¬(twoPages.MovesToFront 3 1 ∧ twoPages.get (.hNext 3) = 0 ∧ twoPages.get (.hPri 0) ≠ 0) := by
  have hlast := lastOfTwo_twoPages
  exact free_frame_iff twoPages hlast.wellFormed 3 1 (ptrOf 3 + 16) hlast.span (by decide) hlast.flag
    (by decide) (by decide) hlast.keep

/-- The last page of a bin moves to the front, and bits of `is_head_` are cleared. -/
theorem free_not_framed :
    ¬∀ a : Arena, a.WellFormed → ∀ h slot ptr : Int, a.IsSpan h → 1 ≤ slot →
      a.get (.flag h) = -slot → ptrOf h + kPageHeaderSize ≤ ptr →
      ptr + kBinSlotTemplate slot ≤ ptrOf (h + binSpanSize slot) →
      (a.set (.nUsed h) (a.get (.nUsed h) - 1)).KeepPage h → Framed a h slot ptr (a.free ptr) := by
  intro hclaim
  have hlast := lastOfTwo_twoPages
  have hframed := hclaim twoPages hlast.wellFormed 3 1 (ptrOf 3 + 16) hlast.span (by decide)
    hlast.flag (by decide) (by decide) hlast.keep
  obtain ⟨hs, -⟩ := spans_twoPages
  have hh : pagesLayout.len 3 ≠ 0 := by
    simp [pagesLayout, Layout.enter, chunksLayout]
  have hpage : pagesLayout.kind 3 = .page 1 := by
    rw [pagesLayout_kind]
    simp
  have hend : ptrOf 3 + 16 + 2 ≤ ptrOf (3 + pagesLayout.len 3) := by
    rw [show pagesLayout.len 3 = 2 by simp [pagesLayout, Layout.enter, chunksLayout]]
    decide
  rw [hs.framed_iff hh hpage le_rfl hend hlast.keep] at hframed
  exact hframed ⟨hlast.moves, hlast.last, hlast.word⟩

end CoplusLean.Arena
