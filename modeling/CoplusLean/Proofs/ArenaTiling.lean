import CoplusLean.Proofs.ArenaUnread
import Mathlib.Data.Set.Basic

/-!
# The cut of the heap into spans

A chunk can be served from any arena whose heap is cut into spans, the free ones among them in
the lists of their lengths. What the bins hold and what the headers of the other spans show does
not matter: with these set right the arena represents a layout, and `Malloc` does not see the
difference.
-/

namespace CoplusLean.Arena

open Lib

/-- The heap is cut into spans of 1 to 60 pages, `is_head_` marks their first pages and
`span_list_[k]` holds the free spans of `k` pages. `len h` is the length of the span that starts
at `h`, or `0` where none does. -/
structure Tiled (a : Arena) (len : Int → Int) (free : Int → Prop) : Prop where
  heap : kSelfReservedPage ≤ a.kHeapAllocPage ∧ a.kHeapAllocPage ≤ kPageTotalSize
  reserved : a.kMemoryReservedStart = a.kHeapAllocPage * kPageLen
  span : ∀ h, len h ≠ 0 → 1 ≤ h ∧ 1 ≤ len h ∧ len h ≤ kSpanSlotSize ∧
    h + len h ≤ a.kHeapAllocPage - kSelfReservedPage + 1
  tiles : ∀ j, 1 ≤ j → j ≤ a.kHeapAllocPage - kSelfReservedPage →
    ∃! h, len h ≠ 0 ∧ h ≤ j ∧ j < h + len h
  heads : ∀ h, 0 ≤ h → h ≤ kPageTotalSize → (a.isHead h = true ↔ len h ≠ 0)
  lists : ∀ k, 1 ≤ k → k ≤ kSpanSlotSize → ∃ l : List Int, a.get (.spanList k) = l.headD 0 ∧
    Linked (fun h => a.get (.hPri h)) (fun h => a.get (.hNext h)) 0 l 0 ∧ l.Nodup ∧
    ∀ h, h ∈ l ↔ len h = k ∧ free h
  none : a.get (.spanList 0) = 0

/-- The headers of the free spans show their lengths. -/
def Labelled (a : Arena) (len : Int → Int) (free : Int → Prop) : Prop :=
  ∀ h, len h ≠ 0 → free h → a.get (.flag h) = len h

/-- The pages of the spans in `p`. -/
def pages (len : Int → Int) (p : Int → Prop) : Set Int :=
  {j | ∃ h, len h ≠ 0 ∧ p h ∧ h ≤ j ∧ j < h + len h}

/-- The bytes of the arena with its bins emptied and with other values in `Flag` and `hNext`. -/
def headerByte (a : Arena) (flag hNext : Int → Int) (x : Int) : BitVec 8 :=
  if x < 160 then 0#8
  else if x < 24576 then a.mem.byte x
  else if x % 4096 < 4 then Memory.byteOf (flag (pageHandleOf x)) (x % 4096)
  else if 8 ≤ x % 4096 ∧ x % 4096 < 12 then
    Memory.byteOf (hNext (pageHandleOf x)) (x % 4096 - 8)
  else a.mem.byte x

def withHeaders (a : Arena) (flag hNext : Int → Int) : Arena :=
  { a with mem := { a.mem with byte := a.headerByte flag hNext } }

section headers

variable {a : Arena} {flag hNext : Int → Int} {h s : Int}

lemma get_bin_withHeaders (h0 : 0 ≤ s) (h39 : s ≤ 39) :
    (a.withHeaders flag hNext).get (.bin s) = 0 := by
  have hshort : ¬(Cell.bin s).short = true := by simp [Cell.short]
  rw [get, if_neg hshort]
  apply Memory.load32_eq_zero
  intro x hlo hhi
  have hx : x < 160 := by
    simp only [Cell.addr, ListId.addr, kPageHandleSize] at hhi
    omega
  exact if_pos hx

lemma get_flag_withHeaders (h1 : 1 ≤ h) :
    (a.withHeaders flag hNext).get (.flag h) = int32 (flag h) := by
  have hshort : ¬(Cell.flag h).short = true := by simp [Cell.short, Field.short]
  rw [get, if_neg hshort, ← Memory.load32_store32 a.mem (Cell.flag h).addr]
  apply Memory.load32_congr
  intro x hlo hhi
  rw [Memory.store32, Memory.byte_write_of_inside _ _ hlo hhi]
  simp only [Cell.addr, ptrOf_eq, Field.offset] at *
  have hpage : pageHandleOf x = h := by
    rw [pageHandleOf_eq]
    omega
  have hoff : x % 4096 = x - (h * 4096 + 20480 + 0) := by omega
  unfold withHeaders headerByte
  dsimp only
  rw [if_neg (by omega), if_neg (by omega), if_pos (by omega), hpage, hoff]

lemma get_hNext_withHeaders (h1 : 1 ≤ h) :
    (a.withHeaders flag hNext).get (.hNext h) = int32 (hNext h) := by
  have hshort : ¬(Cell.hNext h).short = true := by simp [Cell.short, Field.short]
  rw [get, if_neg hshort, ← Memory.load32_store32 a.mem (Cell.hNext h).addr]
  apply Memory.load32_congr
  intro x hlo hhi
  rw [Memory.store32, Memory.byte_write_of_inside _ _ hlo hhi]
  simp only [Cell.addr, ptrOf_eq, Field.offset] at *
  have hpage : pageHandleOf x = h := by
    rw [pageHandleOf_eq]
    omega
  have hoff : x % 4096 - 8 = x - (h * 4096 + 20480 + 8) := by omega
  unfold withHeaders headerByte
  dsimp only
  rw [if_neg (by omega), if_neg (by omega), if_neg (by omega), if_pos (by omega), hpage, hoff]

/-- Only the headers that showed something else are different. -/
lemma similar_withHeaders : Similar (fun h => a.get (.flag h) ≠ flag h)
    (fun h => a.get (.hNext h) ≠ hNext h) a (a.withHeaders flag hNext) := by
  refine ⟨rfl, rfl, ?_, fun _ => rfl⟩
  intro x hx
  unfold withHeaders headerByte
  dsimp only
  unfold Unread at hx
  rw [not_or, not_and_or, not_or] at hx
  rw [if_neg hx.1]
  split
  · rfl
  · rename_i hhigh
    obtain ⟨hflag, hnext⟩ := hx.2.resolve_left fun h => h (by omega)
    split
    · rename_i hoff
      have hright : a.get (.flag (pageHandleOf x)) = flag (pageHandleOf x) := by
        by_contra hwrong
        exact hflag ⟨hoff, hwrong⟩
      have haddr : (Cell.flag (pageHandleOf x)).addr + x % 4096 = x := by
        simp only [Cell.addr, ptrOf_eq, Field.offset, pageHandleOf_eq]
        omega
      have hshort : ¬(Cell.flag (pageHandleOf x)).short = true := by simp [Cell.short, Field.short]
      rw [← hright, get, if_neg hshort, Memory.byteOf_load32 _ (by omega) hoff, haddr]
    · split
      · rename_i hoff
        have hright : a.get (.hNext (pageHandleOf x)) = hNext (pageHandleOf x) := by
          by_contra hwrong
          exact hnext ⟨hoff.1, hoff.2, hwrong⟩
        have haddr : (Cell.hNext (pageHandleOf x)).addr + (x % 4096 - 8) = x := by
          simp only [Cell.addr, ptrOf_eq, Field.offset, pageHandleOf_eq]
          omega
        have hshort : ¬(Cell.hNext (pageHandleOf x)).short = true := by
          simp [Cell.short, Field.short]
        rw [← hright, get, if_neg hshort, Memory.byteOf_load32 _ (by omega) (by omega), haddr]
      · rfl

end headers

/-! ## The layout of a tiling -/

section layout

variable {a b : Arena} {len : Int → Int} {free : Int → Prop} {l : Int → List Int} {h j : Int}

open Classical in
/-- The layout of a tiling: what is not free is a chunk in use. -/
noncomputable def layoutOf (a : Arena) (len : Int → Int) (free : Int → Prop)
    (l : Int → List Int) : Layout where
  top := a.kHeapAllocPage - kSelfReservedPage
  len := len
  kind h := if free h then .free else .chunk
  list i := match i with
    | .bin _ => []
    | .span k => l k

lemma layoutOf_free : (layoutOf a len free l).kind h = .free ↔ free h := by
  simp [layoutOf]

lemma layoutOf_chunk : (layoutOf a len free l).kind h = .chunk ↔ ¬free h := by
  simp [layoutOf]

variable (a len free l h) in
lemma layoutOf_cases : (layoutOf a len free l).kind h = .free ∨
    (layoutOf a len free l).kind h = .chunk := by
  rw [layoutOf_free, layoutOf_chunk]
  exact em _

/-- The lists of the free spans of a tiling. -/
structure FreeLists (a : Arena) (len : Int → Int) (free : Int → Prop) (l : Int → List Int) :
    Prop where
  root : ∀ k, 0 ≤ k → k ≤ 60 → a.get (.spanList k) = (l k).headD 0
  linked : ∀ k, 0 ≤ k → k ≤ 60 →
    Linked (fun h => a.get (.hPri h)) (fun h => a.get (.hNext h)) 0 (l k) 0
  nodup : ∀ k, 0 ≤ k → k ≤ 60 → (l k).Nodup
  mem : ∀ k, 0 ≤ k → k ≤ 60 → ∀ h, h ∈ l k ↔ len h ≠ 0 ∧ len h = k ∧ free h

lemma Tiled.exists_freeLists (ha : Tiled a len free) : ∃ l, FreeLists a len free l := by
  have hlist : ∀ k : Int, 0 ≤ k ∧ k ≤ 60 → ∃ l : List Int, a.get (.spanList k) = l.headD 0 ∧
      Linked (fun h => a.get (.hPri h)) (fun h => a.get (.hNext h)) 0 l 0 ∧ l.Nodup ∧
      ∀ h, h ∈ l ↔ len h ≠ 0 ∧ len h = k ∧ free h := by
    rintro k ⟨h0, h60⟩
    rcases eq_or_lt_of_le h0 with hzero | hpos
    · subst hzero
      refine ⟨[], ha.none, trivial, List.nodup_nil, ?_⟩
      intro h
      simp only [List.not_mem_nil, false_iff]
      exact fun hh => hh.1 hh.2.1
    · obtain ⟨l, hroot, hlinked, hnodup, hmem⟩ := ha.lists k (by omega) h60
      refine ⟨l, hroot, hlinked, hnodup, ?_⟩
      intro h
      rw [hmem h]
      constructor
      · exact fun hh => ⟨by omega, hh⟩
      · exact fun hh => hh.2
  choose! l hroot hlinked hnodup hmem using hlist
  exact ⟨l, fun k h0 h60 => hroot k ⟨h0, h60⟩, fun k h0 h60 => hlinked k ⟨h0, h60⟩,
    fun k h0 h60 => hnodup k ⟨h0, h60⟩, fun k h0 h60 => hmem k ⟨h0, h60⟩⟩

/-- A page is in one span only. -/
lemma Tiled.unique (ha : Tiled a len free) (hh : len h ≠ 0) (hj : len j ≠ 0) (hle : h ≤ j)
    (hlt : j < h + len h) : j = h := by
  have hspan := ha.span h hh
  have hspan' := ha.span j hj
  obtain ⟨x, -, hunique⟩ := ha.tiles j hspan'.1 (by omega)
  exact (hunique j ⟨hj, le_rfl, by omega⟩).trans (hunique h ⟨hh, hle, hlt⟩).symm

lemma Tiled.sound (ha : Tiled a len free) (hl : FreeLists a len free l) :
    (layoutOf a len free l).Sound := by
  have hself : kSelfReservedPage = 6 := by decide
  have htotal : kPageTotalSize = 180224 := by decide
  have hslot : kSpanSlotSize = 60 := rfl
  have hheap := ha.heap
  have htop : (layoutOf a len free l).top = a.kHeapAllocPage - kSelfReservedPage := rfl
  have hlen : (layoutOf a len free l).len = len := rfl
  refine ⟨⟨by omega, by omega⟩, ?_, ?_, ?_, ?_, ?_, ?_⟩
  · intro h hh
    have hspan := ha.span h hh
    rw [hlen]
    exact ⟨hspan.1, hspan.2.1, by omega, by omega⟩
  · intro h j hh hhj hj
    by_contra hne
    have heq := ha.unique hh hne (by omega) hj
    omega
  · intro h hh
    rw [hlen] at *
    have hspan := ha.span h hh
    by_cases hend : h + len h = a.kHeapAllocPage - kSelfReservedPage + 1
    · exact .inl hend
    · right
      -- the span of the page behind starts there, or it would reach back into this one
      obtain ⟨x, ⟨hx, hle, hlt⟩, -⟩ := ha.tiles (h + len h) (by omega) (by omega)
      have hxe : x = h + len h := by
        by_contra hne
        obtain ⟨y, -, hunique⟩ := ha.tiles (h + len h - 1) (by omega) (by omega)
        have hy := hunique x ⟨hx, by omega, by omega⟩
        have hy' := hunique h ⟨hh, by omega, by omega⟩
        rw [hy, ← hy'] at hlt
        omega
      rwa [hxe] at hx
  · by_cases hzero : a.kHeapAllocPage - kSelfReservedPage = 0
    · exact .inl hzero
    · right
      obtain ⟨x, ⟨hx, hle, -⟩, -⟩ := ha.tiles 1 le_rfl (by omega)
      have hspan := ha.span x hx
      obtain rfl : x = 1 := by omega
      exact hx
  · intro h s _ hkind
    rcases layoutOf_cases a len free l h with hk | hk
    · simp [hk] at hkind
    · simp [hk] at hkind
  · intro i h hi
    have hhome : ∀ i, (layoutOf a len free l).home h = some i ↔
        free h ∧ i = .span (len h) := by
      intro i
      by_cases hfree : free h
      · simp [Layout.home, layoutOf, hfree, eq_comm]
      · simp [Layout.home, layoutOf, hfree]
    rw [hhome]
    cases i with
    | bin s => simp [layoutOf]
    | span k =>
      have hmem := hl.mem k hi.1 hi.2 h
      simpa [layoutOf, and_comm, eq_comm] using hmem

lemma layoutOf_onlyHeld : (layoutOf a len free l).OnlyHeld 0 := by
  intro x _ hkind
  rcases layoutOf_cases a len free l x with hk | hk
  · simp [hk] at hkind
  · simp [hk] at hkind

/-- The arena with its headers set right represents the layout. -/
lemma Tiled.spans (ha : Tiled a len free) (hl : FreeLists a len free l) {F S : Int → Prop}
    (hab : Similar F S a b) (hS : ∀ h, S h → ¬free h)
    (hbins : ∀ s, 0 ≤ s → s ≤ 39 → b.get (.bin s) = 0)
    (hflag : ∀ h, len h ≠ 0 → b.get (.flag h) = len h)
    (hnext : ∀ h, len h ≠ 0 → ¬free h → b.get (.hNext h) = -1) :
    Spans b (layoutOf a len free l) 0 := by
  have hself : kSelfReservedPage = 6 := by decide
  have htotal : kPageTotalSize = 180224 := by decide
  have hpage : kPageLen = 4096 := rfl
  have hpos : ∀ h, len h ≠ 0 → 1 ≤ h := fun h hh => (ha.span h hh).1
  refine ⟨ha.sound hl, ?_, ?_, ?_, ?_, ?_, ?_, ?_⟩
  · have hheap := hab.heap
    have htop : (layoutOf a len free l).top = a.kHeapAllocPage - kSelfReservedPage := rfl
    omega
  · rw [hab.reserved, hab.heap, ha.reserved, hpage]
  · intro h h0 h1
    rw [hab.isHead h0 h1, ha.heads h h0 (by omega)]
    constructor
    · intro hh
      have hspan := hpos h hh
      exact ⟨hh, by omega⟩
    · exact fun hh => hh.1
  · constructor
    · intro i hi
      cases i with
      | bin s => exact hbins s hi.1 hi.2
      | span k => exact (hab.get_spanList hi.1 (hi.2.trans (by decide))).trans (hl.root k hi.1 hi.2)
    · intro i hi
      cases i with
      | bin s => exact trivial
      | span k =>
        apply (hl.linked k hi.1 hi.2).congr
        intro h hh
        have hmem := (hl.mem k hi.1 hi.2 h).1 hh
        have h1 := hpos h hmem.1
        exact ⟨hab.get_hPri h1, hab.get_hNext h1 fun hS' => hS h hS' hmem.2.2⟩
    · intro i hi
      cases i with
      | bin s => exact List.nodup_nil
      | span k => exact hl.nodup k hi.1 hi.2
    · intro i j x hi hj hxi hxj
      have hx := ((ha.sound hl).mem i x hi).1 hxi
      rw [((ha.sound hl).mem j x hj).1 hxj |>.2] at hx
      exact (Option.some.inj hx.2).symm
    · intro i hi hzero
      have hx := ((ha.sound hl).mem i 0 hi).1 hzero
      have hspan := hpos 0 hx.1
      omega
  · intro h hh hkind
    exact hflag h hh
  · intro h hh hkind
    exact ⟨hflag h hh, hnext h hh (layoutOf_chunk.1 hkind)⟩
  · intro h s _ hkind
    rcases layoutOf_cases a len free l h with hk | hk
    · simp [hk] at hkind
    · simp [hk] at hkind

/-- An arena that represents a layout is tiled by its spans, and one that differs from it in
unread bytes too. -/
lemma Spans.tiled {F S : Int → Prop} {g : Layout} (hs : Spans b g 0) (hab : Similar F S a b)
    (hS : ∀ h, S h → g.kind h ≠ .free) : Tiled a g.len (fun h => g.kind h = .free) := by
  have hself : kSelfReservedPage = 6 := by decide
  have htotal : kPageTotalSize = 180224 := by decide
  have hpage : kPageLen = 4096 := rfl
  have hslot : kSpanSlotSize = 60 := rfl
  have hheap := hs.heap
  have htop := hs.sound.top_bounds
  have hheap' := hab.heap
  refine ⟨⟨by omega, by omega⟩, ?_, ?_, ?_, ?_, ?_, ?_⟩
  · rw [← hab.reserved, ← hab.heap, hs.reserved, hpage]
  · intro h hh
    have hspan := hs.sound.span h hh
    exact ⟨hspan.1, hspan.2.1, by omega, by omega⟩
  · intro j h1 hj
    obtain ⟨h, hh, hle, hlt⟩ := hs.sound.cover j h1 (by omega)
    refine ⟨h, ⟨hh, hle, hlt⟩, ?_⟩
    rintro x ⟨hx, hxle, hxlt⟩
    by_contra hne
    have hapart := hs.sound.beside hh hx hne
    omega
  · intro h h0 h1
    rw [← hab.isHead h0 (by omega), hs.heads h h0 (by omega)]
    constructor
    · exact fun hh => hh.1
    · intro hh
      have hspan := hs.sound.span h hh
      exact ⟨hh, by omega⟩
  · intro k h1 h60
    have hi : (ListId.span k).Valid := ⟨by omega, by omega⟩
    refine ⟨g.list (.span k), ?_, ?_, hs.lists.nodup _ hi, ?_⟩
    · rw [← hab.get_spanList (by omega) (by omega)]
      exact hs.lists.root_eq _ hi
    · apply (hs.lists.linked _ hi).congr
      intro h hh
      have hmem := (hs.sound.mem_span hi).1 hh
      have hspan := hs.sound.span h hmem.1
      exact ⟨(hab.get_hPri hspan.1).symm,
        (hab.get_hNext hspan.1 fun hS' => hS h hS' hmem.2.1).symm⟩
    · intro h
      rw [hs.sound.mem_span hi]
      constructor
      · exact fun hh => ⟨hh.2.2, hh.2.1⟩
      · exact fun hh => ⟨by omega, hh.2, hh.1⟩
  · have hi : (ListId.span 0).Valid := ⟨le_rfl, by omega⟩
    rw [← hab.get_spanList le_rfl (by omega)]
    rcases hs.table_cases hi with hz | hmem
    · exact hz.1
    · have hlen := (hs.sound.mem_span hi).1 hmem.1
      exact absurd hlen.2.2 hlen.1

/-- The arena differs in unread bytes from one that represents a layout, and the links that
differ are those of spans in use. -/
structure Represented (F S : Int → Prop) (a b : Arena) (g : Layout) : Prop where
  similar : Similar F S a b
  spans : Spans b g 0
  settled : g.OnlyHeld 0
  unread : ∀ h, S h → g.Occupied h

/-- Every tiling is that of a layout; only wrong headers have to be set right. -/
lemma Tiled.represented (ha : Tiled a len free) : ∃ (F S : Int → Prop) (b : Arena) (g : Layout),
    Represented F S a b g ∧ g.len = len ∧ (∀ h, g.kind h = .free ↔ free h) ∧
      ∀ h, F h → len h ≠ 0 ∧ a.get (.flag h) ≠ len h := by
  classical
  obtain ⟨l, hl⟩ := ha.exists_freeLists
  let flag : Int → Int := fun h => if len h = 0 then a.get (.flag h) else len h
  let hNext : Int → Int := fun h => if len h ≠ 0 ∧ ¬free h then -1 else a.get (.hNext h)
  have hsimilar : Similar (fun h => a.get (.flag h) ≠ flag h)
      (fun h => a.get (.hNext h) ≠ hNext h) a (a.withHeaders flag hNext) := similar_withHeaders
  have hS : ∀ h, a.get (.hNext h) ≠ hNext h → len h ≠ 0 ∧ ¬free h := by
    intro h hne
    by_contra hcon
    exact hne (if_neg hcon).symm
  have hspans : Spans (a.withHeaders flag hNext) (layoutOf a len free l) 0 := by
    apply ha.spans hl hsimilar fun h hne => (hS h hne).2
    · exact fun s h0 h39 => get_bin_withHeaders h0 h39
    · intro h hh
      have hspan := ha.span h hh
      have hslot : kSpanSlotSize = 60 := rfl
      have hflag : flag h = len h := if_neg hh
      rw [get_flag_withHeaders hspan.1, hflag]
      exact int32_of_lt (by omega) (by omega)
    · intro h hh hused
      have hnext : hNext h = -1 := if_pos ⟨hh, hused⟩
      rw [get_hNext_withHeaders (ha.span h hh).1, hnext]
      exact int32_of_lt (by omega) (by omega)
  refine ⟨_, _, _, _, ⟨hsimilar, hspans, layoutOf_onlyHeld, ?_⟩, rfl, fun h => layoutOf_free, ?_⟩
  · intro h hne
    exact ⟨(hS h hne).1, .inl (layoutOf_chunk.2 (hS h hne).2)⟩
  · intro h hne
    have hh : len h ≠ 0 := by
      intro hzero
      exact hne (if_pos hzero).symm
    have hflag : flag h = len h := if_neg hh
    exact ⟨hh, hflag ▸ hne⟩

end layout

end CoplusLean.Arena
