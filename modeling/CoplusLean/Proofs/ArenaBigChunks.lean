import CoplusLean.Proofs.ArenaFailure
import CoplusLean.Proofs.ArenaTiling
import Mathlib

/-!
# `Malloc` of a chunk keeps the cut of the heap

The pages of the chunk go from the free spans, or from the heap, to those in use, and nothing
is written behind the heap. The only way out is a request for the longest span that finds none:
the heap is asked for a span of that length, nothing is left over when the chunk is cut off, and
the rest of no pages still gets a header, on the first page behind the heap.
-/

namespace CoplusLean.Arena

open Lib

variable {a b c : Arena} {g g' : Layout} {h k n r : Int} {commit : Bool}

/-! ## Nothing is written behind the heap -/

/-- The heap has not become smaller, and what lies behind it is untouched. -/
structure Below (a b : Arena) : Prop where
  heap : a.kHeapAllocPage ≤ b.kHeapAllocPage
  agree : Memory.Agree (fun x => b.kHeapAllocPage * 4096 ≤ x) a.mem b.mem

lemma Below.refl (a : Arena) : Below a a := ⟨le_rfl, .refl _ _⟩

lemma Below.set (hab : Below a b) {cell : Cell} (v : Int)
    (hcell : cell.addr + 4 ≤ b.kHeapAllocPage * 4096) : Below a (b.set cell v) := by
  refine ⟨hab.heap, hab.agree.trans ?_⟩
  rw [set_mem]
  apply Memory.agree_write
  intro x hx
  split <;> omega

lemma Below.set_table (hab : Below a b) {i : ListId} (hi : i.Valid) (v : Int)
    (hheap : 6 ≤ b.kHeapAllocPage) : Below a (b.set (.table i) v) := by
  apply hab.set
  have haddr := hi.bounds
  simp only [Cell.addr]
  omega

lemma Below.set_link (hab : Below a b) {f : Field} (v : Int) (hh : h ≤ b.kHeapAllocPage - 6) :
    Below a (b.set (.field f h) v) := by
  apply hab.set
  cases f <;> simp only [Cell.addr, ptrOf_eq, Field.offset] <;> omega

lemma Below.setHead (hab : Below a b) (h0 : 0 ≤ h) (h1 : h ≤ 180224)
    (hheap : 6 ≤ b.kHeapAllocPage) : Below a (b.setHead h) := by
  refine ⟨hab.heap, hab.agree.trans ?_⟩
  rw [setHead_mem, isHeadAddr_eq]
  apply Memory.agree_write
  intro x hx
  omega

lemma Below.popSpan (hab : Below a b) (hs : Spans b g 0) (h1 : 1 ≤ k) (h60 : k ≤ 60)
    (hh : b.get (.spanList k) = h) (hpos : 0 < h) : Below a (b.popSpan k h) := by
  have hi : (ListId.span k).Valid := ⟨by omega, h60⟩
  have hmem := (hs.popSpan hi (by rwa [hh])).1
  rw [hh] at hmem
  have hheap := hs.heap
  have htop := hs.sound.top_bounds
  have hset := hab.set_table hi (b.get (.hNext h)) (by omega)
  have hnext := hs.hNext_cases hi hmem
  have hkeep : (b.set (.spanList k) (b.get (.hNext h))).get (.hNext h) = b.get (.hNext h) :=
    get_field_set_table b _ hi (by omega)
  unfold Arena.popSpan linkedNodeDeleteHead
  rw [memset_hPri, hkeep]
  split
  · rename_i hpos'
    rcases hnext with hz | ⟨hmem', -⟩
    · omega
    · have hspan := hs.sound.span _ (hs.head_of_mem hi hmem').1
      apply hset.set_link
      rw [set_kHeapAllocPage]
      omega
  · exact hset

lemma Below.addRest (hab : Below a b) (hheap : 6 ≤ b.kHeapAllocPage) (h1 : 1 ≤ h)
    (h2 : h ≤ b.kHeapAllocPage - 6) (h3 : b.kHeapAllocPage ≤ 180224) (hi : (ListId.span n).Valid)
    (hroot : b.get (.spanList n) = r) (hr : 0 ≤ r) (hr' : r ≤ b.kHeapAllocPage - 6) :
    Below a (b.addRest h n) := by
  have hw : int32 r = r := int32_of_lt (by omega) (by omega)
  have hroot' : (((b.setHead h).set (.flag h) n).set (.hPri h) 0).get (.spanList n) = r := by
    rw [get_table_set_field _ _ hi h1, get_table_set_field _ _ hi h1,
      get_table_setHead _ (by omega) (by omega) hi, hroot]
  have hlinks := ((hab.setHead (h := h) (by omega) (by omega) hheap).set_link (f := .flag) n
    h2).set_link (f := .hPri) 0 h2
  have hnext := hlinks.set_link (f := .hNext) (h := h) r h2
  have hget : ((((b.setHead h).set (.flag h) n).set (.hPri h) 0).set (.hNext h) r).get
      (.hNext h) = r := by
    simpa using hw
  unfold Arena.addRest
  dsimp only
  rw [hroot', hget]
  split
  · exact (hnext.set_link h hr').set_table hi h hheap
  · exact hnext.set_table hi h hheap

/-- The first free span of a length lies in the heap. -/
lemma Spans.root_bounds (hs : Spans b g 0) (hi : (ListId.span k).Valid) :
    0 ≤ b.get (.spanList k) ∧ b.get (.spanList k) ≤ g.top := by
  have htop := hs.sound.top_bounds
  have hcases := hs.table_cases hi
  change (b.get (.spanList k) = 0 ∧ _) ∨ (b.get (.spanList k) ∈ _ ∧ _) at hcases
  generalize b.get (.spanList k) = r at hcases ⊢
  rcases hcases with ⟨hz, -⟩ | ⟨hroot, -⟩
  · omega
  · have hspan := hs.sound.span r (hs.head_of_mem hi hroot).1
    omega

lemma Spans.below_allocMaxChunk (hs : Spans b g 0) (halloc : b.allocMaxChunkFromHeap commit = some c) :
    Below b c := by
  have hdiv : kSpanSlotSize * kPageLen / 4096 = 60 := by decide
  have hheap := hs.heap
  have hreserved := hs.reserved
  have htop := hs.sound.top_bounds
  unfold Arena.allocMaxChunkFromHeap Arena.allocArbitaryChunkFromHeap at halloc
  obtain ⟨⟨p, d⟩, hmem, rfl⟩ := Option.map_eq_some_iff.1 halloc
  obtain ⟨hp, hmem, hheap', -, hroom⟩ := allocMemFromHeap_eq_some hmem
  rw [hdiv] at hheap' hroom
  have hhandle : pageHandleOf p = g.top + 1 := by
    rw [pageHandleOf_eq, hp]
    omega
  have hnew : Below b d := by
    refine ⟨by omega, ?_⟩
    rw [hmem]
    exact .refl _ _
  have hi : (ListId.span kSpanSlotSize).Valid := ⟨by decide, le_rfl⟩
  have hroot : d.get (.spanList kSpanSlotSize) ≤ d.kHeapAllocPage - 6 := by
    have hbounds := hs.root_bounds hi
    rw [get_congr hmem]
    omega
  dsimp only
  rw [hhandle]
  have hh : 1 ≤ g.top + 1 ∧ g.top + 1 ≤ d.kHeapAllocPage - 6 ∧ g.top + 1 ≤ 180224 := by omega
  generalize kSpanSlotSize = n at hi hroot ⊢
  generalize g.top + 1 = h at *
  have hflag := (hnew.setHead (h := h) (by omega) (by omega) (by omega)).set_link (f := .flag) n
    hh.2.1
  have hkeep : ((d.setHead h).set (.flag h) n).get (.spanList n) = d.get (.spanList n) := by
    rw [get_table_set_field _ _ hi hh.1, get_table_setHead _ (by omega) hh.2.2 hi]
  have hheap₂ : ((d.setHead h).set (.flag h) n).kHeapAllocPage = d.kHeapAllocPage := rfl
  generalize (d.setHead h).set (.flag h) n = e at hflag hkeep hheap₂ ⊢
  rw [get_table_set_field _ _ hi hh.1, hkeep]
  generalize d.get (.spanList n) = r at hroot ⊢
  have hnext := hflag.set_link (f := .hNext) (h := h) r (by omega)
  have hpush : ∀ e' : Arena, Below b e' → e'.kHeapAllocPage = d.kHeapAllocPage →
      Below b ((e'.set (.spanList n) h).set (.hPri h) 0) := by
    intro e' he' heap'
    apply (he'.set_table hi h (by omega)).set_link
    rw [set_kHeapAllocPage]
    omega
  split
  · exact hpush _ (hnext.set_link h (hroot.trans_eq (congrArg (· - 6) hheap₂.symm))) hheap₂
  · exact hpush _ hnext hheap₂

lemma Spans.below_biggerSpan (hs : Spans b g 0) {big : Int}
    (hbig : b.biggerSpan k commit = some (big, c)) : Below b c := by
  unfold Arena.biggerSpan at hbig
  dsimp only at hbig
  split at hbig
  · obtain ⟨d, halloc, hd⟩ := Option.map_eq_some_iff.1 hbig
    obtain ⟨-, rfl⟩ := Prod.mk.inj hd
    exact hs.below_allocMaxChunk halloc
  · obtain ⟨-, rfl⟩ := Prod.mk.inj (Option.some.inj hbig)
    exact .refl b

/-- The first span of `n` pages was popped and is held: its front becomes the chunk. -/
lemma Below.splitHeld (hab : Below a b) (hs : Spans b g 0) (hheld : g.kind h = .held)
    (hlen : g.len h = n) (h1 : 1 ≤ k) (hkn : k < n) (h60 : n ≤ 60) :
    Below a (((b.set (.flag h) k).set (.hNext h) (-1)).addRest (h + k) (n - k)) := by
  have hne : g.len h ≠ 0 := by omega
  have hspan := hs.sound.span h hne
  have htop := hs.sound.top_bounds
  obtain ⟨hs₂, -⟩ := hs.set_held .flag k hne hheld
  obtain ⟨hs₃, -⟩ := hs₂.set_held .hNext (-1) hne hheld
  have hi : (ListId.span (n - k)).Valid := ⟨by omega, by omega⟩
  have hroot := hs₃.root_bounds hi
  have hheap := hs.heap
  have hmade := (hab.set_link (f := .flag) (h := h) k (by omega)).set_link (f := .hNext) (h := h)
    (-1) (by rw [set_kHeapAllocPage]; omega)
  have hheap₃ := hs₃.heap
  generalize (b.set (.flag h) k).set (.hNext h) (-1) = d at hroot hmade hheap₃ ⊢
  generalize hr : d.get (.spanList (n - k)) = r at hroot
  exact hmade.addRest (by omega) (by omega) (by omega) (by omega) hi hr hroot.1 (by omega)

/-- Neither way to a chunk writes behind the heap. -/
lemma Spans.below_mallocBig (hs : Spans b g 0) (hnone : g.OnlyHeld 0) (h1 : 1 ≤ k) (h60 : k ≤ 60)
    (hmax : k = 60 → 0 < b.get (.spanList 60)) {p : Outcome}
    (hr : b.mallocBig k commit = (p, c)) : Below b c := by
  unfold Arena.mallocBig at hr
  dsimp only at hr
  split at hr
  · rename_i hpos
    obtain ⟨-, rfl⟩ := Prod.mk.inj hr
    have hi : (ListId.span k).Valid := ⟨by omega, h60⟩
    have hbounds := hs.root_bounds hi
    have hheap := hs.heap
    generalize hh : b.get (.spanList k) = h at *
    have hpop := (Below.refl b).popSpan hs h1 h60 hh hpos
    have hkeep := (hs.popFirst hnone h1 h60 hh hpos).1.heap
    generalize b.popSpan k h = d at *
    exact hpop.set_link _ (hbounds.2.trans_eq (eq_sub_of_add_eq hkeep.symm))
  · rename_i hempty
    have hlt : k < 60 := by
      by_contra hge
      obtain rfl : k = 60 := by omega
      exact hempty (hmax rfl)
    cases hbig : b.biggerSpan k commit with
    | none =>
      rw [hbig] at hr
      obtain ⟨-, rfl⟩ := Prod.mk.inj hr
      exact .refl b
    | some s =>
      obtain ⟨big, b₁⟩ := s
      obtain ⟨g₁, hs₁, -, hnone₁, hlt', hle, hpos⟩ := hs.biggerSpan hnone h1 hlt hbig
      have hbelow := hs.below_biggerSpan hbig
      rw [hbig] at hr
      dsimp only at hr
      rw [if_neg (not_le_of_gt hpos)] at hr
      obtain ⟨-, rfl⟩ := Prod.mk.inj hr
      have hw : int16 (big - k) = big - k := int16_of_lt (by omega) (by omega)
      have h1' : 1 ≤ big := by omega
      generalize hh : b₁.get (.spanList big) = h at *
      have hpop := hbelow.popSpan hs₁ h1' hle hh hpos
      obtain ⟨hs₂, -, -, hlen, -⟩ := hs₁.popFirst hnone₁ h1' hle hh hpos
      have hheld : (g₁.take (.span big) h).kind h = .held := by simp [Layout.take]
      rw [hw]
      exact hpop.splitHeld hs₂ hheld hlen h1 hlt' hle

/-! ## The pages of a chunk -/

section pages

lemma Layout.OnlyHeld.occupied_iff (hnone : g.OnlyHeld 0) (hg : g.Sound) :
    g.Occupied h ↔ g.len h ≠ 0 ∧ g.kind h ≠ .free := by
  constructor
  · rintro ⟨hh, hkind | ⟨s, hkind⟩⟩
    · exact ⟨hh, by simp [hkind]⟩
    · exact ⟨hh, by simp [hkind]⟩
  · rintro ⟨hh, hfree⟩
    refine ⟨hh, ?_⟩
    cases hkind : g.kind h with
    | held =>
      have hzero := hnone h hh hkind
      have hspan := hg.span h hh
      omega
    | free => exact absurd hkind hfree
    | chunk => exact .inl rfl
    | page s => exact .inr ⟨s, rfl⟩

/-- The pages of the free spans are those that are in no span in use. -/
lemma Layout.Sound.mem_free (hg : g.Sound) {j : Int} :
    j ∈ pages g.len (fun h => g.kind h = .free) ↔
      1 ≤ j ∧ j ≤ g.top ∧ j ∉ pages g.len (fun h => ¬g.kind h = .free) := by
  constructor
  · rintro ⟨x, hx, hfree, hle, hlt⟩
    have hspan := hg.span x hx
    refine ⟨by omega, by omega, ?_⟩
    rintro ⟨y, hy, hused, hle', hlt'⟩
    have hne : y ≠ x := by
      rintro rfl
      exact hused hfree
    have hapart := hg.beside hx hy hne
    omega
  · rintro ⟨h1, htop, hnot⟩
    obtain ⟨x, hx, hle, hlt⟩ := hg.cover j h1 htop
    by_cases hfree : g.kind x = .free
    · exact ⟨x, hx, hfree, hle, hlt⟩
    · exact absurd ⟨x, hx, hfree, hle, hlt⟩ hnot

lemma ChunkMade.occupied_iff (hc : ChunkMade a g k h b g') {x : Int} :
    g'.Occupied x ↔ x = h ∨ g.Occupied x := by
  have huse : ∀ l : Layout, l.Occupied x ↔ (l.use x).isSome := by
    intro l
    constructor
    · intro hx
      rw [Layout.use_of_occupied hx]
      rfl
    · intro hx
      obtain ⟨⟨n, kind⟩, hsome⟩ := Option.isSome_iff_exists.1 hx
      exact (Layout.use_eq_some.1 hsome).1
  rw [huse, huse, hc.use]
  by_cases hxh : x = h
  · simp [hxh]
  · simp [hxh]

lemma ChunkMade.len_eq (hc : ChunkMade a g k h b g') : g'.len h = k := by
  have huse : g'.use h = some (k, .chunk) := by
    rw [hc.use, Function.update_self]
  exact (Layout.use_eq_some.1 huse).2.1

lemma ChunkMade.len_occupied (hc : ChunkMade a g k h b g') {x : Int} (hx : g.Occupied x) :
    g'.len x = g.len x := by
  have hne : x ≠ h := by
    rintro rfl
    have hfresh := hc.fresh
    rw [Layout.use_of_occupied hx] at hfresh
    cases hfresh
  have huse : g'.use x = some (g.len x, g.kind x) := by
    rw [hc.use, Function.update_of_ne hne, Layout.use_of_occupied hx]
  exact (Layout.use_eq_some.1 huse).2.1

/-- The pages of the chunk join those in use. -/
lemma ChunkMade.used (hc : ChunkMade a g k h b g') (hg : g.Sound) (hnone : g.OnlyHeld 0) :
    pages g'.len (fun x => ¬g'.kind x = .free) =
      pages g.len (fun x => ¬g.kind x = .free) ∪ Set.Ico h (h + k) := by
  ext j
  constructor
  · rintro ⟨x, hx, hused, hle, hlt⟩
    have hocc := (hc.settled.occupied_iff hc.spans.sound).2 ⟨hx, hused⟩
    rcases hc.occupied_iff.1 hocc with rfl | hold
    · rw [hc.len_eq] at hlt
      exact .inr ⟨hle, hlt⟩
    · rw [hc.len_occupied hold] at hlt
      obtain ⟨hx', hused'⟩ := (hnone.occupied_iff hg).1 hold
      exact .inl ⟨x, hx', hused', hle, hlt⟩
  · rintro (⟨x, hx, hused, hle, hlt⟩ | ⟨hle, hlt⟩)
    · have hold := (hnone.occupied_iff hg).2 ⟨hx, hused⟩
      obtain ⟨hx', hused'⟩ := (hc.settled.occupied_iff hc.spans.sound).1 (hc.occupied_iff.2 (.inr hold))
      exact ⟨x, hx', hused', hle, by rwa [hc.len_occupied hold]⟩
    · obtain ⟨hx', hused'⟩ := (hc.settled.occupied_iff hc.spans.sound).1 (hc.occupied_iff.2 (.inl rfl))
      exact ⟨h, hx', hused', hle, by rwa [hc.len_eq]⟩

/-- None of the pages of the chunk was in use. -/
lemma ChunkMade.disjoint (hc : ChunkMade a g k h b g') (hg : g.Sound) (hnone : g.OnlyHeld 0)
    {j : Int} (hle : h ≤ j) (hlt : j < h + k) : j ∉ pages g.len (fun x => ¬g.kind x = .free) := by
  rintro ⟨x, hx, hused, hle', hlt'⟩
  have hold := (hnone.occupied_iff hg).2 ⟨hx, hused⟩
  have hne : x ≠ h := by
    rintro rfl
    have hfresh := hc.fresh
    rw [Layout.use_of_occupied hold] at hfresh
    cases hfresh
  have hx' := (hc.occupied_iff.2 (.inr hold)).1
  have hh' := (hc.occupied_iff.2 (.inl rfl)).1
  have hapart := hc.spans.sound.beside hh' hx' hne
  rw [hc.len_eq, hc.len_occupied hold] at hapart
  omega

end pages

/-! ## The chunk -/

/-- `k` pages from `h` on have become a chunk: they come from the free pages and the new ones of
the heap, the heap is still cut into spans of at least one page, headers that were right are
right, and nothing is written behind the heap. -/
structure Carved (a : Arena) (len : Int → Int) (free : Int → Prop) (k h : Int) (b : Arena)
    (len' : Int → Int) (free' : Int → Prop) : Prop where
  tiled : Tiled b len' free'
  labelled : Labelled a len free → Labelled b len' free'
  taken : Set.Ico h (h + k) ⊆ pages len free ∪
    Set.Ioc (a.kHeapAllocPage - kSelfReservedPage) (b.kHeapAllocPage - kSelfReservedPage)
  rest : pages len' free' = (pages len free ∪
    Set.Ioc (a.kHeapAllocPage - kSelfReservedPage) (b.kHeapAllocPage - kSelfReservedPage)) \
      Set.Ico h (h + k)
  used : pages len' (fun x => ¬free' x) = pages len (fun x => ¬free x) ∪ Set.Ico h (h + k)
  beyond : Memory.Agree (fun x => b.kHeapAllocPage * kPageLen ≤ x) a.mem b.mem

/-- The call throws, or it serves a chunk of `k` pages. -/
def Carves (a : Arena) (len : Int → Int) (free : Int → Prop) (k : Int) (r : Outcome × Arena) :
    Prop :=
  r.1 = .badAlloc ∨ ∃ h len' free', r.1 = .block (ptrOf h + kSpanHeaderSize) ∧
    Carved a len free k h r.2 len' free'

section carve

variable {F S : Int → Prop}

/-- What is behind the heap was read by nobody. -/
lemma Represented.beyond (hr : Represented F S a b g) (hF : ∀ h, F h → g.len h ≠ 0) {a' b' : Arena}
    (hab : Similar F S a' b') (hbelow : Below b b') :
    Memory.Agree (fun x => a'.kHeapAllocPage * kPageLen ≤ x) a.mem a'.mem := by
  have hpage : kPageLen = 4096 := rfl
  have hheap := hr.spans.heap
  have htop := hr.spans.sound.top_bounds
  have hgrown := hbelow.heap
  have hheap' := hab.heap
  intro x hx
  rw [hpage] at hx
  have hbehind : ∀ h, g.len h ≠ 0 → h ≠ pageHandleOf x := by
    intro h hh heq
    have hspan := hr.spans.sound.span h hh
    rw [pageHandleOf_eq] at heq
    omega
  have hnot : ¬Unread F S x := by
    rintro (hlow | ⟨-, hflag | hnext⟩)
    · omega
    · exact hbehind _ (hF _ hflag.2) rfl
    · exact hbehind _ (hr.unread _ hnext.2.2).1 rfl
  obtain ⟨hbyte, htouched⟩ := hbelow.agree x (by omega)
  constructor
  · rw [← hab.bytes x hnot, hbyte, hr.similar.bytes x hnot]
  · rw [← hab.touched x, htouched, hr.similar.touched x]

lemma Represented.carved (hr : Represented F S a b g)
    (hF : ∀ h, F h → g.len h ≠ 0 ∧ a.get (.flag h) ≠ g.len h) {a' b' : Arena}
    (hab : Similar F S a' b') (hc : ChunkMade b g k h b' g') (hbelow : Below b b') :
    Carved a g.len (fun x => g.kind x = .free) k h a' g'.len (fun x => g'.kind x = .free) := by
  have hself : kSelfReservedPage = 6 := by decide
  have hsound := hr.spans.sound
  have hsound' := hc.spans.sound
  have hlast : a.kHeapAllocPage - kSelfReservedPage = g.top := by
    have hheap := hr.spans.heap
    have hsame := hr.similar.heap
    omega
  have hlast' : a'.kHeapAllocPage - kSelfReservedPage = g'.top := by
    have hheap := hc.spans.heap
    have hsame := hab.heap
    omega
  have hgrown : g.top ≤ g'.top := by
    have hheap := hr.spans.heap
    have hheap' := hc.spans.heap
    have hle := hbelow.heap
    omega
  have hnotfree : ∀ x, g.Occupied x → g'.kind x ≠ .free := fun x hx =>
    ((hc.settled.occupied_iff hsound').1 (hc.occupied_iff.2 (.inr hx))).2
  have hh := (hc.occupied_iff.2 (.inl rfl)).1
  have hspan := hsound'.span h hh
  rw [hc.len_eq] at hspan
  have hused := hc.used hsound hr.settled
  refine ⟨hc.spans.tiled hab fun x hx => hnotfree x (hr.unread x hx), ?_, ?_, ?_, hused, ?_⟩
  · intro hlabel x hx hfree
    have hnot : ¬F x := by
      intro hFx
      obtain ⟨hx', hwrong⟩ := hF x hFx
      apply hnotfree x ((hr.settled.occupied_iff hsound).2 ⟨hx', ?_⟩) hfree
      exact fun hfree' => hwrong (hlabel x hx' hfree')
    rw [← hab.get_flag (hsound'.span x hx).1 hnot]
    exact hc.spans.free x hx hfree
  · rintro j ⟨hle, hlt⟩
    rw [hlast, hlast']
    by_cases htop : j ≤ g.top
    · exact .inl (hsound.mem_free.2 ⟨by omega, htop, hc.disjoint hsound hr.settled hle hlt⟩)
    · exact .inr ⟨by omega, by omega⟩
  · ext j
    rw [hlast, hlast', hsound'.mem_free, hused, Set.mem_sdiff, Set.mem_union, Set.mem_union,
      hsound.mem_free, Set.mem_Ioc, Set.mem_Ico]
    constructor
    · rintro ⟨h1, htop, hnot⟩
      rw [not_or] at hnot
      refine ⟨?_, hnot.2⟩
      by_cases hold : j ≤ g.top
      · exact .inl ⟨h1, hold, hnot.1⟩
      · exact .inr ⟨by omega, htop⟩
    · rintro ⟨⟨h1, htop, hnot⟩ | ⟨h1, htop⟩, hout⟩
      · exact ⟨h1, by omega, fun h => h.elim hnot hout⟩
      · have htop₀ := hsound.top_bounds
        refine ⟨by omega, htop, ?_⟩
        rintro (⟨x, hx, -, -, hlt⟩ | hin)
        · have hspan' := hsound.span x hx
          omega
        · exact hout hin
  · exact hr.beyond (fun x hx => (hF x hx).1) hab hbelow

/-- The answers to the two arenas are alike, so the chunk of one is that of the other. -/
lemma Represented.carves_of (hr : Represented F S a b g)
    (hF : ∀ h, F h → g.len h ≠ 0 ∧ a.get (.flag h) ≠ g.len h) {r s : Outcome × Arena}
    (hanswers : Similar.Answers F S r s) (hserved : s = (.badAlloc, b) ∨ ChunkServed b g k s)
    (hbelow : Below b s.2) : Carves a g.len (fun x => g.kind x = .free) k r := by
  rcases hserved with hthrow | ⟨h, g', hblock, hmade⟩
  · left
    rw [← hanswers.outcome, hthrow]
  · right
    refine ⟨h, g'.len, _, ?_, hr.carved hF hanswers.arena hmade hbelow⟩
    exact hanswers.outcome.symm.trans hblock

lemma Represented.carves (hr : Represented F S a b g)
    (hF : ∀ h, F h → g.len h ≠ 0 ∧ a.get (.flag h) ≠ g.len h) (h1 : 1 ≤ k) (h60 : k ≤ 60)
    (hmax : k = 60 → 0 < b.get (.spanList 60)) (commit : Bool) :
    Carves a g.len (fun x => g.kind x = .free) k (a.mallocBig k commit) := by
  apply hr.carves_of hF (hr.similar.mallocBig hr.spans hr.settled h1 h60 hmax hr.unread commit)
    (hr.spans.mallocBig hr.settled h1 h60 hmax commit)
  generalize hs : b.mallocBig k commit = s
  obtain ⟨p, c⟩ := s
  exact hr.spans.below_mallocBig hr.settled h1 h60 hmax hs

end carve

end CoplusLean.Arena
