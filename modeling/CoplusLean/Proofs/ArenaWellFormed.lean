import CoplusLean.Proofs.ArenaPages

/-!
# The spans of the arena stay well formed

The operations that rewrite the cut of the heap into spans, the bit set and the two families
of lists: a new span from the heap, a new page of a bin, and a chunk or an emptied page that
goes back.
-/

namespace CoplusLean.Arena

open Lib

/-- The handles `1 .. kHeapAllocPage - kSelfReservedPage` are cut into spans of 1 to 60 pages,
`is_head_` marks their first pages, each is free, a chunk in use or a page of a bin as its
header says, and the lists hold the free spans by length and the pages by slot. -/
def WellFormed (a : Arena) : Prop :=
  ∃ g : Layout, Spans a g 0 ∧ ∀ h, g.len h ≠ 0 → g.kind h ≠ .held

/-- The handle is the first of a span. -/
def IsSpan (a : Arena) (h : Int) : Prop :=
  1 ≤ h ∧ h ≤ a.kHeapAllocPage - kSelfReservedPage ∧ a.isHead h = true

/-- No object of the page that `Malloc` looks at is free. -/
def NeedsPage (a : Arena) (slot : Int) : Prop :=
  ¬(a.candidate slot > 0 ∧ a.get (.oFree (a.candidate slot)) > 1)

/-- The operations on spans, each with the branch it is about. The last is a `Free` of the only
object in use of a page that is not the first of its bin and that is not kept. -/
inductive SpanStep (a : Arena) : Arena → Prop where
  | allocMaxChunk (commit : Bool) (b : Arena) (hb : a.allocMaxChunkFromHeap commit = some b) :
    SpanStep a b
  | allocArbitaryChunk (page : Int) (commit : Bool) (b : Arena) (h1 : 1 ≤ page) (h60 : page ≤ 60)
    (hb : a.allocArbitaryChunkFromHeap page commit = some b) : SpanStep a b
  | mallocPage (size : Int) (commit : Bool) (h1 : 1 ≤ size) (hsize : size ≤ kMaxObjectAvailable)
    (hpage : a.NeedsPage (binSlot size)) : SpanStep a (a.malloc size commit).2
  | freeChunk (h : Int) (hspan : a.IsSpan h) (hflag : 0 < a.get (.flag h))
    (hnext : a.get (.hNext h) = -1) : SpanStep a (a.free (ptrOf h + kSpanHeaderSize))
  | freePage (h s ptr : Int) (hspan : a.IsSpan h) (hs : 1 ≤ s) (hflag : a.get (.flag h) = -s)
    (hlow : ptrOf h ≤ ptr) (hhigh : ptr < ptrOf (h + binSpanSize s))
    (hlast : a.get (.nUsed h) = 1) (hfirst : a.get (.bin s) ≠ h)
    (hrelease : binSpanSize s * 512 ≤ a.get (.oFree h)) : SpanStep a (a.free ptr)

/-! ## `BinSlot` -/

lemma searchBinSlot_spec {size lo hi slot : Int} (hslot : searchBinSlot size lo hi = slot)
    (hlo : 1 ≤ lo) (hlt : lo < hi) (hhi : hi ≤ 39) (hsize : size ≤ kBinSlotTemplate hi) :
    1 ≤ slot ∧ slot ≤ 39 ∧ size ≤ kBinSlotTemplate slot := by
  induction hm : (hi - lo).toNat using Nat.strongRecOn generalizing lo hi with
  | ind m ih =>
    unfold searchBinSlot at hslot
    dsimp only at hslot
    split at hslot
    · split at hslot
      · rename_i heq
        subst hslot
        exact ⟨by omega, by omega, heq.ge⟩
      · split at hslot
        · exact ih _ (by omega) hslot (by omega) (by omega) hhi hsize rfl
        · exact ih _ (by omega) hslot hlo (by omega) (by omega) (by omega) rfl
    · subst hslot
      exact ⟨by omega, hhi, hsize⟩

lemma kBinSlotTemplate_first :
    kBinSlotTemplate 0 = 0 ∧ kBinSlotTemplate 1 = 4 ∧ kBinSlotTemplate 2 = 8 ∧
      kBinSlotTemplate 3 = 16 ∧ kBinSlotTemplate 4 = 32 ∧ kBinSlotTemplate 5 = 48 := by
  decide

lemma kBinSlotTemplate_eight {slot : Int} (h6 : 6 ≤ slot) (h11 : slot ≤ 11) :
    kBinSlotTemplate slot = 8 * (slot + 1) := by
  interval_cases slot <;> decide

lemma kBinSlotTemplate_sixteen {slot : Int} (h12 : 12 ≤ slot) (h23 : slot ≤ 23) :
    kBinSlotTemplate slot = 16 * (slot - 5) := by
  interval_cases slot <;> decide

/-- The slot of a small size exists and its objects are large enough. -/
lemma binSlot_spec {size : Int} (h1 : 1 ≤ size) (hsize : size ≤ 4080) :
    1 ≤ binSlot size ∧ binSlot size ≤ 39 ∧ size ≤ kBinSlotTemplate (binSlot size) := by
  unfold binSlot
  split
  · -- the slots 1 to 5
    obtain ⟨-, t1, t2, t3, t4, t5⟩ := kBinSlotTemplate_first
    split_ifs <;> simp only [t1, t2, t3, t4, t5] <;> omega
  · split
    · rw [kBinSlotTemplate_eight (by omega) (by omega)]
      omega
    · split
      · rw [kBinSlotTemplate_sixteen (by omega) (by omega)]
        omega
      · have hlast : kBinSlotTemplate kBinSlotSize = 4080 := by decide
        have hslots : kBinSlotSize = 39 := rfl
        exact searchBinSlot_spec rfl (by omega) (by omega) (by omega) (by omega)

section keeps

variable {a b : Arena} {g : Layout} {h : Int}

lemma wellFormed_iff : a.WellFormed ↔ ∃ g, Spans a g 0 ∧ g.OnlyHeld 0 := by
  refine exists_congr fun g => and_congr_right fun hs => ?_
  constructor
  · exact fun h x hx hkind => absurd hkind (h x hx)
  · intro hnone x hx hkind
    have hzero := hnone x hx hkind
    have hspan := hs.sound.span x hx
    omega

lemma Spans.isSpan_iff (hs : Spans a g 0) : a.IsSpan h ↔ g.len h ≠ 0 := by
  have hres : kSelfReservedPage = 6 := by decide
  have htop := hs.sound.top_bounds
  have hheap := hs.heap
  unfold IsSpan
  rw [hres]
  constructor
  · rintro ⟨h1, h2, h3⟩
    exact ((hs.heads h (by omega) (by omega)).1 h3).1
  · intro hh
    have hspan := hs.sound.span h hh
    exact ⟨by omega, by omega, (hs.heads h (by omega) (by omega)).2 ⟨hh, by omega⟩⟩

/-- A pointer into a span leads to its head. -/
lemma Spans.spanHandleOf_ptr (hs : Spans a g 0) (hh : g.len h ≠ 0) {ptr : Int}
    (hlow : ptrOf h ≤ ptr) (hhigh : ptr < ptrOf (h + g.len h)) :
    a.spanHandleOf (pageHandleOf ptr) = h := by
  have hspan := hs.sound.span h hh
  simp only [ptrOf_eq] at hlow hhigh
  apply hs.spanHandleOf_eq hh (by omega)
  · rw [pageHandleOf_eq]
    omega
  · rw [pageHandleOf_eq]
    omega

/-- `Malloc` of a small size that needs a page. -/
lemma malloc_eq_newPage {size : Int} (commit : Bool) (h1 : 1 ≤ size)
    (hsize : size ≤ kMaxObjectAvailable) (hpage : a.NeedsPage (binSlot size)) :
    a.malloc size commit = a.newPage (binSlot size) commit := by
  unfold malloc mallocSmall
  rw [if_neg (by omega), if_neg (by omega)]
  exact if_neg hpage

/-- A chunk in use is freed. -/
lemma Spans.free_chunk (hs : Spans a g 0) (hnone : g.OnlyHeld 0) (hh : g.len h ≠ 0)
    (hchunk : g.kind h = .chunk) {ptr : Int} (hlow : ptrOf h ≤ ptr)
    (hhigh : ptr < ptrOf (h + g.len h)) : ∃ g', Released a (g.hold h) h (a.free ptr) g' := by
  have hspan := hs.sound.span h hh
  have hflag := (hs.chunk h hh hchunk).1
  unfold Arena.free
  rw [hs.spanHandleOf_ptr hh hlow hhigh]
  dsimp only
  rw [if_neg (by omega)]
  apply Loose.releaseSpan
  exact ⟨hs.hold hchunk, hh, by simp [Layout.hold], hnone.begin hs.sound (fun _ _ => rfl) rfl, hflag⟩

lemma Released.of_moves {g' : Layout} {c : Arena} (hmoves : Moves a g b g)
    (hr : Released b g h c g') : Released a g h c g' :=
  ⟨hr.spans, hmoves.trans hr.moves, hr.none, hr.free⟩

/-- A page that is not kept leaves its bin and its span goes back. -/
lemma Spans.free_page (hs : Spans a g 0) (hnone : g.OnlyHeld 0) (hh : g.len h ≠ 0) {s : Int}
    (hpage : g.kind h = .page s) {ptr : Int} (hlow : ptrOf h ≤ ptr)
    (hhigh : ptr < ptrOf (h + g.len h))
    (hrelease : ¬(a.set (.nUsed h) (a.get (.nUsed h) - 1)).KeepPage h) :
    ∃ g', Released a (g.take (.bin s) h) h (a.free ptr) g' := by
  have hb := hs.sound.bounds hh
  have hspan := hs.sound.span h hh
  have hslot := hs.sound.page h s hh hpage
  have hi : (ListId.bin s).Valid := ⟨by omega, by omega⟩
  have hmem : h ∈ g.list (.bin s) := (hs.sound.mem _ h hi).2 ⟨hh, by simp [Layout.home, hpage]⟩
  have hflag := hs.page h s hh hpage
  unfold Arena.free Arena.freeObject
  rw [hs.spanHandleOf_ptr hh hlow hhigh]
  dsimp only
  rw [if_pos (by omega), if_neg hrelease]
  have htaken := hs.sound.take hi hmem (hs.lists.nodup _ hi)
  have hheld : (g.take (.bin s) h).kind h = .held := by simp [Layout.take]
  have hnot : ¬(g.take (.bin s) h).Occupied h := by simp [Layout.Occupied, hheld]
  -- the count of the used objects
  have hs₁ : Spans (a.set (.nUsed h) (a.get (.nUsed h) - 1)) g 0 := by
    apply hs.write_inside (h := h) (set_mem_field a .nUsed h _) rfl rfl hh
    · simp only [Field.offset]
      omega
    · simp only [Field.offset, Field.short, ptrOf_eq, if_true]
      omega
  have hagree₁ := agree_set_held htaken a (a.get (.nUsed h) - 1) hh hnot (f := .nUsed)
  have hflag₁ : (a.set (.nUsed h) (a.get (.nUsed h) - 1)).get (.flag h) = -s := by
    simpa using hflag
  generalize a.set (.nUsed h) (a.get (.nUsed h) - 1) = a₁ at *
  rw [hflag₁, neg_neg]
  -- the page is unlinked
  have hs₂ := hs₁.unlink hi hmem
  have hagree₂ : Memory.Agree (g.take (.bin s) h).Payload a₁.mem (a₁.unlink (.bin s) h).mem :=
    (hs₁.agree_unlink hi hmem).mono fun _ hx => Layout.payload_of_held hx
  have hflag₂ : (a₁.unlink (.bin s) h).get (.flag h) = -s := by
    rw [(hs₁.unlinked hi hmem).flags h hb.1, hflag₁]
  generalize a₁.unlink (.bin s) h = a₂ at *
  rw [hflag₂, neg_neg]
  obtain ⟨hs₃, hmoves₃⟩ := hs₂.set_held .flag (binSpanSize s) hh hheld
  have hmoves : Moves a (g.take (.bin s) h) (a₂.set (.flag h) (binSpanSize s))
      (g.take (.bin s) h) := ⟨(hagree₁.trans hagree₂).trans hmoves₃.agree, .refl _⟩
  have hflag₃ : (a₂.set (.flag h) (binSpanSize s)).get (.flag h) = g.len h := by
    have hsize := binSpanSize_bounds s
    rw [get_set_field, if_pos ⟨rfl, rfl⟩, Field.wrap_flag, hslot.2.2]
    exact int32_of_lt (by omega) (by omega)
  have hloose : Loose (a₂.set (.flag h) (binSpanSize s)) (g.take (.bin s) h) 0 h :=
    ⟨hs₃, hh, hheld, hnone.begin hs.sound (fun _ _ => rfl) rfl, hflag₃⟩
  obtain ⟨g', hreleased⟩ := hloose.releaseSpan
  exact ⟨g', hreleased.of_moves hmoves⟩

lemma Spans.kind_of_free_list (hs : Spans a g 0) (hh : g.len h ≠ 0) (hnext : a.get (.hNext h) = -1)
    (hflag : 0 < a.get (.flag h)) (hheld : g.kind h ≠ .held) : g.kind h = .chunk := by
  have hspan := hs.sound.span h hh
  cases hkind : g.kind h with
  | held => exact absurd hkind hheld
  | chunk => rfl
  | free =>
    have hi : (ListId.span (g.len h)).Valid := ⟨by omega, by omega⟩
    have hmem : h ∈ g.list (.span (g.len h)) :=
      (hs.sound.mem _ h hi).2 ⟨hh, by simp [Layout.home, hkind]⟩
    have := hs.hNext_cases hi hmem
    omega
  | page s =>
    have := hs.page h s hh hkind
    have := hs.sound.page h s hh hkind
    omega

lemma Spans.kind_of_flag_neg (hs : Spans a g 0) (hh : g.len h ≠ 0) {s : Int} (h1 : 1 ≤ s)
    (hflag : a.get (.flag h) = -s) (hheld : g.kind h ≠ .held) : g.kind h = .page s := by
  have hspan := hs.sound.span h hh
  cases hkind : g.kind h with
  | held => exact absurd hkind hheld
  | chunk =>
    have := (hs.chunk h hh hkind).1
    omega
  | free =>
    have := hs.free h hh hkind
    omega
  | page t =>
    have := hs.page h t hh hkind
    obtain rfl : t = s := by omega
    rfl

lemma Spans.not_keepPage (hs : Spans a g 0) (hh : g.len h ≠ 0) {s : Int}
    (hpage : g.kind h = .page s) (hlast : a.get (.nUsed h) = 1) (hfirst : a.get (.bin s) ≠ h)
    (hrelease : binSpanSize s * 512 ≤ a.get (.oFree h)) :
    ¬(a.set (.nUsed h) (a.get (.nUsed h) - 1)).KeepPage h := by
  have hb := hs.sound.bounds hh
  have hslot := hs.sound.page h s hh hpage
  have hi : (ListId.bin s).Valid := ⟨by omega, by omega⟩
  have hflag := hs.page h s hh hpage
  have hzero : int16 0 = 0 := int16_of_lt (by omega) (by omega)
  unfold KeepPage
  simp only [get_set_field, Field.wrap_nUsed, hlast, and_self, if_true, reduceCtorEq, false_and,
    if_false, hflag, neg_neg, get_table_set_field a _ hi hb.1, sub_self, hzero]
  rintro (hpos | hlow | hroot)
  · exact absurd hpos (lt_irrefl 0)
  · exact absurd hrelease (not_le_of_gt hlow)
  · exact hfirst hroot

end keeps

/-- From every well-formed arena, each operation on spans that does not throw ends in a
well-formed arena. -/
theorem arena_keeps_wellFormed (a b : Arena) (ha : a.WellFormed) (hstep : SpanStep a b) :
    b.WellFormed := by
  obtain ⟨g, hs, hnone⟩ := wellFormed_iff.1 ha
  have hheld : ∀ h, g.len h ≠ 0 → g.kind h ≠ .held := by
    intro h hh hkind
    have hzero := hnone h hh hkind
    have hspan := hs.sound.span h hh
    omega
  rw [wellFormed_iff]
  cases hstep with
  | allocMaxChunk commit b hb =>
    obtain ⟨g', hs', -, hnone', -⟩ :=
      hs.allocArbitaryChunkFromHeap hnone (by decide) (by decide) hb
    exact ⟨g', hs', hnone'⟩
  | allocArbitaryChunk page commit b h1 h60 hb =>
    obtain ⟨g', hs', -, hnone', -⟩ := hs.allocArbitaryChunkFromHeap hnone h1 h60 hb
    exact ⟨g', hs', hnone'⟩
  | mallocPage size commit h1 hsize hpage =>
    rw [malloc_eq_newPage commit h1 hsize hpage]
    obtain ⟨h1', h39, -⟩ := binSlot_spec h1 hsize
    rcases hs.newPage hnone h1' h39 commit with hthrow | ⟨h, g', -, hentered, hnone'⟩
    · rw [hthrow]
      exact ⟨g, hs, hnone⟩
    · exact ⟨g', hentered.spans, hnone'⟩
  | freeChunk h hspan hflag hnext =>
    have hh := hs.isSpan_iff.1 hspan
    have hlen := hs.sound.span h hh
    have hchunk := hs.kind_of_free_list hh hnext hflag (hheld h hh)
    have hheader : kSpanHeaderSize = 12 := rfl
    have hlow : ptrOf h ≤ ptrOf h + kSpanHeaderSize := by omega
    obtain ⟨g', hr⟩ := hs.free_chunk hnone hh hchunk hlow (by simp only [ptrOf_eq]; omega)
    exact ⟨g', hr.spans, hr.none⟩
  | freePage h s ptr hspan hs1 hflag hlow hhigh hlast hfirst hrelease =>
    have hh := hs.isSpan_iff.1 hspan
    have hpage := hs.kind_of_flag_neg hh hs1 hflag (hheld h hh)
    have hslot := hs.sound.page h s hh hpage
    rw [← hslot.2.2] at hhigh
    have hdrop := hs.not_keepPage hh hpage hlast hfirst hrelease
    obtain ⟨g', hr⟩ := hs.free_page hnone hh hpage hlow hhigh hdrop
    exact ⟨g', hr.spans, hr.none⟩

/-- The arena before the first span is taken from the heap. -/
def bare : Arena := ⟨⟨fun _ => 0#8, fun _ => false⟩, 24576, 6⟩

lemma get_bare (c : Cell) : bare.get c = 0 := by
  unfold get
  split
  · simp [bare, Memory.load16, int16]
  · simp [bare, Memory.load32, int32]

lemma wellFormed_bare : bare.WellFormed := by
  refine ⟨⟨0, fun _ => 0, fun _ => .held, fun _ => []⟩, ?_, by simp⟩
  constructor
  · constructor <;> simp
  · rfl
  · rfl
  · simp [bare, isHead, Memory.bit]
  · constructor <;> simp [get_bare]
  all_goals simp

theorem arena_keeps_wellFormed_bare : (bare.malloc 8 true).2.WellFormed := by
  apply arena_keeps_wellFormed bare _ wellFormed_bare
  apply SpanStep.mallocPage 8 true (by decide) (by decide)
  unfold NeedsPage candidate
  simp [get_bare]

end CoplusLean.Arena
