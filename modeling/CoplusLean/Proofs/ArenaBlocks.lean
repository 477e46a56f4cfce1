import CoplusLean.Proofs.ArenaChunks
import CoplusLean.Proofs.ArenaFree
import CoplusLean.Proofs.ArenaWellFormed

/-!
# The live blocks of the arena

A layout with the objects of its pages says which blocks are in use. `Holds` ties it to the
arena and to the blocks that clients hold; it is the invariant of the runs in which no call
meets one of the defects of the arena.
-/

namespace CoplusLean

open Lib

namespace Arena

/-- The offsets of the blocks in use of a span: a chunk behind its header, or the objects in
use of a page. -/
def blocks (g : Layout) (obj : Int → PageObjects) (h : Int) : List Int :=
  match g.use h with
  | some (_, .chunk) => [12]
  | some (_, .page _) => (obj h).used
  | _ => []

def BlockOf (g : Layout) (obj : Int → PageObjects) (ptr : Int) : Prop :=
  ∃ h, ∃ o ∈ blocks g obj h, ptr = ptrOf h + o

/-- The pages of a layout represent their objects. -/
def Pages (m : Memory) (g : Layout) (obj : Int → PageObjects) : Prop :=
  ∀ h n s, g.use h = some (n, .page s) → PageOk m h s (obj h)

section blocks

variable {a : Arena} {m m' : Memory} {g g' : Layout} {obj obj' : Int → PageObjects} {h s o n : Int}

lemma Spans.use_page (hs : Spans a g 0) (huse : g.use h = some (n, .page s)) :
    g.len h ≠ 0 ∧ g.kind h = .page s ∧ g.len h = n ∧ 1 ≤ s ∧ s ≤ 39 ∧ n = binSpanSize s := by
  obtain ⟨hocc, hlen, hkind⟩ := Layout.use_eq_some.1 huse
  obtain ⟨h1, h39, hsize⟩ := hs.sound.page h s hocc.1 hkind
  exact ⟨hocc.1, hkind, hlen, h1, h39, by omega⟩

lemma Spans.bin_use (hs : Spans a g 0) (h1 : 1 ≤ s) (h39 : s ≤ 39)
    (hmem : h ∈ g.list (.bin s)) : g.use h = some (binSpanSize s, .page s) := by
  obtain ⟨hlen, hkind⟩ := (hs.sound.mem_bin ⟨by omega, by omega⟩).1 hmem
  rw [Layout.use_of_occupied ⟨hlen, .inr ⟨s, hkind⟩⟩, hkind, (hs.sound.page h s hlen hkind).2.2]

lemma Spans.use_chunk (hs : Spans a g 0) (huse : g.use h = some (n, .chunk)) :
    g.len h ≠ 0 ∧ g.kind h = .chunk ∧ g.len h = n ∧ a.get (.flag h) = n := by
  obtain ⟨hocc, hlen, hkind⟩ := Layout.use_eq_some.1 huse
  exact ⟨hocc.1, hkind, hlen, by rw [(hs.chunk h hocc.1 hkind).1, hlen]⟩

/-- A block lies in its span, and the handle of the span is found from it. -/
lemma Spans.block_cases (hs : Spans a g 0) (hpages : Pages a.mem g obj) (ho : o ∈ blocks g obj h) :
    ∃ n, g.len h ≠ 0 ∧ g.len h = n ∧ a.spanHandleOf (pageHandleOf (ptrOf h + o)) = h ∧
      ((g.use h = some (n, .chunk) ∧ o = 12 ∧ a.capacity (ptrOf h + o) = n * 4096 - 12 ∧ 1 ≤ n) ∨
      ∃ s, g.use h = some (n, .page s) ∧ o ∈ (obj h).used ∧ 16 ≤ o ∧
        a.capacity (ptrOf h + o) = kBinSlotTemplate s ∧ o + kBinSlotTemplate s ≤ n * 4096 ∧
        1 ≤ s ∧ s ≤ 39 ∧ 4 ≤ kBinSlotTemplate s) := by
  unfold blocks at ho
  split at ho
  · rename_i n huse
    obtain ⟨hh, hkind, hlen, hflag⟩ := hs.use_chunk huse
    obtain rfl := List.mem_singleton.1 ho
    have hspan := hs.sound.span h hh
    have hhandle : a.spanHandleOf (pageHandleOf (ptrOf h + 12)) = h := by
      apply hs.spanHandleOf_ptr hh (by omega)
      simp only [ptrOf_eq]
      omega
    refine ⟨n, hh, hlen, hhandle, .inl ⟨huse, rfl, ?_, by omega⟩⟩
    unfold capacity
    simp only [hhandle, hflag]
    rw [if_neg (by omega)]
    rfl
  · rename_i n s huse
    obtain ⟨hh, hkind, hlen, h1, h39, hsize⟩ := hs.use_page huse
    have hspan := hs.sound.span h hh
    have hb := (hpages h n s huse).used_bounds h1 h39 ho
    have ht := kBinSlotTemplate_bounds h1 h39
    have hflag := hs.page h s hh hkind
    have hhandle : a.spanHandleOf (pageHandleOf (ptrOf h + o)) = h := by
      apply hs.spanHandleOf_ptr hh (by omega)
      simp only [ptrOf_eq]
      omega
    refine ⟨n, hh, hlen, hhandle, .inr ⟨s, huse, ho, hb.1, ?_, by omega, h1, h39, ht.1⟩⟩
    unfold capacity
    simp only [hhandle, hflag, neg_neg]
    rw [if_pos (by omega)]
  · exact absurd ho List.not_mem_nil

/-- The span of a block is determined by its address. -/
lemma Spans.block_unique (hs : Spans a g 0) (hpages : Pages a.mem g obj) {x y : Int}
    (ho : o ∈ blocks g obj h) (hy : y ∈ blocks g obj x) (heq : ptrOf x + y = ptrOf h + o) :
    x = h ∧ y = o := by
  obtain ⟨-, -, -, hhandle, -⟩ := hs.block_cases hpages ho
  obtain ⟨-, -, -, hhandle', -⟩ := hs.block_cases hpages hy
  rw [heq, hhandle] at hhandle'
  subst hhandle'
  exact ⟨rfl, by omega⟩

lemma Pages.nodup_blocks (hpages : Pages m g obj) (h : Int) : (blocks g obj h).Nodup := by
  unfold blocks
  split
  · simp
  · rename_i huse
    exact (List.nodup_append.1 (hpages h _ _ huse).nodup).1
  · simp

/-- A block more in one span. -/
lemma blockOf_add (hblocks : ∀ x, blocks g' obj' x = if x = h then o :: blocks g obj h
    else blocks g obj x) (ptr : Int) :
    BlockOf g' obj' ptr ↔ ptr = ptrOf h + o ∨ BlockOf g obj ptr := by
  unfold BlockOf
  constructor
  · rintro ⟨x, y, hy, rfl⟩
    rw [hblocks] at hy
    split at hy
    · rename_i hxh
      subst hxh
      rcases List.mem_cons.1 hy with rfl | hy
      · exact .inl rfl
      · exact .inr ⟨x, y, hy, rfl⟩
    · exact .inr ⟨x, y, hy, rfl⟩
  · rintro (rfl | ⟨x, y, hy, rfl⟩)
    · exact ⟨h, o, by simp [hblocks], rfl⟩
    · refine ⟨x, y, ?_, rfl⟩
      rw [hblocks]
      split
      · rename_i hxh
        exact List.mem_cons_of_mem _ (hxh ▸ hy)
      · exact hy

/-- A block less in one span. -/
lemma blockOf_erase (hs : Spans a g 0) (hpages : Pages a.mem g obj) (ho : o ∈ blocks g obj h)
    (hblocks : ∀ x, blocks g' obj' x = if x = h then (blocks g obj h).erase o
      else blocks g obj x) (ptr : Int) :
    BlockOf g' obj' ptr ↔ ptr ≠ ptrOf h + o ∧ BlockOf g obj ptr := by
  have hnodup := hpages.nodup_blocks h
  unfold BlockOf
  constructor
  · rintro ⟨x, y, hy, rfl⟩
    rw [hblocks] at hy
    split at hy
    · rename_i hxh
      subst hxh
      rw [hnodup.mem_erase_iff] at hy
      exact ⟨by omega, x, y, hy.2, rfl⟩
    · rename_i hxh
      refine ⟨fun heq => hxh ?_, x, y, hy, rfl⟩
      exact (hs.block_unique hpages ho hy heq).1
  · rintro ⟨hne, x, y, hy, rfl⟩
    refine ⟨x, y, ?_, rfl⟩
    rw [hblocks]
    split
    · rename_i hxh
      subst hxh
      exact hnodup.mem_erase_iff.2 ⟨by omega, hy⟩
    · exact hy

/-- A block that comes to a span was not there before. -/
lemma Spans.block_fresh (hs : Spans a g' 0) (hpages : Pages a.mem g' obj')
    (hblocks : ∀ x, blocks g' obj' x = if x = h then o :: blocks g obj h else blocks g obj x)
    (hnot : o ∉ blocks g obj h) : ¬BlockOf g obj (ptrOf h + o) := by
  rintro ⟨x, y, hy, heq⟩
  have ho : o ∈ blocks g' obj' h := by simp [hblocks]
  have hy' : y ∈ blocks g' obj' x := by
    rw [hblocks]
    split
    · rename_i hxh
      exact List.mem_cons_of_mem _ (hxh ▸ hy)
    · exact hy
  obtain ⟨rfl, rfl⟩ := hs.block_unique hpages ho hy' heq.symm
  exact hnot hy

/-- The bytes of a block are behind the links of the header of its span. -/
lemma Spans.block_range (hs : Spans a g 0) (hpages : Pages a.mem g obj) (ho : o ∈ blocks g obj h)
    {x : Int} (hlow : ptrOf h + o ≤ x) (hhigh : x < ptrOf h + o + a.capacity (ptrOf h + o)) :
    g.Occupied h ∧ ptrOf h + 12 ≤ x ∧ x < ptrOf (h + g.len h) := by
  obtain ⟨n, hh, hlen, -, ⟨huse, rfl, hcap, -⟩ | ⟨s, huse, -, h16, hcap, hfit, -⟩⟩ :=
    hs.block_cases hpages ho
  · refine ⟨(Layout.use_eq_some.1 huse).1, hlow, ?_⟩
    simp only [ptrOf_eq] at *
    omega
  · refine ⟨(Layout.use_eq_some.1 huse).1, by omega, ?_⟩
    simp only [ptrOf_eq] at *
    omega

lemma Spans.page_bytes (hs : Spans a g 0) (hp : PageOk m h s (obj h))
    (huse : g.use h = some (n, .page s))
    (hbyte : ∀ x, ptrOf h + 12 ≤ x → x < ptrOf (h + g.len h) → m'.byte x = m.byte x) :
    PageOk m' h s (obj h) := by
  obtain ⟨-, -, hlen, h1, h39, hsize⟩ := hs.use_page huse
  have hb := binSpanSize_bounds s
  have ht := kBinSlotTemplate_bounds h1 h39
  apply hp.congr
  · intro x h0 hx
    apply hbyte x h0
    simp only [ptrOf_eq] at *
    omega
  · intro o ho x h0 hx
    have hc := hp.chain_bounds h1 h39 ho
    apply hbyte x (by omega)
    simp only [ptrOf_eq] at *
    omega

/-- The pages see only the payload. -/
lemma Pages.of_agree (hs : Spans a g 0) (hpages : Pages m g obj)
    (hagree : Memory.Agree g.Payload m m') : Pages m' g obj := by
  intro h n s huse
  apply hs.page_bytes (hpages h n s huse) huse
  intro x h0 h1
  exact (hagree x ⟨h, (Layout.use_eq_some.1 huse).1, h0, h1⟩).1

end blocks

/-! ## The invariant -/

structure Holds (a : Arena) (live : List Int) (g : Layout) (obj : Int → PageObjects) : Prop where
  spans : Spans a g 0
  settled : g.OnlyHeld 0
  pages : Pages a.mem g obj
  mem : ∀ ptr, ptr ∈ live ↔ BlockOf g obj ptr
  nodup : live.Nodup

/-- The call has not stored to the blocks that are live before and after it. -/
def Quiet (a : Arena) (live : List Int) (a' : Arena) (live' : List Int) : Prop :=
  ∀ ptr ∈ live, ptr ∈ live' → ∀ x, ptr ≤ x → x < ptr + a.capacity ptr →
    a'.mem.byte x = a.mem.byte x ∧ a'.mem.touched x = a.mem.touched x

section calls

variable {a a' : Arena} {live : List Int} {g g' : Layout} {obj obj' : Int → PageObjects}
  {h s o k n : Int}

lemma Holds.quiet (hw : Holds a live g obj) {live' : List Int}
    (hagree : ∀ h, ∀ o ∈ blocks g obj h, ptrOf h + o ∈ live' → ∀ x, ptrOf h + o ≤ x →
      x < ptrOf h + o + a.capacity (ptrOf h + o) →
      a'.mem.byte x = a.mem.byte x ∧ a'.mem.touched x = a.mem.touched x) :
    Quiet a live a' live' := by
  intro ptr hptr hptr' x h0 h1
  obtain ⟨h, o, ho, rfl⟩ := (hw.mem ptr).1 hptr
  exact hagree h o ho hptr' x h0 h1

lemma Holds.quiet_of_agree (hw : Holds a live g obj) {live' : List Int}
    (hagree : Memory.Agree g.Payload a.mem a'.mem) : Quiet a live a' live' := by
  apply hw.quiet
  intro h o ho _ x h0 h1
  obtain ⟨hocc, hlow, hhigh⟩ := hw.spans.block_range hw.pages ho h0 h1
  exact hagree x ⟨h, hocc, hlow, hhigh⟩

/-- A new block at the offset `o` of the span `h`. -/
lemma Holds.add (hw : Holds a live g obj) (hs : Spans a' g' 0) (hsettled : g'.OnlyHeld 0)
    (hpages : Pages a'.mem g' obj')
    (hblocks : ∀ x, blocks g' obj' x = if x = h then o :: blocks g obj h else blocks g obj x)
    (hnot : o ∉ blocks g obj h) : Holds a' ((ptrOf h + o) :: live) g' obj' := by
  refine ⟨hs, hsettled, hpages, fun ptr => ?_, ?_⟩
  · rw [List.mem_cons, hw.mem, blockOf_add hblocks]
  · refine List.nodup_cons.2 ⟨fun hmem => ?_, hw.nodup⟩
    exact hs.block_fresh hpages hblocks hnot ((hw.mem _).1 hmem)

/-- A block is given back. -/
lemma Holds.erase (hw : Holds a live g obj) (ho : o ∈ blocks g obj h) (hs : Spans a' g' 0)
    (hsettled : g'.OnlyHeld 0) (hpages : Pages a'.mem g' obj')
    (hblocks : ∀ x, blocks g' obj' x = if x = h then (blocks g obj h).erase o
      else blocks g obj x) : Holds a' (live.erase (ptrOf h + o)) g' obj' := by
  refine ⟨hs, hsettled, hpages, fun ptr => ?_, hw.nodup.erase _⟩
  rw [hw.nodup.mem_erase_iff, hw.mem, blockOf_erase hw.spans hw.pages ho hblocks]

lemma Holds.addChunk (hw : Holds a live g obj) (hc : ChunkMade a g k h a' g') :
    Holds a' ((ptrOf h + 12) :: live) g' obj := by
  have hnone : blocks g obj h = [] := by simp [blocks, hc.fresh]
  apply hw.add hc.spans hc.settled
  · intro x n s huse
    rw [hc.use] at huse
    have hxh : x ≠ h := by
      rintro rfl
      simp at huse
    rw [Function.update_of_ne hxh] at huse
    exact (hw.pages.of_agree hw.spans hc.agree) x n s huse
  · intro x
    by_cases hxh : x = h
    · subst hxh
      simp [blocks, hc.use, hc.fresh]
    · simp [blocks, hc.use, hxh]
  · simp [hnone]

lemma fits_one (h1 : 1 ≤ s) (h39 : s ≤ 39) : Fits s 1 := by
  interval_cases s <;> decide

lemma objectOffset_zero (s : Int) : objectOffset s 0 = 16 := by
  simp [objectOffset]

lemma objectOffset_one (s : Int) : objectOffset s 1 = 16 + kBinSlotTemplate s := by
  simp [objectOffset]

/-- A new page has its first object in use. -/
lemma Entered.pageOk (he : Entered a g s h a' g') (h1 : 1 ≤ s) (h39 : s ≤ 39) :
    PageOk a'.mem h s ⟨[16], [], 1⟩ := by
  have hchain : PageObjects.chain ⟨[16], [], 1⟩ s = [16 + kBinSlotTemplate s] := by
    simp [PageObjects.chain, fits_one h1 h39, objectOffset_one]
  constructor
  · rw [← get_nUsed, he.nUsed]
    rfl
  · rw [← get_oFree, he.oFree, hchain]
    rfl
  · rw [hchain]
    exact ⟨he.link, trivial⟩
  · simp
  · intro o
    constructor
    · intro ho
      exact ⟨0, Nat.one_pos, by simpa [objectOffset_zero] using ho⟩
    · rintro ⟨k, hk, rfl⟩
      obtain rfl : k = 0 := Nat.lt_one_iff.1 hk
      simp [objectOffset_zero]
  · intro k hk
    exact (fits_one h1 h39).mono h1 h39 hk.le

lemma Holds.addPage (hw : Holds a live g obj) (he : Entered a g s h a' g')
    (hsettled : g'.OnlyHeld 0) (h1 : 1 ≤ s) (h39 : s ≤ 39) :
    Holds a' ((ptrOf h + 16) :: live) g' (Function.update obj h ⟨[16], [], 1⟩) := by
  have hnone : blocks g obj h = [] := by simp [blocks, he.fresh]
  apply hw.add he.spans hsettled
  · intro x n t huse
    rw [he.use] at huse
    by_cases hxh : x = h
    · subst hxh
      simp only [Function.update_self, Option.some.injEq, Prod.mk.injEq, Kind.page.injEq] at huse
      obtain ⟨-, rfl⟩ := huse
      rw [Function.update_self]
      exact he.pageOk h1 h39
    · rw [Function.update_of_ne hxh] at huse ⊢
      exact (hw.pages.of_agree hw.spans he.agree) x n t huse
  · intro x
    by_cases hxh : x = h
    · subst hxh
      simp [blocks, he.use, he.fresh]
    · simp [blocks, he.use, hxh]
  · simp [hnone]

/-- The pages other than `h` do not see a store that is guarded. -/
lemma Pages.of_guarded {m m' : Memory} (hs : Spans a g 0) (hpages : Pages m g obj)
    (huse : g.use h = some (n, .page s)) {used : List Int}
    (hagree : Memory.Agree (Guarded g h s used) m m') {p : PageObjects} (hp : PageOk m' h s p) :
    Pages m' g (Function.update obj h p) := by
  obtain ⟨hh, -⟩ := hs.use_page huse
  intro x l t hx
  by_cases hxh : x = h
  · subst hxh
    rw [huse] at hx
    simp only [Option.some.injEq, Prod.mk.injEq, Kind.page.injEq] at hx
    obtain ⟨-, rfl⟩ := hx
    rw [Function.update_self]
    exact hp
  · obtain ⟨hlen, -⟩ := hs.use_page hx
    rw [Function.update_of_ne hxh]
    apply hs.page_bytes (hpages x l t hx) hx
    intro y h0 h1
    refine (hagree y ?_).1
    have hbeside := hs.sound.beside hh hlen hxh
    simp only [Guarded, ptrOf_eq] at *
    omega

/-- The blocks other than those taken out of `used` do not see a guarded store. -/
lemma Holds.quiet_of_guarded (hw : Holds a live g obj) (huse : g.use h = some (n, .page s))
    {used live' : List Int} (hagree : Memory.Agree (Guarded g h s used) a.mem a'.mem)
    (hused : ∀ o ∈ (obj h).used, ptrOf h + o ∈ live' → o ∈ used) : Quiet a live a' live' := by
  obtain ⟨hh, -⟩ := hw.spans.use_page huse
  apply hw.quiet
  intro x y hy hlive z h0 h1
  apply hagree
  by_cases hxh : x = h
  · subst hxh
    obtain ⟨l, -, -, -, ⟨hchunk, -⟩ | ⟨t, hpage, hmem, -, hcap, -⟩⟩ :=
      hw.spans.block_cases hw.pages hy
    · rw [huse] at hchunk
      simp at hchunk
    · rw [huse] at hpage
      simp only [Option.some.injEq, Prod.mk.injEq, Kind.page.injEq] at hpage
      obtain ⟨-, rfl⟩ := hpage
      exact .inr (.inr ⟨y, hused y hmem hlive, h0, by omega⟩)
  · obtain ⟨hocc, hlow, hhigh⟩ := hw.spans.block_range hw.pages hy h0 h1
    have hbeside := hw.spans.sound.beside hh hocc.1 hxh
    simp only [Guarded, ptrOf_eq] at *
    omega

lemma Holds.addObject (hw : Holds a live g obj) (huse : g.use h = some (n, .page s))
    {r : Outcome × Arena} (hserved : Served a g h s (obj h) o r) :
    Holds r.2 ((ptrOf h + o) :: live) g (Function.update obj h ((obj h).serve s)) ∧
      Quiet a live r.2 ((ptrOf h + o) :: live) := by
  have hblocks : blocks g obj h = (obj h).used := by simp [blocks, huse]
  have hpages := hw.pages.of_guarded hw.spans huse hserved.agree hserved.page
  constructor
  · apply hw.add hserved.spans hw.settled hpages
    · intro x
      by_cases hxh : x = h
      · subst hxh
        simp [blocks, huse, hserved.used]
      · simp [blocks, hxh]
    · rw [hblocks]
      have hnodup := (List.nodup_append.1 hserved.page.nodup).1
      rw [hserved.used] at hnodup
      exact (List.nodup_cons.1 hnodup).1
  · exact hw.quiet_of_guarded huse hserved.agree fun o ho _ => ho

lemma Layout.use_held (list : ListId → List Int) :
    Layout.use { g with kind := Function.update g.kind h .held, list := list } =
      Function.update g.use h none := by
  rw [Layout.use_update_kind]
  simp [Layout.use]

/-- A span whose only block is `o` goes back: `g₁` is the layout without it. -/
lemma Holds.release (hw : Holds a live g obj) (hone : blocks g obj h = [o]) {b : Arena}
    {g₁ : Layout} (hs₁ : Spans b g₁ 0) (huse₁ : g₁.use = Function.update g.use h none)
    (hr : Released a g₁ h a' g') :
    Holds a' (live.erase (ptrOf h + o)) g' obj ∧ Quiet a live a' (live.erase (ptrOf h + o)) := by
  have huse : ∀ x, x ≠ h → g₁.use x = g.use x := by
    intro x hxh
    rw [huse₁, Function.update_of_ne hxh]
  have hgone : g₁.use h = none := by rw [huse₁, Function.update_self]
  have hpages₁ : Pages a.mem g₁ obj := by
    intro x n s hx
    have hxh : x ≠ h := by
      rintro rfl
      rw [hgone] at hx
      cases hx
    exact hw.pages x n s (by rwa [← huse x hxh])
  have hpages : Pages a'.mem g' obj := by
    intro x n s hx
    rw [hr.moves.same.use] at hx
    exact hpages₁.of_agree hs₁ hr.moves.agree x n s hx
  constructor
  · apply hw.erase (by simp [hone]) hr.spans hr.none hpages
    intro x
    by_cases hxh : x = h
    · subst hxh
      have hnone : blocks g' obj x = [] := by simp [blocks, hr.moves.same.use, hgone]
      simp [hone, hnone]
    · simp [blocks, hr.moves.same.use, huse x hxh, hxh]
  · apply hw.quiet
    intro x y hy hlive z h0 h1
    have hxh : x ≠ h := by
      rintro rfl
      rw [hone, List.mem_singleton] at hy
      subst hy
      exact (hw.nodup.mem_erase_iff.1 hlive).1 rfl
    obtain ⟨hocc, hlow, hhigh⟩ := hw.spans.block_range hw.pages hy h0 h1
    have hx := (huse x hxh).trans (Layout.use_of_occupied hocc)
    obtain ⟨hocc₁, hlen₁, -⟩ := Layout.use_eq_some.1 hx
    exact hr.moves.agree z ⟨x, hocc₁, hlow, by rwa [hlen₁]⟩

lemma Holds.freeChunk (hw : Holds a live g obj) (huse : g.use h = some (n, .chunk)) :
    ∃ g' obj', Holds (a.free (ptrOf h + 12)) (live.erase (ptrOf h + 12)) g' obj' ∧
      Quiet a live (a.free (ptrOf h + 12)) (live.erase (ptrOf h + 12)) := by
  obtain ⟨hh, hkind, hlen, -⟩ := hw.spans.use_chunk huse
  have hspan := hw.spans.sound.span h hh
  have hlow : ptrOf h ≤ ptrOf h + 12 := by omega
  obtain ⟨g', hr⟩ := hw.spans.free_chunk hw.settled hh hkind hlow
    (by simp only [ptrOf_eq]; omega)
  have hone : blocks g obj h = [12] := by simp [blocks, huse]
  exact ⟨g', obj, hw.release hone (hw.spans.hold hkind) (Layout.use_held g.list) hr⟩

/-- The condition under which the move of a page to the front of its bin is right. -/
def MoveOk (a : Arena) (h : Int) : Prop :=
  let slot := -a.get (.flag h)
  let first := a.get (.bin slot)
  first ≠ h → a.get (.nUsed h) ≤ a.get (.nUsed first) →
    (1 < a.get (.nUsed h) ∨ a.get (.oFree h) < binSpanSize slot * 512) →
      a.get (.hNext first) = h ∧ a.get (.hNext h) = 0 ∧ a.get (.hPri 0) = 0

/-- Arenas that agree on a cell outside of the page `h`. -/
lemma get_of_guarded {b : Arena} {used : List Int}
    (hagree : Memory.Agree (Guarded g h s used) a.mem b.mem) (c : Cell)
    (hc : c.addr + 4 ≤ ptrOf h + 12 ∨ ptrOf (h + g.len h) ≤ c.addr) : b.get c = a.get c := by
  unfold get
  split
  · apply Memory.load16_congr
    intro x h0 h1
    refine (hagree x ?_).1
    unfold Guarded
    omega
  · apply Memory.load32_congr
    intro x h0 h1
    refine (hagree x ?_).1
    unfold Guarded
    omega

/-- Why a page that is not the first of its bin is kept. -/
lemma Holds.kept (hw : Holds a live g obj) (huse : g.use h = some (n, .page s))
    (hne : a.get (.bin s) ≠ h) (hkeep : (a.set (.nUsed h) (a.get (.nUsed h) - 1)).KeepPage h) :
    1 < a.get (.nUsed h) ∨ a.get (.oFree h) < binSpanSize s * 512 := by
  obtain ⟨hh, hkind, hlen, h1, h39, hsize⟩ := hw.spans.use_page huse
  have hb := hw.spans.sound.bounds hh
  have hi : (ListId.bin s).Valid := ⟨by omega, by omega⟩
  have hflag := hw.spans.page h s hh hkind
  have hlength := (hw.pages h n s huse).length_used h1 h39
  have hcount : a.get (.nUsed h) = (obj h).used.length := by
    rw [get_nUsed, (hw.pages h n s huse).nUsed]
  have hrange : int16 (((obj h).used.length : Int) - 1) = (obj h).used.length - 1 :=
    int16_of_lt (by omega) (by omega)
  rcases hkeep with hpos | hlow | hroot
  · left
    rw [get_set_field, if_pos ⟨rfl, rfl⟩, Field.wrap_nUsed, hcount, hrange] at hpos
    rw [hcount]
    omega
  · right
    rw [get_set_field, if_neg (by simp), get_set_field, if_neg (by simp), hflag, neg_neg] at hlow
    exact hlow
  · rw [get_set_field, if_neg (by simp), hflag, neg_neg,
      get_table_set_field a _ hi hb.1] at hroot
    exact absurd hroot hne

/-- The condition on the move carries over to the arena in which the object is back. -/
lemma MoveOk.returned (hw : Holds a live g obj) (huse : g.use h = some (n, .page s))
    (ho : o ∈ (obj h).used) (hmove : a.MoveOk h) {b : Arena}
    (hret : Returned a g h s (obj h) o b)
    (hkeep : (a.set (.nUsed h) (a.get (.nUsed h) - 1)).KeepPage h)
    (hless : b.get (.nUsed (b.get (.bin s))) > b.get (.nUsed h)) :
    b.get (.hNext (b.get (.bin s))) = h ∧ b.get (.hNext h) = 0 ∧ b.get (.hPri 0) = 0 := by
  obtain ⟨hh, hkind, hlen, h1, h39, hsize⟩ := hw.spans.use_page huse
  have hspan := hw.spans.sound.span h hh
  have hi : (ListId.bin s).Valid := ⟨by omega, by omega⟩
  have hroot : b.get (.bin s) = a.get (.bin s) := by
    have ha := hw.spans.lists.root_eq _ hi
    have hb := hret.spans.lists.root_eq _ hi
    exact hb.trans ha.symm
  obtain ⟨first, hfirst⟩ : ∃ first, a.get (.bin s) = first := ⟨_, rfl⟩
  rw [hroot, hfirst] at hless ⊢
  have hne : first ≠ h := by
    rintro rfl
    exact absurd hless (lt_irrefl _)
  have hfmem : first ∈ g.list (.bin s) := by
    rcases hw.spans.table_cases hi with ⟨-, hnil⟩ | ⟨hmem, -⟩
    · have hin : h ∈ g.list (.bin s) := (hw.spans.sound.mem_bin hi).2 ⟨hh, hkind⟩
      rw [hnil] at hin
      exact absurd hin List.not_mem_nil
    · rwa [hfirst] at hmem
  have hflen := ((hw.spans.sound.mem_bin hi).1 hfmem).1
  have hbeside := hw.spans.sound.beside hh hflen hne
  have hfspan := hw.spans.sound.span first hflen
  have hh0 : h ≠ 0 := by omega
  have hfirst0 : first ≠ 0 := by omega
  have hcountf : b.get (.nUsed first) = a.get (.nUsed first) := by
    apply get_of_guarded hret.agree
    simp only [Cell.addr, Field.offset, ptrOf_eq]
    omega
  have hzerob : b.get (.hPri 0) = a.get (.hPri 0) := by
    apply get_of_guarded hret.agree
    simp only [Cell.addr, Field.offset, ptrOf_eq]
    omega
  -- the count of the page went down by one
  have hcount : a.get (.nUsed h) = b.get (.nUsed h) + 1 := by
    have hpos := List.length_pos_of_mem ho
    rw [get_nUsed, get_nUsed, (hw.pages h n s huse).nUsed, hret.page.nUsed, PageObjects.release,
      List.length_erase_of_mem ho]
    omega
  have hle : a.get (.nUsed h) ≤ a.get (.nUsed first) := by
    rw [hcount, ← hcountf]
    exact hless
  have hok := hmove
  unfold MoveOk at hok
  simp only [hw.spans.page h s hh hkind, neg_neg, hfirst] at hok
  obtain ⟨hnext, hlast, hzero⟩ := hok hne hle (hw.kept huse (hfirst ▸ hne) hkeep)
  have hlist := hw.spans.list_pair hi hfirst hfirst0 hnext hh0 hlast
  have hlinked := hret.spans.lists.linked _ hi
  rw [hlist] at hlinked
  exact ⟨hlinked.2.1, hlinked.2.2.2.1, hzerob.trans hzero⟩

/-- The branch of `Free` for an object whose page is kept. -/
lemma Holds.free_eq (hw : Holds a live g obj) (huse : g.use h = some (n, .page s))
    (ho : o ∈ (obj h).used) (hkeep : (a.set (.nUsed h) (a.get (.nUsed h) - 1)).KeepPage h) :
    a.free (ptrOf h + o) = ((a.set (.nUsed h) (a.get (.nUsed h) - 1)).releaseObject h
      (ptrOf h + o)).moveToFront h := by
  obtain ⟨hh, hkind, hlen, h1, h39, hsize⟩ := hw.spans.use_page huse
  have hflag := hw.spans.page h s hh hkind
  have hb := (hw.pages h n s huse).used_bounds h1 h39 ho
  have ht := kBinSlotTemplate_bounds h1 h39
  have hhandle : a.spanHandleOf (pageHandleOf (ptrOf h + o)) = h := by
    apply hw.spans.spanHandleOf_ptr hh (by omega)
    simp only [ptrOf_eq]
    omega
  unfold Arena.free Arena.freeObject
  rw [hhandle]
  dsimp only
  rw [if_pos (by omega), if_pos hkeep]

/-- `Free` of an object whose page is kept. -/
lemma Holds.keepPage (hw : Holds a live g obj) (huse : g.use h = some (n, .page s))
    (ho : o ∈ (obj h).used) (hmove : a.MoveOk h)
    (hkeep : (a.set (.nUsed h) (a.get (.nUsed h) - 1)).KeepPage h) {b : Arena}
    (hb : b = (a.set (.nUsed h) (a.get (.nUsed h) - 1)).releaseObject h (ptrOf h + o)) :
    ∃ g' obj', Holds (b.moveToFront h) (live.erase (ptrOf h + o)) g' obj' ∧
      Quiet a live (b.moveToFront h) (live.erase (ptrOf h + o)) := by
  obtain ⟨hh, hkind, -⟩ := hw.spans.use_page huse
  have hret : Returned a g h s (obj h) o b :=
    hb ▸ hw.spans.releaseObject hh hkind (hw.pages h n s huse) ho
  obtain ⟨list, hs', hagree'⟩ := hret.spans.moveToFront hh hkind
    (MoveOk.returned hw huse ho hmove hret hkeep)
  have hpagesb := hw.pages.of_guarded hw.spans huse hret.agree hret.page
  refine ⟨{ g with list := list }, Function.update obj h ((obj h).release o), ?_, ?_⟩
  · apply hw.erase (by simpa [blocks, huse] using ho) hs' hw.settled
    · exact Pages.of_agree (g := g) hret.spans hpagesb hagree'
    · intro x
      have hsame : Layout.use { g with list := list } = g.use := rfl
      by_cases hxh : x = h
      · subst hxh
        simp [blocks, hsame, huse, PageObjects.release]
      · simp [blocks, hsame, hxh]
  · have hquiet : Quiet a live b (live.erase (ptrOf h + o)) := by
      apply hw.quiet_of_guarded huse hret.agree
      intro u hu hlive
      have hne : u ≠ o := by
        rintro rfl
        exact (hw.nodup.mem_erase_iff.1 hlive).1 rfl
      exact (List.mem_erase_of_ne hne).2 hu
    intro ptr hptr hptr' x h0 h1
    obtain ⟨hbyte, htouched⟩ := hquiet ptr hptr hptr' x h0 h1
    obtain ⟨y, z, hz, rfl⟩ := (hw.mem ptr).1 hptr
    obtain ⟨hocc, hlow, hhigh⟩ := hw.spans.block_range hw.pages hz h0 h1
    obtain ⟨hbyte', htouched'⟩ := hagree' x ⟨y, hocc, hlow, hhigh⟩
    exact ⟨hbyte'.trans hbyte, htouched'.trans htouched⟩

/-- `Free` of an object. -/
lemma Holds.freeObject (hw : Holds a live g obj) (huse : g.use h = some (n, .page s))
    (ho : o ∈ (obj h).used) (hmove : a.MoveOk h) :
    ∃ g' obj', Holds (a.free (ptrOf h + o)) (live.erase (ptrOf h + o)) g' obj' ∧
      Quiet a live (a.free (ptrOf h + o)) (live.erase (ptrOf h + o)) := by
  obtain ⟨hh, hkind, hlen, h1, h39, hsize⟩ := hw.spans.use_page huse
  have hb := hw.spans.sound.bounds hh
  have hi : (ListId.bin s).Valid := ⟨by omega, by omega⟩
  have hflag := hw.spans.page h s hh hkind
  have hp := hw.pages h n s huse
  have hbo := hp.used_bounds h1 h39 ho
  have ht := kBinSlotTemplate_bounds h1 h39
  have hlow : ptrOf h ≤ ptrOf h + o := by omega
  have hhigh : ptrOf h + o < ptrOf (h + g.len h) := by
    simp only [ptrOf_eq]
    omega
  by_cases hkeep : (a.set (.nUsed h) (a.get (.nUsed h) - 1)).KeepPage h
  · rw [hw.free_eq huse ho hkeep]
    exact hw.keepPage huse ho hmove hkeep rfl
  · have hone : blocks g obj h = [o] := by
      have hcount : a.get (.nUsed h) = (obj h).used.length := by rw [get_nUsed, hp.nUsed]
      have hlength := hp.length_used h1 h39
      have hpos := List.length_pos_of_mem ho
      have hused : ((obj h).used.length : Int) - 1 ≤ 0 := by
        by_contra hgt
        apply hkeep
        left
        rw [get_set_field, if_pos ⟨rfl, rfl⟩, Field.wrap_nUsed, hcount,
          int16_of_lt (by omega) (by omega)]
        omega
      obtain ⟨y, hy⟩ := List.length_eq_one_iff.1 (show (obj h).used.length = 1 by omega)
      rw [hy, List.mem_singleton] at ho
      simp [blocks, huse, hy, ho]
    have hmem : h ∈ g.list (.bin s) := (hw.spans.sound.mem_bin hi).2 ⟨hh, hkind⟩
    obtain ⟨g', hr⟩ := hw.spans.free_page hw.settled hh hkind hlow hhigh hkeep
    exact ⟨g', obj, hw.release hone (hw.spans.unlink hi hmem) (Layout.use_held _) hr⟩

end calls

end Arena

end CoplusLean
