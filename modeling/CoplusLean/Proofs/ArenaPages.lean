import CoplusLean.Proofs.ArenaRelease
import Mathlib.Tactic.IntervalCases

/-!
# New spans and new pages

The heap grows by a free span, and `newPage` turns a free span, or the front of a longer one,
into a page of a bin. The stores into a page behind the links of its header are seen by no
other part of the arena.
-/

namespace CoplusLean.Arena

open Lib

section heap

variable {a b : Arena} {g : Layout} {hid h n : Int}

lemma get_congr (hmem : b.mem = a.mem) (c : Cell) : b.get c = a.get c := by
  simp [get, hmem]

/-- The heap counters are moved up and the first new page is marked. -/
lemma Spans.grow (hs : Spans a g 0) (h1 : 1 ≤ n) (h60 : n ≤ 60) (htop : g.top + n ≤ 180218)
    (hmem : b.mem = a.mem) (hheap : b.kHeapAllocPage = a.kHeapAllocPage + n)
    (hres : b.kMemoryReservedStart = a.kMemoryReservedStart + n * 4096) :
    Spans (b.setHead (g.top + 1)) (g.grow n) 0 ∧
      Moves a g (b.setHead (g.top + 1)) (g.grow n) := by
  have hbounds := hs.sound.top_bounds
  have hlo : 0 ≤ g.top + 1 := by omega
  have hhi : g.top + 1 ≤ 180224 := by omega
  constructor
  · refine hs.relen (hs.sound.grow h1 h60 htop) rfl ?_ ?_ ?_ ?_ ?_ ?_
    · have := hs.heap
      simp only [setHead_kHeapAllocPage, hheap, Layout.grow]
      omega
    · have := hs.reserved
      simp only [setHead_kHeapAllocPage, setHead_kMemoryReservedStart, hheap, hres]
      omega
    · intro x hx0 hx1
      rw [isHead_setHead, Layout.grow_len]
      by_cases hx : x = g.top + 1
      · simp only [hx, if_true, true_iff]
        omega
      · rw [if_neg hx, if_neg hx, ← hs.heads x hx0 hx1, isHead, isHead, hmem]
    · intro x hx hkind
      rw [Layout.grow_len, Layout.grow_kind] at *
      by_cases hx' : x = g.top + 1
      · exact absurd (if_pos hx') hkind
      · rw [if_neg hx', if_neg hx']
        exact ⟨rfl, rfl⟩
    · exact fun i hi => (get_table_setHead b hlo hhi hi).trans (get_congr hmem _)
    · exact fun f x hx _ =>
        (get_field_setHead b hlo hhi (hs.sound.bounds hx).1).trans (get_congr hmem _)
  · exact ⟨hmem ▸ agree_setHead hs.sound b hlo hhi, Layout.same_grow hs.sound⟩

/-- The stores of `AllocArbitaryChunkFromHeap` behind its `is_head_->set`. -/
lemma pushed_alloc (hs : Spans a g hid) (hh : g.len h ≠ 0) (hheld : g.kind h = .held)
    (hn : n = g.len h) {a₁ a₂ : Arena}
    (ha₁ : a₁ = (a.set (.flag h) n).set (.hNext h) ((a.set (.flag h) n).get (.spanList n)))
    (ha₂ : a₂ = if a₁.get (.spanList n) > 0 then a₁.set (.hPri (a₁.get (.spanList n))) h else a₁) :
    Pushed a ((a₂.set (.spanList n) h).set (.hPri h) 0) (.span n) h ∧
      ((a₂.set (.spanList n) h).set (.hPri h) 0).get (.flag h) = n ∧
      Memory.Agree g.Payload a.mem ((a₂.set (.spanList n) h).set (.hPri h) 0).mem := by
  have hspan := hs.sound.span h hh
  have hi : (ListId.span n).Valid := ⟨by omega, by omega⟩
  obtain ⟨h1, hw, hw', hne, hr⟩ := hs.push_facts hi hh hheld
  have hwn : int32 n = n := int32_of_lt (by omega) (by omega)
  have hagree₁ : Memory.Agree g.Payload a.mem a₁.mem := by
    rw [ha₁]
    exact (agree_set_link hs.sound a _ hh (by simp)).trans
      (agree_set_link hs.sound _ _ hh (by simp))
  have hroot₁ : a₁.get (.spanList n) = a.get (.spanList n) := by
    rw [ha₁, get_table_set_field _ _ hi h1, get_table_set_field _ _ hi h1]
  rw [hroot₁] at ha₂
  have hagree₂ : Memory.Agree g.Payload a₁.mem a₂.mem := by
    rw [ha₂]
    rcases hr with ⟨hz, -⟩ | ⟨hpos, -, hlen⟩
    · rw [if_neg (not_lt_of_ge hz.le)]
      exact .refl _ _
    · rw [if_pos hpos]
      exact agree_set_link hs.sound a₁ _ hlen (by simp)
  have hagree : Memory.Agree g.Payload a.mem ((a₂.set (.spanList n) h).set (.hPri h) 0).mem :=
    ((hagree₁.trans hagree₂).trans (agree_set_table hs.sound _ _ hi)).trans
      (agree_set_link hs.sound _ _ hh (by simp))
  refine ⟨?_, ?_, hagree⟩
  · rw [ha₂, ha₁]
    generalize hroot : a.get (.spanList n) = r at *
    rcases hr with ⟨rfl, -⟩ | ⟨hpos, hr, -⟩
    · constructor <;> simp +contextual [hi, h1, hw, hroot]
    · simp only [hpos, if_true]
      constructor <;> simp +contextual [hi, h1, hr, hw, hw', hroot, hne]
  · rw [ha₂, ha₁]
    split <;> simp [hi, h1, hwn]

lemma allocMemFromHeap_eq_some {size p : Int} {commit : Bool}
    (halloc : a.allocMemFromHeap size commit = some (p, b)) :
    p = a.kMemoryReservedStart ∧ b.mem = a.mem ∧
      b.kHeapAllocPage = a.kHeapAllocPage + size / 4096 ∧
      b.kMemoryReservedStart = a.kMemoryReservedStart + size ∧
      a.kHeapAllocPage + size / 4096 ≤ 180224 := by
  have htotal : kPageTotalSize = 180224 := by decide
  unfold allocMemFromHeap at halloc
  split at halloc
  · cases halloc
  · rename_i hroom
    split at halloc
    · simp only [Option.some.injEq, Prod.mk.injEq] at halloc
      obtain ⟨rfl, rfl⟩ := halloc
      rw [not_or, htotal, kPageLen] at hroom
      exact ⟨rfl, rfl, rfl, rfl, by omega⟩
    · cases halloc

/-- The heap grows by a free span. -/
lemma Spans.allocArbitaryChunkFromHeap (hs : Spans a g 0) (hnone : g.OnlyHeld 0) (h1 : 1 ≤ n)
    (h60 : n ≤ 60) {commit : Bool} (halloc : a.allocArbitaryChunkFromHeap n commit = some b) :
    ∃ g', Spans b g' 0 ∧ Moves a g b g' ∧ g'.OnlyHeld 0 ∧ 0 < b.get (.spanList n) := by
  unfold Arena.allocArbitaryChunkFromHeap at halloc
  obtain ⟨⟨p, c⟩, hmem, rfl⟩ := Option.map_eq_some_iff.1 halloc
  obtain ⟨hp, hmem, hheap, hres, htop⟩ := allocMemFromHeap_eq_some hmem
  have hlen : kPageLen = 4096 := rfl
  have hdiv : n * kPageLen / 4096 = n := by rw [hlen]; omega
  rw [hdiv] at hheap htop
  rw [hlen] at hres
  have htop' : g.top + n ≤ 180218 := by
    have := hs.heap
    omega
  obtain ⟨hgrow, hmoves⟩ := hs.grow h1 h60 htop' hmem hheap hres
  have hhandle : pageHandleOf p = g.top + 1 := by
    have := hs.heap
    have := hs.reserved
    rw [pageHandleOf_eq, hp]
    omega
  simp only [hhandle]
  have hhead : (g.grow n).len (g.top + 1) = n := by rw [Layout.grow_len, if_pos rfl]
  have hheld : (g.grow n).kind (g.top + 1) = .held := by rw [Layout.grow_kind, if_pos rfl]
  have hne : (g.grow n).len (g.top + 1) ≠ 0 := by omega
  have hi : (ListId.span n).Valid := ⟨by omega, by omega⟩
  have hpos : 0 < g.top + 1 := by
    have := hs.sound.top_bounds
    omega
  obtain ⟨hpushed, hflag, hagree⟩ := pushed_alloc hgrow hne hheld hhead.symm rfl rfl
  refine ⟨(g.grow n).give (g.top + 1), ?_, ?_, ?_, ?_⟩
  · have hgive := hgrow.sound.give hne hheld
    rw [Layout.give, hhead] at hgive ⊢
    exact hgrow.put hpushed hi hne hheld hgive (fun _ => by rw [hflag, hhead]) (by simp) (by simp)
  · exact hmoves.trans ⟨hagree, Layout.same_give hheld⟩
  · have honly : (g.grow n).OnlyHeld (g.top + 1) :=
      hnone.begin hs.sound (fun x hx => Function.update_of_ne hx _ _) rfl
    exact honly.settle rfl rfl (by simp)
  · rw [hpushed.root]
    exact hpos

end heap

section page

variable {a : Arena} {g : Layout} {hid h s : Int}

lemma pushed_pushBin (hs : Spans a g hid) (hi : (ListId.bin s).Valid) (hh : g.len h ≠ 0)
    (hheld : g.kind h = .held) : Pushed a (a.pushBin s h) (.bin s) h := by
  obtain ⟨h1, hw, hw', hne, hr⟩ := hs.push_facts hi hh hheld
  unfold pushBin
  simp only [get_set_field, get_table_set_field, get_field_set_table, hi, h1]
  generalize hroot : a.get (.bin s) = r at *
  rcases hr with ⟨rfl, -⟩ | ⟨hpos, hr, -⟩
  · simp only [Field.wrap_hNext, hw', and_self, if_true, gt_iff_lt, lt_irrefl, if_false]
    constructor <;> simp +contextual [hi, h1, hw, hroot]
  · simp only [Field.wrap_hNext, hw', and_self, if_true, gt_iff_lt, hpos]
    constructor <;> simp +contextual [hi, h1, hr, hw, hw', hroot, hne.symm]

lemma agree_pushBin (hs : Spans a g hid) (hi : (ListId.bin s).Valid) (hh : g.len h ≠ 0)
    (hheld : g.kind h = .held) : Memory.Agree g.Payload a.mem (a.pushBin s h).mem := by
  obtain ⟨h1, hw, hw', hne, hr⟩ := hs.push_facts hi hh hheld
  unfold pushBin
  simp only [get_set_field, get_table_set_field, get_field_set_table, hi, h1, and_self, if_true,
    Field.wrap_hNext, hw', gt_iff_lt]
  have hlinks : Memory.Agree g.Payload a.mem
      (((a.set (.hPri h) 0).set (.hNext h) (a.get (.bin s))).set (.bin s) h).mem :=
    ((agree_set_link hs.sound a _ hh (by simp)).trans
      (agree_set_link hs.sound _ _ hh (by simp))).trans (agree_set_table hs.sound _ _ hi)
  rcases hr with ⟨hz, -⟩ | ⟨hpos, -, hlen⟩
  · rw [if_neg (not_lt_of_ge hz.le)]
    exact hlinks
  · rw [if_pos hpos]
    exact hlinks.trans (agree_set_link hs.sound _ _ hlen (by simp))

/-- The fields that are no links are left alone. -/
lemma get_pushBin (hs : Spans a g hid) (hi : (ListId.bin s).Valid) (hh : g.len h ≠ 0)
    (hheld : g.kind h = .held) {f : Field} (hp : f ≠ .hPri) (hn : f ≠ .hNext) :
    (a.pushBin s h).get (.field f h) = a.get (.field f h) := by
  have h1 := (hs.push_facts hi hh hheld).1
  unfold pushBin
  dsimp only
  split <;> simp [hi, h1, hp, hn]

lemma kBinSlotTemplate_bounds (h1 : 1 ≤ s) (h39 : s ≤ 39) :
    4 ≤ kBinSlotTemplate s ∧ kBinSlotTemplate s ≤ 4080 := by
  interval_cases s <;> decide

lemma binSpanSize_bounds (s : Int) : 2 ≤ binSpanSize s ∧ binSpanSize s ≤ 6 := by
  unfold binSpanSize
  split_ifs <;> omega

/-- The page `h` of slot `s` has been made: it serves its first object and the second is the
next to be served. -/
structure Entered (a : Arena) (g : Layout) (s h : Int) (a' : Arena) (g' : Layout) : Prop where
  spans : Spans a' g' 0
  agree : Memory.Agree g.Payload a.mem a'.mem
  fresh : g.use h = none
  use : g'.use = Function.update g.use h (some (binSpanSize s, .page s))
  bins : ∀ t, g'.list (.bin t) = if t = s then h :: g.list (.bin s) else g.list (.bin t)
  nUsed : a'.get (.nUsed h) = 1
  oFree : a'.get (.oFree h) = 16 + kBinSlotTemplate s
  link : a'.mem.load16 (ptrOf h + (16 + kBinSlotTemplate s)) = 0

lemma Layout.use_enter (hh : g.len h ≠ 0) :
    (g.enter h s).use = Function.update g.use h (some (g.len h, .page s)) := by
  rw [enter, use_update_kind]
  simp [use, hh]

lemma set_mem_field (a : Arena) (f : Field) (h v : Int) :
    (a.set (.field f h) v).mem =
      a.mem.write (ptrOf h + f.offset) (if f.short then 2 else 4) (Memory.byteOf v) :=
  set_mem a v _

/-- The last two stores of `makePage`. -/
lemma Spans.firstObject {a₃ : Arena} (hs₃ : Spans a₃ (g.enter h s) 0) (hs : Spans a g 0)
    (hh : g.len h ≠ 0) (hheld : g.kind h = .held) (hlen : g.len h = binSpanSize s) (h1 : 1 ≤ s)
    (h39 : s ≤ 39) (hused : a₃.get (.nUsed h) = 1) (hagree : Memory.Agree g.Payload a.mem a₃.mem) :
    Entered a g s h ((a₃.set (.oFree h) (kPageHeaderSize + kBinSlotTemplate s)).memset
      (ptrOf h + kPageHeaderSize + kBinSlotTemplate s) 0#8 kPageOffsetSize) (g.enter h s) := by
  have hspan := hs.sound.span h hh
  have ht := kBinSlotTemplate_bounds h1 h39
  have hsize := binSpanSize_bounds s
  have hheader : kPageHeaderSize = 16 := rfl
  have hoff : kPageOffsetSize = 4 := rfl
  rw [hheader, hoff]
  have hnot : ¬g.Occupied h := by simp [Layout.Occupied, hheld]
  have hend : ptrOf (h + g.len h) = ptrOf h + g.len h * 4096 := by
    simp only [ptrOf_eq]
    omega
  have hmem₄ : (a₃.set (.oFree h) (16 + kBinSlotTemplate s)).mem = a₃.mem.write (ptrOf h + 12) 2
      (Memory.byteOf (16 + kBinSlotTemplate s)) := set_mem_field a₃ .oFree h _
  have hs₄ : Spans (a₃.set (.oFree h) (16 + kBinSlotTemplate s)) (g.enter h s) 0 := by
    apply hs₃.write_inside (h := h) hmem₄ rfl rfl hh le_rfl
    simp only [Layout.enter, hend]
    omega
  have hrange : int16 (16 + kBinSlotTemplate s) = 16 + kBinSlotTemplate s :=
    int16_of_lt (by omega) (by omega)
  have hagree₄ : Memory.Agree g.Payload a.mem (a₃.set (.oFree h) (16 + kBinSlotTemplate s)).mem :=
    hagree.trans (agree_set_held hs.sound a₃ _ hh hnot)
  have hmem₅ : ((a₃.set (.oFree h) (16 + kBinSlotTemplate s)).memset
      (ptrOf h + 16 + kBinSlotTemplate s) 0#8 4).mem =
      (a₃.set (.oFree h) (16 + kBinSlotTemplate s)).mem.write
        (ptrOf h + 16 + kBinSlotTemplate s) 4 fun _ => 0#8 := rfl
  have hfield : ∀ f, ((a₃.set (.oFree h) (16 + kBinSlotTemplate s)).memset
      (ptrOf h + 16 + kBinSlotTemplate s) 0#8 4).get (.field f h) =
      (a₃.set (.oFree h) (16 + kBinSlotTemplate s)).get (.field f h) := by
    intro f
    apply get_of_write hmem₅
    have := f.bounds
    simp only [Cell.addr, Cell.short]
    omega
  refine ⟨?_, ?_, Layout.use_of_held hheld, ?_, ?_, ?_, ?_, ?_⟩
  · apply hs₄.write_inside (h := h) hmem₅ rfl rfl hh (by omega)
    simp only [Layout.enter, hend]
    omega
  · apply hagree₄.trans
    rw [hmem₅]
    apply Memory.agree_write
    intro x hx
    have := hx.off_held hs.sound hh hnot
    rw [hend] at this
    omega
  · rw [Layout.use_enter hh, hlen]
  · intro t
    by_cases hts : t = s <;> simp [Layout.enter, hts]
  · rw [hfield, get_set_field, if_neg (by simp), hused]
  · rw [hfield, get_set_field, if_pos ⟨rfl, rfl⟩, Field.wrap_oFree, hrange]
  · rw [← add_assoc]
    exact Memory.load16_memset_zero _ (by omega)

lemma Spans.makePage (hs : Spans a g 0) (hh : g.len h ≠ 0) (hheld : g.kind h = .held)
    (h1 : 1 ≤ s) (h39 : s ≤ 39) (hlen : g.len h = binSpanSize s) :
    (a.makePage h s).1 = .block (ptrOf h + 16) ∧
      Entered a g s h (a.makePage h s).2 (g.enter h s) := by
  have hi : (ListId.bin s).Valid := ⟨by omega, by omega⟩
  have hb := hs.sound.bounds hh
  have hspan := hs.sound.span h hh
  have ht := kBinSlotTemplate_bounds h1 h39
  have hsize := binSpanSize_bounds s
  obtain ⟨hs₁, hm₁⟩ := hs.set_held .flag (-s) hh hheld
  obtain ⟨hs₂, hm₂⟩ := hs₁.set_held .nUsed 1 hh hheld
  have hflag₂ : ((a.set (.flag h) (-s)).set (.nUsed h) 1).get (.flag h) = -s := by
    simpa using int32_of_lt (by omega) (by omega)
  have hused₂ : ((a.set (.flag h) (-s)).set (.nUsed h) 1).get (.nUsed h) = 1 := by
    simpa using int16_of_lt (by omega) (by omega)
  have hm₂ := hm₁.trans hm₂
  unfold Arena.makePage
  dsimp only
  generalize (a.set (.flag h) (-s)).set (.nUsed h) 1 = a₂ at *
  have hs₃ : Spans (a₂.pushBin s h) (g.enter h s) 0 := by
    refine hs₂.put (pushed_pushBin hs₂ hi hh hheld) hi hh hheld
      (hs.sound.enter hh hheld h1 h39 hlen) (by simp) (by simp) ?_
    intro t ht
    obtain rfl : s = t := by simpa using ht
    rw [get_pushBin hs₂ hi hh hheld (by simp) (by simp), hflag₂]
  have hused₃ : (a₂.pushBin s h).get (.nUsed h) = 1 := by
    rw [get_pushBin hs₂ hi hh hheld (by simp) (by simp), hused₂]
  have hagree₃ := hm₂.agree.trans (agree_pushBin hs₂ hi hh hheld)
  generalize a₂.pushBin s h = a₃ at *
  exact ⟨rfl, hs₃.firstObject hs hh hheld hlen h1 h39 hused₃ hagree₃⟩

end page

/-! ## `newPage` -/

section newPage

variable {a b : Arena} {g : Layout} {h s k big : Int} {commit : Bool}

lemma searchSpan_spec (a : Arena) {r : Int} (hr : a.searchSpan k = r) (hk : k ≤ 61) :
    k ≤ r ∧ r ≤ 61 ∧ (r ≤ 60 → 0 < a.get (.spanList r)) := by
  have hslot : kSpanSlotSize = 60 := rfl
  -- induction on the number of entries that are left
  induction hm : (61 - k).toNat generalizing k with
  | zero =>
    unfold searchSpan at hr
    rw [hslot] at hr
    split at hr
    · omega
    · subst hr
      exact ⟨le_rfl, hk, fun h => by omega⟩
  | succ m ih =>
    unfold searchSpan at hr
    rw [hslot] at hr
    split at hr
    · obtain ⟨h1, h2, h3⟩ := ih hr (by omega) (by omega)
      exact ⟨by omega, h2, h3⟩
    · rename_i hstop
      subst hr
      rw [not_and_or, not_le] at hstop
      exact ⟨le_rfl, hk, fun h => hstop.resolve_right (by omega)⟩

/-- A span longer than `k` is at the front of its list, after a look at the heap where there
was none. -/
lemma Spans.biggerSpan (hs : Spans a g 0) (hnone : g.OnlyHeld 0) (h1 : 1 ≤ k) (h60 : k < 60)
    (hbig : a.biggerSpan k commit = some (big, b)) :
    ∃ g', Spans b g' 0 ∧ Moves a g b g' ∧ g'.OnlyHeld 0 ∧ k < big ∧ big ≤ 60 ∧
      0 < b.get (.spanList big) := by
  have hslot : kSpanSlotSize = 60 := rfl
  have hw : int16 (k + 1) = k + 1 := int16_of_lt (by omega) (by omega)
  unfold Arena.biggerSpan at hbig
  rw [hw, hslot] at hbig
  obtain ⟨hge, hle, hpos⟩ := searchSpan_spec a rfl (show k + 1 ≤ 61 by omega)
  dsimp only at hbig
  generalize a.searchSpan (k + 1) = r at *
  split at hbig
  · obtain ⟨c, halloc, hc⟩ := Option.map_eq_some_iff.1 hbig
    simp only [Prod.mk.injEq] at hc
    obtain ⟨rfl, rfl⟩ := hc
    obtain ⟨g', hs', hmoves, hnone', hroot⟩ :=
      hs.allocArbitaryChunkFromHeap hnone (by decide) (by decide) halloc
    obtain rfl : r = 61 := by omega
    exact ⟨g', hs', hmoves, hnone', by omega, by omega, hroot⟩
  · simp only [Option.some.injEq, Prod.mk.injEq] at hbig
    obtain ⟨rfl, rfl⟩ := hbig
    exact ⟨g, hs, ⟨.refl _ _, .refl g⟩, hnone, by omega, by omega, hpos (by omega)⟩

/-- The first of the free spans of `k` pages is taken. -/
lemma Spans.popFirst (hs : Spans a g 0) (hnone : g.OnlyHeld 0) (h1 : 1 ≤ k) (h60 : k ≤ 60)
    (hh : a.get (.spanList k) = h) (hpos : 0 < h) :
    Spans (a.popSpan k h) (g.take (.span k) h) 0 ∧ Moves a g (a.popSpan k h) (g.take (.span k) h) ∧
      (g.take (.span k) h).OnlyHeld h ∧ g.len h = k ∧
      (∀ x, 1 ≤ x → (a.popSpan k h).get (.flag x) = a.get (.flag x)) := by
  have hi : (ListId.span k).Valid := ⟨by omega, by omega⟩
  obtain ⟨hmem, heq⟩ := hs.popSpan hi (by rwa [hh])
  rw [hh] at hmem heq
  have hfree := ((hs.sound.mem_span hi).1 hmem).2
  rw [heq]
  exact ⟨hs.unlink hi hmem, ⟨hs.agree_unlink hi hmem, Layout.same_take hfree.1⟩,
    hnone.begin hs.sound (fun _ _ => rfl) rfl, hfree.2, (hs.unlinked hi hmem).flags⟩

lemma Entered.of_moves {a' : Arena} {g₁ g' : Layout} (hmoves : Moves a g b g₁)
    (he : Entered b g₁ s h a' g') : Entered a g s h a' g' where
  spans := he.spans
  agree := hmoves.agree.trans (he.agree.mono fun _ hx => hx.same hmoves.same)
  fresh := (hmoves.same.use _).symm.trans he.fresh
  use := by
    rw [he.use]
    congr 1
    funext x
    exact hmoves.same.use x
  bins t := by rw [he.bins, hmoves.same.bins, hmoves.same.bins]
  nUsed := he.nUsed
  oFree := he.oFree
  link := he.link

lemma onlyHeld_cut (honly : g.OnlyHeld h) : ((g.cut h k).give (h + k)).OnlyHeld h := by
  intro x hx hkind
  by_cases hxk : x = h + k
  · simp [Layout.give, hxk] at hkind
  · by_cases hxh : x = h
    · exact hxh
    · apply honly x
      · simpa [Layout.give, Layout.cut_len, hxk, hxh] using hx
      · simpa [Layout.give, Layout.cut_kind, hxk] using hkind

/-- What a new page amounts to, where the heap did not throw. -/
def PageMade (a : Arena) (g : Layout) (s : Int) (r : Outcome × Arena) : Prop :=
  ∃ h g', r.1 = .block (ptrOf h + 16) ∧ Entered a g s h r.2 g' ∧ g'.OnlyHeld 0

lemma PageMade.of_moves {g₁ : Layout} {r : Outcome × Arena} (hmoves : Moves a g b g₁)
    (hr : PageMade b g₁ s r) : PageMade a g s r := by
  obtain ⟨h, g', hblock, hentered, hnone⟩ := hr
  exact ⟨h, g', hblock, hentered.of_moves hmoves, hnone⟩

lemma Spans.pageMade (hs : Spans a g 0) (honly : g.OnlyHeld h) (hh : g.len h ≠ 0)
    (hheld : g.kind h = .held) (h1 : 1 ≤ s) (h39 : s ≤ 39) (hlen : g.len h = binSpanSize s) :
    PageMade a g s (a.makePage h s) := by
  obtain ⟨hblock, hentered⟩ := hs.makePage hh hheld h1 h39 hlen
  exact ⟨h, _, hblock, hentered, honly.settle rfl rfl (by simp)⟩

/-- The front of a longer span becomes the page. -/
lemma Spans.splitPage (hs : Spans a g 0) (hnone : g.OnlyHeld 0) (h1 : 1 ≤ s) (h39 : s ≤ 39)
    (hbig : binSpanSize s < big) (h60 : big ≤ 60) (hh : a.get (.spanList big) = h) (hpos : 0 < h) :
    PageMade a g s (((a.popSpan big h).addRest (h + binSpanSize s)
      (int16 (big - binSpanSize s))).makePage h s) := by
  have hsize := binSpanSize_bounds s
  obtain ⟨hs₁, hmoves₁, honly₁, hlen, -⟩ := hs.popFirst hnone (by omega) h60 hh hpos
  have hheld₁ : (g.take (.span big) h).kind h = .held := by simp [Layout.take]
  have hlen₁ : (g.take (.span big) h).len h = big := hlen
  have hw : int16 (big - binSpanSize s) = (g.take (.span big) h).len h - binSpanSize s := by
    rw [hlen₁]
    exact int16_of_lt (by omega) (by omega)
  obtain ⟨hs₂, hmoves₂, -⟩ := hs₁.addRest hheld₁ (by omega) (by omega) hw (by omega)
  apply PageMade.of_moves (hmoves₁.trans hmoves₂)
  have hne : h ≠ h + binSpanSize s := by omega
  have hlen₂ : (((g.take (.span big) h).cut h (binSpanSize s)).give (h + binSpanSize s)).len h =
      binSpanSize s := by
    simp [Layout.give, Layout.cut_len, hne]
  apply hs₂.pageMade (onlyHeld_cut honly₁) (by omega) ?_ h1 h39 hlen₂
  simp [Layout.give, Layout.cut_kind, hne, hheld₁]

/-- `newPage` throws without an effect, or it makes a page. -/
lemma Spans.newPage (hs : Spans a g 0) (hnone : g.OnlyHeld 0) (h1 : 1 ≤ s) (h39 : s ≤ 39)
    (commit : Bool) :
    a.newPage s commit = (.badAlloc, a) ∨ PageMade a g s (a.newPage s commit) := by
  have hsize := binSpanSize_bounds s
  unfold Arena.newPage
  dsimp only
  split
  · rename_i hpos
    right
    obtain ⟨hs₁, hmoves₁, honly₁, hlen, -⟩ :=
      hs.popFirst hnone (by omega) (by omega) rfl hpos
    apply PageMade.of_moves hmoves₁
    have hlen₁ : (g.take (.span (binSpanSize s)) (a.get (.spanList (binSpanSize s)))).len
        (a.get (.spanList (binSpanSize s))) = binSpanSize s := hlen
    exact hs₁.pageMade honly₁ (by omega) (by simp [Layout.take]) h1 h39 hlen₁
  · cases hbig : a.biggerSpan (binSpanSize s) commit with
    | none => exact .inl rfl
    | some r =>
      right
      obtain ⟨big, b⟩ := r
      obtain ⟨g₁, hs₁, hmoves₁, hnone₁, hlt, h60, hpos⟩ :=
        hs.biggerSpan hnone (by omega) (by omega) hbig
      dsimp only
      rw [if_neg (by omega)]
      apply PageMade.of_moves hmoves₁
      exact hs₁.splitPage hnone₁ h1 h39 hlt h60 rfl hpos

end newPage

end CoplusLean.Arena
