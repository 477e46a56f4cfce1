import CoplusLean.Proofs.ArenaRuns

/-!
# The invariant along careful runs

The arena after `Init` holds no block, and the calls of `Malloc` and `Free` that avoid the
defects as well as the stores of the clients keep the invariant of the blocks. It says that
live blocks are apart and in their spans, and that every bin is linked.
-/

namespace CoplusLean

open Lib

namespace Arena

variable {a b : Arena} {live : List Int} {g : Layout} {obj : Int → PageObjects} {h : Int}

/-! ## Marks and stores of clients -/

@[simp] lemma get_unmark (a : Arena) (c : Cell) : a.unmark.get c = a.get c := rfl

@[simp] lemma isHead_unmark (a : Arena) (h : Int) : a.unmark.isHead h = a.isHead h := rfl

@[simp] lemma spanHandleOf_unmark (a : Arena) (h : Int) :
    a.unmark.spanHandleOf h = a.spanHandleOf h := by
  induction hn : h.toNat generalizing h with
  | zero =>
    unfold spanHandleOf
    rw [if_neg (by omega), if_neg (by omega)]
  | succ n ih =>
    unfold spanHandleOf
    rw [isHead_unmark, ih (h - 1) (by omega)]

@[simp] lemma capacity_unmark (a : Arena) (ptr : Int) : a.unmark.capacity ptr = a.capacity ptr := by
  unfold capacity
  simp

lemma Holds.unmark (hw : Holds a live g obj) : Holds a.unmark live g obj := by
  refine ⟨?_, hw.settled, ?_, hw.mem, hw.nodup⟩
  · exact hw.spans.congr rfl rfl (fun _ _ _ => rfl) (fun _ _ => rfl) fun _ _ _ => ⟨rfl, rfl, rfl⟩
  · exact fun h n s huse => (hw.pages h n s huse).congr (fun _ _ _ => rfl) fun _ _ _ _ _ => rfl

/-- A store outside of a page or to one of its objects in use. -/
lemma PageOk.write {m : Memory} {s x : Int} {p : PageObjects} (hp : PageOk m h s p) (h1 : 1 ≤ s)
    (h39 : s ≤ 39) (hlen : g.len h = binSpanSize s) (hx : Guarded g h s p.used x)
    (v : Int → BitVec 8) : PageOk (m.write x 1 v) h s p := by
  have hsize := binSpanSize_bounds s
  have ht := kBinSlotTemplate_bounds h1 h39
  apply hp.congr
  · intro z hz0 hz1
    apply Memory.byte_write_of_outside
    rcases hx with hx | hx | ⟨u, hu, hx0, -⟩
    · omega
    · simp only [ptrOf_eq] at *
      omega
    · have hb := hp.used_bounds h1 h39 hu
      omega
  · intro o ho z hz0 hz1
    have hb := hp.chain_bounds h1 h39 ho
    apply Memory.byte_write_of_outside
    rcases hx with hx | hx | ⟨u, hu, hx0, hx1⟩
    · omega
    · simp only [ptrOf_eq] at *
      omega
    · have hapart := hp.apart h1 h39 ho hu
      omega

/-- A byte of a block is outside of every page or in an object in use of it. -/
lemma Holds.guarded (hw : Holds a live g obj) {y o s n x : Int} (ho : o ∈ blocks g obj h)
    (hlow : ptrOf h + o ≤ x) (hhigh : x < ptrOf h + o + a.capacity (ptrOf h + o))
    (huse : g.use y = some (n, .page s)) : Guarded g y s (obj y).used x := by
  obtain ⟨hocc, hx0, hx1⟩ := hw.spans.block_range hw.pages ho hlow hhigh
  obtain ⟨hy, -⟩ := hw.spans.use_page huse
  by_cases hyh : y = h
  · subst hyh
    obtain ⟨m, -, -, -, ⟨hchunk, -⟩ | ⟨t, hpage, hused, -, hcap, -⟩⟩ :=
      hw.spans.block_cases hw.pages ho
    · rw [hchunk] at huse
      simp at huse
    · rw [huse, Option.some.injEq, Prod.mk.injEq, Kind.page.injEq] at hpage
      rw [hcap, ← hpage.2] at hhigh
      exact .inr (.inr ⟨o, hused, hlow, hhigh⟩)
  · have hbeside := hw.spans.sound.beside hocc.1 hy hyh
    unfold Guarded
    simp only [ptrOf_eq] at *
    omega

/-- A client stores to a byte of one of its blocks. -/
lemma Holds.write (hw : Holds a live g obj) {ptr x : Int} (hptr : ptr ∈ live) (hlow : ptr ≤ x)
    (hhigh : x < ptr + a.capacity ptr) (b : BitVec 8) :
    Holds { a with mem := a.mem.write x 1 fun _ => b } live g obj := by
  obtain ⟨h, o, ho, rfl⟩ := (hw.mem ptr).1 hptr
  obtain ⟨hocc, hx0, hx1⟩ := hw.spans.block_range hw.pages ho hlow hhigh
  have hmem : ({ a with mem := a.mem.write x 1 fun _ => b } : Arena).mem =
      a.mem.write x 1 fun _ => b := rfl
  refine ⟨hw.spans.write_inside hmem rfl rfl hocc.1 hx0 (by omega), hw.settled, ?_, hw.mem, hw.nodup⟩
  · intro y n s huse
    obtain ⟨-, -, hlen, h1, h39, hsize⟩ := hw.spans.use_page huse
    exact (hw.pages y n s huse).write h1 h39 (hlen.trans hsize)
      (hw.guarded ho hlow hhigh huse) fun _ => b

lemma mallocCareful_unmark (size : Int) :
    a.unmark.MallocCareful size live ↔ a.MallocCareful size live := by
  unfold MallocCareful SlotOk ReuseOk candidate
  simp only [get_unmark]
  exact Iff.rfl

lemma freeCareful_unmark (ptr : Int) : a.unmark.FreeCareful ptr ↔ a.FreeCareful ptr := by
  unfold FreeCareful MoveOk
  simp only [spanHandleOf_unmark, get_unmark]

end Arena

/-! ## Steps -/

namespace ArenaWorld

open Arena

/-- What a step must avoid: a call of `Malloc` or `Free` that meets one of the defects. -/
def Careful (w : ArenaWorld) : ArenaStep → Prop
  | .malloc size _ => w.arena.MallocCareful (int32 size) w.live
  | .free ptr => w.arena.FreeCareful ptr
  | .write _ _ _ => True

/-- The arena represents a layout whose blocks in use are the live ones. -/
def Represents (w : ArenaWorld) : Prop := ∃ g obj, Holds w.arena w.live g obj

/-- A call of `Malloc` or `Free` stores to no byte of a block that is live before and after. -/
def LeavesBlocks (w : ArenaWorld) (act : ArenaStep) (w' : ArenaWorld) : Prop :=
  match act with
  | .write _ _ _ => True
  | _ => ∀ ptr ∈ w.live, ptr ∈ w'.live → ∀ x, ptr ≤ x → x < ptr + w.arena.capacity ptr →
    w'.arena.mem.touched x = false

variable {w w' : ArenaWorld} {act : ArenaStep}

lemma untouched_of_quiet {a b : Arena} {live live' : List Int}
    (hquiet : Quiet a.unmark live b live') :
    ∀ ptr ∈ live, ptr ∈ live' → ∀ x, ptr ≤ x → x < ptr + a.capacity ptr →
      b.mem.touched x = false := by
  intro ptr hptr hptr' x h0 h1
  rw [← capacity_unmark] at h1
  rw [(hquiet ptr hptr hptr' x h0 h1).2]
  rfl

/-- One careful step. -/
lemma Represents.step (hw : w.Represents) (hcareful : Careful w act)
    (hstep : w.step act = some w') : w'.Represents ∧ LeavesBlocks w act w' := by
  obtain ⟨g, obj, hw⟩ := hw
  cases act with
  | malloc size commit =>
    simp only [ArenaWorld.step, Option.some.injEq] at hstep
    subst hstep
    by_cases hsize : 0 < int32 size
    · obtain ⟨⟨g', obj', hholds, hquiet⟩, -⟩ :=
        hw.unmark.malloc hsize ((mallocCareful_unmark _).2 hcareful) commit
      exact ⟨⟨g', obj', hholds⟩, untouched_of_quiet hquiet⟩
    · have hnull : w.arena.unmark.malloc (int32 size) commit = (.null, w.arena.unmark) := by
        unfold Arena.malloc
        rw [if_pos (by omega)]
      rw [hnull]
      exact ⟨⟨g, obj, hw.unmark⟩, untouched_of_quiet (quiet_refl _ _)⟩
  | free ptr =>
    simp only [ArenaWorld.step] at hstep
    split at hstep
    · rename_i hptr
      obtain rfl := Option.some.inj hstep
      obtain ⟨g', obj', hholds, hquiet⟩ := hw.unmark.free hptr ((freeCareful_unmark _).2 hcareful)
      -- the projections of the new world are reduced first, before `free` would be unfolded
      refine ⟨⟨g', obj', ?_⟩, ?_⟩
      · dsimp only
        exact hholds
      · dsimp only [LeavesBlocks]
        exact untouched_of_quiet hquiet
    · cases hstep
  | write ptr x b =>
    simp only [ArenaWorld.step] at hstep
    split at hstep
    · rename_i hptr
      obtain rfl := Option.some.inj hstep
      exact ⟨⟨g, obj, hw.write hptr.1 hptr.2.1 hptr.2.2 b⟩, trivial⟩
    · cases hstep

end ArenaWorld

/-! ## `Init` -/

namespace Arena

variable {a b : Arena} {g : Layout}

/-- The heap before its first span: the tables are empty. -/
lemma spans_empty (hheap : a.kHeapAllocPage = 6) (hres : a.kMemoryReservedStart = 24576)
    (hheads : ∀ h, 0 ≤ h → h ≤ 180224 → a.isHead h = false)
    (htable : ∀ i : ListId, i.Valid → a.get (.table i) = 0) :
    Spans a ⟨0, fun _ => 0, fun _ => .held, fun _ => []⟩ 0 := by
  constructor
  · constructor <;> simp
  · rw [hheap]
    rfl
  · rw [hres, hheap]
    rfl
  · intro h h0 h1
    simp [hheads h h0 h1]
  · constructor <;> simp
    exact htable
  all_goals simp

/-- No span is in use. -/
structure Unused (a : Arena) (g : Layout) : Prop where
  spans : Spans a g 0
  settled : g.OnlyHeld 0
  none : ∀ h, g.use h = none

lemma Unused.holds (ha : Unused a g) (obj : Int → PageObjects) : Holds a [] g obj := by
  refine ⟨ha.spans, ha.settled, ?_, ?_, List.nodup_nil⟩
  · intro h n s huse
    rw [ha.none] at huse
    cases huse
  · intro ptr
    refine iff_of_false List.not_mem_nil ?_
    rintro ⟨h, o, ho, -⟩
    rw [blocks, ha.none] at ho
    exact absurd ho List.not_mem_nil

lemma Unused.allocChunks {n : Int} (h1 : 1 ≤ n) (h60 : n ≤ 60) (commit : Nat → Bool) (k : Nat)
    (ha : ∃ g, Unused a g) (hb : allocChunks n commit k a = some b) : ∃ g, Unused b g := by
  induction k generalizing b with
  | zero =>
    obtain rfl := Option.some.inj hb
    exact ha
  | succ k ih =>
    obtain ⟨c, hc, hchunk⟩ := Option.bind_eq_some_iff.1 hb
    obtain ⟨g, hg⟩ := ih hc
    obtain ⟨g', hs, hmoves, hsettled, -⟩ :=
      hg.spans.allocArbitaryChunkFromHeap hg.settled h1 h60 hchunk
    exact ⟨g', hs, hsettled, fun h => (hmoves.same.use h).trans (hg.none h)⟩

/-- The tables are cleared. -/
lemma byte_constructTables (a : Arena) {x : Int} (h0 : 0 ≤ x) (h1 : x < 22936) :
    a.constructTables.mem.byte x = 0#8 := by
  have hsize : isHeadSize = 22532 := by decide
  have hbins : kPageHandleSize * (kBinSlotSize + 1) = 160 := by decide
  have hspans : kPageHandleSize * (kSpanSlotSize + 1) = 244 := by decide
  unfold constructTables memset
  simp only [hbins, hspans, hsize, isHeadAddr_eq, Memory.memset, Memory.write]
  split_ifs <;> first | rfl | omega

lemma get_table_constructTables (a : Arena) {i : ListId} (hi : i.Valid) :
    a.constructTables.get (.table i) = 0 := by
  have hb := hi.bounds
  have hload : a.constructTables.get (.table i) = a.constructTables.mem.load32 i.addr := by
    simp [get, Cell.short, Cell.addr]
  rw [hload]
  apply Memory.load32_eq_zero
  intro x hx0 hx1
  exact byte_constructTables a (by omega) (by omega)

lemma unused_constructTables (hheap : a.kHeapAllocPage = 6)
    (hres : a.kMemoryReservedStart = 24576) : ∃ g, Unused a.constructTables g := by
  refine ⟨_, spans_empty hheap hres ?_ ?_, ?_, fun _ => rfl⟩
  · intro h h0 h1
    rw [isHead, Memory.bit, isHeadAddr_eq, byte_constructTables a (by omega) (by omega)]
    simp
  · exact fun i hi => get_table_constructTables a hi
  · exact fun h hh _ => absurd rfl hh

/-- `Init` with any numbers of chunks. -/
lemma unused_of_chunks {mem : Memory} {commit : Bool} {small large : Nat → Bool} {j k : Nat}
    (ha : ((allocMemFromHeap ⟨mem, 0, 0⟩ (kPageLen * kSelfReservedPage) commit).bind
      fun (_, a) => (allocChunks 2 small j a.constructTables).bind
        (allocChunks kSpanSlotSize large k)) = some a) : ∃ g, Unused a g := by
  obtain ⟨⟨p, b⟩, hb, ha⟩ := Option.bind_eq_some_iff.1 ha
  obtain ⟨c, hc, ha⟩ := Option.bind_eq_some_iff.1 ha
  have hsize : kPageLen * kSelfReservedPage = 24576 := by decide
  obtain ⟨-, -, hheap, hres, -⟩ := allocMemFromHeap_eq_some hb
  rw [hsize] at hheap hres
  have htables := unused_constructTables (a := b) hheap hres
  have hsmall := Unused.allocChunks (by decide) (by decide) _ _ htables hc
  exact Unused.allocChunks (by decide) (by decide) _ _ hsmall ha

/-- After `Init` no span is in use. -/
lemma unused_init {mem : Memory} {commit : Nat → Bool} (ha : init mem commit = some a) :
    ∃ g, Unused a g := unused_of_chunks ha

/-! ## What the invariant says about the blocks and the bins -/

/-- The length of a span in pages and the size of its header, from the header. -/
def spanPages (a : Arena) (h : Int) : Int :=
  if a.get (.flag h) ≤ 0 then binSpanSize (-a.get (.flag h)) else a.get (.flag h)

def headerSize (a : Arena) (h : Int) : Int :=
  if a.get (.flag h) ≤ 0 then kPageHeaderSize else kSpanHeaderSize

/-- The block lies in its own span behind the header. -/
def InSpan (a : Arena) (ptr : Int) : Prop :=
  let h := a.spanHandleOf (pageHandleOf ptr)
  a.IsSpan h ∧ (∀ j, h < j → j < h + a.spanPages h → a.isHead j = false) ∧
    ptrOf h + a.headerSize h ≤ ptr ∧ ptr + a.capacity ptr ≤ ptrOf (h + a.spanPages h)

/-- The extents of two blocks do not overlap. -/
def Apart (a : Arena) (p q : Int) : Prop := p + a.capacity p ≤ q ∨ q + a.capacity q ≤ p

/-- Following `hNext` from `bin_[slot]` visits the pages of the slot once each and ends at `0`,
and `hPri` leads back. -/
def BinLinked (a : Arena) (slot : Int) : Prop :=
  ∃ l : List Int, a.get (.bin slot) = l.headD 0 ∧
    Linked (fun h => a.get (.hPri h)) (fun h => a.get (.hNext h)) 0 l 0 ∧ l.Nodup ∧
      ∀ h, h ∈ l ↔ a.IsSpan h ∧ a.get (.flag h) = -slot

variable {live : List Int} {obj : Int → PageObjects} {h s : Int}

lemma Spans.spanPages_eq (hs : Spans a g 0) (hh : g.Occupied h) :
    a.spanPages h = g.len h ∧ a.headerSize h = if g.kind h = .chunk then 12 else 16 := by
  have hspan := hs.sound.span h hh.1
  unfold spanPages headerSize
  rcases hh.2 with hkind | ⟨s, hkind⟩
  · have hflag := (hs.chunk h hh.1 hkind).1
    rw [hflag, if_neg (by omega), if_neg (by omega), if_pos hkind]
    exact ⟨rfl, rfl⟩
  · have hflag := hs.page h s hh.1 hkind
    obtain ⟨h1, -, hsize⟩ := hs.sound.page h s hh.1 hkind
    rw [hflag, if_pos (by omega), if_pos (by omega), if_neg (by simp [hkind]), neg_neg]
    exact ⟨hsize.symm, rfl⟩

lemma Holds.inSpan (hw : Holds a live g obj) {ptr : Int} (hptr : ptr ∈ live) : a.InSpan ptr := by
  obtain ⟨h, o, ho, rfl⟩ := (hw.mem ptr).1 hptr
  obtain ⟨n, hh, hlen, hhandle, hcases⟩ := hw.spans.block_cases hw.pages ho
  have hspan := hw.spans.sound.span h hh
  have htop := hw.spans.sound.top_bounds
  unfold InSpan
  simp only [hhandle]
  have hocc : g.Occupied h := by
    rcases hcases with ⟨huse, -⟩ | ⟨s, huse, -⟩
    · exact (Layout.use_eq_some.1 huse).1
    · exact (Layout.use_eq_some.1 huse).1
  obtain ⟨hpages, hheader⟩ := hw.spans.spanPages_eq hocc
  rw [hpages, hheader]
  refine ⟨hw.spans.isSpan_iff.2 hh, fun j hj0 hj1 => ?_, ?_⟩
  · have hzero := hw.spans.sound.inside h j hh hj0 hj1
    rw [Bool.eq_false_iff]
    exact fun hhead => ((hw.spans.heads j (by omega) (by omega)).1 hhead).1 hzero
  · rcases hcases with ⟨huse, rfl, hcap, -⟩ | ⟨s, huse, -, h16, hcap, hfit, -⟩
    · obtain ⟨-, -, hkind⟩ := Layout.use_eq_some.1 huse
      rw [if_pos hkind, hcap, hlen]
      simp only [ptrOf_eq]
      omega
    · obtain ⟨-, -, hkind⟩ := Layout.use_eq_some.1 huse
      rw [if_neg (by simp [hkind]), hcap, hlen]
      simp only [ptrOf_eq]
      omega

/-- Two live blocks are apart. -/
lemma Holds.apart (hw : Holds a live g obj) {p q : Int} (hp : p ∈ live) (hq : q ∈ live)
    (hne : p ≠ q) : a.Apart p q := by
  obtain ⟨h, o, ho, rfl⟩ := (hw.mem p).1 hp
  obtain ⟨x, y, hy, rfl⟩ := (hw.mem q).1 hq
  have hcap := hw.spans.block_cases hw.pages ho
  unfold Apart
  by_cases hxh : x = h
  · subst hxh
    obtain ⟨n, -, -, -, ⟨hchunk, rfl, -⟩ | ⟨s, huse, hused, -, hcap, -, h1, h39, -⟩⟩ := hcap
    · simp only [blocks, hchunk, List.mem_singleton] at hy
      exact absurd (by rw [hy]) hne
    · have hyused : y ∈ (obj x).used := by simpa [blocks, huse] using hy
      have hapart := (hw.pages x n s huse).used_apart h1 h39 hused hyused (by
        rintro rfl
        exact hne rfl)
      rw [hcap, hw.capacity_object huse hyused]
      omega
  · obtain ⟨n, hh, -⟩ := hcap
    obtain ⟨m, hx, -⟩ := hw.spans.block_cases hw.pages hy
    have hbeside := hw.spans.sound.beside hh hx hxh
    have hrange : ∀ {z u : Int}, u ∈ blocks g obj z →
        ptrOf z ≤ ptrOf z + u ∧ ptrOf z + u + a.capacity (ptrOf z + u) ≤ ptrOf (z + g.len z) := by
      intro z u hu
      obtain ⟨n, -, hlen, -, ⟨-, rfl, hcap, hn⟩ | ⟨s, -, -, h16, hcap, hfit, -⟩⟩ :=
        hw.spans.block_cases hw.pages hu
      · rw [hcap]
        simp only [ptrOf_eq]
        omega
      · rw [hcap]
        simp only [ptrOf_eq]
        omega
    have ho' := hrange ho
    have hy' := hrange hy
    simp only [ptrOf_eq] at *
    omega

/-- The lists of the layout are the lists in memory. -/
lemma Spans.binLinked (hs : Spans a g 0) (hnone : g.OnlyHeld 0) (h1 : 1 ≤ s) (h39 : s ≤ 39) :
    a.BinLinked s := by
  have hi : (ListId.bin s).Valid := ⟨by omega, by omega⟩
  refine ⟨g.list (.bin s), hs.lists.root_eq _ hi, hs.lists.linked _ hi, hs.lists.nodup _ hi, ?_⟩
  intro h
  rw [hs.sound.mem _ h hi, hs.isSpan_iff]
  refine and_congr_right fun hh => ?_
  have hspan := hs.sound.span h hh
  unfold Layout.home
  cases hkind : g.kind h with
  | held =>
    have hzero := hnone h hh hkind
    omega
  | free =>
    have hflag := hs.free h hh hkind
    simp only [Option.some.injEq, reduceCtorEq, false_iff]
    omega
  | chunk =>
    have hflag := (hs.chunk h hh hkind).1
    simp only [reduceCtorEq, false_iff]
    omega
  | page t =>
    have hflag := hs.page h t hh hkind
    simp only [Option.some.injEq, ListId.bin.injEq]
    omega

end Arena

namespace ArenaWorld

open Arena

variable {w : ArenaWorld} {a : Arena}

/-- Careful runs from `Init` keep the invariant. -/
lemma represents_of_run {mem : Memory} {commit : Nat → Bool} (ha : init mem commit = some a)
    {as : List ArenaStep} (hcareful : Along ArenaWorld.step Careful ⟨a, []⟩ as)
    (hrun : exec ArenaWorld.step ⟨a, []⟩ as = some w) : w.Represents := by
  obtain ⟨g, hg⟩ := unused_init ha
  have hstart : (⟨a, []⟩ : ArenaWorld).Represents := ⟨g, fun _ => ⟨[], [], 0⟩, hg.holds _⟩
  exact exec_invariant (fun _ _ _ hw hgood hstep => (hw.step hgood hstep).1) hstart hcareful hrun

end ArenaWorld

end CoplusLean
