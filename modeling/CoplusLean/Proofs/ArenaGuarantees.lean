import CoplusLean.Proofs.ArenaFailure
import CoplusLean.Proofs.ArenaFilling

/-!
# What the arena guarantees

In a run whose steps avoid the defects live blocks stay apart and in their spans, no call
stores to them, and every bin is linked. Without that condition six objects of 4080 bytes
and one `Free` are enough for a store to a live block, and three such pages and one `Free`
for a broken bin; a request whose page count does not fit into `SpanClass` is served a span
of one page.
-/

namespace CoplusLean.ArenaWorld

open Lib Arena

/-- The memory of a fresh reservation. -/
def freshMemory : Memory := ⟨fun _ => 0#8, fun _ => false⟩

lemma fits_largest : ∀ i < 6, Fits 39 i := by decide

/-- Six objects fill a page of the last slot. -/
lemma fill_largest {w : ArenaWorld} {pages : List Int} {room : Int}
    (hw : FullPages w 39 6 pages (room + 60)) (hspace : 0 ≤ room) :
    ∃ w' h, exec ArenaWorld.step w (List.replicate 6 (.malloc 4080 true)) = some w' ∧
      Along ArenaWorld.step Careful w (List.replicate 6 (.malloc 4080 true)) ∧
      FullPages w' 39 6 (h :: pages) room :=
  hw.fill (by decide) (by decide) binSlot_largest hspace (by decide) fits_largest (by decide)

/-- Twelve objects of 4080 bytes fill two pages, two objects of the page `h` are freed, and one of
them is served again. -/
def reusingRun (h : Int) : List ArenaStep :=
  List.replicate 6 (.malloc 4080 true) ++ (List.replicate 6 (.malloc 4080 true) ++
    [.free (ptrOf h + 16), .free (ptrOf h + 4096), .malloc 4080 true])

/-- A world that such a run leads to: the object served again and the one behind it are live. -/
structure Reused (a : Arena) (h : Int) (w : ArenaWorld) : Prop where
  made : init freshMemory (fun _ => true) = some a
  run : exec ArenaWorld.step ⟨a, []⟩ (reusingRun h) = some w
  careful : Along ArenaWorld.step Careful ⟨a, []⟩ (reusingRun h)
  again : ptrOf h + 4096 ∈ w.live
  other : ptrOf h + 8176 ∈ w.live

lemma exists_reused : ∃ a h w, Reused a h w := by
  obtain ⟨a, ha, hheap⟩ := init_of_room freshMemory
  have hstart : FullPages ⟨a, []⟩ 39 6 [] (60 + 60) :=
    fullPages_init ha (by decide) (by decide) (by omega)
  obtain ⟨w₁, y, hrun₁, hcareful₁, hfull₁⟩ := fill_largest hstart (by decide)
  obtain ⟨w₂, h, hrun₂, hcareful₂, ⟨g, obj, hholds₂, hlist, hfull⟩, -⟩ :=
    fill_largest (show FullPages w₁ 39 6 [y] (0 + 60) from hfull₁) (by decide)
  have hobj := hfull h List.mem_cons_self
  have hhead : (g.list (.bin 39)).head? = some h := by rw [hlist]; rfl
  obtain ⟨w₃, hstep₃, hcareful₃, hholds₃⟩ :=
    step_free_first (o := 16) hholds₂ (by decide) (by decide) hhead (by rw [hobj]; decide)
  rw [hobj] at hholds₃
  obtain ⟨w₄, hstep₄, hcareful₄, hholds₄⟩ :=
    step_free_first (o := 4096) hholds₃ (by decide) (by decide) hhead
      (by rw [Function.update_self]; decide)
  rw [Function.update_self, Function.update_idem] at hholds₄
  have hchain : (Function.update obj h (((filled 39 6).release 16).release 4096) h).chain 39 =
      [4096, 16] := by
    rw [Function.update_self]
    decide
  obtain ⟨w₅, hstep₅, hcareful₅, hlive⟩ :=
    step_malloc_again hholds₄ (by decide) (by decide) binSlot_largest hhead hchain
  refine ⟨a, h, w₅, ha, ?_, ?_, ?_, ?_⟩
  · rw [reusingRun, exec_append, hrun₁, Option.bind_some, exec_append, hrun₂, Option.bind_some,
      exec_cons, hstep₃, Option.bind_some, exec_cons, hstep₄, Option.bind_some, exec_cons, hstep₅,
      Option.bind_some, exec_nil]
  · exact along_append hrun₁ hcareful₁ (along_append hrun₂ hcareful₂ (along_cons hstep₃ hcareful₃
      (along_cons hstep₄ hcareful₄ (along_cons hstep₅ hcareful₅ trivial))))
  · rw [hlive]
    exact List.mem_cons_self
  · rw [hlive]
    refine List.mem_cons_of_mem _ ((hholds₄.mem _).2 ⟨h, 8176, ?_, rfl⟩)
    have huse := hholds₄.spans.bin_use (s := 39) (by decide) (by decide) (List.mem_of_head? hhead)
    rw [blocks, huse]
    simp only [Function.update_self]
    decide

/-- In every run from `Init` whose steps avoid the defects, live blocks are apart and lie in
their own spans behind the headers, and no careful call stores to a block that is live
before and after it. -/
theorem live_blocks_apart (mem : Memory) (commit : Nat → Bool) (a : Arena)
    (ha : init mem commit = some a) (as : List ArenaStep)
    (hcareful : Along ArenaWorld.step Careful ⟨a, []⟩ as) (w : ArenaWorld)
    (hrun : exec ArenaWorld.step ⟨a, []⟩ as = some w) :
    w.live.Pairwise w.arena.Apart ∧ (∀ ptr ∈ w.live, w.arena.InSpan ptr) ∧
      ∀ act w', Careful w act → w.step act = some w' → LeavesBlocks w act w' := by
  have hw := represents_of_run ha hcareful hrun
  obtain ⟨g, obj, hholds⟩ := hw
  refine ⟨?_, fun ptr hptr => hholds.inSpan hptr, fun act w' hact hstep => ?_⟩
  · exact hholds.nodup.imp_of_mem fun hp hq hne => hholds.apart hp hq hne
  · exact (Represents.step ⟨g, obj, hholds⟩ hact hstep).2

theorem live_blocks_apart_reused :
    ∃ a h w, init freshMemory (fun _ => true) = some a ∧
      exec ArenaWorld.step ⟨a, []⟩ (reusingRun h) = some w ∧
        ptrOf h + 4096 ∈ w.live ∧ ptrOf h + 8176 ∈ w.live ∧
        w.live.Pairwise w.arena.Apart ∧ (∀ ptr ∈ w.live, w.arena.InSpan ptr) ∧
          ∀ act w', Careful w act → w.step act = some w' → LeavesBlocks w act w' := by
  obtain ⟨a, h, w, hw⟩ := exists_reused
  exact ⟨a, h, w, hw.made, hw.run, hw.again, hw.other, live_blocks_apart freshMemory
    (fun _ => true) a hw.made (reusingRun h) hw.careful w hw.run⟩

/-- A full page, its first object freed, and one more request: the call stores to the second
object. -/
lemma overwrites {w : ArenaWorld} {h room : Int} (hw : FullPages w 39 6 [h] room) :
    ∃ w₁ w₂, w.step (.free (ptrOf h + 16)) = some w₁ ∧
      w₁.step (.malloc 4080 true) = some w₂ ∧ ¬LeavesBlocks w₁ (.malloc 4080 true) w₂ := by
  obtain ⟨⟨g, obj, hholds, hlist, hfull⟩, -⟩ := hw
  have hobj := hfull h List.mem_cons_self
  have hhead : (g.list (.bin 39)).head? = some h := by rw [hlist]; rfl
  have huse := hholds.spans.bin_use (s := 39) (by decide) (by decide) (List.mem_of_head? hhead)
  obtain ⟨hh, hkind, -⟩ := hholds.spans.use_page huse
  have hused : ∀ o ∈ (filled 39 6).used, ptrOf h + o ∈ w.live := by
    intro o ho
    rw [hholds.mem]
    exact ⟨h, o, by simpa [blocks, huse, hobj] using ho, rfl⟩
  have hfirst : (16 : Int) ∈ (filled 39 6).used := by decide
  have hsecond : (4096 : Int) ∈ (filled 39 6).used := by decide
  obtain ⟨w₁, hstep₁, harena₁, hlive₁⟩ := step_free (hused 16 hfirst)
  have hret := hholds.unmark.free_first huse hhead (by rw [hobj]; exact hfirst)
  rw [hobj, ← harena₁] at hret
  obtain ⟨hfree, hzero⟩ := hret.only (by decide)
  -- the second request looks at the same page
  have hi : (ListId.bin 39).Valid := ⟨by decide, by decide⟩
  have hroot : w₁.arena.get (.bin 39) = h := by
    rw [hret.spans.lists.root_eq _ hi, hlist]
    rfl
  have hpos := (hholds.spans.sound.bounds hh).1
  have hcandidate : w₁.arena.unmark.candidate 39 = h := by
    unfold candidate
    simp only [get_unmark, hroot, hfree]
    rw [if_neg (by omega)]
  have hsmall : w₁.arena.unmark.mallocSmall 39 true = w₁.arena.unmark.takeObject h 39 := by
    unfold Arena.mallocSmall
    simp only [hcandidate, get_unmark, hfree]
    rw [if_pos (by omega)]
  obtain ⟨w₂, hstep₂, harena₂, hlive₂⟩ :=
    step_malloc (w := w₁) (by decide) (by decide) binSlot_largest true
  have hstored := takeObject_stores (a := w₁.arena.unmark) (s := 39) hfree (by decide) hzero
    (by decide)
  rw [hsmall] at harena₂ hlive₂
  rw [hstored.1] at hlive₂
  have hlength : kBinSlotTemplate 39 = 4080 := by decide
  have hmem₁ : ptrOf h + 4096 ∈ w₁.live := by
    rw [hlive₁, hholds.nodup.mem_erase_iff]
    exact ⟨by omega, hused 4096 hsecond⟩
  have hcap := hret.spans.capacity_page hh hkind (show (0 : Int) ≤ 4096 by decide) (by decide)
  refine ⟨w₁, w₂, hstep₁, hstep₂, fun hleaves => ?_⟩
  have huntouched := hleaves (ptrOf h + 4096) hmem₁
    (by rw [hlive₂]; exact List.mem_cons_of_mem _ hmem₁) (ptrOf h + 4096) (le_refl _) (by omega)
  have htouched := hstored.2
  rw [← harena₂, hlength, add_assoc] at htouched
  rw [show (16 : Int) + 4080 = 4096 from rfl] at htouched
  rw [htouched] at huntouched
  cases huntouched

/-- Six objects of 4080 bytes, the first freed, and a seventh: the last call stores to the
second object. -/
theorem malloc_overwrites_live_block :
    ¬∀ (mem : Memory) (commit : Nat → Bool) (a : Arena), init mem commit = some a →
      ∀ (as : List ArenaStep) (w : ArenaWorld), exec ArenaWorld.step ⟨a, []⟩ as = some w →
        w.live.Pairwise w.arena.Apart ∧ (∀ ptr ∈ w.live, w.arena.InSpan ptr) ∧
          ∀ act w', w.step act = some w' → LeavesBlocks w act w' := by
  intro hclaim
  obtain ⟨a, ha, hheap⟩ := init_of_room freshMemory
  have hstart : FullPages ⟨a, []⟩ 39 6 [] (0 + 60) :=
    fullPages_init ha (by decide) (by decide) (by omega)
  obtain ⟨w, h, hrun, -, hfull⟩ := fill_largest hstart (le_refl 0)
  obtain ⟨w₁, w₂, hstep₁, hstep₂, hbad⟩ := overwrites hfull
  have hrun₁ : exec ArenaWorld.step ⟨a, []⟩
      (List.replicate 6 (.malloc 4080 true) ++ [.free (ptrOf h + 16)]) = some w₁ := by
    rw [exec_append, hrun, Option.bind_some, exec_cons, hstep₁, Option.bind_some, exec_nil]
  exact hbad ((hclaim freshMemory _ a ha _ w₁ hrun₁).2.2 _ w₂ hstep₂)

/-- In every run from `Init` whose steps avoid the defects, every bin is a doubly linked list
of exactly its pages. -/
theorem bins_linked (mem : Memory) (commit : Nat → Bool) (a : Arena)
    (ha : init mem commit = some a) (as : List ArenaStep)
    (hcareful : Along ArenaWorld.step Careful ⟨a, []⟩ as) (w : ArenaWorld)
    (hrun : exec ArenaWorld.step ⟨a, []⟩ as = some w) (slot : Int) (h1 : 1 ≤ slot)
    (h39 : slot ≤ 39) : w.arena.BinLinked slot := by
  obtain ⟨g, obj, hholds⟩ := represents_of_run ha hcareful hrun
  exact hholds.spans.binLinked hholds.settled h1 h39

theorem bins_linked_reused :
    ∃ a h w, init freshMemory (fun _ => true) = some a ∧
      exec ArenaWorld.step ⟨a, []⟩ (reusingRun h) = some w ∧ w.arena.BinLinked 39 := by
  obtain ⟨a, h, w, hw⟩ := exists_reused
  exact ⟨a, h, w, hw.made, hw.run, bins_linked freshMemory (fun _ => true) a hw.made
    (reusingRun h) hw.careful w hw.run 39 (by decide) (by decide)⟩

/-- Three full pages, and an object of the second is freed: the bin is no longer linked. -/
lemma unlinks {w : ArenaWorld} {x h y room : Int} (hw : FullPages w 39 6 [x, h, y] room) :
    ∃ w', w.step (.free (ptrOf h + 16)) = some w' ∧ ¬w'.arena.BinLinked 39 := by
  obtain ⟨⟨g, obj, hholds, hlist, hfull⟩, -⟩ := hw
  have hobj := hfull h (by simp)
  have hobjx := hfull x (by simp)
  have huse := hholds.spans.bin_use (s := 39) (h := h) (by decide) (by decide) (by simp [hlist])
  have husex := hholds.spans.bin_use (s := 39) (h := x) (by decide) (by decide) (by simp [hlist])
  obtain ⟨hh, hkind, -⟩ := hholds.spans.use_page huse
  have hi : (ListId.bin 39).Valid := ⟨by decide, by decide⟩
  have hxh : x ≠ h := by
    have hnodup := hholds.spans.lists.nodup _ hi
    rw [hlist] at hnodup
    rintro rfl
    simp at hnodup
  have hfirst : (16 : Int) ∈ (obj h).used := by
    rw [hobj]
    decide
  have hptr : ptrOf h + 16 ∈ w.live := by
    rw [hholds.mem]
    exact ⟨h, 16, by simpa [blocks, huse] using hfirst, rfl⟩
  have hcount : w.arena.unmark.get (.nUsed h) = 6 := by
    rw [get_nUsed, (hholds.unmark.pages h _ 39 huse).nUsed, hobj]
    rfl
  have hkeep : (w.arena.unmark.set (.nUsed h) (w.arena.unmark.get (.nUsed h) - 1)).KeepPage h := by
    left
    rw [get_set_field, if_pos ⟨rfl, rfl⟩, hcount, Field.wrap_nUsed]
    decide
  have hret := hholds.unmark.spans.releaseObject hh hkind (hholds.unmark.pages h _ 39 huse) hfirst
  have hpages := hholds.unmark.pages.of_guarded hholds.unmark.spans huse hret.agree hret.page
  obtain ⟨w', hstep, harena, -⟩ := step_free hptr
  refine ⟨w', hstep, ?_⟩
  rw [harena, hholds.unmark.free_eq huse hfirst hkeep]
  generalize (w.arena.unmark.set (.nUsed h) (w.arena.unmark.get (.nUsed h) - 1)).releaseObject h
    (ptrOf h + 16) = b at *
  apply hret.spans.moveToFront_middle (by decide) (by decide) hlist
  have hcountx := (hpages x _ 39 husex).nUsed
  rw [Function.update_of_ne hxh, hobjx] at hcountx
  rw [get_nUsed, get_nUsed, hcountx, hret.page.nUsed, hobj]
  decide

/-- Eighteen objects of 4080 bytes fill three pages, and the first object of the second page is
freed. -/
theorem bin_unlinked_by_free :
    ¬∀ (mem : Memory) (commit : Nat → Bool) (a : Arena), init mem commit = some a →
      ∀ (as : List ArenaStep) (w : ArenaWorld), exec ArenaWorld.step ⟨a, []⟩ as = some w →
        ∀ slot : Int, 1 ≤ slot → slot ≤ 39 → w.arena.BinLinked slot := by
  intro hclaim
  obtain ⟨a, ha, hheap⟩ := init_of_room freshMemory
  have hstart : FullPages ⟨a, []⟩ 39 6 [] (120 + 60) :=
    fullPages_init ha (by decide) (by decide) (by omega)
  obtain ⟨w₁, y, hrun₁, -, hfull₁⟩ := fill_largest hstart (by decide)
  obtain ⟨w₂, h, hrun₂, -, hfull₂⟩ := fill_largest (show FullPages w₁ 39 6 [y] (60 + 60) from hfull₁) (by decide)
  obtain ⟨w₃, x, hrun₃, -, hfull₃⟩ := fill_largest (show FullPages w₂ 39 6 [h, y] (0 + 60) from hfull₂) (by decide)
  obtain ⟨w₄, hstep, hbad⟩ := unlinks hfull₃
  refine hbad (hclaim freshMemory _ a ha (List.replicate 6 (.malloc 4080 true) ++
    (List.replicate 6 (.malloc 4080 true) ++ (List.replicate 6 (.malloc 4080 true) ++
      [.free (ptrOf h + 16)]))) w₄ ?_ 39 (by decide) (by decide))
  rw [exec_append, hrun₁, Option.bind_some, exec_append, hrun₂, Option.bind_some, exec_append,
    hrun₃, Option.bind_some, exec_cons, hstep, Option.bind_some, exec_nil]

/-! ## Requests of `allocator<T>` -/

/-- The call throws or serves a block of at least this capacity. -/
def ServesAtLeast (size : Nat) (r : Outcome × Arena) : Prop :=
  r.1 = .badAlloc ∨ ∃ ptr, r.1 = .block ptr ∧ size ≤ r.2.capacity ptr

/-- A request that is met or refused before it comes to a defect: one of at most the longest
span, which must not be split, or one for which nothing is left in the lists that its slot leads
to. -/
def RequestOk (a : Arena) (size : Int) (commit : Bool) : Prop :=
  size ≤ 245748 ∧ a.LongestFree size ∨
    kMaxObjectAvailable < size ∧ a.Exhausted (int16 (spanSlotOf size)) commit

section allocate

variable {a : Arena} {live : List Int} {g : Layout} {obj : Int → PageObjects} {size n : Nat}

/-- No request within `max_size()` is too large for the parameter of `Malloc`. -/
lemma allocate_eq_malloc (a : Arena) (hsize : 1 ≤ size) (hmax : n ≤ maxSize size) (commit : Bool) :
    a.allocate size n commit = a.malloc (n * size : Nat) commit := by
  have hbytes : sizeT kTotalSizeByte = 738197504 := by decide
  have hle : n * size ≤ 738197504 := by
    unfold maxSize at hmax
    rw [hbytes] at hmax
    exact (Nat.le_div_iff_mul_le hsize).1 hmax
  have harg : int32 (sizeT ((n : Int) * size)) = (n * size : Nat) := by
    rw [← Nat.cast_mul, sizeT_of_nonneg (by omega) (by omega), Int.toNat_natCast,
      int32_of_lt (by omega) (by omega)]
  unfold allocate
  rw [harg]

lemma malloc_eq_big (a : Arena) (hbig : kMaxObjectAvailable < (size : Int)) (commit : Bool) :
    a.malloc size commit = a.mallocBig (int16 (spanSlotOf size)) commit := by
  have hlimit : kMaxObjectAvailable = 4080 := rfl
  unfold malloc
  rw [if_neg (by omega), if_pos hbig]

lemma throws_of_exhausted (hw : Holds a live g obj) {commit : Bool}
    (hbig : kMaxObjectAvailable < (size : Int))
    (hexhausted : a.Exhausted (int16 (spanSlotOf size)) commit) :
    (a.malloc size commit).1 = .badAlloc := by
  rw [malloc_eq_big a hbig]
  exact (mallocBig_throws_iff hw.spans.reserved).2 hexhausted

/-- A request that is met or refused before the defects. -/
lemma servesAtLeast_of_requestOk (hw : Holds a live g obj) (hpos : 1 ≤ size) {commit : Bool}
    (hok : RequestOk a size commit) : ServesAtLeast size (a.malloc size commit) := by
  rcases hok with ⟨hmax, hlong⟩ | ⟨hbig, hexhausted⟩
  · rcases hw.malloc_capacity (by omega) hmax hlong commit with hthrow | ⟨ptr, hptr, hcap⟩
    · exact .inl hthrow
    · refine .inr ⟨ptr, hptr, ?_⟩
      rw [hcap]
      exact le_servedCapacity (by omega) hmax
  · exact .inl (throws_of_exhausted hw hbig hexhausted)

/-- A span whose slot is one of the table is long enough for no other request. -/
lemma requestOk_of_servesAtLeast (hw : Holds a live g obj) {commit : Bool}
    (hslot : a.SlotOk (int16 (spanSlotOf size)))
    (hserves : ServesAtLeast size (a.malloc size commit)) : RequestOk a size commit := by
  have hlimit : kMaxObjectAvailable = 4080 := rfl
  by_cases hmax : (size : Int) ≤ 245748
  · refine .inl ⟨hmax, fun hlongest => hslot.2.2 ?_⟩
    rw [hlongest]
    decide
  · have hbig : kMaxObjectAvailable < (size : Int) := by omega
    refine .inr ⟨hbig, (mallocBig_throws_iff hw.spans.reserved).1 ?_⟩
    rw [malloc_eq_big a hbig] at hserves
    rcases hserves with hthrow | ⟨ptr, hptr, hcap⟩
    · exact hthrow
    · rcases (hw.mallocBig hslot commit).2 with hthrow | ⟨ptr', hptr', hcap'⟩
      · exact hthrow
      · rw [hptr, Outcome.block.injEq] at hptr'
        rw [hptr', hcap'] at hcap
        have hpages := hslot.2.1
        omega

end allocate

/-- In the states of such runs `allocate` throws or serves a block that is large enough when the
request is met or refused before the defects; among the requests whose slot is one of the table
and is not split, it does so for no others. -/
theorem allocate_large_enough (mem : Memory) (commit : Nat → Bool) (a : Arena)
    (ha : init mem commit = some a) (as : List ArenaStep)
    (hcareful : Along ArenaWorld.step Careful ⟨a, []⟩ as) (w : ArenaWorld)
    (hrun : exec ArenaWorld.step ⟨a, []⟩ as = some w) (size n : Nat) (hsize : 1 ≤ size)
    (hn : 1 ≤ n) (hmax : n ≤ maxSize size) (granted : Bool) :
    (RequestOk w.arena (n * size : Nat) granted →
      ServesAtLeast (n * size) (w.arena.allocate size n granted)) ∧
    (w.arena.SlotOk (int16 (spanSlotOf (n * size : Nat))) →
      ServesAtLeast (n * size) (w.arena.allocate size n granted) →
        RequestOk w.arena (n * size : Nat) granted) := by
  obtain ⟨g, obj, hholds⟩ := represents_of_run ha hcareful hrun
  have hpos : 1 ≤ n * size := Nat.mul_pos hn hsize
  rw [allocate_eq_malloc w.arena hsize hmax]
  exact ⟨servesAtLeast_of_requestOk hholds hpos, requestOk_of_servesAtLeast hholds⟩

theorem allocate_large_enough_reused :
    ∃ a h w, init freshMemory (fun _ => true) = some a ∧
      exec ArenaWorld.step ⟨a, []⟩ (reusingRun h) = some w ∧
        ServesAtLeast (10 * 8) (w.arena.allocate 8 10 true) ∧
        (w.arena.SlotOk (int16 (spanSlotOf (10 * 8 : Nat))) →
          ServesAtLeast (10 * 8) (w.arena.allocate 8 10 true) →
            RequestOk w.arena (10 * 8 : Nat) true) := by
  obtain ⟨a, h, w, hw⟩ := exists_reused
  obtain ⟨hserves, honly⟩ := allocate_large_enough freshMemory (fun _ => true) a hw.made
    (reusingRun h) hw.careful w hw.run 8 10 (by decide) (by decide) (by decide) true
  exact ⟨a, h, w, hw.made, hw.run, hserves (.inl ⟨by decide, fun h => absurd h (by decide)⟩), honly⟩

/-- A request for 268435445 characters is served a span of one page. -/
theorem allocate_serves_one_page :
    ¬∀ (mem : Memory) (commit : Nat → Bool) (a : Arena), init mem commit = some a →
      ∀ (as : List ArenaStep) (w : ArenaWorld), exec ArenaWorld.step ⟨a, []⟩ as = some w →
        ∀ (size n : Nat), 1 ≤ size → 1 ≤ n → n ≤ maxSize size → ∀ granted : Bool,
          ServesAtLeast (n * size) (w.arena.allocate size n granted) := by
  intro hclaim
  obtain ⟨a, ha, hheap⟩ := init_of_room freshMemory
  obtain ⟨g, hg⟩ := unused_init ha
  have hholds := hg.holds fun _ => ⟨[], [], 0⟩
  have hslot : int16 (spanSlotOf (int32 (sizeT (((268435445 : Nat) : Int) * (1 : Nat))))) = 1 := by
    decide
  have hbig : int32 (sizeT (((268435445 : Nat) : Int) * (1 : Nat))) > kMaxObjectAvailable := by
    decide
  have hcall : a.allocate 1 268435445 true = a.mallocBig 1 true := by
    unfold allocate malloc
    rw [if_neg (by decide), if_pos hbig, hslot]
  have hserves := hholds.mallocBig (s := 1) ⟨by decide, by decide, fun h => absurd h (by decide)⟩ true
  have hbad := hclaim freshMemory _ a ha [] ⟨a, []⟩ rfl 1 268435445 (by decide) (by decide)
    (by decide) true
  rw [hcall] at hbad
  have hnothrow := mallocBig_of_room (a := a) hg.spans.reserved (by omega) 1
  rcases hserves.2 with hthrow | ⟨ptr, hblock, hcap⟩
  · exact hnothrow hthrow
  · rcases hbad with hthrow | ⟨ptr', hblock', hcap'⟩
    · exact hnothrow hthrow
    · rw [hblock, Outcome.block.injEq] at hblock'
      rw [← hblock', hcap] at hcap'
      exact absurd hcap' (by decide)

end CoplusLean.ArenaWorld
