import CoplusLean.Proofs.ArenaObjects

/-!
# `Free` of an object whose page is kept

The object goes to the front of the free ones of its page, and the page goes to the front of
its bin when it has fewer objects in use than the first page. The stores for the latter are
right for a bin of two pages only.
-/

namespace CoplusLean.Arena

open Lib

variable {a : Arena} {g : Layout} {h s o : Int} {p : PageObjects}

/-- The object `o` of the page `h` is back among the free ones. -/
structure Returned (a : Arena) (g : Layout) (h s : Int) (p : PageObjects) (o : Int)
    (b : Arena) : Prop where
  spans : Spans b g 0
  page : PageOk b.mem h s (p.release o)
  agree : Memory.Agree (Guarded g h s (p.used.erase o)) a.mem b.mem

/-- The link to the free objects was stored in the object `o`. -/
structure LinkStored (a : Arena) (g : Layout) (h s : Int) (p : PageObjects) (o : Int)
    (b : Arena) : Prop where
  spans : Spans b g 0
  link : b.mem.load16 (ptrOf h + o) = (p.chain s).headD 0
  chained : Chained b.mem (ptrOf h) (p.chain s)
  nUsed : b.get (.nUsed h) = a.get (.nUsed h)
  agree : Memory.Agree (Guarded g h s (p.used.erase o)) a.mem b.mem

lemma Spans.linkStored (hs : Spans a g 0) (hh : g.len h ≠ 0) (hlen : g.len h = binSpanSize s)
    {m : Memory} (hp : PageOk m h s p) (h1 : 1 ≤ s) (h39 : s ≤ 39) (ho : o ∈ p.used)
    (hchained : Chained a.mem (ptrOf h) (p.chain s)) {b : Arena}
    (hb : b = { a with mem := a.mem.store16 (ptrOf h + o) ((p.chain s).headD 0) }) :
    LinkStored a g h s p o b := by
  have ht := kBinSlotTemplate_bounds h1 h39
  have hbo := hp.used_bounds h1 h39 ho
  have hend : ptrOf (h + g.len h) = ptrOf h + g.len h * 4096 := by
    simp only [ptrOf_eq]
    omega
  have hmem : b.mem = a.mem.write (ptrOf h + o) 2 (Memory.byteOf ((p.chain s).headD 0)) := by
    rw [hb]
    rfl
  constructor
  · apply hs.write_page hh hmem (by rw [hb]) (by rw [hb])
    · omega
    · omega
  · have hload := Memory.load16_store16 a.mem (ptrOf h + o) ((p.chain s).headD 0)
    have hrange : int16 ((p.chain s).headD 0) = (p.chain s).headD 0 := by
      apply int16_headD
      intro x hx
      have := hp.chain_bounds h1 h39 hx
      exact ⟨this.1, this.2.2⟩
    rw [hrange] at hload
    rw [hb]
    exact hload
  · apply hchained.congr
    intro x hx y hy0 hy1
    have hapart := hp.apart h1 h39 hx ho
    rw [hmem]
    exact Memory.byte_write_of_outside _ _ (by omega)
  · rw [get_nUsed, get_nUsed, hmem, Memory.load16_write _ _ (by omega)]
  · rw [hmem]
    apply Memory.agree_write
    rintro x (hx | hx | ⟨u, hu, hx0, hx1⟩)
    · omega
    · omega
    · have hne : u ≠ o := ((List.nodup_append.1 hp.nodup).1.mem_erase_iff.1 hu).1
      have hapart := hp.used_apart h1 h39 (List.mem_of_mem_erase hu) ho hne
      omega

lemma Spans.releaseObject (hs : Spans a g 0) (hh : g.len h ≠ 0) (hpage : g.kind h = .page s)
    (hp : PageOk a.mem h s p) (ho : o ∈ p.used) :
    Returned a g h s p o
      ((a.set (.nUsed h) (a.get (.nUsed h) - 1)).releaseObject h (ptrOf h + o)) := by
  obtain ⟨h1, h39, hlen⟩ := hs.sound.page h s hh hpage
  have hb := hp.used_bounds h1 h39 ho
  have hlength := hp.length_used h1 h39
  have hpos := List.length_pos_of_mem ho
  have ht := kBinSlotTemplate_bounds h1 h39
  have hsize := binSpanSize_bounds s
  have hoff : ptrOf h + o - ptrOf h = o := by omega
  have hrange : int16 o = o := int16_of_lt (by omega) (by omega)
  have hused : ∀ u ∈ p.used.erase o, 16 ≤ u := fun u hu =>
    (hp.used_bounds h1 h39 (List.mem_of_mem_erase hu)).1
  have hlow : ∀ x ∈ p.chain s, 16 ≤ x := fun x hx => (hp.chain_bounds h1 h39 hx).1
  obtain ⟨hs₁, hbyte₁, hagree₁⟩ := hs.set_header (s := s) hh (.inr rfl) (a.get (.nUsed h) - 1)
  have hfree₁ : (a.set (.nUsed h) (a.get (.nUsed h) - 1)).get (.oFree h) = (p.chain s).headD 0 := by
    rw [get_set_field, if_neg (by simp), get_oFree, hp.oFree]
  have hcount₁ : (a.set (.nUsed h) (a.get (.nUsed h) - 1)).get (.nUsed h) = p.used.length - 1 := by
    rw [get_set_field, if_pos ⟨rfl, rfl⟩, Field.wrap_nUsed, get_nUsed, hp.nUsed]
    exact int16_of_lt (by omega) (by omega)
  -- the link is stored in the object, and `oFree` leads to the object
  have hstored := hs₁.linkStored hh hlen hp h1 h39 ho (hp.chained.of_header hbyte₁ hlow) rfl
  obtain ⟨hs₃, hbyte₃, hagree₃⟩ := hstored.spans.set_header (s := s) hh (.inl rfl) o
  unfold Arena.releaseObject
  dsimp only
  rw [hfree₁, hoff]
  refine ⟨hs₃, ?_, ((hagree₁ _ hused).trans hstored.agree).trans (hagree₃ _ hused)⟩
  apply hp.release ho
  · rw [← get_nUsed, get_set_field, if_neg (by simp), hstored.nUsed, hcount₁]
  · rw [← get_oFree, get_set_field, if_pos ⟨rfl, rfl⟩, Field.wrap_oFree, hrange]
  · rw [load16_of_header hbyte₃ hb.1, hstored.link]
  · exact hstored.chained.of_header hbyte₃ hlow

/-! ## The move to the front -/

/-- Memories with the same bytes cannot be told apart. -/
lemma get_of_bytes {b : Arena} (hbyte : ∀ x, b.mem.byte x = a.mem.byte x) :
    (∀ c, b.get c = a.get c) ∧ ∀ x, b.isHead x = a.isHead x := by
  constructor
  · intro c
    unfold get
    split
    · exact Memory.load16_congr fun x _ _ => hbyte x
    · exact Memory.load32_congr fun x _ _ => hbyte x
  · intro x
    exact Memory.bit_congr (hbyte _)

/-- A store of `0` to a header field that holds `0`. -/
lemma byte_set_hPri_zero (hzero : a.get (.hPri h) = 0) (x : Int) :
    (a.set (.hPri h) 0).mem.byte x = a.mem.byte x := by
  have hload : a.mem.load32 (ptrOf h + 4) = 0 := by
    simpa [get, Cell.short, Cell.addr, Field.short, Field.offset] using hzero
  have hmem : (a.set (.hPri h) 0).mem = a.mem.store32 (ptrOf h + 4) 0 := by
    simp [set, Cell.short, Cell.addr, Field.short, Field.offset]
  rw [hmem]
  exact Memory.byte_store32_zero hload x

/-- The bin `s` holds `h` and then `first`. -/
def Layout.swap (g : Layout) (s h first : Int) : Layout :=
  { g with list := Function.update g.list (.bin s) [h, first] }

/-- A list of two pages, read off their links. -/
lemma Spans.list_pair (hs : Spans a g 0) {i : ListId} (hi : i.Valid) {first : Int}
    (hroot : a.get (.table i) = first) (hfirst : first ≠ 0) (hnext : a.get (.hNext first) = h)
    (hh : h ≠ 0) (hlast : a.get (.hNext h) = 0) : g.list i = [first, h] := by
  have hlinked := hs.lists.linked i hi
  have hhead := hs.lists.root_eq i hi
  have hproper := hs.lists.proper i hi
  simp only [hroot] at hhead
  cases hl : g.list i with
  | nil =>
    rw [hl] at hhead
    exact absurd hhead hfirst
  | cons x t =>
    rw [hl] at hhead hlinked hproper
    obtain rfl : first = x := hhead
    obtain ⟨-, hnx, hlinked⟩ := hlinked
    replace hnx : h = t.headD 0 := hnext.symm.trans hnx
    cases t with
    | nil => exact absurd hnx hh
    | cons y t =>
      obtain rfl : h = y := hnx
      obtain ⟨-, hny, -⟩ := hlinked
      replace hny : 0 = t.headD 0 := hlast.symm.trans hny
      cases t with
      | nil => rfl
      | cons z t =>
        obtain rfl : 0 = z := hny
        simp at hproper

/-- What the stores of the move amount to in a bin of two pages. -/
structure Swapped (a b : Arena) (s h first : Int) : Prop where
  heap : b.kHeapAllocPage = a.kHeapAllocPage
  reserved : b.kMemoryReservedStart = a.kMemoryReservedStart
  heads : ∀ x, 0 ≤ x → x ≤ 180224 → b.isHead x = a.isHead x
  root : b.get (.bin s) = h
  roots : ∀ j, j.Valid → j ≠ .bin s → b.get (.table j) = a.get (.table j)
  second : b.get (.hPri first) = h ∧ b.get (.hNext first) = 0
  moved : b.get (.hPri h) = 0 ∧ b.get (.hNext h) = first
  others : ∀ f x, 1 ≤ x → (x ≠ h ∧ x ≠ first ∨ f = .flag) → b.get (.field f x) = a.get (.field f x)

lemma Swapped.spans {b : Arena} {first : Int} (hs : Spans a g 0) (hi : (ListId.bin s).Valid)
    (hlist : g.list (.bin s) = [first, h]) (hw : Swapped a b s h first) :
    Spans b (g.swap s h first) 0 := by
  have hmem : ∀ j x, j.Valid → (x ∈ (g.swap s h first).list j ↔ x ∈ g.list j) := by
    intro j x hj
    by_cases hjs : j = .bin s
    · subst hjs
      simp [Layout.swap, hlist, or_comm]
    · simp [Layout.swap, hjs]
  have hother : ∀ f x, g.len x ≠ 0 → x ∉ g.list (.bin s) ∨ f = .flag →
      b.get (.field f x) = a.get (.field f x) := by
    intro f x hx hor
    apply hw.others f x (hs.sound.bounds hx).1
    rcases hor with hnot | hf
    · rw [hlist] at hnot
      simp only [List.mem_cons, List.not_mem_nil, or_false, not_or] at hnot
      exact .inl ⟨hnot.2, hnot.1⟩
    · exact .inr hf
  have hnodup := hs.lists.nodup _ hi
  have hproper := hs.lists.proper _ hi
  rw [hlist] at hnodup hproper
  refine ⟨?_, hw.heap.trans hs.heap, by rw [hw.reserved, hw.heap, hs.reserved], ?_, ?_, ?_, ?_, ?_⟩
  · refine hs.sound.relabel hs.sound.page fun j x hj => ?_
    exact (hmem j x hj).trans (hs.sound.mem j x hj)
  · intro x h0 h1
    rw [hw.heads x h0 h1]
    exact hs.heads x h0 h1
  · refine hs.lists.replace hw.root (fun j hj hjs => hw.roots j hj hjs) ?_ ?_ ?_ ?_ ?_
    · exact ⟨hw.moved.1, hw.moved.2, hw.second.1, hw.second.2, trivial⟩
    · simpa [eq_comm, and_comm] using hnodup
    · simpa [and_comm] using hproper
    · intro x hx j hj hjs hxj
      have hxi : x ∈ g.list (.bin s) := by
        rw [hlist]
        simpa [or_comm] using hx
      exact hjs (hs.lists.unique j _ x hj hi hxj hxi)
    · intro j x hj hjs hx
      have hnot : x ∉ g.list (.bin s) := fun hxi => hjs (hs.lists.unique j _ x hj hi hx hxi)
      have hlen := (hs.head_of_mem hj hx).1
      exact ⟨hother .hPri x hlen (.inl hnot), hother .hNext x hlen (.inl hnot)⟩
  · intro x hx hkind
    rw [hother .flag x hx (.inr rfl)]
    exact hs.free x hx hkind
  · intro x hx hkind
    have hnot : x ∉ g.list (.bin s) := by
      intro hxi
      have hpage := ((hs.sound.mem_bin hi).1 hxi).2
      exact absurd (hpage.symm.trans hkind) (by simp)
    rw [hother .flag x hx (.inr rfl), hother .hNext x hx (.inl hnot)]
    exact hs.chunk x hx hkind
  · intro x t hx hkind
    rw [hother .flag x hx (.inr rfl)]
    exact hs.page x t hx hkind

/-- The stores of the move, in their order. -/
lemma swapped_stores {first : Int} (hi : (ListId.bin s).Valid) (h1 : 1 ≤ h) (hf : 1 ≤ first)
    (hh : h ≤ 180218) (hf' : first ≤ 180218) (hne : first ≠ h) (hzero : a.get (.hPri 0) = 0)
    {a₂ a₃ : Arena} (ha₂ : a₂ = (a.set (.hPri first) h).set (.hNext first) 0)
    (ha₃ : a₃ = a₂.set (.hPri 0) 0) :
    Swapped a (((a₃.set (.hNext h) first).set (.hPri h) 0).set (.bin s) h) s h first := by
  have hw : int32 h = h := int32_of_lt (by omega) (by omega)
  have hwf : int32 first = first := int32_of_lt (by omega) (by omega)
  have hzero₂ : a₂.get (.hPri 0) = 0 := by
    rw [ha₂, get_set_field, if_neg (by simp), get_set_field, if_neg (by omega), hzero]
  obtain ⟨hget₃, hhead₃⟩ := get_of_bytes (byte_set_hPri_zero hzero₂)
  rw [← ha₃] at hget₃ hhead₃
  have hheap₃ : a₃.kHeapAllocPage = a.kHeapAllocPage ∧
      a₃.kMemoryReservedStart = a.kMemoryReservedStart := by
    rw [ha₃, ha₂]
    exact ⟨rfl, rfl⟩
  constructor
  · exact hheap₃.1
  · exact hheap₃.2
  · intro x h0 hx
    simp only [isHead_set_table _ _ hi h0, isHead_set_field _ _ h1 hx, hhead₃, ha₂,
      isHead_set_field _ _ hf hx]
  · simp [hi, hw]
  · intro j hj hjs
    simp [hi, hj, hjs, h1, hget₃, ha₂, hf]
  · simp [hi, hf, hget₃, ha₂, hne, hw]
  · simp [hi, h1, hwf]
  · rintro f x hx (⟨hxh, hxf⟩ | rfl)
    · simp [hi, hx, hxh, hxf, hget₃, ha₂]
    · simp [hi, hx, hget₃, ha₂]

/-- The page moves to the front of its bin: the pages in use stay the same. -/
lemma Spans.moveToFront (hs : Spans a g 0) (hh : g.len h ≠ 0) (hpage : g.kind h = .page s)
    (hmove : a.get (.nUsed (a.get (.bin s))) > a.get (.nUsed h) →
      a.get (.hNext (a.get (.bin s))) = h ∧ a.get (.hNext h) = 0 ∧ a.get (.hPri 0) = 0) :
    ∃ list, Spans (a.moveToFront h) { g with list := list } 0 ∧
      Memory.Agree g.Payload a.mem (a.moveToFront h).mem := by
  have hb := hs.sound.bounds hh
  have hslot := hs.sound.page h s hh hpage
  have hi : (ListId.bin s).Valid := ⟨by omega, by omega⟩
  have hflag := hs.page h s hh hpage
  unfold Arena.moveToFront
  simp only [hflag, neg_neg]
  split
  · rename_i hless
    obtain ⟨hnext, hlast, hzero⟩ := hmove hless
    obtain ⟨first, hfirst⟩ : ∃ first, a.get (.bin s) = first := ⟨_, rfl⟩
    rw [hfirst] at hnext hless ⊢
    have hne : first ≠ h := by
      rintro rfl
      exact absurd hless (lt_irrefl _)
    have hmem : first ∈ g.list (.bin s) ∧ 1 ≤ first ∧ first ≤ 180218 := by
      rcases hs.table_cases hi with ⟨-, hnil⟩ | hmem
      · have hin : h ∈ g.list (.bin s) :=
          (hs.sound.mem _ h hi).2 ⟨hh, by simp [Layout.home, hpage]⟩
        rw [hnil] at hin
        exact absurd hin List.not_mem_nil
      · rwa [hfirst] at hmem
    have hlenf := (hs.head_of_mem hi hmem.1).1
    have hlist := hs.list_pair hi hfirst (by omega) hnext (by omega) hlast
    have hlast₁ : (a.set (.hPri first) h).get (.hNext h) = 0 := by
      simpa using hlast
    have hlast₂ : ((a.set (.hPri first) h).set (.hNext first) 0).get (.hNext h) = 0 := by
      rw [get_set_field, if_neg (by rintro ⟨-, h'⟩; exact hne h'.symm), hlast₁]
    rw [hlast₁, hlast₂]
    refine ⟨_, (swapped_stores hi hb.1 hmem.2.1 hb.2 hmem.2.2 hne hzero rfl rfl).spans hs hi hlist, ?_⟩
    have hreserved : ∀ b : Arena, Memory.Agree g.Payload b.mem (b.set (.hPri 0) 0).mem := by
      intro b
      rw [set_mem_field]
      apply Memory.agree_write
      intro x hx
      have := hx.bounds hs.sound
      simp only [ptrOf_eq, Field.offset, Field.short]
      omega
    exact ((((agree_set_link hs.sound a _ hlenf (by simp)).trans
      (agree_set_link hs.sound _ _ hlenf (by simp))).trans (hreserved _)).trans
      ((agree_set_link hs.sound _ _ hh (by simp)).trans
      (agree_set_link hs.sound _ _ hh (by simp)))).trans (agree_set_table hs.sound _ _ hi)
  · exact ⟨g.list, hs, .refl _ _⟩

end CoplusLean.Arena
