import CoplusLean.Lib.LinkedLists
import CoplusLean.Proofs.ArenaLayout

/-!
# The arena represents a layout

`Spans a g hid` ties the memory of the arena to a layout: the heap counters, the bit set,
the headers and the two families of linked lists. `hid` is the span whose bit in `is_head_`
is cleared while it is merged with its neighbours, and `0` otherwise. Each move of the
layout is made by some stores of the arena; what a chunk or a page holds behind the links
of its header is never written by them.
-/

namespace CoplusLean.Arena

open Lib

namespace Layout

/-- The bytes of chunks and pages behind the link fields of their headers. -/
def Payload (g : Layout) (x : Int) : Prop :=
  ∃ h, g.Occupied h ∧ ptrOf h + 12 ≤ x ∧ x < ptrOf (h + g.len h)

lemma Payload.same {g g' : Layout} (hsame : Same g g') {x : Int} (hx : g.Payload x) :
    g'.Payload x := by
  obtain ⟨h, hh, h0, h1⟩ := hx
  obtain ⟨hh', hlen, -⟩ := hsame.occupied hh
  exact ⟨h, hh', h0, by rwa [hlen]⟩

lemma Payload.bounds {g : Layout} (hg : g.Sound) {x : Int} (hx : g.Payload x) : 24576 ≤ x := by
  obtain ⟨h, hh, h0, -⟩ := hx
  have := hg.span h hh.1
  rw [ptrOf_eq] at h0
  omega

/-- The link fields of every span are outside the payload, the whole span where it is held. -/
lemma Payload.off_header {g : Layout} (hg : g.Sound) {x h : Int} (hx : g.Payload x)
    (hh : g.len h ≠ 0) : x < ptrOf h ∨ ptrOf h + 12 ≤ x := by
  obtain ⟨y, hy, h0, h1⟩ := hx
  simp only [ptrOf_eq] at *
  by_cases hyh : y = h
  · subst hyh
    exact .inr h0
  · have := hg.beside hh hy.1 hyh
    have := hg.span h hh
    omega

lemma Payload.off_held {g : Layout} (hg : g.Sound) {x h : Int} (hx : g.Payload x)
    (hh : g.len h ≠ 0) (hheld : ¬g.Occupied h) : x < ptrOf h ∨ ptrOf (h + g.len h) ≤ x := by
  obtain ⟨y, hy, h0, h1⟩ := hx
  simp only [ptrOf_eq] at *
  have hyh : y ≠ h := fun h' => hheld (h' ▸ hy)
  have := hg.beside hh hy.1 hyh
  have := hg.span h hh
  omega

end Layout

/-- The arena `a` represents the layout `g`. -/
structure Spans (a : Arena) (g : Layout) (hid : Int) : Prop where
  sound : g.Sound
  heap : a.kHeapAllocPage = g.top + 6
  reserved : a.kMemoryReservedStart = a.kHeapAllocPage * 4096
  heads : ∀ h, 0 ≤ h → h ≤ 180224 → (a.isHead h = true ↔ g.len h ≠ 0 ∧ h ≠ hid)
  lists : ListFamily 0 ListId.Valid (fun i => a.get (.table i)) (fun h => a.get (.hPri h))
    (fun h => a.get (.hNext h)) g.list
  free : ∀ h, g.len h ≠ 0 → g.kind h = .free → a.get (.flag h) = g.len h
  chunk : ∀ h, g.len h ≠ 0 → g.kind h = .chunk →
    a.get (.flag h) = g.len h ∧ a.get (.hNext h) = -1
  page : ∀ h s, g.len h ≠ 0 → g.kind h = .page s → a.get (.flag h) = -s

/-- The step from `a` to `a'` leaves the payload of `g` alone, and what is in use stays so. -/
structure Moves (a : Arena) (g : Layout) (a' : Arena) (g' : Layout) : Prop where
  agree : Memory.Agree g.Payload a.mem a'.mem
  same : g.Same g'

lemma Moves.trans {a a' a'' : Arena} {g g' g'' : Layout} (h : Moves a g a' g')
    (h' : Moves a' g' a'' g'') : Moves a g a'' g'' :=
  ⟨h.agree.trans (h'.agree.mono fun _ hx => hx.same h.same), h.same.trans h'.same⟩

section agree

variable {g : Layout} {h x : Int} {i : ListId} {f : Field}

lemma agree_set_table (hg : g.Sound) (a : Arena) (v : Int) (hi : i.Valid) :
    Memory.Agree g.Payload a.mem (a.set (.table i) v).mem := by
  rw [set_mem]
  apply Memory.agree_write
  intro x hx
  have := hx.bounds hg
  have := hi.bounds
  simp only [Cell.addr, Cell.short, Bool.false_eq_true, if_false]
  omega

/-- A link field of a span that starts anywhere. -/
lemma agree_set_link (hg : g.Sound) (a : Arena) (v : Int) (hh : g.len h ≠ 0)
    (hf : f = .flag ∨ f = .hPri ∨ f = .hNext) :
    Memory.Agree g.Payload a.mem (a.set (.field f h) v).mem := by
  rw [set_mem]
  apply Memory.agree_write
  intro x hx
  have := hx.off_header hg hh
  rcases hf with rfl | rfl | rfl <;> simp [Cell.addr, Cell.short, Field.offset, Field.short] <;>
    omega

/-- Any field of a span that is not in use. -/
lemma agree_set_held (hg : g.Sound) (a : Arena) (v : Int) (hh : g.len h ≠ 0)
    (hheld : ¬g.Occupied h) : Memory.Agree g.Payload a.mem (a.set (.field f h) v).mem := by
  rw [set_mem]
  apply Memory.agree_write
  intro x hx
  have := hx.off_held hg hh hheld
  have := hg.span h hh
  have := f.bounds
  simp only [Cell.addr, Cell.short, ptrOf_eq] at *
  omega

lemma agree_setHead (hg : g.Sound) (a : Arena) (h0 : 0 ≤ h) (h1 : h ≤ 180224) :
    Memory.Agree g.Payload a.mem (a.setHead h).mem := by
  rw [setHead_mem, isHeadAddr_eq]
  apply Memory.agree_write
  intro x hx
  have := hx.bounds hg
  omega

lemma agree_resetHead (hg : g.Sound) (a : Arena) (h0 : 0 ≤ h) (h1 : h ≤ 180224) :
    Memory.Agree g.Payload a.mem (a.resetHead h).mem := by
  rw [resetHead_mem, isHeadAddr_eq]
  apply Memory.agree_write
  intro x hx
  have := hx.bounds hg
  omega

end agree

namespace Spans

variable {a : Arena} {g : Layout} {hid h : Int} {i : ListId}

lemma head_of_mem (hs : Spans a g hid) (hi : i.Valid) (hh : h ∈ g.list i) :
    g.len h ≠ 0 ∧ g.home h = some i := (hs.sound.mem i h hi).1 hh

lemma bounds_of_mem (hs : Spans a g hid) (hi : i.Valid) (hh : h ∈ g.list i) :
    1 ≤ h ∧ h ≤ 180218 := hs.sound.bounds (hs.head_of_mem hi hh).1

/-- An entry of a table is `0` or the first page of a list. -/
lemma table_cases (hs : Spans a g hid) (hi : i.Valid) :
    (a.get (.table i) = 0 ∧ g.list i = []) ∨
    (a.get (.table i) ∈ g.list i ∧ 1 ≤ a.get (.table i) ∧ a.get (.table i) ≤ 180218) := by
  by_cases hz : a.get (.table i) = 0
  · exact .inl ⟨hz, (hs.lists.root_eq_none_iff hi).1 hz⟩
  · have hmem := hs.lists.mem_of_root_ne hi hz
    exact .inr ⟨hmem, hs.bounds_of_mem hi hmem⟩

lemma hNext_cases (hs : Spans a g hid) (hi : i.Valid) (hh : h ∈ g.list i) :
    a.get (.hNext h) = 0 ∨
    (a.get (.hNext h) ∈ g.list i ∧ 1 ≤ a.get (.hNext h) ∧ a.get (.hNext h) ≤ 180218) := by
  rcases (hs.lists.linked i hi).next_mem hh with hmem | hz
  · exact .inr ⟨hmem, hs.bounds_of_mem hi hmem⟩
  · exact .inl hz

lemma hPri_cases (hs : Spans a g hid) (hi : i.Valid) (hh : h ∈ g.list i) :
    a.get (.hPri h) = 0 ∨
    (a.get (.hPri h) ∈ g.list i ∧ 1 ≤ a.get (.hPri h) ∧ a.get (.hPri h) ≤ 180218) := by
  obtain ⟨l, l', hl⟩ := List.append_of_mem hh
  have hpri := ((hl ▸ hs.lists.linked i hi : Linked _ _ _ _ _)).links.1
  cases hlast : l.getLast? with
  | none => exact .inl (by simpa [List.getLastD_eq_getLast?, hlast] using hpri)
  | some y =>
    have hy : a.get (.hPri h) = y := by simpa [List.getLastD_eq_getLast?, hlast] using hpri
    have hmem : y ∈ g.list i := by
      rw [hl]
      exact List.mem_append_left _ (List.mem_of_getLast? hlast)
    rw [hy]
    exact .inr ⟨hmem, hs.bounds_of_mem hi hmem⟩

/-- A change of the headers of spans that are in no list, of the other header fields and of
other memory is not seen. -/
lemma congr (hs : Spans a g hid) {a' : Arena} (hheap : a'.kHeapAllocPage = a.kHeapAllocPage)
    (hres : a'.kMemoryReservedStart = a.kMemoryReservedStart)
    (hheads : ∀ x, 0 ≤ x → x ≤ 180224 → a'.isHead x = a.isHead x)
    (htable : ∀ i, i.Valid → a'.get (.table i) = a.get (.table i))
    (hlinks : ∀ x, g.len x ≠ 0 → g.kind x ≠ .held → a'.get (.flag x) = a.get (.flag x) ∧
      a'.get (.hPri x) = a.get (.hPri x) ∧ a'.get (.hNext x) = a.get (.hNext x)) :
    Spans a' g hid where
  sound := hs.sound
  heap := hheap.trans hs.heap
  reserved := by rw [hres, hheap, hs.reserved]
  heads x h0 h1 := by rw [hheads x h0 h1, hs.heads x h0 h1]
  lists := by
    apply hs.lists.congr htable
    intro i x hi hx
    obtain ⟨hlen, hhome⟩ := hs.head_of_mem hi hx
    have hheld : g.kind x ≠ .held := fun h' => by simp [Layout.home, h'] at hhome
    exact (hlinks x hlen hheld).2
  free x hx hkind := by rw [(hlinks x hx (by simp [hkind])).1, hs.free x hx hkind]
  chunk x hx hkind := by
    obtain ⟨hf, -, hn⟩ := hlinks x hx (by simp [hkind])
    rw [hf, hn]
    exact hs.chunk x hx hkind
  page x s hx hkind := by rw [(hlinks x hx (by simp [hkind])).1, hs.page x s hx hkind]

/-- The fields of a held span may be anything. -/
lemma set_held (hs : Spans a g hid) (f : Field) (v : Int) (hh : g.len h ≠ 0)
    (hheld : g.kind h = .held) :
    Spans (a.set (.field f h) v) g hid ∧ Moves a g (a.set (.field f h) v) g := by
  have hb := hs.sound.bounds hh
  constructor
  · refine hs.congr rfl rfl ?_ ?_ ?_
    · exact fun x _ h1 => isHead_set_field a v hb.1 h1
    · exact fun i hi => get_table_set_field a v hi hb.1
    · intro x hx hkind
      have hne : x ≠ h := fun h' => hkind (h' ▸ hheld)
      simp [get_set_field, hne]
  · exact ⟨agree_set_held hs.sound a v hh (by simp [Layout.Occupied, hheld]), .refl g⟩

end Spans

/-! ## Pushing a page on a list -/

/-- What the stores that link `h` in as the first page of list `i` amount to. -/
structure Pushed (a a' : Arena) (i : ListId) (h : Int) : Prop where
  heap : a'.kHeapAllocPage = a.kHeapAllocPage
  reserved : a'.kMemoryReservedStart = a.kMemoryReservedStart
  heads : ∀ x, 0 ≤ x → x ≤ 180224 → a'.isHead x = a.isHead x
  root : a'.get (.table i) = h
  roots : ∀ j, j.Valid → j ≠ i → a'.get (.table j) = a.get (.table j)
  hPri : a'.get (.hPri h) = 0
  hNext : a'.get (.hNext h) = a.get (.table i)
  second : a.get (.table i) ≠ 0 → a'.get (.hPri (a.get (.table i))) = h
  hPris : ∀ x, 1 ≤ x → x ≠ h → x ≠ a.get (.table i) → a'.get (.hPri x) = a.get (.hPri x)
  hNexts : ∀ x, 1 ≤ x → x ≠ h → a'.get (.hNext x) = a.get (.hNext x)
  flags : ∀ x, 1 ≤ x → x ≠ h → a'.get (.flag x) = a.get (.flag x)

namespace Spans

variable {a a' : Arena} {g : Layout} {hid h : Int} {i : ListId}

/-- A held span was pushed on a list: the layout follows. -/
lemma put (hs : Spans a g hid) (hp : Pushed a a' i h) (hi : i.Valid) (hh : g.len h ≠ 0)
    (hheld : g.kind h = .held) {c : Kind}
    (hsound : Layout.Sound { g with
      kind := Function.update g.kind h c
      list := Function.update g.list i (h :: g.list i) })
    (hfree : c = .free → a'.get (.flag h) = g.len h)
    (hchunk : c ≠ .chunk) (hpage : ∀ s, c = .page s → a'.get (.flag h) = -s) :
    Spans a' { g with
      kind := Function.update g.kind h c
      list := Function.update g.list i (h :: g.list i) } hid := by
  have hb : ∀ x, g.len x ≠ 0 → 1 ≤ x := fun x hx => (hs.sound.bounds hx).1
  have hnone : g.home h = none := by simp [Layout.home, hheld]
  have hflags : ∀ x, g.len x ≠ 0 → x ≠ h → a'.get (.flag x) = a.get (.flag x) :=
    fun x hx => hp.flags x (hb x hx)
  refine ⟨hsound, hp.heap.trans hs.heap, by rw [hp.reserved, hp.heap, hs.reserved], ?_, ?_, ?_,
    ?_, ?_⟩
  · intro x h0 h1
    rw [hp.heads x h0 h1, hs.heads x h0 h1]
  · refine hs.lists.push hi ?_ ?_ hp.root (fun j hj => hp.roots j hj) hp.hPri hp.hNext hp.second
      ?_ ?_
    · have := hb h hh
      omega
    · intro j hj hmem
      have hhome := (hs.head_of_mem hj hmem).2
      simp [hnone] at hhome
    · intro j x hj hx hne
      obtain ⟨hlen, hhome⟩ := hs.head_of_mem hj hx
      exact hp.hPris x (hb x hlen) (fun h' => by simp [h', hnone] at hhome) hne
    · intro j x hj hx
      obtain ⟨hlen, hhome⟩ := hs.head_of_mem hj hx
      exact hp.hNexts x (hb x hlen) fun h' => by simp [h', hnone] at hhome
  · intro x hx hkind
    by_cases hxh : x = h
    · subst hxh
      exact hfree (by simpa using hkind)
    · rw [hflags x hx hxh]
      exact hs.free x hx (by simpa [hxh] using hkind)
  · intro x hx hkind
    by_cases hxh : x = h
    · subst hxh
      exact absurd (by simpa using hkind) hchunk
    · rw [hflags x hx hxh, hp.hNexts x (hb x hx) hxh]
      exact hs.chunk x hx (by simpa [hxh] using hkind)
  · intro x s hx hkind
    by_cases hxh : x = h
    · subst hxh
      exact hpage s (by simpa using hkind)
    · rw [hflags x hx hxh]
      exact hs.page x s hx (by simpa [hxh] using hkind)

end Spans

section pushes

variable {a : Arena} {g : Layout} {hid h : Int} {i : ListId}

lemma Spans.table_ne_held (hs : Spans a g hid) (hi : i.Valid) (hh : g.len h ≠ 0)
    (hheld : g.kind h = .held) : a.get (.table i) ≠ h := by
  have hb := hs.sound.bounds hh
  rcases hs.table_cases hi with ⟨hz, -⟩ | ⟨hmem, -⟩
  · omega
  · intro h'
    have hhome := (hs.head_of_mem hi hmem).2
    simp [h', Layout.home, hheld] at hhome

/-- The facts that the stores of a push are computed with. -/
lemma Spans.push_facts (hs : Spans a g hid) (hi : i.Valid) (hh : g.len h ≠ 0)
    (hheld : g.kind h = .held) : 1 ≤ h ∧ int32 h = h ∧ int32 (a.get (.table i)) = a.get (.table i) ∧
      a.get (.table i) ≠ h ∧
      ((a.get (.table i) = 0 ∧ g.list i = []) ∨
        (0 < a.get (.table i) ∧ 1 ≤ a.get (.table i) ∧ g.len (a.get (.table i)) ≠ 0)) := by
  have hb := hs.sound.bounds hh
  have hne := hs.table_ne_held hi hh hheld
  rcases hs.table_cases hi with ⟨hz, hnil⟩ | ⟨hmem, h1, h2⟩
  · exact ⟨hb.1, int32_of_lt (by omega) (by omega), int32_of_lt (by omega) (by omega), hne,
      .inl ⟨hz, hnil⟩⟩
  · exact ⟨hb.1, int32_of_lt (by omega) (by omega), int32_of_lt (by omega) (by omega), hne,
      .inr ⟨by omega, h1, (hs.head_of_mem hi hmem).1⟩⟩

lemma pushed_pushSpan (hs : Spans a g hid) (hh : g.len h ≠ 0) (hheld : g.kind h = .held)
    (hflag : a.get (.flag h) = g.len h) : Pushed a (a.pushSpan h) (.span (g.len h)) h := by
  have hspan := hs.sound.span h hh
  have hi : (ListId.span (g.len h)).Valid := ⟨by omega, by omega⟩
  obtain ⟨h1, hw, hw', hne, hr⟩ := hs.push_facts hi hh hheld
  unfold pushSpan
  simp only [hflag]
  generalize hroot : a.get (.spanList (g.len h)) = r at *
  rcases hr with ⟨rfl, -⟩ | ⟨hpos, hr, -⟩
  · constructor <;> simp +contextual [hi, h1, hw, hroot]
  · simp only [hpos, if_true]
    constructor <;> simp +contextual [hi, h1, hr, hw, hw', hroot, hne]

lemma agree_pushSpan (hs : Spans a g hid) (hh : g.len h ≠ 0) (hheld : g.kind h = .held)
    (hflag : a.get (.flag h) = g.len h) :
    Memory.Agree g.Payload a.mem (a.pushSpan h).mem := by
  have hspan := hs.sound.span h hh
  have hi : (ListId.span (g.len h)).Valid := ⟨by omega, by omega⟩
  obtain ⟨h1, hw, hw', hne, hr⟩ := hs.push_facts hi hh hheld
  have hrest : ∀ b : Arena, Memory.Agree g.Payload b.mem
      (((b.set (.hNext h) (b.get (.spanList (g.len h)))).set (.hPri h) 0).set
        (.spanList (g.len h)) h).mem := by
    intro b
    exact ((agree_set_link hs.sound b _ hh (by simp)).trans
      (agree_set_link hs.sound _ _ hh (by simp))).trans (agree_set_table hs.sound _ _ hi)
  unfold pushSpan
  simp only [hflag]
  rcases hr with ⟨hz, -⟩ | ⟨hpos, hr, hlen⟩
  · rw [if_neg (not_lt_of_ge hz.le)]
    exact hrest a
  · rw [if_pos hpos]
    exact (agree_set_link hs.sound a _ hlen (by simp)).trans (hrest _)

/-- `addRest` behind its `is_head_->set`. -/
lemma pushed_addRest {b : Arena} (hb : b = a.setHead h) (hs : Spans b g hid)
    (hh : g.len h ≠ 0) (hheld : g.kind h = .held) :
    Pushed b (a.addRest h (g.len h)) (.span (g.len h)) h ∧
      (a.addRest h (g.len h)).get (.flag h) = g.len h := by
  have hspan := hs.sound.span h hh
  have hi : (ListId.span (g.len h)).Valid := ⟨by omega, by omega⟩
  obtain ⟨h1, hw, hw', hne, hr⟩ := hs.push_facts hi hh hheld
  have hwl : int32 (g.len h) = g.len h := int32_of_lt (by omega) (by omega)
  unfold addRest
  rw [← hb]
  dsimp only
  generalize hroot : b.get (.spanList (g.len h)) = r at *
  rcases hr with ⟨rfl, -⟩ | ⟨hpos, hr, -⟩
  · simp only [get_set_field, get_table_set_field, hi, h1, hroot]
    constructor
    · constructor <;> simp +contextual [hi, h1, hw, hroot]
    · simp [hi, h1, hwl]
  · simp only [get_set_field, get_table_set_field, hi, h1, hroot]
    simp only [Field.wrap_hNext, hw', hpos, and_self, if_true]
    constructor
    · constructor <;> simp +contextual [hi, h1, hr, hw, hw', hroot, hne.symm]
    · simp [hi, h1, hwl]

lemma agree_addRest {b : Arena} (hb : b = a.setHead h) (hs : Spans b g hid)
    (hh : g.len h ≠ 0) (hheld : g.kind h = .held) :
    Memory.Agree g.Payload b.mem (a.addRest h (g.len h)).mem := by
  have hspan := hs.sound.span h hh
  have hi : (ListId.span (g.len h)).Valid := ⟨by omega, by omega⟩
  obtain ⟨h1, hw, hw', hne, hr⟩ := hs.push_facts hi hh hheld
  unfold addRest
  rw [← hb]
  dsimp only
  have hlinks : Memory.Agree g.Payload b.mem
      (((b.set (.flag h) (g.len h)).set (.hPri h) 0).set (.hNext h)
        (((b.set (.flag h) (g.len h)).set (.hPri h) 0).get (.spanList (g.len h)))).mem :=
    ((agree_set_link hs.sound b _ hh (by simp)).trans
      (agree_set_link hs.sound _ _ hh (by simp))).trans (agree_set_link hs.sound _ _ hh (by simp))
  refine hlinks.trans (Memory.Agree.trans ?_ (agree_set_table hs.sound _ _ hi))
  split
  · rename_i hpos
    refine agree_set_link hs.sound _ _ ?_ (by simp)
    simp only [get_set_field, get_table_set_field, hi, h1, and_self, if_true, Field.wrap_hNext,
      hw'] at hpos ⊢
    rcases hr with ⟨hz, -⟩ | ⟨-, -, hlen⟩
    · omega
    · exact hlen
  · exact .refl _ _

end pushes

namespace Spans

variable {a : Arena} {g : Layout} {hid h : Int} {i : ListId}

/-- A held span whose flag is its length goes to the free spans. -/
lemma pushSpan (hs : Spans a g hid) (hh : g.len h ≠ 0) (hheld : g.kind h = .held)
    (hflag : a.get (.flag h) = g.len h) :
    Spans (a.pushSpan h) (g.give h) hid ∧ Moves a g (a.pushSpan h) (g.give h) := by
  have hspan := hs.sound.span h hh
  have hi : (ListId.span (g.len h)).Valid := ⟨by omega, by omega⟩
  have hp := pushed_pushSpan hs hh hheld hflag
  have hflag' : (a.pushSpan h).get (.flag h) = g.len h := by
    have h1 : 1 ≤ h := hspan.1
    unfold Arena.pushSpan
    simp only [hflag]
    split <;> simp [hi, h1, hflag]
  constructor
  · exact hs.put hp hi hh hheld (hs.sound.give hh hheld) (fun _ => hflag') (by simp) (by simp)
  · exact ⟨agree_pushSpan hs hh hheld hflag, Layout.same_give hheld⟩

/-- Held spans change their lengths; the headers of the others and the tables stay. -/
lemma relen (hs : Spans a g hid) {a' : Arena} {g' : Layout} {hid' : Int} (hsound : g'.Sound)
    (hlist : g'.list = g.list) (hheap : a'.kHeapAllocPage = g'.top + 6)
    (hres : a'.kMemoryReservedStart = a'.kHeapAllocPage * 4096)
    (hheads : ∀ x, 0 ≤ x → x ≤ 180224 → (a'.isHead x = true ↔ g'.len x ≠ 0 ∧ x ≠ hid'))
    (hkeep : ∀ x, g'.len x ≠ 0 → g'.kind x ≠ .held → g'.len x = g.len x ∧ g'.kind x = g.kind x)
    (htable : ∀ i, i.Valid → a'.get (.table i) = a.get (.table i))
    (hfield : ∀ f x, g.len x ≠ 0 → g.kind x ≠ .held → a'.get (.field f x) = a.get (.field f x)) :
    Spans a' g' hid' where
  sound := hsound
  heap := hheap
  reserved := hres
  heads := hheads
  lists := by
    rw [hlist]
    apply hs.lists.congr htable
    intro i x hi hx
    obtain ⟨hlen, hhome⟩ := hs.head_of_mem hi hx
    have hheld : g.kind x ≠ .held := fun h' => by simp [Layout.home, h'] at hhome
    exact ⟨hfield _ x hlen hheld, hfield _ x hlen hheld⟩
  free x hx hkind := by
    obtain ⟨hl, hk⟩ := hkeep x hx (by simp [hkind])
    rw [hl] at hx ⊢
    rw [hk] at hkind
    rw [hfield _ x hx (by simp [hkind]), hs.free x hx hkind]
  chunk x hx hkind := by
    obtain ⟨hl, hk⟩ := hkeep x hx (by simp [hkind])
    rw [hl] at hx ⊢
    rw [hk] at hkind
    rw [hfield _ x hx (by simp [hkind]), hfield _ x hx (by simp [hkind])]
    exact hs.chunk x hx hkind
  page x s hx hkind := by
    obtain ⟨hl, hk⟩ := hkeep x hx (by simp [hkind])
    rw [hl] at hx
    rw [hk] at hkind
    rw [hfield _ x hx (by simp [hkind]), hs.page x s hx hkind]

/-- A held span is cut: the bit of the rest is set. -/
lemma cut (hs : Spans a g hid) (hheld : g.kind h = .held) {k : Int} (h0 : 0 < k)
    (hk : k < g.len h) (hhid : h + k ≠ hid) :
    Spans (a.setHead (h + k)) (g.cut h k) hid ∧ Moves a g (a.setHead (h + k)) (g.cut h k) := by
  have hh : g.len h ≠ 0 := by omega
  have hspan := hs.sound.span h hh
  have htop := hs.sound.top_bounds
  have h1 : 0 ≤ h + k := by omega
  have h2 : h + k ≤ 180224 := by omega
  have hrest : g.len (h + k) = 0 := hs.sound.inside h (h + k) hh (by omega) (by omega)
  constructor
  · refine hs.relen (hs.sound.cut hheld h0 hk) rfl hs.heap hs.reserved ?_ ?_ ?_ ?_
    · intro x hx0 hx1
      rw [isHead_setHead, Layout.cut_len]
      by_cases hxk : x = h + k
      · simp only [hxk, if_true, true_iff]
        exact ⟨by omega, hhid⟩
      · rw [if_neg hxk, if_neg hxk, hs.heads x hx0 hx1]
        by_cases hxh : x = h
        · subst hxh
          simp only [if_true]
          exact and_congr_left' ⟨fun _ => by omega, fun _ => hh⟩
        · rw [if_neg hxh]
    · intro x hx hkind
      rw [Layout.cut_kind] at hkind ⊢
      by_cases hxk : x = h + k
      · exact absurd (if_pos hxk) hkind
      · rw [if_neg hxk] at hkind ⊢
        have hxh : x ≠ h := fun h' => hkind (h' ▸ hheld)
        rw [Layout.cut_len, if_neg hxk, if_neg hxh]
        exact ⟨rfl, rfl⟩
    · exact fun i hi => get_table_setHead a h1 h2 hi
    · exact fun f x hx _ => get_field_setHead a h1 h2 (hs.sound.bounds hx).1
  · exact ⟨agree_setHead hs.sound a h1 h2, Layout.same_cut hs.sound hheld h0 hk⟩

/-- A held span is cut and its rest goes to the free spans. -/
lemma addRest (hs : Spans a g hid) (hheld : g.kind h = .held) {k n : Int} (h0 : 0 < k)
    (hk : k < g.len h) (hn : n = g.len h - k) (hhid : h + k ≠ hid) :
    Spans (a.addRest (h + k) n) ((g.cut h k).give (h + k)) hid ∧
      Moves a g (a.addRest (h + k) n) ((g.cut h k).give (h + k)) ∧
      ∀ x, 1 ≤ x → x ≠ h + k → (a.addRest (h + k) n).get (.flag x) = a.get (.flag x) ∧
        (a.addRest (h + k) n).get (.hNext x) = a.get (.hNext x) := by
  obtain ⟨hcut, hmoves⟩ := hs.cut hheld h0 hk hhid
  have hlen0 : (g.cut h k).len (h + k) ≠ 0 := by
    rw [Layout.cut_len, if_pos rfl]
    omega
  have hkind : (g.cut h k).kind (h + k) = .held := by
    rw [Layout.cut_kind, if_pos rfl]
  obtain rfl : n = (g.cut h k).len (h + k) := by
    rw [Layout.cut_len, if_pos rfl, hn]
  have hspan := hcut.sound.span _ hlen0
  have hi : (ListId.span ((g.cut h k).len (h + k))).Valid := ⟨by omega, by omega⟩
  obtain ⟨hp, hflag⟩ := pushed_addRest rfl hcut hlen0 hkind
  refine ⟨?_, ?_, ?_⟩
  · exact hcut.put hp hi hlen0 hkind (hcut.sound.give hlen0 hkind) (fun _ => hflag) (by simp)
      (by simp)
  · exact hmoves.trans ⟨agree_addRest rfl hcut hlen0 hkind, Layout.same_give hkind⟩
  · intro x hx hne
    have hb := hcut.sound.bounds hlen0
    have h1 : 0 ≤ h + k := by omega
    have h2 : h + k ≤ 180224 := by omega
    rw [hp.flags x hx hne, hp.hNexts x hx hne]
    exact ⟨get_field_setHead a h1 h2 hx, get_field_setHead a h1 h2 hx⟩

end Spans

/-! ## Unlinking a page -/

/-- What the stores that take `h` out of list `i` amount to. -/
structure Unlinked (a a' : Arena) (i : ListId) (h : Int) : Prop where
  heap : a'.kHeapAllocPage = a.kHeapAllocPage
  reserved : a'.kMemoryReservedStart = a.kMemoryReservedStart
  heads : ∀ x, 0 ≤ x → x ≤ 180224 → a'.isHead x = a.isHead x
  root : a'.get (.table i) = if a.get (.hPri h) = 0 then a.get (.hNext h) else a.get (.table i)
  roots : ∀ j, j.Valid → j ≠ i → a'.get (.table j) = a.get (.table j)
  before : a.get (.hPri h) ≠ 0 → a'.get (.hNext (a.get (.hPri h))) = a.get (.hNext h)
  after : a.get (.hNext h) ≠ 0 → a'.get (.hPri (a.get (.hNext h))) = a.get (.hPri h)
  hPris : ∀ x, 1 ≤ x → x ≠ a.get (.hNext h) → a'.get (.hPri x) = a.get (.hPri x)
  hNexts : ∀ x, 1 ≤ x → x ≠ a.get (.hPri h) → a'.get (.hNext x) = a.get (.hNext x)
  flags : ∀ x, 1 ≤ x → a'.get (.flag x) = a.get (.flag x)

namespace Spans

variable {a : Arena} {g : Layout} {hid h : Int} {i : ListId}

/-- A page is not its own neighbour. -/
lemma links_ne_self (hs : Spans a g hid) (hi : i.Valid) (hh : h ∈ g.list i) :
    a.get (.hPri h) ≠ h ∧ a.get (.hNext h) ≠ h := by
  have hb := hs.bounds_of_mem hi hh
  have hnodup := hs.lists.nodup i hi
  obtain ⟨l, l', hl⟩ := List.append_of_mem hh
  have hlinked := hs.lists.linked i hi
  rw [hl] at hlinked hnodup
  obtain ⟨hpri, hnext⟩ := hlinked.links
  rw [hpri, hnext]
  constructor
  · intro h'
    cases hlast : l.getLast? with
    | none =>
      simp [List.getLastD_eq_getLast?, hlast] at h'
      omega
    | some y =>
      have hy : y = h := by simpa [List.getLastD_eq_getLast?, hlast] using h'
      exact (List.nodup_append.1 hnodup).2.2 h (hy ▸ List.mem_of_getLast? hlast) h (by simp) rfl
  · intro h'
    cases l' with
    | nil =>
      simp at h'
      omega
    | cons y t =>
      have hy : y = h := by simpa using h'
      exact (List.nodup_cons.1 (List.nodup_append.1 hnodup).2.1).1 (by simp [hy])

lemma unlinked (hs : Spans a g hid) (hi : i.Valid) (hh : h ∈ g.list i) :
    Unlinked a (a.unlink (.table i) h) i h := by
  obtain ⟨hnp, hnn⟩ := hs.links_ne_self hi hh
  have hb := hs.bounds_of_mem hi hh
  have h1 : 1 ≤ h := hb.1
  have hp := hs.hPri_cases hi hh
  have hn := hs.hNext_cases hi hh
  unfold unlink linkedNodeDeleteHead linkedNodeDelete
  simp only [memset_hPri, get_field_set_table, hi, h1]
  generalize hpri : a.get (.hPri h) = p at *
  generalize hnext : a.get (.hNext h) = n at *
  have hwp : int32 p = p := int32_of_lt (by omega) (by omega)
  have hwn : int32 n = n := int32_of_lt (by omega) (by omega)
  rcases hp with rfl | ⟨-, hp1, -⟩
  · simp only [if_true]
    rcases hn with rfl | ⟨-, hn1, -⟩
    · constructor <;> simp +contextual [hi, hpri, hnext]
    · have hpos : n > 0 := by omega
      simp only [if_pos hpos]
      constructor <;> simp +contextual [hi, hn1, hpri, hnext, hwn]
  · have hpos : p > 0 := by omega
    have hp0 : ¬p = 0 := by omega
    simp only [if_pos hpos, if_neg hp0]
    have hn' : (a.set (.hNext p) n).get (.hNext h) = n := by
      simp [hnext, hnp.symm]
    have hp' : (a.set (.hNext p) n).get (.hPri h) = p := by
      simp [hpri]
    simp only [hn', hp']
    rcases hn with rfl | ⟨-, hn1, -⟩
    · simp only [gt_iff_lt, lt_irrefl, if_false]
      constructor <;> simp +contextual [hi, hp1, hpri, hnext, hp0]
    · have hpos' : n > 0 := by omega
      simp only [if_pos hpos']
      constructor <;> simp +contextual [hi, hp1, hn1, hpri, hnext, hp0, hwp, hwn]

lemma agree_unlink (hs : Spans a g hid) (hi : i.Valid) (hh : h ∈ g.list i) :
    Memory.Agree g.Payload a.mem (a.unlink (.table i) h).mem := by
  obtain ⟨hnp, hnn⟩ := hs.links_ne_self hi hh
  have h1 := (hs.bounds_of_mem hi hh).1
  have hp := hs.hPri_cases hi hh
  have hn := hs.hNext_cases hi hh
  have hnext : ∀ b : Arena, b.get (.hNext h) = a.get (.hNext h) → b.get (.hNext h) > 0 →
      ∀ v, Memory.Agree g.Payload b.mem (b.set (.hPri (b.get (.hNext h))) v).mem := by
    intro b hb hpos v
    rcases hn with hz | ⟨hmem, -⟩
    · omega
    · rw [hb]
      exact agree_set_link hs.sound b v (hs.head_of_mem hi hmem).1 (by simp)
  unfold unlink
  split
  · unfold linkedNodeDeleteHead
    simp only [memset_hPri]
    have hb : (a.set (.table i) (a.get (.hNext h))).get (.hNext h) = a.get (.hNext h) :=
      get_field_set_table a _ hi h1
    split
    · rename_i hpos
      exact (agree_set_table hs.sound a _ hi).trans (hnext _ hb hpos _)
    · exact agree_set_table hs.sound a _ hi
  · rename_i hp0
    have hpos : a.get (.hPri h) > 0 := by
      rcases hp with hz | ⟨-, hp1, -⟩
      · exact absurd hz hp0
      · exact hp1
    have hmem : a.get (.hPri h) ∈ g.list i := by
      rcases hp with hz | ⟨hmem, -⟩
      · exact absurd hz hp0
      · exact hmem
    have hleft : Memory.Agree g.Payload a.mem
        (a.set (.hNext (a.get (.hPri h))) (a.get (.hNext h))).mem :=
      agree_set_link hs.sound a _ (hs.head_of_mem hi hmem).1 (by simp)
    have hb : (a.set (.hNext (a.get (.hPri h))) (a.get (.hNext h))).get (.hNext h) =
        a.get (.hNext h) := by
      rw [get_set_field, if_neg]
      exact fun h' => hnp h'.2.symm
    simp only [linkedNodeDelete, if_pos hpos]
    generalize a.set (.hNext (a.get (.hPri h))) (a.get (.hNext h)) = b at hleft hb
    by_cases hpos' : b.get (.hNext h) > 0
    · simp only [if_pos hpos']
      exact hleft.trans (hnext b hb hpos' _)
    · simp only [if_neg hpos']
      exact hleft

/-- The stores of `unlink` take the span out of its list. -/
lemma unlink (hs : Spans a g hid) (hi : i.Valid) (hh : h ∈ g.list i) :
    Spans (a.unlink (.table i) h) (g.take i h) hid := by
  have hu := hs.unlinked hi hh
  have hb : ∀ x, g.len x ≠ 0 → 1 ≤ x := fun x hx => (hs.sound.bounds hx).1
  have hother : ∀ {x c}, (g.take i h).kind x = c → c ≠ .held → x ≠ h ∧ g.kind x = c := by
    intro x c hkind hc
    have hxh : x ≠ h := by
      rintro rfl
      simp [Layout.take] at hkind
      exact hc hkind.symm
    exact ⟨hxh, by simpa [Layout.take, hxh] using hkind⟩
  refine ⟨hs.sound.take hi hh (hs.lists.nodup i hi), hu.heap.trans hs.heap,
    by rw [hu.reserved, hu.heap, hs.reserved], ?_, ?_, ?_, ?_, ?_⟩
  · intro x h0 h1
    rw [hu.heads x h0 h1]
    exact hs.heads x h0 h1
  · refine hs.lists.remove hi hh hu.root (fun j hj => hu.roots j hj) hu.before hu.after ?_ ?_
    · intro j x hj hx _ hne
      exact hu.hPris x (hs.bounds_of_mem hj hx).1 hne
    · intro j x hj hx _ hne
      exact hu.hNexts x (hs.bounds_of_mem hj hx).1 hne
  · intro x hx hkind
    rw [hu.flags x (hb x hx)]
    exact hs.free x hx (hother hkind (by simp)).2
  · intro x hx hkind
    have hk := (hother hkind (by simp)).2
    have hne : x ≠ a.get (.hPri h) := by
      intro h'
      rcases hs.hPri_cases hi hh with hz | ⟨hmem, -⟩
      · have := hb x hx
        omega
      · have hhome := (hs.head_of_mem hi hmem).2
        rw [← h'] at hhome
        simp [Layout.home, hk] at hhome
    rw [hu.flags x (hb x hx), hu.hNexts x (hb x hx) hne]
    exact hs.chunk x hx hk
  · intro x s hx hkind
    rw [hu.flags x (hb x hx)]
    exact hs.page x s hx (hother hkind (by simp)).2

/-- The first span of a list of free ones is popped. -/
lemma popSpan (hs : Spans a g hid) {k : Int} (hi : (ListId.span k).Valid)
    (hpos : 0 < a.get (.spanList k)) :
    a.get (.spanList k) ∈ g.list (.span k) ∧
    a.popSpan k (a.get (.spanList k)) = a.unlink (.spanList k) (a.get (.spanList k)) := by
  have hmem : a.get (.spanList k) ∈ g.list (.span k) :=
    hs.lists.mem_of_root_ne hi (ne_of_gt hpos)
  have hpri : a.get (.hPri (a.get (.spanList k))) = 0 :=
    (hs.lists.pri_eq_none_iff hi hmem).2 rfl
  refine ⟨hmem, ?_⟩
  rw [Arena.popSpan, Arena.unlink, if_pos hpri]

end Spans

end CoplusLean.Arena
