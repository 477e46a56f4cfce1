import CoplusLean.Proofs.ArenaMoves

/-!
# A span goes back to the free ones

`releaseSpan` merges a short span with the free spans behind and before it. While it does, the
span is in no list and its bit in `is_head_` is cleared; the neighbours are taken out of
their lists before they are joined to it.
-/

namespace CoplusLean.Arena

open Lib

/-- No span but `h` is held. -/
def Layout.OnlyHeld (g : Layout) (h : Int) : Prop :=
  ∀ x, g.len x ≠ 0 → g.kind x = .held → x = h

/-- The held span gets another kind, and none is left. -/
lemma Layout.OnlyHeld.settle {g g' : Layout} {h : Int} {c : Kind} (honly : g.OnlyHeld h)
    (hlen : g'.len = g.len) (hkinds : g'.kind = Function.update g.kind h c) (hc : c ≠ .held) :
    g'.OnlyHeld 0 := by
  intro x hx hkind
  rw [hlen] at hx
  rw [hkinds] at hkind
  by_cases hxh : x = h
  · subst hxh
    rw [Function.update_self] at hkind
    exact absurd hkind hc
  · rw [Function.update_of_ne hxh] at hkind
    exact absurd (honly x hx hkind) hxh

/-- Where no span was held, the one that becomes held is the only one. -/
lemma Layout.OnlyHeld.begin {g g' : Layout} {h : Int} {c : Kind} (hnone : g.OnlyHeld 0)
    (hg : g.Sound) (hlens : ∀ x, x ≠ h → g'.len x = g.len x)
    (hkinds : g'.kind = Function.update g.kind h c) : g'.OnlyHeld h := by
  intro x hx hkind
  by_contra hne
  rw [hlens x hne] at hx
  rw [hkinds, Function.update_of_ne hne] at hkind
  have hzero := hnone x hx hkind
  have hspan := hg.span x hx
  omega

/-- The span `h` is in no list, its flag is its length, and no other span is held. -/
structure Loose (a : Arena) (g : Layout) (hid h : Int) : Prop where
  spans : Spans a g hid
  head : g.len h ≠ 0
  held : g.kind h = .held
  only : g.OnlyHeld h
  flag : a.get (.flag h) = g.len h

/-- The pages of the span `h` of `g` are in the span `x` of `g'`. -/
def Layout.Covers (g : Layout) (h : Int) (g' : Layout) (x : Int) : Prop :=
  x ≤ h ∧ h + g.len h ≤ x + g'.len x

section merge

variable {a : Arena} {g : Layout} {hid h n : Int}

/-- What the test of a neighbour tells: chunks have `hNext = -1` and pages a negative flag. -/
lemma Spans.free_of_mergeable (hs : Spans a g hid) (hn : g.len n ≠ 0) (hheld : g.kind n ≠ .held)
    {m : Int} (hm : a.Mergeable n m) :
    g.kind n = .free ∧ a.get (.flag n) = g.len n ∧ g.len n ≤ m ∧ n ∈ g.list (.span (g.len n)) ∧
      (ListId.span (g.len n)).Valid := by
  have hspan := hs.sound.span n hn
  have hvalid : (ListId.span (g.len n)).Valid := ⟨by omega, by omega⟩
  obtain ⟨hnext, hflag, hle⟩ := hm
  cases hkind : g.kind n with
  | held => exact absurd hkind hheld
  | free =>
    have hfree := hs.free n hn hkind
    refine ⟨rfl, hfree, by rwa [← hfree], ?_, hvalid⟩
    exact (hs.sound.mem _ n hvalid).2 ⟨hn, by simp [Layout.home, hkind]⟩
  | chunk =>
    have := (hs.chunk n hn hkind).2
    omega
  | page s =>
    have := hs.page n s hn hkind
    have := hs.sound.page n s hn hkind
    omega

/-- A free neighbour is taken out of its list. -/
lemma Loose.takeNeighbor (hl : Loose a g h h) (hn : g.len n ≠ 0) (hfree : g.kind n = .free)
    (hmem : n ∈ g.list (.span (g.len n))) (hvalid : (ListId.span (g.len n)).Valid) :
    Spans (a.unlink (.spanList (g.len n)) n) (g.take (.span (g.len n)) n) h ∧
      Moves a g (a.unlink (.spanList (g.len n)) n) (g.take (.span (g.len n)) n) ∧
      (g.take (.span (g.len n)) n).kind h = .held ∧ (g.take (.span (g.len n)) n).kind n = .held ∧
      ∀ x, 1 ≤ x → (a.unlink (.spanList (g.len n)) n).get (.flag x) = a.get (.flag x) := by
  have hne : h ≠ n := by
    rintro rfl
    simp [hl.held] at hfree
  refine ⟨hl.spans.unlink hvalid hmem, ⟨hl.spans.agree_unlink hvalid hmem, Layout.same_take hfree⟩,
    ?_, ?_, (hl.spans.unlinked hvalid hmem).flags⟩
  · simp [Layout.take, hne, hl.held]
  · simp [Layout.take]

lemma onlyHeld_join (honly : g.OnlyHeld h) {i : ListId} {x y : Int}
    (hxy : (x = h ∧ y = n) ∨ (x = n ∧ y = h)) : ((g.take i n).join x y).OnlyHeld x := by
  intro z hz hkind
  rw [Layout.join_len] at hz
  by_cases hzy : z = y
  · exact absurd (if_pos hzy) hz
  · rw [if_neg hzy] at hz
    by_cases hzx : z = x
    · exact hzx
    · rw [if_neg hzx] at hz
      have hzn : z ≠ n := by
        rcases hxy with ⟨-, rfl⟩ | ⟨rfl, -⟩
        · exact hzy
        · exact hzx
      have hzh : z ≠ h := by
        rcases hxy with ⟨rfl, -⟩ | ⟨-, rfl⟩
        · exact hzx
        · exact hzy
      have hheld : g.kind z = .held := by simpa [Layout.join, Layout.take, hzn] using hkind
      exact absurd (honly z hz hheld) hzh

/-- A neighbour is joined in: `x` and `y` are the two spans in order, `h` is the hidden one. -/
lemma Loose.joinNeighbor (hl : Loose a g h h) (hn : g.len n ≠ 0) (hfree : g.kind n = .free)
    (hmem : n ∈ g.list (.span (g.len n))) (hvalid : (ListId.span (g.len n)).Valid) {x y v : Int}
    (hxy : (x = h ∧ y = n) ∨ (x = n ∧ y = h)) (hadj : x + g.len x = y)
    (hle : g.len x + g.len y ≤ 60) (hv : v = g.len x + g.len y) :
    Loose (((a.unlink (.spanList (g.len n)) n).resetHead n).set (.flag x) v)
        ((g.take (.span (g.len n)) n).join x y) x x ∧
      Moves a g (((a.unlink (.spanList (g.len n)) n).resetHead n).set (.flag x) v)
        ((g.take (.span (g.len n)) n).join x y) ∧
      ((g.take (.span (g.len n)) n).join x y).len x = g.len x + g.len y := by
  obtain ⟨hs, hmoves, hh1, hn1, -⟩ := hl.takeNeighbor hn hfree hmem hvalid
  have hx : (g.take (.span (g.len n)) n).len x ≠ 0 ∧ (g.take (.span (g.len n)) n).kind x = .held := by
    rcases hxy with ⟨rfl, -⟩ | ⟨rfl, -⟩
    · exact ⟨hl.head, hh1⟩
    · exact ⟨hn, hn1⟩
  have hy : (g.take (.span (g.len n)) n).len y ≠ 0 ∧ (g.take (.span (g.len n)) n).kind y = .held := by
    rcases hxy with ⟨-, rfl⟩ | ⟨-, rfl⟩
    · exact ⟨hn, hn1⟩
    · exact ⟨hl.head, hh1⟩
  have hb : (h = x ∧ n = y) ∨ (h = y ∧ n = x) :=
    hxy.imp (fun hxy => ⟨hxy.1.symm, hxy.2.symm⟩) fun hxy => ⟨hxy.2.symm, hxy.1.symm⟩
  obtain ⟨hjoin, hmoves'⟩ := hs.join hx.1 hy.1 hx.2 hy.2 hadj hle hb
  have hxspan := hl.spans.sound.span x hx.1
  have hlen : ((g.take (.span (g.len n)) n).join x y).len x = g.len x + g.len y := by
    rw [Layout.join_len, if_neg (by omega), if_pos rfl]
    rfl
  have hyspan := hl.spans.sound.span y hy.1
  have hhead : ((g.take (.span (g.len n)) n).join x y).len x ≠ 0 := by omega
  obtain ⟨hset, hmoves''⟩ := hjoin.set_held .flag v hhead hx.2
  refine ⟨⟨hset, hhead, hx.2, onlyHeld_join hl.only hxy, ?_⟩, ?_, hlen⟩
  · rw [get_set_field, if_pos ⟨rfl, rfl⟩, Field.wrap_flag, hlen, hv]
    exact int32_of_lt (by omega) (by omega)
  · exact (hmoves.trans hmoves').trans hmoves''

lemma Loose.mergeForward (hl : Loose a g h h) :
    ∃ g', Loose (a.mergeForward h).1 g' h h ∧ Moves a g (a.mergeForward h).1 g' ∧
      (a.mergeForward h).2 = 60 - g'.len h ∧ g.len h ≤ g'.len h := by
  have hspan := hl.spans.sound.span h hl.head
  have hres : kSelfReservedPage = 6 := by decide
  have hslot : kSpanSlotSize = 60 := rfl
  unfold Arena.mergeForward
  simp only [hl.flag, hres, hslot]
  split
  · rename_i hcond
    obtain ⟨htop, hm⟩ := hcond
    rw [hl.spans.heap] at htop
    have hn : g.len (h + g.len h) ≠ 0 := by
      rcases hl.spans.sound.succ h hl.head with hend | hn
      · omega
      · exact hn
    have hheld : g.kind (h + g.len h) ≠ .held := by
      intro hheld
      have := hl.only _ hn hheld
      omega
    obtain ⟨hfree, hflag, hle, hmem, hvalid⟩ := hl.spans.free_of_mergeable hn hheld hm
    have hnspan := hl.spans.sound.span _ hn
    have hflags := (hl.takeNeighbor hn hfree hmem hvalid).2.2.2.2
    have hbn := hl.spans.sound.bounds hn
    have hget : ∀ x, 1 ≤ x → (a.detach (h + g.len h)).get (.flag x) = a.get (.flag x) := by
      intro x hx
      rw [Arena.detach, hflag, get_field_resetHead _ (by omega) (by omega) hx, hflags x hx]
    rw [hget h hspan.1, hget _ hbn.1, hl.flag, hflag, Arena.detach, hflag]
    obtain ⟨hl', hmoves, hlen⟩ := hl.joinNeighbor hn hfree hmem hvalid (.inl ⟨rfl, rfl⟩) rfl
      (by omega) rfl
    refine ⟨_, hl', hmoves, ?_, by omega⟩
    rw [hlen, get_set_field, if_neg (by rintro ⟨-, h'⟩; omega),
      get_field_resetHead _ (by omega) (by omega) hbn.1, hflags _ hbn.1, hflag]
    omega
  · exact ⟨g, hl, ⟨.refl _ _, .refl g⟩, rfl, le_rfl⟩

lemma Loose.mergeBackward (hl : Loose a g h h) {m : Int} (hm : m = 60 - g.len h) :
    ∃ g', Loose (a.mergeBackward h m).1 g' (a.mergeBackward h m).2 (a.mergeBackward h m).2 ∧
      Moves a g (a.mergeBackward h m).1 g' ∧ g.Covers h g' (a.mergeBackward h m).2 := by
  have hspan := hl.spans.sound.span h hl.head
  unfold Arena.mergeBackward
  simp only [hl.flag]
  split
  · rename_i hcond
    obtain ⟨hpos, -, -, hmerge⟩ := hcond
    rcases hl.spans.spanHandleOf_pred hl.head rfl with ⟨-, hzero⟩ | ⟨p, hp, hlen, hadj⟩
    · omega
    · rw [hp] at hmerge ⊢
      have hheld : g.kind p ≠ .held := by
        intro hheld
        have := hl.only p hlen hheld
        have := hl.spans.sound.span p hlen
        omega
      obtain ⟨hfree, hflag, hle, hmem, hvalid⟩ := hl.spans.free_of_mergeable hlen hheld hmerge
      have hflags := (hl.takeNeighbor hlen hfree hmem hvalid).2.2.2.2
      have hbp := hl.spans.sound.bounds hlen
      have hget : ∀ x, 1 ≤ x → (a.detach p).get (.flag x) = a.get (.flag x) := by
        intro x hx
        rw [Arena.detach, hflag, get_field_resetHead _ (by omega) (by omega) hx, hflags x hx]
      rw [hget h hspan.1, hget p hbp.1, hl.flag, hflag, Arena.detach, hflag]
      obtain ⟨hl', hmoves, hlen'⟩ := hl.joinNeighbor hlen hfree hmem hvalid (.inr ⟨rfl, rfl⟩) hadj
        (by omega) rfl
      have hpspan := hl.spans.sound.span p hlen
      refine ⟨_, hl', hmoves, ?_⟩
      simp only [Layout.Covers, hlen']
      omega
  · exact ⟨g, hl, ⟨.refl _ _, .refl g⟩, le_rfl, le_rfl⟩

/-- The merge ends with a store of a link that is there already. -/
lemma Spans.set_second (hs : Spans a g 0) {i : ListId} (hi : i.Valid) (hh : h ∈ g.list i)
    (hpos : a.get (.hNext h) > 0) :
    Spans (a.set (.hPri (a.get (.hNext h))) h) g 0 ∧
      Moves a g (a.set (.hPri (a.get (.hNext h))) h) g := by
  have hb := hs.bounds_of_mem hi hh
  rcases hs.hNext_cases hi hh with hz | ⟨hmem, h1, -⟩
  · omega
  have hpri : a.get (.hPri (a.get (.hNext h))) = h := by
    obtain ⟨l, l', hl⟩ := List.append_of_mem hh
    have hlinked := hs.lists.linked i hi
    rw [hl] at hlinked
    obtain ⟨-, hnext⟩ := hlinked.links
    cases l' with
    | nil =>
      simp only [List.headD_nil] at hnext
      omega
    | cons y t =>
      rw [hnext]
      rw [← List.singleton_append, ← List.append_assoc] at hlinked
      simpa using hlinked.links.1
  constructor
  · refine hs.congr rfl rfl ?_ ?_ ?_
    · exact fun x _ hx => isHead_set_field a h h1 hx
    · exact fun i hi => get_table_set_field a h hi h1
    · intro x hx _
      have hw : int32 h = h := int32_of_lt (by omega) (by omega)
      by_cases hxn : x = a.get (.hNext h)
      · simp [hxn, hpri, hw]
      · simp [hxn]
  · exact ⟨agree_set_link hs.sound a h (hs.head_of_mem hi hmem).1 (by simp), .refl g⟩

/-- The span is back: it is part of a free span and nothing is held. -/
structure Released (a : Arena) (g : Layout) (h : Int) (a' : Arena) (g' : Layout) : Prop where
  spans : Spans a' g' 0
  moves : Moves a g a' g'
  none : g'.OnlyHeld 0
  free : ∃ x, g'.len x ≠ 0 ∧ g'.kind x = .free ∧ g.Covers h g' x

lemma Loose.pushSpan (hl : Loose a g 0 h) : Released a g h (a.pushSpan h) (g.give h) := by
  obtain ⟨hs, hmoves⟩ := hl.spans.pushSpan hl.head hl.held hl.flag
  exact ⟨hs, hmoves, hl.only.settle rfl rfl (by simp),
    h, hl.head, by simp [Layout.give], le_rfl, le_rfl⟩

/-- The end of a merge. -/
lemma Loose.relink (hl : Loose a g h h) {b : Arena} (hb : b = (a.setHead h).pushSpan h) :
    Released a g h (if b.get (.hNext h) > 0 then b.set (.hPri (b.get (.hNext h))) h else b)
      (g.give h) := by
  have hbh := hl.spans.sound.bounds hl.head
  have hspan := hl.spans.sound.span h hl.head
  obtain ⟨hs, hmoves⟩ := hl.spans.setHead hl.head
  have hflag : (a.setHead h).get (.flag h) = g.len h := by
    rw [get_field_setHead a (by omega) (by omega) hbh.1, hl.flag]
  have hpushed := Loose.pushSpan ⟨hs, hl.head, hl.held, hl.only, hflag⟩
  rw [← hb] at hpushed
  have hall := hmoves.trans hpushed.moves
  have hvalid : (ListId.span (g.len h)).Valid := ⟨by omega, by omega⟩
  have hmem : h ∈ (g.give h).list (.span (g.len h)) := by simp [Layout.give]
  split
  · rename_i hpos
    obtain ⟨hs', hmoves'⟩ := hpushed.spans.set_second hvalid hmem hpos
    exact ⟨hs', hall.trans hmoves', hpushed.none, hpushed.free⟩
  · exact ⟨hpushed.spans, hall, hpushed.none, hpushed.free⟩

lemma Loose.mergeSpan (hl : Loose a g 0 h) : ∃ g', Released a g h (a.mergeSpan h) g' := by
  have hb := hl.spans.sound.bounds hl.head
  obtain ⟨hs, hmoves⟩ := hl.spans.resetHead hl.head
  have hflag : (a.resetHead h).get (.flag h) = g.len h := by
    rw [get_field_resetHead a (by omega) (by omega) hb.1, hl.flag]
  obtain ⟨g₁, hl₁, hmoves₁, hmax, hlen⟩ :=
    Loose.mergeForward ⟨hs, hl.head, hl.held, hl.only, hflag⟩
  obtain ⟨g₂, hl₂, hmoves₂, hcovers⟩ := hl₁.mergeBackward hmax
  have hend := hl₂.relink rfl
  obtain ⟨x, hx, hfree, hcovers'⟩ := hend.free
  refine ⟨_, hend.spans, ((hmoves.trans hmoves₁).trans hmoves₂).trans hend.moves, hend.none,
    x, hx, hfree, ?_⟩
  simp only [Layout.Covers] at hcovers hcovers' ⊢
  omega

lemma Loose.releaseSpan (hl : Loose a g 0 h) : ∃ g', Released a g h (a.releaseSpan h) g' := by
  unfold Arena.releaseSpan
  split
  · exact ⟨_, hl.pushSpan⟩
  · exact hl.mergeSpan

end merge

end CoplusLean.Arena
