import CoplusLean.Proofs.ArenaPages

/-!
# `Malloc` of a chunk

A chunk is a free span of the right length, or the front of a longer one. The bounds on the
slot are those of `span_list_`; a request for the longest span finds one free.
-/

namespace CoplusLean.Arena

open Lib

variable {a b : Arena} {g : Layout} {h k big : Int}

/-- The span `h` of `k` pages has become a chunk in use. -/
structure ChunkMade (a : Arena) (g : Layout) (k h : Int) (a' : Arena) (g' : Layout) : Prop where
  spans : Spans a' g' 0
  settled : g'.OnlyHeld 0
  agree : Memory.Agree g.Payload a.mem a'.mem
  fresh : g.use h = none
  use : g'.use = Function.update g.use h (some (k, .chunk))

lemma ChunkMade.of_moves {a' : Arena} {g₁ g' : Layout} (hmoves : Moves a g b g₁)
    (hc : ChunkMade b g₁ k h a' g') : ChunkMade a g k h a' g' where
  spans := hc.spans
  settled := hc.settled
  agree := hmoves.agree.trans (hc.agree.mono fun _ hx => hx.same hmoves.same)
  fresh := (hmoves.same.use _).symm.trans hc.fresh
  use := by
    rw [hc.use]
    congr 1
    funext x
    exact hmoves.same.use x

/-- A held span whose header says so is a chunk. -/
lemma Spans.chunkMade (hs : Spans a g 0) (honly : g.OnlyHeld h) (hh : g.len h ≠ 0)
    (hheld : g.kind h = .held) (hlen : g.len h = k) (hflag : a.get (.flag h) = k)
    (hnext : a.get (.hNext h) = -1) : ChunkMade a g k h a (g.occupy h) where
  spans := hs.occupy hheld (hflag.trans hlen.symm) hnext
  settled := honly.settle rfl rfl (by simp)
  agree := .refl _ _
  fresh := Layout.use_of_held hheld
  use := by
    have huse := Layout.use_update_kind (g := g) (h := h) .chunk g.list
    rw [← hlen]
    simpa [Layout.use, hh, Layout.occupy] using huse

/-- What `mallocBig` gives where the heap did not throw. -/
def ChunkServed (a : Arena) (g : Layout) (k : Int) (r : Outcome × Arena) : Prop :=
  ∃ h g', r.1 = .block (ptrOf h + 12) ∧ ChunkMade a g k h r.2 g'

/-- A span of the length asked for. -/
lemma Spans.exactChunk (hs : Spans a g 0) (hnone : g.OnlyHeld 0) (h1 : 1 ≤ k) (h60 : k ≤ 60)
    (hh : a.get (.spanList k) = h) (hpos : 0 < h) :
    ChunkServed a g k (.block (ptrOf h + kSpanHeaderSize),
      (a.popSpan k h).set (.hNext h) (-1)) := by
  obtain ⟨hs₁, hmoves₁, honly₁, hlen, hflags⟩ := hs.popFirst hnone h1 h60 hh hpos
  have hi : (ListId.span k).Valid := ⟨by omega, by omega⟩
  have hheld₁ : (g.take (.span k) h).kind h = .held := by simp [Layout.take]
  have hlen₁ : (g.take (.span k) h).len h = k := hlen
  have hne : (g.take (.span k) h).len h ≠ 0 := by omega
  obtain ⟨hs₂, hmoves₂⟩ := hs₁.set_held .hNext (-1) hne hheld₁
  have hfree : g.kind h = .free := by
    have hmem : h ∈ g.list (.span k) := by
      rw [← hh]
      exact (hs.popSpan hi (by rwa [hh])).1
    exact ((hs.sound.mem_span hi).1 hmem).2.1
  have hflag₂ : ((a.popSpan k h).set (.hNext h) (-1)).get (.flag h) = k := by
    rw [get_set_field, if_neg (by simp), hflags h (by omega), hs.free h (by omega) hfree, hlen]
  have hnext₂ : ((a.popSpan k h).set (.hNext h) (-1)).get (.hNext h) = -1 := by
    simpa using int32_of_lt (by omega) (by omega)
  have hmade := hs₂.chunkMade honly₁ hne hheld₁ hlen₁ hflag₂ hnext₂
  exact ⟨h, _, rfl, hmade.of_moves (hmoves₁.trans hmoves₂)⟩

/-- The front of a longer span. -/
lemma Spans.splitChunk (hs : Spans a g 0) (hnone : g.OnlyHeld 0) (h1 : 1 ≤ k) (hbig : k < big)
    (h60 : big ≤ 60) (hh : a.get (.spanList big) = h) (hpos : 0 < h) :
    ChunkServed a g k (.block (ptrOf h + kSpanHeaderSize),
      (((a.popSpan big h).set (.flag h) k).set (.hNext h) (-1)).addRest (h + k)
        (int16 (big - k))) := by
  obtain ⟨hs₁, hmoves₁, honly₁, hlen, -⟩ := hs.popFirst hnone (by omega) h60 hh hpos
  have hheld₁ : (g.take (.span big) h).kind h = .held := by simp [Layout.take]
  have hlen₁ : (g.take (.span big) h).len h = big := hlen
  have hne₁ : (g.take (.span big) h).len h ≠ 0 := by omega
  obtain ⟨hs₂, hmoves₂⟩ := hs₁.set_held .flag k hne₁ hheld₁
  obtain ⟨hs₃, hmoves₃⟩ := hs₂.set_held .hNext (-1) hne₁ hheld₁
  have hflag₃ : (((a.popSpan big h).set (.flag h) k).set (.hNext h) (-1)).get (.flag h) = k := by
    simpa using int32_of_lt (by omega) (by omega)
  have hnext₃ : (((a.popSpan big h).set (.flag h) k).set (.hNext h) (-1)).get (.hNext h) = -1 := by
    simpa using int32_of_lt (by omega) (by omega)
  have hw : int16 (big - k) = (g.take (.span big) h).len h - k := by
    rw [hlen₁]
    exact int16_of_lt (by omega) (by omega)
  obtain ⟨hs₄, hmoves₄, hkeep⟩ := hs₃.addRest hheld₁ (by omega) (by omega) hw (by omega)
  have hmoves := ((hmoves₁.trans hmoves₂).trans hmoves₃).trans hmoves₄
  have hne : h ≠ h + k := by omega
  have hlen₄ : (((g.take (.span big) h).cut h k).give (h + k)).len h = k := by
    simp [Layout.give, Layout.cut_len, hne]
  obtain ⟨hflag, hnext⟩ := hkeep h (by omega) hne
  have hheld₄ : (((g.take (.span big) h).cut h k).give (h + k)).kind h = .held := by
    simp [Layout.give, Layout.cut_kind, hne, hheld₁]
  have hmade := hs₄.chunkMade (onlyHeld_cut honly₁) (by omega) hheld₄ hlen₄
    (hflag.trans hflag₃) (hnext.trans hnext₃)
  exact ⟨h, _, rfl, hmade.of_moves hmoves⟩

/-- `mallocBig` throws without an effect, or it serves a chunk. -/
lemma Spans.mallocBig (hs : Spans a g 0) (hnone : g.OnlyHeld 0) (h1 : 1 ≤ k) (h60 : k ≤ 60)
    (hmax : k = 60 → 0 < a.get (.spanList 60)) (commit : Bool) :
    a.mallocBig k commit = (.badAlloc, a) ∨ ChunkServed a g k (a.mallocBig k commit) := by
  unfold Arena.mallocBig
  dsimp only
  split
  · rename_i hpos
    exact .inr (hs.exactChunk hnone h1 h60 rfl hpos)
  · rename_i hempty
    have hlt : k < 60 := by
      by_contra hge
      obtain rfl : k = 60 := by omega
      exact hempty (hmax rfl)
    cases hbig : a.biggerSpan k commit with
    | none => exact .inl rfl
    | some r =>
      right
      obtain ⟨big, b⟩ := r
      obtain ⟨g₁, hs₁, hmoves₁, hnone₁, hlt', hle, hpos⟩ := hs.biggerSpan hnone h1 hlt hbig
      dsimp only
      rw [if_neg (by omega)]
      obtain ⟨h, g', hblock, hmade⟩ := hs₁.splitChunk hnone₁ h1 hlt' hle rfl hpos
      exact ⟨h, g', hblock, hmade.of_moves hmoves₁⟩

end CoplusLean.Arena
