import CoplusLean.Proofs.ArenaSpans

/-!
# The moves that change the cut into spans

Joining two held spans, growing the heap and turning a span into a bin page. A span whose
bit in `is_head_` is cleared is skipped by the search for the head of a span, so the search
that starts before it finds the span in front of it.
-/

namespace CoplusLean.Arena

open Lib

namespace Layout

variable {g : Layout} {h : Int}

/-- A span that is taken out of use leaves the payload. -/
lemma payload_of_held {list : ListId → List Int} {x : Int}
    (hx : Payload { g with kind := Function.update g.kind h .held, list := list } x) :
    g.Payload x := by
  obtain ⟨y, ⟨hlen, hkind⟩, h0, h1⟩ := hx
  by_cases hyh : y = h
  · simp [hyh] at hkind
  · exact ⟨y, ⟨hlen, by simpa [hyh] using hkind⟩, h0, h1⟩

end Layout

namespace Spans

variable {a a' : Arena} {g : Layout} {hid h n : Int} {i : ListId}

/-- A span changes between the kinds that are in no list. -/
lemma rekind (hs : Spans a g hid) (hhome : g.home h = none) {c : Kind}
    (hc : c = .held ∨ c = .chunk)
    (hchunk : c = .chunk → a.get (.flag h) = g.len h ∧ a.get (.hNext h) = -1) :
    Spans a { g with kind := Function.update g.kind h c } hid where
  sound := hs.sound.rekind hhome hc
  heap := hs.heap
  reserved := hs.reserved
  heads := hs.heads
  lists := hs.lists
  free x hx hkind := by
    by_cases hxh : x = h
    · rcases hc with rfl | rfl <;> simp [hxh] at hkind
    · exact hs.free x hx (by simpa [hxh] using hkind)
  chunk x hx hkind := by
    by_cases hxh : x = h
    · subst hxh
      exact hchunk (by simpa using hkind)
    · exact hs.chunk x hx (by simpa [hxh] using hkind)
  page x s hx hkind := by
    by_cases hxh : x = h
    · rcases hc with rfl | rfl <;> simp [hxh] at hkind
    · exact hs.page x s hx (by simpa [hxh] using hkind)

/-- A chunk in use is given back. -/
lemma hold (hs : Spans a g hid) (hchunk : g.kind h = .chunk) : Spans a (g.hold h) hid :=
  hs.rekind (by simp [Layout.home, hchunk]) (.inl rfl) (by simp)

lemma occupy (hs : Spans a g hid) (hheld : g.kind h = .held) (hflag : a.get (.flag h) = g.len h)
    (hnext : a.get (.hNext h) = -1) : Spans a (g.occupy h) hid :=
  hs.rekind (by simp [Layout.home, hheld]) (.inr rfl) fun _ => ⟨hflag, hnext⟩

/-- Memory of a span behind its links is written. -/
lemma write_inside (hs : Spans a g hid) {p m : Int} {v : Int → BitVec 8}
    (hmem : a'.mem = a.mem.write p m v) (hheap : a'.kHeapAllocPage = a.kHeapAllocPage)
    (hres : a'.kMemoryReservedStart = a.kMemoryReservedStart) (hh : g.len h ≠ 0)
    (hp : ptrOf h + 12 ≤ p) (hend : p + m ≤ ptrOf (h + g.len h)) : Spans a' g hid := by
  have hspan := hs.sound.span h hh
  simp only [ptrOf_eq] at hp hend
  have hlink : ∀ f x, g.len x ≠ 0 → f = .flag ∨ f = .hPri ∨ f = .hNext →
      a'.get (.field f x) = a.get (.field f x) := by
    intro f x hx hf
    apply get_of_write hmem
    have hout : x * 4096 + 20492 ≤ p ∨ p + m ≤ x * 4096 + 20480 := by
      by_cases hxh : x = h
      · omega
      · have := hs.sound.beside hh hx hxh
        have := hs.sound.span x hx
        omega
    rcases hf with rfl | rfl | rfl <;>
      simp [Cell.addr, Cell.short, Field.offset, Field.short, ptrOf_eq] <;> omega
  apply hs.congr hheap hres
  · intro x h0 h1
    unfold isHead
    rw [hmem, isHeadAddr_eq]
    apply Memory.bit_write
    omega
  · intro i hi
    apply get_of_write hmem
    have := hi.bounds
    simp only [Cell.addr, Cell.short, Bool.false_eq_true, if_false]
    omega
  · intro x hx _
    exact ⟨hlink .flag x hx (by simp), hlink .hPri x hx (by simp), hlink .hNext x hx (by simp)⟩

/-! ## Heads -/

/-- Another span is the hidden one. -/
lemma rehide (hs : Spans a g hid) {b : Arena} {hid' : Int} (hheap : b.kHeapAllocPage = a.kHeapAllocPage)
    (hres : b.kMemoryReservedStart = a.kMemoryReservedStart)
    (hheads : ∀ x, 0 ≤ x → x ≤ 180224 → (b.isHead x = true ↔ g.len x ≠ 0 ∧ x ≠ hid'))
    (htable : ∀ i, i.Valid → b.get (.table i) = a.get (.table i))
    (hfield : ∀ f x, g.len x ≠ 0 → b.get (.field f x) = a.get (.field f x)) :
    Spans b g hid' := by
  apply hs.relen hs.sound rfl (hheap.trans hs.heap) (by rw [hres, hheap, hs.reserved]) hheads
  · exact fun _ _ _ => ⟨rfl, rfl⟩
  · exact htable
  · exact fun f x hx _ => hfield f x hx

lemma resetHead (hs : Spans a g 0) (hh : g.len h ≠ 0) :
    Spans (a.resetHead h) g h ∧ Moves a g (a.resetHead h) g := by
  have hb := hs.sound.bounds hh
  have h0 : 0 ≤ h := by omega
  have h1 : h ≤ 180224 := by omega
  refine ⟨?_, agree_resetHead hs.sound a h0 h1, .refl g⟩
  refine hs.rehide (b := a.resetHead h) rfl rfl ?_ ?_ ?_
  · intro x hx0 hx1
    rw [isHead_resetHead]
    by_cases hxh : x = h
    · simp [hxh]
    · rw [if_neg hxh, hs.heads x hx0 hx1]
      have hne : g.len x ≠ 0 → x ≠ 0 := fun hx => by
        have := hs.sound.bounds hx
        omega
      simpa [hxh] using hne
  · exact fun i hi => get_table_resetHead a h0 h1 hi
  · exact fun f x hx => get_field_resetHead a h0 h1 (hs.sound.bounds hx).1

lemma setHead (hs : Spans a g h) (hh : g.len h ≠ 0) :
    Spans (a.setHead h) g 0 ∧ Moves a g (a.setHead h) g := by
  have hb := hs.sound.bounds hh
  have h0 : 0 ≤ h := by omega
  have h1 : h ≤ 180224 := by omega
  refine ⟨?_, agree_setHead hs.sound a h0 h1, .refl g⟩
  refine hs.rehide (b := a.setHead h) rfl rfl ?_ ?_ ?_
  · intro x hx0 hx1
    rw [isHead_setHead]
    by_cases hxh : x = h
    · subst hxh
      simpa [hh] using (show x ≠ 0 by omega)
    · rw [if_neg hxh, hs.heads x hx0 hx1]
      have hne : g.len x ≠ 0 → x ≠ 0 := fun hx => by
        have := hs.sound.bounds hx
        omega
      simpa [hxh] using hne
  · exact fun i hi => get_table_setHead a h0 h1 hi
  · exact fun f x hx => get_field_setHead a h0 h1 (hs.sound.bounds hx).1

/-- Two neighbours are joined: the bit of one is cleared already, that of the other, `b`, is
cleared now. -/
lemma join (hs : Spans a g hid) (hh : g.len h ≠ 0) (hn : g.len n ≠ 0)
    (hheld : g.kind h = .held) (hheld' : g.kind n = .held) (hadj : h + g.len h = n)
    (hle : g.len h + g.len n ≤ 60) {b : Int} (hb : (hid = h ∧ b = n) ∨ (hid = n ∧ b = h)) :
    Spans (a.resetHead b) (g.join h n) h ∧ Moves a g (a.resetHead b) (g.join h n) := by
  have hspan := hs.sound.span h hh
  have hbh := hs.sound.bounds hh
  have hbn := hs.sound.bounds hn
  have h0 : 0 ≤ b := by omega
  have h1 : b ≤ 180224 := by omega
  constructor
  · refine hs.relen (hs.sound.join hh hn hheld hheld' hadj hle) rfl hs.heap hs.reserved ?_ ?_ ?_ ?_
    · intro x hx0 hx1
      rw [isHead_resetHead, Layout.join_len]
      by_cases hxb : x = b
      · rw [if_pos hxb]
        simp only [Bool.false_eq_true, false_iff]
        rintro ⟨hlen, hxh⟩
        rcases hb with ⟨-, rfl⟩ | ⟨-, rfl⟩
        · exact hlen (if_pos hxb)
        · exact hxh hxb
      · rw [if_neg hxb, hs.heads x hx0 hx1]
        have hne : n ≠ h := by omega
        rcases hb with ⟨rfl, rfl⟩ | ⟨rfl, rfl⟩
        · rw [if_neg hxb]
          by_cases hxh : x = hid <;> simp [hxh]
        · rw [if_neg hxb]
          by_cases hxn : x = hid <;> simp [hxn, hxb]
    · intro x hx hkind
      have hxh : x ≠ h := fun h' => hkind (h' ▸ hheld)
      rw [Layout.join_len] at hx ⊢
      by_cases hxn : x = n
      · exact absurd (if_pos hxn) hx
      · rw [if_neg hxn, if_neg hxh]
        exact ⟨rfl, rfl⟩
    · exact fun i hi => get_table_resetHead a h0 h1 hi
    · exact fun f x hx _ => get_field_resetHead a h0 h1 (hs.sound.bounds hx).1
  · exact ⟨agree_resetHead hs.sound a h0 h1, Layout.same_join hheld hheld'⟩

/-- The search for the head finds the span that a handle is in. -/
lemma spanHandleOf_eq (hs : Spans a g hid) (hh : g.len h ≠ 0) (hne : h ≠ hid) {j : Int}
    (h0 : h ≤ j) (h1 : j < h + g.len h) : a.spanHandleOf j = h := by
  have hb := hs.sound.bounds hh
  have hspan := hs.sound.span h hh
  have htop := hs.sound.top_bounds
  obtain ⟨m, rfl⟩ : ∃ m : Nat, j = h + m := ⟨(j - h).toNat, by omega⟩
  -- induction on the distance to the head: no bit inside the span is set
  induction m with
  | zero =>
    have hhead : a.isHead h = true := (hs.heads h (by omega) (by omega)).2 ⟨hh, hne⟩
    rw [spanHandleOf]
    simp [hhead]
  | succ m ih =>
    have hinside : g.len (h + (m + 1 : Nat)) = 0 := hs.sound.inside h _ hh (by omega) h1
    have hbit : ¬a.isHead (h + (m + 1 : Nat)) = true := by
      rw [hs.heads _ (by omega) (by omega)]
      exact fun hlen => hlen.1 hinside
    rw [spanHandleOf, if_pos ⟨by omega, hbit⟩]
    have hprev : h + (m + 1 : Nat) - 1 = h + m := by omega
    rw [hprev]
    exact ih (by omega) (by omega)

/-- The span in front of another. -/
lemma spanHandleOf_pred (hs : Spans a g hid) (hh : g.len h ≠ 0) (hid_eq : hid = h) :
    (h = 1 ∧ a.spanHandleOf (h - 1) = 0) ∨
      ∃ p, a.spanHandleOf (h - 1) = p ∧ g.len p ≠ 0 ∧ p + g.len p = h := by
  have hspan := hs.sound.span h hh
  by_cases h1 : h = 1
  · left
    refine ⟨h1, ?_⟩
    rw [h1, spanHandleOf]
    simp
  · right
    obtain ⟨p, hp, hle, hlt⟩ := hs.sound.cover (h - 1) (by omega) (by omega)
    have happart := hs.sound.apart hp hh (by omega)
    exact ⟨p, hs.spanHandleOf_eq hp (by omega) hle hlt, hp, by omega⟩

end Spans

end CoplusLean.Arena
