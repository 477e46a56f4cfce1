import CoplusLean.Proofs.ArenaChunks
import Mathlib.Data.Option.Basic

/-!
# What `Malloc` of a chunk does not read

The search for a span goes by `span_list_`, by the links of free spans and by the bit set. It
reads neither the table of bins nor the length in a header, and no link of a span in use. Two
arenas that differ there only get the same answer, and still differ there only.
-/

namespace CoplusLean.Arena

open Lib

/-- A byte of `bin_`, of the `Flag` of a handle in `F` or of the `hNext` of a handle in `S`. -/
def Unread (F S : Int → Prop) (x : Int) : Prop :=
  x < 160 ∨ 24576 ≤ x ∧ (x % 4096 < 4 ∧ F (pageHandleOf x) ∨
    8 ≤ x % 4096 ∧ x % 4096 < 12 ∧ S (pageHandleOf x))

/-- The two arenas differ in bytes that are not read. -/
structure Similar (F S : Int → Prop) (a b : Arena) : Prop where
  heap : b.kHeapAllocPage = a.kHeapAllocPage
  reserved : b.kMemoryReservedStart = a.kMemoryReservedStart
  bytes : ∀ x, ¬Unread F S x → b.mem.byte x = a.mem.byte x
  touched : ∀ x, b.mem.touched x = a.mem.touched x

namespace Similar

variable {F S : Int → Prop} {a b : Arena} {c : Cell} {h k n : Int}

/-- The same bytes are stored to both. -/
lemma write (hab : Similar F S a b) {a' b' : Arena} {p : Int} {w : Int → BitVec 8}
    (ha : a' = { a with mem := a.mem.write p n w }) (hb : b' = { b with mem := b.mem.write p n w }) :
    Similar F S a' b' := by
  subst ha hb
  refine ⟨hab.heap, hab.reserved, ?_, ?_⟩
  · intro x hx
    by_cases hin : p ≤ x ∧ x < p + n
    · simp [Memory.write, hin]
    · simpa [Memory.write, hin] using hab.bytes x hx
  · intro x
    simp [Memory.write, hab.touched x]

lemma set (hab : Similar F S a b) (c : Cell) (v : Int) : Similar F S (a.set c v) (b.set c v) :=
  hab.write (set_eq_write a v c) (set_eq_write b v c)

lemma setHead (hab : Similar F S a b) (h0 : 0 ≤ h) (h1 : h ≤ 180224) :
    Similar F S (a.setHead h) (b.setHead h) := by
  have hbyte : b.mem.byte (isHeadAddr + h / 8) = a.mem.byte (isHeadAddr + h / 8) := by
    apply hab.bytes
    rw [isHeadAddr_eq]
    unfold Unread
    omega
  apply hab.write (p := isHeadAddr + h / 8) rfl
  rw [← hbyte]
  rfl

/-- A cell without unread bytes. -/
lemma get (hab : Similar F S a b) (hc : ∀ x, c.addr ≤ x →
    x < c.addr + (if c.short then 2 else 4) → ¬Unread F S x) : b.get c = a.get c := by
  unfold Arena.get
  split
  · rename_i hs
    rw [if_pos hs] at hc
    exact Memory.load16_congr fun x h0 h1 => hab.bytes x (hc x h0 h1)
  · rename_i hs
    rw [if_neg hs] at hc
    exact Memory.load32_congr fun x h0 h1 => hab.bytes x (hc x h0 h1)

/-- The search reads the entry behind the last one too. -/
lemma get_spanList (hab : Similar F S a b) (h0 : 0 ≤ k) (h1 : k ≤ 61) :
    b.get (.spanList k) = a.get (.spanList k) := by
  apply hab.get
  intro x hlo hhi
  simp only [Cell.addr, ListId.addr, kPageHandleSize, kBinSlotSize, Cell.short, Bool.false_eq_true,
    if_false] at hlo hhi
  unfold Unread
  omega

lemma get_hNext (hab : Similar F S a b) (h1 : 1 ≤ h) (hS : ¬S h) :
    b.get (.hNext h) = a.get (.hNext h) := by
  apply hab.get
  intro x hlo hhi
  simp only [Cell.addr, ptrOf_eq, Field.offset, Cell.short, Field.short, Bool.false_eq_true,
    if_false] at hlo hhi
  have hpage : pageHandleOf x = h := by
    rw [pageHandleOf_eq]
    omega
  unfold Unread
  rw [hpage]
  rintro (hlow | ⟨-, hflag | hnext⟩)
  · omega
  · omega
  · exact hS hnext.2.2

lemma get_hPri (hab : Similar F S a b) (h1 : 1 ≤ h) : b.get (.hPri h) = a.get (.hPri h) := by
  apply hab.get
  intro x hlo hhi
  simp only [Cell.addr, ptrOf_eq, Field.offset, Cell.short, Field.short, Bool.false_eq_true,
    if_false] at hlo hhi
  unfold Unread
  omega

lemma get_flag (hab : Similar F S a b) (h1 : 1 ≤ h) (hF : ¬F h) :
    b.get (.flag h) = a.get (.flag h) := by
  apply hab.get
  intro x hlo hhi
  simp only [Cell.addr, ptrOf_eq, Field.offset, Cell.short, Field.short, Bool.false_eq_true,
    if_false] at hlo hhi
  have hpage : pageHandleOf x = h := by
    rw [pageHandleOf_eq]
    omega
  unfold Unread
  rw [hpage]
  rintro (hlow | ⟨-, hflag | hnext⟩)
  · omega
  · exact hF hflag.2
  · omega

lemma isHead (hab : Similar F S a b) (h0 : 0 ≤ h) (h1 : h ≤ 180224) : b.isHead h = a.isHead h := by
  apply Memory.bit_congr
  apply hab.bytes
  rw [isHeadAddr_eq]
  unfold Unread
  omega

/-! ## The operations -/

lemma popSpan (hab : Similar F S a b) (h1 : 1 ≤ h) (hS : ¬S h) :
    Similar F S (a.popSpan k h) (b.popSpan k h) := by
  have hset : Similar F S (a.set (.spanList k) (a.get (.hNext h)))
      (b.set (.spanList k) (b.get (.hNext h))) := by
    rw [hab.get_hNext h1 hS]
    exact hab.set _ _
  unfold Arena.popSpan linkedNodeDeleteHead
  simp only [memset_hPri, hset.get_hNext h1 hS]
  split
  · exact hset.set _ _
  · exact hset

lemma addRest (hab : Similar F S a b) (h1 : 1 ≤ h) (h2 : h ≤ 180224) (hS : ¬S h) (h0 : 0 ≤ n)
    (h61 : n ≤ 61) : Similar F S (a.addRest h n) (b.addRest h n) := by
  have hlinks := ((hab.setHead (by omega) h2).set (.flag h) n).set (.hPri h) 0
  have hnext := hlinks.set (.hNext h) (((b.setHead h).set (.flag h) n |>.set (.hPri h) 0).get
    (.spanList n))
  rw [hlinks.get_spanList h0 h61] at hnext
  unfold Arena.addRest
  dsimp only
  rw [hlinks.get_spanList h0 h61, hnext.get_hNext h1 hS]
  apply set
  split
  · exact hnext.set _ _
  · exact hnext

lemma searchSpan (hab : Similar F S a b) (h0 : 0 ≤ k) (h61 : k ≤ 61) :
    b.searchSpan k = a.searchSpan k := by
  fun_induction a.searchSpan k with
  | case1 k hempty ih =>
    have hle : k ≤ 60 := hempty.2
    conv_lhs => unfold Arena.searchSpan
    rw [hab.get_spanList h0 h61, if_pos hempty]
    exact ih (by omega) (by omega)
  | case2 k hstop =>
    unfold Arena.searchSpan
    rw [hab.get_spanList h0 h61, if_neg hstop]

lemma allocMemFromHeap (hab : Similar F S a b) (size : Int) (commit : Bool) :
    Option.Rel (fun r s => r.1 = s.1 ∧ r.1 = a.kMemoryReservedStart ∧ Similar F S r.2 s.2)
      (a.allocMemFromHeap size commit) (b.allocMemFromHeap size commit) := by
  unfold Arena.allocMemFromHeap
  rw [hab.heap, hab.reserved]
  split_ifs
  · exact .none
  · exact .some ⟨rfl, rfl, rfl, rfl, hab.bytes, hab.touched⟩
  · exact .none

lemma allocMaxChunkFromHeap (hab : Similar F S a b)
    (h0 : 0 ≤ pageHandleOf a.kMemoryReservedStart)
    (h1 : pageHandleOf a.kMemoryReservedStart ≤ 180224) (commit : Bool) :
    Option.Rel (Similar F S) (a.allocMaxChunkFromHeap commit) (b.allocMaxChunkFromHeap commit) := by
  unfold Arena.allocMaxChunkFromHeap allocArbitaryChunkFromHeap
  have hmem := hab.allocMemFromHeap (kSpanSlotSize * kPageLen) commit
  generalize a.allocMemFromHeap (kSpanSlotSize * kPageLen) commit = r at hmem
  generalize b.allocMemFromHeap (kSpanSlotSize * kPageLen) commit = s at hmem
  cases hmem with
  | none => exact .none
  | some hrs =>
    rename_i r s
    obtain ⟨p, a₁⟩ := r
    obtain ⟨q, b₁⟩ := s
    dsimp only at hrs
    obtain ⟨hpq, hp, hab₁⟩ := hrs
    subst hpq
    apply Option.Rel.some
    dsimp only
    rw [hp]
    generalize pageHandleOf a.kMemoryReservedStart = h at h0 h1 ⊢
    have hslot : 0 ≤ kSpanSlotSize ∧ kSpanSlotSize ≤ 61 := by decide
    generalize kSpanSlotSize = n at hslot ⊢
    have hflag := (hab₁.setHead h0 h1).set (.flag h) n
    rw [hflag.get_spanList hslot.1 hslot.2]
    have hnext := hflag.set (.hNext h) (((a₁.setHead h).set (.flag h) n).get (.spanList n))
    rw [hnext.get_spanList hslot.1 hslot.2]
    apply set
    apply set
    split
    · exact hnext.set _ _
    · exact hnext

lemma biggerSpan (hab : Similar F S a b) (h1 : 1 ≤ k) (h60 : k ≤ 60)
    (hlow : 0 ≤ pageHandleOf a.kMemoryReservedStart)
    (hhigh : pageHandleOf a.kMemoryReservedStart ≤ 180224) (commit : Bool) :
    Option.Rel (fun r s => r.1 = s.1 ∧ Similar F S r.2 s.2) (a.biggerSpan k commit)
      (b.biggerSpan k commit) := by
  have hw : int16 (k + 1) = k + 1 := int16_of_lt (by omega) (by omega)
  unfold Arena.biggerSpan
  rw [hw, hab.searchSpan (by omega) (by omega)]
  dsimp only
  split
  · have hrel := hab.allocMaxChunkFromHeap hlow hhigh commit
    generalize a.allocMaxChunkFromHeap commit = r at hrel ⊢
    generalize b.allocMaxChunkFromHeap commit = s at hrel ⊢
    cases hrel with
    | none => exact .none
    | some hrs => exact .some ⟨rfl, hrs⟩
  · exact .some ⟨rfl, hab⟩

/-- A chunk is cut off the front of the first span of `n` pages. -/
lemma splitChunk (hab : Similar F S a b) (h1 : 1 ≤ h) (h2 : h + k ≤ 180224) (hk : 1 ≤ k)
    (hkn : k ≤ n) (h60 : n ≤ 60) (hS : ¬S h) (hS' : ¬S (h + k)) :
    Similar F S
      ((((a.popSpan n h).set (.flag h) k).set (.hNext h) (-1)).addRest (h + k) (int16 (n - k)))
      ((((b.popSpan n h).set (.flag h) k).set (.hNext h) (-1)).addRest (h + k) (int16 (n - k))) := by
  have hw : int16 (n - k) = n - k := int16_of_lt (by omega) (by omega)
  rw [hw]
  have hmade := ((hab.popSpan (k := n) h1 hS).set (.flag h) k).set (.hNext h) (-1)
  exact hmade.addRest (by omega) h2 hS' (by omega) (by omega)

variable {g : Layout}

lemma not_occupied_of_free (hfree : g.kind h = .free) : ¬g.Occupied h := by
  simp [Layout.Occupied, hfree]

/-- The same answer was given, and the arenas still differ in unread bytes only. -/
structure Answers (F S : Int → Prop) (r s : Outcome × Arena) : Prop where
  outcome : s.1 = r.1
  arena : Similar F S r.2 s.2

/-- No span in use is read: the chunk comes from a free one. -/
lemma mallocBig (hab : Similar F S a b) (hs : Spans b g 0) (hnone : g.OnlyHeld 0) (h1 : 1 ≤ k)
    (h60 : k ≤ 60) (hmax : k = 60 → 0 < b.get (.spanList 60)) (hS : ∀ h, S h → g.Occupied h)
    (commit : Bool) : Answers F S (a.mallocBig k commit) (b.mallocBig k commit) := by
  unfold Arena.mallocBig
  dsimp only
  rw [← hab.get_spanList (by omega) (by omega)]
  split
  · rename_i hpos
    have hi : (ListId.span k).Valid := ⟨by omega, h60⟩
    have hfree := (hs.sound.mem_span hi).1 (hs.popSpan hi hpos).1
    have hnot : ¬S (b.get (.spanList k)) := fun h => not_occupied_of_free hfree.2.1 (hS _ h)
    generalize b.get (.spanList k) = h at *
    exact ⟨rfl, (hab.popSpan hpos hnot).set _ _⟩
  · rename_i hempty
    have hlt : k < 60 := by
      by_contra hge
      obtain rfl : k = 60 := by omega
      exact hempty (hmax rfl)
    have hstart : pageHandleOf a.kMemoryReservedStart = g.top + 1 := by
      rw [pageHandleOf_eq, ← hab.reserved, hs.reserved, hs.heap]
      omega
    have htop := hs.sound.top_bounds
    have hrel := hab.biggerSpan h1 h60 (by omega) (by omega) commit
    cases hbig : b.biggerSpan k commit with
    | none =>
      rw [hbig] at hrel
      cases ha : a.biggerSpan k commit with
      | none => exact ⟨rfl, hab⟩
      | some r =>
        rw [ha] at hrel
        cases hrel
    | some s =>
      obtain ⟨big, b₁⟩ := s
      obtain ⟨g₁, hs₁, hmoves₁, -, hlt', hle, hpos⟩ := hs.biggerSpan hnone h1 hlt hbig
      rw [hbig] at hrel
      cases ha : a.biggerSpan k commit with
      | none =>
        rw [ha] at hrel
        cases hrel
      | some r =>
        obtain ⟨big', a₁⟩ := r
        rw [ha] at hrel
        cases hrel with
        | some hrs =>
          dsimp only at hrs ⊢
          obtain ⟨rfl, hab₁⟩ := hrs
          rw [← hab₁.get_spanList (by omega) (by omega), if_neg (not_le_of_gt hpos),
            if_neg (not_le_of_gt hpos)]
          have hi : (ListId.span big').Valid := ⟨by omega, hle⟩
          have hfree := (hs₁.sound.mem_span hi).1 (hs₁.popSpan hi hpos).1
          generalize b₁.get (.spanList big') = h at *
          have hspan := hs₁.sound.span h hfree.1
          have hinside := hs₁.sound.inside h (h + k) hfree.1 (by omega) (by omega)
          have htop₁ := hs₁.sound.top_bounds
          have hkeep : ∀ x, S x → g₁.Occupied x := fun x hx => (hmoves₁.same.occupied (hS x hx)).1
          have hnot : ¬S h := fun hx => not_occupied_of_free hfree.2.1 (hkeep h hx)
          have hnot' : ¬S (h + k) := fun hx => (hkeep _ hx).1 hinside
          exact ⟨rfl, hab₁.splitChunk (by omega) (by omega) h1 (by omega) hle hnot hnot'⟩

end Similar

end CoplusLean.Arena
