import CoplusLean.Models.ArenaWorld
import CoplusLean.Proofs.ArenaPages

/-!
# The objects of a page

A page serves its objects in order and keeps the freed ones in a chain through their first
bytes. The chain ends in the first object that was never served, whose link is `0`, as long
as there is one. When all have been served it ends in an object whose link is `0` too, and
then `Malloc` takes that one for an object that was never served.
-/

namespace CoplusLean.Arena

open Lib

/-- The objects of a page by their offsets: those in use, those that were freed, the last freed
first, and how many have been served so far. -/
structure PageObjects where
  used : List Int
  freed : List Int
  opened : Nat

/-- The offset of the object `k` of a page. -/
def objectOffset (s : Int) (k : Nat) : Int := 16 + kBinSlotTemplate s * k

/-- The object `k` lies in the page. -/
def Fits (s : Int) (k : Nat) : Prop :=
  objectOffset s k + kBinSlotTemplate s ≤ binSpanSize s * 4096

instance (s : Int) (k : Nat) : Decidable (Fits s k) := inferInstanceAs (Decidable (_ ≤ _))

namespace PageObjects

/-- The free objects in the order in which they are served. -/
def chain (p : PageObjects) (s : Int) : List Int :=
  p.freed ++ if Fits s p.opened then [objectOffset s p.opened] else []

/-- The next object is served. -/
def serve (p : PageObjects) (s : Int) : PageObjects :=
  match p.freed with
  | o :: t => ⟨o :: p.used, t, p.opened⟩
  | [] => ⟨objectOffset s p.opened :: p.used, [], p.opened + 1⟩

/-- An object in use is freed. -/
def release (p : PageObjects) (o : Int) : PageObjects := ⟨p.used.erase o, o :: p.freed, p.opened⟩

end PageObjects

/-- Each free object holds the offset of the next, the last of them `0`. -/
def Chained (m : Memory) (base : Int) : List Int → Prop
  | [] => True
  | o :: t => m.load16 (base + o) = t.headD 0 ∧ Chained m base t

/-- The page `h` of slot `s` represents the objects `p`. -/
structure PageOk (m : Memory) (h s : Int) (p : PageObjects) : Prop where
  nUsed : m.load16 (ptrOf h + 14) = p.used.length
  oFree : m.load16 (ptrOf h + 12) = (p.chain s).headD 0
  chained : Chained m (ptrOf h) (p.chain s)
  nodup : (p.used ++ p.freed).Nodup
  slots : ∀ o, o ∈ p.used ++ p.freed ↔ ∃ k < p.opened, o = objectOffset s k
  fits : ∀ k < p.opened, Fits s k

section slots

variable {s : Int} {j k : Nat}

lemma Fits.bound (h1 : 1 ≤ s) (h39 : s ≤ 39) (hk : Fits s k) :
    16 ≤ objectOffset s k ∧ objectOffset s k + kBinSlotTemplate s ≤ 24576 ∧ 4 * k ≤ 24560 := by
  have ht := kBinSlotTemplate_bounds h1 h39
  have hsize := binSpanSize_bounds s
  have hmul : 0 ≤ kBinSlotTemplate s * k := Int.mul_nonneg (by omega) (by omega)
  have hfour : 4 * (k : Int) ≤ kBinSlotTemplate s * k :=
    Int.mul_le_mul_of_nonneg_right ht.1 (by omega)
  unfold Fits objectOffset at hk
  unfold objectOffset
  omega

/-- Two objects of a page are as far apart as an object is long. -/
lemma objectOffset_lt (s : Int) (hs : 0 ≤ kBinSlotTemplate s) (hjk : j < k) :
    objectOffset s j + kBinSlotTemplate s ≤ objectOffset s k := by
  have hmul : kBinSlotTemplate s * ((j : Int) + 1) ≤ kBinSlotTemplate s * k :=
    Int.mul_le_mul_of_nonneg_left (by omega) hs
  unfold objectOffset
  rw [Int.mul_add, Int.mul_one] at hmul
  omega

lemma objectOffset_succ (s : Int) (k : Nat) :
    objectOffset s (k + 1) = objectOffset s k + kBinSlotTemplate s := by
  unfold objectOffset
  rw [Nat.cast_succ, Int.mul_add, Int.mul_one]
  omega

lemma Fits.mono (h1 : 1 ≤ s) (h39 : s ≤ 39) (hk : Fits s k) (hjk : j ≤ k) : Fits s j := by
  have ht := kBinSlotTemplate_bounds h1 h39
  rcases Nat.lt_or_eq_of_le hjk with hlt | rfl
  · have := objectOffset_lt s (by omega) hlt
    unfold Fits at hk ⊢
    omega
  · exact hk

lemma objectOffset_injective (h1 : 1 ≤ s) (h39 : s ≤ 39)
    (heq : objectOffset s j = objectOffset s k) : j = k := by
  have ht := kBinSlotTemplate_bounds h1 h39
  rcases Nat.lt_trichotomy j k with hlt | h | hgt
  · have := objectOffset_lt s (by omega) hlt
    omega
  · exact h
  · have := objectOffset_lt s (by omega) hgt
    omega

end slots

section page

variable {m m' : Memory} {h s o : Int} {p : PageObjects}

lemma Chained.congr {base : Int} {l : List Int} (hl : Chained m base l)
    (hsame : ∀ o ∈ l, ∀ x, base + o ≤ x → x < base + o + 2 → m'.byte x = m.byte x) :
    Chained m' base l := by
  induction l with
  | nil => exact trivial
  | cons o t ih =>
    refine ⟨?_, ih hl.2 fun o ho => hsame o (List.mem_cons_of_mem _ ho)⟩
    rw [Memory.load16_congr (hsame o List.mem_cons_self)]
    exact hl.1

/-- A page is its header behind the links and the first bytes of its free objects. -/
lemma PageOk.congr (hp : PageOk m h s p)
    (hheader : ∀ x, ptrOf h + 12 ≤ x → x < ptrOf h + 16 → m'.byte x = m.byte x)
    (hchain : ∀ o ∈ p.chain s, ∀ x, ptrOf h + o ≤ x → x < ptrOf h + o + 2 →
      m'.byte x = m.byte x) : PageOk m' h s p where
  nUsed := by
    rw [Memory.load16_congr fun x h0 h1 => hheader x (by omega) (by omega)]
    exact hp.nUsed
  oFree := by
    rw [Memory.load16_congr fun x h0 h1 => hheader x (by omega) (by omega)]
    exact hp.oFree
  chained := hp.chained.congr hchain
  nodup := hp.nodup
  slots := hp.slots
  fits := hp.fits

lemma PageOk.mem_used (hp : PageOk m h s p) (ho : o ∈ p.used) :
    ∃ k < p.opened, o = objectOffset s k ∧ Fits s k := by
  obtain ⟨k, hk, rfl⟩ := (hp.slots o).1 (List.mem_append_left _ ho)
  exact ⟨k, hk, rfl, hp.fits k hk⟩

lemma PageOk.mem_chain (hp : PageOk m h s p) (h1 : 1 ≤ s) (h39 : s ≤ 39) (ho : o ∈ p.chain s) :
    o ∉ p.used ∧ ∃ k ≤ p.opened, o = objectOffset s k ∧ Fits s k := by
  rcases List.mem_append.1 ho with hfreed | hlast
  · obtain ⟨k, hk, rfl⟩ := (hp.slots o).1 (List.mem_append_right _ hfreed)
    refine ⟨fun hused => ?_, k, hk.le, rfl, hp.fits k hk⟩
    exact (List.nodup_append.1 hp.nodup).2.2 _ hused _ hfreed rfl
  · split at hlast
    · rename_i hfits
      obtain rfl := List.mem_singleton.1 hlast
      refine ⟨fun hused => ?_, p.opened, le_rfl, rfl, hfits⟩
      obtain ⟨k, hk, heq, -⟩ := hp.mem_used hused
      exact absurd (objectOffset_injective h1 h39 heq) (by omega)
    · simp at hlast

/-- A free object and one in use do not overlap. -/
lemma PageOk.apart (hp : PageOk m h s p) (h1 : 1 ≤ s) (h39 : s ≤ 39) {u : Int}
    (ho : o ∈ p.chain s) (hu : u ∈ p.used) :
    o + kBinSlotTemplate s ≤ u ∨ u + kBinSlotTemplate s ≤ o := by
  have ht := kBinSlotTemplate_bounds h1 h39
  obtain ⟨hnot, k, -, rfl, -⟩ := hp.mem_chain h1 h39 ho
  obtain ⟨j, -, rfl, -⟩ := hp.mem_used hu
  rcases Nat.lt_trichotomy k j with hlt | rfl | hgt
  · exact .inl (objectOffset_lt s (by omega) hlt)
  · exact absurd hu hnot
  · exact .inr (objectOffset_lt s (by omega) hgt)

/-- An object in use lies in its page behind the header. -/
lemma PageOk.used_bounds (hp : PageOk m h s p) (h1 : 1 ≤ s) (h39 : s ≤ 39) (ho : o ∈ p.used) :
    16 ≤ o ∧ o + kBinSlotTemplate s ≤ binSpanSize s * 4096 ∧ o < 32768 := by
  have ht := kBinSlotTemplate_bounds h1 h39
  obtain ⟨k, -, rfl, hfits⟩ := hp.mem_used ho
  have hb := hfits.bound h1 h39
  exact ⟨hb.1, hfits, by omega⟩

lemma PageOk.chain_bounds (hp : PageOk m h s p) (h1 : 1 ≤ s) (h39 : s ≤ 39)
    (ho : o ∈ p.chain s) :
    16 ≤ o ∧ o + kBinSlotTemplate s ≤ binSpanSize s * 4096 ∧ o < 32768 := by
  have ht := kBinSlotTemplate_bounds h1 h39
  obtain ⟨-, k, -, rfl, hfits⟩ := hp.mem_chain h1 h39 ho
  have hb := hfits.bound h1 h39
  exact ⟨hb.1, hfits, by omega⟩

/-- Two objects in use do not overlap. -/
lemma PageOk.used_apart (hp : PageOk m h s p) (h1 : 1 ≤ s) (h39 : s ≤ 39) {u : Int}
    (ho : o ∈ p.used) (hu : u ∈ p.used) (hne : o ≠ u) :
    o + kBinSlotTemplate s ≤ u ∨ u + kBinSlotTemplate s ≤ o := by
  have ht := kBinSlotTemplate_bounds h1 h39
  obtain ⟨k, -, rfl, -⟩ := hp.mem_used ho
  obtain ⟨j, -, rfl, -⟩ := hp.mem_used hu
  rcases Nat.lt_trichotomy k j with hlt | rfl | hgt
  · exact .inl (objectOffset_lt s (by omega) hlt)
  · exact absurd rfl hne
  · exact .inr (objectOffset_lt s (by omega) hgt)

/-- The counter of the objects in use does not overflow. -/
lemma PageOk.length_used (hp : PageOk m h s p) (h1 : 1 ≤ s) (h39 : s ≤ 39) :
    p.used.length ≤ 6141 := by
  have hsub : p.used ⊆ (List.range p.opened).map (objectOffset s) := by
    intro o ho
    obtain ⟨k, hk, rfl, -⟩ := hp.mem_used ho
    exact List.mem_map.2 ⟨k, List.mem_range.2 hk, rfl⟩
  have hnodup := (List.nodup_append.1 hp.nodup).1
  have hle : p.used.length ≤ p.opened := by
    simpa using (hnodup.subperm hsub).length_le
  cases hopened : p.opened with
  | zero => omega
  | succ n =>
    have := (hp.fits n (by omega)).bound h1 h39
    omega

/-- The objects of the page stay its first ones. -/
lemma PageOk.serve_slots (hp : PageOk m h s p) (h1 : 1 ≤ s) (h39 : s ≤ 39) {t : List Int}
    (hchain : p.chain s = o :: t) :
    ((p.serve s).used ++ (p.serve s).freed).Nodup ∧
      (∀ x, x ∈ (p.serve s).used ++ (p.serve s).freed ↔
        ∃ k < (p.serve s).opened, x = objectOffset s k) ∧
      ∀ k < (p.serve s).opened, Fits s k := by
  have hnot := (hp.mem_chain h1 h39 (hchain ▸ List.mem_cons_self)).1
  unfold PageObjects.serve
  unfold PageObjects.chain at hchain
  cases hfreed : p.freed with
  | nil =>
    have hnodup := hp.nodup
    have hslots := hp.slots
    simp only [hfreed, List.append_nil, List.nil_append] at hnodup hslots hchain ⊢
    split at hchain
    · rename_i hfits
      obtain ⟨rfl, -⟩ := List.cons_eq_cons.1 hchain
      refine ⟨List.nodup_cons.2 ⟨hnot, hnodup⟩, fun x => ?_, fun k hk => ?_⟩
      · rw [List.mem_cons, hslots]
        constructor
        · rintro (rfl | ⟨k, hk, rfl⟩)
          · exact ⟨p.opened, Nat.lt_succ_self _, rfl⟩
          · exact ⟨k, by omega, rfl⟩
        · rintro ⟨k, hk, rfl⟩
          rcases Nat.lt_or_eq_of_le (Nat.le_of_lt_succ hk) with hlt | rfl
          · exact .inr ⟨k, hlt, rfl⟩
          · exact .inl rfl
      · exact hfits.mono h1 h39 (Nat.le_of_lt_succ hk)
    · simp at hchain
  | cons y l =>
    rw [hfreed] at hchain
    obtain ⟨rfl, -⟩ := List.cons_eq_cons.1 hchain
    have hperm : (y :: p.used ++ l).Perm (p.used ++ y :: l) := List.perm_middle.symm
    have hnodup := hp.nodup
    have hslots := hp.slots
    rw [hfreed] at hnodup hslots
    exact ⟨hperm.nodup_iff.2 hnodup, fun x => by rw [hperm.mem_iff, hslots], hp.fits⟩

/-- Where the chain goes on after its first object: at the next object that was never served
when `Malloc` takes the branch for it, provided that branch is not taken with the next
object in use. -/
lemma PageOk.serve_chain (hp : PageOk m h s p) (h1 : 1 ≤ s) (h39 : s ≤ 39) {t : List Int}
    (hchain : p.chain s = o :: t)
    (hgood : ¬(t = [] ∧ o + 2 * kBinSlotTemplate s ≤ binSpanSize s * 4096 ∧
      o + kBinSlotTemplate s ∈ p.used)) :
    (p.serve s).used = o :: p.used ∧ (p.serve s).chain s =
      if t = [] ∧ o + 2 * kBinSlotTemplate s ≤ binSpanSize s * 4096 then [o + kBinSlotTemplate s]
      else t := by
  unfold PageObjects.serve
  unfold PageObjects.chain at hchain ⊢
  cases hfreed : p.freed with
  | nil =>
    simp only [hfreed, List.nil_append] at hchain ⊢
    split at hchain
    · rename_i hfits
      obtain ⟨rfl, rfl⟩ := List.cons_eq_cons.1 hchain
      refine ⟨rfl, ?_⟩
      have hiff : Fits s (p.opened + 1) ↔
          objectOffset s p.opened + 2 * kBinSlotTemplate s ≤ binSpanSize s * 4096 := by
        unfold Fits
        rw [objectOffset_succ]
        omega
      simp only [hiff, objectOffset_succ, true_and]
    · simp at hchain
  | cons y l =>
    simp only [hfreed, List.cons_append] at hchain ⊢
    obtain ⟨rfl, rfl⟩ := List.cons_eq_cons.1 hchain
    refine ⟨rfl, (if_neg ?_).symm⟩
    rintro ⟨hnil, hroom⟩
    -- all objects have been served and `y` is the only free one, so the next is in use
    obtain ⟨rfl, hrest⟩ := List.append_eq_nil_iff.1 hnil
    have hfull : ¬Fits s p.opened := fun hfits => by simp [hfits] at hrest
    have hy : y ∈ p.used ++ p.freed := by simp [hfreed]
    obtain ⟨k, hk, rfl⟩ := (hp.slots y).1 hy
    have hfits : Fits s (k + 1) := by
      unfold Fits
      rw [objectOffset_succ]
      omega
    have hlt : k + 1 < p.opened := by
      by_contra hge
      exact hfull (hfits.mono h1 h39 (by omega))
    have hnext : objectOffset s (k + 1) ∈ p.used ++ p.freed := (hp.slots _).2 ⟨k + 1, hlt, rfl⟩
    rw [hfreed, List.mem_append, List.mem_singleton] at hnext
    rcases hnext with hused | heq
    · rw [objectOffset_succ] at hused
      exact hgood ⟨hnil, hroom, hused⟩
    · exact absurd (objectOffset_injective h1 h39 heq) (by omega)

lemma PageOk.serve (hp : PageOk m h s p) (h1 : 1 ≤ s) (h39 : s ≤ 39) {t : List Int}
    (hchain : p.chain s = o :: t)
    (hused : m'.load16 (ptrOf h + 14) = (p.serve s).used.length)
    (hfree : m'.load16 (ptrOf h + 12) = ((p.serve s).chain s).headD 0)
    (hlinks : Chained m' (ptrOf h) ((p.serve s).chain s)) : PageOk m' h s (p.serve s) := by
  obtain ⟨hnodup, hslots, hfits⟩ := hp.serve_slots h1 h39 hchain
  exact ⟨hused, hfree, hlinks, hnodup, hslots, hfits⟩

/-- A page whose object is freed: the object links to the chain there was. -/
lemma PageOk.release (hp : PageOk m h s p) (ho : o ∈ p.used)
    (hused : m'.load16 (ptrOf h + 14) = p.used.length - 1)
    (hfree : m'.load16 (ptrOf h + 12) = o)
    (hlink : m'.load16 (ptrOf h + o) = (p.chain s).headD 0)
    (hlinks : Chained m' (ptrOf h) (p.chain s)) : PageOk m' h s (p.release o) := by
  have hperm : (p.used.erase o ++ o :: p.freed).Perm (p.used ++ p.freed) :=
    List.perm_middle.trans ((List.perm_cons_erase ho).symm.append_right p.freed)
  have hpos := List.length_pos_of_mem ho
  refine ⟨?_, ?_, ?_, hperm.nodup_iff.2 hp.nodup, fun x => ?_, hp.fits⟩
  · rw [hused, PageObjects.release, List.length_erase_of_mem ho]
    omega
  · rw [hfree]
    rfl
  · exact ⟨hlink, hlinks⟩
  · exact hperm.mem_iff.trans (hp.slots x)

end page

/-! ## Serving and freeing an object -/

section object

variable {a : Arena} {g : Layout} {h s o : Int} {p : PageObjects}

lemma get_oFree (a : Arena) (h : Int) : a.get (.oFree h) = a.mem.load16 (ptrOf h + 12) := by
  simp [get, Cell.short, Cell.addr, Field.short, Field.offset]

lemma get_nUsed (a : Arena) (h : Int) : a.get (.nUsed h) = a.mem.load16 (ptrOf h + 14) := by
  simp [get, Cell.short, Cell.addr, Field.short, Field.offset]

/-- Where the calls for one page `h` must not store: outside of the page, in the links of its
header and in the objects in use. -/
def Guarded (g : Layout) (h s : Int) (used : List Int) (x : Int) : Prop :=
  x < ptrOf h + 12 ∨ ptrOf (h + g.len h) ≤ x ∨
    ∃ u ∈ used, ptrOf h + u ≤ x ∧ x < ptrOf h + u + kBinSlotTemplate s

/-- A store into the page behind the links of its header. -/
lemma Spans.write_page (hs : Spans a g 0) (hh : g.len h ≠ 0) {a' : Arena} {q n : Int}
    {v : Int → BitVec 8} (hmem : a'.mem = a.mem.write q n v)
    (hheap : a'.kHeapAllocPage = a.kHeapAllocPage)
    (hres : a'.kMemoryReservedStart = a.kMemoryReservedStart) (hlow : ptrOf h + 12 ≤ q)
    (hhigh : q + n ≤ ptrOf h + g.len h * 4096) : Spans a' g 0 := by
  apply hs.write_inside hmem hheap hres hh hlow
  simp only [ptrOf_eq] at *
  omega

/-- The link of an object of the page is cleared. -/
lemma Spans.clear_link (hs : Spans a g 0) (hh : g.len h ≠ 0) {q : Int} (hlow : ptrOf h + 12 ≤ q)
    (hhigh : q + 4 ≤ ptrOf h + g.len h * 4096) : Spans (a.memset q 0#8 kPageOffsetSize) g 0 := by
  have hmem : (a.memset q 0#8 kPageOffsetSize).mem = a.mem.write q 4 fun _ => 0#8 := rfl
  exact hs.write_page hh hmem rfl rfl hlow hhigh

/-- A store to `oFree` or `nUsed` of a page. -/
lemma Spans.set_header (hs : Spans a g 0) (hh : g.len h ≠ 0) {f : Field}
    (hf : f = .oFree ∨ f = .nUsed) (v : Int) :
    Spans (a.set (.field f h) v) g 0 ∧
      (∀ x, x < ptrOf h + 12 ∨ ptrOf h + 16 ≤ x →
        (a.set (.field f h) v).mem.byte x = a.mem.byte x) ∧
      ∀ used : List Int, (∀ u ∈ used, 16 ≤ u) →
        Memory.Agree (Guarded g h s used) a.mem (a.set (.field f h) v).mem := by
  have hspan := hs.sound.span h hh
  obtain ⟨q, hlow, hhigh, hmem⟩ : ∃ q, ptrOf h + 12 ≤ q ∧ q + 2 ≤ ptrOf h + 16 ∧
      (a.set (.field f h) v).mem = a.mem.write q 2 (Memory.byteOf v) := by
    rcases hf with rfl | rfl
    · exact ⟨ptrOf h + 12, by omega, by omega, set_mem_field a .oFree h v⟩
    · exact ⟨ptrOf h + 14, by omega, by omega, set_mem_field a .nUsed h v⟩
  refine ⟨hs.write_page hh hmem rfl rfl hlow (by omega), fun x hx => ?_, fun used hused => ?_⟩
  · rw [hmem]
    exact Memory.byte_write_of_outside _ _ (by omega)
  · rw [hmem]
    apply Memory.agree_write
    rintro x (hx | hx | ⟨u, hu, hx, -⟩)
    · omega
    · simp only [ptrOf_eq] at *
      omega
    · have := hused u hu
      omega

/-- Loads from the objects of a page do not see its header. -/
lemma load16_of_header {m m' : Memory} {base : Int}
    (hbyte : ∀ x, x < base + 12 ∨ base + 16 ≤ x → m'.byte x = m.byte x) (ho : 16 ≤ o) :
    m'.load16 (base + o) = m.load16 (base + o) :=
  Memory.load16_congr fun x _ _ => hbyte x (by omega)

lemma Chained.of_header {m m' : Memory} {base : Int} {l : List Int} (hl : Chained m base l)
    (hbyte : ∀ x, x < base + 12 ∨ base + 16 ≤ x → m'.byte x = m.byte x)
    (hlow : ∀ o ∈ l, 16 ≤ o) : Chained m' base l := by
  apply hl.congr
  intro o ho x hx _
  have := hlow o ho
  exact hbyte x (by omega)

lemma headD_eq_zero_iff {t : List Int} (ht : ∀ x ∈ t, 16 ≤ x) : t.headD 0 = 0 ↔ t = [] := by
  cases t with
  | nil => simp
  | cons x t =>
    have := ht x List.mem_cons_self
    simp only [List.headD_cons, reduceCtorEq, iff_false]
    omega

/-- The link to the next free object fits its field. -/
lemma int16_headD {t : List Int} (ht : ∀ x ∈ t, 16 ≤ x ∧ x < 32768) :
    int16 (t.headD 0) = t.headD 0 := by
  cases t with
  | nil => exact int16_of_lt (by decide) (by decide)
  | cons x t =>
    have := ht x List.mem_cons_self
    rw [List.headD_cons]
    exact int16_of_lt (by omega) (by omega)

/-- The state after the first of the free objects was served. -/
structure Served (a : Arena) (g : Layout) (h s : Int) (p : PageObjects) (o : Int)
    (r : Outcome × Arena) : Prop where
  block : r.1 = .block (ptrOf h + o)
  spans : Spans r.2 g 0
  page : PageOk r.2.mem h s (p.serve s)
  used : (p.serve s).used = o :: p.used
  agree : Memory.Agree (Guarded g h s p.used) a.mem r.2.mem

/-- The count of the objects in use went up for the object `o`, which the free objects `t`
follow. -/
structure Counted (a : Arena) (g : Layout) (h s : Int) (p : PageObjects) (o : Int) (t : List Int)
    (a₁ : Arena) : Prop where
  spans : Spans a₁ g 0
  count : a₁.get (.nUsed h) = p.used.length + 1
  link : a₁.mem.load16 (ptrOf h + o) = t.headD 0
  chained : Chained a₁.mem (ptrOf h) t
  agree : Memory.Agree (Guarded g h s p.used) a.mem a₁.mem

lemma Spans.counted (hs : Spans a g 0) (hh : g.len h ≠ 0) (hp : PageOk a.mem h s p)
    (h1 : 1 ≤ s) (h39 : s ≤ 39) {t : List Int} (hchain : p.chain s = o :: t) :
    Counted a g h s p o t (a.set (.nUsed h) (a.get (.nUsed h) + 1)) := by
  have hlow : ∀ x ∈ o :: t, 16 ≤ x := fun x hx => (hp.chain_bounds h1 h39 (hchain ▸ hx)).1
  have hlength := hp.length_used h1 h39
  have hlinks := hp.chained
  rw [hchain] at hlinks
  obtain ⟨hs₁, hbyte₁, hagree₁⟩ := hs.set_header (s := s) hh (.inr rfl) (a.get (.nUsed h) + 1)
  constructor
  · exact hs₁
  · rw [get_set_field, if_pos ⟨rfl, rfl⟩, Field.wrap_nUsed, get_nUsed, hp.nUsed]
    exact int16_of_lt (by omega) (by omega)
  · rw [load16_of_header hbyte₁ (hlow o List.mem_cons_self), hlinks.1]
  · exact hlinks.2.of_header hbyte₁ fun x hx => hlow x (List.mem_cons_of_mem _ hx)
  · exact hagree₁ _ fun u hu => (hp.used_bounds h1 h39 hu).1

/-- The object behind `o` was never served and ends the chain from now on. -/
lemma Counted.openNext {a₁ : Arena} {t : List Int} (hc : Counted a g h s p o t a₁)
    (hh : g.len h ≠ 0) (hlen : g.len h = binSpanSize s) (hp : PageOk a.mem h s p) (h1 : 1 ≤ s)
    (h39 : s ≤ 39) (hchain : p.chain s = o :: t)
    (hroom : o + 2 * kBinSlotTemplate s ≤ binSpanSize s * 4096)
    (hused : (p.serve s).used = o :: p.used)
    (hnext : (p.serve s).chain s = [o + kBinSlotTemplate s]) :
    Served a g h s p o (.block (ptrOf h + o), (a₁.set (.oFree h) (o + kBinSlotTemplate s)).memset
      (ptrOf h + o + kBinSlotTemplate s) 0#8 kPageOffsetSize) := by
  have ht := kBinSlotTemplate_bounds h1 h39
  have hsize := binSpanSize_bounds s
  have hb := hp.chain_bounds h1 h39 (hchain ▸ List.mem_cons_self)
  have hlow : ∀ u ∈ p.used, 16 ≤ u := fun u hu => (hp.used_bounds h1 h39 hu).1
  have hend : ptrOf (h + g.len h) = ptrOf h + binSpanSize s * 4096 := by
    simp only [ptrOf_eq]
    omega
  obtain ⟨hs₂, -, hagree₂⟩ := hc.spans.set_header (s := s) hh (.inl rfl) (o + kBinSlotTemplate s)
  have hrange : int16 (o + kBinSlotTemplate s) = o + kBinSlotTemplate s :=
    int16_of_lt (by omega) (by omega)
  have hmem : ((a₁.set (.oFree h) (o + kBinSlotTemplate s)).memset
      (ptrOf h + o + kBinSlotTemplate s) 0#8 kPageOffsetSize).mem =
      (a₁.set (.oFree h) (o + kBinSlotTemplate s)).mem.write
        (ptrOf h + o + kBinSlotTemplate s) 4 fun _ => 0#8 := rfl
  have hpage : PageOk ((a₁.set (.oFree h) (o + kBinSlotTemplate s)).memset
      (ptrOf h + o + kBinSlotTemplate s) 0#8 kPageOffsetSize).mem h s (p.serve s) := by
    apply hp.serve h1 h39 hchain
    · rw [hmem, Memory.load16_write _ _ (by omega), ← get_nUsed, get_set_field,
        if_neg (by simp), hc.count, hused, List.length_cons, Nat.cast_succ]
    · rw [hmem, Memory.load16_write _ _ (by omega), ← get_oFree, get_set_field,
        if_pos ⟨rfl, rfl⟩, Field.wrap_oFree, hrange, hnext]
      rfl
    · rw [hnext]
      refine ⟨?_, trivial⟩
      rw [← add_assoc]
      exact Memory.load16_memset_zero _ (by decide)
  refine ⟨rfl, hs₂.clear_link hh (by omega) (by omega), hpage, hused, ?_⟩
  apply (hc.agree.trans (hagree₂ _ hlow)).trans
  rw [hmem]
  apply Memory.agree_write
  rintro x (hx | hx | ⟨u, hu, hx0, hx1⟩)
  · omega
  · omega
  · have hapart := hpage.apart h1 h39 (o := o + kBinSlotTemplate s) (u := u)
      (by rw [hnext]; exact List.mem_cons_self) (by rw [hused]; exact List.mem_cons_of_mem _ hu)
    omega

/-- The chain goes on with the free objects behind `o`. -/
lemma Counted.takeNext {a₁ : Arena} {t : List Int} (hc : Counted a g h s p o t a₁)
    (hh : g.len h ≠ 0) (hp : PageOk a.mem h s p) (h1 : 1 ≤ s) (h39 : s ≤ 39)
    (hchain : p.chain s = o :: t) (hused : (p.serve s).used = o :: p.used)
    (hnext : (p.serve s).chain s = t) :
    Served a g h s p o (.block (ptrOf h + o), a₁.set (.oFree h) (t.headD 0)) := by
  have hb : ∀ x ∈ t, 16 ≤ x ∧ x < 32768 := by
    intro x hx
    have := hp.chain_bounds h1 h39 (hchain ▸ List.mem_cons_of_mem _ hx)
    exact ⟨this.1, this.2.2⟩
  have hlow : ∀ u ∈ p.used, 16 ≤ u := fun u hu => (hp.used_bounds h1 h39 hu).1
  obtain ⟨hs₂, hbyte₂, hagree₂⟩ := hc.spans.set_header (s := s) hh (.inl rfl) (t.headD 0)
  refine ⟨rfl, hs₂, ?_, hused, hc.agree.trans (hagree₂ _ hlow)⟩
  apply hp.serve h1 h39 hchain
  · rw [← get_nUsed, get_set_field, if_neg (by simp), hc.count, hused, List.length_cons,
      Nat.cast_succ]
  · rw [← get_oFree, get_set_field, if_pos ⟨rfl, rfl⟩, Field.wrap_oFree, int16_headD hb,
      hnext]
  · rw [hnext]
    exact hc.chained.of_header hbyte₂ fun x hx => (hb x hx).1

/-- What `takeObject` returns, with its condition read on the offsets. -/
lemma takeObject_eq {a₁ : Arena} (ha₁ : a₁ = a.set (.nUsed h) (a.get (.nUsed h) + 1))
    (hfree : a.get (.oFree h) = o) (s : Int) :
    a.takeObject h s = (.block (ptrOf h + o),
      if a₁.mem.load16 (ptrOf h + o) = 0 ∧ o + 2 * kBinSlotTemplate s ≤ binSpanSize s * 4096 then
        (a₁.set (.oFree h) (o + kBinSlotTemplate s)).memset (ptrOf h + o + kBinSlotTemplate s) 0#8
          kPageOffsetSize
      else a₁.set (.oFree h) (a₁.mem.load16 (ptrOf h + o))) := by
  have hfree₁ : a₁.get (.oFree h) = o := by
    rw [ha₁, get_set_field, if_neg (by simp), hfree]
  have hlen : kPageLen = 4096 := rfl
  unfold Arena.takeObject
  dsimp only
  rw [← ha₁, hfree₁, hlen]
  split
  · rename_i hcond
    rw [if_pos ⟨hcond.1, by omega⟩]
  · rename_i hcond
    rw [if_neg fun hnext => hcond ⟨hnext.1, by omega⟩]

lemma Spans.takeObject (hs : Spans a g 0) (hh : g.len h ≠ 0) (hpage : g.kind h = .page s)
    (hp : PageOk a.mem h s p) {t : List Int} (hchain : p.chain s = o :: t)
    (hgood : ¬(a.mem.load16 (ptrOf h + o) = 0 ∧
      o + 2 * kBinSlotTemplate s ≤ binSpanSize s * 4096 ∧ o + kBinSlotTemplate s ∈ p.used)) :
    Served a g h s p o (a.takeObject h s) := by
  obtain ⟨h1, h39, hlen⟩ := hs.sound.page h s hh hpage
  have htail : ∀ x ∈ t, 16 ≤ x := fun x hx =>
    (hp.chain_bounds h1 h39 (hchain ▸ List.mem_cons_of_mem _ hx)).1
  have hlink : a.mem.load16 (ptrOf h + o) = t.headD 0 := by
    have hlinks := hp.chained
    rw [hchain] at hlinks
    exact hlinks.1
  rw [hlink, headD_eq_zero_iff htail] at hgood
  obtain ⟨hused, hnext⟩ := hp.serve_chain h1 h39 hchain hgood
  have hc := hs.counted hh hp h1 h39 hchain
  have hfree : a.get (.oFree h) = o := by
    rw [get_oFree, hp.oFree, hchain]
    rfl
  rw [takeObject_eq rfl hfree, hc.link]
  split
  · rename_i hcond
    rw [if_pos ⟨(headD_eq_zero_iff htail).1 hcond.1, hcond.2⟩] at hnext
    exact hc.openNext hh hlen hp h1 h39 hchain hcond.2 hused hnext
  · rename_i hcond
    rw [headD_eq_zero_iff htail] at hcond
    rw [if_neg hcond] at hnext
    exact hc.takeNext hh hp h1 h39 hchain hused hnext

end object

end CoplusLean.Arena
