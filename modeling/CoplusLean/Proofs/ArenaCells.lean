import CoplusLean.Models.Arena

/-!
# Cells of the arena

The tables, the bit set and the headers of pages with a positive handle do not overlap, so
each of them behaves as a variable of its own. The header of handle `0`, where `hNext` of a
last page points, lies inside the bit set and is left out here.
-/

namespace CoplusLean.Arena

open Lib

lemma ptrOf_eq (h : Int) : ptrOf h = h * 4096 + 20480 := by
  have hres : kSelfReservedPage = 6 := by decide
  simp only [ptrOf, kPageLen, hres]
  omega

lemma pageHandleOf_eq (p : Int) : pageHandleOf p = p / 4096 - 5 := by
  have hres : kSelfReservedPage = 6 := by decide
  simp only [pageHandleOf, kPageLen, hres]
  omega

lemma isHeadAddr_eq : isHeadAddr = 404 := by decide

/-- An index inside its table. -/
def ListId.Valid : ListId → Prop
  | bin s => 0 ≤ s ∧ s ≤ 39
  | span k => 0 ≤ k ∧ k ≤ 60

lemma ListId.Valid.bounds {i : ListId} (hi : i.Valid) : 0 ≤ i.addr ∧ i.addr + 4 ≤ 404 := by
  cases i <;> simp only [Valid, addr, kPageHandleSize, kBinSlotSize] at * <;> omega

lemma ListId.Valid.apart {i j : ListId} (hi : i.Valid) (hj : j.Valid) (hij : i ≠ j) :
    i.addr + 4 ≤ j.addr ∨ j.addr + 4 ≤ i.addr := by
  cases i <;> cases j <;>
    simp only [Valid, addr, kPageHandleSize, kBinSlotSize, ne_eq, bin.injEq, span.injEq,
      reduceCtorEq, not_false_eq_true] at * <;> omega

/-- The value a field holds after `v` was assigned to it. -/
def Field.wrap (f : Field) (v : Int) : Int := if f.short then int16 v else int32 v

-- By `simp` and not by `rfl`: the kernel would unfold the wrapped value with its literals.
@[simp] lemma Field.wrap_flag (v : Int) : Field.flag.wrap v = int32 v := by simp [wrap, short]

@[simp] lemma Field.wrap_hPri (v : Int) : Field.hPri.wrap v = int32 v := by simp [wrap, short]

@[simp] lemma Field.wrap_hNext (v : Int) : Field.hNext.wrap v = int32 v := by simp [wrap, short]

@[simp] lemma Field.wrap_oFree (v : Int) : Field.oFree.wrap v = int16 v := by simp [wrap, short]

@[simp] lemma Field.wrap_nUsed (v : Int) : Field.nUsed.wrap v = int16 v := by simp [wrap, short]

/-- The bytes of a field. -/
lemma Field.bounds (f : Field) :
    0 ≤ f.offset ∧ f.offset + (if f.short then 2 else 4) ≤ 16 := by
  cases f <;> simp [offset, short]

section store

variable (a : Arena) {i j : ListId} {f f' : Field} {h x : Int} (v : Int)

lemma set_mem (c : Cell) :
    (a.set c v).mem = a.mem.write c.addr (if c.short then 2 else 4) (Memory.byteOf v) := by
  unfold set
  split <;> simp_all [Memory.store16, Memory.store32]

lemma set_eq_write (c : Cell) : a.set c v =
    { a with mem := a.mem.write c.addr (if c.short then 2 else 4) (Memory.byteOf v) } := by
  rw [← set_mem]
  rfl

@[simp] lemma set_kHeapAllocPage (c : Cell) : (a.set c v).kHeapAllocPage = a.kHeapAllocPage := rfl

@[simp] lemma set_kMemoryReservedStart (c : Cell) :
    (a.set c v).kMemoryReservedStart = a.kMemoryReservedStart := rfl

/-- A store outside a cell leaves it as it was. -/
lemma get_of_write {a a' : Arena} {p n : Int} {w : Int → BitVec 8} {c : Cell}
    (hmem : a'.mem = a.mem.write p n w)
    (hout : c.addr + (if c.short then 2 else 4) ≤ p ∨ p + n ≤ c.addr) : a'.get c = a.get c := by
  unfold get
  rw [hmem]
  split
  · rename_i hs
    rw [if_pos hs] at hout
    exact Memory.load16_write a.mem w hout
  · rename_i hs
    rw [if_neg hs] at hout
    exact Memory.load32_write a.mem w hout

lemma get_set_self (c : Cell) :
    (a.set c v).get c = if c.short then int16 v else int32 v := by
  unfold get set
  split
  · exact Memory.load16_store16 a.mem c.addr v
  · exact Memory.load32_store32 a.mem c.addr v

@[simp] lemma get_set_field : (a.set (.field f x) v).get (.field f' h) =
    if f' = f ∧ h = x then f.wrap v else a.get (.field f' h) := by
  by_cases hc : f' = f ∧ h = x
  · obtain ⟨rfl, rfl⟩ := hc
    rw [if_pos ⟨rfl, rfl⟩, get_set_self]
    rfl
  · rw [if_neg hc]
    apply get_of_write (set_mem a v _)
    simp only [Cell.addr, Cell.short, ptrOf_eq]
    by_cases hx : h = x
    · have hf : f' ≠ f := fun hf => hc ⟨hf, hx⟩
      subst hx
      cases f <;> cases f' <;> simp [Field.offset, Field.short] at * <;> omega
    · have := f.bounds
      have := f'.bounds
      omega

@[simp] lemma get_set_table (hi : i.Valid) (hj : j.Valid) : (a.set (.table i) v).get (.table j) =
    if j = i then int32 v else a.get (.table j) := by
  by_cases hij : j = i
  · subst hij
    rw [if_pos rfl, get_set_self]
    rfl
  · rw [if_neg hij]
    apply get_of_write (set_mem a v _)
    have := hj.apart hi hij
    simp only [Cell.addr, Cell.short, Bool.false_eq_true, if_false]
    omega

@[simp] lemma get_field_set_table (hi : i.Valid) (hh : 1 ≤ h) :
    (a.set (.table i) v).get (.field f h) = a.get (.field f h) := by
  apply get_of_write (set_mem a v _)
  have := hi.bounds
  have := f.bounds
  simp only [Cell.addr, Cell.short, ptrOf_eq, Bool.false_eq_true, if_false]
  omega

@[simp] lemma get_table_set_field (hi : i.Valid) (hx : 1 ≤ x) :
    (a.set (.field f x) v).get (.table i) = a.get (.table i) := by
  apply get_of_write (set_mem a v _)
  have := hi.bounds
  have := f.bounds
  simp only [Cell.addr, Cell.short, ptrOf_eq, Bool.false_eq_true, if_false]
  omega

@[simp] lemma isHead_set_table (hi : i.Valid) (hh : 0 ≤ h) :
    (a.set (.table i) v).isHead h = a.isHead h := by
  unfold isHead
  rw [set_mem, isHeadAddr_eq]
  apply Memory.bit_write
  have := hi.bounds
  simp only [Cell.addr, Cell.short, Bool.false_eq_true, if_false]
  omega

@[simp] lemma isHead_set_field (hx : 1 ≤ x) (hh : h ≤ 180224) :
    (a.set (.field f x) v).isHead h = a.isHead h := by
  unfold isHead
  rw [set_mem, isHeadAddr_eq]
  apply Memory.bit_write
  have := f.bounds
  simp only [Cell.addr, Cell.short, ptrOf_eq]
  omega

end store

section heads

variable (a : Arena) {i : ListId} {f : Field} {h x : Int}

@[simp] lemma setHead_kHeapAllocPage : (a.setHead x).kHeapAllocPage = a.kHeapAllocPage := rfl

@[simp] lemma resetHead_kHeapAllocPage : (a.resetHead x).kHeapAllocPage = a.kHeapAllocPage := rfl

@[simp] lemma setHead_kMemoryReservedStart :
    (a.setHead x).kMemoryReservedStart = a.kMemoryReservedStart := rfl

@[simp] lemma resetHead_kMemoryReservedStart :
    (a.resetHead x).kMemoryReservedStart = a.kMemoryReservedStart := rfl

lemma setHead_mem : (a.setHead x).mem = a.mem.write (isHeadAddr + x / 8) 1 fun _ =>
    a.mem.byte (isHeadAddr + x / 8) ||| BitVec.twoPow 8 (x % 8).toNat := rfl

lemma resetHead_mem : (a.resetHead x).mem = a.mem.write (isHeadAddr + x / 8) 1 fun _ =>
    a.mem.byte (isHeadAddr + x / 8) &&& ~~~BitVec.twoPow 8 (x % 8).toNat := rfl

@[simp] lemma isHead_setHead : (a.setHead x).isHead h = if h = x then true else a.isHead h :=
  Memory.bit_setBit a.mem isHeadAddr x h

@[simp] lemma isHead_resetHead : (a.resetHead x).isHead h = if h = x then false else a.isHead h :=
  Memory.bit_resetBit a.mem isHeadAddr x h

/-- A change of one bit of `is_head_` reaches no other cell. -/
lemma get_of_write_head {a a' : Arena} {w : Int → BitVec 8} {c : Cell}
    (hmem : a'.mem = a.mem.write (isHeadAddr + x / 8) 1 w) (h0 : 0 ≤ x) (h1 : x ≤ 180224)
    (hc : c.addr + (if c.short then 2 else 4) ≤ 404 ∨ 22933 ≤ c.addr) :
    a'.get c = a.get c := by
  apply get_of_write hmem
  rw [isHeadAddr_eq]
  omega

lemma field_addr (f : Field) (hh : 1 ≤ h) : 22933 ≤ (Cell.field f h).addr := by
  have := f.bounds
  simp only [Cell.addr, ptrOf_eq]
  omega

@[simp] lemma get_field_setHead (h0 : 0 ≤ x) (h1 : x ≤ 180224) (hh : 1 ≤ h) :
    (a.setHead x).get (.field f h) = a.get (.field f h) :=
  get_of_write_head (setHead_mem a) h0 h1 (.inr (field_addr f hh))

@[simp] lemma get_table_setHead (h0 : 0 ≤ x) (h1 : x ≤ 180224) (hi : i.Valid) :
    (a.setHead x).get (.table i) = a.get (.table i) :=
  get_of_write_head (setHead_mem a) h0 h1 (.inl hi.bounds.2)

@[simp] lemma get_field_resetHead (h0 : 0 ≤ x) (h1 : x ≤ 180224) (hh : 1 ≤ h) :
    (a.resetHead x).get (.field f h) = a.get (.field f h) :=
  get_of_write_head (resetHead_mem a) h0 h1 (.inr (field_addr f hh))

@[simp] lemma get_table_resetHead (h0 : 0 ≤ x) (h1 : x ≤ 180224) (hi : i.Valid) :
    (a.resetHead x).get (.table i) = a.get (.table i) :=
  get_of_write_head (resetHead_mem a) h0 h1 (.inl hi.bounds.2)

end heads

/-- Clearing `hPri` with `memset`. -/
lemma memset_hPri (a : Arena) (h : Int) :
    a.memset (ptrOf h + kFlagSize) 0#8 kPageHandleSize = a.set (.hPri h) 0 := by
  unfold memset set
  congr 1
  exact Memory.memset_zero_four a.mem _

end CoplusLean.Arena
