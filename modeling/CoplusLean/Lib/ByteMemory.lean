import CoplusLean.Lib.MachineInt
import Mathlib.Data.BitVec

/-!
# Byte-addressed memory

A memory is a total map from addresses to bytes, together with the set of addresses that
were stored to since a mark was set. Integers are kept little endian in two's complement.
Every store is one `write` of a range, so that a single frame rule covers all of them:
memories that agree on a range cannot be told apart by a load from it.
-/

namespace CoplusLean.Lib

structure Memory where
  byte : Int → BitVec 8
  /-- The addresses stored to since the last `unmark`. -/
  touched : Int → Bool

namespace Memory

/-- Stores `n` bytes at `a`; the byte at `a + i` becomes `v i`. -/
def write (m : Memory) (a n : Int) (v : Int → BitVec 8) : Memory where
  byte x := if a ≤ x ∧ x < a + n then v (x - a) else m.byte x
  touched x := if a ≤ x ∧ x < a + n then true else m.touched x

def unmark (m : Memory) : Memory := { m with touched := fun _ => false }

def memset (m : Memory) (a : Int) (b : BitVec 8) (n : Int) : Memory := m.write a n fun _ => b

/-- The `i`-th byte of `v` in two's complement. -/
def byteOf (v i : Int) : BitVec 8 := BitVec.ofInt 8 (v / 256 ^ i.toNat)

def store16 (m : Memory) (a v : Int) : Memory := m.write a 2 (byteOf v)

def store32 (m : Memory) (a v : Int) : Memory := m.write a 4 (byteOf v)

def load16 (m : Memory) (a : Int) : Int :=
  int16 ((m.byte a).toNat + 256 * (m.byte (a + 1)).toNat)

def load32 (m : Memory) (a : Int) : Int :=
  int32 ((m.byte a).toNat + 256 * (m.byte (a + 1)).toNat + 65536 * (m.byte (a + 2)).toNat +
    16777216 * (m.byte (a + 3)).toNat)

/-- Bit `i` of the bit array that starts at `a`. -/
def bit (m : Memory) (a i : Int) : Bool := (m.byte (a + i / 8)).getLsbD (i % 8).toNat

def setBit (m : Memory) (a i : Int) : Memory :=
  m.write (a + i / 8) 1 fun _ => m.byte (a + i / 8) ||| BitVec.twoPow 8 (i % 8).toNat

def resetBit (m : Memory) (a i : Int) : Memory :=
  m.write (a + i / 8) 1 fun _ => m.byte (a + i / 8) &&& ~~~BitVec.twoPow 8 (i % 8).toNat

/-- The two memories agree on the bytes of `R` and on whether these were stored to. -/
def Agree (R : Int → Prop) (m m' : Memory) : Prop :=
  ∀ x, R x → m'.byte x = m.byte x ∧ m'.touched x = m.touched x

lemma Agree.refl (R : Int → Prop) (m : Memory) : Agree R m m := fun _ _ => ⟨rfl, rfl⟩

lemma Agree.trans {R : Int → Prop} {m m' m'' : Memory} (h : Agree R m m')
    (h' : Agree R m' m'') : Agree R m m'' := by
  intro x hx
  exact ⟨(h' x hx).1.trans (h x hx).1, (h' x hx).2.trans (h x hx).2⟩

lemma Agree.mono {R R' : Int → Prop} {m m' : Memory} (h : Agree R m m')
    (hsub : ∀ x, R' x → R x) : Agree R' m m' := fun x hx => h x (hsub x hx)

/-- The frame rule: a store changes nothing outside the range it writes. -/
lemma agree_write (m : Memory) {a n : Int} (v : Int → BitVec 8) {R : Int → Prop}
    (hR : ∀ x, R x → x < a ∨ a + n ≤ x) : Agree R m (m.write a n v) := by
  intro x hx
  have hout : ¬(a ≤ x ∧ x < a + n) := by
    have := hR x hx
    omega
  simp only [write, if_neg hout, and_self]

lemma byte_write_of_outside (m : Memory) {a n x : Int} (v : Int → BitVec 8)
    (hx : x < a ∨ a + n ≤ x) : (m.write a n v).byte x = m.byte x := by
  have hout : ¬(a ≤ x ∧ x < a + n) := by omega
  simp only [write, if_neg hout]

lemma byte_write_of_inside (m : Memory) {a n x : Int} (v : Int → BitVec 8)
    (h0 : a ≤ x) (h1 : x < a + n) : (m.write a n v).byte x = v (x - a) := by
  simp only [write, if_pos (And.intro h0 h1)]

/-- Stores to ranges that are apart may be swapped. -/
lemma write_comm (m : Memory) {a n b k : Int} (v w : Int → BitVec 8) (h : a + n ≤ b ∨ b + k ≤ a) :
    (m.write a n v).write b k w = (m.write b k w).write a n v := by
  have hapart : ∀ x, ¬((b ≤ x ∧ x < b + k) ∧ a ≤ x ∧ x < a + n) := by
    intro x
    omega
  simp only [write, Memory.mk.injEq]
  constructor <;> funext x <;> split_ifs with hb ha
  · exact absurd ⟨hb, ha⟩ (hapart x)
  all_goals rfl

section loads

variable {m m' : Memory}

lemma load16_congr {a : Int} (h : ∀ x, a ≤ x → x < a + 2 → m'.byte x = m.byte x) :
    m'.load16 a = m.load16 a := by
  simp only [load16, h a (by omega) (by omega), h (a + 1) (by omega) (by omega)]

lemma load32_congr {a : Int} (h : ∀ x, a ≤ x → x < a + 4 → m'.byte x = m.byte x) :
    m'.load32 a = m.load32 a := by
  simp only [load32, h a (by omega) (by omega), h (a + 1) (by omega) (by omega),
    h (a + 2) (by omega) (by omega), h (a + 3) (by omega) (by omega)]

lemma bit_congr {a i : Int} (h : m'.byte (a + i / 8) = m.byte (a + i / 8)) :
    m'.bit a i = m.bit a i := by
  simp only [bit, h]

lemma load16_write (m : Memory) {a n b : Int} (v : Int → BitVec 8)
    (h : b + 2 ≤ a ∨ a + n ≤ b) : (m.write a n v).load16 b = m.load16 b :=
  load16_congr fun _ _ _ => byte_write_of_outside m v (by omega)

lemma load32_write (m : Memory) {a n b : Int} (v : Int → BitVec 8)
    (h : b + 4 ≤ a ∨ a + n ≤ b) : (m.write a n v).load32 b = m.load32 b :=
  load32_congr fun _ _ _ => byte_write_of_outside m v (by omega)

lemma bit_write (m : Memory) {a n b i : Int} (v : Int → BitVec 8)
    (h : b + i / 8 < a ∨ a + n ≤ b + i / 8) : (m.write a n v).bit b i = m.bit b i :=
  bit_congr (byte_write_of_outside m v h)

end loads

/-! ## A store read back -/

lemma toNat_byteOf (v : Int) (i : Int) :
    ((byteOf v i).toNat : Int) = v / 256 ^ i.toNat % 256 := by
  simp only [byteOf, BitVec.toNat_ofInt]
  omega

lemma load16_store16 (m : Memory) (a v : Int) : (m.store16 a v).load16 a = int16 v := by
  have h0 : (m.store16 a v).byte a = byteOf v 0 := by
    simp [store16, byte_write_of_inside]
  have h1 : (m.store16 a v).byte (a + 1) = byteOf v 1 := by
    simp [store16, byte_write_of_inside]
  have e0 : (256 : Int) ^ (0 : Int).toNat = 1 := rfl
  have e1 : (256 : Int) ^ (1 : Int).toNat = 256 := rfl
  simp only [load16, h0, h1, toNat_byteOf, int16, e0, e1]
  omega

lemma load32_store32 (m : Memory) (a v : Int) : (m.store32 a v).load32 a = int32 v := by
  have h0 : (m.store32 a v).byte a = byteOf v 0 := by
    simp [store32, byte_write_of_inside]
  have h1 : (m.store32 a v).byte (a + 1) = byteOf v 1 := by
    simp [store32, byte_write_of_inside]
  have h2 : (m.store32 a v).byte (a + 2) = byteOf v 2 := by
    simp [store32, byte_write_of_inside]
  have h3 : (m.store32 a v).byte (a + 3) = byteOf v 3 := by
    simp [store32, byte_write_of_inside]
  have e0 : (256 : Int) ^ (0 : Int).toNat = 1 := rfl
  have e1 : (256 : Int) ^ (1 : Int).toNat = 256 := rfl
  have e2 : (256 : Int) ^ (2 : Int).toNat = 65536 := rfl
  have e3 : (256 : Int) ^ (3 : Int).toNat = 16777216 := rfl
  simp only [load32, h0, h1, h2, h3, toNat_byteOf, int32, e0, e1, e2, e3]
  omega

/-- The bytes of an integer that was loaded are those it was loaded from. -/
lemma byteOf_load32 (m : Memory) {a i : Int} (h0 : 0 ≤ i) (h4 : i < 4) :
    byteOf (m.load32 a) i = m.byte (a + i) := by
  have hb : ∀ y, (m.byte y).toNat < 256 := fun y => (m.byte y).isLt
  have b0 := hb a
  have b1 := hb (a + 1)
  have b2 := hb (a + 2)
  have b3 := hb (a + 3)
  have hi : i = 0 ∨ i = 1 ∨ i = 2 ∨ i = 3 := by omega
  apply BitVec.eq_of_toNat_eq
  apply Int.ofNat_inj.1
  rw [toNat_byteOf]
  have e0 : (256 : Int) ^ (0 : Int).toNat = 1 := rfl
  have e1 : (256 : Int) ^ (1 : Int).toNat = 256 := rfl
  have e2 : (256 : Int) ^ (2 : Int).toNat = 65536 := rfl
  have e3 : (256 : Int) ^ (3 : Int).toNat = 16777216 := rfl
  rcases hi with rfl | rfl | rfl | rfl
  · simp only [load32, int32, e0, add_zero]
    omega
  · simp only [load32, int32, e1]
    omega
  · simp only [load32, int32, e2]
    omega
  · simp only [load32, int32, e3]
    omega

lemma byteOf_zero (i : Int) : byteOf 0 i = 0#8 := by
  simp [byteOf]

/-- Clearing the four bytes of an integer stores `0`. -/
lemma memset_zero_four (m : Memory) (a : Int) : m.memset a 0#8 4 = m.store32 a 0 := by
  simp only [memset, store32]
  congr 1
  funext i
  exact (byteOf_zero i).symm

lemma load16_memset_zero (m : Memory) {a n : Int} (hn : 2 ≤ n) :
    (m.memset a 0#8 n).load16 a = 0 := by
  have h0 : (m.memset a 0#8 n).byte a = 0#8 :=
    byte_write_of_inside m _ (by omega) (by omega)
  have h1 : (m.memset a 0#8 n).byte (a + 1) = 0#8 :=
    byte_write_of_inside m _ (by omega) (by omega)
  simp [load16, h0, h1, int16]

lemma load32_eq_zero {m : Memory} {a : Int} (h : ∀ x, a ≤ x → x < a + 4 → m.byte x = 0#8) :
    m.load32 a = 0 := by
  simp [load32, h a (by omega) (by omega), h (a + 1) (by omega) (by omega),
    h (a + 2) (by omega) (by omega), h (a + 3) (by omega) (by omega)]

/-- An integer that reads `0` has four zero bytes. -/
lemma byte_eq_zero_of_load32 {m : Memory} {a x : Int} (h : m.load32 a = 0) (h0 : a ≤ x)
    (h1 : x < a + 4) : m.byte x = 0#8 := by
  have hb : ∀ y, (m.byte y).toNat < 256 := fun y => (m.byte y).isLt
  have hsum : (m.byte a).toNat = 0 ∧ (m.byte (a + 1)).toNat = 0 ∧
      (m.byte (a + 2)).toNat = 0 ∧ (m.byte (a + 3)).toNat = 0 := by
    have := hb a
    have := hb (a + 1)
    have := hb (a + 2)
    have := hb (a + 3)
    unfold load32 int32 at h
    omega
  have hx : x = a ∨ x = a + 1 ∨ x = a + 2 ∨ x = a + 3 := by omega
  apply BitVec.eq_of_toNat_eq
  rcases hx with rfl | rfl | rfl | rfl
  · exact hsum.1
  · exact hsum.2.1
  · exact hsum.2.2.1
  · exact hsum.2.2.2

/-- Storing `0` over an integer that reads `0` leaves every byte as it was. -/
lemma byte_store32_zero {m : Memory} {a : Int} (h : m.load32 a = 0) (x : Int) :
    (m.store32 a 0).byte x = m.byte x := by
  by_cases hx : a ≤ x ∧ x < a + 4
  · rw [store32, byte_write_of_inside m _ hx.1 hx.2, byteOf_zero,
      byte_eq_zero_of_load32 h hx.1 hx.2]
  · exact byte_write_of_outside m _ (by omega)

lemma bit_setBit (m : Memory) (a i j : Int) :
    (m.setBit a i).bit a j = if j = i then true else m.bit a j := by
  have hlt : (j % 8).toNat < 8 := by omega
  by_cases hbyte : j / 8 = i / 8
  · have hb : (m.setBit a i).byte (a + j / 8) =
        m.byte (a + j / 8) ||| BitVec.twoPow 8 (i % 8).toNat := by
      rw [setBit, hbyte, byte_write_of_inside m _ (by omega) (by omega)]
    rw [bit, hb, BitVec.getLsbD_or, BitVec.getLsbD_twoPow]
    by_cases hji : j = i
    · simp [hji, hji ▸ hlt]
    · have hne : (i % 8).toNat ≠ (j % 8).toNat := by omega
      simp [bit, hne, hji]
  · have hji : j ≠ i := fun h => hbyte (by rw [h])
    rw [if_neg hji]
    exact bit_write m _ (by omega)

lemma bit_resetBit (m : Memory) (a i j : Int) :
    (m.resetBit a i).bit a j = if j = i then false else m.bit a j := by
  have hlt : (j % 8).toNat < 8 := by omega
  by_cases hbyte : j / 8 = i / 8
  · have hb : (m.resetBit a i).byte (a + j / 8) =
        m.byte (a + j / 8) &&& ~~~BitVec.twoPow 8 (i % 8).toNat := by
      rw [resetBit, hbyte, byte_write_of_inside m _ (by omega) (by omega)]
    rw [bit, hb, BitVec.getLsbD_and, BitVec.getLsbD_not, BitVec.getLsbD_twoPow]
    by_cases hji : j = i
    · simp [hji, hji ▸ hlt]
    · have hne : (i % 8).toNat ≠ (j % 8).toNat := by omega
      simp [bit, hne, hji, hlt]
  · have hji : j ≠ i := fun h => hbyte (by rw [h])
    rw [if_neg hji]
    exact bit_write m _ (by omega)

end Memory

end CoplusLean.Lib
