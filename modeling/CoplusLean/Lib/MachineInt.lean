import Mathlib.Data.Int.ModEq
import Mathlib.Tactic.Common

/-!
# Fixed-width integers

The conversions of C++ between integer types of fixed width, as functions on `Int` and
`Nat`: a signed type holds the representative of its value modulo `2 ^ w` that lies in
`-2 ^ (w - 1) .. 2 ^ (w - 1) - 1`, an unsigned one the representative in `0 .. 2 ^ w - 1`.
-/

namespace CoplusLean.Lib

/-- Conversion to `int32_t`. -/
def int32 (n : Int) : Int := (n + 2147483648) % 4294967296 - 2147483648

/-- Conversion to `int16_t`. -/
def int16 (n : Int) : Int := (n + 32768) % 65536 - 32768

/-- Conversion to `uint32_t`. -/
def uint32 (n : Int) : Nat := (n % 4294967296).toNat

/-- Conversion to `size_t`, 64 bits wide. -/
def sizeT (n : Int) : Nat := (n % 18446744073709551616).toNat

lemma int32_of_lt {n : Int} (h0 : -2147483648 ≤ n) (h1 : n < 2147483648) : int32 n = n := by
  unfold int32
  omega

@[simp] lemma int32_zero : int32 0 = 0 := int32_of_lt (by omega) (by omega)

lemma int32_bounds (n : Int) : -2147483648 ≤ int32 n ∧ int32 n < 2147483648 := by
  unfold int32
  omega

/-- Behind the last `int` the positions are negative. -/
lemma int32_of_ge {n : Nat} (hmin : 2147483648 ≤ n) (hmax : n < 4294967296) :
    int32 (n : Int) = (n : Int) - 4294967296 := by
  unfold int32
  omega

lemma int16_of_lt {n : Int} (h0 : -32768 ≤ n) (h1 : n < 32768) : int16 n = n := by
  unfold int16
  omega

lemma sizeT_of_nonneg {n : Int} (h0 : 0 ≤ n) (h1 : n < 18446744073709551616) :
    sizeT n = n.toNat := by
  unfold sizeT
  omega

lemma sizeT_of_neg {n : Int} (h0 : n < 0) (h1 : -9223372036854775808 ≤ n) :
    9223372036854775808 ≤ sizeT n := by
  unfold sizeT
  omega

end CoplusLean.Lib
