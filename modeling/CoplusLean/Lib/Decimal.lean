import Mathlib.Data.List.Basic
import Mathlib.Tactic.Common

/-!
# Decimal text

`decimal` writes a number and `digitsValue` reads digits back. `atoi` is the C function: it
skips white space, takes a sign, and reads digits as far as they go. A value that is no `int`
becomes the largest or the least one.
-/

namespace CoplusLean.Lib

variable {n acc fuel : Nat} {s ds : List UInt8}

def isDigit (b : UInt8) : Bool := decide (48 ≤ b.toNat ∧ b.toNat ≤ 57)

def isWhite (b : UInt8) : Bool := decide (b.toNat = 32 ∨ 9 ≤ b.toNat ∧ b.toNat ≤ 13)

/-- The digits of `n` in front of `s`. -/
def digitsLoop : Nat → Nat → List UInt8 → List UInt8
  | 0, _, s => s
  | fuel + 1, n, s =>
    if n < 10 then .ofNat (48 + n) :: s
    else digitsLoop fuel (n / 10) (.ofNat (48 + n % 10) :: s)

def decimal (n : Nat) : List UInt8 := digitsLoop (n + 1) n []

/-- What digits add to the value that was read in front of them. -/
def digitsValue (acc : Nat) (s : List UInt8) : Nat :=
  s.foldl (fun n b => 10 * n + (b.toNat - 48)) acc

def atoi (s : List UInt8) : Int :=
  match s.dropWhile isWhite with
  | [] => 0
  | b :: s =>
    if b = 45 then max (-(digitsValue 0 (s.takeWhile isDigit) : Int)) (-2147483648)
    else if b = 43 then min (digitsValue 0 (s.takeWhile isDigit) : Int) 2147483647
    else min (digitsValue 0 ((b :: s).takeWhile isDigit) : Int) 2147483647

lemma toNat_digit {d : Nat} (hd : d < 10) : (UInt8.ofNat (48 + d)).toNat = 48 + d := by
  simp only [UInt8.toNat_ofNat']
  omega

lemma isDigit_digit {d : Nat} (hd : d < 10) : isDigit (.ofNat (48 + d)) = true := by
  rw [isDigit, toNat_digit hd, decide_eq_true_eq]
  omega

lemma digitsLoop_append (hfuel : n < fuel) (s : List UInt8) :
    digitsLoop fuel n s = digitsLoop (n + 1) n [] ++ s := by
  induction fuel using Nat.strongRecOn generalizing n s with
  | ind fuel ih =>
    obtain ⟨fuel, rfl⟩ : ∃ k, fuel = k + 1 := ⟨fuel - 1, by omega⟩
    rw [digitsLoop, digitsLoop]
    split
    · rfl
    · have hdiv : n / 10 < n := Nat.div_lt_self (by omega) (by omega)
      rw [ih fuel (by omega) (by omega), ih n (by omega) hdiv, List.append_assoc]
      rfl

/-- The last digit behind those of the tenth part. -/
lemma decimal_of_ge (hn : 10 ≤ n) :
    decimal n = decimal (n / 10) ++ [.ofNat (48 + n % 10)] := by
  have hdiv : n / 10 < n := Nat.div_lt_self (by omega) (by omega)
  rw [decimal, digitsLoop, if_neg (by omega), digitsLoop_append hdiv]
  rfl

lemma decimal_of_lt (hn : n < 10) : decimal n = [.ofNat (48 + n)] := by
  rw [decimal, digitsLoop, if_pos hn]

lemma isDigit_of_mem_decimal (n : Nat) : ∀ b ∈ decimal n, isDigit b = true := by
  induction n using Nat.strongRecOn with
  | ind n ih =>
    by_cases hn : n < 10
    · rw [decimal_of_lt hn]
      simpa using isDigit_digit hn
    · rw [decimal_of_ge (by omega), List.forall_mem_append]
      refine ⟨ih (n / 10) (Nat.div_lt_self (by omega) (by omega)), ?_⟩
      simpa using isDigit_digit (Nat.mod_lt n (by omega))

end CoplusLean.Lib
