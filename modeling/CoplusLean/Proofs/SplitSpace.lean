import CoplusLean.Models.SplitSpace
import CoplusLean.Proofs.Splitting

/-!
# The loop that splits at spaces

The loop goes on from the position where the last piece ended, and not from the one behind
it. It finds the same pieces, as long as they end where an `int` can say so and the limit
allows for another turn.
-/

namespace CoplusLean.StringUtil

open Lib

variable {str token pre s x y : Bytes} {count maxPartition cur : Int} {fuel : Nat}
  {ret : List Bytes}

/-! ## One turn -/

/-- What one turn can find behind `pre`: with a piece that ends where an `int` can say so,
whether the string ends there or not. -/
inductive Visit (str token pre s : Bytes) : Prop where
  | ends (hnext : nextPiece str token pre.length = none) (hsep : ∀ b ∈ s, isSep token b = true)
  | fits (y x t : Bytes) (hs : s = y ++ (x ++ t)) (hsep : ∀ b ∈ y, isSep token b = true)
    (hx : x ≠ []) (hnone : ∀ b ∈ x, isSep token b = false)
    (ht : ∀ b ∈ t.head?, isSep token b = true)
    (hend : pre.length + y.length + x.length < 2147483648)
    (hnext : nextPiece str token pre.length =
      some (((pre.length + y.length : Nat) : Int),
        ((pre.length + y.length + x.length : Nat) : Int)))
  | long (y x t : Bytes) (hs : s = y ++ (x ++ t)) (hsep : ∀ b ∈ y, isSep token b = true)
    (hx : x ≠ []) (hnone : ∀ b ∈ x, isSep token b = false)
    (ht : ∀ b ∈ t.head?, isSep token b = true)
    (hbegin : pre.length + y.length < 2147483648)
    (hend : 2147483648 ≤ pre.length + y.length + x.length)
    (hnext : nextPiece str token pre.length =
      some (((pre.length + y.length : Nat) : Int),
        if int32 (pre.length + y.length + x.length : Nat) = -1 then int32 str.length
        else int32 (pre.length + y.length + x.length : Nat)))
  | beyond (y x t : Bytes) (hs : s = y ++ (x ++ t)) (hsep : ∀ b ∈ y, isSep token b = true)
    (hx : x ≠ []) (hnone : ∀ b ∈ x, isSep token b = false)
    (hbegin : 2147483648 ≤ pre.length + y.length)

lemma visit (token : Bytes) (hstr : str = pre ++ s) (hpre : pre.length < 2147483648)
    (hlen : str.length < 9223372036854775808) : Visit str token pre s := by
  have hint := int32_natCast hpre
  cases turn token hstr hpre.le hlen with
  | ends hnext hsep =>
    rw [hint] at hnext
    exact .ends hnext (hsep hpre)
  | last y x hs hsep hx hnone hend hnext =>
    have hlength : str.length = pre.length + y.length + x.length := by
      simp [hstr, hs, Nat.add_assoc]
    rw [hint, hlength] at hnext
    exact .fits y x [] (by rw [hs, List.append_nil]) hsep hx hnone (by simp) (by omega) hnext
  | piece y x a t hs hsep hx hnone ha hend hnext =>
    rw [hint] at hnext
    exact .fits y x (a :: t) hs hsep hx hnone (by simpa using ha) hend hnext
  | long y x t hs hsep hx hnone ht hbegin hend hnext =>
    rw [hint] at hnext
    exact .long y x t hs hsep hx hnone ht hbegin hend hnext
  | beyond y x t hs hsep hx hnone _ hbegin => exact .beyond y x t hs hsep hx hnone hbegin

/-! ## The loop -/

lemma splitSpaceLoop_closed (hclosed : ¬MayGoOn count maxPartition ret) :
    splitSpaceLoop str count maxPartition (fuel + 1) cur ret = some (cur, ret) := by
  rw [splitSpaceLoop, if_neg hclosed]

lemma splitSpaceLoop_none (hopen : MayGoOn count maxPartition ret)
    (hnext : nextPiece str [32] cur = none) :
    splitSpaceLoop str count maxPartition (fuel + 1) cur ret = some (-1, ret) := by
  unfold nextPiece at hnext
  dsimp only at hnext
  split at hnext
  · rename_i hcur
    rw [splitSpaceLoop, if_pos hopen]
    dsimp only
    rw [if_pos hcur, hcur]
  · cases hnext

lemma splitSpaceLoop_some (hopen : MayGoOn count maxPartition ret) {c next : Int}
    (hnext : nextPiece str [32] cur = some (c, next)) :
    splitSpaceLoop str count maxPartition (fuel + 1) cur ret =
      if next > c then
        if sizeT c ≤ str.length then
          splitSpaceLoop str count maxPartition fuel next
            (ret ++ [Protocol.substr str c (next - c)])
        else none
      else splitSpaceLoop str count maxPartition fuel next ret := by
  unfold nextPiece at hnext
  dsimp only at hnext
  split at hnext
  · cases hnext
  · rename_i hcur
    obtain ⟨rfl, rfl⟩ := Prod.mk.inj (Option.some.inj hnext)
    rw [splitSpaceLoop, if_pos hopen]
    dsimp only
    rw [if_neg hcur]

/-- A turn that finds a piece. -/
lemma splitSpaceLoop_fits (hopen : MayGoOn count maxPartition ret) (hx : x ≠ [])
    (hstr : str = pre ++ (y ++ (x ++ s)))
    (hend : pre.length + y.length + x.length < 2147483648)
    (hnext : nextPiece str [32] cur = some (((pre.length + y.length : Nat) : Int),
      ((pre.length + y.length + x.length : Nat) : Int))) :
    splitSpaceLoop str count maxPartition (fuel + 1) cur ret =
      splitSpaceLoop str count maxPartition fuel (pre ++ (y ++ x)).length (ret ++ [x]) := by
  have hpos := List.length_pos_iff.2 hx
  have hlength : str.length = pre.length + y.length + x.length + s.length := by
    simp [hstr, Nat.add_assoc]
  have hlt : ((pre.length + y.length + x.length : Nat) : Int) >
      ((pre.length + y.length : Nat) : Int) := by omega
  have hpush : _ = ret ++ [x] := substr_piece hx hstr hend
  rw [if_pos hlt] at hpush
  have hbehind : (pre ++ (y ++ x)).length = pre.length + y.length + x.length := by
    simp [Nat.add_assoc]
  rw [splitSpaceLoop_some hopen hnext, if_pos hlt,
    if_pos (by rw [sizeT_natCast (by omega)]; omega), hpush, hbehind]

/-- The loop appends the pieces that are left when only spaces stand behind the last `int`
and the limit allows for one more turn than there are pieces. -/
lemma splitSpaceLoop_eq (ret : List Bytes) (hlen : str.length < 9223372036854775808)
    (hbehind : ∀ b ∈ str.drop 2147483647, isSep [32] b = true) (hstr : str = pre ++ s)
    (hpre : pre.length < 2147483648) (hfuel : s.length < fuel)
    (hopen : ∀ new : List Bytes, new.length ≤ (pieces (isSep [32]) s).length →
      MayGoOn count maxPartition (ret ++ new)) :
    splitSpaceLoop str count maxPartition fuel pre.length ret =
      some (-1, ret ++ pieces (isSep [32]) s) := by
  induction fuel generalizing pre s ret with
  | zero => omega
  | succ fuel ih =>
    have hnow := hopen [] (Nat.zero_le _)
    rw [List.append_nil] at hnow
    cases visit [32] hstr hpre hlen with
    | ends hnext hsep =>
      rw [splitSpaceLoop_none hnow hnext, pieces_eq_nil hsep, List.append_nil]
    | fits y x t hs hsep hx hnone ht hend hnext =>
      have hpos := List.length_pos_iff.2 hx
      rw [hs] at hstr hfuel hopen
      rw [pieces_cut hsep hx hnone ht] at hopen
      simp only [List.length_append] at hfuel
      rw [splitSpaceLoop_fits hnow hx hstr hend hnext, hs, pieces_cut hsep hx hnone ht,
        ih (ret ++ [x]) (s := t) (by simp [hstr]) (by simp; omega) (by omega),
        List.append_assoc]
      · rfl
      · intro new hnew
        rw [List.append_assoc]
        apply hopen
        simpa using hnew
    | long y x t hs hsep hx hnone ht hbegin hend hnext =>
      rw [hs] at hstr
      obtain ⟨b, hb, hnoneb⟩ := exists_behind hx hnone hstr hend
      rw [hbehind b hb] at hnoneb
      cases hnoneb
    | beyond y x t hs hsep hx hnone hbegin =>
      rw [hs] at hstr
      obtain ⟨b, hb, hnoneb⟩ := exists_behind hx hnone hstr (by omega)
      rw [hbehind b hb] at hnoneb
      cases hnoneb

end CoplusLean.StringUtil
