import CoplusLean.Proofs.FastStack
import Mathlib.Data.Nat.ModEq

/-!
# The bounds of `PushOnlyFastStack`

`push` refuses tokens from `max_size` on, `size` counts the refused calls too, and `get`
admits the token `max_size` itself and every cell of an installed chunk. The three agree
exactly in the states named by `BoundsAgree`.
-/

namespace CoplusLean.PushOnlyFastStack

open Lib

variable {α : Type*} [Inhabited α]

/-- The pushes of a list of items, one at a time: the number of those that returned a token,
and the stack after them. -/
def pushAll (s : PushOnlyFastStack α) : List α → Nat × PushOnlyFastStack α
  | [] => (0, s)
  | x :: xs =>
    let rest := pushAll (s.push x).2 xs
    (if (s.push x).1 < 0 then rest.1 else rest.1 + 1, rest.2)

/-- `size` is the number of successful pushes and stays within `max_size`; `get` stays
within the table and succeeds exactly on the tokens below `size`. -/
def BoundsAgree (s : PushOnlyFastStack α) (successes : Nat) : Prop :=
  s.size = successes ∧ s.size ≤ s.maxSize ∧
    ∀ token : Int, -2147483648 ≤ token → token < 2147483648 →
      s.get token ≠ .outOfBounds ∧
        ((∃ x, s.get token = .found x) ↔ 0 ≤ token ∧ token < s.size)

lemma push_sizes (s : PushOnlyFastStack α) (x : α) :
    (s.push x).2.maxSize = s.maxSize ∧ (s.push x).2.unitSize = s.unitSize ∧
      (s.push x).2.stacks_.length = s.stacks_.length := by
  simp only [push]
  split_ifs
  · exact ⟨rfl, rfl, rfl⟩
  · exact ⟨rfl, rfl, List.length_set⟩

lemma pushAll_sizes (s : PushOnlyFastStack α) (items : List α) :
    (pushAll s items).2.maxSize = s.maxSize ∧ (pushAll s items).2.unitSize = s.unitSize ∧
      (pushAll s items).2.stacks_.length = s.stacks_.length := by
  induction items generalizing s with
  | nil => exact ⟨rfl, rfl, rfl⟩
  | cons x xs ih =>
    obtain ⟨hmax, hunit, htable⟩ := ih (s.push x).2
    obtain ⟨hmax', hunit', htable'⟩ := push_sizes s x
    exact ⟨hmax.trans hmax', hunit.trans hunit', htable.trans htable'⟩

/-- The stack after pushes holds the items for which there was room. -/
lemma holds_pushAll {s : PushOnlyFastStack α} {old : List α} (hs : s.Holds old)
    (items : List α) (hcount : s.pushCount + items.length < 2147483649) :
    (pushAll s items).2.pushCount = s.pushCount + items.length ∧
      (pushAll s items).2.Holds (old ++ items.take (s.maxSize - s.pushCount)) ∧
      (pushAll s items).1 = min items.length (s.maxSize - s.pushCount) := by
  induction items generalizing s old with
  | nil =>
    refine ⟨rfl, ?_, by simp [pushAll]⟩
    rw [List.take_nil, List.append_nil]
    exact hs
  | cons x xs ih =>
    rw [List.length_cons] at hcount ⊢
    by_cases hroom : s.pushCount < s.maxSize
    · obtain ⟨htoken, hnext, hmax, -, hholds⟩ := push_of_lt hs (by omega) hroom x
      obtain ⟨hcount', hholds', hok⟩ := ih hholds (by omega)
      have hsplit : s.maxSize - s.pushCount = s.maxSize - (s.pushCount + 1) + 1 := by omega
      rw [hmax, hnext] at hholds' hok
      refine ⟨?_, ?_, ?_⟩
      · refine hcount'.trans ?_
        omega
      · rw [hsplit, List.take_succ_cons, List.append_cons]
        exact hholds'
      · simp only [pushAll, htoken]
        rw [if_neg (by omega), hok]
        omega
    · obtain ⟨hpush, hholds⟩ := push_of_full hs (by omega) (by omega) (by omega) x
      obtain ⟨hcount', hholds', hok⟩ := ih hholds (by rw [hpush]; simp only; omega)
      simp only [hpush] at hholds' hok hcount'
      have hzero : s.maxSize - s.pushCount = 0 := by omega
      rw [show s.maxSize - (s.pushCount + 1) = 0 by omega] at hholds' hok
      refine ⟨?_, ?_, ?_⟩
      · simp only [pushAll, hpush]
        omega
      · rw [hzero, List.take_zero]
        simp only [pushAll, hpush]
        rw [List.take_zero] at hholds'
        exact hholds'
      · simp only [pushAll, hpush]
        rw [if_pos (by omega), hok]
        omega

omit [Inhabited α] in
/-- A table whose rounding sum wrapped has no chunk at all. -/
lemma construct_of_wrap {unitSize maxSize : Nat} (hunit : 1 ≤ unitSize)
    (hunit' : unitSize < 18446744073709551616) (hmax : maxSize < 18446744073709551616)
    (hwrap : 18446744073709551616 < maxSize + unitSize) {s : PushOnlyFastStack α}
    (hs : construct unitSize maxSize = some s) : s.stacks_ = [] ∧ s.maxSize = maxSize := by
  have hzero : (maxSize + unitSize - 1) % 18446744073709551616 / unitSize = 0 := by
    apply Nat.div_eq_of_lt
    omega
  simp only [construct, hzero] at hs
  rw [if_pos (by omega)] at hs
  obtain rfl := Option.some.inj hs
  exact ⟨rfl, rfl⟩

omit [Inhabited α] in
lemma construct_of_fit {unitSize maxSize : Nat}
    (hfit : maxSize + unitSize ≤ 18446744073709551616) {s : PushOnlyFastStack α}
    (hs : construct unitSize maxSize = some s) :
    s = new unitSize maxSize ∧ (maxSize + unitSize - 1) / unitSize < 2147483648 := by
  simp only [construct] at hs
  rw [Nat.mod_eq_of_lt (by omega)] at hs
  split_ifs at hs with hsmall
  exact ⟨(Option.some.inj hs).symm, hsmall⟩

/-- A table that the constructor's loop can count has a `max_size` that no negative `int`
converts below. -/
lemma maxSize_lt {unitSize maxSize : Nat} (hunit : 1 ≤ unitSize)
    (hfit : maxSize + unitSize ≤ 18446744073709551616)
    (hsmall : (maxSize + unitSize - 1) / unitSize < 2147483648) :
    maxSize < 18446744071562067968 := by
  rw [Nat.div_lt_iff_lt_mul hunit] at hsmall
  by_contra hlarge
  have hmul : 2147483648 * unitSize ≤ 2147483648 * 2147483648 :=
    Nat.mul_le_mul_left _ (by omega)
  omega

lemma get_of_neg {s : PushOnlyFastStack α} (hmax : s.maxSize < 18446744071562067968)
    {token : Int} (h0 : token < 0) (h1 : -2147483648 ≤ token) : s.get token = .fail := by
  have hsize : sizeT token > s.maxSize := by
    unfold sizeT
    omega
  simp [get, hsize]

/-- The token `max_size` leaves the table when the chunks end there, and no other token of
at most `max_size` does. -/
lemma div_lt_table_iff {s : PushOnlyFastStack α} {items : List α} (hs : s.Holds items) {t : Nat}
    (ht : t ≤ s.maxSize) :
    t / s.unitSize < s.stacks_.length ↔ ¬(t = s.maxSize ∧ s.unitSize ∣ s.maxSize) := by
  by_cases hlt : t < s.maxSize
  · exact iff_of_true (div_lt_table hs hlt) fun h => by omega
  · obtain rfl : t = s.maxSize := by omega
    have hpos := hs.unit_pos
    have hdm := Nat.div_add_mod' s.maxSize s.unitSize
    have hmod := Nat.mod_lt s.maxSize hpos
    rw [hs.table, Nat.lt_div_iff_mul_lt hpos, Nat.dvd_iff_mod_eq_zero]
    omega

section Bounds

variable {s : PushOnlyFastStack α} {items : List α} (hs : s.Holds items)
  (hcount : s.pushCount < 2147483648) (hmax : s.maxSize < 18446744071562067968)

include hs hcount hmax

/-- The bounds agree exactly when the stack is not overfull, ends with a full chunk and
the token `max_size` has a chunk or is no `int`. -/
lemma boundsAgree_iff : s.BoundsAgree items.length ↔
    s.pushCount ≤ s.maxSize ∧ s.unitSize ∣ s.pushCount ∧
      ¬(s.unitSize ∣ s.maxSize ∧ s.maxSize < 2147483648) := by
  have hlen := hs.count
  have hpos := hs.unit_pos
  have hsize : s.size = s.pushCount := int32_of_lt (by omega) (by omega)
  constructor
  · rintro ⟨hsucc, -, hget⟩
    have hle : s.pushCount ≤ s.maxSize := by omega
    have hdvd : s.unitSize ∣ s.pushCount := by
      by_contra hndvd
      have hmod : 0 < s.pushCount % s.unitSize :=
        Nat.pos_of_ne_zero (mt Nat.dvd_of_mod_eq_zero hndvd)
      have hdm := Nat.div_add_mod' s.pushCount s.unitSize
      have hfound := get_of_chunk hs hcount hle (by omega)
      obtain ⟨-, hiff⟩ := hget s.pushCount (by omega) (by omega)
      have hlt := (hiff.mp ⟨_, hfound⟩).2
      omega
    refine ⟨hle, hdvd, ?_⟩
    rintro ⟨hend, h31⟩
    have hdiv := Nat.div_mul_cancel hend
    have hout := get_of_no_chunk hs h31 (le_refl _) (by omega)
    rw [if_neg (by rw [div_lt_table_iff hs (le_refl _)]; exact not_not.mpr ⟨rfl, hend⟩)] at hout
    exact (hget s.maxSize (by omega) (by omega)).1 hout
  · rintro ⟨hle, hdvd, hend⟩
    refine ⟨by omega, by omega, fun token h0 h1 => ?_⟩
    rw [hsize]
    by_cases hneg : token < 0
    · rw [get_of_neg hmax hneg h0]
      exact ⟨by simp, by simp; omega⟩
    · obtain ⟨t, rfl⟩ := Int.eq_ofNat_of_zero_le (by omega : 0 ≤ token)
      have ht31 : t < 2147483648 := by omega
      by_cases hgt : s.maxSize < t
      · rw [get_of_gt ht31 hgt]
        exact ⟨by simp, by simp; omega⟩
      · by_cases hlt : t < s.pushCount
        · have hdm := Nat.div_add_mod' t s.unitSize
          rw [get_of_chunk hs ht31 (by omega) (by omega)]
          exact ⟨by simp, by simp; omega⟩
        · -- the last chunk is full, so a token from `size` on lies behind it
          have hchunk : items.length ≤ t / s.unitSize * s.unitSize := by
            have hdiv := Nat.div_mul_cancel hdvd
            have hmono := Nat.mul_le_mul_right s.unitSize
              (Nat.div_le_div_right (by omega) : s.pushCount / s.unitSize ≤ t / s.unitSize)
            omega
          have htable : t / s.unitSize < s.stacks_.length := by
            rw [div_lt_table_iff hs (by omega)]
            rintro ⟨rfl, hdvd'⟩
            exact hend ⟨hdvd', ht31⟩
          rw [get_of_no_chunk hs ht31 (by omega) hchunk, if_pos htable]
          exact ⟨by simp, by simp; omega⟩

end Bounds

/-- After any pushes, `size`, `push` and `get` agree on the bounds exactly when the table was
rounded up without wrapping, no push was refused, the pushes fill whole chunks and the token
`max_size` is not the first one behind the last chunk. -/
theorem stack_bounds_agree (unitSize maxSize : Nat) (hunit : 1 ≤ unitSize)
    (hunit' : unitSize < 18446744073709551616) (hmax : maxSize < 18446744073709551616)
    (s : PushOnlyFastStack α) (hs : construct unitSize maxSize = some s) (items : List α)
    (hcount : items.length < 2147483648) :
    (pushAll s items).2.BoundsAgree (pushAll s items).1 ↔
      maxSize + unitSize ≤ 18446744073709551616 ∧ items.length ≤ maxSize ∧
        unitSize ∣ items.length ∧ ¬(unitSize ∣ maxSize ∧ maxSize < 2147483648) := by
  by_cases hfit : maxSize + unitSize ≤ 18446744073709551616
  · obtain ⟨rfl, hsmall⟩ := construct_of_fit hfit hs
    have hcount₀ : (new unitSize maxSize : PushOnlyFastStack α).pushCount = 0 := rfl
    have hmax₀ : (new unitSize maxSize : PushOnlyFastStack α).maxSize = maxSize := rfl
    have hunit₀ : (new unitSize maxSize : PushOnlyFastStack α).unitSize = unitSize := rfl
    obtain ⟨hpushed, hholds, hok⟩ :=
      holds_pushAll (holds_new unitSize maxSize hunit) items (by omega)
    obtain ⟨hmax₁, hunit₁, -⟩ := pushAll_sizes (new unitSize maxSize) items
    rw [hcount₀, Nat.zero_add] at hpushed
    rw [hcount₀, hmax₀, Nat.sub_zero] at hok hholds
    rw [List.nil_append] at hholds
    rw [hmax₀] at hmax₁
    rw [hunit₀] at hunit₁
    have hagree := boundsAgree_iff hholds (by omega)
      (by rw [hmax₁]; exact maxSize_lt hunit hfit hsmall)
    rw [List.length_take, Nat.min_comm, hpushed, hmax₁, hunit₁] at hagree
    rw [hok, hagree]
    simp only [hfit, true_and]
  · obtain ⟨htable, hsmax⟩ := construct_of_wrap hunit hunit' hmax (by omega) hs
    obtain ⟨-, -, hlen⟩ := pushAll_sizes s items
    refine iff_of_false ?_ fun h => hfit h.1
    rintro ⟨-, -, hget⟩
    apply (hget 0 (by omega) (by omega)).1
    have hnil : (pushAll s items).2.stacks_ = [] := by
      rw [← List.length_eq_zero_iff, hlen, htable, List.length_nil]
    simp [get, hnil, sizeT]

theorem stack_bounds_agree_two :
    (pushAll (new 2 3 : PushOnlyFastStack Nat) [5, 6]).2.BoundsAgree
        (pushAll (new 2 3 : PushOnlyFastStack Nat) [5, 6]).1 ↔
      3 + 2 ≤ 18446744073709551616 ∧ [5, 6].length ≤ 3 ∧
        2 ∣ [5, 6].length ∧ ¬(2 ∣ 3 ∧ 3 < 2147483648) :=
  stack_bounds_agree 2 3 (by decide) (by decide) (by decide) _ (by decide) [5, 6] (by decide)

/-- One push into a stack of chunks of ten: `get` finds the token one in the same chunk. -/
theorem stack_bounds_differ_ten :
    ¬(pushAll (new 10 100 : PushOnlyFastStack Nat) [7]).2.BoundsAgree
      (pushAll (new 10 100 : PushOnlyFastStack Nat) [7]).1 := by
  rintro ⟨-, -, hget⟩
  have hone := (hget 1 (by decide) (by decide)).2.mp ⟨0, by decide⟩
  exact absurd hone.2 (by decide)

end CoplusLean.PushOnlyFastStack
