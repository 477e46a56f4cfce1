import CoplusLean.Proofs.Splitting

/-!
# Positions that are no `int`

A piece may end, or begin, behind the last `int`. The position is then taken modulo `2 ^ 32`:
it is negative, and the loop of `split` soon ends, or it lies at the beginning of the string,
and the loop comes back to the piece for ever.
-/

namespace CoplusLean.StringUtil

open Lib

variable {str token pre x y s : Bytes} {fuel n e : Nat} {ret rows : List Bytes}

/-! ## A piece that ends behind the last `int` -/

/-- The piece that holds the last `int` ends at `e`. -/
structure EndsAt (str token : Bytes) (e : Nat) : Prop where
  long : 2147483648 ≤ e
  inside : ∀ i, 2147483647 ≤ i → i < e → ∃ b ∈ str[i]?, isSep token b = false
  behind : ∀ b ∈ str[e]?, isSep token b = true

lemma EndsAt.unique {d : Nat} (hd : EndsAt str token d) (he : EndsAt str token e) : d = e := by
  have hlong := hd.long
  have hlong' := he.long
  apply le_antisymm <;> apply le_of_not_gt <;> intro hlt
  · obtain ⟨b, hb, hnone⟩ := hd.inside e (by omega) hlt
    rw [he.behind b hb] at hnone
    cases hnone
  · obtain ⟨b, hb, hnone⟩ := he.inside d (by omega) hlt
    rw [hd.behind b hb] at hnone
    cases hnone

lemma endsAt_of_append (hstr : str = pre ++ (x ++ s)) (hnone : ∀ b ∈ x, isSep token b = false)
    (hs : ∀ b ∈ s.head?, isSep token b = true) (hbegin : pre.length < 2147483648)
    (hend : 2147483648 ≤ pre.length + x.length) :
    EndsAt str token (pre.length + x.length) := by
  refine ⟨hend, ?_, ?_⟩
  · intro i hi hlt
    obtain ⟨b, hb, hindex⟩ := exists_mem_of_between hstr (by omega) hlt
    exact ⟨b, hindex, hnone b hb⟩
  · intro b hb
    rw [hstr, ← List.append_assoc, ← List.length_append, List.getElem?_append_right le_rfl,
      Nat.sub_self, ← List.head?_eq_getElem?] at hb
    exact hs b hb

lemma endsAt_of_piece (hstr : str = pre ++ (y ++ (x ++ s)))
    (hnone : ∀ b ∈ x, isSep token b = false) (hs : ∀ b ∈ s.head?, isSep token b = true)
    (hbegin : pre.length + y.length < 2147483648)
    (hend : 2147483648 ≤ pre.length + y.length + x.length) :
    EndsAt str token (pre.length + y.length + x.length) := by
  rw [← List.append_assoc] at hstr
  rw [← List.length_append] at hbegin hend ⊢
  exact endsAt_of_append hstr hnone hs hbegin hend

/-- What `split` takes for the end of that piece. -/
def wrapped (str : Bytes) (e : Nat) : Int :=
  if int32 e = -1 then int32 str.length else int32 e

lemma wrapped_bounds (str : Bytes) (e : Nat) :
    -2147483648 ≤ wrapped str e ∧ wrapped str e < 2147483648 := by
  unfold wrapped
  split <;> exact int32_bounds _

/-- Separators do not reach the piece. -/
lemma EndsAt.not_sep (hends : EndsAt str token e) (hstr : str = pre ++ (y ++ s))
    (hsep : ∀ b ∈ y, isSep token b = true) (hpre : pre.length < 2147483648) :
    pre.length + y.length < 2147483648 := by
  by_contra hge
  obtain ⟨b, hb, hnone⟩ := hends.inside 2147483647 le_rfl hends.long
  obtain ⟨c, hc, hindex⟩ := exists_mem_of_between (i := 2147483647) hstr (by omega) (by omega)
  rw [hindex] at hb
  rw [← Option.some.inj hb, hsep c hc] at hnone
  cases hnone

/-- When the position behind it is an `int`, the loop comes back to the piece for ever. -/
lemma splitLoop_eq_none (hends : EndsAt str token e) (hlen : str.length < 9223372036854775808)
    (h0 : 0 ≤ wrapped str e + 1) (h1 : wrapped str e + 1 < 2147483648) (hn : n < 2147483648) :
    splitLoop str token fuel n ret = none := by
  induction fuel generalizing n ret with
  | zero => rfl
  | succ fuel ih =>
    obtain ⟨b, hb, hnoneb⟩ := hends.inside 2147483647 le_rfl hends.long
    have hlong : 2147483647 < str.length := (List.getElem?_eq_some_iff.1 hb).1
    have hstr : str = str.take n ++ str.drop n := (List.take_append_drop n str).symm
    have hpre : (str.take n).length = n := List.length_take_of_le (by omega)
    cases turn token hstr (by omega) hlen with
    | ends hnext hsep =>
      have hreach := hends.not_sep (s := []) (by rw [List.append_nil]; exact hstr)
        (hsep (by omega)) (by omega)
      rw [hpre, List.length_drop] at hreach
      omega
    | last y x hs hsep hx hnone hend hnext => omega
    | piece y x a rest hs hsep hx hnone ha hend hnext =>
      rw [hpre, int32_natCast hn] at hnext
      rw [hs, ← List.append_assoc, ← List.append_assoc] at hstr
      rw [hpre] at hend
      -- the separator is not at the last `int`
      have hlt : n + y.length + x.length + 1 < 2147483648 := by
        by_contra hge
        have hsepb : str[2147483647]? = some a := by
          rw [hstr, List.getElem?_append_right] <;>
            simp only [List.length_append, hpre]
          · rw [show 2147483647 - (n + y.length + x.length) = 0 by omega]
            rfl
          · omega
        rw [hb] at hsepb
        rw [Option.some.inj hsepb, ha] at hnoneb
        cases hnoneb
      apply splitLoop_eq_none_of_next hnext
      intro ret
      rw [← Nat.cast_add_one, int32_natCast hlt]
      exact ih hlt
    | long y x rest hs hsep hx hnone hrest hbegin hend hnext =>
      rw [hs] at hstr
      have hends' := endsAt_of_piece hstr hnone hrest hbegin hend
      rw [hends.unique hends', wrapped] at h0 h1
      rw [hpre, int32_natCast hn] at hnext
      rw [hpre] at h0 h1
      obtain ⟨k, hk⟩ := Int.eq_ofNat_of_zero_le h0
      apply splitLoop_eq_none_of_next hnext
      intro ret
      rw [hk, int32_natCast (by omega)]
      exact ih (by omega)
    | beyond y x rest hs hsep hx hnone hpre' hbegin =>
      rw [hs] at hstr
      have hreach := hends.not_sep hstr hsep hpre'
      omega

/-- A run that ends pushes nothing behind the piece. -/
lemma eq_of_splitLoop_wrapped (hends : EndsAt str token e) (hlen : str.length < 9223372036854775808)
    (hrun : splitLoop str token fuel (int32 (wrapped str e + 1)) ret = some rows) : rows = ret := by
  have hbounds := wrapped_bounds str e
  by_cases hback : 0 ≤ wrapped str e + 1 ∧ wrapped str e + 1 < 2147483648
  · -- the loop comes back to the piece
    obtain ⟨k, hk⟩ := Int.eq_ofNat_of_zero_le hback.1
    rw [hk, int32_natCast (by omega), splitLoop_eq_none hends hlen hback.1 hback.2 (by omega)]
      at hrun
    cases hrun
  · -- the next turn is the last one
    have hcur : int32 (wrapped str e + 1) < 0 := by
      unfold int32
      omega
    cases fuel with
    | zero => cases hrun
    | succ fuel =>
      rw [splitLoop_of_neg hcur (int32_bounds _).1 hlen] at hrun
      exact (Option.some.inj hrun).symm

/-! ## A piece that begins behind the last `int` -/

/-- From `p` on there are separators up to `f`, where a piece begins. -/
structure BeginsAt (str token : Bytes) (p f : Nat) : Prop where
  lt : p < 2147483648
  long : 2147483648 ≤ f
  before : ∀ i, p ≤ i → i < f → ∃ b ∈ str[i]?, isSep token b = true
  first : ∃ b ∈ str[f]?, isSep token b = false

lemma beginsAt_of_append (hstr : str = pre ++ (y ++ (x ++ s)))
    (hsep : ∀ b ∈ y, isSep token b = true) (hx : x ≠ []) (hnone : ∀ b ∈ x, isSep token b = false)
    (hpre : pre.length < 2147483648) (hbegin : 2147483648 ≤ pre.length + y.length) :
    BeginsAt str token pre.length (pre.length + y.length) := by
  have hpos := List.length_pos_iff.2 hx
  refine ⟨hpre, hbegin, ?_, ?_⟩
  · intro i hi hlt
    obtain ⟨b, hb, hindex⟩ := exists_mem_of_between hstr hi hlt
    exact ⟨b, hindex, hsep b hb⟩
  · rw [← List.append_assoc] at hstr
    obtain ⟨b, hb, hindex⟩ := exists_mem_of_between (i := pre.length + y.length) hstr
      (by rw [List.length_append]) (by rw [List.length_append]; omega)
    exact ⟨b, hindex, hnone b hb⟩

lemma BeginsAt.unique {p q d : Nat} (hd : BeginsAt str token p d)
    (he : BeginsAt str token q e) : d = e := by
  have hlong := hd.long
  have hlong' := he.long
  have hlt := hd.lt
  have hlt' := he.lt
  obtain ⟨b, hb, hnone⟩ := hd.first
  obtain ⟨c, hc, hnone'⟩ := he.first
  apply le_antisymm <;> apply le_of_not_gt <;> intro hgt
  · obtain ⟨c', hc', hsep⟩ := hd.before e (by omega) hgt
    rw [hc] at hc'
    rw [Option.some.inj hc', hsep] at hnone'
    cases hnone'
  · obtain ⟨b', hb', hsep⟩ := he.before d (by omega) hgt
    rw [hb] at hb'
    rw [Option.some.inj hb', hsep] at hnone
    cases hnone

/-- The first separator from `n` on, when there is one where an `int` can say so. -/
lemma exists_findFirstOf {j : Nat} (hn : n ≤ j) (hj : j < 2147483648)
    (hsep : ∃ b ∈ str[j]?, isSep token b = true) :
    ∃ t : Nat, findFirstOf str token n = t ∧ n ≤ t ∧ t ≤ j ∧
      (∃ b ∈ str[t]?, isSep token b = true) ∧
      ∀ i, n ≤ i → i < t → ∃ b ∈ str[i]?, isSep token b = false := by
  obtain ⟨b, hb, hbsep⟩ := hsep
  have hjlt : j < str.length := (List.getElem?_eq_some_iff.1 hb).1
  have hmem : b ∈ token := by simpa [isSep] using hbsep
  have hdrop : (str.drop n)[j - n]? = some b := by
    rwa [List.getElem?_drop, Nat.add_sub_cancel' hn]
  cases hidx : (str.drop n).findIdx? (· ∈ token) with
  | none =>
    have hnone := List.findIdx?_eq_none_iff.1 hidx b (List.mem_of_getElem? hdrop)
    simp [hmem] at hnone
  | some k =>
    obtain ⟨hk, hkmem, hkfirst⟩ := List.findIdx?_eq_some_iff_getElem.1 hidx
    have hkj : k ≤ j - n := by
      by_contra hlt
      have hfree := hkfirst (j - n) (by omega)
      have hbelem : (str.drop n)[j - n] = b := (List.getElem?_eq_some_iff.1 hdrop).2
      rw [hbelem] at hfree
      simp [hmem] at hfree
    refine ⟨n + k, ?_, Nat.le_add_right n k, by omega, ⟨(str.drop n)[k], ?_, ?_⟩, ?_⟩
    · rw [findFirstOf, sizeT_natCast (by omega), hidx]
      simp only [← Nat.cast_add]
      exact int32_natCast (by omega)
    · rw [← List.getElem?_drop, List.getElem?_eq_getElem hk]
      rfl
    · simpa [isSep] using hkmem
    · intro i hi hlt
      have hfree := hkfirst (i - n) (by omega)
      refine ⟨(str.drop n)[i - n], ?_, by simpa [isSep] using hfree⟩
      rw [show str[i]? = (str.drop n)[i - n]? by
        rw [List.getElem?_drop, Nat.add_sub_cancel' hi], List.getElem?_eq_getElem (by omega)]
      rfl

/-- When the position of that piece is taken for one that is an `int`, every turn that begins
where an `int` can say so finds a separator where an `int` can say so. -/
lemma BeginsAt.exists_nextPiece {p f c : Nat} (h : BeginsAt str token p f)
    (hlen : str.length < 9223372036854775808) (hc : int32 f = c) (hn : n < 2147483648) :
    ∃ b t : Nat, nextPiece str token n = some ((b : Int), (t : Int)) ∧ b ≤ t ∧
      t < 2147483648 ∧ (∃ a ∈ str[t]?, isSep token a = true) ∧
      (∀ i, b ≤ i → i < t → ∃ a ∈ str[i]?, isSep token a = false) ∧ (b = t → b = c) := by
  have hlt := h.lt
  have hlong := h.long
  obtain ⟨a, ha, hnonea⟩ := h.first
  have hf : f < str.length := (List.getElem?_eq_some_iff.1 ha).1
  have hlast := h.before 2147483647 (by omega) (by omega)
  have hstr : str = str.take n ++ str.drop n := (List.take_append_drop n str).symm
  have hpre : (str.take n).length = n := List.length_take_of_le (by omega)
  cases turn token hstr (by omega) hlen with
  | ends hnext hsep =>
    rw [hsep (by omega) a (mem_drop_of_getElem? (by omega) ha)] at hnonea
    cases hnonea
  | last y x hs hsep hx hnone hend hnext => omega
  | piece y x d rest hs hsep hx hnone hd hend hnext =>
    have hpos := List.length_pos_iff.2 hx
    rw [hs, ← List.append_assoc] at hstr
    rw [hpre, int32_natCast hn] at hnext
    rw [hpre] at hend
    refine ⟨_, _, hnext, by omega, hend, ⟨d, ?_, hd⟩, ?_, by omega⟩
    · rw [hstr, ← List.append_assoc, List.getElem?_append_right] <;>
        simp only [List.length_append, hpre, le_refl, Nat.sub_self, List.getElem?_cons_zero]
      rfl
    · intro i hi hlt
      obtain ⟨b, hb, hindex⟩ := exists_mem_of_between (i := i) hstr
        (by rw [List.length_append, hpre]; exact hi) (by rw [List.length_append, hpre]; exact hlt)
      exact ⟨b, hindex, hnone b hb⟩
  | long y x rest hs hsep hx hnone hrest hbegin hend hnext =>
    rw [hs, ← List.append_assoc] at hstr
    obtain ⟨b, hb, hindex⟩ := exists_mem_of_between (i := 2147483647) hstr
      (by rw [List.length_append]; omega) (by rw [List.length_append]; omega)
    obtain ⟨d, hd, hsepd⟩ := hlast
    rw [hindex] at hd
    rw [← Option.some.inj hd, hnone b hb] at hsepd
    cases hsepd
  | beyond y x rest hs hsep hx hnone hpre' hbegin =>
    rw [hs] at hstr
    have hfirst := findFirstNotOf_eq_int32 hsep hx hnone hstr hpre'
    have hunique := (beginsAt_of_append hstr hsep hx hnone hpre' hbegin).unique h
    rw [hunique, hpre, hc] at hfirst
    have hcint : c < 2147483648 := by
      have hbounds := int32_bounds f
      omega
    obtain ⟨t, ht, hct, htint, hsept, hfree⟩ :=
      exists_findFirstOf (n := c) (by omega) (by omega) hlast
    refine ⟨c, t, ?_, hct, by omega, hsept, hfree, fun _ => rfl⟩
    rw [nextPiece]
    dsimp only
    rw [hfirst, ht, if_neg (by omega), if_neg (by omega)]

/-- The loop comes back for ever, unless that position is the last `int`. -/
lemma BeginsAt.splitLoop_eq_none {p f c : Nat} (h : BeginsAt str token p f)
    (hlen : str.length < 9223372036854775808) (hc : int32 f = c) (hmax : c ≠ 2147483647)
    (hstart : p ≠ 0 → ∃ b ∈ str[p - 1]?, isSep token b = true) (hn : n < 2147483648) :
    splitLoop str token fuel n ret = none := by
  induction fuel generalizing n ret with
  | zero => rfl
  | succ fuel ih =>
    obtain ⟨b, t, hnext, hbt, ht, -, hfree, heq⟩ := h.exists_nextPiece hlen hc hn
    have hlt : t ≠ 2147483647 := by
      intro hlast
      by_cases hbt' : b = t
      · exact hmax ((heq hbt').symm.trans (hbt'.trans hlast))
      obtain ⟨a, ha, hnone⟩ := hfree 2147483646 (by omega) (by omega)
      -- but there is a separator
      obtain ⟨d, hd, hsep⟩ : ∃ d ∈ str[2147483646]?, isSep token d = true := by
        have hp := h.lt
        have hf := h.long
        by_cases hbefore : p ≤ 2147483646
        · exact h.before _ hbefore (by omega)
        · have hstart := hstart (by omega)
          rwa [show p - 1 = 2147483646 by omega] at hstart
      rw [ha] at hd
      rw [Option.some.inj hd, hsep] at hnone
      cases hnone
    apply splitLoop_eq_none_of_next hnext
    intro ret
    rw [← Nat.cast_add_one, int32_natCast (by omega)]
    exact ih (by omega)

end CoplusLean.StringUtil
