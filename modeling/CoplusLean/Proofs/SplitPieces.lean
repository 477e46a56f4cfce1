import CoplusLean.Proofs.SplitSpace
import CoplusLean.Proofs.SplitWrapping

/-!
# When `split` appends the pieces

Both overloads of `split` append exactly the pieces of the string when every character from
the last `int` on separates. Otherwise a piece is lost, cut or found again and again.
-/

namespace CoplusLean.StringUtil

open Lib

variable {str token pre s x y : Bytes} {fuel : Nat} {ret : List Bytes}

/-- The number of new elements, computed with an `int` for the old ones. -/
lemma int32_sub_int32 (n k : Nat) : int32 (((n + k : Nat) : Int) - int32 n) = int32 k := by
  unfold int32
  omega

lemma pieces_ne_nil (hx : x ≠ []) (hnone : ∀ b ∈ x, isSep token b = false) :
    pieces (isSep token) (y ++ (x ++ s)) ≠ [] := by
  intro hnil
  obtain ⟨b, hb⟩ := List.exists_mem_of_ne_nil x hx
  have hsep := pieces_eq_nil_iff.1 hnil b (by simp [hb])
  rw [hnone b hb] at hsep
  cases hsep

/-! ## What the functions come back with -/

lemma splitLoop_add {cur : Int} {rows : List Bytes} (k : Nat)
    (hrun : splitLoop str token fuel cur ret = some rows) :
    splitLoop str token (fuel + k) cur ret = some rows := by
  induction fuel generalizing cur ret with
  | zero => cases hrun
  | succ fuel ih =>
    rw [Nat.add_right_comm]
    cases hnext : nextPiece str token cur with
    | none => rwa [splitLoop_none hnext] at hrun ⊢
    | some piece =>
      rw [splitLoop_some hnext] at hrun ⊢
      split
      · rename_i hgt
        rw [if_pos hgt] at hrun
        split
        · rename_i hin
          rw [if_pos hin] at hrun
          exact ih hrun
        · rename_i hout
          rw [if_neg hout] at hrun
          cases hrun
      · rename_i hle
        rw [if_neg hle] at hrun
        exact ih hrun

lemma splitSpaceLoop_add {count maxPartition cur : Int} {out : Int × List Bytes} (k : Nat)
    (hrun : splitSpaceLoop str count maxPartition fuel cur ret = some out) :
    splitSpaceLoop str count maxPartition (fuel + k) cur ret = some out := by
  induction fuel generalizing cur ret with
  | zero => cases hrun
  | succ fuel ih =>
    rw [Nat.add_right_comm]
    by_cases hopen : MayGoOn count maxPartition ret
    · cases hnext : nextPiece str [32] cur with
      | none => rwa [splitSpaceLoop_none hopen hnext] at hrun ⊢
      | some piece =>
        rw [splitSpaceLoop_some hopen hnext] at hrun ⊢
        split
        · rename_i hgt
          rw [if_pos hgt] at hrun
          split
          · rename_i hin
            rw [if_pos hin] at hrun
            exact ih hrun
          · rename_i hout
            rw [if_neg hout] at hrun
            cases hrun
        · rename_i hle
          rw [if_neg hle] at hrun
          exact ih hrun
    · rwa [splitSpaceLoop_closed hopen] at hrun ⊢

/-- `split` comes back with one result only. -/
theorem SplitReturns.unique {out out' : List Bytes × Int}
    (h : SplitReturns str token ret out) (h' : SplitReturns str token ret out') : out = out' := by
  obtain ⟨fuel, rows, hrun, rfl⟩ := h
  obtain ⟨fuel', rows', hrun', rfl⟩ := h'
  have hsame := splitLoop_add fuel' hrun
  rw [Nat.add_comm, splitLoop_add fuel hrun'] at hsame
  rw [Option.some.inj hsame]

theorem SplitSpaceReturns.unique {maxPartition : Int} {out out' : List Bytes × Int}
    (h : SplitSpaceReturns str ret maxPartition out)
    (h' : SplitSpaceReturns str ret maxPartition out') : out = out' := by
  obtain ⟨fuel, cur, rows, hrun, rfl⟩ := h
  obtain ⟨fuel', cur', rows', hrun', rfl⟩ := h'
  have hsame := splitSpaceLoop_add fuel' hrun
  rw [Nat.add_comm, splitSpaceLoop_add fuel hrun'] at hsame
  obtain ⟨rfl, rfl⟩ := Prod.mk.inj (Option.some.inj hsame)
  rfl

theorem splitReturns_of_split {out : List Bytes × Int} (h : split str token ret = some out) :
    SplitReturns str token ret out := by
  rw [split, Option.map_eq_some_iff] at h
  obtain ⟨rows, hrows, rfl⟩ := h
  have hprefix := prefix_of_splitLoop hrows
  obtain ⟨new, rfl⟩ := hprefix
  refine ⟨_, _, hrows, ?_⟩
  rw [List.length_append, int32_sub_int32, Nat.cast_add, add_sub_cancel_left]

theorem splitSpaceReturns_of_splitSpace {maxPartition : Int} {out : List Bytes × Int}
    (h : splitSpace str ret maxPartition = some out) :
    SplitSpaceReturns str ret maxPartition out := by
  rw [splitSpace, Option.map_eq_some_iff] at h
  obtain ⟨⟨cur, rows⟩, hrows, rfl⟩ := h
  exact ⟨_, cur, rows, hrows, rfl⟩

/-! ## What a run that ends must have found -/

/-- Nothing is pushed in front of a run that ends at once. -/
lemma pieces_eq_nil_of_splitLoop {cur : Int}
    (hnext : nextPiece str token cur = none) {xs : List Bytes}
    (hrun : splitLoop str token fuel cur ret = some (ret ++ xs)) : xs = [] := by
  cases fuel with
  | zero => cases hrun
  | succ fuel =>
    rw [splitLoop_none hnext] at hrun
    simpa using Option.some.inj hrun

/-- A piece that ends behind the last `int` is not what the loop appends. -/
lemma splitLoop_ne_of_long (hlen : str.length < 9223372036854775808)
    (hstr : str = pre ++ (y ++ (x ++ s))) (hnone : ∀ b ∈ x, isSep token b = false)
    (hs : ∀ b ∈ s.head?, isSep token b = true) (hbegin : pre.length + y.length < 2147483648)
    (hend : 2147483648 ≤ pre.length + y.length + x.length) {xs : List Bytes}
    (hnext : nextPiece str token (int32 pre.length) = some (((pre.length + y.length : Nat) : Int),
      wrapped str (pre.length + y.length + x.length))) :
    splitLoop str token fuel (int32 pre.length) ret ≠ some (ret ++ x :: xs) := by
  have hends := endsAt_of_piece hstr hnone hs hbegin hend
  have hbounds := wrapped_bounds str (pre.length + y.length + x.length)
  cases fuel with
  | zero => simp [splitLoop]
  | succ fuel =>
  intro hrun
  have hrows := eq_of_splitLoop_wrapped hends hlen (splitLoop_next hnext hrun)
  split at hrows
  · -- the element is shorter than the piece
    have hcut := congrArg List.length (List.cons.inj (List.append_cancel_left hrows)).1
    have hle := length_substr_le str (pre.length + y.length : Nat)
      (n := wrapped str (pre.length + y.length + x.length) - (pre.length + y.length : Nat))
      (by omega) (by omega)
    omega
  · have hpush := congrArg List.length hrows
    rw [List.length_append, List.length_cons] at hpush
    omega

/-- A piece that begins behind the last `int` is not what the loop appends. -/
lemma splitLoop_ne_of_over (hlen : str.length < 9223372036854775808)
    (hstr : str = pre ++ (y ++ (x ++ s))) (hsep : ∀ b ∈ y, isSep token b = true) (hx : x ≠ [])
    (hnone : ∀ b ∈ x, isSep token b = false) (hpre : pre.length < 2147483648)
    (hlast : ∀ b ∈ pre.getLast?, isSep token b = true)
    (hbegin : 2147483648 ≤ pre.length + y.length) {xs : List Bytes} (hxs : xs ≠ []) :
    splitLoop str token fuel pre.length ret ≠ some (ret ++ xs) := by
  have hbeginsAt := beginsAt_of_append hstr hsep hx hnone hpre hbegin
  have hfirst := findFirstNotOf_eq_int32 hsep hx hnone hstr hpre
  have hbounds := int32_bounds (pre.length + y.length : Nat)
  cases fuel with
  | zero => simp [splitLoop]
  | succ fuel =>
  intro hrun
  by_cases hneg : int32 (pre.length + y.length : Nat) < 0
  · have hnext := nextPiece_of_first_neg hlen hfirst hneg hbounds.1
    split at hnext
    · exact hxs (pieces_eq_nil_of_splitLoop hnext hrun)
    · -- a negative position is behind the end
      rw [splitLoop_some hnext] at hrun
      split at hrun
      · have hsize := sizeT_of_neg hneg (by omega)
        rw [if_neg (by omega)] at hrun
        cases hrun
      · have hnone' : nextPiece str token (int32 (int32 str.length + 1)) = none := by
          apply nextPiece_of_neg _ (int32_bounds _).1 hlen
          have hstrbounds := int32_bounds str.length
          rw [int32_of_lt (by omega) (by omega)]
          omega
        exact hxs (pieces_eq_nil_of_splitLoop hnone' hrun)
  · obtain ⟨c, hc⟩ := Int.eq_ofNat_of_zero_le (not_lt.1 hneg)
    by_cases hmax : c = 2147483647
    · -- the last `int` is a separator, and the loop ends behind it
      obtain ⟨t, ht, hct, htint, -⟩ := exists_findFirstOf (n := c) (j := 2147483647) (by omega)
        (by omega) (hbeginsAt.before 2147483647 (by omega) (by omega))
      have hnext : nextPiece str token pre.length = some ((c : Int), (t : Int)) := by
        rw [nextPiece]
        dsimp only
        rw [hfirst, hc, ht, if_neg (by omega), if_neg (by omega)]
      have hnone' : nextPiece str token (int32 ((t : Int) + 1)) = none := by
        have hwrap : int32 ((t : Int) + 1) = -2147483648 := by
          unfold int32
          omega
        apply nextPiece_of_neg _ (int32_bounds _).1 hlen
        rw [hwrap]
        decide
      rw [splitLoop_skip hnext (by omega)] at hrun
      exact hxs (pieces_eq_nil_of_splitLoop hnone' hrun)
    · have hstart : pre.length ≠ 0 → ∃ b ∈ str[pre.length - 1]?, isSep token b = true := by
        intro hpos
        have hne : pre ≠ [] := fun hnil => hpos (by rw [hnil, List.length_nil])
        refine ⟨pre.getLast hne, ?_, hlast _ (List.getLast?_eq_some_getLast hne)⟩
        rw [hstr, List.getElem?_append_left (by omega), ← List.getLast?_eq_getElem?]
        exact List.getLast?_eq_some_getLast hne
      rw [hbeginsAt.splitLoop_eq_none hlen hc hmax hstart hpre] at hrun
      cases hrun

/-- A run of the loop that appends the pieces leaves only separators from the last `int`
on. -/
lemma behind_of_splitLoop (hlen : str.length < 9223372036854775808) (hstr : str = pre ++ s)
    (hpre : pre.length ≤ 2147483648) (hlast : ∀ b ∈ pre.getLast?, isSep token b = true)
    (hrun : splitLoop str token fuel (int32 pre.length) ret =
      some (ret ++ pieces (isSep token) s)) :
    ∀ b ∈ str.drop 2147483647, isSep token b = true := by
  induction fuel generalizing pre s ret with
  | zero => cases hrun
  | succ fuel ih =>
    cases turn token hstr hpre hlen with
    | ends hnext _ =>
      have hs := pieces_eq_nil_iff.1 (pieces_eq_nil_of_splitLoop hnext hrun)
      intro b hb
      rw [hstr, List.drop_append, List.mem_append] at hb
      obtain hb | hb := hb
      · obtain ⟨i, hi⟩ := List.getElem?_of_mem hb
        rw [List.getElem?_drop] at hi
        have hlt := (List.getElem?_eq_some_iff.1 hi).1
        apply hlast
        rwa [List.getLast?_eq_getElem?, show pre.length - 1 = 2147483647 + i by omega]
      · exact hs b (List.drop_subset _ _ hb)
    | last y x hs hsep hx hnone hend hnext =>
      intro b hb
      rw [List.drop_of_length_le (by omega)] at hb
      cases hb
    | piece y x a rest hs hsep hx hnone ha hend hnext =>
      rw [hs] at hstr
      have hpre' := length_behind pre y x a
      rw [splitLoop_push hx hstr hend hnext, ← Nat.cast_add_one, ← hpre', hs,
        pieces_append_of_forall hsep, pieces_append_sep hx hnone ha] at hrun
      have hstr' : str = (pre ++ (y ++ (x ++ [a]))) ++ rest := by rw [hstr]; simp
      have hpush : ret ++ x :: pieces (isSep token) rest =
          (ret ++ [x]) ++ pieces (isSep token) rest := by simp
      rw [hpush] at hrun
      exact ih hstr' (by omega) (by simpa using ha) hrun
    | long y x rest hs hsep hx hnone hrest hbegin hend hnext =>
      rw [hs] at hstr
      rw [hs, pieces_cut hsep hx hnone hrest] at hrun
      exact absurd hrun (splitLoop_ne_of_long hlen hstr hnone hrest hbegin hend hnext)
    | beyond y x rest hs hsep hx hnone hpre' hbegin =>
      rw [hs] at hstr
      rw [hs, int32_natCast hpre'] at hrun
      exact absurd hrun (splitLoop_ne_of_over hlen hstr hsep hx hnone hpre' hlast hbegin
        (pieces_ne_nil hx hnone))

/-! ## Both overloads -/

/-- The vector with the pieces of the string behind what was there, and their number. -/
def appendPieces (token str : Bytes) (ret : List Bytes) : List Bytes × Int :=
  (ret ++ pieces (isSep token) str, (pieces (isSep token) str).length)

/-- Under the condition there are fewer pieces than an `int` can count. -/
lemma length_pieces_lt (hbehind : ∀ b ∈ str.drop 2147483647, isSep token b = true) :
    (pieces (isSep token) str).length < 2147483648 := by
  have hpieces : pieces (isSep token) str = pieces (isSep token) (str.take 2147483647) := by
    rw [← pieces_append_seps (str.take 2147483647) hbehind, List.take_append_drop]
  rw [hpieces]
  have hle : (pieces (isSep token) (str.take 2147483647)).length ≤ (str.take 2147483647).length :=
    length_pieces_le_length _
  rw [List.length_take] at hle
  omega

lemma splitReturns_pieces (token : Bytes) (ret : List Bytes)
    (hlen : str.length < 9223372036854775808)
    (hbehind : ∀ b ∈ str.drop 2147483647, isSep token b = true) :
    SplitReturns str token ret (appendPieces token str ret) := by
  have hloop := splitLoop_eq ret hlen hbehind (List.nil_append str).symm (Nat.zero_le _)
    (Nat.lt_succ_self str.length)
  rw [List.length_nil, Nat.cast_zero, int32_zero] at hloop
  refine ⟨str.length + 1, _, hloop, ?_⟩
  rw [List.length_append, int32_sub_int32, int32_natCast (length_pieces_lt hbehind)]
  rfl

lemma behind_of_splitReturns (hlen : str.length < 9223372036854775808)
    (hreturns : SplitReturns str token ret (appendPieces token str ret)) :
    ∀ b ∈ str.drop 2147483647, isSep token b = true := by
  obtain ⟨fuel, ret', hrun, hout⟩ := hreturns
  obtain ⟨rfl, -⟩ := Prod.mk.inj hout
  have hstart : int32 ([] : Bytes).length = 0 := int32_zero
  rw [← hstart] at hrun
  exact behind_of_splitLoop hlen (List.nil_append str).symm (Nat.zero_le _) (by simp) hrun

/-- Without a limit the loop that splits at spaces takes every turn. -/
lemma mayGoOn_of_nonpos {count maxPartition : Int} (h : maxPartition ≤ 0) :
    MayGoOn count maxPartition ret := Or.inl h

/-- Behind the end nothing is pushed. -/
lemma pushTail_npos (hlen : str.length < 9223372036854775808) : pushTail str (-1) ret = ret := by
  have hsize := sizeT_of_neg (n := -1) (by omega) (by omega)
  rw [pushTail, if_neg (by omega)]

lemma splitSpaceReturns_pieces (ret : List Bytes) {maxPartition : Int}
    (hmax : maxPartition ≤ 0) (hlen : str.length < 9223372036854775808)
    (hbehind : ∀ b ∈ str.drop 2147483647, isSep [32] b = true) :
    SplitSpaceReturns str ret maxPartition (appendPieces [32] str ret) := by
  have hloop : splitSpaceLoop str (int32 ret.length) maxPartition (str.length + 1)
      ([] : Bytes).length ret = some (-1, ret ++ pieces (isSep [32]) str) :=
    splitSpaceLoop_eq ret hlen hbehind (List.nil_append str).symm (by simp)
      (Nat.lt_succ_self str.length) fun _ _ => mayGoOn_of_nonpos hmax
  refine ⟨str.length + 1, _, _, hloop, ?_⟩
  rw [pushTail_npos hlen, List.length_append, int32_sub_int32,
    int32_natCast (length_pieces_lt hbehind)]
  rfl

/-- `split(str, token, ret)` comes back with the pieces behind what was there, and with their
number, exactly when every character from offset `2 ^ 31 - 1` on is in the token; and the
overload without a token gains the same as `split(str, " ", ret)`, the words of the string,
exactly when every such character is a space. -/
theorem split_pieces_iff (str token : Bytes) (ret : List Bytes)
    (hlen : str.length < 9223372036854775808) :
    (SplitReturns str token ret (appendPieces token str ret) ↔
      ∀ b ∈ str.drop 2147483647, b ∈ token) ∧
    (SplitReturns str [32] ret (appendPieces [32] str ret) ∧
        SplitSpaceReturns str ret (-1) (appendPieces [32] str ret) ↔
      ∀ b ∈ str.drop 2147483647, b = 32) := by
  have htoken : (∀ b ∈ str.drop 2147483647, b ∈ token) ↔
      ∀ b ∈ str.drop 2147483647, isSep token b = true := by simp [isSep]
  have hspace : (∀ b ∈ str.drop 2147483647, b = 32) ↔
      ∀ b ∈ str.drop 2147483647, isSep [32] b = true := by simp [isSep]
  rw [htoken, hspace]
  constructor
  · exact ⟨behind_of_splitReturns hlen, splitReturns_pieces token ret hlen⟩
  · constructor
    · rintro ⟨hreturns, -⟩
      exact behind_of_splitReturns hlen hreturns
    · intro hbehind
      exact ⟨splitReturns_pieces [32] ret hlen hbehind,
        splitSpaceReturns_pieces ret (by decide) hlen hbehind⟩

/-- `" a  b"`, with an element in the vector. -/
theorem split_pieces_words :
    SplitReturns [32, 97, 32, 32, 98] [32] [[99]] ([[99], [97], [98]], 2) ∧
      SplitSpaceReturns [32, 97, 32, 32, 98] [[99]] (-1) ([[99], [97], [98]], 2) := by
  have hshort : ([32, 97, 32, 32, 98] : Bytes).drop 2147483647 = [] :=
    List.drop_of_length_le (by decide)
  apply (split_pieces_iff [32, 97, 32, 32, 98] [32] [[99]] (by decide)).2.mpr
  rw [hshort]
  simp

/-- A piece that ends behind the last `int` is lost: its end is taken for a negative
position. -/
lemma splitReturns_long {token x : Bytes} {ret : List Bytes} (hx : ∀ b ∈ x, isSep token b = false)
    (hmin : 2147483648 ≤ x.length) (hmax : x.length < 4294967295) :
    SplitReturns x token ret (ret, 0) := by
  have hne : x ≠ [] := by
    rintro rfl
    simp at hmin
  have hneg := int32_of_ge hmin (by omega)
  have hstr : x = [] ++ ([] ++ (x ++ [])) := by simp
  have hnothing : ∀ b ∈ ([] : Bytes), isSep token b = true := by simp
  have hend : ∀ b ∈ ([] : Bytes).head?, isSep token b = true := by simp
  have hnext := nextPiece_eq hnothing hne hx hend hstr (by simp)
  simp only [List.length_nil, Nat.zero_add, Nat.cast_zero, hneg, ite_self] at hnext
  refine ⟨2, ret, ?_, ?_⟩
  · rw [splitLoop_skip hnext (by omega)]
    apply splitLoop_of_neg _ (int32_bounds _).1 (by omega)
    rw [int32_of_lt (by omega) (by omega)]
    omega
  · have hzero := int32_sub_int32 ret.length 0
    rw [Nat.add_zero, Nat.cast_zero, int32_zero] at hzero
    rw [hzero]

/-- A word of 2 GiB is lost. -/
theorem split_loses_long_word :
    SplitReturns (List.replicate 2147483648 120) [32] [] ([], 0) ∧
      ¬SplitReturns (List.replicate 2147483648 120) [32] []
        (appendPieces [32] (List.replicate 2147483648 120) []) := by
  generalize hn : 2147483648 = n
  constructor
  · apply splitReturns_long
    · intro b hb
      rw [List.eq_of_mem_replicate hb]
      decide
    · rw [List.length_replicate, hn]
    · rw [List.length_replicate]
      omega
  · intro hreturns
    have hbehind := behind_of_splitReturns (by rw [List.length_replicate]; omega) hreturns
    have hsep := hbehind 120 (by
      rw [List.drop_replicate]
      apply List.mem_replicate.2
      exact ⟨by omega, rfl⟩)
    revert hsep
    decide

end CoplusLean.StringUtil
