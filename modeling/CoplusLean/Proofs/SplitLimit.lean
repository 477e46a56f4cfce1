import CoplusLean.Proofs.SplitPieces

/-!
# `split` with a limit

The loop stops at the limit with its position behind the last word, on the space there, and
the test behind the loop appends the rest of the string from this space on. So the vector is
right when the limit is not reached, or when nothing stands behind the last word.
-/

namespace CoplusLean.StringUtil

open Lib

variable {str pre s x y : Bytes} {count maxPartition cur cur' : Int} {fuel l : Nat}
  {ret ret' : List Bytes}

/-- The limit allows for `l` more elements. -/
def Room (count maxPartition : Int) (ret : List Bytes) (l : Nat) : Prop :=
  ∀ new : List Bytes, new.length ≤ l → (MayGoOn count maxPartition (ret ++ new) ↔ new.length < l)

lemma Room.closed (h : Room count maxPartition ret 0) : ¬MayGoOn count maxPartition ret := by
  have hnow := h [] le_rfl
  rw [List.append_nil] at hnow
  simpa using hnow

lemma Room.mayGoOn (h : Room count maxPartition ret (l + 1)) : MayGoOn count maxPartition ret := by
  have hnow := h [] (Nat.zero_le _)
  rw [List.append_nil] at hnow
  simpa using hnow

lemma Room.push (h : Room count maxPartition ret (l + 1)) (x : Bytes) :
    Room count maxPartition (ret ++ [x]) l := by
  intro new hnew
  have hmore := h (x :: new) (by simpa using hnew)
  rw [List.append_assoc]
  simpa using hmore

/-! ## Runs up to the limit -/

/-- The limit is the number of words, and the string ends with a word. -/
lemma splitSpaceLoop_eq_last (hlen : str.length < 2147483648) (hstr : str = pre ++ s)
    (hroom : Room count maxPartition ret l) (hwords : (pieces (isSep [32]) s).length = l)
    (hlast : ∀ b ∈ str.getLast?, isSep [32] b = false) (hfuel : s.length < fuel) :
    splitSpaceLoop str count maxPartition fuel pre.length ret =
      some ((str.length : Int), ret ++ pieces (isSep [32]) s) := by
  have hlength : str.length = pre.length + s.length := by rw [hstr, List.length_append]
  induction fuel generalizing pre s ret l with
  | zero => omega
  | succ fuel ih =>
    cases l with
    | zero =>
      have hnil := List.length_eq_zero_iff.1 hwords
      have hs : s = [] := by
        by_contra hne
        have hsep := pieces_eq_nil_iff.1 hnil _ (List.getLast_mem hne)
        rw [hlast (s.getLast hne)] at hsep
        · cases hsep
        · rw [hstr, List.getLast?_append, List.getLast?_eq_some_getLast hne]
          rfl
      rw [splitSpaceLoop_closed hroom.closed, hnil, List.append_nil, hlength, hs,
        List.length_nil, Nat.add_zero]
    | succ l =>
      cases visit [32] hstr (by omega) (by omega) with
      | ends hnext hsep =>
        rw [pieces_eq_nil hsep] at hwords
        cases hwords
      | fits y x t hs hsep hx hnone ht hend hnext =>
        have hpos := List.length_pos_iff.2 hx
        rw [hs] at hstr hfuel hwords hlength
        rw [pieces_cut hsep hx hnone ht, List.length_cons] at hwords
        simp only [List.length_append] at hfuel hlength
        rw [splitSpaceLoop_fits hroom.mayGoOn hx hstr hend hnext, hs,
          pieces_cut hsep hx hnone ht, ih (s := t) (by simp [hstr]) (hroom.push x) (by omega)
            (by omega) (by simp only [List.length_append]; omega), List.append_assoc]
        rfl
      | long y x t hs hsep hx hnone ht hbegin hend hnext =>
        rw [hs] at hlength
        simp only [List.length_append] at hlength
        omega
      | beyond y x t hs hsep hx hnone hbegin =>
        rw [hs] at hlength
        simp only [List.length_append] at hlength
        omega

/-- What a run has pushed when it ends: elements that an `int` can count, as many as the limit
allows, or fewer when there was nothing left to find. -/
lemma exists_new_of_splitSpaceLoop (hlen : str.length < 9223372036854775808)
    (hroom : Room count maxPartition ret l)
    (hrun : splitSpaceLoop str count maxPartition fuel cur ret = some (cur', ret')) :
    ∃ new, ret' = ret ++ new ∧ (∀ x ∈ new, x.length < 2147483648) ∧
      (cur' = -1 ∨ new.length = l) := by
  induction fuel generalizing cur ret l with
  | zero => cases hrun
  | succ fuel ih =>
    cases l with
    | zero =>
      rw [splitSpaceLoop_closed hroom.closed] at hrun
      obtain ⟨rfl, rfl⟩ := Prod.mk.inj (Option.some.inj hrun)
      exact ⟨[], by simp, by simp, Or.inr rfl⟩
    | succ l =>
      cases hnext : nextPiece str [32] cur with
      | none =>
        rw [splitSpaceLoop_none hroom.mayGoOn hnext] at hrun
        obtain ⟨rfl, rfl⟩ := Prod.mk.inj (Option.some.inj hrun)
        exact ⟨[], by simp, by simp, Or.inl rfl⟩
      | some piece =>
        obtain ⟨c, next⟩ := piece
        obtain ⟨⟨hc, -⟩, -, hnextmax⟩ := nextPiece_bounds hnext
        rw [splitSpaceLoop_some hroom.mayGoOn hnext] at hrun
        split at hrun
        · split at hrun
          · rename_i hin
            obtain ⟨new, rfl, hshort, hend⟩ := ih (hroom.push _) hrun
            refine ⟨Protocol.substr str c (next - c) :: new, by simp, ?_, ?_⟩
            · have hnonneg : 0 ≤ c := by
                by_contra hneg
                have hsize := sizeT_of_neg (not_le.1 hneg) (by omega)
                omega
              apply List.forall_mem_cons.2 ⟨_, hshort⟩
              have hle := length_substr_le str c (n := next - c) (by omega) (by omega)
              omega
            · simpa using hend
          · cases hrun
        · exact ih hroom hrun

/-- Every run from a position where an `int` can say so ends on a space, when a word behind
the last `int` is found at a position that is an `int` again. -/
lemma BeginsAt.exists_spot {p f c n : Nat} (h : BeginsAt str [32] p f)
    (hlen : str.length < 9223372036854775808) (hc : int32 f = c) (hn : n < 2147483648)
    (hroom : Room count maxPartition ret l)
    (hrun : splitSpaceLoop str count maxPartition fuel n ret = some (cur', ret')) :
    (l = 0 ∧ cur' = n) ∨
      ∃ t : Nat, cur' = t ∧ t < 2147483648 ∧ ∃ b ∈ str[t]?, isSep [32] b = true := by
  induction fuel generalizing n ret l with
  | zero => cases hrun
  | succ fuel ih =>
    cases l with
    | zero =>
      rw [splitSpaceLoop_closed hroom.closed] at hrun
      exact Or.inl ⟨rfl, (Prod.mk.inj (Option.some.inj hrun)).1.symm⟩
    | succ l =>
      obtain ⟨b, t, hnext, -, ht, hsep, -⟩ := h.exists_nextPiece hlen hc hn
      have hrest : ∀ {l ret}, Room count maxPartition ret l →
          splitSpaceLoop str count maxPartition fuel t ret = some (cur', ret') →
          ∃ t : Nat, cur' = t ∧ t < 2147483648 ∧ ∃ b ∈ str[t]?, isSep [32] b = true := by
        intro l ret hroom hrun
        obtain ⟨-, hend⟩ | hspot := ih ht hroom hrun
        · exact ⟨t, hend, ht, hsep⟩
        · exact hspot
      rw [splitSpaceLoop_some hroom.mayGoOn hnext] at hrun
      split at hrun
      · split at hrun
        · exact Or.inr (hrest (hroom.push _) hrun)
        · cases hrun
      · exact Or.inr (hrest hroom hrun)

/-! ## What a run that is right must have found -/

/-- A run that ends at once pushes nothing. -/
lemma eq_of_splitSpaceLoop (hopen : MayGoOn count maxPartition ret)
    (hnext : nextPiece str [32] cur = none)
    (hrun : splitSpaceLoop str count maxPartition fuel cur ret = some (cur', ret')) :
    cur' = -1 ∧ ret' = ret := by
  cases fuel with
  | zero => cases hrun
  | succ fuel =>
    rw [splitSpaceLoop_none hopen hnext] at hrun
    obtain ⟨rfl, rfl⟩ := Prod.mk.inj (Option.some.inj hrun)
    exact ⟨rfl, rfl⟩

/-- A word that ends behind the last `int` is not what a run pushes. -/
lemma pushTail_ne_of_long (hlen : str.length < 9223372036854775808)
    (hbegin : pre.length + y.length < 2147483648)
    (hend : 2147483648 ≤ pre.length + y.length + x.length)
    (hroom : Room count maxPartition ret (l + 1))
    (hnext : nextPiece str [32] pre.length = some (((pre.length + y.length : Nat) : Int),
      wrapped str (pre.length + y.length + x.length)))
    (hrun : splitSpaceLoop str count maxPartition fuel pre.length ret = some (cur', ret'))
    (xs : List Bytes) : pushTail str cur' ret' ≠ ret ++ x :: xs := by
  intro hout
  by_cases hneg : wrapped str (pre.length + y.length + x.length) < 0
  · -- the next turn is the last one
    cases fuel with
    | zero => cases hrun
    | succ fuel =>
    have hmin : -2147483648 ≤ wrapped str (pre.length + y.length + x.length) :=
      (nextPiece_bounds hnext).2.1
    rw [splitSpaceLoop_some hroom.mayGoOn hnext, if_neg (by omega)] at hrun
    obtain ⟨rfl, rfl⟩ :=
      eq_of_splitSpaceLoop hroom.mayGoOn (nextPiece_of_neg hneg hmin hlen) hrun
    rw [pushTail_npos hlen] at hout
    have hlength := congrArg List.length hout
    rw [List.length_append, List.length_cons] at hlength
    omega
  · -- the word is longer than an `int` can say
    have hlong : 2147483648 ≤ x.length := by
      by_contra hlt
      apply hneg
      rw [wrapped, int32_of_ge hend (by omega), if_neg (by omega)]
      omega
    obtain ⟨new, rfl, hshort, hend⟩ := exists_new_of_splitSpaceLoop hlen hroom hrun
    have hmem : x ∈ new := by
      obtain rfl | hfull := hend
      · rw [pushTail_npos hlen] at hout
        rw [List.append_cancel_left hout]
        exact List.mem_cons_self
      · cases new with
        | nil => cases hfull
        | cons z new =>
          have hz : z = x := by
            unfold pushTail at hout
            split at hout
            · rw [List.append_assoc] at hout
              exact (List.cons.inj (List.append_cancel_left hout)).1
            · exact (List.cons.inj (List.append_cancel_left hout)).1
          rw [hz]
          exact List.mem_cons_self
    have hlt := hshort x hmem
    omega

/-- A word that begins behind the last `int` is not what a run pushes. -/
lemma pushTail_ne_of_over (hlen : str.length < 9223372036854775808)
    (hstr : str = pre ++ (y ++ (x ++ s))) (hsep : ∀ b ∈ y, isSep [32] b = true) (hx : x ≠ [])
    (hnone : ∀ b ∈ x, isSep [32] b = false) (hpre : pre.length < 2147483648)
    (hbegin : 2147483648 ≤ pre.length + y.length)
    (hroom : Room count maxPartition ret (l + 1))
    (hrun : splitSpaceLoop str count maxPartition fuel pre.length ret = some (cur', ret'))
    {xs : List Bytes} (hxs : xs ≠ []) (hheads : ∀ z ∈ xs, ∀ b ∈ z.head?, isSep [32] b = false) :
    pushTail str cur' ret' ≠ ret ++ xs := by
  intro hout
  have hbeginsAt := beginsAt_of_append hstr hsep hx hnone hpre hbegin
  have hfirst := findFirstNotOf_eq_int32 hsep hx hnone hstr hpre
  have hbounds := int32_bounds (pre.length + y.length : Nat)
  have hnothing : ∀ {cur fuel}, nextPiece str [32] cur = none →
      splitSpaceLoop str count maxPartition fuel cur ret = some (cur', ret') → False := by
    intro cur fuel hnext hrun
    obtain ⟨rfl, rfl⟩ := eq_of_splitSpaceLoop hroom.mayGoOn hnext hrun
    rw [pushTail_npos hlen] at hout
    exact hxs (by simpa using hout)
  by_cases hneg : int32 (pre.length + y.length : Nat) < 0
  · have hnext := nextPiece_of_first_neg hlen hfirst hneg hbounds.1
    split at hnext
    · exact hnothing hnext hrun
    · -- a `substr` from a negative position throws
      cases fuel with
      | zero => cases hrun
      | succ fuel =>
      rw [splitSpaceLoop_some hroom.mayGoOn hnext] at hrun
      split at hrun
      · have hsize := sizeT_of_neg hneg (by omega)
        rw [if_neg (by omega)] at hrun
        cases hrun
      · exact hnothing (nextPiece_of_neg (by omega) (int32_bounds _).1 hlen) hrun
  · obtain ⟨c, hc⟩ := Int.eq_ofNat_of_zero_le (not_lt.1 hneg)
    obtain ⟨hzero, -⟩ | ⟨t, rfl, ht, b, hb, hbsep⟩ :=
      hbeginsAt.exists_spot hlen hc hpre hroom hrun
    · cases hzero
    · -- the rest begins with a space
      obtain ⟨new, rfl, -, -⟩ := exists_new_of_splitSpaceLoop hlen hroom hrun
      have hin : t < str.length := (List.getElem?_eq_some_iff.1 hb).1
      rw [pushTail, sizeT_natCast ht, if_pos hin, List.append_assoc] at hout
      have hhead := hheads (str.drop t) (by rw [← List.append_cancel_left hout]; simp) b
        (by rw [List.head?_drop]; exact hb)
      rw [hbsep] at hhead
      cases hhead

/-- From `pre` on, with room for `l` more elements, the vector is right: the limit is not
reached, or the string ends with the last word that the limit allows for. -/
def FitsLimit (str s : Bytes) (l : Nat) : Prop :=
  (pieces (isSep [32]) s).length < l ∧ (∀ b ∈ str.drop 2147483647, isSep [32] b = true) ∨
    (pieces (isSep [32]) s).length = l ∧ str.length < 2147483648 ∧
      ∀ b ∈ str.getLast?, isSep [32] b = false

/-- A run that appends the words up to the limit. -/
lemma fitsLimit_of_splitSpaceLoop (hlen : str.length < 9223372036854775808)
    (hstr : str = pre ++ s) (hpre : pre.length < 2147483648)
    (hroom : Room count maxPartition ret l)
    (hhead : l = 0 → ∀ b ∈ s.head?, isSep [32] b = true)
    (hlast : l = 0 → ∀ b ∈ pre.getLast?, isSep [32] b = false)
    (hrun : splitSpaceLoop str count maxPartition fuel pre.length ret = some (cur', ret'))
    (hout : pushTail str cur' ret' = ret ++ piecesUpTo (isSep [32]) (l + 1) s) :
    FitsLimit str s l := by
  induction fuel generalizing pre s ret l with
  | zero => cases hrun
  | succ fuel ih =>
    cases l with
    | zero =>
      rw [splitSpaceLoop_closed hroom.closed] at hrun
      obtain ⟨rfl, rfl⟩ := Prod.mk.inj (Option.some.inj hrun)
      cases s with
      | nil =>
        rw [List.append_nil] at hstr
        rw [hstr]
        exact Or.inr ⟨rfl, hpre, hlast rfl⟩
      | cons a s =>
        -- the rest begins with a space
        have hin : pre.length < str.length := by
          rw [hstr, List.length_append, List.length_cons]
          omega
        rw [pushTail, sizeT_natCast hpre, if_pos hin] at hout
        have hmem : str.drop pre.length ∈ piecesUpTo (isSep [32]) 1 (a :: s) := by
          rw [← List.append_cancel_left hout]
          exact List.mem_singleton.2 rfl
        have hfree := (ne_nil_of_mem_piecesUpTo Nat.one_pos hmem).2 a
        rw [hstr, List.drop_left] at hfree
        rw [hhead rfl a rfl] at hfree
        exact absurd (hfree rfl) (by decide)
    | succ l =>
      cases visit [32] hstr hpre hlen with
      | ends hnext hsep =>
        rw [FitsLimit, pieces_eq_nil hsep]
        refine Or.inl ⟨Nat.succ_pos l, fun b hb => ?_⟩
        rw [hstr, List.drop_append, List.drop_of_length_le (by omega), List.nil_append] at hb
        exact hsep b (List.drop_subset _ _ hb)
      | fits y x t hs hsep hx hnone ht hend hnext =>
        rw [hs] at hstr hout
        rw [piecesUpTo_cut l hsep hx hnone ht] at hout
        rw [splitSpaceLoop_fits hroom.mayGoOn hx hstr hend hnext] at hrun
        have hrest : FitsLimit str t l := by
          apply ih _ _ (hroom.push x) (fun _ => ht) _ hrun
          · rw [hout, List.append_assoc]
            rfl
          · rw [hstr]
            simp only [List.append_assoc]
          · simp only [List.length_append]
            omega
          · intro _ b hb
            rw [List.getLast?_append_of_ne_nil _ (by simp [hx]),
              List.getLast?_append_of_ne_nil _ hx] at hb
            exact hnone b (List.mem_of_getLast? hb)
        rw [FitsLimit, hs, pieces_cut hsep hx hnone ht, List.length_cons]
        exact hrest.imp (And.imp_left Nat.succ_lt_succ) (And.imp_left (congrArg Nat.succ))
      | long y x t hs hsep hx hnone ht hbegin hend hnext =>
        rw [hs, piecesUpTo_cut l hsep hx hnone ht] at hout
        exact absurd hout (pushTail_ne_of_long hlen hbegin hend hroom hnext hrun _)
      | beyond y x t hs hsep hx hnone hbegin =>
        rw [hs] at hstr
        apply absurd hout (pushTail_ne_of_over hlen hstr hsep hx hnone hpre hbegin hroom hrun _ _)
        · rw [hs]
          exact piecesUpTo_ne_nil (pieces_ne_nil hx hnone)
        · exact fun z hz => (ne_nil_of_mem_piecesUpTo (Nat.succ_pos _) hz).2

/-! ## The function -/

/-- The vector with the words up to the limit behind what was there, and their number. -/
def appendUpTo (m : Nat) (str : Bytes) (ret : List Bytes) : List Bytes × Int :=
  (ret ++ piecesUpTo (isSep [32]) m str, (piecesUpTo (isSep [32]) m str).length)

/-- When the limit of `m` elements leaves nothing wrong: with one element, the string does not
begin with a space; with more, the words are fewer than `m - 1` and only spaces stand from the
last `int` on, or they are `m - 1` and the string ends with the last one. When the old elements
are more than an `int` can count, the loop takes no turn, and the string must be a single
word. -/
def WithinLimit (str : Bytes) (ret : List Bytes) (m : Int) : Prop :=
  m = 1 ∧ str.head? ≠ some 32 ∨
    1 < m ∧
      if ret.length < 2147483648 then
        (pieces (isSep [32]) str).length + 1 < m ∧ (∀ b ∈ str.drop 2147483647, b = 32) ∨
          (pieces (isSep [32]) str).length + 1 = m ∧ str.length < 2147483648 ∧
            str.getLast? ≠ some 32
      else 32 ∉ str

instance (str : Bytes) (ret : List Bytes) (m : Int) : Decidable (WithinLimit str ret m) :=
  inferInstanceAs (Decidable (_ ∨ _))

/-- The loop takes no turn with a limit of one element, or when the old elements are more than
an `int` can count. -/
lemma closed_of_one_or_long {m : Int} (hm : 1 ≤ m) (hm' : m < 2147483648)
    (hret : ret.length < 9223372036854775808) (h : m = 1 ∨ 2147483648 ≤ ret.length) :
    ¬MayGoOn (int32 ret.length) m ret := by
  rintro (hnonpos | hless)
  · omega
  · rw [sizeT_of_nonneg (n := m - 1) (by omega) (by omega)] at hless
    obtain rfl | hlong := h
    · simp at hless
    · have hdiff : 4294967296 ≤ (ret.length : Int) - int32 ret.length := by
        unfold int32
        omega
      have hbounds := int32_bounds ret.length
      rw [sizeT_of_nonneg (by omega) (by omega)] at hless
      omega

lemma room_of_lt {m : Int} (hm : 1 ≤ m) (hm' : m < 2147483648) (hret : ret.length < 2147483648) :
    Room (int32 ret.length) m ret (m.toNat - 1) := by
  intro new hnew
  have hsize : ((ret ++ new).length : Int) - int32 ret.length = new.length := by
    rw [int32_natCast hret, List.length_append]
    omega
  rw [MayGoOn, hsize, sizeT_natCast (by omega),
    sizeT_of_nonneg (n := m - 1) (by omega) (by omega)]
  omega

/-- Without a turn the whole string is the rest. -/
lemma splitSpaceReturns_of_closed {m : Int} (hclosed : ¬MayGoOn (int32 ret.length) m ret) :
    SplitSpaceReturns str ret m (pushTail str 0 ret,
      int32 ((pushTail str 0 ret).length - int32 ret.length)) :=
  ⟨1, 0, ret, splitSpaceLoop_closed hclosed, rfl⟩

lemma pushTail_zero : pushTail str 0 ret = ret ++ if str = [] then [] else [str] := by
  have hzero : sizeT 0 = 0 := rfl
  rw [pushTail, hzero, List.drop_zero]
  by_cases hnil : str = []
  · rw [if_pos hnil, hnil, List.append_nil]
    rfl
  · rw [if_neg hnil, if_pos (List.length_pos_iff.2 hnil)]

lemma appendUpTo_eq {m : Nat} {new : List Bytes} (hm : m < 2147483648) (hpos : 0 < m)
    (hnew : piecesUpTo (isSep [32]) m str = new) :
    appendUpTo m str ret =
      (ret ++ new, int32 (((ret ++ new).length : Int) - int32 ret.length)) := by
  have hle : (piecesUpTo (isSep [32]) m str).length ≤ m := length_piecesUpTo_le hpos
  rw [List.length_append, int32_sub_int32, ← hnew, int32_natCast (by omega)]
  rfl

lemma splitSpaceReturns_closed_iff {m : Int} (hm : 1 ≤ m) (hm' : m < 2147483648)
    (hclosed : ¬MayGoOn (int32 ret.length) m ret) :
    SplitSpaceReturns str ret m (appendUpTo m.toNat str ret) ↔
      piecesUpTo (isSep [32]) m.toNat str = if str = [] then [] else [str] := by
  have hreturns : SplitSpaceReturns str ret m (pushTail str 0 ret,
      int32 ((pushTail str 0 ret).length - int32 ret.length)) := splitSpaceReturns_of_closed hclosed
  rw [pushTail_zero] at hreturns
  constructor
  · intro h
    exact List.append_cancel_left (Prod.mk.inj (h.unique hreturns)).1
  · intro hnew
    rw [appendUpTo_eq (by omega) (by omega) hnew]
    exact hreturns

/-- One element is the string when it does not begin with a space. -/
lemma piecesUpTo_one_eq_iff :
    piecesUpTo (isSep [32]) 1 str = (if str = [] then [] else [str]) ↔ str.head? ≠ some 32 := by
  cases str with
  | nil => simp [piecesUpTo]
  | cons a s =>
    rw [if_neg (List.cons_ne_nil a s), List.head?_cons]
    by_cases ha : a = 32
    · apply iff_of_false
      · intro hnew
        have hmem : a :: s ∈ piecesUpTo (isSep [32]) 1 (a :: s) := by
          rw [hnew]
          exact List.mem_singleton.2 rfl
        have hfree := (ne_nil_of_mem_piecesUpTo Nat.one_pos hmem).2 a rfl
        rw [ha] at hfree
        exact absurd hfree (by decide)
      · rw [ha]
        exact fun h => h rfl
    · have hfree : isSep [32] a = false := by simpa [isSep] using ha
      have hsome : pieces (isSep [32]) (a :: s) ≠ [] := by
        intro hnil
        rw [pieces_eq_nil_iff.1 hnil a List.mem_cons_self] at hfree
        cases hfree
      have hmany : ¬(pieces (isSep [32]) (a :: s)).length < 1 := by
        have hpos := List.length_pos_iff.2 hsome
        omega
      apply iff_of_true
      · rw [piecesUpTo, if_neg hmany, Nat.sub_self, List.take_zero, fromPiece,
          List.dropWhile_cons_of_neg (by simp [hfree]), List.nil_append]
      · simpa using ha

/-- More elements are the string when it has no space. -/
lemma piecesUpTo_eq_iff {m : Nat} (hm : 1 < m) :
    piecesUpTo (isSep [32]) m str = (if str = [] then [] else [str]) ↔ 32 ∉ str := by
  by_cases hnil : str = []
  · rw [hnil]
    simp [piecesUpTo, Nat.zero_lt_of_lt hm]
  rw [if_neg hnil]
  have hsep : ∀ b, isSep [32] b = false ↔ b ≠ 32 := by simp [isSep]
  constructor
  · intro hnew hspace
    by_cases hfew : (pieces (isSep [32]) str).length < m
    · rw [piecesUpTo_eq_pieces hfew] at hnew
      have hmem : str ∈ pieces (isSep [32]) str := by
        rw [hnew]
        exact List.mem_singleton.2 rfl
      exact (hsep 32).1 (not_sep_of_mem_pieces hmem 32 hspace) rfl
    · have hlength := congrArg List.length hnew
      rw [piecesUpTo, if_neg hfew, List.length_append, List.length_take] at hlength
      simp only [List.length_singleton] at hlength
      omega
  · intro hspace
    have hnone : ∀ b ∈ str, isSep [32] b = false := by
      intro b hb
      apply (hsep b).2
      rintro rfl
      exact hspace hb
    have hword := pieces_eq_single hnil hnone
    rw [piecesUpTo_eq_pieces (by rw [hword]; exact hm), hword]

/-- With room for more than one element. -/
lemma splitSpaceReturns_open_iff {m : Int} (hm : 1 < m) (hm' : m < 2147483648)
    (hlen : str.length < 9223372036854775808) (hret : ret.length < 2147483648) :
    SplitSpaceReturns str ret m (appendUpTo m.toNat str ret) ↔
      FitsLimit str str (m.toNat - 1) := by
  have hroom := room_of_lt (by omega) hm' hret
  obtain ⟨l, hl⟩ : ∃ l, m.toNat = l + 2 := ⟨m.toNat - 2, by omega⟩
  rw [hl] at hroom ⊢
  have hroom : Room (int32 ret.length) m ret (l + 1) := hroom
  have hstr : str = [] ++ str := rfl
  constructor
  · rintro ⟨fuel, cur, ret', hrun, hout⟩
    exact fitsLimit_of_splitSpaceLoop hlen hstr (by simp) hroom (by simp) (by simp) hrun
      (Prod.mk.inj hout).1.symm
  · rintro (⟨hfew, hbehind⟩ | ⟨hwords, hshort, hlast⟩)
    · have hrun := splitSpaceLoop_eq ret hlen hbehind hstr (by simp) (Nat.lt_succ_self _)
        fun new hnew => (hroom new (by omega)).2 (by omega)
      refine ⟨str.length + 1, -1, _, hrun, ?_⟩
      rw [pushTail_npos hlen]
      exact appendUpTo_eq (by omega) (by omega) (piecesUpTo_eq_pieces (by omega))
    · have hrun := splitSpaceLoop_eq_last hshort hstr hroom hwords hlast (Nat.lt_succ_self _)
      refine ⟨str.length + 1, _, _, hrun, ?_⟩
      have hdone : pushTail str str.length (ret ++ pieces (isSep [32]) str) =
          ret ++ pieces (isSep [32]) str := by
        rw [pushTail, sizeT_natCast hshort, if_neg (Nat.lt_irrefl _)]
      rw [hdone]
      exact appendUpTo_eq (by omega) (by omega) (piecesUpTo_eq_pieces (by omega))

/-- `split(str, ret, m)` appends the words up to the limit exactly when the limit leaves
nothing wrong. -/
theorem splitSpace_limit_iff (str : Bytes) (ret : List Bytes) (m : Int)
    (hlen : str.length < 9223372036854775808) (hret : ret.length < 9223372036854775808)
    (hm : 1 ≤ m) (hm' : m < 2147483648) :
    (SplitSpaceReturns str ret m (appendUpTo m.toNat str ret) ↔ WithinLimit str ret m) ∧
      (piecesUpTo (isSep [32]) m.toNat str).length ≤ m ∧
      ∀ w ∈ piecesUpTo (isSep [32]) m.toNat str, w ≠ [] ∧ w.head? ≠ some 32 := by
  refine ⟨?_, ?_, ?_⟩
  · by_cases hone : m = 1
    · have hclosed := closed_of_one_or_long hm hm' hret (Or.inl hone)
      rw [splitSpaceReturns_closed_iff hm hm' hclosed, WithinLimit]
      subst hone
      rw [Int.toNat_one, piecesUpTo_one_eq_iff]
      simp
    · have hmore : 1 < m := by omega
      by_cases hlong : ret.length < 2147483648
      · rw [splitSpaceReturns_open_iff hmore hm' hlen hlong, WithinLimit, FitsLimit]
        have hspaces : (∀ b ∈ str.drop 2147483647, isSep [32] b = true) ↔
            ∀ b ∈ str.drop 2147483647, b = 32 := by simp [isSep]
        have hend : (∀ b ∈ str.getLast?, isSep [32] b = false) ↔ str.getLast? ≠ some 32 := by
          cases str.getLast? with
          | none => simp
          | some b => simp [isSep]
        have hfewer : (pieces (isSep [32]) str).length < m.toNat - 1 ↔
            ((pieces (isSep [32]) str).length : Int) + 1 < m := by omega
        have hexact : (pieces (isSep [32]) str).length = m.toNat - 1 ↔
            ((pieces (isSep [32]) str).length : Int) + 1 = m := by omega
        rw [hspaces, hend, hfewer, hexact, if_pos hlong]
        simp [hone, hmore]
      · have hclosed := closed_of_one_or_long hm hm' hret (Or.inr (not_lt.1 hlong))
        rw [splitSpaceReturns_closed_iff hm hm' hclosed, WithinLimit,
          piecesUpTo_eq_iff (by omega), if_neg hlong]
        simp [hone, hmore]
  · have hle : (piecesUpTo (isSep [32]) m.toNat str).length ≤ m.toNat :=
      length_piecesUpTo_le (by omega)
    omega
  · intro w hw
    obtain ⟨hne, hhead⟩ := ne_nil_of_mem_piecesUpTo (show 0 < m.toNat by omega) hw
    refine ⟨hne, fun hspace => ?_⟩
    have hfree := hhead 32 hspace
    exact absurd hfree (by decide)

/-- `"a b"` behind an element, with a limit of three. -/
theorem splitSpace_limit_words :
    SplitSpaceReturns [97, 32, 98] [[99]] 3 ([[99], [97], [98]], 2) := by
  apply (splitSpace_limit_iff [97, 32, 98] [[99]] 3 (by decide) (by decide) (by decide)
    (by decide)).1.mpr
  exact Or.inr ⟨by decide, Or.inr ⟨by decide, by decide, by decide⟩⟩

/-- `"a b"` with a limit of two: the second element begins with the space. -/
theorem splitSpace_limit_keeps_space :
    SplitSpaceReturns [97, 32, 98] [] 2 ([[97], [32, 98]], 2) ∧
      ¬SplitSpaceReturns [97, 32, 98] [] 2 (appendUpTo 2 [97, 32, 98] []) := by
  have hreturns : SplitSpaceReturns [97, 32, 98] [] 2 ([[97], [32, 98]], 2) :=
    splitSpaceReturns_of_splitSpace (by decide)
  refine ⟨hreturns, fun h => ?_⟩
  exact absurd (hreturns.unique h) (by decide)

end CoplusLean.StringUtil
