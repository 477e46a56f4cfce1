import CoplusLean.Lib.Pieces
import CoplusLean.Models.FormatAccess

/-!
# What `split` finds

The positions of `split` are `int`s. As long as every piece ends where an `int` can say so,
the vector gains exactly the pieces of the string, and every `substr` starts inside it.
-/

namespace CoplusLean.StringUtil

open Lib

/-- The characters of the token separate. -/
def isSep (token : Bytes) (b : UInt8) : Bool := decide (b ∈ token)

variable {str token pre s x y : Bytes} {cur : Int} {fuel : Nat} {ret : List Bytes}

/-! ## One turn -/

lemma sizeT_natCast {n : Nat} (hn : n < 2147483648) : sizeT (n : Int) = n := by
  rw [sizeT_of_nonneg (by omega) (by omega), Int.toNat_natCast]

lemma int32_natCast {n : Nat} (hn : n < 2147483648) : int32 (n : Int) = n :=
  int32_of_lt (by omega) (by omega)

lemma findIdx?_append_of_forall {p : UInt8 → Bool} (hx : ∀ b ∈ x, p b = false) :
    (x ++ s).findIdx? p = (s.findIdx? p).map (· + x.length) := by
  rw [List.findIdx?_append, List.findIdx?_eq_none_iff.2 hx, Option.none_or]

/-- Behind the last piece the loop ends. -/
lemma nextPiece_eq_none (hsep : ∀ b ∈ str.drop (sizeT cur), isSep token b = true) :
    nextPiece str token cur = none := by
  have hnone : (str.drop (sizeT cur)).findIdx? (· ∉ token) = none := by
    rw [List.findIdx?_eq_none_iff]
    intro b hb
    simpa [isSep] using hsep b hb
  rw [nextPiece, findFirstNotOf, hnone]
  rfl

/-- The first character that is no separator. -/
lemma findFirstNotOf_eq_int32 (hsep : ∀ b ∈ y, isSep token b = true) (hx : x ≠ [])
    (hnone : ∀ b ∈ x, isSep token b = false) (hstr : str = pre ++ (y ++ (x ++ s)))
    (hpre : pre.length < 2147483648) :
    findFirstNotOf str token pre.length = int32 (pre.length + y.length : Nat) := by
  have hdrop : str.drop (sizeT (pre.length : Int)) = y ++ (x ++ s) := by
    rw [hstr, sizeT_natCast hpre, List.drop_left]
  have hidx : (x ++ s).findIdx? (· ∉ token) = some 0 := by
    cases x with
    | nil => exact absurd rfl hx
    | cons b x =>
      have hb := hnone b List.mem_cons_self
      simpa [List.findIdx?_cons, isSep] using hb
  rw [findFirstNotOf, hdrop, findIdx?_append_of_forall (by simpa [isSep] using hsep), hidx,
    sizeT_natCast hpre]
  simp only [Option.map_some, Nat.zero_add]
  rw [← Nat.cast_add]

lemma findFirstNotOf_eq (hsep : ∀ b ∈ y, isSep token b = true) (hx : x ≠ [])
    (hnone : ∀ b ∈ x, isSep token b = false) (hstr : str = pre ++ (y ++ (x ++ s)))
    (hend : pre.length + y.length < 2147483648) :
    findFirstNotOf str token pre.length = ((pre.length + y.length : Nat) : Int) := by
  rw [findFirstNotOf_eq_int32 hsep hx hnone hstr (by omega)]
  exact int32_natCast hend

/-- A piece that begins where an `int` can say so. -/
lemma nextPiece_eq (hsep : ∀ b ∈ y, isSep token b = true) (hx : x ≠ [])
    (hnone : ∀ b ∈ x, isSep token b = false) (hs : ∀ b ∈ s.head?, isSep token b = true)
    (hstr : str = pre ++ (y ++ (x ++ s))) (hbegin : pre.length + y.length < 2147483648) :
    nextPiece str token pre.length =
      some (((pre.length + y.length : Nat) : Int),
        if int32 (pre.length + y.length + x.length : Nat) = -1 then int32 str.length
        else int32 (pre.length + y.length + x.length : Nat)) := by
  have hfirst := findFirstNotOf_eq hsep hx hnone hstr hbegin
  have hdrop : str.drop (sizeT ((pre.length + y.length : Nat) : Int)) = x ++ s := by
    rw [hstr, sizeT_natCast hbegin, ← List.append_assoc, ← List.length_append, List.drop_left]
  have hlast : (if findFirstOf str token ((pre.length + y.length : Nat) : Int) = -1 then
      int32 str.length else findFirstOf str token ((pre.length + y.length : Nat) : Int)) =
      if int32 (pre.length + y.length + x.length : Nat) = -1 then int32 str.length
      else int32 (pre.length + y.length + x.length : Nat) := by
    rw [findFirstOf, hdrop, findIdx?_append_of_forall (by simpa [isSep] using hnone),
      sizeT_natCast hbegin]
    cases s with
    | nil =>
      have hend : str.length = pre.length + y.length + x.length := by
        simp [hstr, Nat.add_assoc]
      rw [List.findIdx?_nil, Option.map_none, if_pos rfl, hend, ite_self]
    | cons a s =>
      have ha : a ∈ token := by simpa [isSep] using hs a rfl
      have hidx : (a :: s).findIdx? (· ∈ token) = some 0 := by simp [List.findIdx?_cons, ha]
      rw [hidx]
      simp only [Option.map_some, Nat.zero_add]
      rw [← Nat.cast_add]
  unfold nextPiece
  dsimp only
  rw [hfirst, hlast, if_neg (by omega)]

/-- A piece that ends where an `int` can say so. -/
lemma nextPiece_eq_some (hsep : ∀ b ∈ y, isSep token b = true) (hx : x ≠ [])
    (hnone : ∀ b ∈ x, isSep token b = false) (hs : ∀ b ∈ s.head?, isSep token b = true)
    (hstr : str = pre ++ (y ++ (x ++ s)))
    (hend : pre.length + y.length + x.length < 2147483648) :
    nextPiece str token pre.length =
      some (((pre.length + y.length : Nat) : Int),
        ((pre.length + y.length + x.length : Nat) : Int)) := by
  rw [nextPiece_eq hsep hx hnone hs hstr (by omega), int32_natCast hend, if_neg (by omega)]

lemma splitLoop_succ : splitLoop str token (fuel + 1) cur ret =
    match nextPiece str token cur with
    | none => some ret
    | some (cur, next) =>
      if next > cur then
        if sizeT cur ≤ str.length then
          splitLoop str token fuel (int32 (next + 1))
            (ret ++ [Protocol.substr str cur (next - cur)])
        else none
      else splitLoop str token fuel (int32 (next + 1)) ret := by
  unfold nextPiece
  rw [splitLoop]
  dsimp only
  by_cases hcur : findFirstNotOf str token cur = -1
  · rw [if_pos hcur, if_pos hcur]
  · rw [if_neg hcur, if_neg hcur]

/-- A negative position is far behind the end. -/
lemma nextPiece_of_neg (hcur : cur < 0) (hmin : -2147483648 ≤ cur)
    (hlen : str.length < 9223372036854775808) : nextPiece str token cur = none := by
  have hsize := sizeT_of_neg hcur (by omega)
  apply nextPiece_eq_none
  rw [List.drop_of_length_le (by omega)]
  simp

lemma nextPiece_bounds {c next : Int} (hpiece : nextPiece str token cur = some (c, next)) :
    (-2147483648 ≤ c ∧ c < 2147483648) ∧ -2147483648 ≤ next ∧ next < 2147483648 := by
  have hfirst : ∀ pos, -2147483648 ≤ findFirstNotOf str token pos ∧
      findFirstNotOf str token pos < 2147483648 := by
    intro pos
    unfold findFirstNotOf
    split
    · omega
    · exact int32_bounds _
  have hlast : ∀ pos, -2147483648 ≤ findFirstOf str token pos ∧
      findFirstOf str token pos < 2147483648 := by
    intro pos
    unfold findFirstOf
    split
    · omega
    · exact int32_bounds _
  unfold nextPiece at hpiece
  dsimp only at hpiece
  split at hpiece
  · cases hpiece
  · obtain ⟨rfl, rfl⟩ := Prod.mk.inj (Option.some.inj hpiece)
    refine ⟨hfirst cur, ?_⟩
    split
    · exact int32_bounds _
    · exact hlast _

/-- From a position that is no `int` any more, or from one with only separators behind it. -/
lemma nextPiece_none {n : Nat} (hn : n ≤ 2147483648) (hlen : str.length < 9223372036854775808)
    (hsep : n < 2147483648 → ∀ b ∈ str.drop n, isSep token b = true) :
    nextPiece str token (int32 n) = none := by
  by_cases hmax : n = 2147483648
  · rw [hmax]
    apply nextPiece_of_neg _ _ hlen <;> decide
  · apply nextPiece_eq_none
    rw [int32_natCast (by omega), sizeT_natCast (by omega)]
    exact hsep (by omega)

/-- Behind the end. -/
lemma nextPiece_end (token : Bytes) (hlen : str.length < 2147483648) :
    nextPiece str token (int32 (str.length + 1)) = none := by
  rw [← Nat.cast_add_one]
  apply nextPiece_none (by omega) (by omega)
  intro _
  rw [List.drop_of_length_le (by omega)]
  simp

/-- Behind a negative position there is nothing to find. -/
lemma nextPiece_of_first_neg {c : Int} (hlen : str.length < 9223372036854775808)
    (hfirst : findFirstNotOf str token cur = c) (hneg : c < 0) (hmin : -2147483648 ≤ c) :
    nextPiece str token cur = if c = -1 then none else some (c, int32 str.length) := by
  have hsize := sizeT_of_neg hneg (by omega)
  have hend : findFirstOf str token c = -1 := by
    rw [findFirstOf, List.drop_of_length_le (by omega), List.findIdx?_nil]
  rw [nextPiece]
  dsimp only
  rw [hfirst, hend, if_pos rfl]

/-- What one turn can find behind `pre`. -/
inductive Turn (str token pre s : Bytes) : Prop where
  | ends (hnext : nextPiece str token (int32 pre.length) = none)
    (hsep : pre.length < 2147483648 → ∀ b ∈ s, isSep token b = true)
  | last (y x : Bytes) (hs : s = y ++ x) (hsep : ∀ b ∈ y, isSep token b = true) (hx : x ≠ [])
    (hnone : ∀ b ∈ x, isSep token b = false) (hend : str.length < 2147483648)
    (hnext : nextPiece str token (int32 pre.length) =
      some (((pre.length + y.length : Nat) : Int), (str.length : Int)))
  | piece (y x : Bytes) (a : UInt8) (rest : Bytes) (hs : s = y ++ (x ++ a :: rest))
    (hsep : ∀ b ∈ y, isSep token b = true) (hx : x ≠ []) (hnone : ∀ b ∈ x, isSep token b = false)
    (ha : isSep token a = true) (hend : pre.length + y.length + x.length < 2147483648)
    (hnext : nextPiece str token (int32 pre.length) =
      some (((pre.length + y.length : Nat) : Int),
        ((pre.length + y.length + x.length : Nat) : Int)))
  | long (y x rest : Bytes) (hs : s = y ++ (x ++ rest)) (hsep : ∀ b ∈ y, isSep token b = true)
    (hx : x ≠ []) (hnone : ∀ b ∈ x, isSep token b = false)
    (hrest : ∀ b ∈ rest.head?, isSep token b = true)
    (hbegin : pre.length + y.length < 2147483648)
    (hend : 2147483648 ≤ pre.length + y.length + x.length)
    (hnext : nextPiece str token (int32 pre.length) =
      some (((pre.length + y.length : Nat) : Int),
        if int32 (pre.length + y.length + x.length : Nat) = -1 then int32 str.length
        else int32 (pre.length + y.length + x.length : Nat)))
  | beyond (y x rest : Bytes) (hs : s = y ++ (x ++ rest)) (hsep : ∀ b ∈ y, isSep token b = true)
    (hx : x ≠ []) (hnone : ∀ b ∈ x, isSep token b = false) (hpre : pre.length < 2147483648)
    (hbegin : 2147483648 ≤ pre.length + y.length)

lemma turn (token : Bytes) (hstr : str = pre ++ s) (hpre : pre.length ≤ 2147483648)
    (hlen : str.length < 9223372036854775808) : Turn str token pre s := by
  by_cases hmax : pre.length = 2147483648
  · apply Turn.ends (nextPiece_none hpre hlen fun h => absurd hmax h.ne) fun h => absurd hmax h.ne
  have hint := int32_natCast (n := pre.length) (by omega)
  cases cut (isSep token) s with
  | ends _ hsep =>
    apply Turn.ends _ fun _ => hsep
    apply nextPiece_none hpre hlen
    intro _
    rwa [hstr, List.drop_left]
  | last y x hsep hx hnone =>
    have hlength : str.length = pre.length + y.length + x.length := by
      simp [hstr, Nat.add_assoc]
    have hstr' : str = pre ++ (y ++ (x ++ [])) := by rw [hstr, List.append_nil]
    by_cases hend : str.length < 2147483648
    · apply Turn.last y x rfl hsep hx hnone hend
      have hnext := nextPiece_eq_some hsep hx hnone (by simp) hstr' (by omega)
      rwa [hint, hlength]
    · by_cases hbegin : pre.length + y.length < 2147483648
      · apply Turn.long y x [] (by simp) hsep hx hnone (by simp) hbegin (by omega)
        rw [hint]
        exact nextPiece_eq hsep hx hnone (by simp) hstr' hbegin
      · exact .beyond y x [] (by simp) hsep hx hnone (by omega) (by omega)
  | piece y x a rest hsep hx hnone ha =>
    have hhead : ∀ b ∈ (a :: rest).head?, isSep token b = true := by simpa using ha
    by_cases hend : pre.length + y.length + x.length < 2147483648
    · apply Turn.piece y x a rest rfl hsep hx hnone ha hend
      rw [hint]
      exact nextPiece_eq_some hsep hx hnone hhead hstr hend
    · by_cases hbegin : pre.length + y.length < 2147483648
      · apply Turn.long y x (a :: rest) rfl hsep hx hnone hhead hbegin (by omega)
        rw [hint]
        exact nextPiece_eq hsep hx hnone hhead hstr hbegin
      · exact .beyond y x (a :: rest) rfl hsep hx hnone (by omega) (by omega)

/-! ## The loop -/

/-- The position behind a piece and its separator. -/
lemma length_behind (pre y x : Bytes) (a : UInt8) :
    (pre ++ (y ++ (x ++ [a]))).length = pre.length + y.length + x.length + 1 := by
  simp only [List.length_append, List.length_singleton]
  omega

lemma mem_drop_of_append {n : Nat} {b : UInt8} (hstr : str = pre ++ s) (hn : n ≤ pre.length)
    (hb : b ∈ s) : b ∈ str.drop n := by
  rw [hstr, List.drop_append_of_le_length hn]
  exact List.mem_append_right _ hb

lemma mem_drop_of_getElem? {n i : Nat} {b : UInt8} (hn : n ≤ i) (hb : str[i]? = some b) :
    b ∈ str.drop n := by
  apply List.mem_of_getElem? (i := i - n)
  rwa [List.getElem?_drop, Nat.add_sub_cancel' hn]

lemma exists_mem_of_between {i : Nat} (hstr : str = pre ++ (x ++ s)) (h0 : pre.length ≤ i)
    (h1 : i < pre.length + x.length) : ∃ b ∈ x, str[i]? = some b := by
  have hi : i - pre.length < x.length := by omega
  refine ⟨x[i - pre.length], List.getElem_mem hi, ?_⟩
  rw [hstr, List.getElem?_append_right h0, List.getElem?_append_left hi,
    List.getElem?_eq_getElem hi]

/-- A piece that ends behind the last `int` has a character there. -/
lemma exists_behind (hx : x ≠ []) (hnone : ∀ b ∈ x, isSep token b = false)
    (hstr : str = pre ++ (y ++ (x ++ s))) (hend : 2147483648 ≤ pre.length + y.length + x.length) :
    ∃ b ∈ str.drop 2147483647, isSep token b = false := by
  have hpos := List.length_pos_iff.2 hx
  have hstr' : str = (pre ++ y) ++ (x ++ s) := by rw [hstr, List.append_assoc]
  obtain ⟨b, hb, hindex⟩ := exists_mem_of_between (i := pre.length + y.length + x.length - 1) hstr'
    (by rw [List.length_append]; omega) (by rw [List.length_append]; omega)
  exact ⟨b, mem_drop_of_getElem? (by omega) hindex, hnone b hb⟩

/-- Every piece of the string ends where an `int` can say so. -/
structure Counted (str token : Bytes) : Prop where
  length_le : str.length ≤ 2147483648
  last : ∀ b ∈ str[2147483647]?, isSep token b = true

lemma counted_of_lt (hlen : str.length < 2147483648) : Counted str token := by
  refine ⟨hlen.le, fun b hb => ?_⟩
  rw [List.getElem?_eq_none (by omega)] at hb
  cases hb

lemma Counted.behind (hcounted : Counted str token) :
    ∀ b ∈ str.drop 2147483647, isSep token b = true := by
  intro b hb
  obtain ⟨i, hi⟩ := List.getElem?_of_mem hb
  rw [List.getElem?_drop] at hi
  have hlt := (List.getElem?_eq_some_iff.1 hi).1
  have hlen := hcounted.length_le
  obtain rfl : i = 0 := by omega
  exact hcounted.last b hi

lemma splitLoop_none (hnext : nextPiece str token cur = none) :
    splitLoop str token (fuel + 1) cur ret = some ret := by
  rw [splitLoop_succ, hnext]

lemma splitLoop_some {c next : Int} (hnext : nextPiece str token cur = some (c, next)) :
    splitLoop str token (fuel + 1) cur ret =
      if next > c then
        if sizeT c ≤ str.length then
          splitLoop str token fuel (int32 (next + 1)) (ret ++ [Protocol.substr str c (next - c)])
        else none
      else splitLoop str token fuel (int32 (next + 1)) ret := by
  rw [splitLoop_succ, hnext]

/-- A turn that pushes nothing. -/
lemma splitLoop_skip {c next : Int} (hnext : nextPiece str token cur = some (c, next))
    (hle : next ≤ c) :
    splitLoop str token (fuel + 1) cur ret = splitLoop str token fuel (int32 (next + 1)) ret := by
  rw [splitLoop_some hnext, if_neg (not_lt.2 hle)]

/-- A loop that comes back has not left the string. -/
lemma splitLoop_next {c next : Int} {rows : List Bytes}
    (hnext : nextPiece str token cur = some (c, next))
    (hrun : splitLoop str token (fuel + 1) cur ret = some rows) :
    splitLoop str token fuel (int32 (next + 1))
      (if next > c then ret ++ [Protocol.substr str c (next - c)] else ret) = some rows := by
  rw [splitLoop_some hnext] at hrun
  by_cases hgt : next > c
  · rw [if_pos hgt] at hrun ⊢
    split at hrun
    · exact hrun
    · cases hrun
  · rwa [if_neg hgt] at hrun ⊢

lemma splitLoop_eq_none_of_next {c next : Int} (hnext : nextPiece str token cur = some (c, next))
    (hrest : ∀ ret, splitLoop str token fuel (int32 (next + 1)) ret = none) :
    splitLoop str token (fuel + 1) cur ret = none := by
  rw [splitLoop_some hnext, hrest, hrest]
  split_ifs <;> rfl

/-- The `substr` of a piece. -/
lemma substr_piece (hx : x ≠ []) (hstr : str = pre ++ (y ++ (x ++ s)))
    (hend : pre.length + y.length + x.length < 2147483648) :
    (if ((pre.length + y.length + x.length : Nat) : Int) > ((pre.length + y.length : Nat) : Int)
      then ret ++ [Protocol.substr str ((pre.length + y.length : Nat) : Int)
        (((pre.length + y.length + x.length : Nat) : Int) - ((pre.length + y.length : Nat) : Int))]
      else ret) = ret ++ [x] := by
  have hlen := List.length_pos_iff.2 hx
  have hcount : ((pre.length + y.length + x.length : Nat) : Int) -
      ((pre.length + y.length : Nat) : Int) = (x.length : Nat) := by omega
  rw [if_pos (by omega), hcount, Protocol.substr, sizeT_natCast (by omega),
    sizeT_natCast (by omega), hstr, ← List.append_assoc, ← List.length_append, List.drop_left,
    List.take_left]

/-- A turn that pushes a piece. -/
lemma splitLoop_push (hx : x ≠ []) (hstr : str = pre ++ (y ++ (x ++ s)))
    (hend : pre.length + y.length + x.length < 2147483648)
    (hnext : nextPiece str token cur = some (((pre.length + y.length : Nat) : Int),
      ((pre.length + y.length + x.length : Nat) : Int))) :
    splitLoop str token (fuel + 1) cur ret =
      splitLoop str token fuel (int32 (((pre.length + y.length + x.length : Nat) : Int) + 1))
        (ret ++ [x]) := by
  have hpos := List.length_pos_iff.2 hx
  have hgt : ((pre.length + y.length + x.length : Nat) : Int) > ((pre.length + y.length : Nat) : Int) := by
    omega
  have hlength : pre.length + y.length ≤ str.length := by
    rw [hstr, List.length_append, List.length_append]
    omega
  have hpiece : _ = ret ++ [x] := substr_piece hx hstr hend
  rw [if_pos hgt] at hpiece
  rw [splitLoop_some hnext, if_pos hgt, sizeT_natCast (by omega), if_pos hlength, hpiece]

/-- The loop appends the pieces that are left when only separators stand behind the last
`int`. -/
lemma splitLoop_eq (ret : List Bytes) (hlen : str.length < 9223372036854775808)
    (hbehind : ∀ b ∈ str.drop 2147483647, isSep token b = true) (hstr : str = pre ++ s)
    (hpre : pre.length ≤ 2147483648) (hfuel : s.length < fuel) :
    splitLoop str token fuel (int32 pre.length) ret = some (ret ++ pieces (isSep token) s) := by
  induction fuel generalizing pre s ret with
  | zero => omega
  | succ fuel ih =>
    cases turn token hstr hpre hlen with
    | ends hnext hsep =>
      have hs : pieces (isSep token) s = [] := by
        by_cases hmax : pre.length < 2147483648
        · exact pieces_eq_nil (hsep hmax)
        · exact pieces_eq_nil fun b hb => hbehind b (mem_drop_of_append hstr (by omega) hb)
      rw [splitLoop_none hnext, hs, List.append_nil]
    | last y x hs hsep hx hnone hend hnext =>
      rw [hs, ← List.append_nil x] at hstr
      have hlength : str.length = pre.length + y.length + x.length := by
        simp [hstr, Nat.add_assoc]
      have hpos := List.length_pos_iff.2 hx
      rw [hs, List.length_append] at hfuel
      rw [hlength] at hnext
      rw [splitLoop_push hx hstr (by omega) hnext, hs, pieces_append_of_forall hsep,
        pieces_eq_single hx hnone]
      -- the next turn begins behind the end
      rw [← hlength]
      cases fuel with
      | zero => omega
      | succ fuel => exact splitLoop_none (nextPiece_end token hend)
    | piece y x a rest hs hsep hx hnone ha hend hnext =>
      have hstr' := hstr
      rw [hs] at hstr'
      have hpre' := length_behind pre y x a
      rw [hs] at hfuel
      simp only [List.length_append, List.length_cons] at hfuel
      rw [splitLoop_push hx hstr' hend hnext, ← Nat.cast_add_one, ← hpre',
        ih (ret ++ [x]) (s := rest) (by rw [hstr']; simp) (by omega) (by omega),
        hs, pieces_append_of_forall hsep, pieces_append_sep hx hnone ha, List.append_assoc]
      rfl
    | long y x rest hs hsep hx hnone hrest hbegin hend hnext =>
      rw [hs] at hstr
      obtain ⟨b, hb, hnoneb⟩ := exists_behind hx hnone hstr hend
      rw [hbehind b hb] at hnoneb
      cases hnoneb
    | beyond y x rest hs hsep hx hnone hpre hbegin =>
      rw [hs] at hstr
      obtain ⟨b, hb, hnoneb⟩ := exists_behind hx hnone hstr (by omega)
      rw [hbehind b hb] at hnoneb
      cases hnoneb

theorem split_eq (hcounted : Counted str token) :
    split str token ret =
      some (ret ++ pieces (isSep token) str, int32 (pieces (isSep token) str).length) := by
  have hlen := hcounted.length_le
  have hloop := splitLoop_eq ret (by omega) hcounted.behind (List.nil_append str).symm
    (Nat.zero_le _) (Nat.lt_succ_self str.length)
  rw [List.length_nil, Nat.cast_zero, int32_zero] at hloop
  rw [split, hloop, Option.map_some, List.length_append, Nat.cast_add, add_sub_cancel_left]

lemma length_substr_le (str : Bytes) (c : Int) {n : Int} (h0 : 0 ≤ n) (hmax : n < 18446744073709551616) :
    (Protocol.substr str c n).length ≤ n.toNat := by
  rw [Protocol.substr, List.length_take, sizeT_of_nonneg h0 hmax]
  exact min_le_left _ _

/-- A piece is as long as an `int` can say. -/
lemma splitLoop_short (hlen : str.length < 9223372036854775808) {rows : List Bytes}
    (hret : ∀ x ∈ ret, x.length < 2147483648)
    (hsplit : splitLoop str token fuel cur ret = some rows) :
    ∀ x ∈ rows, x.length < 2147483648 := by
  induction fuel generalizing cur ret with
  | zero => cases hsplit
  | succ fuel ih =>
    cases hnext : nextPiece str token cur with
    | none =>
      rw [splitLoop_none hnext] at hsplit
      obtain rfl := Option.some.inj hsplit
      exact hret
    | some piece =>
      obtain ⟨⟨hc0, hc1⟩, hn0, hn1⟩ := nextPiece_bounds hnext
      apply ih _ (splitLoop_next hnext hsplit)
      by_cases hgt : piece.2 > piece.1
      · rw [if_pos hgt, List.forall_mem_append]
        refine ⟨hret, List.forall_mem_singleton.2 ?_⟩
        rcases lt_or_ge piece.1 0 with hneg | hpos
        · have hsize := sizeT_of_neg hneg (by omega)
          rw [Protocol.substr, List.drop_of_length_le (by omega)]
          simp
        · have hle := length_substr_le str piece.1 (n := piece.2 - piece.1) (by omega)
            (by omega)
          omega
      · rw [if_neg hgt]
        exact hret

/-! ## The accesses of the loop -/

/-- Two separators where the `int`s end, and a piece behind them. -/
def Overrun (str token : Bytes) : Prop :=
  (∀ b ∈ str[2147483646]?, isSep token b = true) ∧
    (∀ b ∈ str[2147483647]?, isSep token b = true) ∧
    ∃ b ∈ str.drop 2147483648, isSep token b = false

lemma splitLoopAccesses_none (hnext : nextPiece str token cur = none) :
    splitLoopAccesses str token (fuel + 1) cur = [] := by
  rw [splitLoopAccesses, hnext]

lemma splitLoopAccesses_some {c next : Int} (hnext : nextPiece str token cur = some (c, next)) :
    splitLoopAccesses str token (fuel + 1) cur =
      (if next > c then [.substr (sizeT c) str.length] else []) ++
        splitLoopAccesses str token fuel (int32 (next + 1)) := by
  rw [splitLoopAccesses, hnext]

lemma splitLoopAccesses_of_neg (hcur : cur < 0) (hmin : -2147483648 ≤ cur)
    (hlen : str.length < 9223372036854775808) : splitLoopAccesses str token fuel cur = [] := by
  cases fuel with
  | zero => rfl
  | succ fuel => exact splitLoopAccesses_none (nextPiece_of_neg hcur hmin hlen)

/-- The access of a piece that begins where an `int` can say so. -/
lemma substr_inRange {c next : Int} {n : Nat} (hc : c = (n : Int)) (hn : n < 2147483648)
    (hle : n ≤ str.length) :
    ∀ a ∈ (if next > c then [Access.substr (sizeT c) str.length] else []), a.InRange := by
  intro a ha
  split at ha
  · rw [List.mem_singleton] at ha
    rw [ha, hc, sizeT_natCast hn]
    exact hle
  · cases ha

/-- A negative position is behind the end. -/
lemma not_substr_inRange (hneg : cur < 0) (hmin : -2147483648 ≤ cur)
    (hlen : str.length < 4294967295) : ¬(Access.substr (sizeT cur) str.length).InRange := by
  have hsize := sizeT_of_neg hneg (by omega)
  simp only [Access.InRange]
  omega

/-- A piece that begins behind the last `int`. -/
lemma nextPiece_over (hlen : str.length < 4294967295) (hsep : ∀ b ∈ y, isSep token b = true)
    (hx : x ≠ []) (hnone : ∀ b ∈ x, isSep token b = false) (hstr : str = pre ++ (y ++ (x ++ s)))
    (hpre : pre.length < 2147483648) (hbegin : 2147483648 ≤ pre.length + y.length) :
    nextPiece str token pre.length =
      some (((pre.length + y.length : Nat) : Int) - 4294967296, (str.length : Int) - 4294967296) := by
  have hlength : str.length = pre.length + (y.length + (x.length + s.length)) := by simp [hstr]
  have hpos := List.length_pos_iff.2 hx
  have hfirst : findFirstNotOf str token pre.length =
      ((pre.length + y.length : Nat) : Int) - 4294967296 := by
    rw [findFirstNotOf_eq_int32 hsep hx hnone hstr hpre]
    exact int32_of_ge hbegin (by omega)
  rw [nextPiece_of_first_neg (by omega) hfirst (by omega) (by omega), if_neg (by omega),
    int32_of_ge (by omega) (by omega)]

/-- The loop leaves the string when a piece begins behind the last `int`. -/
lemma splitLoopAccesses_inRange_iff (token : Bytes) (hlen : str.length < 4294967295) (hstr : str = pre ++ s)
    (hpre : pre.length < 2147483648) (hlast : ∀ b ∈ pre.getLast?, isSep token b = true)
    (hfuel : s.length < fuel) :
    (∀ a ∈ splitLoopAccesses str token fuel (int32 pre.length), a.InRange) ↔
      ¬Overrun str token := by
  induction fuel generalizing pre s with
  | zero => omega
  | succ fuel ih =>
    have hsplit : str.length = pre.length + s.length := by rw [hstr, List.length_append]
    cases turn token hstr (by omega) (by omega) with
    | ends hnext hsep =>
      rw [splitLoopAccesses_none hnext]
      apply iff_of_true (by simp)
      rintro ⟨-, -, b, hb, hnone⟩
      have hmem : b ∈ s := by
        have hdrop := List.drop_subset (2147483648 - pre.length) s
        rw [hstr, List.drop_append, List.drop_of_length_le (by omega), List.nil_append] at hb
        exact hdrop hb
      rw [hsep hpre b hmem] at hnone
      cases hnone
    | last y x hs hsep hx hnone hend hnext =>
      rw [hs, List.length_append] at hsplit
      rw [splitLoopAccesses_some hnext, List.forall_mem_append]
      apply iff_of_true
      · refine ⟨substr_inRange rfl (by omega) (by omega), ?_⟩
        have hdone : splitLoopAccesses str token fuel (int32 (str.length + 1)) = [] := by
          cases fuel with
          | zero => rfl
          | succ fuel => exact splitLoopAccesses_none (nextPiece_end token hend)
        rw [hdone]
        simp
      · rintro ⟨-, -, b, hb, -⟩
        rw [List.drop_of_length_le (by omega)] at hb
        cases hb
    | piece y x a rest hs hsep hx hnone ha hend hnext =>
      rw [hs, List.length_append, List.length_append, List.length_cons] at hsplit
      have hpos := List.length_pos_iff.2 hx
      have hpre' := length_behind pre y x a
      have hstr' : str = (pre ++ (y ++ (x ++ [a]))) ++ rest := by rw [hstr, hs]; simp
      rw [splitLoopAccesses_some hnext, List.forall_mem_append, ← Nat.cast_add_one, ← hpre']
      by_cases hmax : pre.length + y.length + x.length + 1 < 2147483648
      · rw [ih hstr' (by omega) (by simpa using ha)
          (by rw [hs] at hfuel; simp only [List.length_append, List.length_cons] at hfuel; omega)]
        exact and_iff_right (substr_inRange rfl (by omega) (by omega))
      · -- the position behind the separator is no `int`, and the loop ends
        have hdone : splitLoopAccesses str token fuel (int32 (pre ++ (y ++ (x ++ [a]))).length) =
            [] := by
          apply splitLoopAccesses_of_neg _ (int32_bounds _).1 (by omega)
          rw [hpre', show pre.length + y.length + x.length + 1 = 2147483648 by omega]
          decide
        rw [hdone]
        apply iff_of_true ⟨substr_inRange rfl (by omega) (by omega), by simp⟩
        rintro ⟨hsepb, -⟩
        rw [hs, ← List.append_assoc] at hstr
        obtain ⟨b, hb, hindex⟩ := exists_mem_of_between (i := 2147483646) hstr
          (by rw [List.length_append]; omega) (by rw [List.length_append]; omega)
        have hb' := hsepb b hindex
        rw [hnone b hb] at hb'
        cases hb'
    | long y x rest hs hsep hx hnone hrest hbegin hend hnext =>
      rw [hs, List.length_append, List.length_append] at hsplit
      rw [int32_of_ge hend (by omega), if_neg (by omega)] at hnext
      rw [splitLoopAccesses_some hnext, List.forall_mem_append]
      apply iff_of_true
      · refine ⟨substr_inRange rfl (by omega) (by omega), ?_⟩
        rw [splitLoopAccesses_of_neg _ (int32_bounds _).1 (by omega)]
        · simp
        · rw [int32_of_lt (by omega) (by omega)]
          omega
      · rintro ⟨-, hsepb, -⟩
        rw [hs, ← List.append_assoc] at hstr
        obtain ⟨b, hb, hindex⟩ := exists_mem_of_between (i := 2147483647) hstr
          (by rw [List.length_append]; omega) (by rw [List.length_append]; omega)
        have hb' := hsepb b hindex
        rw [hnone b hb] at hb'
        cases hb'
    | beyond y x rest hs hsep hx hnone _ hbegin =>
      rw [hs, List.length_append, List.length_append] at hsplit
      have hpos := List.length_pos_iff.2 hx
      rw [hs] at hstr
      have hnext := nextPiece_over hlen hsep hx hnone hstr hpre hbegin
      rw [int32_natCast hpre, splitLoopAccesses_some hnext, if_pos (by omega)]
      apply iff_of_false
      · intro hall
        have hin := hall _ (List.mem_append_left _ (List.mem_singleton.2 rfl))
        exact not_substr_inRange (by omega) (by omega) hlen hin
      · rw [not_not]
        refine ⟨?_, ?_, ?_⟩
        · intro b hb
          by_cases hfirst : pre.length ≤ 2147483646
          · obtain ⟨c, hc, hindex⟩ := exists_mem_of_between (i := 2147483646) hstr hfirst
              (by omega)
            rw [hindex] at hb
            rw [← Option.some.inj hb]
            exact hsep c hc
          · apply hlast
            rw [hstr, List.getElem?_append_left (by omega)] at hb
            rwa [List.getLast?_eq_getElem?, show pre.length - 1 = 2147483646 by omega]
        · intro b hb
          obtain ⟨c, hc, hindex⟩ := exists_mem_of_between (i := 2147483647) hstr (by omega)
            (by omega)
          rw [hindex] at hb
          rw [← Option.some.inj hb]
          exact hsep c hc
        · obtain ⟨b, hb⟩ := List.exists_mem_of_ne_nil x hx
          refine ⟨b, ?_, hnone b hb⟩
          rw [hstr, List.drop_append, List.drop_of_length_le hpre.le, List.nil_append,
            List.drop_append_of_le_length (by omega)]
          simp [hb]

theorem splitAccesses_inRange_iff (hlen : str.length < 4294967295) :
    (∀ a ∈ splitAccesses str token, a.InRange) ↔ ¬Overrun str token := by
  have hloop := splitLoopAccesses_inRange_iff token hlen (List.nil_append str).symm (by simp)
    (by simp) (Nat.lt_succ_self str.length)
  rwa [List.length_nil, Nat.cast_zero, int32_zero] at hloop

lemma splitAccesses_inRange (hlen : str.length < 2147483648) :
    ∀ a ∈ splitAccesses str token, a.InRange := by
  rw [splitAccesses_inRange_iff (by omega)]
  rintro ⟨-, -, b, hb, -⟩
  rw [List.drop_of_length_le hlen.le] at hb
  cases hb

/-! ## The vector of a long string -/

/-- A character of a piece that ends where an `int` can say so. -/
def HasPiece (str token : Bytes) : Prop :=
  ∃ i j, i < j ∧ j < 2147483648 ∧ (∃ b ∈ str[i]?, isSep token b = false) ∧
    ∀ b ∈ str[j]?, isSep token b = true

lemma splitLoop_of_neg (hcur : cur < 0) (hmin : -2147483648 ≤ cur)
    (hlen : str.length < 9223372036854775808) :
    splitLoop str token (fuel + 1) cur ret = some ret :=
  splitLoop_none (nextPiece_of_neg hcur hmin hlen)

/-- A string of less than 4 GiB that the loop does not leave ends it. -/
lemma exists_splitLoop (token : Bytes) (ret : List Bytes) (hlen : str.length < 4294967295)
    (hstr : str = pre ++ s) (hpre : pre.length ≤ 2147483648) (hfuel : s.length < fuel)
    (hin : ∀ a ∈ splitLoopAccesses str token fuel (int32 pre.length), a.InRange) :
    ∃ rows, splitLoop str token fuel (int32 pre.length) ret = some (ret ++ rows) := by
  induction fuel generalizing pre s ret with
  | zero => omega
  | succ fuel ih =>
    have hsplit : str.length = pre.length + s.length := by rw [hstr, List.length_append]
    cases turn token hstr hpre (by omega) with
    | ends hnext _ => exact ⟨[], by rw [splitLoop_none hnext, List.append_nil]⟩
    | last y x hs hsep hx hnone hend hnext =>
      have hpos := List.length_pos_iff.2 hx
      have hrest := nextPiece_end token hend
      obtain ⟨fuel, rfl⟩ : ∃ n, fuel = n + 1 := by
        rw [hs, List.length_append] at hfuel
        exact ⟨fuel - 1, by omega⟩
      rw [hs, ← List.append_nil x] at hstr
      have hlength : str.length = pre.length + y.length + x.length := by
        simp [hstr, Nat.add_assoc]
      rw [hlength] at hnext hrest
      rw [splitLoop_push hx hstr (by omega) hnext, splitLoop_none hrest]
      exact ⟨[x], rfl⟩
    | piece y x a rest hs hsep hx hnone ha hend hnext =>
      rw [hs] at hstr
      have hlength := length_behind pre y x a
      have hstr' : str = (pre ++ (y ++ (x ++ [a]))) ++ rest := by rw [hstr]; simp
      rw [hs] at hfuel
      simp only [List.length_append, List.length_cons] at hfuel
      rw [splitLoopAccesses_some hnext, ← Nat.cast_add_one, ← hlength, List.forall_mem_append] at hin
      have hloop : ∃ rows, splitLoop str token fuel (int32 (pre ++ (y ++ (x ++ [a]))).length)
          (ret ++ [x]) = some (ret ++ [x] ++ rows) := ih _ hstr' (by omega) (by omega) hin.2
      obtain ⟨rows, hrows⟩ := hloop
      rw [splitLoop_push hx hstr hend hnext, ← Nat.cast_add_one, ← hlength, hrows,
        List.append_assoc]
      exact ⟨_, rfl⟩
    | long y x rest hs hsep hx hnone hrest hbegin hend hnext =>
      rw [hs, List.length_append, List.length_append] at hsplit hfuel
      have hpos := List.length_pos_iff.2 hx
      obtain ⟨fuel, rfl⟩ : ∃ n, fuel = n + 1 := ⟨fuel - 1, by omega⟩
      rw [int32_of_ge hend (by omega), if_neg (by omega)] at hnext
      rw [splitLoop_skip hnext (by omega), splitLoop_of_neg _ (int32_bounds _).1 (by omega)]
      · exact ⟨[], by rw [List.append_nil]⟩
      · rw [int32_of_lt (by omega) (by omega)]
        omega
    | beyond y x rest hs hsep hx hnone hpre' hbegin =>
      rw [hs, List.length_append, List.length_append] at hsplit hfuel
      rw [hs] at hstr
      have hpos := List.length_pos_iff.2 hx
      have hnext := nextPiece_over hlen hsep hx hnone hstr hpre' hbegin
      rw [int32_natCast hpre', splitLoopAccesses_some hnext, if_pos (by omega)] at hin
      have hfirst := hin _ (List.mem_append_left _ (List.mem_singleton.2 rfl))
      exact absurd hfirst (not_substr_inRange (by omega) (by omega) hlen)

/-- The vector keeps what it has. -/
lemma prefix_of_splitLoop {rows : List Bytes}
    (hsplit : splitLoop str token fuel cur ret = some rows) : ret <+: rows := by
  induction fuel generalizing cur ret with
  | zero => cases hsplit
  | succ fuel ih =>
    cases hnext : nextPiece str token cur with
    | none =>
      rw [splitLoop_none hnext] at hsplit
      obtain rfl := Option.some.inj hsplit
      exact List.prefix_rfl
    | some piece =>
      have hprefix := ih (splitLoop_next hnext hsplit)
      split at hprefix
      · exact (List.prefix_append ret _).trans hprefix
      · exact hprefix

/-- The vector gains an element exactly when a piece ends where an `int` can say so. -/
lemma splitLoop_ne_nil_iff (hlen : str.length < 4294967295) (hover : ¬Overrun str token)
    {rows : List Bytes} (hsplit : splitLoop str token (str.length + 1) 0 [] = some rows) :
    rows ≠ [] ↔ HasPiece str token := by
  have hstr : str = [] ++ str := rfl
  have hzero : int32 ([] : Bytes).length = 0 := int32_zero
  cases turn token hstr (Nat.zero_le _) (by omega) with
  | ends hnext hsep =>
    rw [splitLoop_none (hzero ▸ hnext)] at hsplit
    obtain rfl := Option.some.inj hsplit
    apply iff_of_false (fun h => h rfl)
    rintro ⟨i, j, -, -, ⟨b, hb, hnone⟩, -⟩
    rw [hsep (by decide) b (List.mem_of_getElem? hb)] at hnone
    cases hnone
  | last y x hs hsep hx hnone hend hnext =>
    have hpos := List.length_pos_iff.2 hx
    have hstr' : str = [] ++ (y ++ (x ++ [])) := by rw [hs, List.append_nil, List.nil_append]
    have hlength : str.length = ([] : Bytes).length + y.length + x.length := by simp [hs]
    rw [hlength, hzero] at hnext
    rw [splitLoop_push hx hstr' (by omega) hnext] at hsplit
    apply iff_of_true
    · rintro rfl
      have hprefix := List.prefix_nil.1 (prefix_of_splitLoop hsplit)
      cases hprefix
    · obtain ⟨b, hb, hindex⟩ := exists_mem_of_between (i := y.length) (x := x) (s := [])
        (show str = y ++ (x ++ []) by rw [hs, List.append_nil]) le_rfl (by omega)
      refine ⟨y.length, str.length, by omega, hend, ⟨b, hindex, hnone b hb⟩, ?_⟩
      simp
  | piece y x a rest hs hsep hx hnone ha hend hnext =>
    have hpos := List.length_pos_iff.2 hx
    have hstr' : str = [] ++ (y ++ (x ++ a :: rest)) := hs
    rw [hzero] at hnext
    rw [splitLoop_push hx hstr' hend hnext] at hsplit
    apply iff_of_true
    · rintro rfl
      have hprefix := List.prefix_nil.1 (prefix_of_splitLoop hsplit)
      cases hprefix
    · obtain ⟨b, hb, hindex⟩ := exists_mem_of_between (i := y.length) hs le_rfl (by omega)
      rw [List.length_nil, Nat.zero_add] at hend
      refine ⟨y.length, y.length + x.length, by omega, hend, ⟨b, hindex, hnone b hb⟩, ?_⟩
      have hbehind : str[y.length + x.length]? = some a := by
        rw [hs, ← List.append_assoc, ← List.length_append,
          List.getElem?_append_right le_rfl, Nat.sub_self]
        rfl
      rw [hbehind]
      simpa using ha
  | long y x rest hs hsep hx hnone hrest hbegin hend hnext =>
    have hlength : str.length = y.length + x.length + rest.length := by
      simp [hs, Nat.add_assoc]
    rw [List.length_nil, Nat.zero_add] at hend hbegin
    rw [List.length_nil, Nat.zero_add, int32_of_ge hend (by omega), if_neg (by omega)] at hnext
    obtain ⟨n, hn⟩ : ∃ n, str.length = n + 1 := ⟨str.length - 1, by omega⟩
    rw [Nat.cast_zero, int32_zero] at hnext
    rw [hn, splitLoop_skip hnext (by omega),
      splitLoop_of_neg (by rw [int32_of_lt] <;> omega) (int32_bounds _).1 (by omega)] at hsplit
    obtain rfl := Option.some.inj hsplit
    apply iff_of_false (fun h => h rfl)
    rintro ⟨i, j, hij, hj, ⟨b, hb, hfirst⟩, hlast⟩
    -- the piece covers every `int` behind its first character
    have hi : y.length ≤ i := by
      by_contra hlt
      rw [hs, List.getElem?_append_left (by omega)] at hb
      rw [hsep b (List.mem_of_getElem? hb)] at hfirst
      cases hfirst
    obtain ⟨c, hc, hindex⟩ := exists_mem_of_between (i := j) hs (by omega) (by omega)
    have hsepc := hlast c hindex
    rw [hnone c hc] at hsepc
    cases hsepc
  | beyond y x rest hs hsep hx hnone _ hbegin =>
    rw [List.length_nil, Nat.zero_add] at hbegin
    apply absurd _ hover
    have hall : ∀ i < 2147483648, ∀ b ∈ str[i]?, isSep token b = true := by
      intro i hi b hb
      rw [hs, List.getElem?_append_left (by omega)] at hb
      exact hsep b (List.mem_of_getElem? hb)
    obtain ⟨b, hb⟩ := List.exists_mem_of_ne_nil x hx
    refine ⟨hall _ (by decide), hall _ (by decide), b, ?_, hnone b hb⟩
    rw [hs, List.drop_append_of_le_length hbegin]
    simp [hb]

lemma exists_splitLoop_of_split {rows : List Bytes} {cnt : Int}
    (hsplit : split str token ret = some (rows, cnt)) :
    splitLoop str token (str.length + 1) 0 ret = some rows := by
  rw [split, Option.map_eq_some_iff] at hsplit
  obtain ⟨loop, hloop, heq⟩ := hsplit
  rw [hloop, (Prod.mk.inj heq).1]

theorem split_of_lt (hlen : str.length < 4294967295) (hover : ¬Overrun str token) :
    ∃ rows cnt, split str token [] = some (rows, cnt) ∧ (rows ≠ [] ↔ HasPiece str token) ∧
      ∀ x ∈ rows, x.length < 2147483648 := by
  obtain ⟨rows, hrows⟩ : ∃ rows, splitLoop str token (str.length + 1) 0 [] = some rows := by
    have hloop := exists_splitLoop token [] hlen (List.nil_append str).symm (by simp)
      (Nat.lt_succ_self str.length)
    rw [List.length_nil, Nat.cast_zero, int32_zero] at hloop
    exact hloop ((splitAccesses_inRange_iff hlen).2 hover)
  have hsplit : split str token [] = some (rows, int32 (rows.length - ([] : List Bytes).length)) := by
    rw [split, hrows, Option.map_some]
  exact ⟨rows, _, hsplit, splitLoop_ne_nil_iff hlen hover hrows,
    splitLoop_short (by omega) (by simp) hrows⟩

end CoplusLean.StringUtil
