import Mathlib.Data.List.TakeWhile
import Mathlib.Tactic.Common

/-!
# The pieces of a list between separators

`pieces sep s` are the maximal runs of elements of `s` that are no separators, in order. A
splitter that skips empty cells computes them; what was joined with separators comes back
when no cell is empty, and no shorter list has the same pieces.
-/

namespace CoplusLean.Lib

variable {α : Type*} (sep : α → Bool) {s x y : List α} {a : α}

/-- The maximal runs of elements that are no separators. -/
def pieces (s : List α) : List (List α) := (s.splitOnP sep).filter (!·.isEmpty)

/-- The cells with one separator between neighbours. -/
def join (a : α) : List (List α) → List α
  | [] => []
  | cell :: cells => cell ++ cells.flatMap (a :: ·)

/-- A list begins with separators; then it ends, or a piece follows up to the end or to the
next separator. -/
inductive Cut (sep : α → Bool) : List α → Prop where
  | ends (y : List α) (hsep : ∀ b ∈ y, sep b = true) : Cut sep y
  | last (y x : List α) (hsep : ∀ b ∈ y, sep b = true) (hx : x ≠ [])
    (hnone : ∀ b ∈ x, sep b = false) : Cut sep (y ++ x)
  | piece (y x : List α) (a : α) (s : List α) (hsep : ∀ b ∈ y, sep b = true) (hx : x ≠ [])
    (hnone : ∀ b ∈ x, sep b = false) (ha : sep a = true) : Cut sep (y ++ (x ++ a :: s))

lemma cut (s : List α) : Cut sep s := by
  induction s with
  | nil => exact .ends [] (by simp)
  | cons b s ih =>
    cases hb : sep b with
    | true =>
      cases ih with
      | ends _ hsep => exact .ends (b :: s) (by simpa [hb] using hsep)
      | last y x hsep hx hnone => exact .last (b :: y) x (by simpa [hb] using hsep) hx hnone
      | piece y x a t hsep hx hnone ha =>
        exact .piece (b :: y) x a t (by simpa [hb] using hsep) hx hnone ha
    | false =>
      cases s with
      | nil => exact .last [] [b] (by simp) (by simp) (by simpa using hb)
      | cons c s =>
        cases hc : sep c with
        | true => exact .piece [] [b] c s (by simp) (by simp) (by simpa using hb) hc
        | false =>
          -- the piece goes on
          generalize hs : c :: s = t at ih
          cases ih with
          | ends _ hsep =>
            rw [← hs] at hsep
            rw [hsep c List.mem_cons_self] at hc
            cases hc
          | last y x hsep hx hnone =>
            cases y with
            | nil => exact .last [] (b :: x) (by simp) (by simp) (by simpa [hb] using hnone)
            | cons d y =>
              obtain ⟨rfl, -⟩ := List.cons.inj hs
              rw [hsep c List.mem_cons_self] at hc
              cases hc
          | piece y x a u hsep hx hnone ha =>
            cases y with
            | nil =>
              exact .piece [] (b :: x) a u (by simp) (by simp) (by simpa [hb] using hnone) ha
            | cons d y =>
              obtain ⟨rfl, -⟩ := List.cons.inj hs
              rw [hsep c List.mem_cons_self] at hc
              cases hc

variable {sep}

@[simp] lemma pieces_nil : pieces sep ([] : List α) = [] := by simp [pieces]

lemma pieces_cons_sep (ha : sep a = true) : pieces sep (a :: s) = pieces sep s := by
  simp [pieces, List.splitOnP_cons_eq_if_modifyHead, ha]

/-- A run up to a separator is a piece. -/
lemma pieces_append_sep (hx : x ≠ []) (hnone : ∀ b ∈ x, sep b = false) (ha : sep a = true) :
    pieces sep (x ++ a :: s) = x :: pieces sep s := by
  simp [pieces, List.splitOnP_append_cons_of_forall_mem hnone a ha, hx]

lemma pieces_eq_single (hx : x ≠ []) (hnone : ∀ b ∈ x, sep b = false) : pieces sep x = [x] := by
  simp [pieces, List.splitOnP_eq_singleton hnone, hx]

/-- Separators in front are skipped. -/
lemma pieces_append_of_forall (hsep : ∀ b ∈ y, sep b = true) :
    pieces sep (y ++ s) = pieces sep s := by
  induction y with
  | nil => rfl
  | cons b y ih =>
    rw [List.cons_append, pieces_cons_sep (hsep b List.mem_cons_self)]
    exact ih fun c hc => hsep c (List.mem_cons_of_mem b hc)

lemma pieces_eq_nil (hsep : ∀ b ∈ s, sep b = true) : pieces sep s = [] := by
  have h := pieces_append_of_forall (s := []) hsep
  rwa [List.append_nil, pieces_nil] at h

/-- A run up to the end or to a separator is a piece. -/
lemma pieces_cut (hsep : ∀ b ∈ y, sep b = true) (hx : x ≠ []) (hnone : ∀ b ∈ x, sep b = false)
    (hs : ∀ b ∈ s.head?, sep b = true) : pieces sep (y ++ (x ++ s)) = x :: pieces sep s := by
  rw [pieces_append_of_forall hsep]
  cases s with
  | nil => rw [List.append_nil, pieces_eq_single hx hnone, pieces_nil]
  | cons a s =>
    have ha : sep a = true := hs a rfl
    rw [pieces_append_sep hx hnone ha, pieces_cons_sep ha]

/-- The induction along the pieces of a list. -/
lemma pieces_induction (sep : α → Bool) {P : List α → Prop} (ends : ∀ y, (∀ b ∈ y, sep b = true) → P y)
    (last : ∀ y x, (∀ b ∈ y, sep b = true) → x ≠ [] → (∀ b ∈ x, sep b = false) → P (y ++ x))
    (piece : ∀ y x a s, (∀ b ∈ y, sep b = true) → x ≠ [] → (∀ b ∈ x, sep b = false) →
      sep a = true → P s → P (y ++ (x ++ a :: s))) (s : List α) : P s := by
  induction hn : s.length using Nat.strongRecOn generalizing s with
  | ind n ih =>
    cases cut sep s with
    | ends _ hsep => exact ends s hsep
    | last y x hsep hx hnone => exact last y x hsep hx hnone
    | piece y x a t hsep hx hnone ha =>
      apply piece y x a t hsep hx hnone ha
      apply ih t.length _ t rfl
      simp only [List.length_append, List.length_cons] at hn
      omega

/-- Separators at the end are skipped. -/
lemma pieces_append_seps (s : List α) (hy : ∀ b ∈ y, sep b = true) :
    pieces sep (s ++ y) = pieces sep s := by
  induction s using pieces_induction sep with
  | ends z hsep =>
    rw [pieces_append_of_forall hsep, pieces_eq_nil hy, pieces_eq_nil hsep]
  | last z x hsep hx hnone =>
    have hhead : ∀ b ∈ y.head?, sep b = true := fun b hb => hy b (List.mem_of_mem_head? hb)
    rw [List.append_assoc, pieces_cut hsep hx hnone hhead, pieces_eq_nil hy,
      pieces_append_of_forall hsep, pieces_eq_single hx hnone]
  | piece z x a s hsep hx hnone ha ih =>
    rw [List.append_assoc, List.append_assoc, List.cons_append, pieces_append_of_forall hsep,
      pieces_append_sep hx hnone ha, ih, pieces_append_of_forall hsep,
      pieces_append_sep hx hnone ha]

lemma ne_nil_of_mem_pieces (hx : x ∈ pieces sep s) : x ≠ [] := by
  simpa using (List.mem_filter.1 hx).2

/-- Only separators are lost. -/
lemma pieces_eq_nil_iff : pieces sep s = [] ↔ ∀ b ∈ s, sep b = true := by
  constructor
  · intro hnil
    cases cut sep s with
    | ends _ hsep => exact hsep
    | last y x hsep hx hnone =>
      rw [pieces_append_of_forall hsep, pieces_eq_single hx hnone] at hnil
      cases hnil
    | piece y x a t hsep hx hnone ha =>
      rw [pieces_append_of_forall hsep, pieces_append_sep hx hnone ha] at hnil
      cases hnil
  · exact pieces_eq_nil

/-! ## A limit on the number of pieces -/

/-- The list from the first element of the piece with this number on. -/
def fromPiece (sep : α → Bool) : Nat → List α → List α
  | 0, s => s.dropWhile sep
  | n + 1, s => fromPiece sep n ((s.dropWhile sep).dropWhile fun b => !sep b)

/-- The pieces when there are fewer than `m`; otherwise one less than `m` of them, and the rest
of the list from the next one on. -/
def piecesUpTo (sep : α → Bool) (m : Nat) (s : List α) : List (List α) :=
  if (pieces sep s).length < m then pieces sep s
  else (pieces sep s).take (m - 1) ++ [fromPiece sep (m - 1) s]

lemma dropWhile_cut (hsep : ∀ b ∈ y, sep b = true) (hx : x ≠ []) (hnone : ∀ b ∈ x, sep b = false) :
    (y ++ (x ++ s)).dropWhile sep = x ++ s := by
  rw [List.dropWhile_append_of_pos hsep]
  cases x with
  | nil => exact absurd rfl hx
  | cons b x =>
    rw [List.cons_append, List.dropWhile_cons_of_neg]
    simp [hnone b List.mem_cons_self]

lemma fromPiece_cut (n : Nat) (hsep : ∀ b ∈ y, sep b = true) (hx : x ≠ [])
    (hnone : ∀ b ∈ x, sep b = false) (hs : ∀ b ∈ s.head?, sep b = true) :
    fromPiece sep (n + 1) (y ++ (x ++ s)) = fromPiece sep n s := by
  rw [fromPiece, dropWhile_cut hsep hx hnone, List.dropWhile_append_of_pos (by simpa using hnone)]
  cases s with
  | nil => rfl
  | cons a s =>
    have ha : sep a = true := hs a rfl
    rw [List.dropWhile_cons_of_neg (by simp [ha])]

lemma piecesUpTo_cut (m : Nat) (hsep : ∀ b ∈ y, sep b = true) (hx : x ≠ [])
    (hnone : ∀ b ∈ x, sep b = false) (hs : ∀ b ∈ s.head?, sep b = true) :
    piecesUpTo sep (m + 2) (y ++ (x ++ s)) = x :: piecesUpTo sep (m + 1) s := by
  unfold piecesUpTo
  rw [pieces_cut hsep hx hnone hs]
  by_cases hfew : (pieces sep s).length < m + 1
  · rw [if_pos (by simpa using hfew), if_pos hfew]
  · rw [if_neg (by simpa using hfew), if_neg hfew]
    simp only [Nat.add_one_sub_one, List.take_succ_cons, List.cons_append,
      fromPiece_cut m hsep hx hnone hs]

lemma piecesUpTo_eq_pieces {m : Nat} (hfew : (pieces sep s).length < m) :
    piecesUpTo sep m s = pieces sep s := if_pos hfew

lemma piecesUpTo_ne_nil {m : Nat} (hs : pieces sep s ≠ []) : piecesUpTo sep m s ≠ [] := by
  unfold piecesUpTo
  split
  · exact hs
  · simp

/-- The rest begins with no separator. -/
lemma not_sep_of_head_fromPiece {n : Nat} {b : α} (hb : b ∈ (fromPiece sep n s).head?) :
    sep b = false := by
  induction n generalizing s with
  | zero =>
    have hnot := List.head?_dropWhile_not sep s
    rw [fromPiece] at hb
    rw [hb] at hnot
    exact hnot
  | succ n ih => exact ih hb

lemma fromPiece_ne_nil {n : Nat} (hn : n < (pieces sep s).length) : fromPiece sep n s ≠ [] := by
  induction n generalizing s with
  | zero =>
    intro hnil
    rw [fromPiece, List.dropWhile_eq_nil_iff] at hnil
    rw [pieces_eq_nil hnil] at hn
    exact Nat.lt_irrefl 0 hn
  | succ n ih =>
    cases cut sep s with
    | ends _ hsep =>
      rw [pieces_eq_nil hsep] at hn
      cases hn
    | last y x hsep hx hnone =>
      rw [pieces_append_of_forall hsep, pieces_eq_single hx hnone, List.length_singleton] at hn
      omega
    | piece y x a t hsep hx hnone ha =>
      have hhead : ∀ b ∈ (a :: t).head?, sep b = true := by simpa using ha
      rw [pieces_cut hsep hx hnone hhead, List.length_cons] at hn
      rw [fromPiece_cut n hsep hx hnone hhead]
      exact ih (by omega)

/-- A piece begins with no separator. -/
lemma not_sep_of_mem_pieces (hx : x ∈ pieces sep s) : ∀ b ∈ x, sep b = false := by
  induction s using pieces_induction sep with
  | ends y hsep =>
    rw [pieces_eq_nil hsep] at hx
    cases hx
  | last y z hsep hz hnone =>
    rw [pieces_append_of_forall hsep, pieces_eq_single hz hnone, List.mem_singleton] at hx
    rwa [hx]
  | piece y z a t hsep hz hnone ha ih =>
    rw [pieces_append_of_forall hsep, pieces_append_sep hz hnone ha, List.mem_cons] at hx
    obtain rfl | hx := hx
    · exact hnone
    · exact ih hx

/-- No element is empty or begins with a separator. -/
lemma ne_nil_of_mem_piecesUpTo {m : Nat} (hm : 0 < m) (hx : x ∈ piecesUpTo sep m s) :
    x ≠ [] ∧ ∀ b ∈ x.head?, sep b = false := by
  have hpiece : ∀ z ∈ pieces sep s, z ≠ [] ∧ ∀ b ∈ z.head?, sep b = false := fun z hz =>
    ⟨ne_nil_of_mem_pieces hz, fun b hb => not_sep_of_mem_pieces hz b (List.mem_of_mem_head? hb)⟩
  unfold piecesUpTo at hx
  split at hx
  · exact hpiece x hx
  · obtain hx | hx := List.mem_append.1 hx
    · exact hpiece x (List.mem_of_mem_take hx)
    · rw [List.mem_singleton.1 hx]
      exact ⟨fromPiece_ne_nil (by omega), fun b hb => not_sep_of_head_fromPiece hb⟩

lemma length_piecesUpTo_le {m : Nat} (hm : 0 < m) : (piecesUpTo sep m s).length ≤ m := by
  unfold piecesUpTo
  split
  · omega
  · rw [List.length_append, List.length_take, List.length_singleton]
    omega

/-- The pieces and one separator between neighbours fit into the list. -/
lemma length_pieces_le (sep : α → Bool) (s : List α) :
    (pieces sep s).flatten.length + (pieces sep s).length ≤ s.length + 1 := by
  induction s using pieces_induction sep with
  | ends y hsep => simp [pieces_eq_nil hsep]
  | last y x hsep hx hnone =>
    rw [pieces_append_of_forall hsep, pieces_eq_single hx hnone]
    simp
  | piece y x a s hsep hx hnone ha ih =>
    rw [pieces_append_of_forall hsep, pieces_append_sep hx hnone ha]
    simp only [List.flatten_cons, List.length_append, List.length_cons]
    omega

lemma length_le_of_mem_pieces {sep : α → Bool} {s x : List α} (hx : x ∈ pieces sep s) :
    x.length ≤ s.length := by
  have hle := length_pieces_le sep s
  have hflat := (List.sublist_flatten_of_mem hx).length_le
  have hpos := List.length_pos_of_mem hx
  omega

lemma length_pieces_le_length (s : List α) : (pieces sep s).length ≤ s.length := by
  have hle := length_pieces_le sep s
  cases hs : pieces sep s with
  | nil => exact Nat.zero_le _
  | cons x cells =>
    have hx : x ≠ [] := ne_nil_of_mem_pieces (s := s) (hs ▸ List.mem_cons_self)
    have hpos := List.length_pos_iff.2 hx
    rw [hs, List.flatten_cons, List.length_append] at hle
    omega

lemma length_join {cells : List (List α)} (hcells : cells ≠ []) :
    (join a cells).length + 1 = cells.flatten.length + cells.length := by
  cases cells with
  | nil => exact absurd rfl hcells
  | cons cell cells =>
    have hrest : (cells.flatMap (a :: ·)).length = cells.flatten.length + cells.length := by
      induction cells with
      | nil => rfl
      | cons c cells ih =>
        have ih := ih (by simp)
        simp only [List.flatMap_cons, List.length_append, List.length_cons, List.flatten_cons,
          List.cons_append] at ih ⊢
        omega
    simp only [join, List.length_append, hrest, List.flatten_cons, List.length_cons]
    omega

lemma mem_join {cells : List (List α)} {b : α} (hb : b ∈ join a cells) :
    b = a ∨ ∃ cell ∈ cells, b ∈ cell := by
  cases cells with
  | nil => cases hb
  | cons cell cells =>
    rw [join, List.mem_append, List.mem_flatMap] at hb
    rcases hb with hb | ⟨c, hc, hb⟩
    · exact Or.inr ⟨cell, List.mem_cons_self, hb⟩
    · rcases List.mem_cons.1 hb with rfl | hb
      · exact Or.inl rfl
      · exact Or.inr ⟨c, List.mem_cons_of_mem cell hc, hb⟩

/-- Cells that each end with a separator come back as well. -/
lemma pieces_flatMap {cells : List (List α)} (ha : sep a = true)
    (hcells : ∀ c ∈ cells, c ≠ [] ∧ ∀ b ∈ c, sep b = false) :
    pieces sep (cells.flatMap (· ++ [a])) = cells := by
  induction cells with
  | nil => exact pieces_nil
  | cons cell cells ih =>
    obtain ⟨hcell, hfree⟩ := hcells cell List.mem_cons_self
    rw [List.flatMap_cons, List.append_assoc, List.singleton_append,
      pieces_append_sep hcell hfree ha, ih fun c hc => hcells c (List.mem_cons_of_mem cell hc)]

/-- Joined cells come back as the pieces when none of them is empty. -/
lemma pieces_join {cells : List (List α)} (ha : sep a = true) (hcells : ∀ c ∈ cells, c ≠ [])
    (hnone : ∀ c ∈ cells, ∀ b ∈ c, sep b = false) : pieces sep (join a cells) = cells := by
  induction cells with
  | nil => exact pieces_nil
  | cons cell cells ih =>
    have hcell := hcells cell List.mem_cons_self
    have hfree := hnone cell List.mem_cons_self
    have ih := ih (fun c hc => hcells c (List.mem_cons_of_mem _ hc))
      fun c hc => hnone c (List.mem_cons_of_mem _ hc)
    cases cells with
    | nil => simpa [join] using pieces_eq_single hcell hfree
    | cons d cells =>
      have hjoin : join a (cell :: d :: cells) = cell ++ a :: join a (d :: cells) := by
        simp [join]
      rw [hjoin, pieces_append_sep hcell hfree ha, ih]

end CoplusLean.Lib
