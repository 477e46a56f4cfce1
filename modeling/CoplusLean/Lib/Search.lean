import Mathlib.Data.List.Infix
import Mathlib.Data.List.TakeDrop

/-!
# Searching a pattern in a list

`find` returns the position of the first occurrence of a pattern and `occurrences` counts
all positions at which it occurs. `NoStart pat x y` says that no occurrence in `x ++ y`
starts within `x`; searches then skip `x`.
-/

namespace CoplusLean.Lib

variable {α : Type*} [DecidableEq α] {pat x y z : List α} {a : α}

/-- The position of the first occurrence. -/
def find (pat : List α) : List α → Option Nat
  | [] => if pat = [] then some 0 else none
  | a :: s => if pat <+: a :: s then some 0 else (find pat s).map (· + 1)

/-- The number of positions of a nonempty pattern. -/
def occurrences (pat : List α) : List α → Nat
  | [] => 0
  | a :: s => (if pat <+: a :: s then 1 else 0) + occurrences pat s

/-- No occurrence in `x ++ y` starts within `x`. -/
def NoStart (pat : List α) : List α → List α → Prop
  | [], _ => True
  | a :: x, y => ¬pat <+: a :: (x ++ y) ∧ NoStart pat x y

lemma find_of_isPrefix (h : pat <+: x) : find pat x = some 0 := by
  cases x with
  | nil => simp [find, List.prefix_nil.mp h]
  | cons a s => simp [find, h]

lemma find_append (h : NoStart pat x y) :
    find pat (x ++ y) = (find pat y).map (· + x.length) := by
  induction x with
  | nil => simp
  | cons a x ih =>
    rw [List.cons_append, find, if_neg h.1, ih h.2, Option.map_map]
    congr 1

/-- The first occurrence splits the list. -/
lemma find_eq_some {k : Nat} (h : find pat x = some k) :
    ∃ u v, x = u ++ pat ++ v ∧ u.length = k := by
  induction x generalizing k with
  | nil =>
    simp only [find] at h
    split at h
    case isTrue hpat =>
      cases h
      exact ⟨[], [], by simp [hpat], rfl⟩
    · cases h
  | cons a s ih =>
    simp only [find] at h
    split at h
    case isTrue hpre =>
      cases h
      obtain ⟨v, hv⟩ := hpre
      exact ⟨[], v, by simp [hv], rfl⟩
    case isFalse =>
      obtain ⟨j, hj, rfl⟩ := Option.map_eq_some_iff.mp h
      obtain ⟨u, v, rfl, rfl⟩ := ih hj
      exact ⟨a :: u, v, by simp, by simp⟩

lemma find_eq_none (hpat : pat ≠ []) (h : ¬pat <:+: x) : find pat x = none := by
  induction x with
  | nil => simp [find, hpat]
  | cons a s ih =>
    have hpre : ¬pat <+: a :: s := fun hp => h hp.isInfix
    have hinf : ¬pat <:+: s := fun hs => h (hs.trans (List.suffix_cons a s).isInfix)
    rw [find, if_neg hpre, ih hinf]
    rfl

lemma exists_find_of_isInfix (h : pat <:+: x) : ∃ k, find pat x = some k := by
  induction x with
  | nil => exact ⟨0, by rw [find, if_pos (List.infix_nil.mp h)]⟩
  | cons a s ih =>
    by_cases hpre : pat <+: a :: s
    · exact ⟨0, find_of_isPrefix hpre⟩
    · obtain ⟨k, hk⟩ := ih ((List.infix_cons_iff.mp h).resolve_left hpre)
      exact ⟨k + 1, by rw [find, if_neg hpre, hk, Option.map_some]⟩

/-- An occurrence within `x` is found there. -/
lemma find_append_of_isInfix (h : pat <:+: x) : find pat (x ++ y) = find pat x := by
  induction x with
  | nil =>
    obtain rfl := List.infix_nil.mp h
    rw [find_of_isPrefix List.nil_prefix, find_of_isPrefix List.nil_prefix]
  | cons a s ih =>
    by_cases hpre : pat <+: a :: s
    · rw [find_of_isPrefix hpre, find_of_isPrefix (List.prefix_append_of_prefix hpre)]
    · have hinf := (List.infix_cons_iff.mp h).resolve_left hpre
      have hpre' : ¬pat <+: a :: (s ++ y) := fun hp =>
        hpre (List.prefix_of_prefix_length_le hp (List.prefix_append (a :: s) y)
          (hinf.length_le.trans (Nat.le_succ _)))
      rw [List.cons_append, find, if_neg hpre', ih hinf, find, if_neg hpre]

lemma find_add_length_le {k : Nat} (h : find pat x = some k) : k + pat.length ≤ x.length := by
  obtain ⟨u, v, rfl, rfl⟩ := find_eq_some h
  simp only [List.length_append]
  omega

/-- The pattern between `x` and `y` is the first one unless another begins within `x`. -/
lemma find_between (hpat : pat ≠ []) (x y : List α) :
    ∃ k ≤ x.length, find pat (x ++ pat ++ y) = some k ∧
      (k = x.length ↔ ¬pat <:+: x ++ pat.dropLast) := by
  have hlen := List.length_pos_iff.mpr hpat
  have hinner : pat <:+: x ++ pat := (List.suffix_append x pat).isInfix
  obtain ⟨k, hk⟩ := exists_find_of_isInfix hinner
  have hle := find_add_length_le hk
  rw [List.length_append] at hle
  refine ⟨k, by omega, (find_append_of_isInfix hinner).trans hk, ?_, ?_⟩
  · rintro rfl hinf
    obtain ⟨j, hj⟩ := exists_find_of_isInfix hinf
    have hjle := find_add_length_le hj
    have hsame := find_append_of_isInfix (y := [pat.getLast hpat]) hinf
    rw [List.append_assoc, List.dropLast_append_getLast hpat, hk, hj] at hsame
    obtain rfl := Option.some.inj hsame
    rw [List.length_append, List.length_dropLast] at hjle
    omega
  · intro hinf
    by_contra hne
    obtain ⟨u, v, huv, rfl⟩ := find_eq_some hk
    apply hinf
    have hpre : u ++ pat <+: x ++ pat := ⟨v, huv.symm⟩
    have hpart : u ++ pat <+: x ++ pat.dropLast := by
      apply List.prefix_of_prefix_length_le hpre
      · exact List.prefix_append_right_inj x |>.mpr (List.dropLast_prefix pat)
      · simp only [List.length_append, List.length_dropLast]
        omega
    exact (List.suffix_append u pat).isInfix.trans hpart.isInfix

omit [DecidableEq α] in
lemma noStart_append {x₁ x₂ : List α} :
    NoStart pat (x₁ ++ x₂) y ↔ NoStart pat x₁ (x₂ ++ y) ∧ NoStart pat x₂ y := by
  induction x₁ with
  | nil => simp [NoStart]
  | cons a x₁ ih => simp only [List.cons_append, NoStart, ih, List.append_assoc, and_assoc]

omit [DecidableEq α] in
lemma noStart_of_suffix {u : List α} (hu : u <:+ x) (h : NoStart pat x y) : NoStart pat u y := by
  obtain ⟨v, rfl⟩ := hu
  exact (noStart_append.mp h).2

omit [DecidableEq α] in
lemma NoStart.drop (h : NoStart pat x y) {k : Nat} (hk : k < x.length) :
    ¬pat <+: (x ++ y).drop k := by
  induction x generalizing k with
  | nil => simp at hk
  | cons b x ih =>
    cases k with
    | zero => exact h.1
    | succ k => exact ih h.2 (by simpa using hk)

omit [DecidableEq α] in
lemma noStart_of_notMem (ha : a ∉ x) : NoStart (a :: pat) x y := by
  induction x with
  | nil => exact trivial
  | cons b x ih =>
    rw [List.mem_cons, not_or] at ha
    exact ⟨fun hpre => ha.1 (List.cons_prefix_cons.mp hpre).1, ih ha.2⟩

omit [DecidableEq α] in
/-- An occurrence does not reach over an element that the pattern has not. -/
lemma infix_of_notMem (ha : a ∉ pat) (h : pat <:+: x ++ a :: y) : pat <:+: x ∨ pat <:+: y := by
  induction x with
  | nil =>
    rcases List.infix_cons_iff.mp h with hpre | hinf
    · cases pat with
      | nil => exact Or.inl List.nil_infix
      | cons b pat =>
        rw [(List.cons_prefix_cons.mp hpre).1] at ha
        exact absurd List.mem_cons_self ha
    · exact Or.inr hinf
  | cons b x ih =>
    rcases List.infix_cons_iff.mp h with hpre | hinf
    · left
      obtain ⟨v, hv⟩ : pat <+: (b :: x) ++ a :: y := hpre
      obtain ⟨u, hu, -⟩ | ⟨u, hu, hrest⟩ := List.append_eq_append_iff.mp hv
      · exact ⟨[], u, by rw [List.nil_append, hu]⟩
      · cases u with
        | nil => exact ⟨[], [], by simpa using hu⟩
        | cons d u =>
          rw [List.cons_append] at hrest
          rw [(List.cons.inj hrest).1, hu] at ha
          exact absurd (List.mem_append_right _ List.mem_cons_self) ha
    · exact (ih hinf).imp_left fun hx => hx.trans (List.suffix_cons b x).isInfix

omit [DecidableEq α] in
/-- Elements that the pattern has not can be left out in front. -/
lemma infix_of_disjoint (hx : ∀ b ∈ x, b ∉ pat) (hpat : pat ≠ []) (h : pat <:+: x ++ y) :
    pat <:+: y := by
  induction x with
  | nil => exact h
  | cons b x ih =>
    have hrest := infix_of_notMem (x := []) (hx b List.mem_cons_self) h
    rcases hrest with hnil | hinf
    · exact absurd (List.infix_nil.mp hnil) hpat
    · exact ih (fun d hd => hx d (List.mem_cons_of_mem b hd)) hinf

omit [DecidableEq α] in
/-- When the pattern starts first after `x` in `x ++ pat`, no proper part of it at the front
holds the pattern. -/
lemma absent_of_part (h : NoStart pat x pat) (hz : z <+: x ++ pat)
    (hlt : z.length < x.length + pat.length) : ¬pat <:+: z := by
  rintro ⟨u, v, rfl⟩
  obtain ⟨r, hr⟩ := hz
  simp only [List.length_append] at hlt
  apply h.drop (k := u.length) (by omega)
  exact ⟨v ++ r, by rw [← hr]; simp⟩

omit [DecidableEq α] in
lemma NoStart.absent (h : NoStart pat x y) (hpat : pat ≠ []) (hz : z <:+: x) :
    ¬pat <:+: z := by
  intro hinf
  obtain ⟨u, v, rfl⟩ := hinf.trans hz
  have hpos := List.length_pos_iff.mpr hpat
  apply h.drop (k := u.length) (by simp only [List.length_append]; omega)
  exact ⟨v ++ y, by simp⟩

omit [DecidableEq α] in
/-- An occurrence that starts within `x` and does not end there would hold the element `a`
after its first place. -/
lemma noStart_of_absent (ha : a ∉ pat.tail) (h : ¬pat <:+: x) : NoStart pat x (a :: y) := by
  induction x with
  | nil => exact trivial
  | cons b x ih =>
    refine ⟨fun hpre => ?_, ih fun hx => h (hx.trans (List.suffix_cons b x).isInfix)⟩
    by_cases hlen : pat.length ≤ (b :: x).length
    · exact h (List.prefix_of_prefix_length_le hpre (List.prefix_append (b :: x) (a :: y)) hlen).isInfix
    · have hlong : b :: (x ++ [a]) <+: pat := by
        have hfront : b :: (x ++ [a]) <+: b :: (x ++ a :: y) := ⟨y, by simp⟩
        refine List.prefix_of_prefix_length_le hfront hpre ?_
        simp only [List.length_cons, List.length_append, List.length_nil] at hlen ⊢
        omega
      obtain ⟨v, hv⟩ := hlong
      exact ha (by simp [← hv])

lemma occurrences_eq_zero (h : ¬pat <:+: x) : occurrences pat x = 0 := by
  induction x with
  | nil => rfl
  | cons a s ih =>
    rw [List.infix_cons_iff, not_or] at h
    rw [occurrences, if_neg h.1, ih h.2]

lemma occurrences_append (h : NoStart pat x y) :
    occurrences pat (x ++ y) = occurrences pat y := by
  induction x with
  | nil => rfl
  | cons b x ih =>
    rw [List.cons_append, occurrences, if_neg h.1, ih h.2]
    omega

lemma occurrences_add_le (pat x y : List α) :
    occurrences pat x + occurrences pat y ≤ occurrences pat (x ++ y) := by
  induction x with
  | nil => simp [occurrences]
  | cons b x ih =>
    rw [List.cons_append, occurrences, occurrences]
    by_cases hpre : pat <+: b :: x
    · have hpre' : pat <+: b :: (x ++ y) := List.prefix_append_of_prefix hpre
      rw [if_pos hpre, if_pos hpre']
      omega
    · rw [if_neg hpre]
      omega

lemma occurrences_drop_le (pat x : List α) (k : Nat) :
    occurrences pat (x.drop k) ≤ occurrences pat x := by
  have h := occurrences_add_le pat (x.take k) (x.drop k)
  rw [List.take_append_drop] at h
  omega

/-- Past the first occurrence there is one less. -/
lemma occurrences_past_find (hpat : pat ≠ []) {k : Nat} (h : find pat x = some k) :
    occurrences pat (x.drop (k + pat.length)) + 1 ≤ occurrences pat x := by
  obtain ⟨u, v, rfl, rfl⟩ := find_eq_some h
  obtain ⟨b, rest, rfl⟩ := List.exists_cons_of_ne_nil hpat
  have hdrop : (u ++ b :: rest ++ v).drop (u.length + (b :: rest).length) = v := by
    rw [← List.length_append]
    exact List.drop_left
  have hone : 1 ≤ occurrences (b :: rest) (b :: rest) := by
    rw [occurrences, if_pos (List.prefix_refl _)]
    omega
  have h1 := occurrences_add_le (b :: rest) (u ++ b :: rest) v
  have h2 := occurrences_add_le (b :: rest) u (b :: rest)
  rw [hdrop]
  omega

end CoplusLean.Lib
