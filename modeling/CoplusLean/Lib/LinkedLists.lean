import Mathlib.Data.List.Basic
import Mathlib.Logic.Function.Basic
import Mathlib.Tactic.Common

/-!
# Intrusive doubly linked lists

Nodes carry a link to the node before them and one to the node after them; a family of
such lists is reached through one root per list. `z` stands for "no node". The edits an
implementation makes (a push at the front, the removal of a node found anywhere in its
list) are rules about the link functions before and after: they ask for the links that
have to change and for the others being kept, not for the order of the stores.
-/

namespace CoplusLean.Lib

variable {ν ι : Type*}

/-- The nodes of `l` are linked both ways, in order, with `p` before the first of them and
`q` after the last. -/
def Linked (pri next : ν → ν) : ν → List ν → ν → Prop
  | _, [], _ => True
  | p, h :: t, q => pri h = p ∧ next h = t.headD q ∧ Linked pri next h t q

section linked

variable {pri next pri' next' : ν → ν} {p q z : ν}

@[simp] lemma linked_nil : Linked pri next p [] q := trivial

@[simp] lemma linked_cons {h : ν} {t : List ν} :
    Linked pri next p (h :: t) q ↔ pri h = p ∧ next h = t.headD q ∧ Linked pri next h t q :=
  Iff.rfl

/-- A chain of two parts is the two chains, each with the other as its neighbour. -/
lemma linked_append {l l' : List ν} : Linked pri next p (l ++ l') q ↔
    Linked pri next p l (l'.headD q) ∧ Linked pri next (l.getLastD p) l' q := by
  induction l generalizing p with
  | nil => simp
  | cons h t ih =>
    have hhead : (t ++ l').headD q = t.headD (l'.headD q) := by
      cases t <;> simp
    simp only [List.cons_append, linked_cons, ih, hhead, List.getLastD_cons, and_assoc]

lemma Linked.congr {l : List ν} (h : Linked pri next p l q)
    (hsame : ∀ x ∈ l, pri' x = pri x ∧ next' x = next x) : Linked pri' next' p l q := by
  induction l generalizing p with
  | nil => exact trivial
  | cons y t ih =>
    obtain ⟨hpri, hnext, ht⟩ := h
    have hy := hsame y List.mem_cons_self
    exact ⟨hy.1.trans hpri, hy.2.trans hnext,
      ih ht fun x hx => hsame x (List.mem_cons_of_mem y hx)⟩

/-- Another predecessor for the first node. -/
lemma Linked.repri {p' : ν} {l : List ν} (h : Linked pri next p l q)
    (hfirst : ∀ x ∈ l.head?, pri' x = p') (hpri : ∀ x ∈ l.tail, pri' x = pri x)
    (hnext : ∀ x ∈ l, next' x = next x) : Linked pri' next' p' l q := by
  cases l with
  | nil => exact trivial
  | cons y t =>
    obtain ⟨-, hy, ht⟩ := h
    refine ⟨hfirst y rfl, (hnext y List.mem_cons_self).trans hy, ?_⟩
    apply ht.congr
    intro x hx
    exact ⟨hpri x hx, hnext x (List.mem_cons_of_mem y hx)⟩

/-- Another successor for the last node. -/
lemma Linked.renext {q' : ν} {l : List ν} (h : Linked pri next p l q) (hnodup : l.Nodup)
    (hlast : ∀ x ∈ l.getLast?, next' x = q') (hpri : ∀ x ∈ l, pri' x = pri x)
    (hnext : ∀ x ∈ l, x ∉ l.getLast? → next' x = next x) : Linked pri' next' p l q' := by
  induction l generalizing p with
  | nil => exact trivial
  | cons y t ih =>
    obtain ⟨hy, hyn, ht⟩ := h
    refine ⟨(hpri y List.mem_cons_self).trans hy, ?_, ?_⟩
    · cases t with
      | nil => exact hlast y rfl
      | cons w t =>
        have hne : y ∉ (y :: w :: t).getLast? := by
          rw [List.getLast?_cons_cons]
          intro hmem
          exact (List.nodup_cons.1 hnodup).1 (List.mem_of_mem_getLast? hmem)
        rw [hnext y List.mem_cons_self hne, hyn]
        rfl
    · cases t with
      | nil => exact trivial
      | cons w t =>
        rw [List.getLast?_cons_cons] at hlast hnext
        exact ih ht (List.nodup_cons.1 hnodup).2 hlast
          (fun x hx => hpri x (List.mem_cons_of_mem y hx))
          (fun x hx => hnext x (List.mem_cons_of_mem y hx))

/-- The links of a node that splits its list. -/
lemma Linked.links {l l' : List ν} {h : ν} (hl : Linked pri next p (l ++ h :: l') q) :
    pri h = l.getLastD p ∧ next h = l'.headD q :=
  ⟨(linked_append.1 hl).2.1, (linked_append.1 hl).2.2.1⟩

/-- The node before `h` is its `pri`, where that is a node. -/
lemma Linked.mem_getLast?_iff {s t : List ν} {h : ν} (hl : Linked pri next z (s ++ h :: t) z)
    (hz : z ∉ s ++ h :: t) (x : ν) : x ∈ s.getLast? ↔ x = pri h ∧ pri h ≠ z := by
  rw [hl.links.1]
  cases hlast : s.getLast? with
  | none =>
    obtain rfl : s = [] := by simpa using hlast
    simp
  | some y =>
    have hy : s.getLastD z = y := by simp [List.getLastD_eq_getLast?, hlast]
    have hyz : y ≠ z := fun h' => hz (by simp [← h', List.mem_of_getLast? hlast])
    rw [hy]
    simp [hyz, eq_comm]

/-- The node after `h` is its `next`, where that is a node. -/
lemma Linked.mem_head?_iff {s t : List ν} {h : ν} (hl : Linked pri next z (s ++ h :: t) z)
    (hz : z ∉ s ++ h :: t) (x : ν) : x ∈ t.head? ↔ x = next h ∧ next h ≠ z := by
  rw [hl.links.2]
  cases t with
  | nil => simp
  | cons y t =>
    have hyz : y ≠ z := fun h' => hz (by simp [h'])
    simp [hyz, eq_comm]

lemma Linked.next_mem {l : List ν} {h : ν} (hl : Linked pri next p l q) (hh : h ∈ l) :
    next h ∈ l ∨ next h = q := by
  obtain ⟨s, t, rfl⟩ := List.append_of_mem hh
  rw [hl.links.2]
  cases t with
  | nil => exact .inr rfl
  | cons w t => exact .inl (by simp)

/-- The chain without one of its nodes: only the links of its two neighbours change. -/
lemma Linked.remove {l l' : List ν} {h : ν} (hl : Linked pri next p (l ++ h :: l') q)
    (hnodup : (l ++ h :: l').Nodup)
    (hlast : ∀ x ∈ l.getLast?, next' x = next h) (hfirst : ∀ x ∈ l'.head?, pri' x = pri h)
    (hpri : ∀ x ∈ l ++ l', x ∉ l'.head? → pri' x = pri x)
    (hnext : ∀ x ∈ l ++ l', x ∉ l.getLast? → next' x = next x) :
    Linked pri' next' p (l ++ l') q := by
  obtain ⟨hnl, hnr, hdisj⟩ := List.nodup_append.1 hnodup
  rw [List.nodup_cons] at hnr
  obtain ⟨hleft, -, hnh, hright⟩ := linked_append.1 hl
  have hph : pri h = l.getLastD p := hl.links.1
  apply linked_append.2
  constructor
  · refine hleft.renext hnl (fun x hx => (hlast x hx).trans hnh) ?_ ?_
    · intro x hx
      refine hpri x (List.mem_append_left l' hx) fun hx' => ?_
      exact hdisj x hx x (List.mem_cons_of_mem h (List.mem_of_mem_head? hx')) rfl
    · exact fun x hx => hnext x (List.mem_append_left l' hx)
  · refine hright.repri (fun x hx => (hfirst x hx).trans hph) ?_ ?_
    · intro x hx
      refine hpri x (List.mem_append_right l (List.mem_of_mem_tail hx)) fun hx' => ?_
      cases l' with
      | nil => simp at hx
      | cons w t =>
        obtain rfl : w = x := by simpa using hx'
        exact (List.nodup_cons.1 hnr.2).1 hx
    · intro x hx
      refine hnext x (List.mem_append_right l hx) fun hx' => ?_
      exact hdisj x (List.mem_of_mem_getLast? hx') x (List.mem_cons_of_mem h hx) rfl

end linked

/-- Lists `l i`, one for each index in `S`, each reached from `root i`; no node is in two of
them. -/
structure ListFamily (z : ν) (S : ι → Prop) (root : ι → ν) (pri next : ν → ν)
    (l : ι → List ν) : Prop where
  root_eq : ∀ i, S i → root i = (l i).headD z
  linked : ∀ i, S i → Linked pri next z (l i) z
  nodup : ∀ i, S i → (l i).Nodup
  unique : ∀ i j x, S i → S j → x ∈ l i → x ∈ l j → i = j
  proper : ∀ i, S i → z ∉ l i

namespace ListFamily

variable {z : ν} {S : ι → Prop} {root root' : ι → ν} {pri next pri' next' : ν → ν}
  {l : ι → List ν} {i : ι}

lemma congr (hF : ListFamily z S root pri next l) (hroot : ∀ i, S i → root' i = root i)
    (hsame : ∀ i x, S i → x ∈ l i → pri' x = pri x ∧ next' x = next x) :
    ListFamily z S root' pri' next' l where
  root_eq i hi := (hroot i hi).trans (hF.root_eq i hi)
  linked i hi := (hF.linked i hi).congr fun x hx => hsame i x hi hx
  nodup := hF.nodup
  unique := hF.unique
  proper := hF.proper

lemma root_eq_none_iff (hF : ListFamily z S root pri next l) (hi : S i) :
    root i = z ↔ l i = [] := by
  rw [hF.root_eq i hi]
  cases h : l i with
  | nil => simp
  | cons y t =>
    have hz := hF.proper i hi
    rw [h] at hz
    simp only [List.mem_cons, not_or] at hz
    simpa using Ne.symm hz.1

lemma mem_of_root_ne (hF : ListFamily z S root pri next l) (hi : S i) (h : root i ≠ z) :
    root i ∈ l i := by
  have hne : l i ≠ [] := fun h' => h ((hF.root_eq_none_iff hi).2 h')
  rw [hF.root_eq i hi]
  cases hl : l i with
  | nil => exact absurd hl hne
  | cons y t => simp

/-- A node without a predecessor is the first of its list. -/
lemma pri_eq_none_iff (hF : ListFamily z S root pri next l) (hi : S i) {h : ν} (hh : h ∈ l i) :
    pri h = z ↔ root i = h := by
  have hz := hF.proper i hi
  have hnodup := hF.nodup i hi
  obtain ⟨s, t, hst⟩ := List.append_of_mem hh
  have hl := hF.linked i hi
  rw [hst] at hz hnodup hl
  rw [hF.root_eq i hi, hst, hl.links.1]
  cases s with
  | nil => simp
  | cons w s =>
    have hw : w ≠ h := by
      rintro rfl
      simp at hnodup
    have hlast : (w :: s).getLastD z ≠ z := by
      intro h'
      apply hz
      rw [← h', List.getLastD_cons]
      exact List.mem_append_left _ List.getLastD_mem_cons
    exact ⟨fun h' => absurd h' hlast, fun h' => absurd h' hw⟩

/-- One list of the family is rebuilt and the others are left alone. -/
lemma replace [DecidableEq ι] (hF : ListFamily z S root pri next l) {l' : List ν}
    (hroot : root' i = l'.headD z) (hroots : ∀ j, S j → j ≠ i → root' j = root j)
    (hlinked : Linked pri' next' z l' z) (hnodup : l'.Nodup) (hz : z ∉ l')
    (hnew : ∀ x ∈ l', ∀ j, S j → j ≠ i → x ∉ l j)
    (hsame : ∀ j x, S j → j ≠ i → x ∈ l j → pri' x = pri x ∧ next' x = next x) :
    ListFamily z S root' pri' next' (Function.update l i l') where
  root_eq j hj := by
    by_cases hji : j = i
    · subst hji
      simpa using hroot
    · simpa [hji] using (hroots j hj hji).trans (hF.root_eq j hj)
  linked j hj := by
    by_cases hji : j = i
    · subst hji
      simpa using hlinked
    · simpa [hji] using (hF.linked j hj).congr fun x hx => hsame j x hj hji hx
  nodup j hj := by
    by_cases hji : j = i
    · subst hji
      simpa using hnodup
    · simpa [hji] using hF.nodup j hj
  unique j k x hj hk hxj hxk := by
    by_cases hji : j = i <;> by_cases hki : k = i
    · rw [hji, hki]
    · subst hji
      simp only [Function.update_self, Function.update_of_ne hki] at hxj hxk
      exact absurd hxk (hnew x hxj k hk hki)
    · subst hki
      simp only [Function.update_self, Function.update_of_ne hji] at hxj hxk
      exact absurd hxj (hnew x hxk j hj hji)
    · simp only [Function.update_of_ne hji, Function.update_of_ne hki] at hxj hxk
      exact hF.unique j k x hj hk hxj hxk
  proper j hj := by
    by_cases hji : j = i
    · subst hji
      simpa using hz
    · simpa [hji] using hF.proper j hj

/-- A node that is in no list becomes the first of list `i`. -/
lemma push [DecidableEq ι] (hF : ListFamily z S root pri next l) (hi : S i) {h : ν} (hz : h ≠ z)
    (hfresh : ∀ j, S j → h ∉ l j)
    (hroot : root' i = h) (hroots : ∀ j, S j → j ≠ i → root' j = root j)
    (hpri : pri' h = z) (hnext : next' h = root i)
    (hsecond : root i ≠ z → pri' (root i) = h)
    (hpris : ∀ j x, S j → x ∈ l j → x ≠ root i → pri' x = pri x)
    (hnexts : ∀ j x, S j → x ∈ l j → next' x = next x) :
    ListFamily z S root' pri' next' (Function.update l i (h :: l i)) := by
  apply hF.replace (by simpa using hroot) hroots
  · refine ⟨hpri, hnext.trans (hF.root_eq i hi), ?_⟩
    refine (hF.linked i hi).repri ?_ ?_ fun x hx => hnexts i x hi hx
    · intro x hx
      have hroot' : root i = x := by
        rw [hF.root_eq i hi, List.headD_eq_head?_getD, hx]
        rfl
      rw [← hroot']
      apply hsecond
      rw [hroot']
      rintro rfl
      exact hF.proper i hi (List.mem_of_mem_head? hx)
    · intro x hx
      refine hpris i x hi (List.mem_of_mem_tail hx) fun hx' => ?_
      have hnodup := hF.nodup i hi
      rw [hF.root_eq i hi] at hx'
      cases hl : l i with
      | nil => simp [hl] at hx
      | cons y t =>
        simp only [hl, List.headD_cons, List.tail_cons, List.nodup_cons] at hx' hx hnodup
        exact hnodup.1 (hx' ▸ hx)
  · exact List.nodup_cons.2 ⟨hfresh i hi, hF.nodup i hi⟩
  · simpa [Ne.symm hz] using hF.proper i hi
  · intro x hx j hj hji hxj
    rcases List.mem_cons.1 hx with rfl | hxi
    · exact hfresh j hj hxj
    · exact hji (hF.unique j i x hj hi hxj hxi)
  · intro j x hj hji hx
    refine ⟨hpris j x hj hx fun hx' => ?_, hnexts j x hj hx⟩
    have hne : root i ≠ z := by
      rw [← hx']
      rintro rfl
      exact hF.proper j hj hx
    exact hji (hF.unique j i x hj hi hx (hx' ▸ hF.mem_of_root_ne hi hne))

/-- A node is unlinked from list `i`. Its own links may be left as they were. -/
lemma remove [DecidableEq ι] [DecidableEq ν] (hF : ListFamily z S root pri next l) (hi : S i)
    {h : ν} (hh : h ∈ l i)
    (hroot : root' i = if pri h = z then next h else root i)
    (hroots : ∀ j, S j → j ≠ i → root' j = root j)
    (hnext : pri h ≠ z → next' (pri h) = next h) (hpri : next h ≠ z → pri' (next h) = pri h)
    (hpris : ∀ j x, S j → x ∈ l j → x ≠ h → x ≠ next h → pri' x = pri x)
    (hnexts : ∀ j x, S j → x ∈ l j → x ≠ h → x ≠ pri h → next' x = next x) :
    ListFamily z S root' pri' next' (Function.update l i ((l i).erase h)) := by
  have hz := hF.proper i hi
  have hnodup := hF.nodup i hi
  have hl := hF.linked i hi
  have hfirst := hF.pri_eq_none_iff hi hh
  obtain ⟨s, t, hst⟩ := List.append_of_mem hh
  rw [hst] at hz hnodup hl
  have hs : h ∉ s := by
    intro hs
    exact (List.nodup_append.1 hnodup).2.2 h hs h List.mem_cons_self rfl
  have ht : h ∉ t := (List.nodup_cons.1 (List.nodup_append.1 hnodup).2.1).1
  have herase : (l i).erase h = s ++ t := by
    rw [hst, List.erase_append_right _ hs, List.erase_cons_head]
  obtain ⟨hp, hn⟩ := hl.links
  have hmem : ∀ x ∈ s ++ t, x ∈ l i ∧ x ≠ h := by
    intro x hx
    rw [hst]
    rcases List.mem_append.1 hx with hx | hx
    · exact ⟨by simp [hx], fun h' => hs (h' ▸ hx)⟩
    · exact ⟨by simp [hx], fun h' => ht (h' ▸ hx)⟩
  have hlast := hl.mem_getLast?_iff hz
  have hhead := hl.mem_head?_iff hz
  rw [herase]
  apply hF.replace ?_ hroots
  · refine hl.remove hnodup ?_ ?_ ?_ ?_
    · intro x hx
      obtain ⟨rfl, hne⟩ := (hlast x).1 hx
      exact hnext hne
    · intro x hx
      obtain ⟨rfl, hne⟩ := (hhead x).1 hx
      exact hpri hne
    · intro x hx hx'
      refine hpris i x hi (hmem x hx).1 (hmem x hx).2 fun h' => hx' ?_
      refine (hhead x).2 ⟨h', fun hnz => ?_⟩
      exact hF.proper i hi (hnz ▸ h' ▸ (hmem x hx).1)
    · intro x hx hx'
      refine hnexts i x hi (hmem x hx).1 (hmem x hx).2 fun h' => hx' ?_
      refine (hlast x).2 ⟨h', fun hnz => ?_⟩
      exact hF.proper i hi (hnz ▸ h' ▸ (hmem x hx).1)
  · exact herase ▸ (hF.nodup i hi).erase h
  · exact fun h' => hF.proper i hi (hmem z h').1
  · intro x hx j hj hji hxj
    exact hji (hF.unique j i x hj hi hxj (hmem x hx).1)
  · intro j x hj hji hx
    have hxi : x ∉ l i := fun h' => hji (hF.unique j i x hj hi hx h')
    have hxz : x ≠ z := fun h' => hF.proper j hj (h' ▸ hx)
    refine ⟨hpris j x hj hx (fun h' => hxi (h' ▸ hh)) fun h' => hxi ?_,
      hnexts j x hj hx (fun h' => hxi (h' ▸ hh)) fun h' => hxi ?_⟩
    · exact (hmem x (List.mem_append_right s
        (List.mem_of_mem_head? ((hhead x).2 ⟨h', h' ▸ hxz⟩)))).1
    · exact (hmem x (List.mem_append_left t
        (List.mem_of_mem_getLast? ((hlast x).2 ⟨h', h' ▸ hxz⟩)))).1
  · rw [hroot]
    by_cases hpz : pri h = z
    · have hs0 : s = [] := by
        cases s with
        | nil => rfl
        | cons y s =>
          have hy : y = h := by
            rw [← hfirst.1 hpz, hF.root_eq i hi, hst]
            rfl
          exact absurd (hy ▸ List.mem_cons_self) hs
      rw [if_pos hpz, hs0, List.nil_append]
      exact hn
    · rw [if_neg hpz, hF.root_eq i hi, hst]
      cases s with
      | nil => exact absurd hp hpz
      | cons y s => rfl

end ListFamily

end CoplusLean.Lib
