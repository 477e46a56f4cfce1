import CoplusLean.Lib.TicketGate

/-!
# How far the tickets of a gate run ahead

An attempt is overtaken by others between any two of its steps. `others i` counts the calls
that have run during the call of `i` so far, and `busy` the calls in progress. The ticket an
attempt draws exceeds the number of revoked tickets it has read by no more than the limit
and the calls that have run meanwhile: those revoked since have returned since, and those
not settled yet are in progress.
-/

namespace CoplusLean.Lib

/-- The attempt has drawn a ticket and not taken a place. -/
def Stage.Holds : Stage → Prop
  | .drawn _ _ => True
  | .refused _ => True
  | .admitted => True
  | _ => False

variable {ι : Type*} [DecidableEq ι]

structure GateCrowd (count revoke fast limit busy : Nat) (stage : ι → Stage) (others : ι → Nat) :
    Prop where
  tally : ∃ c, Census Stage.Holds stage c ∧ count = revoke + fast + c
  loaded : ∀ i r, stage i = .loaded r → revoke + busy ≤ r + others i + 1
  drawn : ∀ i r d, stage i = .drawn r d → d ≤ r + others i + 1 + limit

/-- A part of the threads, and one more, is at most the whole. -/
lemma Census.succ_le {β : Type*} {P Q : β → Prop} {f : ι → β} {m n : Nat} {i : ι}
    (hP : Census P f m) (hQ : Census Q f n) (hsub : ∀ b, P b → Q b) (hi : Q (f i))
    (hi' : ¬P (f i)) : m + 1 ≤ n := by
  obtain ⟨s, hs, rfl⟩ := hP
  obtain ⟨u, hu, rfl⟩ := hQ
  have hnot : i ∉ s := fun h => hi' ((hs i).1 h)
  rw [← Finset.card_insert_of_notMem hnot]
  apply Finset.card_le_card
  intro j hj
  rcases Finset.mem_insert.1 hj with rfl | hj
  · exact (hu j).2 hi
  · exact (hu j).2 (hsub _ ((hs j).1 hj))

namespace GateCrowd

variable {count revoke fast limit busy : Nat} {stage : ι → Stage} {others : ι → Nat} {i : ι}
  {r d : Nat}

omit [DecidableEq ι] in
lemma init : GateCrowd 0 0 0 limit 0 (fun _ : ι => Stage.out) others where
  tally := ⟨0, census_const (by simp [Stage.Holds]), rfl⟩
  loaded := by simp
  drawn := by simp

omit [DecidableEq ι] in
/-- Time passes at the gate: calls begin and end elsewhere, and the limit grows. -/
lemma age (h : GateCrowd count revoke fast limit busy stage others) {busy' limit' : Nat}
    {others' : ι → Nat} (hlimit : limit ≤ limit')
    (hothers : ∀ j, stage j ≠ .out →
      others j ≤ others' j ∧ busy' + others j ≤ busy + others' j) :
    GateCrowd count revoke fast limit' busy' stage others' where
  tally := h.tally
  loaded j r hj := by
    have := h.loaded j r hj
    have := hothers j (by simp [hj])
    omega
  drawn j r d hj := by
    have := h.drawn j r d hj
    have := hothers j (by simp [hj])
    omega

/-- A thread changes its stage: what the new stage asks for is given. -/
lemma move (h : GateCrowd count revoke fast limit busy stage others) {s : Stage}
    {count' revoke' fast' busy' : Nat}
    (hrevoke : revoke' + busy' ≤ revoke + busy)
    (htally : ∃ c, Census Stage.Holds (Function.update stage i s) c ∧
      count' = revoke' + fast' + c)
    (hloaded : ∀ r, s = .loaded r → revoke' + busy' ≤ r + others i + 1)
    (hdrawn : ∀ r d, s = .drawn r d → d ≤ r + others i + 1 + limit) :
    GateCrowd count' revoke' fast' limit busy' (Function.update stage i s) others where
  tally := htally
  loaded j r hj := by
    by_cases hji : j = i
    · subst hji
      exact hloaded r (by simpa using hj)
    · have := h.loaded j r (by simpa [hji] using hj)
      omega
  drawn j r d hj := by
    by_cases hji : j = i
    · subst hji
      exact hdrawn r d (by simpa using hj)
    · exact h.drawn j r d (by simpa [hji] using hj)

lemma load (h : GateCrowd count revoke fast limit busy stage others) (hi : stage i = .out)
    (hbusy : busy ≤ others i + 1) :
    GateCrowd count revoke fast limit busy (Function.update stage i (.loaded revoke)) others := by
  obtain ⟨c, hc, hcount⟩ := h.tally
  refine h.move le_rfl ⟨c, hc.same (by simp [hi, Stage.Holds]), hcount⟩ ?_ (by simp)
  rintro r hr
  cases hr
  omega

/-- `c + 1 ≤ busy` for the number `c` of tickets not settled: their holders are in a call,
and so is the attempt that draws. -/
lemma draw (h : GateCrowd count revoke fast limit busy stage others) (hi : stage i = .loaded r)
    (hfast : fast ≤ limit) (hbusy : ∀ c, Census Stage.Holds stage c → c + 1 ≤ busy) :
    GateCrowd (count + 1) revoke fast limit busy
      (Function.update stage i (.drawn r (count + 1))) others := by
  obtain ⟨c, hc, hcount⟩ := h.tally
  have hloaded := h.loaded i r hi
  have hle := hbusy c hc
  refine h.move le_rfl ⟨c + 1, hc.enter (by simp [hi, Stage.Holds]) trivial, by omega⟩ (by simp) ?_
  rintro r' d hd
  cases hd
  omega

lemma settle (h : GateCrowd count revoke fast limit busy stage others) {s : Stage}
    (hi : (stage i).Holds) (hs : s.Holds) (hdrawn : ∀ r d, s ≠ .drawn r d) :
    GateCrowd count revoke fast limit busy (Function.update stage i s) others := by
  obtain ⟨c, hc, hcount⟩ := h.tally
  refine h.move le_rfl ⟨c, hc.same (by simp [hi, hs]), hcount⟩ ?_ ?_
  · rintro r rfl
    exact absurd hs (by simp [Stage.Holds])
  · exact fun r d hd => absurd hd (hdrawn r d)

lemma giveUp (h : GateCrowd count revoke fast limit (busy + 1) stage others)
    (hi : stage i = .refused d) :
    GateCrowd count (revoke + 1) fast limit busy (Function.update stage i .out) others := by
  obtain ⟨c, hc, hcount⟩ := h.tally
  obtain ⟨c, rfl, hc'⟩ := hc.leave (b := .out) (i := i) (by simp [hi, Stage.Holds])
    (by simp [Stage.Holds])
  exact h.move (by omega) ⟨c, hc', by omega⟩ (by simp) (by simp)

lemma take (h : GateCrowd count revoke fast limit busy stage others) (hi : stage i = .admitted) :
    GateCrowd count revoke (fast + 1) limit busy (Function.update stage i .working) others := by
  obtain ⟨c, hc, hcount⟩ := h.tally
  obtain ⟨c, rfl, hc'⟩ := hc.leave (b := .working) (i := i) (by simp [hi, Stage.Holds])
    (by simp [Stage.Holds])
  exact h.move le_rfl ⟨c, hc', by omega⟩ (by simp) (by simp)

lemma stay (h : GateCrowd count revoke fast limit busy stage others) (hi : stage i = .working) :
    GateCrowd count revoke fast limit busy (Function.update stage i .working) others := by
  rw [← hi, Function.update_eq_self]
  exact h

lemma finish (h : GateCrowd count revoke fast limit (busy + 1) stage others)
    (hi : stage i = .working) :
    GateCrowd count revoke fast limit busy (Function.update stage i .out) others := by
  obtain ⟨c, hc, hcount⟩ := h.tally
  refine h.move (by omega) ⟨c, hc.same (by simp [hi, Stage.Holds]), hcount⟩ (by simp) (by simp)

end GateCrowd

end CoplusLean.Lib
