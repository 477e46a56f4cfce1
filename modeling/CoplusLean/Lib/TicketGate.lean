import CoplusLean.Lib.Census
import Mathlib.Data.Finset.Interval
import Mathlib.Order.Interval.Finset.Nat

/-!
# A gate of tickets that may be revoked

Every attempt first reads how many tickets were revoked, then draws the next ticket and is
admitted when the ticket less that number stays within a limit; else its ticket is revoked.
An admitted attempt takes a place number and later completes. The limit may only grow, and
any number of attempts may stand between any two of these steps.

The number of admitted attempts never exceeds the limit. The reason lies with the admitted
ticket that is largest: the tickets that were revoked when its attempt read the number are
all smaller than it, so they are missing among the admitted ones.
-/

namespace CoplusLean.Lib

/-- Where an attempt stands. -/
inductive Stage where
  | out
  | loaded (revoke : Nat)
  | drawn (revoke ticket : Nat)
  | refused (ticket : Nat)
  | admitted
  | working
deriving DecidableEq, Repr

/-- The ticket that is neither admitted nor revoked yet. -/
def Stage.ticket : Stage → Option Nat
  | .drawn _ d => some d
  | .refused d => some d
  | _ => none

variable {ι : Type*} [DecidableEq ι]

/-- What became of the tickets `1 .. count`. -/
structure GateLog (count limit : Nat) (stage : ι → Stage) (revoked admitted : Finset Nat) :
    Prop where
  revoked_le : ∀ d ∈ revoked, 0 < d ∧ d ≤ count
  admitted_le : ∀ d ∈ admitted, 0 < d ∧ d ≤ count
  disjoint : Disjoint revoked admitted
  loaded : ∀ i r, stage i = .loaded r → r ≤ revoked.card
  drawn : ∀ i r d, stage i = .drawn r d → r ≤ (revoked.filter (· < d)).card
  held : ∀ i d, (stage i).ticket = some d →
    0 < d ∧ d ≤ count ∧ d ∉ revoked ∧ d ∉ admitted
  held_inj : ∀ i j d, (stage i).ticket = some d → (stage j).ticket = some d → i = j
  largest : ∃ d r, (∀ e ∈ admitted, e ≤ d) ∧ r ≤ (revoked.filter (· < d)).card ∧ d ≤ r + limit

/-- `fast` counts the places taken and `slow` the attempts completed. -/
def TicketGate (count revoke fast slow limit : Nat) (stage : ι → Stage) : Prop :=
  ∃ revoked admitted : Finset Nat, GateLog count limit stage revoked admitted ∧
    revoked.card = revoke ∧
    ∃ waiting busy, Census (· = .admitted) stage waiting ∧ Census (· = .working) stage busy ∧
      admitted.card = fast + waiting ∧ fast = slow + busy

variable {count revoke fast slow limit : Nat} {stage : ι → Stage} {revoked admitted : Finset Nat}
  {i : ι} {r d : Nat}

omit [DecidableEq ι] in
lemma GateLog.card_le (h : GateLog count limit stage revoked admitted) :
    admitted.card ≤ limit := by
  obtain ⟨d, r, hmax, hr, hd⟩ := h.largest
  have hsub : admitted ∪ revoked.filter (· < d) ⊆ Finset.Icc 1 d := by
    intro e he
    rw [Finset.mem_union, Finset.mem_filter] at he
    rw [Finset.mem_Icc]
    rcases he with he | ⟨he, hlt⟩
    · exact ⟨(h.admitted_le e he).1, hmax e he⟩
    · exact ⟨(h.revoked_le e he).1, by omega⟩
  have hdisj : Disjoint admitted (revoked.filter (· < d)) :=
    (Finset.disjoint_of_subset_left (Finset.filter_subset _ _) h.disjoint).symm
  have hcard := Finset.card_le_card hsub
  rw [Finset.card_union_of_disjoint hdisj, Nat.card_Icc] at hcard
  omega

omit [DecidableEq ι] in
lemma TicketGate.slow_le (h : TicketGate count revoke fast slow limit stage) : slow ≤ fast := by
  obtain ⟨_, _, _, _, _, _, _, _, _, hbusy⟩ := h
  omega

omit [DecidableEq ι] in
/-- While no attempt is at work, the places taken are those of the attempts completed. -/
lemma TicketGate.slow_eq (h : TicketGate count revoke fast slow limit stage)
    (hout : ∀ i, stage i ≠ .working) : slow = fast := by
  obtain ⟨_, _, _, _, _, busy, _, hbusy, _, hfast⟩ := h
  rcases Nat.eq_zero_or_pos busy with rfl | hpos
  · exact hfast.symm
  · obtain ⟨i, hi⟩ := hbusy.exists_of_pos hpos
    exact absurd hi (hout i)

omit [DecidableEq ι] in
lemma TicketGate.fast_le (h : TicketGate count revoke fast slow limit stage) : fast ≤ limit := by
  obtain ⟨_, _, hlog, _, _, _, _, _, hwaiting, _⟩ := h
  have := hlog.card_le
  omega

lemma TicketGate.fast_lt (h : TicketGate count revoke fast slow limit stage)
    (hi : stage i = .admitted) : fast < limit := by
  obtain ⟨_, _, hlog, _, _, _, hw, _, hwaiting, _⟩ := h
  obtain ⟨waiting, hpos, -⟩ := hw.leave (b := .out) hi (by simp)
  have := hlog.card_le
  omega

omit [DecidableEq ι] in
lemma ticketGate_init : TicketGate 0 0 0 0 limit (fun _ : ι => Stage.out) := by
  refine ⟨∅, ∅, ?_, rfl, 0, 0, census_const (by simp), census_const (by simp), rfl, rfl⟩
  exact
    { revoked_le := by simp
      admitted_le := by simp
      disjoint := Finset.disjoint_empty_left _
      loaded := by simp
      drawn := by simp
      held := by simp [Stage.ticket]
      held_inj := by simp [Stage.ticket]
      largest := ⟨0, 0, by simp, Nat.zero_le _, Nat.zero_le _⟩ }

omit [DecidableEq ι] in
lemma TicketGate.raise (h : TicketGate count revoke fast slow limit stage) {limit' : Nat}
    (hle : limit ≤ limit') : TicketGate count revoke fast slow limit' stage := by
  obtain ⟨revoked, admitted, hlog, hrest⟩ := h
  refine ⟨revoked, admitted, { hlog with largest := ?_ }, hrest⟩
  obtain ⟨d, r, hmax, hr, hd⟩ := hlog.largest
  exact ⟨d, r, hmax, hr, by omega⟩

lemma TicketGate.stay (h : TicketGate count revoke fast slow limit stage) {s : Stage}
    (hi : stage i = s) :
    TicketGate count revoke fast slow limit (Function.update stage i s) := by
  rwa [← hi, Function.update_eq_self]

/-- A change of stage that neither touches tickets nor the tables leaves the log valid. -/
lemma GateLog.retire (h : GateLog count limit stage revoked admitted) {s : Stage}
    (hticket : ∀ d, s.ticket = some d → (stage i).ticket = some d)
    (hloaded : ∀ r, s = .loaded r → r ≤ revoked.card)
    (hdrawn : ∀ r d, s ≠ .drawn r d) :
    GateLog count limit (Function.update stage i s) revoked admitted where
  revoked_le := h.revoked_le
  admitted_le := h.admitted_le
  disjoint := h.disjoint
  largest := h.largest
  loaded := by
    intro j r hj
    by_cases hji : j = i
    · subst hji
      exact hloaded r (by simpa using hj)
    · exact h.loaded j r (by simpa [hji] using hj)
  drawn := by
    intro j r d hj
    by_cases hji : j = i
    · subst hji
      exact absurd (by simpa using hj) (hdrawn r d)
    · exact h.drawn j r d (by simpa [hji] using hj)
  held := by
    intro j d hj
    by_cases hji : j = i
    · subst hji
      exact h.held j d (hticket d (by simpa using hj))
    · exact h.held j d (by simpa [hji] using hj)
  held_inj := by
    have hold : ∀ j d, (Function.update stage i s j).ticket = some d →
        (stage j).ticket = some d := by
      intro j d hj
      by_cases hji : j = i
      · subst hji
        exact hticket d (by simpa using hj)
      · simpa [hji] using hj
    intro j k d hj hk
    exact h.held_inj j k d (hold j d hj) (hold k d hk)

lemma TicketGate.load (h : TicketGate count revoke fast slow limit stage) (hi : stage i = .out) :
    TicketGate count revoke fast slow limit (Function.update stage i (.loaded revoke)) := by
  obtain ⟨revoked, admitted, hlog, hrevoke, waiting, busy, hw, hb, hcounts⟩ := h
  refine ⟨revoked, admitted, ?_, hrevoke, waiting, busy, hw.same (by simp [hi]),
    hb.same (by simp [hi]), hcounts⟩
  apply hlog.retire
  · simp [Stage.ticket]
  · intro r hr
    cases hr
    exact hrevoke.ge
  · simp

lemma TicketGate.draw (h : TicketGate count revoke fast slow limit stage)
    (hi : stage i = .loaded r) :
    TicketGate (count + 1) revoke fast slow limit
      (Function.update stage i (.drawn r (count + 1))) := by
  obtain ⟨revoked, admitted, hlog, hrevoke, waiting, busy, hw, hb, hcounts⟩ := h
  refine ⟨revoked, admitted, ?_, hrevoke, waiting, busy, hw.same (by simp [hi]),
    hb.same (by simp [hi]), hcounts⟩
  have hnew : count + 1 ∉ revoked ∧ count + 1 ∉ admitted := by
    constructor
    · intro hmem
      have := (hlog.revoked_le _ hmem).2
      omega
    · intro hmem
      have := (hlog.admitted_le _ hmem).2
      omega
  have hother : ∀ j d, j ≠ i → (Function.update stage i (.drawn r (count + 1)) j).ticket = some d →
      0 < d ∧ d ≤ count ∧ d ∉ revoked ∧ d ∉ admitted := by
    intro j d hji hj
    exact hlog.held j d (by simpa [hji] using hj)
  constructor
  · intro d hd
    have := hlog.revoked_le d hd
    omega
  · intro d hd
    have := hlog.admitted_le d hd
    omega
  · exact hlog.disjoint
  · intro j r' hj
    by_cases hji : j = i
    · subst hji
      simp at hj
    · exact hlog.loaded j r' (by simpa [hji] using hj)
  · intro j r' d hj
    by_cases hji : j = i
    · subst hji
      simp only [Function.update_self, Stage.drawn.injEq] at hj
      obtain ⟨rfl, rfl⟩ := hj
      -- every ticket revoked so far is smaller than the new one
      rw [Finset.filter_true_of_mem]
      · exact hlog.loaded j r hi
      · intro e he
        have := (hlog.revoked_le e he).2
        omega
    · exact hlog.drawn j r' d (by simpa [hji] using hj)
  · intro j d hj
    by_cases hji : j = i
    · subst hji
      simp only [Function.update_self, Stage.ticket, Option.some.injEq] at hj
      subst hj
      exact ⟨by omega, by omega, hnew⟩
    · have := hother j d hji hj
      exact ⟨this.1, by omega, this.2.2⟩
  · intro j k d hj hk
    by_cases hji : j = i
    · subst hji
      simp only [Function.update_self, Stage.ticket, Option.some.injEq] at hj
      subst hj
      by_contra hne
      have := hother k _ (Ne.symm hne) hk
      omega
    · by_cases hki : k = i
      · subst hki
        simp only [Function.update_self, Stage.ticket, Option.some.injEq] at hk
        subst hk
        have := hother j _ hji hj
        omega
      · exact hlog.held_inj j k d (by simpa [hji] using hj) (by simpa [hki] using hk)
  · exact hlog.largest

lemma TicketGate.refuse (h : TicketGate count revoke fast slow limit stage)
    (hi : stage i = .drawn r d) :
    TicketGate count revoke fast slow limit (Function.update stage i (.refused d)) := by
  obtain ⟨revoked, admitted, hlog, hrevoke, waiting, busy, hw, hb, hcounts⟩ := h
  refine ⟨revoked, admitted, ?_, hrevoke, waiting, busy, hw.same (by simp [hi]),
    hb.same (by simp [hi]), hcounts⟩
  apply hlog.retire <;> simp [hi, Stage.ticket]

lemma TicketGate.admit (h : TicketGate count revoke fast slow limit stage)
    (hi : stage i = .drawn r d) (hle : d ≤ r + limit) :
    TicketGate count revoke fast slow limit (Function.update stage i .admitted) := by
  obtain ⟨revoked, admitted, hlog, hrevoke, waiting, busy, hw, hb, hadmitted, hfast⟩ := h
  obtain ⟨hpos, hcount, hnr, hna⟩ := hlog.held i d (by rw [hi, Stage.ticket])
  refine ⟨revoked, insert d admitted, ?_, hrevoke, waiting + 1, busy,
    hw.enter (by simp [hi]) rfl, hb.same (by simp [hi]), ?_, hfast⟩
  · have hlog' : GateLog count limit (Function.update stage i .admitted) revoked admitted := by
      apply hlog.retire <;> simp [Stage.ticket]
    refine { hlog' with admitted_le := ?_, disjoint := ?_, held := ?_, largest := ?_ }
    · intro e he
      rcases Finset.mem_insert.mp he with rfl | he
      · exact ⟨hpos, hcount⟩
      · exact hlog.admitted_le e he
    · exact Finset.disjoint_insert_right.mpr ⟨hnr, hlog.disjoint⟩
    · intro j e hj
      by_cases hji : j = i
      · subst hji
        simp [Stage.ticket] at hj
      · obtain ⟨h0, h1, h2, h3⟩ := hlog'.held j e hj
        refine ⟨h0, h1, h2, ?_⟩
        rw [Finset.mem_insert]
        rintro (rfl | he)
        · exact hji (hlog.held_inj j i e (by simpa [hji] using hj) (by rw [hi, Stage.ticket]))
        · exact h3 he
    · -- the new ticket takes over as the largest one, or the old one keeps its place
      obtain ⟨d0, r0, hmax, hr0, hd0⟩ := hlog.largest
      by_cases hlt : d0 < d
      · refine ⟨d, r, ?_, hlog.drawn i r d hi, hle⟩
        intro e he
        rcases Finset.mem_insert.mp he with rfl | he
        · exact Nat.le_refl _
        · exact (hmax e he).trans hlt.le
      · refine ⟨d0, r0, ?_, hr0, hd0⟩
        intro e he
        rcases Finset.mem_insert.mp he with rfl | he
        · omega
        · exact hmax e he
  · rw [Finset.card_insert_of_notMem hna]
    omega

lemma TicketGate.giveUp (h : TicketGate count revoke fast slow limit stage)
    (hi : stage i = .refused d) :
    TicketGate count (revoke + 1) fast slow limit (Function.update stage i .out) := by
  obtain ⟨revoked, admitted, hlog, hrevoke, waiting, busy, hw, hb, hcounts⟩ := h
  obtain ⟨hpos, hcount, hnr, hna⟩ := hlog.held i d (by rw [hi, Stage.ticket])
  refine ⟨insert d revoked, admitted, ?_, ?_, waiting, busy, hw.same (by simp [hi]),
    hb.same (by simp [hi]), hcounts⟩
  · have hlog' : GateLog count limit (Function.update stage i .out) revoked admitted := by
      apply hlog.retire <;> simp [Stage.ticket]
    have hgrow : ∀ e, (revoked.filter (· < e)).card ≤ ((insert d revoked).filter (· < e)).card :=
      fun e => Finset.card_le_card (Finset.filter_subset_filter _ (Finset.subset_insert _ _))
    refine { hlog' with revoked_le := ?_, disjoint := ?_, held := ?_, largest := ?_,
                        loaded := ?_, drawn := ?_ }
    · intro e he
      rcases Finset.mem_insert.mp he with rfl | he
      · exact ⟨hpos, hcount⟩
      · exact hlog.revoked_le e he
    · exact Finset.disjoint_insert_left.mpr ⟨hna, hlog.disjoint⟩
    · intro j s hj
      exact (hlog'.loaded j s hj).trans (Finset.card_le_card (Finset.subset_insert _ _))
    · intro j s e hj
      exact (hlog'.drawn j s e hj).trans (hgrow e)
    · intro j e hj
      by_cases hji : j = i
      · subst hji
        simp [Stage.ticket] at hj
      · obtain ⟨h0, h1, h2, h3⟩ := hlog'.held j e hj
        refine ⟨h0, h1, ?_, h3⟩
        rw [Finset.mem_insert]
        rintro (rfl | he)
        · exact hji (hlog.held_inj j i e (by simpa [hji] using hj) (by rw [hi, Stage.ticket]))
        · exact h2 he
    · obtain ⟨d0, r0, hmax, hr0, hd0⟩ := hlog.largest
      exact ⟨d0, r0, hmax, hr0.trans (hgrow d0), hd0⟩
  · rw [Finset.card_insert_of_notMem hnr, hrevoke]

lemma TicketGate.take (h : TicketGate count revoke fast slow limit stage)
    (hi : stage i = .admitted) :
    TicketGate count revoke (fast + 1) slow limit (Function.update stage i .working) := by
  obtain ⟨revoked, admitted, hlog, hrevoke, waiting, busy, hw, hb, hadmitted, hfast⟩ := h
  obtain ⟨waiting, rfl, hw'⟩ := hw.leave (b := .working) hi (by simp)
  refine ⟨revoked, admitted, ?_, hrevoke, waiting, busy + 1, hw', hb.enter (by simp [hi]) rfl,
    by omega, by omega⟩
  apply hlog.retire <;> simp [Stage.ticket]

lemma TicketGate.finish (h : TicketGate count revoke fast slow limit stage)
    (hi : stage i = .working) :
    TicketGate count revoke fast (slow + 1) limit (Function.update stage i .out) := by
  obtain ⟨revoked, admitted, hlog, hrevoke, waiting, busy, hw, hb, hadmitted, hfast⟩ := h
  obtain ⟨busy, rfl, hb'⟩ := hb.leave (b := .out) hi (by simp)
  refine ⟨revoked, admitted, ?_, hrevoke, waiting, busy, hw.same (by simp [hi]), hb',
    by omega, by omega⟩
  apply hlog.retire <;> simp [Stage.ticket]

/-! ## Places

The places `0 .. fast - 1` that were taken: each is held by one attempt or done with. -/

structure PlaceLedger (fast : Nat) (held : ι → Option Nat) (done : List Nat) : Prop where
  held_lt : ∀ i k, held i = some k → k < fast
  held_inj : ∀ i j k, held i = some k → held j = some k → i = j
  done_lt : ∀ k ∈ done, k < fast
  nodup : done.Nodup
  not_done : ∀ i k, held i = some k → k ∉ done
  covered : ∀ k < fast, k ∈ done ∨ ∃ i, held i = some k

variable {held : ι → Option Nat} {done : List Nat} {k : Nat}

omit [DecidableEq ι] in
lemma placeLedger_init : PlaceLedger 0 (fun _ : ι => none) [] := by
  constructor <;> simp

lemma PlaceLedger.stay (h : PlaceLedger fast held done) {o : Option Nat} (hi : held i = o) :
    PlaceLedger fast (Function.update held i o) done := by
  rwa [← hi, Function.update_eq_self]

lemma PlaceLedger.take (h : PlaceLedger fast held done) (hi : held i = none) :
    PlaceLedger (fast + 1) (Function.update held i (some fast)) done := by
  have hcases : ∀ j k, Function.update held i (some fast) j = some k →
      (j = i ∧ k = fast) ∨ (j ≠ i ∧ held j = some k) := by
    intro j k hj
    by_cases hji : j = i
    · subst hji
      rw [Function.update_self, Option.some.injEq] at hj
      exact Or.inl ⟨rfl, hj.symm⟩
    · rw [Function.update_of_ne hji] at hj
      exact Or.inr ⟨hji, hj⟩
  constructor
  · intro j k hj
    rcases hcases j k hj with ⟨-, rfl⟩ | ⟨-, hold⟩
    · exact Nat.lt_succ_self _
    · exact Nat.lt_succ_of_lt (h.held_lt j k hold)
  · intro j l k hj hl
    rcases hcases j k hj with ⟨rfl, rfl⟩ | ⟨-, hj'⟩
    · rcases hcases l _ hl with ⟨rfl, -⟩ | ⟨-, hl'⟩
      · rfl
      · exact absurd (h.held_lt l _ hl') (Nat.lt_irrefl _)
    · rcases hcases l k hl with ⟨-, rfl⟩ | ⟨-, hl'⟩
      · exact absurd (h.held_lt j _ hj') (Nat.lt_irrefl _)
      · exact h.held_inj j l k hj' hl'
  · intro k hk
    exact Nat.lt_succ_of_lt (h.done_lt k hk)
  · exact h.nodup
  · intro j k hj hk
    rcases hcases j k hj with ⟨-, rfl⟩ | ⟨-, hold⟩
    · exact absurd (h.done_lt _ hk) (Nat.lt_irrefl _)
    · exact h.not_done j k hold hk
  · intro k hk
    by_cases heq : k = fast
    · subst heq
      exact Or.inr ⟨i, Function.update_self ..⟩
    · rcases h.covered k (by omega) with hd | ⟨j, hj⟩
      · exact Or.inl hd
      · refine Or.inr ⟨j, ?_⟩
        rw [Function.update_of_ne (by rintro rfl; simp [hi] at hj), hj]

lemma PlaceLedger.finish (h : PlaceLedger fast held done) (hi : held i = some k) :
    PlaceLedger fast (Function.update held i none) (done ++ [k]) := by
  have hcases : ∀ j l, Function.update held i none j = some l → j ≠ i ∧ held j = some l := by
    intro j l hj
    by_cases hji : j = i
    · subst hji
      simp at hj
    · rw [Function.update_of_ne hji] at hj
      exact ⟨hji, hj⟩
  constructor
  · intro j l hj
    exact h.held_lt j l (hcases j l hj).2
  · intro j m l hj hm
    exact h.held_inj j m l (hcases j l hj).2 (hcases m l hm).2
  · intro l hl
    rcases List.mem_append.mp hl with hl | hl
    · exact h.done_lt l hl
    · rw [List.mem_singleton.mp hl]
      exact h.held_lt i k hi
  · rw [List.nodup_append]
    refine ⟨h.nodup, List.nodup_singleton k, ?_⟩
    rintro a ha b hb rfl
    rw [List.mem_singleton.mp hb] at ha
    exact h.not_done i k hi ha
  · intro j l hj hl
    obtain ⟨hji, hj⟩ := hcases j l hj
    rcases List.mem_append.mp hl with hl | hl
    · exact h.not_done j l hj hl
    · rw [List.mem_singleton.mp hl] at hj
      exact hji (h.held_inj j i k hj hi)
  · intro l hl
    rcases h.covered l hl with hd | ⟨j, hj⟩
    · exact Or.inl (List.mem_append_left _ hd)
    · by_cases hji : j = i
      · subst hji
        rw [hi, Option.some.injEq] at hj
        subst hj
        exact Or.inl (List.mem_append_right _ (List.mem_singleton_self _))
      · exact Or.inr ⟨j, by rw [Function.update_of_ne hji, hj]⟩

omit [DecidableEq ι] in
/-- While no attempt holds a place, all places taken are done with. -/
lemma PlaceLedger.perm_range (h : PlaceLedger fast held done) (hfree : ∀ i, held i = none) :
    done.Perm (List.range fast) := by
  refine (List.perm_ext_iff_of_nodup h.nodup List.nodup_range).mpr fun k => ?_
  rw [List.mem_range]
  refine ⟨h.done_lt k, fun hk => ?_⟩
  rcases h.covered k hk with hdone | ⟨i, hi⟩
  · exact hdone
  · simp [hfree] at hi

end CoplusLean.Lib
