import CoplusLean.Proofs.QueueSteps

/-!
# No value is lost or duplicated by a `FastQueue`

As long as `create_queue` never fails, the values popped and the values still stored are
together the values whose push returned true, `pop_hard` finds a value wherever its random
scan starts, and `element_count` counts what is stored.
-/

namespace CoplusLean

open Lib

/-! ## Lists of lists -/

section Flatten

variable {α : Type*}

lemma flatten_set_concat {l : List (List α)} {p : Nat} (hp : p < l.length) (x : α) :
    (l.set p (l.getD p [] ++ [x])).flatten.Perm (l.flatten ++ [x]) := by
  have hl : l.take p ++ l.getD p [] :: l.drop (p + 1) = l := by
    rw [List.getD_eq_getElem?_getD, List.getElem?_eq_getElem hp, Option.getD_some,
      ← List.drop_eq_getElem_cons hp, List.take_append_drop]
  have hflat : l.flatten = (l.take p).flatten ++ (l.getD p [] ++ (l.drop (p + 1)).flatten) := by
    conv_lhs => rw [← hl]
    simp only [List.flatten_append, List.flatten_cons]
  rw [List.set_eq_take_append_cons_drop, if_pos hp, List.flatten_append, List.flatten_cons, hflat]
  simp only [List.append_assoc]
  exact (List.Perm.append_left _ (List.Perm.append_left _ List.perm_append_comm))

lemma flatten_set_tail {l : List (List α)} {i : Nat} {x : α} {rest : List α}
    (h : l[i]? = some (x :: rest)) : l.flatten.Perm (x :: (l.set i rest).flatten) := by
  obtain ⟨hi, hget⟩ := List.getElem?_eq_some_iff.mp h
  have hl : l.take i ++ (x :: rest) :: l.drop (i + 1) = l := by
    rw [← hget, ← List.drop_eq_getElem_cons hi, List.take_append_drop]
  rw [List.set_eq_take_append_cons_drop, if_pos hi]
  conv_lhs => rw [← hl]
  simp only [List.flatten_append, List.flatten_cons, List.cons_append]
  exact List.perm_middle

end Flatten

namespace FastQueue

variable {α : Type*}

/-- A sound queue none of whose `create_queue` calls has failed. -/
structure Complete (q : FastQueue α) : Prop where
  sound : q.Sound
  created_le : q.created ≤ kQueueMaxCount

lemma Complete.size_eq {q : FastQueue α} (hq : q.Complete) : q.queueList.size = q.created := by
  have := hq.created_le
  unfold kQueueMaxCount at this
  exact int32_of_lt (by omega) (by unfold created at this; omega)

lemma Complete.tokenBound_eq {q : FastQueue α} (hq : q.Complete) : q.tokenBound = q.created :=
  Nat.min_eq_left hq.created_le

lemma Complete.length_stored {q : FastQueue α} (hq : q.Complete) :
    q.stored.length = q.created := by
  rw [FastQueue.length_stored, hq.sound.length_heap]

lemma Complete.of_probed {q q' : FastQueue α} (hq : q.Complete) {r : Option α}
    (h : Probed q r q') : q'.Complete :=
  ⟨h.sound, by rw [created, h.same.list]; exact hq.created_le⟩

lemma Probed.created_eq {q q' : FastQueue α} {r : Option α} (h : Probed q r q') :
    q'.created = q.created := by rw [created, created, h.same.list]

/-! ## The scan of `pop_hard` is exhaustive -/

lemma popDown_complete [Inhabited α] (i : Nat) : ∀ q : FastQueue α, q.Complete → i < q.created →
    ∃ r q', popDown q i = some (r, q') ∧ Probed q r q' ∧
      (r = none → ∀ j ≤ i, q.stored.getD j [] = []) := by
  induction i with
  | zero =>
    intro q hq hi
    obtain ⟨q₁, hprobe, hprobed⟩ := probe_of_valid hq.sound (by rw [hq.tokenBound_eq]; exact hi)
    rcases hxs : q.stored.getD 0 [] with _ | ⟨x, rest⟩
    · rw [hxs, List.head?_nil] at hprobe hprobed
      refine ⟨none, q₁, by simp [popDown, probeOr, hprobe], hprobed, fun _ j hj => ?_⟩
      rw [Nat.le_zero.mp hj, hxs]
    · rw [hxs, List.head?_cons] at hprobe hprobed
      exact ⟨some x, q₁, by simp [popDown, probeOr, hprobe], hprobed, by simp⟩
  | succ i ih =>
    intro q hq hi
    obtain ⟨q₁, hprobe, hprobed⟩ := probe_of_valid hq.sound (by rw [hq.tokenBound_eq]; exact hi)
    rcases hxs : q.stored.getD (i + 1) [] with _ | ⟨x, rest⟩
    · rw [hxs, List.head?_nil] at hprobe hprobed
      obtain ⟨r, q', hdown, hrest, hnone⟩ :=
        ih q₁ (hq.of_probed hprobed) (by rw [hprobed.created_eq]; omega)
      refine ⟨r, q', by simp [popDown, probeOr, hprobe, hdown], hprobed.trans hrest,
        fun hr j hj => ?_⟩
      rcases Nat.lt_or_ge i j with h | h
      · rw [show j = i + 1 by omega, hxs]
      · rw [← show q₁.stored = q.stored from hprobed.took]
        exact hnone hr j h
    · rw [hxs, List.head?_cons] at hprobe hprobed
      exact ⟨some x, q₁, by simp [popDown, probeOr, hprobe], hprobed, by simp⟩

lemma popUp_complete [Inhabited α] (fuel : Nat) : ∀ (q : FastQueue α) (i : Nat), q.Complete →
    q.created ≤ i + fuel →
    ∃ r q', popUp q fuel i q.created = some (r, q') ∧ Probed q r q' ∧
      (r = none → ∀ j, i ≤ j → j < q.created → q.stored.getD j [] = []) := by
  induction fuel with
  | zero =>
    intro q i hq hfuel
    exact ⟨none, q, rfl, .nothing hq.sound, fun _ j hj hlt => by omega⟩
  | succ fuel ih =>
    intro q i hq hfuel
    by_cases hi : i < q.created
    · have hlt : (i : Int) < q.created := by exact_mod_cast hi
      obtain ⟨q₁, hprobe, hprobed⟩ := probe_of_valid hq.sound (by rw [hq.tokenBound_eq]; exact hi)
      rcases hxs : q.stored.getD i [] with _ | ⟨x, rest⟩
      · rw [hxs, List.head?_nil] at hprobe hprobed
        have hq₁ := hq.of_probed hprobed
        obtain ⟨r, q', hup, hrest, hnone⟩ := ih q₁ (i + 1) hq₁ (by rw [hprobed.created_eq]; omega)
        rw [hprobed.created_eq] at hup hnone
        refine ⟨r, q', ?_, hprobed.trans hrest, fun hr j hj hlt => ?_⟩
        · simp only [popUp, hlt, if_true, hprobe, hq₁.size_eq, hprobed.created_eq, ite_self, hup]
        · rcases Nat.lt_or_ge i j with h | h
          · rw [← show q₁.stored = q.stored from hprobed.took]
            exact hnone hr j h hlt
          · rw [show j = i by omega, hxs]
      · rw [hxs, List.head?_cons] at hprobe hprobed
        exact ⟨some x, q₁, by simp only [popUp, hlt, if_true, hprobe], hprobed, by simp⟩
    · have hge : ¬(i : Int) < q.created := by exact_mod_cast hi
      exact ⟨none, q, by simp only [popUp, hge, if_false], .nothing hq.sound,
        fun _ j hj hlt => by omega⟩

lemma probe_of_none [Inhabited α] {q : FastQueue α} (hq : q.Complete) (h : q.created = 0) :
    q.probe 0 = some none := by
  have hlist := hq.sound.list
  rw [hq.tokenBound_eq, h] at hlist
  have hget : q.queueList.get ((0 : Nat) : Int) = .fail := by
    have hsize : ¬sizeT ((0 : Nat) : Int) > q.queueList.maxSize := by
      rw [hq.sound.list_max]
      decide
    have htable := PushOnlyFastStack.div_lt_table hlist (t := 0) (by
      rw [hq.sound.list_max]; decide)
    rw [Nat.zero_div] at htable
    simp only [PushOnlyFastStack.get, if_neg hsize, Int.toNat_natCast, Nat.zero_div,
      hlist.absent 0 htable (by simp)]
  simp only [probe, hget]

/-- `pop_hard` always returns, and returns false only when every local queue is empty. -/
theorem popHard_complete [Inhabited α] {q : FastQueue α} (hq : q.Complete) {middle : Nat}
    (hm : QueueWorld.UIntOutcome q.queueList.size middle) :
    ∃ r q', q.popHard middle = some (r, q') ∧ Probed q r q' ∧ (r = none ↔ q.stored.flatten = []) := by
  obtain ⟨r, q', hpop, hprobed, hnone⟩ : ∃ r q', q.popHard middle = some (r, q') ∧
      Probed q r q' ∧ (r = none → ∀ j < q.created, q.stored.getD j [] = []) := by
    rw [QueueWorld.UIntOutcome, hq.size_eq] at hm
    rcases hm with hm | ⟨h0, rfl⟩
    · obtain ⟨r₁, q₁, hdown, hprobed₁, hnone₁⟩ := popDown_complete middle q hq (by omega)
      rcases r₁ with _ | x
      · have hq₁ := hq.of_probed hprobed₁
        have heq := hprobed₁.created_eq
        obtain ⟨r, q', hup, hprobed, hnone⟩ :=
          popUp_complete q.created q₁ (middle + 1) hq₁ (by omega)
        rw [heq] at hup hnone
        refine ⟨r, q', ?_, hprobed₁.trans hprobed, fun hr j hj => ?_⟩
        · simp only [popHard, hdown, hq.size_eq, Int.toNat_natCast, hup]
        · rcases Nat.lt_or_ge middle j with h | h
          · rw [← show q₁.stored = q.stored from hprobed₁.took]
            exact hnone hr j h hj
          · exact hnone₁ rfl j h
      · exact ⟨some x, q₁, by simp only [popHard, hdown], hprobed₁, by simp⟩
    · have hzero : q.created = 0 := by omega
      refine ⟨none, q, ?_, .nothing hq.sound, fun _ j hj => by omega⟩
      have hdown : popDown q 0 = some (none, q) := by
        simp only [popDown, probeOr, probe_of_none hq hzero]
      simp only [popHard, hdown, hq.size_eq, hzero]
      rfl
  refine ⟨r, q', hpop, hprobed, fun hr => ?_, fun hnil => ?_⟩
  · rw [List.flatten_eq_nil_iff]
    intro xs hxs
    obtain ⟨j, hj, rfl⟩ := List.getElem_of_mem hxs
    have := hnone hr j (by rw [← hq.length_stored]; exact hj)
    rwa [List.getD_eq_getElem?_getD, List.getElem?_eq_getElem hj, Option.getD_some] at this
  · rcases r with _ | x
    · rfl
    · obtain ⟨i, rest, hget, -⟩ := hprobed.took
      have := flatten_set_tail hget
      rw [hnil] at this
      simp at this

/-! ## Counting -/

lemma countFrom_complete [Inhabited α] {q : FastQueue α} (hq : q.Complete) (fuel : Nat) :
    ∀ i total, i + fuel = q.created →
      countFrom q fuel i q.created total = some (total + (q.stored.drop i).flatten.length) := by
  induction fuel with
  | zero =>
    intro i total hi
    rw [List.drop_eq_nil_of_le (by rw [hq.length_stored]; omega)]
    rfl
  | succ fuel ih =>
    intro i total hi
    have hlt : (i : Int) < q.created := by omega
    have hget : q.queueList.get (i : Int) = .found (some i) :=
      PushOnlyFastStack.get_of_lt hq.sound.list (by rw [hq.sound.list_max]; decide) (by
        rw [hq.tokenBound_eq]
        simp [List.getElem?_range (show i < q.created by omega)])
    have hp : i < q.heap.length := by rw [hq.sound.length_heap]; omega
    have hdrop : q.stored.drop i = q.stored.getD i [] :: q.stored.drop (i + 1) := by
      have hlen : i < q.stored.length := by rw [FastQueue.length_stored]; exact hp
      rw [List.drop_eq_getElem_cons hlen, List.getD_eq_getElem?_getD,
        List.getElem?_eq_getElem hlen, Option.getD_some]
    simp only [countFrom, hlt, if_true, hget, hq.size_eq, ite_self]
    rw [ih (i + 1) _ (by omega), hdrop, List.flatten_cons, List.length_append, stored_getD q hp,
      FastLocalQueue.size_eq_length FastLocalQueue.slotSize_kLocalQueueSize (quiet_getD hq.sound i),
      Nat.add_assoc]

theorem elementCount_complete [Inhabited α] {q : FastQueue α} (hq : q.Complete) :
    q.elementCount = some q.stored.flatten.length := by
  rw [elementCount, hq.size_eq, Int.toNat_natCast, countFrom_complete hq q.created 0 0 (by omega)]
  simp

end FastQueue

/-! ## The runs -/

namespace QueueWorld

open FastQueue

variable {α : Type*}

/-- The call does not make `create_queue` fail. -/
def CreateOk [Inhabited α] (w : QueueWorld α) (call : QueueCall α) : Prop :=
  ∀ w' ∈ w.step call, w'.queue.createFailed = false

/-- Every live handle has a queue, and every value is accounted for. -/
structure Conserved (w : QueueWorld α) : Prop where
  complete : w.queue.Complete
  handles : ∀ k h, w.handles k = some h → ∃ p : Nat, h = ⟨p, some p⟩ ∧ p < w.queue.created
  perm : (w.popped ++ w.queue.stored.flatten).Perm w.pushed

lemma conserved_init : (init : QueueWorld α).Conserved where
  complete := ⟨sound_new, Nat.zero_le _⟩
  handles k h hk := by simp [init] at hk
  perm := by simp [init, FastQueue.new, stored]

lemma Conserved.validHandle {w : QueueWorld α} (hw : w.Conserved) {k : Nat} {h : ProducerHandle}
    (hk : w.handles k = some h) : w.queue.ValidHandle h := by
  obtain ⟨p, rfl, hp⟩ := hw.handles k h hk
  intro p' hp'
  obtain rfl : p = p' := by simpa using hp'
  exact ⟨rfl, by rw [hw.complete.tokenBound_eq]; exact hp⟩

/-- A call that changes one handle and stores nothing. -/
lemma Conserved.of_handle {w : QueueWorld α} (hw : w.Conserved) {q : FastQueue α}
    (hq : q.Complete) (k : Nat) {h : Option ProducerHandle} (hle : w.queue.created ≤ q.created)
    (hh : ∀ a, h = some a → ∃ p : Nat, a = ⟨p, some p⟩ ∧ p < q.created) {pushed popped : List α}
    (hperm : (popped ++ q.stored.flatten).Perm pushed) :
    Conserved ⟨q, Function.update w.handles k h, pushed, popped⟩ := by
  refine ⟨hq, fun j a hj => ?_, hperm⟩
  by_cases hjk : j = k
  · subst hjk
    exact hh a (by simpa using hj)
  · obtain ⟨p, rfl, hp⟩ := hw.handles j a (by simpa [hjk] using hj)
    exact ⟨p, rfl, hp.trans_le hle⟩

lemma Conserved.acquired [Inhabited α] {w : QueueWorld α} (hw : w.Conserved) (k : Nat)
    {s : FastQueue α × ProducerHandle} {h : ProducerHandle} (hs : Acquired w.queue h s)
    (hflag : s.1.createFailed = false) :
    Conserved ⟨s.1, Function.update w.handles k (some s.2), w.pushed, w.popped⟩ := by
  cases hs with
  | reused q' t rest hfree hrest hlist hheap hflag' hsound =>
    have hcreated : q'.created = w.queue.created := by rw [created, created, hlist]
    obtain ⟨h0, h1⟩ := hw.complete.sound.tokens t (by rw [hfree]; exact List.mem_cons_self)
    rw [hw.complete.tokenBound_eq] at h1
    refine hw.of_handle ⟨hsound, by rw [hcreated]; exact hw.complete.created_le⟩ k hcreated.ge ?_ ?_
    · rintro a ⟨⟩
      exact ⟨t.toNat, by rw [Int.toNat_of_nonneg h0], by omega⟩
    · rw [show q'.stored = w.queue.stored by rw [stored, stored, hheap]]
      exact hw.perm
  | created hfree hroom hsound =>
    have hcreated := (createQueue_of_room hw.complete.sound hroom).2.2
    refine hw.of_handle ⟨hsound, by rw [hcreated]; exact hroom⟩ k (by omega) ?_ ?_
    · rintro a ⟨⟩
      exact ⟨w.queue.created, rfl, by omega⟩
    · rw [stored_extended, List.flatten_append]
      simpa using hw.perm
  | failed q' hfree hfull hcreated hlist hstored hflag' hsound =>
    rw [hflag'] at hflag
    cases hflag

/-- One value goes to the end of the local queue at `p`. -/
lemma Conserved.stored_at {w : QueueWorld α} (hw : w.Conserved) {q : FastQueue α} {p : Nat} {x : α}
    (hp : p < w.queue.created) (hq : q.Sound) (hsame : SameTokens w.queue q)
    (hstored : q.stored = w.queue.stored.set p (w.queue.stored.getD p [] ++ [x])) :
    Conserved ⟨q, w.handles, w.pushed ++ [x], w.popped⟩ := by
  have hcreated : q.created = w.queue.created := by rw [created, created, hsame.list]
  refine ⟨⟨hq, by rw [hcreated]; exact hw.complete.created_le⟩, ?_, ?_⟩
  · rw [hcreated]
    exact hw.handles
  · have hflat := flatten_set_concat (l := w.queue.stored) (p := p)
      (by rw [hw.complete.length_stored]; exact hp) x
    rw [hstored]
    refine (hflat.append_left w.popped).trans ?_
    rw [← List.append_assoc]
    exact hw.perm.append_right [x]

lemma Conserved.pushedHard [Inhabited α] {w : QueueWorld α} (hw : w.Conserved) {k : Nat} {p : Nat}
    (hk : w.handles k = some ⟨p, some p⟩) {x : α} {result : Bool × FastQueue α × ProducerHandle}
    (hres : PushedHard x (w.queue, ⟨p, some p⟩) result) (hflag : result.2.1.createFailed = false) :
    Conserved ⟨result.2.1, Function.update w.handles k (some result.2.2),
      w.afterPush result.1 x, w.popped⟩ := by
  cases hres with
  | noQueue hlocal => simp at hlocal
  | first p' q' hlocal hroom hsound hsame hstored =>
    obtain rfl : p = p' := by simpa using hlocal
    have hlt := (hw.validHandle hk p rfl).2
    rw [hw.complete.tokenBound_eq] at hlt
    have hupdate : Function.update w.handles k (some ⟨(p : Int), some p⟩) = w.handles := by
      rw [← hk, Function.update_eq_self]
    simp only [hupdate, afterPush, if_true]
    exact hw.stored_at hlt hsound hsame hstored
  | moved p' q' hlocal hfull hlimit hsound hcreated hfree hflag' hstored =>
    refine hw.of_handle ⟨hsound, by simp only at hcreated hlimit; omega⟩ k
      (by simp only at hcreated; omega) ?_ ?_
    · rintro a ⟨⟩
      exact ⟨w.queue.created, rfl, by simp only at hcreated; omega⟩
    · rw [hstored, afterPush, if_pos rfl, List.flatten_append, ← List.append_assoc]
      simpa using hw.perm.append_right [x]
  | stuck p' q' hlocal hfull hlimit hsound hcreated hfree hflag' hstored =>
    rw [hflag'] at hflag
    cases hflag

lemma Conserved.pushed [Inhabited α] {w : QueueWorld α} (hw : w.Conserved) {h : ProducerHandle}
    {x : α} {done : Bool × FastQueue α} (hdone : Pushed x w.queue h done) :
    Conserved ⟨done.2, w.handles, w.afterPush done.1 x, w.popped⟩ := by
  cases hdone with
  | refused q' hfull hsound hsame hstored =>
    have hcreated : q'.created = w.queue.created := by rw [created, created, hsame.list]
    refine ⟨⟨hsound, by rw [hcreated]; exact hw.complete.created_le⟩, ?_, ?_⟩
    · rw [hcreated]
      exact hw.handles
    · simpa [afterPush, hstored] using hw.perm
  | accepted p q' hlocal hp hroom hsound hsame hstored =>
    rw [hw.complete.sound.length_heap] at hp
    simp only [afterPush, if_true]
    exact hw.stored_at hp hsound hsame hstored

/-- A pop moves one value from the stored ones to the popped ones. -/
lemma Conserved.probed {w : QueueWorld α} (hw : w.Conserved) {q : FastQueue α} {r : Option α}
    (h : Probed w.queue r q) : Conserved ⟨q, w.handles, w.pushed, w.afterPop r⟩ := by
  refine ⟨hw.complete.of_probed h, ?_, ?_⟩
  · rw [h.created_eq]
    exact hw.handles
  · cases r with
    | none =>
      rw [show q.stored = w.queue.stored from h.took]
      simpa [afterPop] using hw.perm
    | some x =>
      obtain ⟨i, rest, hget, hstored⟩ := h.took
      have hflat := flatten_set_tail hget
      rw [hstored, afterPop, Option.toList_some, List.append_assoc]
      exact (hflat.symm.append_left w.popped).trans hw.perm

lemma Conserved.steady {w : QueueWorld α} (hw : w.Conserved) : w.Steady :=
  ⟨hw.complete.sound, fun _ _ hk => hw.validHandle hk⟩

theorem Conserved.step [Inhabited α] {w w' : QueueWorld α} (hw : w.Conserved)
    {call : QueueCall α} (hok : CreateOk w call) (hstep : w.step call = some w') :
    w'.Conserved := by
  have hflag := hok w' hstep
  have hcount : w.EndInRange call := by
    have := hw.complete.created_le
    unfold kQueueMaxCount at this
    unfold EndInRange
    omega
  cases effect_of_step hw.steady hcount hstep with
  | create k s hk hacquired => exact hw.acquired k hacquired hflag
  | destroy k h hk =>
    obtain ⟨p, rfl, hp⟩ := hw.handles k h hk
    have hvalid : w.queue.ValidToken p := by
      rw [ValidToken, hw.complete.tokenBound_eq]
      exact ⟨by omega, by exact_mod_cast hp⟩
    exact hw.of_handle ⟨sound_giveBack hw.complete.sound hvalid, hw.complete.created_le⟩ k
      (Nat.le_refl _) (by simp) hw.perm
  | push k h x done hk hdone => exact hw.pushed hdone
  | pushHard k h x s done hk hstart hdone =>
    obtain ⟨p, rfl, hp⟩ := hw.handles k h hk
    cases hstart with
    | held p' hlocal => exact hw.pushedHard hk hdone hflag
    | acquired s hlocal hacquired => simp at hlocal
  | pop index fuel r q hprobed => exact hw.probed hprobed
  | popHard middle r q hprobed => exact hw.probed hprobed
  | elementCount => exact hw

/-- In every run during which `create_queue` never fails, popped and stored values are
together the values whose push returned true, `pop_hard` returns false exactly when nothing
is stored, wherever its scan starts, and `element_count` is the number of stored values. -/
theorem fastQueue_conserves [Inhabited α] (calls : List (QueueCall α)) (w : QueueWorld α)
    (hrun : exec step init calls = some w) (hok : Along step CreateOk init calls) :
    (w.popped ++ w.queue.stored.flatten).Perm w.pushed ∧
      (∀ middle, UIntOutcome w.queue.queueList.size middle →
        ∃ r q, w.queue.popHard middle = some (r, q) ∧ (r = none ↔ w.queue.stored.flatten = [])) ∧
      w.queue.elementCount = some w.queue.stored.flatten.length := by
  have hw : w.Conserved :=
    exec_invariant (fun _ _ _ hw hc hs => hw.step hc hs) conserved_init hok hrun
  refine ⟨hw.perm, fun middle hm => ?_, elementCount_complete hw.complete⟩
  obtain ⟨r, q, hpop, -, hnone⟩ := popHard_complete hw.complete hm
  exact ⟨r, q, hpop, hnone⟩

instance [Inhabited α] (w : QueueWorld α) (call : QueueCall α) : Decidable (CreateOk w call) :=
  inferInstanceAs (Decidable (∀ w' ∈ _, _ = _))

/-- Forty values pushed through one handle, which thereby uses two local queues, and two
pops from different starting points. -/
def drainCalls : List (QueueCall Nat) :=
  [.create 0, .create 1, .pushHard 1 50] ++ (List.range 40).map (.pushHard 0) ++
    [.popHard 2, .popHard 0, .destroy 0, .elementCount]

theorem fastQueue_conserves_drain :
    ∃ w, exec step init drainCalls = some w ∧ Along step CreateOk init drainCalls ∧
      (w.popped ++ w.queue.stored.flatten).Perm w.pushed := by
  have hok : Along step CreateOk init drainCalls := by decide +kernel
  have hsome : (exec step init drainCalls).isSome := by decide +kernel
  obtain ⟨w, hrun⟩ := Option.isSome_iff_exists.mp hsome
  exact ⟨w, hrun, hok, (fastQueue_conserves drainCalls w hrun hok).1⟩

end QueueWorld

end CoplusLean
