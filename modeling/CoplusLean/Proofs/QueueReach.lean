import CoplusLean.Proofs.QueueTokens

/-!
# Which local queues producers can still get

A local queue is within reach while a handle uses it or its token waits in the free list. Only
two calls give a token back for good: the destructor, and a `push_hard` that goes on to a new
queue. The free list refuses the token when it is full, and then nobody gets the queue any more.
-/

namespace CoplusLean

open Lib FastQueue

/-! ## Reach in the abstract -/

/-- A handle has the name, or it is free. -/
def InReach (held : Nat → Option Nat) (free : List Int) (p : Nat) : Prop :=
  (∃ k, held k = some p) ∨ (p : Int) ∈ free

/-- The name is within reach without handle `k`. -/
def InReachBut (held : Nat → Option Nat) (free : List Int) (k p : Nat) : Prop :=
  (∃ j, j ≠ k ∧ held j = some p) ∨ (p : Int) ∈ free

section InReach

variable {held : Nat → Option Nat} {free free' : List Int} {k p : Nat}

lemma inReach_update (held : Nat → Option Nat) (free : List Int) (k : Nat) (new : Option Nat)
    (p : Nat) :
    InReach (Function.update held k new) free p ↔ new = some p ∨ InReachBut held free k p := by
  unfold InReach InReachBut
  constructor
  · rintro (⟨j, hj⟩ | hfree)
    · by_cases hjk : j = k
      · subst hjk
        rw [Function.update_self] at hj
        exact .inl hj
      · rw [Function.update_of_ne hjk] at hj
        exact .inr (.inl ⟨j, hjk, hj⟩)
    · exact .inr (.inr hfree)
  · rintro (hnew | ⟨j, hjk, hj⟩ | hfree)
    · exact .inl ⟨k, by rw [Function.update_self, hnew]⟩
    · exact .inl ⟨j, by rw [Function.update_of_ne hjk, hj]⟩
    · exact .inr hfree

lemma inReach_iff (held : Nat → Option Nat) (free : List Int) (k p : Nat) :
    InReach held free p ↔ held k = some p ∨ InReachBut held free k p := by
  have hupdate := inReach_update held free k (held k) p
  rwa [Function.update_eq_self] at hupdate

lemma inReachBut_append {q : Nat} :
    InReachBut held (free ++ [(q : Int)]) k p ↔ p = q ∨ InReachBut held free k p := by
  unfold InReachBut
  rw [List.mem_append, List.mem_singleton, Nat.cast_inj, ← or_assoc, or_comm]

lemma inReachBut_perm (hperm : free'.Perm free) :
    InReachBut held free' k p ↔ InReachBut held free k p := by
  unfold InReachBut
  rw [hperm.mem_iff]

end InReach

namespace QueueWorld

variable {α : Type*}

/-- Some live handle uses the local queue, or its token waits in the free list. -/
def Available (w : QueueWorld α) (p : Nat) : Prop := InReach w.held w.queue.freeTokens p

/-- Every local queue that was made is available to producers. -/
def AllAvailable (w : QueueWorld α) : Prop := ∀ p < w.queue.tokenBound, w.Available p

/-- The call takes handle `k` away from its local queue `p`: the destructor, or a `push_hard` that
goes on from a full queue to a new one. -/
def Leaves (w : QueueWorld α) (k p : Nat) : QueueCall α → Prop
  | .destroy j => j = k ∧ w.held k = some p
  | .pushHard j _ =>
    j = k ∧ w.held k = some p ∧ w.queue.Full p ∧ w.queue.created < kQueueMaxCount
  | _ => False

/-- The token that the call gives back finds room in the free list, or need not. -/
def KeepsTokens (w : QueueWorld α) (call : QueueCall α) : Prop :=
  ∀ k p, w.Leaves k p call →
    w.queue.freeList.size < kFreeListSize ∨ InReachBut w.held w.queue.freeTokens k p

section steps

variable [Inhabited α] {q : FastQueue α} {held : Nat → Option Nat} {h : ProducerHandle}

omit [Inhabited α] in
/-- What is within reach after the token of handle `k` was given back. -/
lemma inReachBut_giveBack (hq : q.Sound) (held : Nat → Option Nat) (k p c : Nat) :
    InReachBut held (q.giveBack p).freeTokens k c ↔
      InReachBut held q.freeTokens k c ∨ c = p ∧ q.freeList.size < kFreeListSize := by
  have hsize := SlowQueue.size_eq_length hq.free
  have hlength : q.freeTokens.length = q.freeList.contents.length := rfl
  rcases giveBack_cases hq p with ⟨hfull, hsame⟩ | ⟨hroom, hperm⟩
  · rw [freeTokens, FastQueue.giveBack, hsame, or_iff_left]
    · rfl
    · rintro ⟨-, hlt⟩
      omega
  · rw [inReachBut_perm hperm, inReachBut_append, or_comm]
    exact or_congr_right (and_iff_left (by omega)).symm

/-- A handle without a queue that looks for one leaves everything within reach. -/
lemma inReach_acquired {s : FastQueue α × ProducerHandle} (hq : q.Sound) (hlocal : h.local_ = none)
    (hs : Acquired q h s) {k : Nat} (hk : held k = none) {c : Nat} (hc : c < s.1.tokenBound) :
    InReach (Function.update held k s.2.local_) s.1.freeTokens c ↔
      InReach held q.freeTokens c ∨ q.tokenBound ≤ c := by
  rw [inReach_update, inReach_iff held q.freeTokens k, hk]
  cases hs with
  | reused q' t rest hfree hrest hlist hheap hflag hsound =>
    have hbound : q'.tokenBound = q.tokenBound := by
      rw [tokenBound, tokenBound, created, created, hlist]
    have hnonneg : 0 ≤ t := (hq.tokens t (by rw [hfree]; exact List.mem_cons_self)).1
    simp only [hrest, hfree, InReachBut, List.mem_cons, Option.some.injEq, reduceCtorEq, false_or]
    simp only at hc
    have htok : t.toNat = c ↔ (c : Int) = t := by omega
    rw [htok, or_iff_left (show ¬q.tokenBound ≤ c by omega)]
    exact or_left_comm
  | created hfree hroom hsound =>
    have hcreated := (createQueue_of_room hq hroom).2.2
    have hbound : q.tokenBound = q.created := Nat.min_eq_left hroom.le
    have hbound' : (q.extended q.createFailed).tokenBound = q.created + 1 := by
      rw [tokenBound, hcreated]
      exact Nat.min_eq_left hroom
    have hsame : (q.extended q.createFailed).freeTokens = q.freeTokens := rfl
    simp only at hc
    simp only [hsame, Option.some.injEq, reduceCtorEq, false_or]
    have hnew : q.created = c ↔ q.tokenBound ≤ c := by omega
    rw [hnew, or_comm]
  | failed q' hfree hfull hcreated hlist hstored hflag hsound =>
    have hbound : q.tokenBound = kQueueMaxCount := Nat.min_eq_right hfull
    have hbound' : q'.tokenBound = kQueueMaxCount := Nat.min_eq_right (by omega)
    have hsame : q'.freeTokens = q.freeTokens := by rw [freeTokens, freeTokens, hlist]
    simp only at hc
    simp only [hlocal, hsame, reduceCtorEq, false_or]
    rw [or_iff_left (show ¬q.tokenBound ≤ c by omega)]

/-- A handle that has just found a full queue has left room in the free list. -/
lemma room_of_acquired {s : FastQueue α × ProducerHandle} (hq : q.Sound) (hs : Acquired q h s)
    (hlocal : h.local_ = none) {p : Nat} (hp : s.2.local_ = some p) (hfull : s.1.Full p) :
    s.1.freeList.size < kFreeListSize := by
  cases hs with
  | reused q' t rest hfree hrest hlist hheap hflag hsound =>
    have hlength := SlowQueue.length_contents_le hq.free
    have hsize := SlowQueue.size_eq_length hsound.free
    rw [hq.free_max] at hlength
    simp only [freeTokens] at hfree hrest
    rw [hfree, List.length_cons] at hlength
    rw [hrest] at hsize
    simp only
    omega
  | created hfree hroom hsound =>
    obtain rfl : q.created = p := by simpa using hp
    exact absurd hfull (not_full_extended hq _)
  | failed q' hfree hfull' hcreated hlist hstored hflag hsound => simp [hlocal] at hp

/-- The rest of `push_hard` leaves everything within reach but a token that it gives back in vain
when it goes on to a new queue. -/
lemma inReach_pushedHard {x : α} {result : Bool × FastQueue α × ProducerHandle} (hq : q.Sound)
    (hh : q.ValidHandle h) (hres : PushedHard x (q, h) result) {k : Nat} (hk : held k = h.local_)
    {c : Nat} (hc : c < result.2.1.tokenBound) :
    InReach (Function.update held k result.2.2.local_) result.2.1.freeTokens c ↔
      (InReach held q.freeTokens c ∨ q.tokenBound ≤ c) ∧
        (h.local_ = some c ∧ q.Full c ∧ q.created < kQueueMaxCount →
          q.freeList.size < kFreeListSize ∨ InReachBut held q.freeTokens k c) := by
  rw [inReach_update, inReach_iff held q.freeTokens k, hk]
  cases hres with
  | noQueue hlocal =>
    simp only at hlocal hc
    simp only [hlocal, reduceCtorEq, false_or, false_and, false_imp_iff, and_true]
    rw [or_iff_left (show ¬q.tokenBound ≤ c by omega)]
  | first p q' hlocal hroom hsound hsame hstored =>
    have hfree : q'.freeTokens = q.freeTokens := by rw [freeTokens, freeTokens, hsame.free]
    have hbound : q'.tokenBound = q.tokenBound := by
      rw [tokenBound, tokenBound, created, created, hsame.list]
    simp only at hlocal hroom hc
    simp only [hfree, hlocal, Option.some.injEq]
    rw [or_iff_left (show ¬q.tokenBound ≤ c by omega), iff_self_and]
    rintro - ⟨rfl, hfull, -⟩
    exact absurd hfull hroom
  | moved p q' hlocal hfull hlimit hsound hcreated hfree hflag hstored =>
    simp only at hlocal hfull hlimit hcreated hfree hc ⊢
    obtain ⟨htok, hlt⟩ := hh p hlocal
    have hbound : q.tokenBound = q.created := Nat.min_eq_left hlimit.le
    have hbound' : q'.tokenBound = q.created + 1 := by
      rw [tokenBound, hcreated]
      exact Nat.min_eq_left hlimit
    have hgiven : q'.freeTokens = (q.giveBack p).freeTokens := by
      rw [freeTokens, hfree, htok]
      rfl
    have hnew : q.created = c ↔ q.tokenBound ≤ c := by omega
    rw [hgiven, inReachBut_giveBack hq, hlocal, Option.some.injEq, Option.some.injEq, hnew,
      eq_comm (a := p)]
    -- the queue left behind is not the new one
    by_cases hcp : c = p
    · subst hcp
      simp only [hfull, hlimit, true_and, true_or, and_self, true_imp_iff]
      rw [or_iff_right (show ¬q.tokenBound ≤ c by omega), or_comm]
    · simp only [hcp, false_and, false_or, or_false, false_imp_iff, and_true]
      exact or_comm
  | stuck p q' hlocal hfull hlimit hsound hcreated hfree hflag hstored =>
    simp only at hlocal hfull hlimit hcreated hfree hc ⊢
    obtain ⟨htok, hlt⟩ := hh p hlocal
    have hbound : q.tokenBound = kQueueMaxCount := Nat.min_eq_right hlimit
    have hbound' : q'.tokenBound = kQueueMaxCount := Nat.min_eq_right (by omega)
    have hgiven : q'.freeTokens = (q.giveBack p).freeTokens := by
      rw [freeTokens, hfree, htok]
      rfl
    rw [hgiven, inReachBut_giveBack hq, hlocal, Option.some.injEq,
      or_iff_left (show ¬q.tokenBound ≤ c by omega)]
    simp only [not_lt.2 hlimit, and_false, false_imp_iff, and_true]
    constructor
    · rintro (hp | hbut | ⟨rfl, -⟩)
      · exact .inl hp
      · exact .inr hbut
      · exact .inl rfl
    · exact Or.imp_right .inl

/-- Every call leaves every local queue within reach that was so before, but one whose token it gives
back in vain; what was made by the call is within reach. -/
lemma available_iff {w w' : QueueWorld α} {call : QueueCall α} (hw : w.Steady)
    (hcount : w.EndInRange call) (hstep : w.step call = some w') {c : Nat}
    (hc : c < w'.queue.tokenBound) :
    w'.Available c ↔ (w.Available c ∨ w.queue.tokenBound ≤ c) ∧
      ∀ k, w.Leaves k c call →
        w.queue.freeList.size < kFreeListSize ∨ InReachBut w.held w.queue.freeTokens k c := by
  -- calls that move no token
  have hsame : ∀ q pushed popped, SameTokens w.queue q → c < q.tokenBound →
      (Available ⟨q, w.handles, pushed, popped⟩ c ↔
        w.Available c ∨ w.queue.tokenBound ≤ c) := by
    intro q pushed popped hsame hlt
    rw [tokenBound, created, hsame.list] at hlt
    have hfree : q.freeTokens = w.queue.freeTokens := by rw [freeTokens, freeTokens, hsame.free]
    rw [or_iff_left (show ¬w.queue.tokenBound ≤ c from not_le.2 hlt), Available, Available, hfree]
    rfl
  cases effect_of_step hw hcount hstep with
  | create k s hk hacquired =>
    have hnone : w.held k = none := by simp [QueueWorld.held, hk]
    simp only [Leaves, false_imp_iff, implies_true, and_true]
    rw [Available, held_update]
    exact inReach_acquired hw.sound rfl hacquired hnone hc
  | destroy k h hk =>
    have hheld := Owned.held_eq hk
    have hleaves : ∀ j, w.Leaves j c (.destroy k) ↔ j = k ∧ h.local_ = some c := by
      intro j
      constructor
      · rintro ⟨rfl, hp⟩
        exact ⟨rfl, hheld.symm.trans hp⟩
      · rintro ⟨rfl, hp⟩
        exact ⟨rfl, hheld.trans hp⟩
    have hlt : ¬w.queue.tokenBound ≤ c := by
      unfold deleteHandle at hc
      split at hc <;> exact not_le.2 hc
    simp only [hleaves, and_imp, forall_eq]
    rw [or_iff_left hlt, Available, held_update, Available, inReach_update,
      inReach_iff w.held _ k, hheld]
    simp only [Option.bind_none, reduceCtorEq, false_or]
    cases hl : h.local_ with
    | none => simp [deleteHandle, hl]
    | some p =>
      obtain ⟨htok, -⟩ := hw.valid k h hk p hl
      simp only [deleteHandle, hl, htok, Option.some.injEq]
      rw [inReachBut_giveBack hw.sound]
      by_cases hcp : p = c
      · subst hcp
        simp only [true_and, true_or, true_imp_iff]
        exact or_comm
      · simp only [hcp, Ne.symm hcp, false_and, false_or, or_false, false_imp_iff, and_true]
  | push k h x done hk hdone =>
    simp only [Leaves, false_imp_iff, implies_true, and_true]
    exact hsame _ _ _ hdone.kept.2 hc
  | pushHard k h x s done hk hstart hdone =>
    have hheld := Owned.held_eq hk
    have hleaves : ∀ j, w.Leaves j c (.pushHard k x) ↔
        j = k ∧ h.local_ = some c ∧ w.queue.Full c ∧ w.queue.created < kQueueMaxCount := by
      intro j
      constructor
      · rintro ⟨rfl, hp, hrest⟩
        exact ⟨rfl, hheld.symm.trans hp, hrest⟩
      · rintro ⟨rfl, hp, hrest⟩
        exact ⟨rfl, hheld.trans hp, hrest⟩
    simp only [hleaves, and_imp, forall_eq]
    rw [Available, held_update]
    cases hstart with
    | held p hlocal =>
      have hrest := inReach_pushedHard hw.sound (hw.valid k h hk) hdone hheld hc
      rw [and_imp, and_imp] at hrest
      exact hrest
    | acquired s hlocal hacquired =>
      have hnone : w.held k = none := hheld.trans hlocal
      have hvalid := Started.valid hw.sound (hw.valid k h hk) (.acquired s hlocal hacquired)
      have hsound := Started.sound hw.sound (.acquired s hlocal hacquired)
      have hle := tokenBound_mono (Started.created_ge hw.sound (.acquired s hlocal hacquired))
      have hlocal' : Function.update w.held k s.2.local_ k = s.2.local_ := Function.update_self ..
      have hrest := inReach_pushedHard hsound hvalid hdone hlocal' hc
      rw [Function.update_idem, and_iff_left fun h => .inl (room_of_acquired hw.sound hacquired
        hlocal h.1 h.2.1)] at hrest
      simp only [hlocal, reduceCtorEq, false_imp_iff, and_true]
      refine hrest.trans ?_
      by_cases hlt : c < s.1.tokenBound
      · rw [or_iff_left (not_le.2 hlt)]
        exact inReach_acquired hw.sound hlocal hacquired hnone hlt
      · exact iff_of_true (.inr (not_lt.1 hlt)) (.inr (hle.trans (not_lt.1 hlt)))
  | pop index fuel r q hprobed =>
    simp only [Leaves, false_imp_iff, implies_true, and_true]
    exact hsame _ _ _ hprobed.same hc
  | popHard middle r q hprobed =>
    simp only [Leaves, false_imp_iff, implies_true, and_true]
    exact hsame _ _ _ hprobed.same hc
  | elementCount =>
    simp only [Leaves, false_imp_iff, implies_true, and_true]
    exact hsame _ _ _ (.refl _) hc

omit [Inhabited α] in
lemma Leaves.lt {w : QueueWorld α} (hw : w.Steady) {call : QueueCall α} {k p : Nat}
    (h : w.Leaves k p call) : p < w.queue.tokenBound := by
  have hlt : ∀ j, w.held j = some p → p < w.queue.tokenBound := by
    intro j hj
    obtain ⟨a, ha, hp⟩ := Option.bind_eq_some_iff.1 hj
    exact (hw.valid j a ha p hp).2
  cases call with
  | destroy j => exact hlt _ h.2
  | pushHard j x => exact hlt _ h.2.1
  | _ => exact h.elim

/-- A call leaves everything available exactly where it drops no token. -/
lemma allAvailable_iff {w w' : QueueWorld α} {call : QueueCall α} (hw : w.Steady)
    (hcount : w.EndInRange call) (hstep : w.step call = some w') :
    w'.AllAvailable ↔ w.AllAvailable ∧ w.KeepsTokens call := by
  have hmono := tokenBound_mono ((effect_of_step hw hcount hstep).created_ge hw)
  constructor
  · intro hall
    refine ⟨fun p hp => ?_, fun k p hleaves => ?_⟩
    · have hstill := (available_iff hw hcount hstep (hp.trans_le hmono)).1 (hall p (hp.trans_le hmono))
      exact hstill.1.resolve_right (not_le.2 hp)
    · have hp := (hleaves.lt hw).trans_le hmono
      exact ((available_iff hw hcount hstep hp).1 (hall p hp)).2 k hleaves
  · rintro ⟨hall, hkeeps⟩ p hp
    refine (available_iff hw hcount hstep hp).2 ⟨?_, fun k hleaves => hkeeps k p hleaves⟩
    by_cases hlt : p < w.queue.tokenBound
    · exact .inl (hall p hlt)
    · exact .inr (not_lt.1 hlt)

/-- After a run every local queue is available exactly where no call of the run dropped a token. -/
theorem allAvailable_iff_along {calls : List (QueueCall α)} {w : QueueWorld α}
    (hrun : exec step init calls = some w) (hok : Along step EndInRange init calls) :
    w.AllAvailable ↔ Along step KeepsTokens (init : QueueWorld α) calls := by
  have hinit : (init : QueueWorld α).AllAvailable := fun p hp => by
    simp [init, tokenBound, created, FastQueue.new, PushOnlyFastStack.new] at hp
  have hhistory : w.AllAvailable ↔ (init : QueueWorld α).AllAvailable ∧
      Along step KeepsTokens (init : QueueWorld α) calls :=
    exec_iff_along (fun _ _ _ hw hcount hstep =>
      ⟨Steady.step hw hcount hstep, allAvailable_iff hw hcount hstep⟩) steady_init hok hrun
  rw [hhistory]
  exact and_iff_right hinit

end steps

end QueueWorld

end CoplusLean
