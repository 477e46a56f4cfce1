import CoplusLean.Lib.GateCrowd
import CoplusLean.Proofs.LocalQueueGates

/-!
# The hazard bound of `FastLocalQueue`

The comments of `push` and `pop` assume that the hazard is limited: fewer than `2 ^ 31` other
operations run during a single one, and the capacity leaves as much room in a `uint32_t`.
Here the operations that run during a call are counted, and the assumption about them gives
that the differences the tests compute are in range. The order of the inner counters follows
for any number of producers and consumers.
-/

namespace CoplusLean

open Lib

/-- The queue with the number of calls in progress and, for every call in progress, the
number of other calls that have run during it so far. -/
structure TimedWorld (α : Type*) where
  world : LocalWorld α
  busy : Nat
  others : Nat → Nat

namespace TimedWorld

variable {α : Type*} {n t : Nat} {w w' : TimedWorld α}

def init [Inhabited α] : TimedWorld α := ⟨.init, 0, fun _ => 0⟩

/-- A call of `thread` begins: those in progress run during it, and it runs during them. -/
def begin (w : TimedWorld α) (thread : Nat) (world : LocalWorld α) : TimedWorld α :=
  ⟨world, w.busy + 1, fun u => if u = thread then w.busy else w.others u + 1⟩

/-- A step inside a call of `thread`, the last one when the thread is idle after it. -/
def proceed (w : TimedWorld α) (thread : Nat) (world : LocalWorld α) : TimedWorld α :=
  match world.phase thread with
  | .idle => ⟨world, w.busy - 1, w.others⟩
  | _ => ⟨world, w.busy, w.others⟩

def step (queueSize : Nat) (w : TimedWorld α) : ThreadStep α → Option (TimedWorld α)
  | .push thread item => (w.world.step queueSize (.push thread item)).map (w.begin thread)
  | .pop thread => (w.world.step queueSize (.pop thread)).map (w.begin thread)
  | .advance thread => (w.world.step queueSize (.advance thread)).map (w.proceed thread)

/-- Fewer than `2 ^ 31` other operations have run during the call that makes a step. -/
def HazardLimited (w : TimedWorld α) : ThreadStep α → Prop
  | .advance t => w.others t < 2147483648
  | _ => True

instance (w : TimedWorld α) : DecidablePred w.HazardLimited
  | .advance _ => inferInstanceAs (Decidable (_ < _))
  | .push _ _ => isTrue trivial
  | .pop _ => isTrue trivial

structure Crowded (n : Nat) (w : TimedWorld α) : Prop where
  gated : w.world.Gated n
  busy : Census (· ≠ Phase.idle) w.world.phase w.busy
  enqueue : GateCrowd w.world.queue.enqueueCount w.world.queue.enqueueRevoke
    w.world.queue.tailFast (w.world.queue.head + n) w.busy (Phase.pushStage ∘ w.world.phase)
    w.others
  dequeue : GateCrowd w.world.queue.dequeueCount w.world.queue.dequeueRevoke
    w.world.queue.headFast w.world.queue.tail w.busy (Phase.popStage ∘ w.world.phase) w.others

lemma crowded_init [Inhabited α] : (init : TimedWorld α).Crowded n :=
  ⟨LocalWorld.gated_init, census_const (by simp), .init, .init⟩

/-- The differences at the tests are in range. -/
lemma Crowded.hazardless (hw : w.Crowded n) (hn : n < 2147483648) {a : ThreadStep α}
    (hok : w.HazardLimited a) : w.world.Hazardless a := by
  cases a with
  | push t item => trivial
  | pop t => trivial
  | advance t =>
    simp only [HazardLimited] at hok
    simp only [LocalWorld.Hazardless]
    cases hphase : w.world.phase t with
    | pushDrawn item r e =>
      have := hw.enqueue.drawn t r e (by simp [hphase, Phase.pushStage])
      simp only [LocalWorld.InRange]
      omega
    | popDrawn r d =>
      have := hw.dequeue.drawn t r d (by simp [hphase, Phase.popStage])
      simp only [LocalWorld.InRange]
      omega
    | _ => trivial

/-- The holders of unsettled tickets are in a call, and so is a thread that draws. -/
lemma Crowded.holders_lt (hw : w.Crowded n) (f : Phase α → Stage) (hidle : ¬(f .idle).Holds)
    (hbusy : w.world.phase t ≠ .idle) (ht : ¬(f (w.world.phase t)).Holds) {c : Nat}
    (hc : Census Stage.Holds (f ∘ w.world.phase) c) : c + 1 ≤ w.busy := by
  have hc' : Census (fun x => (f x).Holds) w.world.phase c := hc
  refine hc'.succ_le hw.busy ?_ hbusy ht
  rintro x hx rfl
  exact hidle hx

/-- A step of a push: the gate of `pop` only sees time pass. -/
lemma Crowded.of_push (hw : w.Crowded n) {x : Phase α} {q : FastLocalQueue α} {busy : Nat}
    {others : Nat → Nat} {pushed popped : List (Nat × α)}
    (hgated : LocalWorld.Gated n ⟨q, Function.update w.world.phase t x, pushed, popped⟩)
    (hbusy : Census (· ≠ Phase.idle) (Function.update w.world.phase t x) busy)
    (hothers : ∀ u, u ≠ t → w.others u ≤ others u ∧ busy + w.others u ≤ w.busy + others u)
    (hold : (w.world.phase t).popStage = .out) (hnew : x.popStage = .out)
    (hdeq : q.dequeueCount = w.world.queue.dequeueCount)
    (hrev : q.dequeueRevoke = w.world.queue.dequeueRevoke)
    (hfast : q.headFast = w.world.queue.headFast) (hhead : q.head = w.world.queue.head)
    (htail : w.world.queue.tail ≤ q.tail)
    (hgate : GateCrowd q.enqueueCount q.enqueueRevoke q.tailFast (w.world.queue.head + n) busy
      (Function.update (Phase.pushStage ∘ w.world.phase) t x.pushStage) others) :
    Crowded n ⟨⟨q, Function.update w.world.phase t x, pushed, popped⟩, busy, others⟩ := by
  refine ⟨hgated, hbusy, ?_, ?_⟩
  · rw [Function.comp_update]
    simpa only [hhead] using hgate
  · rw [LocalWorld.stage_same _ (hnew.trans hold.symm)]
    simp only [hdeq, hrev, hfast]
    refine hw.dequeue.age htail fun u hu => hothers u ?_
    rintro rfl
    exact hu hold

lemma Crowded.of_pop (hw : w.Crowded n) {x : Phase α} {q : FastLocalQueue α} {busy : Nat}
    {others : Nat → Nat} {pushed popped : List (Nat × α)}
    (hgated : LocalWorld.Gated n ⟨q, Function.update w.world.phase t x, pushed, popped⟩)
    (hbusy : Census (· ≠ Phase.idle) (Function.update w.world.phase t x) busy)
    (hothers : ∀ u, u ≠ t → w.others u ≤ others u ∧ busy + w.others u ≤ w.busy + others u)
    (hold : (w.world.phase t).pushStage = .out) (hnew : x.pushStage = .out)
    (henq : q.enqueueCount = w.world.queue.enqueueCount)
    (hrev : q.enqueueRevoke = w.world.queue.enqueueRevoke)
    (hfast : q.tailFast = w.world.queue.tailFast) (htail : q.tail = w.world.queue.tail)
    (hhead : w.world.queue.head ≤ q.head)
    (hgate : GateCrowd q.dequeueCount q.dequeueRevoke q.headFast w.world.queue.tail busy
      (Function.update (Phase.popStage ∘ w.world.phase) t x.popStage) others) :
    Crowded n ⟨⟨q, Function.update w.world.phase t x, pushed, popped⟩, busy, others⟩ := by
  refine ⟨hgated, hbusy, ?_, ?_⟩
  · rw [LocalWorld.stage_same _ (hnew.trans hold.symm)]
    simp only [henq, hrev, hfast]
    refine hw.enqueue.age (Nat.add_le_add_right hhead n) fun u hu => hothers u ?_
    rintro rfl
    exact hu hold
  · rw [Function.comp_update]
    simpa only [htail] using hgate

lemma Crowded.advance (hw : w.Crowded n) {v : LocalWorld α} (hgated : v.Gated n)
    (hstep : w.world.advance n t = some v) : (w.proceed t v).Crowded n := by
  have hpush : (Phase.pushStage ∘ w.world.phase) t = (w.world.phase t).pushStage := rfl
  have hpop : (Phase.popStage ∘ w.world.phase) t = (w.world.phase t).popStage := rfl
  have hsame : ∀ u, u ≠ t → w.others u ≤ w.others u ∧ w.busy + w.others u ≤ w.busy + w.others u :=
    fun u _ => ⟨le_rfl, le_rfl⟩
  -- where the call returns, the number of calls in progress goes down
  have hleave : w.world.phase t ≠ .idle → ∃ m, w.busy = m + 1 ∧
      Census (· ≠ Phase.idle) (Function.update w.world.phase t .idle) m ∧
      ∀ u, u ≠ t → w.others u ≤ w.others u ∧ m + w.others u ≤ w.busy + w.others u := by
    intro hne
    obtain ⟨m, hm, hbusy⟩ := hw.busy.leave (b := .idle) (i := t) hne (by simp)
    exact ⟨m, hm, hbusy, fun u _ => ⟨le_rfl, by omega⟩⟩
  have hstay : ∀ x : Phase α, w.world.phase t ≠ .idle → x ≠ .idle →
      Census (· ≠ Phase.idle) (Function.update w.world.phase t x) w.busy := by
    intro x hne hx
    exact hw.busy.same (by simp [hne, hx])
  cases hphase : w.world.phase t <;> rw [hphase] at hpush hpop hleave hstay <;>
    simp only [LocalWorld.advance, hphase, LocalWorld.move, reduceCtorEq, Option.some.injEq]
      at hstep
  case pushLoaded item r =>
    subst hstep
    simp only [proceed, Function.update_self]
    refine hw.of_push hgated (hstay _ (by simp) (by simp)) hsame (by simp [hphase, Phase.popStage])
      rfl rfl rfl rfl rfl le_rfl (hw.enqueue.draw hpush hw.gated.enqueue.fast_le ?_)
    intro c hc
    exact hw.holders_lt Phase.pushStage (t := t) (by simp [Phase.pushStage, Stage.Holds])
      (by simp [hphase]) (by simp [hphase, Phase.pushStage, Stage.Holds]) hc
  case pushDrawn item r e =>
    have hholds : ((Phase.pushStage ∘ w.world.phase) t).Holds := by rw [hpush]; trivial
    split at hstep
    all_goals
      cases hstep
      simp only [proceed, Function.update_self]
      apply hw.of_push hgated (hstay _ (by simp) (by simp)) hsame (by simp [hphase, Phase.popStage])
        rfl rfl rfl rfl rfl le_rfl
      exact hw.enqueue.settle hholds trivial (by simp [Phase.pushStage])
  case pushRefused e =>
    subst hstep
    obtain ⟨m, hm, hbusy, hothers⟩ := hleave (by simp)
    have hgate := hw.enqueue
    rw [hm] at hgate
    simp only [proceed, Function.update_self, hm, Nat.add_sub_cancel]
    exact hw.of_push hgated hbusy hothers (by simp [hphase, Phase.popStage]) rfl rfl rfl rfl rfl
      le_rfl (hgate.giveUp hpush)
  case pushAdmitted item e =>
    subst hstep
    simp only [proceed, Function.update_self]
    exact hw.of_push hgated (hstay _ (by simp) (by simp)) hsame (by simp [hphase, Phase.popStage])
      rfl rfl rfl rfl rfl le_rfl (hw.enqueue.take hpush)
  case pushTicket item k =>
    subst hstep
    simp only [proceed, Function.update_self]
    exact hw.of_push hgated (hstay _ (by simp) (by simp)) hsame (by simp [hphase, Phase.popStage])
      rfl rfl rfl rfl rfl le_rfl (hw.enqueue.stay hpush)
  case pushWritten item k =>
    subst hstep
    obtain ⟨m, hm, hbusy, hothers⟩ := hleave (by simp)
    have hgate := hw.enqueue
    rw [hm] at hgate
    simp only [proceed, Function.update_self, hm, Nat.add_sub_cancel]
    exact hw.of_push hgated hbusy hothers (by simp [hphase, Phase.popStage]) rfl rfl rfl rfl rfl
      (Nat.le_succ _) (hgate.finish hpush)
  case popLoaded r =>
    subst hstep
    simp only [proceed, Function.update_self]
    refine hw.of_pop hgated (hstay _ (by simp) (by simp)) hsame (by simp [hphase, Phase.pushStage])
      rfl rfl rfl rfl rfl le_rfl (hw.dequeue.draw hpop hw.gated.dequeue.fast_le ?_)
    intro c hc
    exact hw.holders_lt Phase.popStage (t := t) (by simp [Phase.popStage, Stage.Holds])
      (by simp [hphase]) (by simp [hphase, Phase.popStage, Stage.Holds]) hc
  case popDrawn r d =>
    have hholds : ((Phase.popStage ∘ w.world.phase) t).Holds := by rw [hpop]; trivial
    split at hstep
    all_goals
      cases hstep
      simp only [proceed, Function.update_self]
      apply hw.of_pop hgated (hstay _ (by simp) (by simp)) hsame (by simp [hphase, Phase.pushStage])
        rfl rfl rfl rfl rfl le_rfl
      exact hw.dequeue.settle hholds trivial (by simp [Phase.popStage])
  case popRefused d =>
    subst hstep
    obtain ⟨m, hm, hbusy, hothers⟩ := hleave (by simp)
    have hgate := hw.dequeue
    rw [hm] at hgate
    simp only [proceed, Function.update_self, hm, Nat.add_sub_cancel]
    exact hw.of_pop hgated hbusy hothers (by simp [hphase, Phase.pushStage]) rfl rfl rfl rfl rfl
      le_rfl (hgate.giveUp hpop)
  case popAdmitted d =>
    subst hstep
    simp only [proceed, Function.update_self]
    exact hw.of_pop hgated (hstay _ (by simp) (by simp)) hsame (by simp [hphase, Phase.pushStage])
      rfl rfl rfl rfl rfl le_rfl (hw.dequeue.take hpop)
  case popTicket k =>
    subst hstep
    simp only [proceed, Function.update_self]
    exact hw.of_pop hgated (hstay _ (by simp) (by simp)) hsame (by simp [hphase, Phase.pushStage])
      rfl rfl rfl rfl rfl le_rfl (hw.dequeue.stay hpop)
  case popRead k v =>
    subst hstep
    obtain ⟨m, hm, hbusy, hothers⟩ := hleave (by simp)
    have hgate := hw.dequeue
    rw [hm] at hgate
    simp only [proceed, Function.update_self, hm, Nat.add_sub_cancel]
    exact hw.of_pop hgated hbusy hothers (by simp [hphase, Phase.pushStage]) rfl rfl rfl rfl rfl
      (Nat.le_succ _) (hgate.finish hpop)

/-- A call begins: it runs during every call in progress. -/
lemma hothers_begin {v : LocalWorld α} (u : Nat) (hu : u ≠ t) :
    w.others u ≤ (w.begin t v).others u ∧
      w.busy + 1 + w.others u ≤ w.busy + (w.begin t v).others u := by
  simp only [begin, hu, if_false]
  omega

lemma Crowded.begin_push (hw : w.Crowded n) {item : α}
    (hidle : w.world.phase t = .idle)
    (hgated : (w.world.move t (.pushLoaded item w.world.queue.enqueueRevoke)
      w.world.queue).Gated n) :
    (w.begin t (w.world.move t (.pushLoaded item w.world.queue.enqueueRevoke)
      w.world.queue)).Crowded n := by
  have hout : (Phase.pushStage ∘ w.world.phase) t = .out := by simp [hidle, Phase.pushStage]
  have hothers := hothers_begin (w := w) (t := t)
    (v := w.world.move t (.pushLoaded item w.world.queue.enqueueRevoke) w.world.queue)
  apply hw.of_push hgated (hw.busy.enter (by simp [hidle]) (by simp)) hothers
    (by simp [hidle, Phase.popStage]) rfl rfl rfl rfl rfl le_rfl
  refine (hw.enqueue.age le_rfl fun u hu => hothers u ?_).load hout (by simp [begin])
  rintro rfl
  exact hu hout

lemma Crowded.begin_pop (hw : w.Crowded n) (hidle : w.world.phase t = .idle)
    (hgated : (w.world.move t (.popLoaded w.world.queue.dequeueRevoke)
      w.world.queue).Gated n) :
    (w.begin t (w.world.move t (.popLoaded w.world.queue.dequeueRevoke)
      w.world.queue)).Crowded n := by
  have hout : (Phase.popStage ∘ w.world.phase) t = .out := by simp [hidle, Phase.popStage]
  have hothers := hothers_begin (w := w) (t := t)
    (v := w.world.move t (.popLoaded w.world.queue.dequeueRevoke) w.world.queue)
  apply hw.of_pop hgated (hw.busy.enter (by simp [hidle]) (by simp)) hothers
    (by simp [hidle, Phase.pushStage]) rfl rfl rfl rfl rfl le_rfl
  refine (hw.dequeue.age le_rfl fun u hu => hothers u ?_).load hout (by simp [begin])
  rintro rfl
  exact hu hout

lemma Crowded.step {a : ThreadStep α} (hw : w.Crowded n) (hn : n < 2147483648)
    (hok : w.HazardLimited a) (hstep : w.step n a = some w') : w'.Crowded n := by
  have hhazard := hw.hazardless hn hok
  cases a with
  | push t item =>
    obtain ⟨v, hv, rfl⟩ := Option.map_eq_some_iff.1 hstep
    have hgated := hw.gated.step hhazard hv
    obtain ⟨hidle, rfl⟩ := LocalWorld.idle_of_begin_push hv
    exact hw.begin_push hidle hgated
  | pop t =>
    obtain ⟨v, hv, rfl⟩ := Option.map_eq_some_iff.1 hstep
    have hgated := hw.gated.step hhazard hv
    obtain ⟨hidle, rfl⟩ := LocalWorld.idle_of_begin_pop hv
    exact hw.begin_pop hidle hgated
  | advance t =>
    obtain ⟨v, hv, rfl⟩ := Option.map_eq_some_iff.1 hstep
    exact hw.advance (hw.gated.step hhazard hv) hv

/-- In every run of any number of producers and consumers in which fewer than `2 ^ 31` other
operations run during any single one, the inner counters are in order: no pop is admitted
without a completed push and no push beyond the capacity. The capacity and the hazard
together are within `uint32_t`. -/
theorem localQueue_counters_ordered [Inhabited α] (n : Nat) (hn : n + 2147483648 ≤ 4294967295)
    (steps : List (ThreadStep α)) (w : TimedWorld α)
    (hok : Along (step n) HazardLimited init steps) (hrun : exec (step n) init steps = some w) :
    w.world.queue.head ≤ w.world.queue.headFast ∧ w.world.queue.headFast ≤ w.world.queue.tail ∧
      w.world.queue.tail ≤ w.world.queue.tailFast ∧
      w.world.queue.tailFast ≤ w.world.queue.head + n := by
  have hw : w.Crowded n :=
    exec_invariant (fun _ _ _ hw hc hs => hw.step (by omega) hc hs) crowded_init hok hrun
  exact hw.gated.counters_ordered

/-- Two producers fill a queue of one cell while a consumer overtakes the second. -/
def crossing : List (ThreadStep Nat) :=
  [.push 0 7, .push 1 8, .advance 1, .advance 0, .advance 0, .advance 1, .advance 1, .pop 2,
    .advance 2, .advance 2, .advance 1, .advance 1]

theorem localQueue_counters_ordered_crossing :
    ∃ w : TimedWorld Nat, exec (step 1) init crossing = some w ∧ w.others 1 = 2 ∧
      w.world.queue.tailFast ≤ w.world.queue.head + 1 := by
  refine ⟨_, rfl, rfl, ?_⟩
  have hok : Along (step 1) HazardLimited init crossing := by
    decide +kernel
  exact (localQueue_counters_ordered 1 (by decide) crossing _ hok rfl).2.2.2

end TimedWorld

end CoplusLean
