import CoplusLean.Lib.Run
import CoplusLean.Proofs.FastQueue

/-!
# What a call does to the queue and its handles

The calls of a run are read off `QueueWorld.step` once: what each of them does to the local
queues, the tokens and the handles. The invariants of the later modules go through these
cases.
-/

namespace CoplusLean

open Lib FastQueue

variable {α : Type*} [Inhabited α]

namespace FastQueue

omit [Inhabited α] in
lemma tokenBound_mono {q r : FastQueue α} (h : q.created ≤ r.created) :
    q.tokenBound ≤ r.tokenBound := by
  unfold tokenBound
  omega

omit [Inhabited α] in
lemma validHandle_mono {q r : FastQueue α} (hle : q.created ≤ r.created) {h : ProducerHandle}
    (hh : q.ValidHandle h) : r.ValidHandle h := by
  intro p hp
  exact ⟨(hh p hp).1, (hh p hp).2.trans_le (tokenBound_mono hle)⟩

lemma Started.created_ge {q : FastQueue α} {h : ProducerHandle}
    {s : FastQueue α × ProducerHandle} (hq : q.Sound) (hs : Started q h s) :
    q.created ≤ s.1.created := by
  cases hs with
  | held p hlocal => exact le_refl _
  | acquired s hlocal hacquired =>
    cases hacquired with
    | reused q' t rest hfree hrest hlist hheap hflag hsound => simp [created, hlist]
    | created hfree hroom hsound =>
      simp only [(createQueue_of_room hq hroom).2.2]
      omega
    | failed q' hfree hfull hcreated hlist hstored hflag hsound =>
      rw [hcreated]
      exact Nat.le_add_right _ _

/-- A local queue that was just created is empty. -/
lemma not_full_extended {q : FastQueue α} (hq : q.Sound) (failed : Bool) :
    ¬(q.extended failed).Full q.created := by
  rw [Full, stored_extended, List.getD_eq_getElem?_getD, List.getElem?_append_right (by
    rw [length_stored, hq.length_heap]), length_stored, hq.length_heap]
  simp [kLocalQueueSize]

section PushedHard

variable {x : α} {s : FastQueue α × ProducerHandle} {result : Bool × FastQueue α × ProducerHandle}

lemma PushedHard.sound (hs : s.1.Sound) (h : PushedHard x s result) : result.2.1.Sound := by
  cases h <;> assumption

lemma PushedHard.created_ge (h : PushedHard x s result) : s.1.created ≤ result.2.1.created := by
  cases h with
  | noQueue hlocal => exact le_refl _
  | first p q' hlocal hroom hsound hsame hstored => simp [created, hsame.list]
  | moved p q' hlocal hfull hlimit hsound hcreated hfree hflag hstored =>
    rw [hcreated]
    exact Nat.le_add_right _ _
  | stuck p q' hlocal hfull hlimit hsound hcreated hfree hflag hstored =>
    rw [hcreated]
    exact Nat.le_add_right _ _

lemma PushedHard.created_le (h : PushedHard x s result) :
    result.2.1.created ≤ s.1.created + 9 := by
  cases h with
  | noQueue hlocal => exact Nat.le_add_right _ _
  | first p q' hlocal hroom hsound hsame hstored =>
    simp only [created, hsame.list]
    exact Nat.le_add_right _ _
  | moved p q' hlocal hfull hlimit hsound hcreated hfree hflag hstored =>
    rw [hcreated]
    omega
  | stuck p q' hlocal hfull hlimit hsound hcreated hfree hflag hstored => exact hcreated.le

lemma PushedHard.valid (hvalid : s.1.ValidHandle s.2) (h : PushedHard x s result) :
    result.2.1.ValidHandle result.2.2 := by
  have hge := h.created_ge
  cases h with
  | noQueue hlocal => exact hvalid
  | first p q' hlocal hroom hsound hsame hstored => exact validHandle_mono hge hvalid
  | moved p q' hlocal hfull hlimit hsound hcreated hfree hflag hstored =>
    rintro p' hp'
    obtain rfl : s.1.created = p' := by simpa using hp'
    refine ⟨rfl, ?_⟩
    rw [tokenBound, hcreated]
    omega
  | stuck p q' hlocal hfull hlimit hsound hcreated hfree hflag hstored =>
    exact validHandle_mono hge hvalid

end PushedHard

/-- What `ProducerHandle::push` does: the item goes behind those of the local queue when there
is room. -/
inductive Pushed (x : α) (q : FastQueue α) (h : ProducerHandle) : Bool × FastQueue α → Prop where
  | refused (q' : FastQueue α) (hfull : ∀ p, h.local_ = some p → q.Full p) (hsound : q'.Sound)
      (hsame : SameTokens q q') (hstored : q'.stored = q.stored) : Pushed x q h (false, q')
  | accepted (p : Nat) (q' : FastQueue α) (hlocal : h.local_ = some p) (hp : p < q.heap.length)
      (hroom : ¬q.Full p) (hsound : q'.Sound) (hsame : SameTokens q q')
      (hstored : q'.stored = q.stored.set p (q.stored.getD p [] ++ [x])) : Pushed x q h (true, q')

lemma push_cases {q : FastQueue α} (hq : q.Sound) {h : ProducerHandle} (hh : q.ValidHandle h)
    (x : α) : Pushed x q h (q.push h x) := by
  rcases hl : h.local_ with _ | p
  · simp only [FastQueue.push, hl]
    exact .refused q (by simp [hl]) hq (.refl q) rfl
  · have hp := (hh p hl).2.trans_le (tokenBound_le_heap hq)
    simp only [FastQueue.push, hl]
    by_cases hfull : q.Full p
    · obtain ⟨q', hpush, hsound, hsame, hstored⟩ := pushLocal_of_full hq hp x hfull
      rw [hpush]
      refine .refused q' ?_ hsound hsame hstored
      rintro p' hp'
      obtain rfl : p = p' := Option.some.inj (hl.symm.trans hp')
      exact hfull
    · obtain ⟨q', hpush, hsound, hsame, hstored⟩ := pushLocal_of_room hq hp x hfull
      rw [hpush]
      exact .accepted p q' hl hp hfull hsound hsame hstored

omit [Inhabited α] in
lemma Pushed.kept {x : α} {q : FastQueue α} {h : ProducerHandle} {done : Bool × FastQueue α}
    (hdone : Pushed x q h done) : done.2.Sound ∧ SameTokens q done.2 := by
  cases hdone with
  | refused q' hfull hsound hsame hstored => exact ⟨hsound, hsame⟩
  | accepted p q' hlocal hp hroom hsound hsame hstored => exact ⟨hsound, hsame⟩

end FastQueue

namespace QueueWorld

/-- The queue is sound and every handle holds the token of its queue. -/
structure Steady (w : QueueWorld α) : Prop where
  sound : w.queue.Sound
  valid : ∀ k h, w.handles k = some h → w.queue.ValidHandle h

/-- The `int` counter of `QueueList` has not gone all the way round. -/
def EndInRange (w : QueueWorld α) (_ : QueueCall α) : Prop := w.queue.created + 18 ≤ 4294967296

instance (w : QueueWorld α) (call : QueueCall α) : Decidable (w.EndInRange call) :=
  inferInstanceAs (Decidable (_ ≤ _))

omit [Inhabited α] in
lemma steady_init : (init : QueueWorld α).Steady := ⟨sound_new, fun k h hk => by simp [init] at hk⟩

omit [Inhabited α] in
/-- Calls that change the queue and leave the handles alone. -/
lemma Steady.of_queue {w : QueueWorld α} (hw : w.Steady) {q : FastQueue α} (hq : q.Sound)
    (hle : w.queue.created ≤ q.created) (pushed popped : List α) :
    Steady ⟨q, w.handles, pushed, popped⟩ :=
  ⟨hq, fun k h hk => validHandle_mono hle (hw.valid k h hk)⟩

omit [Inhabited α] in
/-- Calls that replace one handle. -/
lemma Steady.of_handle {w : QueueWorld α} (hw : w.Steady) {q : FastQueue α} (hq : q.Sound)
    (hle : w.queue.created ≤ q.created) (k : Nat) {h : Option ProducerHandle}
    (hh : ∀ a, h = some a → q.ValidHandle a) (pushed popped : List α) :
    Steady ⟨q, Function.update w.handles k h, pushed, popped⟩ := by
  refine ⟨hq, fun j a hj => ?_⟩
  by_cases hjk : j = k
  · subst hjk
    exact hh a (by simpa using hj)
  · exact validHandle_mono hle (hw.valid j a (by simpa [hjk] using hj))

omit [Inhabited α] in
lemma Steady.probed {w : QueueWorld α} (hw : w.Steady) {q : FastQueue α} {r : Option α}
    (hprobed : Probed w.queue r q) (pushed popped : List α) :
    Steady ⟨q, w.handles, pushed, popped⟩ :=
  hw.of_queue hprobed.sound (by simp only [created, hprobed.same.list]; exact le_refl _) _ _

omit [Inhabited α] in
lemma middle_lt {q : FastQueue α} {middle : Nat} (hm : UIntOutcome q.queueList.size middle) :
    middle < 2147483648 := by
  have hsize : q.queueList.size < 2147483648 := (int32_bounds _).2
  unfold UIntOutcome at hm
  omega

/-- What a call does, as long as the queue and the handles are steady. -/
inductive Effect (w : QueueWorld α) : QueueCall α → QueueWorld α → Prop where
  | create (k : Nat) (s : FastQueue α × ProducerHandle) (hk : w.handles k = none)
      (hacquired : Acquired w.queue ⟨0, none⟩ s) :
      Effect w (.create k) ⟨s.1, Function.update w.handles k (some s.2), w.pushed, w.popped⟩
  | destroy (k : Nat) (h : ProducerHandle) (hk : w.handles k = some h) :
      Effect w (.destroy k)
        ⟨w.queue.deleteHandle h, Function.update w.handles k none, w.pushed, w.popped⟩
  | push (k : Nat) (h : ProducerHandle) (x : α) (done : Bool × FastQueue α)
      (hk : w.handles k = some h) (hdone : Pushed x w.queue h done) :
      Effect w (.push k x) ⟨done.2, w.handles, w.afterPush done.1 x, w.popped⟩
  | pushHard (k : Nat) (h : ProducerHandle) (x : α) (s : FastQueue α × ProducerHandle)
      (done : Bool × FastQueue α × ProducerHandle) (hk : w.handles k = some h)
      (hstart : Started w.queue h s) (hdone : PushedHard x s done) :
      Effect w (.pushHard k x) ⟨done.2.1, Function.update w.handles k (some done.2.2),
        w.afterPush done.1 x, w.popped⟩
  | pop (index fuel : Nat) (r : Option α) (q : FastQueue α) (hprobed : Probed w.queue r q) :
      Effect w (.pop index fuel) ⟨q, w.handles, w.pushed, w.afterPop r⟩
  | popHard (middle : Nat) (r : Option α) (q : FastQueue α) (hprobed : Probed w.queue r q) :
      Effect w (.popHard middle) ⟨q, w.handles, w.pushed, w.afterPop r⟩
  | elementCount : Effect w .elementCount w

theorem effect_of_step {w w' : QueueWorld α} {call : QueueCall α} (hw : w.Steady)
    (hcount : w.EndInRange call) (hstep : w.step call = some w') : w.Effect call w' := by
  unfold EndInRange at hcount
  cases call with
  | create k =>
    cases hk : w.handles k with
    | none =>
      simp only [QueueWorld.step, hk, Option.some.injEq] at hstep
      rw [← hstep]
      exact .create k _ hk (acquire_cases hw.sound ⟨0, none⟩ (by omega))
    | some h => simp [QueueWorld.step, hk] at hstep
  | destroy k =>
    cases hk : w.handles k with
    | none => simp [QueueWorld.step, hk] at hstep
    | some h =>
      simp only [QueueWorld.step, hk, Option.some.injEq] at hstep
      rw [← hstep]
      exact .destroy k h hk
  | push k x =>
    cases hk : w.handles k with
    | none => simp [QueueWorld.step, hk] at hstep
    | some h =>
      simp only [QueueWorld.step, hk, Option.some.injEq] at hstep
      rw [← hstep]
      exact .push k h x _ hk (push_cases hw.sound (hw.valid k h hk) x)
  | pushHard k x =>
    cases hk : w.handles k with
    | none => simp [QueueWorld.step, hk] at hstep
    | some h =>
      simp only [QueueWorld.step, hk, Option.some.injEq] at hstep
      obtain ⟨s, hstart, hdone⟩ := pushHard_cases hw.sound (hw.valid k h hk) hcount x
      rw [← hstep]
      exact .pushHard k h x s _ hk hstart hdone
  | pop index fuel =>
    simp only [QueueWorld.step] at hstep
    split_ifs at hstep
    obtain ⟨⟨r, q⟩, hpop, rfl⟩ := Option.map_eq_some_iff.mp hstep
    exact .pop index fuel r q (probed_of_popProbe fuel w.queue 0 index hw.sound hpop)
  | popHard middle =>
    simp only [QueueWorld.step] at hstep
    split_ifs at hstep with hmid
    obtain ⟨⟨r, q⟩, hpop, rfl⟩ := Option.map_eq_some_iff.mp hstep
    exact .popHard middle r q (probed_of_popHard hw.sound (middle_lt hmid) hpop)
  | elementCount =>
    simp only [QueueWorld.step] at hstep
    obtain ⟨n, -, rfl⟩ := Option.map_eq_some_iff.mp hstep
    exact .elementCount

lemma Effect.created_ge {w w' : QueueWorld α} {call : QueueCall α} (hw : w.Steady)
    (heffect : w.Effect call w') : w.queue.created ≤ w'.queue.created := by
  have hsame : ∀ {q : FastQueue α}, SameTokens w.queue q → w.queue.created ≤ q.created := by
    intro q hsame
    simp only [created, hsame.list]
    exact le_refl _
  cases heffect with
  | create k s hk hacquired =>
    exact Started.created_ge hw.sound (.acquired s rfl hacquired)
  | destroy k h hk =>
    unfold deleteHandle
    split <;> exact le_refl _
  | push k h x done hk hdone => exact hsame hdone.kept.2
  | pushHard k h x s done hk hstart hdone =>
    exact (hstart.created_ge hw.sound).trans hdone.created_ge
  | pop index fuel r q hprobed => exact hsame hprobed.same
  | popHard middle r q hprobed => exact hsame hprobed.same
  | elementCount => exact le_refl _

/-- A call makes at most nine attempts to create a queue for each of the two loops of `push_hard`. -/
lemma Effect.created_le {w w' : QueueWorld α} {call : QueueCall α} (hw : w.Steady)
    (heffect : w.Effect call w') : w'.queue.created ≤ w.queue.created + 18 := by
  have hsame : ∀ {q : FastQueue α}, SameTokens w.queue q → q.created ≤ w.queue.created + 18 := by
    intro q hsame
    simp only [created, hsame.list]
    exact Nat.le_add_right _ _
  cases heffect with
  | create k s hk hacquired =>
    have hle := Started.created_le hw.sound (.acquired s rfl hacquired)
    simp only
    omega
  | destroy k h hk =>
    unfold deleteHandle
    split <;> exact Nat.le_add_right _ _
  | push k h x done hk hdone => exact hsame hdone.kept.2
  | pushHard k h x s done hk hstart hdone =>
    have hle := hstart.created_le hw.sound
    have hle' := hdone.created_le
    simp only
    omega
  | pop index fuel r q hprobed => exact hsame hprobed.same
  | popHard middle r q hprobed => exact hsame hprobed.same
  | elementCount => exact Nat.le_add_right _ _

/-- A handle that looks for a queue. -/
lemma Steady.started {w : QueueWorld α} (hw : w.Steady) {h : ProducerHandle}
    (hh : w.queue.ValidHandle h) {s : FastQueue α × ProducerHandle} (hs : Started w.queue h s)
    (k : Nat) (pushed popped : List α) :
    Steady ⟨s.1, Function.update w.handles k (some s.2), pushed, popped⟩ := by
  apply hw.of_handle (hs.sound hw.sound) (hs.created_ge hw.sound)
  rintro a ⟨⟩
  exact hs.valid hw.sound hh

omit [Inhabited α] in
/-- The destructor. -/
lemma Steady.destroy {w : QueueWorld α} (hw : w.Steady) {k : Nat} {h : ProducerHandle}
    (hk : w.handles k = some h) :
    Steady ⟨w.queue.deleteHandle h, Function.update w.handles k none, w.pushed, w.popped⟩ := by
  cases hl : h.local_ with
  | none =>
    simp only [deleteHandle, hl]
    exact hw.of_handle hw.sound (le_refl _) k (by simp) _ _
  | some p =>
    obtain ⟨htok, hlt⟩ := hw.valid k h hk p hl
    simp only [deleteHandle, hl]
    exact hw.of_handle (sound_giveBack hw.sound ⟨by omega, by omega⟩) (le_refl _) k (by simp) _ _

/-- Every call keeps the queue and the handles steady. -/
theorem Steady.step {w w' : QueueWorld α} (hw : w.Steady) {call : QueueCall α}
    (hcount : w.EndInRange call) (hstep : w.step call = some w') : w'.Steady := by
  cases effect_of_step hw hcount hstep with
  | create k s hk hacquired =>
    exact hw.started (fun p hp => by simp at hp) (.acquired s rfl hacquired) k _ _
  | destroy k h hk => exact hw.destroy hk
  | push k h x done hk hdone =>
    obtain ⟨hsound, hsame⟩ := hdone.kept
    exact hw.of_queue hsound (by simp only [created, hsame.list]; exact le_refl _) _ _
  | pushHard k h x s done hk hstart hdone =>
    have hvalid := hdone.valid (hstart.valid hw.sound (hw.valid k h hk))
    apply hw.of_handle (hdone.sound (hstart.sound hw.sound))
      ((hstart.created_ge hw.sound).trans hdone.created_ge)
    rintro a ⟨⟩
    exact hvalid
  | pop index fuel r q hprobed => exact hw.probed hprobed _ _
  | popHard middle r q hprobed => exact hw.probed hprobed _ _
  | elementCount => exact hw

/-- The counter of `QueueList` stays in range for many million calls. -/
lemma along_endInRange {w : QueueWorld α} (hw : w.Steady) {calls : List (QueueCall α)}
    (hcalls : w.queue.created + 18 * calls.length ≤ 4294967296) : Along step EndInRange w calls := by
  induction calls generalizing w with
  | nil => exact trivial
  | cons call calls ih =>
    rw [List.length_cons] at hcalls
    have hcount : w.EndInRange call := by
      unfold EndInRange
      omega
    refine ⟨hcount, fun w' hstep => ih (hw.step hcount hstep) ?_⟩
    have hle := (effect_of_step hw hcount hstep).created_le hw
    omega

end QueueWorld

end CoplusLean
