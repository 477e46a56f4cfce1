import CoplusLean.Proofs.FastQueueThreads

/-!
# The calls of a `FastQueue` do not wait

All loops of a producer handle make a bounded number of attempts, and a push on a local queue is at
most six steps. So a call of a handle ends after a fixed number of its own steps, whatever the
other handles and the consumers do in between, and none of these steps waits for them.
-/

namespace CoplusLean

open Lib FastQueue

variable {α : Type*}

/-- The steps left of a push on a local queue. -/
def Phase.pushLeft : Phase α → Nat
  | .idle => 6
  | .pushLoaded _ _ => 5
  | .pushDrawn _ _ _ => 4
  | .pushAdmitted _ _ => 3
  | .pushTicket _ _ => 2
  | _ => 1

lemma Phase.pushLeft_le (x : Phase α) : x.pushLeft ≤ 6 := by
  cases x <;> simp [Phase.pushLeft]

namespace LocalWorld

variable {n t : Nat} {w w' : LocalWorld α}

/-- A step of a push on a thread that is not in a pop. -/
lemma pushNext_left (hpop : (w.phase t).popStage = .out) {item : α}
    (hstep : w.pushNext n t item = some w') :
    ∃ x : Phase α, w'.phase = Function.update w.phase t x ∧ x.popStage = .out ∧
      ((w.phase t).result = none → x.pushLeft + 1 ≤ (w.phase t).pushLeft) ∧
      ((w.phase t).result ≠ none → (w.phase t).pushLeft = 1) := by
  cases hphase : w.phase t <;> rw [hphase] at hpop <;>
    simp only [Phase.popStage, reduceCtorEq] at hpop <;>
    simp only [LocalWorld.pushNext, hphase, LocalWorld.step, LocalWorld.advance, move,
      Option.some.injEq] at hstep
  case pushDrawn item r e =>
    split at hstep
    all_goals
      cases hstep
      exact ⟨_, rfl, rfl, by simp [Phase.pushLeft], fun h => absurd rfl h⟩
  case pushRefused | pushWritten =>
    subst hstep
    exact ⟨_, rfl, rfl, by simp [Phase.result], fun _ => rfl⟩
  all_goals
    subst hstep
    exact ⟨_, rfl, rfl, by simp [Phase.pushLeft], fun h => absurd rfl h⟩

lemma exists_pushNext (n : Nat) (w : LocalWorld α) (t : Nat) (item : α) :
    ∃ w', w.pushNext n t item = some w' := by
  cases hphase : w.phase t <;>
    simp only [LocalWorld.pushNext, hphase, LocalWorld.step, LocalWorld.advance]
  case pushDrawn | popDrawn => split <;> exact ⟨_, rfl⟩
  all_goals exact ⟨_, rfl⟩

end LocalWorld

namespace FastQueue

/-- `QueueList` keeps its chunk table, and only more tokens are drawn. -/
structure Grows (q q' : FastQueue α) : Prop where
  unitSize : q'.queueList.unitSize = q.queueList.unitSize
  maxSize : q'.queueList.maxSize = q.queueList.maxSize
  table : q'.queueList.stacks_.length = q.queueList.stacks_.length
  pushCount : q.queueList.pushCount ≤ q'.queueList.pushCount

lemma Grows.of_list {q q' : FastQueue α} (h : q'.queueList = q.queueList) : q.Grows q' := by
  constructor <;> rw [h]

lemma apply_grows (s : FastQueue α × ProducerHandle) : s.1.Grows (apply s).2.1 := by
  unfold apply
  split <;> exact .of_list rfl

/-- A push draws one token, whether or not it is accepted. -/
lemma push_table {β : Type*} [Inhabited β] (list : PushOnlyFastStack β) (x : β) :
    (list.push x).2.unitSize = list.unitSize ∧ (list.push x).2.maxSize = list.maxSize ∧
      (list.push x).2.stacks_.length = list.stacks_.length ∧
      (list.push x).2.pushCount = list.pushCount + 1 := by
  unfold PushOnlyFastStack.push
  dsimp only
  split
  · exact ⟨rfl, rfl, rfl, rfl⟩
  · exact ⟨rfl, rfl, List.length_set .., rfl⟩

lemma createQueue_grows [Inhabited α] (q : FastQueue α) : q.Grows q.createQueue.2 := by
  obtain ⟨hunit, hmax, htable, hcount⟩ := push_table q.queueList (some q.heap.length)
  have hle : q.queueList.pushCount ≤ (q.queueList.push (some q.heap.length)).2.pushCount := by
    omega
  unfold createQueue
  dsimp only
  split
  · exact ⟨hunit, hmax, htable, hle⟩
  · exact ⟨hunit, hmax, htable, hle⟩

lemma preempt_grows [Inhabited α] (s : FastQueue α × ProducerHandle) :
    s.1.Grows (preempt s).2.1 := by
  have hcreate := createQueue_grows s.1
  unfold preempt
  split
  case h_1 q hq => simpa [hq] using hcreate
  case h_2 t q hq => simpa [hq] using hcreate

end FastQueue

namespace FastQueueStep

/-- The handle that makes the step. -/
def actor : FastQueueStep α → Option Nat
  | .create handle | .push handle _ | .pushHard handle _ | .destroy handle | .next handle =>
    some handle
  | .pop _ _ | .popNext _ _ => none

/-- The handle begins a call. -/
def begins (handle : Nat) : FastQueueStep α → Bool
  | .create k | .push k _ | .pushHard k _ | .destroy k => k = handle
  | .next _ | .pop _ _ | .popNext _ _ => false

/-- The handle goes on with its call. -/
def isNext (handle : Nat) : FastQueueStep α → Bool
  | .next k => k = handle
  | _ => false

lemma actor_of_isNext {a : FastQueueStep α} {k : Nat} (h : a.isNext k = true) :
    a.actor = some k := by
  cases a <;> simp only [isNext, decide_eq_true_eq, Bool.false_eq_true] at h
  exact congrArg some h

lemma isNext_of_actor {a : FastQueueStep α} {k : Nat} (h : a.actor = some k)
    (hbegin : a.begins k = false) : a.isNext k = true := by
  cases a <;> simp only [actor, Option.some.injEq, reduceCtorEq] at h <;> subst h <;>
    simp [begins, isNext] at hbegin ⊢

end FastQueueStep

namespace HandlePhase

/-- The steps that a call has left at most, when the push on the local queue has `push` left. -/
def stepsLeft (push : Nat) : HandlePhase α → Nat
  | .gone => 0
  | .ready => 0
  | .deleting => 1
  | .pushing _ => push
  | .retrying attempts _ => 6 * (attempts - 1) + push
  | .moving attempts _ => max attempts 1 + 54
  | .leaving _ => 64
  | .trying attempts _ => 6 * (attempts - 1) + push + 64
  | .preempting attempts _ => max attempts 1 + 118
  | .applying attempts _ => max attempts 1 + 127

lemma stepsLeft_acquired {push : Nat} (hpush : push ≤ 6) (l : Option Nat) (item : Option α) :
    (acquired l item).stepsLeft push ≤ 118 := by
  cases item <;> cases l <;> simp only [acquired, stepsLeft, kProducerRetry] <;> omega

lemma stepsLeft_moved {push : Nat} (hpush : push ≤ 6) (l : Option Nat) (item : α) :
    (moved l item).stepsLeft push ≤ 54 := by
  cases l <;> simp only [moved, stepsLeft, kProducerRetry] <;> omega

lemma stepsLeft_afterApply (push attempts : Nat) (item : Option α) :
    (afterApply (attempts - 1) item).stepsLeft push + 1 ≤ max attempts 1 + 127 := by
  unfold afterApply
  split
  · simp only [stepsLeft, kProducerRetry]
    omega
  · simp only [stepsLeft]
    omega

/-- The last step of a push ends an attempt. -/
lemma stepsLeft_afterPush {x : HandlePhase α} {item : α} (h : x.pushes = some item) (ok : Bool)
    {push : Nat} (hpush : push ≤ 6) : (x.afterPush ok).stepsLeft push + 1 ≤ x.stepsLeft 1 := by
  cases x <;> simp only [pushes, reduceCtorEq] at h
  case pushing => exact le_rfl
  case trying attempts item =>
    simp only [afterPush]
    split_ifs <;> simp only [stepsLeft] <;> omega
  case retrying attempts item =>
    simp only [afterPush]
    split_ifs <;> simp only [stepsLeft] <;> omega

lemma stepsLeft_pushes {x : HandlePhase α} {item : α} (h : x.pushes = some item) (push : Nat) :
    x.stepsLeft push = x.stepsLeft 0 + push := by
  cases x <;> simp [pushes] at h <;> simp only [stepsLeft] <;> omega

end HandlePhase

namespace FastQueueWorld

open HandlePhase

variable {w w' : FastQueueWorld α} {k : Nat}

/-- A handle in a call that uses its local queue has one, and handles do not pop. -/
structure Going (w : FastQueueWorld α) : Prop where
  pointer : ∀ k, (w.phase k).uses = true → (w.handles k).local_ ≠ none
  pushing : ∀ p k, ((w.locals p).phase (2 * k)).popStage = .out

/-- The steps left of the push that handle `k` is in or will make next. -/
def pushLeft (w : FastQueueWorld α) (k : Nat) : Nat :=
  match (w.handles k).local_ with
  | none => 6
  | some p => ((w.locals p).phase (2 * k)).pushLeft

/-- The steps that the call of handle `k` has left at most. -/
def left (w : FastQueueWorld α) (k : Nat) : Nat := (w.phase k).stepsLeft (w.pushLeft k)

lemma pushLeft_le (w : FastQueueWorld α) (k : Nat) : w.pushLeft k ≤ 6 := by
  unfold pushLeft
  split
  · exact le_rfl
  · exact Phase.pushLeft_le _

/-- What a step does: a handle changes its place and its token, which brings its call forward; it
makes a step of a push on its local queue; or a consumer makes a step of a pop. -/
inductive Effect (w : FastQueueWorld α) : FastQueueStep α → FastQueueWorld α → Prop
  | token (a : FastQueueStep α) (j : Nat) (s : FastQueue α × ProducerHandle) (x : HandlePhase α)
      (hactor : a.actor = some j) (huse : x.uses = true → s.2.local_ ≠ none)
      (hlist : w.queue.Grows s.1)
      (hleft : a.isNext j = true → ∀ push push', push ≤ 6 →
        x.stepsLeft push + 1 ≤ (w.phase j).stepsLeft push') : Effect w a (w.setHandle j s x)
  | push (j p : Nat) (item : α) (l : LocalWorld α) (hpush : (w.phase j).pushes = some item)
      (hlocal : (w.handles j).local_ = some p)
      (hstep : (w.locals p).pushNext kLocalQueueSize (2 * j) item = some l) :
      Effect w (.next j)
        { w.setPhase j ((w.phase j).afterStep ((w.locals p).phase (2 * j)).result) with
          locals := Function.update w.locals p l }
  | pop (a : FastQueueStep α) (p c : Nat) (act : ThreadStep α) (l : LocalWorld α)
      (hactor : a.actor = none) (hact : act = .pop (2 * c + 1) ∨ act = .advance (2 * c + 1))
      (hstep : (w.locals p).step kLocalQueueSize act = some l) :
      Effect w a { w with locals := Function.update w.locals p l }

lemma effect_of_pushNext {item : α} (hpush : (w.phase k).pushes = some item)
    (hstep : w.pushNext k item = some w') : Effect w (.next k) w' := by
  cases hlocal : (w.handles k).local_ with
  | none => simp [FastQueueWorld.pushNext, hlocal] at hstep
  | some p =>
    simp only [FastQueueWorld.pushNext, hlocal] at hstep
    obtain ⟨l, hl, rfl⟩ := Option.map_eq_some_iff.mp hstep
    exact .push k p item l hpush hlocal hl

lemma effect_of_popStep {a : FastQueueStep α} (hactor : a.actor = none) {c i : Nat}
    {act : ThreadStep α} (hact : act = .pop (2 * c + 1) ∨ act = .advance (2 * c + 1))
    (hstep : w.popStep i act = some w') : Effect w a w' := by
  unfold FastQueueWorld.popStep at hstep
  split at hstep
  case h_1 p hlookup =>
    obtain ⟨l, hl, rfl⟩ := Option.map_eq_some_iff.mp hstep
    exact .pop a p c act l hactor hact hl
  case h_2 => cases hstep

lemma effect_of_next [Inhabited α] (hstep : w.next k = some w') : Effect w (.next k) w' := by
  cases hphase : w.phase k with
  | gone | ready => simp [FastQueueWorld.next, hphase] at hstep
  | applying attempts item =>
    simp only [FastQueueWorld.next, hphase] at hstep
    obtain rfl := Option.some.inj hstep
    refine .token _ k _ _ rfl ?_ (apply_grows (w.queue, w.handles k))
      fun _ push push' hpush => ?_
    · split
      · exact (owns_acquired _ _).2.2
      · simp [uses_afterApply]
    · rw [hphase]
      split
      · have hle := stepsLeft_acquired hpush (FastQueue.apply (w.queue, w.handles k)).2.2.local_ item
        show _ ≤ max attempts 1 + 127
        omega
      · exact stepsLeft_afterApply push attempts item
  | preempting attempts item =>
    simp only [FastQueueWorld.next, hphase] at hstep
    obtain rfl := Option.some.inj hstep
    refine .token _ k _ _ rfl ?_ (preempt_grows (w.queue, w.handles k))
      fun _ push push' hpush => ?_
    · split
      · exact (owns_acquired _ _).2.2
      · simp [uses]
    · rw [hphase]
      split
      · have hle := stepsLeft_acquired hpush (preempt (w.queue, w.handles k)).2.2.local_ item
        show _ ≤ max attempts 1 + 118
        omega
      · simp only [stepsLeft]
        omega
  | moving attempts item =>
    simp only [FastQueueWorld.next, hphase] at hstep
    obtain rfl := Option.some.inj hstep
    refine .token _ k _ _ rfl ?_ (preempt_grows (w.queue, w.handles k))
      fun _ push push' hpush => ?_
    · split
      · cases (preempt (w.queue, w.handles k)).2.2.local_ <;> simp [moved, uses]
      · simp [uses]
    · rw [hphase]
      split
      · have hle := stepsLeft_moved hpush (preempt (w.queue, w.handles k)).2.2.local_ item
        show _ ≤ max attempts 1 + 54
        omega
      · simp only [stepsLeft]
        omega
  | pushing item =>
    simp only [FastQueueWorld.next, hphase] at hstep
    exact effect_of_pushNext (by rw [hphase]; rfl) hstep
  | trying attempts item =>
    simp only [FastQueueWorld.next, hphase] at hstep
    exact effect_of_pushNext (by rw [hphase]; rfl) hstep
  | retrying attempts item =>
    simp only [FastQueueWorld.next, hphase] at hstep
    exact effect_of_pushNext (by rw [hphase]; rfl) hstep
  | leaving item =>
    simp only [FastQueueWorld.next, hphase] at hstep
    obtain rfl := Option.some.inj hstep
    rw [← setHandle_same]
    refine .token _ k _ _ rfl (by simp [uses]) (.of_list rfl) fun _ push push' hpush => ?_
    rw [hphase]
    simp [stepsLeft, kProducerRetry]
  | deleting =>
    simp only [FastQueueWorld.next, hphase] at hstep
    obtain rfl := Option.some.inj hstep
    rw [← setHandle_same]
    refine .token _ k _ _ rfl (by simp [uses]) (.of_list rfl) fun _ push push' hpush => ?_
    rw [hphase]
    simp [stepsLeft]

lemma effect_of_step [Inhabited α] {a : FastQueueStep α} (hstep : w.step a = some w') :
    Effect w a w' := by
  have hbegin : ∀ {a : FastQueueStep α} {k : Nat} {x : HandlePhase α}, a.actor = some k →
      a.isNext k = false → (x.uses = true → (w.handles k).local_ ≠ none) →
      Effect w a (w.setPhase k x) := by
    intro a k x hactor hnext huse
    have heff := Effect.token (w := w) a k (w.queue, w.handles k) x hactor huse (.of_list rfl)
      (by simp [hnext])
    rwa [setHandle_same] at heff
  cases a with
  | create k =>
    simp only [FastQueueWorld.step] at hstep
    split at hstep
    case h_1 =>
      obtain rfl := Option.some.inj hstep
      exact .token _ k _ _ rfl (by simp [uses]) (.of_list rfl) (by simp [FastQueueStep.isNext])
    case h_2 => cases hstep
  | push k item =>
    simp only [FastQueueWorld.step] at hstep
    split at hstep
    case h_1 hphase hlocal =>
      obtain rfl := Option.some.inj hstep
      have heff := hbegin (a := .push k item) (k := k) (x := w.phase k) rfl rfl
        (by simp [hphase, uses])
      simpa [setPhase] using heff
    case h_2 p hphase hlocal =>
      obtain rfl := Option.some.inj hstep
      exact hbegin rfl rfl (by simp [hlocal])
    case h_3 => cases hstep
  | pushHard k item =>
    simp only [FastQueueWorld.step] at hstep
    split at hstep
    case h_1 =>
      obtain rfl := Option.some.inj hstep
      exact hbegin rfl rfl (by simp [uses])
    case h_2 p hphase hlocal =>
      obtain rfl := Option.some.inj hstep
      exact hbegin rfl rfl (by simp [hlocal])
    case h_3 => cases hstep
  | destroy k =>
    simp only [FastQueueWorld.step] at hstep
    split at hstep
    case h_1 =>
      obtain rfl := Option.some.inj hstep
      exact hbegin rfl rfl (by simp [uses])
    case h_2 p hphase hlocal =>
      obtain rfl := Option.some.inj hstep
      exact hbegin rfl rfl (by simp [hlocal])
    case h_3 => cases hstep
  | next k => exact effect_of_next hstep
  | pop c i => exact effect_of_popStep rfl (Or.inl rfl) hstep
  | popNext c i => exact effect_of_popStep rfl (Or.inr rfl) hstep

lemma going_init [Inhabited α] : (init : FastQueueWorld α).Going where
  pointer k hk := by simp [init, uses] at hk
  pushing p k := rfl

/-- A step of a pop does not touch the handles. -/
lemma pop_phase {l l' : LocalWorld α} {c : Nat} {act : ThreadStep α}
    (hact : act = .pop (2 * c + 1) ∨ act = .advance (2 * c + 1))
    (hstep : l.step kLocalQueueSize act = some l') (k : Nat) :
    l'.phase (2 * k) = l.phase (2 * k) := by
  have hne : 2 * k ≠ 2 * c + 1 := by omega
  rcases hact with rfl | rfl
  · obtain ⟨-, rfl⟩ := LocalWorld.idle_of_begin_pop hstep
    exact Function.update_of_ne hne _ _
  · obtain ⟨x, hx, -⟩ := LocalWorld.advance_phase hstep
    rw [hx, Function.update_of_ne hne]

lemma Going.step {a : FastQueueStep α} (hw : w.Going) (heff : Effect w a w') : w'.Going := by
  cases heff with
  | token _ j s x hactor huse hlist hleft =>
    refine ⟨fun k hk => ?_, hw.pushing⟩
    by_cases hkj : k = j
    · subst hkj
      simpa [setHandle] using huse (by simpa [setHandle, setPhase] using hk)
    · have hk' : (w.phase k).uses = true := by simpa [setHandle, setPhase, hkj] using hk
      simpa [setHandle, hkj] using hw.pointer k hk'
  | push j p item l hpush hlocal hstep =>
    obtain ⟨x, hx, hout, -, -⟩ := LocalWorld.pushNext_left (hw.pushing p j) hstep
    refine ⟨fun k hk => ?_, fun q k => ?_⟩
    · by_cases hkj : k = j
      · subst hkj
        show (w.handles k).local_ ≠ none
        simp [hlocal]
      · exact hw.pointer k (by simpa [setPhase, hkj] using hk)
    · by_cases hq : q = p
      · subst hq
        by_cases hkj : k = j
        · subst hkj
          simpa [hx] using hout
        · have hne : 2 * k ≠ 2 * j := by omega
          simpa [hx, hne] using hw.pushing q k
      · simpa [hq] using hw.pushing q k
  | pop _ p c act l hactor hact hstep =>
    refine ⟨hw.pointer, fun q k => ?_⟩
    by_cases hq : q = p
    · subst hq
      simpa [pop_phase hact hstep k] using hw.pushing q k
    · simpa [hq] using hw.pushing q k

/-- The steps of a handle bring its call nearer to its end, and those of the others do not push it
away. -/
lemma left_step {a : FastQueueStep α} (hw : w.Going) (hbegin : a.begins k = false)
    (heff : Effect w a w') :
    w'.left k + (if a.isNext k then 1 else 0) ≤ w.left k := by
  cases heff with
  | token _ j s x hactor huse hlist hleft =>
    by_cases hkj : k = j
    · subst hkj
      have hnext := FastQueueStep.isNext_of_actor hactor hbegin
      have hle := hleft hnext ((w.setHandle k s x).pushLeft k) (w.pushLeft k) (pushLeft_le _ k)
      rw [if_pos hnext]
      simpa [left, setHandle, setPhase] using hle
    · have hnext : ¬a.isNext k = true := fun h =>
        hkj (Option.some.inj ((FastQueueStep.actor_of_isNext h).symm.trans hactor))
      rw [if_neg hnext]
      simp [left, pushLeft, setHandle, setPhase, hkj]
  | push j p item l hpush hlocal hstep =>
    obtain ⟨x, hx, -, hgo, hend⟩ := LocalWorld.pushNext_left (hw.pushing p j) hstep
    by_cases hkj : k = j
    · subst hkj
      have hnow : w.pushLeft k = ((w.locals p).phase (2 * k)).pushLeft := by
        simp only [pushLeft, hlocal]
      have hnew : ∀ y : HandlePhase α,
          left { w.setPhase k y with locals := Function.update w.locals p l } k =
            y.stepsLeft x.pushLeft := by
        intro y
        simp [left, pushLeft, setPhase, hlocal, hx]
      rw [hnew, if_pos (by simp [FastQueueStep.isNext]), left, hnow]
      cases hresult : ((w.locals p).phase (2 * k)).result with
      | none =>
        have hle := hgo hresult
        rw [afterStep, stepsLeft_pushes hpush, stepsLeft_pushes hpush (Phase.pushLeft _)]
        omega
      | some ok =>
        rw [hend (by simp [hresult])]
        exact stepsLeft_afterPush hpush ok x.pushLeft_le
    · have hne : 2 * k ≠ 2 * j := by omega
      have hsame : ∀ q, (Function.update w.locals p l q).phase (2 * k) =
          (w.locals q).phase (2 * k) := by
        intro q
        by_cases hq : q = p
        · subst hq
          rw [Function.update_self, hx, Function.update_of_ne hne]
        · rw [Function.update_of_ne hq]
      have hnext : ¬(FastQueueStep.next j : FastQueueStep α).isNext k = true := by
        simpa [FastQueueStep.isNext] using Ne.symm hkj
      rw [if_neg hnext]
      simp [left, pushLeft, setPhase, hkj, hsame]
  | pop _ p c act l hactor hact hstep =>
    have hnext : ¬a.isNext k = true := fun h => by
      rw [FastQueueStep.actor_of_isNext h] at hactor
      cases hactor
    have hsame : ∀ q, (Function.update w.locals p l q).phase (2 * k) = (w.locals q).phase (2 * k) := by
      intro q
      by_cases hq : q = p
      · subst hq
        rw [Function.update_self, pop_phase hact hstep k]
      · rw [Function.update_of_ne hq]
    rw [if_neg hnext]
    simp [left, pushLeft, hsame]

/-- A handle in a call can always make its next step. -/
lemma Going.exists_next [Inhabited α] (hw : w.Going) (hready : w.phase k ≠ .ready)
    (hgone : w.phase k ≠ .gone) : ∃ w', w.step (.next k) = some w' := by
  have hpush : ∀ item, (w.phase k).uses = true → ∃ w', w.pushNext k item = some w' := by
    intro item huse
    obtain ⟨p, hp⟩ := Option.ne_none_iff_exists'.mp (hw.pointer k huse)
    obtain ⟨l, hl⟩ := LocalWorld.exists_pushNext kLocalQueueSize (w.locals p) (2 * k) item
    exact ⟨_, by simp only [FastQueueWorld.pushNext, hp, hl, Option.map_some]; rfl⟩
  cases hphase : w.phase k with
  | gone => exact absurd hphase hgone
  | ready => exact absurd hphase hready
  | pushing item | trying _ item | retrying _ item =>
    obtain ⟨w', hw'⟩ := hpush item (by rw [hphase]; rfl)
    exact ⟨w', by simp only [FastQueueWorld.step, FastQueueWorld.next, hphase, hw']⟩
  | applying | preempting | leaving | moving | deleting =>
    simp only [FastQueueWorld.step, FastQueueWorld.next, hphase]
    exact ⟨_, rfl⟩

/-- A call has at most 136 steps ahead when it begins. -/
lemma left_of_begin [Inhabited α] {a : FastQueueStep α} (hbegin : a.begins k = true)
    (hstep : w.step a = some w') : w'.left k ≤ 136 := by
  have hset : ∀ {j : Nat} {s : FastQueue α × ProducerHandle} {x : HandlePhase α}, j = k →
      (∀ push ≤ 6, x.stepsLeft push ≤ 136) → (w.setHandle j s x).left k ≤ 136 := by
    rintro j s x rfl hx
    have hle := hx _ (pushLeft_le (w.setHandle j s x) j)
    simpa [left, setHandle, setPhase] using hle
  have hphase : ∀ {j : Nat} {x : HandlePhase α}, j = k →
      (∀ push ≤ 6, x.stepsLeft push ≤ 136) → (w.setPhase j x).left k ≤ 136 := by
    intro j x hj hx
    have hle := hset (s := (w.queue, w.handles j)) hj hx
    rwa [setHandle_same] at hle
  cases a with
  | create j =>
    have hj : j = k := by simpa [FastQueueStep.begins] using hbegin
    simp only [step] at hstep
    split at hstep <;> simp only [Option.some.injEq, reduceCtorEq] at hstep
    subst hstep
    exact hset hj fun push hpush => by simp [stepsLeft, kProducerRetry]
  | push j item =>
    have hj : j = k := by simpa [FastQueueStep.begins] using hbegin
    simp only [step] at hstep
    split at hstep <;> simp only [Option.some.injEq, reduceCtorEq] at hstep <;> subst hstep
    case h_1 hready _ => simp [left, ← hj, hready, stepsLeft]
    case h_2 => exact hphase hj fun push hpush => by simp only [stepsLeft]; omega
  | pushHard j item =>
    have hj : j = k := by simpa [FastQueueStep.begins] using hbegin
    simp only [step] at hstep
    split at hstep <;> simp only [Option.some.injEq, reduceCtorEq] at hstep <;> subst hstep
    case h_1 => exact hphase hj fun push hpush => by simp [stepsLeft, kProducerRetry]
    case h_2 =>
      exact hphase hj fun push hpush => by simp only [stepsLeft, kProducerRetry]; omega
  | destroy j =>
    have hj : j = k := by simpa [FastQueueStep.begins] using hbegin
    simp only [step] at hstep
    split at hstep <;> simp only [Option.some.injEq, reduceCtorEq] at hstep <;> subst hstep <;>
      exact hphase hj fun push hpush => by simp [stepsLeft]
  | next | pop | popNext => cases hbegin

/-- In every interleaving a call of a handle ends after at most 136 steps of its own, whatever the
other handles and the consumers do, and until it ends its next step is possible. -/
theorem calls_end [Inhabited α] (k : Nat) (before after : List (FastQueueStep α))
    (a : FastQueueStep α) (w v : FastQueueWorld α) (hbegin : a.begins k = true)
    (hbefore : exec step init (before ++ [a]) = some w)
    (hwithin : ∀ b ∈ after, b.begins k = false) (hafter : exec step w after = some v) :
    after.countP (FastQueueStep.isNext k) ≤ 136 ∧
      (v.phase k ≠ .ready → v.phase k ≠ .gone → ∃ v', v.step (.next k) = some v') := by
  have hgoing : ∀ {run : List (FastQueueStep α)} {s : FastQueueWorld α},
      exec step init run = some s → s.Going := fun hrun =>
    exec_invariant_always (fun _ _ _ hs hstep => hs.step (effect_of_step hstep)) going_init hrun
  have hw := hgoing hbefore
  rw [exec_append] at hbefore
  obtain ⟨u, hu, hlast⟩ := Option.bind_eq_some_iff.mp hbefore
  obtain ⟨w₁, hstep, hw₁⟩ := Option.bind_eq_some_iff.mp hlast
  obtain rfl := Option.some.inj hw₁
  have hle := exec_balance (P := Going) (f := fun s => s.left k) (g := fun _ => 0)
    (p := FastQueueStep.isNext k) (fun s b t hs hb hstep => by
      have heff := effect_of_step hstep
      exact ⟨hs.step heff, left_step hs hb heff⟩) hw hwithin hafter
  have hstart := left_of_begin hbegin hstep
  have hv : v.Going :=
    exec_invariant_always (fun _ _ _ hs hstep => hs.step (effect_of_step hstep)) hw hafter
  exact ⟨by omega, fun hready hgone => hv.exists_next hready hgone⟩

/-- The constructor of the handle 0 while the handle 1 is made as well. -/
def madeTogether : List (FastQueueStep Nat) :=
  [.next 0, .create 1] ++ List.replicate 10 (.next 1) ++ List.replicate 9 (.next 0)

theorem calls_end_madeTogether : ∃ w v, exec step init ([] ++ [.create 0]) = some w ∧
    exec step w madeTogether = some v ∧ v.phase 0 = .ready ∧ (v.handles 0).local_ = some 1 ∧
    madeTogether.countP (FastQueueStep.isNext 0) ≤ 136 := by
  have heval : ((exec step (init : FastQueueWorld Nat) ([] ++ [.create 0])).bind fun w =>
      exec step w madeTogether).map (fun v => (v.phase 0, (v.handles 0).local_)) =
        some (.ready, some 1) := by decide +kernel
  obtain ⟨v, hv, hready⟩ := Option.map_eq_some_iff.mp heval
  obtain ⟨w, hw, hafter⟩ := Option.bind_eq_some_iff.mp hv
  obtain ⟨hphase, hlocal⟩ := Prod.mk.inj hready
  exact ⟨w, v, hw, hafter, hphase, hlocal,
    (calls_end 0 [] madeTogether (.create 0) w v rfl hw (by decide) hafter).1⟩

end FastQueueWorld

end CoplusLean
