import CoplusLean.Models.Await
import CoplusLean.Proofs.SchedulerPlaces

/-!
# What the steps of the scheduler with `await` do

Every step of `AwaitWorld` written out: who makes it, in which state, and the state after it.
With the wait table intact a `notify` tries the tasks registered on its trigger. The numbers
of tasks and triggers in use are those made so far.
-/

namespace CoplusLean

open Lib PoolWorld

/-- The trigger on which a worker is about to register its task. -/
def WorkerPhase.trigger : WorkerPhase → Option Nat
  | .waiting _ τ _ => some τ
  | .waitPushed _ _ τ _ => some τ
  | _ => none

namespace PoolWorld

variable {w : PoolWorld} {i t τ n : Nat}

/-- Only tasks made so far and triggers below `n` occur. -/
structure Within (n : Nat) (w : PoolWorld) : Prop where
  ready : ∀ t ∈ w.ready, t < w.created
  task : ∀ i t, (w.worker i).task = some t → t < w.created
  child : ∀ i t, (w.worker i).child = some t → t < w.created
  trigger : ∀ i τ, (w.worker i).trigger = some τ → τ < n
  registered : ∀ x ∈ w.registrations, x.1 < n ∧ x.2.1 < w.created
  served : ∀ τ ∈ w.served, τ < n

lemma within_init : init.Within 0 := by
  constructor <;> simp [init, WorkerPhase.task, WorkerPhase.child, WorkerPhase.trigger]

lemma Within.grow (h : w.Within n) {m : Nat} (hm : n ≤ m) : w.Within m where
  ready := h.ready
  task := h.task
  child := h.child
  trigger i τ hi := (h.trigger i τ hi).trans_le hm
  registered x hx := ⟨(h.registered x hx).1.trans_le hm, (h.registered x hx).2⟩
  served τ hτ := (h.served τ hτ).trans_le hm

lemma Within.create (h : w.Within n) : Within n { w with created := w.created + 1 } where
  ready t ht := (h.ready t ht).trans (Nat.lt_succ_self _)
  task i t hi := (h.task i t hi).trans (Nat.lt_succ_self _)
  child i t hi := (h.child i t hi).trans (Nat.lt_succ_self _)
  trigger := h.trigger
  registered x hx := ⟨(h.registered x hx).1, (h.registered x hx).2.trans (Nat.lt_succ_self _)⟩
  served := h.served

lemma Within.setWorker (h : w.Within n) {x : WorkerPhase} (htask : ∀ t ∈ x.task, t < w.created)
    (hchild : ∀ t ∈ x.child, t < w.created) (htrigger : ∀ τ ∈ x.trigger, τ < n) :
    (w.setWorker i x).Within n where
  ready := h.ready
  task j t hj := by
    by_cases hji : j = i
    · subst hji
      exact htask t (by simpa [PoolWorld.setWorker] using hj)
    · exact h.task j t (by simpa [PoolWorld.setWorker, hji] using hj)
  child j t hj := by
    by_cases hji : j = i
    · subst hji
      exact hchild t (by simpa [PoolWorld.setWorker] using hj)
    · exact h.child j t (by simpa [PoolWorld.setWorker, hji] using hj)
  trigger j τ hj := by
    by_cases hji : j = i
    · subst hji
      exact htrigger τ (by simpa [PoolWorld.setWorker] using hj)
    · exact h.trigger j τ (by simpa [PoolWorld.setWorker, hji] using hj)
  registered := h.registered
  served := h.served

lemma Within.pushReady (h : w.Within n) (ht : t < w.created) (accepted : Bool) :
    (w.pushReady accepted t).Within n := by
  cases accepted with
  | false => exact h
  | true =>
    refine ⟨fun u hu => ?_, h.task, h.child, h.trigger, h.registered, h.served⟩
    rcases List.mem_append.mp hu with hu | hu
    · exact h.ready u hu
    · rw [List.mem_singleton.mp hu]
      exact ht

lemma created_le_callReturns (status : CallStatus) :
    w.created ≤ (w.callReturns i t status).created := by
  unfold callReturns
  split
  case h_3 => exact Nat.le_succ _
  all_goals exact le_rfl

lemma Within.callReturns (h : w.Within n) (hrun : w.worker i = .running t) {status : CallStatus}
    (hτ : ∀ τ spawn, status = .kWaiting τ spawn → τ < n) :
    (w.callReturns i t status).Within n := by
  have ht : t < w.created := h.task i t (by rw [hrun]; rfl)
  unfold PoolWorld.callReturns
  split
  case h_1 =>
    apply h.setWorker <;> simp [WorkerPhase.task, WorkerPhase.child, WorkerPhase.trigger, ht]
  case h_2 τ =>
    have hτ' := hτ τ false rfl
    apply h.setWorker <;> simp [WorkerPhase.task, WorkerPhase.child, WorkerPhase.trigger, ht, hτ']
  case h_3 τ =>
    have hτ' := hτ τ true rfl
    have ht' : t < w.created + 1 := ht.trans (Nat.lt_succ_self _)
    refine h.create.setWorker ?_ ?_ ?_
    · rintro _ ⟨⟩
      exact ht'
    · rintro _ ⟨⟩
      exact Nat.lt_succ_self _
    · rintro _ ⟨⟩
      exact hτ'
  case h_4 =>
    have hidle : (w.setWorker i .idle).Within n := by
      apply h.setWorker <;> simp [WorkerPhase.task, WorkerPhase.child, WorkerPhase.trigger]
    exact ⟨hidle.ready, hidle.task, hidle.child, hidle.trigger, hidle.registered, hidle.served⟩

lemma Within.register (h : w.Within n) (ht : t < w.created) (hτ : τ < n) (id : Int) :
    (w.register t id τ).Within n := by
  refine ⟨h.ready, h.task, h.child, h.trigger, fun x hx => ?_, h.served⟩
  rcases List.mem_append.mp hx with hx | hx
  · exact h.registered x hx
  · rw [List.mem_singleton.mp hx]
    exact ⟨hτ, ht⟩

lemma Within.tasksOn (h : w.Within n) (ht : t ∈ w.tasksOn τ) : τ < n ∧ t < w.created := by
  obtain ⟨x, hx, rfl⟩ := List.mem_map.mp ht
  rw [registrationsOn, List.mem_filter, decide_eq_true_eq] at hx
  rw [← hx.2]
  exact h.registered x hx.1

lemma Within.notify (h : w.Within n) (accepted : List Bool) :
    (w.afterNotify τ (withOutcomes (w.tasksOn τ) accepted)).Within n := by
  have hsub := (woken_sublist (w.tasksOn τ) accepted).subset
  rw [afterNotify_eq]
  refine ⟨fun u hu => ?_, h.task, h.child, h.trigger, h.registered, fun σ hσ => ?_⟩
  · rcases List.mem_append.mp hu with hu | hu
    · exact h.ready u hu
    · exact (h.tasksOn (hsub hu)).2
  · simp only at hσ
    split at hσ
    · exact h.served σ hσ
    case isFalse hne =>
      rcases List.mem_cons.mp hσ with rfl | hσ
      · obtain ⟨u, hu⟩ := List.exists_mem_of_ne_nil _ hne
        exact (h.tasksOn (hsub hu)).1
      · exact h.served σ hσ

end PoolWorld

namespace AwaitWorld

variable {w w' : AwaitWorld} {i t τ : Nat}

lemma body_eq_some (h : w.body i = some t) :
    w.pool.worker i = .running t ∧ w.spot t = .body := by
  unfold body at h
  split at h
  · split at h
    · cases h
      exact ⟨‹_›, ‹_›⟩
    · cases h
  · cases h

lemma userCode_eq_some (h : w.userCode i = some t) :
    w.pool.worker i = .running t ∧ w.spot t = .body ∧ (w.job t = none ∨ w.stage t = .func) := by
  obtain ⟨s, hs, h⟩ := Option.bind_eq_some_iff.mp h
  split at h
  · cases h
    exact ⟨(body_eq_some hs).1, (body_eq_some hs).2, ‹_›⟩
  · cases h

lemma jobAt_eq_some {s : JobStage} {x : Nat × Job} (h : w.jobAt i s = some x) :
    w.pool.worker i = .running x.1 ∧ w.spot x.1 = .body ∧ w.job x.1 = some x.2 ∧
      w.stage x.1 = s := by
  obtain ⟨u, hu, h⟩ := Option.bind_eq_some_iff.mp h
  split at h
  · split at h
    · cases h
      exact ⟨(body_eq_some hu).1, (body_eq_some hu).2, ‹_›, ‹_›⟩
    · cases h
  · cases h

/-- The state after a `notify` that tries the tasks registered on its trigger. -/
def notified (w : AwaitWorld) (τ : Nat) (accepted : List Bool) : AwaitWorld :=
  let ts := woken (withOutcomes (w.pool.tasksOn τ) accepted)
  { w with pool := w.pool.afterNotify τ (withOutcomes (w.pool.tasksOn τ) accepted)
           wakes := w.wakes ++ ts.map (Prod.mk τ) }

inductive Effect (w : AwaitWorld) : AwaitStep → AwaitWorld → Prop
  | newTrigger : Effect w .newTrigger { w with triggers := w.triggers + 1 }
  | go (accepted : Bool) :
    Effect w (.go accepted) { w with
      pool := { w.pool.pushReady accepted w.pool.created with created := w.pool.created + 1 } }
  | pop (i index t : Nat) (hidle : w.pool.worker i = .idle)
      (ht : w.pool.ready[index]? = some t) (hresume : w.resumable t) :
    Effect w (.pop i index) { w with
      pool := { w.pool.setWorker i (.running t) with ready := w.pool.ready.eraseIdx index }
      spot := Function.update w.spot t .body
      resumedFrom := Function.update w.resumedFrom t (w.spot t) }
  | yield (i t : Nat) (hrun : w.pool.worker i = .running t) (hspot : w.spot t = .body) :
    Effect w (.yield i) (w.leave i t .kReady .inYield)
  | awaitTrigger (i t τ : Nat) (hrun : w.pool.worker i = .running t) (hspot : w.spot t = .body)
      (hτ : τ < w.triggers) (huse : w.use τ = .user) :
    Effect w (.awaitTrigger i τ) (w.leave i t (.kWaiting τ false) (.inTrigger τ))
  | awaitFunction (i t : Nat) (returning : Bool) (hrun : w.pool.worker i = .running t)
      (hspot : w.spot t = .body) :
    Effect w (.awaitFunction i returning) (w.awaitFunction i t returning)
  | armTimer (i t : Nat) (hrun : w.pool.worker i = .running t) (hspot : w.spot t = .body) :
    Effect w (.armTimer i) (w.armTimer t)
  | suspendTimer (i t τ : Nat) (hrun : w.pool.worker i = .running t)
      (hspot : w.spot t = .arming τ) :
    Effect w (.suspendTimer i) (w.leave i t (.kWaiting τ false) (.inTimer τ))
  | funcReturn (i c : Nat) (job : Job) (hrun : w.pool.worker i = .running c)
      (hspot : w.spot c = .body) (hjob : w.job c = some job) (hstage : w.stage c = .func) :
    Effect w (.funcReturn i) (w.setStage c .funcDone)
  | childNotify (i c : Nat) (job : Job) (accepted : List Bool)
      (hrun : w.pool.worker i = .running c) (hspot : w.spot c = .body)
      (hjob : w.job c = some job) (hstage : w.stage c = .funcDone) :
    Effect w (.childNotify i accepted)
      ((w.notified job.trigger accepted).setStage c .notified)
  | publish (i c : Nat) (job : Job) (hrun : w.pool.worker i = .running c)
      (hspot : w.spot c = .body) (hjob : w.job c = some job) (hstage : w.stage c = .notified) :
    Effect w (.publish i) (w.setStage c .published)
  | bodyReturn (i t : Nat) (hrun : w.pool.worker i = .running t) (hspot : w.spot t = .body) :
    Effect w (.bodyReturn i) (w.leave i t .kFinished .ended)
  | requeue (i t : Nat) (accepted : Bool) (hphase : w.pool.worker i = .yielded t) :
    Effect w (.requeue i accepted)
      { w with pool := (w.pool.setWorker i .idle).pushReady accepted t }
  | waitPush (i t τ : Nat) (c : Option Nat) (hphase : w.pool.worker i = .waiting t τ c) :
    Effect w (.waitPush i) { w with
      pool := { w.pool.setWorker i (.waitPushed t (w.pool.waitQueue.push (some t)).1 τ c) with
        waitQueue := (w.pool.waitQueue.push (some t)).2 } }
  | register (i t τ : Nat) (id : Int) (c : Option Nat)
      (hphase : w.pool.worker i = .waitPushed t id τ c) :
    Effect w (.register i)
      { w with pool := (w.pool.setWorker i (.registered c)).register t id τ }
  | pushNone (i : Nat) (accepted : Bool) (hphase : w.pool.worker i = .registered none) :
    Effect w (.pushChild i accepted) { w with pool := w.pool.setWorker i .idle }
  | pushChild (i c : Nat) (accepted : Bool) (hphase : w.pool.worker i = .registered (some c)) :
    Effect w (.pushChild i accepted)
      { w with pool := (w.pool.setWorker i .idle).pushReady accepted c }
  | notify (τ : Nat) (accepted : List Bool) (hτ : τ < w.triggers) (huse : w.use τ = .user) :
    Effect w (.notify τ accepted) (w.notified τ accepted)
  | timerCallback (τ t : Nat) (accepted : List Bool) (huse : w.use τ = .timer t)
      (hfired : τ ∉ w.fired) :
    Effect w (.timerCallback τ accepted)
      { w.notified τ accepted with fired := τ :: w.fired }

lemma notify_eq_some {items : List (Option Nat)} (hreg : w.pool.Registry items)
    {accepted : List Bool} : w.notify τ accepted = some (w.notified τ accepted) := by
  simp only [notify, hreg.notify_eq, Option.map_some, notified, afterNotify_eq,
    List.drop_left]

lemma effect_of_step {items : List (Option Nat)} (hreg : w.pool.Registry items) {a : AwaitStep}
    (hstep : w.step a = some w') : Effect w a w' := by
  cases a with
  | newTrigger =>
    cases hstep
    exact .newTrigger
  | go accepted =>
    cases hstep
    exact .go accepted
  | pop i index =>
    obtain ⟨t, ht, hstep⟩ := Option.bind_eq_some_iff.mp hstep
    split at hstep
    case isTrue hresume =>
      cases hidle : w.pool.worker i <;>
        simp only [PoolWorld.step, hidle, ht, Option.map_none, Option.map_some, reduceCtorEq,
          Option.some.injEq] at hstep
      subst hstep
      exact .pop i index t hidle ht hresume
    case isFalse => cases hstep
  | yield i =>
    obtain ⟨t, ht, rfl⟩ := Option.map_eq_some_iff.mp hstep
    obtain ⟨hrun, hspot, -⟩ := userCode_eq_some ht
    exact .yield i t hrun hspot
  | awaitTrigger i τ =>
    simp only [step] at hstep
    split at hstep
    case isTrue hτ =>
      obtain ⟨t, ht, rfl⟩ := Option.map_eq_some_iff.mp hstep
      obtain ⟨hrun, hspot, -⟩ := userCode_eq_some ht
      exact .awaitTrigger i t τ hrun hspot hτ.1 hτ.2
    case isFalse => cases hstep
  | awaitFunction i returning =>
    obtain ⟨t, ht, rfl⟩ := Option.map_eq_some_iff.mp hstep
    obtain ⟨hrun, hspot, -⟩ := userCode_eq_some ht
    exact .awaitFunction i t returning hrun hspot
  | armTimer i =>
    obtain ⟨t, ht, rfl⟩ := Option.map_eq_some_iff.mp hstep
    obtain ⟨hrun, hspot, -⟩ := userCode_eq_some ht
    exact .armTimer i t hrun hspot
  | suspendTimer i =>
    simp only [step, suspendTimer] at hstep
    split at hstep
    · split at hstep
      · cases hstep
        exact .suspendTimer i _ _ ‹_› ‹_›
      · cases hstep
    · cases hstep
  | funcReturn i =>
    obtain ⟨x, hx, rfl⟩ := Option.map_eq_some_iff.mp hstep
    obtain ⟨hrun, hspot, hjob, hstage⟩ := jobAt_eq_some hx
    exact .funcReturn i x.1 x.2 hrun hspot hjob hstage
  | childNotify i accepted =>
    obtain ⟨x, hx, hstep⟩ := Option.bind_eq_some_iff.mp hstep
    obtain ⟨hrun, hspot, hjob, hstage⟩ := jobAt_eq_some hx
    rw [notify_eq_some hreg, Option.map_some] at hstep
    cases hstep
    exact .childNotify i x.1 x.2 accepted hrun hspot hjob hstage
  | publish i =>
    obtain ⟨x, hx, hstep⟩ := Option.bind_eq_some_iff.mp hstep
    obtain ⟨hrun, hspot, hjob, hstage⟩ := jobAt_eq_some hx
    split at hstep
    · cases hstep
      exact .publish i x.1 x.2 hrun hspot hjob hstage
    · cases hstep
  | bodyReturn i =>
    obtain ⟨t, ht, hstep⟩ := Option.bind_eq_some_iff.mp hstep
    obtain ⟨hrun, hspot⟩ := body_eq_some ht
    split at hstep
    · cases hstep
      exact .bodyReturn i t hrun hspot
    · rw [Option.ite_none_right_eq_some] at hstep
      obtain ⟨-, hstep⟩ := hstep
      cases hstep
      exact .bodyReturn i t hrun hspot
  | requeue i accepted =>
    cases hphase : w.pool.worker i <;>
      simp only [step, onPool, PoolWorld.step, hphase, Option.map_none, Option.map_some,
        reduceCtorEq, Option.some.injEq] at hstep
    subst hstep
    exact .requeue i _ accepted hphase
  | waitPush i =>
    cases hphase : w.pool.worker i <;>
      simp only [step, onPool, PoolWorld.step, hphase, Option.map_none, Option.map_some,
        reduceCtorEq, Option.some.injEq] at hstep
    subst hstep
    exact .waitPush i _ _ _ hphase
  | register i =>
    cases hphase : w.pool.worker i <;>
      simp only [step, onPool, PoolWorld.step, hphase, Option.map_none, Option.map_some,
        reduceCtorEq, Option.some.injEq] at hstep
    subst hstep
    exact .register i _ _ _ _ hphase
  | pushChild i accepted =>
    obtain ⟨pool, hpool, rfl⟩ := Option.map_eq_some_iff.mp hstep
    simp only [PoolWorld.step] at hpool
    split at hpool
    case h_1 hphase =>
      cases hpool
      exact .pushNone i accepted hphase
    case h_2 c hphase =>
      cases hpool
      exact .pushChild i c accepted hphase
    case h_3 => cases hpool
  | notify τ accepted =>
    simp only [step] at hstep
    split at hstep
    case isTrue hτ =>
      rw [notify_eq_some hreg] at hstep
      cases hstep
      exact .notify τ accepted hτ.1 hτ.2
    case isFalse => cases hstep
  | timerCallback τ accepted =>
    simp only [step, timerCallback] at hstep
    split at hstep
    case h_1 t huse =>
      split at hstep
      case isTrue => cases hstep
      case isFalse hfired =>
        rw [notify_eq_some hreg, Option.map_some] at hstep
        cases hstep
        exact .timerCallback τ t accepted huse hfired
    case h_2 => cases hstep

/-- The condition on a step: `wait_queue` has room for the task that is pushed to it. -/
def WaitRoom (w : AwaitWorld) : AwaitStep → Prop
  | .waitPush _ => w.pool.waitQueue.pushCount < kWaitQueueSize
  | _ => True

instance (w : AwaitWorld) : DecidablePred w.WaitRoom := fun a =>
  match a with
  | .waitPush _ => inferInstanceAs (Decidable (_ < _))
  | .newTrigger | .go _ | .pop _ _ | .yield _ | .awaitTrigger _ _ | .awaitFunction _ _
  | .armTimer _ | .suspendTimer _ | .funcReturn _ | .childNotify _ _ | .publish _ | .bodyReturn _
  | .requeue _ _ | .register _ | .pushChild _ _ | .notify _ _ | .timerCallback _ _ => isTrue trivial

/-- The step is a `notify` of the trigger. -/
def Notifies (w : AwaitWorld) (τ : Nat) : AwaitStep → Prop
  | .notify σ _ => σ = τ
  | .timerCallback σ _ => σ = τ
  | .childNotify i _ => ∃ c job, w.pool.worker i = .running c ∧ w.job c = some job ∧
      w.stage c = .funcDone ∧ job.trigger = τ
  | _ => False

/-- The pool makes a step of its own or none, and its conditions carry over. -/
lemma Effect.pool_step {items : List (Option Nat)} (hreg : w.pool.Registry items) {a : AwaitStep}
    (h : Effect w a w') :
    w'.pool = w.pool ∨ ∃ b, w.pool.step b = some w'.pool ∧ (w.WaitRoom a → w.pool.WaitRoom b) ∧
      ((∀ τ, w.Notifies τ a → τ ∉ w.pool.served) → w.pool.NotifyOnce b) := by
  have hrunning : ∀ {i t} (status : CallStatus), w.pool.worker i = .running t →
      w.pool.step (.call i status) = some (w.pool.callReturns i t status) := by
    intro i t status hrun
    simp only [PoolWorld.step, hrun]
  cases h with
  | newTrigger => exact .inl rfl
  | go accepted => exact .inr ⟨.go accepted, rfl, fun _ => trivial, fun _ => trivial⟩
  | pop i index t hidle ht hresume =>
    exact .inr ⟨.pop i index, by simp only [PoolWorld.step, hidle, ht], fun _ => trivial,
      fun _ => trivial⟩
  | yield i t hrun hspot =>
    exact .inr ⟨_, hrunning .kReady hrun, fun _ => trivial, fun _ => trivial⟩
  | awaitTrigger i t τ hrun hspot hτ huse =>
    exact .inr ⟨_, hrunning (.kWaiting τ false) hrun, fun _ => trivial, fun _ => trivial⟩
  | awaitFunction i t returning hrun hspot =>
    exact .inr ⟨_, hrunning (.kWaiting w.triggers true) hrun, fun _ => trivial, fun _ => trivial⟩
  | armTimer i t hrun hspot => exact .inl rfl
  | suspendTimer i t τ hrun hspot =>
    exact .inr ⟨_, hrunning (.kWaiting τ false) hrun, fun _ => trivial, fun _ => trivial⟩
  | funcReturn i c job hrun hspot hjob hstage => exact .inl rfl
  | childNotify i c job accepted hrun hspot hjob hstage =>
    exact .inr ⟨.notify job.trigger accepted, hreg.notify_eq _ _, fun _ => trivial,
      fun h => h _ ⟨c, job, hrun, hjob, hstage, rfl⟩⟩
  | publish i c job hrun hspot hjob hstage => exact .inl rfl
  | bodyReturn i t hrun hspot =>
    exact .inr ⟨_, hrunning .kFinished hrun, fun _ => trivial, fun _ => trivial⟩
  | requeue i t accepted hphase =>
    exact .inr ⟨.requeue i accepted, by simp only [PoolWorld.step, hphase], fun _ => trivial,
      fun _ => trivial⟩
  | waitPush i t τ c hphase =>
    exact .inr ⟨.waitPush i, by simp only [PoolWorld.step, hphase], fun hok => hok,
      fun _ => trivial⟩
  | register i t τ id c hphase =>
    exact .inr ⟨.register i, by simp only [PoolWorld.step, hphase], fun _ => trivial,
      fun _ => trivial⟩
  | pushNone i accepted hphase =>
    exact .inr ⟨.pushChild i accepted, by simp only [PoolWorld.step, hphase], fun _ => trivial,
      fun _ => trivial⟩
  | pushChild i c accepted hphase =>
    exact .inr ⟨.pushChild i accepted, by simp only [PoolWorld.step, hphase], fun _ => trivial,
      fun _ => trivial⟩
  | notify τ accepted hτ huse =>
    exact .inr ⟨.notify τ accepted, hreg.notify_eq _ _, fun _ => trivial, fun h => h τ rfl⟩
  | timerCallback τ t accepted huse hfired =>
    exact .inr ⟨.notify τ accepted, hreg.notify_eq _ _, fun _ => trivial, fun h => h τ rfl⟩

lemma Effect.registry {items : List (Option Nat)} (hreg : w.pool.Registry items) {a : AwaitStep}
    (h : Effect w a w') (hok : w.WaitRoom a) : ∃ items', w'.pool.Registry items' := by
  rcases h.pool_step hreg with hsame | ⟨b, hb, hroom, -⟩
  · rw [hsame]
    exact ⟨items, hreg⟩
  · exact hreg.step (hroom hok) hb

/-- The tasks and triggers in use are among those made so far. -/
structure Counted (w : AwaitWorld) : Prop where
  pool : w.pool.Within w.triggers
  use : ∀ τ, w.use τ ≠ .user → τ < w.triggers
  job : ∀ t, w.job t ≠ none → t < w.pool.created
  owner : ∀ c job, w.job c = some job → w.use job.trigger = .child c
  spot : ∀ t, w.spot t ≠ .start → t < w.pool.created
  stage : ∀ t, w.stage t ≠ .func → t < w.pool.created
  arming : ∀ t τ, w.spot t = .arming τ → w.use τ = .timer t
  fired : ∀ τ ∈ w.fired, τ < w.triggers
  wakes : ∀ x ∈ w.wakes, x.1 < w.triggers

lemma counted_init : init.Counted := by
  refine ⟨within_init, ?_, ?_, ?_, ?_, ?_, ?_, ?_, ?_⟩ <;> simp [init]

/-- A step that only the pool sees. -/
lemma Counted.of_pool (hw : w.Counted) {pool : PoolWorld} (hpool : pool.Within w.triggers)
    (hcreated : w.pool.created ≤ pool.created) : Counted { w with pool := pool } where
  pool := hpool
  use := hw.use
  job t ht := (hw.job t ht).trans_le hcreated
  owner := hw.owner
  spot t ht := (hw.spot t ht).trans_le hcreated
  stage t ht := (hw.stage t ht).trans_le hcreated
  arming := hw.arming
  fired := hw.fired
  wakes := hw.wakes

lemma Counted.setSpot (hw : w.Counted) {s : TaskSpot} (ht : t < w.pool.created)
    (hs : ∀ τ, s = .arming τ → w.use τ = .timer t) :
    Counted { w with spot := Function.update w.spot t s } where
  pool := hw.pool
  use := hw.use
  job := hw.job
  owner := hw.owner
  spot u hu := by
    by_cases hut : u = t
    · rw [hut]
      exact ht
    · exact hw.spot u (by simpa [hut] using hu)
  stage := hw.stage
  arming u τ hu := by
    by_cases hut : u = t
    · subst hut
      exact hs τ (by simpa using hu)
    · exact hw.arming u τ (by simpa [hut] using hu)
  fired := hw.fired
  wakes := hw.wakes

lemma Counted.setStage (hw : w.Counted) (ht : t < w.pool.created) (s : JobStage) :
    (w.setStage t s).Counted := by
  refine ⟨hw.pool, hw.use, hw.job, hw.owner, hw.spot, fun u hu => ?_, hw.arming, hw.fired,
    hw.wakes⟩
  by_cases hut : u = t
  · rw [hut]
    exact ht
  · exact hw.stage u (by simpa [AwaitWorld.setStage, hut] using hu)

lemma Counted.newTrigger (hw : w.Counted) (x : TriggerUse) :
    Counted { w with triggers := w.triggers + 1, use := Function.update w.use w.triggers x } where
  pool := hw.pool.grow (Nat.le_succ _)
  use τ hτ := by
    by_cases h : τ = w.triggers
    · rw [h]
      exact Nat.lt_succ_self _
    · exact (hw.use τ (by simpa [h] using hτ)).trans (Nat.lt_succ_self _)
  job := hw.job
  owner c job hc := by
    have hτ := hw.use job.trigger (by simp [hw.owner c job hc])
    simp only [Function.update_of_ne hτ.ne]
    exact hw.owner c job hc
  spot := hw.spot
  stage := hw.stage
  arming t τ h := by
    have hτ := hw.use τ (by simp [hw.arming t τ h])
    simp only [Function.update_of_ne hτ.ne]
    exact hw.arming t τ h
  fired τ h := (hw.fired τ h).trans (Nat.lt_succ_self _)
  wakes x h := (hw.wakes x h).trans (Nat.lt_succ_self _)

lemma Counted.running (hw : w.Counted) (hrun : w.pool.worker i = .running t) :
    t < w.pool.created :=
  hw.pool.task i t (by rw [hrun]; rfl)

lemma Counted.leave (hw : w.Counted) (hrun : w.pool.worker i = .running t) {status : CallStatus}
    {s : TaskSpot} (hτ : ∀ τ spawn, status = .kWaiting τ spawn → τ < w.triggers)
    (hs : ∀ τ, s ≠ .arming τ) : (w.leave i t status s).Counted := by
  have hcreated := created_le_callReturns (w := w.pool) (i := i) (t := t) status
  have hpool := hw.of_pool (hw.pool.callReturns hrun hτ) hcreated
  exact hpool.setSpot ((hw.running hrun).trans_le hcreated) fun τ h => absurd h (hs τ)

lemma Counted.notified (hw : w.Counted) (hτ : τ < w.triggers) (accepted : List Bool) :
    (w.notified τ accepted).Counted := by
  refine ⟨hw.pool.notify accepted, hw.use, hw.job, hw.owner, hw.spot, hw.stage, hw.arming,
    hw.fired, ?_⟩
  intro x hx
  rcases List.mem_append.mp hx with hx | hx
  · exact hw.wakes x hx
  · obtain ⟨u, -, rfl⟩ := List.mem_map.mp hx
    exact hτ

lemma Counted.awaitFunction (hw : w.Counted) (hrun : w.pool.worker i = .running t)
    (returning : Bool) : (w.awaitFunction i t returning).Counted := by
  have hfresh : ∀ τ spawn, CallStatus.kWaiting w.triggers true = .kWaiting τ spawn →
      τ < w.triggers + 1 := by
    rintro τ spawn h
    cases h
    exact Nat.lt_succ_self _
  have hnew := (hw.newTrigger (.child w.pool.created)).leave (s := .inFunction w.pool.created) hrun
    hfresh (by simp)
  refine ⟨hnew.pool, hnew.use, fun u hu => ?_, fun u job hu => ?_, hnew.spot, hnew.stage,
    hnew.arming, hnew.fired, hnew.wakes⟩
  · by_cases huc : u = w.pool.created
    · rw [huc]
      exact Nat.lt_succ_self _
    · exact hnew.job u (by simpa [AwaitWorld.awaitFunction, AwaitWorld.leave, huc] using hu)
  · by_cases huc : u = w.pool.created
    · subst huc
      simp only [AwaitWorld.awaitFunction, Function.update_self, Option.some.injEq] at hu
      simp [AwaitWorld.awaitFunction, ← hu]
    · exact hnew.owner u job (by simpa [AwaitWorld.awaitFunction, AwaitWorld.leave, huc] using hu)

lemma Counted.job_trigger (hw : w.Counted) {c : Nat} {job : Job} (hjob : w.job c = some job) :
    job.trigger < w.triggers :=
  hw.use _ (by simp [hw.owner c job hjob])

lemma Counted.step {a : AwaitStep} (hw : w.Counted) (h : Effect w a w') : w'.Counted := by
  cases h with
  | newTrigger =>
    have hnew := hw.newTrigger (w.use w.triggers)
    rwa [Function.update_eq_self] at hnew
  | go accepted =>
    have hgrow := hw.of_pool hw.pool.create (Nat.le_succ _)
    have hpush := hgrow.of_pool (hgrow.pool.pushReady (Nat.lt_succ_self w.pool.created) accepted)
    cases accepted <;> exact hpush le_rfl
  | pop i index t hidle ht hresume =>
    have hlt := hw.pool.ready t (List.mem_of_getElem? ht)
    have hpool : (w.pool.setWorker i (.running t)).Within w.triggers := by
      apply hw.pool.setWorker <;>
        simp [WorkerPhase.task, WorkerPhase.child, WorkerPhase.trigger, hlt]
    have herase : Within w.triggers
        { w.pool.setWorker i (.running t) with ready := w.pool.ready.eraseIdx index } :=
      ⟨fun u hu => hw.pool.ready u (List.mem_of_mem_eraseIdx hu), hpool.task, hpool.child,
        hpool.trigger, hpool.registered, hpool.served⟩
    have hspot := (hw.of_pool herase le_rfl).setSpot (s := .body) hlt (by simp)
    exact ⟨hspot.pool, hspot.use, hspot.job, hspot.owner, hspot.spot, hspot.stage, hspot.arming,
      hspot.fired, hspot.wakes⟩
  | yield i t hrun hspot => exact hw.leave hrun (by simp) (by simp)
  | awaitTrigger i t τ hrun hspot hτ huse =>
    refine hw.leave hrun ?_ (by simp)
    rintro σ spawn h
    cases h
    exact hτ
  | awaitFunction i t returning hrun hspot => exact hw.awaitFunction hrun returning
  | armTimer i t hrun hspot =>
    exact (hw.newTrigger (.timer t)).setSpot (hw.running hrun) (by rintro τ h; cases h; simp)
  | suspendTimer i t τ hrun hspot =>
    refine hw.leave hrun ?_ (by simp)
    rintro σ spawn h
    cases h
    exact hw.use τ (by simp [hw.arming t τ hspot])
  | funcReturn i c job hrun hspot hjob hstage => exact hw.setStage (hw.running hrun) _
  | childNotify i c job accepted hrun hspot hjob hstage =>
    exact (hw.notified (hw.job_trigger hjob) accepted).setStage (hw.running hrun) _
  | publish i c job hrun hspot hjob hstage => exact hw.setStage (hw.running hrun) _
  | bodyReturn i t hrun hspot => exact hw.leave hrun (by simp) (by simp)
  | requeue i t accepted hphase =>
    have hidle : (w.pool.setWorker i .idle).Within w.triggers := by
      apply hw.pool.setWorker <;> simp [WorkerPhase.task, WorkerPhase.child, WorkerPhase.trigger]
    have ht : t < w.pool.created := hw.pool.task i t (by rw [hphase]; rfl)
    exact hw.of_pool (hidle.pushReady ht accepted) (by cases accepted <;> exact le_rfl)
  | waitPush i t τ c hphase =>
    have htask : t < w.pool.created := hw.pool.task i t (by rw [hphase]; rfl)
    have hτ : τ < w.triggers := hw.pool.trigger i τ (by rw [hphase]; rfl)
    have hchild : ∀ u ∈ c, u < w.pool.created := by
      intro u hu
      exact hw.pool.child i u (by rw [hphase]; exact hu)
    have hset := hw.pool.setWorker (i := i)
      (x := .waitPushed t (w.pool.waitQueue.push (some t)).1 τ c)
      (by simpa [WorkerPhase.task] using htask) hchild (by simpa [WorkerPhase.trigger] using hτ)
    exact hw.of_pool ⟨hset.ready, hset.task, hset.child, hset.trigger, hset.registered, hset.served⟩
      le_rfl
  | register i t τ id c hphase =>
    have htask : t < w.pool.created := hw.pool.task i t (by rw [hphase]; rfl)
    have hτ : τ < w.triggers := hw.pool.trigger i τ (by rw [hphase]; rfl)
    have hchild : ∀ u ∈ c, u < w.pool.created := by
      intro u hu
      exact hw.pool.child i u (by rw [hphase]; exact hu)
    have hset := hw.pool.setWorker (i := i) (x := .registered c) (by simp [WorkerPhase.task])
      hchild (by simp [WorkerPhase.trigger])
    exact hw.of_pool (hset.register htask hτ id) le_rfl
  | pushNone i accepted hphase =>
    refine hw.of_pool ?_ le_rfl
    apply hw.pool.setWorker <;> simp [WorkerPhase.task, WorkerPhase.child, WorkerPhase.trigger]
  | pushChild i c accepted hphase =>
    have hidle : (w.pool.setWorker i .idle).Within w.triggers := by
      apply hw.pool.setWorker <;> simp [WorkerPhase.task, WorkerPhase.child, WorkerPhase.trigger]
    have hc : c < w.pool.created := hw.pool.child i c (by rw [hphase]; rfl)
    exact hw.of_pool (hidle.pushReady hc accepted) (by cases accepted <;> exact le_rfl)
  | notify τ accepted hτ huse => exact hw.notified hτ accepted
  | timerCallback τ t accepted huse hfired =>
    have hτ := hw.use τ (by simp [huse])
    have hn := hw.notified hτ accepted
    refine ⟨hn.pool, hn.use, hn.job, hn.owner, hn.spot, hn.stage, hn.arming, ?_, hn.wakes⟩
    intro σ hσ
    rcases List.mem_cons.mp hσ with rfl | hσ
    · exact hτ
    · exact hw.fired σ hσ

end AwaitWorld

end CoplusLean
