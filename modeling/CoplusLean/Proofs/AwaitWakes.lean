import CoplusLean.Proofs.AwaitResults

/-!
# Every `await(func)` wakes its parent once

The trigger of an `await(func)` is notified by the child alone, at a time when the parent and
nobody else is registered on it.
-/

namespace CoplusLean

open Lib PoolWorld

namespace AwaitWorld

variable {w w' : AwaitWorld} {i t c τ : Nat} {job : Job}

/-- The condition on a step: `wait_queue` and the ready queue accept what is pushed. -/
def QueuesAccept (w : AwaitWorld) : AwaitStep → Prop
  | .waitPush _ => w.pool.waitQueue.pushCount < kWaitQueueSize
  | .go accepted => accepted = true
  | .requeue _ accepted => accepted = true
  | .pushChild _ accepted => accepted = true
  | .childNotify _ accepted => ∀ b ∈ accepted, b = true
  | .notify _ accepted => ∀ b ∈ accepted, b = true
  | .timerCallback _ accepted => ∀ b ∈ accepted, b = true
  | _ => True

instance (w : AwaitWorld) : DecidablePred w.QueuesAccept := fun a =>
  match a with
  | .waitPush _ => inferInstanceAs (Decidable (_ < _))
  | .go _ | .requeue _ _ | .pushChild _ _ => inferInstanceAs (Decidable (_ = _))
  | .childNotify _ _ | .notify _ _ | .timerCallback _ _ =>
    inferInstanceAs (Decidable (∀ b ∈ _, b = true))
  | .newTrigger | .pop _ _ | .yield _ | .awaitTrigger _ _ | .awaitFunction _ _ | .armTimer _
  | .suspendTimer _ | .funcReturn _ | .publish _ | .bodyReturn _ | .register _ => isTrue trivial

lemma QueuesAccept.waitRoom {a : AwaitStep} (h : w.QueuesAccept a) : w.WaitRoom a := by
  cases a with
  | waitPush i => exact h
  | _ => trivial

def wakesOn (w : AwaitWorld) (τ : Nat) : List (Nat × Nat) := w.wakes.filter (·.1 = τ)

/-- Nobody is woken through the trigger of a child before its `notify`, and the parent once
by it. -/
def WokenOnce (w : AwaitWorld) (c : Nat) (job : Job) : Prop :=
  w.wakesOn job.trigger =
    if w.stage c = .func ∨ w.stage c = .funcDone then [] else [(job.trigger, job.parent)]

lemma wakesOn_notified (σ : Nat) (accepted : List Bool) :
    (w.notified σ accepted).wakesOn τ = w.wakesOn τ ++
      if σ = τ then (woken (withOutcomes (w.pool.tasksOn σ) accepted)).map (Prod.mk σ) else [] := by
  simp only [wakesOn, notified, List.filter_append]
  congr 1
  by_cases hσ : σ = τ
  · simp [hσ]
  · simp [hσ]

lemma woken_of_accepted (tasks : List Nat) {accepted : List Bool} (h : ∀ b ∈ accepted, b = true) :
    woken (withOutcomes tasks accepted) = tasks := by
  induction tasks generalizing accepted with
  | nil => rfl
  | cons t ts ih =>
    have hhead : accepted.headD true = true := by
      cases accepted with
      | nil => rfl
      | cons b bs => exact h b List.mem_cons_self
    have htail : woken (withOutcomes ts accepted.tail) = ts :=
      ih fun b hb => h b (List.mem_of_mem_tail hb)
    simp only [woken, withOutcomes, hhead, List.filter_cons, if_true, List.map_cons]
    exact congrArg (t :: ·) htail

/-- A child that has started was launched after its parent had been registered. -/
lemma Handshake.registrations (h : Handshake w c job) (hc : c ∈ w.pool.ready ∨ w.spot c ≠ .start) :
    ∃ id, w.pool.registrationsOn job.trigger = [(job.trigger, job.parent, id)] := by
  cases h with
  | pending i h1 h2 h3 h4 h5 h6 => exact absurd h6.spot (hc.resolve_left h6.ready)
  | registered i id h1 h2 h3 h4 h5 => exact ⟨id, h4⟩
  | launched id h1 h2 => exact ⟨id, h2⟩

lemma WokenOnce.of_same (h : WokenOnce w c job) (hwakes : w'.wakesOn job.trigger = w.wakesOn job.trigger)
    (hstage : w'.stage c = w.stage c) : WokenOnce w' c job := by
  rw [WokenOnce, hwakes, hstage]
  exact h

lemma WokenOnce.step (h : WokenOnce w c job) (hcount : w.Counted) (hshake : Handshake w c job)
    (hjob : w.job c = some job) {a : AwaitStep} (haccept : w.QueuesAccept a) (heff : Effect w a w') :
    WokenOnce w' c job := by
  have huse := hcount.owner c job hjob
  cases heff with
  | funcReturn i c' job' hrun hspot hjob' hstage =>
    by_cases hc : c = c'
    · subst hc
      simp only [WokenOnce, hstage, true_or, if_true] at h
      simpa [WokenOnce, setStage, wakesOn] using h
    · exact h.of_same rfl (by simp [setStage, hc])
  | childNotify i c' job' accepted hrun hspot hjob' hstage =>
    by_cases hc : c = c'
    · subst hc
      rw [hjob] at hjob'
      cases hjob'
      obtain ⟨id, hregs⟩ := hshake.registrations (Or.inr (by simp [hspot]))
      have hnone : w.wakesOn job.trigger = [] := by simpa [WokenOnce, hstage] using h
      have hall := wakesOn_notified (w := w) (τ := job.trigger) job.trigger accepted
      have htasks : w.pool.tasksOn job.trigger = [job.parent] := by simp [tasksOn, hregs]
      rw [hnone, if_pos rfl, woken_of_accepted _ haccept, htasks] at hall
      simp only [WokenOnce, setStage, Function.update_self, reduceCtorEq, or_self, if_false]
      exact hall
    · have hne : job'.trigger ≠ job.trigger := by
        intro heq
        have huse' := hcount.owner c' job' hjob'
        rw [heq, huse] at huse'
        cases huse'
        exact hc rfl
      refine h.of_same ?_ (by simp [setStage, hc, AwaitWorld.notified])
      have hall := wakesOn_notified (w := w) (τ := job.trigger) job'.trigger accepted
      rwa [if_neg hne, List.append_nil] at hall
  | publish i c' job' hrun hspot hjob' hstage =>
    by_cases hc : c = c'
    · subst hc
      simp only [WokenOnce, hstage, reduceCtorEq, or_self, if_false] at h
      simpa [WokenOnce, setStage, wakesOn] using h
    · exact h.of_same rfl (by simp [setStage, hc])
  | notify τ accepted hτ huser =>
    have hne : τ ≠ job.trigger := by
      rintro rfl
      rw [huse] at huser
      cases huser
    refine h.of_same ?_ rfl
    rw [wakesOn_notified, if_neg hne, List.append_nil]
  | timerCallback τ t accepted htimer hfired =>
    have hne : τ ≠ job.trigger := by
      rintro rfl
      rw [huse] at htimer
      cases htimer
    refine h.of_same ?_ rfl
    have hall := wakesOn_notified (w := w) (τ := job.trigger) τ accepted
    rwa [if_neg hne, List.append_nil] at hall
  | _ => exact h.of_same rfl rfl

/-- The handshakes of all children, with the wake-ups they have led to. -/
structure Handshakes (w : AwaitWorld) : Prop where
  counted : w.Counted
  started : w.Started
  shake : ∀ c job, w.job c = some job → Handshake w c job
  once : ∀ c job, w.job c = some job → WokenOnce w c job

lemma handshakes_init : init.Handshakes :=
  ⟨counted_init, started_init, by simp [init], by simp [init]⟩

/-- A new child has not woken anybody. -/
lemma wokenOnce_awaitFunction (hcount : w.Counted) (returning : Bool) :
    WokenOnce (w.awaitFunction i t returning) w.pool.created ⟨w.triggers, t, returning⟩ := by
  have hstage : w.stage w.pool.created = .func := by
    by_contra hne
    exact absurd (hcount.stage _ hne) (lt_irrefl _)
  have hnone : w.wakesOn w.triggers = [] := by
    refine List.filter_eq_nil_iff.mpr fun x hx => ?_
    simpa using (hcount.wakes x hx).ne
  simp only [WokenOnce, AwaitWorld.awaitFunction, leave, hstage, true_or, if_true]
  exact hnone

lemma Handshakes.step {a : AwaitStep} (hw : w.Handshakes) (haccept : w.QueuesAccept a)
    (heff : Effect w a w') : w'.Handshakes := by
  have hold : ∀ c job, w.job c = some job → Handshake w' c job ∧ WokenOnce w' c job := by
    intro c job hjob
    have hshake := hw.shake c job hjob
    exact ⟨hshake.step hw.counted hw.started hjob heff,
      (hw.once c job hjob).step hw.counted hshake hjob haccept heff⟩
  have hall : ∀ c job, w'.job c = some job → Handshake w' c job ∧ WokenOnce w' c job := by
    intro c job hjob
    cases heff with
    | awaitFunction i t returning hrun hspot =>
      by_cases hc : c = w.pool.created
      · subst hc
        simp only [AwaitWorld.awaitFunction, Function.update_self, Option.some.injEq] at hjob
        rw [← hjob]
        exact ⟨handshake_awaitFunction hw.counted hw.started hrun returning,
          wokenOnce_awaitFunction hw.counted returning⟩
      · exact hold c job (by simpa [AwaitWorld.awaitFunction, leave, hc] using hjob)
    | _ => exact hold c job hjob
  exact ⟨hw.counted.step heff, hw.started.step heff, fun c job h => (hall c job h).1,
    fun c job h => (hall c job h).2⟩

/-- In every run in which the queues accept what is pushed, for every `await(func)`: the child
enters the ready queue after its parent has been registered on the new trigger; when the child
is about to notify it, the parent alone is among the waiters; and the parent is woken through
the trigger once, by that `notify` and so after `func` has completed. Unless user code
notifies a trigger again that has woken a task, nothing else wakes the parent. -/
theorem await_function_wakes_once (steps : List AwaitStep) (w : AwaitWorld)
    (hok : Along step QueuesAccept init steps) (hrun : exec step init steps = some w) (c : Nat)
    (job : Job) (hjob : w.job c = some job) :
    (c ∈ w.pool.ready ∨ w.spot c ≠ .start →
      ∃ id, w.pool.registrationsOn job.trigger = [(job.trigger, job.parent, id)]) ∧
    (∀ i, w.jobAt i .funcDone = some (c, job) →
      ∃ id, w.pool.waiters job.trigger = [id] ∧
        w.pool.waitQueue.get id = .found (some job.parent)) ∧
    w.wakesOn job.trigger =
      (if w.stage c = .func ∨ w.stage c = .funcDone then [] else [(job.trigger, job.parent)]) ∧
    (Along step NotifyOnce init steps → w.pool.ready.Nodup ∧
      (w.spot job.parent = .inFunction c → w.stage c = .func ∨ w.stage c = .funcDone →
        job.parent ∉ w.pool.ready ∧ ∀ i, w.pool.worker i ≠ .running job.parent)) := by
  obtain ⟨⟨items, hreg⟩, hw⟩ : (∃ items, w.pool.Registry items) ∧ w.Handshakes := by
    refine exec_invariant
      (P := fun w : AwaitWorld => (∃ items, w.pool.Registry items) ∧ w.Handshakes)
      ?_ ⟨⟨[], registry_init⟩, handshakes_init⟩ hok hrun
    rintro u a v ⟨⟨items, hreg⟩, hu⟩ haccept hstep
    have heff := effect_of_step hreg hstep
    exact ⟨heff.registry hreg haccept.waitRoom, hu.step haccept heff⟩
  refine ⟨(hw.shake c job hjob).registrations, fun i hi => ?_, hw.once c job hjob, fun honce => ?_⟩
  · obtain ⟨-, hspot, -, -⟩ := jobAt_eq_some hi
    obtain ⟨id, hregs⟩ := (hw.shake c job hjob).registrations (Or.inr (by simp [hspot]))
    refine ⟨id, by simp [hreg.waiters, hregs], ?_⟩
    have hmem : (job.trigger, job.parent, id) ∈ w.pool.registrationsOn job.trigger := by
      simp [hregs]
    exact hreg.resolved _ (List.mem_filter.mp hmem).1
  · have hroom : Along step WaitRoom init steps := hok.mono fun _ _ h => h.waitRoom
    have hawaited := awaited_of_run (hroom.and honce) hrun
    obtain ⟨place, hplaced⟩ := hawaited.placed
    exact ⟨hplaced.nodup, hawaited.parent_waits⟩

/-- The child 1 of the task 0 awaits a child of its own, which wakes it. -/
def nested : List AwaitStep :=
  [.go true, .pop 0 0, .awaitFunction 0 false, .waitPush 0, .register 0, .pushChild 0 true,
    .pop 1 0, .awaitFunction 1 true, .waitPush 1, .register 1, .pushChild 1 true, .pop 0 0,
    .funcReturn 0, .childNotify 0 [], .publish 0, .bodyReturn 0, .pop 1 0, .funcReturn 1,
    .childNotify 1 []]

theorem await_function_wakes_once_nested :
    ∃ w, exec step init nested = some w ∧ w.job 1 = some ⟨0, 0, false⟩ ∧
      w.pool.ready = [0] ∧ w.wakesOn 0 = [(0, 0)] := by
  refine ⟨_, rfl, rfl, rfl, ?_⟩
  exact (await_function_wakes_once nested _ (by decide +kernel) rfl 1 ⟨0, 0, false⟩ rfl).2.2.1

end AwaitWorld

end CoplusLean
