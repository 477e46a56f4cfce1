import CoplusLean.Proofs.AwaitWakes

/-!
# Timers

`await(seconds)` arms its timer before the fiber gives up control, and the trigger keeps no
memory of a `notify` that found no waiter. A callback that runs before `Register` is
therefore lost and the task sleeps forever; one that runs after it wakes the task.
-/

namespace CoplusLean

open Lib PoolWorld

namespace AwaitWorld

variable {w w' : AwaitWorld} {i t c τ : Nat}

/-- No callback has run and its task has been registered, while the task is neither in the
ready queue nor resumed. -/
def NoTimerLost (w : AwaitWorld) : Prop :=
  ∀ τ t id, w.use τ = .timer t → τ ∈ w.fired → (τ, t, id) ∈ w.pool.registrations →
    w.spot t = .inTimer τ → t ∈ w.pool.ready

/-- The condition on a step: a timer callback runs after `Register` on its trigger and its
push is accepted, and the wait table has room. -/
def CallbackAfterRegister (w : AwaitWorld) : AwaitStep → Prop
  | .timerCallback τ accepted => w.pool.registrationsOn τ ≠ [] ∧ ∀ b ∈ accepted, b = true
  | .waitPush _ => w.pool.waitQueue.pushCount < kWaitQueueSize
  | _ => True

instance (w : AwaitWorld) : DecidablePred w.CallbackAfterRegister := fun a =>
  match a with
  | .timerCallback _ _ => inferInstanceAs (Decidable (_ ≠ _ ∧ ∀ b ∈ _, b = true))
  | .waitPush _ => inferInstanceAs (Decidable (_ < _))
  | .newTrigger | .go _ | .pop _ _ | .yield _ | .awaitTrigger _ _ | .awaitFunction _ _
  | .armTimer _ | .suspendTimer _ | .funcReturn _ | .childNotify _ _ | .publish _ | .bodyReturn _
  | .requeue _ _ | .register _ | .pushChild _ _ | .notify _ _ => isTrue trivial

lemma CallbackAfterRegister.waitRoom {a : AwaitStep} (h : w.CallbackAfterRegister a) :
    w.WaitRoom a := by
  cases a with
  | waitPush i => exact h
  | _ => trivial

/-- The trigger of a timer is used by its task alone. -/
structure Timed (w : AwaitWorld) : Prop where
  counted : w.Counted
  armed : ∀ t τ, w.spot t = .arming τ →
    w.pool.registrationsOn τ = [] ∧ ∀ i, (w.pool.worker i).trigger ≠ some τ
  pending : ∀ i τ t, (w.pool.worker i).trigger = some τ → w.use τ = .timer t →
    (w.pool.worker i).task = some t
  registered : ∀ x ∈ w.pool.registrations, ∀ t, w.use x.1 = .timer t → x.2.1 = t
  fired : ∀ τ ∈ w.fired, w.pool.registrationsOn τ ≠ []
  woken : ∀ τ t, w.use τ = .timer t → τ ∈ w.fired → w.spot t = .inTimer τ → t ∈ w.pool.ready

lemma timed_init : init.Timed where
  counted := counted_init
  armed := by simp [init]
  pending := by simp [init]
  registered := by simp [init, PoolWorld.init]
  fired := by simp [init]
  woken := by simp [init]

/-! ## Where registrations, callbacks and sleeping tasks come from -/

lemma registrations_callReturns {v : PoolWorld} (status : CallStatus) :
    (v.callReturns i t status).registrations = v.registrations := by
  unfold callReturns
  split <;> rfl

lemma Effect.registrations {a : AwaitStep} (h : Effect w a w') :
    w'.pool.registrations = w.pool.registrations ∨
      ∃ i τ t id, (w.pool.worker i).trigger = some τ ∧ (w.pool.worker i).task = some t ∧
        w'.pool.registrations = w.pool.registrations ++ [(τ, t, id)] ∧ w'.use = w.use := by
  cases h with
  | go accepted => exact Or.inl (by simp)
  | yield i t hrun hspot => exact Or.inl (registrations_callReturns _)
  | awaitTrigger i t τ hrun hspot hτ huse => exact Or.inl (registrations_callReturns _)
  | awaitFunction i t returning hrun hspot => exact Or.inl (registrations_callReturns _)
  | suspendTimer i t τ hrun hspot => exact Or.inl (registrations_callReturns _)
  | bodyReturn i t hrun hspot => exact Or.inl (registrations_callReturns _)
  | requeue i t accepted hphase => exact Or.inl (pushReady_registrations accepted t)
  | pushChild i c accepted hphase => exact Or.inl (pushReady_registrations accepted c)
  | register i t τ id c hphase =>
    exact Or.inr ⟨i, τ, t, id, by rw [hphase]; rfl, by rw [hphase]; rfl, rfl, rfl⟩
  | _ => exact Or.inl rfl

/-- Where one worker has a new phase: a worker on its way to a trigger is that one, or it was so
before. -/
lemma trigger_of_update {worker worker' : Nat → WorkerPhase} {i j : Nat} {x : WorkerPhase}
    (hworker : worker' = Function.update worker i x) (hj : (worker' j).trigger = some τ) :
    (j = i ∧ x.trigger = some τ) ∨
      ((worker j).trigger = some τ ∧ (worker' j).task = (worker j).task) := by
  rw [hworker] at hj ⊢
  by_cases hji : j = i
  · subst hji
    rw [Function.update_self] at hj
    exact Or.inl ⟨rfl, hj⟩
  · rw [Function.update_of_ne hji] at hj ⊢
    exact Or.inr ⟨hj, rfl⟩

/-- A worker that is on its way to a trigger was so before, or its task has just given up
control in an `await`. -/
lemma Effect.trigger {a : AwaitStep} (h : Effect w a w') {j : Nat}
    (hj : (w'.pool.worker j).trigger = some τ) :
    ((w.pool.worker j).trigger = some τ ∧ (w'.pool.worker j).task = (w.pool.worker j).task) ∨
      w'.use τ = .user ∨ (∃ c, w'.use τ = .child c) ∨
      ∃ t, w.spot t = .arming τ ∧ w'.spot t = .inTimer τ ∧ (w'.pool.worker j).task = some t := by
  -- a worker whose new phase has no trigger, or which makes no step
  have hplain : ∀ {i x}, w'.pool.worker = Function.update w.pool.worker i x →
      x.trigger = none → (w.pool.worker j).trigger = some τ ∧
        (w'.pool.worker j).task = (w.pool.worker j).task := by
    intro i x hworker hx
    rcases trigger_of_update hworker hj with ⟨-, htrigger⟩ | hold
    · rw [hx] at htrigger
      cases htrigger
    · exact hold
  cases h with
  | go accepted =>
    refine Or.inl ?_
    simp only [pushReady_worker] at hj ⊢
    exact ⟨hj, trivial⟩
  | pop i index t hidle ht hresume => exact Or.inl (hplain rfl rfl)
  | yield i t hrun hspot => exact Or.inl (hplain (x := .yielded t) rfl rfl)
  | awaitTrigger i t σ hrun hspot hσ huse =>
    rcases trigger_of_update (x := .waiting t σ none) rfl hj with ⟨rfl, htrigger⟩ | hold
    · cases htrigger
      exact Or.inr (Or.inl huse)
    · exact Or.inl hold
  | awaitFunction i t returning hrun hspot =>
    rcases trigger_of_update (x := .waiting t w.triggers (some w.pool.created)) rfl hj with
      ⟨rfl, htrigger⟩ | hold
    · cases htrigger
      exact Or.inr (Or.inr (Or.inl ⟨w.pool.created, by simp [AwaitWorld.awaitFunction]⟩))
    · exact Or.inl hold
  | suspendTimer i t σ hrun hspot =>
    rcases trigger_of_update (x := .waiting t σ none) rfl hj with ⟨rfl, htrigger⟩ | hold
    · cases htrigger
      exact Or.inr (Or.inr (Or.inr ⟨t, hspot, by simp [leave],
        by simp [leave, callReturns, setWorker, WorkerPhase.task]⟩))
    · exact Or.inl hold
  | bodyReturn i t hrun hspot => exact Or.inl (hplain (x := .idle) rfl rfl)
  | requeue i t accepted hphase =>
    exact Or.inl (hplain (x := .idle) (pushReady_worker accepted t) rfl)
  | waitPush i t σ c hphase =>
    -- the worker keeps its trigger and its task
    rcases trigger_of_update (i := i) rfl hj with ⟨rfl, htrigger⟩ | hold
    · refine Or.inl ?_
      simp only [setWorker, Function.update_self]
      rw [hphase]
      exact ⟨htrigger, rfl⟩
    · exact Or.inl hold
  | register i t σ id c hphase => exact Or.inl (hplain (x := .registered c) rfl rfl)
  | pushNone i accepted hphase => exact Or.inl (hplain (x := .idle) rfl rfl)
  | pushChild i c accepted hphase =>
    exact Or.inl (hplain (x := .idle) (pushReady_worker accepted c) rfl)
  | _ => exact Or.inl ⟨hj, rfl⟩

lemma update_eq_of_ne {f : Nat → TaskSpot} {u : Nat} {x s : TaskSpot}
    (h : Function.update f u x t = s) (hx : x ≠ s) : f t = s := by
  by_cases htu : t = u
  · rw [htu, Function.update_self] at h
    exact absurd h hx
  · rwa [Function.update_of_ne htu] at h

lemma Effect.spot_arming {a : AwaitStep} (h : Effect w a w') (ht : w'.spot t = .arming τ) :
    w.spot t = .arming τ ∨ (τ = w.triggers ∧ w'.pool = w.pool) := by
  cases h with
  | pop i index u hidle hu hresume => exact Or.inl (update_eq_of_ne ht (by simp))
  | yield i u hrun hspot => exact Or.inl (update_eq_of_ne ht (by simp))
  | awaitTrigger i u σ hrun hspot hσ huse => exact Or.inl (update_eq_of_ne ht (by simp))
  | awaitFunction i u returning hrun hspot => exact Or.inl (update_eq_of_ne ht (by simp))
  | armTimer i u hrun hspot =>
    by_cases hτ : τ = w.triggers
    · exact Or.inr ⟨hτ, rfl⟩
    · exact Or.inl (update_eq_of_ne ht (by simpa using Ne.symm hτ))
  | suspendTimer i u σ hrun hspot => exact Or.inl (update_eq_of_ne ht (by simp))
  | bodyReturn i u hrun hspot => exact Or.inl (update_eq_of_ne ht (by simp))
  | _ => exact Or.inl ht

lemma Effect.spot_inTimer {a : AwaitStep} (h : Effect w a w') (ht : w'.spot t = .inTimer τ) :
    w.spot t = .inTimer τ ∨ (w.spot t = .arming τ ∧ w'.fired = w.fired) := by
  cases h with
  | pop i index u hidle hu hresume => exact Or.inl (update_eq_of_ne ht (by simp))
  | yield i u hrun hspot => exact Or.inl (update_eq_of_ne ht (by simp))
  | awaitTrigger i u σ hrun hspot hσ huse => exact Or.inl (update_eq_of_ne ht (by simp))
  | awaitFunction i u returning hrun hspot => exact Or.inl (update_eq_of_ne ht (by simp))
  | armTimer i u hrun hspot => exact Or.inl (update_eq_of_ne ht (by simp))
  | suspendTimer i u σ hrun hspot =>
    by_cases htu : t = u
    · subst htu
      obtain rfl : σ = τ := by simpa [leave] using ht
      exact Or.inr ⟨hspot, rfl⟩
    · exact Or.inl (by simpa [leave, htu] using ht)
  | bodyReturn i u hrun hspot => exact Or.inl (update_eq_of_ne ht (by simp))
  | _ => exact Or.inl ht

lemma mem_eraseIdx_of_ne {l : List Nat} {index u : Nat} (hmem : t ∈ l) (hu : l[index]? = some u)
    (hne : t ≠ u) : t ∈ l.eraseIdx index := by
  rw [List.mem_eraseIdx_iff_getElem?]
  obtain ⟨k, hk⟩ := List.mem_iff_getElem?.mp hmem
  refine ⟨k, ?_, hk⟩
  rintro rfl
  rw [hk] at hu
  cases hu
  exact hne rfl

/-- A task stays in the ready queue until it is resumed. -/
lemma Effect.ready {a : AwaitStep} (h : Effect w a w') (ht : t ∈ w.pool.ready) :
    t ∈ w'.pool.ready ∨ w'.spot t = .body := by
  have hpush : ∀ {v : PoolWorld} {accepted : Bool} {u : Nat}, t ∈ v.ready →
      t ∈ (v.pushReady accepted u).ready := by
    intro v accepted u hv
    cases accepted with
    | false => exact hv
    | true => exact List.mem_append_left _ hv
  have hcall : ∀ {i u} (status : CallStatus), t ∈ (w.pool.callReturns i u status).ready := by
    intro i u status
    unfold callReturns
    split <;> exact ht
  cases h with
  | go accepted => exact Or.inl (hpush ht)
  | pop i index u hidle hu hresume =>
    by_cases htu : t = u
    · exact Or.inr (by simp [htu])
    · exact Or.inl (mem_eraseIdx_of_ne ht hu htu)
  | yield i u hrun hspot => exact Or.inl (hcall _)
  | awaitTrigger i u σ hrun hspot hσ huse => exact Or.inl (hcall _)
  | awaitFunction i u returning hrun hspot => exact Or.inl (hcall _)
  | suspendTimer i u σ hrun hspot => exact Or.inl (hcall _)
  | childNotify i c job accepted hrun hspot hjob hstage =>
    exact Or.inl (List.mem_append_left _ ht)
  | bodyReturn i u hrun hspot => exact Or.inl (hcall _)
  | requeue i u accepted hphase => exact Or.inl (hpush ht)
  | pushChild i c accepted hphase => exact Or.inl (hpush ht)
  | notify σ accepted hσ huse => exact Or.inl (List.mem_append_left _ ht)
  | timerCallback σ u accepted huse hfired => exact Or.inl (List.mem_append_left _ ht)
  | _ => exact Or.inl ht

/-! ## The step -/

lemma registrationsOn_append {v v' : PoolWorld} {σ u : Nat} {id : Int}
    (h : v'.registrations = v.registrations ++ [(σ, u, id)]) (τ : Nat) :
    v'.registrationsOn τ = v.registrationsOn τ ++ if σ = τ then [(σ, u, id)] else [] := by
  simp only [registrationsOn, h, List.filter_append]
  by_cases hσ : σ = τ
  · simp [hσ]
  · simp [hσ]

/-- The registrations on a trigger only grow. -/
lemma Effect.registrationsOn_ne_nil {a : AwaitStep} (h : Effect w a w')
    (hne : w.pool.registrationsOn τ ≠ []) : w'.pool.registrationsOn τ ≠ [] := by
  rcases h.registrations with hsame | ⟨i, σ, u, id, -, -, happend, -⟩
  · rwa [registrationsOn_same hsame]
  · rw [registrationsOn_append happend]
    simp [hne]

/-- A trigger in use before the step keeps its use. -/
lemma Effect.use_timer_old {a : AwaitStep} (h : Effect w a w') (hτ : τ < w.triggers)
    (huse : w'.use τ = .timer t) : w.use τ = .timer t :=
  (h.use_timer huse).resolve_right fun hnew => absurd hnew.1 hτ.ne

lemma Timed.armed_step (hw : w.Timed) {a : AwaitStep} (h : Effect w a w') :
    ∀ t τ, w'.spot t = .arming τ →
      w'.pool.registrationsOn τ = [] ∧ ∀ i, (w'.pool.worker i).trigger ≠ some τ := by
  intro t τ ht
  have huse' := (hw.counted.step h).arming t τ ht
  rcases h.spot_arming ht with hold | ⟨rfl, hpool⟩
  · obtain ⟨hregs, htriggers⟩ := hw.armed t τ hold
    refine ⟨?_, fun j hj => ?_⟩
    · rcases h.registrations with hsame | ⟨i, σ, u, id, hσ, -, happend, -⟩
      · rw [registrationsOn_same hsame, hregs]
      · have hne : σ ≠ τ := by
          rintro rfl
          exact htriggers i hσ
        rw [registrationsOn_append happend, hregs, if_neg hne, List.append_nil]
    · rcases h.trigger hj with ⟨hj', -⟩ | huser | ⟨c, hchild⟩ | ⟨u, harm, hin, -⟩
      · exact htriggers j hj'
      · rw [huse'] at huser
        cases huser
      · rw [huse'] at hchild
        cases hchild
      · -- the trigger is being armed by one task only
        have hu := hw.counted.arming u τ harm
        rw [hw.counted.arming t τ hold] at hu
        cases hu
        rw [ht] at hin
        cases hin
  · rw [hpool]
    refine ⟨List.filter_eq_nil_iff.mpr fun x hx => ?_, fun i hi => ?_⟩
    · simpa using (hw.counted.pool.registered x hx).1.ne
    · exact absurd (hw.counted.pool.trigger i _ hi) (lt_irrefl _)

lemma Timed.pending_step (hw : w.Timed) {a : AwaitStep} (h : Effect w a w') :
    ∀ i τ t, (w'.pool.worker i).trigger = some τ → w'.use τ = .timer t →
      (w'.pool.worker i).task = some t := by
  intro i τ t hi huse
  rcases h.trigger hi with ⟨hold, htask⟩ | huser | ⟨c, hchild⟩ | ⟨u, harm, -, htask⟩
  · rw [htask]
    exact hw.pending i τ t hold (h.use_timer_old (hw.counted.pool.trigger i τ hold) huse)
  · rw [huse] at huser
    cases huser
  · rw [huse] at hchild
    cases hchild
  · have hu := hw.counted.arming u τ harm
    have hold := h.use_timer_old (hw.counted.use τ (by simp [hu])) huse
    rw [hu] at hold
    cases hold
    exact htask

lemma Timed.registered_step (hw : w.Timed) {a : AwaitStep} (h : Effect w a w') :
    ∀ x ∈ w'.pool.registrations, ∀ t, w'.use x.1 = .timer t → x.2.1 = t := by
  intro x hx t huse
  have hold : x ∈ w.pool.registrations → x.2.1 = t := by
    intro hmem
    exact hw.registered x hmem t (h.use_timer_old (hw.counted.pool.registered x hmem).1 huse)
  rcases h.registrations with hsame | ⟨i, σ, u, id, hσ, htask, happend, hsame⟩
  · exact hold (hsame ▸ hx)
  · rw [happend] at hx
    rcases List.mem_append.mp hx with hmem | hmem
    · exact hold hmem
    · rw [List.mem_singleton.mp hmem, hsame] at huse
      rw [List.mem_singleton.mp hmem]
      have hpending := hw.pending i σ t hσ huse
      rw [htask] at hpending
      exact Option.some.inj hpending

/-- The callback finds the task registered, so it is in the ready queue afterwards. -/
lemma Timed.callback_wakes (hw : w.Timed) (huse : w.use τ = .timer t)
    (hregs : w.pool.registrationsOn τ ≠ []) {accepted : List Bool}
    (haccept : ∀ b ∈ accepted, b = true) : t ∈ (w.notified τ accepted).pool.ready := by
  obtain ⟨x, hx⟩ := List.exists_mem_of_ne_nil _ hregs
  have hmem := List.mem_filter.mp hx
  have hτ : x.1 = τ := by simpa using hmem.2
  have htask : x.2.1 = t := hw.registered x hmem.1 t (by rw [hτ, huse])
  have hwoken : t ∈ PoolWorld.woken (withOutcomes (w.pool.tasksOn τ) accepted) := by
    rw [woken_of_accepted _ haccept, ← htask]
    exact List.mem_map_of_mem hx
  exact List.mem_append_right _ hwoken

lemma Timed.step {a : AwaitStep} (hw : w.Timed) (hok : w.CallbackAfterRegister a)
    (h : Effect w a w') : w'.Timed where
  counted := hw.counted.step h
  armed := hw.armed_step h
  pending := hw.pending_step h
  registered := hw.registered_step h
  fired := by
    intro τ hτ
    apply h.registrationsOn_ne_nil
    cases h with
    | timerCallback σ u accepted huse hfired =>
      rcases List.mem_cons.mp hτ with rfl | hτ
      · exact hok.1
      · exact hw.fired τ hτ
    | _ => exact hw.fired τ hτ
  woken := by
    intro τ t huse hτ hspot
    have hkeep : τ ∈ w.fired → t ∈ w'.pool.ready := by
      intro hfired
      have huse' := h.use_timer_old (hw.counted.fired τ hfired) huse
      rcases h.spot_inTimer hspot with hold | ⟨harm, -⟩
      · refine (h.ready (hw.woken τ t huse' hfired hold)).resolve_right fun hbody => ?_
        rw [hspot] at hbody
        cases hbody
      · exact absurd (hw.armed t τ harm).1 (hw.fired τ hfired)
    cases h with
    | timerCallback σ u accepted htimer hfired =>
      rcases List.mem_cons.mp hτ with rfl | hτ
      · exact hw.callback_wakes huse hok.1 hok.2
      · exact hkeep hτ
    | _ => exact hkeep hτ

/-- In every run in which a timer callback runs only after `Register` on its trigger, its push
is accepted and the wait table has room, no timer wake-up is lost. -/
theorem timer_not_lost (steps : List AwaitStep) (w : AwaitWorld)
    (hok : Along step CallbackAfterRegister init steps) (hrun : exec step init steps = some w) :
    w.NoTimerLost := by
  have hinv : (∃ items, w.pool.Registry items) ∧ w.Timed := by
    refine exec_invariant (P := fun w : AwaitWorld => (∃ items, w.pool.Registry items) ∧ w.Timed)
      ?_ ⟨⟨[], registry_init⟩, timed_init⟩ hok hrun
    rintro u a v ⟨⟨items, hreg⟩, hu⟩ hgood hstep
    have heff := effect_of_step hreg hstep
    exact ⟨heff.registry hreg hgood.waitRoom, hu.step hgood heff⟩
  intro τ t id huse hfired _ hspot
  exact hinv.2.woken τ t huse hfired hspot

/-- The task 0 sleeps, its callback runs and it waits to be resumed. -/
theorem timer_not_lost_registered :
    ∃ w, exec step init [.go true, .pop 0 0, .armTimer 0, .suspendTimer 0, .waitPush 0,
        .register 0, .timerCallback 0 []] = some w ∧ w.spot 0 = .inTimer 0 ∧ w.pool.ready = [0] ∧
      w.NoTimerLost := by
  refine ⟨_, rfl, rfl, rfl, timer_not_lost [.go true, .pop 0 0, .armTimer 0, .suspendTimer 0,
    .waitPush 0, .register 0, .timerCallback 0 []] _ ?_ rfl⟩
  decide +kernel

/-- The callback runs before the task has been registered. -/
theorem timer_lost_early :
    ¬∀ (steps : List AwaitStep) (w : AwaitWorld), exec step init steps = some w →
      w.NoTimerLost := by
  intro h
  have hrun : ∃ w, exec step init [.go true, .pop 0 0, .armTimer 0, .timerCallback 0 [],
      .suspendTimer 0, .waitPush 0, .register 0] = some w ∧ w.use 0 = .timer 0 ∧ w.fired = [0] ∧
      (∃ id, w.pool.registrations = [(0, 0, id)]) ∧ w.spot 0 = .inTimer 0 ∧ w.pool.ready = [] :=
    ⟨_, rfl, rfl, rfl, ⟨_, rfl⟩, rfl, rfl⟩
  obtain ⟨w, hrun, huse, hfired, ⟨id, hregs⟩, hspot, hready⟩ := hrun
  have hmem := h _ w hrun 0 0 id huse (by simp [hfired]) (by simp [hregs]) hspot
  simp [hready] at hmem

end AwaitWorld

end CoplusLean
