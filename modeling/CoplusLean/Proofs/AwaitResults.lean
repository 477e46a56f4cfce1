import CoplusLean.Proofs.AwaitHandshake

/-!
# The future that `await(func)` returns

A parent leaves the wait table only when its child notifies it, so `func` has completed by
then. The child notifies from inside the packaged function and the result is stored when
that function returns: a worker that pops the parent in between resumes it too early.
-/

namespace CoplusLean

open Lib PoolWorld

namespace AwaitWorld

variable {w w' : AwaitWorld} {i t c τ : Nat} {job : Job}

/-- The condition on a step: user code does not notify a trigger that has woken a task. -/
def NotifyOnce (w : AwaitWorld) : AwaitStep → Prop
  | .notify τ _ => τ ∉ w.pool.served
  | _ => True

/-- The child has notified its parent and has a result to store. -/
def unstored (w : AwaitWorld) (c : Nat) : Bool :=
  match w.job c with
  | some job => job.returning && w.stage c == .notified
  | none => false

/-- The child of the `await(func)` that a task is suspended in. -/
def awaitedChild (w : AwaitWorld) (t : Nat) : Option Nat :=
  match w.spot t with
  | .inFunction c => some c
  | _ => none

/-- The condition on a step: no worker pops a task while the child it awaits is between its
`notify` and the return of the packaged function. -/
def ResultStored (w : AwaitWorld) : AwaitStep → Prop
  | .pop _ index => ∀ c ∈ w.pool.ready[index]?.bind w.awaitedChild, w.unstored c = false
  | _ => True

instance (w : AwaitWorld) : DecidablePred w.NotifyOnce := fun a =>
  match a with
  | .notify _ _ => inferInstanceAs (Decidable (_ ∉ _))
  | .newTrigger | .go _ | .pop _ _ | .yield _ | .awaitTrigger _ _ | .awaitFunction _ _
  | .armTimer _ | .suspendTimer _ | .funcReturn _ | .childNotify _ _ | .publish _ | .bodyReturn _
  | .requeue _ _ | .waitPush _ | .register _ | .pushChild _ _ | .timerCallback _ _ => isTrue trivial

instance (w : AwaitWorld) : DecidablePred w.ResultStored := fun a =>
  match a with
  | .pop _ _ => inferInstanceAs (Decidable (∀ c ∈ _, _))
  | .newTrigger | .go _ | .yield _ | .awaitTrigger _ _ | .awaitFunction _ _ | .armTimer _
  | .suspendTimer _ | .funcReturn _ | .childNotify _ _ | .publish _ | .bodyReturn _ | .requeue _ _
  | .waitPush _ | .register _ | .pushChild _ _ | .notify _ _ | .timerCallback _ _ => isTrue trivial

/-- The futures of all children whose parents have resumed are ready. -/
def FuturesReady (w : AwaitWorld) : Prop :=
  ∀ P c job, w.resumedFrom P = .inFunction c → w.job c = some job → job.returning = true →
    w.stage c = .published

/-- The task is on its way to the trigger or registered on it. -/
def WaitsOn (v : PoolWorld) (t τ : Nat) : Prop :=
  (∃ i, (v.worker i).task = some t ∧ (v.worker i).trigger = some τ) ∨ v.waitingOn t = some τ

lemma WaitsOn.not_ready {v : PoolWorld} {place : Nat → Place} (h : WaitsOn v t τ)
    (hplaced : v.Placed place) : t ∉ v.ready := by
  intro hready
  have hplace := (hplaced.ready t).mp hready
  rcases h with ⟨i, htask, -⟩ | hwaiting
  · rw [(hplaced.task i t).mp htask] at hplace
    cases hplace
  · rw [(hplaced.waiting τ t).mp hwaiting] at hplace
    cases hplace

/-- A worker that is not on its way to a trigger changes its phase. -/
lemma WaitsOn.of_worker {v v' : PoolWorld} (h : WaitsOn v t τ) {x : WorkerPhase}
    (hworker : v'.worker = Function.update v.worker i x) (hold : (v.worker i).trigger = none)
    (hwaiting : v'.waitingOn = v.waitingOn) : WaitsOn v' t τ := by
  rcases h with ⟨j, htask, htrigger⟩ | h
  · have hji : j ≠ i := by
      rintro rfl
      simp [hold] at htrigger
    exact Or.inl ⟨j, by rw [hworker, Function.update_of_ne hji]; exact ⟨htask, htrigger⟩⟩
  · exact Or.inr (by rw [hwaiting, h])

lemma WaitsOn.waitPush {v : PoolWorld} (h : WaitsOn v t τ) {u σ : Nat} {c : Option Nat} {id : Int}
    {q : PushOnlyFastStack (Option Nat)} (hphase : v.worker i = .waiting u σ c) :
    WaitsOn { v.setWorker i (.waitPushed u id σ c) with waitQueue := q } t τ := by
  rcases h with ⟨j, htask, htrigger⟩ | h
  · refine Or.inl ⟨j, ?_⟩
    by_cases hji : j = i
    · subst hji
      rw [hphase] at htask htrigger
      simp only [setWorker, Function.update_self]
      exact ⟨htask, htrigger⟩
    · simpa [setWorker, hji] using And.intro htask htrigger
  · exact Or.inr h

lemma WaitsOn.register {v : PoolWorld} {place : Nat → Place} (h : WaitsOn v t τ)
    (hplaced : v.Placed place) {u σ : Nat} {c : Option Nat} {id : Int}
    (hphase : v.worker i = .waitPushed u id σ c) :
    WaitsOn ((v.setWorker i (.registered c)).register u id σ) t τ := by
  rcases h with ⟨j, htask, htrigger⟩ | h
  · by_cases hji : j = i
    · subst hji
      obtain rfl : u = t := by simpa [hphase, WorkerPhase.task] using htask
      obtain rfl : σ = τ := by simpa [hphase, WorkerPhase.trigger] using htrigger
      exact Or.inr (by simp [PoolWorld.register])
    · exact Or.inl ⟨j, by simpa [PoolWorld.register, setWorker, hji] using And.intro htask htrigger⟩
  · have hne : t ≠ u := by
      rintro rfl
      have htask := (hplaced.task i t).mp (by rw [hphase]; rfl)
      rw [(hplaced.waiting τ t).mp h] at htask
      cases htask
    exact Or.inr (by simpa [PoolWorld.register, setWorker, hne] using h)

/-- A `notify` of another trigger does not reach the task. -/
lemma WaitsOn.notify {v : PoolWorld} {place : Nat → Place} (h : WaitsOn v t τ)
    (hplaced : v.Placed place) {σ : Nat} (hserved : σ ∉ v.served) (hne : σ ≠ τ)
    (accepted : List Bool) :
    WaitsOn (v.afterNotify σ (withOutcomes (v.tasksOn σ) accepted)) t τ := by
  rcases h with h | h
  · exact Or.inl h
  · refine Or.inr ?_
    have hnot : t ∉ woken (withOutcomes (v.tasksOn σ) accepted) := by
      intro hmem
      have hplace := ((hplaced.waiters σ hserved).2 t).mp ((woken_sublist _ accepted).subset hmem)
      rw [(hplaced.waiting τ t).mp h] at hplace
      cases hplace
      exact hne rfl
    rw [afterNotify_eq]
    simpa [hnot] using h

/-- A parent in `await(func)` waits on the trigger of its child until the child notifies it. -/
structure Awaited (w : AwaitWorld) : Prop where
  counted : w.Counted
  placed : ∃ place, w.pool.Placed place
  served_child : ∀ c job, w.job c = some job → job.trigger ∈ w.pool.served →
    w.stage c = .notified ∨ w.stage c = .published
  served_timer : ∀ τ t, w.use τ = .timer t → τ ∈ w.pool.served → τ ∈ w.fired
  waits : ∀ t c, w.spot t = .inFunction c → ∃ job, w.job c = some job ∧
    (w.stage c = .func ∨ w.stage c = .funcDone → WaitsOn w.pool t job.trigger)

/-- The children whose parents have resumed have stored their results. -/
def Stored (w : AwaitWorld) : Prop :=
  ∀ t c, w.resumedFrom t = .inFunction c → ∃ job, w.job c = some job ∧
    (job.returning = true → w.stage c = .published)

lemma awaited_init : init.Awaited where
  counted := counted_init
  placed := ⟨_, placed_init⟩
  served_child := by simp [init]
  served_timer := by simp [init]
  waits := by simp [init]

/-! ## What a step leaves alone -/

lemma served_callReturns {v : PoolWorld} (status : CallStatus) :
    (v.callReturns i t status).served = v.served := by
  unfold callReturns
  split <;> rfl

lemma served_pushReady {v : PoolWorld} (accepted : Bool) :
    (v.pushReady accepted t).served = v.served := by
  cases accepted <;> rfl

lemma mem_served_notified {accepted : List Bool} {σ : Nat}
    (h : σ ∈ (w.notified τ accepted).pool.served) : σ ∈ w.pool.served ∨ σ = τ := by
  simp only [notified, afterNotify_eq] at h
  split at h
  · exact Or.inl h
  · exact (List.mem_cons.mp h).symm

/-- A trigger is served by a `notify` of its own. -/
lemma Effect.served {a : AwaitStep} (h : Effect w a w') {σ : Nat} (hσ : σ ∈ w'.pool.served) :
    σ ∈ w.pool.served ∨ w.use σ = .user ∨ (∃ t, w.use σ = .timer t ∧ σ ∈ w'.fired) ∨
      ∃ c job, w.job c = some job ∧ job.trigger = σ ∧ w'.stage c = .notified := by
  cases h with
  | go accepted => exact Or.inl (by simpa [served_pushReady] using hσ)
  | yield i t hrun hspot => exact Or.inl (by simpa [leave, served_callReturns] using hσ)
  | awaitTrigger i t τ hrun hspot hτ huse =>
    exact Or.inl (by simpa [leave, served_callReturns] using hσ)
  | awaitFunction i t returning hrun hspot =>
    exact Or.inl (by simpa [AwaitWorld.awaitFunction, leave, served_callReturns] using hσ)
  | suspendTimer i t τ hrun hspot =>
    exact Or.inl (by simpa [leave, served_callReturns] using hσ)
  | bodyReturn i t hrun hspot => exact Or.inl (by simpa [leave, served_callReturns] using hσ)
  | requeue i t accepted hphase =>
    exact Or.inl (by simpa [served_pushReady, setWorker] using hσ)
  | pushChild i c accepted hphase =>
    exact Or.inl (by simpa [served_pushReady, setWorker] using hσ)
  | childNotify i c job accepted hrun hspot hjob hstage =>
    rcases mem_served_notified hσ with hold | rfl
    · exact Or.inl hold
    · exact Or.inr (Or.inr (Or.inr ⟨c, job, hjob, rfl, by simp [setStage]⟩))
  | notify τ accepted hτ huse =>
    rcases mem_served_notified hσ with hold | rfl
    · exact Or.inl hold
    · exact Or.inr (Or.inl huse)
  | timerCallback τ t accepted huse hfired =>
    rcases mem_served_notified hσ with hold | rfl
    · exact Or.inl hold
    · exact Or.inr (Or.inr (Or.inl ⟨t, huse, by simp⟩))
  | _ => exact Or.inl hσ

/-- A job is there before the step or its trigger is the one the step has made. -/
lemma Effect.job_cases {a : AwaitStep} (h : Effect w a w') (hjob : w'.job c = some job) :
    w.job c = some job ∨ (job.trigger = w.triggers ∧ w'.pool.served = w.pool.served) := by
  cases h with
  | awaitFunction i t returning hrun hspot =>
    by_cases hc : c = w.pool.created
    · subst hc
      simp only [AwaitWorld.awaitFunction, Function.update_self, Option.some.injEq] at hjob
      exact Or.inr ⟨by rw [← hjob], served_callReturns _⟩
    · exact Or.inl (by simpa [AwaitWorld.awaitFunction, leave, hc] using hjob)
  | _ => exact Or.inl hjob

lemma Effect.job_keep {a : AwaitStep} (h : Effect w a w') (hcount : w.Counted)
    (hjob : w.job c = some job) : w'.job c = some job := by
  have hc : c < w.pool.created := hcount.job c (by simp [hjob])
  cases h with
  | awaitFunction i t returning hrun hspot =>
    simpa [AwaitWorld.awaitFunction, leave, hc.ne] using hjob
  | _ => exact hjob

lemma Effect.use_timer {a : AwaitStep} (h : Effect w a w') (huse : w'.use τ = .timer t) :
    w.use τ = .timer t ∨ (τ = w.triggers ∧ w'.pool.served = w.pool.served) := by
  cases h with
  | awaitFunction i u returning hrun hspot =>
    by_cases hτ : τ = w.triggers
    · exact Or.inr ⟨hτ, served_callReturns _⟩
    · exact Or.inl (by simpa [AwaitWorld.awaitFunction, hτ] using huse)
  | armTimer i u hrun hspot =>
    by_cases hτ : τ = w.triggers
    · exact Or.inr ⟨hτ, rfl⟩
    · exact Or.inl (by simpa [AwaitWorld.armTimer, hτ] using huse)
  | _ => exact Or.inl huse

lemma Effect.fired {a : AwaitStep} (h : Effect w a w') (hτ : τ ∈ w.fired) : τ ∈ w'.fired := by
  cases h with
  | timerCallback σ t accepted huse hfired => exact List.mem_cons_of_mem σ hτ
  | _ => exact hτ

/-- A child that has not notified its parent has not done so before. -/
lemma Effect.stage_early {a : AwaitStep} (h : Effect w a w')
    (hstage : w'.stage c = .func ∨ w'.stage c = .funcDone) :
    w.stage c = .func ∨ w.stage c = .funcDone := by
  cases h with
  | funcReturn i c' job hrun hspot hjob hold =>
    by_cases hc : c = c'
    · exact Or.inl (hc ▸ hold)
    · simpa [setStage, hc] using hstage
  | childNotify i c' job accepted hrun hspot hjob hold =>
    by_cases hc : c = c'
    · exact Or.inr (hc ▸ hold)
    · simpa [setStage, hc, AwaitWorld.notified] using hstage
  | publish i c' job hrun hspot hjob hold =>
    by_cases hc : c = c'
    · simp [setStage, hc] at hstage
    · simpa [setStage, hc] using hstage
  | _ => exact hstage

lemma Effect.stage_published {a : AwaitStep} (h : Effect w a w') (hstage : w.stage c = .published) :
    w'.stage c = .published := by
  cases h with
  | funcReturn i c' job hrun hspot hjob hold =>
    have hc : c ≠ c' := by
      rintro rfl
      simp [hold] at hstage
    simpa [setStage, hc] using hstage
  | childNotify i c' job accepted hrun hspot hjob hold =>
    have hc : c ≠ c' := by
      rintro rfl
      simp [hold] at hstage
    simpa [setStage, hc, AwaitWorld.notified] using hstage
  | publish i c' job hrun hspot hjob hold =>
    have hc : c ≠ c' := by
      rintro rfl
      simp [hold] at hstage
    simpa [setStage, hc] using hstage
  | _ => exact hstage

/-- A child either has not notified its parent or is past that. -/
lemma stage_cases (x : JobStage) :
    (x = .func ∨ x = .funcDone) ∨ (x = .notified ∨ x = .published) := by
  cases x <;> simp

/-! ## The step -/

/-- A trigger that is about to be notified has not been served: a child and a timer notify
theirs once, and user code is held to do so. -/
lemma Awaited.not_served (hw : w.Awaited) {a : AwaitStep} (h : Effect w a w')
    (honce : w.NotifyOnce a) (hτ : w.Notifies τ a) : τ ∉ w.pool.served := by
  cases h with
  | childNotify i c job accepted hrun hspot hjob hstage =>
    obtain ⟨c', job', -, hjob', hstage', rfl⟩ := hτ
    intro hserved
    have := hw.served_child c' job' hjob' hserved
    simp [hstage'] at this
  | notify σ accepted hσ huse =>
    obtain rfl : σ = τ := hτ
    exact honce
  | timerCallback σ t accepted huse hfired =>
    obtain rfl : σ = τ := hτ
    exact fun hserved => hfired (hw.served_timer σ t huse hserved)
  | _ => exact absurd hτ id

lemma Awaited.placed_step {items : List (Option Nat)} (hw : w.Awaited)
    (hreg : w.pool.Registry items) {a : AwaitStep} (h : Effect w a w') (honce : w.NotifyOnce a) :
    ∃ place, w'.pool.Placed place := by
  obtain ⟨place, hplaced⟩ := hw.placed
  rcases h.pool_step hreg with hsame | ⟨b, hb, -, hnotify⟩
  · rw [hsame]
    exact ⟨place, hplaced⟩
  · exact hplaced.step hreg (hnotify fun τ hτ => hw.not_served h honce hτ) hb

lemma Awaited.fresh_not_served (hw : w.Awaited) : w.triggers ∉ w.pool.served :=
  fun hmem => absurd (hw.counted.pool.served _ hmem) (lt_irrefl _)

lemma Awaited.served_child_step (hw : w.Awaited) {a : AwaitStep} (h : Effect w a w') :
    ∀ c job, w'.job c = some job → job.trigger ∈ w'.pool.served →
      w'.stage c = .notified ∨ w'.stage c = .published := by
  intro c job hjob hserved
  rcases h.job_cases hjob with hold | ⟨htrigger, hsame⟩
  · have hchild := hw.counted.owner c job hold
    rcases h.served hserved with hmem | huser | ⟨t, htimer, -⟩ | ⟨c', job', hjob', htr, hstage⟩
    · refine (stage_cases (w'.stage c)).resolve_left fun hearly => ?_
      have hlate := hw.served_child c job hold hmem
      rcases h.stage_early hearly with he | he <;> simp [he] at hlate
    · rw [hchild] at huser
      cases huser
    · rw [hchild] at htimer
      cases htimer
    · have hchild' := hw.counted.owner c' job' hjob'
      rw [htr, hchild] at hchild'
      cases hchild'
      exact Or.inl hstage
  · rw [htrigger, hsame] at hserved
    exact absurd hserved hw.fresh_not_served

lemma Awaited.served_timer_step (hw : w.Awaited) {a : AwaitStep} (h : Effect w a w') :
    ∀ τ t, w'.use τ = .timer t → τ ∈ w'.pool.served → τ ∈ w'.fired := by
  intro τ t huse hserved
  rcases h.use_timer huse with hold | ⟨rfl, hsame⟩
  · rcases h.served hserved with hmem | huser | ⟨u, -, hfired⟩ | ⟨c, job, hjob, rfl, -⟩
    · exact h.fired (hw.served_timer τ t hold hmem)
    · rw [hold] at huser
      cases huser
    · exact hfired
    · have hchild := hw.counted.owner c job hjob
      rw [hold] at hchild
      cases hchild
  · rw [hsame] at hserved
    exact absurd hserved hw.fresh_not_served

/-- The suspended parents of a step that puts the task `u` to another spot. -/
lemma Awaited.waits_of_spot (hw : w.Awaited) {a : AwaitStep} (h : Effect w a w') {u : Nat}
    {s : TaskSpot} (hspot : w'.spot = Function.update w.spot u s) (hs : ∀ c, s ≠ .inFunction c)
    (hwaits : ∀ t τ, t ≠ u → WaitsOn w.pool t τ → WaitsOn w'.pool t τ) :
    ∀ t c, w'.spot t = .inFunction c → ∃ job, w'.job c = some job ∧
      (w'.stage c = .func ∨ w'.stage c = .funcDone → WaitsOn w'.pool t job.trigger) := by
  intro t c ht
  rw [hspot] at ht
  by_cases htu : t = u
  · rw [htu, Function.update_self] at ht
    exact absurd ht (hs c)
  · rw [Function.update_of_ne htu] at ht
    obtain ⟨job, hjob, hwait⟩ := hw.waits t c ht
    exact ⟨job, h.job_keep hw.counted hjob,
      fun hearly => hwaits t job.trigger htu (hwait (h.stage_early hearly))⟩

lemma Awaited.waits_of_same (hw : w.Awaited) {a : AwaitStep} (h : Effect w a w')
    (hspot : w'.spot = w.spot)
    (hwaits : ∀ t c job, w.job c = some job → (w'.stage c = .func ∨ w'.stage c = .funcDone) →
      WaitsOn w.pool t job.trigger → WaitsOn w'.pool t job.trigger) :
    ∀ t c, w'.spot t = .inFunction c → ∃ job, w'.job c = some job ∧
      (w'.stage c = .func ∨ w'.stage c = .funcDone → WaitsOn w'.pool t job.trigger) := by
  intro t c ht
  rw [hspot] at ht
  obtain ⟨job, hjob, hwait⟩ := hw.waits t c ht
  exact ⟨job, h.job_keep hw.counted hjob,
    fun hearly => hwaits t c job hjob hearly (hwait (h.stage_early hearly))⟩

lemma waitsOn_callReturns {v : PoolWorld} (h : WaitsOn v t τ) {u : Nat}
    (hrun : v.worker i = .running u) (status : CallStatus) :
    WaitsOn (v.callReturns i u status) t τ := by
  have hold : (v.worker i).trigger = none := by rw [hrun]; rfl
  unfold callReturns
  split <;> exact h.of_worker rfl hold rfl

lemma waitsOn_pushReady {v : PoolWorld} (h : WaitsOn v t τ) {u : Nat} (accepted : Bool) :
    WaitsOn (v.pushReady accepted u) t τ := by
  cases accepted <;> exact h

/-- A `notify` of another trigger than the one a parent waits on. -/
lemma Awaited.waits_notified (hw : w.Awaited) {σ : Nat} (hserved : σ ∉ w.pool.served)
    (accepted : List Bool) (hne : σ ≠ τ) (h : WaitsOn w.pool t τ) :
    WaitsOn (w.notified σ accepted).pool t τ := by
  obtain ⟨place, hplaced⟩ := hw.placed
  exact h.notify hplaced hserved hne accepted

lemma Awaited.waits_step (hw : w.Awaited) {a : AwaitStep} (h : Effect w a w')
    (honce : w.NotifyOnce a) :
    ∀ t c, w'.spot t = .inFunction c → ∃ job, w'.job c = some job ∧
      (w'.stage c = .func ∨ w'.stage c = .funcDone → WaitsOn w'.pool t job.trigger) := by
  have h' := h
  cases h with
  | newTrigger => exact hw.waits_of_same h' rfl fun _ _ _ _ _ hwait => hwait
  | go accepted =>
    exact hw.waits_of_same h' rfl fun _ _ _ _ _ hwait => waitsOn_pushReady hwait accepted
  | pop i index u hidle hu hresume =>
    refine hw.waits_of_spot h' rfl (by simp) fun t τ _ hwait => ?_
    exact hwait.of_worker rfl (by rw [hidle]; rfl) rfl
  | yield i u hrun hspot =>
    exact hw.waits_of_spot h' rfl (by simp) fun _ _ _ hwait =>
      waitsOn_callReturns hwait hrun .kReady
  | awaitTrigger i u τ hrun hspot hτ huse =>
    exact hw.waits_of_spot h' rfl (by simp) fun _ _ _ hwait =>
      waitsOn_callReturns hwait hrun (.kWaiting τ false)
  | awaitFunction i u returning hrun hspot =>
    intro t c ht
    by_cases htu : t = u
    · subst htu
      obtain rfl : w.pool.created = c := by
        simpa [AwaitWorld.awaitFunction, leave] using ht
      refine ⟨⟨w.triggers, t, returning⟩, by simp [AwaitWorld.awaitFunction], fun _ => ?_⟩
      exact Or.inl ⟨i, by simp [AwaitWorld.awaitFunction, leave, callReturns, setWorker,
        WorkerPhase.task, WorkerPhase.trigger]⟩
    · have ht' : w.spot t = .inFunction c := by
        simpa [AwaitWorld.awaitFunction, leave, htu] using ht
      obtain ⟨job, hjob, hwait⟩ := hw.waits t c ht'
      exact ⟨job, h'.job_keep hw.counted hjob, fun hearly =>
        waitsOn_callReturns (hwait (h'.stage_early hearly)) hrun (.kWaiting w.triggers true)⟩
  | armTimer i u hrun hspot =>
    exact hw.waits_of_spot h' rfl (by simp) fun _ _ _ hwait => hwait
  | suspendTimer i u τ hrun hspot =>
    exact hw.waits_of_spot h' rfl (by simp) fun _ _ _ hwait =>
      waitsOn_callReturns hwait hrun (.kWaiting τ false)
  | funcReturn i c job hrun hspot hjob hstage =>
    exact hw.waits_of_same h' rfl fun _ _ _ _ _ hwait => hwait
  | childNotify i c job accepted hrun hspot hjob hstage =>
    refine hw.waits_of_same h' rfl fun t c' job' hjob' hearly hwait => ?_
    refine hw.waits_notified (hw.not_served h' honce ⟨c, job, hrun, hjob, hstage, rfl⟩) accepted ?_
      hwait
    intro heq
    have hchild := hw.counted.owner c' job' hjob'
    rw [← heq, hw.counted.owner c job hjob] at hchild
    cases hchild
    simp [setStage] at hearly
  | publish i c job hrun hspot hjob hstage =>
    exact hw.waits_of_same h' rfl fun _ _ _ _ _ hwait => hwait
  | bodyReturn i u hrun hspot =>
    exact hw.waits_of_spot h' rfl (by simp) fun _ _ _ hwait =>
      waitsOn_callReturns hwait hrun .kFinished
  | requeue i u accepted hphase =>
    refine hw.waits_of_same h' rfl fun t c job _ _ hwait => waitsOn_pushReady ?_ accepted
    exact hwait.of_worker rfl (by rw [hphase]; rfl) rfl
  | waitPush i u τ c hphase =>
    exact hw.waits_of_same h' rfl fun _ _ _ _ _ hwait => hwait.waitPush hphase
  | register i u τ id c hphase =>
    obtain ⟨place, hplaced⟩ := hw.placed
    exact hw.waits_of_same h' rfl fun _ _ _ _ _ hwait => hwait.register hplaced hphase
  | pushNone i accepted hphase =>
    refine hw.waits_of_same h' rfl fun t c job _ _ hwait => ?_
    exact hwait.of_worker rfl (by rw [hphase]; rfl) rfl
  | pushChild i c accepted hphase =>
    refine hw.waits_of_same h' rfl fun t c job _ _ hwait => waitsOn_pushReady ?_ accepted
    exact hwait.of_worker rfl (by rw [hphase]; rfl) rfl
  | notify τ accepted hτ huse =>
    refine hw.waits_of_same h' rfl fun t c job hjob _ hwait => ?_
    refine hw.waits_notified (hw.not_served h' honce rfl) accepted ?_ hwait
    rintro rfl
    rw [hw.counted.owner c job hjob] at huse
    cases huse
  | timerCallback τ u accepted huse hfired =>
    refine hw.waits_of_same h' rfl fun t c job hjob _ hwait => ?_
    refine hw.waits_notified (hw.not_served h' honce rfl) accepted ?_ hwait
    rintro rfl
    rw [hw.counted.owner c job hjob] at huse
    cases huse

/-- A parent that is popped has been notified by its child. -/
lemma Awaited.popped_notified (hw : w.Awaited) {index : Nat}
    (ht : w.pool.ready[index]? = some t) (hspot : w.spot t = .inFunction c) :
    ∃ job, w.job c = some job ∧ (w.stage c = .notified ∨ w.stage c = .published) := by
  obtain ⟨place, hplaced⟩ := hw.placed
  obtain ⟨job, hjob, hwait⟩ := hw.waits t c hspot
  refine ⟨job, hjob, (stage_cases (w.stage c)).resolve_left fun hearly => ?_⟩
  exact (hwait hearly).not_ready hplaced (List.mem_of_getElem? ht)

lemma Awaited.stored_step (hw : w.Awaited) (hst : w.Stored) {a : AwaitStep} (h : Effect w a w')
    (hstored : w.ResultStored a) : w'.Stored := by
  have hkeep : w'.resumedFrom = w.resumedFrom → w'.Stored := by
    intro hsame t c ht
    rw [hsame] at ht
    obtain ⟨job, hjob, hpub⟩ := hst t c ht
    exact ⟨job, h.job_keep hw.counted hjob, fun hret => h.stage_published (hpub hret)⟩
  cases h with
  | pop i index u hidle hu hresume =>
    intro t c ht
    by_cases htu : t = u
    · subst htu
      simp only [Function.update_self] at ht
      obtain ⟨job, hjob, hlate⟩ := hw.popped_notified hu ht
      refine ⟨job, hjob, fun hret => hlate.resolve_left fun hnotified => ?_⟩
      have := hstored c (by simp [hu, awaitedChild, ht])
      simp [unstored, hjob, hret, hnotified] at this
    · simp only [Function.update_of_ne htu] at ht
      exact hst t c ht
  | _ => exact hkeep rfl

lemma Awaited.step {items : List (Option Nat)} (hw : w.Awaited) (hreg : w.pool.Registry items)
    {a : AwaitStep} (h : Effect w a w') (honce : w.NotifyOnce a) : w'.Awaited where
  counted := hw.counted.step h
  placed := hw.placed_step hreg h honce
  served_child := hw.served_child_step h
  served_timer := hw.served_timer_step h
  waits := hw.waits_step h honce

/-- A parent whose child has not notified it is neither in the ready queue nor executed. -/
lemma Awaited.parent_waits (hw : w.Awaited) (hspot : w.spot t = .inFunction c)
    (hearly : w.stage c = .func ∨ w.stage c = .funcDone) :
    t ∉ w.pool.ready ∧ ∀ i, w.pool.worker i ≠ .running t := by
  obtain ⟨place, hplaced⟩ := hw.placed
  obtain ⟨job, -, hwait⟩ := hw.waits t c hspot
  refine ⟨(hwait hearly).not_ready hplaced, fun i hrun => ?_⟩
  have htask := (hplaced.task i t).mp (by rw [hrun]; rfl)
  rcases hwait hearly with ⟨j, htask', htrigger⟩ | hwaiting
  · rw [(hplaced.task j t).mp htask'] at htask
    cases htask
    simp [hrun, WorkerPhase.trigger] at htrigger
  · rw [(hplaced.waiting job.trigger t).mp hwaiting] at htask
    cases htask

lemma awaited_of_run {steps : List AwaitStep}
    (hok : Along step (fun w a => w.WaitRoom a ∧ w.NotifyOnce a) init steps)
    (hrun : exec step init steps = some w) : w.Awaited := by
  have hinv : (∃ items, w.pool.Registry items) ∧ w.Awaited := by
    refine exec_invariant (P := fun w : AwaitWorld => (∃ items, w.pool.Registry items) ∧ w.Awaited)
      ?_ ⟨⟨[], registry_init⟩, awaited_init⟩ hok hrun
    rintro u a v ⟨⟨items, hreg⟩, hu⟩ ⟨hroom, honce⟩ hstep
    have heff := effect_of_step hreg hstep
    exact ⟨heff.registry hreg hroom, hu.step hreg heff honce⟩
  exact hinv.2

/-- In every run in which no parent is popped between the `notify` of its child and the
return of the packaged function, user code does not notify a trigger again after it has woken
a task, and the wait table has room, every future is ready when its parent resumes. -/
theorem futures_ready_on_resume (steps : List AwaitStep) (w : AwaitWorld)
    (hok : Along step (fun w a => w.WaitRoom a ∧ w.NotifyOnce a ∧ w.ResultStored a) init steps)
    (hrun : exec step init steps = some w) : w.FuturesReady := by
  have hinv : (∃ items, w.pool.Registry items) ∧ w.Awaited ∧ w.Stored := by
    refine exec_invariant
      (P := fun w : AwaitWorld => (∃ items, w.pool.Registry items) ∧ w.Awaited ∧ w.Stored)
      ?_ ⟨⟨[], registry_init⟩, awaited_init, by simp [Stored, init]⟩ hok hrun
    rintro u a v ⟨⟨items, hreg⟩, hu, hst⟩ ⟨hroom, honce, hstored⟩ hstep
    have heff := effect_of_step hreg hstep
    exact ⟨heff.registry hreg hroom, hu.step hreg heff honce, hu.stored_step hst heff hstored⟩
  intro P c job hres hjob hret
  obtain ⟨job', hjob', hpub⟩ := hinv.2.2 P c hres
  rw [hjob] at hjob'
  cases hjob'
  exact hpub hret

/-- The task 0 awaits a function with a result: its child 1 runs on the worker 1 and has
notified the parent. -/
def childNotified : List AwaitStep :=
  [.go true, .pop 0 0, .awaitFunction 0 true, .waitPush 0, .register 0, .pushChild 0 true,
    .pop 1 0, .funcReturn 1, .childNotify 1 []]

/-- The parent resumes after the child has stored its result. -/
theorem futures_ready_on_resume_stored :
    ∃ w, exec step init (childNotified ++ [.publish 1, .pop 0 0]) = some w ∧
      w.resumedFrom 0 = .inFunction 1 ∧ w.FuturesReady := by
  refine ⟨_, rfl, rfl, futures_ready_on_resume (childNotified ++ [.publish 1, .pop 0 0]) _ ?_ rfl⟩
  decide +kernel

/-- The worker 0 pops the parent before the packaged function has returned. -/
theorem futures_not_ready_popped_early :
    ¬∀ (steps : List AwaitStep) (w : AwaitWorld), exec step init steps = some w →
      w.FuturesReady := by
  intro h
  have hrun : ∃ w, exec step init (childNotified ++ [.pop 0 0]) = some w ∧
      w.resumedFrom 0 = .inFunction 1 ∧ w.job 1 = some ⟨0, 0, true⟩ ∧ w.stage 1 = .notified :=
    ⟨_, rfl, rfl, rfl, rfl⟩
  obtain ⟨w, hrun, hres, hjob, hstage⟩ := hrun
  have hready := h _ w hrun 0 1 _ hres hjob rfl
  rw [hstage] at hready
  cases hready

end AwaitWorld

end CoplusLean
