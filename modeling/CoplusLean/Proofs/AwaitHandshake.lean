import CoplusLean.Proofs.AwaitSteps

/-!
# The handshake of `await(func)`

The child of an `await(func)` stands in `wait_for_task` until its parent is registered on
the trigger made for it, so the child's `notify` finds the parent and nobody else. The
argument is about one child at a time: whatever triggers other tasks wait on and however
often those are notified, nobody else uses this trigger.
-/

namespace CoplusLean

open Lib PoolWorld

/-- The worker still has to do with the child `c` or the trigger `τ`. -/
def WorkerPhase.Involves (x : WorkerPhase) (c τ : Nat) : Prop :=
  x.child = some c ∨ x.trigger = some τ

namespace AwaitWorld

variable {w w' : AwaitWorld} {i t c τ : Nat} {job : Job}

/-- The child has not entered the ready queue. -/
structure Unlaunched (w : AwaitWorld) (c : Nat) : Prop where
  ready : c ∉ w.pool.ready
  spot : w.spot c = .start
  stage : w.stage c = .func

/-- How far the handshake between the child `c` and its parent has come. -/
inductive Handshake (w : AwaitWorld) (c : Nat) (job : Job) : Prop
  | pending (i : Nat) (hchild : (w.pool.worker i).child = some c)
      (htrigger : (w.pool.worker i).trigger = some job.trigger)
      (htask : (w.pool.worker i).task = some job.parent)
      (hothers : ∀ j ≠ i, ¬(w.pool.worker j).Involves c job.trigger)
      (hregs : w.pool.registrationsOn job.trigger = []) (hunlaunched : Unlaunched w c)
  | registered (i : Nat) (id : Int) (hchild : (w.pool.worker i).child = some c)
      (htrigger : (w.pool.worker i).trigger = none)
      (hothers : ∀ j ≠ i, ¬(w.pool.worker j).Involves c job.trigger)
      (hregs : w.pool.registrationsOn job.trigger = [(job.trigger, job.parent, id)])
      (hunlaunched : Unlaunched w c)
  | launched (id : Int) (hothers : ∀ j, ¬(w.pool.worker j).Involves c job.trigger)
      (hregs : w.pool.registrationsOn job.trigger = [(job.trigger, job.parent, id)])

/-- A step of workers that have nothing to do with the handshake. -/
lemma Handshake.frame (h : Handshake w c job)
    (hsame : ∀ j, (w.pool.worker j).Involves c job.trigger →
      (w'.pool.worker j).child = (w.pool.worker j).child ∧
      (w'.pool.worker j).trigger = (w.pool.worker j).trigger ∧
      (w'.pool.worker j).task = (w.pool.worker j).task)
    (hother : ∀ j, ¬(w.pool.worker j).Involves c job.trigger →
      ¬(w'.pool.worker j).Involves c job.trigger)
    (hregs : w'.pool.registrationsOn job.trigger = w.pool.registrationsOn job.trigger)
    (hunlaunched : Unlaunched w c → Unlaunched w' c) : Handshake w' c job := by
  cases h with
  | pending i h1 h2 h3 h4 h5 h6 =>
    obtain ⟨hc, hτ, ht⟩ := hsame i (Or.inl h1)
    exact .pending i (hc.trans h1) (hτ.trans h2) (ht.trans h3) (fun j hj => hother j (h4 j hj))
      (hregs.trans h5) (hunlaunched h6)
  | registered i id h1 h2 h3 h4 h5 =>
    obtain ⟨hc, hτ, -⟩ := hsame i (Or.inl h1)
    exact .registered i id (hc.trans h1) (hτ.trans h2) (fun j hj => hother j (h3 j hj))
      (hregs.trans h4) (hunlaunched h5)
  | launched id h1 h2 => exact .launched id (fun j => hother j (h1 j)) (hregs.trans h2)

/-- A worker that is not involved changes its phase. -/
lemma Handshake.of_worker (h : Handshake w c job) {x : WorkerPhase}
    (hworker : w'.pool.worker = Function.update w.pool.worker i x)
    (hold : ¬(w.pool.worker i).Involves c job.trigger) (hnew : ¬x.Involves c job.trigger)
    (hregs : w'.pool.registrationsOn job.trigger = w.pool.registrationsOn job.trigger)
    (hunlaunched : Unlaunched w c → Unlaunched w' c) : Handshake w' c job := by
  refine h.frame (fun j hj => ?_) (fun j hj => ?_) hregs hunlaunched
  · have hji : j ≠ i := by
      rintro rfl
      exact hold hj
    rw [hworker, Function.update_of_ne hji]
    exact ⟨rfl, rfl, rfl⟩
  · rw [hworker]
    by_cases hji : j = i
    · rw [hji, Function.update_self]
      exact hnew
    · rw [Function.update_of_ne hji]
      exact hj

/-- A step that leaves the workers alone. -/
lemma Handshake.of_same (h : Handshake w c job) (hworker : w'.pool.worker = w.pool.worker)
    (hregs : w'.pool.registrationsOn job.trigger = w.pool.registrationsOn job.trigger)
    (hunlaunched : Unlaunched w c → Unlaunched w' c) : Handshake w' c job := by
  refine h.frame (fun j _ => ?_) (fun j hj => ?_) hregs hunlaunched
  · rw [hworker]
    exact ⟨rfl, rfl, rfl⟩
  · rwa [hworker]

/-- A child that has not entered the ready queue is left alone: what a step changes belongs
to tasks that have started. -/
lemma Unlaunched.keep (h : Unlaunched w c)
    (hready : c ∈ w'.pool.ready → c ∈ w.pool.ready ∨ w.spot c ≠ .start)
    (hspot : w'.spot c = w.spot c ∨ w.spot c ≠ .start)
    (hstage : w'.stage c = w.stage c ∨ w.spot c ≠ .start) : Unlaunched w' c where
  ready hmem := (hready hmem).elim h.ready fun hne => hne h.spot
  spot := by
    rcases hspot with hs | hs
    · rw [hs, h.spot]
    · exact absurd h.spot hs
  stage := by
    rcases hstage with hs | hs
    · rw [hs, h.stage]
    · exact absurd h.spot hs

lemma update_same_or {α : Type*} {f : Nat → α} {x : α} (ht : w.spot t ≠ .start) (c : Nat) :
    Function.update f t x c = f c ∨ w.spot c ≠ .start := by
  by_cases hct : c = t
  · rw [hct]
    exact Or.inr ht
  · rw [Function.update_of_ne hct]
    exact Or.inl rfl

/-- A task that a worker holds or that is registered somewhere has started. -/
structure Started (w : AwaitWorld) : Prop where
  worker : ∀ i t, (w.pool.worker i).task = some t → w.spot t ≠ .start
  registered : ∀ x ∈ w.pool.registrations, w.spot x.2.1 ≠ .start

lemma started_init : init.Started := by
  constructor <;> simp [init, PoolWorld.init, WorkerPhase.task]

lemma Started.tasksOn (h : w.Started) (ht : t ∈ w.pool.tasksOn τ) : w.spot t ≠ .start := by
  obtain ⟨x, hx, rfl⟩ := List.mem_map.mp ht
  exact h.registered x (List.mem_filter.mp hx).1

/-- No step brings a task back to its start. -/
lemma Effect.spot_ne_start {a : AwaitStep} (h : Effect w a w') (ht : w.spot t ≠ .start) :
    w'.spot t ≠ .start := by
  have hupdate : ∀ u (s : TaskSpot), s ≠ .start → Function.update w.spot u s t ≠ .start := by
    intro u s hs
    by_cases hu : t = u
    · rwa [hu, Function.update_self]
    · rwa [Function.update_of_ne hu]
  cases h with
  | pop i index u hidle hu hresume => exact hupdate u _ (by simp)
  | yield i u hrun hspot => exact hupdate u _ (by simp)
  | awaitTrigger i u τ hrun hspot hτ huse => exact hupdate u _ (by simp)
  | awaitFunction i u returning hrun hspot => exact hupdate u _ (by simp)
  | armTimer i u hrun hspot => exact hupdate u _ (by simp)
  | suspendTimer i u τ hrun hspot => exact hupdate u _ (by simp)
  | bodyReturn i u hrun hspot => exact hupdate u _ (by simp)
  | _ => exact ht

/-- A worker changes its phase and no registration is made. -/
lemma Started.of_worker (h : w.Started) {a : AwaitStep} (heff : Effect w a w') {x : WorkerPhase}
    (hworker : w'.pool.worker = Function.update w.pool.worker i x)
    (hx : ∀ t ∈ x.task, w'.spot t ≠ .start)
    (hregs : w'.pool.registrations = w.pool.registrations) : w'.Started where
  worker j t hj := by
    rw [hworker] at hj
    by_cases hji : j = i
    · rw [hji, Function.update_self] at hj
      exact hx t hj
    · rw [Function.update_of_ne hji] at hj
      exact heff.spot_ne_start (h.worker j t hj)
  registered x hx := by
    rw [hregs] at hx
    exact heff.spot_ne_start (h.registered x hx)

lemma Started.of_same (h : w.Started) {a : AwaitStep} (heff : Effect w a w')
    (hworker : w'.pool.worker = w.pool.worker)
    (hregs : w'.pool.registrations = w.pool.registrations) : w'.Started where
  worker j t hj := heff.spot_ne_start (h.worker j t (hworker ▸ hj))
  registered x hx := heff.spot_ne_start (h.registered x (hregs ▸ hx))

lemma Started.step {a : AwaitStep} (h : w.Started) (heff : Effect w a w') : w'.Started := by
  have heff' := heff
  cases heff with
  | newTrigger => exact h.of_same heff' rfl rfl
  | go accepted => exact h.of_same heff' (by simp) (by simp)
  | pop i index t hidle ht hresume =>
    exact h.of_worker heff' rfl (by simp [WorkerPhase.task]) rfl
  | yield i t hrun hspot =>
    exact h.of_worker heff' rfl (by simp [WorkerPhase.task, leave]) rfl
  | awaitTrigger i t τ hrun hspot hτ huse =>
    exact h.of_worker heff' rfl (by simp [WorkerPhase.task, leave]) rfl
  | awaitFunction i t returning hrun hspot =>
    exact h.of_worker heff' rfl (by simp [WorkerPhase.task, AwaitWorld.awaitFunction, leave]) rfl
  | armTimer i t hrun hspot => exact h.of_same heff' rfl rfl
  | suspendTimer i t τ hrun hspot =>
    exact h.of_worker heff' rfl (by simp [WorkerPhase.task, leave]) rfl
  | funcReturn i c job hrun hspot hjob hstage => exact h.of_same heff' rfl rfl
  | childNotify i c job accepted hrun hspot hjob hstage => exact h.of_same heff' rfl rfl
  | publish i c job hrun hspot hjob hstage => exact h.of_same heff' rfl rfl
  | bodyReturn i t hrun hspot => exact h.of_worker heff' rfl (by simp [WorkerPhase.task]) rfl
  | requeue i t accepted hphase =>
    exact h.of_worker heff' (x := .idle) (pushReady_worker accepted t) (by simp [WorkerPhase.task])
      (pushReady_registrations accepted t)
  | waitPush i t τ c hphase =>
    refine h.of_worker heff' rfl ?_ rfl
    intro u hu
    exact h.worker i u (by rw [hphase]; exact hu)
  | register i t τ id c hphase =>
    refine ⟨fun j u hj => ?_, fun x hx => ?_⟩
    · by_cases hji : j = i
      · simp [PoolWorld.register, setWorker, hji, WorkerPhase.task] at hj
      · exact h.worker j u (by simpa [PoolWorld.register, setWorker, hji] using hj)
    · rcases List.mem_append.mp hx with hx | hx
      · exact h.registered x hx
      · rw [List.mem_singleton.mp hx]
        exact h.worker i t (by rw [hphase]; rfl)
  | pushNone i accepted hphase => exact h.of_worker heff' rfl (by simp [WorkerPhase.task]) rfl
  | pushChild i c accepted hphase =>
    exact h.of_worker heff' (x := .idle) (pushReady_worker accepted c) (by simp [WorkerPhase.task])
      (pushReady_registrations accepted c)
  | notify τ accepted hτ huse => exact h.of_same heff' rfl rfl
  | timerCallback τ t accepted huse hfired => exact h.of_same heff' rfl rfl

lemma registrationsOn_same {v v' : PoolWorld} (h : v'.registrations = v.registrations) (τ : Nat) :
    v'.registrationsOn τ = v.registrationsOn τ := by
  rw [registrationsOn, registrationsOn, h]

lemma registrationsOn_register {v : PoolWorld} {x : WorkerPhase} {id : Int} (σ : Nat) :
    ((v.setWorker i x).register t id τ).registrationsOn σ =
      v.registrationsOn σ ++ if σ = τ then [(τ, t, id)] else [] := by
  simp only [registrationsOn, PoolWorld.register, setWorker, List.filter_append]
  by_cases hσ : σ = τ
  · simp [hσ]
  · simp [hσ, Ne.symm hσ]

lemma not_involves {x : WorkerPhase} (hchild : x.child ≠ some c) (htrigger : x.trigger ≠ some τ) :
    ¬x.Involves c τ :=
  fun h => h.elim hchild htrigger

/-- A task gives up control without a new child; its trigger is not that of the handshake. -/
lemma Handshake.leave (h : Handshake w c job) (hs : w.Started)
    (hrun : w.pool.worker i = .running t) {status : CallStatus} {s : TaskSpot}
    (hspawn : ∀ σ, status ≠ .kWaiting σ true)
    (hτ : ∀ σ spawn, status = .kWaiting σ spawn → σ ≠ job.trigger) :
    Handshake (w.leave i t status s) c job := by
  have hstart : w.spot t ≠ .start := hs.worker i t (by rw [hrun]; rfl)
  have hold : ¬(w.pool.worker i).Involves c job.trigger := by
    rw [hrun]
    exact not_involves (by simp [WorkerPhase.child]) (by simp [WorkerPhase.trigger])
  have hkeep : ∀ {pool : PoolWorld}, pool.ready = w.pool.ready → Unlaunched w c →
      Unlaunched { w with pool := pool, spot := Function.update w.spot t s } c := by
    intro pool hready hu
    exact hu.keep (fun hmem => Or.inl (hready ▸ hmem)) (update_same_or hstart c) (Or.inl rfl)
  unfold AwaitWorld.leave callReturns
  split
  case h_1 =>
    exact h.of_worker rfl hold (not_involves (by simp [WorkerPhase.child])
      (by simp [WorkerPhase.trigger])) rfl (hkeep rfl)
  case h_2 σ =>
    exact h.of_worker rfl hold (not_involves (by simp [WorkerPhase.child])
      (by simpa [WorkerPhase.trigger] using hτ σ false rfl)) rfl (hkeep rfl)
  case h_3 σ => exact absurd rfl (hspawn σ)
  case h_4 =>
    exact h.of_worker rfl hold (not_involves (by simp [WorkerPhase.child])
      (by simp [WorkerPhase.trigger])) rfl (hkeep rfl)

lemma Handshake.awaitFunction (h : Handshake w c job) (hcount : w.Counted) (hs : w.Started)
    (hjob : w.job c = some job) (hrun : w.pool.worker i = .running t) (returning : Bool) :
    Handshake (w.awaitFunction i t returning) c job := by
  have hstart : w.spot t ≠ .start := hs.worker i t (by rw [hrun]; rfl)
  have hc : c < w.pool.created := hcount.job c (by simp [hjob])
  have hτ := hcount.job_trigger hjob
  refine h.of_worker (i := i) (x := .waiting t w.triggers (some w.pool.created)) rfl ?_ ?_ rfl ?_
  · rw [hrun]
    exact not_involves (by simp [WorkerPhase.child]) (by simp [WorkerPhase.trigger])
  · exact not_involves (by simp [WorkerPhase.child, hc.ne']) (by simp [WorkerPhase.trigger, hτ.ne'])
  · intro hu
    exact hu.keep Or.inl (update_same_or hstart c) (Or.inl rfl)

/-- The handshake of a new child begins. -/
lemma handshake_awaitFunction (hcount : w.Counted) (hs : w.Started)
    (hrun : w.pool.worker i = .running t) (returning : Bool) :
    Handshake (w.awaitFunction i t returning) w.pool.created ⟨w.triggers, t, returning⟩ := by
  have hspot : w.spot w.pool.created = .start := by
    by_contra hne
    exact absurd (hcount.spot _ hne) (lt_irrefl _)
  have hstart : w.spot t ≠ .start := hs.worker i t (by rw [hrun]; rfl)
  have hne : w.pool.created ≠ t := by
    intro heq
    rw [heq] at hspot
    exact hstart hspot
  have hworker : (w.awaitFunction i t returning).pool.worker =
      Function.update w.pool.worker i (.waiting t w.triggers (some w.pool.created)) := rfl
  refine .pending i ?_ ?_ ?_ ?_ ?_ ⟨?_, ?_, ?_⟩
  · simp [hworker, WorkerPhase.child]
  · simp [hworker, WorkerPhase.trigger]
  · simp [hworker, WorkerPhase.task]
  · intro j hj
    rw [hworker, Function.update_of_ne hj]
    refine not_involves (fun hchild => ?_) (fun htrigger => ?_)
    · exact absurd (hcount.pool.child j _ hchild) (lt_irrefl _)
    · exact absurd (hcount.pool.trigger j _ htrigger) (lt_irrefl _)
  · refine List.filter_eq_nil_iff.mpr fun x hx => ?_
    have hlt := (hcount.pool.registered x hx).1
    simpa using hlt.ne
  · intro hmem
    exact absurd (hcount.pool.ready _ hmem) (lt_irrefl _)
  · simp [AwaitWorld.awaitFunction, AwaitWorld.leave, hne, hspot]
  · by_contra hstage
    exact absurd (hcount.stage _ hstage) (lt_irrefl _)

lemma Handshake.notified (h : Handshake w c job) (hs : w.Started) (accepted : List Bool) :
    Handshake (w.notified τ accepted) c job := by
  refine h.of_same rfl rfl fun hu => hu.keep (fun hmem => ?_) (Or.inl rfl) (Or.inl rfl)
  simp only [AwaitWorld.notified, afterNotify_eq, List.mem_append] at hmem
  refine hmem.imp id fun hwoken => ?_
  exact hs.tasksOn ((woken_sublist _ accepted).subset hwoken)

lemma mem_pushReady {v : PoolWorld} {accepted : Bool} {u : Nat}
    (h : u ∈ (v.pushReady accepted t).ready) : u ∈ v.ready ∨ u = t := by
  cases accepted with
  | false => exact Or.inl h
  | true => simpa [pushReady] using h

/-- The registration of the parent turns a pending handshake into a registered one. -/
lemma Handshake.register (h : Handshake w c job) {id : Int} {c' : Option Nat}
    (hphase : w.pool.worker i = .waitPushed t id τ c') :
    Handshake { w with pool := (w.pool.setWorker i (.registered c')).register t id τ } c job := by
  have hworker : ((w.pool.setWorker i (.registered c')).register t id τ).worker =
      Function.update w.pool.worker i (.registered c') := rfl
  have hchild : (w.pool.worker i).child = c' := by rw [hphase]; rfl
  have htrigger : (w.pool.worker i).trigger = some τ := by rw [hphase]; rfl
  -- a worker that is not involved registers on another trigger
  have hframe : ¬(w.pool.worker i).Involves c job.trigger →
      Handshake { w with pool := (w.pool.setWorker i (.registered c')).register t id τ } c job := by
    intro hold
    have hne : job.trigger ≠ τ := by
      rintro rfl
      exact hold (Or.inr htrigger)
    refine h.of_worker hworker hold (not_involves ?_ (by simp [WorkerPhase.trigger])) ?_
      fun hu => hu.keep Or.inl (Or.inl rfl) (Or.inl rfl)
    · intro hc
      exact hold (Or.inl (hchild.trans hc))
    · simp [registrationsOn_register, hne]
  cases h with
  | pending j h1 h2 h3 h4 h5 h6 =>
    by_cases hij : i = j
    · subst hij
      obtain rfl : τ = job.trigger := by simpa [htrigger] using h2
      obtain rfl : t = job.parent := by simpa [hphase, WorkerPhase.task] using h3
      refine .registered i id ?_ ?_ ?_ ?_ (h6.keep Or.inl (Or.inl rfl) (Or.inl rfl))
      · simp only [hworker, Function.update_self]
        exact hchild.symm.trans h1
      · simp [hworker, WorkerPhase.trigger]
      · intro k hk
        simpa [hworker, hk] using h4 k hk
      · simp [registrationsOn_register, h5]
    · exact hframe (h4 i hij)
  | registered j id' h1 h2 h3 h4 h5 =>
    refine hframe (h3 i ?_)
    rintro rfl
    simp [htrigger] at h2
  | launched id' h1 h2 => exact hframe (h1 i)

/-- The push of the child launches it. -/
lemma Handshake.pushChild (h : Handshake w c job) {c' : Nat} (accepted : Bool)
    (hphase : w.pool.worker i = .registered (some c')) :
    Handshake { w with pool := (w.pool.setWorker i .idle).pushReady accepted c' } c job := by
  have hworker : ((w.pool.setWorker i .idle).pushReady accepted c').worker =
      Function.update w.pool.worker i .idle := pushReady_worker accepted c'
  have hregs : ((w.pool.setWorker i .idle).pushReady accepted c').registrations =
      w.pool.registrations := pushReady_registrations accepted c'
  have hidle : ¬WorkerPhase.idle.Involves c job.trigger :=
    not_involves (by simp [WorkerPhase.child]) (by simp [WorkerPhase.trigger])
  by_cases hcc : c' = c
  · subst hcc
    have hinv : (w.pool.worker i).Involves c' job.trigger := Or.inl (by rw [hphase]; rfl)
    have hlaunch : ∀ {id}, (∀ j ≠ i, ¬(w.pool.worker j).Involves c' job.trigger) →
        w.pool.registrationsOn job.trigger = [(job.trigger, job.parent, id)] →
        Handshake { w with pool := (w.pool.setWorker i .idle).pushReady accepted c' } c' job := by
      intro id hothers hon
      refine .launched id (fun j => ?_) ((registrationsOn_same hregs _).trans hon)
      rw [hworker]
      by_cases hji : j = i
      · rw [hji, Function.update_self]
        exact hidle
      · rw [Function.update_of_ne hji]
        exact hothers j hji
    cases h with
    | pending j h1 h2 h3 h4 h5 h6 =>
      by_cases hij : i = j
      · subst hij
        simp [hphase, WorkerPhase.trigger] at h2
      · exact absurd hinv (h4 i hij)
    | registered j id h1 h2 h3 h4 h5 =>
      by_cases hij : i = j
      · subst hij
        exact hlaunch h3 h4
      · exact absurd hinv (h3 i hij)
    | launched id h1 h2 => exact absurd hinv (h1 i)
  · refine h.of_worker hworker ?_ hidle (registrationsOn_same hregs _)
      fun hu => hu.keep (fun hmem => ?_) (Or.inl rfl) (Or.inl rfl)
    · rw [hphase]
      exact not_involves (by simpa [WorkerPhase.child] using hcc) (by simp [WorkerPhase.trigger])
    · exact Or.inl ((mem_pushReady hmem).resolve_right fun heq => hcc heq.symm)

lemma Handshake.step {a : AwaitStep} (h : Handshake w c job) (hcount : w.Counted) (hs : w.Started)
    (hjob : w.job c = some job) (heff : Effect w a w') : Handshake w' c job := by
  have huse := hcount.owner c job hjob
  cases heff with
  | newTrigger => exact h.of_same rfl rfl fun hu => hu.keep Or.inl (Or.inl rfl) (Or.inl rfl)
  | go accepted =>
    have hc : c < w.pool.created := hcount.job c (by simp [hjob])
    refine h.of_same (by simp) (registrationsOn_same (by simp) _) fun hu => ?_
    refine hu.keep (fun hmem => ?_) (Or.inl rfl) (Or.inl rfl)
    exact Or.inl ((mem_pushReady hmem).resolve_right hc.ne)
  | pop i index t hidle ht hresume =>
    refine h.of_worker rfl ?_ ?_ rfl fun hu => ⟨fun hmem => ?_, ?_, hu.stage⟩
    · rw [hidle]
      exact not_involves (by simp [WorkerPhase.child]) (by simp [WorkerPhase.trigger])
    · exact not_involves (by simp [WorkerPhase.child]) (by simp [WorkerPhase.trigger])
    · exact hu.ready (List.mem_of_mem_eraseIdx hmem)
    · have hne : c ≠ t := by
        rintro rfl
        exact hu.ready (List.mem_of_getElem? ht)
      simpa [hne] using hu.spot
  | yield i t hrun hspot => exact h.leave hs hrun (by simp) (by simp)
  | awaitTrigger i t τ hrun hspot hτ huser =>
    refine h.leave hs hrun (by simp) ?_
    rintro σ spawn heq rfl
    cases heq
    rw [huse] at huser
    cases huser
  | awaitFunction i t returning hrun hspot => exact h.awaitFunction hcount hs hjob hrun returning
  | armTimer i t hrun hspot =>
    have hstart : w.spot t ≠ .start := hs.worker i t (by rw [hrun]; rfl)
    exact h.of_same rfl rfl fun hu => hu.keep Or.inl (update_same_or hstart c) (Or.inl rfl)
  | suspendTimer i t τ hrun hspot =>
    have htimer := hcount.arming t τ hspot
    refine h.leave hs hrun (by simp) ?_
    rintro σ spawn heq rfl
    cases heq
    rw [huse] at htimer
    cases htimer
  | funcReturn i c' job' hrun hspot hjob' hstage =>
    have hstart : w.spot c' ≠ .start := hs.worker i c' (by rw [hrun]; rfl)
    exact h.of_same rfl rfl fun hu => hu.keep Or.inl (Or.inl rfl) (update_same_or hstart c)
  | childNotify i c' job' accepted hrun hspot hjob' hstage =>
    have hstart : w.spot c' ≠ .start := hs.worker i c' (by rw [hrun]; rfl)
    have hn : Handshake (w.notified job'.trigger accepted) c job := h.notified hs accepted
    exact hn.of_same rfl rfl fun hu => hu.keep Or.inl (Or.inl rfl)
      (update_same_or (w := w.notified job'.trigger accepted) hstart c)
  | publish i c' job' hrun hspot hjob' hstage =>
    have hstart : w.spot c' ≠ .start := hs.worker i c' (by rw [hrun]; rfl)
    exact h.of_same rfl rfl fun hu => hu.keep Or.inl (Or.inl rfl) (update_same_or hstart c)
  | bodyReturn i t hrun hspot => exact h.leave hs hrun (by simp) (by simp)
  | requeue i t accepted hphase =>
    have hstart : w.spot t ≠ .start := hs.worker i t (by rw [hphase]; rfl)
    refine h.of_worker (x := .idle) (pushReady_worker accepted t) ?_ ?_
      (registrationsOn_same (pushReady_registrations accepted t) _) fun hu => ?_
    · rw [hphase]
      exact not_involves (by simp [WorkerPhase.child]) (by simp [WorkerPhase.trigger])
    · exact not_involves (by simp [WorkerPhase.child]) (by simp [WorkerPhase.trigger])
    · refine hu.keep (fun hmem => (mem_pushReady hmem).imp id ?_) (Or.inl rfl) (Or.inl rfl)
      rintro rfl
      exact hstart
  | waitPush i t τ c' hphase =>
    have hviews : ∀ j, (Function.update w.pool.worker i
          (.waitPushed t (w.pool.waitQueue.push (some t)).1 τ c') j).child =
            (w.pool.worker j).child ∧
        (Function.update w.pool.worker i
          (.waitPushed t (w.pool.waitQueue.push (some t)).1 τ c') j).trigger =
            (w.pool.worker j).trigger ∧
        (Function.update w.pool.worker i
          (.waitPushed t (w.pool.waitQueue.push (some t)).1 τ c') j).task =
            (w.pool.worker j).task := by
      intro j
      by_cases hji : j = i
      · rw [hji, Function.update_self, hphase]
        exact ⟨rfl, rfl, rfl⟩
      · rw [Function.update_of_ne hji]
        exact ⟨rfl, rfl, rfl⟩
    refine h.frame (fun j _ => hviews j) (fun j hj hj' => hj ?_) rfl
      fun hu => hu.keep Or.inl (Or.inl rfl) (Or.inl rfl)
    exact hj'.imp (fun hc => (hviews j).1.symm.trans hc) fun hτ => (hviews j).2.1.symm.trans hτ
  | register i t τ id c' hphase => exact h.register hphase
  | pushNone i accepted hphase =>
    refine h.of_worker rfl ?_ ?_ rfl fun hu => hu.keep Or.inl (Or.inl rfl) (Or.inl rfl)
    · rw [hphase]
      exact not_involves (by simp [WorkerPhase.child]) (by simp [WorkerPhase.trigger])
    · exact not_involves (by simp [WorkerPhase.child]) (by simp [WorkerPhase.trigger])
  | pushChild i c' accepted hphase => exact h.pushChild accepted hphase
  | notify τ accepted hτ huser => exact h.notified hs accepted
  | timerCallback τ t accepted htimer hfired =>
    exact (h.notified hs accepted).of_same rfl rfl fun hu =>
      hu.keep Or.inl (Or.inl rfl) (Or.inl rfl)

end AwaitWorld

end CoplusLean
