import CoplusLean.Models.QueuedPool
import CoplusLean.Proofs.QueueConservation

/-!
# The thread pool with its `FastQueue` refines the scheduler

While `create_queue` does not fail, the `FastQueue` of a pool holds what the ready list of the
scheduler holds, in some order: a task that is pushed is ready, and a worker that looks for a task
finds one whenever there is one, wherever its scan starts. So whatever holds of every run of the
scheduler holds of the pool.
-/

namespace CoplusLean

open Lib FastQueue

namespace FastQueue

variable {α : Type*} [Inhabited α] {q : FastQueue α} {h : ProducerHandle} {xs : List α}

/-- The queue holds the values `xs`, in some order, and its only handle is `h`. -/
def Holds (q : FastQueue α) (h : Option ProducerHandle) (xs : List α) : Prop :=
  QueueWorld.Conserved ⟨q, Function.update (fun _ => none) 0 h, xs, []⟩

omit [Inhabited α] in
lemma holds_new : (new : FastQueue α).Holds none [] := by
  unfold Holds
  rw [Function.update_eq_self]
  exact QueueWorld.conserved_init

omit [Inhabited α] in
lemma Holds.perm {h : Option ProducerHandle} (hq : q.Holds h xs) : q.stored.flatten.Perm xs := by
  simpa using QueueWorld.Conserved.perm hq

omit [Inhabited α] in
lemma Holds.complete {h : Option ProducerHandle} (hq : q.Holds h xs) : q.Complete :=
  QueueWorld.Conserved.complete hq

lemma Holds.newHandle (hq : q.Holds none xs) (hflag : q.newHandle.1.createFailed = false) :
    q.newHandle.1.Holds (some q.newHandle.2) xs := by
  have hstep : QueueWorld.step ⟨q, Function.update (fun _ => none) 0 none, xs, []⟩ (.create 0) =
      some ⟨q.newHandle.1, Function.update (fun _ => none) 0 (some q.newHandle.2), xs, []⟩ := by
    simp [QueueWorld.step]
  refine QueueWorld.Conserved.step hq (fun w' hw' => ?_) hstep
  rw [hstep] at hw'
  obtain rfl := Option.some.inj hw'
  exact hflag

/-- A handle that has a queue finds room for every value. -/
lemma Holds.pushHard_accepts (hq : q.Holds (some h) xs) (x : α)
    (hflag : (q.pushHard h x).2.1.createFailed = false) : (q.pushHard h x).1 = true := by
  have hconserved : QueueWorld.Conserved _ := hq
  have hk : Function.update (fun _ => none) 0 (some h) 0 = some h := Function.update_self ..
  obtain ⟨p, rfl, -⟩ := hconserved.handles 0 h hk
  have hcount : q.created + 18 ≤ 4294967296 := by
    have hle : q.created ≤ 100 := hconserved.complete.created_le
    omega
  obtain ⟨s, hstart, hres⟩ :=
    pushHard_cases hconserved.complete.sound (hconserved.validHandle (k := 0) hk) hcount x
  cases hstart with
  | held p' hlocal =>
    generalize q.pushHard ⟨p, some p⟩ x = result at hflag hres
    cases hres with
    | noQueue hnone => cases hnone
    | first | moved => rfl
    | stuck p' q' hlocal hfull hlimit hsound hcreated hfree hstuck hstored =>
      rw [hstuck] at hflag
      cases hflag
  | acquired s hlocal hacquired => cases hlocal

lemma Holds.pushHard (hq : q.Holds (some h) xs) (x : α)
    (hflag : (q.pushHard h x).2.1.createFailed = false) :
    (q.pushHard h x).2.1.Holds (some (q.pushHard h x).2.2) (xs ++ [x]) := by
  have hstep : QueueWorld.step ⟨q, Function.update (fun _ => none) 0 (some h), xs, []⟩
      (.pushHard 0 x) = some ⟨(q.pushHard h x).2.1,
        Function.update (fun _ => none) 0 (some (q.pushHard h x).2.2), xs ++ [x], []⟩ := by
    simp [QueueWorld.step, QueueWorld.afterPush, hq.pushHard_accepts x hflag]
  refine QueueWorld.Conserved.step hq (fun w' hw' => ?_) hstep
  rw [hstep] at hw'
  obtain rfl := Option.some.inj hw'
  exact hflag

omit [Inhabited α] in
lemma createFailed_deleteHandle (q : FastQueue α) (h : ProducerHandle) :
    (q.deleteHandle h).createFailed = q.createFailed := by
  unfold deleteHandle
  split <;> rfl

lemma Holds.deleteHandle (hq : q.Holds (some h) xs) (hflag : q.createFailed = false) :
    (q.deleteHandle h).Holds none xs := by
  have hstep : QueueWorld.step ⟨q, Function.update (fun _ => none) 0 (some h), xs, []⟩ (.destroy 0) =
      some ⟨q.deleteHandle h, Function.update (fun _ => none) 0 none, xs, []⟩ := by
    simp [QueueWorld.step]
  refine QueueWorld.Conserved.step hq (fun w' hw' => ?_) hstep
  rw [hstep] at hw'
  obtain rfl := Option.some.inj hw'
  exact (createFailed_deleteHandle q h).trans hflag

/-! The history variable of a failed `create_queue` is never reset. -/

omit [Inhabited α] in
lemma retryLoop_keeps {σ : Type*} {f : σ → Bool × σ} {P : σ → Prop} (hf : ∀ s, P (f s).2 → P s)
    (n : Nat) {s : σ} (h : P (retryLoop f n s).2) : P s := by
  induction n generalizing s with
  | zero => exact h
  | succ n ih =>
    apply hf
    unfold retryLoop at h
    split at h
    case h_1 s' hs => rwa [hs]
    case h_2 s' hs =>
      rw [hs]
      exact ih h

omit [Inhabited α] in
lemma createFailed_apply (s : FastQueue α × ProducerHandle) :
    (apply s).2.1.createFailed = s.1.createFailed := by
  unfold apply
  split <;> rfl

lemma flag_of_preempt {s : FastQueue α × ProducerHandle}
    (h : (preempt s).2.1.createFailed = false) : s.1.createFailed = false := by
  have hcreate : s.1.createQueue.2.createFailed = false → s.1.createFailed = false := by
    unfold createQueue
    by_cases hfull : (s.1.queueList.push (some s.1.heap.length)).1 < 0 <;> simp [hfull]
  unfold preempt at h
  split at h
  case h_1 q' hq => exact hcreate (by rw [hq]; exact h)
  case h_2 t q' hq => exact hcreate (by rw [hq]; exact h)

omit [Inhabited α] in
lemma flag_of_applyLoop {n : Nat} {s : FastQueue α × ProducerHandle}
    (h : (retryLoop apply n s).2.1.createFailed = false) : s.1.createFailed = false :=
  retryLoop_keeps (P := fun t : FastQueue α × ProducerHandle => t.1.createFailed = false)
    (fun t ht => (createFailed_apply t).symm.trans ht) n h

lemma flag_of_preemptLoop {n : Nat} {s : FastQueue α × ProducerHandle}
    (h : (retryLoop preempt n s).2.1.createFailed = false) : s.1.createFailed = false :=
  retryLoop_keeps (P := fun t : FastQueue α × ProducerHandle => t.1.createFailed = false)
    (fun _ ht => flag_of_preempt ht) n h

lemma flag_of_pushLoop {x : α} {p n : Nat}
    (h : (retryLoop (pushLocal x p) n q).2.createFailed = false) : q.createFailed = false :=
  retryLoop_keeps (P := fun t : FastQueue α => t.createFailed = false) (fun _ ht => ht) n h

lemma flag_of_acquire {s : FastQueue α × ProducerHandle}
    (h : (acquire s).1.createFailed = false) : s.1.createFailed = false := by
  unfold acquire at h
  split at h
  case h_1 s' hs => exact flag_of_applyLoop (by rw [hs]; exact h)
  case h_2 s' hs => exact flag_of_applyLoop (by rw [hs]; exact flag_of_preemptLoop h)

lemma flag_of_pushSecond {x : α} {s : FastQueue α × ProducerHandle}
    (h : (pushSecond s x).2.1.createFailed = false) : s.1.createFailed = false := by
  have hloop : (retryLoop preempt (kProducerRetry - 1)
      (s.1.giveBack s.2.token, s.2)).2.1.createFailed = false := by
    unfold pushSecond at h
    dsimp only at h
    split at h
    case h_1 => exact h
    case h_2 => exact flag_of_pushLoop h
  exact flag_of_preemptLoop (s := (s.1.giveBack s.2.token, s.2)) hloop

lemma flag_of_pushHard {x : α} (hflag : (q.pushHard h x).2.1.createFailed = false) :
    q.createFailed = false := by
  have hfirst : ∀ (s : FastQueue α × ProducerHandle) (p : Nat),
      (pushFirst s p x).2.1.createFailed = false → s.1.createFailed = false := by
    intro s p hs
    unfold pushFirst at hs
    split at hs
    case h_1 q' hq => exact flag_of_pushLoop (by rw [hq]; exact hs)
    case h_2 q' hq => exact flag_of_pushLoop (by rw [hq]; exact flag_of_pushSecond hs)
  have hstart : (if h.local_ = none then acquire (q, h) else (q, h)).1.createFailed = false := by
    unfold FastQueue.pushHard at hflag
    dsimp only at hflag
    split at hflag
    case h_1 => exact hflag
    case h_2 p _ => exact hfirst _ p hflag
  split at hstart
  · exact flag_of_acquire (s := (q, h)) hstart
  · exact hstart

omit [Inhabited α] in
/-- A value that `pop_hard` returns was one of those that the queue held. -/
lemma Holds.probed {q' : FastQueue α} {r : Option α} (hq : q.Holds none xs) (h : Probed q r q') :
    match r with
    | none => q'.Holds none xs
    | some x => ∃ i, xs[i]? = some x ∧ q'.Holds none (xs.eraseIdx i) := by
  have hconserved : QueueWorld.Conserved _ := hq
  have hprobed := hconserved.probed h
  cases r with
  | none =>
    exact ⟨hprobed.complete, hprobed.handles, by simpa [QueueWorld.afterPop] using hprobed.perm⟩
  | some x =>
    have hperm : (x :: q'.stored.flatten).Perm xs := by
      simpa [QueueWorld.afterPop] using hprobed.perm
    obtain ⟨i, hi, hx⟩ := List.mem_iff_getElem.mp (hperm.subset List.mem_cons_self)
    have hget : xs[i]? = some x := by rw [List.getElem?_eq_getElem hi, hx]
    refine ⟨i, hget, hprobed.complete, hprobed.handles, ?_⟩
    have hmove : xs.Perm (x :: xs.eraseIdx i) := by
      rw [← hx]
      exact (List.getElem_cons_eraseIdx_perm hi).symm
    simpa using (hperm.trans hmove).cons_inv

end FastQueue

namespace QueuedPool

variable {c c' : QueuedPool} {w : PoolWorld} {ready : List Nat}

/-- The queue holds the tasks `ready`, in some order, and no handle is in use. -/
def Stores (tasks : FastQueue (Option Nat)) (ready : List Nat) : Prop :=
  tasks.Holds none (ready.map some)

/-- `push_hard` through a handle of its own. -/
lemma Stores.pushTask {tasks : FastQueue (Option Nat)} (h : Stores tasks ready) (task : Nat)
    (hflag : (pushTask tasks task).2.createFailed = false) :
    Stores (pushTask tasks task).2 (ready ++ [task]) := by
  have hpushed : (tasks.newHandle.1.pushHard tasks.newHandle.2 (some task)).2.1.createFailed =
      false := (createFailed_deleteHandle _ _).symm.trans hflag
  have hmade : tasks.newHandle.1.Holds (some tasks.newHandle.2) (ready.map some) :=
    Holds.newHandle h (flag_of_pushHard hpushed)
  have hdone := (hmade.pushHard (some task) hpushed).deleteHandle hpushed
  unfold Stores
  rw [List.map_append]
  exact hdone

lemma flag_of_notifyLoop {waitQueue : PushOnlyFastStack (Option Nat)} {ids : List Int}
    {s s' : FastQueue (Option Nat) × ProducerHandle} {tried : List (Nat × Bool)}
    (hloop : notifyLoop waitQueue ids s = some (tried, s')) (hflag : s'.1.createFailed = false) :
    s.1.createFailed = false := by
  induction ids generalizing s tried with
  | nil =>
    obtain ⟨-, rfl⟩ : [] = tried ∧ s = s' := by simpa [notifyLoop] using hloop
    exact hflag
  | cons id ids ih =>
    simp only [notifyLoop] at hloop
    split at hloop
    case h_1 =>
      obtain ⟨-, rfl⟩ : [] = tried ∧ s = s' := by simpa using hloop
      exact hflag
    case h_2 =>
      obtain ⟨⟨rest, t⟩, hrest, heq⟩ := Option.map_eq_some_iff.mp hloop
      obtain ⟨-, rfl⟩ := Prod.mk.inj heq
      exact flag_of_pushHard (ih hrest)
    case h_3 => cases hloop
    case h_4 => cases hloop

/-- The loop of `notify` pushes all tasks that that of the scheduler finds. -/
lemma notifyLoop_holds {waitQueue : PushOnlyFastStack (Option Nat)} {ids : List Int}
    {tasks : FastQueue (Option Nat)} {handle : ProducerHandle}
    {s' : FastQueue (Option Nat) × ProducerHandle} {tried : List (Nat × Bool)}
    (h : tasks.Holds (some handle) (ready.map some))
    (hloop : notifyLoop waitQueue ids (tasks, handle) = some (tried, s'))
    (hflag : s'.1.createFailed = false) :
    s'.1.Holds (some s'.2) ((ready ++ (tried.filter (·.2)).map (·.1)).map some) ∧
      PoolWorld.notifyLoop waitQueue ids [] = some tried := by
  induction ids generalizing tasks handle ready tried with
  | nil =>
    obtain ⟨rfl, rfl⟩ : [] = tried ∧ (tasks, handle) = s' := by simpa [notifyLoop] using hloop
    exact ⟨by simpa using h, rfl⟩
  | cons id ids ih =>
    simp only [notifyLoop] at hloop
    split at hloop
    case h_1 hget =>
      obtain ⟨rfl, rfl⟩ : [] = tried ∧ (tasks, handle) = s' := by simpa using hloop
      exact ⟨by simpa using h, by simp [PoolWorld.notifyLoop, hget]⟩
    case h_2 task hget =>
      obtain ⟨⟨rest, t⟩, hrest, heq⟩ := Option.map_eq_some_iff.mp hloop
      obtain ⟨rfl, rfl⟩ := Prod.mk.inj heq
      have hpushed := flag_of_notifyLoop hrest hflag
      have haccepts := h.pushHard_accepts (some task) hpushed
      have hmore := h.pushHard (some task) hpushed
      rw [show ready.map some ++ [some task] = (ready ++ [task]).map some by simp] at hmore
      obtain ⟨hholds, hmatch⟩ := ih hmore hrest
      exact ⟨by simpa [haccepts] using hholds,
        by simp [PoolWorld.notifyLoop, hget, hmatch, haccepts]⟩
    case h_3 => cases hloop
    case h_4 => cases hloop

/-! ## The refinement -/

/-- The steps of the scheduler that a step of the pool amounts to: every push is accepted, and a
`pop_hard` that finds nothing is no step. -/
inductive Shows : QueuedPoolStep → List PoolStep → Prop
  | go : Shows .go [.go true]
  | pop (worker middle index : Nat) : Shows (.pop worker middle) [.pop worker index]
  | popFails (worker middle : Nat) : Shows (.pop worker middle) []
  | call (worker : Nat) (status : CallStatus) : Shows (.call worker status) [.call worker status]
  | requeue (worker : Nat) : Shows (.requeue worker) [.requeue worker true]
  | waitPush (worker : Nat) : Shows (.waitPush worker) [.waitPush worker]
  | register (worker : Nat) : Shows (.register worker) [.register worker]
  | pushChild (worker : Nat) : Shows (.pushChild worker) [.pushChild worker true]
  | notify (trigger : Nat) : Shows (.notify trigger) [.notify trigger []]

/-- No `create_queue` has failed behind the step. -/
def CreateOk (c : QueuedPool) (a : QueuedPoolStep) : Prop :=
  ∀ c' ∈ c.step a, c'.tasks.createFailed = false

/-- The pool is the scheduler, with the tasks that are ready in its `FastQueue`. -/
structure Agrees (c : QueuedPool) (w : PoolWorld) : Prop where
  pool : w = { c.pool with ready := w.ready }
  tasks : Stores c.tasks w.ready

lemma agrees_init : init.Agrees .init := ⟨rfl, holds_new⟩

lemma Agrees.eq (hc : c.Agrees w) :
    ∃ ready, w = { c.pool with ready := ready } ∧ Stores c.tasks ready :=
  ⟨w.ready, hc.pool, hc.tasks⟩

/-- The steps of the scheduler that do not use the ready queue. -/
def Quiet : PoolStep → Prop
  | .call _ _ | .waitPush _ | .register _ => True
  | _ => False

/-- They do not see it either. -/
lemma step_ready {p p' : PoolWorld} {b : PoolStep} (hb : Quiet b) (hstep : p.step b = some p')
    (ready : List Nat) :
    PoolWorld.step { p with ready := ready } b = some { p' with ready := ready } := by
  cases b with
  | call i status =>
    simp only [PoolWorld.step] at hstep ⊢
    split at hstep
    case h_1 current hphase =>
      obtain rfl := Option.some.inj hstep
      cases status with
      | kReady => rfl
      | kFinished => rfl
      | kWaiting trigger spawn => cases spawn <;> rfl
    case h_2 => cases hstep
  | waitPush i | register i =>
    simp only [PoolWorld.step] at hstep ⊢
    split at hstep
    case h_1 =>
      obtain rfl := Option.some.inj hstep
      rfl
    case h_2 => cases hstep
  | go | pop | requeue | pushChild | notify => exact hb.elim

/-- What the refinement asks of a step. -/
def Matched (w : PoolWorld) (a : QueuedPoolStep) (c' : QueuedPool) : Prop :=
  ∃ bs v, Shows a bs ∧ exec PoolWorld.step w bs = some v ∧ c'.Agrees v

lemma matched_one {a : QueuedPoolStep} {b : PoolStep} {v : PoolWorld} (hshows : Shows a [b])
    (hstep : w.step b = some v) (hagrees : c'.Agrees v) : Matched w a c' :=
  ⟨[b], v, hshows, by rw [exec_cons, hstep]; rfl, hagrees⟩

lemma matched_quiet {a : QueuedPoolStep} {b : PoolStep} (hshows : Shows a [b]) (hb : Quiet b)
    (hc : c.Agrees w) (hstep : (c.pool.step b).map (fun pool => { c with pool := pool }) = some c') :
    Matched w a c' := by
  obtain ⟨p', hp', rfl⟩ := Option.map_eq_some_iff.mp hstep
  obtain ⟨ready, rfl, hstores⟩ := hc.eq
  exact matched_one hshows (step_ready hb hp' ready) ⟨rfl, hstores⟩

/-- A task is pushed and the worker goes on. -/
lemma agrees_push {tasks : FastQueue (Option Nat)} (hstores : Stores tasks ready) (task : Nat)
    (pool : PoolWorld) (hflag : (pushTask tasks task).2.createFailed = false) :
    Agrees ⟨(pushTask tasks task).2, pool⟩
      (PoolWorld.pushReady { pool with ready := ready } true task) :=
  ⟨rfl, hstores.pushTask task hflag⟩

/-- A worker that finds a task takes it from the ready list, where it may stand anywhere. -/
lemma matched_pop {worker middle : Nat} (hc : c.Agrees w)
    (hstep : c.step (.pop worker middle) = some c') : Matched w (.pop worker middle) c' := by
  obtain ⟨ready, rfl, hstores⟩ := hc.eq
  simp only [step] at hstep
  split at hstep
  case h_2 => cases hstep
  case h_1 hidle =>
    split at hstep
    case isFalse => cases hstep
    case isTrue hmiddle =>
      split at hstep
      case h_1 tasks hpop =>
        obtain rfl := Option.some.inj hstep
        have hprobed := Holds.probed hstores
          (probed_of_popHard (Holds.complete hstores).sound (QueueWorld.middle_lt hmiddle) hpop)
        exact ⟨[], _, .popFails worker middle, rfl, rfl, hprobed⟩
      case h_2 task tasks hpop =>
        obtain rfl := Option.some.inj hstep
        obtain ⟨index, hindex, hholds⟩ := Holds.probed hstores
          (probed_of_popHard (Holds.complete hstores).sound (QueueWorld.middle_lt hmiddle) hpop)
        have hready : ready[index]? = some task := by simpa using hindex
        refine matched_one (.pop worker middle index) (v := { c.pool.setWorker worker
          (.running task) with ready := ready.eraseIdx index }) ?_ ⟨rfl, ?_⟩
        · simp [PoolWorld.step, hidle, hready, PoolWorld.setWorker]
        · rw [List.eraseIdx_map] at hholds
          exact hholds
      case h_3 => cases hstep
      case h_4 => cases hstep

/-- The handle of a `notify` pushes the tasks that the scheduler wakes up. -/
lemma matched_notify {trigger : Nat} (hc : c.Agrees w)
    (hstep : c.step (.notify trigger) = some c') (hflag : c'.tasks.createFailed = false) :
    Matched w (.notify trigger) c' := by
  obtain ⟨ready, rfl, hstores⟩ := hc.eq
  simp only [step] at hstep
  obtain ⟨⟨tried, tasks, handle⟩, hloop, rfl⟩ := Option.map_eq_some_iff.mp hstep
  have hpushed : tasks.createFailed = false :=
    (createFailed_deleteHandle tasks handle).symm.trans hflag
  have hmade := Holds.newHandle hstores (flag_of_notifyLoop hloop hpushed)
  obtain ⟨hholds, hmatch⟩ := notifyLoop_holds hmade hloop hpushed
  refine matched_one (.notify trigger) (v := PoolWorld.afterNotify
    { c.pool with ready := ready } trigger tried) ?_ ⟨rfl, hholds.deleteHandle hpushed⟩
  simp [PoolWorld.step, hmatch]

/-- One step of the pool. -/
lemma matched_step {a : QueuedPoolStep} (hc : c.Agrees w) (hok : c.CreateOk a)
    (hstep : c.step a = some c') : Matched w a c' := by
  have hflag := hok c' hstep
  cases a with
  | go =>
    obtain ⟨ready, rfl, hstores⟩ := hc.eq
    obtain rfl := Option.some.inj hstep
    exact matched_one .go rfl
      (agrees_push hstores c.pool.created { c.pool with created := c.pool.created + 1 } hflag)
  | pop worker middle => exact matched_pop hc hstep
  | call worker status => exact matched_quiet (.call worker status) trivial hc hstep
  | requeue worker =>
    obtain ⟨ready, rfl, hstores⟩ := hc.eq
    simp only [step] at hstep
    split at hstep
    case h_1 current hphase =>
      obtain rfl := Option.some.inj hstep
      refine matched_one (.requeue worker) ?_
        (agrees_push hstores current (c.pool.setWorker worker .idle) hflag)
      simp [PoolWorld.step, hphase, PoolWorld.setWorker]
    case h_2 => cases hstep
  | waitPush worker => exact matched_quiet (.waitPush worker) trivial hc hstep
  | register worker => exact matched_quiet (.register worker) trivial hc hstep
  | pushChild worker =>
    obtain ⟨ready, rfl, hstores⟩ := hc.eq
    simp only [step] at hstep
    split at hstep
    case h_1 hphase =>
      obtain rfl := Option.some.inj hstep
      refine matched_one (.pushChild worker) (v := { c.pool.setWorker worker .idle with
        ready := ready }) ?_ ⟨rfl, hstores⟩
      simp [PoolWorld.step, hphase, PoolWorld.setWorker]
    case h_2 child hphase =>
      obtain rfl := Option.some.inj hstep
      refine matched_one (.pushChild worker) ?_
        (agrees_push hstores child (c.pool.setWorker worker .idle) hflag)
      simp [PoolWorld.step, hphase, PoolWorld.setWorker]
    case h_3 => cases hstep
  | notify trigger => exact matched_notify hc hstep hflag

/-- An idle worker finds a task whenever there is one, and changes nothing else in the pool when
there is none. -/
lemma pop_finds (hc : c.Agrees w) {worker middle : Nat} (hidle : c.pool.worker worker = .idle)
    (hmiddle : QueueWorld.UIntOutcome c.tasks.queueList.size middle) :
    ∃ c', c.step (.pop worker middle) = some c' ∧
      ((∃ task ∈ w.ready, c'.pool = c.pool.setWorker worker (.running task)) ∨
        (w.ready = [] ∧ c'.pool = c.pool)) := by
  obtain ⟨r, tasks, hpop, hprobed, hnone⟩ := popHard_complete (Holds.complete hc.tasks) hmiddle
  have hfound := Holds.probed hc.tasks hprobed
  cases r with
  | none =>
    have hempty : w.ready = [] := by
      have hperm := Holds.perm hc.tasks
      rw [hnone.mp rfl] at hperm
      simpa using hperm
    exact ⟨{ c with tasks := tasks }, by simp [step, hidle, hmiddle, hpop], .inr ⟨hempty, rfl⟩⟩
  | some x =>
    obtain ⟨index, hindex, -⟩ := hfound
    obtain ⟨task, htask, rfl⟩ := List.mem_map.mp (List.mem_of_getElem? hindex)
    exact ⟨⟨tasks, c.pool.setWorker worker (.running task)⟩,
      by simp [step, hidle, hmiddle, hpop], .inl ⟨task, htask, rfl⟩⟩

/-- What the pool has in common with the scheduler that it runs like: the workers, the triggers and
the tasks, of which those that are ready are in the `FastQueue`. -/
structure Mirrors (c : QueuedPool) (w : PoolWorld) : Prop where
  pool : w = { c.pool with ready := w.ready }
  tasks : c.tasks.stored.flatten.Perm (w.ready.map some)
  count : c.tasks.elementCount = some w.ready.length
  finds : ∀ worker middle, c.pool.worker worker = .idle →
    QueueWorld.UIntOutcome c.tasks.queueList.size middle →
    ∃ c', c.step (.pop worker middle) = some c' ∧
      ((∃ task ∈ w.ready, c'.pool = c.pool.setWorker worker (.running task)) ∨
        (w.ready = [] ∧ c'.pool = c.pool))

lemma Agrees.mirrors (hc : c.Agrees w) : c.Mirrors w where
  pool := hc.pool
  tasks := Holds.perm hc.tasks
  count := by
    rw [elementCount_complete (Holds.complete hc.tasks), (Holds.perm hc.tasks).length_eq,
      List.length_map]
  finds _ _ hidle hmiddle := pop_finds hc hidle hmiddle

/-- While `create_queue` does not fail, every run of the pool is a run of the scheduler in which no
push is refused, step by step: the `FastQueue` holds the tasks that are ready there, and `pop_hard`
comes back empty-handed only when none is. -/
theorem queuedPool_refines {run : List QueuedPoolStep} {c : QueuedPool}
    (hcreate : Along step CreateOk init run) (hrun : exec step init run = some c) :
    ∃ bss w, List.Forall₂ Shows run bss ∧ exec PoolWorld.step .init bss.flatten = some w ∧
      c.Mirrors w := by
  obtain ⟨bss, w, hshows, hmatch, hagrees⟩ :=
    exec_refines (fun _ _ _ _ hc hok hstep => matched_step hc hok hstep) agrees_init hcreate hrun
  exact ⟨bss, w, hshows, hmatch, hagrees.mirrors⟩

instance (c : QueuedPool) (a : QueuedPoolStep) : Decidable (c.CreateOk a) :=
  inferInstanceAs (Decidable (∀ c' ∈ _, _ = _))

/-- One task yields, the other awaits a task of its own and is notified. -/
def awaitRun : List QueuedPoolStep :=
  [.go, .go, .pop 0 0, .pop 1 0, .pop 2 0, .call 0 .kReady, .requeue 0, .call 1 (.kWaiting 7 true),
    .waitPush 1, .register 1, .pushChild 1, .notify 7]

theorem queuedPool_refines_await : ∃ c, exec step init awaitRun = some c ∧
    c.tasks.stored.flatten = [some 0, some 2, some 1] ∧
    ∃ bss w, List.Forall₂ Shows awaitRun bss ∧ exec PoolWorld.step .init bss.flatten = some w ∧
      c.Mirrors w := by
  have hcreate : Along step CreateOk init awaitRun := by decide +kernel
  have htasks : (exec step init awaitRun).map (fun c => c.tasks.stored.flatten) =
      some [some 0, some 2, some 1] := by decide +kernel
  obtain ⟨c, hc, htasks⟩ := Option.map_eq_some_iff.mp htasks
  exact ⟨c, hc, htasks, queuedPool_refines hcreate hc⟩

end QueuedPool

end CoplusLean
