import CoplusLean.Lib.Run
import CoplusLean.Models.Fiber

/-!
# Control passes between a worker and its tasks

Whatever workers resume a task, the `caller_fiber` it sees is the scheduler fiber of the
worker that executes it, each `ToFiber()` leads back into the `call()` that resumed it, and
that call returns the way in which the task gave up control.
-/

namespace CoplusLean

open Lib

namespace FiberWorld

variable {w w' : FiberWorld} {i j t k : Nat}

/-- The status a task leaves behind on the worker that has executed it. -/
inductive Left (d : FiberData) : Spot → Prop
  | ready (h : d.publicStatus = .kReady) : Left d .inYield
  | waiting (trigger : Nat) (h : d.publicStatus = .kWaiting) (htrigger : d.trigger = some trigger) :
    Left d (.inAwait trigger)
  | finished (h : d.publicStatus = .kFinished) : Left d .ended

/-- Where control is on a worker. -/
inductive AtWorker (w : FiberWorld) (i : Nat) : Prop
  | loop (hcurrent : w.current i = .scheduler i) (hplace : w.place i = .loop)
  | returning (t k : Nat) (hcurrent : w.current i = .scheduler i) (hplace : w.place i = .inCall t k)
      (hleft : Left (w.data i) (w.task t).spot)
  | running (t k : Nat) (hcurrent : w.current i = .task t) (hplace : w.place i = .inCall t k)
      (hlast : (w.task t).lastCall = some k)
      (hcaller : (w.data i).callerFiber = .scheduler i)
      (hstatus : (w.data i).publicStatus = .kReady)

structure Controlled (w : FiberWorld) : Prop where
  worker : ∀ i, AtWorker w i
  called : ∀ i t k, w.place i = .inCall t k → (w.task t).called = true
  alone : ∀ i j t k l, w.place i = .inCall t k → w.place j = .inCall t l → i = j
  routine : ∀ t, (w.task t).workRoutine = .nilFiber ∨ (w.task t).workRoutine = .task t

lemma controlled_init : init.Controlled where
  worker i := .loop rfl rfl
  called i t k h := by simp [init] at h
  alone i j t k l h := by simp [init] at h
  routine t := Or.inl rfl

lemma AtWorker.congr (h : AtWorker w i) (hcurrent : w'.current i = w.current i)
    (hdata : w'.data i = w.data i) (hplace : w'.place i = w.place i)
    (htask : ∀ t k, w.place i = .inCall t k → w'.task t = w.task t) : AtWorker w' i := by
  cases h with
  | loop h1 h2 => exact .loop (by rw [hcurrent, h1]) (by rw [hplace, h2])
  | returning t k h1 h2 h3 =>
    exact .returning t k (by rw [hcurrent, h1]) (by rw [hplace, h2])
      (by rw [hdata, htask t k h2]; exact h3)
  | running t k h1 h2 h3 h4 h5 =>
    exact .running t k (by rw [hcurrent, h1]) (by rw [hplace, h2]) (by rw [htask t k h2, h3])
      (by rw [hdata, h4]) (by rw [hdata, h5])

/-- A step that `i` makes inside its call of `t`: no other worker looks at that task. -/
lemma Controlled.inside (hw : w.Controlled) (hplace : w.place i = .inCall t k)
    (hcurrent : ∀ j ≠ i, w'.current j = w.current j) (hdata : ∀ j ≠ i, w'.data j = w.data j)
    (hplaces : w'.place = w.place) (htask : ∀ u ≠ t, w'.task u = w.task u)
    (hcalled : (w'.task t).called = (w.task t).called)
    (hroutine : (w'.task t).workRoutine = (w.task t).workRoutine) (hi : AtWorker w' i) :
    w'.Controlled where
  worker j := by
    by_cases hj : j = i
    · rw [hj]
      exact hi
    · refine (hw.worker j).congr (hcurrent j hj) (hdata j hj) (by rw [hplaces]) ?_
      intro u l hu
      apply htask
      rintro rfl
      exact hj (hw.alone j i u l k hu hplace)
  called j u l hj := by
    rw [hplaces] at hj
    by_cases hu : u = t
    · rw [hu, hcalled]
      exact hw.called j t l (hu ▸ hj)
    · rw [htask u hu]
      exact hw.called j u l hj
  alone j j' u l l' := by
    rw [hplaces]
    exact hw.alone j j' u l l'
  routine u := by
    by_cases hu : u = t
    · rw [hu, hroutine]
      exact hw.routine t
    · rw [htask u hu]
      exact hw.routine u

/-- A worker that executes a task is in the call that last resumed it. -/
lemma Controlled.running (hw : w.Controlled) (hcurrent : w.current i = .task t) :
    ∃ k, w.place i = .inCall t k ∧ (w.task t).lastCall = some k ∧
      (w.data i).callerFiber = .scheduler i ∧ (w.data i).publicStatus = .kReady := by
  cases hw.worker i with
  | loop h1 h2 => simp [h1] at hcurrent
  | returning u k h1 => simp [h1] at hcurrent
  | running u k h1 h2 h3 h4 h5 =>
    obtain rfl : u = t := by simpa [h1] using hcurrent
    exact ⟨k, h2, h3, h4, h5⟩

/-- A worker that executes a scheduler fiber executes its own. -/
lemma Controlled.own (hw : w.Controlled) {s : Nat} (hcurrent : w.current i = .scheduler s) :
    s = i := by
  cases hw.worker i with
  | loop h1 h2 => simpa [h1, eq_comm] using hcurrent
  | returning t k h1 => simpa [h1, eq_comm] using hcurrent
  | running t k h1 => simp [h1] at hcurrent

/-- The body of `t` gives up control: it leaves `spot` and the data `d` behind. -/
def leave (w : FiberWorld) (i t : Nat) (spot : Spot) (d : FiberData) : FiberWorld :=
  ((w.setData i d).setSpot t spot).toFiber i .nilFiber

lemma leave_eq (spot : Spot) (d : FiberData) :
    w.leave i t spot d = { w with
      current := Function.update w.current i d.callerFiber
      data := Function.update w.data i { d with callerFiber := w.current i }
      task := Function.update w.task t { w.task t with spot := spot } } := by
  simp [leave, toFiber, setData, setSpot, setTask, switchToFiber]

/-- The `ToFiber()` of a task leads back into the call that last resumed it. -/
lemma Controlled.leave_back (hw : w.Controlled) (hcurrent : w.current i = .task t) (spot : Spot)
    {d : FiberData} (hcaller : d.callerFiber = (w.data i).callerFiber) :
    ∃ k, (w.leave i t spot d).current i = .scheduler i ∧
      (w.leave i t spot d).place i = .inCall t k ∧
      ((w.leave i t spot d).task t).lastCall = some k := by
  obtain ⟨k, hplace, hlast, hown, -⟩ := hw.running hcurrent
  simp only [leave_eq, Function.update_self]
  exact ⟨k, hcaller.trans hown, hplace, hlast⟩

lemma Controlled.leave (hw : w.Controlled) (hcurrent : w.current i = .task t) {spot : Spot}
    {d : FiberData} (hcaller : d.callerFiber = (w.data i).callerFiber)
    (hleft : Left { d with callerFiber := .task t } spot) : (w.leave i t spot d).Controlled := by
  obtain ⟨k, hplace, -, hown, -⟩ := hw.running hcurrent
  rw [leave_eq]
  refine hw.inside hplace ?_ ?_ rfl ?_ ?_ ?_ (.returning t k ?_ hplace ?_)
  · intro j hj
    exact Function.update_of_ne hj _ _
  · intro j hj
    exact Function.update_of_ne hj _ _
  · intro u hu
    exact Function.update_of_ne hu _ _
  · simp only [Function.update_self]
  · simp only [Function.update_self]
  · simp only [Function.update_self, hcaller, hown]
  · simpa only [Function.update_self, hcurrent] using hleft

/-- The worker on which a step executes an argument-less `ToFiber()`. -/
def leaving : FiberStep → Option Nat
  | .yield i => some i
  | .awaitTrigger i _ => some i
  | .awaitSeconds i _ => some i
  | .awaitFunction i _ _ => some i
  | .bodyReturn i => some i
  | _ => none

lemma inBody_eq_some {f : Nat → FiberWorld} (h : w.inBody i f = some w') :
    ∃ t, w.current i = .task t ∧ w' = f t := by
  unfold inBody at h
  split at h
  · split at h
    · exact ⟨_, ‹_›, by simpa using h.symm⟩
    · cases h
  · cases h

/-- What a task that gives up control leaves behind. -/
lemma Controlled.leaving_eq (hw : w.Controlled) {a : FiberStep} (ha : leaving a = some i)
    (hstep : w.step a = some w') :
    ∃ t spot d, w.current i = .task t ∧ w' = w.leave i t spot d ∧
      d.callerFiber = (w.data i).callerFiber ∧ Left { d with callerFiber := .task t } spot := by
  cases a <;> simp only [leaving, reduceCtorEq, Option.some.injEq] at ha
  case yield worker =>
    subst ha
    obtain ⟨t, ht, rfl⟩ := inBody_eq_some hstep
    obtain ⟨k, -, -, -, hstatus⟩ := hw.running ht
    refine ⟨t, .inYield, w.data worker, ht, ?_, rfl, .ready hstatus⟩
    simp only [FiberWorld.leave, yield, setData, Function.update_eq_self]
  case awaitTrigger worker trigger =>
    subst ha
    obtain ⟨t, ht, rfl⟩ := inBody_eq_some hstep
    exact ⟨t, .inAwait trigger, _, ht, rfl, rfl, .waiting trigger rfl rfl⟩
  case awaitSeconds worker trigger =>
    subst ha
    obtain ⟨t, ht, rfl⟩ := inBody_eq_some hstep
    exact ⟨t, .inAwait trigger, _, ht, rfl, rfl, .waiting trigger rfl rfl⟩
  case awaitFunction worker trigger child =>
    subst ha
    obtain ⟨t, ht, rfl⟩ := inBody_eq_some hstep
    exact ⟨t, .inAwait trigger, _, ht, rfl, rfl, .waiting trigger rfl rfl⟩
  case bodyReturn worker =>
    subst ha
    obtain ⟨t, ht, rfl⟩ := inBody_eq_some hstep
    exact ⟨t, .ended, _, ht, rfl, rfl, .finished rfl⟩

/-- The switch into a task. -/
lemma call_eq (hroutine : (w.task t).workRoutine = .nilFiber ∨ (w.task t).workRoutine = .task t) :
    w.call i t = { w with
      current := Function.update w.current i (.task t)
      data := Function.update w.data i { w.data i with
        publicStatus := .kReady
        callerFiber := w.current i }
      place := Function.update w.place i (.inCall t w.calls)
      task := Function.update w.task t { w.task t with
        status := .kReady
        retRoutine := w.current i
        workRoutine := .task t
        lastCall := some w.calls
        called := true }
      returned := Function.update w.returned i none
      calls := w.calls + 1 } := by
  rcases hroutine with h | h <;> simp [call, toFiber, setData, setTask, switchToFiber, h]

lemma Controlled.call (hw : w.Controlled) (hcurrent : w.current i = .scheduler i)
    (hplace : w.place i = .loop) (hfree : (w.task t).called = false) :
    (w.call i t).Controlled := by
  -- nobody is in a call of the task
  have hnone : ∀ j k, w.place j ≠ .inCall t k := by
    intro j k hj
    simp [hw.called j t k hj] at hfree
  rw [call_eq (hw.routine t)]
  refine ⟨fun j => ?_, fun j u k hj => ?_, fun j j' u k l hj hj' => ?_, fun u => ?_⟩
  · by_cases hj : j = i
    · subst hj
      exact .running t w.calls (by simp) (by simp) (by simp) (by simpa using hcurrent) (by simp)
    · refine (hw.worker j).congr (by simp [hj]) (by simp [hj]) (by simp [hj]) ?_
      intro u k hu
      refine Function.update_of_ne ?_ _ _
      rintro rfl
      exact hnone j k hu
  · by_cases hu : u = t
    · simp [hu]
    · by_cases hji : j = i
      · subst hji
        simp [Ne.symm hu] at hj
      · simp only [Function.update_of_ne hji] at hj
        simpa [hu] using hw.called j u k hj
  · by_cases hji : j = i
    · subst hji
      by_cases hji' : j' = j
      · exact hji'.symm
      · simp only [Function.update_self, Function.update_of_ne hji', SchedulerSpot.inCall.injEq] at hj hj'
        rw [← hj.1] at hj'
        exact absurd hj' (hnone j' l)
    · simp only [Function.update_of_ne hji] at hj
      by_cases hji' : j' = i
      · subst hji'
        simp only [Function.update_self, SchedulerSpot.inCall.injEq] at hj'
        rw [← hj'.1] at hj
        exact absurd hj (hnone j k)
      · simp only [Function.update_of_ne hji'] at hj'
        exact hw.alone j j' u k l hj hj'
  · by_cases hu : u = t
    · simp [hu]
    · simpa [hu] using hw.routine u

lemma Controlled.callReturn (hw : w.Controlled) (hcurrent : w.current i = .scheduler i)
    (hplace : w.place i = .inCall t k) : (w.callReturn i i t).Controlled := by
  simp only [FiberWorld.callReturn, setTask]
  refine ⟨fun j => ?_, fun j u l hj => ?_, fun j j' u l l' hj hj' => ?_, fun u => ?_⟩
  · by_cases hj : j = i
    · subst hj
      exact .loop hcurrent (by simp)
    · refine (hw.worker j).congr rfl rfl (by simp [hj]) ?_
      intro u l hu
      refine Function.update_of_ne ?_ _ _
      rintro rfl
      exact hj (hw.alone j i u l k hu hplace)
  · by_cases hji : j = i
    · simp [hji] at hj
    · simp only [Function.update_of_ne hji] at hj
      have hu : u ≠ t := by
        rintro rfl
        exact hji (hw.alone j i u l k hj hplace)
      simpa [hu] using hw.called j u l hj
  · by_cases hji : j = i
    · simp [hji] at hj
    · by_cases hji' : j' = i
      · simp [hji'] at hj'
      · simp only [Function.update_of_ne hji, Function.update_of_ne hji'] at hj hj'
        exact hw.alone j j' u l l' hj hj'
  · by_cases hu : u = t
    · simpa [hu] using hw.routine t
    · simpa [hu] using hw.routine u

lemma enter_eq (hstatus : (w.data i).publicStatus = .kReady) : w.enter i t = w.setSpot t .body := by
  have hsame : w.setData i { w.data i with publicStatus := .kReady } = w := by
    simp only [setData, ← hstatus, Function.update_eq_self]
  unfold enter
  split
  · rfl
  · rw [hsame]

lemma Controlled.enter (hw : w.Controlled) (hcurrent : w.current i = .task t) :
    (w.enter i t).Controlled := by
  obtain ⟨k, hplace, hlast, hown, hstatus⟩ := hw.running hcurrent
  rw [enter_eq hstatus]
  refine hw.inside hplace (fun _ _ => rfl) (fun _ _ => rfl) rfl ?_ ?_ ?_
    (.running t k hcurrent hplace ?_ hown hstatus)
  · intro u hu
    exact Function.update_of_ne hu _ _
  · simp only [setSpot, setTask, Function.update_self]
  · simp only [setSpot, setTask, Function.update_self]
  · simpa only [setSpot, setTask, Function.update_self] using hlast

lemma Controlled.step (hw : w.Controlled) {a : FiberStep} (hstep : w.step a = some w') :
    w'.Controlled := by
  cases ha : leaving a with
  | some i =>
    obtain ⟨t, spot, d, hcurrent, rfl, hcaller, hleft⟩ := hw.leaving_eq ha hstep
    exact hw.leave hcurrent hcaller hleft
  | none =>
    cases a <;> simp only [leaving, reduceCtorEq] at ha
    case call i t =>
      simp only [FiberWorld.step] at hstep
      split at hstep
      case h_1 s hcurrent =>
        obtain rfl := hw.own hcurrent
        split at hstep
        case isTrue hfree =>
          cases hstep
          exact hw.call hcurrent hfree.1 hfree.2.1
        case isFalse => cases hstep
      case h_2 => cases hstep
    case enter i =>
      simp only [FiberWorld.step] at hstep
      split at hstep
      case h_1 t hcurrent =>
        split at hstep
        case h_3 =>
          cases hstep
          exact hw.enter hcurrent
        all_goals cases hstep
      case h_2 => cases hstep
    case callReturn i =>
      simp only [FiberWorld.step] at hstep
      split at hstep
      case h_1 s hcurrent =>
        obtain rfl := hw.own hcurrent
        split at hstep
        case h_1 t k hplace =>
          cases hstep
          exact hw.callReturn hcurrent hplace
        case h_2 => cases hstep
      case h_2 => cases hstep

/-- A status tells how the task gave up control, and the trigger of the worker which await
it is in. -/
structure Tells (status : TaskStatus) (spot : Spot) (d : FiberData) : Prop where
  finished : status = .kFinished ↔ spot = .ended
  waiting : status = .kWaiting ↔ ∃ trigger, spot = .inAwait trigger ∧ d.trigger = some trigger
  ready : status = .kReady ↔ spot = .inYield

lemma Left.tells {d : FiberData} {spot : Spot} (h : Left d spot) : Tells d.publicStatus spot d := by
  cases h with
  | ready h => exact ⟨by simp [h], by simp [h], by simp [h]⟩
  | waiting trigger h htrigger =>
    exact ⟨by simp [h], by simp [h, htrigger], by simp [h]⟩
  | finished h => exact ⟨by simp [h], by simp [h], by simp [h]⟩

/-- What a return of `call()` hands to the worker. -/
lemma Controlled.callReturn_tells (hw : w.Controlled)
    (hstep : w.step (.callReturn i) = some w') :
    ∃ t k status, w.current i = .scheduler i ∧ w.place i = .inCall t k ∧
      w'.returned i = some (t, status) ∧ Tells status (w'.task t).spot (w'.data i) := by
  simp only [FiberWorld.step] at hstep
  split at hstep
  case h_1 s hcurrent =>
    obtain rfl := hw.own hcurrent
    split at hstep
    case h_1 t k hplace =>
      cases hstep
      have hleft : Left (w.data s) (w.task t).spot := by
        cases hw.worker s with
        | loop h1 h2 => simp [h2] at hplace
        | returning u l h1 h2 h3 =>
          obtain ⟨rfl, rfl⟩ : u = t ∧ l = k := by simpa [h2] using hplace
          exact h3
        | running u l h1 => simp [h1] at hcurrent
      refine ⟨t, k, (w.data s).publicStatus, hcurrent, hplace, ?_, ?_⟩
      · simp only [FiberWorld.callReturn, Function.update_self]
      · simpa only [FiberWorld.callReturn, setTask, Function.update_self] using hleft.tells
    case h_2 => cases hstep
  case h_2 => cases hstep

/-- In every run of any number of workers and tasks: a worker that executes a task has its own
scheduler fiber as `caller_fiber`; every `ToFiber()` of a task leads back into the call that
last resumed the task; and that call returns how the task gave up control. -/
theorem fiber_control (steps : List FiberStep) (w : FiberWorld)
    (hrun : exec FiberWorld.step init steps = some w) :
    (∀ i t, w.current i = .task t → (w.data i).callerFiber = .scheduler i) ∧
    (∀ a i w', leaving a = some i → w.step a = some w' →
      ∃ t k, w.current i = .task t ∧ w'.current i = .scheduler i ∧ w'.place i = .inCall t k ∧
        (w'.task t).lastCall = some k) ∧
    (∀ i w', w.step (.callReturn i) = some w' →
      ∃ t k status, w.current i = .scheduler i ∧ w.place i = .inCall t k ∧
        w'.returned i = some (t, status) ∧ Tells status (w'.task t).spot (w'.data i)) := by
  have hw : w.Controlled :=
    exec_invariant_always (fun _ _ _ hs hstep => hs.step hstep) controlled_init hrun
  refine ⟨fun i t hcurrent => ?_, fun a i w' ha hstep => ?_, fun i w' hstep => ?_⟩
  · obtain ⟨k, -, -, hown, -⟩ := hw.running hcurrent
    exact hown
  · obtain ⟨t, spot, d, hcurrent, rfl, hcaller, -⟩ := hw.leaving_eq ha hstep
    obtain ⟨k, hback⟩ := hw.leave_back hcurrent spot hcaller
    exact ⟨t, k, hcurrent, hback⟩
  · exact hw.callReturn_tells hstep

/-- The task 5 awaits on the worker 0 and ends on the worker 1. -/
def migration : List FiberStep :=
  [.call 0 5, .enter 0, .awaitTrigger 0 3, .callReturn 0, .call 1 5, .enter 1, .bodyReturn 1]

theorem fiber_control_migration :
    ∃ w w' : FiberWorld, exec FiberWorld.step init migration = some w ∧
      w.step (.callReturn 1) = some w' ∧ w'.returned 1 = some (5, .kFinished) ∧
      Tells .kFinished (w'.task 5).spot (w'.data 1) := by
  refine ⟨_, _, rfl, rfl, rfl, ?_⟩
  obtain ⟨t, k, status, -, -, hreturned, htells⟩ :=
    (fiber_control migration _ rfl).2.2 1 _ rfl
  cases hreturned
  exact htells

end FiberWorld

end CoplusLean
