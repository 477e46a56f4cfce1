import CoplusLean.Lib.Run
import CoplusLean.Models.Machine

/-!
# The life cycle of a `Machine`

`close_` and the thread handle of a machine are in step as long as no `restart` follows a
`join`. A machine is then running, joining or joined, in this order. `restart` does not put
`close_` back, so the first `restart` after a `join` leaves a joinable thread under a closed
flag, in every run.
-/

namespace CoplusLean

open Lib

namespace MachineWorld

/-- What the class promises, at one moment of a run: the handle is joinable exactly when
`close_` is false; the loop started last runs until the next `join`, as its guard lets it;
and a `join` comes back and leaves no thread that was not waited for. -/
structure InStep (w : MachineWorld) : Prop where
  noFault : w.fault = none
  joinable_iff : w.owner = .idle → (w.machine.joinable = true ↔ w.machine.close = false)
  runs : ∀ i, w.current = some i →
    w.machine.close = false ∧ ∃ phase, w.machine.threads[i]? = some phase ∧ phase ≠ .ended
  comesBack : w.owner = .joining → ∃ i, w.machine.t = some i ∧ ∀ job, ∃ n v,
    exec step w (List.replicate n (.thread i job) ++ [.joinReturn]) = some v ∧
      v.owner = .idle ∧ v.fault = none
  waitedFor : w.owner = .idle → w.current = none →
    ∀ i, i < w.machine.threads.length → i ∈ w.joined

/-! ### The stages of an orderly life -/

/-- The states of a machine that is not restarted after a `join`. -/
inductive Orderly : MachineWorld → Prop
  | running (phase : LoopPhase) (jobCount : Int) (hphase : phase ≠ .ended) :
    Orderly
      { machine := { t := some 0, close := false, jobCount := some jobCount, threads := [phase] }
        owner := .idle, fault := none, current := some 0, joined := [] }
  | joining (phase : LoopPhase) (jobCount : Int) :
    Orderly
      { machine := { t := some 0, close := true, jobCount := some jobCount, threads := [phase] }
        owner := .joining, fault := none, current := none, joined := [] }
  | joined (jobCount : Int) :
    Orderly
      { machine := { t := none, close := true, jobCount := some jobCount, threads := [.ended] }
        owner := .idle, fault := none, current := none, joined := [0] }

lemma orderly_init : Orderly init := Orderly.running .guard 0 (by decide)

/-- A machine with one thread: what a step of that thread does. -/
lemma threadStep_single {close : Bool} {phase : LoopPhase} {jobCount : Int} {t : Option Nat}
    {thread : Nat} {job : Bool} {m : Machine}
    (h : Machine.threadStep
      { t := t, close := close, jobCount := some jobCount, threads := [phase] } thread job =
        some m) :
    ∃ phase' jobCount',
      m = { t := t, close := close, jobCount := some jobCount', threads := [phase'] } ∧
      (close = false → phase' ≠ .ended) ∧ phase ≠ .ended := by
  cases thread with
  | succ thread => simp [Machine.threadStep] at h
  | zero =>
    cases phase with
    | guard =>
      simp only [Machine.threadStep, List.getElem?_cons_zero, List.set_cons_zero,
        Option.some.injEq] at h
      subst h
      exact ⟨_, _, rfl, fun hclose => by simp [hclose], by decide⟩
    | scheduling =>
      simp only [Machine.threadStep, List.getElem?_cons_zero, List.set_cons_zero,
        Option.some.injEq] at h
      subst h
      cases job with
      | false => exact ⟨.guard, jobCount, rfl, fun _ => by decide, by decide⟩
      | true => exact ⟨.guard, int32 (jobCount + 1), rfl, fun _ => by decide, by decide⟩
    | ended => simp [Machine.threadStep] at h

/-- One step of a run keeps a machine orderly, when it is no `restart` of a closed one. -/
lemma Orderly.step {w v : MachineWorld} {s : MachineStep} (h : Orderly w)
    (hgood : w.machine.close = true → s ≠ .restart) (hstep : w.step s = some v) :
    Orderly v := by
  cases h with
  | running phase jobCount hphase =>
    cases s with
    | join =>
      simp only [MachineWorld.step, callJoin, Option.isSome_none, Bool.false_eq_true, if_false,
        if_true, Option.some.injEq] at hstep
      subst hstep
      exact Orderly.joining phase jobCount
    | joinReturn => simp [MachineWorld.step] at hstep
    | restart =>
      simp [MachineWorld.step, callRestart, Machine.restart] at hstep
      subst hstep
      exact Orderly.running phase jobCount hphase
    | thread thread job =>
      simp only [MachineWorld.step, Option.isSome_none, Bool.false_eq_true, if_false] at hstep
      obtain ⟨m, hm, rfl⟩ := Option.map_eq_some_iff.mp hstep
      obtain ⟨phase', jobCount', rfl, hruns, -⟩ := threadStep_single hm
      exact Orderly.running phase' jobCount' (hruns rfl)
  | joining phase jobCount =>
    cases s with
    | join => simp [MachineWorld.step] at hstep
    | joinReturn =>
      cases phase <;>
        simp [MachineWorld.step, returnJoin, Machine.threadJoined] at hstep
      subst hstep
      exact Orderly.joined jobCount
    | restart => exact absurd rfl (hgood rfl)
    | thread thread job =>
      simp only [MachineWorld.step, Option.isSome_none, Bool.false_eq_true, if_false] at hstep
      obtain ⟨m, hm, rfl⟩ := Option.map_eq_some_iff.mp hstep
      obtain ⟨phase', jobCount', rfl, -, -⟩ := threadStep_single hm
      exact Orderly.joining phase' jobCount'
  | joined jobCount =>
    cases s with
    | join =>
      simp only [MachineWorld.step, callJoin, Option.isSome_none, Bool.false_eq_true, if_false,
        if_true, Option.some.injEq] at hstep
      subst hstep
      exact Orderly.joined jobCount
    | joinReturn => simp [MachineWorld.step] at hstep
    | restart => exact absurd rfl (hgood rfl)
    | thread thread job =>
      simp only [MachineWorld.step, Option.isSome_none, Bool.false_eq_true, if_false] at hstep
      obtain ⟨m, hm, -⟩ := Option.map_eq_some_iff.mp hstep
      obtain ⟨-, -, -, -, hended⟩ := threadStep_single hm
      exact absurd rfl hended

/-- A thread that a `join` waits for ends after at most two of its steps. -/
lemma joining_comesBack (phase : LoopPhase) (jobCount : Int) (job : Bool) :
    ∃ n v, exec step
      { machine := { t := some 0, close := true, jobCount := some jobCount, threads := [phase] }
        owner := .joining, fault := none, current := none, joined := [] }
      (List.replicate n (.thread 0 job) ++ [.joinReturn]) = some v ∧
        v.owner = .idle ∧ v.fault = none := by
  cases phase with
  | guard => exact ⟨1, _, rfl, rfl, rfl⟩
  | scheduling => exact ⟨2, _, rfl, rfl, rfl⟩
  | ended => exact ⟨0, _, rfl, rfl, rfl⟩

lemma Orderly.inStep {w : MachineWorld} (h : Orderly w) : InStep w := by
  cases h with
  | running phase jobCount hphase =>
    exact {
      noFault := rfl
      joinable_iff := fun _ => by simp [Machine.joinable]
      runs := by
        intro i hi
        obtain rfl : 0 = i := by simpa using hi
        exact ⟨rfl, phase, rfl, hphase⟩
      comesBack := by simp
      waitedFor := by simp }
  | joining phase jobCount =>
    exact {
      noFault := rfl
      joinable_iff := by simp
      runs := by simp
      comesBack := fun _ => ⟨0, rfl, joining_comesBack phase jobCount⟩
      waitedFor := by simp }
  | joined jobCount =>
    exact {
      noFault := rfl
      joinable_iff := by simp [Machine.joinable]
      runs := by simp
      comesBack := by simp
      waitedFor := by simp }

/-! ### A whole call of `join` -/

/-- A whole call of `join` is what its two steps come to, with those that the thread it waits
for takes in between. -/
theorem exec_join {w : MachineWorld} {lastJob : Bool} {m : Machine} (hfault : w.fault = none)
    (hidle : w.owner = .idle)
    (hthread : ∀ i, w.machine.t = some i → i < w.machine.threads.length)
    (hjoin : w.machine.join lastJob = .ok m) :
    ∃ steps v, exec step w (.join :: steps) = some v ∧ v.machine = m ∧ v.owner = .idle ∧
      v.fault = none := by
  obtain ⟨⟨t, close, jobCount, threads⟩, owner, fault, current, joined⟩ := w
  obtain rfl : fault = none := hfault
  obtain rfl : owner = .idle := hidle
  cases close with
  | true =>
    obtain rfl : _ = m := Except.ok.inj hjoin
    exact ⟨[], _, rfl, rfl, rfl, rfl⟩
  | false =>
    cases t with
    | none => simp [Machine.join] at hjoin
    | some i =>
      have hi : i < threads.length := hthread i rfl
      obtain rfl : _ = m := Except.ok.inj hjoin
      cases hphase : threads[i] with
      | guard =>
        refine ⟨[.thread i lastJob, .joinReturn],
          { machine := ⟨none, true, jobCount, threads.set i .ended⟩, owner := .idle
            fault := none, current := none, joined := [i] ++ joined }, ?_, ?_, rfl, rfl⟩
        · simp [step, callJoin, returnJoin, Machine.threadStep, Machine.threadJoined, hphase, hi]
        · simp [hphase, hi]
      | scheduling =>
        refine ⟨[.thread i lastJob, .thread i lastJob, .joinReturn],
          { machine :=
              { t := none, close := true, threads := threads.set i .ended
                jobCount := if lastJob then jobCount.map fun n => int32 (n + 1) else jobCount }
            owner := .idle, fault := none, current := none, joined := [i] ++ joined },
          ?_, ?_, rfl, rfl⟩
        · simp [step, callJoin, returnJoin, Machine.threadStep, Machine.threadJoined, hphase, hi]
        · simp [hphase, hi]
      | ended =>
        refine ⟨[.joinReturn],
          { machine := ⟨none, true, jobCount, threads⟩, owner := .idle
            fault := none, current := none, joined := [i] ++ joined }, ?_, ?_, rfl, rfl⟩
        · simp [step, callJoin, returnJoin, Machine.threadJoined, hphase, hi]
        · have hset : threads.set i .ended = threads := hphase ▸ List.set_getElem_self hi
          simp [hphase, hi, hset]

/-! ### The flag -/

/-- `join` is the only step that changes the flag, and nothing takes it back. -/
lemma close_of_step {w v : MachineWorld} {s : MachineStep} (hstep : w.step s = some v) :
    v.machine.close = true ↔ w.machine.close = true ∨ s = .join := by
  unfold step at hstep
  split at hstep
  · exact absurd hstep (by simp)
  · cases s with
    | join =>
      simp only [Option.ite_none_right_eq_some, Option.some.injEq] at hstep
      obtain ⟨-, rfl⟩ := hstep
      unfold callJoin
      split
      · rename_i hclose
        simp [hclose]
      · simp
    | joinReturn =>
      simp only [Option.ite_none_right_eq_some] at hstep
      obtain ⟨-, hstep⟩ := hstep
      unfold returnJoin Machine.threadJoined at hstep
      grind
    | restart =>
      simp only [Option.ite_none_right_eq_some, Option.some.injEq] at hstep
      obtain ⟨-, rfl⟩ := hstep
      unfold callRestart Machine.restart Machine.startThread
      grind
    | thread thread job =>
      obtain ⟨m, hm, rfl⟩ := Option.map_eq_some_iff.mp hstep
      unfold Machine.threadStep at hm
      grind

/-- A `restart` under a closed flag leaves the promise broken. -/
lemma not_inStep_of_restart {w v : MachineWorld} (hclose : w.machine.close = true)
    (hstep : w.step .restart = some v) : ¬ InStep v := by
  intro h
  have hnoFault := h.noFault
  have hjoinable := h.joinable_iff
  unfold step at hstep
  split at hstep
  · exact absurd hstep (by simp)
  · simp only [Option.ite_none_right_eq_some, Option.some.injEq] at hstep
    obtain ⟨hidle, rfl⟩ := hstep
    cases ht : w.machine.t with
    | none =>
      simp [callRestart, Machine.restart, Machine.startThread, Machine.joinable, hclose, ht,
        hidle] at hjoinable
    | some i =>
      simp [callRestart, Machine.restart, Machine.startThread, Machine.joinable, hclose,
        ht] at hnoFault

/-! ### Runs -/

/-- No `restart` comes after a `join`. -/
def NoRestartAfterJoin (steps : List MachineStep) : Prop :=
  steps.Pairwise fun s s' => s = .join → s' ≠ .restart

instance (steps : List MachineStep) : Decidable (NoRestartAfterJoin steps) :=
  inferInstanceAs (Decidable (List.Pairwise _ _))

lemma along_of_noRestartAfterJoin {w : MachineWorld} {steps : List MachineStep}
    (hsteps : NoRestartAfterJoin steps)
    (hclose : w.machine.close = true → ∀ s ∈ steps, s ≠ .restart) :
    Along step (fun w s => w.machine.close = true → s ≠ .restart) w steps := by
  induction steps generalizing w with
  | nil => exact trivial
  | cons s steps ih =>
    obtain ⟨hs, hrest⟩ := List.pairwise_cons.mp hsteps
    refine ⟨fun h => hclose h s List.mem_cons_self, fun v hv => ih hrest fun h s' hs' => ?_⟩
    obtain hw | hjoin := (close_of_step hv).mp h
    · exact hclose hw s' (List.mem_cons_of_mem s hs')
    · exact hs s' hs' hjoin

/-- Once the flag is closed, only runs without a `restart` keep the promise. -/
lemma no_restart_of_throughout {w u : MachineWorld} {steps : List MachineStep}
    (hclose : w.machine.close = true) (hrun : exec step w steps = some u)
    (h : Throughout step InStep w steps) : ∀ s ∈ steps, s ≠ .restart := by
  induction steps generalizing w with
  | nil => simp
  | cons s steps ih =>
    obtain ⟨v, hv, hrest⟩ := Option.bind_eq_some_iff.mp hrun
    have hlater := (throughout_cons.mp h).2 v hv
    intro s' hs'
    obtain rfl | hs' := List.mem_cons.mp hs'
    · rintro rfl
      exact not_inStep_of_restart hclose hv (hlater [] List.nil_prefix v rfl)
    · exact ih ((close_of_step hv).mpr (Or.inl hclose)) hrest hlater s' hs'

lemma noRestartAfterJoin_of_throughout {w u : MachineWorld} {steps : List MachineStep}
    (hrun : exec step w steps = some u) (h : Throughout step InStep w steps) :
    NoRestartAfterJoin steps := by
  induction steps generalizing w with
  | nil => exact List.Pairwise.nil
  | cons s steps ih =>
    obtain ⟨v, hv, hrest⟩ := Option.bind_eq_some_iff.mp hrun
    have hlater := (throughout_cons.mp h).2 v hv
    apply List.pairwise_cons.mpr
    constructor
    · intro s' hs' hjoin
      exact no_restart_of_throughout ((close_of_step hv).mpr (Or.inr hjoin)) hrest hlater s' hs'
    · exact ih hrest hlater

/-- In every run of a machine and its owner, the promise holds at every moment exactly when
no `restart` comes after a `join`. -/
theorem inStep_throughout_iff {steps : List MachineStep} {w : MachineWorld}
    (hrun : exec step init steps = some w) :
    Throughout step InStep init steps ↔ NoRestartAfterJoin steps := by
  constructor
  · exact noRestartAfterJoin_of_throughout hrun
  · intro hsteps pre hpre v hv
    have hgood : Along step (fun w s => w.machine.close = true → s ≠ .restart) init steps :=
      along_of_noRestartAfterJoin hsteps fun h => absurd h (by decide)
    have horderly : Throughout step Orderly init steps :=
      throughout_of_along (fun _ _ _ h hg hs => h.step hg hs) orderly_init hgood
    exact (horderly pre hpre v hv).inStep

/-- A machine that works, is asked to restart and is joined twice. -/
theorem inStep_throughout_joined_twice :
    ∃ w, exec step init [.thread 0 true, .restart, .join, .thread 0 true, .thread 0 true,
      .joinReturn, .join] = some w ∧
    Throughout step InStep init [.thread 0 true, .restart, .join, .thread 0 true,
      .thread 0 true, .joinReturn, .join] :=
  ⟨_, rfl, (inStep_throughout_iff rfl).mpr (by decide)⟩

/-- `join`, then `restart`, which returns true: the thread ends at the guard of its loop, is
joinable while the flag is closed, and the next `join` does not wait for it. -/
theorem restart_not_inStep :
    ∃ v w, exec step init [.join, .thread 0 false, .joinReturn, .restart] = some v ∧
      v.current = some 1 ∧ v.owner = .idle ∧ v.machine.joinable = true ∧
      v.machine.close = true ∧ ¬ InStep v ∧
      exec step v [.thread 1 false, .join] = some w ∧ w.owner = .idle ∧
      w.machine.threads[1]? = some .ended ∧ w.machine.joinable = true ∧ w.joined = [0] := by
  refine ⟨_, _, rfl, rfl, rfl, rfl, rfl, fun h => ?_, rfl, rfl, rfl, rfl, rfl⟩
  exact absurd ((h.joinable_iff rfl).mp rfl) (by decide)

end MachineWorld

end CoplusLean
