import CoplusLean.Proofs.PopHardThreads

/-!
# A call of `pop_hard` ends

Each index is tried once, and a `pop` on a local queue is at most six steps, so a call of
`pop_hard` ends after a number of its own steps that depends on `middle` only, whatever the
handles and the other consumers do, new local queues included. None of its steps waits, and none
leaves the chunk table of `QueueList` unless `create_queue` has failed.
-/

namespace CoplusLean

open Lib FastQueue

variable {α : Type*}

namespace QueueUserStep

/-- The consumer begins a call. -/
def calls (consumer : Nat) : QueueUserStep α → Bool
  | .popHard c _ => c = consumer
  | _ => false

/-- The consumer goes on with its call. -/
def isNext (consumer : Nat) : QueueUserStep α → Bool
  | .next c => c = consumer
  | _ => false

end QueueUserStep

namespace QueueUsers

open ProbePhase

variable {w w' : QueueUsers α} {c : Nat}

/-- The steps left of the `pop` that the consumer is in. -/
def popLeft (w : QueueUsers α) (c : Nat) : Nat :=
  match (w.probe c).popping with
  | some p => ((w.shared.locals p).phase (2 * c + 1)).popLeft
  | none => 6

/-- The steps that the call of a consumer has left at most. -/
def left (w : QueueUsers α) (c : Nat) : Nat := (w.probe c).stepsLeft (w.popLeft c)

lemma popLeft_le (w : QueueUsers α) (c : Nat) : w.popLeft c ≤ 6 := by
  unfold popLeft
  split
  · exact Phase.popLeft_le _
  · exact le_rfl

/-- The steps of the others do not touch a call. -/
lemma left_same (hprobe : w'.probe c = w.probe c) (hphase : ∀ p,
    (w'.shared.locals p).phase (2 * c + 1) = (w.shared.locals p).phase (2 * c + 1)) :
    w'.left c = w.left c := by
  unfold left popLeft
  rw [hprobe]
  split <;> simp only [hphase]

lemma left_setProbe (w : QueueUsers α) (c : Nat) (x : ProbePhase) :
    ∃ pop ≤ 6, (w.setProbe c x).left c = x.stepsLeft pop :=
  ⟨(w.setProbe c x).popLeft c, popLeft_le _ c, by simp [left, setProbe]⟩

/-- The steps of a consumer bring its call nearer to its end. -/
lemma left_step [Inhabited α] {a : QueueUserStep α} (hw : w.Probing) (hcall : a.calls c = false)
    (heff : Effect w a w') : w'.left c + (if a.isNext c then 1 else 0) ≤ w.left c := by
  cases heff with
  | handle a s hactor hstep =>
    have hpops := FastQueueWorld.pops_of_handle hw.going hactor (FastQueueWorld.effect_of_step hstep)
    have hsame : left { w with shared := s } c = w.left c := left_same rfl fun p => (hpops p).2 c
    exact hsame.le
  | call k middle hidle hmiddle =>
    have hne : c ≠ k := by
      rintro rfl
      simp [QueueUserStep.calls] at hcall
    have hsame : (w.setProbe k (.down middle middle w.shared.queue.queueList.size)).left c =
        w.left c := left_same (by simp [setProbe, hne]) fun _ => rfl
    exact hsame.le
  | turn k x hprobe hbound hleft =>
    by_cases hck : c = k
    · subst hck
      obtain ⟨pop, hpop, heq⟩ := left_setProbe w c x
      rw [heq, if_pos (by simp [QueueUserStep.isNext])]
      exact hleft pop _ hpop
    · rw [if_neg (by simpa [QueueUserStep.isNext] using Ne.symm hck)]
      have hsame : (w.setProbe k x).left c = w.left c :=
        left_same (by simp [setProbe, hck]) fun _ => rfl
      exact hsame.le
  | pop k p failed l hprobe hbound hleft hstep =>
    obtain ⟨x, hpop⟩ := LocalWorld.popNext_effect (hw.popping p k) hstep
    by_cases hck : c = k
    · subst hck
      have hnow : w.left c =
          (w.probe c).stepsLeft ((w.shared.locals p).phase (2 * c + 1)).popLeft := by
        simp [left, popLeft, hprobe]
      rw [if_pos (by simp [QueueUserStep.isNext]), hnow]
      cases hresult : ((w.shared.locals p).phase (2 * c + 1)).popResult with
      | none =>
        have hle := hpop.next hresult
        have hnew : left (afterPop { w with
            shared := { w.shared with locals := Function.update w.shared.locals p l } } c p failed
            none) c = (w.probe c).stepsLeft x.popLeft := by
          simp [left, popLeft, afterPop, hprobe, hpop.phase]
        rw [hnew, stepsLeft_popping hprobe, stepsLeft_popping hprobe (Phase.popLeft _)]
        omega
      | some result =>
        rw [hpop.last (by simp [hresult])]
        cases result with
        | none =>
          obtain ⟨pop, hpop, heq⟩ := left_setProbe _ c failed
          exact heq ▸ hleft pop hpop
        | some ret =>
          have hidle : left (afterPop { w with
              shared := { w.shared with locals := Function.update w.shared.locals p l } } c p failed
              (some (some ret))) c = 0 := by
            simp [left, afterPop, setProbe, stepsLeft]
          rw [hidle, stepsLeft_popping hprobe]
          omega
    · have hne : 2 * c + 1 ≠ 2 * k + 1 := by omega
      have hphase : ∀ q, (Function.update w.shared.locals p l q).phase (2 * c + 1) =
          (w.shared.locals q).phase (2 * c + 1) := by
        intro q
        by_cases hq : q = p
        · subst hq
          rw [Function.update_self, hpop.phase, Function.update_of_ne hne]
        · rw [Function.update_of_ne hq]
      rw [if_neg (by simpa [QueueUserStep.isNext] using Ne.symm hck)]
      have hsame : ∀ r, left (afterPop { w with
          shared := { w.shared with locals := Function.update w.shared.locals p l } } k p failed
          r) c = w.left c := by
        rintro (_ | _ | ret)
        · exact left_same rfl hphase
        · exact left_same (by simp [afterPop, setProbe, hck]) hphase
        · exact left_same (by simp [afterPop, setProbe, hck]) hphase
      exact (hsame _).le

/-- Within the capacity of `QueueList` no index leaves its chunk table. -/
lemma Probing.get_inside (hw : w.Probing) {index : Nat} (hindex : index < 100) :
    w.shared.queue.queueList.get index ≠ .outOfBounds := by
  have hslot : index / 10 < w.shared.queue.queueList.stacks_.length := by
    rw [hw.table]
    omega
  unfold PushOnlyFastStack.get
  split
  · simp
  · simp only [hw.unitSize, Int.toNat_natCast, List.getElem?_eq_getElem hslot]
    cases w.shared.queue.queueList.stacks_[index / 10] <;> simp

lemma exists_popNext (w : QueueUsers α) (c p : Nat) (failed : ProbePhase) :
    ∃ w', w.popNext c p failed = some w' := by
  obtain ⟨l, hl⟩ := LocalWorld.exists_popNext kLocalQueueSize (w.shared.locals p) (2 * c + 1)
  exact ⟨_, by rw [QueueUsers.popNext, hl]; rfl⟩

/-- A consumer in a call can always make its next step. -/
lemma Probing.exists_next (hw : w.Probing) (hidle : w.probe c ≠ .idle)
    (hcount : w.shared.queue.queueList.pushCount ≤ kQueueMaxCount) : ∃ w', w.next c = some w' := by
  have hbound := hw.bounded c
  cases hprobe : w.probe c with
  | idle => exact absurd hprobe hidle
  | down index middle size =>
    rw [hprobe] at hbound
    obtain ⟨hsize, hle, hmiddle⟩ := hbound
    have hlow : size ≤ 100 := hsize.2 hcount
    have hget := hw.get_inside (show index < 100 by omega)
    simp only [QueueUsers.next, hprobe]
    split
    · exact absurd ‹_› hget
    · exact ⟨_, rfl⟩
    · exact ⟨_, rfl⟩
  | downPop p index middle size =>
    simp only [QueueUsers.next, hprobe]
    exact exists_popNext w c p _
  | up index size =>
    rw [hprobe] at hbound
    have hlow : size ≤ 100 := hbound.2 hcount
    simp only [QueueUsers.next, hprobe]
    split
    · have hget := hw.get_inside (show index < 100 by omega)
      split
      · exact absurd ‹_› hget
      · exact ⟨_, rfl⟩
      · exact ⟨_, rfl⟩
    · exact ⟨_, rfl⟩
  | upPop p index size =>
    simp only [QueueUsers.next, hprobe]
    exact exists_popNext w c p _
  | upFailed index size =>
    simp only [QueueUsers.next, hprobe]
    exact ⟨_, rfl⟩

/-- In every interleaving a call of `pop_hard` ends after at most eight steps of its own for each
index that it may try, whatever the handles and the other consumers do, and until it ends its next
step is possible, if `create_queue` has not failed. -/
theorem popHard_ends [Inhabited α] (c middle : Nat) (before after : List (QueueUserStep α))
    (w v : QueueUsers α) (hbefore : exec step init (before ++ [.popHard c middle]) = some w)
    (hwithin : ∀ a ∈ after, a.calls c = false) (hafter : exec step w after = some v) :
    after.countP (QueueUserStep.isNext c) ≤ 8 * max (middle + 1) 101 ∧
      (v.probe c ≠ .idle → v.shared.queue.queueList.pushCount ≤ kQueueMaxCount →
        ∃ v', v.step (.next c) = some v') := by
  have hw : w.Probing := probing_run probing_init hbefore
  rw [exec_append] at hbefore
  obtain ⟨u, hu, hlast⟩ := Option.bind_eq_some_iff.mp hbefore
  obtain ⟨w₁, hstep, hw₁⟩ := Option.bind_eq_some_iff.mp hlast
  obtain rfl := Option.some.inj hw₁
  have hstart : w₁.left c ≤ 8 * max (middle + 1) 101 := by
    cases effect_of_step (probing_run probing_init hu) hstep with
    | call _ _ hidle hmiddle =>
      obtain ⟨pop, hpop, heq⟩ :=
        left_setProbe u c (.down middle middle u.shared.queue.queueList.size)
      rw [heq]
      simp only [stepsLeft, upLeft]
      omega
  have hle := exec_balance (P := Probing) (f := fun s => s.left c) (g := fun _ => 0)
    (p := QueueUserStep.isNext c) (fun s a t hs ha hstep => by
      have heff := effect_of_step hs hstep
      exact ⟨hs.step heff, left_step hs ha heff⟩) hw hwithin hafter
  have hv : v.Probing := probing_run hw hafter
  exact ⟨by omega, fun hidle hcount => hv.exists_next hidle hcount⟩

/-- A consumer calls `pop_hard` on a queue without local queues, which a handle creates meanwhile. -/
def createdMeanwhile : List (QueueUserStep Nat) :=
  [.next 0, .handle (.create 0)] ++ List.replicate 10 (.handle (.next 0)) ++ [.next 0]

theorem popHard_ends_createdMeanwhile : ∃ w v,
    exec step (init : QueueUsers Nat) ([] ++ [.popHard 0 0]) = some w ∧
    exec step w createdMeanwhile = some v ∧ v.probe 0 = .idle ∧ v.returned = [] ∧
    createdMeanwhile.countP (QueueUserStep.isNext 0) ≤ 8 * max (0 + 1) 101 := by
  have heval : ((exec step (init : QueueUsers Nat) ([] ++ [.popHard 0 0])).bind fun w =>
      exec step w createdMeanwhile).map (fun v => (v.probe 0, v.returned)) =
        some (.idle, []) := by decide +kernel
  obtain ⟨v, hv, hend⟩ := Option.map_eq_some_iff.mp heval
  obtain ⟨w, hw, hafter⟩ := Option.bind_eq_some_iff.mp hv
  obtain ⟨hprobe, hreturned⟩ := Prod.mk.inj hend
  exact ⟨w, v, hw, hafter, hprobe, hreturned,
    (popHard_ends 0 0 [] createdMeanwhile w v hw (by decide) hafter).1⟩

end QueueUsers

end CoplusLean
