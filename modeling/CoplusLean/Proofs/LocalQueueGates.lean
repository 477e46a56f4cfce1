import CoplusLean.Lib.Run
import CoplusLean.Lib.TicketGate
import CoplusLean.Models.LocalQueueThreads

/-!
# The two gates of `FastLocalQueue`

`push` and `pop` are attempts at two ticket gates: the limit of `push` is the number of
completed pops plus the capacity, the limit of `pop` is the number of completed pushes.
This holds for any number of producers and consumers as long as the differences that the
tests compute modulo `2 ^ 32` can be read as true differences.
-/

namespace CoplusLean

open Lib

variable {α : Type*}

def Phase.pushStage : Phase α → Stage
  | .pushLoaded _ enqRevoke => .loaded enqRevoke
  | .pushDrawn _ enqRevoke enq => .drawn enqRevoke enq
  | .pushRefused enq => .refused enq
  | .pushAdmitted _ _ => .admitted
  | .pushTicket _ _ => .working
  | .pushWritten _ _ => .working
  | _ => .out

def Phase.popStage : Phase α → Stage
  | .popLoaded deqRevoke => .loaded deqRevoke
  | .popDrawn deqRevoke deq => .drawn deqRevoke deq
  | .popRefused deq => .refused deq
  | .popAdmitted _ => .admitted
  | .popTicket _ => .working
  | .popRead _ _ => .working
  | _ => .out

namespace LocalWorld

variable {n t : Nat} {w w' : LocalWorld α}

/-- The differences read at the tests lie where their values modulo `2 ^ 32` decide. -/
def InRange (q : FastLocalQueue α) : Phase α → Prop
  | .pushDrawn _ enqRevoke enq => enq < enqRevoke + q.head + 4294967296
  | .popDrawn deqRevoke deq => deq ≤ deqRevoke + q.tail + 2147483648
  | _ => True

/-- No step meets the hazard that the comments of the code exclude: so many calls between
two steps of one call that a test reads a difference out of range. -/
def Hazardless (w : LocalWorld α) : ThreadStep α → Prop
  | .advance t => InRange w.queue (w.phase t)
  | _ => True

instance (q : FastLocalQueue α) : DecidablePred (InRange q)
  | .pushDrawn _ _ _ => inferInstanceAs (Decidable (_ < _))
  | .popDrawn _ _ => inferInstanceAs (Decidable (_ ≤ _))
  | .idle | .pushLoaded _ _ | .pushRefused _ | .pushAdmitted _ _ | .pushTicket _ _
  | .pushWritten _ _ | .popLoaded _ | .popRefused _ | .popAdmitted _ | .popTicket _
  | .popRead _ _ => isTrue trivial

instance (w : LocalWorld α) : DecidablePred w.Hazardless
  | .advance _ => inferInstanceAs (Decidable (InRange _ _))
  | .push _ _ => isTrue trivial
  | .pop _ => isTrue trivial

/-- Both ends of the queue are ticket gates. -/
structure Gated (n : Nat) (w : LocalWorld α) : Prop where
  enqueue : TicketGate w.queue.enqueueCount w.queue.enqueueRevoke w.queue.tailFast w.queue.tail
    (w.queue.head + n) (Phase.pushStage ∘ w.phase)
  dequeue : TicketGate w.queue.dequeueCount w.queue.dequeueRevoke w.queue.headFast w.queue.head
    w.queue.tail (Phase.popStage ∘ w.phase)

lemma gated_init [Inhabited α] : (init : LocalWorld α).Gated n :=
  ⟨ticketGate_init, ticketGate_init⟩

lemma admitted_of_room {enq enqRevoke head : Nat}
    (hhazard : enq < enqRevoke + head + 4294967296)
    (hroom : ¬FastLocalQueue.noRoom n enq enqRevoke head) : enq ≤ enqRevoke + (head + n) := by
  unfold FastLocalQueue.noRoom FastLocalQueue.sub FastLocalQueue.load at hroom
  omega

lemma admitted_of_item {deq deqRevoke tail : Nat}
    (hhazard : deq ≤ deqRevoke + tail + 2147483648)
    (hitem : ¬FastLocalQueue.noItem deq deqRevoke tail) : deq ≤ deqRevoke + tail := by
  unfold FastLocalQueue.noItem FastLocalQueue.sub FastLocalQueue.load at hitem
  omega

lemma stage_same (f : Phase α → Stage) {phase : Nat → Phase α} {x : Phase α}
    (hx : f x = f (phase t)) : f ∘ Function.update phase t x = f ∘ phase := by
  rw [Function.comp_update, hx]
  exact Function.update_eq_self t (f ∘ phase)

/-- A step of `push` is a step of its own gate and may raise the limit of the other. -/
lemma Gated.of_push (hw : w.Gated n) {x : Phase α} {q : FastLocalQueue α}
    {pushed popped : List (Nat × α)}
    (hold : (w.phase t).popStage = .out) (hnew : x.popStage = .out)
    (hdeq : q.dequeueCount = w.queue.dequeueCount) (hrev : q.dequeueRevoke = w.queue.dequeueRevoke)
    (hfast : q.headFast = w.queue.headFast) (hhead : q.head = w.queue.head)
    (htail : w.queue.tail ≤ q.tail)
    (hgate : TicketGate q.enqueueCount q.enqueueRevoke q.tailFast q.tail (w.queue.head + n)
      (Function.update (Phase.pushStage ∘ w.phase) t x.pushStage)) :
    Gated n ⟨q, Function.update w.phase t x, pushed, popped⟩ := by
  constructor
  · rw [Function.comp_update]
    simpa only [hhead] using hgate
  · rw [stage_same _ (hnew.trans hold.symm)]
    simpa only [hdeq, hrev, hfast, hhead] using hw.dequeue.raise htail

lemma Gated.of_pop (hw : w.Gated n) {x : Phase α} {q : FastLocalQueue α}
    {pushed popped : List (Nat × α)}
    (hold : (w.phase t).pushStage = .out) (hnew : x.pushStage = .out)
    (henq : q.enqueueCount = w.queue.enqueueCount) (hrev : q.enqueueRevoke = w.queue.enqueueRevoke)
    (hfast : q.tailFast = w.queue.tailFast) (htail : q.tail = w.queue.tail)
    (hhead : w.queue.head ≤ q.head)
    (hgate : TicketGate q.dequeueCount q.dequeueRevoke q.headFast q.head w.queue.tail
      (Function.update (Phase.popStage ∘ w.phase) t x.popStage)) :
    Gated n ⟨q, Function.update w.phase t x, pushed, popped⟩ := by
  constructor
  · rw [stage_same _ (hnew.trans hold.symm)]
    simpa only [henq, hrev, hfast, htail] using
      hw.enqueue.raise (Nat.add_le_add_right hhead n)
  · rw [Function.comp_update]
    simpa only [htail] using hgate

lemma Gated.advance (hw : w.Gated n) (hok : w.Hazardless (.advance t))
    (hstep : w.advance n t = some w') : w'.Gated n := by
  have hpush : (Phase.pushStage ∘ w.phase) t = (w.phase t).pushStage := rfl
  have hpop : (Phase.popStage ∘ w.phase) t = (w.phase t).popStage := rfl
  cases hphase : w.phase t <;> rw [hphase] at hpush hpop <;>
    simp only [LocalWorld.advance, hphase, move, reduceCtorEq, Option.some.injEq] at hstep
  case pushLoaded item r =>
    subst hstep
    exact hw.of_push hpop rfl rfl rfl rfl rfl le_rfl (hw.enqueue.draw hpush)
  case pushDrawn item r e =>
    simp only [Hazardless, hphase, InRange] at hok
    split at hstep
    · cases hstep
      exact hw.of_push hpop rfl rfl rfl rfl rfl le_rfl (hw.enqueue.refuse hpush)
    case isFalse hroom =>
      cases hstep
      have hgate := hw.enqueue.admit hpush (admitted_of_room hok hroom)
      exact hw.of_push hpop rfl rfl rfl rfl rfl le_rfl hgate
  case pushRefused e =>
    subst hstep
    exact hw.of_push hpop rfl rfl rfl rfl rfl le_rfl (hw.enqueue.giveUp hpush)
  case pushAdmitted item e =>
    subst hstep
    exact hw.of_push hpop rfl rfl rfl rfl rfl le_rfl (hw.enqueue.take hpush)
  case pushTicket item k =>
    subst hstep
    exact hw.of_push hpop rfl rfl rfl rfl rfl le_rfl (hw.enqueue.stay hpush)
  case pushWritten item k =>
    subst hstep
    exact hw.of_push hpop rfl rfl rfl rfl rfl (Nat.le_succ _) (hw.enqueue.finish hpush)
  case popLoaded r =>
    subst hstep
    exact hw.of_pop hpush rfl rfl rfl rfl rfl le_rfl (hw.dequeue.draw hpop)
  case popDrawn r d =>
    simp only [Hazardless, hphase, InRange] at hok
    split at hstep
    · cases hstep
      exact hw.of_pop hpush rfl rfl rfl rfl rfl le_rfl (hw.dequeue.refuse hpop)
    case isFalse hitem =>
      cases hstep
      have hgate := hw.dequeue.admit hpop (admitted_of_item hok hitem)
      exact hw.of_pop hpush rfl rfl rfl rfl rfl le_rfl hgate
  case popRefused d =>
    subst hstep
    exact hw.of_pop hpush rfl rfl rfl rfl rfl le_rfl (hw.dequeue.giveUp hpop)
  case popAdmitted d =>
    subst hstep
    exact hw.of_pop hpush rfl rfl rfl rfl rfl le_rfl (hw.dequeue.take hpop)
  case popTicket k =>
    subst hstep
    exact hw.of_pop hpush rfl rfl rfl rfl rfl le_rfl (hw.dequeue.stay hpop)
  case popRead k v =>
    subst hstep
    exact hw.of_pop hpush rfl rfl rfl rfl rfl (Nat.le_succ _) (hw.dequeue.finish hpop)

lemma idle_of_begin_push {item : α} (hstep : step n w (.push t item) = some w') :
    w.phase t = .idle ∧ w' = w.move t (.pushLoaded item w.queue.enqueueRevoke) w.queue := by
  cases hphase : w.phase t <;> simp only [step, hphase, reduceCtorEq, Option.some.injEq] at hstep
  exact ⟨rfl, hstep.symm⟩

lemma idle_of_begin_pop (hstep : step n w (.pop t) = some w') :
    w.phase t = .idle ∧ w' = w.move t (.popLoaded w.queue.dequeueRevoke) w.queue := by
  cases hphase : w.phase t <;> simp only [step, hphase, reduceCtorEq, Option.some.injEq] at hstep
  exact ⟨rfl, hstep.symm⟩

lemma Gated.step {a : ThreadStep α} (hw : w.Gated n) (hok : w.Hazardless a)
    (hstep : w.step n a = some w') : w'.Gated n := by
  cases a with
  | push t item =>
    obtain ⟨hidle, rfl⟩ := idle_of_begin_push hstep
    have hpush : (Phase.pushStage ∘ w.phase) t = .out := by simp [hidle, Phase.pushStage]
    have hpop : (w.phase t).popStage = .out := by simp [hidle, Phase.popStage]
    exact hw.of_push hpop rfl rfl rfl rfl rfl le_rfl (hw.enqueue.load hpush)
  | pop t =>
    obtain ⟨hidle, rfl⟩ := idle_of_begin_pop hstep
    have hpush : (w.phase t).pushStage = .out := by simp [hidle, Phase.pushStage]
    have hpop : (Phase.popStage ∘ w.phase) t = .out := by simp [hidle, Phase.popStage]
    exact hw.of_pop hpush rfl rfl rfl rfl rfl le_rfl (hw.dequeue.load hpop)
  | advance t => exact hw.advance hok hstep

/-- The order of the four inner counters. -/
theorem Gated.counters_ordered (hw : w.Gated n) :
    w.queue.head ≤ w.queue.headFast ∧ w.queue.headFast ≤ w.queue.tail ∧
      w.queue.tail ≤ w.queue.tailFast ∧ w.queue.tailFast ≤ w.queue.head + n :=
  ⟨hw.dequeue.slow_le, hw.dequeue.fast_le, hw.enqueue.slow_le, hw.enqueue.fast_le⟩

end LocalWorld

end CoplusLean
