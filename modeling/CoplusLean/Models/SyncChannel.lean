import Mathlib.Logic.Function.Basic
import Mathlib.Data.List.Basic

/-!
# `Channel` without a buffer

The specialisation of the class template for `BufferCapacity = 0`, `SyncChannel`. A thread has
one alert for `operator>>` and one for `operator<<` of the class, so all channels of a type
share them and the queues of alerts list the threads that own them. The scheduler thread of a
channel notifies while it holds `sendq_lock` and `recvq_lock` but not `buffer_lock`; each of
its two notifications is a step. There are no spurious wake-ups, and a scheduler that makes
no more steps is that of a closed channel.
-/

namespace CoplusLean

/-- Where a thread stands in `operator>>` or `operator<<` of a channel: its alert is queued and
it does not wait yet, it is blocked in the wait, or it has been woken from it. -/
inductive SyncPhase (α : Type*) where
  | idle
  | recvQueued (chan : Nat)
  | recvBlocked (chan : Nat)
  | recvWoken (chan : Nat)
  | sendQueued (chan : Nat) (item : α)
  | sendBlocked (chan : Nat) (item : α)
  | sendWoken (chan : Nat) (item : α)
deriving DecidableEq, Repr

inductive SyncStep (α : Type*) where
  | recv (thread chan : Nat)
  | send (thread chan : Nat) (item : α)
  | wait (thread : Nat)
  | wakeUp (thread : Nat)
  | matchSend (chan : Nat)
  | matchRecv (chan : Nat)
deriving DecidableEq, Repr

/-- `matching` tells that the scheduler has notified the first sender and still holds the
locks of the queues. The last four fields are history variables: the values of completed
sends and receives, the number of receives entered, and the number of pairs matched. -/
structure SyncChannel (α : Type*) where
  recvq : List Nat
  sendq : List Nat
  buffer : Option α
  matching : Bool
  sent : List α
  received : List α
  entered : Nat
  pairs : Nat
deriving DecidableEq, Repr

structure SyncWorld (α : Type*) where
  channel : Nat → SyncChannel α
  phase : Nat → SyncPhase α

namespace SyncWorld

variable {α : Type*}

def init : SyncWorld α := ⟨fun _ => ⟨[], [], none, false, [], [], 0, 0⟩, fun _ => .idle⟩

def setPhase (w : SyncWorld α) (thread : Nat) (phase : SyncPhase α) : SyncWorld α :=
  { w with phase := Function.update w.phase thread phase }

def setChannel (w : SyncWorld α) (chan : Nat) (channel : SyncChannel α) : SyncWorld α :=
  { w with channel := Function.update w.channel chan channel }

/-- `notify_one` on the receiving alert of a thread. -/
def notifyRecv (w : SyncWorld α) (thread : Nat) : SyncWorld α :=
  match w.phase thread with
  | .recvBlocked chan => w.setPhase thread (.recvWoken chan)
  | _ => w

/-- `notify_one` on the sending alert of a thread. -/
def notifySend (w : SyncWorld α) (thread : Nat) : SyncWorld α :=
  match w.phase thread with
  | .sendBlocked chan item => w.setPhase thread (.sendWoken chan item)
  | _ => w

/-- The first evaluation of the predicate is false since `wakeonly` is 0. -/
def wait (w : SyncWorld α) (thread : Nat) : Option (SyncWorld α) :=
  match w.phase thread with
  | .recvQueued chan => some (w.setPhase thread (.recvBlocked chan))
  | .sendQueued chan item => some (w.setPhase thread (.sendBlocked chan item))
  | _ => none

/-- A woken thread takes `buffer_lock` and evaluates its predicate again. -/
def wakeUp (w : SyncWorld α) (thread : Nat) : Option (SyncWorld α) :=
  match w.phase thread with
  | .recvWoken chan =>
    let ch := w.channel chan
    match ch.buffer with
    | none => some (w.setPhase thread (.recvBlocked chan))
    | some item =>
      some ((w.setChannel chan { ch with buffer := none, received := ch.received ++ [item] }).setPhase
        thread .idle)
  | .sendWoken chan item =>
    let ch := w.channel chan
    match ch.buffer with
    | some _ => some (w.setPhase thread (.sendBlocked chan item))
    | none =>
      some ((w.setChannel chan { ch with buffer := some item, sent := ch.sent ++ [item] }).setPhase
        thread .idle)
  | _ => none

/-- The scheduler finds both queues non-empty and notifies the first sender. -/
def matchSend (w : SyncWorld α) (chan : Nat) : Option (SyncWorld α) :=
  let ch := w.channel chan
  match ch.matching, ch.sendq, ch.recvq with
  | false, sender :: _, _ :: _ =>
    some ((w.setChannel chan { ch with matching := true, pairs := ch.pairs + 1 }).notifySend sender)
  | _, _, _ => none

/-- It notifies the first receiver and removes both. -/
def matchRecv (w : SyncWorld α) (chan : Nat) : Option (SyncWorld α) :=
  let ch := w.channel chan
  match ch.matching, ch.recvq with
  | true, receiver :: rest =>
    some ((w.setChannel chan { ch with
      recvq := rest
      sendq := ch.sendq.tail
      matching := false }).notifyRecv receiver)
  | _, _ => none

def step (w : SyncWorld α) : SyncStep α → Option (SyncWorld α)
  | .recv thread chan =>
    let ch := w.channel chan
    match w.phase thread, ch.matching with
    | .idle, false =>
      some ((w.setChannel chan { ch with
        recvq := ch.recvq ++ [thread]
        entered := ch.entered + 1 }).setPhase thread (.recvQueued chan))
    | _, _ => none
  | .send thread chan item =>
    let ch := w.channel chan
    match w.phase thread, ch.matching with
    | .idle, false =>
      some ((w.setChannel chan { ch with sendq := ch.sendq ++ [thread] }).setPhase thread
        (.sendQueued chan item))
    | _, _ => none
  | .wait thread => w.wait thread
  | .wakeUp thread => w.wakeUp thread
  | .matchSend chan => w.matchSend chan
  | .matchRecv chan => w.matchRecv chan

end SyncWorld

end CoplusLean
