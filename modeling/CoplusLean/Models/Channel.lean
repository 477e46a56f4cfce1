import Mathlib.Logic.Function.Basic
import Mathlib.Data.List.Basic

/-!
# `Channel` with a buffer

The class template for `BufferCapacity >= 1`, while the channel is not closed. Each critical
section and each wait or notify is one step. Every thread has one alert for `operator>>` and
one for `operator<<`, so the queues of alerts list the threads that own them. A thread that
is notified stays out of `buffer_lock` until it takes the lock again and evaluates its
predicate; a notification that finds its owner not waiting is lost.
-/

namespace CoplusLean

/-- Where a thread stands in `operator>>` or `operator<<`: its alert is queued and the lock
not taken yet, it is blocked in the wait, or it has been woken from it. -/
inductive ChannelPhase (α : Type*) where
  | idle
  | recvQueued
  | recvBlocked
  | recvWoken
  | sendQueued (item : α)
  | sendBlocked (item : α)
  | sendWoken (item : α)
deriving DecidableEq, Repr

/-- The scheduler thread holds `buffer_lock` except in `unlocked`. -/
inductive SchedulerPhase where
  | unlocked
  | sendPart
  | recvPart
deriving DecidableEq, Repr

inductive ChannelStep (α : Type*) where
  | recv (thread : Nat)
  | send (thread : Nat) (item : α)
  | check (thread : Nat)
  | wakeUp (thread : Nat)
  | spurious (thread : Nat)
  | scheduler
deriving DecidableEq, Repr

/-- `sent` and `received` list the values appended to and removed from the buffer. -/
structure ChannelWorld (α : Type*) where
  recvq : List Nat
  sendq : List Nat
  buffer : List α
  phase : Nat → ChannelPhase α
  scheduler : SchedulerPhase
  sent : List α
  received : List α

namespace ChannelWorld

variable {α : Type*}

def init : ChannelWorld α := ⟨[], [], [], fun _ => .idle, .unlocked, [], []⟩

def setPhase (w : ChannelWorld α) (thread : Nat) (phase : ChannelPhase α) : ChannelWorld α :=
  { w with phase := Function.update w.phase thread phase }

/-- `operator>>` under `buffer_lock`: the predicate, then the end of the call or the wait. -/
def tryRecv (w : ChannelWorld α) (thread : Nat) : ChannelWorld α :=
  match w.buffer with
  | [] => w.setPhase thread .recvBlocked
  | item :: rest =>
    { w.setPhase thread .idle with buffer := rest, received := w.received ++ [item] }

/-- `operator<<` under `buffer_lock`. -/
def trySend (capacity : Nat) (w : ChannelWorld α) (thread : Nat) (item : α) : ChannelWorld α :=
  if w.buffer.length < capacity then
    { w.setPhase thread .idle with buffer := w.buffer ++ [item], sent := w.sent ++ [item] }
  else w.setPhase thread (.sendBlocked item)

/-- `notify_one` on the receiving alert of a thread. -/
def notifyRecv (w : ChannelWorld α) (thread : Nat) : ChannelWorld α :=
  match w.phase thread with
  | .recvBlocked => w.setPhase thread .recvWoken
  | _ => w

/-- `notify_one` on the sending alert of a thread. -/
def notifySend (w : ChannelWorld α) (thread : Nat) : ChannelWorld α :=
  match w.phase thread with
  | .sendBlocked item => w.setPhase thread (.sendWoken item)
  | _ => w

/-- The part of the scheduler's loop that serves `sendq`. -/
def serveSend (capacity : Nat) (w : ChannelWorld α) : ChannelWorld α :=
  if w.buffer.length < capacity then
    match w.sendq with
    | [] => w
    | thread :: rest => { w.notifySend thread with sendq := rest }
  else w

/-- The part of the scheduler's loop that serves `recvq`. -/
def serveRecv (w : ChannelWorld α) : ChannelWorld α :=
  if w.buffer.length > 0 then
    match w.recvq with
    | [] => w
    | thread :: rest => { w.notifyRecv thread with recvq := rest }
  else w

def schedule (capacity : Nat) (w : ChannelWorld α) : ChannelWorld α :=
  match w.scheduler with
  | .unlocked => { w with scheduler := .sendPart }
  | .sendPart => { w.serveSend capacity with scheduler := .recvPart }
  | .recvPart => { w.serveRecv with scheduler := .unlocked }

def step (capacity : Nat) (w : ChannelWorld α) : ChannelStep α → Option (ChannelWorld α)
  | .recv thread =>
    match w.phase thread with
    | .idle => some { w.setPhase thread .recvQueued with recvq := w.recvq ++ [thread] }
    | _ => none
  | .send thread item =>
    match w.phase thread with
    | .idle => some { w.setPhase thread (.sendQueued item) with sendq := w.sendq ++ [thread] }
    | _ => none
  | .check thread =>
    match w.scheduler, w.phase thread with
    | .unlocked, .recvQueued => some (w.tryRecv thread)
    | .unlocked, .sendQueued item => some (w.trySend capacity thread item)
    | _, _ => none
  | .wakeUp thread =>
    match w.scheduler, w.phase thread with
    | .unlocked, .recvWoken => some (w.tryRecv thread)
    | .unlocked, .sendWoken item => some (w.trySend capacity thread item)
    | _, _ => none
  | .spurious thread =>
    match w.phase thread with
    | .recvBlocked => some (w.setPhase thread .recvWoken)
    | .sendBlocked item => some (w.setPhase thread (.sendWoken item))
    | _ => none
  | .scheduler => some (w.schedule capacity)

end ChannelWorld

end CoplusLean
