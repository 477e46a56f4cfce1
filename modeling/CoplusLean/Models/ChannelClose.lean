import CoplusLean.Lib.FlagLoop
import CoplusLean.Models.Channel
import CoplusLean.Models.SyncChannel

/-!
# The scheduler thread of a `Channel` and `close`

The constructor starts the scheduler thread and detaches it. The thread stores false in `closed`,
which has no value before, and loads it before each run through the body of its loop; `close`
stores true. The body is cut into the steps of the two models without `close`. A channel without a
buffer shares its alerts with the other channels of its type, so all channels are in one state,
and `chan` is the one whose `close` is modelled: the schedulers of the others step or stop as
they like.
-/

namespace CoplusLean

open Lib

/-- A channel, its flag `closed` and its scheduler thread. -/
abbrev ClosableChannel (α : Type*) := FlagLoop (ChannelWorld α)

abbrev ClosableSync (α : Type*) := FlagLoop (SyncWorld α)

namespace ChannelWorld

variable {α : Type*}

/-- The body of the scheduler's loop: it ends when `buffer_lock` is free again. -/
def round (capacity : Nat) (w : ChannelWorld α) : ChannelWorld α × Bool :=
  let w' := w.schedule capacity
  (w', w'.scheduler = .unlocked)

/-- A step of a thread that is not the scheduler. -/
def threadStep (capacity : Nat) (w : ChannelWorld α) : ChannelStep α → Option (ChannelWorld α)
  | .scheduler => none
  | a => w.step capacity a

end ChannelWorld

namespace SyncWorld

variable {α : Type*}

/-- The body of the scheduler's loop of a channel: both queues are found non-empty and the first
sender is notified, or the first receiver is, or a queue is empty. -/
def round (chan : Nat) (w : SyncWorld α) : SyncWorld α × Bool :=
  match w.matchSend chan with
  | some w' => (w', false)
  | none =>
    match w.matchRecv chan with
    | some w' => (w', true)
    | none => (w, true)

/-- A step of a thread that is not the scheduler of the channel. -/
def threadStep (chan : Nat) (w : SyncWorld α) (a : SyncStep α) : Option (SyncWorld α) :=
  match a with
  | .matchSend c => if c = chan then none else w.matchSend c
  | .matchRecv c => if c = chan then none else w.matchRecv c
  | a => w.step a

end SyncWorld

namespace ClosableChannel

variable {α : Type*}

/-- `Channel()`, when the memory of `closed` holds `garbage`. -/
def init (garbage : Bool) : ClosableChannel α := ⟨.init, garbage, .starting⟩

/-- The step `raise` is a call of `close`. -/
def step (capacity : Nat) : ClosableChannel α → FlagLoopStep (ChannelStep α) →
    Option (ClosableChannel α) :=
  FlagLoop.step (ChannelWorld.threadStep capacity) (ChannelWorld.round capacity)

end ClosableChannel

namespace ClosableSync

variable {α : Type*}

def init (garbage : Bool) : ClosableSync α := ⟨.init, garbage, .starting⟩

def step (chan : Nat) : ClosableSync α → FlagLoopStep (SyncStep α) → Option (ClosableSync α) :=
  FlagLoop.step (SyncWorld.threadStep chan) (SyncWorld.round chan)

end ClosableSync

end CoplusLean
