import CoplusLean.Lib.Run
import CoplusLean.Models.Channel

/-!
# What goes through a `Channel`

The values appended by `operator<<` come out of `operator>>` in the same order, and the
buffer never holds more than its capacity. Neither depends on who is woken when: a thread
evaluates its predicate under `buffer_lock` right before it touches the buffer.
-/

namespace CoplusLean.ChannelWorld

open Lib

variable {α : Type*} {capacity t : Nat} {w w' : ChannelWorld α}

/-- The buffer holds what was sent and not yet received, in order and within the capacity. -/
structure Fifo (capacity : Nat) (w : ChannelWorld α) : Prop where
  bounded : w.buffer.length ≤ capacity
  ordered : w.sent = w.received ++ w.buffer

lemma fifo_init : (init : ChannelWorld α).Fifo capacity := ⟨Nat.zero_le _, rfl⟩

/-- Only the buffer and the two histories matter. -/
lemma Fifo.congr (hw : w.Fifo capacity) (hbuffer : w'.buffer = w.buffer)
    (hsent : w'.sent = w.sent) (hreceived : w'.received = w.received) : w'.Fifo capacity := by
  constructor
  · rw [hbuffer]
    exact hw.bounded
  · rw [hsent, hreceived, hbuffer]
    exact hw.ordered

lemma Fifo.tryRecv (hw : w.Fifo capacity) (t : Nat) : (w.tryRecv t).Fifo capacity := by
  unfold ChannelWorld.tryRecv
  split
  case h_1 => exact hw.congr rfl rfl rfl
  case h_2 item rest hbuffer =>
    have hbounded := hw.bounded
    have hordered := hw.ordered
    rw [hbuffer] at hbounded hordered
    constructor
    · simp only [List.length_cons] at hbounded
      exact Nat.le_of_succ_le hbounded
    · simp [hordered, setPhase]

lemma Fifo.trySend (hw : w.Fifo capacity) (t : Nat) (item : α) :
    (w.trySend capacity t item).Fifo capacity := by
  unfold ChannelWorld.trySend
  split
  case isTrue hroom =>
    constructor
    · rw [List.length_append]
      exact hroom
    · simp [hw.ordered, setPhase]
  case isFalse => exact hw.congr rfl rfl rfl

lemma notifyRecv_contents (w : ChannelWorld α) (t : Nat) : (w.notifyRecv t).buffer = w.buffer ∧
    (w.notifyRecv t).sent = w.sent ∧ (w.notifyRecv t).received = w.received := by
  unfold notifyRecv
  split <;> exact ⟨rfl, rfl, rfl⟩

lemma notifySend_contents (w : ChannelWorld α) (t : Nat) : (w.notifySend t).buffer = w.buffer ∧
    (w.notifySend t).sent = w.sent ∧ (w.notifySend t).received = w.received := by
  unfold notifySend
  split <;> exact ⟨rfl, rfl, rfl⟩

/-- The scheduler thread only looks at the buffer. -/
lemma Fifo.schedule (hw : w.Fifo capacity) : (w.schedule capacity).Fifo capacity := by
  unfold ChannelWorld.schedule serveSend serveRecv
  split
  · exact hw.congr rfl rfl rfl
  · split
    · split
      · exact hw.congr rfl rfl rfl
      · rename_i t rest _
        obtain ⟨hb, hs, hr⟩ := notifySend_contents w t
        exact hw.congr hb hs hr
    · exact hw.congr rfl rfl rfl
  · split
    · split
      · exact hw.congr rfl rfl rfl
      · rename_i t rest _
        obtain ⟨hb, hs, hr⟩ := notifyRecv_contents w t
        exact hw.congr hb hs hr
    · exact hw.congr rfl rfl rfl

lemma Fifo.step {a : ChannelStep α} (hw : w.Fifo capacity)
    (hstep : w.step capacity a = some w') : w'.Fifo capacity := by
  cases a with
  | recv t =>
    simp only [ChannelWorld.step] at hstep
    split at hstep <;> cases hstep
    exact hw.congr rfl rfl rfl
  | send t item =>
    simp only [ChannelWorld.step] at hstep
    split at hstep <;> cases hstep
    exact hw.congr rfl rfl rfl
  | check t =>
    simp only [ChannelWorld.step] at hstep
    split at hstep <;> cases hstep
    · exact hw.tryRecv t
    · exact hw.trySend t _
  | wakeUp t =>
    simp only [ChannelWorld.step] at hstep
    split at hstep <;> cases hstep
    · exact hw.tryRecv t
    · exact hw.trySend t _
  | spurious t =>
    simp only [ChannelWorld.step] at hstep
    split at hstep <;> cases hstep
    · exact hw.congr rfl rfl rfl
    · exact hw.congr rfl rfl rfl
  | scheduler =>
    cases hstep
    exact hw.schedule

/-- In every reachable state the buffer is within its capacity, and what was appended is
what was removed followed by the buffer. -/
theorem channel_fifo {as : List (ChannelStep α)}
    (hrun : exec (step capacity) init as = some w) :
    w.buffer.length ≤ capacity ∧ w.sent = w.received ++ w.buffer := by
  have hfifo : w.Fifo capacity :=
    exec_invariant_always (fun _ _ _ hw hstep => hw.step hstep) fifo_init hrun
  exact ⟨hfifo.bounded, hfifo.ordered⟩

/-- Two sends into a buffer of capacity two, and a receiver that waits for the first. -/
def twoThrough : List (ChannelStep Nat) :=
  [.recv 1, .check 1, .send 0 7, .check 0, .send 0 8, .check 0, .scheduler, .scheduler, .scheduler,
    .wakeUp 1]

theorem channel_fifo_two : ∃ w : ChannelWorld Nat, exec (step 2) init twoThrough = some w ∧
    w.received = [7] ∧ w.buffer = [8] ∧ w.buffer.length ≤ 2 ∧ w.sent = w.received ++ w.buffer :=
  ⟨_, rfl, rfl, rfl, @channel_fifo Nat 2 _ twoThrough rfl⟩

end CoplusLean.ChannelWorld
