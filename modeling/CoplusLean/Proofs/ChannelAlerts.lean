import CoplusLean.Lib.Run
import CoplusLean.Models.Channel

/-!
# The alerts of `Channel`

A thread queues its alert before it takes `buffer_lock`, and the scheduler removes an alert
when it notifies it. The alert is not queued again when the notification comes before the
wait, or when the woken thread finds its predicate false. In runs in which no thread starts to
wait after that, a blocked thread keeps its alert queued until it is woken, and the scheduler
wakes it.
-/

namespace CoplusLean.ChannelWorld

open Lib

variable {α : Type*} {capacity t : Nat} {w w' : ChannelWorld α}

/-- A blocked thread that has not been woken still has its alert queued. -/
structure Alerted (w : ChannelWorld α) : Prop where
  recv : ∀ t, w.phase t = .recvBlocked → t ∈ w.recvq
  send : ∀ t item, w.phase t = .sendBlocked item → t ∈ w.sendq

/-- A blocked thread whose predicate holds is woken by the scheduler alone. -/
structure Wakeable (capacity : Nat) (w : ChannelWorld α) : Prop where
  recv : ∀ t, w.phase t = .recvBlocked → 0 < w.buffer.length →
    ∃ n w', exec (step capacity) w (List.replicate n .scheduler) = some w' ∧
      w'.phase t = .recvWoken
  send : ∀ t item, w.phase t = .sendBlocked item → w.buffer.length < capacity →
    ∃ n w', exec (step capacity) w (List.replicate n .scheduler) = some w' ∧
      w'.phase t = .sendWoken item

/-- A thread that looks at its predicate finds it true, or its alert was not served since the thread
queued it. -/
def LooksInTime (capacity : Nat) (w : ChannelWorld α) (t : Nat) : ChannelPhase α → Prop
  | .recvQueued | .recvWoken => 0 < w.buffer.length ∨ t ∈ w.recvq
  | .sendQueued _ | .sendWoken _ => w.buffer.length < capacity ∨ t ∈ w.sendq
  | _ => True

/-- The condition on a step. -/
def NoLostAlert (capacity : Nat) (w : ChannelWorld α) : ChannelStep α → Prop
  | .check t | .wakeUp t => w.LooksInTime capacity t (w.phase t)
  | _ => True

instance (w : ChannelWorld α) (t : Nat) : DecidablePred (w.LooksInTime capacity t)
  | .recvQueued | .recvWoken | .sendQueued _ | .sendWoken _ => inferInstanceAs (Decidable (_ ∨ _))
  | .idle | .recvBlocked | .sendBlocked _ => isTrue trivial

instance (w : ChannelWorld α) : DecidablePred (w.NoLostAlert capacity)
  | .check _ | .wakeUp _ => inferInstanceAs (Decidable (LooksInTime ..))
  | .recv _ | .send _ _ | .spurious _ | .scheduler => isTrue trivial

lemma alerted_init : (init : ChannelWorld α).Alerted := by
  constructor <;> simp [init]

/-- A thread changes its phase while the queues grow: it needs an alert only for the new
phase. -/
lemma Alerted.of_update (hw : w.Alerted) {x : ChannelPhase α}
    (hphase : w'.phase = Function.update w.phase t x)
    (hrecvq : ∀ s ∈ w.recvq, s ∈ w'.recvq) (hsendq : ∀ s ∈ w.sendq, s ∈ w'.sendq)
    (hrecv : x = .recvBlocked → t ∈ w'.recvq)
    (hsend : ∀ item, x = .sendBlocked item → t ∈ w'.sendq) : w'.Alerted := by
  constructor
  · intro s hs
    rw [hphase] at hs
    by_cases hst : s = t
    · subst hst
      exact hrecv (by simpa using hs)
    · exact hrecvq s (hw.recv s (by simpa [hst] using hs))
  · intro s item hs
    rw [hphase] at hs
    by_cases hst : s = t
    · subst hst
      exact hsend item (by simpa using hs)
    · exact hsendq s (hw.send s item (by simpa [hst] using hs))

lemma Alerted.tryRecv (hw : w.Alerted) (h : 0 < w.buffer.length ∨ t ∈ w.recvq) :
    (w.tryRecv t).Alerted := by
  unfold ChannelWorld.tryRecv
  split
  case h_1 hempty =>
    rw [hempty] at h
    exact hw.of_update rfl (fun _ h => h) (fun _ h => h)
      (fun _ => h.resolve_left (by simp)) (by simp)
  case h_2 =>
    exact hw.of_update rfl (fun _ h => h) (fun _ h => h) (by simp) (by simp)

lemma Alerted.trySend (hw : w.Alerted) (item : α)
    (h : w.buffer.length < capacity ∨ t ∈ w.sendq) : (w.trySend capacity t item).Alerted := by
  unfold ChannelWorld.trySend
  split
  case isTrue =>
    exact hw.of_update rfl (fun _ h => h) (fun _ h => h) (by simp) (by simp)
  case isFalse hfull =>
    exact hw.of_update rfl (fun _ h => h) (fun _ h => h) (by simp)
      (fun _ _ => h.resolve_left hfull)

lemma notifyRecv_of_blocked (h : w.phase t = .recvBlocked) :
    w.notifyRecv t = w.setPhase t .recvWoken := by
  simp only [notifyRecv, h]

lemma notifyRecv_of_ne (h : w.phase t ≠ .recvBlocked) : w.notifyRecv t = w := by
  unfold notifyRecv
  split
  · contradiction
  · rfl

lemma notifySend_of_blocked {item : α} (h : w.phase t = .sendBlocked item) :
    w.notifySend t = w.setPhase t (.sendWoken item) := by
  simp only [notifySend, h]

lemma notifySend_of_ne (h : ∀ item, w.phase t ≠ .sendBlocked item) : w.notifySend t = w := by
  unfold notifySend
  split
  case h_1 item hitem => exact absurd hitem (h item)
  · rfl

/-- Every part of the scheduler is one of these: nothing, or the removal of the first alert
of a queue with its notification. -/
lemma serveRecv_cases (w : ChannelWorld α) :
    (w.serveRecv = w ∧ (w.buffer.length = 0 ∨ w.recvq = [])) ∨
      ∃ t rest, 0 < w.buffer.length ∧ w.recvq = t :: rest ∧
        w.serveRecv = { w.notifyRecv t with recvq := rest } := by
  unfold serveRecv
  by_cases hbuffer : w.buffer.length > 0
  · rw [if_pos hbuffer]
    cases hq : w.recvq with
    | nil => exact Or.inl ⟨rfl, Or.inr rfl⟩
    | cons t rest => exact Or.inr ⟨t, rest, hbuffer, rfl, rfl⟩
  · rw [if_neg hbuffer]
    exact Or.inl ⟨rfl, Or.inl (by omega)⟩

lemma serveSend_cases (capacity : Nat) (w : ChannelWorld α) :
    (w.serveSend capacity = w ∧ (capacity ≤ w.buffer.length ∨ w.sendq = [])) ∨
      ∃ t rest, w.buffer.length < capacity ∧ w.sendq = t :: rest ∧
        w.serveSend capacity = { w.notifySend t with sendq := rest } := by
  unfold serveSend
  by_cases hbuffer : w.buffer.length < capacity
  · rw [if_pos hbuffer]
    cases hq : w.sendq with
    | nil => exact Or.inl ⟨rfl, Or.inr rfl⟩
    | cons t rest => exact Or.inr ⟨t, rest, hbuffer, rfl, rfl⟩
  · rw [if_neg hbuffer]
    exact Or.inl ⟨rfl, Or.inl (by omega)⟩

lemma Alerted.of_phase_scheduler (hw : w.Alerted) (x : SchedulerPhase) :
    Alerted { w with scheduler := x } :=
  ⟨hw.recv, hw.send⟩

/-- The thread whose alert is served is woken when it waits; the other alerts stay queued. -/
lemma Alerted.serveRecv (hw : w.Alerted) : w.serveRecv.Alerted := by
  rcases serveRecv_cases w with ⟨hsame, -⟩ | ⟨t, rest, hbuffer, hq, hserve⟩
  · rwa [hsame]
  · have hrest : ∀ s, s ≠ t → s ∈ w.recvq → s ∈ rest := by
      intro s hs hmem
      rw [hq] at hmem
      exact (List.mem_cons.mp hmem).resolve_left hs
    rw [hserve]
    by_cases hblocked : w.phase t = .recvBlocked
    · rw [notifyRecv_of_blocked hblocked]
      constructor
      · intro s hs
        by_cases hst : s = t
        · subst hst
          simp [setPhase] at hs
        · exact hrest s hst (hw.recv s (by simpa [setPhase, hst] using hs))
      · intro s item hs
        by_cases hst : s = t
        · subst hst
          simp [setPhase] at hs
        · exact hw.send s item (by simpa [setPhase, hst] using hs)
    · rw [notifyRecv_of_ne hblocked]
      refine ⟨fun s hs => hrest s ?_ (hw.recv s hs), hw.send⟩
      rintro rfl
      exact hblocked hs

lemma Alerted.serveSend (hw : w.Alerted) (capacity : Nat) : (w.serveSend capacity).Alerted := by
  rcases serveSend_cases capacity w with ⟨hsame, -⟩ | ⟨t, rest, hbuffer, hq, hserve⟩
  · rwa [hsame]
  · have hrest : ∀ s, s ≠ t → s ∈ w.sendq → s ∈ rest := by
      intro s hs hmem
      rw [hq] at hmem
      exact (List.mem_cons.mp hmem).resolve_left hs
    rw [hserve]
    by_cases hblocked : ∃ item, w.phase t = .sendBlocked item
    · obtain ⟨x, hblocked⟩ := hblocked
      rw [notifySend_of_blocked hblocked]
      constructor
      · intro s hs
        by_cases hst : s = t
        · subst hst
          simp [setPhase] at hs
        · exact hw.recv s (by simpa [setPhase, hst] using hs)
      · intro s item hs
        by_cases hst : s = t
        · subst hst
          simp [setPhase] at hs
        · exact hrest s hst (hw.send s item (by simpa [setPhase, hst] using hs))
    · rw [notifySend_of_ne fun item h => hblocked ⟨item, h⟩]
      refine ⟨hw.recv, fun s item hs => hrest s ?_ (hw.send s item hs)⟩
      rintro rfl
      exact hblocked ⟨item, hs⟩

lemma Alerted.step {a : ChannelStep α} (hw : w.Alerted) (hok : w.NoLostAlert capacity a)
    (hstep : w.step capacity a = some w') : w'.Alerted := by
  cases a with
  | recv t =>
    simp only [ChannelWorld.step] at hstep
    split at hstep
    · cases hstep
      exact hw.of_update rfl (fun _ h => List.mem_append_left _ h) (fun _ h => h) (by simp)
        (by simp)
    · cases hstep
  | send t item =>
    simp only [ChannelWorld.step] at hstep
    split at hstep
    · cases hstep
      exact hw.of_update rfl (fun _ h => h) (fun _ h => List.mem_append_left _ h) (by simp)
        (by simp)
    · cases hstep
  | check t | wakeUp t =>
    simp only [ChannelWorld.step] at hstep
    simp only [NoLostAlert, LooksInTime] at hok
    split at hstep
    case h_1 _ hphase =>
      cases hstep
      rw [hphase] at hok
      exact hw.tryRecv hok
    case h_2 item _ hphase =>
      cases hstep
      rw [hphase] at hok
      exact hw.trySend item hok
    · cases hstep
  | spurious t =>
    simp only [ChannelWorld.step] at hstep
    split at hstep
    · cases hstep
      exact hw.of_update rfl (fun _ h => h) (fun _ h => h) (by simp) (by simp)
    · cases hstep
      exact hw.of_update rfl (fun _ h => h) (fun _ h => h) (by simp) (by simp)
    · cases hstep
  | scheduler =>
    cases hstep
    unfold schedule
    split
    · exact hw.of_phase_scheduler _
    · exact (hw.serveSend capacity).of_phase_scheduler _
    · exact hw.serveRecv.of_phase_scheduler _

/-! ## Progress -/

/-- A thread blocked in `operator>>` that only waits for its turn. -/
structure RecvTurn (t : Nat) (w : ChannelWorld α) : Prop where
  blocked : w.phase t = .recvBlocked
  queued : t ∈ w.recvq
  ready : 0 < w.buffer.length

structure SendTurn (capacity t : Nat) (item : α) (w : ChannelWorld α) : Prop where
  blocked : w.phase t = .sendBlocked item
  queued : t ∈ w.sendq
  ready : w.buffer.length < capacity

/-- Scheduler steps until the next alert of `recvq` is served. -/
def recvRank (w : ChannelWorld α) : Nat :=
  3 * w.recvq.length +
    match w.scheduler with
    | .unlocked => 2
    | .sendPart => 1
    | .recvPart => 0

def sendRank (w : ChannelWorld α) : Nat :=
  3 * w.sendq.length +
    match w.scheduler with
    | .unlocked => 1
    | .sendPart => 0
    | .recvPart => 2

lemma RecvTurn.serveSend (hw : w.RecvTurn t) (capacity : Nat) :
    (w.serveSend capacity).RecvTurn t ∧ (w.serveSend capacity).recvq = w.recvq := by
  rcases serveSend_cases capacity w with ⟨hsame, -⟩ | ⟨s, rest, -, -, hserve⟩
  · rw [hsame]
    exact ⟨hw, rfl⟩
  · rw [hserve]
    by_cases hs : ∃ item, w.phase s = .sendBlocked item
    · obtain ⟨item, hs⟩ := hs
      have hne : t ≠ s := by
        rintro rfl
        simp [hw.blocked] at hs
      rw [notifySend_of_blocked hs]
      exact ⟨⟨by simp [setPhase, hne, hw.blocked], hw.queued, hw.ready⟩, rfl⟩
    · rw [notifySend_of_ne fun item h => hs ⟨item, h⟩]
      exact ⟨⟨hw.blocked, hw.queued, hw.ready⟩, rfl⟩

lemma SendTurn.serveRecv {item : α} (hw : w.SendTurn capacity t item) :
    w.serveRecv.SendTurn capacity t item ∧ w.serveRecv.sendq = w.sendq := by
  rcases serveRecv_cases w with ⟨hsame, -⟩ | ⟨s, rest, -, -, hserve⟩
  · rw [hsame]
    exact ⟨hw, rfl⟩
  · rw [hserve]
    by_cases hs : w.phase s = .recvBlocked
    · have hne : t ≠ s := by
        rintro rfl
        simp [hw.blocked] at hs
      rw [notifyRecv_of_blocked hs]
      exact ⟨⟨by simp [setPhase, hne, hw.blocked], hw.queued, hw.ready⟩, rfl⟩
    · rw [notifyRecv_of_ne hs]
      exact ⟨⟨hw.blocked, hw.queued, hw.ready⟩, rfl⟩

/-- Serving `recvq` wakes the thread or brings its alert one place forward. -/
lemma RecvTurn.serveRecv (hw : w.RecvTurn t) : w.serveRecv.phase t = .recvWoken ∨
    (w.serveRecv.RecvTurn t ∧ w.serveRecv.recvq.length < w.recvq.length) := by
  have hqueued := hw.queued
  rcases serveRecv_cases w with ⟨-, hnone⟩ | ⟨s, rest, -, hq, hserve⟩
  · rcases hnone with hempty | hnil
    · exact absurd hw.ready (by omega)
    · simp [hnil] at hqueued
  · rw [hserve, hq]
    by_cases hs : s = t
    · subst hs
      rw [notifyRecv_of_blocked hw.blocked]
      exact Or.inl (by simp [setPhase])
    · have hrest : t ∈ rest := by
        rw [hq] at hqueued
        exact (List.mem_cons.mp hqueued).resolve_left (Ne.symm hs)
      right
      by_cases hblocked : w.phase s = .recvBlocked
      · rw [notifyRecv_of_blocked hblocked]
        exact ⟨⟨by simp [setPhase, Ne.symm hs, hw.blocked], hrest, hw.ready⟩, by simp⟩
      · rw [notifyRecv_of_ne hblocked]
        exact ⟨⟨hw.blocked, hrest, hw.ready⟩, by simp⟩

lemma SendTurn.serveSend {item : α} (hw : w.SendTurn capacity t item) :
    (w.serveSend capacity).phase t = .sendWoken item ∨
      ((w.serveSend capacity).SendTurn capacity t item ∧
        (w.serveSend capacity).sendq.length < w.sendq.length) := by
  have hqueued := hw.queued
  rcases serveSend_cases capacity w with ⟨-, hnone⟩ | ⟨s, rest, -, hq, hserve⟩
  · rcases hnone with hfull | hnil
    · exact absurd hw.ready (by omega)
    · simp [hnil] at hqueued
  · rw [hserve, hq]
    by_cases hs : s = t
    · subst hs
      rw [notifySend_of_blocked hw.blocked]
      exact Or.inl (by simp [setPhase])
    · have hrest : t ∈ rest := by
        rw [hq] at hqueued
        exact (List.mem_cons.mp hqueued).resolve_left (Ne.symm hs)
      right
      by_cases hblocked : ∃ x, w.phase s = .sendBlocked x
      · obtain ⟨x, hblocked⟩ := hblocked
        rw [notifySend_of_blocked hblocked]
        exact ⟨⟨by simp [setPhase, Ne.symm hs, hw.blocked], hrest, hw.ready⟩, by simp⟩
      · rw [notifySend_of_ne fun x h => hblocked ⟨x, h⟩]
        exact ⟨⟨hw.blocked, hrest, hw.ready⟩, by simp⟩

lemma RecvTurn.schedule (hw : w.RecvTurn t) : (w.schedule capacity).phase t = .recvWoken ∨
    ((w.schedule capacity).RecvTurn t ∧ (w.schedule capacity).recvRank < w.recvRank) := by
  cases hphase : w.scheduler <;> simp only [ChannelWorld.schedule, recvRank, hphase]
  case unlocked => exact Or.inr ⟨⟨hw.blocked, hw.queued, hw.ready⟩, by omega⟩
  case sendPart =>
    obtain ⟨hturn, hq⟩ := hw.serveSend capacity
    exact Or.inr ⟨⟨hturn.blocked, hturn.queued, hturn.ready⟩, by rw [hq]; omega⟩
  case recvPart =>
    rcases hw.serveRecv with hwoken | ⟨hturn, hlt⟩
    · exact Or.inl hwoken
    · exact Or.inr ⟨⟨hturn.blocked, hturn.queued, hturn.ready⟩, by omega⟩

lemma SendTurn.schedule {item : α} (hw : w.SendTurn capacity t item) :
    (w.schedule capacity).phase t = .sendWoken item ∨
      ((w.schedule capacity).SendTurn capacity t item ∧
        (w.schedule capacity).sendRank < w.sendRank) := by
  cases hphase : w.scheduler <;> simp only [ChannelWorld.schedule, sendRank, hphase]
  case unlocked => exact Or.inr ⟨⟨hw.blocked, hw.queued, hw.ready⟩, by omega⟩
  case sendPart =>
    rcases hw.serveSend with hwoken | ⟨hturn, hlt⟩
    · exact Or.inl hwoken
    · exact Or.inr ⟨⟨hturn.blocked, hturn.queued, hturn.ready⟩, by omega⟩
  case recvPart =>
    obtain ⟨hturn, hq⟩ := hw.serveRecv
    exact Or.inr ⟨⟨hturn.blocked, hturn.queued, hturn.ready⟩, by rw [hq]; omega⟩

lemma Alerted.wakeable (hw : w.Alerted) : w.Wakeable capacity where
  recv := by
    intro t hblocked hready
    apply exec_reaches (P := RecvTurn t) (m := recvRank)
    · intro s hs
      exact ⟨s.schedule capacity, rfl, hs.schedule⟩
    · exact ⟨hblocked, hw.recv t hblocked, hready⟩
  send := by
    intro t item hblocked hready
    apply exec_reaches (P := SendTurn capacity t item) (m := sendRank)
    · intro s hs
      exact ⟨s.schedule capacity, rfl, hs.schedule⟩
    · exact ⟨hblocked, hw.send t item hblocked, hready⟩

/-! ## Whole runs -/

/-- In every run in which no thread starts to wait after its alert was served, a blocked thread
has its alert queued or has been woken, and one whose predicate comes true is woken by the scheduler. -/
theorem blocked_threads_alerted (capacity : Nat) (steps : List (ChannelStep α))
    (w : ChannelWorld α) (hok : Along (step capacity) (NoLostAlert capacity) init steps)
    (hrun : exec (step capacity) init steps = some w) : w.Alerted ∧ w.Wakeable capacity := by
  have hw : w.Alerted :=
    exec_invariant (fun _ _ _ hw hc hs => hw.step hc hs) alerted_init hok hrun
  exact ⟨hw, hw.wakeable⟩

/-- The thread 1 blocks on the empty buffer, the thread 0 sends, the scheduler wakes the thread 1,
which takes the value and blocks in its next call. The alert of the thread 0 is served while
nobody is blocked on it. -/
def handover : List (ChannelStep Nat) :=
  [.recv 1, .check 1, .send 0 7, .check 0, .scheduler, .scheduler, .scheduler, .wakeUp 1, .scheduler,
    .scheduler, .scheduler, .recv 1, .check 1, .send 0 8]

theorem blocked_threads_alerted_handover :
    ∃ w : ChannelWorld Nat, exec (step 1) init handover = some w ∧ w.phase 1 = .recvBlocked ∧
      w.received = [7] ∧ w.recvq = [1] ∧ w.sendq = [0] ∧ w.Alerted ∧ w.Wakeable 1 :=
  ⟨_, rfl, rfl, rfl, rfl, rfl,
    blocked_threads_alerted 1 handover _ (by decide +kernel) rfl⟩

/-- The scheduler serves the alert of the thread 1 before the thread waits, the thread 2
takes the value, and the thread 1 blocks with no alert queued. -/
def overtakenReceiver : List (ChannelStep Nat) :=
  [.send 0 7, .check 0, .recv 1, .scheduler, .scheduler, .scheduler, .recv 2, .check 2, .check 1]

theorem blocked_threads_not_alerted_overtaken :
    ¬∀ (capacity : Nat) (steps : List (ChannelStep Nat)) (w : ChannelWorld Nat), 1 ≤ capacity →
      (∀ a ∈ steps, ∀ t, a ≠ .spurious t) → exec (step capacity) init steps = some w →
        w.Alerted := by
  intro h
  have hrun : ∃ w, exec (step 1) init overtakenReceiver = some w ∧ w.phase 1 = .recvBlocked ∧
      w.recvq = [2] := ⟨_, rfl, rfl, rfl⟩
  obtain ⟨w, hrun, hblocked, hq⟩ := hrun
  have hmem := (h 1 overtakenReceiver w (Nat.le_refl 1) (by simp [overtakenReceiver]) hrun).recv 1 hblocked
  simp [hq] at hmem

end CoplusLean.ChannelWorld
