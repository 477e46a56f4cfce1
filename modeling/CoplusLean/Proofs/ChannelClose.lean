import CoplusLean.Models.ChannelClose
import CoplusLean.Proofs.ChannelAlerts
import CoplusLean.Proofs.ChannelFifo

/-!
# `close` of a `Channel`

The scheduler thread leaves its loop at most one run through the body after `close`, if it had
stored its false in `closed` before. From then on nobody serves the queues of alerts: values
still go through the buffer, but a thread that is blocked stays so.
-/

namespace CoplusLean

open Lib

variable {α : Type*}

/-- The thread is blocked in the wait of `operator>>` or `operator<<`. -/
def ChannelPhase.Blocked (x : ChannelPhase α) : Prop :=
  x = .recvBlocked ∨ ∃ item, x = .sendBlocked item

/-- The receiving alerts that a step queues. -/
def ChannelStep.recvs : ChannelStep α → List Nat
  | .recv thread => [thread]
  | _ => []

/-- The sending alerts that a step queues. -/
def ChannelStep.sends : ChannelStep α → List Nat
  | .send thread _ => [thread]
  | _ => []

namespace ChannelWorld

variable {capacity t : Nat} {w w' : ChannelWorld α}

/-- What a step of a thread other than the scheduler does to the queues and to the others. -/
structure ThreadEffect (w : ChannelWorld α) (a : ChannelStep α) (w' : ChannelWorld α) : Prop where
  scheduler : w'.scheduler = w.scheduler
  recvq : w'.recvq = w.recvq ++ a.recvs
  sendq : w'.sendq = w.sendq ++ a.sends
  blocked : ∀ t, (w.phase t).Blocked → a ≠ .spurious t → w'.phase t = w.phase t

/-- A thread that is not blocked changes its phase. -/
lemma ThreadEffect.of_phase {a : ChannelStep α} {x : ChannelPhase α}
    (hphase : w'.phase = Function.update w.phase t x)
    (ht : (w.phase t).Blocked → a = .spurious t) (hscheduler : w'.scheduler = w.scheduler)
    (hrecvq : w'.recvq = w.recvq ++ a.recvs) (hsendq : w'.sendq = w.sendq ++ a.sends) :
    ThreadEffect w a w' where
  scheduler := hscheduler
  recvq := hrecvq
  sendq := hsendq
  blocked s hs hne := by
    have hst : s ≠ t := by
      rintro rfl
      exact hne (ht hs)
    rw [hphase, Function.update_of_ne hst]

lemma tryRecv_effect {a : ChannelStep α} (ht : ¬(w.phase t).Blocked) (hrecvs : a.recvs = [])
    (hsends : a.sends = []) : ThreadEffect w a (w.tryRecv t) := by
  unfold tryRecv
  split
  · exact .of_phase rfl (fun h => absurd h ht) rfl (by simp [hrecvs, setPhase])
      (by simp [hsends, setPhase])
  · exact .of_phase rfl (fun h => absurd h ht) rfl (by simp [hrecvs, setPhase])
      (by simp [hsends, setPhase])

lemma trySend_effect {a : ChannelStep α} (ht : ¬(w.phase t).Blocked) (item : α)
    (hrecvs : a.recvs = []) (hsends : a.sends = []) :
    ThreadEffect w a (w.trySend capacity t item) := by
  unfold trySend
  split
  · exact .of_phase rfl (fun h => absurd h ht) rfl (by simp [hrecvs, setPhase])
      (by simp [hsends, setPhase])
  · exact .of_phase rfl (fun h => absurd h ht) rfl (by simp [hrecvs, setPhase])
      (by simp [hsends, setPhase])

lemma threadStep_effect {a : ChannelStep α} (hstep : w.threadStep capacity a = some w') :
    ThreadEffect w a w' := by
  cases a with
  | scheduler => cases hstep
  | recv t =>
    simp only [threadStep, step] at hstep
    split at hstep
    case h_1 hidle =>
      obtain rfl := Option.some.inj hstep
      exact .of_phase rfl (by simp [hidle, ChannelPhase.Blocked]) rfl rfl
        (by simp [setPhase, ChannelStep.sends])
    case h_2 => cases hstep
  | send t item =>
    simp only [threadStep, step] at hstep
    split at hstep
    case h_1 hidle =>
      obtain rfl := Option.some.inj hstep
      exact .of_phase rfl (by simp [hidle, ChannelPhase.Blocked]) rfl
        (by simp [setPhase, ChannelStep.recvs]) rfl
    case h_2 => cases hstep
  | check t =>
    simp only [threadStep, step] at hstep
    split at hstep
    case h_1 _ hphase =>
      obtain rfl := Option.some.inj hstep
      exact tryRecv_effect (by simp [hphase, ChannelPhase.Blocked]) rfl rfl
    case h_2 item _ hphase =>
      obtain rfl := Option.some.inj hstep
      exact trySend_effect (by simp [hphase, ChannelPhase.Blocked]) item rfl rfl
    case h_3 => cases hstep
  | wakeUp t =>
    simp only [threadStep, step] at hstep
    split at hstep
    case h_1 _ hphase =>
      obtain rfl := Option.some.inj hstep
      exact tryRecv_effect (by simp [hphase, ChannelPhase.Blocked]) rfl rfl
    case h_2 item _ hphase =>
      obtain rfl := Option.some.inj hstep
      exact trySend_effect (by simp [hphase, ChannelPhase.Blocked]) item rfl rfl
    case h_3 => cases hstep
  | spurious t =>
    simp only [threadStep, step] at hstep
    split at hstep
    case h_1 =>
      obtain rfl := Option.some.inj hstep
      exact .of_phase rfl (fun _ => rfl) rfl (by simp [setPhase, ChannelStep.recvs])
        (by simp [setPhase, ChannelStep.sends])
    case h_2 =>
      obtain rfl := Option.some.inj hstep
      exact .of_phase rfl (fun _ => rfl) rfl (by simp [setPhase, ChannelStep.recvs])
        (by simp [setPhase, ChannelStep.sends])
    case h_3 => cases hstep

/-- A thread that is not blocked can step while the scheduler does not hold `buffer_lock`. -/
lemma exists_threadStep (capacity : Nat) (hfree : w.scheduler = .unlocked)
    (ht : ¬(w.phase t).Blocked) :
    ∃ a ∈ [ChannelStep.recv t, .check t, .wakeUp t], ∃ w', w.threadStep capacity a = some w' := by
  cases hphase : w.phase t with
  | idle => exact ⟨.recv t, by simp, by simp [threadStep, step, hphase]⟩
  | recvQueued | sendQueued => exact ⟨.check t, by simp, by simp [threadStep, step, hphase, hfree]⟩
  | recvWoken | sendWoken => exact ⟨.wakeUp t, by simp, by simp [threadStep, step, hphase, hfree]⟩
  | recvBlocked => exact absurd (Or.inl hphase) ht
  | sendBlocked item => exact absurd (Or.inr ⟨item, hphase⟩) ht

/-! ## The body of the loop -/

/-- The steps of the body that are left. -/
def parts (w : ChannelWorld α) : Nat :=
  match w.scheduler with
  | .unlocked => 3
  | .sendPart => 2
  | .recvPart => 1

lemma parts_pos (w : ChannelWorld α) : 0 < w.parts := by
  unfold parts
  split <;> decide

lemma threadStep_parts {a : ChannelStep α} (hstep : w.threadStep capacity a = some w') :
    w'.parts = w.parts := by
  unfold parts
  rw [(threadStep_effect hstep).scheduler]

lemma round_parts (w : ChannelWorld α) (hlast : (w.round capacity).2 = false) :
    (w.round capacity).1.parts + 1 = w.parts := by
  cases hphase : w.scheduler <;> simp [round, schedule, parts, hphase] at hlast ⊢

/-- The queues after a step of the body: the part for `sendq` may take one alert out of it, and
the part for `recvq`, the last one, out of `recvq`. -/
lemma round_queues (capacity : Nat) (w : ChannelWorld α) :
    w.recvq.length ≤ (w.round capacity).1.recvq.length + (if (w.round capacity).2 then 1 else 0) ∧
      w.sendq.length ≤ (w.round capacity).1.sendq.length + (if w.parts = 2 then 1 else 0) := by
  cases hphase : w.scheduler with
  | unlocked => simp [round, schedule, parts, hphase]
  | sendPart =>
    rcases serveSend_cases capacity w with ⟨hsame, -⟩ | ⟨t, rest, -, hq, hserve⟩
    · simp [round, schedule, parts, hphase, hsame]
    · simp only [round, schedule, parts, hphase, hserve, hq]
      rcases em (∃ item, w.phase t = .sendBlocked item) with ⟨item, hitem⟩ | hnone
      · simp [notifySend_of_blocked hitem, setPhase]
      · simp [notifySend_of_ne fun item h => hnone ⟨item, h⟩]
  | recvPart =>
    rcases serveRecv_cases w with ⟨hsame, -⟩ | ⟨t, rest, -, hq, hserve⟩
    · simp [round, schedule, parts, hphase, hsame]
    · simp only [round, schedule, parts, hphase, hserve, hq]
      rcases em (w.phase t = .recvBlocked) with hblocked | hne
      · simp [notifyRecv_of_blocked hblocked, setPhase]
      · simp [notifyRecv_of_ne hne]

lemma round_last (w : ChannelWorld α) (hlast : (w.round capacity).2 = true) :
    w.parts = 1 ∧ (w.round capacity).1.scheduler = .unlocked := by
  cases hphase : w.scheduler <;> simp [round, schedule, parts, hphase] at hlast ⊢

lemma Fifo.round (hw : w.Fifo capacity) : (w.round capacity).1.Fifo capacity := hw.schedule

lemma Fifo.threadStep {a : ChannelStep α} (hw : w.Fifo capacity)
    (hstep : w.threadStep capacity a = some w') : w'.Fifo capacity := by
  cases a with
  | scheduler => cases hstep
  | recv t => exact hw.step (a := .recv t) hstep
  | send t item => exact hw.step (a := .send t item) hstep
  | check t => exact hw.step (a := .check t) hstep
  | wakeUp t => exact hw.step (a := .wakeUp t) hstep
  | spurious t => exact hw.step (a := .spurious t) hstep

end ChannelWorld

namespace ClosableChannel

open FlagLoop ChannelWorld

variable {capacity : Nat} {w w' : ClosableChannel α}

/-- The steps that queue a receiving alert. -/
def isRecv : FlagLoopStep (ChannelStep α) → Bool
  | .other (.recv _) => true
  | _ => false

/-- The steps that queue a sending alert. -/
def isSend : FlagLoopStep (ChannelStep α) → Bool
  | .other (.send _ _) => true
  | _ => false

/-- How many receiving alerts the scheduler can still take when the flag is set. -/
def recvTakes (w : ClosableChannel α) : Nat := if w.place = .round then 1 else 0

def sendTakes (w : ClosableChannel α) : Nat :=
  if w.place = .round ∧ 1 < w.inner.parts then 1 else 0

lemma recvs_length (a : ChannelStep α) :
    a.recvs.length = if isRecv (.other a) then 1 else 0 := by
  cases a <;> rfl

lemma sends_length (a : ChannelStep α) :
    a.sends.length = if isSend (.other a) then 1 else 0 := by
  cases a <;> rfl

/-- An alert that is queued stays queued, or is one that the scheduler can still take. -/
lemma takes_step {a : FlagLoopStep (ChannelStep α)} (hw : w.Raised)
    (hstep : step capacity w a = some w') :
    w.inner.recvq.length + (if isRecv a then 1 else 0) + w'.recvTakes ≤
        w'.inner.recvq.length + w.recvTakes ∧
      w.inner.sendq.length + (if isSend a then 1 else 0) + w'.sendTakes ≤
        w'.inner.sendq.length + w.sendTakes := by
  cases effect_of_step hstep with
  | other a s hs =>
    obtain ⟨-, hrecvq, hsendq, -⟩ := threadStep_effect hs
    have hrecvs := recvs_length a
    have hsends := sends_length a
    simp only [recvTakes, sendTakes, threadStep_parts hs, hrecvq, hsendq, List.length_append]
    omega
  | raise => simp [isRecv, isSend, recvTakes, sendTakes]
  | start h => exact absurd h hw.2
  | enter h hflag => exact absurd hw.1 (by simp [hflag])
  | leave h => simp [isRecv, isSend, recvTakes, sendTakes, h]
  | part h hlast =>
    obtain ⟨hrecvq, hsendq⟩ := round_queues capacity w.inner
    have hparts := round_parts w.inner hlast
    have hpos := parts_pos (w.inner.round capacity).1
    simp only [hlast, Bool.false_eq_true, if_false] at hrecvq
    simp only [isRecv, isSend, recvTakes, sendTakes, h, true_and, if_true, Bool.false_eq_true, if_false]
    split_ifs at hsendq ⊢ <;> omega
  | last h hlast =>
    obtain ⟨hrecvq, hsendq⟩ := round_queues capacity w.inner
    have hone := (round_last w.inner hlast).1
    simp only [hlast, if_true] at hrecvq
    simp [hone] at hsendq
    simp [isRecv, isSend, recvTakes, sendTakes, h, hone, hrecvq, hsendq]

lemma takes_run {run : List (FlagLoopStep (ChannelStep α))} (hw : w.Raised)
    (hrun : exec (step capacity) w run = some w') :
    w.inner.recvq.length + run.countP isRecv ≤ w'.inner.recvq.length + 1 ∧
      w.inner.sendq.length + run.countP isSend ≤ w'.inner.sendq.length + 1 := by
  have hrecv := exec_balance (P := Raised) (f := recvTakes) (g := fun w => w.inner.recvq.length)
    (p := isRecv) (fun s a t hs (_ : True) hstep => ⟨raised_step hs hstep, by
      have hle := (takes_step hs hstep).1
      omega⟩) hw (fun _ _ => trivial) hrun
  have hsend := exec_balance (P := Raised) (f := sendTakes) (g := fun w => w.inner.sendq.length)
    (p := isSend) (fun s a t hs (_ : True) hstep => ⟨raised_step hs hstep, by
      have hle := (takes_step hs hstep).2
      omega⟩) hw (fun _ _ => trivial) hrun
  have hone : w.recvTakes ≤ 1 ∧ w.sendTakes ≤ 1 := by
    unfold recvTakes sendTakes
    constructor <;> split <;> decide
  omega

lemma fifo_run (garbage : Bool) (run : List (FlagLoopStep (ChannelStep α)))
    (hrun : exec (step capacity) (init garbage) run = some w) : w.inner.Fifo capacity :=
  inner_run (J := Fifo capacity) (fun _ _ _ hs hstep => hs.threadStep hstep)
    (fun _ hs => hs.round) fifo_init hrun

/-- The scheduler holds `buffer_lock` only in the body of its loop. -/
lemma unlocked_run (garbage : Bool) (run : List (FlagLoopStep (ChannelStep α)))
    (hrun : exec (step capacity) (init garbage) run = some w) :
    w.place ≠ .round → w.inner.scheduler = .unlocked := by
  have hstep : ∀ (s : ClosableChannel α) a t, (s.place ≠ .round → s.inner.scheduler = .unlocked) →
      step capacity s a = some t → t.place ≠ .round → t.inner.scheduler = .unlocked := by
    intro s a t hs hstep
    exact between_step (B := fun w => w.scheduler = .unlocked)
      (fun s a t hs hmove => (threadStep_effect hmove).scheduler.trans hs)
      (fun hlast => (round_last s.inner hlast).2) hs hstep
  exact exec_invariant_always hstep (fun _ => rfl) hrun

/-- After a `close` that comes behind the scheduler's first step, the scheduler thread makes at
most four more steps and takes at most one more alert out of each queue, whatever the others do;
these steps bring it to its return. What goes through the channel stays in order and within the
capacity. -/
theorem close_ends_scheduler (capacity : Nat) (garbage : Bool)
    (pre post : List (FlagLoopStep (ChannelStep α))) (w w' : ClosableChannel α)
    (hpre : exec (step capacity) (init garbage) pre = some w) (hstarted : .loop ∈ pre)
    (hpost : exec (step capacity) w (.raise :: post) = some w') :
    post.countP FlagLoopStep.isLoop ≤ 4 ∧
      w.inner.recvq.length + post.countP isRecv ≤ w'.inner.recvq.length + 1 ∧
      w.inner.sendq.length + post.countP isSend ≤ w'.inner.sendq.length + 1 ∧
      w'.inner.sent = w'.inner.received ++ w'.inner.buffer ∧ w'.inner.buffer.length ≤ capacity ∧
      ∃ n ≤ 4, ∃ v, exec (step capacity) w' (List.replicate n .loop) = some v ∧
        v.place = .returned := by
  have hraised : ({ w with flag := true } : ClosableChannel α).Raised :=
    ⟨rfl, (traced_run rfl hpre).started.mpr hstarted⟩
  have hrun : exec (step capacity) { w with flag := true } post = some w' := hpost
  have hparts : ∀ s : ChannelWorld α, (s.round capacity).2 = false →
      (s.round capacity).1.parts < s.parts := by
    intro s hlast
    have hone := round_parts s hlast
    omega
  have hleft : ∀ v : ClosableChannel α, v.left parts ≤ 4 := by
    intro v
    have hthree : v.inner.parts ≤ 3 := by
      unfold parts
      split <;> decide
    exact Nat.le_trans (left_le_parts parts v) (Nat.succ_le_succ hthree)
  have hloops := loops_le_left (fun s a t hs => threadStep_parts hs) hparts parts_pos hraised hrun
  have hraised' : w'.Raised :=
    exec_invariant_always (fun _ _ _ hs hstep => raised_step hs hstep) hraised hrun
  obtain ⟨n, hn, v, hv, hreturned⟩ :=
    returns_alone (fun s a t hs => threadStep_parts hs) hparts parts_pos hraised'
  obtain ⟨hrecvq, hsendq⟩ := takes_run hraised hrun
  have hfifo : w'.inner.Fifo capacity := by
    apply fifo_run garbage (pre ++ .raise :: post)
    rw [exec_append, hpre, Option.bind_some, hpost]
  exact ⟨Nat.le_trans (Nat.le_of_add_left_le hloops) (hleft _), hrecvq, hsendq, hfifo.ordered,
    hfifo.bounded, n,
    Nat.le_trans hn (hleft w'), v, hv, hreturned⟩

/-- The scheduler has just found the channel open when it is closed. -/
def closedMidway : List (FlagLoopStep (ChannelStep Nat)) :=
  [.loop, .other (.recv 1), .other (.check 1), .loop, .other (.send 0 7), .other (.check 0)]

theorem close_ends_scheduler_midway : ∃ w w', exec (step 1) (init true) closedMidway = some w ∧
    exec (step 1) w [.raise, .loop, .loop, .loop, .loop] = some w' ∧ w'.place = .returned ∧
    w'.inner.phase 1 = .recvWoken ∧ [(.loop : FlagLoopStep (ChannelStep Nat)), .loop, .loop,
      .loop].countP FlagLoopStep.isLoop ≤ 4 :=
  ⟨_, _, rfl, rfl, rfl, rfl, (close_ends_scheduler 1 true closedMidway
    [.loop, .loop, .loop, .loop] _ _ rfl (by decide) rfl).1⟩

/-! ## After the return -/

lemma returned_thread {a : FlagLoopStep (ChannelStep α)} (hw : w.place = .returned)
    (hstep : step capacity w a = some w') : w'.place = .returned ∧ (w'.inner = w.inner ∨
      ∃ b, a = .other b ∧ ThreadEffect w.inner b w'.inner) := by
  obtain ⟨hplace, hsame | ⟨b, rfl, hmove⟩⟩ := returned_step hw hstep
  · exact ⟨hplace, Or.inl hsame⟩
  · exact ⟨hplace, Or.inr ⟨b, rfl, threadStep_effect hmove⟩⟩

/-- A thread that is blocked when the scheduler has returned stays so but for spurious wake-ups. -/
lemma stays_blocked {run : List (FlagLoopStep (ChannelStep α))} {t : Nat}
    (hw : w.place = .returned) (ht : (w.inner.phase t).Blocked)
    (hspurious : .other (.spurious t) ∉ run) (hrun : exec (step capacity) w run = some w') :
    w'.inner.phase t = w.inner.phase t := by
  have hstep : ∀ s a s', (s.place = .returned ∧ s.inner.phase t = w.inner.phase t) →
      a ≠ .other (.spurious t) → step capacity s a = some s' →
      s'.place = .returned ∧ s'.inner.phase t = w.inner.phase t := by
    rintro s a s' ⟨hplace, hphase⟩ hne hstep
    obtain ⟨hplace', hsame | ⟨b, rfl, heffect⟩⟩ := returned_thread hplace hstep
    · exact ⟨hplace', by rw [hsame, hphase]⟩
    · have hkeep := heffect.blocked t (hphase ▸ ht) (fun h => hne (h ▸ rfl))
      exact ⟨hplace', hkeep.trans hphase⟩
  have hgood : Along (step capacity) (fun _ a => a ≠ .other (.spurious t)) w run :=
    along_of_forall _ w fun a ha h => hspurious (h ▸ ha)
  exact (exec_invariant hstep ⟨hw, rfl⟩ hgood hrun).2

lemma queues_grow {run : List (FlagLoopStep (ChannelStep α))} (hw : w.place = .returned)
    (hrun : exec (step capacity) w run = some w') :
    w'.place = .returned ∧ w.inner.recvq <+: w'.inner.recvq ∧ w.inner.sendq <+: w'.inner.sendq := by
  have hstep : ∀ (s : ClosableChannel α) a s', (s.place = .returned ∧ w.inner.recvq <+: s.inner.recvq ∧
      w.inner.sendq <+: s.inner.sendq) → step capacity s a = some s' →
      s'.place = .returned ∧ w.inner.recvq <+: s'.inner.recvq ∧
        w.inner.sendq <+: s'.inner.sendq := by
    rintro s a s' ⟨hplace, hrecvq, hsendq⟩ hstep
    obtain ⟨hplace', hsame | ⟨b, rfl, heffect⟩⟩ := returned_thread hplace hstep
    · exact ⟨hplace', by rwa [hsame], by rwa [hsame]⟩
    · rw [heffect.recvq, heffect.sendq]
      exact ⟨hplace', hrecvq.trans (List.prefix_append _ _), hsendq.trans (List.prefix_append _ _)⟩
  exact exec_invariant_always hstep ⟨hw, List.prefix_rfl, List.prefix_rfl⟩ hrun

/-- The scheduler thread only returns after a `close` that comes behind its first step. From then
on a blocked thread stays blocked but for spurious wake-ups, no alert leaves the queues, and
`buffer_lock` is free for the threads that are not blocked. -/
theorem returned_scheduler_strands (capacity : Nat) (garbage : Bool)
    (run later : List (FlagLoopStep (ChannelStep α))) (w v : ClosableChannel α)
    (hrun : exec (step capacity) (init garbage) run = some w) (hreturned : w.place = .returned)
    (hlater : exec (step capacity) w later = some v) :
    (∃ pre post, run = pre ++ .raise :: post ∧ .loop ∈ pre) ∧
      (∀ t, (w.inner.phase t).Blocked → .other (.spurious t) ∉ later →
        v.inner.phase t = w.inner.phase t) ∧
      w.inner.recvq <+: v.inner.recvq ∧ w.inner.sendq <+: v.inner.sendq ∧
      ∀ t, ¬(v.inner.phase t).Blocked → ∃ a ∈ [ChannelStep.recv t, .check t, .wakeUp t],
        ∃ v', step capacity v (.other a) = some v' := by
  obtain ⟨hplace, hrecvq, hsendq⟩ := queues_grow hreturned hlater
  have hfree : v.inner.scheduler = .unlocked := by
    apply unlocked_run garbage (run ++ later)
    · rw [exec_append, hrun, Option.bind_some, hlater]
    · simp [hplace]
  refine ⟨raised_of_returned rfl hrun hreturned, fun t ht hspurious => ?_, hrecvq, hsendq, ?_⟩
  · exact stays_blocked hreturned ht hspurious hlater
  · intro t ht
    obtain ⟨a, ha, v', hv'⟩ := exists_threadStep capacity hfree ht
    exact ⟨a, ha, { v with inner := v' }, by simp [step, FlagLoop.step, hv']⟩

/-- The thread 1 waits for a value when the scheduler returns, and the value that the thread 0 sends
after that is not delivered to it. -/
theorem returned_scheduler_strands_receiver : ∃ w v,
    exec (step 1) (init false) [.loop, .raise, .other (.recv 1), .other (.check 1), .loop] = some w ∧
    exec (step 1) w [.other (.send 0 7), .other (.check 0)] = some v ∧ v.inner.buffer = [7] ∧
    v.inner.phase 1 = .recvBlocked :=
  ⟨_, _, rfl, rfl, rfl, (returned_scheduler_strands 1 false
    [.loop, .raise, .other (.recv 1), .other (.check 1), .loop]
    [.other (.send 0 7), .other (.check 0)] _ _ rfl rfl rfl).2.1 1 (Or.inl rfl) (by decide)⟩

end ClosableChannel

end CoplusLean
