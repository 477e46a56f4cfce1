import CoplusLean.Models.ChannelClose
import CoplusLean.Proofs.SyncChannelRendezvous

/-!
# `close` of a `SyncChannel`

A channel without a buffer lets a send complete only after its scheduler has matched it with a
receive. After `close` at most one more pair is matched, and once the scheduler thread has
returned no call that has not been woken ever returns: the schedulers of other channels, which
share the alerts, do not wake it either.
-/

namespace CoplusLean

open Lib

variable {α : Type*}

namespace SyncWorld

variable {w w' : SyncWorld α} {t c : Nat}

lemma step_of_threadStep {a : SyncStep α} (hstep : w.threadStep c a = some w') :
    w.step a = some w' ∧ a ≠ .matchSend c ∧ a ≠ .matchRecv c := by
  unfold threadStep at hstep
  split at hstep
  case h_1 d =>
    split_ifs at hstep with hd
    exact ⟨hstep, by simp [hd], by simp⟩
  case h_2 d =>
    split_ifs at hstep with hd
    exact ⟨hstep, by simp, by simp [hd]⟩
  case h_3 hsend hrecv => exact ⟨hstep, hsend c, hrecv c⟩

/-- The body of the loop is a match in two steps, or finds an empty queue. -/
lemma round_cases (c : Nat) (w : SyncWorld α) :
    (∃ w', w.step (.matchSend c) = some w' ∧ w.round c = (w', false)) ∨
      (∃ w', w.step (.matchRecv c) = some w' ∧ w.round c = (w', true)) ∨
      (w.step (.matchRecv c) = none ∧ w.round c = (w, true)) := by
  cases hsend : w.matchSend c with
  | some w' => exact Or.inl ⟨w', hsend, by simp [round, hsend]⟩
  | none =>
    cases hrecv : w.matchRecv c with
    | some w' => exact Or.inr (Or.inl ⟨w', hrecv, by simp [round, hsend, hrecv]⟩)
    | none => exact Or.inr (Or.inr ⟨hrecv, by simp [round, hsend, hrecv]⟩)

lemma Rendezvous.round (hw : w.Rendezvous) (c : Nat) : (w.round c).1.Rendezvous := by
  rcases round_cases c w with ⟨w', hstep, heq⟩ | ⟨w', hstep, heq⟩ | ⟨-, heq⟩
  · rw [heq]
    exact hw.step (effect_of_step hstep)
  · rw [heq]
    exact hw.step (effect_of_step hstep)
  · rwa [heq]

lemma Rendezvous.threadStep {a : SyncStep α} (hw : w.Rendezvous)
    (hstep : w.threadStep c a = some w') : w'.Rendezvous :=
  hw.step (effect_of_step (step_of_threadStep hstep).1)

/-! ## What the other threads leave alone -/

/-- The scheduler's part of a channel after a step of another thread. -/
structure Apart (c : Nat) (w w' : SyncWorld α) : Prop where
  matching : (w'.channel c).matching = (w.channel c).matching
  pairs : (w'.channel c).pairs = (w.channel c).pairs
  recvq : (w.channel c).recvq <+: (w'.channel c).recvq
  sendq : (w.channel c).sendq <+: (w'.channel c).sendq

lemma Apart.of_channel {ch : SyncChannel α} {d : Nat}
    (hchannel : w'.channel = Function.update w.channel d ch)
    (hch : d = c → ch.matching = (w.channel c).matching ∧ ch.pairs = (w.channel c).pairs ∧
      (w.channel c).recvq <+: ch.recvq ∧ (w.channel c).sendq <+: ch.sendq) : Apart c w w' := by
  by_cases hd : c = d
  · obtain ⟨hmatching, hpairs, hrecvq, hsendq⟩ := hch hd.symm
    have hsame : w'.channel c = ch := by rw [hchannel, hd, Function.update_self]
    exact ⟨by rw [hsame, hmatching], by rw [hsame, hpairs], by rwa [hsame], by rwa [hsame]⟩
  · have hsame : w'.channel c = w.channel c := by rw [hchannel, Function.update_of_ne hd]
    exact ⟨by rw [hsame], by rw [hsame], by rw [hsame], by rw [hsame]⟩

lemma apart_of_threadStep {a : SyncStep α} (hstep : w.threadStep c a = some w') : Apart c w w' := by
  obtain ⟨hstep, hsend, hrecv⟩ := step_of_threadStep hstep
  cases effect_of_step hstep with
  | recv t d => exact .of_channel rfl (by rintro rfl; simp)
  | send t d item => exact .of_channel rfl (by rintro rfl; simp)
  | waitRecv | waitSend | recvAgain | sendAgain =>
    exact ⟨rfl, rfl, List.prefix_rfl, List.prefix_rfl⟩
  | recvDone t d item => exact .of_channel rfl (by rintro rfl; simp)
  | sendDone t d item => exact .of_channel rfl (by rintro rfl; simp)
  | matchSend d s ss hfree hsendq =>
    rw [notifySend_eq]
    exact .of_channel rfl (by rintro rfl; exact absurd rfl hsend)
  | matchRecv d r rs hmatching hrecvq =>
    rw [notifyRecv_eq]
    exact .of_channel rfl (by rintro rfl; exact absurd rfl hrecv)

/-- Only the scheduler of its channel wakes a call. -/
lemma calls_stay {a : SyncStep α} (hw : w.Queues) (hstep : w.threadStep c a = some w') (t : Nat) :
    ((w.phase t).SendIn c → (w'.phase t).SendIn c) ∧
      ((w.phase t).RecvIn c → (w'.phase t).RecvIn c) := by
  obtain ⟨hstep, hsend, hrecv⟩ := step_of_threadStep hstep
  have hupdate : ∀ (u : Nat) (x : SyncPhase α),
      ((w.phase u).SendIn c → x.SendIn c) → ((w.phase u).RecvIn c → x.RecvIn c) →
      ((w.phase t).SendIn c → (Function.update w.phase u x t).SendIn c) ∧
        ((w.phase t).RecvIn c → (Function.update w.phase u x t).RecvIn c) := by
    intro u x hs hr
    by_cases htu : t = u
    · subst htu
      rw [Function.update_self]
      exact ⟨hs, hr⟩
    · rw [Function.update_of_ne htu]
      exact ⟨id, id⟩
  cases effect_of_step hstep with
  | recv u d hidle =>
    exact hupdate u _ (by simp [hidle, SyncPhase.SendIn]) (by simp [hidle, SyncPhase.RecvIn])
  | send u d item hidle =>
    exact hupdate u _ (by simp [hidle, SyncPhase.SendIn]) (by simp [hidle, SyncPhase.RecvIn])
  | waitRecv u d hphase =>
    exact hupdate u _ (by simp [hphase, SyncPhase.SendIn]) (by simp [hphase, SyncPhase.RecvIn])
  | waitSend u d item hphase =>
    exact hupdate u _ (by simp [hphase, SyncPhase.SendIn]) (by simp [hphase, SyncPhase.RecvIn])
  | recvAgain u d hphase =>
    exact hupdate u _ (by simp [hphase, SyncPhase.SendIn]) (by simp [hphase, SyncPhase.RecvIn])
  | recvDone u d item hphase =>
    exact hupdate u _ (by simp [hphase, SyncPhase.SendIn]) (by simp [hphase, SyncPhase.RecvIn])
  | sendAgain u d item v hphase =>
    exact hupdate u _ (by simp [hphase, SyncPhase.SendIn]) (by simp [hphase, SyncPhase.RecvIn])
  | sendDone u d item hphase =>
    exact hupdate u _ (by simp [hphase, SyncPhase.SendIn]) (by simp [hphase, SyncPhase.RecvIn])
  | matchSend d s ss hfree hsendq =>
    have hs : (w.phase s).SendIn d := hw.send d s (by simp [senders, hfree, hsendq])
    rw [notifySend_eq]
    exact hupdate s _ (fun h => absurd (h.unique hs) fun hcd => hsend (hcd ▸ rfl))
      (fun h => absurd h hs.not_recvIn)
  | matchRecv d r rs hmatching hrecvq =>
    have hr : (w.phase r).RecvIn d := hw.recv d r (by simp [hrecvq])
    rw [notifyRecv_eq]
    exact hupdate r _ (fun h => absurd hr h.not_recvIn)
      (fun h => absurd (h.unique hr) fun hcd => hrecv (hcd ▸ rfl))

/-! ## The body of the loop -/

/-- The steps of the body that are left. -/
def parts (c : Nat) (w : SyncWorld α) : Nat := if (w.channel c).matching then 1 else 2

lemma parts_pos (c : Nat) (w : SyncWorld α) : 0 < w.parts c := by
  unfold parts
  split <;> decide

lemma threadStep_parts {a : SyncStep α} (hstep : w.threadStep c a = some w') :
    w'.parts c = w.parts c := by
  unfold parts
  rw [(apart_of_threadStep hstep).matching]

/-- The first step of a match counts the pair. -/
lemma round_first (hlast : (w.round c).2 = false) :
    (w.channel c).matching = false ∧ ((w.round c).1.channel c).matching = true ∧
      ((w.round c).1.channel c).pairs = (w.channel c).pairs + 1 := by
  rcases round_cases c w with ⟨w', hstep, heq⟩ | ⟨w', -, heq⟩ | ⟨-, heq⟩
  · rw [heq]
    cases effect_of_step hstep with
    | matchSend _ s ss hfree hsendq hrecvq =>
      rw [notifySend_eq]
      simp [setChannel, hfree]
  · simp [heq] at hlast
  · simp [heq] at hlast

/-- The last step of a match takes both alerts, and what ends without a match changes nothing. -/
lemma round_end (hw : w.Rendezvous) (hlast : (w.round c).2 = true) :
    ((w.round c).1.channel c).matching = false ∧
      ((w.round c).1.channel c).pairs = (w.channel c).pairs := by
  rcases round_cases c w with ⟨w', -, heq⟩ | ⟨w', hstep, heq⟩ | ⟨hnone, heq⟩
  · simp [heq] at hlast
  · rw [heq]
    cases effect_of_step hstep with
    | matchRecv _ r rs hmatching hrecvq =>
      rw [notifyRecv_eq]
      simp [setChannel]
  · rw [heq]
    refine ⟨?_, rfl⟩
    by_contra hmatching
    have htrue : (w.channel c).matching = true := by simpa using hmatching
    obtain ⟨r, rs, hrecvq⟩ := List.exists_cons_of_ne_nil ((hw.entered c).2 htrue)
    simp [step, matchRecv, htrue, hrecvq] at hnone

lemma round_parts (hlast : (w.round c).2 = false) : (w.round c).1.parts c < w.parts c := by
  obtain ⟨hfree, hmatching, -⟩ := round_first hlast
  simp [parts, hfree, hmatching]

end SyncWorld

namespace ClosableSync

open FlagLoop SyncWorld

variable {c : Nat} {w w' : ClosableSync α}

/-- How many pairs the scheduler can still match when the flag is set. -/
def pairTakes (c : Nat) (w : ClosableSync α) : Nat :=
  if w.place = .round ∧ (w.inner.channel c).matching = false then 1 else 0

/-- Between two runs through the body the scheduler holds no lock. -/
structure Sound (c : Nat) (w : ClosableSync α) : Prop where
  inner : w.inner.Rendezvous
  free : w.place ≠ .round → (w.inner.channel c).matching = false

lemma sound_step {a : FlagLoopStep (SyncStep α)} (hw : w.Sound c)
    (hstep : step c w a = some w') : w'.Sound c where
  inner := inner_step (J := Rendezvous) (fun _ _ _ hs hmove => hs.threadStep hmove)
    (fun _ hs => hs.round c) hw.inner hstep
  free := between_step (B := fun w => (w.channel c).matching = false)
    (fun _ _ _ hs hmove => (apart_of_threadStep hmove).matching.trans hs)
    (fun hlast => (round_end hw.inner hlast).1) hw.free hstep

lemma sound_run (garbage : Bool) (run : List (FlagLoopStep (SyncStep α)))
    (hrun : exec (step c) (init garbage) run = some w) : w.Sound c :=
  exec_invariant_always (fun _ _ _ hs hstep => sound_step hs hstep)
    ⟨rendezvous_init, fun _ => rfl⟩ hrun

/-- A pair is one that was matched, or one that the scheduler can still match. -/
lemma pairs_step {a : FlagLoopStep (SyncStep α)} (hw : w.Sound c) (hraised : w.Raised)
    (hstep : step c w a = some w') :
    (w'.inner.channel c).pairs + w'.pairTakes c ≤ (w.inner.channel c).pairs + w.pairTakes c := by
  cases effect_of_step hstep with
  | other a s hs =>
    obtain ⟨hmatching, hpairs, -, -⟩ := apart_of_threadStep hs
    simp [pairTakes, hmatching, hpairs]
  | raise => simp [pairTakes]
  | start h => exact absurd h hraised.2
  | enter h hflag => exact absurd hraised.1 (by simp [hflag])
  | leave h => simp [pairTakes]
  | part h hlast =>
    obtain ⟨hfree, hmatching, hpairs⟩ := round_first hlast
    simp [pairTakes, h, hfree, hmatching, hpairs]
  | last h hlast =>
    obtain ⟨-, hpairs⟩ := round_end hw.inner hlast
    simp [pairTakes, hpairs]

lemma pairs_run {run : List (FlagLoopStep (SyncStep α))} (hw : w.Sound c) (hraised : w.Raised)
    (hrun : exec (step c) w run = some w') :
    (w'.inner.channel c).pairs ≤ (w.inner.channel c).pairs + 1 := by
  have hstep : ∀ (s : ClosableSync α) a t, s.Sound c ∧ s.Raised → step c s a = some t →
      (t.Sound c ∧ t.Raised) ∧ ((t.inner.channel c).pairs + t.pairTakes c) +
        (if (fun _ => false : FlagLoopStep (SyncStep α) → Bool) a then 1 else 0) ≤
          (s.inner.channel c).pairs + s.pairTakes c := by
    rintro s a t ⟨hs, hr⟩ hstep
    exact ⟨⟨sound_step hs hstep, raised_step hr hstep⟩, pairs_step hs hr hstep⟩
  have hle := exec_potential hstep ⟨hw, hraised⟩ hrun
  have hone : w.pairTakes c ≤ 1 := by
    unfold pairTakes
    split <;> decide
  omega

lemma left_le (v : ClosableSync α) : v.left (parts c) ≤ 3 := by
  have htwo : v.inner.parts c ≤ 2 := by
    unfold parts
    split <;> decide
  exact Nat.le_trans (left_le_parts (parts c) v) (Nat.succ_le_succ htwo)

/-- After a `close` that comes behind the scheduler's first step, the scheduler thread makes at
most three more steps and matches at most one more pair, whatever the others do; these steps
bring it to its return. So at most one more send completes than pairs were matched before. -/
theorem sync_close_ends_scheduler (c : Nat) (garbage : Bool)
    (pre post : List (FlagLoopStep (SyncStep α))) (w w' : ClosableSync α)
    (hpre : exec (step c) (init garbage) pre = some w) (hstarted : .loop ∈ pre)
    (hpost : exec (step c) w (.raise :: post) = some w') :
    post.countP FlagLoopStep.isLoop ≤ 3 ∧
      (w'.inner.channel c).pairs ≤ (w.inner.channel c).pairs + 1 ∧
      (w'.inner.channel c).sent.length ≤ (w.inner.channel c).pairs + 1 ∧
      (w'.inner.channel c).received ++ (w'.inner.channel c).buffer.toList =
        (w'.inner.channel c).sent ∧
      ∃ n ≤ 3, ∃ v, exec (step c) w' (List.replicate n .loop) = some v ∧ v.place = .returned := by
  have hsound := sound_run garbage pre hpre
  have hraised : ({ w with flag := true } : ClosableSync α).Raised :=
    ⟨rfl, (traced_run rfl hpre).started.mpr hstarted⟩
  have hrun : exec (step c) { w with flag := true } post = some w' := hpost
  have hloops := loops_le_left (fun _ _ _ hs => threadStep_parts hs) (fun _ => round_parts)
    (parts_pos c) hraised hrun
  have hraised' : w'.Raised :=
    exec_invariant_always (fun _ _ _ hs hstep => raised_step hs hstep) hraised hrun
  have halone : ∃ n ≤ w'.left (parts c), ∃ v,
      exec (step c) w' (List.replicate n .loop) = some v ∧ v.place = .returned :=
    returns_alone (fun _ _ _ hs => threadStep_parts hs) (fun _ => round_parts) (parts_pos c) hraised'
  obtain ⟨n, hn, v, hv, hreturned⟩ := halone
  have hclosed : Sound c { w with flag := true } := ⟨hsound.inner, hsound.free⟩
  have hpairs := pairs_run hclosed hraised hrun
  have hsound' : w'.Sound c := by
    apply sound_run garbage (pre ++ .raise :: post)
    rw [exec_append, hpre, Option.bind_some, hpost]
  obtain ⟨k, -, hsent⟩ := hsound'.inner.sends c
  exact ⟨Nat.le_trans (Nat.le_of_add_left_le hloops) (left_le _), hpairs,
    Nat.le_trans (Nat.le_of_add_right_le hsent) hpairs, hsound'.inner.values c, n,
    Nat.le_trans hn (left_le w'), v, hv, hreturned⟩

/-- The scheduler has just notified the sender when the channel is closed. -/
def closedInMatch : List (FlagLoopStep (SyncStep Nat)) :=
  [.loop, .other (.recv 1 0), .other (.wait 1), .other (.send 0 0 7), .other (.wait 0), .loop, .loop]

theorem sync_close_ends_scheduler_inMatch : ∃ w w', exec (step 0) (init true) closedInMatch = some w ∧
    exec (step 0) w [.raise, .loop, .loop, .other (.wakeUp 0)] = some w' ∧ w'.place = .returned ∧
    (w'.inner.channel 0).sent = [7] ∧
    (w'.inner.channel 0).sent.length ≤ (w.inner.channel 0).pairs + 1 :=
  ⟨_, _, rfl, rfl, rfl, rfl, (sync_close_ends_scheduler 0 true closedInMatch
    [.loop, .loop, .other (.wakeUp 0)] _ _ rfl (by decide) rfl).2.2.1⟩

/-! ## After the return -/

/-- What a channel keeps whose scheduler has returned. -/
structure Stranded (c : Nat) (w v : ClosableSync α) : Prop where
  place : v.place = .returned
  calls : ∀ t, ((w.inner.phase t).SendIn c → (v.inner.phase t).SendIn c) ∧
    ((w.inner.phase t).RecvIn c → (v.inner.phase t).RecvIn c)
  pairs : (v.inner.channel c).pairs = (w.inner.channel c).pairs
  recvq : (w.inner.channel c).recvq <+: (v.inner.channel c).recvq
  sendq : (w.inner.channel c).sendq <+: (v.inner.channel c).sendq

lemma Stranded.step {v v' : ClosableSync α} {a : FlagLoopStep (SyncStep α)} (hv : Stranded c w v)
    (hsound : v.Sound c) (hstep : step c v a = some v') : Stranded c w v' := by
  obtain ⟨hplace, hsame | ⟨b, -, hmove⟩⟩ := returned_step hv.place hstep
  · exact ⟨hplace, by rw [hsame]; exact hv.calls, by rw [hsame]; exact hv.pairs,
      by rw [hsame]; exact hv.recvq, by rw [hsame]; exact hv.sendq⟩
  · obtain ⟨-, hpairs, hrecvq, hsendq⟩ := apart_of_threadStep hmove
    refine ⟨hplace, fun t => ?_, hpairs.trans hv.pairs, hv.recvq.trans hrecvq,
      hv.sendq.trans hsendq⟩
    obtain ⟨hs, hr⟩ := calls_stay hsound.inner.queues hmove t
    exact ⟨fun h => hs ((hv.calls t).1 h), fun h => hr ((hv.calls t).2 h)⟩

/-- The scheduler thread only returns after a `close` that comes behind its first step. From then
on no call of the channel is woken that has not been, no pair is matched and no alert leaves the
queues, so no more sends complete than pairs were matched before. -/
theorem sync_returned_scheduler_strands (c : Nat) (garbage : Bool)
    (run later : List (FlagLoopStep (SyncStep α))) (w v : ClosableSync α)
    (hrun : exec (step c) (init garbage) run = some w) (hreturned : w.place = .returned)
    (hlater : exec (step c) w later = some v) :
    (∃ pre post, run = pre ++ .raise :: post ∧ .loop ∈ pre) ∧ Stranded c w v ∧
      (v.inner.channel c).sent.length ≤ (w.inner.channel c).pairs := by
  have hw : w.Sound c ∧ Stranded c w w :=
    ⟨sound_run garbage run hrun, hreturned, fun t => ⟨id, id⟩, rfl, List.prefix_rfl, List.prefix_rfl⟩
  have hv : v.Sound c ∧ Stranded c w v :=
    exec_invariant_always (P := fun s => s.Sound c ∧ Stranded c w s)
      (fun _ _ _ hs hstep => ⟨sound_step hs.1 hstep, hs.2.step hs.1 hstep⟩) hw hlater
  obtain ⟨k, -, hsent⟩ := hv.1.inner.sends c
  refine ⟨raised_of_returned rfl hrun hreturned, hv.2, ?_⟩
  rw [← hv.2.pairs]
  exact Nat.le_of_add_right_le hsent

/-- A receive and a send of the channel 0 wait for each other behind its `close`. -/
theorem sync_returned_scheduler_strands_both : ∃ w v,
    exec (step 0) (init true) [.loop, .raise, .other (.recv 1 0), .other (.wait 1), .loop] = some w ∧
    exec (step 0) w [.other (.send 0 0 7), .other (.wait 0)] = some v ∧
    (v.inner.channel 0).sendq = [0] ∧ (v.inner.phase 1).RecvIn 0 :=
  ⟨_, _, rfl, rfl, rfl, (((sync_returned_scheduler_strands 0 true
    [.loop, .raise, .other (.recv 1 0), .other (.wait 1), .loop]
    [.other (.send 0 0 7), .other (.wait 0)] _ _ rfl rfl rfl).2.1).calls 1).2 (Or.inr rfl)⟩

end ClosableSync

end CoplusLean
