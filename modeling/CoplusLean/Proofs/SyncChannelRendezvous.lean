import CoplusLean.Proofs.SyncChannelQueues

/-!
# Conservation and rendezvous in `SyncChannel`

A completed send was woken by the scheduler of its channel, which at the same time removed
the alert of a receive that had been entered. The values pass through the buffer one at a
time.
-/

namespace CoplusLean

open Lib

variable {α : Type*}

/-- The thread has been woken from the wait of `operator<<` of the channel. -/
def SyncPhase.SendWokenOn (chan : Nat) (x : SyncPhase α) : Prop := ∃ item, x = .sendWoken chan item

namespace SyncWorld

variable {w w' : SyncWorld α} {t c : Nat} {x : SyncPhase α}

/-- A completed send has used up a match, and a woken one is about to. -/
def SendsMatched (ch : SyncChannel α) (phase : Nat → SyncPhase α) (c : Nat) : Prop :=
  ∃ k, Census (SyncPhase.SendWokenOn c) phase k ∧ ch.sent.length + k ≤ ch.pairs

/-- A match takes a receive that has been entered. -/
def PairsEntered (ch : SyncChannel α) : Prop :=
  ch.pairs + ch.recvq.length = ch.entered + (if ch.matching then 1 else 0) ∧
    (ch.matching = true → ch.recvq ≠ [])

structure Rendezvous (w : SyncWorld α) : Prop where
  queues : w.Queues
  values : ∀ c, (w.channel c).received ++ (w.channel c).buffer.toList = (w.channel c).sent
  sends : ∀ c, SendsMatched (w.channel c) w.phase c
  entered : ∀ c, PairsEntered (w.channel c)

lemma rendezvous_init : (init : SyncWorld α).Rendezvous where
  queues := queues_init
  values c := rfl
  sends c := ⟨0, census_const (by simp [SyncPhase.SendWokenOn]), le_rfl⟩
  entered c := by simp [PairsEntered, init]

/-- A thread whose wake-up is not concerned changes its phase. -/
lemma SendsMatched.same {ch ch' : SyncChannel α} {phase : Nat → SyncPhase α}
    (h : SendsMatched ch phase c) (hx : x.SendWokenOn c ↔ (phase t).SendWokenOn c)
    (hsent : ch'.sent = ch.sent) (hpairs : ch.pairs ≤ ch'.pairs) :
    SendsMatched ch' (Function.update phase t x) c := by
  obtain ⟨k, hk, hle⟩ := h
  exact ⟨k, hk.same hx, by rw [hsent]; omega⟩

/-- A woken sender fails its predicate or completes its send. -/
lemma SendsMatched.leave {ch ch' : SyncChannel α} {phase : Nat → SyncPhase α}
    (h : SendsMatched ch phase c) (hold : (phase t).SendWokenOn c) (hnew : ¬x.SendWokenOn c)
    (hsent : ch'.sent.length ≤ ch.sent.length + 1) (hpairs : ch'.pairs = ch.pairs) :
    SendsMatched ch' (Function.update phase t x) c := by
  obtain ⟨k, hk, hle⟩ := h
  obtain ⟨m, hm, hm'⟩ := hk.leave hold hnew
  exact ⟨m, hm', by omega⟩

/-- A match wakes at most one sender. -/
lemma SendsMatched.notify {ch ch' : SyncChannel α} {phase : Nat → SyncPhase α}
    (h : SendsMatched ch phase c) (hold : ¬(phase t).SendWokenOn c) (hsent : ch'.sent = ch.sent)
    (hpairs : ch'.pairs = ch.pairs + 1) : SendsMatched ch' (Function.update phase t x) c := by
  by_cases hx : x.SendWokenOn c
  · obtain ⟨k, hk, hle⟩ := h
    exact ⟨k + 1, hk.enter hold hx, by rw [hsent]; omega⟩
  · exact h.same (by simp [hx, hold]) hsent (by omega)

/-- A thread changes its phase and the channels stay. -/
lemma Rendezvous.of_phase (hw : w.Rendezvous) {a : SyncStep α}
    (heff : Effect w a (w.setPhase t x))
    (hx : ∀ c, x.SendWokenOn c → (w.phase t).SendWokenOn c) : (w.setPhase t x).Rendezvous where
  queues := hw.queues.step heff
  values := hw.values
  sends c := by
    by_cases hold : (w.phase t).SendWokenOn c
    · by_cases hnew : x.SendWokenOn c
      · exact (hw.sends c).same (by simp [hold, hnew]) rfl le_rfl
      · exact (hw.sends c).leave hold hnew (Nat.le_succ _) rfl
    · have hnew : ¬x.SendWokenOn c := fun h => hold (hx c h)
      exact (hw.sends c).same (by simp [hold, hnew]) rfl le_rfl
  entered := hw.entered

/-- One channel and one thread change. -/
lemma Rendezvous.of_channel (hw : w.Rendezvous) {a : SyncStep α} {ch : SyncChannel α}
    (heff : Effect w a w') (hchannel : w'.channel = Function.update w.channel c ch)
    (hphase : w'.phase = Function.update w.phase t x)
    (hvalues : ch.received ++ ch.buffer.toList = ch.sent)
    (hsends : SendsMatched ch (Function.update w.phase t x) c) (hentered : PairsEntered ch)
    (hother : ∀ d ≠ c, x.SendWokenOn d ↔ (w.phase t).SendWokenOn d) : w'.Rendezvous where
  queues := hw.queues.step heff
  values d := by
    rw [hchannel]
    by_cases hd : d = c
    · rwa [hd, Function.update_self]
    · rw [Function.update_of_ne hd]
      exact hw.values d
  sends d := by
    rw [hchannel, hphase]
    by_cases hd : d = c
    · rwa [hd, Function.update_self]
    · rw [Function.update_of_ne hd]
      exact (hw.sends d).same (hother d hd) rfl le_rfl
  entered d := by
    rw [hchannel]
    by_cases hd : d = c
    · rwa [hd, Function.update_self]
    · rw [Function.update_of_ne hd]
      exact hw.entered d

lemma Rendezvous.step {a : SyncStep α} (hw : w.Rendezvous) (heff : Effect w a w') :
    w'.Rendezvous := by
  have heff' := heff
  cases heff with
  | recv t c hidle hfree =>
    obtain ⟨hcount, -⟩ := hw.entered c
    refine hw.of_channel heff' rfl rfl (hw.values c) ?_ ⟨?_, by simp [hfree]⟩ ?_
    · exact (hw.sends c).same (by simp [hidle, SyncPhase.SendWokenOn]) rfl le_rfl
    · simp only [hfree, Bool.false_eq_true, if_false, List.length_append,
        List.length_singleton] at hcount ⊢
      omega
    · simp [hidle, SyncPhase.SendWokenOn]
  | send t c item hidle hfree =>
    refine hw.of_channel heff' rfl rfl (hw.values c) ?_ (hw.entered c) ?_
    · exact (hw.sends c).same (by simp [hidle, SyncPhase.SendWokenOn]) rfl le_rfl
    · simp [hidle, SyncPhase.SendWokenOn]
  | waitRecv t c hphase => exact hw.of_phase heff' (by simp [SyncPhase.SendWokenOn])
  | waitSend t c item hphase => exact hw.of_phase heff' (by simp [SyncPhase.SendWokenOn])
  | recvAgain t c hphase hbuffer => exact hw.of_phase heff' (by simp [SyncPhase.SendWokenOn])
  | recvDone t c item hphase hbuffer =>
    refine hw.of_channel heff' rfl rfl ?_ ?_ (hw.entered c) ?_
    · have hvalues := hw.values c
      simpa [hbuffer] using hvalues
    · exact (hw.sends c).same (by simp [hphase, SyncPhase.SendWokenOn]) rfl le_rfl
    · simp [hphase, SyncPhase.SendWokenOn]
  | sendAgain t c item v hphase hbuffer => exact hw.of_phase heff' (by simp [SyncPhase.SendWokenOn])
  | sendDone t c item hphase hbuffer =>
    refine hw.of_channel heff' rfl rfl ?_ ?_ (hw.entered c) ?_
    · have hvalues := hw.values c
      simp only [hbuffer, Option.toList_none, List.append_nil] at hvalues
      simp [hvalues]
    · exact (hw.sends c).leave ⟨item, hphase⟩ (by simp [SyncPhase.SendWokenOn]) (by simp) rfl
    · intro d hd
      simp [hphase, SyncPhase.SendWokenOn, Ne.symm hd]
  | matchSend c s ss hfree hsendq hrecvq =>
    obtain ⟨hcount, -⟩ := hw.entered c
    have hs : (w.phase s).SendIn c := hw.queues.send c s (by simp [senders, hfree, hsendq])
    have hold : ∀ d, ¬(w.phase s).SendWokenOn d := by
      rintro d ⟨item, hd⟩
      obtain ⟨item', h | h⟩ := hs <;> simp [hd] at h
    rw [notifySend_eq] at heff' ⊢
    refine hw.of_channel heff' rfl rfl (hw.values c) ?_ ⟨?_, fun _ => hrecvq⟩ ?_
    · exact (hw.sends c).notify (hold c) rfl rfl
    · simp only [hfree, Bool.false_eq_true, if_false, if_true] at hcount ⊢
      omega
    · intro d hd
      refine ⟨fun hnew => ?_, fun h => absurd h (hold d)⟩
      obtain ⟨item, h | h⟩ := hs
      · simp [h, SyncPhase.sendNotified, SyncPhase.SendWokenOn, setChannel] at hnew
      · simp [h, SyncPhase.sendNotified, SyncPhase.SendWokenOn, setChannel, Ne.symm hd] at hnew
  | matchRecv c r rs hmatching hrecvq =>
    obtain ⟨hcount, -⟩ := hw.entered c
    have hr : (w.phase r).RecvIn c := hw.queues.recv c r (by simp [hrecvq])
    have hnone : ∀ d, ¬(w.phase r).SendWokenOn d ∧ ¬(w.phase r).recvNotified.SendWokenOn d := by
      intro d
      obtain h | h := hr <;> simp [h, SyncPhase.SendWokenOn, SyncPhase.recvNotified]
    rw [notifyRecv_eq] at heff' ⊢
    refine hw.of_channel heff' rfl rfl (hw.values c) ?_ ⟨?_, by simp⟩ ?_
    · exact (hw.sends c).same (iff_of_false (hnone c).2 (hnone c).1) rfl le_rfl
    · simp only [hmatching, hrecvq, if_true, List.length_cons, Bool.false_eq_true,
        if_false] at hcount ⊢
      omega
    · exact fun d _ => iff_of_false (hnone d).2 (hnone d).1

/-- In every run of any number of threads, channels and schedulers: what the completed receives
of a channel have returned, followed by what is in its buffer, is what the completed sends
have sent, and no more sends have completed than receives have been entered. -/
theorem syncChannel_rendezvous (steps : List (SyncStep α)) (w : SyncWorld α)
    (hrun : exec step init steps = some w) (c : Nat) :
    (w.channel c).received ++ (w.channel c).buffer.toList = (w.channel c).sent ∧
      (w.channel c).sent.length ≤ (w.channel c).entered := by
  have hw : w.Rendezvous :=
    exec_invariant_always (fun _ _ _ hw hstep => hw.step (effect_of_step hstep)) rendezvous_init hrun
  refine ⟨hw.values c, ?_⟩
  obtain ⟨k, -, hsent⟩ := hw.sends c
  obtain ⟨hcount, hmatching⟩ := hw.entered c
  by_cases hm : (w.channel c).matching = true
  · have hpos := List.length_pos_iff.mpr (hmatching hm)
    rw [if_pos hm] at hcount
    omega
  · rw [if_neg hm] at hcount
    omega

/-- The value 7 goes from the thread 0 to the thread 1. -/
def handOver : List (SyncStep Nat) :=
  [.recv 1 0, .send 0 0 7, .wait 1, .wait 0, .matchSend 0, .wakeUp 0, .matchRecv 0, .wakeUp 1]

theorem syncChannel_rendezvous_handOver :
    ∃ w : SyncWorld Nat, exec step init handOver = some w ∧ (w.channel 0).received = [7] ∧
      (w.channel 0).sent.length ≤ (w.channel 0).entered :=
  ⟨_, rfl, rfl, (syncChannel_rendezvous handOver _ rfl 0).2⟩

end SyncWorld

end CoplusLean
