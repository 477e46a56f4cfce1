import CoplusLean.Lib.Census
import CoplusLean.Lib.Run
import CoplusLean.Models.SyncChannel

/-!
# The queues of `SyncChannel`

Every step written out, and what the queues of alerts say about their owners. A thread whose
alert is queued in a channel is in a call of that channel and has not been notified, and its
alert is queued once; so although all channels share the alerts, a thread is only notified
by the scheduler of the channel it is in a call of.
-/

namespace CoplusLean

open Lib

variable {α : Type*}

/-- The thread is in `operator>>` of the channel and has not been woken. -/
def SyncPhase.RecvIn (chan : Nat) (x : SyncPhase α) : Prop :=
  x = .recvQueued chan ∨ x = .recvBlocked chan

/-- The thread is in `operator<<` of the channel and has not been woken. -/
def SyncPhase.SendIn (chan : Nat) (x : SyncPhase α) : Prop :=
  ∃ item, x = .sendQueued chan item ∨ x = .sendBlocked chan item

/-- The phase of a thread after `notify_one` on its sending alert. -/
def SyncPhase.sendNotified : SyncPhase α → SyncPhase α
  | .sendBlocked chan item => .sendWoken chan item
  | x => x

/-- The phase of a thread after `notify_one` on its receiving alert. -/
def SyncPhase.recvNotified : SyncPhase α → SyncPhase α
  | .recvBlocked chan => .recvWoken chan
  | x => x

lemma SyncPhase.SendIn.unique {c d : Nat} {x : SyncPhase α} (hc : x.SendIn c) (hd : x.SendIn d) :
    c = d := by
  obtain ⟨item, rfl | rfl⟩ := hc <;> obtain ⟨item', h | h⟩ := hd <;> cases h <;> rfl

lemma SyncPhase.RecvIn.unique {c d : Nat} {x : SyncPhase α} (hc : x.RecvIn c) (hd : x.RecvIn d) :
    c = d := by
  obtain rfl | rfl := hc <;> obtain h | h := hd <;> cases h <;> rfl

lemma SyncPhase.SendIn.not_recvIn {c d : Nat} {x : SyncPhase α} (hc : x.SendIn c) :
    ¬x.RecvIn d := by
  obtain ⟨item, rfl | rfl⟩ := hc <;> simp [SyncPhase.RecvIn]

namespace SyncWorld

variable {w w' : SyncWorld α} {t c : Nat} {x : SyncPhase α}

lemma notifySend_eq : w.notifySend t =
    { w with phase := Function.update w.phase t (w.phase t).sendNotified } := by
  cases h : w.phase t with
  | sendBlocked c item => simp only [notifySend, h, setPhase, SyncPhase.sendNotified]
  | _ =>
    simp only [notifySend, h, SyncPhase.sendNotified]
    rw [← h, Function.update_eq_self]

lemma notifyRecv_eq : w.notifyRecv t =
    { w with phase := Function.update w.phase t (w.phase t).recvNotified } := by
  cases h : w.phase t with
  | recvBlocked c => simp only [notifyRecv, h, setPhase, SyncPhase.recvNotified]
  | _ =>
    simp only [notifyRecv, h, SyncPhase.recvNotified]
    rw [← h, Function.update_eq_self]

/-- The senders of a channel that have not been notified. -/
def senders (w : SyncWorld α) (c : Nat) : List Nat :=
  if (w.channel c).matching then (w.channel c).sendq.tail else (w.channel c).sendq

inductive Effect (w : SyncWorld α) : SyncStep α → SyncWorld α → Prop
  | recv (t c : Nat) (hidle : w.phase t = .idle) (hfree : (w.channel c).matching = false) :
    Effect w (.recv t c) ((w.setChannel c { w.channel c with
      recvq := (w.channel c).recvq ++ [t]
      entered := (w.channel c).entered + 1 }).setPhase t (.recvQueued c))
  | send (t c : Nat) (item : α) (hidle : w.phase t = .idle)
      (hfree : (w.channel c).matching = false) :
    Effect w (.send t c item) ((w.setChannel c { w.channel c with
      sendq := (w.channel c).sendq ++ [t] }).setPhase t (.sendQueued c item))
  | waitRecv (t c : Nat) (hphase : w.phase t = .recvQueued c) :
    Effect w (.wait t) (w.setPhase t (.recvBlocked c))
  | waitSend (t c : Nat) (item : α) (hphase : w.phase t = .sendQueued c item) :
    Effect w (.wait t) (w.setPhase t (.sendBlocked c item))
  | recvAgain (t c : Nat) (hphase : w.phase t = .recvWoken c)
      (hbuffer : (w.channel c).buffer = none) :
    Effect w (.wakeUp t) (w.setPhase t (.recvBlocked c))
  | recvDone (t c : Nat) (item : α) (hphase : w.phase t = .recvWoken c)
      (hbuffer : (w.channel c).buffer = some item) :
    Effect w (.wakeUp t) ((w.setChannel c { w.channel c with
      buffer := none
      received := (w.channel c).received ++ [item] }).setPhase t .idle)
  | sendAgain (t c : Nat) (item v : α) (hphase : w.phase t = .sendWoken c item)
      (hbuffer : (w.channel c).buffer = some v) :
    Effect w (.wakeUp t) (w.setPhase t (.sendBlocked c item))
  | sendDone (t c : Nat) (item : α) (hphase : w.phase t = .sendWoken c item)
      (hbuffer : (w.channel c).buffer = none) :
    Effect w (.wakeUp t) ((w.setChannel c { w.channel c with
      buffer := some item
      sent := (w.channel c).sent ++ [item] }).setPhase t .idle)
  | matchSend (c s : Nat) (ss : List Nat) (hfree : (w.channel c).matching = false)
      (hsendq : (w.channel c).sendq = s :: ss) (hrecvq : (w.channel c).recvq ≠ []) :
    Effect w (.matchSend c) ((w.setChannel c { w.channel c with
      matching := true
      pairs := (w.channel c).pairs + 1 }).notifySend s)
  | matchRecv (c r : Nat) (rs : List Nat) (hmatching : (w.channel c).matching = true)
      (hrecvq : (w.channel c).recvq = r :: rs) :
    Effect w (.matchRecv c) ((w.setChannel c { w.channel c with
      recvq := rs
      sendq := (w.channel c).sendq.tail
      matching := false }).notifyRecv r)

lemma effect_of_step {a : SyncStep α} (hstep : w.step a = some w') : Effect w a w' := by
  cases a with
  | recv t c =>
    simp only [step] at hstep
    split at hstep
    case h_1 hidle hfree =>
      cases hstep
      exact .recv t c hidle hfree
    case h_2 => cases hstep
  | send t c item =>
    simp only [step] at hstep
    split at hstep
    case h_1 hidle hfree =>
      cases hstep
      exact .send t c item hidle hfree
    case h_2 => cases hstep
  | wait t =>
    simp only [step, wait] at hstep
    split at hstep
    case h_1 c hphase =>
      cases hstep
      exact .waitRecv t c hphase
    case h_2 c item hphase =>
      cases hstep
      exact .waitSend t c item hphase
    case h_3 => cases hstep
  | wakeUp t =>
    simp only [step, wakeUp] at hstep
    split at hstep
    case h_1 c hphase =>
      split at hstep
      case h_1 hbuffer =>
        cases hstep
        exact .recvAgain t c hphase hbuffer
      case h_2 item hbuffer =>
        cases hstep
        exact .recvDone t c item hphase hbuffer
    case h_2 c item hphase =>
      split at hstep
      case h_1 v hbuffer =>
        cases hstep
        exact .sendAgain t c item v hphase hbuffer
      case h_2 hbuffer =>
        cases hstep
        exact .sendDone t c item hphase hbuffer
    case h_3 => cases hstep
  | matchSend c =>
    simp only [step, matchSend] at hstep
    split at hstep
    case h_1 s ss r rs hfree hsendq hrecvq =>
      cases hstep
      exact .matchSend c s ss hfree hsendq (by simp [hrecvq])
    case h_2 => cases hstep
  | matchRecv c =>
    simp only [step, matchRecv] at hstep
    split at hstep
    case h_1 r rs hmatching hrecvq =>
      cases hstep
      exact .matchRecv c r rs hmatching hrecvq
    case h_2 => cases hstep

/-- What the queues say about the threads whose alerts they hold. -/
structure Queues (w : SyncWorld α) : Prop where
  send : ∀ c, ∀ t ∈ w.senders c, (w.phase t).SendIn c
  recv : ∀ c, ∀ t ∈ (w.channel c).recvq, (w.phase t).RecvIn c
  send_nodup : ∀ c, (w.senders c).Nodup
  recv_nodup : ∀ c, (w.channel c).recvq.Nodup

lemma queues_init : (init : SyncWorld α).Queues := by
  constructor <;> simp [init, senders]

/-- A thread changes its phase and no queue changes. -/
lemma Queues.of_phase (hw : w.Queues) (hphase : w'.phase = Function.update w.phase t x)
    (hsenders : ∀ c, w'.senders c = w.senders c)
    (hrecvq : ∀ c, (w'.channel c).recvq = (w.channel c).recvq)
    (hsend : ∀ c, (w.phase t).SendIn c → x.SendIn c)
    (hrecv : ∀ c, (w.phase t).RecvIn c → x.RecvIn c) : w'.Queues where
  send c u hu := by
    rw [hsenders] at hu
    rw [hphase]
    by_cases hut : u = t
    · rw [hut, Function.update_self]
      exact hsend c (hut ▸ hw.send c u hu)
    · rw [Function.update_of_ne hut]
      exact hw.send c u hu
  recv c u hu := by
    rw [hrecvq] at hu
    rw [hphase]
    by_cases hut : u = t
    · rw [hut, Function.update_self]
      exact hrecv c (hut ▸ hw.recv c u hu)
    · rw [Function.update_of_ne hut]
      exact hw.recv c u hu
  send_nodup c := hsenders c ▸ hw.send_nodup c
  recv_nodup c := hrecvq c ▸ hw.recv_nodup c

/-- A channel is changed apart from its queues. -/
lemma queues_setChannel (ch : SyncChannel α) (hsendq : ch.sendq = (w.channel c).sendq)
    (hmatching : ch.matching = (w.channel c).matching) (hrecvq : ch.recvq = (w.channel c).recvq)
    (x : SyncPhase α) (d : Nat) :
    ((w.setChannel c ch).setPhase t x).senders d = w.senders d ∧
      (((w.setChannel c ch).setPhase t x).channel d).recvq = (w.channel d).recvq := by
  by_cases hd : d = c
  · subst hd
    simp [senders, setChannel, setPhase, hsendq, hmatching, hrecvq]
  · simp [senders, setChannel, setPhase, hd]

lemma nodup_concat {l : List Nat} (hl : l.Nodup) (ht : t ∉ l) (P : Prop) [Decidable P] :
    (l ++ if P then [t] else []).Nodup := by
  by_cases hP : P
  · rw [if_pos hP, List.nodup_append]
    refine ⟨hl, List.nodup_singleton t, ?_⟩
    rintro a ha b hb rfl
    rw [List.mem_singleton.mp hb] at ha
    exact ht ha
  · rwa [if_neg hP, List.append_nil]

lemma mem_concat {l : List Nat} {u : Nat} {P : Prop} [Decidable P]
    (hu : u ∈ l ++ if P then [t] else []) : u ∈ l ∨ (u = t ∧ P) := by
  by_cases hP : P
  · simpa [hP] using hu
  · exact Or.inl (by simpa [hP] using hu)

/-- An idle thread begins a call and queues its alert. -/
lemma Queues.enter (hw : w.Queues) (hidle : w.phase t = .idle)
    (hphase : w'.phase = Function.update w.phase t x) {S R : Nat → Prop} [DecidablePred S]
    [DecidablePred R] (hsenders : ∀ d, w'.senders d = w.senders d ++ if S d then [t] else [])
    (hrecvq : ∀ d, (w'.channel d).recvq = (w.channel d).recvq ++ if R d then [t] else [])
    (hS : ∀ d, S d → x.SendIn d) (hR : ∀ d, R d → x.RecvIn d) : w'.Queues := by
  have hsend : ∀ d, t ∉ w.senders d := by
    intro d hd
    have := hw.send d t hd
    simp [hidle, SyncPhase.SendIn] at this
  have hrecv : ∀ d, t ∉ (w.channel d).recvq := by
    intro d hd
    have := hw.recv d t hd
    simp [hidle, SyncPhase.RecvIn] at this
  refine ⟨fun d u hu => ?_, fun d u hu => ?_, fun d => ?_, fun d => ?_⟩
  · rw [hsenders] at hu
    rw [hphase]
    rcases mem_concat hu with hmem | ⟨rfl, hd⟩
    · have hut : u ≠ t := fun h => hsend d (h ▸ hmem)
      rw [Function.update_of_ne hut]
      exact hw.send d u hmem
    · rw [Function.update_self]
      exact hS d hd
  · rw [hrecvq] at hu
    rw [hphase]
    rcases mem_concat hu with hmem | ⟨rfl, hd⟩
    · have hut : u ≠ t := fun h => hrecv d (h ▸ hmem)
      rw [Function.update_of_ne hut]
      exact hw.recv d u hmem
    · rw [Function.update_self]
      exact hR d hd
  · rw [hsenders]
    exact nodup_concat (hw.send_nodup d) (hsend d) _
  · rw [hrecvq]
    exact nodup_concat (hw.recv_nodup d) (hrecv d) _

/-- A thread is notified and its alert is removed. -/
lemma Queues.remove (hw : w.Queues) (hphase : w'.phase = Function.update w.phase t x)
    (hsenders : ∀ d, (w'.senders d).Sublist (w.senders d) ∧ t ∉ w'.senders d)
    (hrecvq : ∀ d, (w'.channel d).recvq.Sublist (w.channel d).recvq ∧ t ∉ (w'.channel d).recvq) :
    w'.Queues := by
  refine ⟨fun d u hu => ?_, fun d u hu => ?_, fun d => ?_, fun d => ?_⟩
  · have hut : u ≠ t := fun h => (hsenders d).2 (h ▸ hu)
    rw [hphase, Function.update_of_ne hut]
    exact hw.send d u ((hsenders d).1.subset hu)
  · have hut : u ≠ t := fun h => (hrecvq d).2 (h ▸ hu)
    rw [hphase, Function.update_of_ne hut]
    exact hw.recv d u ((hrecvq d).1.subset hu)
  · exact (hw.send_nodup d).sublist (hsenders d).1
  · exact (hw.recv_nodup d).sublist (hrecvq d).1

/-- The queues after the scheduler of `c` has notified the first sender. -/
lemma queues_matchSend {s : Nat} {ss : List Nat} (hfree : (w.channel c).matching = false)
    (hsendq : (w.channel c).sendq = s :: ss) (n d : Nat) :
    w.senders c = s :: ss ∧
    ((w.setChannel c { w.channel c with matching := true, pairs := n }).notifySend s).senders d =
      (if d = c then ss else w.senders d) ∧
    (((w.setChannel c { w.channel c with
      matching := true, pairs := n }).notifySend s).channel d).recvq = (w.channel d).recvq := by
  rw [notifySend_eq]
  refine ⟨by simp [senders, hfree, hsendq], ?_⟩
  by_cases hd : d = c
  · subst hd
    simp [senders, setChannel, hsendq]
  · simp [senders, setChannel, hd]

/-- The queues after the scheduler of `c` has notified the first receiver. -/
lemma queues_matchRecv (r : Nat) (rs : List Nat) (hmatching : (w.channel c).matching = true)
    (d : Nat) :
    ((w.setChannel c { w.channel c with
      recvq := rs
      sendq := (w.channel c).sendq.tail
      matching := false }).notifyRecv r).senders d = w.senders d ∧
    (((w.setChannel c { w.channel c with
      recvq := rs
      sendq := (w.channel c).sendq.tail
      matching := false }).notifyRecv r).channel d).recvq =
      (if d = c then rs else (w.channel d).recvq) := by
  rw [notifyRecv_eq]
  by_cases hd : d = c
  · subst hd
    simp [senders, setChannel, hmatching]
  · simp [senders, setChannel, hd]

lemma Queues.matchSend (hw : w.Queues) {s : Nat} {ss : List Nat}
    (hfree : (w.channel c).matching = false) (hsendq : (w.channel c).sendq = s :: ss) (n : Nat) :
    ((w.setChannel c { w.channel c with matching := true, pairs := n }).notifySend s).Queues := by
  have hviews := queues_matchSend (w := w) (c := c) hfree hsendq n
  have hold := (hviews c).1
  have hs : (w.phase s).SendIn c := hw.send c s (by simp [hold])
  have hnodup := hw.send_nodup c
  rw [hold, List.nodup_cons] at hnodup
  refine hw.remove (t := s) (x := (w.phase s).sendNotified) (by rw [notifySend_eq]; rfl)
    (fun d => ?_) (fun d => ?_)
  · rw [(hviews d).2.1]
    by_cases hd : d = c
    · rw [if_pos hd, hd, hold]
      exact ⟨List.sublist_cons_self s ss, hnodup.1⟩
    · rw [if_neg hd]
      exact ⟨List.Sublist.refl _, fun h => hd ((hw.send d s h).unique hs)⟩
  · rw [(hviews d).2.2]
    exact ⟨List.Sublist.refl _, fun h => hs.not_recvIn (hw.recv d s h)⟩

lemma Queues.matchRecv (hw : w.Queues) {r : Nat} {rs : List Nat}
    (hmatching : (w.channel c).matching = true) (hrecvq : (w.channel c).recvq = r :: rs) :
    ((w.setChannel c { w.channel c with
      recvq := rs
      sendq := (w.channel c).sendq.tail
      matching := false }).notifyRecv r).Queues := by
  have hviews := queues_matchRecv (w := w) (c := c) r rs hmatching
  have hr : (w.phase r).RecvIn c := hw.recv c r (by simp [hrecvq])
  have hnodup := hw.recv_nodup c
  rw [hrecvq, List.nodup_cons] at hnodup
  refine hw.remove (t := r) (x := (w.phase r).recvNotified) (by rw [notifyRecv_eq]; rfl)
    (fun d => ?_) (fun d => ?_)
  · rw [(hviews d).1]
    exact ⟨List.Sublist.refl _, fun h => (hw.send d r h).not_recvIn hr⟩
  · rw [(hviews d).2]
    by_cases hd : d = c
    · rw [if_pos hd, hd, hrecvq]
      exact ⟨List.sublist_cons_self r rs, hnodup.1⟩
    · rw [if_neg hd]
      exact ⟨List.Sublist.refl _, fun h => hd ((hw.recv d r h).unique hr)⟩

lemma Queues.step {a : SyncStep α} (hw : w.Queues) (h : Effect w a w') : w'.Queues := by
  cases h with
  | recv t c hidle hfree =>
    refine hw.enter hidle (S := fun _ => False) (R := (· = c)) rfl (fun d => ?_) (fun d => ?_)
      (by simp) (by rintro d rfl; exact Or.inl rfl)
    · by_cases hd : d = c
      · subst hd
        simp [senders, setChannel, setPhase]
      · simp [senders, setChannel, setPhase, hd]
    · by_cases hd : d = c
      · subst hd
        simp [setChannel, setPhase]
      · simp [setChannel, setPhase, hd]
  | send t c item hidle hfree =>
    refine hw.enter hidle (S := (· = c)) (R := fun _ => False) rfl (fun d => ?_) (fun d => ?_)
      (by rintro d rfl; exact ⟨item, Or.inl rfl⟩) (by simp)
    · by_cases hd : d = c
      · subst hd
        simp [senders, setChannel, setPhase, hfree]
      · simp [senders, setChannel, setPhase, hd]
    · by_cases hd : d = c
      · subst hd
        simp [setChannel, setPhase]
      · simp [setChannel, setPhase, hd]
  | waitRecv t c hphase =>
    refine hw.of_phase rfl (fun _ => rfl) (fun _ => rfl) ?_ ?_
    · simp [hphase, SyncPhase.SendIn]
    · simp [hphase, SyncPhase.RecvIn]
  | waitSend t c item hphase =>
    refine hw.of_phase rfl (fun _ => rfl) (fun _ => rfl) ?_ ?_
    · simp [hphase, SyncPhase.SendIn]
    · simp [hphase, SyncPhase.RecvIn]
  | recvAgain t c hphase hbuffer =>
    refine hw.of_phase rfl (fun _ => rfl) (fun _ => rfl) ?_ ?_
    · simp [hphase, SyncPhase.SendIn]
    · simp [hphase, SyncPhase.RecvIn]
  | recvDone t c item hphase hbuffer =>
    have hviews := queues_setChannel (w := w) (t := t) (c := c)
      { w.channel c with buffer := none, received := (w.channel c).received ++ [item] }
      rfl rfl rfl .idle
    refine hw.of_phase rfl (fun d => (hviews d).1) (fun d => (hviews d).2) ?_ ?_
    · simp [hphase, SyncPhase.SendIn]
    · simp [hphase, SyncPhase.RecvIn]
  | sendAgain t c item v hphase hbuffer =>
    refine hw.of_phase rfl (fun _ => rfl) (fun _ => rfl) ?_ ?_
    · simp [hphase, SyncPhase.SendIn]
    · simp [hphase, SyncPhase.RecvIn]
  | sendDone t c item hphase hbuffer =>
    have hviews := queues_setChannel (w := w) (t := t) (c := c)
      { w.channel c with buffer := some item, sent := (w.channel c).sent ++ [item] }
      rfl rfl rfl .idle
    refine hw.of_phase rfl (fun d => (hviews d).1) (fun d => (hviews d).2) ?_ ?_
    · simp [hphase, SyncPhase.SendIn]
    · simp [hphase, SyncPhase.RecvIn]
  | matchSend c s ss hfree hsendq hrecvq => exact hw.matchSend hfree hsendq _
  | matchRecv c r rs hmatching hrecvq => exact hw.matchRecv hmatching hrecvq

end SyncWorld

end CoplusLean
