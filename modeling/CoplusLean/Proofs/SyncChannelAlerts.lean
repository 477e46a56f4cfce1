import CoplusLean.Proofs.SyncChannelRendezvous

/-!
# The alerts of `SyncChannel`

The scheduler removes the alerts of a pair when it notifies them and does so without
`buffer_lock`. A notification that comes before the wait is lost, and a thread that is woken
before its partner has been at the buffer waits again with its alert gone. In runs without
these two a blocked thread keeps its alert queued, and the pairs matched can complete.
-/

namespace CoplusLean

open Lib

variable {α : Type*}

/-- The thread has been woken from the wait of `operator>>` of the channel. -/
def SyncPhase.RecvWokenOn (chan : Nat) (x : SyncPhase α) : Prop := x = .recvWoken chan

def SyncPhase.isSendBlocked (chan : Nat) : SyncPhase α → Bool
  | .sendBlocked c _ => c == chan
  | _ => false

def SyncPhase.isRecvBlocked (chan : Nat) : SyncPhase α → Bool
  | .recvBlocked c => c == chan
  | _ => false

namespace SyncWorld

variable {w w' : SyncWorld α} {t c : Nat} {x : SyncPhase α}

/-- The predicate of a woken thread holds. -/
def predicate (w : SyncWorld α) (t : Nat) : Bool :=
  match w.phase t with
  | .recvWoken c => (w.channel c).buffer.isSome
  | .sendWoken c _ => (w.channel c).buffer.isNone
  | _ => true

/-- The condition on a step: the scheduler notifies threads that are blocked in their wait, and
a woken thread evaluates its predicate when it holds. -/
def NoLostAlert (w : SyncWorld α) : SyncStep α → Prop
  | .matchSend c => ∀ s ∈ (w.channel c).sendq.head?, (w.phase s).isSendBlocked c = true
  | .matchRecv c => ∀ r ∈ (w.channel c).recvq.head?, (w.phase r).isRecvBlocked c = true
  | .wakeUp t => w.predicate t = true
  | _ => True

instance (w : SyncWorld α) : DecidablePred w.NoLostAlert := fun a =>
  match a with
  | .matchSend _ => inferInstanceAs (Decidable (∀ s ∈ _, _))
  | .matchRecv _ => inferInstanceAs (Decidable (∀ r ∈ _, _))
  | .wakeUp _ => inferInstanceAs (Decidable (_ = true))
  | .recv _ _ | .send _ _ _ | .wait _ => isTrue trivial

/-- All threads woken in the channel can return from their calls. -/
def CanComplete (w : SyncWorld α) (c : Nat) : Prop :=
  ∃ (threads : List Nat) (w' : SyncWorld α), exec step w (threads.map .wakeUp) = some w' ∧
    ∀ t, (w.phase t).SendWokenOn c ∨ (w.phase t).RecvWokenOn c → w'.phase t = .idle

/-- A blocked thread still has its alert queued, and the pairs that have been removed from the
queues can complete their transfers. -/
structure NoneStranded (w : SyncWorld α) : Prop where
  recv : ∀ t c, w.phase t = .recvBlocked c → t ∈ (w.channel c).recvq
  send : ∀ t c item, w.phase t = .sendBlocked c item → t ∈ (w.channel c).sendq
  complete : ∀ c, (w.channel c).matching = false → w.CanComplete c

/-- For every woken receiver there is a woken sender or a value in the buffer. -/
def Balanced (ch : SyncChannel α) (phase : Nat → SyncPhase α) (c : Nat) : Prop :=
  ∃ s k, Census (SyncPhase.SendWokenOn c) phase s ∧ Census (SyncPhase.RecvWokenOn c) phase k ∧
    k + (if ch.matching then 1 else 0) = s + ch.buffer.toList.length

/-- The alert of every thread in a call that has not been woken is queued. -/
structure Kept (w : SyncWorld α) : Prop where
  queues : w.Queues
  send : ∀ t c, (w.phase t).SendIn c → t ∈ w.senders c
  recv : ∀ t c, (w.phase t).RecvIn c → t ∈ (w.channel c).recvq
  balanced : ∀ c, Balanced (w.channel c) w.phase c

lemma kept_init : (init : SyncWorld α).Kept where
  queues := queues_init
  send := by simp [init, SyncPhase.SendIn]
  recv := by simp [init, SyncPhase.RecvIn]
  balanced c := ⟨0, 0, census_const (by simp [SyncPhase.SendWokenOn]),
    census_const (by simp [SyncPhase.RecvWokenOn]), rfl⟩

/-- One thread changes its phase, and in one channel the numbers of woken threads change. -/
lemma Kept.of_update (hw : w.Kept) {a : SyncStep α} {ch : SyncChannel α} (heff : Effect w a w')
    (hchannel : w'.channel = Function.update w.channel c ch)
    (hphase : w'.phase = Function.update w.phase t x)
    (hsend : ∀ u d, (Function.update w.phase t x u).SendIn d → u ∈ w'.senders d)
    (hrecv : ∀ u d, (Function.update w.phase t x u).RecvIn d → u ∈ (w'.channel d).recvq)
    (hbalanced : Balanced ch (Function.update w.phase t x) c)
    (hsother : ∀ d ≠ c, x.SendWokenOn d ↔ (w.phase t).SendWokenOn d)
    (hrother : ∀ d ≠ c, x.RecvWokenOn d ↔ (w.phase t).RecvWokenOn d) : w'.Kept where
  queues := hw.queues.step heff
  send u d hu := hsend u d (hphase ▸ hu)
  recv u d hu := hrecv u d (hphase ▸ hu)
  balanced d := by
    rw [hchannel, hphase]
    by_cases hd : d = c
    · rwa [hd, Function.update_self]
    · rw [Function.update_of_ne hd]
      obtain ⟨s, k, hs, hk, hsum⟩ := hw.balanced d
      exact ⟨s, k, hs.same (hsother d hd), hk.same (hrother d hd), hsum⟩

/-- The members of the queues when a thread changes its phase. -/
lemma mem_of_update {P : SyncPhase α → Prop} {l : List Nat} {u : Nat}
    (hu : P (Function.update w.phase t x u)) (hold : u ≠ t → P (w.phase u) → u ∈ l)
    (hnew : P x → t ∈ l) : u ∈ l := by
  by_cases hut : u = t
  · subst hut
    rw [Function.update_self] at hu
    exact hnew hu
  · rw [Function.update_of_ne hut] at hu
    exact hold hut hu

lemma Balanced.same {ch ch' : SyncChannel α} {phase : Nat → SyncPhase α} (h : Balanced ch phase c)
    (hs : x.SendWokenOn c ↔ (phase t).SendWokenOn c)
    (hr : x.RecvWokenOn c ↔ (phase t).RecvWokenOn c) (hmatching : ch'.matching = ch.matching)
    (hbuffer : ch'.buffer = ch.buffer) : Balanced ch' (Function.update phase t x) c := by
  obtain ⟨s, k, hs', hk', hsum⟩ := h
  exact ⟨s, k, hs'.same hs, hk'.same hr, by rw [hmatching, hbuffer]; exact hsum⟩

/-- The phases of a thread that is not woken. -/
lemma not_woken_iff {y : SyncPhase α} (hx : ∀ d, ¬x.SendWokenOn d ∧ ¬x.RecvWokenOn d)
    (hy : ∀ d, ¬y.SendWokenOn d ∧ ¬y.RecvWokenOn d) (d : Nat) :
    (x.SendWokenOn d ↔ y.SendWokenOn d) ∧ (x.RecvWokenOn d ↔ y.RecvWokenOn d) :=
  ⟨iff_of_false (hx d).1 (hy d).1, iff_of_false (hx d).2 (hy d).2⟩

/-- A thread goes on in its call without a change of the channels. -/
lemma Kept.setPhase (hw : w.Kept) {a : SyncStep α} (heff : Effect w a (w.setPhase t x))
    (hsend : ∀ d, x.SendIn d → (w.phase t).SendIn d)
    (hrecv : ∀ d, x.RecvIn d → (w.phase t).RecvIn d)
    (hx : ∀ d, ¬x.SendWokenOn d ∧ ¬x.RecvWokenOn d)
    (ht : ∀ d, ¬(w.phase t).SendWokenOn d ∧ ¬(w.phase t).RecvWokenOn d) :
    (w.setPhase t x).Kept := by
  have hiff := not_woken_iff hx ht
  refine hw.of_update (c := 0) heff (Function.update_eq_self 0 w.channel).symm rfl ?_ ?_
    ((hw.balanced 0).same (hiff 0).1 (hiff 0).2 rfl rfl) (fun d _ => (hiff d).1)
    (fun d _ => (hiff d).2)
  · intro u d hu
    exact mem_of_update (P := (·.SendIn d)) hu (fun _ => hw.send u d)
      (fun hnew => hw.send t d (hsend d hnew))
  · intro u d hu
    exact mem_of_update (P := (·.RecvIn d)) hu (fun _ => hw.recv u d)
      (fun hnew => hw.recv t d (hrecv d hnew))

/-- A call returns: the buffer and the numbers of woken threads change. -/
lemma Kept.finish (hw : w.Kept) {a : SyncStep α} {ch : SyncChannel α}
    (heff : Effect w a ((w.setChannel c ch).setPhase t .idle))
    (hsendq : ch.sendq = (w.channel c).sendq) (hmatching : ch.matching = (w.channel c).matching)
    (hrecvq : ch.recvq = (w.channel c).recvq)
    (hbalanced : Balanced ch (Function.update w.phase t .idle) c)
    (hs : ∀ d ≠ c, ¬(w.phase t).SendWokenOn d) (hr : ∀ d ≠ c, ¬(w.phase t).RecvWokenOn d) :
    ((w.setChannel c ch).setPhase t .idle).Kept := by
  have hviews := queues_setChannel (t := t) ch hsendq hmatching hrecvq (.idle : SyncPhase α)
  refine hw.of_update heff rfl rfl ?_ ?_ hbalanced ?_ ?_
  · intro u d hu
    rw [(hviews d).1]
    exact mem_of_update (P := (·.SendIn d)) hu (fun _ => hw.send u d) (by simp [SyncPhase.SendIn])
  · intro u d hu
    rw [(hviews d).2]
    exact mem_of_update (P := (·.RecvIn d)) hu (fun _ => hw.recv u d) (by simp [SyncPhase.RecvIn])
  · exact fun d hd => iff_of_false (by simp [SyncPhase.SendWokenOn]) (hs d hd)
  · exact fun d hd => iff_of_false (by simp [SyncPhase.RecvWokenOn]) (hr d hd)

lemma idle_not_woken (d : Nat) :
    ¬(SyncPhase.idle : SyncPhase α).SendWokenOn d ∧ ¬(SyncPhase.idle : SyncPhase α).RecvWokenOn d := by
  simp [SyncPhase.SendWokenOn, SyncPhase.RecvWokenOn]

lemma Kept.recv_enter (hw : w.Kept) (hidle : w.phase t = .idle)
    (heff : Effect w (.recv t c) ((w.setChannel c { w.channel c with
      recvq := (w.channel c).recvq ++ [t]
      entered := (w.channel c).entered + 1 }).setPhase t (.recvQueued c))) :
    ((w.setChannel c { w.channel c with
      recvq := (w.channel c).recvq ++ [t]
      entered := (w.channel c).entered + 1 }).setPhase t (.recvQueued c)).Kept := by
  have hiff := not_woken_iff (x := (.recvQueued c : SyncPhase α)) (y := w.phase t)
    (by simp [SyncPhase.SendWokenOn, SyncPhase.RecvWokenOn]) (by rw [hidle]; exact idle_not_woken)
  refine hw.of_update heff rfl rfl ?_ ?_ ((hw.balanced c).same (hiff c).1 (hiff c).2 rfl rfl)
    (fun d _ => (hiff d).1) (fun d _ => (hiff d).2)
  · intro u d hu
    have hmem : u ∈ w.senders d := mem_of_update (P := (·.SendIn d)) hu (fun _ => hw.send u d)
      (by simp [SyncPhase.SendIn])
    by_cases hd : d = c
    · subst hd
      simpa [senders, setChannel, SyncWorld.setPhase] using hmem
    · simpa [senders, setChannel, SyncWorld.setPhase, hd] using hmem
  · intro u d hu
    refine mem_of_update (P := (·.RecvIn d)) hu (fun _ hold => ?_) (fun hnew => ?_)
    · have hmem := hw.recv u d hold
      by_cases hd : d = c
      · subst hd
        simp [setChannel, SyncWorld.setPhase, hmem]
      · simpa [setChannel, SyncWorld.setPhase, hd] using hmem
    · obtain rfl : c = d := by simpa [SyncPhase.RecvIn] using hnew
      simp [setChannel, SyncWorld.setPhase]

lemma Kept.send_enter (hw : w.Kept) {item : α} (hidle : w.phase t = .idle)
    (hfree : (w.channel c).matching = false)
    (heff : Effect w (.send t c item) ((w.setChannel c { w.channel c with
      sendq := (w.channel c).sendq ++ [t] }).setPhase t (.sendQueued c item))) :
    ((w.setChannel c { w.channel c with
      sendq := (w.channel c).sendq ++ [t] }).setPhase t (.sendQueued c item)).Kept := by
  have hiff := not_woken_iff (x := (.sendQueued c item : SyncPhase α)) (y := w.phase t)
    (by simp [SyncPhase.SendWokenOn, SyncPhase.RecvWokenOn]) (by rw [hidle]; exact idle_not_woken)
  refine hw.of_update heff rfl rfl ?_ ?_ ((hw.balanced c).same (hiff c).1 (hiff c).2 rfl rfl)
    (fun d _ => (hiff d).1) (fun d _ => (hiff d).2)
  · intro u d hu
    refine mem_of_update (P := (·.SendIn d)) hu (fun _ hold => ?_) (fun hnew => ?_)
    · have hmem := hw.send u d hold
      by_cases hd : d = c
      · subst hd
        simp only [senders, hfree, Bool.false_eq_true, if_false] at hmem
        simp [senders, setChannel, SyncWorld.setPhase, hfree, hmem]
      · simpa [senders, setChannel, SyncWorld.setPhase, hd] using hmem
    · obtain rfl : c = d := by simpa [SyncPhase.SendIn] using hnew
      simp [senders, setChannel, SyncWorld.setPhase, hfree]
  · intro u d hu
    have hmem : u ∈ (w.channel d).recvq := mem_of_update (P := (·.RecvIn d)) hu
      (fun _ => hw.recv u d) (by simp [SyncPhase.RecvIn])
    by_cases hd : d = c
    · subst hd
      simpa [setChannel, SyncWorld.setPhase] using hmem
    · simpa [setChannel, SyncWorld.setPhase, hd] using hmem

lemma eq_of_isSendBlocked (h : x.isSendBlocked c = true) : ∃ item, x = .sendBlocked c item := by
  cases x <;> simp [SyncPhase.isSendBlocked] at h
  exact ⟨_, by rw [h]⟩

lemma eq_of_isRecvBlocked (h : x.isRecvBlocked c = true) : x = .recvBlocked c := by
  cases x <;> simp [SyncPhase.isRecvBlocked] at h
  rw [h]

lemma Kept.matchSend (hw : w.Kept) {s : Nat} {ss : List Nat}
    (hfree : (w.channel c).matching = false) (hsendq : (w.channel c).sendq = s :: ss) {item : α}
    (hblocked : w.phase s = .sendBlocked c item)
    (heff : Effect w (.matchSend c) ((w.setChannel c { w.channel c with
      matching := true
      pairs := (w.channel c).pairs + 1 }).notifySend s)) :
    ((w.setChannel c { w.channel c with
      matching := true
      pairs := (w.channel c).pairs + 1 }).notifySend s).Kept := by
  have hviews := queues_matchSend (w := w) (c := c) hfree hsendq ((w.channel c).pairs + 1)
  have hphase : (((w.setChannel c { w.channel c with
      matching := true
      pairs := (w.channel c).pairs + 1 }).notifySend s)).phase =
      Function.update w.phase s (.sendWoken c item) := by
    rw [notifySend_eq]
    simp [setChannel, hblocked, SyncPhase.sendNotified]
  refine hw.of_update heff (by rw [notifySend_eq]; rfl) hphase ?_ ?_ ?_ ?_ ?_
  · intro u d hu
    refine mem_of_update (P := (·.SendIn d)) hu (fun hus hold => ?_) (by simp [SyncPhase.SendIn])
    have hmem := hw.send u d hold
    rw [(hviews d).2.1]
    by_cases hd : d = c
    · rw [hd, (hviews d).1, List.mem_cons] at hmem
      rw [if_pos hd]
      exact hmem.resolve_left hus
    · rwa [if_neg hd]
  · intro u d hu
    rw [(hviews d).2.2]
    exact mem_of_update (P := (·.RecvIn d)) hu (fun _ => hw.recv u d) (by simp [SyncPhase.RecvIn])
  · obtain ⟨n, k, hn, hk, hsum⟩ := hw.balanced c
    refine ⟨n + 1, k, hn.enter ?_ ⟨item, rfl⟩, hk.same ?_, ?_⟩
    · simp [hblocked, SyncPhase.SendWokenOn]
    · simp [hblocked, SyncPhase.RecvWokenOn]
    · simp only [hfree, Bool.false_eq_true, if_false, if_true] at hsum ⊢
      omega
  · intro d hd
    simp [hblocked, SyncPhase.SendWokenOn, Ne.symm hd]
  · simp [hblocked, SyncPhase.RecvWokenOn]

lemma Kept.matchRecv (hw : w.Kept) {r : Nat} {rs : List Nat}
    (hmatching : (w.channel c).matching = true) (hrecvq : (w.channel c).recvq = r :: rs)
    (hblocked : w.phase r = .recvBlocked c)
    (heff : Effect w (.matchRecv c) ((w.setChannel c { w.channel c with
      recvq := rs
      sendq := (w.channel c).sendq.tail
      matching := false }).notifyRecv r)) :
    ((w.setChannel c { w.channel c with
      recvq := rs
      sendq := (w.channel c).sendq.tail
      matching := false }).notifyRecv r).Kept := by
  have hviews := queues_matchRecv (w := w) (c := c) r rs hmatching
  have hphase : (((w.setChannel c { w.channel c with
      recvq := rs
      sendq := (w.channel c).sendq.tail
      matching := false }).notifyRecv r)).phase =
      Function.update w.phase r (.recvWoken c) := by
    rw [notifyRecv_eq]
    simp [setChannel, hblocked, SyncPhase.recvNotified]
  refine hw.of_update heff (by rw [notifyRecv_eq]; rfl) hphase ?_ ?_ ?_ ?_ ?_
  · intro u d hu
    rw [(hviews d).1]
    exact mem_of_update (P := (·.SendIn d)) hu (fun _ => hw.send u d) (by simp [SyncPhase.SendIn])
  · intro u d hu
    refine mem_of_update (P := (·.RecvIn d)) hu (fun hur hold => ?_) (by simp [SyncPhase.RecvIn])
    have hmem := hw.recv u d hold
    rw [(hviews d).2]
    by_cases hd : d = c
    · rw [hd, hrecvq, List.mem_cons] at hmem
      rw [if_pos hd]
      exact hmem.resolve_left hur
    · rwa [if_neg hd]
  · obtain ⟨n, k, hn, hk, hsum⟩ := hw.balanced c
    refine ⟨n, k + 1, hn.same ?_, hk.enter ?_ rfl, ?_⟩
    · simp [hblocked, SyncPhase.SendWokenOn]
    · simp [hblocked, SyncPhase.RecvWokenOn]
    · simp only [hmatching, Bool.false_eq_true, if_false, if_true] at hsum ⊢
      omega
  · simp [hblocked, SyncPhase.SendWokenOn]
  · intro d hd
    simp [hblocked, SyncPhase.RecvWokenOn, Ne.symm hd]

lemma Kept.recvDone (hw : w.Kept) {item : α} (hphase : w.phase t = .recvWoken c)
    (hbuffer : (w.channel c).buffer = some item)
    (heff : Effect w (.wakeUp t) ((w.setChannel c { w.channel c with
      buffer := none
      received := (w.channel c).received ++ [item] }).setPhase t .idle)) :
    ((w.setChannel c { w.channel c with
      buffer := none
      received := (w.channel c).received ++ [item] }).setPhase t .idle).Kept := by
  refine hw.finish heff rfl rfl rfl ?_ ?_ ?_
  · obtain ⟨n, k, hn, hk, hsum⟩ := hw.balanced c
    obtain ⟨m, hm, hm'⟩ := hk.leave (b := .idle) (i := t) hphase (idle_not_woken c).2
    refine ⟨n, m, hn.same ?_, hm', ?_⟩
    · simp [hphase, SyncPhase.SendWokenOn]
    · simp only [hbuffer, Option.toList_some, Option.toList_none, List.length_singleton,
        List.length_nil] at hsum ⊢
      omega
  · simp [hphase, SyncPhase.SendWokenOn]
  · intro d hd
    simp [hphase, SyncPhase.RecvWokenOn, Ne.symm hd]

lemma Kept.sendDone (hw : w.Kept) {item : α} (hphase : w.phase t = .sendWoken c item)
    (hbuffer : (w.channel c).buffer = none)
    (heff : Effect w (.wakeUp t) ((w.setChannel c { w.channel c with
      buffer := some item
      sent := (w.channel c).sent ++ [item] }).setPhase t .idle)) :
    ((w.setChannel c { w.channel c with
      buffer := some item
      sent := (w.channel c).sent ++ [item] }).setPhase t .idle).Kept := by
  refine hw.finish heff rfl rfl rfl ?_ ?_ ?_
  · obtain ⟨n, k, hn, hk, hsum⟩ := hw.balanced c
    obtain ⟨m, hm, hm'⟩ := hn.leave (b := .idle) (i := t) ⟨item, hphase⟩ (idle_not_woken c).1
    refine ⟨m, k, hm', hk.same ?_, ?_⟩
    · simp [hphase, SyncPhase.RecvWokenOn]
    · simp only [hbuffer, Option.toList_some, Option.toList_none, List.length_singleton,
        List.length_nil] at hsum ⊢
      omega
  · intro d hd
    simp [hphase, SyncPhase.SendWokenOn, Ne.symm hd]
  · simp [hphase, SyncPhase.RecvWokenOn]

lemma Kept.step {a : SyncStep α} (hw : w.Kept) (hok : w.NoLostAlert a) (heff : Effect w a w') :
    w'.Kept := by
  have heff' := heff
  cases heff with
  | recv t c hidle hfree => exact hw.recv_enter hidle heff'
  | send t c item hidle hfree => exact hw.send_enter hidle hfree heff'
  | waitRecv t c hphase =>
    apply hw.setPhase heff' <;>
      simp [hphase, SyncPhase.SendIn, SyncPhase.RecvIn, SyncPhase.SendWokenOn,
        SyncPhase.RecvWokenOn]
  | waitSend t c item hphase =>
    apply hw.setPhase heff' <;>
      simp [hphase, SyncPhase.SendIn, SyncPhase.RecvIn, SyncPhase.SendWokenOn,
        SyncPhase.RecvWokenOn]
  | recvAgain t c hphase hbuffer =>
    simp [NoLostAlert, predicate, hphase, hbuffer] at hok
  | recvDone t c item hphase hbuffer => exact hw.recvDone hphase hbuffer heff'
  | sendAgain t c item v hphase hbuffer =>
    simp [NoLostAlert, predicate, hphase, hbuffer] at hok
  | sendDone t c item hphase hbuffer => exact hw.sendDone hphase hbuffer heff'
  | matchSend c s ss hfree hsendq hrecvq =>
    obtain ⟨item, hblocked⟩ := eq_of_isSendBlocked (hok s (by simp [hsendq]))
    exact hw.matchSend hfree hsendq hblocked heff'
  | matchRecv c r rs hmatching hrecvq =>
    have hblocked := eq_of_isRecvBlocked (hok r (by simp [hrecvq]))
    exact hw.matchRecv hmatching hrecvq hblocked heff'

/-! ## The matched pairs complete -/

/-- A thread that has returned from its call stays out while others wake up. -/
lemma idle_of_wakeUps {threads : List Nat} (hidle : w.phase t = .idle)
    (hrun : exec step w (threads.map .wakeUp) = some w') : w'.phase t = .idle := by
  have halong : Along step (fun _ a => ∃ u, a = SyncStep.wakeUp u) w (threads.map .wakeUp) :=
    along_of_forall step w (by simp)
  refine exec_invariant (P := fun w : SyncWorld α => w.phase t = .idle) ?_ hidle halong hrun
  rintro s a s' hs ⟨u, rfl⟩ hstep
  have hut : t ≠ u := by
    rintro rfl
    simp [step, wakeUp, hs] at hstep
  cases effect_of_step hstep with
  | recvAgain _ c hphase hbuffer => simpa [setPhase, hut] using hs
  | recvDone _ c item hphase hbuffer => simpa [setPhase, setChannel, hut] using hs
  | sendAgain _ c item v hphase hbuffer => simpa [setPhase, hut] using hs
  | sendDone _ c item hphase hbuffer => simpa [setPhase, setChannel, hut] using hs

/-- The first thread of a completion returns and the rest completes after it. -/
lemma CanComplete.cons {ch : SyncChannel α}
    (hstep : w.step (.wakeUp t) = some ((w.setChannel c ch).setPhase t .idle))
    (h : ((w.setChannel c ch).setPhase t .idle).CanComplete c) : w.CanComplete c := by
  obtain ⟨threads, v, hrun, hdone⟩ := h
  refine ⟨t :: threads, v, by simp [hstep, hrun], fun u hu => ?_⟩
  by_cases hut : u = t
  · rw [hut]
    exact idle_of_wakeUps (by simp [setPhase]) hrun
  · exact hdone u (by simpa [setPhase, setChannel, hut] using hu)

lemma setPhase_channel (w : SyncWorld α) (ch : SyncChannel α) (x : SyncPhase α) :
    ((w.setChannel c ch).setPhase t x).channel c = ch := by
  simp [setPhase, setChannel]

/-- A woken receiver takes the value that is in the buffer. -/
lemma step_recvDone {item : α} (hphase : w.phase t = .recvWoken c)
    (hbuffer : (w.channel c).buffer = some item) :
    w.step (.wakeUp t) = some ((w.setChannel c { w.channel c with
      buffer := none
      received := (w.channel c).received ++ [item] }).setPhase t .idle) := by
  simp [step, wakeUp, hphase, hbuffer]

/-- A woken sender fills the empty buffer. -/
lemma step_sendDone {item : α} (hphase : w.phase t = .sendWoken c item)
    (hbuffer : (w.channel c).buffer = none) :
    w.step (.wakeUp t) = some ((w.setChannel c { w.channel c with
      buffer := some item
      sent := (w.channel c).sent ++ [item] }).setPhase t .idle) := by
  simp [step, wakeUp, hphase, hbuffer]

/-- The buffer is emptied by a woken receiver and filled by a woken sender in turn. The
induction is on the number of woken threads, of which each turn takes one. -/
lemma Kept.canComplete (hw : w.Kept) (hfree : (w.channel c).matching = false) :
    w.CanComplete c := by
  obtain ⟨s, k, hs, hk, hsum⟩ := hw.balanced c
  induction hn : s + k using Nat.strongRecOn generalizing w s k with
  | ind n ih =>
    rw [if_neg (by simp [hfree])] at hsum
    cases hbuffer : (w.channel c).buffer with
    | some item =>
      simp only [hbuffer, Option.toList_some, List.length_singleton] at hsum
      obtain ⟨t, ht⟩ := hk.exists_of_pos (by omega)
      have hstep := step_recvDone ht hbuffer
      apply CanComplete.cons hstep
      obtain ⟨m, rfl, hm⟩ := hk.leave (b := .idle) ht (idle_not_woken c).2
      have hkept := hw.recvDone ht hbuffer (effect_of_step hstep)
      have hsame := hs.same (i := t) (b := .idle)
        (iff_of_false (idle_not_woken c).1 (by rw [ht]; simp [SyncPhase.SendWokenOn]))
      refine ih (s + m) (by omega) hkept (by rw [setPhase_channel]; exact hfree) s m hsame hm ?_ rfl
      simp only [setPhase_channel, hfree, Bool.false_eq_true, if_false, Option.toList_none,
        List.length_nil]
      omega
    | none =>
      simp only [hbuffer, Option.toList_none, List.length_nil] at hsum
      by_cases hpos : 0 < s
      · obtain ⟨t, ht⟩ := hs.exists_of_pos hpos
        obtain ⟨item, hphase⟩ := id ht
        have hstep := step_sendDone hphase hbuffer
        apply CanComplete.cons hstep
        obtain ⟨m, rfl, hm⟩ := hs.leave (b := .idle) ht (idle_not_woken c).1
        have hkept := hw.sendDone hphase hbuffer (effect_of_step hstep)
        have hsame := hk.same (i := t) (b := .idle)
          (iff_of_false (idle_not_woken c).2 (by rw [hphase]; simp [SyncPhase.RecvWokenOn]))
        refine ih (m + k) (by omega) hkept (by rw [setPhase_channel]; exact hfree) m k hm hsame ?_ rfl
        simp only [setPhase_channel, hfree, Bool.false_eq_true, if_false, Option.toList_some,
          List.length_singleton]
        omega
      · obtain rfl : s = 0 := by omega
        obtain rfl : k = 0 := by omega
        refine ⟨[], w, rfl, fun t ht => ?_⟩
        exact (ht.elim (hs.not_of_zero t) (hk.not_of_zero t)).elim

lemma senders_subset {u : Nat} (hu : u ∈ w.senders c) : u ∈ (w.channel c).sendq := by
  unfold senders at hu
  split at hu
  · exact List.mem_of_mem_tail hu
  · exact hu

lemma Kept.noneStranded (hw : w.Kept) : w.NoneStranded where
  recv t c hphase := hw.recv t c (by simp [hphase, SyncPhase.RecvIn])
  send t c item hphase := senders_subset (hw.send t c (by simp [hphase, SyncPhase.SendIn]))
  complete _ hfree := hw.canComplete hfree

/-- In every run in which the scheduler notifies only threads that are blocked in their wait and
a woken thread finds its predicate true: a thread blocked in its wait has its alert queued, and
the pairs that have been matched are able to complete. -/
theorem syncChannel_none_stranded (steps : List (SyncStep α)) (w : SyncWorld α)
    (hrun : exec step init steps = some w) (hgood : Along step NoLostAlert init steps) :
    w.NoneStranded := by
  have hw : w.Kept := exec_invariant
    (fun _ _ _ hw hok hstep => hw.step hok (effect_of_step hstep)) kept_init hgood hrun
  exact hw.noneStranded

/-- A receiver and two senders wait before the scheduler matches a pair. -/
def waitingPair : List (SyncStep Nat) :=
  [.recv 1 0, .send 0 0 7, .send 2 0 8, .wait 1, .wait 0, .wait 2, .matchSend 0, .matchRecv 0]

theorem syncChannel_none_stranded_waitingPair :
    ∃ w, exec step init waitingPair = some w ∧ Along step NoLostAlert init waitingPair ∧
      w.NoneStranded := by
  have hgood : Along step NoLostAlert init waitingPair := by decide +kernel
  exact ⟨_, rfl, hgood, syncChannel_none_stranded waitingPair _ rfl hgood⟩

/-- The scheduler notifies the receiver before it has blocked: its alert is removed from the
queue, and the receiver waits for a notification that never comes. -/
def lostAlert : List (SyncStep Nat) :=
  [.recv 1 0, .send 0 0 7, .wait 0, .matchSend 0, .matchRecv 0, .wait 1]

theorem syncChannel_stranded_lostAlert :
    ¬∀ (steps : List (SyncStep Nat)) (w : SyncWorld Nat), exec step init steps = some w →
      w.NoneStranded := by
  intro h
  have hmem : 1 ∈ ([] : List Nat) := (h lostAlert _ rfl).recv 1 0 rfl
  simp at hmem

end SyncWorld

end CoplusLean
