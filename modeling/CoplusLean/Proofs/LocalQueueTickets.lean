import CoplusLean.Proofs.LocalQueue
import CoplusLean.Proofs.LocalQueueGates

/-!
# Tickets and values of `FastLocalQueue` with one producer

With one producer the pushes are numbered in the order of their completion. A pop reads the
cell of its ticket some time after drawing it, and `head_` counts completed pops whatever
their tickets, so the room check of `push` does not tell whether the cell it admits the
push to has been read. In runs where that cell has been read, every pop returns the value
of the push with its own ticket.
-/

namespace CoplusLean

open Lib

variable {α : Type*}

namespace LocalWorld

/-- Pushes begin on the thread `p` only. -/
def FromProducer (p : Nat) : ThreadStep α → Prop
  | .push t _ => t = p
  | _ => True

instance (p : Nat) : DecidablePred (FromProducer (α := α) p)
  | .push t _ => inferInstanceAs (Decidable (t = p))
  | .pop _ => isTrue trivial
  | .advance _ => isTrue trivial

/-- The condition on a step. A push that stores to its cell finds it already read: no consumer
holds the ticket `n` places before that of the push without having read. And the test of `pop`
is made within the range that the code assumes. -/
def CellVacated (n : Nat) (w : LocalWorld α) : ThreadStep α → Prop
  | .advance t =>
    match w.phase t with
    | .pushTicket _ ticket => ∀ s k, w.phase s = .popTicket k → k + n ≠ ticket
    | .popDrawn deqRevoke deq => deq ≤ deqRevoke + w.queue.tail + 2147483648
    | _ => True
  | _ => True

/-- Each pop returned the value of the push with its ticket, no ticket was used twice, and
a value that was pushed and not popped is being returned or still in its cell. -/
structure Matched (n : Nat) (w : LocalWorld α) : Prop where
  popped_pushed : ∀ k v, (k, v) ∈ w.popped → (k, v) ∈ w.pushed
  pushed_once : (w.pushed.map Prod.fst).Nodup
  popped_once : (w.popped.map Prod.fst).Nodup
  kept : ∀ k v, (k, v) ∈ w.pushed → k ∉ w.popped.map Prod.fst →
    (∃ t, w.phase t = .popRead k v) ∨ w.queue.data (FastLocalQueue.load k % n) = v

end LocalWorld

/-! ## The producer -/

def Lib.Stage.drawnCount : Stage → Nat
  | .out => 0
  | .loaded _ => 0
  | _ => 1

def Lib.Stage.passedCount : Stage → Nat
  | .admitted => 1
  | .working => 1
  | _ => 0

def Lib.Stage.takenCount : Stage → Nat
  | .working => 1
  | _ => 0

namespace LocalWorld

variable {n p t : Nat} {w w' : LocalWorld α}

/-- The counters of the enqueue side follow the phase of the only producer. -/
structure ProducerView (p : Nat) (w : LocalWorld α) : Prop where
  solo : ∀ t, t ≠ p → (w.phase t).pushStage = .out
  enqueueCount : w.queue.enqueueCount =
    w.queue.enqueueRevoke + w.queue.tail + (w.phase p).pushStage.drawnCount
  tailFast : w.queue.tailFast = w.queue.tail + (w.phase p).pushStage.takenCount
  loaded : ∀ r, (w.phase p).pushStage = .loaded r → r = w.queue.enqueueRevoke
  drawn : ∀ r e, (w.phase p).pushStage = .drawn r e →
    r = w.queue.enqueueRevoke ∧ e = w.queue.enqueueCount
  ticket : ∀ item k, w.phase p = .pushTicket item k ∨ w.phase p = .pushWritten item k →
    k = w.queue.tail
  pushed : w.pushed.map Prod.fst = List.range w.queue.tail

lemma producerView_init [Inhabited α] : (init : LocalWorld α).ProducerView p := by
  constructor <;> simp [init, FastLocalQueue.new, Phase.pushStage, Stage.drawnCount,
    Stage.takenCount]

/-- A step outside `push` leaves the enqueue side and the completed pushes alone. -/
lemma advance_of_out (hout : (w.phase t).pushStage = .out) (hstep : w.advance n t = some w') :
    ∃ x : Phase α, w'.phase = Function.update w.phase t x ∧ x.pushStage = .out ∧
      w'.queue.enqueueCount = w.queue.enqueueCount ∧
      w'.queue.enqueueRevoke = w.queue.enqueueRevoke ∧
      w'.queue.tailFast = w.queue.tailFast ∧ w'.queue.tail = w.queue.tail ∧
      w'.queue.data = w.queue.data ∧ w'.pushed = w.pushed := by
  cases hphase : w.phase t <;> simp only [hphase, Phase.pushStage, reduceCtorEq] at hout <;>
    simp only [LocalWorld.advance, hphase, move, reduceCtorEq, Option.some.injEq] at hstep
  case popDrawn r d =>
    split at hstep
    all_goals
      cases hstep
      exact ⟨_, rfl, rfl, rfl, rfl, rfl, rfl, rfl, rfl⟩
  all_goals
    subst hstep
    exact ⟨_, rfl, rfl, rfl, rfl, rfl, rfl, rfl, rfl⟩

lemma ProducerView.of_out (hw : w.ProducerView p) {x : Phase α}
    (hphase : w'.phase = Function.update w.phase t x)
    (hold : (w.phase t).pushStage = .out) (hnew : x.pushStage = .out)
    (henq : w'.queue.enqueueCount = w.queue.enqueueCount)
    (hrev : w'.queue.enqueueRevoke = w.queue.enqueueRevoke)
    (hfast : w'.queue.tailFast = w.queue.tailFast) (htail : w'.queue.tail = w.queue.tail)
    (hpushed : w'.pushed = w.pushed) : w'.ProducerView p := by
  have hsame : ∀ s, (w'.phase s).pushStage = (w.phase s).pushStage := by
    intro s
    rw [hphase]
    by_cases hs : s = t
    · subst hs
      rw [Function.update_self, hnew, hold]
    · rw [Function.update_of_ne hs]
  constructor
  · intro s hs
    rw [hsame, hw.solo s hs]
  · simpa only [hsame, henq, hrev, htail] using hw.enqueueCount
  · simpa only [hsame, hfast, htail] using hw.tailFast
  · simpa only [hsame, hrev] using hw.loaded
  · simpa only [hsame, hrev, henq] using hw.drawn
  · intro item k hk
    rw [htail]
    rw [hphase] at hk
    by_cases hp : p = t
    · subst hp
      simp only [Function.update_self] at hk
      rcases hk with rfl | rfl <;> simp [Phase.pushStage] at hnew
    · simp only [Function.update_of_ne hp] at hk
      exact hw.ticket item k hk
  · rw [hpushed, htail, hw.pushed]

lemma ProducerView.of_push (hw : w.ProducerView p) {x : Phase α} {q : FastLocalQueue α}
    {pushed popped : List (Nat × α)}
    (hcount : q.enqueueCount = q.enqueueRevoke + q.tail + x.pushStage.drawnCount)
    (hfast : q.tailFast = q.tail + x.pushStage.takenCount)
    (hloaded : ∀ r, x.pushStage = .loaded r → r = q.enqueueRevoke)
    (hdrawn : ∀ r e, x.pushStage = .drawn r e → r = q.enqueueRevoke ∧ e = q.enqueueCount)
    (hticket : ∀ item k, x = .pushTicket item k ∨ x = .pushWritten item k → k = q.tail)
    (hpushed : pushed.map Prod.fst = List.range q.tail) :
    ProducerView p ⟨q, Function.update w.phase p x, pushed, popped⟩ := by
  constructor <;> simp only [Function.update_self]
  · intro t ht
    rw [Function.update_of_ne ht]
    exact hw.solo t ht
  · exact hcount
  · exact hfast
  · exact hloaded
  · exact hdrawn
  · exact hticket
  · exact hpushed

lemma ProducerView.eq_producer (hw : w.ProducerView p) (h : (w.phase t).pushStage ≠ .out) :
    t = p := by
  by_contra hne
  exact h (hw.solo t hne)

lemma ProducerView.advance (hw : w.ProducerView p) (hstep : w.advance n t = some w') :
    w'.ProducerView p := by
  have hcount := hw.enqueueCount
  have hfast := hw.tailFast
  have hloaded := hw.loaded
  have hticket := hw.ticket
  by_cases hout : (w.phase t).pushStage = .out
  · obtain ⟨x, hphase, hnew, henq, hrev, hfast', htail, -, hpushed⟩ := advance_of_out hout hstep
    exact hw.of_out hphase hout hnew henq hrev hfast' htail hpushed
  · obtain rfl := hw.eq_producer hout
    cases hphase : w.phase t <;> rw [hphase] at hout hcount hfast hloaded hticket <;>
      simp only [LocalWorld.advance, hphase, move, reduceCtorEq, Option.some.injEq] at hstep <;>
      simp only [Phase.pushStage, not_true_eq_false] at hout
    case pushLoaded item r =>
      subst hstep
      simp only [Phase.pushStage, Stage.drawnCount, Stage.takenCount] at hcount hfast
      apply hw.of_push <;>
        simp [Phase.pushStage, Stage.drawnCount, Stage.takenCount, hw.pushed, hfast]
      · omega
      · exact hloaded r rfl
    case pushDrawn item r e =>
      split at hstep
      all_goals
        cases hstep
        simp only [Phase.pushStage, Stage.drawnCount, Stage.takenCount] at hcount hfast
        apply hw.of_push <;>
          simp [Phase.pushStage, Stage.drawnCount, Stage.takenCount, hw.pushed, hfast, hcount]
    case pushRefused e =>
      subst hstep
      simp only [Phase.pushStage, Stage.drawnCount, Stage.takenCount] at hcount hfast
      apply hw.of_push <;>
        simp [Phase.pushStage, Stage.drawnCount, Stage.takenCount, hw.pushed, hfast]
      omega
    case pushAdmitted item e =>
      subst hstep
      simp only [Phase.pushStage, Stage.drawnCount, Stage.takenCount] at hcount hfast
      apply hw.of_push <;>
        simp [Phase.pushStage, Stage.drawnCount, Stage.takenCount, hw.pushed, hfast, hcount]
    case pushTicket item k =>
      subst hstep
      simp only [Phase.pushStage, Stage.drawnCount, Stage.takenCount] at hcount hfast
      apply hw.of_push <;>
        simp [Phase.pushStage, Stage.drawnCount, Stage.takenCount, hw.pushed, hfast, hcount]
      exact hticket item k (Or.inl rfl)
    case pushWritten item k =>
      subst hstep
      simp only [Phase.pushStage, Stage.drawnCount, Stage.takenCount] at hcount hfast
      apply hw.of_push <;>
        simp [Phase.pushStage, Stage.drawnCount, Stage.takenCount, hw.pushed, hfast]
      · omega
      · rw [List.range_succ, hticket item k (Or.inr rfl)]

lemma ProducerView.step {a : ThreadStep α} (hw : w.ProducerView p) (hok : FromProducer p a)
    (hstep : w.step n a = some w') : w'.ProducerView p := by
  cases a with
  | push t item =>
    obtain rfl : t = p := hok
    obtain ⟨hidle, rfl⟩ := idle_of_begin_push hstep
    have hcount := hw.enqueueCount
    have hfast := hw.tailFast
    rw [hidle] at hcount hfast
    simp only [Phase.pushStage, Stage.drawnCount, Stage.takenCount] at hcount hfast
    apply hw.of_push <;>
      simp [Phase.pushStage, Stage.drawnCount, Stage.takenCount, hw.pushed, hfast, hcount]
  | pop t =>
    obtain ⟨hidle, rfl⟩ := idle_of_begin_pop hstep
    exact hw.of_out rfl (by simp [hidle, Phase.pushStage]) rfl rfl rfl rfl rfl rfl
  | advance t => exact hw.advance hstep

end LocalWorld

/-! ## The consumers -/

/-- The ticket of a push that is about to store. -/
def Phase.storing : Phase α → Option Nat
  | .pushTicket _ ticket => some ticket
  | _ => none

/-- The ticket of a pop that has not returned yet. -/
def Phase.place : Phase α → Option Nat
  | .popTicket k => some k
  | .popRead k _ => some k
  | _ => none

namespace LocalWorld

variable {n p t : Nat} {w w' : LocalWorld α}

/-- Each ticket drawn from `head_fast_` belongs to one pop, under way or returned. -/
def Ledgered (w : LocalWorld α) : Prop :=
  PlaceLedger w.queue.headFast (Phase.place ∘ w.phase) (w.popped.map Prod.fst)

lemma Ledgered.of_stay (hw : w.Ledgered) {x : Phase α} {q : FastLocalQueue α}
    {pushed : List (Nat × α)} (hx : (w.phase t).place = x.place)
    (hfast : q.headFast = w.queue.headFast) :
    Ledgered ⟨q, Function.update w.phase t x, pushed, w.popped⟩ := by
  unfold Ledgered
  rw [Function.comp_update, hfast]
  exact PlaceLedger.stay hw hx

lemma Ledgered.advance (hw : w.Ledgered) (hstep : w.advance n t = some w') : w'.Ledgered := by
  cases hphase : w.phase t <;>
    simp only [LocalWorld.advance, hphase, move, reduceCtorEq, Option.some.injEq] at hstep
  case popAdmitted d =>
    subst hstep
    have htake := PlaceLedger.take hw (i := t) (by simp [hphase, Phase.place])
    unfold Ledgered
    rw [Function.comp_update]
    exact htake
  case popRead k v =>
    subst hstep
    have hdone := PlaceLedger.finish hw (i := t) (k := k) (by simp [hphase, Phase.place])
    unfold Ledgered
    rw [Function.comp_update, List.map_append]
    exact hdone
  case pushDrawn item r e =>
    split at hstep
    all_goals
      cases hstep
      exact hw.of_stay (by rw [hphase]; rfl) rfl
  case popDrawn r d =>
    split at hstep
    all_goals
      cases hstep
      exact hw.of_stay (by rw [hphase]; rfl) rfl
  all_goals
    subst hstep
    exact hw.of_stay (by rw [hphase]; rfl) rfl

lemma Ledgered.step {a : ThreadStep α} (hw : w.Ledgered) (hstep : w.step n a = some w') :
    w'.Ledgered := by
  cases a with
  | push t item =>
    obtain ⟨hidle, rfl⟩ := idle_of_begin_push hstep
    exact hw.of_stay (by rw [hidle]; rfl) rfl
  | pop t =>
    obtain ⟨hidle, rfl⟩ := idle_of_begin_pop hstep
    exact hw.of_stay (by rw [hidle]; rfl) rfl
  | advance t => exact hw.advance hstep

end LocalWorld

/-! ## The cells -/

/-- The producer has written the cell of its ticket and not completed the push. -/
def Phase.writtenCount : Phase α → Nat
  | .pushWritten _ _ => 1
  | _ => 0

namespace LocalWorld

variable {n p t : Nat} {w w' : LocalWorld α}

/-- What the cells hold. The last `n` values written are in their cells, and a ticket that
was drawn and not read is among the last `n`, also counting a push already admitted. -/
structure Cells (n p : Nat) (w : LocalWorld α) : Prop where
  stored : ∀ k v, (k, v) ∈ w.pushed → w.queue.tail + (w.phase p).writtenCount ≤ k + n →
    w.queue.data (FastLocalQueue.load k % n) = v
  writing : ∀ item k, w.phase p = .pushWritten item k →
    w.queue.data (FastLocalQueue.load k % n) = item
  unread : ∀ t k, w.phase t = .popTicket k → w.queue.tail + (w.phase p).writtenCount ≤ k + n
  reading : ∀ t k v, w.phase t = .popRead k v → (k, v) ∈ w.pushed
  popped : ∀ x ∈ w.popped, x ∈ w.pushed

lemma cells_init [Inhabited α] : (init : LocalWorld α).Cells n p := by
  constructor <;> simp [init]

/-- Every admitted push, completed or not, is within the capacity. -/
lemma passed_le (hg : w.Gated n) (hv : w.ProducerView p) :
    w.queue.tail + (w.phase p).pushStage.passedCount ≤ w.queue.head + n := by
  have hfast := hg.enqueue.fast_le
  have htail := hv.tailFast
  cases hstage : (w.phase p).pushStage <;> rw [hstage] at htail <;>
    simp only [Stage.takenCount, Stage.passedCount] at htail ⊢
  case admitted =>
    have := hg.enqueue.fast_lt (i := p) hstage
    omega
  all_goals omega

lemma written_le_passed (x : Phase α) : x.writtenCount ≤ x.pushStage.passedCount := by
  cases x <;> simp [Phase.writtenCount, Phase.pushStage, Stage.passedCount]

lemma ProducerView.lt_tail (hv : w.ProducerView p) {k : Nat} {v : α} (hk : (k, v) ∈ w.pushed) :
    k < w.queue.tail := by
  rw [← List.mem_range, ← hv.pushed]
  exact List.mem_map_of_mem hk

lemma ProducerView.mem_pushed (hv : w.ProducerView p) {k : Nat} (hk : k < w.queue.tail) :
    ∃ v, (k, v) ∈ w.pushed := by
  rw [← List.mem_range, ← hv.pushed] at hk
  obtain ⟨⟨k', v⟩, hmem, rfl⟩ := List.mem_map.mp hk
  exact ⟨v, hmem⟩

lemma ProducerView.nodup (hv : w.ProducerView p) : (w.pushed.map Prod.fst).Nodup := by
  rw [hv.pushed]
  exact List.nodup_range

lemma ProducerView.unique (hv : w.ProducerView p) {k : Nat} {u v : α}
    (hu : (k, u) ∈ w.pushed) (hv' : (k, v) ∈ w.pushed) : u = v := by
  have := List.inj_on_of_nodup_map hv.nodup hu hv' rfl
  simpa using this

/-- The read of a pop finds the value of the push with its ticket. -/
lemma Cells.read (hc : w.Cells n p) (hg : w.Gated n) (hv : w.ProducerView p) (hl : w.Ledgered)
    {k : Nat} (hk : w.phase t = .popTicket k) :
    (k, w.queue.data (FastLocalQueue.load k % n)) ∈ w.pushed := by
  have hlt : k < w.queue.headFast := hl.held_lt t k (by simp [hk, Phase.place])
  obtain ⟨v, hmem⟩ := hv.mem_pushed (hlt.trans_le hg.dequeue.fast_le)
  rw [hc.stored k v hmem (hc.unread t k hk)]
  exact hmem

lemma Cells.of_out (hc : w.Cells n p) {x : Phase α}
    (hphase : w'.phase = Function.update w.phase t x)
    (hold : (w.phase t).pushStage = .out) (hnew : x.pushStage = .out)
    (htail : w'.queue.tail = w.queue.tail) (hdata : w'.queue.data = w.queue.data)
    (hpushed : w'.pushed = w.pushed)
    (hunread : ∀ k, x = .popTicket k → w.queue.tail + (w.phase p).writtenCount ≤ k + n)
    (hreading : ∀ k v, x = .popRead k v → (k, v) ∈ w.pushed)
    (hpopped : ∀ y ∈ w'.popped, y ∈ w.pushed) : w'.Cells n p := by
  have hcount : (w'.phase p).writtenCount = (w.phase p).writtenCount := by
    rw [hphase]
    by_cases hp : p = t
    · subst hp
      rw [Function.update_self]
      have h1 := written_le_passed x
      have h2 := written_le_passed (w.phase p)
      rw [hnew, Stage.passedCount] at h1
      rw [hold, Stage.passedCount] at h2
      · omega
      all_goals simp
    · rw [Function.update_of_ne hp]
  constructor
  · rw [hpushed, htail, hdata, hcount]
    exact hc.stored
  · intro item k hk
    rw [hdata]
    apply hc.writing item k
    rw [hphase] at hk
    by_cases hp : p = t
    · subst hp
      rw [Function.update_self] at hk
      simp [hk, Phase.pushStage] at hnew
    · rwa [Function.update_of_ne hp] at hk
  · intro s k hk
    rw [htail, hcount]
    rw [hphase] at hk
    by_cases hs : s = t
    · subst hs
      exact hunread k (by simpa using hk)
    · exact hc.unread s k (by simpa [hs] using hk)
  · intro s k v hk
    rw [hpushed]
    rw [hphase] at hk
    by_cases hs : s = t
    · subst hs
      exact hreading k v (by simpa using hk)
    · exact hc.reading s k v (by simpa [hs] using hk)
  · rw [hpushed]
    exact hpopped

lemma Cells.of_push (hc : w.Cells n p) {x : Phase α} {q : FastLocalQueue α}
    {pushed : List (Nat × α)} (hx : x.place = none)
    (hstored : ∀ k v, (k, v) ∈ pushed → q.tail + x.writtenCount ≤ k + n →
      q.data (FastLocalQueue.load k % n) = v)
    (hwriting : ∀ item k, x = .pushWritten item k → q.data (FastLocalQueue.load k % n) = item)
    (hunread : ∀ s k, w.phase s = .popTicket k → q.tail + x.writtenCount ≤ k + n)
    (hsub : ∀ y ∈ w.pushed, y ∈ pushed) :
    Cells n p ⟨q, Function.update w.phase p x, pushed, w.popped⟩ := by
  have hother : ∀ s y, Function.update w.phase p x s = y → y.place ≠ none → w.phase s = y := by
    intro s y hy hplace
    by_cases hs : s = p
    · subst hs
      rw [Function.update_self] at hy
      rw [← hy] at hplace
      exact absurd hx hplace
    · rwa [Function.update_of_ne hs] at hy
  constructor <;> simp only [Function.update_self]
  · exact hstored
  · exact hwriting
  · intro s k hk
    exact hunread s k (hother s _ hk (by simp [Phase.place]))
  · intro s k v hk
    exact hsub _ (hc.reading s k v (hother s _ hk (by simp [Phase.place])))
  · intro y hy
    exact hsub y (hc.popped y hy)

/-- Writing the cell of the ticket `tail` spares the cells of the last `n - 1` values. -/
lemma Cells.stored_write (hn : FastLocalQueue.SlotSize n) (hc : w.Cells n p)
    (hv : w.ProducerView p) {item : α} (hp : w.phase p = .pushTicket item w.queue.tail) :
    ∀ k v, (k, v) ∈ w.pushed → w.queue.tail + 1 ≤ k + n →
      Function.update w.queue.data (FastLocalQueue.load w.queue.tail % n) item
        (FastLocalQueue.load k % n) = v := by
  intro k v hmem hle
  have hlt := hv.lt_tail hmem
  have hcell : FastLocalQueue.load k % n ≠ FastLocalQueue.load w.queue.tail % n := by
    rw [FastLocalQueue.load_mod hn, FastLocalQueue.load_mod hn]
    intro heq
    obtain ⟨m, hm⟩ := (Nat.modEq_iff_dvd' hlt.le).mp heq
    have hm0 : 0 < m := Nat.pos_of_ne_zero (by rintro rfl; omega)
    have := Nat.le_mul_of_pos_right n hm0
    omega
  rw [Function.update_of_ne hcell]
  exact hc.stored k v hmem (by simp only [hp, Phase.writtenCount]; omega)

lemma Cells.advance_push (hn : FastLocalQueue.SlotSize n) (hc : w.Cells n p)
    (hv : w.ProducerView p) (hok : w.CellVacated n (.advance p))
    (hpush : (w.phase p).pushStage ≠ .out) (hstep : w.advance n p = some w') :
    w'.Cells n p := by
  have hstored := hc.stored
  have hwriting := hc.writing
  have hunread := hc.unread
  have hticket := hv.ticket
  cases hphase : w.phase p <;>
    rw [hphase] at hpush hstored hwriting hunread hticket <;>
    simp only [Phase.pushStage, ne_eq, not_true_eq_false] at hpush <;>
    simp only [Phase.writtenCount] at hstored hunread <;>
    simp only [LocalWorld.advance, hphase, move, Option.some.injEq] at hstep
  case pushDrawn item r e =>
    split at hstep
    all_goals
      cases hstep
      exact hc.of_push rfl hstored (by simp) hunread (fun _ h => h)
  case pushTicket item k =>
    subst hstep
    obtain rfl := hticket item k (Or.inl rfl)
    simp only [CellVacated, hphase] at hok
    apply hc.of_push rfl (hc.stored_write hn hv hphase) _ _ (fun _ h => h)
    · rintro item' k' hk
      cases hk
      exact Function.update_self ..
    · -- the cell that is written now is that of the ticket `n` places before
      intro s k hk
      have hle := hunread s k hk
      have hne := hok s k hk
      simp only [Phase.writtenCount]
      omega
  case pushWritten item k =>
    subst hstep
    obtain rfl := hticket item k (Or.inr rfl)
    apply hc.of_push rfl _ (by simp) hunread (fun _ h => List.mem_append_left _ h)
    intro k v hmem hle
    rcases List.mem_append.mp hmem with hmem | hmem
    · exact hstored k v hmem hle
    · obtain ⟨rfl, rfl⟩ : k = w.queue.tail ∧ v = item := by simpa using hmem
      exact hwriting v _ rfl
  all_goals
    subst hstep
    exact hc.of_push rfl hstored (by simp) hunread (fun _ h => h)

lemma Cells.advance_out (hc : w.Cells n p) (hg : w.Gated n) (hv : w.ProducerView p)
    (hl : w.Ledgered) (hout : (w.phase t).pushStage = .out) (hstep : w.advance n t = some w') :
    w'.Cells n p := by
  have hout' := hout
  cases hphase : w.phase t <;> simp only [hphase, Phase.pushStage, reduceCtorEq] at hout' <;>
    simp only [LocalWorld.advance, hphase, move, reduceCtorEq, Option.some.injEq] at hstep
  case popDrawn r d =>
    split at hstep
    all_goals
      cases hstep
      exact hc.of_out rfl hout rfl rfl rfl rfl (by simp) (by simp) hc.popped
  case popAdmitted d =>
    subst hstep
    refine hc.of_out rfl hout rfl rfl rfl rfl ?_ (by simp) hc.popped
    rintro k hk
    cases hk
    have hpassed := passed_le hg hv
    have hwritten := written_le_passed (w.phase p)
    have hslow := hg.dequeue.slow_le
    omega
  case popTicket k =>
    subst hstep
    refine hc.of_out rfl hout rfl rfl rfl rfl (by simp) ?_ hc.popped
    rintro k' v hk
    cases hk
    exact hc.read hg hv hl hphase
  case popRead k v =>
    subst hstep
    refine hc.of_out rfl hout rfl rfl rfl rfl (by simp) (by simp) ?_
    intro y hy
    rcases List.mem_append.mp hy with hy | hy
    · exact hc.popped y hy
    · rw [List.mem_singleton.mp hy]
      exact hc.reading t k v hphase
  all_goals
    subst hstep
    exact hc.of_out rfl hout rfl rfl rfl rfl (by simp) (by simp) hc.popped

lemma Cells.step (hn : FastLocalQueue.SlotSize n) {a : ThreadStep α} (hc : w.Cells n p)
    (hg : w.Gated n) (hv : w.ProducerView p) (hl : w.Ledgered) (hfrom : FromProducer p a)
    (hok : w.CellVacated n a) (hstep : w.step n a = some w') : w'.Cells n p := by
  cases a with
  | push t item =>
    obtain rfl : t = p := hfrom
    obtain ⟨hidle, rfl⟩ := idle_of_begin_push hstep
    have hstored := hc.stored
    have hunread := hc.unread
    rw [hidle] at hstored hunread
    exact hc.of_push rfl hstored (by simp) hunread (fun _ h => h)
  | pop t =>
    obtain ⟨hidle, rfl⟩ := idle_of_begin_pop hstep
    exact hc.of_out rfl (by simp [hidle, Phase.pushStage]) rfl rfl rfl rfl (by simp) (by simp)
      hc.popped
  | advance t =>
    by_cases hout : (w.phase t).pushStage = .out
    · exact hc.advance_out hg hv hl hout hstep
    · obtain rfl := hv.eq_producer hout
      exact hc.advance_push hn hv hok hout hstep

/-! ## Whole runs -/

/-- The invariant of a run with the producer `p`. -/
structure Ticketed (n p : Nat) (w : LocalWorld α) : Prop where
  gated : w.Gated n
  producer : w.ProducerView p
  ledgered : w.Ledgered
  cells : w.Cells n p

lemma ticketed_init [Inhabited α] : (init : LocalWorld α).Ticketed n p :=
  ⟨gated_init, producerView_init, placeLedger_init, cells_init⟩

/-- With one producer the difference in the room check is at most `n + 1`. -/
lemma Ticketed.hazardless (hn : FastLocalQueue.SlotSize n) (hw : w.Ticketed n p)
    {a : ThreadStep α} (hok : w.CellVacated n a) : w.Hazardless a := by
  cases a with
  | push t item => exact trivial
  | pop t => exact trivial
  | advance t =>
    cases hphase : w.phase t <;> simp only [Hazardless, InRange, CellVacated, hphase] at hok ⊢
    case popDrawn r d => exact hok
    case pushDrawn item r e =>
      obtain rfl : t = p := hw.producer.eq_producer (by simp [hphase, Phase.pushStage])
      have hstage : (w.phase t).pushStage = .drawn r e := by rw [hphase, Phase.pushStage]
      obtain ⟨rfl, rfl⟩ := hw.producer.drawn r e hstage
      have hcount := hw.producer.enqueueCount
      rw [hstage, Stage.drawnCount] at hcount
      · have hle := hw.gated.counters_ordered
        have hlt := hn.lt
        omega
      all_goals simp

lemma Ticketed.step (hn : FastLocalQueue.SlotSize n) {a : ThreadStep α} (hw : w.Ticketed n p)
    (hfrom : FromProducer p a) (hok : w.CellVacated n a) (hstep : w.step n a = some w') :
    w'.Ticketed n p where
  gated := hw.gated.step (hw.hazardless hn hok) hstep
  producer := hw.producer.step hfrom hstep
  ledgered := hw.ledgered.step hstep
  cells := hw.cells.step hn hw.gated hw.producer hw.ledgered hfrom hok hstep

lemma Ticketed.matched (hw : w.Ticketed n p) : w.Matched n where
  popped_pushed := fun k v hk => hw.cells.popped (k, v) hk
  pushed_once := hw.producer.nodup
  popped_once := hw.ledgered.nodup
  kept := by
    intro k v hmem hnot
    have hwritten := written_le_passed (w.phase p)
    by_cases hdrawn : k < w.queue.headFast
    · rcases hw.ledgered.covered k hdrawn with hdone | ⟨t, ht⟩
      · exact absurd hdone hnot
      · simp only [Function.comp_apply] at ht
        cases hphase : w.phase t <;>
          simp only [hphase, Phase.place, reduceCtorEq, Option.some.injEq] at ht
        case popTicket k' =>
          subst ht
          exact Or.inr (hw.cells.stored k' v hmem (hw.cells.unread t k' hphase))
        case popRead k' v' =>
          subst ht
          have hsame := hw.producer.unique (hw.cells.reading t k' v' hphase) hmem
          exact Or.inl ⟨t, by rw [hphase, hsame]⟩
    · have hpassed := passed_le hw.gated hw.producer
      have hslow := hw.gated.dequeue.slow_le
      exact Or.inr (hw.cells.stored k v hmem (by omega))

/-- In every interleaving with one producer in which a push stores only to a cell that has been
read, pops and pushes of equal ticket carry equal values, and none is lost. -/
theorem localQueue_matches [Inhabited α] (p : Nat) (steps : List (ThreadStep α))
    (w : LocalWorld α) (hone : ∀ a ∈ steps, FromProducer p a)
    (hok : Along (step kLocalQueueSize) (CellVacated kLocalQueueSize) init steps)
    (hrun : exec (step kLocalQueueSize) init steps = some w) : w.Matched kLocalQueueSize := by
  have hn := FastLocalQueue.slotSize_kLocalQueueSize
  have hgood := (along_of_forall (step kLocalQueueSize) init hone).and hok
  have hw : w.Ticketed kLocalQueueSize p :=
    exec_invariant (fun _ _ _ hw hc hs => hw.step hn hc.1 hc.2 hs) ticketed_init hgood hrun
  exact hw.matched

/-- The cell that a push stores to is used for the first time. -/
def FirstUse (n : Nat) (w : LocalWorld α) : ThreadStep α → Prop
  | .advance t => ∀ ticket ∈ (w.phase t).storing, ticket < n
  | _ => True

instance (n : Nat) (w : LocalWorld α) : DecidablePred (w.FirstUse n)
  | .advance _ => inferInstanceAs (Decidable (∀ ticket ∈ Phase.storing _, _))
  | .push _ _ | .pop _ => isTrue trivial

/-- Until the cells are reused the condition is about the range of the tests only. -/
lemma cellVacated_of_firstUse {a : ThreadStep α} (hfirst : w.FirstUse n a)
    (hok : w.Hazardless a) : w.CellVacated n a := by
  cases a with
  | push t item => exact trivial
  | pop t => exact trivial
  | advance t =>
    cases hphase : w.phase t <;> simp only [Hazardless, InRange, CellVacated, hphase] at hok ⊢
    case popDrawn r d => exact hok
    case pushTicket item k =>
      intro s j _
      have hlt : k < n := hfirst k (by rw [hphase]; rfl)
      omega

/-- A whole call: its first step and `count` more. -/
def call (first : ThreadStep α) (thread count : Nat) : List (ThreadStep α) :=
  first :: List.replicate count (.advance thread)

def ThreadStep.thread : ThreadStep α → Nat
  | .push t _ | .pop t | .advance t => t

lemma phase_of_step {a : ThreadStep α} (hstep : w.step n a = some w') {s : Nat}
    (hs : s ≠ ThreadStep.thread a) : w'.phase s = w.phase s := by
  cases a with
  | push t item =>
    obtain ⟨-, rfl⟩ := idle_of_begin_push hstep
    exact Function.update_of_ne hs ..
  | pop t =>
    obtain ⟨-, rfl⟩ := idle_of_begin_pop hstep
    exact Function.update_of_ne hs ..
  | advance t =>
    simp only [LocalWorld.step, LocalWorld.advance] at hstep
    split at hstep <;> (try split at hstep) <;>
      simp only [reduceCtorEq, Option.some.injEq] at hstep <;> subst hstep <;>
        exact Function.update_of_ne hs ..

/-- As `CellVacated`, for the consumers among the first `m` threads. -/
def VacatedBelow (m n : Nat) (w : LocalWorld α) : ThreadStep α → Prop
  | .advance t => w.Hazardless (.advance t) ∧ ∀ ticket ∈ (w.phase t).storing, ∀ s < m,
      ∀ k ∈ (w.phase s).place, k + n ≠ ticket
  | _ => True

instance (m n : Nat) (w : LocalWorld α) : DecidablePred (w.VacatedBelow m n)
  | .advance _ => inferInstanceAs (Decidable (_ ∧ ∀ ticket ∈ Phase.storing _, ∀ s < m,
      ∀ k ∈ Phase.place _, _))
  | .push _ _ | .pop _ => isTrue trivial

/-- Only threads that make a step have to be looked at. -/
lemma along_cellVacated {m : Nat} {steps : List (ThreadStep α)}
    (hthreads : ∀ a ∈ steps, ThreadStep.thread a < m) (hidle : ∀ s, m ≤ s → w.phase s = .idle)
    (hok : Along (step n) (VacatedBelow m n) w steps) :
    Along (step n) (CellVacated n) w steps := by
  induction steps generalizing w with
  | nil => exact trivial
  | cons a steps ih =>
    refine ⟨?_, fun u hu => ih (fun b hb => hthreads b (List.mem_cons_of_mem a hb)) ?_ (hok.2 u hu)⟩
    · cases a with
      | push t item => exact trivial
      | pop t => exact trivial
      | advance t =>
        obtain ⟨hrange, hcell⟩ := hok.1
        cases hphase : w.phase t <;> simp only [Hazardless, InRange, CellVacated, hphase] at hrange ⊢
        case popDrawn r d => exact hrange
        case pushTicket item ticket =>
          intro s k hk
          refine hcell ticket (by rw [hphase]; rfl) s ?_ k (by rw [hk]; rfl)
          by_contra hs
          rw [hidle s (not_lt.1 hs)] at hk
          cases hk
    · intro s hs
      have ha := hthreads a List.mem_cons_self
      rw [phase_of_step hu (by omega), hidle s hs]

/-- The thread 0 fills the queue, the thread 1 pops the first value, the thread 2 has drawn the
ticket of the second when the cell of the first is used again. -/
def usedAgain : List (ThreadStep Nat) :=
  (List.range 32).flatMap (fun i => call (.push 0 i) 0 5) ++ call (.pop 1) 1 5 ++
    call (.pop 2) 2 3 ++ call (.push 0 100) 0 5 ++ [.advance 2, .advance 2]

set_option maxRecDepth 4000 in
theorem localQueue_matches_usedAgain :
    ∃ w : LocalWorld Nat, exec (step kLocalQueueSize) init usedAgain = some w ∧
      w.popped = [(0, 0), (1, 1)] ∧ (32, 100) ∈ w.pushed ∧ w.Matched kLocalQueueSize := by
  have hrun : ((exec (step kLocalQueueSize) init usedAgain).map fun w =>
      (w.popped, decide ((32, 100) ∈ w.pushed))) = some ([(0, 0), (1, 1)], true) := by
    decide +kernel
  obtain ⟨w, hw, hlogs⟩ := Option.map_eq_some_iff.mp hrun
  simp only [Prod.mk.injEq, decide_eq_true_eq] at hlogs
  have hvacated : Along (step kLocalQueueSize) (VacatedBelow 3 kLocalQueueSize) init usedAgain := by
    decide +kernel
  refine ⟨w, hw, hlogs.1, hlogs.2, localQueue_matches 0 usedAgain w (by decide +kernel) ?_ hw⟩
  exact along_cellVacated (by decide +kernel) (fun s _ => rfl) hvacated

/-- The thread 1 draws the ticket 0 of a full queue and stops before its read; the thread 2
pops the ticket 1 and the producer is admitted to the cell that is still unread. -/
def overtaken : List (ThreadStep Nat) :=
  (List.range 32).flatMap (fun i => call (.push 0 i) 0 5) ++ call (.pop 1) 1 3 ++
    call (.pop 2) 2 5 ++ call (.push 0 100) 0 5 ++ [.advance 1, .advance 1]

set_option maxRecDepth 4000 in
theorem localQueue_mismatch_overtaken :
    ¬∀ (p : Nat) (steps : List (ThreadStep Nat)) (w : LocalWorld Nat),
      (∀ a ∈ steps, FromProducer p a) → exec (step kLocalQueueSize) init steps = some w →
        w.Matched kLocalQueueSize := by
  intro h
  have hrun : ((exec (step kLocalQueueSize) init overtaken).map fun w =>
      (decide ((0, 100) ∈ w.popped), decide ((0, 100) ∈ w.pushed))) = some (true, false) := by
    decide +kernel
  obtain ⟨w, hw, hlogs⟩ := Option.map_eq_some_iff.mp hrun
  simp only [Prod.mk.injEq, decide_eq_true_eq, decide_eq_false_iff_not] at hlogs
  have hone : ∀ a ∈ overtaken, FromProducer 0 a := by
    decide +kernel
  exact hlogs.2 ((h 0 overtaken w hone hw).popped_pushed 0 100 hlogs.1)

end LocalWorld

end CoplusLean
