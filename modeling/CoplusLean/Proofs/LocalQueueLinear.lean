import CoplusLean.Lib.Linearizability
import CoplusLean.Proofs.LocalQueue
import CoplusLean.Proofs.LocalQueueGates

/-!
# `FastLocalQueue` with one producer and one consumer

With a single thread at either end the queue is linearizable to a bounded FIFO, however often
the `uint32_t` counters have wrapped. A push takes effect when it counts itself in `tail_`, a
pop when it counts itself in `head_`, and a call that is refused at its test.
-/

namespace CoplusLean

open Lib

inductive QueueOp (α : Type*) where
  | push (item : α)
  | pop
deriving DecidableEq, Repr

/-- What a call returns; for `pop` also the value it has stored in `ret`. -/
inductive QueueResult (α : Type*) where
  | pushed (ok : Bool)
  | popped (ret : Option α)
deriving DecidableEq, Repr

/-- The FIFO of a capacity, one operation at a time. -/
def boundedFifo {α : Type*} (capacity : Nat) (fifo : List α) :
    QueueOp α → QueueResult α × List α
  | .push item =>
    if fifo.length < capacity then (.pushed true, fifo ++ [item]) else (.pushed false, fifo)
  | .pop => (.popped fifo.head?, fifo.tail)

/-- The queue with the history of the calls and returns its clients see. -/
structure ObservedWorld (α : Type*) where
  world : LocalWorld α
  history : List (Mark Nat (QueueOp α) (QueueResult α))

namespace ObservedWorld

variable {α : Type*} {n p c t : Nat} {w w' : ObservedWorld α}

def init [Inhabited α] : ObservedWorld α := ⟨.init, []⟩

/-- The call or return that a step shows to its client. -/
def shown (w : LocalWorld α) : ThreadStep α → List (Mark Nat (QueueOp α) (QueueResult α))
  | .push t item => [.call t (.push item)]
  | .pop t => [.call t .pop]
  | .advance t =>
    match w.phase t with
    | .pushRefused _ => [.ret t (.pushed false)]
    | .pushWritten _ _ => [.ret t (.pushed true)]
    | .popRefused _ => [.ret t (.popped none)]
    | .popRead _ ret => [.ret t (.popped (some ret))]
    | _ => []

def step (queueSize : Nat) (w : ObservedWorld α) (a : ThreadStep α) : Option (ObservedWorld α) :=
  (w.world.step queueSize a).map fun v => ⟨v, w.history ++ shown w.world a⟩

/-- Only the thread `p` pushes and only the thread `c` pops. -/
def FromPair (p c : Nat) : ThreadStep α → Prop
  | .push t _ => t = p
  | .pop t => t = c
  | .advance _ => True

instance (p c : Nat) : DecidablePred (FromPair p c : ThreadStep α → Prop)
  | .push _ _ => inferInstanceAs (Decidable (_ = _))
  | .pop _ => inferInstanceAs (Decidable (_ = _))
  | .advance _ => isTrue trivial

/-- Where the producer stands: its own counters and the state of its operation. -/
inductive ProducerAt (n : Nat) (q : FastLocalQueue α) :
    Phase α → Pending (QueueOp α) (QueueResult α) → Prop
  | idle (hcount : q.enqueueCount = q.enqueueRevoke + q.tail) (hfast : q.tailFast = q.tail) :
    ProducerAt n q .idle .none
  | loaded (item : α) (hcount : q.enqueueCount = q.enqueueRevoke + q.tail)
      (hfast : q.tailFast = q.tail) :
    ProducerAt n q (.pushLoaded item q.enqueueRevoke) (.called (.push item))
  | drawn (item : α) (hcount : q.enqueueCount = q.enqueueRevoke + q.tail + 1)
      (hfast : q.tailFast = q.tail) :
    ProducerAt n q (.pushDrawn item q.enqueueRevoke q.enqueueCount) (.called (.push item))
  | refused (e : Nat) (hcount : q.enqueueCount = q.enqueueRevoke + q.tail + 1)
      (hfast : q.tailFast = q.tail) :
    ProducerAt n q (.pushRefused e) (.effected (.pushed false))
  | admitted (item : α) (e : Nat) (hcount : q.enqueueCount = q.enqueueRevoke + q.tail + 1)
      (hfast : q.tailFast = q.tail) (hroom : q.tail < q.head + n) :
    ProducerAt n q (.pushAdmitted item e) (.called (.push item))
  | ticket (item : α) (hcount : q.enqueueCount = q.enqueueRevoke + q.tail + 1)
      (hfast : q.tailFast = q.tail + 1) (hroom : q.tail < q.head + n) :
    ProducerAt n q (.pushTicket item q.tail) (.called (.push item))
  | written (item : α) (hcount : q.enqueueCount = q.enqueueRevoke + q.tail + 1)
      (hfast : q.tailFast = q.tail + 1) (hroom : q.tail < q.head + n)
      (hcell : q.data (q.tail % n) = item) :
    ProducerAt n q (.pushWritten item q.tail) (.called (.push item))

/-- Where the consumer stands. -/
inductive ConsumerAt (n : Nat) (q : FastLocalQueue α) :
    Phase α → Pending (QueueOp α) (QueueResult α) → Prop
  | idle (hcount : q.dequeueCount = q.dequeueRevoke + q.head) (hfast : q.headFast = q.head) :
    ConsumerAt n q .idle .none
  | loaded (hcount : q.dequeueCount = q.dequeueRevoke + q.head) (hfast : q.headFast = q.head) :
    ConsumerAt n q (.popLoaded q.dequeueRevoke) (.called .pop)
  | drawn (hcount : q.dequeueCount = q.dequeueRevoke + q.head + 1)
      (hfast : q.headFast = q.head) :
    ConsumerAt n q (.popDrawn q.dequeueRevoke q.dequeueCount) (.called .pop)
  | refused (d : Nat) (hcount : q.dequeueCount = q.dequeueRevoke + q.head + 1)
      (hfast : q.headFast = q.head) :
    ConsumerAt n q (.popRefused d) (.effected (.popped none))
  | admitted (d : Nat) (hcount : q.dequeueCount = q.dequeueRevoke + q.head + 1)
      (hfast : q.headFast = q.head) (hitem : q.head < q.tail) :
    ConsumerAt n q (.popAdmitted d) (.called .pop)
  | ticket (hcount : q.dequeueCount = q.dequeueRevoke + q.head + 1)
      (hfast : q.headFast = q.head + 1) (hitem : q.head < q.tail) :
    ConsumerAt n q (.popTicket q.head) (.called .pop)
  | read (hcount : q.dequeueCount = q.dequeueRevoke + q.head + 1)
      (hfast : q.headFast = q.head + 1) (hitem : q.head < q.tail) :
    ConsumerAt n q (.popRead q.head (q.data (q.head % n))) (.called .pop)

/-- The queue is the FIFO of its contents, and nobody else is in a call. -/
structure Paired (n p c : Nat) (w : LocalWorld α)
    (pending : Nat → Pending (QueueOp α) (QueueResult α)) : Prop where
  head_le : w.queue.head ≤ w.queue.tail
  tail_le : w.queue.tail ≤ w.queue.head + n
  producer : ProducerAt n w.queue (w.phase p) (pending p)
  consumer : ConsumerAt n w.queue (w.phase c) (pending c)
  others : ∀ t, t ≠ p → t ≠ c → w.phase t = .idle

def Linear (n p c : Nat) (w : ObservedWorld α) : Prop :=
  ∃ pending, Paired n p c w.world pending ∧
    LinearizedTo (boundedFifo n) [] w.history (w.world.queue.contents n) pending

lemma linear_init [Inhabited α] : (init : ObservedWorld α).Linear n p c := by
  refine ⟨fun _ => .none, ⟨le_rfl, Nat.zero_le _, .idle rfl rfl, .idle rfl rfl, fun _ _ _ => rfl⟩, ?_⟩
  have hempty : (init : ObservedWorld α).world.queue.contents n = [] :=
    FastLocalQueue.contents_new
  rw [hempty]
  exact .start

/-- The producer sees of the consumer that the head moves on. -/
lemma ProducerAt.frame {q q' : FastLocalQueue α} {x : Phase α}
    {o : Pending (QueueOp α) (QueueResult α)} (h : ProducerAt n q x o)
    (hcount : q'.enqueueCount = q.enqueueCount) (hrevoke : q'.enqueueRevoke = q.enqueueRevoke)
    (hfast : q'.tailFast = q.tailFast) (htail : q'.tail = q.tail) (hdata : q'.data = q.data)
    (hhead : q.head ≤ q'.head) : ProducerAt n q' x o := by
  cases h with
  | idle h1 h2 => exact .idle (by omega) (by omega)
  | loaded item h1 h2 => exact hrevoke ▸ .loaded item (by omega) (by omega)
  | drawn item h1 h2 => exact hrevoke ▸ hcount ▸ .drawn item (by omega) (by omega)
  | refused e h1 h2 => exact .refused e (by omega) (by omega)
  | admitted item e h1 h2 h3 => exact .admitted item e (by omega) (by omega) (by omega)
  | ticket item h1 h2 h3 => exact htail ▸ .ticket item (by omega) (by omega) (by omega)
  | written item h1 h2 h3 h4 =>
    exact htail ▸ .written item (by omega) (by omega) (by omega) (by rw [hdata, htail, h4])

/-- The consumer sees of the producer that the tail moves on; the cell it reads is not
written meanwhile. -/
lemma ConsumerAt.frame {q q' : FastLocalQueue α} {x : Phase α}
    {o : Pending (QueueOp α) (QueueResult α)} (h : ConsumerAt n q x o)
    (hcount : q'.dequeueCount = q.dequeueCount) (hrevoke : q'.dequeueRevoke = q.dequeueRevoke)
    (hfast : q'.headFast = q.headFast) (hhead : q'.head = q.head)
    (hdata : q.head < q.tail → q'.data (q.head % n) = q.data (q.head % n))
    (htail : q.tail ≤ q'.tail) : ConsumerAt n q' x o := by
  cases h with
  | idle h1 h2 => exact .idle (by omega) (by omega)
  | loaded h1 h2 => exact hrevoke ▸ .loaded (by omega) (by omega)
  | drawn h1 h2 => exact hrevoke ▸ hcount ▸ .drawn (by omega) (by omega)
  | refused d h1 h2 => exact .refused d (by omega) (by omega)
  | admitted d h1 h2 h3 => exact .admitted d (by omega) (by omega) (by omega)
  | ticket h1 h2 h3 => exact hhead ▸ .ticket (by omega) (by omega) (by omega)
  | read h1 h2 h3 =>
    have hread : ConsumerAt n q' (.popRead q'.head (q'.data (q'.head % n))) (.called .pop) :=
      .read (by omega) (by omega) (by omega)
    rwa [hhead, hdata h3] at hread

variable {v : LocalWorld α} {pending : Nat → Pending (QueueOp α) (QueueResult α)}

lemma Paired.of_producer (hv : Paired n p c v pending) (hpc : p ≠ c) {q : FastLocalQueue α}
    {x : Phase α} {o : Pending (QueueOp α) (QueueResult α)} {pushed popped : List (Nat × α)}
    (hcount : q.dequeueCount = v.queue.dequeueCount)
    (hrevoke : q.dequeueRevoke = v.queue.dequeueRevoke) (hfast : q.headFast = v.queue.headFast)
    (hhead : q.head = v.queue.head)
    (hdata : v.queue.head < v.queue.tail →
      q.data (v.queue.head % n) = v.queue.data (v.queue.head % n))
    (htail : v.queue.tail ≤ q.tail) (hroom : q.tail ≤ q.head + n) (hx : ProducerAt n q x o) :
    Paired n p c ⟨q, Function.update v.phase p x, pushed, popped⟩
      (Function.update pending p o) where
  head_le := by
    have := hv.head_le
    simp only
    omega
  tail_le := hroom
  producer := by simpa only [Function.update_self] using hx
  consumer := by
    simp only [Function.update_of_ne hpc.symm]
    exact hv.consumer.frame hcount hrevoke hfast hhead hdata htail
  others t hp hc := by
    simp only [Function.update_of_ne hp]
    exact hv.others t hp hc

lemma Paired.of_consumer (hv : Paired n p c v pending) (hpc : p ≠ c) {q : FastLocalQueue α}
    {x : Phase α} {o : Pending (QueueOp α) (QueueResult α)} {pushed popped : List (Nat × α)}
    (hcount : q.enqueueCount = v.queue.enqueueCount)
    (hrevoke : q.enqueueRevoke = v.queue.enqueueRevoke) (hfast : q.tailFast = v.queue.tailFast)
    (htail : q.tail = v.queue.tail) (hdata : q.data = v.queue.data)
    (hhead : v.queue.head ≤ q.head) (hitem : q.head ≤ q.tail) (hx : ConsumerAt n q x o) :
    Paired n p c ⟨q, Function.update v.phase c x, pushed, popped⟩
      (Function.update pending c o) where
  head_le := hitem
  tail_le := by
    have := hv.tail_le
    simp only
    omega
  producer := by
    simp only [Function.update_of_ne hpc]
    exact hv.producer.frame hcount hrevoke hfast htail hdata hhead
  consumer := by simpa only [Function.update_self] using hx
  others t hp hc := by
    simp only [Function.update_of_ne hc]
    exact hv.others t hp hc

/-- The test of the producer decides whether the FIFO is full. -/
lemma noRoom_iff_full (hn : FastLocalQueue.SlotSize n) {q : FastLocalQueue α}
    (hcount : q.enqueueCount = q.enqueueRevoke + q.tail + 1) (hle : q.head ≤ q.tail)
    (hroom : q.tail ≤ q.head + n) :
    FastLocalQueue.noRoom n q.enqueueCount q.enqueueRevoke q.head ↔ q.tail = q.head + n := by
  have hlt := hn.lt
  rw [hcount]
  unfold FastLocalQueue.noRoom FastLocalQueue.sub FastLocalQueue.load
  omega

/-- The test of the consumer decides whether the FIFO is empty. -/
lemma noItem_iff_empty (hn : FastLocalQueue.SlotSize n) {q : FastLocalQueue α}
    (hcount : q.dequeueCount = q.dequeueRevoke + q.head + 1) (hle : q.head ≤ q.tail)
    (hroom : q.tail ≤ q.head + n) :
    FastLocalQueue.noItem q.dequeueCount q.dequeueRevoke q.tail ↔ q.tail = q.head := by
  have hlt := hn.lt
  rw [hcount]
  unfold FastLocalQueue.noItem FastLocalQueue.sub FastLocalQueue.load
  omega

/-- A step that the clients do not see and that keeps the contents. -/
lemma linear_silent {v' : LocalWorld α} {h : List (Mark Nat (QueueOp α) (QueueResult α))}
    {o : Pending (QueueOp α) (QueueResult α)}
    (hlin : LinearizedTo (boundedFifo n) [] h (v.queue.contents n) pending)
    (hcontents : v'.queue.contents n = v.queue.contents n) (ho : pending t = o)
    (hpair : Paired n p c v' (Function.update pending t o)) :
    Linear n p c ⟨v', h ++ []⟩ := by
  refine ⟨_, hpair, ?_⟩
  rw [List.append_nil, hcontents, ← ho, Function.update_eq_self]
  exact hlin

lemma Linear.advance_producer (hn : FastLocalQueue.SlotSize n) (hpc : p ≠ c)
    (hw : w.Linear n p c) {v' : LocalWorld α} (hstep : w.world.advance n p = some v') :
    Linear n p c ⟨v', w.history ++ shown w.world (.advance p)⟩ := by
  obtain ⟨pending, hv, hlin⟩ := hw
  have hle := hv.head_le
  have hroom := hv.tail_le
  have hprod := hv.producer
  generalize hphase : w.world.phase p = x at hprod
  generalize hpend : pending p = o at hprod
  cases hprod <;> simp only [LocalWorld.advance, hphase, LocalWorld.move, reduceCtorEq,
    Option.some.injEq] at hstep <;> simp only [shown, hphase]
  case loaded item hcount hfast =>
    subst hstep
    refine linear_silent hlin ?_ hpend (hv.of_producer hpc rfl rfl rfl rfl (fun _ => rfl) le_rfl hroom ?_)
    · rfl
    · exact .drawn item (by simp only; omega) hfast
  case drawn item hcount hfast =>
    have htest := noRoom_iff_full hn hcount hle hroom
    split at hstep
    case isTrue hfull =>
      cases hstep
      have hspec : boundedFifo n (w.world.queue.contents n) (.push item) =
          (.pushed false, w.world.queue.contents n) := by
        have := htest.mp hfull
        simp only [boundedFifo, FastLocalQueue.length_contents]
        rw [if_neg (by omega)]
      have hpoint := hlin.point hpend
      rw [hspec] at hpoint
      rw [List.append_nil]
      refine ⟨_, hv.of_producer hpc rfl rfl rfl rfl (fun _ => rfl) le_rfl hroom ?_, hpoint⟩
      exact .refused _ hcount hfast
    case isFalse hfull =>
      cases hstep
      refine linear_silent hlin ?_ hpend (hv.of_producer hpc rfl rfl rfl rfl (fun _ => rfl) le_rfl hroom ?_)
      · rfl
      · exact .admitted item _ hcount hfast (by have := mt htest.mpr hfull; omega)
  case refused e hcount hfast =>
    subst hstep
    refine ⟨_, hv.of_producer hpc rfl rfl rfl rfl (fun _ => rfl) le_rfl hroom ?_, hlin.ret hpend⟩
    exact .idle (by simp only; omega) hfast
  case admitted item e hcount hfast hlt =>
    subst hstep
    refine linear_silent hlin ?_ hpend (hv.of_producer hpc rfl rfl rfl rfl (fun _ => rfl) le_rfl hroom ?_)
    · rfl
    · rw [hfast]
      exact .ticket item hcount rfl hlt
  case ticket item hcount hfast hlt =>
    subst hstep
    rw [FastLocalQueue.load_mod hn]
    refine linear_silent hlin ?_ hpend (hv.of_producer hpc rfl rfl rfl rfl ?_ le_rfl hroom ?_)
    · exact FastLocalQueue.contents_write hlt rfl rfl rfl
    · intro hitem
      exact Function.update_of_ne (FastLocalQueue.mod_ne_of_lt hitem hlt) _ _
    · exact .written item hcount hfast hlt (by simp only [Function.update_self])
  case written item hcount hfast hlt hcell =>
    subst hstep
    have hspec : boundedFifo n (w.world.queue.contents n) (.push item) =
        (.pushed true, w.world.queue.contents n ++ [item]) := by
      simp only [boundedFifo, FastLocalQueue.length_contents]
      rw [if_pos (by omega)]
    have hsnoc := FastLocalQueue.contents_snoc (n := n) (q := w.world.queue)
      (r := { w.world.queue with tail := w.world.queue.tail + 1 }) hle rfl rfl rfl
    have hret := hlin.pointRet hpend
    rw [hspec] at hret
    simp only [← hcell, ← hsnoc] at hret
    refine ⟨_, hv.of_producer hpc rfl rfl rfl rfl (fun _ => rfl) (Nat.le_succ _) hlt ?_, hret⟩
    exact .idle (by simp only; omega) hfast

lemma Linear.advance_consumer (hn : FastLocalQueue.SlotSize n) (hpc : p ≠ c)
    (hw : w.Linear n p c) {v' : LocalWorld α} (hstep : w.world.advance n c = some v') :
    Linear n p c ⟨v', w.history ++ shown w.world (.advance c)⟩ := by
  obtain ⟨pending, hv, hlin⟩ := hw
  have hle := hv.head_le
  have hroom := hv.tail_le
  have hcons := hv.consumer
  generalize hphase : w.world.phase c = x at hcons
  generalize hpend : pending c = o at hcons
  cases hcons <;> simp only [LocalWorld.advance, hphase, LocalWorld.move, reduceCtorEq,
    Option.some.injEq] at hstep <;> simp only [shown, hphase]
  case loaded hcount hfast =>
    subst hstep
    refine linear_silent hlin ?_ hpend (hv.of_consumer hpc rfl rfl rfl rfl rfl le_rfl hle ?_)
    · rfl
    · exact .drawn (by simp only; omega) hfast
  case drawn hcount hfast =>
    have htest := noItem_iff_empty hn hcount hle hroom
    split at hstep
    case isTrue hempty =>
      cases hstep
      have hspec : boundedFifo n (w.world.queue.contents n) .pop =
          (.popped none, w.world.queue.contents n) := by
        have hnil : w.world.queue.contents n = [] := by
          rw [← List.length_eq_zero_iff, FastLocalQueue.length_contents, htest.mp hempty,
            Nat.sub_self]
        rw [hnil]
        rfl
      have hpoint := hlin.point hpend
      rw [hspec] at hpoint
      rw [List.append_nil]
      refine ⟨_, hv.of_consumer hpc rfl rfl rfl rfl rfl le_rfl hle ?_, hpoint⟩
      exact .refused _ hcount hfast
    case isFalse hempty =>
      cases hstep
      refine linear_silent hlin ?_ hpend (hv.of_consumer hpc rfl rfl rfl rfl rfl le_rfl hle ?_)
      · rfl
      · exact .admitted _ hcount hfast (by have := mt htest.mpr hempty; omega)
  case refused d hcount hfast =>
    subst hstep
    refine ⟨_, hv.of_consumer hpc rfl rfl rfl rfl rfl le_rfl hle ?_, hlin.ret hpend⟩
    exact .idle (by simp only; omega) hfast
  case admitted d hcount hfast hlt =>
    subst hstep
    refine linear_silent hlin ?_ hpend (hv.of_consumer hpc rfl rfl rfl rfl rfl le_rfl hle ?_)
    · rfl
    · rw [hfast]
      exact .ticket hcount rfl hlt
  case ticket hcount hfast hlt =>
    subst hstep
    rw [FastLocalQueue.load_mod hn]
    refine linear_silent hlin ?_ hpend (hv.of_consumer hpc rfl rfl rfl rfl rfl le_rfl hle ?_)
    · rfl
    · exact .read hcount hfast hlt
  case read hcount hfast hlt =>
    subst hstep
    have hcons := FastLocalQueue.contents_cons (n := n) (q := w.world.queue)
      (r := { w.world.queue with head := w.world.queue.head + 1 }) hlt rfl rfl rfl
    have hret := hlin.pointRet hpend
    rw [hcons] at hret
    refine ⟨_, hv.of_consumer hpc rfl rfl rfl rfl rfl (Nat.le_succ _) hlt ?_, hret⟩
    exact .idle (by simp only; omega) hfast

lemma ProducerAt.of_idle {q : FastLocalQueue α} {o : Pending (QueueOp α) (QueueResult α)}
    (h : ProducerAt n q .idle o) (item : α) :
    o = .none ∧ ProducerAt n q (.pushLoaded item q.enqueueRevoke) (.called (.push item)) := by
  cases h with
  | idle hcount hfast => exact ⟨rfl, .loaded item hcount hfast⟩

lemma ConsumerAt.of_idle {q : FastLocalQueue α} {o : Pending (QueueOp α) (QueueResult α)}
    (h : ConsumerAt n q .idle o) :
    o = .none ∧ ConsumerAt n q (.popLoaded q.dequeueRevoke) (.called .pop) := by
  cases h with
  | idle hcount hfast => exact ⟨rfl, .loaded hcount hfast⟩

lemma Linear.step (hn : FastLocalQueue.SlotSize n) (hpc : p ≠ c) {a : ThreadStep α}
    (ha : FromPair p c a) (hw : w.Linear n p c) (hstep : w.step n a = some w') :
    w'.Linear n p c := by
  obtain ⟨v', hv', rfl⟩ := Option.map_eq_some_iff.mp hstep
  cases a with
  | push t item =>
    obtain rfl : t = p := ha
    obtain ⟨pending, hv, hlin⟩ := hw
    obtain ⟨hidle, rfl⟩ := LocalWorld.idle_of_begin_push hv'
    obtain ⟨hpend, hloaded⟩ := ProducerAt.of_idle (hidle ▸ hv.producer) item
    exact ⟨_, hv.of_producer hpc rfl rfl rfl rfl (fun _ => rfl) le_rfl hv.tail_le hloaded,
      hlin.call hpend (.push item)⟩
  | pop t =>
    obtain rfl : t = c := ha
    obtain ⟨pending, hv, hlin⟩ := hw
    obtain ⟨hidle, rfl⟩ := LocalWorld.idle_of_begin_pop hv'
    obtain ⟨hpend, hloaded⟩ := ConsumerAt.of_idle (hidle ▸ hv.consumer)
    exact ⟨_, hv.of_consumer hpc rfl rfl rfl rfl rfl le_rfl hv.head_le hloaded,
      hlin.call hpend .pop⟩
  | advance t =>
    by_cases hp : t = p
    · subst hp
      exact hw.advance_producer hn hpc hv'
    by_cases hc : t = c
    · subst hc
      exact hw.advance_consumer hn hpc hv'
    -- any other thread is idle and has no step to make
    obtain ⟨pending, hv, hlin⟩ := hw
    simp only [LocalWorld.step, LocalWorld.advance, hv.others t hp hc, reduceCtorEq] at hv'

/-- In every run of one producer and one consumer the calls and returns are linearizable to
the FIFO of capacity 32. -/
theorem localQueue_linearizable [Inhabited α] (p c : Nat) (hpc : p ≠ c)
    (steps : List (ThreadStep α)) (w : ObservedWorld α) (hpair : ∀ a ∈ steps, FromPair p c a)
    (hrun : exec (step kLocalQueueSize) init steps = some w) :
    Linearizable (boundedFifo kLocalQueueSize) [] w.history := by
  have hn := FastLocalQueue.slotSize_kLocalQueueSize
  have hw : w.Linear kLocalQueueSize p c :=
    exec_invariant (fun _ _ _ hw ha hs => hw.step hn hpc ha hs) linear_init
      (along_of_forall (step kLocalQueueSize) init hpair) hrun
  obtain ⟨pending, -, hlin⟩ := hw
  exact ⟨_, pending, hlin⟩

/-- A pop that begins before the push of 7 and draws its ticket after it. -/
def straddling : List (ThreadStep Nat) :=
  [.pop 1, .push 0 7, .advance 0, .advance 0, .advance 0, .advance 0, .advance 0, .advance 1,
    .advance 1, .advance 1, .advance 1, .advance 1]

theorem localQueue_linearizable_straddling :
    ∃ w : ObservedWorld Nat, exec (step kLocalQueueSize) init straddling = some w ∧
      w.history = [.call 1 .pop, .call 0 (.push 7), .ret 0 (.pushed true),
        .ret 1 (.popped (some 7))] ∧
      Linearizable (boundedFifo kLocalQueueSize) [] w.history := by
  refine ⟨_, rfl, by decide +kernel, ?_⟩
  exact localQueue_linearizable 0 1 (by decide) straddling _ (by decide) rfl

end ObservedWorld

end CoplusLean
