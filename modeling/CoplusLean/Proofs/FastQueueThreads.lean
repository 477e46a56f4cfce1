import CoplusLean.Models.FastQueueThreads
import CoplusLean.Proofs.LocalQueueTickets
import CoplusLean.Proofs.QueueTokens

/-!
# Producers and consumers of a `FastQueue`

A local queue is made for one producer. Its token is with one handle or in `FreeList`, and while
a handle looks for another queue it does not push; so in any interleaving at most one handle is in
a push on a local queue, although the handles take turns. Hence what holds of a local queue with
one producer holds of every local queue of a `FastQueue`.
-/

namespace CoplusLean

open Lib FastQueue

variable {α : Type*}

namespace LocalWorld

variable {n p t : Nat} {w w' : LocalWorld α}

/-- A producer that is not in a push hands the queue on to any other thread. -/
lemma Ticketed.handover (hw : w.Ticketed n p) (hout : (w.phase p).pushStage = .out) (r : Nat) :
    w.Ticketed n r := by
  have hall : ∀ t, (w.phase t).pushStage = .out := by
    intro t
    by_cases ht : t = p
    · rwa [ht]
    · exact hw.producer.solo t ht
  have hwritten : ∀ t, (w.phase t).writtenCount = 0 := by
    intro t
    have hle := written_le_passed (w.phase t)
    rw [hall t] at hle
    exact Nat.le_zero.mp hle
  obtain ⟨-, hcount, hfast, hloaded, hdrawn, -, hpushed⟩ := hw.producer
  obtain ⟨hstored, -, hunread, hreading, hpopped⟩ := hw.cells
  rw [hall p] at hcount hfast hloaded hdrawn
  rw [hwritten p] at hstored hunread
  refine ⟨hw.gated, ⟨fun t _ => hall t, ?_, ?_, ?_, ?_, ?_, hpushed⟩, hw.ledgered,
    ⟨?_, ?_, ?_, hreading, hpopped⟩⟩
  · rwa [hall r]
  · rwa [hall r]
  · rwa [hall r]
  · rwa [hall r]
  · intro item k hk
    have hr := hall r
    rcases hk with hk | hk <;> rw [hk] at hr <;> cases hr
  · rwa [hwritten r]
  · intro item k hk
    have hr := hall r
    rw [hk] at hr
    cases hr
  · rwa [hwritten r]

/-- A step moves one thread; a call that returns leaves it idle. -/
lemma advance_phase (hstep : w.advance n t = some w') :
    ∃ x : Phase α, w'.phase = Function.update w.phase t x ∧
      ((w.phase t).result ≠ none → x = .idle) := by
  cases hphase : w.phase t <;>
    simp only [LocalWorld.advance, hphase, move, reduceCtorEq, Option.some.injEq] at hstep
  case pushDrawn item r e =>
    split at hstep
    all_goals
      cases hstep
      exact ⟨_, rfl, fun h => absurd rfl h⟩
  case popDrawn r d =>
    split at hstep
    all_goals
      cases hstep
      exact ⟨_, rfl, fun h => absurd rfl h⟩
  case pushRefused | pushWritten =>
    subst hstep
    exact ⟨_, rfl, fun _ => rfl⟩
  all_goals
    subst hstep
    exact ⟨_, rfl, fun h => absurd rfl h⟩

/-- A step of a push keeps the queue with its producer. -/
lemma Ticketed.pushNext (hn : FastLocalQueue.SlotSize n) (hw : w.Ticketed n t) {item : α}
    (hok : w.CellVacated n (.advance t)) (hstep : w.pushNext n t item = some w') :
    w'.Ticketed n t ∧ ∃ x : Phase α, w'.phase = Function.update w.phase t x ∧
      ((w.phase t).result ≠ none → x = .idle) := by
  unfold LocalWorld.pushNext at hstep
  split at hstep
  case h_1 hidle =>
    refine ⟨hw.step hn (a := .push t item) rfl trivial hstep, ?_⟩
    obtain ⟨-, rfl⟩ := idle_of_begin_push hstep
    exact ⟨_, rfl, fun h => absurd (by rw [hidle]; rfl) h⟩
  case h_2 => exact ⟨hw.step hn (a := .advance t) trivial hok hstep, advance_phase hstep⟩

end LocalWorld

namespace HandlePhase

/-- The local queue of the handle is for its pushes alone. -/
def owns : HandlePhase α → Bool
  | .ready | .pushing _ | .trying _ _ | .leaving _ | .retrying _ _ | .deleting => true
  | .gone | .applying _ _ | .preempting _ _ | .moving _ _ => false

/-- The handle has no local queue and looks for one. -/
def searches : HandlePhase α → Bool
  | .applying _ _ | .preempting _ _ => true
  | _ => false

/-- The handle is in a call in which its pointer to the local queue is not null. -/
def uses : HandlePhase α → Bool
  | .pushing _ | .trying _ _ | .leaving _ | .retrying _ _ | .deleting => true
  | .gone | .applying _ _ | .preempting _ _ | .ready | .moving _ _ => false

lemma owns_of_pushes {x : HandlePhase α} {item : α} (h : x.pushes = some item) : x.owns = true := by
  cases x <;> simp [pushes] at h <;> rfl

lemma uses_of_pushes {x : HandlePhase α} {item : α} (h : x.pushes = some item) : x.uses = true := by
  cases x <;> simp [pushes] at h <;> rfl

lemma owns_acquired (l : Option Nat) (item : Option α) :
    (acquired l item).owns = true ∧ (acquired l item).searches = false ∧
      ((acquired l item).uses = true → l ≠ none) := by
  cases item <;> cases l <;> simp [acquired, owns, searches, uses]

lemma uses_afterApply (attempts : Nat) (item : Option α) :
    (afterApply attempts item).uses = false := by
  unfold afterApply
  split <;> rfl

lemma owns_moved (p : Nat) (item : α) :
    (moved (some p) item).owns = true ∧ (moved (some p) item).searches = false := ⟨rfl, rfl⟩

lemma afterPush_owns {x : HandlePhase α} {item : α} (h : x.pushes = some item) (ok : Bool) :
    (x.afterPush ok).owns = true ∧ (x.afterPush ok).searches = false := by
  cases x <;> simp only [pushes, reduceCtorEq] at h
  case pushing => exact ⟨rfl, rfl⟩
  case trying attempts item =>
    simp only [afterPush]
    split_ifs <;> exact ⟨rfl, rfl⟩
  case retrying attempts item =>
    simp only [afterPush]
    split_ifs <;> exact ⟨rfl, rfl⟩

lemma afterStep_owns {x : HandlePhase α} {item : α} (h : x.pushes = some item)
    (result : Option Bool) :
    (x.afterStep result).owns = true ∧ (x.afterStep result).searches = false := by
  cases result with
  | none => cases x <;> simp [pushes] at h <;> exact ⟨rfl, rfl⟩
  | some ok => exact afterPush_owns h ok

end HandlePhase

namespace FastQueueWorld

open HandlePhase

variable {w w' : FastQueueWorld α} {k : Nat}

/-- The local queue that a handle has to itself. -/
def held (w : FastQueueWorld α) (k : Nat) : Option Nat :=
  if (w.phase k).owns then (w.handles k).local_ else none

/-- The condition on a step: `create_queue` is called fewer than `2 ^ 32` times and does not fail
in the second loop of `push_hard`, and the local queues meet the condition under which one with
one producer matches pops with pushes. -/
def Careful (w : FastQueueWorld α) : FastQueueStep α → Prop
  | .next k =>
    match w.phase k with
    | .preempting _ _ => w.queue.created < 4294967296
    | .moving _ _ => w.queue.created < kQueueMaxCount
    | _ => ∀ p, (w.handles k).local_ = some p →
        (w.locals p).CellVacated kLocalQueueSize (.advance (2 * k))
  | .popNext c i => ∀ p, w.queue.lookup i = (true, some p) →
      (w.locals p).CellVacated kLocalQueueSize (.advance (2 * c + 1))
  | _ => True

/-- Every token is with one handle or in `FreeList`, only its handle pushes to a local queue, and
every local queue is one that has one producer at a time. -/
structure Owned (w : FastQueueWorld α) : Prop where
  sound : w.queue.Sound
  valid : ∀ k, w.queue.ValidHandle (w.handles k)
  searching : ∀ k, (w.phase k).searches = true → (w.handles k).local_ = none
  pointer : ∀ k, (w.phase k).uses = true → (w.handles k).local_ ≠ none
  exclusive : Exclusive w.held w.queue.freeTokens w.queue.tokenBound
  pushers : ∀ p t, ((w.locals p).phase t).pushStage ≠ .out →
    ∃ k item, t = 2 * k ∧ (w.phase k).pushes = some item ∧ (w.handles k).local_ = some p
  ticketed : ∀ p, ∃ t, (w.locals p).Ticketed kLocalQueueSize t

lemma owned_init [Inhabited α] : (init : FastQueueWorld α).Owned where
  sound := sound_new
  valid k p hp := by simp [init] at hp
  searching k hk := rfl
  pointer k hk := by simp [init, uses] at hk
  exclusive := ⟨by simp [held, init, HandlePhase.owns], by simp [freeTokens, init, FastQueue.new],
    by simp [held, init, HandlePhase.owns], by simp [freeTokens, init, FastQueue.new],
    by simp [held, init, HandlePhase.owns]⟩
  pushers p t ht := absurd rfl ht
  ticketed p := ⟨0, LocalWorld.ticketed_init⟩

/-! ## Tokens -/

lemma held_setHandle (w : FastQueueWorld α) (k : Nat) (s : FastQueue α × ProducerHandle)
    (x : HandlePhase α) :
    (w.setHandle k s x).held =
      Function.update w.held k (if x.owns then s.2.local_ else none) := by
  funext j
  by_cases hj : j = k
  · subst hj
    simp [held, setHandle, setPhase]
  · simp [held, setHandle, setPhase, hj]

/-- A handle that is not in a push changes its place and its token. -/
lemma Owned.setHandle (hw : w.Owned) {s : FastQueue α × ProducerHandle} {x : HandlePhase α}
    (hold : (w.phase k).pushes = none) (hsound : s.1.Sound)
    (hle : w.queue.tokenBound ≤ s.1.tokenBound) (hvalid : s.1.ValidHandle s.2)
    (hsearch : x.searches = true → s.2.local_ = none) (huse : x.uses = true → s.2.local_ ≠ none)
    (hex : Exclusive (Function.update w.held k (if x.owns then s.2.local_ else none))
      s.1.freeTokens s.1.tokenBound) : (w.setHandle k s x).Owned where
  sound := hsound
  valid j := by
    by_cases hj : j = k
    · subst hj
      simpa [FastQueueWorld.setHandle] using hvalid
    · intro p hp
      have hp' : (w.handles j).local_ = some p := by
        simpa [FastQueueWorld.setHandle, hj] using hp
      obtain ⟨htok, hlt⟩ := hw.valid j p hp'
      exact ⟨by simpa [FastQueueWorld.setHandle, hj] using htok, hlt.trans_le hle⟩
  searching j hj := by
    by_cases hjk : j = k
    · subst hjk
      simpa [FastQueueWorld.setHandle] using
        hsearch (by simpa [FastQueueWorld.setHandle, setPhase] using hj)
    · have hj' : (w.phase j).searches = true := by
        simpa [FastQueueWorld.setHandle, setPhase, hjk] using hj
      simpa [FastQueueWorld.setHandle, hjk] using hw.searching j hj'
  pointer j hj := by
    by_cases hjk : j = k
    · subst hjk
      simpa [FastQueueWorld.setHandle] using
        huse (by simpa [FastQueueWorld.setHandle, setPhase] using hj)
    · have hj' : (w.phase j).uses = true := by
        simpa [FastQueueWorld.setHandle, setPhase, hjk] using hj
      simpa [FastQueueWorld.setHandle, hjk] using hw.pointer j hj'
  exclusive := by
    rw [held_setHandle]
    exact hex
  pushers p t ht := by
    obtain ⟨j, item, htj, hpush, hlocal⟩ := hw.pushers p t ht
    have hjk : j ≠ k := by
      rintro rfl
      rw [hold] at hpush
      cases hpush
    exact ⟨j, item, htj, by simpa [FastQueueWorld.setHandle, setPhase, hjk] using hpush,
      by simpa [FastQueueWorld.setHandle, hjk] using hlocal⟩
  ticketed := hw.ticketed

lemma setHandle_same (w : FastQueueWorld α) (k : Nat) (q : FastQueue α) (x : HandlePhase α) :
    w.setHandle k (q, w.handles k) x = { w.setPhase k x with queue := q } := by
  simp [setHandle, setPhase]

/-- A handle begins or ends a call and keeps its token. -/
lemma Owned.setPhase (hw : w.Owned) {x : HandlePhase α} (hold : (w.phase k).pushes = none)
    (hsearch : x.searches = true → (w.handles k).local_ = none)
    (huse : x.uses = true → (w.handles k).local_ ≠ none)
    (hheld : (if x.owns then (w.handles k).local_ else none) = w.held k) :
    (w.setPhase k x).Owned := by
  have hmove := hw.setHandle (s := (w.queue, w.handles k)) (x := x) hold hw.sound le_rfl
    (hw.valid k) hsearch huse (by rw [hheld, Function.update_eq_self]; exact hw.exclusive)
  rwa [setHandle_same] at hmove

lemma held_of_owns (h : (w.phase k).owns = true) : w.held k = (w.handles k).local_ := by
  simp [held, h]

lemma held_of_local (h : (w.handles k).local_ = none) : w.held k = none := by
  simp [held, h]

/-- What an attempt of `apply` or `preempt` leaves: nothing, a token of `FreeList` or a new one. -/
inductive Tried (q : FastQueue α) (h : ProducerHandle) : Bool × FastQueue α × ProducerHandle → Prop
  | failed (q' : FastQueue α) (hsound : q'.Sound) (hfree : q'.freeTokens = q.freeTokens)
      (hbound : q'.tokenBound = q.tokenBound) : Tried q h (false, q', h)
  | taken (q' : FastQueue α) (t : Int) (hsound : q'.Sound)
      (hfree : q.freeTokens = t :: q'.freeTokens) (hbound : q'.tokenBound = q.tokenBound) :
      Tried q h (true, q', ⟨t, some t.toNat⟩)
  | created (q' : FastQueue α) (hsound : q'.Sound) (hfree : q'.freeTokens = q.freeTokens)
      (hbound : q'.tokenBound = q.tokenBound + 1) :
      Tried q h (true, q', ⟨q.tokenBound, some q.tokenBound⟩)

lemma apply_tried {q : FastQueue α} (hq : q.Sound) (h : ProducerHandle) :
    Tried q h (FastQueue.apply (q, h)) := by
  cases hfree : q.freeTokens with
  | nil =>
    rw [apply_of_nil hq h hfree]
    exact .failed q hq rfl rfl
  | cons t rest =>
    obtain ⟨q', hres, hsound, hrest, hlist, -, -⟩ := apply_of_cons hq h hfree
    rw [hres]
    exact .taken q' t hsound (by rw [hfree, hrest]) (by rw [tokenBound, tokenBound, FastQueue.created,
      FastQueue.created, hlist])

lemma preempt_tried_of_room [Inhabited α] {q : FastQueue α} (hq : q.Sound) (h : ProducerHandle)
    (hroom : q.created < kQueueMaxCount) :
    Tried q h (preempt (q, h)) ∧ (preempt (q, h)).1 = true := by
  obtain ⟨-, hsound, hcreated⟩ := createQueue_of_room hq hroom
  have hbound : q.tokenBound = q.created := Nat.min_eq_left hroom.le
  rw [preempt_of_room hq h hroom, ← hbound]
  refine ⟨.created _ hsound rfl ?_, rfl⟩
  rw [tokenBound, tokenBound, hcreated]
  omega

lemma preempt_tried [Inhabited α] {q : FastQueue α} (hq : q.Sound) (h : ProducerHandle)
    (hcount : q.created < 4294967296) : Tried q h (preempt (q, h)) := by
  rcases Nat.lt_or_ge q.created kQueueMaxCount with hroom | hfull
  · exact (preempt_tried_of_room hq h hroom).1
  · obtain ⟨hcreate, hsound, hcreated⟩ := createQueue_of_full hq hfull hcount
    have hres : preempt (q, h) = (false, q.extended true, h) := by simp [preempt, hcreate]
    rw [hres]
    refine .failed _ hsound rfl ?_
    rw [tokenBound, tokenBound, hcreated]
    omega

/-- A handle without a queue of its own makes an attempt to get one. -/
lemma Owned.tried (hw : w.Owned) {res : Bool × FastQueue α × ProducerHandle}
    (hres : Tried w.queue (w.handles k) res) {x : HandlePhase α}
    (hold : (w.phase k).pushes = none) (hheld : w.held k = none)
    (hgot : res.1 = true → x.owns = true ∧ x.searches = false)
    (huse : x.uses = true → res.2.2.local_ ≠ none)
    (hnot : res.1 = false → (x.searches = true → (w.handles k).local_ = none) ∧
      (x.owns = true → (w.handles k).local_ = none)) : (w.setHandle k res.2 x).Owned := by
  cases hres with
  | failed q' hsound hfree hbound =>
    obtain ⟨hsearch, howns⟩ := hnot rfl
    refine hw.setHandle hold hsound hbound.ge (fun p hp => ?_) hsearch huse ?_
    · obtain ⟨htok, hlt⟩ := hw.valid k p hp
      exact ⟨htok, hbound ▸ hlt⟩
    · have hnone : (if x.owns then (w.handles k).local_ else none) = none := by
        split
        · exact howns ‹_›
        · rfl
      rw [hnone, hfree, hbound, ← hheld, Function.update_eq_self]
      exact hw.exclusive
  | taken q' t hsound hfree hbound =>
    obtain ⟨howns, hsearch⟩ := hgot rfl
    have htoken : w.queue.ValidToken t := hw.sound.tokens t (by rw [hfree]; exact List.mem_cons_self)
    have hlt : t.toNat < q'.tokenBound := by
      have hnonneg := htoken.1
      have hbelow := htoken.2
      omega
    refine hw.setHandle hold hsound hbound.ge (fun p hp => ?_) (by simp [hsearch]) huse ?_
    · obtain rfl : t.toNat = p := Option.some.inj hp
      exact ⟨(Int.toNat_of_nonneg htoken.1).symm, hlt⟩
    · have hex := hw.exclusive
      rw [hfree] at hex
      rw [if_pos howns, hbound]
      exact hex.take k
  | created q' hsound hfree hbound =>
    obtain ⟨howns, hsearch⟩ := hgot rfl
    refine hw.setHandle hold hsound ((Nat.le_succ _).trans hbound.ge) (fun p hp => ?_)
      (by simp [hsearch]) huse ?_
    · obtain rfl : w.queue.tokenBound = p := Option.some.inj hp
      exact ⟨rfl, (Nat.lt_succ_self _).trans_eq hbound.symm⟩
    · rw [if_pos howns, hfree, hbound]
      exact hw.exclusive.fresh k

/-- A handle puts its token into `FreeList`. -/
lemma Owned.giveBack (hw : w.Owned) {x : HandlePhase α} (hold : (w.phase k).pushes = none)
    (howned : (w.phase k).owns = true) (huses : (w.phase k).uses = true) (howns : x.owns = false)
    (hsearch : x.searches = false) (huse : x.uses = false) :
    Owned { w.setPhase k x with queue := w.queue.giveBack (w.handles k).token } := by
  obtain ⟨p, hp⟩ := Option.ne_none_iff_exists'.mp (hw.pointer k huses)
  obtain ⟨htok, hlt⟩ := hw.valid k p hp
  have hvalid : w.queue.ValidToken p := ⟨by omega, by exact_mod_cast hlt⟩
  have hheld : w.held k = some p := by rw [held_of_owns howned, hp]
  rw [htok, ← setHandle_same]
  refine hw.setHandle hold (sound_giveBack hw.sound hvalid) le_rfl (hw.valid k) (by simp [hsearch])
    (by simp [huse]) ?_
  rw [howns]
  exact QueueWorld.exclusive_giveBack hw.sound hw.exclusive hheld

/-! ## The local queues -/

/-- One local queue makes a step, and no handle gives its own away or begins to search. -/
lemma Owned.setLocal (hw : w.Owned) {p : Nat} {l : LocalWorld α} {phase : Nat → HandlePhase α}
    (hphase : ∀ j, (phase j).owns = (w.phase j).owns ∧ (phase j).searches = (w.phase j).searches ∧
      ((phase j).uses = true → (w.phase j).uses = true))
    (hpushers : ∀ q t, ((Function.update w.locals p l q).phase t).pushStage ≠ .out →
      ∃ k item, t = 2 * k ∧ (phase k).pushes = some item ∧ (w.handles k).local_ = some q)
    (hticketed : ∃ t, l.Ticketed kLocalQueueSize t) :
    Owned { w with locals := Function.update w.locals p l, phase := phase } where
  sound := hw.sound
  valid := hw.valid
  searching j hj := hw.searching j ((hphase j).2.1 ▸ hj)
  pointer j hj := hw.pointer j ((hphase j).2.2 hj)
  exclusive := by
    have hheld : held { w with locals := Function.update w.locals p l, phase := phase } = w.held := by
      funext j
      simp [held, (hphase j).1]
    rw [hheld]
    exact hw.exclusive
  pushers := hpushers
  ticketed q := by
    show ∃ t, (Function.update w.locals p l q).Ticketed kLocalQueueSize t
    by_cases hq : q = p
    · rwa [hq, Function.update_self]
    · rw [Function.update_of_ne hq]
      exact hw.ticketed q

/-- A thread outside the pushes makes a step on a local queue. -/
lemma Owned.outside (hw : w.Owned) {p t : Nat} {act : ThreadStep α} {l : LocalWorld α}
    (hact : act = .pop t ∨ act = .advance t) (hodd : ∀ j, t ≠ 2 * j)
    (hok : (w.locals p).CellVacated kLocalQueueSize act)
    (hstep : (w.locals p).step kLocalQueueSize act = some l) :
    Owned { w with locals := Function.update w.locals p l } := by
  have hout : ((w.locals p).phase t).pushStage = .out := by
    by_contra hne
    obtain ⟨j, -, htj, -⟩ := hw.pushers p t hne
    exact hodd j htj
  have hphase : ∃ x : Phase α, l.phase = Function.update (w.locals p).phase t x ∧
      x.pushStage = .out := by
    rcases hact with rfl | rfl
    · obtain ⟨-, rfl⟩ := LocalWorld.idle_of_begin_pop hstep
      exact ⟨_, rfl, rfl⟩
    · obtain ⟨x, hx, hxout, -⟩ := LocalWorld.advance_of_out hout hstep
      exact ⟨x, hx, hxout⟩
  obtain ⟨x, hx, hxout⟩ := hphase
  obtain ⟨r, hr⟩ := hw.ticketed p
  have hfrom : LocalWorld.FromProducer r act := by
    rcases hact with rfl | rfl <;> exact trivial
  refine hw.setLocal (fun j => ⟨rfl, rfl, id⟩) (fun q s hs => hw.pushers q s ?_)
    ⟨r, hr.step FastLocalQueue.slotSize_kLocalQueueSize hfrom hok hstep⟩
  by_cases hq : q = p
  · subst hq
    have hst : s ≠ t := by
      rintro rfl
      simp [hx, hxout] at hs
    simpa [hx, hst] using hs
  · simpa [hq] using hs

/-- A local queue whose token is with a handle has no other producer. -/
lemma Owned.producer (hw : w.Owned) {p : Nat} (howns : (w.phase k).owns = true)
    (hp : (w.handles k).local_ = some p) :
    (w.locals p).Ticketed kLocalQueueSize (2 * k) := by
  obtain ⟨t, ht⟩ := hw.ticketed p
  by_cases htk : t = 2 * k
  · rwa [htk] at ht
  · apply ht.handover
    by_contra hne
    obtain ⟨j, item, htj, hpush, hlocal⟩ := hw.pushers p t hne
    have hj : w.held j = some p := by rw [held_of_owns (owns_of_pushes hpush), hlocal]
    have hk : w.held k = some p := by rw [held_of_owns howns, hp]
    exact htk (htj.trans (congrArg (2 * ·) (hw.exclusive.inj j k p hj hk)))

/-- A handle makes the next step of its push. -/
lemma Owned.pushNext (hw : w.Owned) {item : α} (hpush : (w.phase k).pushes = some item)
    (hok : ∀ p, (w.handles k).local_ = some p →
      (w.locals p).CellVacated kLocalQueueSize (.advance (2 * k)))
    (hstep : w.pushNext k item = some w') : w'.Owned := by
  have howns := owns_of_pushes hpush
  cases hp : (w.handles k).local_ with
  | none => simp [FastQueueWorld.pushNext, hp] at hstep
  | some p =>
    simp only [FastQueueWorld.pushNext, hp] at hstep
    obtain ⟨l, hl, rfl⟩ := Option.map_eq_some_iff.mp hstep
    obtain ⟨hticketed, x, hx, hreturn⟩ :=
      (hw.producer howns hp).pushNext FastLocalQueue.slotSize_kLocalQueueSize (hok p hp) hl
    have hafter := afterStep_owns hpush ((w.locals p).phase (2 * k)).result
    refine hw.setLocal (fun j => ?_) (fun q s hs => ?_) ⟨2 * k, hticketed⟩
    · by_cases hj : j = k
      · subst hj
        have hsearch : (w.phase j).searches = false := by
          cases h : w.phase j <;> simp [h, pushes] at hpush <;> rfl
        simp [FastQueueWorld.setPhase, hafter, howns, hsearch, uses_of_pushes hpush]
      · simp [FastQueueWorld.setPhase, hj]
    · -- only this handle may have left its push, and only the push to its own queue
      have hothers : ∀ j item', s = 2 * j → (w.phase j).pushes = some item' →
          (w.handles j).local_ = some q → j ≠ k → ∃ k' item', s = 2 * k' ∧
            (Function.update w.phase k ((w.phase k).afterStep
              ((w.locals p).phase (2 * k)).result) k').pushes = some item' ∧
            (w.handles k').local_ = some q := by
        intro j item' hsj hpush' hlocal hj
        exact ⟨j, item', hsj, by rwa [Function.update_of_ne hj], hlocal⟩
      by_cases hq : q = p
      · subst hq
        rw [Function.update_self] at hs
        by_cases hsk : s = 2 * k
        · subst hsk
          have hnone : ((w.locals q).phase (2 * k)).result = none := by
            by_contra hne
            rw [hx, Function.update_self, hreturn hne] at hs
            exact hs rfl
          exact ⟨k, item, rfl, by simpa [FastQueueWorld.setPhase, hnone, afterStep] using hpush, hp⟩
        · rw [hx, Function.update_of_ne hsk] at hs
          obtain ⟨j, item', hsj, hpush', hlocal⟩ := hw.pushers q s hs
          exact hothers j item' hsj hpush' hlocal (by rintro rfl; exact hsk hsj)
      · rw [Function.update_of_ne hq] at hs
        obtain ⟨j, item', hsj, hpush', hlocal⟩ := hw.pushers q s hs
        refine hothers j item' hsj hpush' hlocal ?_
        rintro rfl
        exact hq (Option.some.inj (hlocal.symm.trans hp))

/-! ## Whole runs -/

lemma Owned.next [Inhabited α] (hw : w.Owned) (hok : w.Careful (.next k))
    (hstep : w.next k = some w') : w'.Owned := by
  cases hphase : w.phase k with
  | gone | ready => simp [FastQueueWorld.next, hphase] at hstep
  | applying attempts item =>
    have hlocal := hw.searching k (by rw [hphase]; rfl)
    simp only [FastQueueWorld.next, hphase] at hstep
    obtain rfl := Option.some.inj hstep
    refine hw.tried (apply_tried hw.sound _) (by rw [hphase]; rfl) (held_of_local hlocal) ?_ ?_ ?_
    · intro hgot
      rw [if_pos hgot]
      exact ⟨(owns_acquired _ _).1, (owns_acquired _ _).2.1⟩
    · split
      · exact (owns_acquired _ _).2.2
      · simp [uses_afterApply]
    · intro hnot
      rw [hnot, if_neg (by simp)]
      exact ⟨fun _ => hlocal, fun _ => hlocal⟩
  | preempting attempts item =>
    have hlocal := hw.searching k (by rw [hphase]; rfl)
    simp only [Careful, hphase] at hok
    simp only [FastQueueWorld.next, hphase] at hstep
    obtain rfl := Option.some.inj hstep
    refine hw.tried (preempt_tried hw.sound _ hok) (by rw [hphase]; rfl) (held_of_local hlocal)
      ?_ ?_ ?_
    · intro hgot
      rw [if_pos (Or.inl hgot)]
      exact ⟨(owns_acquired _ _).1, (owns_acquired _ _).2.1⟩
    · split
      · exact (owns_acquired _ _).2.2
      · simp [uses]
    · exact fun _ => ⟨fun _ => hlocal, fun _ => hlocal⟩
  | moving attempts item =>
    simp only [Careful, hphase] at hok
    simp only [FastQueueWorld.next, hphase] at hstep
    obtain rfl := Option.some.inj hstep
    obtain ⟨htried, hgot⟩ := preempt_tried_of_room hw.sound (w.handles k) hok
    have hheld : w.held k = none := by simp [held, hphase, owns]
    refine hw.tried htried (by rw [hphase]; rfl) hheld (fun _ => ?_) (fun _ => ?_) (by simp [hgot])
    · rw [if_pos (Or.inl hgot), preempt_of_room hw.sound _ hok]
      exact owns_moved _ _
    · rw [preempt_of_room hw.sound _ hok]
      simp
  | pushing item =>
    simp only [FastQueueWorld.next, hphase] at hstep
    simp only [Careful, hphase] at hok
    exact hw.pushNext (by rw [hphase]; rfl) hok hstep
  | trying attempts item =>
    simp only [FastQueueWorld.next, hphase] at hstep
    simp only [Careful, hphase] at hok
    exact hw.pushNext (by rw [hphase]; rfl) hok hstep
  | retrying attempts item =>
    simp only [FastQueueWorld.next, hphase] at hstep
    simp only [Careful, hphase] at hok
    exact hw.pushNext (by rw [hphase]; rfl) hok hstep
  | leaving item =>
    simp only [FastQueueWorld.next, hphase] at hstep
    obtain rfl := Option.some.inj hstep
    exact hw.giveBack (by rw [hphase]; rfl) (by rw [hphase]; rfl) (by rw [hphase]; rfl) rfl rfl rfl
  | deleting =>
    simp only [FastQueueWorld.next, hphase] at hstep
    obtain rfl := Option.some.inj hstep
    exact hw.giveBack (by rw [hphase]; rfl) (by rw [hphase]; rfl) (by rw [hphase]; rfl) rfl rfl rfl

lemma Owned.popStep (hw : w.Owned) {i t : Nat} {act : ThreadStep α}
    (hact : act = .pop t ∨ act = .advance t) (hodd : ∀ j, t ≠ 2 * j)
    (hok : ∀ p, w.queue.lookup i = (true, some p) →
      (w.locals p).CellVacated kLocalQueueSize act)
    (hstep : w.popStep i act = some w') : w'.Owned := by
  unfold FastQueueWorld.popStep at hstep
  split at hstep
  case h_1 p hlookup =>
    obtain ⟨l, hl, rfl⟩ := Option.map_eq_some_iff.mp hstep
    exact hw.outside hact hodd (hok p hlookup) hl
  case h_2 => cases hstep

lemma Owned.step [Inhabited α] {a : FastQueueStep α} (hw : w.Owned) (hok : w.Careful a)
    (hstep : w.step a = some w') : w'.Owned := by
  cases a with
  | create k =>
    simp only [FastQueueWorld.step] at hstep
    split at hstep
    case h_1 hphase =>
      obtain rfl := Option.some.inj hstep
      refine hw.setHandle (by rw [hphase]; rfl) hw.sound le_rfl (fun p hp => by cases hp)
        (fun _ => rfl) (by simp [uses]) ?_
      exact hw.exclusive.drop k
    case h_2 => cases hstep
  | push k item =>
    simp only [FastQueueWorld.step] at hstep
    split at hstep
    case h_1 =>
      obtain rfl := Option.some.inj hstep
      exact hw
    case h_2 p hphase hlocal =>
      obtain rfl := Option.some.inj hstep
      exact hw.setPhase (by rw [hphase]; rfl) (by simp [searches]) (by simp [hlocal])
        (by simp [held, hphase, owns])
    case h_3 => cases hstep
  | pushHard k item =>
    simp only [FastQueueWorld.step] at hstep
    split at hstep
    case h_1 hphase hlocal =>
      obtain rfl := Option.some.inj hstep
      exact hw.setPhase (by rw [hphase]; rfl) (fun _ => hlocal) (by simp [uses])
        (by simp [held, hphase, hlocal])
    case h_2 p hphase hlocal =>
      obtain rfl := Option.some.inj hstep
      exact hw.setPhase (by rw [hphase]; rfl) (by simp [searches]) (by simp [hlocal])
        (by simp [held, hphase, owns])
    case h_3 => cases hstep
  | destroy k =>
    simp only [FastQueueWorld.step] at hstep
    split at hstep
    case h_1 hphase hlocal =>
      obtain rfl := Option.some.inj hstep
      exact hw.setPhase (by rw [hphase]; rfl) (by simp [searches]) (by simp [uses])
        (by simp [held, hphase, hlocal])
    case h_2 p hphase hlocal =>
      obtain rfl := Option.some.inj hstep
      exact hw.setPhase (by rw [hphase]; rfl) (by simp [searches]) (by simp [hlocal])
        (by simp [held, hphase, owns])
    case h_3 => cases hstep
  | next k => exact hw.next hok hstep
  | pop c i =>
    exact hw.popStep (Or.inl rfl) (by omega) (fun _ _ => trivial) hstep
  | popNext c i => exact hw.popStep (Or.inr rfl) (by omega) hok hstep

/-- What many producers and consumers of one `FastQueue` may rely on. -/
structure Shared (w : FastQueueWorld α) : Prop where
  one_producer : ∀ p s t, ((w.locals p).phase s).pushStage ≠ .out →
    ((w.locals p).phase t).pushStage ≠ .out → s = t
  one_owner : ∀ j k p, w.held j = some p → w.held k = some p → j = k
  free_once : w.queue.freeTokens.Nodup
  not_both : ∀ k p, w.held k = some p → (p : Int) ∉ w.queue.freeTokens
  matched : ∀ p, (w.locals p).Matched kLocalQueueSize

lemma Owned.shared (hw : w.Owned) : w.Shared where
  one_producer p s t hs ht := by
    obtain ⟨j, item, rfl, hpush, hlocal⟩ := hw.pushers p s hs
    obtain ⟨k, item', rfl, hpush', hlocal'⟩ := hw.pushers p t ht
    have hj : w.held j = some p := by rw [held_of_owns (owns_of_pushes hpush), hlocal]
    have hk : w.held k = some p := by rw [held_of_owns (owns_of_pushes hpush'), hlocal']
    rw [hw.exclusive.inj j k p hj hk]
  one_owner := hw.exclusive.inj
  free_once := hw.exclusive.nodup
  not_both := hw.exclusive.disjoint
  matched p := (hw.ticketed p).elim fun _ h => h.matched

/-- In every interleaving of the steps of any number of handles and consumers in which
`create_queue` does not fail for a handle that has given its token back, and the local queues
store to vacated cells only: no two threads are ever in a push on one local queue, every
token is with one handle or once in `FreeList`, and pops and pushes of equal ticket on a local
queue carry equal values, none lost. -/
theorem fastQueue_shared [Inhabited α] (steps : List (FastQueueStep α)) (w : FastQueueWorld α)
    (hok : Along step Careful init steps) (hrun : exec step init steps = some w) : w.Shared := by
  have hw : w.Owned :=
    exec_invariant (P := Owned) (fun _ _ _ hs hc hstep => hs.step hc hstep) owned_init hok hrun
  exact hw.shared

/-- A queue can still be created and no cell has been used twice. -/
def Early (w : FastQueueWorld α) : FastQueueStep α → Prop
  | .next k => w.queue.created < kQueueMaxCount ∧ ∀ p ∈ (w.handles k).local_,
      (w.locals p).FirstUse kLocalQueueSize (.advance (2 * k)) ∧
        (w.locals p).Hazardless (.advance (2 * k))
  | .popNext c i => ∀ p ∈ (w.queue.lookup i).2,
      (w.locals p).FirstUse kLocalQueueSize (.advance (2 * c + 1)) ∧
        (w.locals p).Hazardless (.advance (2 * c + 1))
  | _ => True

instance (w : FastQueueWorld α) : DecidablePred w.Early
  | .next _ => inferInstanceAs (Decidable (_ ∧ ∀ p ∈ _, _ ∧ _))
  | .popNext _ _ => inferInstanceAs (Decidable (∀ p ∈ _, _ ∧ _))
  | .create _ | .push _ _ | .pushHard _ _ | .destroy _ | .pop _ _ => isTrue trivial

lemma careful_of_early {a : FastQueueStep α} (h : w.Early a) : w.Careful a := by
  cases a with
  | next k =>
    obtain ⟨hroom, hfresh⟩ := h
    have hvacated : ∀ p, (w.handles k).local_ = some p →
        (w.locals p).CellVacated kLocalQueueSize (.advance (2 * k)) := fun p hp =>
      LocalWorld.cellVacated_of_firstUse (hfresh p hp).1 (hfresh p hp).2
    have hcount : w.queue.created < 4294967296 := hroom.trans (by decide)
    cases hphase : w.phase k <;> simp only [Careful, hphase]
    case preempting => exact hcount
    case moving => exact hroom
    all_goals exact hvacated
  | popNext c i =>
    intro p hp
    obtain ⟨hfresh, hrange⟩ := h p (by rw [hp]; rfl)
    exact LocalWorld.cellVacated_of_firstUse hfresh hrange
  | create | push | pushHard | destroy | pop => exact trivial

/-- The handle 0 pushes 7 and is destroyed, and the handle 1 takes its token and pushes 8 while a
consumer pops. -/
def handedOver : List (FastQueueStep Nat) :=
  [.create 0] ++ List.replicate 10 (.next 0) ++ [.push 0 7] ++ List.replicate 6 (.next 0) ++
  [.destroy 0, .next 0, .create 1, .next 1, .push 1 8, .next 1, .next 1, .pop 0 0] ++
  List.replicate 2 (.popNext 0 0) ++ List.replicate 4 (.next 1) ++ List.replicate 3 (.popNext 0 0)

theorem fastQueue_shared_handedOver : ∃ w, exec step init handedOver = some w ∧
    (w.locals 0).pushed = [(0, 7), (1, 8)] ∧ (w.locals 0).popped = [(0, 7)] ∧ w.Shared := by
  have hok : Along step Careful init handedOver := by
    have hearly : Along step Early init handedOver := by decide +kernel
    exact hearly.mono fun _ _ h => careful_of_early h
  have heval : (exec step init handedOver).map (fun w => ((w.locals 0).pushed, (w.locals 0).popped)) =
      some ([(0, 7), (1, 8)], [(0, 7)]) := by decide +kernel
  obtain ⟨w, hrun, hw⟩ := Option.map_eq_some_iff.mp heval
  obtain ⟨hpushed, hpopped⟩ := Prod.mk.inj hw
  exact ⟨w, hrun, hpushed, hpopped, fastQueue_shared handedOver w hok hrun⟩

end FastQueueWorld

end CoplusLean
