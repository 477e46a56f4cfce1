import CoplusLean.Proofs.SlowQueue
import CoplusLean.Proofs.LocalQueue
import CoplusLean.Proofs.FastStack

/-!
# What the calls of `FastQueue` do

One specification for each function of `FastQueue` and `ProducerHandle`, in terms of the
values stored in the local queues, the tokens in the free list and the number of calls of
`create_queue`. Token `t` always names the object at address `t`, the one allocated by the
call that returned it.
-/

namespace CoplusLean.FastQueue

open Lib

variable {α : Type*}

/-- The values in each local queue, by address. -/
def stored (q : FastQueue α) : List (List α) :=
  q.heap.map (FastLocalQueue.contents kLocalQueueSize)

/-- The tokens waiting in the free list. -/
def freeTokens (q : FastQueue α) : List Int := q.freeList.contents

/-- The number of calls of `create_queue` so far. -/
def created (q : FastQueue α) : Nat := q.queueList.pushCount

/-- Tokens below this bound have a local queue. -/
def tokenBound (q : FastQueue α) : Nat := min q.created kQueueMaxCount

def ValidToken (q : FastQueue α) (t : Int) : Prop := 0 ≤ t ∧ t < q.tokenBound

/-- The consistency every call keeps. -/
structure Sound (q : FastQueue α) : Prop where
  list : q.queueList.Holds ((List.range q.tokenBound).map some)
  list_max : q.queueList.maxSize = kQueueMaxCount
  list_unit : q.queueList.unitSize = 10
  length_heap : q.heap.length = q.created
  quiet : ∀ l ∈ q.heap, l.Quiet kLocalQueueSize
  free : q.freeList.WellFormed
  free_max : q.freeList.maxSize = kFreeListSize
  tokens : ∀ t ∈ q.freeTokens, q.ValidToken t

lemma sound_new : (new : FastQueue α).Sound where
  list := PushOnlyFastStack.holds_new 10 kQueueMaxCount (by decide)
  list_max := rfl
  list_unit := rfl
  length_heap := rfl
  quiet l hl := by simp [new] at hl
  free := SlowQueue.wellFormed_new (by decide)
  free_max := rfl
  tokens t ht := by simp [freeTokens, new] at ht

@[simp] lemma length_stored (q : FastQueue α) : q.stored.length = q.heap.length := by
  simp [stored]

lemma quiet_getD [Inhabited α] {q : FastQueue α} (hq : q.Sound) (p : Nat) :
    (q.heap.getD p .new).Quiet kLocalQueueSize := by
  rw [List.getD_eq_getElem?_getD]
  rcases h : q.heap[p]? with _ | l
  · exact FastLocalQueue.quiet_new
  · exact hq.quiet l (List.mem_of_getElem? h)

lemma stored_getElem? [Inhabited α] (q : FastQueue α) {p : Nat} (hp : p < q.heap.length) :
    q.stored[p]? = some ((q.heap.getD p .new).contents kLocalQueueSize) := by
  simp [stored, List.getD_eq_getElem?_getD, List.getElem?_eq_getElem hp]

/-- `q'` differs from `q` only in the objects on the heap. -/
structure SameTokens (q q' : FastQueue α) : Prop where
  list : q'.queueList = q.queueList
  free : q'.freeList = q.freeList
  failed : q'.createFailed = q.createFailed
  length_heap : q'.heap.length = q.heap.length

lemma SameTokens.refl (q : FastQueue α) : SameTokens q q := ⟨rfl, rfl, rfl, rfl⟩

lemma SameTokens.trans {q q' q'' : FastQueue α} (h : SameTokens q q') (h' : SameTokens q' q'') :
    SameTokens q q'' :=
  ⟨h'.list.trans h.list, h'.free.trans h.free, h'.failed.trans h.failed,
    h'.length_heap.trans h.length_heap⟩

lemma Sound.of_same {q q' : FastQueue α} (hq : q.Sound) (h : SameTokens q q')
    (hquiet : ∀ l ∈ q'.heap, l.Quiet kLocalQueueSize) : q'.Sound := by
  obtain ⟨list, free, -, length_heap⟩ := h
  have hbound : q'.tokenBound = q.tokenBound := by simp only [tokenBound, created, list]
  refine ⟨by rw [hbound, list]; exact hq.list, by rw [list]; exact hq.list_max,
    by rw [list]; exact hq.list_unit, ?_, hquiet, by rw [free]; exact hq.free, by rw [free]; exact hq.free_max, ?_⟩
  · rw [length_heap, hq.length_heap, created, created, list]
  · intro t ht
    rw [freeTokens, free] at ht
    rw [ValidToken, hbound]
    exact hq.tokens t ht

lemma sameTokens_store (q : FastQueue α) (p : Nat) (l : FastLocalQueue α) :
    SameTokens q (q.store p l) := ⟨rfl, rfl, rfl, by simp [store]⟩

lemma sound_store {q : FastQueue α} (hq : q.Sound) {p : Nat} {l : FastLocalQueue α}
    (hl : l.Quiet kLocalQueueSize) : (q.store p l).Sound := by
  refine hq.of_same (sameTokens_store q p l) fun l' hl' => ?_
  rcases List.mem_or_eq_of_mem_set hl' with h | rfl
  · exact hq.quiet l' h
  · exact hl

lemma stored_store (q : FastQueue α) (p : Nat) (l : FastLocalQueue α) :
    (q.store p l).stored = q.stored.set p (l.contents kLocalQueueSize) := by
  simp [store, stored, List.map_set]

/-! ## Tokens -/

lemma lookup_of_valid {q : FastQueue α} (hq : q.Sound) {t : Int} (ht : q.ValidToken t) :
    q.lookup t = (true, some t.toNat) := by
  obtain ⟨h0, h1⟩ := ht
  have hget : q.queueList.get (t.toNat : Int) = .found (some t.toNat) := by
    refine PushOnlyFastStack.get_of_lt hq.list (by rw [hq.list_max]; decide) ?_
    have hlt : t.toNat < q.tokenBound := by omega
    simp [List.getElem?_range hlt]
  rw [Int.toNat_of_nonneg h0] at hget
  simp [lookup, hget]

lemma range_map_some_succ (n : Nat) :
    (List.range (n + 1)).map some = (List.range n).map some ++ [some n] := by
  rw [List.range_succ, List.map_append, List.map_singleton]

/-- The queue after `create_queue`, in either outcome. -/
def extended [Inhabited α] (q : FastQueue α) (failed : Bool) : FastQueue α :=
  ⟨(q.queueList.push (some q.heap.length)).2, q.freeList, q.heap ++ [.new], failed⟩

@[simp] lemma stored_extended [Inhabited α] (q : FastQueue α) (failed : Bool) :
    (q.extended failed).stored = q.stored ++ [[]] := by
  simp [extended, stored]

lemma sound_extended [Inhabited α] {q : FastQueue α} (hq : q.Sound) (failed : Bool)
    (hlist : (q.extended failed).queueList.Holds
      ((List.range (q.extended failed).tokenBound).map some))
    (hmax : (q.extended failed).queueList.maxSize = kQueueMaxCount)
    (hunit : (q.extended failed).queueList.unitSize = 10)
    (hcreated : (q.extended failed).created = q.created + 1) : (q.extended failed).Sound := by
  refine ⟨hlist, hmax, hunit, ?_, ?_, hq.free, hq.free_max, ?_⟩
  · rw [hcreated, ← hq.length_heap, extended]
    simp
  · intro l hl
    rcases List.mem_append.mp hl with hl | hl
    · exact hq.quiet l hl
    · rw [List.mem_singleton.mp hl]
      exact FastLocalQueue.quiet_new
  · intro t ht
    obtain ⟨h0, h1⟩ := hq.tokens t ht
    refine ⟨h0, ?_⟩
    simp only [tokenBound, hcreated] at h1 ⊢
    omega

/-- `create_queue` below the limit hands out a fresh token for a fresh empty queue. -/
lemma createQueue_of_room [Inhabited α] {q : FastQueue α} (hq : q.Sound)
    (h : q.created < kQueueMaxCount) :
    q.createQueue = (some (q.created : Int), q.extended q.createFailed) ∧
      (q.extended q.createFailed).Sound ∧
      (q.extended q.createFailed).created = q.created + 1 := by
  have hroom : q.queueList.pushCount < q.queueList.maxSize := by rw [hq.list_max]; exact h
  obtain ⟨htok, hcount, hmax, hunit, hholds⟩ := PushOnlyFastStack.push_of_room hq.list
    (by rw [hq.list_max]; decide) hroom (some q.heap.length)
  have hbound : q.tokenBound = q.created := Nat.min_eq_left h.le
  have hbound' : (q.extended q.createFailed).tokenBound = q.created + 1 := by
    rw [tokenBound, created, extended, hcount]
    exact Nat.min_eq_left h
  refine ⟨?_, sound_extended hq _ ?_ (hmax.trans hq.list_max) (hunit.trans hq.list_unit) hcount,
    hcount⟩
  · have hneg : ¬(q.queueList.push (some q.heap.length)).1 < 0 := by
      rw [htok]
      omega
    simp only [createQueue, if_neg hneg]
    rw [htok]
    rfl
  · rw [hbound', range_map_some_succ, ← hq.length_heap, hq.length_heap, ← hbound]
    rw [hq.length_heap, ← hbound] at hholds
    rw [extended, hq.length_heap, ← hbound]
    exact hholds

/-- `create_queue` at the limit fails; the object it allocated is lost. -/
lemma createQueue_of_full [Inhabited α] {q : FastQueue α} (hq : q.Sound)
    (h : kQueueMaxCount ≤ q.created) (hcount : q.created < 4294967296) :
    q.createQueue = (none, q.extended true) ∧ (q.extended true).Sound ∧
      (q.extended true).created = q.created + 1 := by
  obtain ⟨hpush, hholds⟩ := PushOnlyFastStack.push_of_full hq.list
    (by rw [hq.list_max]; exact h) (by rw [hq.list_max]; decide) hcount (some q.heap.length)
  have hcreated : (q.extended true).created = q.created + 1 := by
    rw [created, extended, hpush]
    rfl
  have hbound : (q.extended true).tokenBound = q.tokenBound := by
    rw [tokenBound, hcreated, tokenBound, Nat.min_eq_right h, Nat.min_eq_right (by omega)]
  refine ⟨by simp [createQueue, hpush, extended], sound_extended hq _ ?_ ?_ ?_ hcreated,
    hcreated⟩
  · rw [hbound]
    exact hholds
  · rw [extended, hpush]
    exact hq.list_max
  · rw [extended, hpush]
    exact hq.list_unit

/-! ## Retry loops -/

lemma retryLoop_of_true {σ : Type*} {f : σ → Bool × σ} {s s' : σ} (h : f s = (true, s')) (n : Nat) :
    retryLoop f (n + 1) s = (true, s') := by
  simp [retryLoop, h]

lemma retryLoop_of_false {σ : Type*} {f : σ → Bool × σ} {s s' : σ} (h : f s = (false, s'))
    (n : Nat) : retryLoop f (n + 1) s = retryLoop f n s' := by
  simp [retryLoop, h]

/-! ## Taking a local queue -/

lemma apply_of_nil {q : FastQueue α} (hq : q.Sound) (h : ProducerHandle)
    (hfree : q.freeTokens = []) : apply (q, h) = (false, q, h) := by
  have hempty : q.freeList.head = q.freeList.tail ∧ q.freeList.tail = 0 := by
    by_contra hne
    have := SlowQueue.contents_eq_cons hq.free hne
    rw [freeTokens] at hfree
    rw [hfree] at this
    exact List.cons_ne_nil _ _ this.symm
  simp [apply, SlowQueue.pop, hempty]

lemma apply_of_cons {q : FastQueue α} (hq : q.Sound) (h : ProducerHandle) {t : Int}
    {rest : List Int} (hfree : q.freeTokens = t :: rest) :
    ∃ q', apply (q, h) = (true, q', ⟨t, some t.toNat⟩) ∧ q'.Sound ∧ q'.freeTokens = rest ∧
      q'.queueList = q.queueList ∧ q'.heap = q.heap ∧ q'.createFailed = q.createFailed := by
  obtain ⟨hitem, hrest, hwf⟩ := SlowQueue.pop_spec hq.free
  rw [freeTokens] at hfree
  rw [hfree, List.head?_cons] at hitem
  rw [hfree, List.tail_cons] at hrest
  have hmax : (q.freeList.pop).2.maxSize = q.freeList.maxSize := by
    simp only [SlowQueue.pop]
    split_ifs <;> rfl
  have ht : q.ValidToken t := hq.tokens t (by rw [freeTokens, hfree]; exact List.mem_cons_self)
  have hsound : ({ q with freeList := (q.freeList.pop).2 } : FastQueue α).Sound := by
    refine ⟨hq.list, hq.list_max, hq.list_unit, hq.length_heap, hq.quiet, hwf,
      hmax.trans hq.free_max, ?_⟩
    intro t' ht'
    refine hq.tokens t' ?_
    rw [freeTokens, hrest] at ht'
    rw [freeTokens, hfree]
    exact List.mem_cons_of_mem t ht'
  refine ⟨_, ?_, hsound, hrest, rfl, rfl, rfl⟩
  have hlookup := lookup_of_valid hsound (t := t) ht
  rcases hpop : q.freeList.pop with ⟨item, freeList⟩
  rw [hpop] at hitem hlookup
  simp only at hitem hlookup
  subst hitem
  simp [apply, hpop, hlookup]

lemma preempt_of_room [Inhabited α] {q : FastQueue α} (hq : q.Sound) (h : ProducerHandle)
    (hroom : q.created < kQueueMaxCount) :
    preempt (q, h) = (true, q.extended q.createFailed, ⟨q.created, some q.created⟩) := by
  obtain ⟨hcreate, hsound, hcreated⟩ := createQueue_of_room hq hroom
  have hvalid : (q.extended q.createFailed).ValidToken q.created := by
    refine ⟨by omega, ?_⟩
    rw [tokenBound, hcreated]
    omega
  simp [preempt, hcreate, lookup_of_valid hsound hvalid]

/-- All attempts to create a queue fail once the limit is reached. -/
lemma retry_preempt_of_full [Inhabited α] (h : ProducerHandle) (n : Nat) :
    ∀ q : FastQueue α, q.Sound → kQueueMaxCount ≤ q.created → q.created + n ≤ 4294967296 →
      ∃ q', retryLoop preempt n (q, h) = (false, q', h) ∧ q'.Sound ∧
        q'.created = q.created + n ∧ q'.freeList = q.freeList ∧
        q'.stored = q.stored ++ List.replicate n [] ∧ (0 < n → q'.createFailed = true) := by
  induction n with
  | zero => exact fun q hq _ _ => ⟨q, rfl, hq, rfl, rfl, by simp, by simp⟩
  | succ n ih =>
    intro q hq hfull hcount
    obtain ⟨hcreate, hsound, hcreated⟩ := createQueue_of_full hq hfull (by omega)
    have hfail : preempt (q, h) = (false, q.extended true, h) := by simp [preempt, hcreate]
    obtain ⟨q', hloop, hsound', hcreated', hfree, hstored, hflag⟩ :=
      ih (q.extended true) hsound (by omega) (by omega)
    refine ⟨q', by rw [retryLoop_of_false hfail, hloop], hsound', by omega, hfree, ?_, ?_⟩
    · rw [hstored, stored_extended, List.append_assoc, List.replicate_succ]
      rfl
    · intro _
      cases n with
      | zero =>
        obtain rfl : q.extended true = q' := by simpa [retryLoop] using hloop
        rfl
      | succ n => exact hflag (by omega)

/-- What taking a queue can do: reuse the first free token, create a queue, or fail. -/
inductive Acquired [Inhabited α] (q : FastQueue α) (h : ProducerHandle) :
    FastQueue α × ProducerHandle → Prop where
  | reused (q' : FastQueue α) (t : Int) (rest : List Int) (hfree : q.freeTokens = t :: rest)
      (hrest : q'.freeTokens = rest) (hlist : q'.queueList = q.queueList)
      (hheap : q'.heap = q.heap) (hflag : q'.createFailed = q.createFailed) (hsound : q'.Sound) :
      Acquired q h (q', ⟨t, some t.toNat⟩)
  | created (hfree : q.freeTokens = []) (hroom : q.created < kQueueMaxCount)
      (hsound : (q.extended q.createFailed).Sound) :
      Acquired q h (q.extended q.createFailed, ⟨q.created, some q.created⟩)
  | failed (q' : FastQueue α) (hfree : q.freeTokens = []) (hfull : kQueueMaxCount ≤ q.created)
      (hcreated : q'.created = q.created + 9) (hlist : q'.freeList = q.freeList)
      (hstored : q'.stored = q.stored ++ List.replicate 9 []) (hflag : q'.createFailed = true)
      (hsound : q'.Sound) : Acquired q h (q', h)

lemma acquire_cases [Inhabited α] {q : FastQueue α} (hq : q.Sound) (h : ProducerHandle)
    (hcount : q.created + 9 ≤ 4294967296) : Acquired q h (acquire (q, h)) := by
  unfold acquire
  rcases hfree : q.freeTokens with _ | ⟨t, rest⟩
  · have happly : ∀ n, retryLoop apply n (q, h) = (false, q, h) := by
      intro n
      induction n with
      | zero => rfl
      | succ n ih => rw [retryLoop_of_false (apply_of_nil hq h hfree), ih]
    rw [happly]
    by_cases hroom : q.created < kQueueMaxCount
    · have hloop : retryLoop preempt (kProducerRetry - 1) (q, h) = _ :=
        retryLoop_of_true (preempt_of_room hq h hroom) 8
      simp only [hloop]
      exact .created hfree hroom (createQueue_of_room hq hroom).2.1
    · obtain ⟨q', hloop, hsound, hcreated, hlist, hstored, hflag⟩ :=
        retry_preempt_of_full h (kProducerRetry - 1) q hq (by omega) hcount
      simp only [hloop]
      exact .failed q' hfree (by omega) hcreated hlist hstored (hflag (by decide)) hsound
  · obtain ⟨q', happly, hsound, hrest, hlist, hheap, hflag⟩ := apply_of_cons hq h hfree
    have hloop : retryLoop apply (kProducerRetry - 1) (q, h) = _ := retryLoop_of_true happly 8
    simp only [hloop]
    exact .reused q' t rest hfree hrest hlist hheap hflag hsound

/-! ## Storing a value -/

/-- The local queue at `p` refuses a value. -/
def Full (q : FastQueue α) (p : Nat) : Prop := (q.stored.getD p []).length = kLocalQueueSize

lemma stored_getD [Inhabited α] (q : FastQueue α) {p : Nat} (hp : p < q.heap.length) :
    q.stored.getD p [] = (q.heap.getD p .new).contents kLocalQueueSize := by
  rw [List.getD_eq_getElem?_getD, stored_getElem? q hp, Option.getD_some]

lemma pushLocal_of_room [Inhabited α] {q : FastQueue α} (hq : q.Sound) {p : Nat}
    (hp : p < q.heap.length) (x : α) (hroom : ¬q.Full p) :
    ∃ q', pushLocal x p q = (true, q') ∧ q'.Sound ∧ SameTokens q q' ∧
      q'.stored = q.stored.set p (q.stored.getD p [] ++ [x]) := by
  obtain ⟨hquiet, hok, hcont⟩ :=
    FastLocalQueue.push_spec FastLocalQueue.slotSize_kLocalQueueSize (quiet_getD hq p) x
  have hle := (quiet_getD hq p).tail_le
  have hlt : ((q.heap.getD p .new).contents kLocalQueueSize).length < kLocalQueueSize := by
    rw [Full, stored_getD q hp] at hroom
    rw [FastLocalQueue.length_contents] at hroom ⊢
    omega
  rw [if_pos hlt] at hcont
  refine ⟨_, ?_, sound_store (p := p) hq hquiet, sameTokens_store _ _ _, ?_⟩
  · simp only [pushLocal, hok, hlt, decide_true]
  · rw [stored_store, hcont, stored_getD q hp]

lemma pushLocal_of_full [Inhabited α] {q : FastQueue α} (hq : q.Sound) {p : Nat}
    (hp : p < q.heap.length) (x : α) (hfull : q.Full p) :
    ∃ q', pushLocal x p q = (false, q') ∧ q'.Sound ∧ SameTokens q q' ∧
      q'.stored = q.stored := by
  obtain ⟨hquiet, hok, hcont⟩ :=
    FastLocalQueue.push_spec FastLocalQueue.slotSize_kLocalQueueSize (quiet_getD hq p) x
  rw [Full, stored_getD q hp] at hfull
  have hlt : ¬((q.heap.getD p .new).contents kLocalQueueSize).length < kLocalQueueSize := by
    omega
  rw [if_neg hlt] at hcont
  refine ⟨_, ?_, sound_store (p := p) hq hquiet, sameTokens_store _ _ _, ?_⟩
  · simp only [pushLocal, hok, hlt, decide_false]
  · rw [stored_store, hcont, ← stored_getD q hp, List.getD_eq_getElem?_getD]
    have hp' : p < q.stored.length := by rw [length_stored]; exact hp
    rw [List.getElem?_eq_getElem hp', Option.getD_some, List.set_getElem_self]

lemma retry_pushLocal_of_full [Inhabited α] (p : Nat) (x : α) (n : Nat) :
    ∀ q : FastQueue α, q.Sound → p < q.heap.length → q.Full p →
      ∃ q', retryLoop (pushLocal x p) n q = (false, q') ∧ q'.Sound ∧ SameTokens q q' ∧
        q'.stored = q.stored := by
  induction n with
  | zero => exact fun q hq _ _ => ⟨q, rfl, hq, .refl q, rfl⟩
  | succ n ih =>
    intro q hq hp hfull
    obtain ⟨q₁, hpush, hq₁, hsame₁, hstored₁⟩ := pushLocal_of_full hq hp x hfull
    obtain ⟨q₂, hloop, hq₂, hsame₂, hstored₂⟩ := ih q₁ hq₁ (by rw [hsame₁.length_heap]; exact hp)
      (by rw [Full, hstored₁]; exact hfull)
    exact ⟨q₂, by rw [retryLoop_of_false hpush, hloop], hq₂, hsame₁.trans hsame₂,
      hstored₂.trans hstored₁⟩

/-- A handle with a queue holds the token that names it. -/
def ValidHandle (q : FastQueue α) (h : ProducerHandle) : Prop :=
  ∀ p, h.local_ = some p → h.token = p ∧ p < q.tokenBound

lemma tokenBound_le_heap {q : FastQueue α} (hq : q.Sound) : q.tokenBound ≤ q.heap.length := by
  rw [hq.length_heap]
  exact Nat.min_le_left _ _

/-- The free list after `FreeList.push(token)`, which a full list refuses. -/
lemma giveBack_cases {q : FastQueue α} (hq : q.Sound) (t : Int) :
    (q.freeTokens.length = kFreeListSize ∧ (q.freeList.push t).2 = q.freeList) ∨
    (q.freeTokens.length < kFreeListSize ∧
      (q.giveBack t).freeTokens.Perm (q.freeTokens ++ [t])) := by
  rcases SlowQueue.push_spec hq.free t with ⟨hlen, hpush⟩ | ⟨hlen, -, -, hperm⟩
  · left
    exact ⟨by rw [freeTokens, hlen, hq.free_max], by rw [hpush]⟩
  · right
    exact ⟨by rw [freeTokens, ← hq.free_max]; exact hlen, hperm⟩

lemma sound_giveBack {q : FastQueue α} (hq : q.Sound) {t : Int} (ht : q.ValidToken t) :
    (q.giveBack t).Sound := by
  rcases SlowQueue.push_spec hq.free t with ⟨-, hpush⟩ | ⟨-, -, hwf, hperm⟩
  · rw [giveBack, hpush]
    exact hq
  · have hmax : (q.freeList.push t).2.maxSize = q.freeList.maxSize := by
      simp only [SlowQueue.push]
      split_ifs <;> rfl
    refine ⟨hq.list, hq.list_max, hq.list_unit, hq.length_heap, hq.quiet, hwf,
      hmax.trans hq.free_max, ?_⟩
    intro t' ht'
    rcases List.mem_append.mp (hperm.mem_iff.mp ht') with h | h
    · exact hq.tokens t' h
    · rw [List.mem_singleton.mp h]
      exact ht

/-- The queue and handle with which `push_hard` makes its first attempts. -/
inductive Started [Inhabited α] (q : FastQueue α) (h : ProducerHandle) :
    FastQueue α × ProducerHandle → Prop where
  | held (p : Nat) (hlocal : h.local_ = some p) : Started q h (q, h)
  | acquired (s : FastQueue α × ProducerHandle) (hlocal : h.local_ = none)
      (hacquired : Acquired q h s) : Started q h s

lemma Started.sound [Inhabited α] {q : FastQueue α} {h : ProducerHandle}
    {s : FastQueue α × ProducerHandle} (hq : q.Sound) (hs : Started q h s) : s.1.Sound := by
  cases hs with
  | held p hlocal => exact hq
  | acquired s hlocal hacquired => cases hacquired <;> assumption

lemma Started.valid [Inhabited α] {q : FastQueue α} {h : ProducerHandle}
    {s : FastQueue α × ProducerHandle} (hq : q.Sound) (hh : q.ValidHandle h)
    (hs : Started q h s) : s.1.ValidHandle s.2 := by
  cases hs with
  | held p hlocal => exact hh
  | acquired s hlocal hacquired =>
    cases hacquired with
    | reused q' t rest hfree hrest hlist hheap hflag hsound =>
      rintro p hp
      obtain rfl : t.toNat = p := by simpa using hp
      obtain ⟨h0, h1⟩ := hq.tokens t (by rw [hfree]; exact List.mem_cons_self)
      refine ⟨(Int.toNat_of_nonneg h0).symm, ?_⟩
      simp only [tokenBound, created, hlist] at h1 ⊢
      omega
    | created hfree hroom hsound =>
      rintro p hp
      obtain rfl : q.created = p := by simpa using hp
      refine ⟨rfl, ?_⟩
      rw [tokenBound, (createQueue_of_room hq hroom).2.2]
      omega
    | failed q' hfree hfull hcreated hlist hstored hflag hsound =>
      intro p hp
      simp [hlocal] at hp

lemma Started.created_le [Inhabited α] {q : FastQueue α} {h : ProducerHandle}
    {s : FastQueue α × ProducerHandle} (hq : q.Sound) (hs : Started q h s) :
    s.1.created ≤ q.created + 9 := by
  cases hs with
  | held p hlocal => exact Nat.le_add_right _ _
  | acquired s hlocal hacquired =>
    cases hacquired with
    | reused q' t rest hfree hrest hlist hheap hflag hsound => simp [FastQueue.created, hlist]
    | created hfree hroom hsound =>
      simp only [(createQueue_of_room hq hroom).2.2]
      omega
    | failed q' hfree hfull hcreated hlist hstored hflag hsound => exact hcreated.le

/-- What `push_hard` can do, from the state `s` in which its first attempts start: give up
without a queue, store into the first queue, move on to a new queue, or find no new queue
and keep the full one although its token was given back. -/
inductive PushedHard [Inhabited α] (x : α) (s : FastQueue α × ProducerHandle) :
    Bool × FastQueue α × ProducerHandle → Prop where
  | noQueue (hlocal : s.2.local_ = none) : PushedHard x s (false, s)
  | first (p : Nat) (q' : FastQueue α) (hlocal : s.2.local_ = some p) (hroom : ¬s.1.Full p)
      (hsound : q'.Sound) (hsame : SameTokens s.1 q')
      (hstored : q'.stored = s.1.stored.set p (s.1.stored.getD p [] ++ [x])) :
      PushedHard x s (true, q', s.2)
  | moved (p : Nat) (q' : FastQueue α) (hlocal : s.2.local_ = some p) (hfull : s.1.Full p)
      (hlimit : s.1.created < kQueueMaxCount) (hsound : q'.Sound)
      (hcreated : q'.created = s.1.created + 1)
      (hfree : q'.freeList = (s.1.freeList.push s.2.token).2)
      (hflag : q'.createFailed = s.1.createFailed) (hstored : q'.stored = s.1.stored ++ [[x]]) :
      PushedHard x s (true, q', ⟨s.1.created, some s.1.created⟩)
  | stuck (p : Nat) (q' : FastQueue α) (hlocal : s.2.local_ = some p) (hfull : s.1.Full p)
      (hlimit : kQueueMaxCount ≤ s.1.created) (hsound : q'.Sound)
      (hcreated : q'.created = s.1.created + 9)
      (hfree : q'.freeList = (s.1.freeList.push s.2.token).2) (hflag : q'.createFailed = true)
      (hstored : q'.stored = s.1.stored ++ List.replicate 9 []) :
      PushedHard x s (false, q', s.2)

/-- The second half of `push_hard` when a new queue can be created. -/
lemma pushSecond_of_room [Inhabited α] {q : FastQueue α} {h : ProducerHandle}
    (hq : (q.giveBack h.token).Sound) (x : α) (hlimit : q.created < kQueueMaxCount) :
    ∃ q', pushSecond (q, h) x = (true, q', ⟨q.created, some q.created⟩) ∧ q'.Sound ∧
      q'.created = q.created + 1 ∧ q'.freeList = (q.freeList.push h.token).2 ∧
      q'.createFailed = q.createFailed ∧ q'.stored = q.stored ++ [[x]] := by
  have hloop : retryLoop preempt (kProducerRetry - 1) (q.giveBack h.token, h) = _ :=
    retryLoop_of_true (preempt_of_room hq h hlimit) 8
  obtain ⟨-, hsound₁, hcreated₁⟩ := createQueue_of_room hq hlimit
  have hstored₁ := stored_extended (q.giveBack h.token) (q.giveBack h.token).createFailed
  have hfree₁ : ((q.giveBack h.token).extended (q.giveBack h.token).createFailed).freeList =
      (q.freeList.push h.token).2 := rfl
  have hflag₁ : ((q.giveBack h.token).extended (q.giveBack h.token).createFailed).createFailed =
      q.createFailed := rfl
  rw [show (q.giveBack h.token).stored = q.stored from rfl] at hstored₁
  rw [show (q.giveBack h.token).created = q.created from rfl] at hcreated₁ hloop
  generalize (q.giveBack h.token).extended (q.giveBack h.token).createFailed = q₁ at *
  have hlen : q.stored.length = q.created := by
    rw [length_stored]
    exact hq.length_heap
  have hget : q₁.stored.getD q.created [] = [] := by
    rw [hstored₁, List.getD_eq_getElem?_getD, List.getElem?_append_right (by omega), hlen]
    simp
  have hroom : ¬q₁.Full q.created := by
    rw [Full, hget]
    simp [kLocalQueueSize]
  obtain ⟨q₂, hpush, hsound₂, hsame₂, hstored₂⟩ := pushLocal_of_room hsound₁
    (by rw [hsound₁.length_heap, hcreated₁]; omega) x hroom
  have hloop₂ : retryLoop (pushLocal x q.created) (kProducerRetry - 1) q₁ = (true, q₂) :=
    retryLoop_of_true hpush 8
  refine ⟨q₂, by simp only [pushSecond, hloop, hloop₂], hsound₂, ?_, ?_, ?_, ?_⟩
  · rw [created, hsame₂.list]
    exact hcreated₁
  · rw [hsame₂.free, hfree₁]
  · rw [hsame₂.failed, hflag₁]
  · rw [hstored₂, hget, hstored₁, ← hlen, List.set_append_right _ _ (Nat.le_refl _)]
    simp

/-- The second half of `push_hard` when no queue can be created any more. -/
lemma pushSecond_of_limit [Inhabited α] {q : FastQueue α} {h : ProducerHandle}
    (hq : (q.giveBack h.token).Sound) (x : α) {p : Nat} (hlocal : h.local_ = some p)
    (hp : p < q.heap.length) (hfull : q.Full p) (hlimit : kQueueMaxCount ≤ q.created)
    (hcount : q.created + 9 ≤ 4294967296) :
    ∃ q', pushSecond (q, h) x = (false, q', h) ∧ q'.Sound ∧
      q'.created = q.created + 9 ∧ q'.freeList = (q.freeList.push h.token).2 ∧
      q'.createFailed = true ∧ q'.stored = q.stored ++ List.replicate 9 [] := by
  obtain ⟨q₁, hloop, hsound₁, hcreated₁, hfree₁, hstored₁, hflag₁⟩ :=
    retry_preempt_of_full h (kProducerRetry - 1) (q.giveBack h.token) hq hlimit hcount
  rw [show (q.giveBack h.token).stored = q.stored from rfl] at hstored₁
  have hfull₁ : q₁.Full p := by
    rw [Full, hstored₁, List.getD_eq_getElem?_getD, List.getElem?_append_left (by
      rw [length_stored]; exact hp), ← List.getD_eq_getElem?_getD]
    exact hfull
  have hp₁ : p < q₁.heap.length := by
    rw [← length_stored, hstored₁, List.length_append, length_stored]
    omega
  obtain ⟨q₂, hpush, hsound₂, hsame₂, hstored₂⟩ :=
    retry_pushLocal_of_full p x (kProducerRetry - 1) q₁ hsound₁ hp₁ hfull₁
  refine ⟨q₂, by simp only [pushSecond, hloop, hlocal, hpush], hsound₂, ?_, ?_, ?_, ?_⟩
  · rw [created, hsame₂.list]
    exact hcreated₁
  · rw [hsame₂.free, hfree₁]
    rfl
  · rw [hsame₂.failed]
    exact hflag₁ (by decide)
  · rw [hstored₂, hstored₁]
    rfl

/-- The attempts on the first queue, from a state in which the handle has one. -/
lemma pushFirst_cases [Inhabited α] {s : FastQueue α × ProducerHandle} (hs : s.1.Sound)
    (hvalid : s.1.ValidHandle s.2) (hcount : s.1.created + 9 ≤ 4294967296) (x : α) {p : Nat}
    (hlocal : s.2.local_ = some p) : PushedHard x s (pushFirst s p x) := by
  obtain ⟨htok, hlt⟩ := hvalid p hlocal
  have hp : p < s.1.heap.length := hlt.trans_le (tokenBound_le_heap hs)
  by_cases hfull : s.1.Full p
  · obtain ⟨q₁, hloop, hsound₁, hsame, hstored⟩ :=
      retry_pushLocal_of_full p x (kProducerRetry - 1) s.1 hs hp hfull
    have hcreated : q₁.created = s.1.created := by rw [created, created, hsame.list]
    have hback : (q₁.giveBack s.2.token).Sound := by
      refine sound_giveBack hsound₁ ?_
      rw [htok, ValidToken, tokenBound, hcreated]
      exact ⟨by omega, by exact_mod_cast hlt⟩
    rw [pushFirst, hloop]
    by_cases hlimit : s.1.created < kQueueMaxCount
    · obtain ⟨q₂, hsecond, hsound₂, hcreated₂, hfree₂, hflag₂, hstored₂⟩ :=
        pushSecond_of_room hback x (by omega)
      simp only [hsecond]
      rw [hcreated]
      exact .moved p q₂ hlocal hfull hlimit hsound₂ (by omega) (by rw [hfree₂, hsame.free])
        (by rw [hflag₂, hsame.failed]) (by rw [hstored₂, hstored])
    · obtain ⟨q₂, hsecond, hsound₂, hcreated₂, hfree₂, hflag₂, hstored₂⟩ :=
        pushSecond_of_limit hback x hlocal (by rw [hsame.length_heap]; exact hp)
          (by rw [Full, hstored]; exact hfull) (by omega) (by omega)
      simp only [hsecond]
      exact .stuck p q₂ hlocal hfull (by omega) hsound₂ (by omega) (by rw [hfree₂, hsame.free])
        hflag₂ (by rw [hstored₂, hstored])
  · obtain ⟨q', hpush, hsound', hsame, hstored⟩ := pushLocal_of_room hs hp x hfull
    have hloop : retryLoop (pushLocal x p) (kProducerRetry - 1) s.1 = (true, q') :=
      retryLoop_of_true hpush 8
    rw [pushFirst, hloop]
    exact .first p q' hlocal hfull hsound' hsame hstored

theorem pushHard_cases [Inhabited α] {q : FastQueue α} (hq : q.Sound) {h : ProducerHandle}
    (hh : q.ValidHandle h) (hcount : q.created + 18 ≤ 4294967296) (x : α) :
    ∃ s, Started q h s ∧ PushedHard x s (pushHard q h x) := by
  obtain ⟨s, hstart, hs⟩ : ∃ s, Started q h s ∧
      (if h.local_ = none then acquire (q, h) else (q, h)) = s := by
    refine ⟨_, ?_, rfl⟩
    rcases hlocal : h.local_ with _ | p
    · rw [if_pos rfl]
      exact .acquired _ hlocal (acquire_cases hq h (by omega))
    · rw [if_neg (by simp)]
      exact .held p hlocal
  refine ⟨s, hstart, ?_⟩
  have hle := hstart.created_le hq
  rw [pushHard, hs]
  rcases hlocal : s.2.local_ with _ | p
  · exact .noQueue hlocal
  · exact pushFirst_cases (hstart.sound hq) (hstart.valid hq hh) (by omega) x hlocal

/-! ## Taking a value -/

/-- What a pop does to the stored values: it takes the first one of some local queue, or
takes nothing. -/
def Took (q : FastQueue α) (result : Option α) (q' : FastQueue α) : Prop :=
  match result with
  | none => q'.stored = q.stored
  | some x => ∃ i rest, q.stored[i]? = some (x :: rest) ∧ q'.stored = q.stored.set i rest

lemma Took.of_eq {q₁ q₂ q' : FastQueue α} {result : Option α} (h : q₁.stored = q₂.stored)
    (ht : q₁.Took result q') : q₂.Took result q' := by
  cases result with
  | none => exact Eq.trans ht h
  | some x => simpa only [Took, h] using ht

/-- The outcome of probing: the tokens are untouched and `Took` describes the values. -/
structure Probed (q : FastQueue α) (result : Option α) (q' : FastQueue α) : Prop where
  sound : q'.Sound
  same : SameTokens q q'
  took : q.Took result q'

lemma Probed.nothing {q : FastQueue α} (hq : q.Sound) : Probed q none q := ⟨hq, .refl q, rfl⟩

lemma Probed.trans {q q₁ q' : FastQueue α} {result : Option α} (h₁ : Probed q none q₁)
    (h : Probed q₁ result q') : Probed q result q' :=
  ⟨h.sound, h₁.same.trans h.same, h.took.of_eq h₁.took⟩

/-- Probing a token that names a local queue takes the first value of that queue. -/
lemma probe_at [Inhabited α] {q : FastQueue α} (hq : q.Sound) {i : Nat} (hi : i < q.tokenBound) :
    ∃ q', q.probe i = some (some ((q.stored.getD i []).head?, q')) ∧ q'.Sound ∧ SameTokens q q' ∧
      q'.stored = q.stored.set i (q.stored.getD i []).tail := by
  have hget : q.queueList.get (i : Int) = .found (some i) :=
    PushOnlyFastStack.get_of_lt hq.list (by rw [hq.list_max]; decide)
      (by simp [List.getElem?_range hi])
  have hp : i < q.heap.length := hi.trans_le (tokenBound_le_heap hq)
  obtain ⟨hquiet, hitem, hrest⟩ :=
    FastLocalQueue.pop_spec FastLocalQueue.slotSize_kLocalQueueSize (quiet_getD hq i)
  rw [← stored_getD q hp] at hitem hrest
  refine ⟨_, by simp only [probe, hget, hitem], sound_store (p := i) hq hquiet,
    sameTokens_store _ _ _, ?_⟩
  rw [stored_store, hrest]

lemma probe_of_valid [Inhabited α] {q : FastQueue α} (hq : q.Sound) {i : Nat}
    (hi : i < q.tokenBound) :
    ∃ q', q.probe i = some (some ((q.stored.getD i []).head?, q')) ∧
      Probed q (q.stored.getD i []).head? q' := by
  obtain ⟨q', hprobe, hsound, hsame, hstored⟩ := probe_at hq hi
  refine ⟨q', hprobe, hsound, hsame, ?_⟩
  have hlt : i < q.stored.length := by
    rw [length_stored]
    exact hi.trans_le (tokenBound_le_heap hq)
  have hcell : q.stored[i]? = some (q.stored.getD i []) := by
    rw [List.getD_eq_getElem?_getD, List.getElem?_eq_getElem hlt, Option.getD_some]
  rcases hxs : q.stored.getD i [] with _ | ⟨x, rest⟩
  · rw [hxs] at hcell hstored
    rw [List.head?_nil, Took, hstored, List.tail_nil]
    obtain ⟨_, hcell⟩ := List.getElem?_eq_some_iff.mp hcell
    rw [← hcell, List.set_getElem_self]
  · rw [hxs] at hcell hstored
    rw [List.head?_cons]
    exact ⟨i, rest, hcell, by rw [hstored, List.tail_cons]⟩

lemma probed_of_probe [Inhabited α] {q q' : FastQueue α} (hq : q.Sound) {i : Nat} {r : Option α}
    (hi : i < 2147483648) (h : q.probe i = some (some (r, q'))) : Probed q r q' := by
  rcases hget : q.queueList.get (i : Int) with _ | (_ | p) | _
  · simp [probe, hget] at h
  · simp [probe, hget] at h
  · have hitem := PushOnlyFastStack.chunk_of_get hq.list hi hget
    have hlt : i < q.tokenBound := by
      by_contra hge
      rw [List.getD_eq_getElem?_getD, List.getElem?_eq_none (by simp; omega)] at hitem
      simp at hitem
    obtain ⟨q₁, hprobe, hprobed⟩ := probe_of_valid hq hlt
    rw [hprobe] at h
    simp only [Option.some.injEq, Prod.mk.injEq] at h
    obtain ⟨rfl, rfl⟩ := h
    exact hprobed
  · simp [probe, hget] at h

lemma probed_of_probeOr [Inhabited α] {q q' : FastQueue α} (hq : q.Sound) {i : Nat} {r : Option α}
    {next : FastQueue α → Option (Option α × FastQueue α)} (hi : i < 2147483648)
    (hnext : ∀ q₁ : FastQueue α, q₁.Sound → next q₁ = some (r, q') → Probed q₁ r q')
    (h : q.probeOr i next = some (r, q')) : Probed q r q' := by
  rcases hprobe : q.probe i with _ | _ | ⟨_ | x, q₁⟩
  · simp [probeOr, hprobe] at h
  · simp only [probeOr, hprobe] at h
    exact hnext q hq h
  · simp only [probeOr, hprobe] at h
    have hfirst := probed_of_probe hq hi hprobe
    exact hfirst.trans (hnext q₁ hfirst.sound h)
  · simp only [probeOr, hprobe, Option.some.injEq, Prod.mk.injEq] at h
    obtain ⟨rfl, rfl⟩ := h
    exact probed_of_probe hq hi hprobe

lemma probed_of_end {q q' : FastQueue α} {r : Option α} (hq : q.Sound)
    (h : some (none, q) = some (r, q')) : Probed q r q' := by
  simp only [Option.some.injEq, Prod.mk.injEq] at h
  obtain ⟨rfl, rfl⟩ := h
  exact .nothing hq

lemma probed_of_popDown [Inhabited α] {q' : FastQueue α} {r : Option α} (i : Nat) :
    ∀ q : FastQueue α, q.Sound → i < 2147483648 → popDown q i = some (r, q') → Probed q r q' := by
  induction i with
  | zero => exact fun q hq hi h => probed_of_probeOr hq hi (fun _ hq₁ h₁ => probed_of_end hq₁ h₁) h
  | succ i ih =>
    exact fun q hq hi h => probed_of_probeOr hq hi (fun q₁ hq₁ h₁ => ih q₁ hq₁ (by omega) h₁) h

lemma probed_of_popUp [Inhabited α] {q' : FastQueue α} {r : Option α} (fuel : Nat) :
    ∀ (q : FastQueue α) (i : Nat) (n : Int), q.Sound → n < 2147483648 →
      q.queueList.size < 2147483648 → popUp q fuel i n = some (r, q') → Probed q r q' := by
  induction fuel with
  | zero =>
    intro q i n hq _ _ h
    exact probed_of_end hq h
  | succ fuel ih =>
    intro q i n hq hn hsize h
    by_cases hi : (i : Int) < n
    · rcases hprobe : q.probe i with _ | _ | ⟨_ | x, q₁⟩
      · simp [popUp, hi, hprobe] at h
      · simp only [popUp, hi, if_true, hprobe] at h
        exact probed_of_end hq h
      · simp only [popUp, hi, if_true, hprobe] at h
        have hfirst := probed_of_probe hq (by omega) hprobe
        have hsize₁ : q₁.queueList.size < 2147483648 := by rw [hfirst.same.list]; exact hsize
        refine hfirst.trans (ih q₁ (i + 1) _ hfirst.sound ?_ hsize₁ h)
        split_ifs
        · exact hsize₁
        · exact hn
      · simp only [popUp, hi, if_true, hprobe, Option.some.injEq, Prod.mk.injEq] at h
        obtain ⟨rfl, rfl⟩ := h
        exact probed_of_probe hq (by omega) hprobe
    · simp only [popUp, hi, if_false] at h
      exact probed_of_end hq h

theorem probed_of_popHard [Inhabited α] {q q' : FastQueue α} (hq : q.Sound) {middle : Nat}
    {r : Option α} (hm : middle < 2147483648) (h : q.popHard middle = some (r, q')) :
    Probed q r q' := by
  have hsize : ∀ q : FastQueue α, q.queueList.size < 2147483648 := fun q => (int32_bounds _).2
  rcases hdown : popDown q middle with _ | ⟨_ | x, q₁⟩
  · simp [popHard, hdown] at h
  · simp only [popHard, hdown] at h
    have hfirst := probed_of_popDown middle q hq hm hdown
    exact hfirst.trans (probed_of_popUp _ q₁ _ _ hfirst.sound (hsize q) (hsize q₁) h)
  · simp only [popHard, hdown, Option.some.injEq, Prod.mk.injEq] at h
    obtain ⟨rfl, rfl⟩ := h
    exact probed_of_popDown middle q hq hm hdown

lemma probed_of_popProbe [Inhabited α] {q' : FastQueue α} {r : Option α} {index : Nat}
    (fuel : Nat) : ∀ (q : FastQueue α) (i cur : Nat), q.Sound →
      popProbe q index fuel i cur = some (r, q') → Probed q r q' := by
  induction fuel with
  | zero =>
    intro q i cur hq h
    simp [popProbe] at h
  | succ fuel ih =>
    intro q i cur hq h
    rw [popProbe] at h
    split_ifs at h with hturn hsize
    · have hbound := (int32_bounds q.queueList.pushCount).2
      have hcur : cur % q.queueList.size.toNat < 2147483648 := by
        have := Nat.mod_lt cur (show 0 < q.queueList.size.toNat by omega)
        have : q.queueList.size < 2147483648 := hbound
        omega
      exact probed_of_probeOr hq hcur (fun q₁ hq₁ h₁ => ih q₁ _ _ hq₁ h₁) h
    · exact probed_of_end hq h

end CoplusLean.FastQueue
