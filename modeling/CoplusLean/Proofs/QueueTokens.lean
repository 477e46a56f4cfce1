import CoplusLean.Proofs.QueueSteps

/-!
# Who owns a local queue

Every local queue of a `FastQueue` is named by a token, and a token is either held by one
handle, waiting in the free list, or lost. The exception is a handle whose `push_hard`
finds its queue full when no further queue can be created: it gives its token back and
goes on using the queue.
-/

namespace CoplusLean

open Lib FastQueue

/-! ## Ownership in the abstract -/

/-- `held k` is the queue of handle `k`, `free` the free list; all names are below `bound`. -/
structure Exclusive (held : Nat → Option Nat) (free : List Int) (bound : Nat) : Prop where
  held_lt : ∀ k p, held k = some p → p < bound
  free_lt : ∀ t ∈ free, 0 ≤ t ∧ t < bound
  inj : ∀ j k p, held j = some p → held k = some p → j = k
  nodup : free.Nodup
  disjoint : ∀ k p, held k = some p → (p : Int) ∉ free

namespace Exclusive

variable {held : Nat → Option Nat} {free : List Int} {bound : Nat}

lemma mono (h : Exclusive held free bound) {bound' : Nat} (hle : bound ≤ bound') :
    Exclusive held free bound' where
  held_lt k p hk := (h.held_lt k p hk).trans_le hle
  free_lt t ht := ⟨(h.free_lt t ht).1, by have := (h.free_lt t ht).2; omega⟩
  inj := h.inj
  nodup := h.nodup
  disjoint := h.disjoint

lemma perm (h : Exclusive held free bound) {free' : List Int} (hperm : free'.Perm free) :
    Exclusive held free' bound where
  held_lt := h.held_lt
  free_lt t ht := h.free_lt t (hperm.mem_iff.mp ht)
  inj := h.inj
  nodup := hperm.nodup_iff.mpr h.nodup
  disjoint k p hk := fun hp => h.disjoint k p hk (hperm.mem_iff.mp hp)

/-- Another handle's queue is untouched by an update at `k`. -/
lemma of_update {k j p : Nat} {new : Option Nat} (hne : some p ≠ new)
    (hj : Function.update held k new j = some p) : j ≠ k ∧ held j = some p := by
  by_cases hjk : j = k
  · subst hjk
    rw [Function.update_self] at hj
    exact absurd hj.symm hne
  · rw [Function.update_of_ne hjk] at hj
    exact ⟨hjk, hj⟩

lemma drop (h : Exclusive held free bound) (k : Nat) :
    Exclusive (Function.update held k none) free bound where
  held_lt j p hj := h.held_lt j p (of_update (by simp) hj).2
  free_lt := h.free_lt
  inj i j p hi hj := h.inj i j p (of_update (by simp) hi).2 (of_update (by simp) hj).2
  nodup := h.nodup
  disjoint j p hj := h.disjoint j p (of_update (by simp) hj).2

/-- A handle receives a name that nobody holds and that is not free. -/
lemma give (h : Exclusive held free bound) {k p : Nat} (hlt : p < bound)
    (hheld : ∀ j, held j = some p → j = k) (hfree : (p : Int) ∉ free) :
    Exclusive (Function.update held k (some p)) free bound where
  held_lt j q hj := by
    by_cases hq : q = p
    · exact hq ▸ hlt
    · exact h.held_lt j q (of_update (by simpa using hq) hj).2
  free_lt := h.free_lt
  inj i j q hi hj := by
    by_cases hq : q = p
    · subst hq
      have key : ∀ l, Function.update held k (some q) l = some q → l = k := by
        intro l hl
        by_cases hlk : l = k
        · exact hlk
        · rw [Function.update_of_ne hlk] at hl
          exact hheld l hl
      rw [key i hi, key j hj]
    · exact h.inj i j q (of_update (by simpa using hq) hi).2 (of_update (by simpa using hq) hj).2
  nodup := h.nodup
  disjoint j q hj := by
    by_cases hq : q = p
    · exact hq ▸ hfree
    · exact h.disjoint j q (of_update (by simpa using hq) hj).2

/-- The first free name goes to handle `k`. -/
lemma take {t : Int} {rest : List Int} (h : Exclusive held (t :: rest) bound) (k : Nat) :
    Exclusive (Function.update held k (some t.toNat)) rest bound := by
  obtain ⟨h0, h1⟩ := h.free_lt t List.mem_cons_self
  obtain ⟨hnotin, hnodup⟩ := List.nodup_cons.mp h.nodup
  have hrest : Exclusive held rest bound :=
    ⟨h.held_lt, fun t' ht' => h.free_lt t' (List.mem_cons_of_mem t ht'), h.inj, hnodup,
      fun j p hj hp => h.disjoint j p hj (List.mem_cons_of_mem t hp)⟩
  refine hrest.give (by omega) (fun j hj => ?_) (by rwa [Int.toNat_of_nonneg h0])
  have := h.disjoint j _ hj
  rw [Int.toNat_of_nonneg h0] at this
  exact absurd List.mem_cons_self this

/-- A name that was never used goes to handle `k`. -/
lemma fresh (h : Exclusive held free bound) (k : Nat) :
    Exclusive (Function.update held k (some bound)) free (bound + 1) := by
  refine (h.mono (Nat.le_succ bound)).give (Nat.lt_succ_self bound) (fun j hj => ?_) (fun hb => ?_)
  · exact absurd (h.held_lt j bound hj) (Nat.lt_irrefl bound)
  · exact absurd (h.free_lt _ hb).2 (by omega)

/-- The name of handle `k` goes to the free list. -/
lemma release (h : Exclusive held free bound) {k p : Nat} (hk : held k = some p) :
    Exclusive (Function.update held k none) (free ++ [(p : Int)]) bound where
  held_lt := (h.drop k).held_lt
  free_lt t ht := by
    rcases List.mem_append.mp ht with ht | ht
    · exact h.free_lt t ht
    · rw [List.mem_singleton.mp ht]
      exact ⟨by omega, by exact_mod_cast h.held_lt k p hk⟩
  inj := (h.drop k).inj
  nodup := by
    refine List.nodup_append.mpr ⟨h.nodup, by simp, ?_⟩
    rintro a ha b hb rfl
    rw [List.mem_singleton.mp hb] at ha
    exact h.disjoint k p hk ha
  disjoint j q hj := by
    obtain ⟨hjk, hheld⟩ := of_update (by simp) hj
    intro hq
    rcases List.mem_append.mp hq with hq | hq
    · exact h.disjoint j q hheld hq
    · obtain rfl : q = p := by simpa using hq
      exact hjk (h.inj j k q hheld hk)

end Exclusive

/-! ## The runs of a `FastQueue` -/

namespace QueueWorld

variable {α : Type*}

/-- The local queue of a live handle. -/
def held (w : QueueWorld α) (k : Nat) : Option Nat := (w.handles k).bind ProducerHandle.local_

/-- Every token has one place: a handle that uses its queue, or the free list. -/
structure TokensExclusive (w : QueueWorld α) : Prop where
  one_holder : ∀ j k a b, w.handles j = some a → w.handles k = some b → a.local_ ≠ none →
    b.local_ ≠ none → a.token = b.token → j = k
  one_producer : ∀ j k a b p, w.handles j = some a → w.handles k = some b →
    a.local_ = some p → b.local_ = some p → j = k
  free_once : w.queue.freeList.contents.Nodup
  not_both : ∀ k a, w.handles k = some a → a.local_ ≠ none →
    a.token ∉ w.queue.freeList.contents

/-- The branch of `push_hard` that goes wrong: the first queue it pushes to, its own or the
one it takes from the free list, is full, no queue can be created any more, and the free
list accepts the token that the handle then keeps. -/
def KeepsGivenBack (q : FastQueue α) (h : ProducerHandle) : Prop :=
  kQueueMaxCount ≤ q.created ∧
    match h.local_ with
    | some p => q.Full p ∧ q.freeList.size < kFreeListSize
    | none =>
      match q.freeTokens with
      | [] => False
      | t :: _ => q.Full t.toNat

instance (q : FastQueue α) (p : Nat) : Decidable (q.Full p) := inferInstanceAs (Decidable (_ = _))

instance (q : FastQueue α) (h : ProducerHandle) : Decidable (KeepsGivenBack q h) :=
  match hl : h.local_, ht : q.freeTokens with
  | some p, _ => decidable_of_iff
      (kQueueMaxCount ≤ q.created ∧ q.Full p ∧ q.freeList.size < kFreeListSize)
      (by simp only [KeepsGivenBack, hl])
  | none, [] => isFalse (by simp only [KeepsGivenBack, hl, ht, and_false, not_false_eq_true])
  | none, t :: _ => decidable_of_iff (kQueueMaxCount ≤ q.created ∧ q.Full t.toNat)
      (by simp only [KeepsGivenBack, hl, ht])

/-- No `push_hard` takes the branch that goes wrong, and the `int` counter of `QueueList`
has not gone all the way round. -/
def CallOk (w : QueueWorld α) (call : QueueCall α) : Prop :=
  w.queue.created + 18 ≤ 4294967296 ∧
    match call with
    | .pushHard k _ => ∀ h ∈ w.handles k, ¬KeepsGivenBack w.queue h
    | _ => True

/-- The invariant behind `TokensExclusive`. -/
structure Owned (w : QueueWorld α) : Prop where
  sound : w.queue.Sound
  valid : ∀ k h, w.handles k = some h → w.queue.ValidHandle h
  exclusive : Exclusive w.held w.queue.freeTokens w.queue.tokenBound

lemma Owned.tokensExclusive {w : QueueWorld α} (hw : w.Owned) : w.TokensExclusive := by
  have hheld : ∀ k a, w.handles k = some a → a.local_ ≠ none →
      ∃ p, w.held k = some p ∧ a.token = p := by
    intro k a ha hl
    obtain ⟨p, hp⟩ := Option.ne_none_iff_exists'.mp hl
    exact ⟨p, by simp [held, ha, hp], (hw.valid k a ha p hp).1⟩
  refine ⟨?_, ?_, hw.exclusive.nodup, ?_⟩
  · intro j k a b ha hb hla hlb heq
    obtain ⟨p, hp, htp⟩ := hheld j a ha hla
    obtain ⟨r, hr, htr⟩ := hheld k b hb hlb
    obtain rfl : p = r := by
      rw [htp, htr] at heq
      exact_mod_cast heq
    exact hw.exclusive.inj j k p hp hr
  · intro j k a b p ha hb hla hlb
    exact hw.exclusive.inj j k p (by simp [held, ha, hla]) (by simp [held, hb, hlb])
  · intro k a ha hl
    obtain ⟨p, hp, htp⟩ := hheld k a ha hl
    rw [htp]
    exact hw.exclusive.disjoint k p hp

lemma owned_init : (init : QueueWorld α).Owned where
  sound := sound_new
  valid k h hk := by simp [init] at hk
  exclusive :=
    ⟨by simp [held, init], by simp [freeTokens, init, FastQueue.new], by simp [held, init],
      by simp [freeTokens, init, FastQueue.new], by simp [held, init]⟩

lemma held_update (w : QueueWorld α) (q : FastQueue α) (k : Nat) (h : Option ProducerHandle)
    (pushed popped : List α) :
    held ⟨q, Function.update w.handles k h, pushed, popped⟩ =
      Function.update w.held k (h.bind ProducerHandle.local_) := by
  funext j
  by_cases hjk : j = k
  · subst hjk
    simp [held]
  · simp [held, hjk]

/-- Calls that leave tokens and handles alone keep ownership. -/
lemma Owned.of_same {w : QueueWorld α} (hw : w.Owned) {q : FastQueue α} (hq : q.Sound)
    (hsame : SameTokens w.queue q) (pushed popped : List α) :
    Owned ⟨q, w.handles, pushed, popped⟩ := by
  have hfree : q.freeTokens = w.queue.freeTokens := by rw [freeTokens, freeTokens, hsame.free]
  have hbound : q.tokenBound = w.queue.tokenBound := by
    rw [tokenBound, tokenBound, created, created, hsame.list]
  refine ⟨hq, fun k h hk => ?_, ?_⟩
  · intro p hp
    rw [hbound]
    exact hw.valid k h hk p hp
  · rw [hfree, hbound]
    exact hw.exclusive

/-- Replacing one handle: the others stay valid as long as names are only added. -/
lemma Owned.of_handle {w : QueueWorld α} (hw : w.Owned) {q : FastQueue α} (hq : q.Sound) (k : Nat)
    {h : Option ProducerHandle} (hle : w.queue.tokenBound ≤ q.tokenBound)
    (hh : ∀ a, h = some a → q.ValidHandle a) (pushed popped : List α)
    (hex : Exclusive (Function.update w.held k (h.bind ProducerHandle.local_)) q.freeTokens
      q.tokenBound) :
    Owned ⟨q, Function.update w.handles k h, pushed, popped⟩ := by
  refine ⟨hq, fun j a hj => ?_, by rw [held_update]; exact hex⟩
  by_cases hjk : j = k
  · subst hjk
    exact hh a (by simpa using hj)
  · have hold := hw.valid j a (by simpa [hjk] using hj)
    exact fun p hp => ⟨(hold p hp).1, (hold p hp).2.trans_le hle⟩

/-- A handle without a queue looks for one. -/
lemma Owned.acquired [Inhabited α] {w : QueueWorld α} (hw : w.Owned) {k : Nat}
    {h : ProducerHandle} (hlocal : h.local_ = none)
    {s : FastQueue α × ProducerHandle} (hs : Acquired w.queue h s) (pushed popped : List α) :
    Owned ⟨s.1, Function.update w.handles k (some s.2), pushed, popped⟩ := by
  have hvalid : s.1.ValidHandle s.2 :=
    Started.valid hw.sound (fun p hp => by simp [hlocal] at hp) (.acquired s hlocal hs)
  have hex := hw.exclusive
  cases hs with
  | reused q' t rest hfree hrest hlist hheap hflag hsound =>
    have hbound : q'.tokenBound = w.queue.tokenBound := by
      rw [tokenBound, tokenBound, created, created, hlist]
    refine hw.of_handle hsound k hbound.ge (by rintro a ⟨⟩; exact hvalid) _ _ ?_
    rw [hrest, hbound]
    rw [hfree] at hex
    exact hex.take k
  | created hfree hroom hsound =>
    have hcreated := (createQueue_of_room hw.sound hroom).2.2
    have hbound : w.queue.tokenBound = w.queue.created := Nat.min_eq_left hroom.le
    have hbound' : (w.queue.extended w.queue.createFailed).tokenBound = w.queue.created + 1 := by
      rw [tokenBound, hcreated]
      exact Nat.min_eq_left hroom
    refine hw.of_handle hsound k (by omega) (by rintro a ⟨⟩; exact hvalid) _ _ ?_
    rw [hbound']
    rw [hbound] at hex
    exact hex.fresh k
  | failed q' hfree hfull hcreated hlist hstored hflag hsound =>
    have hle := tokenBound_mono (q := w.queue) (r := q') (by omega)
    refine hw.of_handle hsound k hle (by rintro a ⟨⟩; exact hvalid) _ _ ?_
    have : q'.freeTokens = w.queue.freeTokens := by rw [freeTokens, freeTokens, hlist]
    rw [this]
    simp only [Option.bind_some, hlocal]
    exact (hex.drop k).mono hle

/-- Giving the token of handle `k` back, the handle then left without a queue. -/
lemma exclusive_giveBack {q : FastQueue α} (hq : q.Sound) {held : Nat → Option Nat} {k p : Nat}
    (hex : Exclusive held q.freeTokens q.tokenBound) (hk : held k = some p) :
    Exclusive (Function.update held k none) (q.giveBack p).freeTokens q.tokenBound := by
  rcases giveBack_cases hq p with ⟨-, hsame⟩ | ⟨-, hperm⟩
  · rw [freeTokens, FastQueue.giveBack, hsame]
    exact hex.drop k
  · exact (hex.release hk).perm hperm

lemma Owned.held_eq {w : QueueWorld α} {k : Nat} {h : ProducerHandle}
    (hk : w.handles k = some h) : w.held k = h.local_ := by
  simp [held, hk]

/-- The destructor. -/
lemma Owned.destroy {w : QueueWorld α} (hw : w.Owned) {k : Nat} {h : ProducerHandle}
    (hk : w.handles k = some h) (pushed popped : List α) :
    Owned ⟨w.queue.deleteHandle h, Function.update w.handles k none, pushed, popped⟩ := by
  rcases hl : h.local_ with _ | p
  · have hq : w.queue.deleteHandle h = w.queue := by simp [deleteHandle, hl]
    rw [hq]
    exact hw.of_handle hw.sound k (Nat.le_refl _) (by simp) _ _ (hw.exclusive.drop k)
  · obtain ⟨htok, hlt⟩ := hw.valid k h hk p hl
    have hq : w.queue.deleteHandle h = w.queue.giveBack p := by simp [deleteHandle, hl, htok]
    rw [hq]
    have hvalid : w.queue.ValidToken p := ⟨by omega, by exact_mod_cast hlt⟩
    exact hw.of_handle (sound_giveBack hw.sound hvalid) k (Nat.le_refl _) (by simp) _ _
      (exclusive_giveBack hw.sound hw.exclusive ((Owned.held_eq hk).trans hl))

/-- From the state in which the first attempts start, the rest of `push_hard`. -/
lemma Owned.pushedHard [Inhabited α] {w : QueueWorld α} (hw : w.Owned) {k : Nat}
    {h : ProducerHandle} (hk : w.handles k = some h) {x : α}
    {result : Bool × FastQueue α × ProducerHandle} (hres : PushedHard x (w.queue, h) result)
    (hok : ∀ p, h.local_ = some p → w.queue.Full p → kQueueMaxCount ≤ w.queue.created →
      w.queue.freeTokens.length = kFreeListSize) (pushed popped : List α) :
    Owned ⟨result.2.1, Function.update w.handles k (some result.2.2), pushed, popped⟩ := by
  have hsame_handles : Function.update w.handles k (some h) = w.handles := by
    rw [← hk, Function.update_eq_self]
  cases hres with
  | noQueue hlocal =>
    simp only [hsame_handles]
    exact hw.of_same hw.sound (.refl _) _ _
  | first p q' hlocal hroom hsound hsame hstored =>
    simp only [hsame_handles]
    exact hw.of_same hsound hsame _ _
  | moved p q' hlocal hfull hlimit hsound hcreated hfree hflag hstored =>
    simp only at hlocal hfull hlimit hcreated hfree ⊢
    obtain ⟨htok, hlt⟩ := hw.valid k h hk p hlocal
    have hbound : w.queue.tokenBound = w.queue.created := Nat.min_eq_left hlimit.le
    have hbound' : q'.tokenBound = w.queue.created + 1 := by
      rw [tokenBound, hcreated]
      exact Nat.min_eq_left hlimit
    have hex := exclusive_giveBack hw.sound hw.exclusive ((Owned.held_eq hk).trans hlocal)
    have hfree' : q'.freeTokens = (w.queue.giveBack p).freeTokens := by
      rw [freeTokens, hfree, htok]
      rfl
    refine hw.of_handle hsound k (by omega) ?_ _ _ ?_
    · rintro a ⟨⟩ p' hp'
      obtain rfl : w.queue.created = p' := by simpa using hp'
      exact ⟨rfl, by omega⟩
    · rw [hfree', hbound']
      rw [hbound] at hex
      have hfresh := hex.fresh k
      rw [Function.update_idem] at hfresh
      exact hfresh
  | stuck p q' hlocal hfull hlimit hsound hcreated hfree hflag hstored =>
    simp only at hlocal hfull hlimit hcreated hfree ⊢
    -- the free list is full and refuses the token, so the handle may keep it
    have hlen := hok p hlocal hfull hlimit
    have hkeep : q'.freeTokens = w.queue.freeTokens := by
      rcases giveBack_cases hw.sound h.token with ⟨-, hsame⟩ | ⟨hlt, -⟩
      · rw [freeTokens, hfree, hsame, freeTokens]
      · omega
    have hle := tokenBound_mono (q := w.queue) (r := q') (by omega)
    simp only [hsame_handles]
    refine ⟨hsound, fun j a ha p' hp' => ?_, ?_⟩
    · obtain ⟨h1, h2⟩ := hw.valid j a ha p' hp'
      exact ⟨h1, h2.trans_le hle⟩
    · rw [hkeep]
      exact hw.exclusive.mono hle

/-- A handle that has just found a queue does not give it back. -/
lemma Owned.not_stuck [Inhabited α] {w : QueueWorld α} (hw : w.Owned) {h : ProducerHandle}
    {s : FastQueue α × ProducerHandle} (hlocal : h.local_ = none)
    (hacquired : Acquired w.queue h s) (hkeep : ¬KeepsGivenBack w.queue h) {p : Nat}
    (hp : s.2.local_ = some p) : ¬(kQueueMaxCount ≤ s.1.created ∧ s.1.Full p) := by
  rintro ⟨hlimit, hfull⟩
  cases hacquired with
  | reused q' t rest hfree hrest hlist hheap hflag hsound =>
    obtain rfl : t.toNat = p := by simpa using hp
    refine hkeep ⟨?_, ?_⟩
    · simp only [created, hlist] at hlimit
      exact hlimit
    · rw [hlocal, hfree]
      simp only [Full, stored, hheap] at hfull
      exact hfull
  | created hfree hroom hsound =>
    obtain rfl : w.queue.created = p := by simpa using hp
    exact not_full_extended hw.sound _ hfull
  | failed q' hfree hfull' hcreated hlist hstored hflag hsound => simp [hlocal] at hp

/-- Every call whose condition is met keeps ownership. -/
theorem Owned.step [Inhabited α] {w w' : QueueWorld α} (hw : w.Owned) {call : QueueCall α}
    (hok : CallOk w call) (hstep : w.step call = some w') : w'.Owned := by
  obtain ⟨hcount, hok⟩ := hok
  cases effect_of_step ⟨hw.sound, hw.valid⟩ hcount hstep with
  | create k s hk hacquired => exact hw.acquired rfl hacquired _ _
  | destroy k h hk => exact hw.destroy hk _ _
  | push k h x done hk hdone =>
    obtain ⟨hsound, hsame⟩ := hdone.kept
    exact hw.of_same hsound hsame _ _
  | pushHard k h x s done hk hstart hdone =>
    have hkeep := hok h hk
    cases hstart with
    | held p hlocal =>
      refine hw.pushedHard hk hdone (fun p' hp' hfull hlimit => ?_) _ _
      have hlen := SlowQueue.length_contents_le hw.sound.free
      rw [hw.sound.free_max] at hlen
      have : ¬w.queue.freeList.size < kFreeListSize := fun hlt =>
        hkeep ⟨hlimit, by rw [hp']; exact ⟨hfull, hlt⟩⟩
      rw [SlowQueue.size_eq_length hw.sound.free] at this
      rw [freeTokens]
      omega
    | acquired s hlocal hacquired =>
      have hmid := hw.acquired hlocal hacquired w.pushed w.popped (k := k)
      have hres := hmid.pushedHard (k := k) (h := s.2) (by simp) hdone ?_ (w.afterPush done.1 x)
        w.popped
      · simp only [Function.update_idem] at hres
        exact hres
      · exact fun p hp hfull hlimit =>
          absurd ⟨hlimit, hfull⟩ (hw.not_stuck hlocal hacquired hkeep hp)
  | pop index fuel r q hprobed => exact hw.of_same hprobed.sound hprobed.same _ _
  | popHard middle r q hprobed => exact hw.of_same hprobed.sound hprobed.same _ _
  | elementCount => exact hw

/-- In every run in which no `push_hard` keeps a queue it gave back, each token is held by
at most one handle, waits at most once in the free list and is never both, so every local
queue has at most one producer. -/
theorem tokens_exclusive [Inhabited α] (calls : List (QueueCall α)) (w : QueueWorld α)
    (hrun : exec step init calls = some w) (hok : Along step CallOk init calls) :
    w.TokensExclusive :=
  (exec_invariant (P := Owned) (fun _ _ _ hw hc hs => hw.step hc hs) owned_init hok hrun).tokensExclusive

instance (w : QueueWorld α) (call : QueueCall α) : Decidable (CallOk w call) :=
  match call with
  | .pushHard _ _ => inferInstanceAs (Decidable (_ ∧ ∀ h ∈ _, ¬_))
  | .create _ | .destroy _ | .push _ _ | .pop _ _ | .popHard _ | .elementCount =>
    inferInstanceAs (Decidable (_ ∧ True))

/-- Two handles, one of which moves to a second queue when its first one is full. -/
def movingCalls : List (QueueCall Nat) :=
  [.create 0, .create 1] ++ List.replicate 32 (.push 0 7) ++ [.pushHard 0 8, .destroy 1, .create 2]

theorem tokens_exclusive_moving :
    ∃ w, exec step init movingCalls = some w ∧ Along step CallOk init movingCalls ∧
      w.TokensExclusive := by
  have hok : Along step CallOk init movingCalls := by decide +kernel
  have hsome : (exec step init movingCalls).isSome := by decide +kernel
  obtain ⟨w, hrun⟩ := Option.isSome_iff_exists.mp hsome
  exact ⟨w, hrun, hok, tokens_exclusive movingCalls w hrun hok⟩

/-- One hundred handles take all queues; then the first one fills its queue and calls
`push_hard` once more. -/
def crowdedCalls : List (QueueCall Nat) :=
  (List.range 100).map .create ++ List.replicate 32 (.push 0 7) ++ [.pushHard 0 8]

/-- Handle `0` then uses a queue whose token waits in the free list. -/
theorem tokens_not_exclusive_crowded :
    ∃ w, exec step init crowdedCalls = some w ∧ ¬w.TokensExclusive := by
  have heval : (exec step init crowdedCalls).map (fun w => (w.handles 0, w.queue.freeTokens)) =
      some (some ⟨0, some 0⟩, [0]) := by decide +kernel
  obtain ⟨w, hrun, hw⟩ := Option.map_eq_some_iff.mp heval
  simp only [Prod.mk.injEq] at hw
  refine ⟨w, hrun, fun h => h.not_both 0 _ hw.1 (by simp) ?_⟩
  change (0 : Int) ∈ w.queue.freeTokens
  rw [hw.2]
  exact List.mem_singleton_self 0

end QueueWorld

end CoplusLean
