import CoplusLean.Lib.Census
import CoplusLean.Lib.Run
import CoplusLean.Models.FastStackThreads
import CoplusLean.Proofs.FastStackRuns

/-!
# `PushOnlyFastStack` under every interleaving

The counter hands out each slot once, so a slot below `max_size` is held by one call or
was returned by one. A chunk enters the table by a compare-exchange that found no chunk
there, and stays; the calls that lost the race go on with the chunk they were shown. Two
slots never share a cell, hence an item stays under its token once its push has returned.
-/

namespace CoplusLean

open Lib

variable {α : Type*}

/-- The slot a call of `push` has drawn. -/
def StackPhase.slot : StackPhase α → Option Nat
  | .pushSlot _ slot | .pushAllocated _ slot _ | .pushChunk _ slot _ => some slot
  | _ => none

/-- A call of `push` that has not drawn its slot yet. -/
def StackPhase.Called : StackPhase α → Prop
  | .pushCalled _ => True
  | _ => False

/-- A thread is in a call of `push`. -/
def StackPhase.Pushing : StackPhase α → Prop
  | .pushCalled _ | .pushSlot _ _ | .pushAllocated _ _ _ | .pushChunk _ _ _ => True
  | _ => False

lemma StackPhase.Called.pushing {phase : StackPhase α} (h : phase.Called) : phase.Pushing := by
  cases phase with
  | pushCalled item => trivial
  | _ => exact h.elim

lemma StackPhase.pushing_of_slot {phase : StackPhase α} {s : Nat} (h : phase.slot = some s) :
    phase.Pushing := by
  cases phase with
  | pushSlot item slot => trivial
  | pushAllocated item slot newStack => trivial
  | pushChunk item slot oldStack => trivial
  | _ => cases h

namespace StackWorld

/-- What one step of thread `i` can do to the world. -/
inductive Effect [Inhabited α] (w : StackWorld α) (i : Nat) : StackWorld α → Prop where
  | call (item : α) (hidle : w.phase i = .idle) :
      Effect w i { w.move i (.pushCalled item) with calls := w.calls + 1 }
  | refuse (item : α) (hphase : w.phase i = .pushCalled item)
      (hfull : sizeT (int32 w.pushCount) ≥ w.maxSize) :
      Effect w i ({ w with pushCount := w.pushCount + 1 }.returnToken i item (-1))
  | draw (item : α) (hphase : w.phase i = .pushCalled item)
      (hroom : ¬sizeT (int32 w.pushCount) ≥ w.maxSize) :
      Effect w i ({ w with pushCount := w.pushCount + 1 }.move i
        (.pushSlot item (int32 w.pushCount).toNat))
  | allocate (item : α) (slot : Nat) (hphase : w.phase i = .pushSlot item slot)
      (htable : w.stacks_[slot / w.unitSize]? = some none) :
      Effect w i ({ w with heap := Function.update w.heap w.allocated fun _ => default,
                           allocated := w.allocated + 1 }.move i
        (.pushAllocated item slot w.allocated))
  | see (item : α) (slot oldStack : Nat)
      (hphase : w.phase i = .pushSlot item slot ∨ ∃ c, w.phase i = .pushAllocated item slot c)
      (htable : w.stacks_[slot / w.unitSize]? = some (some oldStack)) :
      Effect w i (w.move i (.pushChunk item slot oldStack))
  | install (item : α) (slot newStack : Nat) (hphase : w.phase i = .pushAllocated item slot newStack)
      (htable : w.stacks_[slot / w.unitSize]? = some none) :
      Effect w i ({ w with stacks_ := w.stacks_.set (slot / w.unitSize) (some newStack),
                           installed := w.installed ++ [slot / w.unitSize] }.move i
        (.pushChunk item slot newStack))
  | write (item : α) (slot oldStack : Nat) (hphase : w.phase i = .pushChunk item slot oldStack) :
      Effect w i ({ w with heap := Function.update w.heap oldStack
                             (Function.update (w.heap oldStack)
                               (slot - slot / w.unitSize * w.unitSize) item) }.returnToken i item slot)
  | ask (token : Nat) (pushed : α) (hidle : w.phase i = .idle)
      (hitem : w.itemOf token = some pushed) : Effect w i (w.move i (.getCalled token pushed))
  | miss (token : Nat) (pushed : α) (hphase : w.phase i = .getCalled token pushed)
      (hwhy : sizeT token > w.maxSize ∨ w.stacks_[token / w.unitSize]? = some none) :
      Effect w i (w.returnItem i pushed .fail)
  | look (token oldStack : Nat) (pushed : α) (hphase : w.phase i = .getCalled token pushed)
      (htable : w.stacks_[token / w.unitSize]? = some (some oldStack)) :
      Effect w i (w.move i (.getChunk token oldStack pushed))
  | read (token oldStack : Nat) (pushed : α) (hphase : w.phase i = .getChunk token oldStack pushed) :
      Effect w i (w.returnItem i pushed
        (.found (w.heap oldStack (token - token / w.unitSize * w.unitSize))))
  | leave (slot : Nat)
      (hphase : (w.phase i).slot = some slot ∨ ∃ pushed, w.phase i = .getCalled slot pushed)
      (hsize : w.stacks_[slot / w.unitSize]? = none) : Effect w i (w.move i .outOfBounds)

lemma effect_of_advance [Inhabited α] {w w' : StackWorld α} {i : Nat} (h : w.advance i = some w') :
    Effect w i w' := by
  unfold advance at h
  rcases hphase : w.phase i with _ | item | ⟨item, slot⟩ | ⟨item, slot, c⟩ | ⟨item, slot, c⟩ |
      ⟨token, pushed⟩ | ⟨token, c, pushed⟩ | _
  · simp [hphase] at h
  · simp only [hphase] at h
    split_ifs at h with hfull
    · rw [← Option.some.inj h]
      exact .refuse item hphase hfull
    · rw [← Option.some.inj h]
      exact .draw item hphase hfull
  · simp only [hphase] at h
    rcases htable : w.stacks_[slot / w.unitSize]? with _ | _ | old
    · simp only [htable] at h
      rw [← Option.some.inj h]
      exact .leave slot (.inl (by rw [hphase]; rfl)) htable
    · simp only [htable] at h
      rw [← Option.some.inj h]
      exact .allocate item slot hphase htable
    · simp only [htable] at h
      rw [← Option.some.inj h]
      exact .see item slot old (.inl hphase) htable
  · simp only [hphase] at h
    rcases htable : w.stacks_[slot / w.unitSize]? with _ | _ | old
    · simp only [htable] at h
      rw [← Option.some.inj h]
      exact .leave slot (.inl (by rw [hphase]; rfl)) htable
    · simp only [htable] at h
      rw [← Option.some.inj h]
      exact .install item slot c hphase htable
    · simp only [htable] at h
      rw [← Option.some.inj h]
      exact .see item slot old (.inr ⟨c, hphase⟩) htable
  · simp only [hphase] at h
    rw [← Option.some.inj h]
    exact .write item slot c hphase
  · simp only [hphase] at h
    split_ifs at h with hlarge
    · rw [← Option.some.inj h]
      exact .miss token pushed hphase (.inl hlarge)
    · rcases htable : w.stacks_[token / w.unitSize]? with _ | _ | old
      · simp only [htable] at h
        rw [← Option.some.inj h]
        exact .leave token (.inr ⟨pushed, hphase⟩) htable
      · simp only [htable] at h
        rw [← Option.some.inj h]
        exact .miss token pushed hphase (.inr htable)
      · simp only [htable] at h
        rw [← Option.some.inj h]
        exact .look token old pushed hphase htable
  · simp only [hphase] at h
    rw [← Option.some.inj h]
    exact .read token c pushed hphase
  · simp [hphase] at h

lemma effect_of_step [Inhabited α] {w w' : StackWorld α} {a : StackStep α} (h : w.step a = some w') :
    ∃ i, Effect w i w' := by
  cases a with
  | push i item =>
    rcases hphase : w.phase i with _ | _ | _ | _ | _ | _ | _ | _ <;>
      simp only [step, hphase, reduceCtorEq, Option.some.injEq] at h
    rw [← h]
    exact ⟨i, .call item hphase⟩
  | get i token =>
    rcases hitem : w.itemOf token with _ | pushed
    · rcases hphase : w.phase i with _ | _ | _ | _ | _ | _ | _ | _ <;>
        simp [step, hphase, hitem] at h
    · rcases hphase : w.phase i with _ | _ | _ | _ | _ | _ | _ | _ <;>
        simp only [step, hphase, hitem, reduceCtorEq, Option.some.injEq] at h
      rw [← h]
      exact ⟨i, .ask token pushed hphase hitem⟩
  | advance i => exact ⟨i, effect_of_advance h⟩

/-! ## Slots -/

/-- The tokens returned so far. -/
def tokens (w : StackWorld α) : List Nat :=
  w.returned.filterMap fun r => if 0 ≤ r.2 then some r.2.toNat else none

/-- The number of slots handed out. -/
def drawn (w : StackWorld α) : Nat := min w.pushCount w.maxSize

/-- Every slot handed out is held by one call or was returned by one; every call has drawn
or is about to. -/
structure Tickets (w : StackWorld α) : Prop where
  held_lt : ∀ i s, (w.phase i).slot = some s → s < w.drawn
  held_inj : ∀ i j s, (w.phase i).slot = some s → (w.phase j).slot = some s → i = j
  nodup : w.tokens.Nodup
  token_lt : ∀ t ∈ w.tokens, t < w.drawn
  disjoint : ∀ i s, (w.phase i).slot = some s → s ∉ w.tokens
  all : ∀ s < w.drawn, s ∈ w.tokens ∨ ∃ i, (w.phase i).slot = some s
  waiting : ∃ m, w.calls = w.pushCount + m ∧ Census StackPhase.Called w.phase m

lemma tickets_init [Inhabited α] (s : PushOnlyFastStack α) : (init s).Tickets where
  held_lt i s h := by simp [init, StackPhase.slot] at h
  held_inj i j s h := by simp [init, StackPhase.slot] at h
  nodup := List.nodup_nil
  token_lt t h := by simp [tokens, init] at h
  disjoint i s h := by simp [init, StackPhase.slot] at h
  all s h := by simp [drawn, init] at h
  waiting := ⟨0, rfl, census_const fun h => h⟩

variable {w : StackWorld α} {i : Nat}

/-- Steps that leave the drawn slots and the returned tokens as they are. -/
lemma Tickets.of_slots (hw : w.Tickets) {w' : StackWorld α}
    (hslots : ∀ j, (w'.phase j).slot = (w.phase j).slot) (htokens : w'.tokens = w.tokens)
    (hdrawn : w'.drawn = w.drawn)
    (hwaiting : ∃ m, w'.calls = w'.pushCount + m ∧ Census StackPhase.Called w'.phase m) :
    w'.Tickets := by
  refine ⟨?_, ?_, ?_, ?_, ?_, ?_, hwaiting⟩
  · simp only [hslots, hdrawn]
    exact hw.held_lt
  · simp only [hslots]
    exact hw.held_inj
  · rw [htokens]
    exact hw.nodup
  · rw [htokens, hdrawn]
    exact hw.token_lt
  · simp only [hslots, htokens]
    exact hw.disjoint
  · simp only [hslots, htokens, hdrawn]
    exact hw.all

/-- A step that neither draws nor returns a slot. -/
lemma Tickets.keep (hw : w.Tickets) {w' : StackWorld α} {phase : StackPhase α}
    (hphase : w'.phase = Function.update w.phase i phase) (hslot : phase.slot = (w.phase i).slot)
    (hcalled : phase.Called ↔ (w.phase i).Called) (hcount : w'.pushCount = w.pushCount)
    (hmax : w'.maxSize = w.maxSize) (hcalls : w'.calls = w.calls)
    (hreturned : w'.returned = w.returned) : w'.Tickets := by
  apply hw.of_slots
  · intro j
    rw [hphase]
    by_cases hj : j = i
    · rw [hj, Function.update_self, hslot]
    · rw [Function.update_of_ne hj]
  · rw [tokens, tokens, hreturned]
  · rw [drawn, drawn, hcount, hmax]
  · obtain ⟨m, hm, hcensus⟩ := hw.waiting
    refine ⟨m, by rw [hcalls, hcount, hm], ?_⟩
    rw [hphase]
    exact hcensus.same hcalled

lemma Tickets.call (hw : w.Tickets) (hidle : w.phase i = .idle) (item : α) :
    Tickets { w.move i (.pushCalled item) with calls := w.calls + 1 } := by
  have hslots : ∀ j, ((w.move i (.pushCalled item)).phase j).slot = (w.phase j).slot := by
    intro j
    rw [move]
    by_cases hj : j = i
    · simp [hj, hidle, StackPhase.slot]
    · simp [hj]
  refine ⟨?_, ?_, hw.nodup, hw.token_lt, ?_, ?_, ?_⟩
  · simp only [hslots]
    exact hw.held_lt
  · simp only [hslots]
    exact hw.held_inj
  · simp only [hslots]
    exact hw.disjoint
  · simp only [hslots]
    exact hw.all
  · obtain ⟨m, hm, hcensus⟩ := hw.waiting
    refine ⟨m + 1, by simp only [move]; omega, hcensus.enter ?_ trivial⟩
    rw [hidle]
    exact id

/-- The counter while it has not overflowed. -/
lemma slot_eq (hcount : w.pushCount < 2147483648) :
    int32 w.pushCount = w.pushCount ∧ sizeT (int32 w.pushCount) = w.pushCount := by
  have hslot : int32 w.pushCount = w.pushCount := int32_of_lt (by omega) (by omega)
  rw [hslot, sizeT_of_nonneg (by omega) (by omega)]
  exact ⟨rfl, Int.toNat_natCast _⟩

lemma Tickets.pushCount_lt (hw : w.Tickets)
    (hcalls : w.calls < 2147483648) : w.pushCount < 2147483648 := by
  obtain ⟨m, hm, -⟩ := hw.waiting
  omega

lemma Tickets.waiting_leave (hw : w.Tickets) {item : α} (hphase : w.phase i = .pushCalled item)
    {phase : StackPhase α} (hnot : ¬phase.Called) :
    ∃ m, w.calls = w.pushCount + 1 + m ∧
      Census StackPhase.Called (Function.update w.phase i phase) m := by
  obtain ⟨n, hn, hcensus⟩ := hw.waiting
  obtain ⟨m, rfl, hleft⟩ := hcensus.leave (i := i) (by rw [hphase]; trivial) hnot
  exact ⟨m, by omega, hleft⟩

lemma Tickets.refuse (hw : w.Tickets) {item : α} (hphase : w.phase i = .pushCalled item)
    (hcount : w.pushCount < 2147483648) (hfull : sizeT (int32 w.pushCount) ≥ w.maxSize) :
    ({ w with pushCount := w.pushCount + 1 }.returnToken i item (-1)).Tickets := by
  rw [(slot_eq hcount).2] at hfull
  apply hw.of_slots
  · intro j
    by_cases hj : j = i
    · simp [returnToken, move, hj, hphase, StackPhase.slot]
    · simp [returnToken, move, hj]
  · simp [tokens, returnToken, move]
  · simp only [drawn, returnToken, move]
    omega
  · exact hw.waiting_leave hphase fun h => h

lemma Tickets.draw (hw : w.Tickets) {item : α} (hphase : w.phase i = .pushCalled item)
    (hcount : w.pushCount < 2147483648) (hroom : ¬sizeT (int32 w.pushCount) ≥ w.maxSize) :
    ({ w with pushCount := w.pushCount + 1 }.move i
      (.pushSlot item (int32 w.pushCount).toNat)).Tickets := by
  rw [(slot_eq hcount).2] at hroom
  rw [(slot_eq hcount).1, Int.toNat_natCast]
  have hold : w.drawn = w.pushCount := by
    rw [drawn]
    omega
  have hdrawn : ({ w with pushCount := w.pushCount + 1 }.move i
      (.pushSlot item w.pushCount)).drawn = w.pushCount + 1 := by
    simp only [drawn, move]
    omega
  have hslots : ∀ j s, (Function.update w.phase i (.pushSlot item w.pushCount) j).slot = some s →
      (j = i ∧ s = w.pushCount) ∨ (w.phase j).slot = some s := by
    intro j s h
    by_cases hj : j = i
    · subst hj
      rw [Function.update_self] at h
      exact .inl ⟨rfl, (Option.some.inj h).symm⟩
    · rw [Function.update_of_ne hj] at h
      exact .inr h
  have hlt : ∀ j s, (w.phase j).slot = some s → s < w.pushCount := by
    intro j s h
    rw [← hold]
    exact hw.held_lt j s h
  refine ⟨?_, ?_, hw.nodup, ?_, ?_, ?_, ?_⟩
  · intro j s h
    rw [hdrawn]
    rcases hslots j s h with ⟨-, rfl⟩ | h
    · omega
    · exact Nat.lt_succ_of_lt (hlt j s h)
  · intro j k s hj hk
    rcases hslots j s hj with ⟨hji, hs⟩ | hj <;> rcases hslots k s hk with ⟨hki, hs'⟩ | hk
    · rw [hji, hki]
    · have := hlt k s hk
      omega
    · have := hlt j s hj
      omega
    · exact hw.held_inj j k s hj hk
  · intro t ht
    rw [hdrawn]
    have := hw.token_lt t ht
    omega
  · intro j s h hs
    rcases hslots j s h with ⟨-, rfl⟩ | h
    · have := hw.token_lt _ hs
      omega
    · exact hw.disjoint j s h hs
  · intro s hs
    rw [hdrawn] at hs
    by_cases heq : s = w.pushCount
    · refine .inr ⟨i, ?_⟩
      simp only [move, Function.update_self, StackPhase.slot, heq]
    · rcases hw.all s (by omega) with h | ⟨j, h⟩
      · exact .inl h
      · refine .inr ⟨j, ?_⟩
        have hj : j ≠ i := by
          rintro rfl
          rw [hphase] at h
          cases h
        simp only [move, Function.update_of_ne hj]
        exact h
  · exact hw.waiting_leave hphase fun h => h

lemma Tickets.write (hw : w.Tickets) {item : α} {slot oldStack : Nat}
    (hphase : w.phase i = .pushChunk item slot oldStack) (heap : Nat → Nat → α) :
    ({ w with heap := heap }.returnToken i item slot).Tickets := by
  have hheld : (w.phase i).slot = some slot := by rw [hphase]; rfl
  have htokens : ({ w with heap := heap }.returnToken i item slot).tokens =
      w.tokens ++ [slot] := by simp [tokens, returnToken, move]
  have hslots : ∀ j s, (Function.update w.phase i .idle j).slot = some s →
      j ≠ i ∧ (w.phase j).slot = some s := by
    intro j s h
    by_cases hj : j = i
    · subst hj
      rw [Function.update_self] at h
      cases h
    · rw [Function.update_of_ne hj] at h
      exact ⟨hj, h⟩
  refine ⟨?_, ?_, ?_, ?_, ?_, ?_, ?_⟩
  · intro j s h
    exact hw.held_lt j s (hslots j s h).2
  · intro j k s hj hk
    exact hw.held_inj j k s (hslots j s hj).2 (hslots k s hk).2
  · rw [htokens, List.nodup_append]
    refine ⟨hw.nodup, List.nodup_singleton _, ?_⟩
    intro t ht u hu
    rw [List.mem_singleton.mp hu]
    rintro rfl
    exact hw.disjoint i _ hheld ht
  · intro t ht
    rw [htokens, List.mem_append, List.mem_singleton] at ht
    rcases ht with ht | rfl
    · exact hw.token_lt t ht
    · exact hw.held_lt i _ hheld
  · intro j s hs hmem
    obtain ⟨hj, hold⟩ := hslots j s hs
    rw [htokens, List.mem_append, List.mem_singleton] at hmem
    rcases hmem with hmem | rfl
    · exact hw.disjoint j s hold hmem
    · exact hj (hw.held_inj j i _ hold hheld)
  · intro s hs
    rw [htokens]
    rcases hw.all s hs with h | ⟨j, h⟩
    · exact .inl (List.mem_append_left _ h)
    · by_cases hj : j = i
      · subst hj
        rw [hheld] at h
        exact .inl (List.mem_append_right _ (by rw [← Option.some.inj h]; exact List.mem_singleton_self _))
      · refine .inr ⟨j, ?_⟩
        simp only [returnToken, move, Function.update_of_ne hj]
        exact h
  · obtain ⟨m, hm, hcensus⟩ := hw.waiting
    exact ⟨m, hm, hcensus.same (by rw [hphase]; exact Iff.rfl)⟩

/-- Every step within the table keeps the slots in order. -/
theorem Tickets.effect [Inhabited α] {w' : StackWorld α} (hw : w.Tickets)
    (hcalls : w.calls < 2147483648)
    (hinside : ∀ slot, ((w.phase i).slot = some slot ∨ ∃ pushed, w.phase i = .getCalled slot pushed) →
      w.stacks_[slot / w.unitSize]? ≠ none)
    (h : Effect w i w') : w'.Tickets := by
  cases h with
  | call item hidle => exact hw.call hidle item
  | refuse item hphase hfull => exact hw.refuse hphase (hw.pushCount_lt hcalls) hfull
  | draw item hphase hroom => exact hw.draw hphase (hw.pushCount_lt hcalls) hroom
  | allocate item slot hphase htable =>
    exact hw.keep (i := i) rfl (by rw [hphase]; rfl) (by rw [hphase]; exact Iff.rfl) rfl rfl rfl rfl
  | see item slot oldStack hphase htable =>
    rcases hphase with hphase | ⟨c, hphase⟩
    · exact hw.keep (i := i) rfl (by rw [hphase]; rfl) (by rw [hphase]; exact Iff.rfl) rfl rfl rfl rfl
    · exact hw.keep (i := i) rfl (by rw [hphase]; rfl) (by rw [hphase]; exact Iff.rfl) rfl rfl rfl rfl
  | install item slot newStack hphase htable =>
    exact hw.keep (i := i) rfl (by rw [hphase]; rfl) (by rw [hphase]; exact Iff.rfl) rfl rfl rfl rfl
  | write item slot oldStack hphase => exact hw.write hphase _
  | ask token pushed hidle hitem =>
    exact hw.keep (i := i) rfl (by rw [hidle]; rfl) (by rw [hidle]; exact Iff.rfl) rfl rfl rfl rfl
  | miss token pushed hphase hwhy =>
    exact hw.keep (i := i) rfl (by rw [hphase]; rfl) (by rw [hphase]; exact Iff.rfl) rfl rfl rfl rfl
  | look token oldStack pushed hphase htable =>
    exact hw.keep (i := i) rfl (by rw [hphase]; rfl) (by rw [hphase]; exact Iff.rfl) rfl rfl rfl rfl
  | read token oldStack pushed hphase =>
    exact hw.keep (i := i) rfl (by rw [hphase]; rfl) (by rw [hphase]; exact Iff.rfl) rfl rfl rfl rfl
  | leave slot hphase hsize => exact absurd hsize (hinside slot hphase)

/-! ## Chunks -/

/-- What the local variables of a call say about the table and the returned tokens. -/
def PhaseOk (w : StackWorld α) : StackPhase α → Prop
  | .pushAllocated _ _ c => c < w.allocated ∧ ∀ m : Nat, w.stacks_[m]? ≠ some (some c)
  | .pushChunk _ s c => w.stacks_[s / w.unitSize]? = some (some c)
  | .getCalled t x => (x, (t : Int)) ∈ w.returned
  | .getChunk t c x =>
    (x, (t : Int)) ∈ w.returned ∧ w.stacks_[t / w.unitSize]? = some (some c)
  | .outOfBounds => False
  | _ => True

/-- Chunks enter the table once and are not shared; what a returned push has written is in
its cell. -/
structure Chunks (w : StackWorld α) : Prop where
  unit_pos : 0 < w.unitSize
  table : w.stacks_.length = (w.maxSize + w.unitSize - 1) / w.unitSize
  inj : ∀ m n c : Nat, w.stacks_[m]? = some (some c) → w.stacks_[n]? = some (some c) → m = n
  table_lt : ∀ m c : Nat, w.stacks_[m]? = some (some c) → c < w.allocated
  installed_nodup : w.installed.Nodup
  installed_iff : ∀ m : Nat, m ∈ w.installed ↔ ∃ c, w.stacks_[m]? = some (some c)
  phase_ok : ∀ i, w.PhaseOk (w.phase i)
  fresh_inj : ∀ i j x y s t c, w.phase i = .pushAllocated x s c →
    w.phase j = .pushAllocated y t c → i = j
  stored : ∀ x (t : Nat), (x, (t : Int)) ∈ w.returned → ∃ c,
    w.stacks_[t / w.unitSize]? = some (some c) ∧ w.heap c (t % w.unitSize) = x
  got : ∀ r ∈ w.got, r.2 = .found r.1

lemma chunks_init [Inhabited α] {unitSize maxSize : Nat} (hunit : 1 ≤ unitSize) :
    (init (PushOnlyFastStack.new unitSize maxSize : PushOnlyFastStack α)).Chunks := by
  have hnone : ∀ m c : Nat,
      (init (PushOnlyFastStack.new unitSize maxSize : PushOnlyFastStack α)).stacks_[m]? ≠
        some (some c) := by
    intro m c h
    simp only [init, List.getElem?_replicate] at h
    split_ifs at h
    simp at h
  refine ⟨hunit, by simp [init, PushOnlyFastStack.new], ?_, ?_, List.nodup_nil, ?_, ?_, ?_, ?_, ?_⟩
  · exact fun m n c h => absurd h (hnone m c)
  · exact fun m c h => absurd h (hnone m c)
  · intro m
    refine iff_of_false (by simp [init]) ?_
    rintro ⟨c, h⟩
    exact hnone m c h
  · exact fun i => trivial
  · intro i j x y s t c h
    simp [init] at h
  · intro x t h
    simp [init] at h
  · intro r h
    simp [init] at h

lemma mem_tokens {x : α} {t : Nat} (h : (x, (t : Int)) ∈ w.returned) : t ∈ w.tokens := by
  rw [tokens, List.mem_filterMap]
  exact ⟨_, h, by simp⟩

lemma mem_of_itemOf {t : Nat} {x : α} (h : w.itemOf t = some x) : (x, (t : Int)) ∈ w.returned := by
  obtain ⟨⟨y, u⟩, hfind, rfl⟩ := Option.map_eq_some_iff.mp h
  have heq := List.find?_some hfind
  simp only [decide_eq_true_eq] at heq
  rw [← heq]
  exact List.mem_of_find?_eq_some hfind

/-- The cells of two tokens differ: they lie in different chunks or at different places. -/
lemma Chunks.cell_ne (hw : w.Chunks) {s t c d : Nat} (hst : s ≠ t)
    (hs : w.stacks_[s / w.unitSize]? = some (some c))
    (ht : w.stacks_[t / w.unitSize]? = some (some d)) :
    c ≠ d ∨ s % w.unitSize ≠ t % w.unitSize := by
  by_contra hsame
  rw [not_or, not_not, not_not] at hsame
  obtain ⟨rfl, hmod⟩ := hsame
  have hdiv := hw.inj _ _ c hs ht
  apply hst
  rw [← Nat.div_add_mod s w.unitSize, ← Nat.div_add_mod t w.unitSize, hdiv, hmod]

/-- The phases of the other threads stay right when the table and the results only grow and
a chunk not yet installed stays out of the table. -/
lemma PhaseOk.mono {w' : StackWorld α} {phase : StackPhase α} (h : w.PhaseOk phase)
    (hunit : w'.unitSize = w.unitSize) (hallocated : w.allocated ≤ w'.allocated)
    (htable : ∀ m c : Nat, w.stacks_[m]? = some (some c) → w'.stacks_[m]? = some (some c))
    (hreturned : ∀ r ∈ w.returned, r ∈ w'.returned)
    (hfresh : ∀ x s c, phase = .pushAllocated x s c → ∀ m : Nat, w'.stacks_[m]? ≠ some (some c)) :
    w'.PhaseOk phase := by
  cases phase with
  | pushAllocated x s c => exact ⟨h.1.trans_le hallocated, hfresh x s c rfl⟩
  | pushChunk x s c =>
    rw [PhaseOk, hunit]
    exact htable _ c h
  | getCalled t x => exact hreturned _ h
  | getChunk t c x =>
    rw [PhaseOk, hunit]
    exact ⟨hreturned _ h.1, htable _ c h.2⟩
  | outOfBounds => exact h
  | idle => trivial
  | pushCalled x => trivial
  | pushSlot x s => trivial

/-- The phases after one thread has moved. -/
lemma phaseOk_update {w' : StackWorld α} {phase : StackPhase α}
    (hphase : w'.phase = Function.update w.phase i phase) (hnew : w'.PhaseOk phase)
    (hold : ∀ j, j ≠ i → w'.PhaseOk (w.phase j)) (j : Nat) : w'.PhaseOk (w'.phase j) := by
  rw [hphase]
  by_cases hj : j = i
  · rw [hj, Function.update_self]
    exact hnew
  · rw [Function.update_of_ne hj]
    exact hold j hj

/-- A thread that moves on without a chunk of its own leaves those of the others apart. -/
lemma freshInj_update {phase : StackPhase α} (hphase : ∀ x s c, phase ≠ .pushAllocated x s c)
    (hw : w.Chunks) : ∀ j k x y s t c,
      Function.update w.phase i phase j = .pushAllocated x s c →
      Function.update w.phase i phase k = .pushAllocated y t c → j = k := by
  intro j k x y s t c hj hk
  by_cases hji : j = i
  · rw [hji, Function.update_self] at hj
    exact absurd hj (hphase x s c)
  · by_cases hki : k = i
    · rw [hki, Function.update_self] at hk
      exact absurd hk (hphase y t c)
    · rw [Function.update_of_ne hji] at hj
      rw [Function.update_of_ne hki] at hk
      exact hw.fresh_inj j k x y s t c hj hk

/-- A step that leaves table, chunks and tokens as they are. -/
lemma Chunks.keep (hw : w.Chunks) {w' : StackWorld α} {phase : StackPhase α}
    (hphase : w'.phase = Function.update w.phase i phase)
    (hnot : ∀ x s c, phase ≠ .pushAllocated x s c) (hok : w.PhaseOk phase)
    (hunit : w'.unitSize = w.unitSize) (hmax : w'.maxSize = w.maxSize)
    (hstacks : w'.stacks_ = w.stacks_) (hheap : w'.heap = w.heap)
    (hallocated : w'.allocated = w.allocated) (hinstalled : w'.installed = w.installed)
    (hreturned : ∀ r ∈ w.returned, r ∈ w'.returned)
    (hback : ∀ x (t : Nat), (x, (t : Int)) ∈ w'.returned → (x, (t : Int)) ∈ w.returned)
    (hgot : ∀ r ∈ w'.got, r.2 = .found r.1) : w'.Chunks := by
  have hmono : ∀ phase, w.PhaseOk phase → w'.PhaseOk phase := by
    intro phase h
    refine h.mono hunit hallocated.ge (by rw [hstacks]; exact fun _ _ h => h) hreturned ?_
    rintro x s c rfl
    rw [hstacks]
    exact h.2
  refine ⟨by rw [hunit]; exact hw.unit_pos, by rw [hstacks, hmax, hunit]; exact hw.table,
    by rw [hstacks]; exact hw.inj, by rw [hstacks, hallocated]; exact hw.table_lt,
    by rw [hinstalled]; exact hw.installed_nodup,
    by rw [hinstalled, hstacks]; exact hw.installed_iff, ?_, ?_, ?_, hgot⟩
  · exact phaseOk_update hphase (hmono _ hok) fun j _ => hmono _ (hw.phase_ok j)
  · rw [hphase]
    exact freshInj_update hnot hw
  · intro x t h
    rw [hunit, hstacks, hheap]
    exact hw.stored x t (hback x t h)

lemma Chunks.allocate [Inhabited α] (hw : w.Chunks) (item : α) (slot : Nat) :
    ({ w with heap := Function.update w.heap w.allocated fun _ => default,
              allocated := w.allocated + 1 }.move i
      (.pushAllocated item slot w.allocated)).Chunks := by
  have hnew : ∀ m : Nat, w.stacks_[m]? ≠ some (some w.allocated) := by
    intro m h
    exact absurd (hw.table_lt m _ h) (lt_irrefl _)
  have hother : ∀ j x s, w.phase j ≠ .pushAllocated x s w.allocated := by
    intro j x s h
    have hok := hw.phase_ok j
    rw [h] at hok
    exact absurd hok.1 (lt_irrefl _)
  refine ⟨hw.unit_pos, hw.table, hw.inj, fun m c h => Nat.lt_succ_of_lt (hw.table_lt m c h),
    hw.installed_nodup, hw.installed_iff, ?_, ?_, ?_, hw.got⟩
  · apply phaseOk_update (w := w) (i := i) rfl
    · exact ⟨Nat.lt_succ_self _, hnew⟩
    · intro j _
      refine (hw.phase_ok j).mono rfl (Nat.le_succ _) (fun _ _ h => h) (fun _ h => h) ?_
      intro x s c h
      have hok := hw.phase_ok j
      rw [h] at hok
      exact hok.2
  · intro j k x y s t c hj hk
    simp only [move] at hj hk
    by_cases hji : j = i
    · by_cases hki : k = i
      · rw [hji, hki]
      · rw [hji, Function.update_self] at hj
        rw [Function.update_of_ne hki] at hk
        obtain ⟨-, -, rfl⟩ := StackPhase.pushAllocated.inj hj
        exact absurd hk (hother k y t)
    · rw [Function.update_of_ne hji] at hj
      by_cases hki : k = i
      · rw [hki, Function.update_self] at hk
        obtain ⟨-, -, rfl⟩ := StackPhase.pushAllocated.inj hk
        exact absurd hj (hother j x s)
      · rw [Function.update_of_ne hki] at hk
        exact hw.fresh_inj j k x y s t c hj hk
  · intro x t h
    obtain ⟨c, htable, hcell⟩ := hw.stored x t h
    refine ⟨c, htable, ?_⟩
    have hne : c ≠ w.allocated := by
      rintro rfl
      exact hnew _ htable
    simp only [move, Function.update_of_ne hne]
    exact hcell

lemma Chunks.install (hw : w.Chunks) {item : α} {slot c : Nat}
    (hphase : w.phase i = .pushAllocated item slot c)
    (htable : w.stacks_[slot / w.unitSize]? = some none) :
    ({ w with stacks_ := w.stacks_.set (slot / w.unitSize) (some c),
              installed := w.installed ++ [slot / w.unitSize] }.move i
      (.pushChunk item slot c)).Chunks := by
  have hok := hw.phase_ok i
  rw [hphase] at hok
  obtain ⟨hlt, hout⟩ := hok
  have hmain : slot / w.unitSize < w.stacks_.length := (List.getElem?_eq_some_iff.mp htable).1
  have hcell : ∀ m d : Nat, (w.stacks_.set (slot / w.unitSize) (some c))[m]? = some (some d) ↔
      (m = slot / w.unitSize ∧ d = c) ∨ w.stacks_[m]? = some (some d) := by
    intro m d
    by_cases hm : m = slot / w.unitSize
    · rw [hm, List.getElem?_set_self hmain, htable]
      simp [eq_comm]
    · rw [List.getElem?_set_ne (Ne.symm hm)]
      simp [hm]
  refine ⟨hw.unit_pos, by simp only [move, List.length_set]; exact hw.table, ?_, ?_, ?_, ?_, ?_, ?_,
    ?_, hw.got⟩
  · intro m n d hm hn
    rcases (hcell m d).mp hm with ⟨hm', hd⟩ | hm'
    · rcases (hcell n d).mp hn with ⟨hn', -⟩ | hn'
      · rw [hm', hn']
      · rw [hd] at hn'
        exact absurd hn' (hout n)
    · rcases (hcell n d).mp hn with ⟨-, hd⟩ | hn'
      · rw [hd] at hm'
        exact absurd hm' (hout m)
      · exact hw.inj m n d hm' hn'
  · intro m d hm
    rcases (hcell m d).mp hm with ⟨-, rfl⟩ | hm
    · exact hlt
    · exact hw.table_lt m d hm
  · have hnot : slot / w.unitSize ∉ w.installed := by
      rw [hw.installed_iff, htable]
      simp
    exact List.nodup_append.mpr ⟨hw.installed_nodup, List.nodup_singleton _, by
      intro a ha b hb
      rw [List.mem_singleton.mp hb]
      rintro rfl
      exact hnot ha⟩
  · intro m
    simp only [move, List.mem_append, List.mem_singleton, hw.installed_iff, hcell]
    constructor
    · rintro (⟨d, hd⟩ | rfl)
      · exact ⟨d, .inr hd⟩
      · exact ⟨c, .inl ⟨rfl, rfl⟩⟩
    · rintro ⟨d, ⟨rfl, -⟩ | hd⟩
      · exact .inr rfl
      · exact .inl ⟨d, hd⟩
  · apply phaseOk_update (w := w) (i := i) rfl
    · exact (hcell _ c).mpr (.inl ⟨rfl, rfl⟩)
    · intro j hj
      refine (hw.phase_ok j).mono rfl (le_refl _) (fun m d h => (hcell m d).mpr (.inr h))
        (fun _ h => h) ?_
      intro x s d h m hm
      have hother := hw.phase_ok j
      rw [h] at hother
      rcases (hcell m d).mp hm with ⟨-, rfl⟩ | hm
      · exact hj (hw.fresh_inj j i x item s slot d h hphase)
      · exact hother.2 m hm
  · exact freshInj_update (w := w) (by simp) hw
  · intro x t h
    obtain ⟨d, hd, hx⟩ := hw.stored x t h
    exact ⟨d, (hcell _ d).mpr (.inr hd), hx⟩

lemma Chunks.write (hw : w.Chunks) (htickets : w.Tickets) {item : α} {slot c : Nat}
    (hphase : w.phase i = .pushChunk item slot c) :
    ({ w with heap := Function.update w.heap c (Function.update (w.heap c)
        (slot - slot / w.unitSize * w.unitSize) item) }.returnToken i item slot).Chunks := by
  have hchunk : w.stacks_[slot / w.unitSize]? = some (some c) := by
    have hok := hw.phase_ok i
    rw [hphase] at hok
    exact hok
  have hsub : slot - slot / w.unitSize * w.unitSize = slot % w.unitSize := by
    have := Nat.div_add_mod' slot w.unitSize
    omega
  have hmem : ∀ r ∈ w.returned, r ∈ w.returned ++ [(item, (slot : Int))] :=
    fun r h => List.mem_append_left _ h
  refine ⟨hw.unit_pos, hw.table, hw.inj, hw.table_lt, hw.installed_nodup, hw.installed_iff, ?_, ?_,
    ?_, hw.got⟩
  · apply phaseOk_update (w := w) (i := i) rfl
    · trivial
    · intro j _
      refine (hw.phase_ok j).mono rfl (le_refl _) (fun _ _ h => h) hmem ?_
      intro x s d h
      have hok := hw.phase_ok j
      rw [h] at hok
      exact hok.2
  · exact freshInj_update (w := w) (by simp) hw
  · intro x t h
    simp only [returnToken, move] at h ⊢
    rw [hsub]
    rcases List.mem_append.mp h with h | h
    · -- an older token has another cell
      obtain ⟨d, hd, hx⟩ := hw.stored x t h
      refine ⟨d, hd, ?_⟩
      have hne : slot ≠ t := by
        rintro rfl
        exact htickets.disjoint i slot (by rw [hphase]; rfl) (mem_tokens h)
      rw [← hx]
      by_cases hdc : d = c
      · subst hdc
        have hmod : t % w.unitSize ≠ slot % w.unitSize := by
          rcases hw.cell_ne hne hchunk hd with h | h
          · exact absurd rfl h
          · exact Ne.symm h
        rw [Function.update_self, Function.update_of_ne hmod]
      · rw [Function.update_of_ne hdc]
    · rw [List.mem_singleton, Prod.mk.injEq] at h
      obtain ⟨rfl, ht⟩ := h
      obtain rfl : t = slot := by omega
      exact ⟨c, hchunk, by rw [Function.update_self, Function.update_self]⟩

/-! ## Runs -/

/-- The invariant of every interleaving. -/
structure Intact (w : StackWorld α) : Prop where
  tickets : w.Tickets
  chunks : w.Chunks

/-- A slot or token below the number of slots handed out has a place in the table. -/
lemma Intact.main_lt (hw : w.Intact) {t : Nat} (ht : t < w.drawn) :
    t / w.unitSize < w.stacks_.length := by
  have hpos := hw.chunks.unit_pos
  have hmax : t < w.maxSize := ht.trans_le (Nat.min_le_right _ _)
  rw [hw.chunks.table, Nat.div_lt_iff_lt_mul hpos]
  have hdm := Nat.div_add_mod' (w.maxSize + w.unitSize - 1) w.unitSize
  have hmod := Nat.mod_lt (w.maxSize + w.unitSize - 1) hpos
  omega

lemma Intact.inside (hw : w.Intact) (slot : Nat)
    (h : (w.phase i).slot = some slot ∨ ∃ pushed, w.phase i = .getCalled slot pushed) :
    w.stacks_[slot / w.unitSize]? ≠ none := by
  have hlt : slot < w.drawn := by
    rcases h with h | ⟨pushed, h⟩
    · exact hw.tickets.held_lt i slot h
    · have hok := hw.chunks.phase_ok i
      rw [h] at hok
      exact hw.tickets.token_lt slot (mem_tokens hok)
  have hmain := hw.main_lt hlt
  rw [List.getElem?_eq_getElem hmain]
  simp

/-- A `get` with a returned token does not fail. -/
lemma Intact.not_miss (hw : w.Intact) (hcalls : w.calls < 2147483648) {t : Nat} {x : α}
    (hphase : w.phase i = .getCalled t x)
    (hwhy : sizeT t > w.maxSize ∨ w.stacks_[t / w.unitSize]? = some none) : False := by
  have hok := hw.chunks.phase_ok i
  rw [hphase] at hok
  obtain ⟨c, htable, -⟩ := hw.chunks.stored x t hok
  have hlt : t < min w.pushCount w.maxSize := hw.tickets.token_lt t (mem_tokens hok)
  have hcount := hw.tickets.pushCount_lt hcalls
  rcases hwhy with hlarge | hnone
  · rw [sizeT_of_nonneg (by omega) (by omega)] at hlarge
    omega
  · rw [htable] at hnone
    cases hnone

variable [Inhabited α] {w' : StackWorld α}

lemma Intact.effect (hw : w.Intact) (hcalls : w.calls < 2147483648) (h : Effect w i w') :
    w'.Intact := by
  have hchunks := hw.chunks
  refine ⟨hw.tickets.effect hcalls hw.inside h, ?_⟩
  cases h with
  | call item hidle =>
    exact hchunks.keep (i := i) rfl (by simp) trivial rfl rfl rfl rfl rfl rfl (fun _ h => h)
      (fun _ _ h => h) hchunks.got
  | refuse item hphase hfull =>
    refine hchunks.keep (i := i) rfl (by simp) trivial rfl rfl rfl rfl rfl rfl
      (fun _ h => List.mem_append_left _ h) ?_ hchunks.got
    intro x t h
    rcases List.mem_append.mp h with h | h
    · exact h
    · rw [List.mem_singleton, Prod.mk.injEq] at h
      omega
  | draw item hphase hroom =>
    exact hchunks.keep (i := i) rfl (by simp) trivial rfl rfl rfl rfl rfl rfl (fun _ h => h)
      (fun _ _ h => h) hchunks.got
  | allocate item slot hphase htable => exact hchunks.allocate item slot
  | see item slot oldStack hphase htable =>
    exact hchunks.keep (i := i) rfl (by simp) htable rfl rfl rfl rfl rfl rfl (fun _ h => h)
      (fun _ _ h => h) hchunks.got
  | install item slot newStack hphase htable => exact hchunks.install hphase htable
  | write item slot oldStack hphase => exact hchunks.write hw.tickets hphase
  | ask token pushed hidle hitem =>
    exact hchunks.keep (i := i) rfl (by simp) (mem_of_itemOf hitem) rfl rfl rfl rfl rfl rfl
      (fun _ h => h) (fun _ _ h => h) hchunks.got
  | miss token pushed hphase hwhy => exact (hw.not_miss hcalls hphase hwhy).elim
  | look token oldStack pushed hphase htable =>
    have hok := hchunks.phase_ok i
    rw [hphase] at hok
    exact hchunks.keep (i := i) rfl (by simp) ⟨hok, htable⟩ rfl rfl rfl rfl rfl rfl (fun _ h => h)
      (fun _ _ h => h) hchunks.got
  | read token oldStack pushed hphase =>
    refine hchunks.keep (i := i) rfl (by simp) trivial rfl rfl rfl rfl rfl rfl (fun _ h => h)
      (fun _ _ h => h) ?_
    have hok := hchunks.phase_ok i
    rw [hphase] at hok
    obtain ⟨c, htable, hcell⟩ := hchunks.stored pushed token hok.1
    obtain rfl : c = oldStack := by
      rw [hok.2] at htable
      exact (Option.some.inj (Option.some.inj htable)).symm
    intro r hr
    rcases List.mem_append.mp hr with hr | hr
    · exact hchunks.got r hr
    · have hsub : token - token / w.unitSize * w.unitSize = token % w.unitSize := by
        have := Nat.div_add_mod' token w.unitSize
        omega
      rw [List.mem_singleton.mp hr, hsub, hcell]
  | leave slot hphase hsize => exact absurd hsize (hw.inside slot hphase)

/-- Installed chunks stay, and calls are only counted up. -/
lemma Effect.table_mono (h : Effect w i w') (m c : Nat) (hm : w.stacks_[m]? = some (some c)) :
    w'.stacks_[m]? = some (some c) := by
  cases h with
  | install item slot newStack hphase htable =>
    have hne : slot / w.unitSize ≠ m := by
      rintro rfl
      rw [htable] at hm
      cases hm
    simp only [move, List.getElem?_set_ne hne]
    exact hm
  | _ => exact hm

lemma Effect.calls_le (h : Effect w i w') : w.calls ≤ w'.calls := by
  cases h with
  | call item hidle => exact Nat.le_succ _
  | _ => exact le_refl _

lemma calls_le_of_exec {as : List (StackStep α)} (hrun : exec step w as = some w') :
    w.calls ≤ w'.calls :=
  exec_invariant_always (P := fun u => w.calls ≤ u.calls)
    (fun _ _ _ hle hs => by
      obtain ⟨i, heffect⟩ := effect_of_step hs
      exact hle.trans heffect.calls_le) (le_refl _) hrun

/-- As long as fewer than `2 ^ 31` calls are made, runs keep the invariant. -/
lemma Intact.exec (hw : w.Intact) {as : List (StackStep α)} (hrun : exec step w as = some w')
    (hcalls : w'.calls < 2147483648) : w'.Intact := by
  induction as generalizing w with
  | nil =>
    obtain rfl : w = w' := by simpa using hrun
    exact hw
  | cons a as ih =>
    obtain ⟨u, hu, hrest⟩ := Option.bind_eq_some_iff.mp hrun
    obtain ⟨i, heffect⟩ := effect_of_step hu
    have hle := heffect.calls_le
    have hle' := calls_le_of_exec hrest
    exact ih (hw.effect (by omega) heffect) hrest

omit [Inhabited α] in
lemma Intact.tokens_perm (hw : w.Intact) (hdone : ∀ i, ¬(w.phase i).Pushing) :
    w.tokens.Perm (List.range (min w.calls w.maxSize)) := by
  have hdrawn : w.drawn = min w.calls w.maxSize := by
    obtain ⟨m, hm, hcensus⟩ := hw.tickets.waiting
    obtain rfl : m = 0 := by
      by_contra hpos
      obtain ⟨i, hi⟩ := hcensus.exists_of_pos (Nat.pos_of_ne_zero hpos)
      exact hdone i hi.pushing
    rw [drawn, hm, Nat.add_zero]
  rw [← hdrawn, List.perm_ext_iff_of_nodup hw.tickets.nodup List.nodup_range]
  intro t
  rw [List.mem_range]
  refine ⟨hw.tickets.token_lt t, fun ht => ?_⟩
  rcases hw.tickets.all t ht with h | ⟨i, hi⟩
  · exact h
  · exact absurd (StackPhase.pushing_of_slot hi) (hdone i)

lemma Effect.maxSize_eq (h : Effect w i w') : w'.maxSize = w.maxSize := by
  cases h <;> rfl

/-- In every interleaving with fewer than `2 ^ 31` calls of `push`: tokens are distinct and
below `max_size`, and once all calls are complete they are the first ones; chunks are
installed once and stay; no access leaves the table, and every `get` with a returned token
finds the item pushed under it. -/
def PushesCorrectly (s : PushOnlyFastStack α) : Prop :=
  ∀ (as bs : List (StackStep α)) (w w' : StackWorld α),
    exec step (init s) as = some w → exec step w bs = some w' → w'.calls < 2147483648 →
      w'.tokens.Nodup ∧ (∀ t ∈ w'.tokens, t < s.maxSize) ∧
      ((∀ i, ¬(w'.phase i).Pushing) →
        w'.tokens.Perm (List.range (min w'.calls s.maxSize))) ∧
      w'.installed.Nodup ∧
      (∀ m c : Nat, w.stacks_[m]? = some (some c) → w'.stacks_[m]? = some (some c)) ∧
      (∀ i, w'.phase i ≠ .outOfBounds) ∧ ∀ r ∈ w'.got, r.2 = .found r.1

lemma pushesCorrectly_new {unitSize maxSize : Nat} (hunit : 1 ≤ unitSize) :
    PushesCorrectly (PushOnlyFastStack.new unitSize maxSize : PushOnlyFastStack α) := by
  intro as bs w w' hrun hmore hcalls
  have hstart : (init (PushOnlyFastStack.new unitSize maxSize : PushOnlyFastStack α)).Intact :=
    ⟨tickets_init _, chunks_init hunit⟩
  have hw : w.Intact := hstart.exec hrun ((calls_le_of_exec hmore).trans_lt hcalls)
  have hw' : w'.Intact := hw.exec hmore hcalls
  have hmax : ∀ {u v : StackWorld α} {cs : List (StackStep α)}, exec step u cs = some v →
      v.maxSize = u.maxSize := by
    intro u v cs hcs
    refine exec_invariant_always (P := fun x => x.maxSize = u.maxSize) ?_ rfl hcs
    intro x a y hx hs
    obtain ⟨i, heffect⟩ := effect_of_step hs
    exact heffect.maxSize_eq.trans hx
  have hsize : w'.maxSize = maxSize := (hmax hmore).trans (hmax hrun)
  refine ⟨hw'.tickets.nodup, ?_, ?_, hw'.chunks.installed_nodup, ?_, ?_, hw'.chunks.got⟩
  · intro t ht
    have hlt := hw'.tickets.token_lt t ht
    rw [drawn, hsize] at hlt
    exact hlt.trans_le (Nat.min_le_right _ _)
  · intro hdone
    have hperm := hw'.tokens_perm hdone
    rw [hsize] at hperm
    exact hperm
  · intro m c hm
    refine exec_invariant_always (P := fun u => u.stacks_[m]? = some (some c)) ?_ hm hmore
    intro x a y hx hs
    obtain ⟨i, heffect⟩ := effect_of_step hs
    exact heffect.table_mono m c hx
  · intro i hi
    have hok := hw'.chunks.phase_ok i
    rw [hi] at hok
    exact hok

/-- Without a chunk table the first push reads behind it. -/
lemma not_pushesCorrectly_of_empty {s : PushOnlyFastStack α} (hempty : s.stacks_ = [])
    (hmax : 0 < s.maxSize) : ¬PushesCorrectly s := by
  intro h
  let w₁ : StackWorld α := { (init s).move 0 (.pushCalled default) with calls := 1 }
  let w₂ : StackWorld α := { w₁ with pushCount := 1 }.move 0 (.pushSlot default 0)
  have hdraw : w₁.step (.advance 0) = some w₂ := by
    have hroom : ¬sizeT (int32 ((0 : Nat) : Int)) ≥ s.maxSize := by
      rw [Nat.cast_zero, int32_zero, sizeT_of_nonneg (le_refl _) (by omega)]
      omega
    have hphase : w₁.phase 0 = .pushCalled default := by simp [w₁, move]
    have hslot : (int32 ((0 : Nat) : Int)).toNat = 0 := by rw [Nat.cast_zero, int32_zero]; rfl
    unfold step advance
    simp only [hphase]
    rw [if_neg (show ¬sizeT (int32 ((w₁.pushCount : Nat) : Int)) ≥ w₁.maxSize from hroom),
      show (int32 ((w₁.pushCount : Nat) : Int)).toNat = 0 from hslot]
    rfl
  have hleave : w₂.step (.advance 0) = some (w₂.move 0 .outOfBounds) := by
    simp [step, advance, w₂, w₁, init, move, hempty]
  have hrun : exec step (init s) [.push 0 default, .advance 0, .advance 0] =
      some (w₂.move 0 .outOfBounds) := by
    rw [exec_cons, show (init s).step (.push 0 default) = some w₁ from rfl, Option.bind_some,
      exec_cons, hdraw, Option.bind_some, exec_cons, hleave, Option.bind_some, exec_nil]
  have hcorrect := h _ [] _ _ hrun rfl (by simp [w₁, w₂, init, move])
  exact hcorrect.2.2.2.2.2.1 0 (by simp [move])

/-- A constructed stack pushes correctly under every interleaving exactly when the sum that
rounds its table up did not wrap. -/
theorem stack_pushes_correctly_iff (unitSize maxSize : Nat) (hunit : 1 ≤ unitSize)
    (hunit' : unitSize < 18446744073709551616) (hmax : maxSize < 18446744073709551616)
    (s : PushOnlyFastStack α) (hs : PushOnlyFastStack.construct unitSize maxSize = some s) :
    PushesCorrectly s ↔ maxSize + unitSize ≤ 18446744073709551616 := by
  constructor
  · intro h
    by_contra hwrap
    obtain ⟨hempty, hsize⟩ :=
      PushOnlyFastStack.construct_of_wrap hunit hunit' hmax (by omega) hs
    exact not_pushesCorrectly_of_empty hempty (by omega) h
  · intro hfit
    obtain ⟨rfl, -⟩ := PushOnlyFastStack.construct_of_fit hfit hs
    exact pushesCorrectly_new hunit

theorem stack_pushes_correctly_two :
    PushesCorrectly (PushOnlyFastStack.new 2 3 : PushOnlyFastStack Nat) ↔
      3 + 2 ≤ 18446744073709551616 :=
  stack_pushes_correctly_iff 2 3 (by decide) (by decide) (by decide) _ (by decide)

/-- The largest `max_size` with chunks of two: the rounding sum wraps to zero, so the table
is empty and the first push reads behind it. -/
theorem stack_push_leaves_empty_table :
    ∃ s : PushOnlyFastStack Nat,
      PushOnlyFastStack.construct 2 18446744073709551615 = some s ∧ ¬PushesCorrectly s :=
  ⟨⟨2, 18446744073709551615, [], 0⟩, by decide, not_pushesCorrectly_of_empty rfl (by decide)⟩

end StackWorld

end CoplusLean
