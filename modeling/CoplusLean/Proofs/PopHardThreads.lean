import CoplusLean.Models.PopHardThreads
import CoplusLean.Proofs.FastQueueProgress

/-!
# What `pop_hard` delivers while others push and pop

The calls of `pop_hard` return what their pops take out of the local queues, each value once. A
local queue hands its values out from the front: when none of its pops is between its ticket and
its return, the values returned from it are the first ones that were pushed to it, and `size()`
counts the rest when it is at rest.
-/

namespace CoplusLean

open Lib FastQueue

variable {α : Type*}

/-- The steps left of a pop on a local queue. -/
def Phase.popLeft : Phase α → Nat
  | .idle => 6
  | .popLoaded _ => 5
  | .popDrawn _ _ => 4
  | .popAdmitted _ => 3
  | .popTicket _ => 2
  | _ => 1

lemma Phase.popLeft_le (x : Phase α) : x.popLeft ≤ 6 := by
  cases x <;> simp [Phase.popLeft]

namespace LocalWorld

variable {n p t : Nat} {w w' : LocalWorld α}

/-- A step of a push on a thread that is not in a pop completes no pop. -/
lemma pushNext_popped (hpop : (w.phase t).popStage = .out) {item : α}
    (hstep : w.pushNext n t item = some w') : w'.popped = w.popped := by
  cases hphase : w.phase t <;> rw [hphase] at hpop <;>
    simp only [Phase.popStage, reduceCtorEq] at hpop <;>
    simp only [LocalWorld.pushNext, hphase, LocalWorld.step, LocalWorld.advance, move,
      Option.some.injEq] at hstep
  case pushDrawn item r e =>
    split at hstep
    all_goals
      cases hstep
      rfl
  all_goals
    subst hstep
    rfl

/-- A step of a pop on a thread that is not in a push. -/
structure PopEffect (w : LocalWorld α) (t : Nat) (x : Phase α) (w' : LocalWorld α) : Prop where
  phase : w'.phase = Function.update w.phase t x
  out : x.pushStage = .out
  popped : w'.popped.map Prod.snd =
    w.popped.map Prod.snd ++ ((w.phase t).popResult.getD none).toList
  next : (w.phase t).popResult = none → x.popLeft + 1 ≤ (w.phase t).popLeft
  last : (w.phase t).popResult ≠ none → (w.phase t).popLeft = 1

lemma popNext_effect (hpush : (w.phase t).pushStage = .out) (hstep : w.popNext n t = some w') :
    ∃ x, PopEffect w t x w' := by
  cases hphase : w.phase t <;> rw [hphase] at hpush <;>
    simp only [Phase.pushStage, reduceCtorEq] at hpush <;>
    simp only [LocalWorld.popNext, hphase, LocalWorld.step, LocalWorld.advance, move,
      Option.some.injEq] at hstep
  case popDrawn r d =>
    split at hstep
    all_goals
      cases hstep
      exact ⟨_, rfl, rfl, by simp [hphase, Phase.popResult], by simp [hphase, Phase.popLeft],
        by simp [hphase, Phase.popResult]⟩
  all_goals
    subst hstep
    exact ⟨_, rfl, rfl, by simp [hphase, Phase.popResult],
      by simp [hphase, Phase.popResult, Phase.popLeft],
      by simp [hphase, Phase.popResult, Phase.popLeft]⟩

lemma exists_popNext (n : Nat) (w : LocalWorld α) (t : Nat) : ∃ w', w.popNext n t = some w' := by
  cases hphase : w.phase t <;>
    simp only [LocalWorld.popNext, hphase, LocalWorld.step, LocalWorld.advance]
  case pushDrawn | popDrawn => split <;> exact ⟨_, rfl⟩
  all_goals exact ⟨_, rfl⟩

lemma Ticketed.popped_length (hw : w.Ticketed n p) (hfree : ∀ t, (w.phase t).place = none) :
    w.popped.length = w.queue.headFast := by
  have hlength := (hw.ledgered.perm_range hfree).length_eq
  rwa [List.length_map, List.length_range] at hlength

lemma Ticketed.pushed_length (hw : w.Ticketed n p) : w.pushed.length = w.queue.tail := by
  have hlength := congrArg List.length hw.producer.pushed
  rwa [List.length_map, List.length_range] at hlength

/-- While no pop holds a ticket, the pops that returned are those of the first pushes. -/
lemma Ticketed.popped_perm (hw : w.Ticketed n p) (hfree : ∀ t, (w.phase t).place = none) :
    w.popped.Perm (w.pushed.take w.popped.length) := by
  have hnodup : w.popped.Nodup := hw.ledgered.nodup.of_map
  have hle : w.popped.length ≤ w.pushed.length := by
    rw [hw.popped_length hfree, hw.pushed_length]
    exact hw.gated.dequeue.fast_le
  refine (List.subperm_of_subset hnodup ?_).perm_of_length_le (by simp [hle])
  rintro ⟨k, v⟩ hmem
  obtain ⟨i, hi, hpushed⟩ := List.mem_iff_getElem.mp (hw.cells.popped _ hmem)
  have hk : k = i := by
    have hfst : (w.pushed.map Prod.fst)[i]? = some k := by
      rw [List.getElem?_map, List.getElem?_eq_getElem hi, hpushed]
      rfl
    rw [hw.producer.pushed, List.getElem?_range (hw.pushed_length ▸ hi)] at hfst
    exact (Option.some.inj hfst).symm
  have hlt : k < w.popped.length := by
    rw [hw.popped_length hfree]
    exact hw.ledgered.done_lt k (List.mem_map_of_mem hmem)
  subst hk
  exact List.mem_take_iff_getElem.mpr ⟨k, lt_min hlt hi, hpushed⟩

/-- At rest `size()` counts the values that were pushed and not popped. -/
lemma Ticketed.size_eq (hn : FastLocalQueue.SlotSize n) (hw : w.Ticketed n p)
    (hidle : ∀ t, w.phase t = .idle) : w.queue.size + w.popped.length = w.pushed.length := by
  have hhead : w.queue.head = w.queue.headFast :=
    hw.gated.dequeue.slow_eq fun t => by simp [hidle, Phase.popStage]
  have hfast := hw.gated.dequeue.fast_le
  have hroom := passed_le hw.gated hw.producer
  have hlt := hn.lt
  rw [hw.popped_length fun t => by rw [hidle]; rfl, hw.pushed_length]
  simp only [FastLocalQueue.size, FastLocalQueue.sub, FastLocalQueue.load]
  omega

end LocalWorld

namespace FastQueueWorld

variable {w w' : FastQueueWorld α}

/-- The steps of the handles leave the pops alone. -/
lemma pops_of_handle {a : FastQueueStep α} (hw : w.Going) (hactor : a.actor ≠ none)
    (heff : Effect w a w') (p : Nat) : (w'.locals p).popped = (w.locals p).popped ∧
      ∀ c, (w'.locals p).phase (2 * c + 1) = (w.locals p).phase (2 * c + 1) := by
  cases heff with
  | token => exact ⟨rfl, fun _ => rfl⟩
  | push j q item l hpush hlocal hstep =>
    obtain ⟨x, hx, -⟩ := LocalWorld.pushNext_left (hw.pushing q j) hstep
    by_cases hp : p = q
    · subst hp
      refine ⟨by simpa using LocalWorld.pushNext_popped (hw.pushing p j) hstep, fun c => ?_⟩
      have hne : 2 * c + 1 ≠ 2 * j := by omega
      simp [hx, hne]
    · simp [hp]
  | pop _ _ _ _ _ hnone => exact absurd hnone hactor

lemma grows_of_effect {a : FastQueueStep α} (heff : Effect w a w') : w.queue.Grows w'.queue := by
  cases heff with
  | token _ j s x hactor huse hlist => exact hlist
  | push | pop => exact .of_list rfl

end FastQueueWorld

namespace ProbePhase

/-- The local queue whose `pop` the consumer is in. -/
def popping : ProbePhase → Option Nat
  | .downPop p _ _ _ => some p
  | .upPop p _ _ => some p
  | _ => none

/-- The steps that the loop up has left from `index` on. -/
def upLeft (index : Nat) : Nat := 8 * (101 - index) + 1

/-- The steps that a call has left at most, when the `pop` on the local queue has `pop` left. -/
def stepsLeft (pop : Nat) : ProbePhase → Nat
  | .idle => 0
  | .down index middle _ => 7 * (index + 1) + upLeft (middle + 1)
  | .downPop _ index middle _ => 7 * index + pop + upLeft (middle + 1)
  | .up index _ => upLeft index
  | .upPop _ index _ => 8 * (100 - index) + 2 + pop
  | .upFailed index _ => 8 * (100 - index) + 2

lemma stepsLeft_downNext (pop index middle : Nat) (approximateSize : Int) :
    (downNext index middle approximateSize).stepsLeft pop = 7 * index + upLeft (middle + 1) := by
  cases index <;> simp [downNext, stepsLeft]

lemma stepsLeft_popping {x : ProbePhase} {p : Nat} (h : x.popping = some p) (pop : Nat) :
    x.stepsLeft pop = x.stepsLeft 0 + pop := by
  cases x <;> simp [popping] at h <;> simp only [stepsLeft]
  case downPop => omega

/-- What `size()` may have returned so far, when `count` tokens were drawn. -/
def SizeBound (count : Nat) (approximateSize : Int) : Prop :=
  approximateSize < 2147483648 ∧ (count ≤ kQueueMaxCount → approximateSize ≤ kQueueMaxCount)

/-- The bounds of the loops. -/
def Bounded (count : Nat) : ProbePhase → Prop
  | .idle => True
  | .down index middle size => SizeBound count size ∧ index ≤ middle ∧ (middle < size ∨ middle = 0)
  | .downPop _ index middle size =>
    SizeBound count size ∧ index ≤ middle ∧ (middle < size ∨ middle = 0)
  | .up _ size => SizeBound count size
  | .upPop _ _ size => SizeBound count size
  | .upFailed _ size => SizeBound count size

lemma SizeBound.mono {count count' : Nat} {size : Int} (hle : count ≤ count')
    (h : SizeBound count size) : SizeBound count' size :=
  ⟨h.1, fun hcount => h.2 (hle.trans hcount)⟩

lemma Bounded.mono {count count' : Nat} (hle : count ≤ count') {x : ProbePhase}
    (h : x.Bounded count) : x.Bounded count' := by
  cases x with
  | idle => trivial
  | down | downPop => exact ⟨h.1.mono hle, h.2⟩
  | up | upPop | upFailed => exact SizeBound.mono hle h

lemma sizeBound_size {list : PushOnlyFastStack (Option Nat)} :
    SizeBound list.pushCount list.size := by
  refine ⟨(int32_bounds _).2, fun hle => ?_⟩
  have hcount : list.pushCount ≤ 100 := hle
  rw [PushOnlyFastStack.size, int32_of_lt (by omega) (by omega)]
  exact_mod_cast hle

lemma bounded_downNext {count index middle : Nat} {size : Int} (hsize : SizeBound count size)
    (hle : index ≤ middle) (hmiddle : middle < size ∨ middle = 0) :
    (downNext index middle size).Bounded count := by
  cases index with
  | zero => exact hsize
  | succ index => exact ⟨hsize, Nat.le_of_succ_le hle, hmiddle⟩

end ProbePhase

namespace QueueUsers

open ProbePhase

variable {w w' : QueueUsers α} {c : Nat}

/-- The values that `pop_hard` has returned from a local queue, in the order of the returns. -/
def returnedFrom (w : QueueUsers α) (p : Nat) : List α :=
  (w.returned.filter fun r => r.2.1 = p).map fun r => r.2.2

/-- What holds in every run: the handles do not pop and the consumers do not push, `QueueList` has
its table, and what is returned are the completed pops. -/
structure Probing (w : QueueUsers α) : Prop where
  going : w.shared.Going
  popping : ∀ p c, ((w.shared.locals p).phase (2 * c + 1)).pushStage = .out
  unitSize : w.shared.queue.queueList.unitSize = 10
  maxSize : w.shared.queue.queueList.maxSize = kQueueMaxCount
  table : w.shared.queue.queueList.stacks_.length = 10
  bounded : ∀ c, (w.probe c).Bounded w.shared.queue.queueList.pushCount
  returned : ∀ p, w.returnedFrom p = (w.shared.locals p).popped.map Prod.snd

lemma probing_init [Inhabited α] : (init : QueueUsers α).Probing where
  going := FastQueueWorld.going_init
  popping _ _ := rfl
  unitSize := rfl
  maxSize := rfl
  table := rfl
  bounded _ := trivial
  returned _ := rfl

/-- What a step does: a handle steps, a consumer calls `pop_hard`, it goes on in its loops, which
brings its call nearer to its end, or it makes a step of a `pop`. -/
inductive Effect [Inhabited α] (w : QueueUsers α) : QueueUserStep α → QueueUsers α → Prop
  | handle (a : FastQueueStep α) (s : FastQueueWorld α) (hactor : a.actor ≠ none)
      (hstep : w.shared.step a = some s) : Effect w (.handle a) { w with shared := s }
  | call (c middle : Nat) (hidle : w.probe c = .idle)
      (hmiddle : middle < w.shared.queue.queueList.size ∨ middle = 0) :
      Effect w (.popHard c middle)
        (w.setProbe c (.down middle middle w.shared.queue.queueList.size))
  | turn (c : Nat) (x : ProbePhase) (hprobe : (w.probe c).popping = none)
      (hbound : x.Bounded w.shared.queue.queueList.pushCount)
      (hleft : ∀ pop pop', pop ≤ 6 → x.stepsLeft pop + 1 ≤ (w.probe c).stepsLeft pop') :
      Effect w (.next c) (w.setProbe c x)
  | pop (c p : Nat) (failed : ProbePhase) (l : LocalWorld α)
      (hprobe : (w.probe c).popping = some p)
      (hbound : failed.Bounded w.shared.queue.queueList.pushCount)
      (hleft : ∀ pop ≤ 6, failed.stepsLeft pop + 1 ≤ (w.probe c).stepsLeft 1)
      (hstep : (w.shared.locals p).popNext kLocalQueueSize (2 * c + 1) = some l) :
      Effect w (.next c) (afterPop
        { w with shared := { w.shared with locals := Function.update w.shared.locals p l } } c p
        failed ((w.shared.locals p).phase (2 * c + 1)).popResult)

lemma effect_of_popNext [Inhabited α] {p : Nat} {failed : ProbePhase}
    (hprobe : (w.probe c).popping = some p)
    (hbound : failed.Bounded w.shared.queue.queueList.pushCount)
    (hleft : ∀ pop ≤ 6, failed.stepsLeft pop + 1 ≤ (w.probe c).stepsLeft 1)
    (hstep : w.popNext c p failed = some w') : Effect w (.next c) w' := by
  unfold QueueUsers.popNext at hstep
  obtain ⟨l, hl, rfl⟩ := Option.map_eq_some_iff.mp hstep
  exact .pop c p failed l hprobe hbound hleft hl

/-- An index behind the table is refused. -/
lemma index_le {list : PushOnlyFastStack (Option Nat)} (hmax : list.maxSize = kQueueMaxCount)
    {index : Nat} (hlt : index < 2147483648) {p : Option Nat} (hget : list.get index = .found p) :
    index ≤ 100 := by
  unfold PushOnlyFastStack.get at hget
  split at hget
  case isTrue => cases hget
  case isFalse h =>
    rw [hmax, sizeT_of_nonneg (by omega) (by omega), Int.toNat_natCast] at h
    exact Nat.le_of_not_lt h

lemma effect_of_next [Inhabited α] (hw : w.Probing) (hstep : w.next c = some w') :
    Effect w (.next c) w' := by
  have hbound := hw.bounded c
  cases hprobe : w.probe c with
  | idle => simp [QueueUsers.next, hprobe] at hstep
  | down index middle size =>
    rw [hprobe] at hbound
    obtain ⟨hsize, hle, hmiddle⟩ := hbound
    simp only [QueueUsers.next, hprobe] at hstep
    split at hstep
    case h_1 => cases hstep
    case h_2 p hget =>
      obtain rfl := Option.some.inj hstep
      refine .turn c _ (by rw [hprobe]; rfl) ⟨hsize, hle, hmiddle⟩ fun pop pop' hpop => ?_
      rw [hprobe]
      simp only [stepsLeft]
      omega
    case h_3 =>
      obtain rfl := Option.some.inj hstep
      refine .turn c _ (by rw [hprobe]; rfl) (bounded_downNext hsize hle hmiddle)
        fun pop pop' hpop => ?_
      rw [hprobe, stepsLeft_downNext]
      simp only [stepsLeft]
      omega
  | downPop p index middle size =>
    rw [hprobe] at hbound
    obtain ⟨hsize, hle, hmiddle⟩ := hbound
    simp only [QueueUsers.next, hprobe] at hstep
    refine effect_of_popNext (by rw [hprobe]; rfl) (bounded_downNext hsize hle hmiddle)
      (fun pop hpop => ?_) hstep
    rw [hprobe, stepsLeft_downNext]
    simp only [stepsLeft]
    omega
  | up index size =>
    rw [hprobe] at hbound
    have hreturn : Effect w (.next c) (w.setProbe c .idle) := by
      refine .turn c _ (by rw [hprobe]; rfl) trivial fun pop pop' hpop => ?_
      rw [hprobe]
      simp only [stepsLeft, upLeft]
      omega
    simp only [QueueUsers.next, hprobe] at hstep
    split at hstep
    case isTrue hindex =>
      split at hstep
      case h_1 => cases hstep
      case h_2 p hget =>
        obtain rfl := Option.some.inj hstep
        have hlt : index < 2147483648 := by
          have hlow := hbound.1
          omega
        have hhundred := index_le hw.maxSize hlt hget
        refine .turn c _ (by rw [hprobe]; rfl) hbound fun pop pop' hpop => ?_
        rw [hprobe]
        simp only [stepsLeft, upLeft]
        omega
      case h_3 =>
        obtain rfl := Option.some.inj hstep
        exact hreturn
    case isFalse =>
      obtain rfl := Option.some.inj hstep
      exact hreturn
  | upPop p index size =>
    rw [hprobe] at hbound
    simp only [QueueUsers.next, hprobe] at hstep
    have hfailed : (ProbePhase.upFailed index size).Bounded w.shared.queue.queueList.pushCount :=
      hbound
    refine effect_of_popNext (by rw [hprobe]; rfl) hfailed (fun pop hpop => ?_) hstep
    rw [hprobe]
    simp only [stepsLeft]
    omega
  | upFailed index size =>
    rw [hprobe] at hbound
    simp only [QueueUsers.next, hprobe] at hstep
    obtain rfl := Option.some.inj hstep
    refine .turn c _ (by rw [hprobe]; rfl) ?_ fun pop pop' hpop => ?_
    · show SizeBound _ _
      split
      · exact sizeBound_size
      · exact hbound
    · rw [hprobe]
      simp only [stepsLeft, upLeft]
      omega

lemma effect_of_step [Inhabited α] {a : QueueUserStep α} (hw : w.Probing)
    (hstep : w.step a = some w') : Effect w a w' := by
  cases a with
  | handle a =>
    cases a with
    | pop | popNext => cases hstep
    | create | push | pushHard | destroy | next =>
      obtain ⟨s, hs, rfl⟩ := Option.map_eq_some_iff.mp hstep
      exact .handle _ s (by simp [FastQueueStep.actor]) hs
  | popHard c middle =>
    simp only [QueueUsers.step] at hstep
    split at hstep
    case h_1 hidle =>
      split at hstep
      case isTrue houtcome =>
        obtain rfl := Option.some.inj hstep
        exact .call c middle hidle (houtcome.imp id And.right)
      case isFalse => cases hstep
    case h_2 => cases hstep
  | next c => exact effect_of_next hw hstep

/-! ## What every run keeps -/

lemma Probing.setProbe (hw : w.Probing) {x : ProbePhase}
    (hx : x.Bounded w.shared.queue.queueList.pushCount) : (w.setProbe c x).Probing where
  going := hw.going
  popping := hw.popping
  unitSize := hw.unitSize
  maxSize := hw.maxSize
  table := hw.table
  bounded k := by
    by_cases hk : k = c
    · subst hk
      simpa [QueueUsers.setProbe] using hx
    · simpa [QueueUsers.setProbe, hk] using hw.bounded k
  returned := hw.returned

lemma Probing.setLocal (hw : w.Probing) {p t : Nat} {x : Phase α} {l : LocalWorld α}
    (ht : t = 2 * c + 1) (hpop : LocalWorld.PopEffect (w.shared.locals p) t x l)
    {returned : List (Nat × Nat × α)}
    (hreturned : ∀ q, returnedFrom { w with returned := returned } q =
      (Function.update w.shared.locals p l q).popped.map Prod.snd) :
    Probing ⟨{ w.shared with locals := Function.update w.shared.locals p l }, w.probe, returned⟩ where
  going := by
    refine ⟨hw.going.pointer, fun q k => ?_⟩
    have hne : 2 * k ≠ t := by omega
    by_cases hq : q = p
    · subst hq
      simpa [hpop.phase, hne] using hw.going.pushing q k
    · simpa [hq] using hw.going.pushing q k
  popping q k := by
    by_cases hq : q = p
    · subst hq
      by_cases hk : 2 * k + 1 = t
      · simpa [hpop.phase, hk] using hpop.out
      · simpa [hpop.phase, hk] using hw.popping q k
    · simpa [hq] using hw.popping q k
  unitSize := hw.unitSize
  maxSize := hw.maxSize
  table := hw.table
  bounded := hw.bounded
  returned := hreturned

lemma Probing.step [Inhabited α] {a : QueueUserStep α} (hw : w.Probing) (heff : Effect w a w') :
    w'.Probing := by
  cases heff with
  | handle a s hactor hstep =>
    have heff := FastQueueWorld.effect_of_step hstep
    have hpops := FastQueueWorld.pops_of_handle hw.going hactor heff
    obtain ⟨hunit, hmax, htable, hcount⟩ := FastQueueWorld.grows_of_effect heff
    exact ⟨hw.going.step heff, fun p c => ((hpops p).2 c).symm ▸ hw.popping p c,
      hunit.trans hw.unitSize, hmax.trans hw.maxSize, htable.trans hw.table,
      fun c => (hw.bounded c).mono hcount, fun p => (hw.returned p).trans (by rw [(hpops p).1])⟩
  | call c middle hidle hmiddle => exact hw.setProbe ⟨sizeBound_size, le_rfl, hmiddle⟩
  | turn c x hprobe hbound hleft => exact hw.setProbe hbound
  | pop c p failed l hprobe hbound hleft hstep =>
    obtain ⟨x, hpop⟩ := LocalWorld.popNext_effect (hw.popping p c) hstep
    have hpopped := hpop.popped
    have hsame : l.popped.map Prod.snd = (w.shared.locals p).popped.map Prod.snd →
        Probing { w with
          shared := { w.shared with locals := Function.update w.shared.locals p l } } := by
      refine fun hl => hw.setLocal rfl hpop fun q => ?_
      by_cases hq : q = p
      · subst hq
        rw [Function.update_self, hl]
        exact hw.returned q
      · rw [Function.update_of_ne hq]
        exact hw.returned q
    cases hresult : ((w.shared.locals p).phase (2 * c + 1)).popResult with
    | none => exact hsame (by simpa [hresult] using hpopped)
    | some result =>
      cases result with
      | none => exact (hsame (by simpa [hresult] using hpopped)).setProbe hbound
      | some ret =>
        have hreturn : Probing ⟨{ w.shared with locals := Function.update w.shared.locals p l },
            w.probe, w.returned ++ [(c, p, ret)]⟩ := by
          refine hw.setLocal rfl hpop fun q => ?_
          have hold := hw.returned q
          simp only [returnedFrom] at hold ⊢
          by_cases hq : q = p
          · subst hq
            simp [hpopped, hresult, hold]
          · simp [hold, hq, Ne.symm hq]
        exact hreturn.setProbe (x := .idle) trivial

lemma probing_run [Inhabited α] {run : List (QueueUserStep α)} (hw : w.Probing)
    (hrun : exec step w run = some w') : w'.Probing :=
  exec_invariant_always (fun _ _ _ hs hstep => hs.step (effect_of_step hs hstep)) hw hrun

/-! ## What is delivered -/

/-- The condition on a step: that of `FastQueueWorld.Careful`, for the pops of `pop_hard`. -/
def Careful (w : QueueUsers α) : QueueUserStep α → Prop
  | .handle a => w.shared.Careful a
  | .popHard _ _ => True
  | .next c => ∀ p ∈ (w.probe c).popping,
      (w.shared.locals p).CellVacated kLocalQueueSize (.advance (2 * c + 1))

lemma owned_step [Inhabited α] {a : QueueUserStep α} (hw : w.shared.Owned) (hok : w.Careful a)
    (heff : Effect w a w') : w'.shared.Owned := by
  cases heff with
  | handle a s hactor hstep => exact hw.step hok hstep
  | call | turn => exact hw
  | pop c p failed l hprobe hbound hleft hstep =>
    have hshared : ∀ (u : QueueUsers α) (r : Option (Option α)),
        (afterPop u c p failed r).shared = u.shared := by
      rintro u (_ | _ | ret) <;> rfl
    rw [hshared]
    have hvacated := hok p hprobe
    unfold LocalWorld.popNext at hstep
    split at hstep
    · exact hw.outside (Or.inl rfl) (by omega) trivial hstep
    · exact hw.outside (Or.inr rfl) (by omega) hvacated hstep

/-- What the consumers of a `FastQueue` get: each value that a `push` has accepted is returned at
most once, from a local queue without a pop under way its first values, and what is left is what
`size()` counts while the local queue is at rest. -/
structure Delivered (w : QueueUsers α) : Prop where
  once : ∀ p, (w.returnedFrom p).Subperm ((w.shared.locals p).pushed.map Prod.snd)
  first : ∀ p, (∀ t, ((w.shared.locals p).phase t).place = none) → (w.returnedFrom p).Perm
    (((w.shared.locals p).pushed.map Prod.snd).take (w.returnedFrom p).length)
  left : ∀ p, (∀ t, (w.shared.locals p).phase t = .idle) →
    (w.shared.locals p).queue.size + (w.returnedFrom p).length = (w.shared.locals p).pushed.length

lemma Probing.delivered (hw : w.Probing) (howned : w.shared.Owned) : w.Delivered where
  once p := by
    obtain ⟨t, ht⟩ := howned.ticketed p
    obtain ⟨l, hperm, hsub⟩ := List.subperm_of_subset ht.ledgered.nodup.of_map ht.cells.popped
    rw [hw.returned p]
    exact ⟨l.map Prod.snd, hperm.map _, hsub.map _⟩
  first p hfree := by
    obtain ⟨t, ht⟩ := howned.ticketed p
    rw [hw.returned p, List.length_map, ← List.map_take]
    exact (ht.popped_perm hfree).map _
  left p hidle := by
    obtain ⟨t, ht⟩ := howned.ticketed p
    rw [hw.returned p, List.length_map]
    exact ht.size_eq FastLocalQueue.slotSize_kLocalQueueSize hidle

/-- In every interleaving of the handles with consumers that call `pop_hard`. -/
theorem popHard_delivers [Inhabited α] (run : List (QueueUserStep α)) (w : QueueUsers α)
    (hok : Along step Careful init run) (hrun : exec step init run = some w) : w.Delivered := by
  have hw : w.Probing ∧ w.shared.Owned :=
    exec_invariant (P := fun w => w.Probing ∧ w.shared.Owned)
      (fun _ _ _ hs hc hstep =>
        have heff := effect_of_step hs.1 hstep
        ⟨hs.1.step heff, owned_step hs.2 hc heff⟩)
      ⟨probing_init, FastQueueWorld.owned_init⟩ hok hrun
  exact hw.1.delivered hw.2

/-- A queue can still be created and no cell has been used twice. -/
def Early (w : QueueUsers α) : QueueUserStep α → Prop
  | .handle a => w.shared.Early a
  | .popHard _ _ => True
  | .next c => ∀ p ∈ (w.probe c).popping,
      (w.shared.locals p).FirstUse kLocalQueueSize (.advance (2 * c + 1)) ∧
        (w.shared.locals p).Hazardless (.advance (2 * c + 1))

instance (w : QueueUsers α) : DecidablePred w.Early
  | .handle a => inferInstanceAs (Decidable (w.shared.Early a))
  | .popHard _ _ => isTrue trivial
  | .next _ => inferInstanceAs (Decidable (∀ p ∈ _, _ ∧ _))

lemma careful_of_early {a : QueueUserStep α} (h : w.Early a) : w.Careful a := by
  cases a with
  | handle a => exact FastQueueWorld.careful_of_early h
  | popHard => exact trivial
  | next c =>
    intro p hp
    obtain ⟨hfresh, hrange⟩ := h p hp
    exact LocalWorld.cellVacated_of_firstUse hfresh hrange

/-- The handle 0 pushes 7 and 8. -/
def twoPushes : List (FastQueueStep Nat) :=
  [.create 0] ++ List.replicate 10 (.next 0) ++ [.push 0 7] ++ List.replicate 6 (.next 0) ++
    [.push 0 8] ++ List.replicate 6 (.next 0)

/-- Then two consumers call `pop_hard` at the same time. -/
def twoConsumers : List (QueueUserStep Nat) :=
  twoPushes.map .handle ++ [.popHard 0 0, .popHard 1 0] ++
    (List.replicate 7 [.next 1, .next 0]).flatten

theorem popHard_delivers_two : ∃ w, exec step init twoConsumers = some w ∧
    w.returned = [(1, 0, 7), (0, 0, 8)] ∧ w.Delivered := by
  have hok : Along step Careful init twoConsumers := by
    have hearly : Along step Early init twoConsumers := by decide +kernel
    exact hearly.mono fun _ _ h => careful_of_early h
  have heval : (exec step init twoConsumers).map returned = some [(1, 0, 7), (0, 0, 8)] := by
    decide +kernel
  obtain ⟨w, hrun, hw⟩ := Option.map_eq_some_iff.mp heval
  exact ⟨w, hrun, hw, popHard_delivers twoConsumers w hok hrun⟩

end QueueUsers

end CoplusLean
