import CoplusLean.Proofs.QueueRoom
import Mathlib.Data.List.Infix

/-!
# The order of one producer's values

Items are pairs of the number of the handle that pushed them and a value, so that the
values of one handle can be followed. Each local queue is a FIFO; the order of a handle is
kept as long as all its values lie in one queue. A `push_hard` that leaves values of the
handle behind in a full queue and goes on in a new one breaks it: a consumer that starts
its scan at the new queue pops the newer value first.
-/

namespace CoplusLean

open Lib FastQueue

variable {β : Type*}

/-- The items of handle `k`, in their order. -/
def ofHandle (k : Nat) (items : List (Nat × β)) : List (Nat × β) := items.filter fun i => i.1 = k

@[simp] lemma ofHandle_nil (k : Nat) : ofHandle k ([] : List (Nat × β)) = [] := rfl

@[simp] lemma ofHandle_append (k : Nat) (l m : List (Nat × β)) :
    ofHandle k (l ++ m) = ofHandle k l ++ ofHandle k m := List.filter_append ..

lemma ofHandle_self {k : Nat} {x : Nat × β} (hx : x.1 = k) (l : List (Nat × β)) :
    ofHandle k (x :: l) = x :: ofHandle k l := by simp [ofHandle, hx]

lemma ofHandle_other {k : Nat} {x : Nat × β} (hx : x.1 ≠ k) (l : List (Nat × β)) :
    ofHandle k (x :: l) = ofHandle k l := by simp [ofHandle, hx]

lemma ofHandle_eq_nil {k : Nat} {l : List (Nat × β)} : ofHandle k l = [] ↔ ∀ y ∈ l, y.1 ≠ k := by
  simp [ofHandle]

lemma getD_set_self {γ : Type*} {l : List (List γ)} {p : Nat} (hp : p < l.length) (m : List γ) :
    (l.set p m).getD p [] = m := by
  rw [List.getD_eq_getElem?_getD, List.getElem?_set_self hp, Option.getD_some]

lemma getD_set_ne {γ : Type*} (l : List (List γ)) {p i : Nat} (hne : i ≠ p) (m : List γ) :
    (l.set p m).getD i [] = l.getD i [] := by
  rw [List.getD_eq_getElem?_getD, List.getElem?_set_ne (Ne.symm hne), ← List.getD_eq_getElem?_getD]

lemma getD_append_empty {γ : Type*} (l : List (List γ)) (n i : Nat) :
    (l ++ List.replicate n []).getD i [] = l.getD i [] := by
  rcases Nat.lt_or_ge i l.length with hlt | hge
  · exact List.getD_append _ _ _ _ hlt
  · rw [List.getD_append_right _ _ _ _ hge, List.getD_eq_default _ _ hge]
    simp [List.getD_eq_getElem?_getD, List.getElem?_replicate]
    split_ifs <;> rfl

namespace QueueWorld

/-- Handles are numbered apart, and the items a handle pushes carry its number. -/
def Signed (w : QueueWorld (Nat × β)) : QueueCall (Nat × β) → Prop
  | .create k => ∀ y ∈ w.pushed, y.1 ≠ k
  | .push k x => x.1 = k
  | .pushHard k x => x.1 = k
  | _ => True

/-- No `push_hard` leaves a full queue that still holds a value of the same handle. -/
def StaysPut (w : QueueWorld (Nat × β)) : QueueCall (Nat × β) → Prop
  | .pushHard k _ => ∀ h ∈ w.handles k, ∀ p ∈ h.local_, w.queue.Full p →
      ∀ y ∈ w.queue.stored.getD p [], y.1 ≠ k
  | _ => True

/-- The stored values of handle `k` are all in queue `p`, behind the ones already popped;
the handle uses that queue, or has pushed nothing. -/
structure InOrder (w : QueueWorld (Nat × β)) (k p : Nat) : Prop where
  alone : ∀ i, i ≠ p → ofHandle k (w.queue.stored.getD i []) = []
  order : ofHandle k w.popped ++ ofHandle k (w.queue.stored.getD p []) = ofHandle k w.pushed
  idle : ∀ h, w.handles k = some h → h.local_ = none → ofHandle k w.pushed = []
  place : ∀ h p', w.handles k = some h → h.local_ = some p' → p' = p

variable {w : QueueWorld (Nat × β)} {k p : Nat}

/-- Nothing of handle `k` changes. -/
lemma InOrder.same (hk : w.InOrder k p) {w' : QueueWorld (Nat × β)}
    (hstored : ∀ i, ofHandle k (w'.queue.stored.getD i []) = ofHandle k (w.queue.stored.getD i []))
    (hpopped : ofHandle k w'.popped = ofHandle k w.popped)
    (hpushed : ofHandle k w'.pushed = ofHandle k w.pushed)
    (hhandle : ∀ h, w'.handles k = some h → w.handles k = some h) : w'.InOrder k p where
  alone i hi := by rw [hstored, hk.alone i hi]
  order := by rw [hpopped, hstored, hpushed, hk.order]
  idle h hh hl := by rw [hpushed, hk.idle h (hhandle h hh) hl]
  place h p' hh hl := hk.place h p' (hhandle h hh) hl

/-- A handle without values may start anywhere. -/
lemma InOrder.start (hk : w.InOrder k p) (hnone : ofHandle k w.pushed = [])
    {w' : QueueWorld (Nat × β)} (p' : Nat)
    (hstored : ∀ i, ofHandle k (w'.queue.stored.getD i []) = ofHandle k (w.queue.stored.getD i []))
    (hpopped : ofHandle k w'.popped = ofHandle k w.popped)
    (hpushed : ofHandle k w'.pushed = ofHandle k w.pushed)
    (hhandle : ∀ h p'', w'.handles k = some h → h.local_ = some p'' → p'' = p') :
    w'.InOrder k p' := by
  have hempty : ∀ i, ofHandle k (w.queue.stored.getD i []) = [] := by
    intro i
    by_cases hi : i = p
    · have horder := hk.order
      rw [hnone, List.append_eq_nil_iff] at horder
      rw [hi]
      exact horder.2
    · exact hk.alone i hi
  have hpop : ofHandle k w.popped = [] := by
    have horder := hk.order
    rw [hnone, List.append_eq_nil_iff] at horder
    exact horder.1
  refine ⟨fun i _ => by rw [hstored, hempty], ?_, fun h _ _ => by rw [hpushed, hnone], hhandle⟩
  rw [hpopped, hpop, hstored, hempty, hpushed, hnone]
  rfl

/-- An item of handle `k` joins the end of its queue. -/
lemma InOrder.push (hk : w.InOrder k p) {x : Nat × β} (hp : p < w.queue.stored.length)
    {w' : QueueWorld (Nat × β)}
    (hstored : w'.queue.stored = w.queue.stored.set p (w.queue.stored.getD p [] ++ [x]))
    (hpopped : w'.popped = w.popped) (hpushed : w'.pushed = w.pushed ++ [x])
    (hhandle : ∀ h, w'.handles k = some h → h.local_ = some p) : w'.InOrder k p where
  alone i hi := by rw [hstored, getD_set_ne _ hi, hk.alone i hi]
  order := by
    rw [hpopped, hstored, getD_set_self hp, hpushed, ofHandle_append, ofHandle_append,
      ← List.append_assoc, hk.order]
  idle h hh hl := by simp [hhandle h hh] at hl
  place h p' hh hl := by
    rw [hhandle h hh] at hl
    exact (Option.some.inj hl).symm

/-- An item of another handle joins some queue. -/
lemma InOrder.push_other (hk : w.InOrder k p) {x : Nat × β} (hx : x.1 ≠ k) {i : Nat}
    {w' : QueueWorld (Nat × β)}
    (hstored : w'.queue.stored = w.queue.stored.set i (w.queue.stored.getD i [] ++ [x]))
    (hpopped : w'.popped = w.popped) (hpushed : w'.pushed = w.pushed ++ [x])
    (hhandle : w'.handles k = w.handles k) : w'.InOrder k p := by
  apply hk.same
  · intro j
    rw [hstored]
    by_cases hj : j = i
    · subst hj
      by_cases hlt : j < w.queue.stored.length
      · rw [getD_set_self hlt, ofHandle_append, ofHandle_other hx, ofHandle_nil, List.append_nil]
      · rw [List.set_eq_of_length_le (by omega)]
    · rw [getD_set_ne _ hj]
  · rw [hpopped]
  · rw [hpushed, ofHandle_append, ofHandle_other hx, ofHandle_nil, List.append_nil]
  · intro h hh
    rw [← hhandle]
    exact hh

/-- Popping the first value of a queue. -/
lemma InOrder.pop (hk : w.InOrder k p) {x : Nat × β} {i : Nat} {rest : List (Nat × β)}
    (hget : w.queue.stored[i]? = some (x :: rest)) {w' : QueueWorld (Nat × β)}
    (hstored : w'.queue.stored = w.queue.stored.set i rest)
    (hpopped : w'.popped = w.popped ++ [x]) (hpushed : w'.pushed = w.pushed)
    (hhandle : w'.handles = w.handles) : w'.InOrder k p := by
  have hi : i < w.queue.stored.length := (List.getElem?_eq_some_iff.mp hget).1
  have hold : w.queue.stored.getD i [] = x :: rest := by
    rw [List.getD_eq_getElem?_getD, hget, Option.getD_some]
  by_cases hx : x.1 = k
  · -- the value of handle `k` lies in its own queue, in front
    obtain rfl : i = p := by
      by_contra hne
      have halone := hk.alone i hne
      rw [hold, ofHandle_self hx] at halone
      cases halone
    have horder := hk.order
    rw [hold, ofHandle_self hx] at horder
    refine ⟨fun j hj => ?_, ?_, ?_, ?_⟩
    · rw [hstored, getD_set_ne _ hj, hk.alone j hj]
    · rw [hstored, getD_set_self hi, hpopped, hpushed, ofHandle_append, ofHandle_self hx,
        ofHandle_nil, List.append_assoc]
      exact horder
    · rw [hhandle, hpushed]
      exact hk.idle
    · rw [hhandle]
      exact hk.place
  · apply hk.same
    · intro j
      rw [hstored]
      by_cases hj : j = i
      · rw [hj, getD_set_self hi, hold, ofHandle_other hx]
      · rw [getD_set_ne _ hj]
    · rw [hpopped, ofHandle_append, ofHandle_other hx, ofHandle_nil, List.append_nil]
    · rw [hpushed]
    · rw [hhandle]
      exact fun h hh => hh

/-- Every handle's values are in order. -/
def Ordered (w : QueueWorld (Nat × β)) : Prop := ∀ k, ∃ p, w.InOrder k p

lemma ordered_init : (init : QueueWorld (Nat × β)).Ordered :=
  fun k => ⟨0, fun _ _ => rfl, rfl, fun _ hh => by simp [init] at hh, fun _ _ hh => by simp [init] at hh⟩

/-- A step that touches no value and no handle but `j`, which has pushed nothing. -/
lemma Ordered.start (hw : w.Ordered) {j : Nat} (hnone : ofHandle j w.pushed = [])
    {w' : QueueWorld (Nat × β)}
    (hstored : ∀ i, w'.queue.stored.getD i [] = w.queue.stored.getD i [])
    (hpopped : w'.popped = w.popped) (hpushed : w'.pushed = w.pushed)
    (hhandles : ∀ k, k ≠ j → w'.handles k = w.handles k) : w'.Ordered := by
  intro k
  obtain ⟨p, hk⟩ := hw k
  by_cases hkj : k = j
  · subst hkj
    refine ⟨((w'.handles k).bind ProducerHandle.local_).getD 0, ?_⟩
    apply hk.start hnone
    · exact fun i => by rw [hstored]
    · rw [hpopped]
    · rw [hpushed]
    · intro h p'' hh hl
      simp [hh, hl]
  · refine ⟨p, hk.same (fun i => by rw [hstored]) (by rw [hpopped]) (by rw [hpushed]) ?_⟩
    intro h hh
    rw [← hhandles k hkj]
    exact hh

/-- A step that touches no value and at most drops a handle. -/
lemma Ordered.same (hw : w.Ordered) {w' : QueueWorld (Nat × β)}
    (hstored : ∀ i, w'.queue.stored.getD i [] = w.queue.stored.getD i [])
    (hpopped : w'.popped = w.popped) (hpushed : w'.pushed = w.pushed)
    (hhandles : ∀ k h, w'.handles k = some h → w.handles k = some h) : w'.Ordered := by
  intro k
  obtain ⟨p, hk⟩ := hw k
  exact ⟨p, hk.same (fun i => by rw [hstored]) (by rw [hpopped]) (by rw [hpushed]) (hhandles k)⟩

lemma Ordered.probed (hw : w.Ordered) {q : FastQueue (Nat × β)} {r : Option (Nat × β)}
    (hprobed : Probed w.queue r q) :
    Ordered { w with queue := q, popped := w.afterPop r } := by
  have htook := hprobed.took
  cases r with
  | none =>
    have hstored : q.stored = w.queue.stored := htook
    refine hw.same (fun i => by rw [hstored]) ?_ rfl (fun k h hh => hh)
    simp [afterPop]
  | some x =>
    obtain ⟨i, rest, hget, hstored⟩ := htook
    intro k
    obtain ⟨p, hk⟩ := hw k
    exact ⟨p, hk.pop hget hstored rfl rfl rfl⟩

variable [Inhabited β]

lemma stored_acquired {q : FastQueue (Nat × β)} {h : ProducerHandle}
    {s : FastQueue (Nat × β) × ProducerHandle} (hs : Acquired q h s) (i : Nat) :
    s.1.stored.getD i [] = q.stored.getD i [] := by
  cases hs with
  | reused q' t rest hfree hrest hlist hheap hflag hsound => simp only [stored, hheap]
  | created hfree hroom hsound =>
    simp only [stored_extended]
    exact getD_append_empty q.stored 1 i
  | failed q' hfree hfull hcreated hlist hstored hflag hsound =>
    rw [hstored]
    exact getD_append_empty q.stored 9 i

omit [Inhabited β] in
/-- A value that goes into the queue its handle uses. -/
lemma Ordered.push (hw : w.Ordered) {j p : Nat} {h : ProducerHandle} (hj : w.handles j = some h)
    (hlocal : h.local_ = some p) {x : Nat × β} (hx : x.1 = j) (hp : p < w.queue.stored.length)
    {w' : QueueWorld (Nat × β)}
    (hstored : w'.queue.stored = w.queue.stored.set p (w.queue.stored.getD p [] ++ [x]))
    (hpopped : w'.popped = w.popped) (hpushed : w'.pushed = w.pushed ++ [x])
    (hhandles : w'.handles = w.handles) : w'.Ordered := by
  intro k
  obtain ⟨p', hk⟩ := hw k
  by_cases hkj : k = j
  · subst hkj
    obtain rfl : p = p' := hk.place h p hj hlocal
    refine ⟨p, hk.push hp hstored hpopped hpushed ?_⟩
    intro h' hh'
    rw [hhandles, hj] at hh'
    rw [← Option.some.inj hh', hlocal]
  · refine ⟨p', hk.push_other ?_ hstored hpopped hpushed (by rw [hhandles])⟩
    rw [hx]
    exact Ne.symm hkj

omit [Inhabited β] in
/-- A value that goes into a new queue, when the handle has left none behind. -/
lemma Ordered.move (hw : w.Ordered) {j p : Nat} {h : ProducerHandle} (hj : w.handles j = some h)
    (hlocal : h.local_ = some p) (hnone : ofHandle j (w.queue.stored.getD p []) = [])
    {x : Nat × β} (hx : x.1 = j) {w' : QueueWorld (Nat × β)} {h' : ProducerHandle}
    (hstored : w'.queue.stored = w.queue.stored ++ [[x]])
    (hpopped : w'.popped = w.popped) (hpushed : w'.pushed = w.pushed ++ [x])
    (hhandles : w'.handles = Function.update w.handles j (some h'))
    (hlocal' : h'.local_ = some w.queue.stored.length) : w'.Ordered := by
  have hcell : ∀ i, w'.queue.stored.getD i [] =
      if i = w.queue.stored.length then [x] else w.queue.stored.getD i [] := by
    intro i
    rw [hstored]
    rcases Nat.lt_trichotomy i w.queue.stored.length with hlt | heq | hgt
    · rw [if_neg (by omega), List.getD_append _ _ _ _ hlt]
    · rw [if_pos heq, heq, List.getD_append_right _ _ _ _ (le_refl _), Nat.sub_self]
      rfl
    · rw [if_neg (by omega), List.getD_eq_default _ _ (by
        rw [List.length_append, List.length_singleton]; omega), List.getD_eq_default _ _ (by omega)]
  have hlast : w.queue.stored.getD w.queue.stored.length [] = [] :=
    List.getD_eq_default _ _ (le_refl _)
  intro k
  obtain ⟨p', hk⟩ := hw k
  by_cases hkj : k = j
  · subst hkj
    obtain rfl : p = p' := hk.place h p hj hlocal
    have hempty : ∀ i, ofHandle k (w.queue.stored.getD i []) = [] := by
      intro i
      by_cases hi : i = p
      · rw [hi]
        exact hnone
      · exact hk.alone i hi
    refine ⟨w.queue.stored.length, fun i hi => ?_, ?_, ?_, ?_⟩
    · rw [hcell, if_neg hi, hempty]
    · have horder := hk.order
      rw [hnone, List.append_nil] at horder
      rw [hcell, if_pos rfl, hpopped, hpushed, ofHandle_append, horder]
    · intro a ha hl
      rw [hhandles, Function.update_self] at ha
      rw [← Option.some.inj ha, hlocal'] at hl
      cases hl
    · intro a p'' ha hl
      rw [hhandles, Function.update_self] at ha
      rw [← Option.some.inj ha, hlocal'] at hl
      exact (Option.some.inj hl).symm
  · have hxk : x.1 ≠ k := by
      rw [hx]
      exact Ne.symm hkj
    refine ⟨p', hk.same (fun i => ?_) (by rw [hpopped]) ?_ ?_⟩
    · rw [hcell]
      split_ifs with hi
      · rw [hi, hlast, ofHandle_other hxk]
      · rfl
    · rw [hpushed, ofHandle_append, ofHandle_other hxk, ofHandle_nil, List.append_nil]
    · intro a ha
      rw [hhandles, Function.update_of_ne hkj] at ha
      exact ha

/-- From the state in which the first attempts start, the rest of `push_hard`. -/
lemma Ordered.pushedHard (hw : w.Ordered) (hsteady : w.Steady) {j : Nat} {h : ProducerHandle}
    (hj : w.handles j = some h) {x : Nat × β} (hx : x.1 = j)
    {result : Bool × FastQueue (Nat × β) × ProducerHandle}
    (hres : PushedHard x (w.queue, h) result)
    (hstay : ∀ p, h.local_ = some p → w.queue.Full p →
      ofHandle j (w.queue.stored.getD p []) = []) :
    Ordered ⟨result.2.1, Function.update w.handles j (some result.2.2),
      w.afterPush result.1 x, w.popped⟩ := by
  have hsame : Function.update w.handles j (some h) = w.handles := by
    rw [← hj, Function.update_eq_self]
  cases hres with
  | noQueue hlocal =>
    rw [hsame]
    exact hw.same (fun i => rfl) rfl (by simp [afterPush]) fun k a ha => ha
  | first p q' hlocal hroom hsound hsame' hstored =>
    have hp : p < w.queue.stored.length := by
      rw [FastQueue.length_stored]
      exact (hsteady.valid j h hj p hlocal).2.trans_le (tokenBound_le_heap hsteady.sound)
    rw [hsame]
    exact hw.push hj hlocal hx hp hstored rfl (by simp [afterPush]) rfl
  | moved p q' hlocal hfull hlimit hsound hcreated hfree hflag hstored =>
    refine hw.move hj hlocal (hstay p hlocal hfull) hx hstored rfl (by simp [afterPush]) rfl ?_
    rw [FastQueue.length_stored, hsteady.sound.length_heap]
  | stuck p q' hlocal hfull hlimit hsound hcreated hfree hflag hstored =>
    rw [hsame]
    refine hw.same (fun i => ?_) rfl (by simp [afterPush]) fun k a ha => ha
    simp only [hstored]
    exact getD_append_empty w.queue.stored 9 i

/-- What every call under the two conditions keeps. -/
theorem Ordered.step {w' : QueueWorld (Nat × β)} {call : QueueCall (Nat × β)} (hw : w.Ordered)
    (hsteady : w.Steady) (hcount : w.EndInRange call) (hsigned : w.Signed call)
    (hstay : w.StaysPut call) (hstep : w.step call = some w') : w'.Ordered := by
  cases effect_of_step hsteady hcount hstep with
  | create j s hj hacquired =>
    exact hw.start (ofHandle_eq_nil.mpr hsigned) (stored_acquired hacquired) rfl rfl
      fun k hk => Function.update_of_ne hk _ _
  | destroy j h hj =>
    refine hw.same (fun i => ?_) rfl rfl ?_
    · rcases hl : h.local_ with _ | p <;> simp only [deleteHandle, hl]
      rfl
    · intro k a ha
      by_cases hk : k = j
      · simp [hk] at ha
      · simpa [hk] using ha
  | push j h x done hj hdone =>
    cases hdone with
    | refused q' hfull hsound hsame hstored =>
      exact hw.same (fun i => by rw [hstored]) rfl (by simp [afterPush]) fun k a ha => ha
    | accepted p q' hlocal hp hroom hsound hsame hstored =>
      exact hw.push hj hlocal hsigned (by rw [FastQueue.length_stored]; exact hp) hstored rfl
        (by simp [afterPush]) rfl
  | pushHard j h x s done hj hstart hdone =>
    cases hstart with
    | held p hlocal =>
      refine hw.pushedHard hsteady hj hsigned hdone fun p' hp' hfull => ?_
      exact ofHandle_eq_nil.mpr (hstay h hj p' hp' hfull)
    | acquired s hlocal hacquired =>
      -- the handle had no queue, so it has pushed nothing yet
      obtain ⟨p, hk⟩ := hw j
      have hnone := hk.idle h hj hlocal
      have hmid : Ordered ⟨s.1, Function.update w.handles j (some s.2), w.pushed, w.popped⟩ :=
        hw.start hnone (stored_acquired hacquired) rfl rfl fun k hk => Function.update_of_ne hk _ _
      have hsteady' := hsteady.started (hsteady.valid j h hj) (.acquired s hlocal hacquired) j
        w.pushed w.popped
      have hfinal := hmid.pushedHard hsteady' (j := j) (h := s.2) (by simp) hsigned hdone ?_
      · simp only [Function.update_idem] at hfinal
        exact hfinal
      · intro p' _ _
        have horder := hk.order
        rw [hnone, List.append_eq_nil_iff] at horder
        simp only [stored_acquired hacquired]
        by_cases hp' : p' = p
        · rw [hp']
          exact horder.2
        · exact hk.alone p' hp'
  | pop index fuel r q hprobed => exact hw.probed hprobed
  | popHard middle r q hprobed => exact hw.probed hprobed
  | elementCount => exact hw

/-- In every run in which no `push_hard` leaves values of its handle behind, the values of
each handle are popped in the order in which that handle pushed them. -/
theorem handle_order_kept (calls : List (QueueCall (Nat × β))) (w : QueueWorld (Nat × β))
    (hrun : exec step init calls = some w) (hcount : Along step EndInRange init calls)
    (hsigned : Along step Signed init calls) (hstay : Along step StaysPut init calls) (k : Nat) :
    ofHandle k w.popped <+: ofHandle k w.pushed := by
  have hinv : w.Steady ∧ w.Ordered := by
    refine exec_invariant (P := fun w => Steady w ∧ Ordered w) ?_ ⟨steady_init, ordered_init⟩
      ((hcount.and hsigned).and hstay) hrun
    intro s a t hs hgood hstep
    exact ⟨hs.1.step hgood.1.1 hstep, hs.2.step hs.1 hgood.1.1 hgood.1.2 hgood.2 hstep⟩
  obtain ⟨p, hk⟩ := hinv.2 k
  exact ⟨_, hk.order⟩

instance (w : QueueWorld (Nat × Nat)) : ∀ call, Decidable (w.Signed call)
  | .create _ => inferInstanceAs (Decidable (∀ y ∈ _, _))
  | .push _ _ | .pushHard _ _ => inferInstanceAs (Decidable (_ = _))
  | .destroy _ | .pop _ _ | .popHard _ | .elementCount => inferInstanceAs (Decidable True)

instance (w : QueueWorld (Nat × Nat)) : ∀ call, Decidable (w.StaysPut call)
  | .pushHard _ _ => inferInstanceAs (Decidable (∀ h ∈ _, ∀ p ∈ _, _ → ∀ y ∈ _, _))
  | .create _ | .push _ _ | .destroy _ | .pop _ _ | .popHard _ | .elementCount =>
    inferInstanceAs (Decidable True)

/-- Two handles push in turn and a consumer pops three values. -/
def alternatingCalls : List (QueueCall (Nat × Nat)) :=
  [.create 0, .create 1, .pushHard 0 (0, 5), .push 1 (1, 6), .push 0 (0, 7), .popHard 1,
    .popHard 1, .popHard 0]

theorem handle_order_kept_alternating :
    ∃ w, exec step init alternatingCalls = some w ∧
      ofHandle 0 w.popped <+: ofHandle 0 w.pushed := by
  have hsome : (exec step init alternatingCalls).isSome := by decide +kernel
  obtain ⟨w, hrun⟩ := Option.isSome_iff_exists.mp hsome
  exact ⟨w, hrun, handle_order_kept alternatingCalls w hrun (by decide +kernel)
    (by decide +kernel) (by decide +kernel) 0⟩

/-- One handle pushes thirty-three values, the last of them into a second queue, and the
consumer starts its scan there. -/
def overtakingCalls : List (QueueCall (Nat × Nat)) :=
  .create 0 :: (List.range 33).map (fun i => .pushHard 0 (0, i)) ++ [.popHard 1]

/-- The value pushed last is popped first. -/
theorem handle_order_overtaken :
    ∃ w, exec step init overtakingCalls = some w ∧ Along step Signed init overtakingCalls ∧
      ¬ofHandle 0 w.popped <+: ofHandle 0 w.pushed := by
  have hvalues : (exec step init overtakingCalls).map (fun w => (w.popped, w.pushed)) =
      some ([(0, 32)], (List.range 33).map fun i => (0, i)) := by decide +kernel
  obtain ⟨w, hrun, hw⟩ := Option.map_eq_some_iff.mp hvalues
  simp only [Prod.mk.injEq] at hw
  refine ⟨w, hrun, by decide +kernel, ?_⟩
  rw [hw.1, hw.2]
  decide

end QueueWorld

end CoplusLean
