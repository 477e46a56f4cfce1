import CoplusLean.Lib.Run
import Mathlib.Data.List.Infix

/-!
# Queue objects and the bounded FIFO

A queue object is a state type with a `push` that may be refused and a `pop` that may find
nothing. Its observable behaviour is the list of replies to a list of calls. This file
contains the bounded FIFO, the rule by which a step-by-step simulation makes the replies
of two objects agree, and the order in which a FIFO hands its values out.
-/

namespace CoplusLean.Lib

/-- One call on a queue of values of type `α`. -/
inductive FifoCall (α : Type*) where
  | push (item : α)
  | pop
deriving DecidableEq, Repr

/-- What a call returns. -/
inductive FifoReply (α : Type*) where
  | push (ok : Bool)
  | pop (item : Option α)
deriving DecidableEq, Repr

structure FifoObject (σ α : Type*) where
  push : σ → α → Bool × σ
  pop : σ → Option α × σ

namespace FifoObject

variable {σ τ α : Type*}

def call (o : FifoObject σ α) (s : σ) : FifoCall α → FifoReply α × σ
  | .push x => (.push (o.push s x).1, (o.push s x).2)
  | .pop => (.pop (o.pop s).1, (o.pop s).2)

/-- The calls as steps; all of them are enabled. -/
def step (o : FifoObject σ α) (s : σ) (c : FifoCall α) : Option σ := some (o.call s c).2

/-- The replies to the calls, made one after the other. -/
def replies (o : FifoObject σ α) : σ → List (FifoCall α) → List (FifoReply α)
  | _, [] => []
  | s, c :: cs => (o.call s c).1 :: o.replies (o.call s c).2 cs

/-- The state after the calls. -/
def after (o : FifoObject σ α) : σ → List (FifoCall α) → σ
  | s, [] => s
  | s, c :: cs => o.after (o.call s c).2 cs

/-- The values whose push was accepted, in the order of the calls. -/
def accepted (o : FifoObject σ α) : σ → List (FifoCall α) → List α
  | _, [] => []
  | s, .push x :: cs =>
    if (o.push s x).1 then x :: o.accepted (o.push s x).2 cs else o.accepted (o.push s x).2 cs
  | s, .pop :: cs => o.accepted (o.pop s).2 cs

/-- The values handed out by the pops, in the order of the calls. -/
def delivered (o : FifoObject σ α) : σ → List (FifoCall α) → List α
  | _, [] => []
  | s, .push x :: cs => o.delivered (o.push s x).2 cs
  | s, .pop :: cs => (o.pop s).1.toList ++ o.delivered (o.pop s).2 cs

variable {o : FifoObject σ α} {p : FifoObject τ α} {s : σ}

lemma accepted_push (x : α) (cs : List (FifoCall α)) :
    o.accepted s (.push x :: cs) =
      (if (o.push s x).1 then [x] else []) ++ o.accepted (o.push s x).2 cs := by
  rw [accepted]
  split_ifs <;> rfl

/-- Every call of the list meets `good` in the state it is made in. -/
def AllGood (o : FifoObject σ α) (good : σ → FifoCall α → Prop) : σ → List (FifoCall α) → Prop :=
  Along o.step good

lemma allGood_cons {good : σ → FifoCall α → Prop} {c : FifoCall α} {cs : List (FifoCall α)} :
    o.AllGood good s (c :: cs) ↔ good s c ∧ o.AllGood good (o.call s c).2 cs := by
  simp [AllGood, Along, step]

lemma after_append (cs ds : List (FifoCall α)) :
    o.after s (cs ++ ds) = o.after (o.after s cs) ds := by
  induction cs generalizing s with
  | nil => rfl
  | cons c cs ih => exact ih

lemma replies_append (cs ds : List (FifoCall α)) :
    o.replies s (cs ++ ds) = o.replies s cs ++ o.replies (o.after s cs) ds := by
  induction cs generalizing s with
  | nil => rfl
  | cons c cs ih => exact congrArg _ ih

/-- What every good call keeps holds after good calls. -/
theorem after_invariant {good : σ → FifoCall α → Prop} {P : σ → Prop}
    (hstep : ∀ s c, P s → good s c → P (o.call s c).2) {cs : List (FifoCall α)} (hs : P s)
    (hgood : o.AllGood good s cs) : P (o.after s cs) := by
  induction cs generalizing s with
  | nil => exact hs
  | cons c cs ih =>
    rw [allGood_cons] at hgood
    exact ih (hstep s c hs hgood.1) hgood.2

/-- The simulation rule: when good calls give equal replies in related states and relate
the states after them, good runs give equal replies. -/
theorem replies_eq {good : σ → FifoCall α → Prop} {R : σ → τ → Prop}
    (hstep : ∀ s t c, R s t → good s c →
      (o.call s c).1 = (p.call t c).1 ∧ R (o.call s c).2 (p.call t c).2)
    {cs : List (FifoCall α)} {t : τ} (hst : R s t) (hgood : o.AllGood good s cs) :
    o.replies s cs = p.replies t cs ∧ R (o.after s cs) (p.after t cs) := by
  induction cs generalizing s t with
  | nil => exact ⟨rfl, hst⟩
  | cons c cs ih =>
    rw [allGood_cons] at hgood
    obtain ⟨hreply, hnext⟩ := hstep s t c hst hgood.1
    obtain ⟨hreplies, hafter⟩ := ih hnext hgood.2
    refine ⟨?_, hafter⟩
    unfold replies
    rw [hreply, hreplies]

/-- The conservation rule: when every good call moves values between the outside and the
contents without loss, so does a run. -/
theorem delivered_perm {good : σ → FifoCall α → Prop} {P : σ → Prop} (contents : σ → List α)
    (hstep : ∀ s c, P s → good s c → P (o.call s c).2)
    (hpush : ∀ s x, P s → good s (.push x) → (contents (o.push s x).2).Perm
      (contents s ++ if (o.push s x).1 then [x] else []))
    (hpop : ∀ s, P s → good s .pop →
      (contents s).Perm ((o.pop s).1.toList ++ contents (o.pop s).2))
    {cs : List (FifoCall α)} (hs : P s) (hgood : o.AllGood good s cs) :
    (o.delivered s cs ++ contents (o.after s cs)).Perm (contents s ++ o.accepted s cs) := by
  induction cs generalizing s with
  | nil => simp [delivered, after, accepted]
  | cons c cs ih =>
    rw [allGood_cons] at hgood
    have hrest := ih (hstep s c hs hgood.1) hgood.2
    cases c with
    | push x =>
      rw [accepted_push, ← List.append_assoc]
      exact hrest.trans (List.Perm.append_right _ (hpush s x hs hgood.1))
    | pop =>
      unfold delivered
      rw [List.append_assoc]
      refine (List.Perm.append_left _ hrest).trans ?_
      rw [← List.append_assoc]
      exact List.Perm.append_right _ (hpop s hs hgood.1).symm

/-- The order rule: when every good call appends at the end and takes from the front, the
values come out in the order in which they went in. -/
theorem delivered_eq {good : σ → FifoCall α → Prop} {P : σ → Prop} (contents : σ → List α)
    (hstep : ∀ s c, P s → good s c → P (o.call s c).2)
    (hpush : ∀ s x, P s → good s (.push x) → contents (o.push s x).2 =
      contents s ++ if (o.push s x).1 then [x] else [])
    (hpop : ∀ s, P s → good s .pop → contents s = (o.pop s).1.toList ++ contents (o.pop s).2)
    {cs : List (FifoCall α)} (hs : P s) (hgood : o.AllGood good s cs) :
    o.delivered s cs ++ contents (o.after s cs) = contents s ++ o.accepted s cs := by
  induction cs generalizing s with
  | nil => simp [delivered, after, accepted]
  | cons c cs ih =>
    rw [allGood_cons] at hgood
    have hrest := ih (hstep s c hs hgood.1) hgood.2
    cases c with
    | push x =>
      rw [accepted_push, ← List.append_assoc, ← hpush s x hs hgood.1]
      exact hrest
    | pop =>
      unfold delivered
      rw [List.append_assoc]
      refine (congrArg _ hrest).trans ?_
      rw [← List.append_assoc]
      exact congrArg (· ++ _) (hpop s hs hgood.1).symm

end FifoObject

/-- The FIFO of `n` places on a list, first the value to be popped next. -/
def fifoOfSize (n : Nat) (α : Type*) : FifoObject (List α) α where
  push l x := if l.length < n then (true, l ++ [x]) else (false, l)
  pop l := (l.head?, l.tail)

end CoplusLean.Lib
