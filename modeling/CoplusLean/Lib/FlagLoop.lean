import CoplusLean.Lib.Run
import Mathlib.Data.List.Induction

/-!
# A thread that loops until a flag is raised

The thread clears the flag when it starts, and loads it before every round of its loop. A round
is a number of steps on a state that the thread shares with others; `round` gives the next one
and whether it ends the round. The others step in between, and the flag may be raised at any
time. Once it is raised the thread goes through what is left of its round and returns; a flag
that is raised before the thread has started is cleared again.
-/

namespace CoplusLean.Lib

variable {σ ι : Type*}

/-- Where the thread is: not started, in front of the condition of its loop, in a round, or past
the loop. -/
inductive LoopPlace where
  | starting
  | condition
  | round
  | returned
deriving DecidableEq, Repr

structure FlagLoop (σ : Type*) where
  inner : σ
  flag : Bool
  place : LoopPlace

inductive FlagLoopStep (ι : Type*) where
  | other (a : ι)
  | raise
  | loop
deriving DecidableEq, Repr

def FlagLoopStep.isLoop : FlagLoopStep ι → Bool
  | .loop => true
  | _ => false

namespace FlagLoop

def advance (round : σ → σ × Bool) (w : FlagLoop σ) : Option (FlagLoop σ) :=
  match w.place with
  | .starting => some { w with flag := false, place := .condition }
  | .condition => some { w with place := if w.flag then .returned else .round }
  | .round =>
    some { w with inner := (round w.inner).1, place := if (round w.inner).2 then .condition else .round }
  | .returned => none

def step (move : σ → ι → Option σ) (round : σ → σ × Bool) (w : FlagLoop σ) :
    FlagLoopStep ι → Option (FlagLoop σ)
  | .other a => (move w.inner a).map fun s => { w with inner := s }
  | .raise => some { w with flag := true }
  | .loop => w.advance round

variable {move : σ → ι → Option σ} {round : σ → σ × Bool} {w w' : FlagLoop σ}

/-- The flag is raised and will not be cleared. -/
def Raised (w : FlagLoop σ) : Prop := w.flag = true ∧ w.place ≠ .starting

/-- How many steps are left once the flag is raised, when a round that is in `s` has `parts s`
left. -/
def left (parts : σ → Nat) (w : FlagLoop σ) : Nat :=
  match w.place with
  | .starting => 0
  | .condition => 1
  | .round => parts w.inner + 1
  | .returned => 0

lemma left_le_parts (parts : σ → Nat) (w : FlagLoop σ) : w.left parts ≤ parts w.inner + 1 := by
  unfold left
  split <;> omega

/-- What one step can do. -/
inductive Effect (move : σ → ι → Option σ) (round : σ → σ × Bool) (w : FlagLoop σ) :
    FlagLoopStep ι → FlagLoop σ → Prop
  | other (a : ι) (s : σ) (hmove : move w.inner a = some s) :
    Effect move round w (.other a) { w with inner := s }
  | raise : Effect move round w .raise { w with flag := true }
  | start (hplace : w.place = .starting) :
    Effect move round w .loop { w with flag := false, place := .condition }
  | enter (hplace : w.place = .condition) (hflag : w.flag = false) :
    Effect move round w .loop { w with place := .round }
  | leave (hplace : w.place = .condition) (hflag : w.flag = true) :
    Effect move round w .loop { w with place := .returned }
  | part (hplace : w.place = .round) (hlast : (round w.inner).2 = false) :
    Effect move round w .loop { w with inner := (round w.inner).1, place := .round }
  | last (hplace : w.place = .round) (hlast : (round w.inner).2 = true) :
    Effect move round w .loop { w with inner := (round w.inner).1, place := .condition }

lemma effect_of_step {a : FlagLoopStep ι} (hstep : w.step move round a = some w') :
    Effect move round w a w' := by
  cases a with
  | other a =>
    obtain ⟨s, hs, rfl⟩ := Option.map_eq_some_iff.mp hstep
    exact .other a s hs
  | raise =>
    obtain rfl := Option.some.inj hstep
    exact .raise
  | loop =>
    simp only [step, advance] at hstep
    split at hstep
    case h_1 hplace =>
      obtain rfl := Option.some.inj hstep
      exact .start hplace
    case h_2 hplace =>
      obtain rfl := Option.some.inj hstep
      by_cases hflag : w.flag = true
      · rw [if_pos hflag]
        exact .leave hplace hflag
      · rw [if_neg hflag]
        exact .enter hplace (eq_false_of_ne_true hflag)
    case h_3 hplace =>
      obtain rfl := Option.some.inj hstep
      by_cases hlast : (round w.inner).2 = true
      · rw [if_pos hlast]
        exact .last hplace hlast
      · rw [if_neg hlast]
        exact .part hplace (eq_false_of_ne_true hlast)
    case h_4 => cases hstep

/-! ## Invariants of the shared state -/

/-- What all moves and all parts of a round keep is kept by the whole system. -/
lemma inner_step {J : σ → Prop} (hmove : ∀ s a t, J s → move s a = some t → J t)
    (hround : ∀ s, J s → J (round s).1) {a : FlagLoopStep ι} (hw : J w.inner)
    (hstep : w.step move round a = some w') : J w'.inner := by
  cases effect_of_step hstep with
  | other a s hs => exact hmove w.inner a s hw hs
  | part | last => exact hround w.inner hw
  | raise | start | enter | leave => exact hw

lemma inner_run {J : σ → Prop} (hmove : ∀ s a t, J s → move s a = some t → J t)
    (hround : ∀ s, J s → J (round s).1) {run : List (FlagLoopStep ι)} (hw : J w.inner)
    (hrun : exec (step move round) w run = some w') : J w'.inner :=
  exec_invariant_always (P := fun w => J w.inner)
    (fun _ _ _ hs hstep => inner_step hmove hround hs hstep) hw hrun

/-- What holds of the shared state between two rounds: the moves keep it, and the last part of a
round establishes it. -/
lemma between_step {B : σ → Prop} (hmove : ∀ s a t, B s → move s a = some t → B t)
    (hlast : (round w.inner).2 = true → B (round w.inner).1) {a : FlagLoopStep ι}
    (hw : w.place ≠ .round → B w.inner) (hstep : w.step move round a = some w') :
    w'.place ≠ .round → B w'.inner := by
  cases effect_of_step hstep with
  | other a s hs => exact fun hplace => hmove w.inner a s (hw hplace) hs
  | raise => exact hw
  | start hplace | leave hplace => exact fun _ => hw (by simp [hplace])
  | enter | part => exact fun hplace => absurd rfl hplace
  | last hplace hlast' => exact fun _ => hlast hlast'

/-! ## When the thread returns -/

lemma raised_step {a : FlagLoopStep ι} (hw : w.Raised) (hstep : w.step move round a = some w') :
    w'.Raised := by
  obtain ⟨hflag, hplace⟩ := hw
  cases effect_of_step hstep with
  | start h => exact absurd h hplace
  | raise => exact ⟨rfl, hplace⟩
  | enter | leave | part | last => exact ⟨hflag, by simp⟩
  | other => exact ⟨hflag, hplace⟩

/-- Behind the flag the thread only has the rest of its round left. -/
lemma left_step {parts : σ → Nat}
    (hmove : ∀ s a t, move s a = some t → parts t = parts s)
    (hround : ∀ s, (round s).2 = false → parts (round s).1 < parts s) (hpos : ∀ s, 0 < parts s)
    {a : FlagLoopStep ι} (hw : w.Raised) (hstep : w.step move round a = some w') :
    w'.left parts + (if a.isLoop then 1 else 0) ≤ w.left parts := by
  obtain ⟨hflag, hplace⟩ := hw
  cases effect_of_step hstep with
  | other a s hs =>
    have hparts := hmove w.inner a s hs
    simp [left, hparts, FlagLoopStep.isLoop]
  | raise => exact Nat.le_refl _
  | start h => exact absurd h hplace
  | enter h hlow => simp [hflag] at hlow
  | leave h => simp [left, h, FlagLoopStep.isLoop]
  | part h hlast =>
    have hlt := hround w.inner hlast
    simp only [left, h, FlagLoopStep.isLoop, if_true]
    omega
  | last h hlast =>
    have hlt := hpos w.inner
    simp only [left, h, FlagLoopStep.isLoop, if_true]
    omega

/-- Once the flag is raised the thread makes no more steps than it has left, whatever the others
do. -/
lemma loops_le_left {parts : σ → Nat}
    (hmove : ∀ s a t, move s a = some t → parts t = parts s)
    (hround : ∀ s, (round s).2 = false → parts (round s).1 < parts s) (hpos : ∀ s, 0 < parts s)
    {run : List (FlagLoopStep ι)} (hw : w.Raised)
    (hrun : exec (step move round) w run = some w') :
    w'.left parts + run.countP FlagLoopStep.isLoop ≤ w.left parts :=
  exec_potential (f := left parts)
    (fun _ _ _ hs hstep => ⟨raised_step hs hstep, left_step hmove hround hpos hs hstep⟩) hw hrun

/-- A thread that has not returned can always make its next step. -/
lemma exists_loop (move : σ → ι → Option σ) (round : σ → σ × Bool) (hplace : w.place ≠ .returned) :
    ∃ w', w.step move round .loop = some w' := by
  cases h : w.place with
  | returned => exact absurd h hplace
  | starting | condition | round => simp [step, advance, h]

/-- The steps that are left bring the thread to its return. -/
lemma returns_alone {parts : σ → Nat}
    (hmove : ∀ s a t, move s a = some t → parts t = parts s)
    (hround : ∀ s, (round s).2 = false → parts (round s).1 < parts s) (hpos : ∀ s, 0 < parts s)
    (hw : w.Raised) : ∃ n ≤ w.left parts, ∃ w',
      exec (step move round) w (List.replicate n .loop) = some w' ∧ w'.place = .returned := by
  by_cases hplace : w.place = .returned
  · exact ⟨0, Nat.zero_le _, w, rfl, hplace⟩
  · have hnext : ∀ s : FlagLoop σ, s.Raised ∧ s.place ≠ .returned →
        ∃ t, s.step move round .loop = some t ∧
          (t.place = .returned ∨ (t.Raised ∧ t.place ≠ .returned) ∧ t.left parts < s.left parts) := by
      rintro s ⟨hs, hnot⟩
      obtain ⟨t, ht⟩ := exists_loop move round hnot
      have hlt := left_step hmove hround hpos hs ht
      refine ⟨t, ht, ?_⟩
      by_cases hreturned : t.place = .returned
      · exact Or.inl hreturned
      · exact Or.inr ⟨⟨raised_step hs ht, hreturned⟩, hlt⟩
    obtain ⟨n, w', hrun, hreturned⟩ := exec_reaches (P := fun s => s.Raised ∧ s.place ≠ .returned)
      (G := fun s => s.place = .returned) (m := left parts) hnext ⟨hw, hplace⟩
    have hle := loops_le_left hmove hround hpos hw hrun
    rw [List.countP_replicate] at hle
    simp only [FlagLoopStep.isLoop, if_true] at hle
    exact ⟨n, by omega, w', hrun, hreturned⟩

/-- In a run from a thread that has not started: it has started if it has made a step, the flag
is raised behind its start only by a `raise` behind its first step, and it has only returned on
such a flag. -/
structure Traced (run : List (FlagLoopStep ι)) (w : FlagLoop σ) : Prop where
  started : w.place ≠ .starting ↔ .loop ∈ run
  raised : w.Raised → ∃ pre post, run = pre ++ .raise :: post ∧ .loop ∈ pre
  returned : w.place = .returned → w.flag = true

lemma Traced.step {run : List (FlagLoopStep ι)} {a : FlagLoopStep ι} (hw : Traced run w)
    (hstep : w.step move round a = some w') : Traced (run ++ [a]) w' := by
  have hextend : (∃ pre post, run = pre ++ .raise :: post ∧ .loop ∈ pre) →
      ∃ pre post, run ++ [a] = pre ++ .raise :: post ∧ .loop ∈ pre := by
    rintro ⟨pre, post, rfl, hmem⟩
    exact ⟨pre, post ++ [a], by simp, hmem⟩
  cases effect_of_step hstep with
  | other a s =>
    exact ⟨by simpa using hw.started, fun h => hextend (hw.raised h), hw.returned⟩
  | raise =>
    refine ⟨by simpa using hw.started, fun h => ?_, fun _ => rfl⟩
    exact ⟨run, [], rfl, hw.started.mp h.2⟩
  | start => exact ⟨by simp, fun h => absurd h.1 (by simp), by simp⟩
  | enter h hflag => exact ⟨by simp, fun h => absurd h.1 (by simp [hflag]), by simp⟩
  | leave h hflag =>
    exact ⟨by simp, fun _ => hextend (hw.raised ⟨hflag, by simp [h]⟩), fun _ => hflag⟩
  | part h =>
    exact ⟨by simp, fun hr => hextend (hw.raised ⟨hr.1, by simp [h]⟩), by simp⟩
  | last h =>
    exact ⟨by simp, fun hr => hextend (hw.raised ⟨hr.1, by simp [h]⟩), by simp⟩

lemma traced_run (hstart : w.place = .starting) {run : List (FlagLoopStep ι)}
    (hrun : exec (step move round) w run = some w') : Traced run w' := by
  induction run using List.reverseRecOn generalizing w' with
  | nil =>
    obtain rfl := Option.some.inj hrun
    exact ⟨by simp [hstart], fun h => absurd hstart h.2, by simp [hstart]⟩
  | append_singleton run a ih =>
    rw [exec_append] at hrun
    obtain ⟨u, hu, hlast⟩ := Option.bind_eq_some_iff.mp hrun
    obtain ⟨v, hv, hend⟩ := Option.bind_eq_some_iff.mp hlast
    obtain rfl := Option.some.inj hend
    exact (ih hu).step hv

/-- A thread that has returned has seen a flag that was raised behind its start. -/
lemma raised_of_returned (hstart : w.place = .starting) {run : List (FlagLoopStep ι)}
    (hrun : exec (step move round) w run = some w') (hreturned : w'.place = .returned) :
    ∃ pre post, run = pre ++ .raise :: post ∧ .loop ∈ pre := by
  have htraced := traced_run hstart hrun
  exact htraced.raised ⟨htraced.returned hreturned, by simp [hreturned]⟩

/-- Nothing brings a thread back that has returned. -/
lemma returned_step {a : FlagLoopStep ι} (hw : w.place = .returned)
    (hstep : w.step move round a = some w') :
    w'.place = .returned ∧
      (w'.inner = w.inner ∨ ∃ b, a = .other b ∧ move w.inner b = some w'.inner) := by
  cases effect_of_step hstep with
  | other b s hs => exact ⟨hw, Or.inr ⟨b, rfl, hs⟩⟩
  | raise => exact ⟨hw, Or.inl rfl⟩
  | start h | enter h | leave h | part h | last h => simp [hw] at h

end FlagLoop

end CoplusLean.Lib
