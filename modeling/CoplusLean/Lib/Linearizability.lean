import Mathlib.Logic.Function.Basic

/-!
# Linearizability

The clients of an object see calls and returns. A history is linearizable to a sequential
object when points can be put into it, one between the call and the return of every
operation that has returned, such that the operations taken one after the other at their
points return what they returned.
-/

namespace CoplusLean.Lib

variable {ι σ O R : Type*}

/-- A call or return as the clients see it. -/
inductive Mark (ι O R : Type*) where
  | call (client : ι) (op : O)
  | ret (client : ι) (result : R)
deriving DecidableEq, Repr

/-- What a client is doing: its operation has not taken effect yet, or is about to return. -/
inductive Pending (O R : Type*) where
  | none
  | called (op : O)
  | effected (result : R)
deriving DecidableEq, Repr

variable [DecidableEq ι]

/-- A history with points put into it: `s` is the sequential object `spec` after the operations
that have taken effect, and `pending` says what the clients are doing. -/
inductive LinearizedTo (spec : σ → O → R × σ) (start : σ) :
    List (Mark ι O R) → σ → (ι → Pending O R) → Prop
  | start : LinearizedTo spec start [] start fun _ => .none
  | call {h : List (Mark ι O R)} {s : σ} {pending : ι → Pending O R}
      (hlin : LinearizedTo spec start h s pending) {i : ι} (hi : pending i = .none) (op : O) :
    LinearizedTo spec start (h ++ [.call i op]) s (Function.update pending i (.called op))
  | point {h : List (Mark ι O R)} {s : σ} {pending : ι → Pending O R}
      (hlin : LinearizedTo spec start h s pending) {i : ι} {op : O} (hi : pending i = .called op) :
    LinearizedTo spec start h (spec s op).2
      (Function.update pending i (.effected (spec s op).1))
  | ret {h : List (Mark ι O R)} {s : σ} {pending : ι → Pending O R}
      (hlin : LinearizedTo spec start h s pending) {i : ι} {result : R}
      (hi : pending i = .effected result) :
    LinearizedTo spec start (h ++ [.ret i result]) s (Function.update pending i .none)

/-- The history `h` of calls and returns is linearizable to `spec` used from `start`. -/
def Linearizable (spec : σ → O → R × σ) (start : σ) (h : List (Mark ι O R)) : Prop :=
  ∃ s pending, LinearizedTo spec start h s pending

/-- An operation that takes effect at the moment of its return. -/
lemma LinearizedTo.pointRet {spec : σ → O → R × σ} {start s : σ} {h : List (Mark ι O R)}
    {pending : ι → Pending O R} (hlin : LinearizedTo spec start h s pending) {i : ι} {op : O}
    (hi : pending i = .called op) :
    LinearizedTo spec start (h ++ [.ret i (spec s op).1]) (spec s op).2
      (Function.update pending i .none) := by
  have hret := (hlin.point hi).ret (i := i) (Function.update_self ..)
  rwa [Function.update_idem] at hret

end CoplusLean.Lib
