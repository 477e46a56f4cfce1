import Mathlib.Data.List.Basic

/-!
# Runs of a step function

A system is given by a step function `σ → ι → Option σ`: the label says which step is
tried, `none` says that it is not enabled. A run is a list of labels executed in order.
This file contains the rule by which an invariant of one step becomes an invariant of
every run, also when only the steps that meet a condition preserve it.
-/

namespace CoplusLean.Lib

variable {σ ι : Type*}

/-- Executes the labels in order and stops at the first one that is not enabled. -/
def exec (step : σ → ι → Option σ) : σ → List ι → Option σ
  | s, [] => some s
  | s, a :: as => (step s a).bind fun t => exec step t as

/-- Every step of the run meets `good`, a condition on the label and the state before it. -/
def Along (step : σ → ι → Option σ) (good : σ → ι → Prop) : σ → List ι → Prop
  | _, [] => True
  | s, a :: as => good s a ∧ ∀ t ∈ step s a, Along step good t as

instance decidableAlong (step : σ → ι → Option σ) (good : σ → ι → Prop)
    [∀ s a, Decidable (good s a)] : ∀ s as, Decidable (Along step good s as)
  | _, [] => isTrue trivial
  | s, a :: as =>
    match h : step s a with
    | none => decidable_of_iff (good s a) (by simp [Along, h])
    | some t =>
      have := decidableAlong step good t as
      decidable_of_iff (good s a ∧ Along step good t as) (by simp [Along, h])

@[simp] lemma exec_nil (step : σ → ι → Option σ) (s : σ) : exec step s [] = some s := rfl

@[simp] lemma exec_cons (step : σ → ι → Option σ) (s : σ) (a : ι) (as : List ι) :
    exec step s (a :: as) = (step s a).bind fun t => exec step t as := rfl

lemma exec_append (step : σ → ι → Option σ) (s : σ) (as bs : List ι) :
    exec step s (as ++ bs) = (exec step s as).bind fun t => exec step t bs := by
  induction as generalizing s with
  | nil => rfl
  | cons a as ih =>
    simp only [List.cons_append, exec_cons, Option.bind_assoc]
    congr 1
    funext t
    exact ih t

lemma along_of_forall (step : σ → ι → Option σ) {good : ι → Prop} (s : σ) {as : List ι}
    (h : ∀ a ∈ as, good a) : Along step (fun _ a => good a) s as := by
  induction as generalizing s with
  | nil => exact trivial
  | cons a as ih =>
    exact ⟨h a List.mem_cons_self, fun t _ => ih t fun b hb => h b (List.mem_cons_of_mem a hb)⟩

lemma along_cons {step : σ → ι → Option σ} {good : σ → ι → Prop} {s t : σ} {a : ι} {as : List ι}
    (hstep : step s a = some t) (ha : good s a) (has : Along step good t as) :
    Along step good s (a :: as) := by
  refine ⟨ha, fun u hu => ?_⟩
  obtain rfl : t = u := Option.some.inj (hstep.symm.trans hu)
  exact has

lemma along_append {step : σ → ι → Option σ} {good : σ → ι → Prop} {s t : σ} {as bs : List ι}
    (hrun : exec step s as = some t) (has : Along step good s as) (hbs : Along step good t bs) :
    Along step good s (as ++ bs) := by
  induction as generalizing s with
  | nil =>
    obtain rfl : s = t := by simpa using hrun
    exact hbs
  | cons a as ih =>
    obtain ⟨u, hu, hrest⟩ := Option.bind_eq_some_iff.mp hrun
    exact along_cons hu has.1 (ih hrest (has.2 u hu))

lemma Along.mono {step : σ → ι → Option σ} {good good' : σ → ι → Prop} {s : σ} {as : List ι}
    (h : Along step good s as) (himp : ∀ s a, good s a → good' s a) :
    Along step good' s as := by
  induction as generalizing s with
  | nil => exact trivial
  | cons a as ih => exact ⟨himp s a h.1, fun t ht => ih (h.2 t ht)⟩

lemma Along.and {step : σ → ι → Option σ} {good good' : σ → ι → Prop} {s : σ} {as : List ι}
    (h : Along step good s as) (h' : Along step good' s as) :
    Along step (fun s a => good s a ∧ good' s a) s as := by
  induction as generalizing s with
  | nil => exact trivial
  | cons a as ih => exact ⟨⟨h.1, h'.1⟩, fun t ht => ih (h.2 t ht) (h'.2 t ht)⟩

/-- The invariant rule: what holds initially and is kept by every step that meets the
condition holds after every run whose steps all meet it. -/
theorem exec_invariant {step : σ → ι → Option σ} {good : σ → ι → Prop} {P : σ → Prop}
    (hstep : ∀ s a t, P s → good s a → step s a = some t → P t)
    {s : σ} (hs : P s) {as : List ι} (hgood : Along step good s as) {t : σ}
    (hrun : exec step s as = some t) : P t := by
  induction as generalizing s with
  | nil =>
    obtain rfl : s = t := by simpa using hrun
    exact hs
  | cons a as ih =>
    obtain ⟨u, hu, hrest⟩ := Option.bind_eq_some_iff.mp hrun
    exact ih (hstep s a u hs hgood.1 hu) (hgood.2 u hu) hrest

/-- The invariant rule for steps that need no condition. -/
theorem exec_invariant_always {step : σ → ι → Option σ} {P : σ → Prop}
    (hstep : ∀ s a t, P s → step s a = some t → P t)
    {s : σ} (hs : P s) {as : List ι} {t : σ} (hrun : exec step s as = some t) : P t := by
  induction as generalizing s with
  | nil =>
    obtain rfl : s = t := by simpa using hrun
    exact hs
  | cons a as ih =>
    obtain ⟨u, hu, hrest⟩ := Option.bind_eq_some_iff.mp hrun
    exact ih (hstep s a u hs hu) hrest

/-- The history rule: when a step keeps `P` exactly where it meets the condition, and nothing brings
`P` back, `P` tells of the whole run whether its steps met the condition. -/
theorem exec_iff_along {step : σ → ι → Option σ} {good range : σ → ι → Prop} {I P : σ → Prop}
    (hstep : ∀ s a t, I s → range s a → step s a = some t → I t ∧ (P t ↔ P s ∧ good s a))
    {s : σ} (hs : I s) {as : List ι} (hrange : Along step range s as) {t : σ}
    (hrun : exec step s as = some t) : P t ↔ P s ∧ Along step good s as := by
  induction as generalizing s with
  | nil =>
    obtain rfl : s = t := by simpa using hrun
    exact (and_iff_left trivial).symm
  | cons a as ih =>
    obtain ⟨u, hu, hrest⟩ := Option.bind_eq_some_iff.mp hrun
    obtain ⟨hu', hiff⟩ := hstep s a u hs hrange.1 hu
    have honly : Along step good s (a :: as) ↔ good s a ∧ Along step good u as :=
      ⟨fun h => ⟨h.1, h.2 u hu⟩, fun h => along_cons hu h.1 h.2⟩
    rw [ih hu' (hrange.2 u hu) hrest, hiff, honly, and_assoc]

/-- The balance rule: when every step with a label in `p` takes one from `f` or adds one to `g`, and
no step loses any of what both hold, the run has at most as many such steps as `f` has lost and
`g` has gained. -/
theorem exec_balance {step : σ → ι → Option σ} {P : σ → Prop} {good : ι → Prop} {f g : σ → Nat}
    {p : ι → Bool} (hstep : ∀ s a t, P s → good a → step s a = some t →
      P t ∧ f t + (if p a then 1 else 0) + g s ≤ f s + g t)
    {s : σ} (hs : P s) {as : List ι} (hgood : ∀ a ∈ as, good a) {t : σ}
    (hrun : exec step s as = some t) : f t + as.countP p + g s ≤ f s + g t := by
  induction as generalizing s with
  | nil =>
    obtain rfl : s = t := by simpa using hrun
    exact Nat.le_refl _
  | cons a as ih =>
    obtain ⟨u, hu, hrest⟩ := Option.bind_eq_some_iff.mp hrun
    obtain ⟨hPu, hle⟩ := hstep s a u hs (hgood a List.mem_cons_self) hu
    have hbound := ih hPu (fun b hb => hgood b (List.mem_cons_of_mem a hb)) hrest
    rw [List.countP_cons]
    omega

/-- The potential rule: when every step with a label in `p` takes one from `f` and no step adds to
it, the run has at most as many such steps as `f` was at its beginning. -/
theorem exec_potential {step : σ → ι → Option σ} {P : σ → Prop} {f : σ → Nat} {p : ι → Bool}
    (hstep : ∀ s a t, P s → step s a = some t → P t ∧ f t + (if p a then 1 else 0) ≤ f s)
    {s : σ} (hs : P s) {as : List ι} {t : σ} (hrun : exec step s as = some t) :
    f t + as.countP p ≤ f s :=
  exec_balance (g := fun _ => 0) (fun s a t hs (_ : True) => hstep s a t hs) hs
    (fun _ _ => trivial) hrun

/-- The refinement rule: when every step of one system from related states is matched by a run of
the other, which `shows` relates to its label, whole runs are matched step by step. -/
theorem exec_refines {τ κ : Type*} {step : σ → ι → Option σ} {step' : τ → κ → Option τ}
    {R : σ → τ → Prop} {good : σ → ι → Prop} {shows : ι → List κ → Prop}
    (hstep : ∀ s u a t, R s u → good s a → step s a = some t →
      ∃ bs v, shows a bs ∧ exec step' u bs = some v ∧ R t v)
    {s : σ} {u : τ} (hR : R s u) {as : List ι} (hgood : Along step good s as) {t : σ}
    (hrun : exec step s as = some t) :
    ∃ bss v, List.Forall₂ shows as bss ∧ exec step' u bss.flatten = some v ∧ R t v := by
  induction as generalizing s u with
  | nil =>
    obtain rfl : s = t := by simpa using hrun
    exact ⟨[], u, .nil, rfl, hR⟩
  | cons a as ih =>
    obtain ⟨s', hs', hrest⟩ := Option.bind_eq_some_iff.mp hrun
    obtain ⟨bs, v, hshows, hmatch, hR'⟩ := hstep s u a s' hR hgood.1 hs'
    obtain ⟨bss, v', hall, hend, hfinal⟩ := ih hR' (hgood.2 s' hs') hrest
    refine ⟨bs :: bss, v', .cons hshows hall, ?_, hfinal⟩
    rw [List.flatten_cons, exec_append, hmatch, Option.bind_some, hend]

/-- `P` holds in every state that the run goes through. -/
def Throughout (step : σ → ι → Option σ) (P : σ → Prop) (s : σ) (as : List ι) : Prop :=
  ∀ pre, pre <+: as → ∀ t, exec step s pre = some t → P t

lemma throughout_cons {step : σ → ι → Option σ} {P : σ → Prop} {s : σ} {a : ι} {as : List ι} :
    Throughout step P s (a :: as) ↔ P s ∧ ∀ t, step s a = some t → Throughout step P t as := by
  constructor
  · intro h
    refine ⟨h [] List.nil_prefix s rfl, fun t ht pre hpre u hu => ?_⟩
    apply h (a :: pre) (List.cons_prefix_cons.mpr ⟨rfl, hpre⟩) u
    rw [exec_cons, ht, Option.bind_some, hu]
  · intro h pre hpre u hu
    cases pre with
    | nil =>
      obtain rfl : s = u := by simpa using hu
      exact h.1
    | cons b pre =>
      obtain ⟨rfl, hrest⟩ := List.cons_prefix_cons.mp hpre
      obtain ⟨t, ht, hu⟩ := Option.bind_eq_some_iff.mp hu
      exact h.2 t ht pre hrest u hu

lemma Along.of_prefix {step : σ → ι → Option σ} {good : σ → ι → Prop} {s : σ}
    {pre as : List ι} (hpre : pre <+: as) (h : Along step good s as) : Along step good s pre := by
  induction pre generalizing s as with
  | nil => exact trivial
  | cons a pre ih =>
    obtain ⟨rest, rfl⟩ := hpre
    exact ⟨h.1, fun t ht => ih ⟨rest, rfl⟩ (h.2 t ht)⟩

/-- The invariant rule for all states of a run. -/
theorem throughout_of_along {step : σ → ι → Option σ} {good : σ → ι → Prop} {P : σ → Prop}
    (hstep : ∀ s a t, P s → good s a → step s a = some t → P t)
    {s : σ} (hs : P s) {as : List ι} (hgood : Along step good s as) :
    Throughout step P s as :=
  fun _ hpre _ hrun => exec_invariant hstep hs (hgood.of_prefix hpre) hrun

/-- The progress rule: when each step of one label reaches the goal or brings a measure
down, enough of them reach the goal. -/
theorem exec_reaches {step : σ → ι → Option σ} {a : ι} {P G : σ → Prop} {m : σ → Nat}
    (hstep : ∀ s, P s → ∃ t, step s a = some t ∧ (G t ∨ (P t ∧ m t < m s)))
    {s : σ} (hs : P s) : ∃ n t, exec step s (List.replicate n a) = some t ∧ G t := by
  induction hm : m s using Nat.strongRecOn generalizing s with
  | ind k ih =>
    obtain ⟨t, ht, hgoal | ⟨hP, hlt⟩⟩ := hstep s hs
    · exact ⟨1, t, by simp [ht], hgoal⟩
    · obtain ⟨n, u, hu, hgoal⟩ := ih (m t) (hm ▸ hlt) hP rfl
      exact ⟨n + 1, u, by simp [List.replicate_succ, ht, hu], hgoal⟩

end CoplusLean.Lib
