import CoplusLean.Models.ThreadPool
import CoplusLean.Proofs.MachineLifeCycle

/-!
# The size of a `ThreadPool`

`threadSize` counts the main thread and `machines` does not. The branch of `resize` that
makes a pool larger keeps this difference, and the branch that makes it smaller loses it:
from the first such call on, one machine more runs than the constructor would have made.
-/

namespace CoplusLean

open Lib

/-! ### Machines that run -/

/-- A machine as the pool makes it: one thread, whose loop goes on. -/
inductive Machine.Runs : Machine → Prop
  | intro (phase : LoopPhase) (jobCount : Int) (hphase : phase ≠ .ended) :
    Runs { t := some 0, close := false, jobCount := some jobCount, threads := [phase] }

namespace Machine

lemma runs_ofScheduler : Runs ofScheduler := Runs.intro .guard 0 (by decide)

lemma Runs.joinable {m : Machine} (h : m.Runs) : m.joinable = true := by
  cases h
  rfl

lemma Runs.running {m : Machine} (h : m.Runs) : m.running = true := by
  cases h with
  | intro phase jobCount hphase => simp [Machine.running, hphase]

lemma Runs.threadStep {m m' : Machine} {thread : Nat} {job : Bool} (h : m.Runs)
    (hstep : m.threadStep thread job = some m') : m'.Runs := by
  cases h with
  | intro phase jobCount hphase =>
    obtain ⟨phase', jobCount', rfl, hruns, -⟩ := MachineWorld.threadStep_single hstep
    exact Runs.intro phase' jobCount' (hruns rfl)

lemma Runs.join {m : Machine} (h : m.Runs) (lastJob : Bool) :
    ∃ m', m.join lastJob = .ok m' ∧ m'.joinable = false := by
  cases h with
  | intro phase jobCount hphase => exact ⟨_, rfl, rfl⟩

end Machine

namespace ThreadPool

lemma countP_of_runs {machines : List Machine} {p : Machine → Bool}
    (h : ∀ m ∈ machines, m.Runs) (hp : ∀ m, m.Runs → p m = true) :
    machines.countP p = machines.length :=
  List.countP_eq_length.mpr fun m hm => hp m (h m hm)

/-! ### The loops of the source -/

/-- The loop that makes machines, as long as the system starts fewer than `2 ^ 31` threads. -/
lemma pushLoop_eq (size room i : Nat) (hi : i + room < 2147483648) (machines : List Machine) :
    pushLoop size room i machines =
      if size ≤ i + room then .ok (machines ++ List.replicate (size - i) .ofScheduler)
      else .error .systemError := by
  induction room generalizing i machines with
  | zero =>
    have hsize : sizeT i = i := sizeT_of_nonneg (by omega) (by omega)
    rw [pushLoop, hsize]
    by_cases hlt : i < size
    · rw [if_pos hlt, if_neg (by omega)]
    · have hnone : size - i = 0 := by omega
      rw [if_neg hlt, if_pos (by omega), hnone, List.replicate_zero, List.append_nil]
  | succ room ih =>
    have hsize : sizeT i = i := sizeT_of_nonneg (by omega) (by omega)
    have hnext : int32 ((i : Int) + 1) = (i + 1 : Nat) := by
      rw [int32_of_lt (by omega) (by omega)]
      rfl
    rw [pushLoop, hsize]
    by_cases hlt : i < size
    · have hcount : size - i = (size - (i + 1)) + 1 := by omega
      have hroom : i + 1 + room = i + (room + 1) := by omega
      simp only [if_pos hlt]
      rw [hnext, ih (i + 1) (by omega), hroom, hcount, List.replicate_succ]
      simp only [List.append_assoc, List.singleton_append]
    · have hnone : size - i = 0 := by omega
      rw [if_neg hlt, if_pos (by omega), hnone, List.replicate_zero, List.append_nil]

lemma joinAll_of_runs {machines : List Machine} (h : ∀ m ∈ machines, m.Runs)
    (lastJobs : Nat → Bool) :
    ∃ closed, joinAll lastJobs machines = .ok closed ∧ closed.length = machines.length ∧
      ∀ m ∈ closed, m.joinable = false := by
  induction machines generalizing lastJobs with
  | nil => exact ⟨[], rfl, rfl, by simp⟩
  | cons m machines ih =>
    obtain ⟨m', hm', hjoinable⟩ := (h m List.mem_cons_self).join (lastJobs 0)
    obtain ⟨closed, hclosed, hlength, hall⟩ :=
      ih (fun m hm => h m (List.mem_cons_of_mem _ hm)) fun k => lastJobs (k + 1)
    refine ⟨m' :: closed, ?_, ?_, ?_⟩
    · simp only [joinAll, hm', hclosed]
    · simp only [List.length_cons, hlength]
    · exact List.forall_mem_cons.mpr ⟨hjoinable, hall⟩

/-- `vectorResize` drops what was joined. -/
lemma vectorResize_append {kept closed : List Machine}
    (h : ∀ m ∈ closed, m.joinable = false) :
    vectorResize kept.length (kept ++ closed) = .ok kept := by
  have hnone : closed.any Machine.joinable = false := by simpa using h
  have hnothing : kept.length - (kept ++ closed).length = 0 := by
    rw [List.length_append]
    omega
  rw [vectorResize, List.drop_left, hnone, List.take_left, hnothing, List.replicate_zero,
    List.append_nil]
  rfl

/-! ### The invariant -/

/-- Every machine of the pool runs, there are as many as threads other than the main one or
one more, and the system has started them all. -/
structure Steady (maxThreads : Nat) (p : ThreadPool) : Prop where
  runs : ∀ m ∈ p.machines, m.Runs
  pos : 1 ≤ p.threadSize
  count : p.machines.length + 1 = p.threadSize ∨ p.machines.length = p.threadSize
  room : p.machines.length ≤ maxThreads - 1

variable {maxThreads : Nat} {p q : ThreadPool}

lemma Steady.running_eq (h : Steady maxThreads p) : p.running = p.machines.length :=
  countP_of_runs h.runs fun _ hm => hm.running

lemma Steady.room_eq (h : Steady maxThreads p) :
    ThreadPool.room maxThreads p.machines = maxThreads - 1 - p.machines.length := by
  rw [ThreadPool.room, countP_of_runs h.runs fun _ hm => hm.joinable]

lemma Steady.not_passesEnd (h : Steady maxThreads p) {newSize : Nat}
    (hlt : newSize < p.threadSize) : ¬ p.machines.length < newSize := by
  have hcount := h.count
  omega

/-- The branch of `resize` that makes the pool smaller. -/
lemma Steady.resize_shrink (h : Steady maxThreads p) {newSize : Nat} {lastJobs : Nat → Bool}
    (hlt : newSize < p.threadSize) :
    p.resize maxThreads newSize lastJobs =
      .ok { machines := p.machines.take newSize, threadSize := newSize } := by
  have hin := h.not_passesEnd hlt
  have hlength : (p.machines.take newSize).length = newSize := by
    rw [List.length_take]
    omega
  have hdrop : ∀ m ∈ p.machines.drop newSize, m.Runs :=
    fun m hm => h.runs m (List.mem_of_mem_drop hm)
  obtain ⟨closed, hclosed, -, hall⟩ := joinAll_of_runs hdrop lastJobs
  have hresize : vectorResize (p.machines.take newSize).length
      (p.machines.take newSize ++ closed) = .ok (p.machines.take newSize) :=
    vectorResize_append hall
  rw [hlength] at hresize
  simp only [resize, if_pos hlt, if_neg hin, hclosed, hresize]

/-- The branch of `resize` that makes the pool larger. -/
lemma Steady.resize_grow (hmax : maxThreads < 2147483648) (h : Steady maxThreads p)
    {newSize : Nat} {lastJobs : Nat → Bool} (hlt : p.threadSize < newSize) :
    p.resize maxThreads newSize lastJobs =
      if newSize - p.threadSize ≤ maxThreads - 1 - p.machines.length then
        .ok { machines := p.machines ++ List.replicate (newSize - p.threadSize) .ofScheduler
              threadSize := newSize }
      else .error .systemError := by
  have hcount := h.count
  have hroom := h.room
  have hstart : int32 (p.threadSize : Int) = p.threadSize :=
    int32_of_lt (by omega) (by omega)
  have hloop := pushLoop_eq newSize (maxThreads - 1 - p.machines.length) p.threadSize
    (by omega) p.machines
  have hnot : ¬ newSize < p.threadSize := by omega
  simp only [resize, if_neg hnot, if_pos hlt, hstart, h.room_eq, hloop]
  by_cases hfits : newSize - p.threadSize ≤ maxThreads - 1 - p.machines.length
  · rw [if_pos hfits, if_pos (by omega)]
  · rw [if_neg hfits, if_neg (by omega)]

/-- One call of `resize`: the number of machines fits the new size exactly when it did before
the call and the call does not make the pool smaller. -/
lemma Steady.resize (hmax : maxThreads < 2147483648) (h : Steady maxThreads p) {newSize : Nat}
    {lastJobs : Nat → Bool} (hnew : 1 ≤ newSize)
    (hresize : p.resize maxThreads newSize lastJobs = .ok q) :
    Steady maxThreads q ∧ q.threadSize = newSize ∧
      (q.machines.length + 1 = newSize ↔
        p.machines.length + 1 = p.threadSize ∧ p.threadSize ≤ newSize) := by
  have hcount := h.count
  have hroom := h.room
  obtain hlt | heq | hgt := Nat.lt_trichotomy newSize p.threadSize
  · rw [h.resize_shrink hlt] at hresize
    cases hresize
    have hlength : (p.machines.take newSize).length = newSize := by
      rw [List.length_take]
      omega
    refine ⟨⟨fun m hm => h.runs m (List.mem_of_mem_take hm), hnew, Or.inr hlength, ?_⟩, rfl, ?_⟩
    · simp only [hlength]
      omega
    · simp only [hlength]
      omega
  · subst heq
    simp only [ThreadPool.resize, lt_irrefl, if_false] at hresize
    cases hresize
    exact ⟨h, rfl, by simp⟩
  · rw [h.resize_grow hmax hgt] at hresize
    split at hresize
    · rename_i hfits
      cases hresize
      have hlength : (p.machines ++
          List.replicate (newSize - p.threadSize) Machine.ofScheduler).length =
            p.machines.length + (newSize - p.threadSize) := by
        rw [List.length_append, List.length_replicate]
      refine ⟨⟨fun m hm => ?_, hnew, ?_, ?_⟩, rfl, ?_⟩
      · obtain hm | hm := List.mem_append.mp hm
        · exact h.runs m hm
        · exact (List.eq_of_mem_replicate hm) ▸ Machine.runs_ofScheduler
      all_goals
        simp only [hlength]
        omega
    · cases hresize

lemma Steady.thread (h : Steady maxThreads p) {machine thread : Nat} {job : Bool}
    (hstep : p.step maxThreads (.thread machine thread job) = some q) :
    Steady maxThreads q ∧ q.threadSize = p.threadSize ∧
      q.machines.length = p.machines.length := by
  simp only [step] at hstep
  cases hm : p.machines[machine]? with
  | none => simp [hm] at hstep
  | some m =>
    simp only [hm] at hstep
    obtain ⟨m', hm', rfl⟩ := Option.map_eq_some_iff.mp hstep
    have hlength : (p.machines.set machine m').length = p.machines.length := List.length_set
    refine ⟨⟨fun a ha => ?_, h.pos, ?_, ?_⟩, rfl, hlength⟩
    · obtain ha | rfl := List.mem_or_eq_of_mem_set ha
      · exact h.runs a ha
      · exact (h.runs m (List.mem_of_getElem? hm)).threadStep hm'
    · rw [hlength]
      exact h.count
    · rw [hlength]
      exact h.room

/-- What the constructor makes. -/
lemma steady_new (hmax : maxThreads < 2147483648) {c : UInt32} (hc : 1 ≤ c.toNat)
    (hnew : new maxThreads c = .ok p) :
    Steady maxThreads p ∧ p.threadSize = c.toNat ∧ p.machines.length + 1 = c.toNat := by
  have hlt : c.toNat < 4294967296 := c.toNat_lt
  have hsize : sizeT ((c.toNat : Int) - 1) = c.toNat - 1 := by
    rw [sizeT_of_nonneg (by omega) (by omega)]
    omega
  have hroom : room maxThreads [] = maxThreads - 1 := rfl
  have hloop := pushLoop_eq (c.toNat - 1) (maxThreads - 1) 0 (by omega) []
  rw [Nat.cast_zero, List.nil_append] at hloop
  simp only [new, hsize, hroom, hloop] at hnew
  by_cases hfits : c.toNat - 1 ≤ 0 + (maxThreads - 1)
  · rw [if_pos hfits] at hnew
    cases hnew
    refine ⟨⟨fun m hm => ?_, hc, Or.inl ?_, ?_⟩, rfl, ?_⟩
    · exact (List.eq_of_mem_replicate hm) ▸ Machine.runs_ofScheduler
    all_goals
      simp only [List.length_replicate]
      omega
  · rw [if_neg hfits] at hnew
    cases hnew

/-! ### Runs -/

lemma sizes_resize (newSize : Nat) (lastJobs : Nat → Bool) (steps : List ResizeStep) :
    sizes (.resize newSize lastJobs :: steps) = newSize :: sizes steps := rfl

lemma sizes_thread (machine thread : Nat) (job : Bool) (steps : List ResizeStep) :
    sizes (.thread machine thread job :: steps) = sizes steps := rfl

/-- A run from a steady pool: the machines fit the last size exactly when they did at the
start and no call of the run made the pool smaller. -/
lemma Steady.run (hmax : maxThreads < 2147483648) (h : Steady maxThreads p)
    {steps : List ResizeStep} (hsizes : ∀ n ∈ sizes steps, 1 ≤ n)
    (hrun : exec (step maxThreads) p steps = some q) :
    Steady maxThreads q ∧
      q.threadSize = (p.threadSize :: sizes steps).getLast (List.cons_ne_nil _ _) ∧
      (q.machines.length + 1 = q.threadSize ↔
        p.machines.length + 1 = p.threadSize ∧
          (p.threadSize :: sizes steps).IsChain (· ≤ ·)) := by
  induction steps generalizing p with
  | nil =>
    obtain rfl : p = q := by simpa using hrun
    exact ⟨h, rfl, by simp [sizes]⟩
  | cons s steps ih =>
    obtain ⟨r, hr, hrest⟩ := Option.bind_eq_some_iff.mp hrun
    cases s with
    | resize newSize lastJobs =>
      rw [sizes_resize] at hsizes ⊢
      have hok : p.resize maxThreads newSize lastJobs = .ok r := by
        simp only [step] at hr
        cases hres : p.resize maxThreads newSize lastJobs with
        | error e => simp [hres, Except.toOption] at hr
        | ok r' => simpa [hres, Except.toOption] using hr
      obtain ⟨hsteady, hsize, hfits⟩ := h.resize hmax (hsizes newSize List.mem_cons_self) hok
      obtain ⟨hq, hlast, hiff⟩ :=
        ih hsteady (fun n hn => hsizes n (List.mem_cons_of_mem newSize hn)) hrest
      rw [hsize] at hlast hiff
      refine ⟨hq, ?_, ?_⟩
      · rw [hlast, List.getLast_cons_cons]
      · rw [hiff, hfits, List.isChain_cons_cons, and_assoc]
    | thread machine thread job =>
      rw [sizes_thread] at hsizes ⊢
      obtain ⟨hsteady, hsize, hlength⟩ := h.thread hr
      have hq := ih hsteady hsizes hrest
      rw [hsize, hlength] at hq
      exact hq

/-- After any calls of `resize` that return, `machines.begin() + newSize` is inside the
machines in every later call, and the number of machines that run is one less than the last
size exactly when no call made the pool smaller. -/
theorem running_eq_iff_never_smaller (hmax : maxThreads < 2147483648) {c : UInt32}
    (hc : 1 ≤ c.toNat) (hnew : new maxThreads c = .ok p) {steps : List ResizeStep}
    (hsizes : ∀ n ∈ sizes steps, 1 ≤ n) (hrun : exec (step maxThreads) p steps = some q) :
    (∀ newSize lastJobs, 1 ≤ newSize →
      q.resize maxThreads newSize lastJobs ≠ .error .passesEnd) ∧
    (q.running = (c.toNat :: sizes steps).getLast (List.cons_ne_nil _ _) - 1 ↔
      (c.toNat :: sizes steps).IsChain (· ≤ ·)) := by
  obtain ⟨hp, hsize, hlength⟩ := steady_new hmax hc hnew
  obtain ⟨hq, hlast, hiff⟩ := hp.run hmax hsizes hrun
  rw [hsize] at hlast hiff
  constructor
  · intro newSize lastJobs _
    obtain hlt | heq | hgt := Nat.lt_trichotomy newSize q.threadSize
    · rw [hq.resize_shrink hlt]
      simp
    · simp [ThreadPool.resize, heq]
    · rw [hq.resize_grow hmax hgt]
      split <;> simp
  · have hpos := hq.pos
    rw [← hlast, hq.running_eq]
    constructor
    · intro h
      exact (hiff.mp (by omega)).2
    · intro h
      have hfits := hiff.mpr ⟨hlength, h⟩
      omega

/-- Four threads, then six: five machines run. -/
theorem running_eq_never_smaller_grown :
    ∃ p q, new 1000 4 = .ok p ∧
      exec (step 1000) p [.thread 0 0 true, .resize 6 fun _ => true] = some q ∧
      (∀ newSize lastJobs, 1 ≤ newSize →
        q.resize 1000 newSize lastJobs ≠ .error .passesEnd) ∧ q.running = 5 := by
  have hmax : 1000 < 2147483648 := by decide
  have hsizes : ∀ n ∈ sizes [.thread 0 0 true, .resize 6 fun _ => true], 1 ≤ n := by decide
  refine ⟨_, _, rfl, rfl, ?_⟩
  have h := running_eq_iff_never_smaller hmax (c := 4) (by decide) rfl hsizes rfl
  exact ⟨h.1, h.2.mpr (by decide)⟩

/-- Four threads, then two: two machines run. A pool that the constructor makes for two
threads, or one resized to two threads from two, has one. -/
theorem running_after_smaller :
    ∃ p q r, new 1000 4 = .ok p ∧ p.resize 1000 2 (fun _ => true) = .ok q ∧ q.running = 2 ∧
      new 1000 2 = .ok r ∧ r.resize 1000 2 (fun _ => true) = .ok r ∧ r.running = 1 :=
  ⟨_, _, _, rfl, rfl, rfl, rfl, rfl, rfl⟩

end ThreadPool

end CoplusLean
