import CoplusLean.Models.ServeCall
import CoplusLean.Proofs.ServeIds

/-!
# What a call of `Serve` leaves behind

As long as a single loop accepts, every thread knows its own entry. A connection is then closed
once, when its thread ends, and never under a thread that still receives from it; when `Serve`
returns, every thread has ended. After `Close` the loops take one more turn at most.
-/

namespace CoplusLean.Server

open Lib

/-- Whether an entry was pushed for which no thread was started yet. -/
def ServePhase.pending : ServePhase → Nat
  | .pushed _ => 1
  | _ => 0

/-- How often `Serve` has closed the socket it listens to. -/
def ServePhase.closed : ServePhase → Nat
  | .returned _ => 1
  | _ => 0

def ServeCallStep.isAccept : ServeCallStep → Bool
  | .accept _ => true
  | _ => false

/-- A `recv` of the thread `k`. -/
def ServeCallStep.isRecv (k : Nat) : ServeCallStep → Bool
  | .thread j (.recv _) => decide (j = k)
  | _ => false

/-- Whether `accept` may still be called when the flag is set. -/
def ServePhase.acceptsLeft : ServePhase → Nat
  | .registering => 1
  | .listening => 1
  | .accepting => 1
  | _ => 0

def ThreadPhase.recvsLeft : ThreadPhase → Nat
  | .receiving => 1
  | _ => 0

namespace ServeCall

variable {w v : ServeCall} {k : Nat} {t : ServeThread}

/-- The thread has ended. -/
def Ended (w : ServeCall) (k : Nat) : Prop := ∃ t, w.threads[k]? = some t ∧ t.phase = .ended

/-- What the call of `Serve` knows where it is: the threads it has joined have ended, and the
entry it has pushed is the one behind those of the threads. -/
def Waited (w : ServeCall) : ServePhase → Prop
  | .joining k => k ≤ w.threads.length ∧ ∀ j < k, w.Ended j
  | .closing => ∀ j < w.threads.length, w.Ended j
  | .returned true => ∀ j < w.threads.length, w.Ended j
  | .pushed client => w.database[w.threads.length]?.map (·.handle) = some client
  | _ => True

/-- The thread knows its entry. -/
structure Owned (w : ServeCall) (k : Nat) (t : ServeThread) : Prop where
  id : t.id = k
  entry : w.database[k]?.map (·.handle) = some t.client

structure Inv (w : ServeCall) : Prop where
  size : w.database.length ≤ 2147483648
  count : w.database.length = w.threads.length + w.phase.pending
  threads : ∀ k t, w.threads[k]? = some t → w.Owned k t
  entries : ∀ (k : Nat) (e : ClientSocketInfo), w.database[k]? = some e →
    e.conn = k ∧ (e.status = false ↔ w.Ended k)
  closed : ∀ k, w.Ended k → w.clientCloses.count k = 1
  still : ∀ k, ¬w.Ended k → k ∉ w.clientCloses
  waited : w.Waited w.phase
  listener : w.listenerCloses.count .serve = w.phase.closed

/-- Entries are pushed while an `int` can count them. -/
def Careful (w : ServeCall) : ServeCallStep → Prop
  | .push _ => w.database.length < 2147483648
  | _ => True

/-! ## The call of `Serve` -/

/-- Steps that leave the database and the threads alone. -/
lemma Inv.goOn (hw : w.Inv) (p : ServePhase) {l : List ListenerClose}
    (hpending : p.pending = w.phase.pending) (hwaited : w.Waited p)
    (hlistener : l.count .serve = p.closed) (c d : Bool) (n : Nat) :
    Inv { w with phase := p, close := c, delegated := d, closers := n, listenerCloses := l } where
  size := hw.size
  count := by rw [hpending]; exact hw.count
  threads := fun k t ht => ⟨(hw.threads k t ht).id, (hw.threads k t ht).entry⟩
  entries := hw.entries
  closed := hw.closed
  still := hw.still
  waited := by cases p <;> exact hwaited
  listener := hlistener

lemma Inv.push (hw : w.Inv) {client : SOCKET} {addr : Bytes} (hphase : w.phase = .accepted client)
    (hsize : w.database.length < 2147483648) :
    Inv { w with
      phase := .pushed client
      database := w.database ++ [⟨client, addr, true, w.database.length⟩] } := by
  have hcount : w.database.length = w.threads.length := by
    have hcount := hw.count
    rwa [hphase] at hcount
  have hlast : (w.database ++ [⟨client, addr, true, w.database.length⟩])[w.threads.length]? =
      some ⟨client, addr, true, w.database.length⟩ := by
    rw [← hcount]
    exact List.getElem?_concat_length
  refine ⟨?_, ?_, fun k t ht => ⟨(hw.threads k t ht).id, ?_⟩, fun k e he => ?_, hw.closed, hw.still,
    ?_, ?_⟩
  · rw [List.length_append, List.length_singleton]
    omega
  · rw [List.length_append, List.length_singleton, hcount]
    rfl
  · have hlt : k < w.database.length := hcount ▸ (List.getElem?_eq_some_iff.mp ht).1
    rw [List.getElem?_append_left hlt]
    exact (hw.threads k t ht).entry
  · by_cases hk : k < w.database.length
    · rw [List.getElem?_append_left hk] at he
      exact hw.entries k e he
    · have hlt := (List.getElem?_eq_some_iff.mp he).1
      rw [List.length_append, List.length_singleton] at hlt
      obtain rfl : k = w.threads.length := by omega
      obtain rfl := Option.some.inj (hlast.symm.trans he)
      refine ⟨hcount, iff_of_false (by simp) ?_⟩
      rintro ⟨t, ht, -⟩
      rw [List.getElem?_eq_none le_rfl] at ht
      cases ht
  · exact congrArg (Option.map _) hlast
  · have hlistener := hw.listener
    rwa [hphase] at hlistener

lemma Inv.start (hw : w.Inv) {client : SOCKET} (hphase : w.phase = .pushed client) :
    Inv { w with
      phase := .guard
      threads := w.threads ++ [⟨client, int32 (w.database.length - 1), .receiving⟩] } := by
  have hcount := hw.count
  have hsize := hw.size
  have hentry := hw.waited
  have hlistener := hw.listener
  rw [hphase] at hcount hentry hlistener
  have hlength : w.database.length = w.threads.length + 1 := hcount
  have hended : ∀ k, (∃ t, (w.threads ++ [⟨client, int32 (w.database.length - 1), .receiving⟩])[k]? =
      some t ∧ t.phase = .ended) ↔ w.Ended k := by
    intro k
    by_cases hk : k < w.threads.length
    · rw [List.getElem?_append_left hk]
      rfl
    · refine iff_of_false ?_ ?_
      · rintro ⟨t, ht, hphase⟩
        rw [List.getElem?_append_right (by omega)] at ht
        have hmem := List.mem_of_getElem? ht
        rw [List.mem_singleton] at hmem
        subst hmem
        cases hphase
      · rintro ⟨t, ht, -⟩
        exact hk (List.getElem?_eq_some_iff.mp ht).1
  refine ⟨hsize, ?_, fun k t ht => ?_, fun k e he => ?_, fun k hk => hw.closed k ((hended k).mp hk),
    fun k hk => hw.still k fun h => hk ((hended k).mpr h), trivial, hlistener⟩
  · rw [List.length_append, List.length_singleton, hlength]
    rfl
  · by_cases hk : k < w.threads.length
    · rw [List.getElem?_append_left hk] at ht
      exact ⟨(hw.threads k t ht).id, (hw.threads k t ht).entry⟩
    · have hlt := (List.getElem?_eq_some_iff.mp ht).1
      rw [List.length_append, List.length_singleton] at hlt
      obtain rfl : k = w.threads.length := by omega
      rw [List.getElem?_concat_length] at ht
      obtain rfl := Option.some.inj ht
      refine ⟨?_, hentry⟩
      have hid : int32 ((w.database.length : Int) - 1) = w.database.length - 1 :=
        int32_of_lt (by omega) (by omega)
      show int32 ((w.database.length : Int) - 1) = w.threads.length
      rw [hid, hlength]
      omega
  · obtain ⟨hconn, hstatus⟩ := hw.entries k e he
    exact ⟨hconn, hstatus.trans (hended k).symm⟩

/-! ## The threads -/

/-- What is known stays known when no entry changes its handle and no thread begins again. -/
lemma Waited.congr {p : ServePhase} (h : w.Waited p) (hlength : v.threads.length = w.threads.length)
    (hended : ∀ j, w.Ended j → v.Ended j)
    (hhandles : ∀ j : Nat, v.database[j]?.map (·.handle) = w.database[j]?.map (·.handle)) :
    v.Waited p := by
  cases p with
  | joining j => exact ⟨hlength ▸ h.1, fun i hi => hended i (h.2 i hi)⟩
  | closing => exact fun i hi => hended i (h i (hlength ▸ hi))
  | returned result =>
    cases result with
    | true => exact fun i hi => hended i (h i (hlength ▸ hi))
    | false => trivial
  | pushed client =>
    show v.database[v.threads.length]?.map (·.handle) = some client
    rw [hlength, hhandles]
    exact h
  | _ => trivial

lemma threadStep_ended (close : Bool) (act : ThreadStep) : threadStep close .ended act = none := rfl

/-- A step inside the loop of a thread. -/
lemma Inv.setThread (hw : w.Inv) (ht : w.threads[k]? = some t) (hphase : t.phase ≠ .ended)
    {phase : ThreadPhase} (hnew : phase ≠ .ended) : Inv (w.setThread k t phase) := by
  have hlt := (List.getElem?_eq_some_iff.mp ht).1
  have hended : ∀ j, (w.setThread k t phase).Ended j ↔ w.Ended j := by
    intro j
    by_cases hj : k = j
    · subst hj
      refine iff_of_false ?_ ?_
      · rintro ⟨t', ht', hended⟩
        rw [ServeCall.setThread, List.getElem?_set_self hlt] at ht'
        obtain rfl := Option.some.inj ht'
        exact hnew hended
      · rintro ⟨t', ht', hended⟩
        rw [ht] at ht'
        obtain rfl := Option.some.inj ht'
        exact hphase hended
    · simp only [Ended, ServeCall.setThread, List.getElem?_set_ne hj]
  have hlength : (w.setThread k t phase).threads.length = w.threads.length := List.length_set
  refine ⟨hw.size, hw.count.trans (by rw [hlength]; rfl), fun j t' ht' => ?_, fun j e he => ?_,
    fun j hj => hw.closed j ((hended j).mp hj), fun j hj => hw.still j fun h => hj ((hended j).mpr h),
    ?_, hw.listener⟩
  · by_cases hj : k = j
    · subst hj
      rw [ServeCall.setThread, List.getElem?_set_self hlt] at ht'
      obtain rfl := Option.some.inj ht'
      exact ⟨(hw.threads k t ht).id, (hw.threads k t ht).entry⟩
    · rw [ServeCall.setThread, List.getElem?_set_ne hj] at ht'
      exact ⟨(hw.threads j t' ht').id, (hw.threads j t' ht').entry⟩
  · obtain ⟨hconn, hstatus⟩ := hw.entries j e he
    exact ⟨hconn, hstatus.trans (hended j).symm⟩
  · exact hw.waited.congr hlength (fun j hj => (hended j).mpr hj) fun _ => rfl

/-- A thread leaves: it closes its own connection and marks its own entry. -/
lemma Inv.closeThread (hw : w.Inv) (ht : w.threads[k]? = some t) (hphase : t.phase ≠ .ended) :
    Inv (w.closeThread k t) := by
  have hlt := (List.getElem?_eq_some_iff.mp ht).1
  obtain ⟨hid, hentry⟩ := hw.threads k t ht
  obtain ⟨e, he, -⟩ := Option.map_eq_some_iff.mp hentry
  have hfound : entry w.database t.id = some e :=
    entry_eq_some_iff.mpr ⟨by omega, by rwa [hid, Int.toNat_natCast]⟩
  have hcloses : (w.closeThread k t).clientCloses = w.clientCloses ++ [k] := by
    simp [ServeCall.closeThread, hfound, (hw.entries k e he).1]
  have hnot : ¬w.Ended k := by
    rintro ⟨t', ht', hended⟩
    rw [ht] at ht'
    obtain rfl := Option.some.inj ht'
    exact hphase hended
  have hended : ∀ j, (w.closeThread k t).Ended j ↔ w.Ended j ∨ j = k := by
    intro j
    by_cases hj : k = j
    · subst hj
      refine iff_of_true ⟨{ t with phase := .ended }, ?_, rfl⟩ (.inr rfl)
      exact List.getElem?_set_self hlt
    · simp only [Ended, ServeCall.closeThread, ServeCall.setThread, List.getElem?_set_ne hj,
        Ne.symm hj, or_false]
  have hdatabase : ∀ j : Nat, (w.closeThread k t).database[j]? =
      w.database[j]?.map fun e => if (k : Int) = j then { e with status := false } else e := by
    intro j
    rw [ServeCall.closeThread, hid]
    exact getElem?_closeClient w.database k j
  have hhandles : ∀ j : Nat, (w.closeThread k t).database[j]?.map (·.handle) =
      w.database[j]?.map (·.handle) := by
    intro j
    rw [hdatabase, Option.map_map]
    congr 1
    funext e
    simp only [Function.comp_apply]
    split <;> rfl
  have hlength : (w.closeThread k t).threads.length = w.threads.length := List.length_set
  have hsize : (w.closeThread k t).database.length = w.database.length := length_closeClient _ _
  refine ⟨hsize ▸ hw.size, ?_, fun j t' ht' => ?_, fun j e he => ?_, fun j hj => ?_, fun j hj => ?_,
    ?_, hw.listener⟩
  · rw [hsize, hlength]
    exact hw.count
  · have howned : ∃ t'', w.threads[j]? = some t'' ∧ t''.id = t'.id ∧ t''.client = t'.client := by
      by_cases hj : k = j
      · subst hj
        have hset : (w.closeThread k t).threads[k]? = some { t with phase := .ended } :=
          List.getElem?_set_self hlt
        obtain rfl := Option.some.inj (hset.symm.trans ht')
        exact ⟨t, ht, rfl, rfl⟩
      · have hset : (w.closeThread k t).threads[j]? = w.threads[j]? := List.getElem?_set_ne hj
        exact ⟨t', hset ▸ ht', rfl, rfl⟩
    obtain ⟨t'', ht'', hids, hclients⟩ := howned
    obtain ⟨hid', hentry'⟩ := hw.threads j t'' ht''
    exact ⟨hids ▸ hid', by rw [hhandles, hentry', hclients]⟩
  · rw [hdatabase, Option.map_eq_some_iff] at he
    obtain ⟨e', he', rfl⟩ := he
    obtain ⟨hconn, hstatus⟩ := hw.entries j e' he'
    by_cases hj : (k : Int) = j
    · have hkj : j = k := by omega
      simp [hj, hconn, hended, hkj]
    · have hkj : j ≠ k := by omega
      simp [hj, hconn, hended, hkj, hstatus]
  · rw [hcloses, List.count_append]
    rcases (hended j).mp hj with hold | rfl
    · have hne : k ≠ j := by
        rintro rfl
        exact hnot hold
      rw [hw.closed j hold, List.count_singleton, if_neg (by simpa using hne)]
    · rw [List.count_eq_zero_of_not_mem (hw.still j hnot), List.count_singleton_self]
  · rw [hended, not_or] at hj
    rw [hcloses, List.mem_append, List.mem_singleton, not_or]
    exact ⟨hw.still j hj.1, hj.2⟩
  · exact hw.waited.congr hlength (fun j hj => (hended j).mpr (.inl hj)) hhandles

lemma Inv.step (hw : w.Inv) {a : ServeCallStep} (hcareful : w.Careful a)
    (h : w.step a = some v) : v.Inv := by
  have hlistener := hw.listener
  have hwaited := hw.waited
  cases a with
  | register =>
    simp only [ServeCall.step] at h
    split at h
    · rename_i hphase
      obtain rfl := Option.some.inj h
      rw [hphase] at hlistener
      exact hw.goOn .listening (by rw [hphase]; rfl) trivial hlistener _ _ _
    · cases h
  | listen ok =>
    simp only [ServeCall.step] at h
    split at h
    · rename_i hphase
      rw [hphase] at hlistener
      split at h
      · obtain rfl := Option.some.inj h
        exact hw.goOn .accepting (by rw [hphase]; rfl) trivial hlistener _ _ _
      · obtain rfl := Option.some.inj h
        refine hw.goOn (.returned false) (by rw [hphase]; rfl) trivial ?_ _ _ _
        rw [List.count_append, hlistener]
        rfl
    · cases h
  | accept client =>
    simp only [ServeCall.step] at h
    split at h
    · rename_i hphase
      rw [hphase] at hlistener
      obtain rfl := Option.some.inj h
      split
      · exact hw.goOn (.joining 0) (by rw [hphase]; rfl) ⟨Nat.zero_le _, by simp⟩ hlistener _ _ _
      · exact hw.goOn (.accepted client) (by rw [hphase]; rfl) trivial hlistener _ _ _
    · cases h
  | push addr =>
    simp only [ServeCall.step] at h
    split at h
    · rename_i client hphase
      obtain rfl := Option.some.inj h
      exact hw.push hphase hcareful
    · cases h
  | start =>
    simp only [ServeCall.step] at h
    split at h
    · rename_i client hphase
      obtain rfl := Option.some.inj h
      exact hw.start hphase
    · cases h
  | guard =>
    simp only [ServeCall.step] at h
    split at h
    · rename_i hphase
      rw [hphase] at hlistener
      obtain rfl := Option.some.inj h
      split
      · exact hw.goOn .accepting (by rw [hphase]; rfl) trivial hlistener _ _ _
      · exact hw.goOn (.joining 0) (by rw [hphase]; rfl) ⟨Nat.zero_le _, by simp⟩ hlistener _ _ _
    · cases h
  | join =>
    simp only [ServeCall.step] at h
    split at h
    · rename_i k hphase
      rw [hphase] at hlistener hwaited
      split at h
      · rename_i t ht
        split at h
        · rename_i hended
          obtain rfl := Option.some.inj h
          have hlt := (List.getElem?_eq_some_iff.mp ht).1
          refine hw.goOn (.joining (k + 1)) (by rw [hphase]; rfl) ⟨hlt, fun j hj => ?_⟩ hlistener _ _ _
          obtain hj | rfl := Nat.lt_or_eq_of_le (Nat.le_of_lt_succ hj)
          · exact hwaited.2 j hj
          · exact ⟨t, ht, hended⟩
        · cases h
      · rename_i hnone
        obtain rfl := Option.some.inj h
        rw [List.getElem?_eq_none_iff] at hnone
        exact hw.goOn .closing (by rw [hphase]; rfl) (fun j hj => hwaited.2 j (by omega)) hlistener
          _ _ _
    · cases h
  | closeListener =>
    simp only [ServeCall.step] at h
    split at h
    · rename_i hphase
      rw [hphase] at hlistener hwaited
      obtain rfl := Option.some.inj h
      refine hw.goOn (.returned true) (by rw [hphase]; rfl) hwaited ?_ _ _ _
      rw [List.count_append, hlistener]
      rfl
    · cases h
  | thread k act =>
    simp only [ServeCall.step] at h
    split at h
    · rename_i t ht
      obtain ⟨phase, hphase, rfl⟩ := Option.map_eq_some_iff.mp h
      have hne : t.phase ≠ .ended := by
        intro hended
        rw [hended, threadStep_ended] at hphase
        cases hphase
      split
      · exact hw.closeThread ht hne
      · rename_i hnew
        exact hw.setThread ht hne hnew
    · cases h
  | storeClose =>
    obtain rfl := Option.some.inj h
    exact hw.goOn _ rfl hwaited hlistener _ _ _
  | closeList =>
    simp only [ServeCall.step] at h
    split at h
    · cases h
    · obtain rfl := Option.some.inj h
      refine hw.goOn _ rfl hwaited ?_ _ _ _
      rw [List.count_append, hlistener]
      split <;> rfl

lemma inv_init : init.Inv := by
  constructor <;> simp [init, Ended, Waited, ServePhase.pending, ServePhase.closed]

/-- No connection is closed under a thread that has not ended, and every thread that has ended
has closed its own connection once and marked its own entry. When `Serve` returns from its
loop, all threads of the connections it has accepted have ended, and it has closed the socket
it listens to once. -/
structure Settled (w : ServeCall) : Prop where
  running : ∀ k t, w.threads[k]? = some t → t.phase ≠ .ended →
    k ∉ w.clientCloses ∧ ∃ e, w.database[k]? = some e ∧ e.handle = t.client ∧ e.status = true
  ended : ∀ k t, w.threads[k]? = some t → t.phase = .ended →
    w.clientCloses.count k = 1 ∧ ∃ e, w.database[k]? = some e ∧ e.handle = t.client ∧ e.status = false
  returned : w.phase = .returned true →
    w.threads.length = w.database.length ∧ (∀ t ∈ w.threads, t.phase = .ended) ∧
      w.listenerCloses.count .serve = 1

/-- In every run, with any number of calls of `Close`. -/
theorem serve_settles (run : List ServeCallStep) (hcareful : Along step Careful init run)
    (w : ServeCall) (hw : exec step init run = some w) : w.Settled := by
  have hinv : w.Inv :=
    exec_invariant (fun _ _ _ hw hgood hstep => hw.step hgood hstep) inv_init hcareful hw
  have hentry : ∀ k t, w.threads[k]? = some t → ∃ e, w.database[k]? = some e ∧
      e.handle = t.client ∧ (e.status = false ↔ w.Ended k) := by
    intro k t ht
    obtain ⟨e, he, hhandle⟩ := Option.map_eq_some_iff.mp (hinv.threads k t ht).entry
    exact ⟨e, he, hhandle, (hinv.entries k e he).2⟩
  refine ⟨fun k t ht hphase => ?_, fun k t ht hphase => ?_, fun hphase => ?_⟩
  · have hnot : ¬w.Ended k := by
      rintro ⟨t', ht', hended⟩
      rw [ht] at ht'
      obtain rfl := Option.some.inj ht'
      exact hphase hended
    obtain ⟨e, he, hhandle, hstatus⟩ := hentry k t ht
    exact ⟨hinv.still k hnot, e, he, hhandle, by simpa [hnot] using hstatus⟩
  · have hended : w.Ended k := ⟨t, ht, hphase⟩
    obtain ⟨e, he, hhandle, hstatus⟩ := hentry k t ht
    exact ⟨hinv.closed k hended, e, he, hhandle, hstatus.mpr hended⟩
  · have hcount := hinv.count
    have hwaited := hinv.waited
    have hlistener := hinv.listener
    rw [hphase] at hcount hwaited hlistener
    refine ⟨hcount.symm, fun t ht => ?_, hlistener⟩
    obtain ⟨k, hk⟩ := List.mem_iff_getElem?.mp ht
    obtain ⟨t', ht', hended⟩ := hwaited k (List.getElem?_eq_some_iff.mp hk).1
    rw [hk] at ht'
    obtain rfl := Option.some.inj ht'
    exact hended

/-- One connection, of which the client hangs up; then `Close`. -/
def oneClient : List ServeCallStep :=
  [.register, .listen true, .accept 5, .push [], .start, .thread 0 (.recv .closed), .storeClose,
    .guard, .thread 0 .leave, .join, .join, .closeList, .closeListener]

theorem serve_settles_one : ∃ w, exec step init oneClient = some w ∧ w.phase = .returned true ∧
    w.listenerCloses = [.close, .serve] ∧ w.Settled := by
  have hcareful : Along step Careful init oneClient := by
    simp [Along, oneClient, Careful, step, init, threadStep, setThread, closeThread]
  exact ⟨_, rfl, rfl, rfl, serve_settles oneClient hcareful _ rfl⟩

/-! ## After `Close` -/

/-- Whether the thread `k` may still call `recv` when the flag is set; it may not have begun. -/
def recvsLeft (w : ServeCall) (k : Nat) : Nat := (w.threads[k]?.map (·.phase.recvsLeft)).getD 1

lemma recvsLeft_sendPhase (answers : Nat) : (sendPhase answers).recvsLeft = 0 := by
  cases answers <;> rfl

lemma threadStep_recvsLeft {phase phase' : ThreadPhase} {act : ThreadStep}
    (h : threadStep true phase act = some phase') :
    phase'.recvsLeft + (match act with | .recv _ => 1 | _ => 0) ≤ phase.recvsLeft := by
  cases phase with
  | receiving =>
    cases act with
    | recv received =>
      cases received with
      | chunk answers =>
        obtain rfl := Option.some.inj h
        rw [recvsLeft_sendPhase]
        rfl
      | _ =>
        obtain rfl := Option.some.inj h
        rfl
    | _ => cases h
  | sending answers =>
    cases answers with
    | zero => cases act <;> cases h
    | succ answers =>
      cases act with
      | send ok =>
        obtain rfl := Option.some.inj h
        cases ok with
        | true => exact (recvsLeft_sendPhase answers).le
        | false => rfl
      | _ => cases h
  | guard =>
    cases act with
    | guard =>
      obtain rfl := Option.some.inj h
      rfl
    | _ => cases h
  | leaving =>
    cases act with
    | leave =>
      obtain rfl := Option.some.inj h
      rfl
    | _ => cases h
  | ended => cases h

lemma threads_thread {act : ThreadStep} (h : w.step (.thread k act) = some v) :
    ∃ t phase, w.threads[k]? = some t ∧ threadStep w.close t.phase act = some phase ∧
      v.threads = w.threads.set k { t with phase := phase } ∧ v.phase = w.phase ∧
      v.close = w.close := by
  simp only [ServeCall.step] at h
  split at h
  · rename_i t ht
    obtain ⟨phase, hphase, rfl⟩ := Option.map_eq_some_iff.mp h
    refine ⟨t, phase, ht, hphase, ?_⟩
    split
    · rename_i hended
      subst hended
      exact ⟨rfl, rfl, rfl⟩
    · exact ⟨rfl, rfl, rfl⟩
  · cases h

lemma recvsLeft_congr (hthreads : v.threads = w.threads) (k : Nat) :
    v.recvsLeft k + (if false then 1 else 0) ≤ w.recvsLeft k := by
  rw [recvsLeft, hthreads]
  exact le_rfl

lemma close_step {a : ServeCallStep} (hclose : w.close = true) (h : w.step a = some v) :
    v.close = true ∧
      v.phase.acceptsLeft + (if a.isAccept then 1 else 0) ≤ w.phase.acceptsLeft ∧
      ∀ k, v.recvsLeft k + (if a.isRecv k then 1 else 0) ≤ w.recvsLeft k := by
  cases a with
  | thread k act =>
    obtain ⟨t, phase, ht, hphase, hthreads, hsame, hflag⟩ := threads_thread h
    rw [hclose] at hphase
    refine ⟨hflag.trans hclose, by rw [hsame]; exact le_rfl, fun j => ?_⟩
    have hlt := (List.getElem?_eq_some_iff.mp ht).1
    have hle := threadStep_recvsLeft hphase
    by_cases hj : k = j
    · subst hj
      simp only [recvsLeft, hthreads, List.getElem?_set_self hlt, ht, Option.map_some,
        Option.getD_some]
      cases act <;> simpa [ServeCallStep.isRecv] using hle
    · have hno : (ServeCallStep.thread k act).isRecv j = false := by
        cases act <;> simp [ServeCallStep.isRecv, hj]
      simp only [recvsLeft, hthreads, List.getElem?_set_ne hj, hno]
      exact le_rfl
  | start =>
    simp only [ServeCall.step] at h
    split at h
    · rename_i client hphase
      obtain rfl := Option.some.inj h
      refine ⟨hclose, by rw [hphase]; exact le_rfl, fun k => ?_⟩
      by_cases hk : k < w.threads.length
      · simp only [recvsLeft, List.getElem?_append_left hk]
        exact le_rfl
      · have hnone : w.threads[k]? = none := List.getElem?_eq_none (by omega)
        have hone : ∀ l : Option ServeThread, (∀ t ∈ l, t.phase = .receiving) →
            (l.map (·.phase.recvsLeft)).getD 1 = 1 := by
          intro l hl
          cases l with
          | none => rfl
          | some t => simp [hl t rfl, ThreadPhase.recvsLeft]
        simp only [recvsLeft, hnone]
        rw [hone _ fun t ht => ?_]
        · exact le_rfl
        · rw [List.getElem?_append_right (by omega)] at ht
          rw [List.mem_singleton.mp (List.mem_of_getElem? ht)]
    · cases h
  | accept client =>
    simp only [ServeCall.step] at h
    split at h
    · rename_i hphase
      obtain rfl := Option.some.inj h
      refine ⟨hclose, ?_, recvsLeft_congr rfl⟩
      rw [hphase]
      split <;> exact le_rfl
    · cases h
  | register =>
    simp only [ServeCall.step] at h
    split at h
    · rename_i hphase
      obtain rfl := Option.some.inj h
      exact ⟨hclose, by rw [hphase]; exact le_rfl, recvsLeft_congr rfl⟩
    · cases h
  | listen ok =>
    simp only [ServeCall.step] at h
    split at h
    · rename_i hphase
      split at h
      · obtain rfl := Option.some.inj h
        exact ⟨hclose, by rw [hphase]; exact le_rfl, recvsLeft_congr rfl⟩
      · obtain rfl := Option.some.inj h
        exact ⟨hclose, Nat.zero_le _, recvsLeft_congr rfl⟩
    · cases h
  | push addr =>
    simp only [ServeCall.step] at h
    split at h
    · obtain rfl := Option.some.inj h
      exact ⟨hclose, Nat.zero_le _, recvsLeft_congr rfl⟩
    · cases h
  | guard =>
    simp only [ServeCall.step, hclose] at h
    split at h
    · obtain rfl := Option.some.inj h
      exact ⟨rfl, Nat.zero_le _, recvsLeft_congr rfl⟩
    · cases h
  | join =>
    simp only [ServeCall.step] at h
    split at h
    · split at h
      · split at h
        · obtain rfl := Option.some.inj h
          exact ⟨hclose, Nat.zero_le _, recvsLeft_congr rfl⟩
        · cases h
      · obtain rfl := Option.some.inj h
        exact ⟨hclose, Nat.zero_le _, recvsLeft_congr rfl⟩
    · cases h
  | closeListener =>
    simp only [ServeCall.step] at h
    split at h
    · obtain rfl := Option.some.inj h
      exact ⟨hclose, Nat.zero_le _, recvsLeft_congr rfl⟩
    · cases h
  | storeClose =>
    obtain rfl := Option.some.inj h
    exact ⟨rfl, le_rfl, recvsLeft_congr rfl⟩
  | closeList =>
    simp only [ServeCall.step] at h
    split at h
    · cases h
    · obtain rfl := Option.some.inj h
      exact ⟨hclose, le_rfl, recvsLeft_congr rfl⟩

/-- From the moment at which `Close` sets the flag, `Serve` calls `accept` at most once more, and
the thread of every connection, also of one that is accepted then, calls `recv` at most once
more. -/
theorem close_winds_down (w : ServeCall) (hclose : w.close = true) (run : List ServeCallStep)
    (v : ServeCall) (h : exec step w run = some v) :
    run.countP ServeCallStep.isAccept ≤ 1 ∧
      ∀ k, run.countP (ServeCallStep.isRecv k) ≤ 1 := by
  constructor
  · have hle := exec_potential (P := fun w => w.close = true) (f := fun w => w.phase.acceptsLeft)
      (fun s a t hs ht => ⟨(close_step hs ht).1, (close_step hs ht).2.1⟩) hclose h
    have hone : w.phase.acceptsLeft ≤ 1 := by cases w.phase <;> simp [ServePhase.acceptsLeft]
    omega
  · intro k
    have hle := exec_potential (P := fun w => w.close = true) (f := fun w => w.recvsLeft k)
      (fun s a t hs ht => ⟨(close_step hs ht).1, (close_step hs ht).2.2 k⟩) hclose h
    have hone : w.recvsLeft k ≤ 1 := by
      rw [recvsLeft]
      cases w.threads[k]? with
      | none => exact le_rfl
      | some t => cases hphase : t.phase <;> simp [hphase, ThreadPhase.recvsLeft]
    omega

/-- The flag is set while the first connection is accepted. -/
theorem close_winds_down_one :
    ∃ v, exec step { init with close := true } [.register, .listen true, .accept 5, .push [], .start,
        .thread 0 (.recv (.chunk 1)), .thread 0 (.send true), .thread 0 .guard, .guard] = some v ∧
      [ServeCallStep.register, .listen true, .accept 5, .push [], .start,
        .thread 0 (.recv (.chunk 1)), .thread 0 (.send true), .thread 0 .guard, .guard].countP
          ServeCallStep.isAccept ≤ 1 :=
  ⟨_, rfl, (close_winds_down { init with close := true } rfl _ _ rfl).1⟩

end ServeCall

end CoplusLean.Server
