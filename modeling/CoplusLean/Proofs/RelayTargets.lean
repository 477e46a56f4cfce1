import CoplusLean.Proofs.ServeIds

/-!
# Whom `GetClient` leads to

The handle in an entry outlives its connection, and the system may give it to a later one.
`GetClient` does not look at the status; asked for entries that are on only, it leads to the
connection that is listed.
-/

namespace CoplusLean.Server.RelayWorld

open Lib

/-- The answer of `GetClient` is invalid, or the handle of the connection listed under the id,
which is still open. -/
def AnswersOwn (w : RelayWorld) (id : Int) : Prop :=
  getClient w.database id = invalidSocket ∨
    ∃ e, entry w.database id = some e ∧ getClient w.database id = e.handle ∧
      w.system e.handle = some e.conn

/-- The message went to the connection that is listed under the id. -/
def SentToListed (w : RelayWorld) (p : Int × Nat) : Prop :=
  ∃ e, entry w.database p.1 = some e ∧ e.conn = p.2

/-- No client, or one that was not closed, is listed under the id. -/
def On (database : List ClientSocketInfo) (id : Int) : Prop :=
  ∀ e, entry database id = some e → e.status = true

/-- The handle listed under the id is not the one that `dispatch` takes for the sender, or the
relay is asked for on that handle. -/
def OwnRelay (database : List ClientSocketInfo) (sender captured : SOCKET) (id : Int) : Prop :=
  ∀ e, entry database id = some e → e.handle = captured → sender = captured

/-- Ids of closed clients are neither closed again nor looked up, and no relay is taken for one
to the client that asks for it. -/
def Careful (w : RelayWorld) : RelayStep → Prop
  | .accept _ _ => True
  | .closeClient id => On w.database id
  | .getClient id => On w.database id
  | .relay sender captured id => On w.database id ∧ OwnRelay w.database sender captured id

/-- Entries are numbered by the connections, and an entry is on as long as its connection is
behind its handle. -/
structure Inv (w : RelayWorld) : Prop where
  accepts : w.accepts = w.database.length
  known : ∀ h c, w.system h = some c → c < w.accepts
  numbered : ∀ (k : Nat) (e : ClientSocketInfo), w.database[k]? = some e → e.conn = k
  valid : ∀ e ∈ w.database, e.handle ≠ invalidSocket
  status : ∀ e ∈ w.database, (e.status = true ↔ w.system e.handle = some e.conn)
  relayed : ∀ p ∈ w.relayed, w.SentToListed p

section steps

variable {w w' : RelayWorld} {id : Int} {e : ClientSocketInfo}

lemma Inv.mem_lt (hw : w.Inv) (he : e ∈ w.database) : e.conn < w.accepts := by
  obtain ⟨k, hk⟩ := List.mem_iff_getElem?.1 he
  rw [hw.numbered k e hk, hw.accepts]
  exact (List.getElem?_eq_some_iff.1 hk).1

lemma mem_of_entry {database : List ClientSocketInfo} (hentry : entry database id = some e) :
    e ∈ database :=
  List.mem_of_getElem? (entry_eq_some_iff.1 hentry).2

/-- What was sent to a listed connection stays so: entries keep their place and number. -/
lemma SentToListed.mono {p : Int × Nat} (hp : w.SentToListed p)
    (hkeep : ∀ (k : Nat) (e : ClientSocketInfo), w.database[k]? = some e →
      ∃ e' : ClientSocketInfo, w'.database[k]? = some e' ∧ e'.conn = e.conn) :
    w'.SentToListed p := by
  obtain ⟨e, hentry, hconn⟩ := hp
  obtain ⟨h0, hget⟩ := entry_eq_some_iff.1 hentry
  obtain ⟨e', hget', hconn'⟩ := hkeep _ e hget
  exact ⟨e', entry_eq_some_iff.2 ⟨h0, hget'⟩, hconn'.trans hconn⟩

lemma Inv.accept (hw : w.Inv) {client : SOCKET} (addr : Bytes) (hvalid : client ≠ invalidSocket)
    (hfree : w.system client = none) :
    Inv { w with
      database := w.database ++ [⟨client, addr, true, w.accepts⟩]
      system := Function.update w.system client (some w.accepts)
      accepts := w.accepts + 1 } where
  accepts := by simp [hw.accepts]
  known h c hc := by
    dsimp only at hc ⊢
    by_cases hh : h = client
    · rw [hh, Function.update_self, Option.some.injEq] at hc
      omega
    · rw [Function.update_of_ne hh] at hc
      have hlt := hw.known h c hc
      omega
  numbered k e hk := by
    rcases Nat.lt_or_ge k w.database.length with hold | hnew
    · exact hw.numbered k e (by rwa [List.getElem?_append_left hold] at hk)
    · rw [List.getElem?_append_right hnew, List.getElem?_singleton] at hk
      split at hk
      · obtain rfl := Option.some.inj hk
        have hacc := hw.accepts
        dsimp only
        omega
      · cases hk
  valid e he := by
    rcases List.mem_append.1 he with hold | hnew
    · exact hw.valid e hold
    · rw [List.mem_singleton.1 hnew]
      exact hvalid
  status e he := by
    rcases List.mem_append.1 he with hold | hnew
    · rw [hw.status e hold]
      dsimp only
      by_cases hh : e.handle = client
      · -- the entry of an earlier connection with the same handle is off and stays off
        have hlt := hw.mem_lt hold
        rw [hh, hfree, Function.update_self]
        simp only [reduceCtorEq, Option.some.injEq, false_iff]
        omega
      · rw [Function.update_of_ne hh]
    · rw [List.mem_singleton.1 hnew]
      simp
  relayed p hp := (hw.relayed p hp).mono fun k e hk =>
    ⟨e, (List.getElem?_append_left (List.getElem?_eq_some_iff.1 hk).1).trans hk, rfl⟩

lemma closeClient_eq {database : List ClientSocketInfo} (hentry : entry database id = some e) :
    closeClient database id = database.set id.toNat { e with status := false } := by
  rw [closeClient, hentry]

lemma Inv.closeClient (hw : w.Inv) (hentry : entry w.database id = some e)
    (hon : e.status = true) :
    Inv { w with
      database := Server.closeClient w.database id
      system := Function.update w.system e.handle none } := by
  obtain ⟨h0, hget⟩ := entry_eq_some_iff.1 hentry
  have hmem := mem_of_entry hentry
  have hopen := (hw.status e hmem).1 hon
  have hset : ∀ k e', (w.database.set id.toNat { e with status := false })[k]? = some e' →
      (k = id.toNat ∧ e' = { e with status := false }) ∨ (k ≠ id.toNat ∧ w.database[k]? = some e') := by
    intro k e' hk
    rw [List.getElem?_set] at hk
    split at hk
    · rename_i heq
      split at hk
      · exact .inl ⟨heq.symm, (Option.some.inj hk).symm⟩
      · cases hk
    · rename_i hne
      exact .inr ⟨fun h => hne h.symm, hk⟩
  rw [closeClient_eq hentry]
  constructor
  · simp [hw.accepts]
  · intro h c hc
    dsimp only at hc ⊢
    by_cases hh : h = e.handle
    · rw [hh, Function.update_self] at hc
      cases hc
    · rw [Function.update_of_ne hh] at hc
      exact hw.known h c hc
  · intro k e' hk
    rcases hset k e' hk with ⟨rfl, rfl⟩ | ⟨-, hold⟩
    · exact hw.numbered _ e hget
    · exact hw.numbered k e' hold
  · intro e' he'
    obtain ⟨k, hk⟩ := List.mem_iff_getElem?.1 he'
    rcases hset k e' hk with ⟨-, rfl⟩ | ⟨-, hold⟩
    · exact hw.valid e hmem
    · exact hw.valid e' (List.mem_of_getElem? hold)
  · intro e' he'
    obtain ⟨k, hk⟩ := List.mem_iff_getElem?.1 he'
    dsimp only
    rcases hset k e' hk with ⟨-, rfl⟩ | ⟨hne, hold⟩
    · simp
    · rw [hw.status e' (List.mem_of_getElem? hold)]
      by_cases hh : e'.handle = e.handle
      · -- the open connection behind the handle is that of the closed entry
        have hconn : e.conn ≠ e'.conn := by
          rw [hw.numbered _ e hget, hw.numbered k e' hold]
          exact hne.symm
        rw [hh, hopen, Function.update_self]
        simpa using hconn
      · rw [Function.update_of_ne hh]
  · intro p hp
    apply (hw.relayed p hp).mono
    intro k e' hk
    by_cases hkid : k = id.toNat
    · subst hkid
      rw [hget, Option.some.injEq] at hk
      refine ⟨{ e with status := false }, ?_, by rw [hk]⟩
      exact (List.getElem?_set_self (List.getElem?_eq_some_iff.1 hget).1)
    · exact ⟨e', by simpa [List.getElem?_set, Ne.symm hkid] using hk, rfl⟩

/-- `GetClient` leads to the connection of an entry that is on. -/
lemma Inv.getClient_on (hw : w.Inv) (hon : On w.database id) :
    (entry w.database id = none ∧ getClient w.database id = invalidSocket) ∨
      ∃ e, entry w.database id = some e ∧ getClient w.database id = e.handle ∧
        w.system e.handle = some e.conn := by
  unfold getClient
  cases hentry : entry w.database id with
  | none => exact .inl ⟨rfl, rfl⟩
  | some e => exact .inr ⟨e, rfl, rfl, (hw.status e (mem_of_entry hentry)).1 (hon e hentry)⟩

lemma Inv.answersOwn_iff (hw : w.Inv) : w.AnswersOwn id ↔ On w.database id := by
  constructor
  · rintro (hinvalid | ⟨e, hentry, -, hopen⟩) e' hentry'
    · rw [getClient, hentry'] at hinvalid
      exact absurd hinvalid (hw.valid e' (mem_of_entry hentry'))
    · rw [hentry, Option.some.injEq] at hentry'
      rw [← hentry']
      exact (hw.status e (mem_of_entry hentry)).2 hopen
  · intro hon
    rcases hw.getClient_on hon with ⟨-, hinvalid⟩ | hown
    · exact .inl hinvalid
    · exact .inr hown

/-- A message to the handle listed under the id. -/
lemma Inv.relay (hw : w.Inv) (hon : On w.database id)
    (hvalid : getClient w.database id ≠ invalidSocket) {target : SOCKET}
    (htarget : getClient w.database id = target) :
    Inv { w with relayed := w.relayed ++ (w.system target).toList.map (id, ·) } := by
  subst htarget
  refine ⟨hw.accepts, hw.known, hw.numbered, hw.valid, hw.status, ?_⟩
  intro p hp
  rcases List.mem_append.1 hp with hold | hnew
  · exact hw.relayed p hold
  · rcases hw.getClient_on hon with ⟨-, hinvalid⟩ | ⟨e, hentry, htarget, hopen⟩
    · exact absurd hinvalid hvalid
    · rw [htarget, hopen] at hnew
      obtain rfl : p = (id, e.conn) := by simpa using hnew
      exact ⟨e, hentry, rfl⟩

lemma Inv.step {act : RelayStep} (hw : w.Inv) (hcareful : w.Careful act)
    (hstep : w.step act = some w') : w'.Inv := by
  cases act with
  | accept client addr =>
    simp only [RelayWorld.step] at hstep
    split at hstep
    · rename_i hnew
      obtain rfl := Option.some.inj hstep
      exact hw.accept addr hnew.1 hnew.2
    · cases hstep
  | closeClient id =>
    simp only [RelayWorld.step] at hstep
    split at hstep
    · obtain rfl := Option.some.inj hstep
      exact hw
    · rename_i e hentry
      obtain rfl := Option.some.inj hstep
      exact hw.closeClient hentry (hcareful e hentry)
  | getClient id =>
    obtain rfl := Option.some.inj hstep
    exact hw
  | relay sender captured id =>
    obtain ⟨hon, hown⟩ := hcareful
    simp only [RelayWorld.step] at hstep
    split at hstep
    · obtain rfl := Option.some.inj hstep
      exact hw
    · rename_i hvalid
      split at hstep
      · rename_i hcaptured
        obtain rfl := Option.some.inj hstep
        rcases hw.getClient_on hon with ⟨-, hinvalid⟩ | ⟨e, hentry, htarget, -⟩
        · exact absurd hinvalid hvalid
        · obtain rfl := hown e hentry (htarget.symm.trans hcaptured)
          exact hw.relay hon hvalid hcaptured
      · obtain rfl := Option.some.inj hstep
        exact hw.relay hon hvalid rfl

end steps

lemma inv_init : init.Inv := by
  constructor <;> simp [init]

/-- In every state of every run that neither closes nor looks up a closed client again and in
which no relay is taken for one to the client that asks, `GetClient` is right about exactly the
ids that are not those of closed clients, and every relayed message went to the connection
listed under its id. -/
theorem answers_own_iff_on (as : List RelayStep) (hcareful : Along step Careful init as)
    (w : RelayWorld) (hrun : exec step init as = some w) :
    (∀ id, w.AnswersOwn id ↔ On w.database id) ∧ ∀ p ∈ w.relayed, w.SentToListed p := by
  have hw : w.Inv :=
    exec_invariant (fun _ _ _ hw hgood hstep => hw.step hgood hstep) inv_init hcareful hrun
  exact ⟨fun id => hw.answersOwn_iff, hw.relayed⟩

instance (database : List ClientSocketInfo) (id : Int) : Decidable (On database id) :=
  inferInstanceAs (Decidable (∀ e ∈ entry database id, e.status = true))

instance (database : List ClientSocketInfo) (sender captured : SOCKET) (id : Int) :
    Decidable (OwnRelay database sender captured id) :=
  inferInstanceAs (Decidable (∀ e ∈ entry database id, e.handle = captured → sender = captured))

instance (w : RelayWorld) : DecidablePred w.Careful
  | .accept _ _ => isTrue trivial
  | .closeClient id => inferInstanceAs (Decidable (On w.database id))
  | .getClient id => inferInstanceAs (Decidable (On w.database id))
  | .relay sender captured id =>
    inferInstanceAs (Decidable (On w.database id ∧ OwnRelay w.database sender captured id))

/-- The handle of the first connection, which is closed, is given to the third; a message to
each of the two that are open, of which the second one is the captured sender's own. -/
def relaysToOpen : List RelayStep :=
  [.accept 5 [], .accept 6 [], .closeClient 0, .accept 5 [], .relay 6 6 2, .relay 6 6 1]

theorem answers_own_iff_on_relay : ∃ w, exec step init relaysToOpen = some w ∧
    w.relayed = [(2, 2), (1, 1)] ∧
    (∀ id, w.AnswersOwn id ↔ On w.database id) ∧ ∀ p ∈ w.relayed, w.SentToListed p :=
  ⟨_, rfl, rfl, answers_own_iff_on relaysToOpen (by decide +kernel) _ rfl⟩

/-- The handle of the first connection, which is closed, is given to the second, and the third
asks for a relay to the first. -/
def reusedHandle : List RelayStep :=
  [.accept 5 [], .closeClient 0, .accept 5 [], .accept 6 [], .relay 6 6 0]

/-- The message for the first connection goes to the second. -/
theorem relayed_to_other : ¬∀ (as : List RelayStep) (w : RelayWorld), exec step init as = some w →
    (∀ id, w.AnswersOwn id) ∧ ∀ p ∈ w.relayed, w.SentToListed p := by
  intro h
  obtain ⟨-, hsent⟩ := h reusedHandle _ rfl
  obtain ⟨e, hentry, hconn⟩ := hsent (0, 1) (by decide)
  obtain rfl := Option.some.inj hentry
  cases hconn

end CoplusLean.Server.RelayWorld
