import CoplusLean.Lib.Run
import CoplusLean.Models.ServerDatabase

/-!
# The ids that `Serve` hands to its threads

The id of a connection is read from the size of the database after the lock was released. It
is right as long as no other loop pushes between the push of a loop and its read; then a
thread closes its own connection and no other.
-/

namespace CoplusLean.Server

open Lib

/-- The connection an entry was pushed for. -/
def ClientSocketInfo.owner (client : ClientSocketInfo) : Connection := ⟨client.conn, client.handle⟩

def owners (database : List ClientSocketInfo) : List Connection := database.map (·.owner)

section database

variable {database : List ClientSocketInfo} {client : ClientSocketInfo} {id : Int}

lemma entry_eq_some_iff :
    entry database id = some client ↔ 0 ≤ id ∧ database[id.toNat]? = some client := by
  unfold entry
  split
  · rename_i hout
    constructor
    · exact nofun
    · rintro ⟨h0, hget⟩
      have hlt := (List.getElem?_eq_some_iff.1 hget).1
      omega
  · rename_i hin
    exact (and_iff_right (by omega)).symm

lemma getElem?_owners (database : List ClientSocketInfo) (k : Nat) :
    (owners database)[k]? = database[k]?.map (·.owner) := List.getElem?_map

/-- Closing a client changes the status of its entry only. -/
lemma owners_closeClient (database : List ClientSocketInfo) (id : Int) :
    owners (closeClient database id) = owners database := by
  unfold closeClient
  cases hentry : entry database id with
  | none => rfl
  | some client =>
    obtain ⟨-, hget⟩ := entry_eq_some_iff.1 hentry
    have howner : (owners database)[id.toNat]? = some client.owner := by
      rw [getElem?_owners, hget, Option.map_some]
    obtain ⟨hlt, heq⟩ := List.getElem?_eq_some_iff.1 howner
    have hset : owners (database.set id.toNat { client with status := false }) =
        (owners database).set id.toNat client.owner := List.map_set
    rw [hset, ← heq, List.set_getElem_self]

/-- An entry is as it was before, or it is the one that was closed. -/
lemma mem_closeClient (hmem : client ∈ closeClient database id) :
    client ∈ database ∨ ∃ e, entry database id = some e ∧ e.owner = client.owner := by
  unfold closeClient at hmem
  cases hentry : entry database id with
  | none =>
    rw [hentry] at hmem
    exact .inl hmem
  | some e =>
    rw [hentry] at hmem
    rcases List.mem_or_eq_of_mem_set hmem with hold | hnew
    · exact .inl hold
    · exact .inr ⟨e, rfl, by rw [hnew]; rfl⟩

lemma length_closeClient (database : List ClientSocketInfo) (id : Int) :
    (closeClient database id).length = database.length := by
  unfold closeClient
  split
  · rfl
  · rw [List.length_set]

lemma getElem?_closeClient (database : List ClientSocketInfo) (id : Int) (k : Nat) :
    (closeClient database id)[k]? =
      database[k]?.map fun e => if id = k then { e with status := false } else e := by
  unfold closeClient
  cases hentry : entry database id with
  | none =>
    cases hk : database[k]? with
    | none => rfl
    | some e =>
      have hne : id ≠ k := by
        rintro rfl
        have hlt := (List.getElem?_eq_some_iff.mp hk).1
        rw [entry, if_neg (by omega), Int.toNat_natCast, hk] at hentry
        cases hentry
      simp [hne]
  | some e =>
    obtain ⟨h0, hget⟩ := entry_eq_some_iff.mp hentry
    by_cases hk : id.toNat = k
    · obtain rfl := hk
      have hlt := (List.getElem?_eq_some_iff.mp hget).1
      have hid : id = (id.toNat : Int) := by omega
      simp only [List.getElem?_set_self hlt, hget, Option.map_some, if_pos hid]
    · have hid : id ≠ k := by omega
      simp only [List.getElem?_set_ne hk, if_neg hid, Option.map_id']

end database

namespace ServeWorld

/-- The id of the thread denotes the entry of its own connection. -/
def Owns (w : ServeWorld) (h : Handler) : Prop :=
  ∃ e, entry w.database h.id = some e ∧ e.owner = h.connection

/-- All threads know their own entries; no thread has closed the handle of another entry, and
an entry is marked only when its own thread has closed it. -/
structure OwnEntries (w : ServeWorld) : Prop where
  own : ∀ h ∈ w.handlers, w.Owns h
  closes : ∀ p ∈ w.closes, p.1 = p.2
  marks : ∀ e ∈ w.database, e.status = false → (e.conn, e.conn) ∈ w.closes

/-- A loop pushes only when no other loop is between its push and its read of the size, and
while an `int` can count the entries. -/
def Careful (w : ServeWorld) : ServeStep → Prop
  | .push l _ => (∀ l' c, l' ≠ l → w.loops l' ≠ .pushed c) ∧ w.database.length < 2147483648
  | _ => True

/-- The invariant: besides, the last entry is that of the loop that is about to read the size. -/
structure Inv (w : ServeWorld) : Prop extends OwnEntries w where
  last : ∀ l c, w.loops l = .pushed c → (owners w.database).getLast? = some c
  size : w.database.length ≤ 2147483648

lemma owns_iff {w : ServeWorld} {h : Handler} :
    w.Owns h ↔ 0 ≤ h.id ∧ (owners w.database)[h.id.toNat]? = some h.connection := by
  simp only [Owns, entry_eq_some_iff, getElem?_owners, Option.map_eq_some_iff, and_assoc,
    exists_and_left]

variable {w w' : ServeWorld} {l : Nat}

lemma Owns.congr {h : Handler} (hown : w.Owns h) (hsame : owners w'.database = owners w.database) :
    w'.Owns h := by
  rw [owns_iff] at hown ⊢
  rwa [hsame]

/-! ## The steps -/

lemma Inv.accept (hw : w.Inv) {s : LoopState} (hs : ∀ c, s ≠ .pushed c) (n : Nat) :
    Inv { w with loops := Function.update w.loops l s, accepts := n } where
  own := hw.own
  closes := hw.closes
  marks := hw.marks
  last l' c hl' := by
    by_cases hll : l' = l
    · subst hll
      exact absurd (by simpa using hl') (hs c)
    · exact hw.last l' c (by simpa [hll] using hl')
  size := hw.size

lemma Inv.push (hw : w.Inv) {addr : Bytes} {c : Connection} (hcareful : w.Careful (.push l addr)) :
    Inv { w with
      database := w.database ++ [⟨c.client, addr, true, c.conn⟩]
      loops := Function.update w.loops l (.pushed c) } := by
  have howners : owners (w.database ++ [⟨c.client, addr, true, c.conn⟩]) =
      owners w.database ++ [c] := List.map_append
  constructor
  · constructor
    · intro h hh
      obtain ⟨h0, hget⟩ := owns_iff.1 (hw.own h hh)
      rw [owns_iff]
      dsimp only
      rw [howners]
      have hlt := (List.getElem?_eq_some_iff.1 hget).1
      exact ⟨h0, (List.getElem?_append_left hlt).trans hget⟩
    · exact hw.closes
    · intro e he hoff
      rcases List.mem_append.1 he with hold | hnew
      · exact hw.marks e hold hoff
      · rw [List.mem_singleton.1 hnew] at hoff
        cases hoff
  · intro l' c' hl'
    dsimp only at hl' ⊢
    by_cases hll : l' = l
    · subst hll
      rw [Function.update_self, LoopState.pushed.injEq] at hl'
      rw [howners, hl', List.getLast?_concat]
    · rw [Function.update_of_ne hll] at hl'
      exact absurd hl' (hcareful.1 l' c' hll)
  · dsimp only
    rw [List.length_append, List.length_singleton]
    exact hcareful.2

lemma Inv.start (hw : w.Inv) {c : Connection} (hl : w.loops l = .pushed c) :
    Inv { w with
      loops := Function.update w.loops l .accepting
      handlers := w.handlers ++ [⟨c, int32 (w.database.length - 1), true⟩] } := by
  have hlast := hw.last l c hl
  have hsize := hw.size
  have hlen : (owners w.database).length = w.database.length := List.length_map _
  have hpos : w.database.length ≠ 0 := by
    intro hzero
    rw [List.length_eq_zero_iff.1 (hlen.trans hzero)] at hlast
    cases hlast
  have hid : int32 ((w.database.length : Int) - 1) = w.database.length - 1 :=
    int32_of_lt (by omega) (by omega)
  refine ⟨⟨?_, hw.closes, hw.marks⟩, ?_, hw.size⟩
  · intro h hh
    rcases List.mem_append.1 hh with hold | hnew
    · exact hw.own h hold
    · rw [List.mem_singleton.1 hnew, owns_iff]
      dsimp only
      rw [hid]
      refine ⟨by omega, ?_⟩
      rw [List.getLast?_eq_getElem?, hlen] at hlast
      rw [← hlast]
      congr 1
      omega
  · intro l' c' hl'
    by_cases hll : l' = l
    · subst hll
      exact absurd hl' (by simp)
    · exact hw.last l' c' (by simpa [hll] using hl')

lemma Inv.close (hw : w.Inv) {k : Nat} {h : Handler} (hk : w.handlers[k]? = some h) :
    Inv (w.closeHandler k h) := by
  have hsame : owners (w.closeHandler k h).database = owners w.database :=
    owners_closeClient w.database h.id
  have hmem := List.mem_of_getElem? hk
  obtain ⟨e, hentry, howner⟩ := hw.own h hmem
  have hcloses : (w.closeHandler k h).closes = w.closes ++ [(h.connection.conn, e.conn)] := by
    simp [closeHandler, hentry]
  have hconn : h.connection.conn = e.conn := by
    rw [← howner]
    rfl
  refine ⟨⟨?_, ?_, ?_⟩, ?_, ?_⟩
  · intro h' hh'
    rcases List.mem_or_eq_of_mem_set hh' with hold | hnew
    · exact (hw.own h' hold).congr hsame
    · rw [hnew]
      exact (hw.own h hmem).congr hsame
  · intro p hp
    rw [hcloses] at hp
    rcases List.mem_append.1 hp with hold | hnew
    · exact hw.closes p hold
    · rw [List.mem_singleton.1 hnew]
      exact hconn
  · intro e' he' hoff
    rw [hcloses]
    rcases mem_closeClient he' with hold | ⟨e'', hentry', howner'⟩
    · exact List.mem_append_left _ (hw.marks e' hold hoff)
    · rw [hentry, Option.some.injEq] at hentry'
      have hconn' : e.conn = e'.conn := by
        rw [hentry']
        exact congrArg Connection.conn howner'
      rw [hconn, hconn']
      exact List.mem_append_right _ List.mem_cons_self
  · intro l' c hl'
    rw [hsame]
    exact hw.last l' c hl'
  · have hlen := congrArg List.length hsame
    simp only [owners, List.length_map] at hlen
    rw [hlen]
    exact hw.size

lemma Inv.step {act : ServeStep} (hw : w.Inv) (hcareful : w.Careful act)
    (hstep : w.step act = some w') : w'.Inv := by
  cases act with
  | accept l client =>
    simp only [ServeWorld.step] at hstep
    split at hstep
    · obtain rfl := Option.some.inj hstep
      exact hw.accept (by simp) _
    · cases hstep
  | push l addr =>
    simp only [ServeWorld.step] at hstep
    split at hstep
    · obtain rfl := Option.some.inj hstep
      exact hw.push hcareful
    · cases hstep
  | start l =>
    simp only [ServeWorld.step] at hstep
    split at hstep
    · rename_i c hl
      obtain rfl := Option.some.inj hstep
      exact hw.start hl
    · cases hstep
  | close k =>
    simp only [ServeWorld.step] at hstep
    split at hstep
    · rename_i h hk
      split at hstep
      · obtain rfl := Option.some.inj hstep
        exact hw.close hk
      · cases hstep
    · cases hstep

lemma inv_init : init.Inv := by
  constructor
  · constructor <;> simp [init]
  · simp [init]
  · simp [init]

/-- In every run in which no loop pushes between another loop's push and its read of the size,
every thread's id denotes the entry of its own connection, and only that entry is marked and
closed by it. -/
theorem ids_own (as : List ServeStep) (hcareful : Along step Careful init as) (w : ServeWorld)
    (hrun : exec step init as = some w) : w.OwnEntries :=
  (exec_invariant (fun _ _ _ hw hgood hstep => hw.step hgood hstep) inv_init hcareful
    hrun).toOwnEntries

/-- Two loops accept, the second pushes when the first has read the size, and the thread of the first
connection leaves before the thread of the second is started. -/
def oneByOne : List ServeStep :=
  [.accept 0 5, .accept 1 6, .push 0 [], .start 0, .push 1 [], .close 0, .start 1]

/-- The only loop that may stand between its push and its read is the one that the step names. -/
lemma careful_push {w : ServeWorld} {l : Nat} {addr : Bytes} (hsize : w.database.length < 2147483648)
    (hloops : ∀ l', l' ≠ 0 → l' ≠ 1 → w.loops l' = .accepting)
    (hothers : ∀ l' c, l' = 0 ∨ l' = 1 → l' ≠ l → w.loops l' ≠ .pushed c) :
    Careful w (.push l addr) := by
  refine ⟨fun l' c hl' => ?_, hsize⟩
  by_cases hzero : l' = 0
  · exact hothers l' c (.inl hzero) hl'
  · by_cases hone : l' = 1
    · exact hothers l' c (.inr hone) hl'
    · rw [hloops l' hzero hone]
      exact fun h => by cases h

theorem ids_own_oneByOne : ∃ w, exec step init oneByOne = some w ∧
    w.database.map ClientSocketInfo.status = [false, true] ∧ w.OwnEntries := by
  have hcareful : Along step Careful init oneByOne := by
    refine along_cons rfl trivial (along_cons rfl trivial (along_cons rfl ?_ (along_cons rfl trivial
      (along_cons rfl ?_ (along_cons rfl trivial (along_cons rfl trivial trivial))))))
    · refine careful_push (by decide) (fun l' h0 h1 => ?_) (fun l' c hl' hne => ?_)
      · simp [Function.update_of_ne h0, Function.update_of_ne h1, init]
      · obtain rfl : l' = 1 := hl'.resolve_left hne
        simp
    · refine careful_push (by decide) (fun l' h0 h1 => ?_) (fun l' c hl' hne => ?_)
      · simp [Function.update_of_ne h0, Function.update_of_ne h1, init]
      · obtain rfl : l' = 0 := hl'.resolve_right hne
        simp
  exact ⟨_, rfl, rfl, ids_own oneByOne hcareful _ rfl⟩

/-- Two loops push before the first of them reads the size; its thread then leaves. -/
def twoLoops : List ServeStep :=
  [.accept 0 5, .accept 1 6, .push 0 [], .push 1 [], .start 0, .close 0]

/-- The thread of the first connection closes the second. -/
theorem ids_not_own : ¬∀ (as : List ServeStep) (w : ServeWorld),
    exec step init as = some w → w.OwnEntries := by
  intro h
  have hown := h twoLoops _ rfl
  have hbad := hown.closes (0, 1) (by decide)
  cases hbad

end ServeWorld

end CoplusLean.Server
