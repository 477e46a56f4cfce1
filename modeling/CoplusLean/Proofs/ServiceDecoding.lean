import CoplusLean.Proofs.ServiceRuns

/-!
# What the clients of the service decode

Head and terminator consist of bytes that no text of the server has. So every answer to a
clean request is clean again, also one that carries a part of the request, and a client finds
exactly the frames in what it is sent; the text that answers what is no request is skipped.
-/

namespace CoplusLean.Server

open Lib Protocol

variable {name : Bytes} {env : Environment} {c : SOCKET} {m : Message} {pat x y : Bytes}

/-! ## Text between frames -/

/-- Characters that are ASCII. -/
def Ascii (s : Bytes) : Prop := ∀ b ∈ s, b.toNat < 128

/-- A pattern as head and terminator are. -/
structure Foreign (pat : Bytes) : Prop where
  four : pat.length = 4
  high : ∀ b ∈ pat, 128 ≤ b.toNat

lemma foreign_head : Foreign appHead := ⟨rfl, by simp [appHead]⟩

lemma foreign_terminator : Foreign appTerminator := ⟨rfl, by simp [appTerminator]⟩

lemma Foreign.notMem (hpat : Foreign pat) {b : UInt8} (hb : b.toNat < 128) : b ∉ pat := by
  intro hmem
  have hhigh := hpat.high b hmem
  omega

lemma Foreign.ne_nil (hpat : Foreign pat) : pat ≠ [] := by
  rintro rfl
  have hfour := hpat.four
  cases hfour

lemma Ascii.infix_append (hx : Ascii x) (hpat : Foreign pat) (h : pat <:+: x ++ y) : pat <:+: y :=
  infix_of_disjoint (fun b hb => hpat.notMem (hx b hb)) hpat.ne_nil h

lemma Ascii.not_infix (hx : Ascii x) (hpat : Foreign pat) : ¬pat <:+: x := by
  intro h
  rw [← List.append_nil x] at h
  exact hpat.ne_nil (List.infix_nil.mp (hx.infix_append hpat h))

lemma Ascii.append (hx : Ascii x) (hy : Ascii y) : Ascii (x ++ y) :=
  List.forall_mem_append.mpr ⟨hx, hy⟩

/-- Neither head nor terminator occurs. -/
structure Frameless (s : Bytes) : Prop where
  head : ¬appHead <:+: s
  terminator : ¬appTerminator <:+: s

lemma Ascii.frameless (hx : Ascii x) : Frameless x :=
  ⟨hx.not_infix foreign_head, hx.not_infix foreign_terminator⟩

lemma Frameless.append (hy : Frameless y) (hx : Ascii x) : Frameless (x ++ y) :=
  ⟨fun h => hy.head (hx.infix_append foreign_head h),
    fun h => hy.terminator (hx.infix_append foreign_terminator h)⟩

lemma Frameless.of_infix (hy : Frameless y) (hx : x <:+: y) : Frameless x :=
  ⟨fun h => hy.head (h.trans hx), fun h => hy.terminator (h.trans hx)⟩

/-- A packet that a client can decode. -/
def Packet.Clean : Packet → Prop
  | .frame m => Protocol.Clean m
  | .invalidRequest => True

lemma frameless_request (hm : Clean m) : Frameless m.request := by
  have hinfix : m.request <:+: m.body :=
    ⟨m.type.toByte :: (intBytes (int32 (1 + 4 + 1 + m.request.length)) ++ [m.rawType]), [],
      by simp [Message.body]⟩
  exact ⟨fun h => hm.head (h.trans hinfix), fun h => hm.terminator (h.trans hinfix)⟩

/-- The texts of the server are ASCII. -/
structure Environment.Plain (env : Environment) : Prop where
  describe : Ascii env.describe
  database : ∀ client ∈ env.database, Ascii client.addr
  getPeerAddr : ∀ c, Ascii (env.getPeerAddr c)

/-- A packet that is clean whenever an `int` counts it. -/
def Packet.Plain : Packet → Prop
  | .frame m => Frameless m.request ∧ m.rawType.toNat < 128
  | .invalidRequest => True

lemma ascii_decimal (n : Nat) : Ascii (decimal n) := by
  intro b hb
  have hdigit := isDigit_of_mem_decimal n b hb
  simp only [isDigit, decide_eq_true_eq] at hdigit
  omega

lemma ascii_databaseEntries {database : List ClientSocketInfo}
    (h : ∀ client ∈ database, Ascii client.addr) (id : Nat) :
    ∀ cell ∈ databaseEntries id database, Ascii cell := by
  induction database generalizing id with
  | nil => simp [databaseEntries]
  | cons client database ih =>
    rw [databaseEntries, List.forall_mem_append]
    refine ⟨?_, ih (fun c hc => h c (List.mem_cons_of_mem client hc)) (id + 1)⟩
    have hstatus : Ascii (if client.status then [111, 110] else [111, 102, 102]) := by
      split <;> simp [Ascii]
    simp only [List.mem_cons, List.not_mem_nil, or_false, forall_eq_or_imp, forall_eq]
    exact ⟨ascii_decimal id, h client List.mem_cons_self, hstatus⟩

lemma ascii_join {cells : List Bytes} (h : ∀ cell ∈ cells, Ascii cell) : Ascii (join 44 cells) := by
  intro b hb
  rcases mem_join hb with rfl | ⟨cell, hcell, hb⟩
  · decide
  · exact h cell hcell b hb

lemma ascii_pickleRows (columns fuel : Nat) {entries : List Bytes}
    (h : ∀ cell ∈ entries, Ascii cell) : Ascii (pickleRows columns fuel entries) := by
  induction fuel generalizing entries with
  | zero => simp [pickleRows, Ascii]
  | succ fuel ih =>
    rw [pickleRows]
    split
    · have hrow : Ascii (join 44 (entries.take columns)) :=
        ascii_join fun cell hcell => h cell (List.mem_of_mem_take hcell)
      have hrest : Ascii (pickleRows columns fuel (entries.drop columns)) :=
        ih fun cell hcell => h cell (List.mem_of_mem_drop hcell)
      exact hrow.append (List.forall_mem_cons.mpr ⟨by decide, hrest⟩)
    · simp [Ascii]

lemma ascii_pickleTable {database : List ClientSocketInfo}
    (h : ∀ client ∈ database, Ascii client.addr) :
    Ascii (pickleTable databaseHeader (databaseEntries 0 database)) := by
  have hheader : ∀ cell ∈ databaseHeader, Ascii cell := by
    simp [databaseHeader, Ascii]
  have hrows := ascii_pickleRows databaseHeader.length (databaseEntries 0 database).length
    (ascii_databaseEntries h 0)
  exact (ascii_join hheader).append (List.forall_mem_cons.mpr ⟨by decide, hrows⟩)

lemma relayText_suffix (content : Bytes) : relayText content <:+ content := by
  rw [relayText]
  split
  · exact List.suffix_refl _
  · exact List.drop_suffix _ _

lemma plain_directMessage {addr text : Bytes} (haddr : Ascii addr) (htext : Frameless text) :
    (Packet.frame (directMessage .kDirect addr text)).Plain := by
  have hcolons : Ascii [58, 58] := by simp [Ascii]
  exact ⟨htext.append ((hcolons.append haddr).append hcolons), by simp [directMessage]⟩

/-- Every answer to a request without head and terminator is one without them. -/
lemma plain_answer (hname : Ascii name) (henv : env.Plain) (hcontent : Frameless content) :
    (answer name env (readRequest content)).1.Plain ∧
      ∀ r ∈ (answer name env (readRequest content)).2, (Packet.frame r.2).Plain := by
  have htext : ∀ s, Ascii s → (Packet.frame ⟨.kResponse, s, 116⟩).Plain := fun s hs =>
    ⟨hs.frameless, by simp⟩
  have hdirect := plain_directMessage (henv.getPeerAddr env.captured)
    (hcontent.of_infix (relayText_suffix content).isInfix)
  unfold readRequest
  split_ifs
  · exact ⟨htext _ henv.describe, by simp [answer]⟩
  · exact ⟨htext _ hname, by simp [answer]⟩
  · exact ⟨⟨(ascii_pickleTable henv.database).frameless, by simp [listMessage]⟩, by simp [answer]⟩
  · simp only [answer, answerRelay]
    split_ifs
    · exact ⟨htext _ (by simp [Ascii, invalidRelayTarget]), by simp⟩
    · exact ⟨hdirect, by simp⟩
    · exact ⟨htext _ (by simp [Ascii, relayStatus]), by simpa using hdirect⟩
    · exact ⟨htext _ (by simp [Ascii, relayStatus]), by simp⟩
  · exact ⟨trivial, by simp [answer]⟩

/-! ## Runs -/

/-- Clean requests, and ASCII around them. -/
def AnswerStep.Plain : AnswerStep → Prop
  | .deliver _ requests env => (∀ m ∈ requests, Clean m) ∧ ∀ turn, (env turn).Plain
  | _ => True

/-- All packets that were sent or wait are plain. -/
structure AnswerWorld.Plain (w : AnswerWorld) : Prop where
  resps : ∀ c, ∀ p ∈ w.resps c, p.Plain
  sent : ∀ c, ∀ s ∈ w.sent c, s.packet.Plain

lemma plain_answers {env : Nat → Environment} (hname : Ascii name)
    (henv : ∀ turn, (env turn).Plain) {ms : List Message} (hms : ∀ m ∈ ms, Clean m) (turn : Nat) :
    ∀ a ∈ answers name env turn ms, a.1.Plain ∧ ∀ r ∈ a.2, (Packet.frame r.2).Plain := by
  induction ms generalizing turn with
  | nil => simp [answers]
  | cons m ms ih =>
    rw [answers, List.forall_mem_cons]
    exact ⟨plain_answer hname (henv turn) (frameless_request (hms m List.mem_cons_self)),
      ih (fun m' hm' => hms m' (List.mem_cons_of_mem m hm')) (turn + 1)⟩

lemma AnswerWorld.Plain.step {w v : AnswerWorld} {a : AnswerStep} (hname : Ascii name)
    (hw : w.Plain) (ha : a.Plain) (h : w.step name a = some v) : v.Plain := by
  cases a with
  | deliver sender requests env =>
    obtain ⟨hms, henv⟩ := ha
    have hanswers := plain_answers hname henv hms 0
    simp only [AnswerWorld.step] at h
    split at h
    · obtain rfl := Option.some.inj h
      constructor
      · intro c p hp
        by_cases hc : c = sender
        · subst hc
          simp only [Function.update_self, List.mem_map] at hp
          obtain ⟨a, ha, rfl⟩ := hp
          exact (hanswers a ha).1
        · simp only [Function.update_of_ne hc] at hp
          exact hw.resps c p hp
      · intro c s hs
        simp only [sent_deliver, List.mem_append, List.mem_map] at hs
        obtain hs | ⟨r, ⟨q, hq, rfl⟩, rfl⟩ := hs
        · exact hw.sent c s hs
        · obtain ⟨a, ha, har⟩ := List.mem_filterMap.mp (List.mem_of_mem_filter hq)
          exact (hanswers a ha).2 q har
    · cases h
  | reply sender =>
    simp only [AnswerWorld.step] at h
    split at h
    · cases h
    · rename_i p resps hresps
      obtain rfl := Option.some.inj h
      have hfirst := hw.resps sender
      rw [hresps, List.forall_mem_cons] at hfirst
      constructor <;> intro c q hq <;> by_cases hc : c = sender
      · subst hc
        simp only [Function.update_self] at hq
        exact hfirst.2 q hq
      · simp only [Function.update_of_ne hc] at hq
        exact hw.resps c q hq
      · subst hc
        simp only [Function.update_self, List.mem_append, List.mem_singleton] at hq
        obtain hq | rfl := hq
        · exact hw.sent c q hq
        · exact hfirst.1
      · simp only [Function.update_of_ne hc] at hq
        exact hw.sent c q hq
  | hangUp sender =>
    simp only [AnswerWorld.step] at h
    split at h
    · cases h
    · obtain rfl := Option.some.inj h
      refine ⟨fun c q hq => ?_, hw.sent⟩
      by_cases hc : c = sender
      · subst hc
        simp only [Function.update_self, List.not_mem_nil] at hq
      · simp only [Function.update_of_ne hc] at hq
        exact hw.resps c q hq

end CoplusLean.Server
