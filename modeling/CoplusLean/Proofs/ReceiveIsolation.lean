import CoplusLean.Lib.Run
import CoplusLean.Models.Server
import CoplusLean.Proofs.ProtocolFraming

/-!
# What one connection can see of the others

The decoder has one `pending` flag and one partial message for all connections. A
connection decodes what it would decode alone as long as every change between it and the
others happens while no message is pending; without that condition the others choose the
first bytes of the next message it completes.
-/

namespace CoplusLean

open Lib

namespace Protocol.Receiver

/-- The state after some chunks. -/
def after (s : Receiver) (chunks : List Bytes) : Receiver :=
  chunks.foldl (fun s chunk => (s.receive chunk).1) s

lemma after_concat (s : Receiver) (chunks : List Bytes) (chunk : Bytes) :
    s.after (chunks ++ [chunk]) = ((s.after chunks).receive chunk).1 := by
  rw [after, List.foldl_append]
  rfl

lemma feed_concat (s : Receiver) (chunks : List Bytes) (chunk : Bytes) :
    s.feed (chunks ++ [chunk]) = s.feed chunks ++ ((s.after chunks).receive chunk).2 := by
  induction chunks generalizing s with
  | nil => simp [feed, after]
  | cons c chunks ih =>
    rw [List.cons_append, feed_cons, feed_cons, ih, List.append_assoc]
    rfl

/-- The partial message is cleared with the flag. -/
def Tidy (s : Receiver) : Prop := s.pending = false → s = init

lemma Tidy.parse {s : Receiver} (hs : s.Tidy) (line : Bytes) : (s.parse line).state.Tidy := by
  unfold Receiver.parse
  dsimp only
  split_ifs
  · exact hs
  · intro h
    cases h
  · exact fun _ => rfl
  · intro h
    cases h
  · exact hs

/-- Without a terminator nothing is decoded. -/
lemma receive_of_no_terminator {s : Receiver} {chunk : Bytes} (hline : Short chunk)
    (ht : ¬appTerminator <:+: chunk) : (s.receive chunk).2 = [] := by
  have hcount : occurrences appTerminator chunk = 0 := occurrences_eq_zero ht
  have hlen := length_receive_le (s := s) hline
  rw [hcount] at hlen
  exact List.length_eq_zero_iff.mp (Nat.le_zero.mp hlen)

/-- The first message that a pending receiver decodes begins with its partial message. -/
lemma feed_pending {chunks : List Bytes} (hchunks : ∀ chunk ∈ chunks, chunk ≠ [] ∧ Short chunk)
    (hterm : ∃ chunk ∈ chunks, appTerminator <:+: chunk) :
    ∃ x, ∀ p, ((⟨true, p⟩ : Receiver).feed chunks).head? = some (p ++ x) := by
  induction chunks with
  | nil => simp at hterm
  | cons chunk chunks ih =>
    obtain ⟨hne, hshort⟩ := hchunks chunk List.mem_cons_self
    by_cases ht : appTerminator <:+: chunk
    · obtain ⟨t, hfind⟩ := exists_find_of_isInfix ht
      refine ⟨chunk.take t, fun p => ?_⟩
      have hparse := parse_pending_terminator (s := ⟨true, p⟩) hshort rfl hfind
      rw [feed_cons, receive_of_nonneg hshort hne (by rw [hparse]; simp only; omega), hparse]
      rfl
    · obtain ⟨x, hx⟩ := ih (fun chunk h => hchunks chunk (List.mem_cons_of_mem _ h)) (by
        obtain ⟨chunk', hmem, hinf⟩ := hterm
        rcases List.mem_cons.mp hmem with rfl | hmem
        · exact absurd hinf ht
        · exact ⟨chunk', hmem, hinf⟩)
      refine ⟨chunk ++ x, fun p => ?_⟩
      rw [feed_cons, receive_middle hne ht, List.nil_append, hx, List.append_assoc]

lemma Tidy.receive {s : Receiver} (hs : s.Tidy) (chunk : Bytes) : (s.receive chunk).1.Tidy := by
  unfold Receiver.receive
  generalize chunk.length = fuel
  induction fuel generalizing s chunk with
  | zero => exact hs
  | succ fuel ih =>
    simp only [parseLoop]
    split_ifs
    · exact hs
    · exact hs.parse chunk
    · exact ih (hs.parse chunk) _

end Protocol.Receiver

namespace Server.ReceivePath

open Protocol

variable {w w' : ReceivePath} {c : Nat} {d : Delivery}

lemma step_eq (h : w.step d = some w') :
    w' = ⟨(w.receiver.receive d.chunk).1, w.deliveries ++ [d],
      w.decoded ++ (w.receiver.receive d.chunk).2.map (d.sender, ·)⟩ :=
  (Option.some.inj h).symm

lemma last_step (h : w.step d = some w') : w'.last = some d.sender := by
  rw [step_eq h, last, List.getLast?_concat, Option.map_some]

lemma chunksOf_step (h : w.step d = some w') :
    w'.chunksOf c = if d.sender = c then w.chunksOf c ++ [d.chunk] else w.chunksOf c := by
  rw [step_eq h]
  simp only [chunksOf, List.filter_append, List.map_append]
  by_cases hc : d.sender = c
  · simp [hc]
  · simp [hc]

lemma decodedOf_step (h : w.step d = some w') :
    w'.decodedOf c =
      if d.sender = c then w.decodedOf c ++ (w.receiver.receive d.chunk).2
      else w.decodedOf c := by
  rw [step_eq h]
  simp only [decodedOf, List.filter_append, List.map_append]
  by_cases hc : d.sender = c
  · simp [hc, List.filter_map, Function.comp_def]
  · simp [hc]

/-- While a message is pending, the turn does not pass between `c` and the others. -/
def Calm (c : Nat) (w : ReceivePath) (d : Delivery) : Prop :=
  w.receiver.pending = true → (d.sender = c ↔ w.last = some c)

instance decidableCalm : Decidable (Calm c w d) := inferInstanceAs (Decidable (_ → _))

/-- Connection `c` has decoded what it would have decoded alone, and the shared decoder is
in the state it would be in, or both are at rest. -/
structure Isolated (c : Nat) (w : ReceivePath) : Prop where
  decoded : w.decodedOf c = Receiver.init.feed (w.chunksOf c)
  mine : w.last = some c → w.receiver = Receiver.init.after (w.chunksOf c)
  other : w.last ≠ some c → Receiver.init.after (w.chunksOf c) = Receiver.init
  tidy : w.receiver.Tidy

lemma isolated_init (c : Nat) : Isolated c init :=
  ⟨rfl, fun _ => rfl, fun _ => rfl, fun _ => rfl⟩

lemma Isolated.step_mine (hw : Isolated c w) (hcalm : Calm c w d) (hd : d.sender = c)
    (h : w.step d = some w') : Isolated c w' := by
  have hstate : w.receiver = Receiver.init.after (w.chunksOf c) := by
    by_cases hlast : w.last = some c
    · exact hw.mine hlast
    · have hrest : w.receiver.pending = false := by
        rw [Bool.eq_false_iff]
        exact fun hpending => hlast ((hcalm hpending).mp hd)
      rw [hw.other hlast]
      exact hw.tidy hrest
  have hchunks : w'.chunksOf c = w.chunksOf c ++ [d.chunk] := by
    rw [chunksOf_step h, if_pos hd]
  have hafter : w'.receiver = Receiver.init.after (w'.chunksOf c) := by
    rw [hchunks, Receiver.after_concat, ← hstate, step_eq h]
  refine ⟨?_, fun _ => hafter, fun hlast => ?_, ?_⟩
  · rw [decodedOf_step h, if_pos hd, hchunks, Receiver.feed_concat, ← hstate, hw.decoded]
  · rw [last_step h, hd] at hlast
    exact absurd rfl hlast
  · rw [step_eq h]
    exact hw.tidy.receive d.chunk

lemma Isolated.step_other (hw : Isolated c w) (hcalm : Calm c w d) (hd : d.sender ≠ c)
    (h : w.step d = some w') : Isolated c w' := by
  have hrest : Receiver.init.after (w.chunksOf c) = Receiver.init := by
    by_cases hlast : w.last = some c
    · have hpending : w.receiver.pending = false := by
        rw [Bool.eq_false_iff]
        exact fun hpending => hd ((hcalm hpending).mpr hlast)
      rw [← hw.mine hlast]
      exact hw.tidy hpending
    · exact hw.other hlast
  have hchunks : w'.chunksOf c = w.chunksOf c := by rw [chunksOf_step h, if_neg hd]
  refine ⟨?_, fun hlast => ?_, fun _ => ?_, ?_⟩
  · rw [decodedOf_step h, if_neg hd, hchunks, hw.decoded]
  · rw [last_step h] at hlast
    exact absurd (Option.some.inj hlast) hd
  · rw [hchunks, hrest]
  · rw [step_eq h]
    exact hw.tidy.receive d.chunk

lemma Isolated.step (hw : Isolated c w) (hcalm : Calm c w d) (h : w.step d = some w') :
    Isolated c w' := by
  by_cases hd : d.sender = c
  · exact hw.step_mine hcalm hd h
  · exact hw.step_other hcalm hd h

/-- Two runs with the same chunks of connection `c` decode the same messages from them when
in both the turn passes between `c` and the other connections only while no message is
pending. -/
theorem decoded_of_calm_runs (c : Nat) (run₁ run₂ : List Delivery) (w₁ w₂ : ReceivePath)
    (h₁ : exec step init run₁ = some w₁) (h₂ : exec step init run₂ = some w₂)
    (hcalm₁ : Along step (Calm c) init run₁) (hcalm₂ : Along step (Calm c) init run₂)
    (hsame : w₁.chunksOf c = w₂.chunksOf c) : w₁.decodedOf c = w₂.decodedOf c := by
  have hisolated : ∀ {run : List Delivery} {w : ReceivePath}, exec step init run = some w →
      Along step (Calm c) init run → Isolated c w := fun h hcalm =>
    exec_invariant (fun _ _ _ hw hgood hstep => hw.step hgood hstep) (isolated_init c) hcalm h
  rw [(hisolated h₁ hcalm₁).decoded, (hisolated h₂ hcalm₂).decoded, hsame]

/-- A call of the lambda with a whole frame. -/
def timeDelivery (sender : Nat) : Delivery :=
  ⟨sender, pickleMessage timeRequest, by decide⟩

/-- A call of the lambda with the head of a frame. -/
def headDelivery (sender : Nat) : Delivery := ⟨sender, appHead, by decide⟩

theorem decoded_of_calm_runs_time :
    ∃ w₁ w₂, exec step init [timeDelivery 0] = some w₁ ∧
      exec step init [timeDelivery 1, timeDelivery 0] = some w₂ ∧
        w₁.decodedOf 0 = w₂.decodedOf 0 :=
  ⟨_, _, rfl, rfl, decoded_of_calm_runs 0 [timeDelivery 0] [timeDelivery 1, timeDelivery 0] _ _
    rfl rfl (by decide) (by decide) (by decide)⟩

/-- The other connection delivers a head before the frame arrives. -/
theorem decoded_depends_on_other_connection :
    ¬∀ (c : Nat) (run₁ run₂ : List Delivery) (w₁ w₂ : ReceivePath),
      exec step init run₁ = some w₁ → exec step init run₂ = some w₂ →
        w₁.chunksOf c = w₂.chunksOf c → w₁.decodedOf c = w₂.decodedOf c := by
  intro h
  have hbad := h 0 [timeDelivery 0] [headDelivery 1, timeDelivery 0] _ _ rfl rfl (by decide)
  exact absurd hbad (by decide)

/-! ## Runs without the condition -/

lemma decodedOf_of_no_terminator {run : List Delivery} (hrun : exec step init run = some w)
    (hterm : ∀ chunk ∈ w.chunksOf c, ¬appTerminator <:+: chunk) : w.decodedOf c = [] := by
  refine exec_invariant_always (P := fun w => (∀ chunk ∈ w.chunksOf c,
    ¬appTerminator <:+: chunk) → w.decodedOf c = []) ?_ (fun _ => rfl) hrun hterm
  intro u d u' hu hstep hterm
  rw [chunksOf_step hstep] at hterm
  rw [decodedOf_step hstep]
  by_cases hd : d.sender = c
  · rw [if_pos hd] at hterm ⊢
    have hshort : Receiver.Short d.chunk :=
      lt_of_le_of_lt d.received.2 (show kDefaultBufferLen < 2147483648 by decide)
    rw [hu fun chunk h => hterm chunk (List.mem_append_left _ h),
      Receiver.receive_of_no_terminator hshort
        (hterm d.chunk (List.mem_append_right _ (List.mem_singleton_self _))), List.append_nil]
  · rw [if_neg hd] at hterm ⊢
    exact hu hterm

/-- Connection `c` delivers the chunks one after the other. -/
lemma exec_chunks (c : Nat) (w : ReceivePath) {chunks : List Bytes}
    (hchunks : ∀ chunk ∈ chunks, 0 < chunk.length ∧ chunk.length ≤ kDefaultBufferLen) :
    ∃ run w', exec step w run = some w' ∧ w'.chunksOf c = w.chunksOf c ++ chunks ∧
      w'.decodedOf c = w.decodedOf c ++ w.receiver.feed chunks := by
  induction chunks generalizing w with
  | nil => exact ⟨[], w, rfl, (List.append_nil _).symm, (List.append_nil _).symm⟩
  | cons chunk chunks ih =>
    let d : Delivery := ⟨c, chunk, hchunks chunk List.mem_cons_self⟩
    obtain ⟨u, hu⟩ : ∃ u, w.step d = some u := ⟨_, rfl⟩
    obtain ⟨run, w', hrun, hsent, hdecoded⟩ :=
      ih u fun chunk h => hchunks chunk (List.mem_cons_of_mem _ h)
    refine ⟨d :: run, w', ?_, ?_, ?_⟩
    · rw [exec_cons, hu, Option.bind_some, hrun]
    · rw [hsent, chunksOf_step hu, if_pos rfl, List.append_assoc]
      rfl
    · rw [hdecoded, decodedOf_step hu, if_pos rfl, step_eq hu, Receiver.feed_cons,
        List.append_assoc]

/-- Another connection brings the decoder into any of two different pending states. -/
lemma exec_heads (c : Nat) :
    ∀ p ∈ [[], [0]], ∃ run w, exec step init run = some w ∧ w.receiver = ⟨true, p⟩ ∧
      w.chunksOf c = [] ∧ w.decodedOf c = [] := by
  have hhead : Receiver.init.receive appHead = (⟨true, []⟩, []) := by decide
  have hmore : (⟨true, []⟩ : Receiver).receive [0] = (⟨true, [0]⟩, []) := by decide
  intro p hp
  rcases List.mem_pair.mp hp with rfl | rfl
  · refine ⟨[headDelivery (c + 1)], _, rfl, ?_⟩
    simp [chunksOf, decodedOf, init, headDelivery, hhead]
  · refine ⟨[headDelivery (c + 1), ⟨c + 1, [0], by decide⟩], _, rfl, ?_⟩
    simp [chunksOf, decodedOf, init, headDelivery, hhead, hmore]

/-- The messages decoded from the chunks of one connection depend on these chunks alone, in
all runs, only if none of them ends a message. -/
theorem decoded_determined_iff (c : Nat) (chunks : List Bytes)
    (hchunks : ∀ chunk ∈ chunks, 0 < chunk.length ∧ chunk.length ≤ kDefaultBufferLen) :
    (∀ (run₁ run₂ : List Delivery) (w₁ w₂ : ReceivePath), exec step init run₁ = some w₁ →
      exec step init run₂ = some w₂ → w₁.chunksOf c = chunks → w₂.chunksOf c = chunks →
        w₁.decodedOf c = w₂.decodedOf c) ↔
      ∀ chunk ∈ chunks, ¬appTerminator <:+: chunk := by
  constructor
  · intro h
    by_contra hterm
    push Not at hterm
    have hbuffer : kDefaultBufferLen < 2147483648 := by decide
    obtain ⟨x, hx⟩ := Receiver.feed_pending
      (fun chunk hmem => ⟨List.ne_nil_of_length_pos (hchunks chunk hmem).1,
        (hchunks chunk hmem).2.trans_lt hbuffer⟩) hterm
    obtain ⟨run₁, u₁, hrun₁, hpending₁, hsent₁, hnone₁⟩ := exec_heads c [] (by simp)
    obtain ⟨run₂, u₂, hrun₂, hpending₂, hsent₂, hnone₂⟩ := exec_heads c [0] (by simp)
    obtain ⟨run₁', w₁, hrun₁', hchunks₁, hdecoded₁⟩ := exec_chunks c u₁ hchunks
    obtain ⟨run₂', w₂, hrun₂', hchunks₂, hdecoded₂⟩ := exec_chunks c u₂ hchunks
    have hsame := h (run₁ ++ run₁') (run₂ ++ run₂') w₁ w₂
      (by rw [exec_append, hrun₁, Option.bind_some, hrun₁'])
      (by rw [exec_append, hrun₂, Option.bind_some, hrun₂'])
      (by rw [hchunks₁, hsent₁, List.nil_append]) (by rw [hchunks₂, hsent₂, List.nil_append])
    rw [hdecoded₁, hdecoded₂, hnone₁, hnone₂, List.nil_append, List.nil_append, hpending₁,
      hpending₂] at hsame
    have hhead := congrArg List.head? hsame
    rw [hx, hx] at hhead
    simpa using congrArg List.length (Option.some.inj hhead)
  · intro hterm run₁ run₂ w₁ w₂ h₁ h₂ hw₁ hw₂
    rw [decodedOf_of_no_terminator h₁ (by rw [hw₁]; exact hterm),
      decodedOf_of_no_terminator h₂ (by rw [hw₂]; exact hterm)]

end Server.ReceivePath

end CoplusLean
