import CoplusLean.Models.Protocol

/-!
# Frames cut into chunks

`parse` looks for head and terminator in what one `recv` delivered, and keeps what follows
a head without its terminator as `pendingStr`, four bytes short when there are that many. A
frame survives a cut only if its first piece is the head with at most three more bytes and
its terminator arrives in one piece.
-/

namespace CoplusLean.Protocol

open Lib

/-- Neither pattern occurs in the body of the message. -/
structure Clean (m : Message) : Prop where
  head : ¬appHead <:+: m.body
  terminator : ¬appTerminator <:+: m.body

/-- The pieces in which the next `n` bytes arrive, and the chunks that remain. -/
def pieces : Nat → List Bytes → List Bytes × List Bytes
  | _, [] => ([], [])
  | n, c :: cs =>
    if c.length < n then
      let rest := pieces (n - c.length) cs
      (c :: rest.1, rest.2)
    else ([c.take n], if c.length = n then cs else c.drop n :: cs)

/-- A frame arrives in one piece, or first its head with at most three more bytes and last a
piece with the whole terminator. -/
def WellCut : List Bytes → Prop
  | [] => True
  | [_] => True
  | first :: rest => 4 ≤ first.length ∧ first.length < 8 ∧ 4 ≤ (rest.getLastD []).length

/-- Every frame of the stream is well cut. -/
def AllWellCut : List Message → List Bytes → Prop
  | [], _ => True
  | m :: ms, chunks =>
    WellCut (pieces (pickleMessage m).length chunks).1 ∧
      AllWellCut ms (pieces (pickleMessage m).length chunks).2

instance decidableWellCut : DecidablePred WellCut
  | [] => isTrue trivial
  | [_] => isTrue trivial
  | _ :: _ :: _ => inferInstanceAs (Decidable (_ ∧ _ ∧ _))

instance decidableAllWellCut : ∀ ms chunks, Decidable (AllWellCut ms chunks)
  | [], _ => isTrue trivial
  | m :: ms, chunks =>
    have := decidableAllWellCut ms (pieces (pickleMessage m).length chunks).2
    inferInstanceAs (Decidable (_ ∧ _))

/-! ## The patterns in a stream of frames -/

section Patterns

variable {m : Message} {x y : Bytes}

lemma body_eq (m : Message) : ∃ rest, m.body = m.type.toByte :: rest := ⟨_, rfl⟩

lemma length_body (m : Message) : m.body.length = m.request.length + 6 := by
  simp [Message.body, intBytes]

lemma length_pickleMessage (m : Message) : (pickleMessage m).length = m.body.length + 8 := by
  simp only [pickleMessage, List.length_append, appHead, appTerminator, List.length_cons,
    List.length_nil]
  omega

lemma noStart_terminator (hm : ¬appTerminator <:+: m.body) :
    NoStart appTerminator (appHead ++ m.body) (appTerminator ++ y) :=
  noStart_append.mpr ⟨noStart_of_notMem (by decide), noStart_of_absent (by decide) hm⟩

lemma find_terminator (hm : ¬appTerminator <:+: m.body) (hx : x <:+ appHead ++ m.body) :
    find appTerminator (x ++ appTerminator ++ y) = some x.length := by
  rw [List.append_assoc, find_append (noStart_of_suffix hx (noStart_terminator hm)),
    find_of_isPrefix (List.prefix_append _ _)]
  simp

/-- No head starts in what is left of a frame without the first byte of its head. -/
lemma noStart_head (hm : Clean m) (hx : x <:+ [0xC0, 0xAD, 0xDE] ++ m.body ++ appTerminator)
    (hy : ¬appHead <+: 0xDE :: y) : NoStart appHead x y := by
  obtain ⟨rest, hbody⟩ := body_eq m
  have htype : ¬appHead <+: 0xDE :: (m.body ++ (appTerminator ++ y)) := by
    rw [hbody]
    cases m.type <;> simp [appHead, MessageType.toByte]
  refine noStart_of_suffix hx ?_
  have hfront : NoStart appHead [0xC0, 0xAD, 0xDE] (m.body ++ appTerminator ++ y) := by
    refine ⟨by simp [appHead], by simp [appHead], ?_, trivial⟩
    simpa using htype
  have hback : NoStart appHead appTerminator y :=
    ⟨by simp [appHead], by simp [appHead], by simp [appHead], hy, trivial⟩
  have hmiddle : NoStart appHead m.body (appTerminator ++ y) :=
    noStart_of_absent (by decide) hm.head
  rw [List.append_assoc, noStart_append, noStart_append]
  exact ⟨hfront, hmiddle, hback⟩

lemma noStart_terminator_rest (hx : x <:+ [0xBE, 0xAD, 0xDE]) : NoStart appTerminator x y := by
  refine noStart_of_suffix hx ⟨?_, ?_, ?_, trivial⟩ <;> simp [appTerminator]

lemma occurrences_pickleMessage (hm : Clean m) :
    occurrences appTerminator (pickleMessage m ++ y) = occurrences appTerminator y + 1 := by
  rw [pickleMessage, List.append_assoc, occurrences_append (noStart_terminator hm.terminator)]
  have htail : NoStart appTerminator [0xBE, 0xAD, 0xDE] y :=
    noStart_terminator_rest (List.suffix_refl _)
  have hsplit : appTerminator ++ y = 0xEF :: ([0xBE, 0xAD, 0xDE] ++ y) := rfl
  rw [hsplit, occurrences, if_pos ⟨y, rfl⟩, occurrences_append htail]
  omega

lemma occurrences_stream {ms : List Message} (hms : ∀ m ∈ ms, Clean m) :
    occurrences appTerminator (ms.flatMap pickleMessage) = ms.length := by
  induction ms with
  | nil => rfl
  | cons m ms ih =>
    rw [List.flatMap_cons, occurrences_pickleMessage (hms m List.mem_cons_self),
      ih fun m' h => hms m' (List.mem_cons_of_mem m h), List.length_cons]

end Patterns

/-! ## One call of `parse` -/

namespace Receiver

variable {s : Receiver} {line : Bytes} {h t : Nat}

/-- A chunk is counted by an `int`. -/
def Short (line : Bytes) : Prop := line.length < 2147483648

lemma short_drop (hline : Short line) (k : Nat) : Short (line.drop k) := by
  unfold Short at *
  rw [List.length_drop]
  omega

lemma find_lt {pat : Bytes} {k : Nat} (h : find pat line = some k) :
    k + pat.length ≤ line.length := by
  obtain ⟨u, v, rfl, rfl⟩ := find_eq_some h
  simp only [List.length_append]
  omega

lemma findInt_of_some (hline : Short line) {pat : Bytes} {k : Nat} (h : find pat line = some k) :
    findInt line pat = k := by
  have hlt := find_lt h
  unfold Short at hline
  rw [findInt, h]
  exact int32_of_lt (by omega) (by omega)

lemma findInt_of_none {pat : Bytes} (h : find pat line = none) : findInt line pat = -1 := by
  rw [findInt, h]

lemma int32_delta (hline : Short line) (ht : find appTerminator line = some t) :
    int32 ((t : Int) + 4) = t + 4 := by
  have hlt : t + 4 ≤ line.length := find_lt ht
  unfold Short at hline
  exact int32_of_lt (by omega) (by omega)

lemma parse_head_terminator (hline : Short line) (hs : s.pending = false)
    (hh : find appHead line = some h) (ht : find appTerminator line = some t) :
    s.parse line = ⟨s, some (substr line (h + 4) (t - h - 4)), t + 4⟩ := by
  have hh0 : (h : Int) ≠ -1 := by omega
  have ht0 : (t : Int) ≠ -1 := by omega
  simp [parse, findInt_of_some hline hh, findInt_of_some hline ht, hs, hh0, ht0,
    int32_delta hline ht]

lemma parse_head (hline : Short line) (hs : s.pending = false)
    (hh : find appHead line = some h) (ht : find appTerminator line = none) :
    s.parse line = ⟨⟨true, substr line (h + 4) (line.length - 4 - h - 4)⟩, none, -1⟩ := by
  have hh0 : (h : Int) ≠ -1 := by omega
  simp [parse, findInt_of_some hline hh, findInt_of_none ht, hs, hh0]

lemma parse_terminator (hline : Short line) (hs : s.pending = false)
    (hh : find appHead line = none) (ht : find appTerminator line = some t) :
    s.parse line = ⟨s, none, t + 4⟩ := by
  simp [parse, findInt_of_some hline ht, findInt_of_none hh, hs, int32_delta hline ht]

lemma parse_neither (hs : s.pending = false) (hh : find appHead line = none)
    (ht : find appTerminator line = none) : s.parse line = ⟨s, none, 3⟩ := by
  simp [parse, findInt_of_none hh, findInt_of_none ht, hs, int32]

lemma parse_pending_terminator (hline : Short line) (hs : s.pending = true)
    (ht : find appTerminator line = some t) :
    s.parse line = ⟨init, some (s.pendingStr ++ line.take t), t + 4⟩ := by
  have hlt : t + 4 ≤ line.length := find_lt ht
  have hsub : substr line 0 t = line.take t := by
    unfold Short at hline
    rw [substr, sizeT_of_nonneg (by omega) (by omega), sizeT_of_nonneg (by omega) (by omega)]
    simp
  simp only [parse, findInt_of_some hline ht, hs, hsub]
  rw [if_neg (by simp), if_pos trivial, if_pos (by omega), int32_delta hline ht]
  rfl

lemma parse_pending (hs : s.pending = true) (ht : find appTerminator line = none) :
    s.parse line = ⟨⟨true, s.pendingStr ++ line⟩, none, -1⟩ := by
  simp [parse, findInt_of_none ht, hs]

/-- What a call of `parse` can do as far as the terminators are concerned: it decodes
nothing, or it decodes one message and goes past a terminator. -/
lemma parse_cases (hline : Short line) (s : Receiver) :
    ((s.parse line).delta < 0 ∨ 3 ≤ (s.parse line).delta) ∧
      ((s.parse line).decoded = none ∨ ∃ t, find appTerminator line = some t ∧
        (s.parse line).delta = t + 4) := by
  cases hs : s.pending with
  | true =>
    cases ht : find appTerminator line with
    | none => rw [parse_pending hs ht]; simp
    | some t =>
      rw [parse_pending_terminator hline hs ht]
      exact ⟨Or.inr (by simp only; omega), Or.inr ⟨t, rfl, rfl⟩⟩
  | false =>
    cases hh : find appHead line with
    | none =>
      cases ht : find appTerminator line with
      | none => rw [parse_neither hs hh ht]; simp
      | some t =>
        rw [parse_terminator hline hs hh ht]
        exact ⟨Or.inr (by simp only; omega), Or.inl rfl⟩
    | some h =>
      cases ht : find appTerminator line with
      | none => rw [parse_head hline hs hh ht]; simp
      | some t =>
        rw [parse_head_terminator hline hs hh ht]
        exact ⟨Or.inr (by simp only; omega), Or.inr ⟨t, rfl, rfl⟩⟩

/-! ## The loop over one chunk -/

lemma parseLoop_fuel (hline : Short line) {fuel : Nat} (hfuel : line.length ≤ fuel) :
    parseLoop fuel s line = parseLoop line.length s line := by
  induction fuel using Nat.strongRecOn generalizing s line with
  | ind fuel ih =>
    cases fuel with
    | zero =>
      obtain rfl : line = [] := List.length_eq_zero_iff.mp (by omega)
      rfl
    | succ fuel =>
      cases line with
      | nil => rfl
      | cons a rest =>
        have hdrop : Short ((a :: rest).drop (s.parse (a :: rest)).delta.toNat) :=
          short_drop hline _
        simp only [parseLoop, List.length_cons, reduceCtorEq, if_false]
        by_cases hneg : (s.parse (a :: rest)).delta < 0
        · rw [if_pos hneg, if_pos hneg]
        · have hpos : 3 ≤ (s.parse (a :: rest)).delta :=
            (parse_cases hline s).1.resolve_left hneg
          have hlen : ((a :: rest).drop (s.parse (a :: rest)).delta.toNat).length ≤
              rest.length := by
            rw [List.length_drop, List.length_cons]
            omega
          simp only [List.length_cons] at hfuel
          rw [if_neg hneg, if_neg hneg, ih fuel (by omega) hdrop (by omega)]
          by_cases heq : rest.length = fuel
          · rw [heq, ih fuel (by omega) hdrop (by omega)]
          · rw [ih rest.length (by omega) hdrop hlen]

/-- The loop stops where `parse` leaves a message pending, and else goes on behind what it
consumed. -/
lemma receive_of_neg (hne : line ≠ []) (hneg : (s.parse line).delta < 0) :
    s.receive line = ((s.parse line).state, (s.parse line).decoded.toList) := by
  obtain ⟨a, rest, rfl⟩ := List.exists_cons_of_ne_nil hne
  simp only [receive, List.length_cons, parseLoop, reduceCtorEq, if_false, if_pos hneg]

lemma receive_of_nonneg (hline : Short line) (hne : line ≠ [])
    (hpos : 0 ≤ (s.parse line).delta) :
    s.receive line =
      (((s.parse line).state.receive (line.drop (s.parse line).delta.toNat)).1,
        (s.parse line).decoded.toList ++
          ((s.parse line).state.receive (line.drop (s.parse line).delta.toNat)).2) := by
  have hdrop := short_drop hline (s.parse line).delta.toNat
  have hthree := (parse_cases hline s).1.resolve_left (by omega)
  obtain ⟨a, rest, rfl⟩ := List.exists_cons_of_ne_nil hne
  have hlen : ((a :: rest).drop (s.parse (a :: rest)).delta.toNat).length ≤ rest.length := by
    rw [List.length_drop, List.length_cons]
    omega
  simp only [receive, List.length_cons, parseLoop, reduceCtorEq, if_false]
  rw [if_neg (by omega), parseLoop_fuel hdrop hlen]

/-- A chunk with neither pattern is skipped in steps of three bytes. -/
lemma receive_of_neither (hline : Short line) (hh : ¬appHead <:+: line)
    (ht : ¬appTerminator <:+: line) : init.receive line = (init, []) := by
  induction hlen : line.length using Nat.strongRecOn generalizing line with
  | ind n ih =>
    cases line with
    | nil => rfl
    | cons a rest =>
      have hparse := parse_neither (s := init) rfl (find_eq_none (by decide) hh)
        (find_eq_none (by decide) ht)
      have hsub : (a :: rest).drop 3 <:+: a :: rest := (List.drop_suffix 3 _).isInfix
      rw [receive_of_nonneg hline (by simp) (by rw [hparse]; decide), hparse]
      have hrest := ih ((a :: rest).drop 3).length
        (by rw [← hlen, List.length_drop, List.length_cons]; omega) (short_drop hline 3)
        (fun h => hh (h.trans hsub)) (fun h => ht (h.trans hsub)) rfl
      have hto : (3 : Int).toNat = 3 := rfl
      rw [hto, hrest]
      rfl

@[simp] lemma receive_nil : s.receive [] = (s, []) := rfl

/-- Each decoded message has used up a terminator of the chunk. -/
lemma length_receive_le (hline : Short line) :
    (s.receive line).2.length ≤ occurrences appTerminator line := by
  unfold receive
  generalize line.length = fuel
  induction fuel generalizing s line with
  | zero => simp [parseLoop]
  | succ fuel ih =>
    simp only [parseLoop]
    split
    · simp
    · obtain ⟨-, hdecoded⟩ := parse_cases hline s
      have hrest := ih (s := (s.parse line).state)
        (short_drop hline (s.parse line).delta.toNat)
      have hdrop := occurrences_drop_le appTerminator line (s.parse line).delta.toNat
      rcases hdecoded with hnone | ⟨t, ht, hdelta⟩
      · rw [hnone]
        split
        · simp
        · simp only [Option.toList_none, List.nil_append]
          omega
      · have hpast := occurrences_past_find (by decide) ht
        have hone : (s.parse line).decoded.toList.length ≤ 1 := by
          cases (s.parse line).decoded <;> simp
        have hto : (s.parse line).delta.toNat = t + appTerminator.length := by
          rw [hdelta]
          simp only [appTerminator, List.length_cons, List.length_nil]
          omega
        rw [hto] at hrest ⊢
        split
        · simp only
          omega
        · simp only [List.length_append]
          omega

/-! ## Feeding the pieces of one frame -/

section Pieces

variable {m : Message} {x y acc : Bytes} {chunks : List Bytes}

lemma substr_of_nonneg (hline : Short line) {pos count : Nat} (hpos : pos ≤ line.length)
    (hcount : count ≤ line.length) :
    substr line pos count = (line.drop pos).take count := by
  unfold Short at hline
  rw [substr, sizeT_of_nonneg (by omega) (by omega), sizeT_of_nonneg (by omega) (by omega)]
  rfl

lemma substr_of_neg (hline : Short line) {pos : Nat} (hpos : pos ≤ line.length) {count : Int}
    (hneg : count < 0) (hcount : -16 ≤ count) : substr line pos count = line.drop pos := by
  have hlarge := sizeT_of_neg hneg (by omega)
  unfold Short at hline
  have hsize : sizeT pos = pos := sizeT_of_nonneg (by omega) (by omega)
  rw [substr, hsize, List.take_of_length_le]
  rw [List.length_drop]
  omega

lemma find_head (m : Message) (y : Bytes) : find appHead (pickleMessage m ++ y) = some 0 := by
  apply find_of_isPrefix
  exact ⟨m.body ++ appTerminator ++ y, by simp [pickleMessage]⟩

/-- A frame at the front of a line is decoded as a whole. -/
lemma parse_frame (hs : s.pending = false) (hm : ¬appTerminator <:+: m.body)
    (hline : Short (pickleMessage m ++ y)) :
    s.parse (pickleMessage m ++ y) = ⟨s, some m.body, (pickleMessage m).length⟩ := by
  have hlen := length_pickleMessage m
  have ht : find appTerminator (pickleMessage m ++ y) = some (m.body.length + 4) := by
    rw [pickleMessage, find_terminator hm (List.suffix_refl _)]
    simp [appHead]
  have hbody : substr (pickleMessage m ++ y) (((0 : Nat) : Int) + 4)
      (((m.body.length + 4 : Nat) : Int) - ((0 : Nat) : Int) - 4) = m.body := by
    have hcast : (((m.body.length + 4 : Nat) : Int) - ((0 : Nat) : Int) - 4) =
        (m.body.length : Nat) := by omega
    have hfour : (((0 : Nat) : Int) + 4) = ((4 : Nat) : Int) := rfl
    rw [hcast, hfour, substr_of_nonneg hline]
    · simp [pickleMessage, appHead]
    · simp only [List.length_append]
      omega
    · simp only [List.length_append]
      omega
  rw [parse_head_terminator hline hs (find_head m y) ht, hbody, hlen]
  congr 1

lemma receive_frame (hm : Clean m) (hline : Short (pickleMessage m ++ y)) :
    init.receive (pickleMessage m ++ y) =
      ((init.receive y).1, m.body :: (init.receive y).2) := by
  have hparse := parse_frame (s := init) rfl hm.terminator hline
  rw [receive_of_nonneg hline (by simp [pickleMessage, appHead])
    (by rw [hparse]; exact Int.natCast_nonneg _), hparse]
  simp only [Int.toNat_natCast, List.drop_left, Option.toList_some, List.singleton_append]

/-- The rest of a pending message with its terminator. -/
lemma receive_end (hm : Clean m) (hx : x <:+ m.body) (hline : Short (x ++ appTerminator ++ y)) :
    (⟨true, acc⟩ : Receiver).receive (x ++ appTerminator ++ y) =
      ((init.receive y).1, (acc ++ x) :: (init.receive y).2) := by
  have ht := find_terminator (y := y) hm.terminator (hx.trans (List.suffix_append appHead m.body))
  have hparse := parse_pending_terminator (s := ⟨true, acc⟩) hline rfl ht
  have hdrop : (x ++ appTerminator ++ y).drop ((x.length : Int) + 4).toNat = y := by
    have hto : ((x.length : Int) + 4).toNat = (x ++ appTerminator).length := by
      simp [appTerminator]
      omega
    rw [hto, List.drop_left]
  rw [receive_of_nonneg hline (by simp [appTerminator]) (by rw [hparse]; simp only; omega), hparse]
  simp only [hdrop, Option.toList_some, List.singleton_append]
  simp

lemma receive_middle (hne : line ≠ []) (ht : ¬appTerminator <:+: line) :
    (⟨true, acc⟩ : Receiver).receive line = (⟨true, acc ++ line⟩, []) := by
  have hparse := parse_pending (s := ⟨true, acc⟩) rfl (find_eq_none (by decide) ht)
  rw [receive_of_neg hne (by simp [hparse]), hparse]
  rfl

/-- What is kept of a first piece: its last four bytes are lost when there are that many
behind the head. -/
def kept (line : Bytes) : Bytes :=
  if line.length < 8 then line.drop 4 else (line.drop 4).take (line.length - 8)

lemma receive_start (hline : Short line) (hh : appHead <+: line)
    (ht : ¬appTerminator <:+: line) : init.receive line = (⟨true, kept line⟩, []) := by
  have hlen : 4 ≤ line.length := hh.length_le
  have hparse := parse_head (s := init) hline rfl (find_of_isPrefix hh)
    (find_eq_none (by decide) ht)
  have hkept : substr line (((0 : Nat) : Int) + 4)
      ((line.length : Int) - 4 - ((0 : Nat) : Int) - 4) = kept line := by
    have hfour : (((0 : Nat) : Int) + 4) = ((4 : Nat) : Int) := rfl
    rw [hfour, kept]
    split
    case isTrue hlt => exact substr_of_neg hline hlen (by omega) (by omega)
    case isFalse hge =>
      have hcast : ((line.length : Int) - 4 - ((0 : Nat) : Int) - 4) =
          ((line.length - 8 : Nat) : Int) := by omega
      rw [hcast, substr_of_nonneg hline hlen (by omega)]
  rw [hkept] at hparse
  rw [receive_of_neg (by rintro rfl; simp at hlen) (by simp [hparse]), hparse]
  rfl

@[simp] lemma feed_nil_cons : s.feed ([] :: chunks) = s.feed chunks := rfl

lemma feed_cons : s.feed (line :: chunks) =
    (s.receive line).2 ++ (s.receive line).1.feed chunks := rfl

lemma length_feed_le (hshort : ∀ c ∈ chunks, Short c) :
    (s.feed chunks).length ≤ occurrences appTerminator chunks.flatten := by
  induction chunks generalizing s with
  | nil => simp [feed]
  | cons c cs ih =>
    have hc := length_receive_le (s := s) (hshort c List.mem_cons_self)
    have hcs := ih (s := (s.receive c).1) fun d hd => hshort d (List.mem_cons_of_mem c hd)
    have hadd := occurrences_add_le appTerminator c cs.flatten
    rw [feed_cons, List.length_append, List.flatten_cons]
    omega

end Pieces

end Receiver

/-! ## The pieces of a stream -/

section Stream

variable {m : Message} {ms : List Message} {x y acc : Bytes} {chunks : List Bytes}

/-- What `recv` delivers: chunks that are not empty, each counted by an `int`. -/
def Delivered (chunks : List Bytes) : Prop := ∀ c ∈ chunks, c ≠ [] ∧ Receiver.Short c

lemma pieces_flatten (n : Nat) (chunks : List Bytes) :
    (pieces n chunks).1.flatten = chunks.flatten.take n ∧
      (pieces n chunks).2.flatten = chunks.flatten.drop n := by
  induction chunks generalizing n with
  | nil => simp [pieces]
  | cons c cs ih =>
    simp only [pieces]
    by_cases hlt : c.length < n
    · rw [if_pos hlt, List.flatten_cons, List.flatten_cons, (ih (n - c.length)).1,
        (ih (n - c.length)).2, List.take_append, List.drop_append,
        List.take_of_length_le (by omega : c.length ≤ n),
        List.drop_of_length_le (by omega : c.length ≤ n)]
      simp
    · have hcons : (c :: cs).flatten = c ++ cs.flatten := rfl
      rw [if_neg hlt, hcons, List.take_append_of_le_length (by omega),
        List.drop_append_of_le_length (by omega)]
      refine ⟨by simp, ?_⟩
      split
      case isTrue heq => simp [← heq]
      case isFalse => simp

lemma delivered_pieces (n : Nat) (h : Delivered chunks) : Delivered (pieces n chunks).2 := by
  induction chunks generalizing n with
  | nil => simpa [pieces] using h
  | cons c cs ih =>
    have hcs : Delivered cs := fun d hd => h d (List.mem_cons_of_mem c hd)
    simp only [pieces]
    by_cases hlt : c.length < n
    · rw [if_pos hlt]
      exact ih (n - c.length) hcs
    · rw [if_neg hlt]
      simp only
      split
      · exact hcs
      case isFalse hne =>
        intro d hd
        rcases List.mem_cons.mp hd with rfl | hd
        · refine ⟨?_, Receiver.short_drop (h c List.mem_cons_self).2 n⟩
          rw [ne_eq, List.drop_eq_nil_iff]
          omega
        · exact hcs d hd

lemma pieces_ne_nil {n : Nat} (hn : 0 < n) (h : chunks.flatten ≠ []) :
    (pieces n chunks).1 ≠ [] := by
  intro hnil
  have hflat := (pieces_flatten n chunks).1
  rw [hnil, List.flatten_nil, eq_comm, List.take_eq_nil_iff] at hflat
  exact hflat.elim (by omega) h

/-- The last piece of the next `n` bytes. -/
lemma length_last_le (n : Nat) (chunks : List Bytes) :
    ((pieces n chunks).1.getLastD []).length ≤ n := by
  have hflat := congrArg List.length (pieces_flatten n chunks).1
  rw [List.length_take] at hflat
  rcases List.eq_nil_or_concat (pieces n chunks).1 with hnil | ⟨ps, p, hps⟩
  · simp [hnil]
  · rw [hps] at hflat ⊢
    simp only [List.concat_eq_append, List.flatten_append, List.length_append,
      List.flatten_singleton] at hflat
    simp only [List.concat_eq_append, List.getLastD_concat]
    omega

/-- After a cut terminator only the frames that follow can be decoded. -/
lemma length_feed_cut (hms : ∀ m ∈ ms, Clean m) (hchunks : Delivered chunks)
    (hx : x <:+ [0xBE, 0xAD, 0xDE]) (hflat : chunks.flatten = x ++ ms.flatMap pickleMessage)
    (s : Receiver) : (s.feed chunks).length ≤ ms.length := by
  have hle := Receiver.length_feed_le (s := s) fun c hc => (hchunks c hc).2
  rwa [hflat, occurrences_append (noStart_terminator_rest hx), occurrences_stream hms] at hle

/-- A suffix of `x ++ appTerminator` of fewer than four bytes is a part of the terminator
without its first byte. -/
lemma suffix_rest {u : Bytes} (hu : u <:+ x ++ appTerminator) (hlen : u.length < 4) :
    u <:+ [0xBE, 0xAD, 0xDE] := by
  have hrest : [0xBE, 0xAD, 0xDE] <:+ x ++ appTerminator := ⟨x ++ [0xEF], by simp [appTerminator]⟩
  exact List.suffix_of_suffix_length_le hu hrest (by simp; omega)

/-- A chunk `c` against the next part `r` of the stream. -/
lemma split_append {c r rest tail : Bytes} (h : c ++ rest = r ++ tail)
    (hle : c.length ≤ r.length) : ∃ u, r = c ++ u ∧ rest = u ++ tail := by
  obtain ⟨u, hu⟩ : c <+: r :=
    List.prefix_of_prefix_length_le ⟨rest, h⟩ (List.prefix_append r tail) hle
  refine ⟨u, hu.symm, ?_⟩
  rw [← hu, List.append_assoc] at h
  exact List.append_cancel_left h

lemma pieces_of_lt {n : Nat} {c : Bytes} {cs : List Bytes} (h : c.length < n) :
    pieces n (c :: cs) =
      (c :: (pieces (n - c.length) cs).1, (pieces (n - c.length) cs).2) := by
  rw [pieces, if_pos h]

lemma pieces_append (r y : Bytes) (cs : List Bytes) :
    pieces r.length ((r ++ y) :: cs) = ([r], if y = [] then cs else y :: cs) := by
  have hlt : ¬(r ++ y).length < r.length := by
    rw [List.length_append]
    omega
  rw [pieces, if_neg hlt, List.take_left, List.drop_left, List.length_append]
  by_cases hy : y = []
  · simp [hy]
  · have hpos := List.length_pos_iff.mpr hy
    rw [if_neg hy, if_neg (by omega)]

lemma feed_remaining (s : Receiver) (y : Bytes) (cs : List Bytes) :
    s.feed (if y = [] then cs else y :: cs) = s.feed (y :: cs) := by
  by_cases hy : y = []
  · simp [hy]
  · rw [if_neg hy]

lemma getLastD_cons_pieces (n : Nat) (chunks : List Bytes) (c : Bytes) (hn : 0 < n)
    (h : chunks.flatten ≠ []) :
    (c :: (pieces n chunks).1).getLastD [] = (pieces n chunks).1.getLastD [] := by
  rw [List.getLastD_cons, List.getLastD_eq_getLast?, List.getLastD_eq_getLast?,
    List.getLast?_eq_some_getLast (pieces_ne_nil hn h)]
  rfl

lemma not_terminator_of_lt (hm : Clean m) (hx : x <:+ appHead ++ m.body) {c u : Bytes}
    (hu : x ++ appTerminator = c ++ u) (hpos : u ≠ []) : ¬appTerminator <:+: c := by
  have hstart := noStart_of_suffix hx (noStart_terminator (y := []) hm.terminator)
  rw [List.append_nil] at hstart
  apply absent_of_part hstart ⟨u, hu.symm⟩
  have hlen := congrArg List.length hu
  have := List.length_pos_iff.mpr hpos
  rw [List.length_append, List.length_append] at hlen
  omega

lemma length_terminator (x : Bytes) : (x ++ appTerminator).length = x.length + 4 := by
  simp [appTerminator]

/-- The rest of a pending message: it is completed when the terminator arrives in one piece
and lost when not. -/
lemma feed_rest (acc : Bytes) (hm : Clean m) (hms : ∀ m ∈ ms, Clean m)
    (hchunks : Delivered chunks) (hx : x <:+ m.body)
    (hflat : chunks.flatten = x ++ appTerminator ++ ms.flatMap pickleMessage) :
    (4 ≤ ((pieces (x.length + 4) chunks).1.getLastD []).length →
      (⟨true, acc⟩ : Receiver).feed chunks =
        (acc ++ x) :: Receiver.init.feed (pieces (x.length + 4) chunks).2) ∧
    (((pieces (x.length + 4) chunks).1.getLastD []).length < 4 →
      ((⟨true, acc⟩ : Receiver).feed chunks).length ≤ ms.length) := by
  induction chunks generalizing x acc with
  | nil => simp [appTerminator] at hflat
  | cons c cs ih =>
    have hcs : Delivered cs := fun d hd => hchunks d (List.mem_cons_of_mem c hd)
    obtain ⟨hne, hshort⟩ := hchunks c List.mem_cons_self
    rw [List.flatten_cons] at hflat
    have hlen := length_terminator x
    by_cases hlt : c.length < x.length + 4
    · -- the chunk ends before the terminator does
      obtain ⟨u, hu, hcs_flat⟩ := split_append hflat (by omega)
      have hulen : u.length = x.length + 4 - c.length := by
        rw [← hlen, hu, List.length_append]
        omega
      have hune : u ≠ [] := by
        rintro rfl
        simp at hulen
        omega
      have hnot := not_terminator_of_lt hm (hx.trans (List.suffix_append appHead m.body)) hu hune
      have hlast := getLastD_cons_pieces (x.length + 4 - c.length) cs c
        (by omega) (by rw [hcs_flat]; simp [hune])
      rw [pieces_of_lt hlt, Receiver.feed_cons, Receiver.receive_middle hne hnot, hlast]
      simp only [List.nil_append]
      by_cases hle : c.length ≤ x.length
      · -- the chunk lies within the body
        obtain ⟨x', hx', rfl⟩ := split_append hu.symm hle
        have hsuf : x' <:+ m.body := List.IsSuffix.trans ⟨c, hx'.symm⟩ hx
        have hxlen : x.length + 4 - c.length = x'.length + 4 := by
          rw [hx', List.length_append]
          omega
        rw [hxlen, hx', ← List.append_assoc]
        exact ih _ hcs hsuf hcs_flat
      · have hcut := length_last_le (x.length + 4 - c.length) cs
        refine ⟨fun h => absurd h (by omega), fun _ => ?_⟩
        exact length_feed_cut hms hcs (suffix_rest ⟨c, hu.symm⟩ (by omega)) hcs_flat _
    · obtain ⟨y, rfl, -⟩ := split_append hflat.symm (by omega)
      rw [← hlen, pieces_append, feed_remaining, Receiver.feed_cons,
        Receiver.receive_end hm hx hshort]
      refine ⟨fun _ => rfl, fun h => ?_⟩
      simp only [List.getLastD_cons, List.getLastD_nil, hlen] at h
      omega

/-- A part of the stream that begins at a frame has its head, or is shorter than that. -/
lemma head_or_short {rest : Bytes} (h : y ++ rest = ms.flatMap pickleMessage) :
    appHead <+: y ∨ (y <+: appHead ∧ y.length < 4) := by
  cases ms with
  | nil =>
    obtain rfl := (List.append_eq_nil_iff.mp h).1
    exact Or.inr ⟨List.nil_prefix, by simp⟩
  | cons m ms =>
    have hhead : appHead <+: y ++ rest := by
      rw [h, List.flatMap_cons, pickleMessage, List.append_assoc, List.append_assoc]
      exact List.prefix_append _ _
    by_cases hlen : y.length < 4
    · exact Or.inr ⟨List.prefix_of_prefix_length_le (List.prefix_append y rest) hhead
        (by simp [appHead]; omega), hlen⟩
    · exact Or.inl (List.prefix_of_prefix_length_le hhead (List.prefix_append y rest)
        (by simp [appHead]; omega))

lemma not_head_cons (h : appHead <+: y ∨ (y <+: appHead ∧ y.length < 4)) :
    ¬appHead <+: 0xDE :: y := by
  intro hpre
  rcases h with ⟨v, rfl⟩ | ⟨hy, -⟩
  · simp [appHead] at hpre
  · cases y with
    | nil => simp [appHead] at hpre
    | cons b y =>
      have hb : b = 0xDE := (List.cons_prefix_cons.mp hy).1
      subst hb
      simp [appHead] at hpre

/-- The chunk that ends a frame whose head was cut: nothing is decoded, or what follows the
next head in the chunk. -/
lemma feed_headless_end (cs : List Bytes) (hm : Clean m)
    (hx : x <:+ [0xC0, 0xAD, 0xDE] ++ m.body)
    (hshort : Receiver.Short (x ++ appTerminator ++ y))
    (hy : appHead <+: y ∨ (y <+: appHead ∧ y.length < 4)) :
    Receiver.init.feed ((x ++ appTerminator ++ y) :: cs) = Receiver.init.feed (y :: cs) ∨
      (4 ≤ y.length ∧ Receiver.init.feed ((x ++ appTerminator ++ y) :: cs) =
        y.drop 4 :: Receiver.init.feed (y :: cs)) := by
  have hxhead : x <:+ appHead ++ m.body := hx.trans ⟨[0xDE], rfl⟩
  have ht := find_terminator (y := y) hm.terminator hxhead
  have hsuf : x ++ appTerminator <:+ [0xC0, 0xAD, 0xDE] ++ m.body ++ appTerminator := by
    obtain ⟨v, hv⟩ := hx
    exact ⟨v, by rw [← hv, List.append_assoc]⟩
  have hhead := find_append (noStart_head hm hsuf (not_head_cons hy))
  have hlen := length_terminator x
  have hdrop : (x ++ appTerminator ++ y).drop ((x.length : Int) + 4).toNat = y := by
    have hto : ((x.length : Int) + 4).toNat = (x ++ appTerminator).length := by omega
    rw [hto, List.drop_left]
  have hne : x ++ appTerminator ++ y ≠ [] := by simp [appTerminator]
  rcases hy with hpre | ⟨-, hlt⟩
  · rw [find_of_isPrefix hpre, Option.map_some, Nat.zero_add, hlen] at hhead
    have hylen : 4 ≤ y.length := hpre.length_le
    have hparse := Receiver.parse_head_terminator (s := Receiver.init) hshort rfl hhead ht
    have hsub : substr (x ++ appTerminator ++ y) (((x.length + 4 : Nat) : Int) + 4)
        ((x.length : Int) - ((x.length + 4 : Nat) : Int) - 4) = y.drop 4 := by
      have hpos : (((x.length + 4 : Nat) : Int) + 4) = (((x ++ appTerminator).length + 4 : Nat) : Int) := by
        omega
      rw [hpos, Receiver.substr_of_neg hshort (by simp only [List.length_append] at *; omega)
        (by omega) (by omega), ← List.drop_drop, List.drop_left]
    rw [hsub] at hparse
    refine Or.inr ⟨hylen, ?_⟩
    rw [Receiver.feed_cons, Receiver.receive_of_nonneg hshort hne (by rw [hparse]; simp only; omega),
      hparse]
    simp only [hdrop]
    rfl
  · have hnone : find appHead y = none := by
      apply find_eq_none (by decide)
      intro hinf
      have := hinf.length_le
      simp [appHead] at this
      omega
    rw [hnone] at hhead
    have hparse := Receiver.parse_terminator (s := Receiver.init) hshort rfl hhead ht
    refine Or.inl ?_
    rw [Receiver.feed_cons, Receiver.receive_of_nonneg hshort hne (by rw [hparse]; simp only; omega),
      hparse]
    simp only [hdrop]
    rfl

/-- What a well-cut stream leaves behind the first head of its first chunk is not a body:
it is too short, or it holds a terminator. -/
lemma drop_head_ne {cs : List Bytes} (hm : Clean m) (hylen : 4 ≤ y.length)
    (hflat : y ++ cs.flatten = ms.flatMap pickleMessage) (hcut : AllWellCut ms (y :: cs)) :
    y.drop 4 ≠ m.body := by
  intro hbody
  have hm6 := length_body m
  cases ms with
  | nil =>
    obtain rfl := (List.append_eq_nil_iff.mp hflat).1
    simp at hylen
  | cons m' ms =>
    rw [List.flatMap_cons] at hflat
    by_cases hlt : y.length < (pickleMessage m').length
    · -- the chunk is a first piece, so at most three bytes follow the head
      obtain ⟨u, hu, hrest⟩ := split_append hflat hlt.le
      have hune : u ≠ [] := by
        rintro rfl
        rw [List.append_nil] at hu
        rw [hu] at hlt
        omega
      have hwell := hcut.1
      rw [pieces_of_lt hlt] at hwell
      have hps := pieces_ne_nil (n := (pickleMessage m').length - y.length) (by omega)
        (show cs.flatten ≠ [] by rw [hrest]; simp [hune])
      obtain ⟨p, ps, hps⟩ := List.exists_cons_of_ne_nil hps
      rw [hps] at hwell
      have := congrArg List.length hbody
      rw [List.length_drop] at this
      have := hwell.2.1
      omega
    · obtain ⟨v, rfl, -⟩ := split_append hflat.symm (by omega)
      apply hm.terminator
      rw [← hbody]
      exact ⟨m'.body, v, by simp [pickleMessage, appHead]⟩

/-- A frame whose head was cut spoils the result: `r` is what is left of it. -/
lemma feed_headless (hm : Clean m) (hms : ∀ m ∈ ms, Clean m) (hchunks : Delivered chunks)
    {r : Bytes} (hr : r <:+ [0xC0, 0xAD, 0xDE] ++ m.body ++ appTerminator)
    (hflat : chunks.flatten = r ++ ms.flatMap pickleMessage)
    (hnext : ∀ chunks, Delivered chunks → chunks.flatten = ms.flatMap pickleMessage →
      Receiver.init.feed chunks = ms.map Message.body → AllWellCut ms chunks) :
    Receiver.init.feed chunks ≠ m.body :: ms.map Message.body := by
  induction chunks generalizing r with
  | nil => simp [Receiver.feed]
  | cons c cs ih =>
    have hcs : Delivered cs := fun d hd => hchunks d (List.mem_cons_of_mem c hd)
    obtain ⟨hne, hshort⟩ := hchunks c List.mem_cons_self
    by_cases hlen : r.length < 4
    · intro h
      have hle := length_feed_cut hms hchunks (suffix_rest hr hlen) hflat Receiver.init
      rw [h, List.length_cons, List.length_map] at hle
      omega
    · obtain ⟨x, rfl⟩ : appTerminator <:+ r :=
        List.suffix_of_suffix_length_le (List.suffix_append _ _) hr (by simp [appTerminator]; omega)
      have hx : x <:+ [0xC0, 0xAD, 0xDE] ++ m.body := List.suffix_append_self_iff.mp hr
      have hxhead : x <:+ appHead ++ m.body := hx.trans ⟨[0xDE], rfl⟩
      rw [List.flatten_cons] at hflat
      by_cases hlt : c.length < (x ++ appTerminator).length
      · obtain ⟨u, hu, hcs_flat⟩ := split_append hflat hlt.le
        have hune : u ≠ [] := by
          rintro rfl
          rw [List.append_nil] at hu
          rw [hu] at hlt
          omega
        have hnot := not_terminator_of_lt hm hxhead hu hune
        have hhead : ¬appHead <:+: c :=
          (noStart_head (y := []) hm hr (by decide)).absent (by decide) ⟨[], u, by simp [hu]⟩
        rw [Receiver.feed_cons, Receiver.receive_of_neither hshort hhead hnot]
        exact ih hcs (List.IsSuffix.trans ⟨c, hu.symm⟩ hr) hcs_flat
      · obtain ⟨y, rfl, hy_flat⟩ := split_append hflat.symm (by omega)
        have hrest : Delivered (if y = [] then cs else y :: cs) := by
          have := delivered_pieces (x ++ appTerminator).length hchunks
          rwa [pieces_append] at this
        have hrest_flat : (if y = [] then cs else y :: cs).flatten = ms.flatMap pickleMessage := by
          rw [hy_flat]
          split
          case isTrue hnil => rw [hnil, List.nil_append]
          case isFalse => rfl
        intro h
        rcases feed_headless_end cs hm hx hshort (head_or_short hy_flat.symm) with
          hskip | ⟨hylen, hdecode⟩
        · have hle := length_feed_cut (x := []) hms hrest (List.nil_suffix) hrest_flat Receiver.init
          rw [feed_remaining, ← hskip, h, List.length_cons, List.length_map] at hle
          omega
        · rw [hdecode, List.cons.injEq] at h
          have hcut := hnext _ hrest hrest_flat (by rw [feed_remaining]; exact h.2)
          rw [if_neg (by rintro rfl; simp at hylen)] at hcut
          exact drop_head_ne hm hylen hy_flat.symm hcut h.1

/-! ## The whole stream -/

lemma kept_append {c u : Bytes} (hc : pickleMessage m = c ++ u) (h4 : 4 ≤ c.length)
    (hx : x ++ appTerminator = u) :
    (c.length < 8 → Receiver.kept c ++ x = m.body) ∧
      (8 ≤ c.length → Receiver.kept c ++ x ≠ m.body) := by
  have hbody : c.drop 4 ++ x = m.body := by
    have hdrop := congrArg (List.drop 4) hc
    rw [← hx, List.drop_append_of_le_length h4, ← List.append_assoc] at hdrop
    have : (pickleMessage m).drop 4 = m.body ++ appTerminator := by
      simp [pickleMessage, appHead]
    rw [this] at hdrop
    exact (List.append_cancel_right hdrop).symm
  constructor
  · intro hlt
    rw [Receiver.kept, if_pos hlt, hbody]
  · intro hge heq
    rw [Receiver.kept, if_neg (by omega), ← hbody, List.append_cancel_right_eq] at heq
    have := congrArg List.length heq
    simp only [List.length_take, List.length_drop] at this
    omega

lemma wellCut_cons {c : Bytes} {ps : List Bytes} (h : ps ≠ []) :
    WellCut (c :: ps) ↔ 4 ≤ c.length ∧ c.length < 8 ∧ 4 ≤ (ps.getLastD []).length := by
  obtain ⟨p, ps, rfl⟩ := List.exists_cons_of_ne_nil h
  exact Iff.rfl

/-- A frame cut into the chunk `c` and the bytes `u` that follow. -/
lemma feed_cut_iff {c u : Bytes} {cs : List Bytes} (hm : Clean m) (hms : ∀ m ∈ ms, Clean m)
    (hcs : Delivered cs) (hne : c ≠ []) (hshort : Receiver.Short c)
    (hu : pickleMessage m = c ++ u) (hune : u ≠ [])
    (hflat : cs.flatten = u ++ ms.flatMap pickleMessage)
    (hrest : Receiver.init.feed (pieces u.length cs).2 = ms.map Message.body ↔
      AllWellCut ms (pieces u.length cs).2)
    (hnext : ∀ chunks, Delivered chunks → chunks.flatten = ms.flatMap pickleMessage →
      Receiver.init.feed chunks = ms.map Message.body → AllWellCut ms chunks) :
    Receiver.init.feed (c :: cs) = m.body :: ms.map Message.body ↔
      WellCut (c :: (pieces u.length cs).1) ∧ AllWellCut ms (pieces u.length cs).2 := by
  have hpos := List.length_pos_iff.mpr hune
  have hlen : c.length + u.length = m.body.length + 8 := by
    rw [← length_pickleMessage, hu, List.length_append]
  have hsix := length_body m
  have hu_suf : u <:+ appHead ++ m.body ++ appTerminator := ⟨c, hu.symm⟩
  rw [wellCut_cons (pieces_ne_nil hpos (by rw [hflat]; simp [hune]))]
  by_cases h4 : c.length < 4
  · -- the head is cut
    have hshorter : ∀ pat : Bytes, pat.length = 4 → ¬pat <:+: c := by
      intro pat hpat hinf
      have := hinf.length_le
      omega
    have htail : u <:+ [0xC0, 0xAD, 0xDE] ++ m.body ++ appTerminator := by
      have hcpos := List.length_pos_iff.mpr hne
      refine List.suffix_of_suffix_length_le hu_suf ⟨[0xDE], rfl⟩ ?_
      simp only [List.length_append, List.length_cons, List.length_nil, appTerminator]
      omega
    have hbad := feed_headless hm hms hcs htail hflat hnext
    rw [Receiver.feed_cons, Receiver.receive_of_neither hshort (hshorter _ rfl) (hshorter _ rfl)]
    refine iff_of_false hbad fun h => ?_
    have := h.1.1
    omega
  · have hhead : appHead <+: c := by
      have hpre : appHead <+: pickleMessage m := ⟨m.body ++ appTerminator, by simp [pickleMessage]⟩
      exact List.prefix_of_prefix_length_le hpre ⟨u, hu.symm⟩ (by simp [appHead]; omega)
    have hnot := not_terminator_of_lt hm (List.suffix_refl _) hu hune
    have hlast := length_last_le u.length cs
    rw [Receiver.feed_cons, Receiver.receive_start hshort hhead hnot, List.nil_append]
    by_cases hcut : u.length < 4
    · -- the first piece ends within the terminator
      have hle := length_feed_cut hms hcs (suffix_rest hu_suf hcut) hflat
        ⟨true, Receiver.kept c⟩
      refine iff_of_false (fun h => ?_) fun h => ?_
      · rw [h, List.length_cons, List.length_map] at hle
        omega
      · have := h.1.2.2
        omega
    · obtain ⟨x, rfl⟩ : appTerminator <:+ u :=
        List.suffix_of_suffix_length_le (List.suffix_append _ _) hu_suf
          (by simp [appTerminator]; omega)
      have hxlen := length_terminator x
      have hx : x <:+ m.body := by
        refine List.suffix_of_suffix_length_le (List.suffix_append_self_iff.mp hu_suf)
          (List.suffix_append _ _) ?_
        omega
      obtain ⟨hwhole, hlost⟩ := feed_rest (Receiver.kept c) hm hms hcs hx hflat
      obtain ⟨hkept, hshorter⟩ := kept_append hu (by omega) rfl
      rw [hxlen] at hrest ⊢
      by_cases hend : 4 ≤ ((pieces (x.length + 4) cs).1.getLastD []).length
      · rw [hwhole hend, List.cons.injEq, hrest]
        by_cases h8 : c.length < 8
        · simp only [hkept h8, h8, hend, true_and, and_true]
          exact ⟨fun h => ⟨by omega, h⟩, fun h => h.2⟩
        · exact iff_of_false (fun h => hshorter (by omega) h.1) fun h => h8 h.1.2.1
      · have hle := hlost (by omega)
        refine iff_of_false (fun h => ?_) fun h => hend h.1.2.2
        rw [h, List.length_cons, List.length_map] at hle
        omega

/-- Feeding the chunks of a stream decodes the bodies of its frames, in order and each once,
exactly when every frame is well cut. -/
theorem frames_decoded_iff_wellCut (ms : List Message) (chunks : List Bytes)
    (hms : ∀ m ∈ ms, Clean m) (hchunks : Delivered chunks)
    (hflat : chunks.flatten = ms.flatMap pickleMessage) :
    Receiver.init.feed chunks = ms.map Message.body ↔ AllWellCut ms chunks := by
  induction ms generalizing chunks with
  | nil =>
    cases chunks with
    | nil => simp [Receiver.feed, AllWellCut]
    | cons c cs =>
      have hne := (hchunks c List.mem_cons_self).1
      simp [hne] at hflat
  | cons m ms ih =>
    have hm := hms m List.mem_cons_self
    have hms' : ∀ m' ∈ ms, Clean m' := fun m' h => hms m' (List.mem_cons_of_mem m h)
    have hrest := delivered_pieces (pickleMessage m).length hchunks
    have hrest_flat := (pieces_flatten (pickleMessage m).length chunks).2
    rw [hflat, List.flatMap_cons, List.drop_left] at hrest_flat
    have hnext := ih _ hms' hrest hrest_flat
    rw [List.map_cons, AllWellCut]
    cases chunks with
    | nil => simp [pickleMessage, appHead] at hflat
    | cons c cs =>
      have hcs : Delivered cs := fun d hd => hchunks d (List.mem_cons_of_mem c hd)
      obtain ⟨hne, hshort⟩ := hchunks c List.mem_cons_self
      rw [List.flatten_cons, List.flatMap_cons] at hflat
      by_cases hlt : c.length < (pickleMessage m).length
      · obtain ⟨u, hu, hcs_flat⟩ := split_append hflat hlt.le
        have hulen : (pickleMessage m).length - c.length = u.length := by
          rw [hu, List.length_append]
          omega
        have hune : u ≠ [] := by
          rintro rfl
          rw [List.length_nil] at hulen
          omega
        rw [pieces_of_lt hlt, hulen] at hnext ⊢
        exact feed_cut_iff hm hms' hcs hne hshort hu hune hcs_flat hnext
          fun chunks h1 h2 h3 => (ih chunks hms' h1 h2).mp h3
      · obtain ⟨y, rfl, -⟩ := split_append hflat.symm (by omega)
        rw [pieces_append] at hnext ⊢
        rw [← hnext, feed_remaining, Receiver.feed_cons, Receiver.receive_frame hm hshort]
        simp [WellCut, Receiver.feed_cons]

/-- A message whose frame has 18 bytes. -/
def timeRequest : Message := ⟨.kRequest, [116, 105, 109, 101], 116⟩

lemma clean_timeRequest : Clean timeRequest := ⟨by decide, by decide⟩

/-- The frame arrives as its head with one byte, three bytes of the body, and the rest. -/
theorem frames_decoded_iff_wellCut_three :
    Receiver.init.feed [(pickleMessage timeRequest).take 5,
      ((pickleMessage timeRequest).drop 5).take 3, (pickleMessage timeRequest).drop 8] =
        [timeRequest.body] :=
  (frames_decoded_iff_wellCut [timeRequest] [(pickleMessage timeRequest).take 5,
    ((pickleMessage timeRequest).drop 5).take 3, (pickleMessage timeRequest).drop 8]
    (by simpa using clean_timeRequest) (by simp [Delivered, Receiver.Short]; decide)
    (by decide)).mpr (by decide)

/-- The frame is cut behind the fourth byte of its body. -/
theorem frames_not_decoded_cut :
    ¬∀ (ms : List Message) (chunks : List Bytes), (∀ m ∈ ms, Clean m) → Delivered chunks →
      chunks.flatten = ms.flatMap pickleMessage →
        Receiver.init.feed chunks = ms.map Message.body := by
  intro h
  have hbad := h [timeRequest]
    [(pickleMessage timeRequest).take 8, (pickleMessage timeRequest).drop 8]
    (by simpa using clean_timeRequest) (by simp [Delivered, Receiver.Short]; decide) (by decide)
  exact absurd hbad (by decide)

end Stream

end CoplusLean.Protocol
