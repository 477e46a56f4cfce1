import CoplusLean.Models.FormatMessage
import CoplusLean.Proofs.ProtocolFraming

/-!
# One frame through the receiver

A frame carries its length, but `parse` looks for the first terminator. The request comes
back unless a terminator begins earlier, at the raw type or in the request, or an `int`
cannot count the frame.
-/

namespace CoplusLean.Protocol

open Lib

/-! ## Integers in memory -/

lemma toNat_ofNat (n : Nat) : (UInt8.ofNat n).toNat = n % 256 := by simp

/-- Reading back the bytes of an `int`. -/
lemma intAt_intBytes (x y : Bytes) {n : Int} (h0 : 0 ≤ n) (h1 : n < 2147483648) :
    intAt (x ++ (intBytes n ++ y)) x.length = some n := by
  have hchar : ∀ i (hi : i < 4), charAt (x ++ (intBytes n ++ y)) (x.length + i) =
      (intBytes n)[i]? := by
    intro i hi
    rw [charAt, List.append_assoc, List.getElem?_append_right (by omega), Nat.add_sub_cancel_left,
      List.append_assoc, List.getElem?_append_left (by simpa [intBytes] using hi)]
  have hzero := hchar 0 (by omega)
  rw [Nat.add_zero] at hzero
  obtain ⟨k, rfl⟩ := Int.eq_ofNat_of_zero_le h0
  have hk : uint32 (k : Int) = k := by
    unfold uint32
    omega
  rw [intAt, hzero, hchar 1 (by omega), hchar 2 (by omega), hchar 3 (by omega)]
  simp only [intBytes, List.getElem?_cons_zero, List.getElem?_cons_succ, Option.bind_eq_bind,
    Option.bind_some, toNat_ofNat, hk, Option.pure_def, Option.some.injEq]
  rw [int32_of_lt (by omega) (by omega)]
  omega

/-! ## The content of a message -/

variable {m : Message}

lemma textAt_isSome {s : Bytes} {i : Int} (h0 : 0 ≤ i) (h1 : i ≤ s.length) :
    ∃ text, textAt s i = some text :=
  ⟨_, if_pos ⟨h0, h1⟩⟩

lemma addrEnd_bounds {s : Bytes} (hs : s.length < 2147483648) :
    -1 ≤ addrEnd s ∧ addrEnd s + 2 ≤ max s.length 1 := by
  rw [addrEnd]
  split
  · omega
  · rename_i k hk
    have hlen := Receiver.find_lt hk
    simp only [minimumLen, List.length_drop, List.length_cons, List.length_nil] at hlen ⊢
    rw [int32_of_lt (by omega) (by omega)]
    omega

/-- Apart from lists, no message is refused. -/
lemma formatContent_isSome (hraw : m.rawType ≠ 108) (hlen : m.body.length < 2147483648) :
    ∃ os, formatContent m.body = some (os, false) := by
  have hbody := length_body m
  have hchar : charAt m.body minimumLen = some m.rawType := rfl
  have hne : m.body.length ≠ minimumLen := by
    rw [hbody, minimumLen]
    omega
  unfold formatContent
  simp only [hne, hchar, hraw, if_false, Option.pure_def, Option.bind_eq_bind, Option.bind_some]
  by_cases hdirect : m.rawType = 100
  · obtain ⟨h0, h1⟩ := addrEnd_bounds hlen
    obtain ⟨text, htext⟩ := textAt_isSome (s := m.body) (i := addrEnd m.body + 2) (by omega)
      (by omega)
    rw [if_pos hdirect, formatDirect, htext]
    exact ⟨_, rfl⟩
  · obtain ⟨text, htext⟩ := textAt_isSome (s := m.body) (i := (minimumLen : Int) + 1)
      (by rw [minimumLen]; omega) (by rw [minimumLen, hbody]; omega)
    rw [if_neg hdirect, htext]
    exact ⟨_, rfl⟩

lemma intAt_body (hlen : m.body.length < 2147483648) :
    intAt m.body 1 = some m.body.length := by
  rw [length_body] at hlen ⊢
  have hbytes := intAt_intBytes [m.type.toByte] (m.rawType :: m.request)
    (n := int32 (1 + 4 + 1 + m.request.length)) (by rw [int32_of_lt] <;> omega)
    (by rw [int32_of_lt] <;> omega)
  rw [int32_of_lt (by omega) (by omega)] at hbytes
  rw [Message.body, int32_of_lt (by omega) (by omega)]
  refine hbytes.trans ?_
  congr 1
  omega

/-- `format_message` returns what follows the raw type. -/
lemma formatMessage_body (hraw : m.rawType ≠ 108) (hlen : m.body.length < 2147483648) :
    (formatMessage m.body kGetContent).map Prod.snd = some m.request := by
  obtain ⟨os, hos⟩ := formatContent_isSome hraw hlen
  have htype : charAt m.body 0 = some m.type.toByte := rfl
  have hlong : m.body.length > minimumLen := by
    rw [length_body, minimumLen]
    omega
  have hdrop : m.body.drop (minimumLen + 1) = m.request := rfl
  rw [formatMessage, htype, intAt_body hlen, hos]
  simp [kGetContent, hlong, hdrop]

/-! ## The first terminator -/

/-- The length field has no byte of a terminator where one of the last three would be. -/
lemma terminator_in_body (hlen : m.body.length < 2147483648) :
    appTerminator <:+: m.body ↔ appTerminator <:+: m.rawType :: m.request := by
  rw [length_body] at hlen
  have htype : m.type.toByte ≠ 0xEF := by cases m.type <;> decide
  obtain ⟨b₀, b₁, b₂, b₃, hbytes, htop⟩ : ∃ b₀ b₁ b₂ b₃ : UInt8,
      intBytes (int32 (1 + 4 + 1 + m.request.length)) = [b₀, b₁, b₂, b₃] ∧ b₃.toNat < 128 := by
    refine ⟨_, _, _, _, rfl, ?_⟩
    rw [toNat_ofNat, int32_of_lt (by omega) (by omega), uint32]
    omega
  have hne : ∀ b : UInt8, 128 ≤ b.toNat → ¬b = b₃ := by
    rintro b hb rfl
    omega
  simp only [Message.body, hbytes, List.cons_append, List.nil_append]
  iterate 5 rw [List.infix_cons_iff]
  have h0 := hne 0xDE (by decide)
  have h1 := hne 0xAD (by decide)
  have h2 := hne 0xBE (by decide)
  have h3 := hne 0xEF (by decide)
  simp [appTerminator, List.cons_prefix_cons, htype.symm, h0, h1, h2, h3]

/-- A terminator in the body is found before the one that ends the frame. -/
lemma find_early_terminator (hbody : appTerminator <:+: m.body) :
    ∃ t, find appTerminator (pickleMessage m) = some t ∧ t + 4 ≤ m.body.length + 4 := by
  have hinf : appTerminator <:+: appHead ++ m.body :=
    hbody.trans (List.suffix_append _ _).isInfix
  obtain ⟨t, ht⟩ := exists_find_of_isInfix hinf
  have hle := Receiver.find_lt ht
  rw [pickleMessage, find_append_of_isInfix hinf]
  refine ⟨t, ht, ?_⟩
  simp only [appHead, appTerminator, List.length_append, List.length_cons, List.length_nil] at hle
  omega

/-! ## The round trip -/

/-- The frame of `m` comes back as its request, is consumed as a whole, and its length field
counts what stands between head and terminator. -/
structure RoundTrip (s : Receiver) (m : Message) : Prop where
  content : ((s.parse (pickleMessage m)).decoded.bind fun completeStr =>
    (formatMessage completeStr kGetContent).map Prod.snd) = some m.request
  consumed : (s.parse (pickleMessage m)).delta = (pickleMessage m).length
  lengthField : intAt (pickleMessage m) 5 = some ((pickleMessage m).length - 8 : Nat)

variable {s : Receiver}

/-- Where the first terminator is decides what `parse` returns. -/
lemma parse_delta (hs : s.pending = false) {t : Nat} (hm : m.request.length < 2147483642)
    (ht : find appTerminator (pickleMessage m) = some t) :
    (s.parse (pickleMessage m)).delta = int32 (t + 4) := by
  have hlt : t + 4 ≤ (pickleMessage m).length := Receiver.find_lt ht
  rw [length_pickleMessage, length_body] at hlt
  have hh : findInt (pickleMessage m) appHead = 0 := by
    have hhead := Receiver.find_head m []
    rw [List.append_nil] at hhead
    rw [findInt, hhead]
    exact int32_zero
  have hterm : findInt (pickleMessage m) appTerminator = int32 t := by rw [findInt, ht]
  have hne : int32 (t : Int) ≠ -1 := by
    unfold int32
    omega
  have hsum : int32 (int32 (t : Int) + 4) = int32 (t + 4) := by
    unfold int32
    omega
  simp [Receiver.parse, hh, hterm, hs, hne, hsum]

lemma lengthField_eq (hm : m.request.length < 2147483642) :
    intAt (pickleMessage m) 5 = some ((pickleMessage m).length - 8 : Nat) := by
  have hbytes := intAt_intBytes (appHead ++ [m.type.toByte])
    (m.rawType :: (m.request ++ appTerminator)) (n := int32 (1 + 4 + 1 + m.request.length))
    (by rw [int32_of_lt] <;> omega) (by rw [int32_of_lt] <;> omega)
  have hframe : pickleMessage m = appHead ++ [m.type.toByte] ++
      (intBytes (int32 (1 + 4 + 1 + m.request.length)) ++
        m.rawType :: (m.request ++ appTerminator)) := by
    simp [pickleMessage, Message.body]
  have hsize : (pickleMessage m).length - 8 = m.request.length + 6 := by
    rw [length_pickleMessage, length_body]
    omega
  rw [hsize, hframe]
  refine hbytes.trans ?_
  rw [int32_of_lt (by omega) (by omega)]
  congr 1
  push_cast
  omega

/-- A frame is decoded to its request and consumed as a whole exactly when no terminator
begins at its raw type or in its request and its length is an `int`. -/
theorem round_trip_iff (s : Receiver) (hs : s.pending = false) (m : Message)
    (hraw : m.rawType ≠ 108) (hm : m.request.length < 2147483642) :
    RoundTrip s m ↔
      ¬appTerminator <:+: m.rawType :: m.request ∧ m.request.length + 14 < 2147483648 := by
  have hbody : m.body.length < 2147483648 := by
    rw [length_body]
    omega
  have hframe : (pickleMessage m).length = m.request.length + 14 := by
    rw [length_pickleMessage, length_body]
  rw [← terminator_in_body hbody]
  constructor
  · intro h
    have hconsumed := h.consumed
    have hdelta : ∃ n, (s.parse (pickleMessage m)).delta = int32 n := by
      obtain ⟨t, ht⟩ : ∃ t, find appTerminator (pickleMessage m) = some t :=
        exists_find_of_isInfix (List.suffix_append _ _).isInfix
      exact ⟨_, parse_delta hs hm ht⟩
    obtain ⟨n, hn⟩ := hdelta
    have hfits := (int32_bounds n).2
    rw [hn, hframe] at hconsumed
    refine ⟨fun hinf => ?_, by omega⟩
    obtain ⟨t, ht, hearly⟩ := find_early_terminator hinf
    have hsmall := parse_delta hs hm ht
    rw [hn, hconsumed] at hsmall
    rw [length_body] at hearly
    rw [int32_of_lt (by omega) (by omega)] at hsmall
    omega
  · rintro ⟨hnone, hfits⟩
    have hparse := Receiver.parse_frame (s := s) (y := []) hs hnone
      (by rw [List.append_nil, Receiver.Short, hframe]; exact hfits)
    rw [List.append_nil] at hparse
    refine ⟨?_, by rw [hparse], lengthField_eq hm⟩
    rw [hparse]
    exact formatMessage_body hraw hbody

theorem round_trip_iff_time :
    RoundTrip Receiver.init timeRequest ↔
      ¬appTerminator <:+: timeRequest.rawType :: timeRequest.request ∧
        timeRequest.request.length + 14 < 2147483648 :=
  round_trip_iff Receiver.init rfl timeRequest (by decide) (by decide)

/-- A request that consists of the bytes of the terminator. -/
def terminatorRequest : Message := ⟨.kRequest, appTerminator, 116⟩

/-- It comes back empty. -/
theorem round_trip_fails_on_terminator :
    ¬∀ (s : Receiver) (m : Message), s.pending = false → m.rawType ≠ 108 →
      m.request.length < 2147483642 → RoundTrip s m := by
  intro h
  have hbad := h Receiver.init terminatorRequest rfl (by decide) (by decide)
  exact absurd hbad.content (by decide)

end CoplusLean.Protocol
