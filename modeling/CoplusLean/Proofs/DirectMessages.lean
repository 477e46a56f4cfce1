import CoplusLean.Models.Dispatch
import CoplusLean.Proofs.MessageRoundTrip

/-!
# Messages that name their sender

A relayed message carries the address of its sender between `"::"` and `"::"`, and
`format_message` looks for the second pair of colons. It prints the text as a C string.
-/

namespace CoplusLean.Protocol

open Lib

variable {type : MessageType} {addr text : Bytes}

/-- What stands behind the first pair of colons. -/
lemma drop_directMessage :
    (directMessage type addr text).body.drop (minimumLen + 3) = addr ++ [58, 58] ++ text := rfl

lemma length_directMessage (type : MessageType) (addr text : Bytes) :
    (directMessage type addr text).body.length = addr.length + text.length + 10 := by
  rw [length_body, directMessage]
  simp only [List.length_append, List.length_cons, List.length_nil]
  omega

/-- The sender ends at the first pair of colons, the text at the first null. -/
lemma formatDirect_eq (hlen : (directMessage type addr text).body.length < 2147483648) {k : Nat}
    (hk : find [58, 58] (addr ++ [58, 58] ++ text) = some k) :
    formatDirect (directMessage type addr text).body =
      some [.sender ((addr ++ [58, 58] ++ text).take k),
        .message (((addr ++ [58, 58] ++ text).drop (k + 2)).takeWhile (· ≠ 0))] := by
  have hend := find_add_length_le hk
  have hlength := length_directMessage type addr text
  simp only [List.length_append, List.length_cons, List.length_nil] at hend
  have haddr : addrEnd (directMessage type addr text).body = (k + 8 : Nat) := by
    rw [addrEnd, drop_directMessage, hk]
    simp only [minimumLen]
    rw [int32_of_lt (by omega) (by omega)]
    omega
  have hsender : substr (directMessage type addr text).body ((minimumLen : Int) + 3)
      (((k + 8 : Nat) : Int) - minimumLen - 3) = (addr ++ [58, 58] ++ text).take k := by
    have hpos : sizeT ((minimumLen : Int) + 3) = minimumLen + 3 := rfl
    have hcount : sizeT (((k + 8 : Nat) : Int) - minimumLen - 3) = k := by
      rw [minimumLen, sizeT_of_nonneg (by omega) (by omega)]
      omega
    rw [substr, hpos, hcount, drop_directMessage]
  have htext : textAt (directMessage type addr text).body (((k + 8 : Nat) : Int) + 2) =
      some (((addr ++ [58, 58] ++ text).drop (k + 2)).takeWhile (· ≠ 0)) := by
    have hto : (((k + 8 : Nat) : Int) + 2).toNat = minimumLen + 3 + (k + 2) := by
      rw [minimumLen]
      omega
    rw [textAt, if_pos (by omega), hto, ← List.drop_drop, drop_directMessage]
  have hne : ((k + 8 : Nat) : Int) ≠ -1 := by omega
  simp only [formatDirect, haddr, hsender, htext, if_neg hne, Option.bind_eq_bind,
    Option.bind_some, Option.pure_def]

lemma formatMessage_direct (hlen : (directMessage type addr text).body.length < 2147483648)
    {k : Nat} (hk : find [58, 58] (addr ++ [58, 58] ++ text) = some k) (get : Nat) :
    (formatMessage (directMessage type addr text).body get).map Prod.fst =
      some [.type (typeName type.toByte), .length (directMessage type addr text).body.length,
        .sender ((addr ++ [58, 58] ++ text).take k),
        .message (((addr ++ [58, 58] ++ text).drop (k + 2)).takeWhile (· ≠ 0))] := by
  have hlength := length_directMessage type addr text
  have htype : charAt (directMessage type addr text).body 0 = some type.toByte := rfl
  have hraw : charAt (directMessage type addr text).body minimumLen = some 100 := rfl
  have hne : (directMessage type addr text).body.length ≠ minimumLen := by
    rw [minimumLen]
    omega
  have hlong : ¬(directMessage type addr text).body.length < minimumLen := by
    rw [minimumLen]
    omega
  have hcontent : formatContent (directMessage type addr text).body =
      some ([.sender ((addr ++ [58, 58] ++ text).take k),
        .message (((addr ++ [58, 58] ++ text).drop (k + 2)).takeWhile (· ≠ 0))], false) := by
    simp only [formatContent, if_neg hne, hraw, formatDirect_eq hlen hk, Option.bind_eq_bind,
      Option.bind_some, Option.pure_def]
    rfl
  simp only [formatMessage, htype, intAt_body hlen, hcontent, if_neg hlong, Option.bind_eq_bind,
    Option.bind_some, Option.pure_def, List.nil_append]
  rfl

/-- A message that names its sender is printed with that sender and with all of its text
exactly when no two colons follow each other in the address and a colon behind it, and the
text has no null. -/
theorem direct_shown_iff (type : MessageType) (addr text : Bytes) (get : Nat)
    (hlen : (directMessage type addr text).body.length < 2147483648) :
    (formatMessage (directMessage type addr text).body get).map Prod.fst =
        some [.type (typeName type.toByte), .length (directMessage type addr text).body.length,
          .sender addr, .message text] ↔
      ¬[58, 58] <:+: addr ++ [58] ∧ 0 ∉ text := by
  obtain ⟨k, hkle, hk, hfirst⟩ := find_between (show ([58, 58] : Bytes) ≠ [] by simp) addr text
  rw [formatMessage_direct hlen hk]
  have hcolon : ([58, 58] : Bytes).dropLast = [58] := rfl
  rw [hcolon] at hfirst
  have htake : (addr ++ [58, 58] ++ text).take k = addr ↔ k = addr.length := by
    constructor
    · intro h
      have hlength := congrArg List.length h
      simp only [List.length_take, List.length_append] at hlength
      omega
    · rintro rfl
      rw [List.append_assoc, List.take_left]
  have hnull : text.takeWhile (· ≠ 0) = text ↔ 0 ∉ text := by
    rw [List.takeWhile_eq_self_iff]
    constructor
    · intro h hmem
      simpa using h 0 hmem
    · intro h b hb
      have hne : b ≠ 0 := fun hzero => h (hzero ▸ hb)
      simpa using hne
  simp only [Option.some.injEq, List.cons.injEq, true_and, and_true, Printed.sender.injEq,
    Printed.message.injEq, htake]
  rw [← hfirst]
  refine and_congr_right fun hlength => ?_
  have hdrop : (addr ++ [58, 58] ++ text).drop (k + 2) = text := by
    subst hlength
    rw [show addr.length + 2 = (addr ++ [58, 58]).length by simp, List.drop_left]
  rw [hdrop, hnull]

/-- `"hi"` from `"1:2"`. -/
theorem direct_shown_iff_hi :
    (formatMessage (directMessage .kDirect [49, 58, 50] [104, 105]).body 0).map Prod.fst =
      some [.type (typeName MessageType.kDirect.toByte),
        .length (directMessage .kDirect [49, 58, 50] [104, 105]).body.length,
        .sender [49, 58, 50], .message [104, 105]] :=
  (direct_shown_iff .kDirect [49, 58, 50] [104, 105] 0 (by decide)).mpr ⟨by decide, by decide⟩

end CoplusLean.Protocol
