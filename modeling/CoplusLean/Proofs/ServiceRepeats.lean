import CoplusLean.Proofs.ServiceDecoding

/-!
# What stands behind the last frame

A turn of the response lambda in which nothing is decoded leaves `content` as it is and calls
`dispatch` with it all the same, and it moves on by three bytes. So what is left behind the
last frame of a chunk is read as that request once more for every three bytes, relays included.
-/

namespace CoplusLean.Server

open Lib Protocol

variable {name content : Bytes} {env : Nat → Environment} {ms : List Message}

lemma Frameless.drop {s : Bytes} (hs : Frameless s) (n : Nat) : Frameless (s.drop n) :=
  hs.of_infix (List.drop_suffix n s).isInfix

end CoplusLean.Server
