import CoplusLean.Models.Protocol

/-!
# The receive path of the server

Every connection has a thread that calls the same response lambda with what `recv` has
delivered to it. The variables of the decoder are static, so there is one `Receiver` for
all connections.
-/

namespace CoplusLean.Server

open Lib Protocol

/-- The size of `recvbuf`. -/
def kDefaultBufferLen : Nat := 512

/-- One call of the response lambda: the connection and what `recv` put into its buffer. -/
structure Delivery where
  sender : Nat
  chunk : Bytes
  received : 0 < chunk.length ∧ chunk.length ≤ kDefaultBufferLen
deriving DecidableEq

/-- The static variables of the lambda, the calls of it so far, and the messages it has
decoded, each with the connection whose chunk was parsed then. -/
structure ReceivePath where
  receiver : Receiver
  deliveries : List Delivery
  decoded : List (Nat × Bytes)
deriving DecidableEq

namespace ReceivePath

def init : ReceivePath := ⟨Receiver.init, [], []⟩

/-- The response lambda runs its loop over one chunk. -/
def step (w : ReceivePath) (d : Delivery) : Option ReceivePath :=
  let received := w.receiver.receive d.chunk
  some ⟨received.1, w.deliveries ++ [d], w.decoded ++ received.2.map (d.sender, ·)⟩

/-- The connection whose chunk came last. -/
def last (w : ReceivePath) : Option Nat := w.deliveries.getLast?.map Delivery.sender

/-- The chunks of connection `c`. -/
def chunksOf (w : ReceivePath) (c : Nat) : List Bytes :=
  (w.deliveries.filter fun d => d.sender = c).map Delivery.chunk

/-- The messages decoded from the chunks of connection `c`. -/
def decodedOf (w : ReceivePath) (c : Nat) : List Bytes :=
  (w.decoded.filter fun r => r.1 = c).map Prod.snd

end ReceivePath

end CoplusLean.Server
