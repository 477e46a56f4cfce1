import CoplusLean.Models.Dispatch
import CoplusLean.Proofs.MessageRoundTrip

/-!
# The service as its clients see it

A client asks for the time, the name or the list of clients, or for a relay, and the service
answers every request with one packet. A run of the service in which every `recv` delivers
whole frames does the same with bytes: each client gets the answers to its requests, in
order, and what others relay to it, in order, and nothing else.
-/

namespace CoplusLean.Server

open Lib Protocol

variable {name content : Bytes} {env : Environment} {c : SOCKET} {m : Message}
  {ms : List Message}

/-! ## Requests and answers -/

/-- What a client asks for. -/
inductive Request where
  | time
  | name
  | list
  | relay (id : Int) (text : Bytes)
  | other
deriving DecidableEq

/-- The text behind the first colon, or all of it when there is none. -/
def relayText (content : Bytes) : Bytes :=
  match find [58] content with
  | none => content
  | some k => content.drop (k + 1)

def readRequest (content : Bytes) : Request :=
  if timeMarker <+: content then .time
  else if nameMarker <+: content then .name
  else if listMarker <+: content then .list
  else if relayMarker <+: content then .relay (atoi (content.drop 5)) (relayText content)
  else .other

/-- A frame, or the text that answers what is no request. -/
inductive Packet where
  | frame (m : Message)
  | invalidRequest
deriving DecidableEq

def Packet.bytes : Packet → Bytes
  | .frame m => pickleMessage m
  | .invalidRequest => Server.invalidRequest

/-- A packet for the client that asked, and perhaps a message for another one. -/
abbrev Answer := Packet × Option (SOCKET × Message)

def answerRelay (env : Environment) (target : SOCKET) (text : Bytes) : Answer :=
  let direct := directMessage .kDirect (env.getPeerAddr env.captured) text
  if target = invalidSocket then (.frame ⟨.kResponse, invalidRelayTarget, 116⟩, none)
  else if target = env.captured then (.frame direct, none)
  else if env.sends target then
    (.frame ⟨.kResponse, relayStatus ++ [49], 116⟩, some (target, direct))
  else (.frame ⟨.kResponse, relayStatus ++ [48], 116⟩, none)

def answer (name : Bytes) (env : Environment) : Request → Answer
  | .time => (.frame ⟨.kResponse, env.describe, 116⟩, none)
  | .name => (.frame ⟨.kResponse, name, 116⟩, none)
  | .list =>
    (.frame (listMessage .kResponse databaseHeader (databaseEntries 0 env.database)), none)
  | .relay id text => answerRelay env (getClient env.database id) text
  | .other => (.invalidRequest, none)

/-- The answers to requests that arrive together, the first one in the turn `turn`. -/
def answers (name : Bytes) (env : Nat → Environment) :
    Nat → List Message → List Answer
  | _, [] => []
  | turn, m :: ms =>
    answer name (env turn) (readRequest m.request) ::
      answers name env (turn + 1) ms

/-- The messages that the answers relay. -/
def relays (as : List Answer) : List (SOCKET × Message) := as.filterMap Prod.snd

end CoplusLean.Server
