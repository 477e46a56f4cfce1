import CoplusLean.Lib.Run
import CoplusLean.Proofs.ServiceAnswers

/-!
# Runs of the service

The service on the level of packets, next to the one on bytes. When every `recv` delivers
whole frames the two go step by step together, so what the first one promises to each client
holds of the bytes that are sent to it.
-/

namespace CoplusLean.Server

open Lib Protocol

variable {name : Bytes} {env : Nat → Environment} {sender c : SOCKET}

/-! ## Packets -/

/-- What is sent to a client: the answer to a request of its own, or what another relays. -/
inductive Sent where
  | reply (p : Packet)
  | relayed (m : Message)
deriving DecidableEq

def Sent.packet : Sent → Packet
  | .reply p => p
  | .relayed m => .frame m

def Sent.bytes (s : Sent) : Bytes := s.packet.bytes

def Sent.reply? : Sent → Option Packet
  | .reply p => some p
  | .relayed _ => none

def Sent.relayed? : Sent → Option Message
  | .reply _ => none
  | .relayed m => some m

structure AnswerWorld where
  resps : SOCKET → List Packet
  sent : SOCKET → List Sent

inductive AnswerStep where
  | deliver (sender : SOCKET) (requests : List Message) (env : Nat → Environment)
  | reply (sender : SOCKET)
  | hangUp (sender : SOCKET)

/-- The frames of the requests arrive in one chunk. -/
def AnswerStep.bytes : AnswerStep → ServiceStep
  | .deliver sender requests env => .deliver sender (requests.flatMap pickleMessage) env
  | .reply sender => .reply sender
  | .hangUp sender => .hangUp sender

namespace AnswerWorld

def init : AnswerWorld := ⟨fun _ => [], fun _ => []⟩

def step (name : Bytes) (w : AnswerWorld) : AnswerStep → Option AnswerWorld
  | .deliver sender requests env =>
    if w.resps sender = [] then
      let answers := answers name env 0 requests
      some ⟨Function.update w.resps sender (answers.map Prod.fst),
        sendAll w.sent ((relays answers).map fun r => (r.1, .relayed r.2))⟩
    else none
  | .reply sender =>
    match w.resps sender with
    | [] => none
    | p :: resps => some
      ⟨Function.update w.resps sender resps,
        Function.update w.sent sender (w.sent sender ++ [.reply p])⟩
  | .hangUp sender =>
    match w.resps sender with
    | [] => none
    | _ :: _ => some { w with resps := Function.update w.resps sender [] }

/-- The service on bytes in the same state; between two calls its receiver waits for a head. -/
def bytes (w : AnswerWorld) : ServiceWorld :=
  ⟨Receiver.init, fun c => (w.resps c).map Packet.bytes, fun c => (w.sent c).map Sent.bytes⟩

end AnswerWorld

section sends

variable {α β : Type*} {f : α → β} {sent : SOCKET → List α}

/-- Every socket gets what is meant for it, in order. -/
lemma sendAll_apply (sent : SOCKET → List α) (relayed : List (SOCKET × α)) (c : SOCKET) :
    sendAll sent relayed c = sent c ++ (relayed.filter fun r => r.1 = c).map Prod.snd := by
  induction relayed generalizing sent with
  | nil => rw [List.filter_nil, List.map_nil, List.append_nil]; rfl
  | cons r relayed ih =>
    have hrest := ih (Function.update sent r.1 (sent r.1 ++ [r.2]))
    rw [sendAll] at hrest
    rw [sendAll, List.foldl_cons, hrest]
    by_cases hc : r.1 = c
    · subst hc
      simp
    · rw [Function.update_of_ne (Ne.symm hc), List.filter_cons_of_neg (by simpa using hc)]

end sends

/-- The answers that a step owes to `c`. -/
def AnswerStep.due (name : Bytes) (c : SOCKET) : AnswerStep → List Packet
  | .deliver sender requests env =>
    if sender = c then (answers name env 0 requests).map Prod.fst else []
  | _ => []

/-- The messages that a step relays to `c`. -/
def AnswerStep.relaysTo (name : Bytes) (c : SOCKET) : AnswerStep → List Message
  | .deliver _ requests env =>
    ((relays (answers name env 0 requests)).filter fun r => r.1 = c).map Prod.snd
  | _ => []

def AnswerWorld.relayed (w : AnswerWorld) (c : SOCKET) : List Message :=
  (w.sent c).filterMap Sent.relayed?

variable {w v : AnswerWorld} {a : AnswerStep}

/-- A relay adds no answer, and an answer no relay. -/
lemma sent_deliver (as : List Answer) (c : SOCKET) :
    sendAll w.sent ((relays as).map fun r => (r.1, Sent.relayed r.2)) c =
      w.sent c ++ (((relays as).filter fun r => r.1 = c).map Prod.snd).map Sent.relayed := by
  rw [sendAll_apply, List.filter_map, List.map_map, List.map_map]
  rfl

/-- What a client has been sent when the service is in the state `w`: packets in some order,
of which the answers, with those still to be sent, are all that the run owes to it, in order,
and the others all that the run relays to it, in order. -/
structure Served (name : Bytes) (run : List AnswerStep) (c : SOCKET) (w : ServiceWorld)
    (packets : List Sent) (waiting : List Packet) : Prop where
  sent : w.sent c = packets.map Sent.bytes
  resps : w.resps c = waiting.map Packet.bytes
  answers : packets.filterMap Sent.reply? ++ waiting = run.flatMap (AnswerStep.due name c)
  relays : packets.filterMap Sent.relayed? = run.flatMap (AnswerStep.relaysTo name c)

end CoplusLean.Server
