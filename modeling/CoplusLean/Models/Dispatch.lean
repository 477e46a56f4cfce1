import CoplusLean.Lib.Decimal
import CoplusLean.Models.FormatMessage
import CoplusLean.Models.ServerDatabase

/-!
# How the server answers

The response lambda runs `parse` and `dispatch` in turns over what `recv` delivered. A turn
in which nothing was decoded dispatches the content of an earlier turn again. `dispatch`
compares the content with the markers `time`, `name`, `list` and `relay`; its answer goes
back to the client that asked, and a relay sends one more message. The thread of the connection sends
the answers one by one before it receives again.
-/

namespace CoplusLean

open Lib

namespace Protocol

/-- The overload of `pickle_message` for a message that names its sender. -/
def directMessage (type : MessageType) (addr request : Bytes) : Message :=
  ⟨type, [58, 58] ++ addr ++ [58, 58] ++ request, 100⟩

/-- `content.substr(pos)`, which throws behind the end. -/
def substrFrom (s : Bytes) (pos : Int) : Option Bytes :=
  if sizeT pos ≤ s.length then some (s.drop (sizeT pos)) else none

end Protocol

namespace Server

open Protocol

/-- `"invalid request"`; it is sent without a frame. -/
def invalidRequest : Bytes :=
  [105, 110, 118, 97, 108, 105, 100, 32, 114, 101, 113, 117, 101, 115, 116]

/-- `"invalid relay target"` -/
def invalidRelayTarget : Bytes :=
  [105, 110, 118, 97, 108, 105, 100, 32, 114, 101, 108, 97, 121, 32, 116, 97, 114, 103, 101, 116]

/-- `"relay status = "` -/
def relayStatus : Bytes := [114, 101, 108, 97, 121, 32, 115, 116, 97, 116, 117, 115, 32, 61, 32]

/-- `"time"`, `"name"`, `"list"` and `"relay"`. -/
def timeMarker : Bytes := [116, 105, 109, 101]

def nameMarker : Bytes := [110, 97, 109, 101]

def listMarker : Bytes := [108, 105, 115, 116]

def relayMarker : Bytes := [114, 101, 108, 97, 121]

/-- The header of `OutputDatabase`: `id`, `address`, `status`. -/
def databaseHeader : List Bytes :=
  [[105, 100], [97, 100, 100, 114, 101, 115, 115], [115, 116, 97, 116, 117, 115]]

/-- The entries of `OutputDatabase`, from the client with this id on. -/
def databaseEntries : Nat → List ClientSocketInfo → List Bytes
  | _, [] => []
  | id, client :: database =>
    [decimal id, client.addr, if client.status then [111, 110] else [111, 102, 102]] ++
      databaseEntries (id + 1) database

/-- What a call of `dispatch` finds: what it reads as `sender`, the text of the clock, the
database, the addresses that `getpeername` gives, and which sockets `send` succeeds on.
`dispatch` is static and has captured the parameter `sender` of the first call of the lambda
around it, by reference: it reads the socket of the first client, whoever asks, or what stands
in the place of that parameter by now. -/
structure Environment where
  captured : SOCKET
  describe : Bytes
  database : List ClientSocketInfo
  getPeerAddr : SOCKET → Bytes
  sends : SOCKET → Bool

/-- The branch for relays: the answer, and the message that is sent to another client. -/
def relay (env : Environment) (content : Bytes) : Option (Bytes × Option (SOCKET × Bytes)) := do
  let target := getClient env.database (atoi (content.drop 5))
  if target = invalidSocket then
    return (pickleMessage ⟨.kResponse, invalidRelayTarget, 116⟩, none)
  let text ← substrFrom content (findInt content [58] + 1)
  let direct := pickleMessage (directMessage .kDirect (env.getPeerAddr env.captured) text)
  if target = env.captured then return (direct, none)
  if env.sends target then
    return (pickleMessage ⟨.kResponse, relayStatus ++ [49], 116⟩, some (target, direct))
  return (pickleMessage ⟨.kResponse, relayStatus ++ [48], 116⟩, none)

/-- The lambda `dispatch` of a server called `name`. -/
def dispatch (name : Bytes) (env : Environment) (content : Bytes) :
    Option (Bytes × Option (SOCKET × Bytes)) :=
  if content.length < 4 then some (invalidRequest, none)
  else if content.take 4 = timeMarker then
    some (pickleMessage ⟨.kResponse, env.describe, 116⟩, none)
  else if content.take 4 = nameMarker then some (pickleMessage ⟨.kResponse, name, 116⟩, none)
  else if content.take 4 = listMarker then
    some (pickleList .kResponse databaseHeader (databaseEntries 0 env.database), none)
  else if content.length ≥ 5 ∧ content.take 5 = relayMarker then relay env content
  else some (invalidRequest, none)

/-- What one call of the response lambda comes to: the static variables afterwards, the vector
`ret`, and the messages that relays have sent. -/
structure Response where
  receiver : Receiver
  ret : List Bytes
  relayed : List (SOCKET × Bytes)
deriving DecidableEq

/-- The `content` after a turn. -/
def contentAfter (content : Bytes) (decoded : Option Bytes) : Option Bytes :=
  match decoded with
  | none => some content
  | some completeStr => (formatMessage completeStr kGetContent).map Prod.snd

/-- The loop of the lambda. The calls of `dispatch` are counted by `turn`; every turn moves
on, so the length of the line bounds their number. -/
def respondLoop (name : Bytes) (env : Nat → Environment) :
    Nat → Nat → Receiver → Bytes → Bytes → Option Response
  | 0, _, s, _, _ => some ⟨s, [], []⟩
  | fuel + 1, turn, s, content, line =>
    if line = [] then some ⟨s, [], []⟩
    else do
      let parsed := s.parse line
      let content ← contentAfter content parsed.decoded
      if parsed.delta < 0 then return ⟨parsed.state, [], []⟩
      let (str, relayed) ← dispatch name (env turn) content
      let rest ← respondLoop name env fuel (turn + 1) parsed.state content
        (line.drop parsed.delta.toNat)
      return ⟨rest.receiver, if str.length > 0 then str :: rest.ret else rest.ret,
        relayed.toList ++ rest.relayed⟩

/-- The response lambda. -/
def respond (name : Bytes) (env : Nat → Environment) (s : Receiver) (line : Bytes) :
    Option Response :=
  respondLoop name env line.length 0 s [] line

/-! ## The service -/

/-- The sends of the relays, in order. -/
def sendAll {α : Type*} (sent : SOCKET → List α) (relayed : List (SOCKET × α)) :
    SOCKET → List α :=
  relayed.foldl (fun sent r => Function.update sent r.1 (sent r.1 ++ [r.2])) sent

/-- Between two calls: the static variables of the lambda, the answers that the thread of a
connection still has to send, and what was sent to each socket, in order. -/
structure ServiceWorld where
  receiver : Receiver
  resps : SOCKET → List Bytes
  sent : SOCKET → List Bytes

/-- `recv` returns a chunk and the lambda is called, or the thread of a connection sends an
answer, or that `send` fails and the thread ends. -/
inductive ServiceStep where
  | deliver (sender : SOCKET) (chunk : Bytes) (env : Nat → Environment)
  | reply (sender : SOCKET)
  | hangUp (sender : SOCKET)

namespace ServiceWorld

def init : ServiceWorld := ⟨Receiver.init, fun _ => [], fun _ => []⟩

def step (name : Bytes) (w : ServiceWorld) : ServiceStep → Option ServiceWorld
  | .deliver sender chunk env =>
    if w.resps sender = [] then
      (respond name env w.receiver chunk).map fun response =>
        ⟨response.receiver, Function.update w.resps sender response.ret,
          sendAll w.sent response.relayed⟩
    else none
  | .reply sender =>
    match w.resps sender with
    | [] => none
    | r :: resps => some { w with
        resps := Function.update w.resps sender resps
        sent := Function.update w.sent sender (w.sent sender ++ [r]) }
  | .hangUp sender =>
    match w.resps sender with
    | [] => none
    | _ :: _ => some { w with resps := Function.update w.resps sender [] }

end ServiceWorld

end Server

end CoplusLean
