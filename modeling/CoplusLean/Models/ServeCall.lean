import CoplusLean.Models.ServerDatabase

/-!
# One call of `Serve` and its `Close`

The loop of `Serve` accepts connections and starts a thread for each of them; it ends when
`accept` fails or when the flag `close_` is set, and then it joins all threads. `Close` sets the
flag and closes the sockets of `delegated_list_`. Each critical section, each call of the
system and each load of the flag is one step; what the calls of the system return and how many
answers a chunk has is part of the labels.
-/

namespace CoplusLean.Server

open Lib

/-- Where the call of `Serve` is. -/
inductive ServePhase where
  | registering
  | listening
  | accepting
  | accepted (client : SOCKET)
  | pushed (client : SOCKET)
  | guard
  | joining (thread : Nat)
  | closing
  | returned (result : Bool)
deriving DecidableEq

/-- Where the thread of a connection is: in `recv`, with answers left to send, at the guard of
its loop, in front of `CloseClient`, or past it. -/
inductive ThreadPhase where
  | receiving
  | sending (answers : Nat)
  | guard
  | leaving
  | ended
deriving DecidableEq

/-- The thread of a connection with what it has captured. -/
structure ServeThread where
  client : SOCKET
  id : Int
  phase : ThreadPhase
deriving DecidableEq

/-- What `recv` returns: a chunk that has so many answers, the end of the connection, or an
error. -/
inductive Received where
  | chunk (answers : Nat)
  | closed
  | error
deriving DecidableEq

/-- Who has called `closesocket` on the socket that is listened to. -/
inductive ListenerClose where
  | serve
  | close
deriving DecidableEq

/-- `delegated` says whether the socket is in `delegated_list_`, and `closers` counts the calls
of `Close` that have set the flag and not yet taken `list_lock_`. The last two fields log the
calls of `closesocket`: the connections of the entries, and the socket that is listened to. -/
structure ServeCall where
  phase : ServePhase
  database : List ClientSocketInfo
  threads : List ServeThread
  close : Bool
  delegated : Bool
  closers : Nat
  clientCloses : List Nat
  listenerCloses : List ListenerClose

/-- A step of the thread of a connection. -/
inductive ThreadStep where
  | recv (received : Received)
  | send (ok : Bool)
  | guard
  | leave
deriving DecidableEq

inductive ServeCallStep where
  | register
  | listen (ok : Bool)
  | accept (client : SOCKET)
  | push (addr : Bytes)
  | start
  | guard
  | join
  | closeListener
  | thread (thread : Nat) (act : ThreadStep)
  | storeClose
  | closeList
deriving DecidableEq

/-- In front of the next of `answers` sends, or behind the last one. -/
def sendPhase : Nat → ThreadPhase
  | 0 => .guard
  | answers + 1 => .sending (answers + 1)

/-- The loop of a thread, when `close` is the flag. -/
def threadStep (close : Bool) : ThreadPhase → ThreadStep → Option ThreadPhase
  | .receiving, .recv (.chunk answers) => some (sendPhase answers)
  | .receiving, .recv _ => some .leaving
  | .sending (answers + 1), .send ok => some (if ok then sendPhase answers else .leaving)
  | .guard, .guard => some (if !close then .receiving else .leaving)
  | .leaving, .leave => some .ended
  | _, _ => none

namespace ServeCall

def init : ServeCall := ⟨.registering, [], [], false, false, 0, [], []⟩

def setThread (w : ServeCall) (thread : Nat) (t : ServeThread) (phase : ThreadPhase) : ServeCall :=
  { w with threads := w.threads.set thread { t with phase := phase } }

/-- `CloseClient(id)`, and the thread returns. -/
def closeThread (w : ServeCall) (thread : Nat) (t : ServeThread) : ServeCall :=
  { w.setThread thread t .ended with
    database := closeClient w.database t.id
    clientCloses := w.clientCloses ++ (entry w.database t.id).toList.map (·.conn) }

def step (w : ServeCall) : ServeCallStep → Option ServeCall
  | .register =>
    if w.phase = .registering then some { w with phase := .listening, delegated := true } else none
  | .listen ok =>
    if w.phase = .listening then
      if ok then some { w with phase := .accepting }
      else some { w with phase := .returned false, listenerCloses := w.listenerCloses ++ [.serve] }
    else none
  | .accept client =>
    if w.phase = .accepting then
      some { w with phase := if client = invalidSocket then .joining 0 else .accepted client }
    else none
  | .push addr =>
    match w.phase with
    | .accepted client => some { w with
        phase := .pushed client
        database := w.database ++ [⟨client, addr, true, w.database.length⟩] }
    | _ => none
  | .start =>
    match w.phase with
    | .pushed client => some { w with
        phase := .guard
        threads := w.threads ++ [⟨client, int32 (w.database.length - 1), .receiving⟩] }
    | _ => none
  | .guard =>
    if w.phase = .guard then some { w with phase := if !w.close then .accepting else .joining 0 }
    else none
  | .join =>
    match w.phase with
    | .joining k =>
      match w.threads[k]? with
      | some t => if t.phase = .ended then some { w with phase := .joining (k + 1) } else none
      | none => some { w with phase := .closing }
    | _ => none
  | .closeListener =>
    if w.phase = .closing then
      some { w with phase := .returned true, listenerCloses := w.listenerCloses ++ [.serve] }
    else none
  | .thread k act =>
    match w.threads[k]? with
    | some t => (threadStep w.close t.phase act).map fun phase =>
        if phase = .ended then w.closeThread k t else w.setThread k t phase
    | none => none
  | .storeClose => some { w with close := true, closers := w.closers + 1 }
  | .closeList =>
    if w.closers = 0 then none
    else some { w with
      closers := w.closers - 1
      listenerCloses := w.listenerCloses ++ if w.delegated then [.close] else [] }

end ServeCall

end CoplusLean.Server
