import CoplusLean.Models.Protocol
import Mathlib.Logic.Function.Basic

/-!
# The database of the server

`database_` lists every connection the server has accepted; an entry stays when its client is
closed. `Serve` pushes an entry under the lock, reads the size afterwards without it, and the
thread it starts knows the connection by that id. Clients ask for a relay by id.
-/

namespace CoplusLean.Server

open Lib

abbrev SOCKET := UInt64

/-- `INVALID_SOCKET` -/
def invalidSocket : SOCKET := 0xFFFFFFFFFFFFFFFF

structure ClientSocketInfo where
  handle : SOCKET
  addr : Bytes
  status : Bool
  /-- The accepted connection the entry was pushed for; the code keeps no such number. -/
  conn : Nat
deriving DecidableEq

/-- `database_[id]`, behind the check that every access by id makes. -/
def entry (database : List ClientSocketInfo) (id : Int) : Option ClientSocketInfo :=
  if id < 0 ∨ id ≥ database.length then none else database[id.toNat]?

def getClient (database : List ClientSocketInfo) (id : Int) : SOCKET :=
  match entry database id with
  | none => invalidSocket
  | some client => client.handle

/-- `CloseClient` on the database; it closes the handle of the same entry. -/
def closeClient (database : List ClientSocketInfo) (id : Int) : List ClientSocketInfo :=
  match entry database id with
  | none => database
  | some client => database.set id.toNat { client with status := false }

/-! ## `Serve` loops -/

/-- A connection as `accept` returns it; the number counts the connections. -/
structure Connection where
  conn : Nat
  client : SOCKET
deriving DecidableEq

/-- Where a `Serve` loop is: before `accept`, before the push, before the size is read. -/
inductive LoopState where
  | accepting
  | accepted (c : Connection)
  | pushed (c : Connection)
deriving DecidableEq

/-- The thread of a connection, with the id it has captured. -/
structure Handler where
  connection : Connection
  id : Int
  running : Bool
deriving DecidableEq

structure ServeWorld where
  database : List ClientSocketInfo
  loops : Nat → LoopState
  handlers : List Handler
  /-- The number of connections accepted so far. -/
  accepts : Nat
  /-- The calls of `closesocket`: the connection of the thread and that of the entry. -/
  closes : List (Nat × Nat)

inductive ServeStep where
  | accept (loop : Nat) (client : SOCKET)
  | push (loop : Nat) (addr : Bytes)
  | start (loop : Nat)
  | close (handler : Nat)
deriving DecidableEq

namespace ServeWorld

def init : ServeWorld := ⟨[], fun _ => .accepting, [], 0, []⟩

/-- The thread `k` leaves its loop and calls `CloseClient`. -/
def closeHandler (w : ServeWorld) (k : Nat) (h : Handler) : ServeWorld :=
  { w with
    database := closeClient w.database h.id
    handlers := w.handlers.set k { h with running := false }
    closes := w.closes ++ (entry w.database h.id).toList.map fun e => (h.connection.conn, e.conn) }

def step (w : ServeWorld) : ServeStep → Option ServeWorld
  | .accept l client =>
    match w.loops l with
    | .accepting => some { w with
        loops := Function.update w.loops l (.accepted ⟨w.accepts, client⟩)
        accepts := w.accepts + 1 }
    | _ => none
  | .push l addr =>
    match w.loops l with
    | .accepted c => some { w with
        database := w.database ++ [⟨c.client, addr, true, c.conn⟩]
        loops := Function.update w.loops l (.pushed c) }
    | _ => none
  | .start l =>
    match w.loops l with
    | .pushed c => some { w with
        loops := Function.update w.loops l .accepting
        handlers := w.handlers ++ [⟨c, int32 (w.database.length - 1), true⟩] }
    | _ => none
  | .close k =>
    match w.handlers[k]? with
    | some h => if h.running then some (w.closeHandler k h) else none
    | none => none

end ServeWorld

/-! ## Relays -/

structure RelayWorld where
  database : List ClientSocketInfo
  /-- The connection that is open behind a handle. -/
  system : SOCKET → Option Nat
  accepts : Nat
  /-- The relayed messages: the id asked for and the connection that was sent to. -/
  relayed : List (Int × Nat)

/-- The calls on one server. What `accept` returns is up to the system. A relay is asked for on
the socket `sender`; `captured` is what the static `dispatch` reads as `sender`, the parameter
of the first call of the lambda around it. -/
inductive RelayStep where
  | accept (client : SOCKET) (addr : Bytes)
  | closeClient (id : Int)
  | getClient (id : Int)
  | relay (sender captured : SOCKET) (id : Int)
deriving DecidableEq

namespace RelayWorld

def init : RelayWorld := ⟨[], fun _ => none, 0, []⟩

def step (w : RelayWorld) : RelayStep → Option RelayWorld
  | .accept client addr =>
    -- the system gives a handle that no open connection has
    if client ≠ invalidSocket ∧ w.system client = none then
      some { w with
        database := w.database ++ [⟨client, addr, true, w.accepts⟩]
        system := Function.update w.system client (some w.accepts)
        accepts := w.accepts + 1 }
    else none
  | .closeClient id =>
    match entry w.database id with
    | none => some w
    | some client => some { w with
        database := Server.closeClient w.database id
        system := Function.update w.system client.handle none }
  | .getClient _ => some w
  | .relay sender captured id =>
    let target := Server.getClient w.database id
    if target = invalidSocket then some w
    -- the message is the answer to the client that asked
    else if target = captured then
      some { w with relayed := w.relayed ++ (w.system sender).toList.map (id, ·) }
    else some { w with relayed := w.relayed ++ (w.system target).toList.map (id, ·) }

end RelayWorld

end CoplusLean.Server
