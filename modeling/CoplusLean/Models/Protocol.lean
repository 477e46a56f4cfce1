import CoplusLean.Lib.MachineInt
import CoplusLean.Lib.Pieces
import CoplusLean.Lib.Search

/-!
# Frames of `Protocol` and the receivers of the demo programs

`pickle_message` builds a frame; `parse` is the lambda that the server and the client run
on what `recv` delivered, with its static variables `pending` and `pendingStr`. A decoded
message is the string that `parse` hands to `format_message`.
-/

namespace CoplusLean

open Lib

/-- A `std::string`. -/
abbrev Bytes := List UInt8

namespace Protocol

/-- The bytes of an `int` in memory, the low one first. -/
def intBytes (n : Int) : Bytes :=
  [.ofNat (uint32 n), .ofNat (uint32 n / 256), .ofNat (uint32 n / 65536),
    .ofNat (uint32 n / 16777216)]

/-- `app_head` is `0xDEADC0DE`. -/
def appHead : Bytes := [0xDE, 0xC0, 0xAD, 0xDE]

/-- `app_terminator` is `0xDEADBEEF`. -/
def appTerminator : Bytes := [0xEF, 0xBE, 0xAD, 0xDE]

inductive MessageType where
  | kDefault
  | kRequest
  | kDirect
  | kResponse
deriving DecidableEq, Repr

def MessageType.toByte : MessageType → UInt8
  | .kDefault => 0
  | .kRequest => 1
  | .kDirect => 2
  | .kResponse => 3

/-- The arguments of `pickle_message`. -/
structure Message where
  type : MessageType
  request : Bytes
  rawType : UInt8
deriving DecidableEq, Repr

/-- What stands between head and terminator: the length counts all of it. -/
def Message.body (m : Message) : Bytes :=
  m.type.toByte :: (intBytes (int32 (1 + 4 + 1 + m.request.length)) ++ m.rawType :: m.request)

def pickleMessage (m : Message) : Bytes := appHead ++ m.body ++ appTerminator

/-- The rows of a list, as long as there are cells for a whole row. The loop counts cells with
an `int`. -/
def pickleRows (columns : Nat) : Nat → List Bytes → Bytes
  | 0, _ => []
  | fuel + 1, entries =>
    if columns ≤ entries.length then
      join 44 (entries.take columns) ++ 59 :: pickleRows columns fuel (entries.drop columns)
    else []

/-- The request of a list: the header and the rows, `','` between cells and `';'` behind rows. -/
def pickleTable (header entries : List Bytes) : Bytes :=
  join 44 header ++ 59 :: pickleRows header.length entries.length entries

def listMessage (type : MessageType) (header entries : List Bytes) : Message :=
  ⟨type, pickleTable header entries, 108⟩

def pickleList (type : MessageType) (header entries : List Bytes) : Bytes :=
  if header.length = 0 then [] else pickleMessage (listMessage type header entries)

/-- `int i = s.find(pat)`, where `npos` becomes `-1`. -/
def findInt (s pat : Bytes) : Int :=
  match find pat s with
  | none => -1
  | some k => int32 k

/-- `s.substr(pos, count)` with the arguments converted to `size_t`. -/
def substr (s : Bytes) (pos count : Int) : Bytes := (s.drop (sizeT pos)).take (sizeT count)

/-- The static variables of the receiver. -/
structure Receiver where
  pending : Bool
  pendingStr : Bytes
deriving DecidableEq, Repr

namespace Receiver

def init : Receiver := ⟨false, []⟩

/-- The state after a call of `parse`, the message it decoded and its return value. -/
structure Parsed where
  state : Receiver
  decoded : Option Bytes
  delta : Int
deriving DecidableEq, Repr

def parse (s : Receiver) (input : Bytes) : Parsed :=
  let h := findInt input appHead
  let t := findInt input appTerminator
  if h ≠ -1 ∧ s.pending = false then
    if t ≠ -1 then ⟨s, some (substr input (h + 4) (t - h - 4)), int32 (t + 4)⟩
    else ⟨⟨true, substr input (h + 4) (input.length - 4 - h - 4)⟩, none, -1⟩
  else if s.pending = true then
    if t ≠ -1 then ⟨⟨false, []⟩, some (s.pendingStr ++ substr input 0 t), int32 (t + 4)⟩
    else ⟨⟨true, s.pendingStr ++ input⟩, none, -1⟩
  else ⟨s, none, int32 (t + 4)⟩

/-- The loop over one chunk, from the position where `line` starts. Every turn moves on, so
the length of the chunk bounds the number of turns. -/
def parseLoop : Nat → Receiver → Bytes → Receiver × List Bytes
  | 0, s, _ => (s, [])
  | fuel + 1, s, line =>
    if line = [] then (s, [])
    else
      let parsed := s.parse line
      if parsed.delta < 0 then (parsed.state, parsed.decoded.toList)
      else
        let rest := parseLoop fuel parsed.state (line.drop parsed.delta.toNat)
        (rest.1, parsed.decoded.toList ++ rest.2)

/-- One chunk delivered by `recv`. -/
def receive (s : Receiver) (chunk : Bytes) : Receiver × List Bytes :=
  parseLoop chunk.length s chunk

/-- The chunks in order; the result lists all decoded messages. -/
def feed : Receiver → List Bytes → List Bytes
  | _, [] => []
  | s, chunk :: chunks =>
    let received := s.receive chunk
    received.2 ++ feed received.1 chunks

end Receiver

end Protocol

end CoplusLean
