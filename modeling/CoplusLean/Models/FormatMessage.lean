import CoplusLean.Models.Protocol

/-!
# `format_message`

The receivers hand every message they cut out of a frame to `format_message`, which prints
it and returns the part of it that the caller asked for. Reads behind the end of a string
or of a vector have no result.
-/

namespace CoplusLean

open Lib

namespace StringUtil

/-- `int i = s.find_first_of(token, pos)`, with `npos` as `-1`. -/
def findFirstOf (s token : Bytes) (pos : Int) : Int :=
  match (s.drop (sizeT pos)).findIdx? (· ∈ token) with
  | none => -1
  | some k => int32 (sizeT pos + k)

/-- `int i = s.find_first_not_of(token, pos)`. -/
def findFirstNotOf (s token : Bytes) (pos : Int) : Int :=
  match (s.drop (sizeT pos)).findIdx? (· ∉ token) with
  | none => -1
  | some k => int32 (sizeT pos + k)

/-- The loop of `split`, from `cur`. A string that an `int` can count is left behind after
at most one turn for each of its characters. -/
def splitLoop (str token : Bytes) : Nat → Int → List Bytes → Option (List Bytes)
  | 0, _, _ => none
  | fuel + 1, cur, ret =>
    let cur := findFirstNotOf str token cur
    if cur = -1 then some ret
    else
      let next := findFirstOf str token cur
      let next := if next = -1 then int32 str.length else next
      if next > cur then
        -- a `substr` from behind the end throws
        if sizeT cur ≤ str.length then
          splitLoop str token fuel (int32 (next + 1))
            (ret ++ [Protocol.substr str cur (next - cur)])
        else none
      else splitLoop str token fuel (int32 (next + 1)) ret

/-- `split(str, token, ret)`: the vector afterwards and the number of elements it gained. -/
def split (str token : Bytes) (ret : List Bytes) : Option (List Bytes × Int) :=
  (splitLoop str token (str.length + 1) 0 ret).map fun ret' =>
    (ret', int32 (ret'.length - ret.length))

end StringUtil

namespace Protocol

/-- Length of type and length field. -/
def minimumLen : Nat := 5

/-- The bits of `GetType`. -/
def kGetType : Nat := 1

def kGetContent : Nat := 2

def kGetLength : Nat := 4

/-- What `format_message` writes to its stream, piece by piece. -/
inductive Printed where
  | brokenPackage (completeStr : Bytes)
  | type (name : Option String)
  | length (len : Int)
  | noMessage
  | list
  | nullHeader
  | brokenEntry
  | row (cells : List (Bytes × Nat))
  | senderBroke
  | sender (addr : Bytes)
  | message (text : Bytes)
deriving DecidableEq, Repr

/-- `minLayout[i] - cell.size()`, an `int` minus a `size_t`. -/
def padding (cell : Bytes) (width : Nat) : Nat := sizeT (int32 width - cell.length)

/-- A cell of a row: `d / 2.0` and `d / 2.0 + 0.9` are rounded down. -/
def cellText (cell : Bytes × Nat) : Bytes :=
  124 :: (List.replicate (padding cell.1 cell.2 / 2) 32 ++ cell.1 ++
    List.replicate ((padding cell.1 cell.2 + 1) / 2) 32)

/-- The line that a row prints. -/
def lineText (row : List (Bytes × Nat)) : Bytes := row.flatMap cellText ++ [124]

/-- `s[i]`, where the character behind the last one is the terminating null. -/
def charAt (s : Bytes) (i : Nat) : Option UInt8 := (s ++ [0])[i]?

/-- The `int` at `s.c_str() + i`. -/
def intAt (s : Bytes) (i : Nat) : Option Int := do
  let b₀ ← charAt s i
  let b₁ ← charAt s (i + 1)
  let b₂ ← charAt s (i + 2)
  let b₃ ← charAt s (i + 3)
  return int32 (b₀.toNat + 256 * b₁.toNat + 65536 * b₂.toNat + 16777216 * b₃.toNat)

/-- The C string at `s.c_str() + i`. -/
def textAt (s : Bytes) (i : Int) : Option Bytes :=
  if 0 ≤ i ∧ i ≤ s.length then some ((s.drop i.toNat).takeWhile (· ≠ 0)) else none

def typeName (type : UInt8) : Option String :=
  if type = 0 then some "default"
  else if type = 1 then some "request"
  else if type = 2 then some "direct"
  else if type = 3 then some "response"
  else none

/-- `minLayout[j] = max(minLayout[j], content[start + j].size())` for each column `j`. -/
def widen (content : List Bytes) (start : Nat) (minLayout : List Nat) (j : Nat) :
    Option (List Nat) := do
  let width ← minLayout[j]?
  let cell ← content[start + j]?
  return minLayout.set j (max width cell.length)

/-- The loop over the entries behind the header: all cells and the widths of the columns,
or nothing when an entry has the wrong number of cells. -/
def formatEntries (columns : Nat) :
    List Bytes → Nat → List Bytes → List Nat → Option (Option (List Bytes × List Nat))
  | [], _, content, minLayout => some (some (content, minLayout))
  | entry :: entries, i, content, minLayout => do
    let (content, cnt) ← StringUtil.split entry [44] content
    if sizeT cnt ≠ columns then return none
    let minLayout ← (List.range columns).foldlM (widen content (columns * (i - 1))) minLayout
    formatEntries columns entries (i + 1) content minLayout

/-- The rows of the table after the header. -/
def formatRows (columns : Nat) (minLayout : List Nat) : Nat → List Bytes → List Printed
  | 0, _ => []
  | fuel + 1, content =>
    if columns ≤ content.length then
      .row ((content.take columns).zip minLayout) ::
        formatRows columns minLayout fuel (content.drop columns)
    else []

/-- The branch for lists: what is printed, and whether the function returns early. -/
def formatList (completeStr : Bytes) : Option (List Printed × Bool) := do
  let (entries, _) ← StringUtil.split (completeStr.drop (minimumLen + 1)) [59] []
  let first ← entries[0]?
  let (header, _) ← StringUtil.split first [44] []
  if header.length = 0 then return ([.list, .nullHeader], true)
  match ← formatEntries header.length (entries.drop 1) 1 [] (header.map List.length) with
  | none => return ([.list, .brokenEntry], true)
  | some (content, minLayout) =>
    let minLayout := minLayout.map (· + 2)
    return (.list :: .row (header.zip minLayout) ::
      formatRows header.length minLayout content.length content, false)

/-- `int addr_end = completeStr.find("::", minimum_len + 3)`. -/
def addrEnd (completeStr : Bytes) : Int :=
  match find [58, 58] (completeStr.drop (minimumLen + 3)) with
  | none => -1
  | some k => int32 (minimumLen + 3 + k)

/-- The branch for messages that name their sender. -/
def formatDirect (completeStr : Bytes) : Option (List Printed) := do
  let sender :=
    if addrEnd completeStr = -1 then Printed.senderBroke
    else .sender (substr completeStr (minimumLen + 3) (addrEnd completeStr - minimumLen - 3))
  let text ← textAt completeStr (addrEnd completeStr + 2)
  return [sender, .message text]

/-- What is printed behind the length, and whether the function returns early. -/
def formatContent (completeStr : Bytes) : Option (List Printed × Bool) := do
  if completeStr.length = minimumLen then return ([.noMessage], false)
  let rawType ← charAt completeStr minimumLen
  if rawType = 108 then formatList completeStr
  else if rawType = 100 then return (← formatDirect completeStr, false)
  else return ([.message (← textAt completeStr (minimumLen + 1))], false)

/-- The output and the return value. -/
def formatMessage (completeStr : Bytes) (get : Nat) : Option (List Printed × Bytes) := do
  let broken := if completeStr.length < minimumLen then [Printed.brokenPackage completeStr] else []
  let type ← charAt completeStr 0
  let length ← intAt completeStr 1
  let (content, stop) ← formatContent completeStr
  let os := broken ++ .type (typeName type) :: .length length :: content
  if stop then return (os, [])
  let ret :=
    if get &&& kGetContent ≠ 0 ∧ completeStr.length > minimumLen then
      completeStr.drop (minimumLen + 1)
    else if get &&& kGetLength ≠ 0 then (toString length).toUTF8.toList
    else if get &&& kGetType ≠ 0 then ((typeName type).getD "").toUTF8.toList
    else []
  return (os, ret)

end Protocol

end CoplusLean
