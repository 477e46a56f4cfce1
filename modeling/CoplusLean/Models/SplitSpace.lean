import CoplusLean.Models.FormatMessage

/-!
# `split` at spaces, with a limit

The overload of `StringUtil::split` without a token. The limit `max_partition` is tested
before each turn, and what stands behind the position where the loop ends becomes the last
element. A `substr` from behind the end of the string throws.
-/

namespace CoplusLean.StringUtil

open Lib

/-- The half of the guard that is about `max_partition`. -/
def MayGoOn (count maxPartition : Int) (ret : List Bytes) : Prop :=
  maxPartition ≤ 0 ∨ sizeT (ret.length - count) < sizeT (maxPartition - 1)

instance (count maxPartition : Int) (ret : List Bytes) :
    Decidable (MayGoOn count maxPartition ret) :=
  inferInstanceAs (Decidable (_ ∨ _))

/-- The loop from `cur`: the position at which it ends and the vector there. -/
def splitSpaceLoop (str : Bytes) (count maxPartition : Int) :
    Nat → Int → List Bytes → Option (Int × List Bytes)
  | 0, _, _ => none
  | fuel + 1, cur, ret =>
    if MayGoOn count maxPartition ret then
      let cur := findFirstNotOf str [32] cur
      if cur = -1 then some (cur, ret)
      else
        let next := findFirstOf str [32] cur
        let next := if next = -1 then int32 str.length else next
        if next > cur then
          if sizeT cur ≤ str.length then
            splitSpaceLoop str count maxPartition fuel next
              (ret ++ [Protocol.substr str cur (next - cur)])
          else none
        else splitSpaceLoop str count maxPartition fuel next ret
    else some (cur, ret)

/-- What stands behind the last position is not split. -/
def pushTail (str : Bytes) (cur : Int) (ret : List Bytes) : List Bytes :=
  if sizeT cur < str.length then ret ++ [str.drop (sizeT cur)] else ret

/-- `split(str, ret, max_partition)`: the vector afterwards and the number of elements it
gained. -/
def splitSpace (str : Bytes) (ret : List Bytes) (maxPartition : Int) :
    Option (List Bytes × Int) :=
  let count := int32 ret.length
  (splitSpaceLoop str count maxPartition (str.length + 1) 0 ret).map fun (cur, ret) =>
    (pushTail str cur ret, int32 ((pushTail str cur ret).length - count))

/-- `split(str, ret, max_partition)` comes back with this, after however many turns. -/
def SplitSpaceReturns (str : Bytes) (ret : List Bytes) (maxPartition : Int)
    (out : List Bytes × Int) : Prop :=
  ∃ fuel cur ret', splitSpaceLoop str (int32 ret.length) maxPartition fuel 0 ret =
      some (cur, ret') ∧
    out = (pushTail str cur ret', int32 ((pushTail str cur ret').length - int32 ret.length))

/-- `split(str, token, ret)` comes back with this, after however many turns. -/
def SplitReturns (str token : Bytes) (ret : List Bytes) (out : List Bytes × Int) : Prop :=
  ∃ fuel ret', splitLoop str token fuel 0 ret = some ret' ∧
    out = (ret', int32 (ret'.length - int32 ret.length))

end CoplusLean.StringUtil
