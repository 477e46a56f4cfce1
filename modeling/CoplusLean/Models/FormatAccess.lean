import CoplusLean.Models.FormatMessage

/-!
# What `format_message` accesses

The accesses of `format_message` in the order in which they are made, each with the bound
that it must respect: characters of the message, elements of vectors and the starts of
`substr`. Behind the first access out of range nothing is known of the program, and what the
list says from there on does not matter.
-/

namespace CoplusLean

open Lib

/-- An access, and the size of what it is made to. -/
inductive Access where
  | char (offset : Int) (size : Nat)
  | element (index size : Nat)
  | substr (start size : Nat)
deriving DecidableEq, Repr

/-- The character behind the last one is the terminating null, and `substr` may start there. -/
def Access.InRange : Access → Prop
  | char offset size => 0 ≤ offset ∧ offset ≤ size
  | element index size => index < size
  | substr start size => start ≤ size

instance (a : Access) : Decidable a.InRange := by
  cases a <;> unfold Access.InRange <;> infer_instance

namespace StringUtil

/-- One turn of the loop of `split`: where the next piece begins and where it ends. -/
def nextPiece (str token : Bytes) (cur : Int) : Option (Int × Int) :=
  let cur := findFirstNotOf str token cur
  if cur = -1 then none
  else
    let next := findFirstOf str token cur
    some (cur, if next = -1 then int32 str.length else next)

def splitLoopAccesses (str token : Bytes) : Nat → Int → List Access
  | 0, _ => []
  | fuel + 1, cur =>
    match nextPiece str token cur with
    | none => []
    | some (cur, next) =>
      (if next > cur then [.substr (sizeT cur) str.length] else []) ++
        splitLoopAccesses str token fuel (int32 (next + 1))

def splitAccesses (str token : Bytes) : List Access :=
  splitLoopAccesses str token (str.length + 1) 0

end StringUtil

namespace Protocol

/-- The loop over the entries behind the header; `layout` is the size of `minLayout`. -/
def entriesAccesses (columns layout size : Nat) : List Bytes → Nat → List Bytes → List Access
  | [], _, _ => []
  | entry :: entries, i, content =>
    .element i size :: (StringUtil.splitAccesses entry [44] ++
      match StringUtil.split entry [44] content with
      | none => []
      | some (content, cnt) =>
        if sizeT cnt ≠ columns then []
        else
          ((List.range columns).flatMap fun j =>
            [.element j layout, .element (columns * (i - 1) + j) content.length]) ++
          entriesAccesses columns layout size entries (i + 1) content)

/-- The loops behind the parsing: the widths, the header and the complete rows. -/
def printAccesses (header content : List Bytes) (layout : Nat) : List Access :=
  (List.range layout).map (.element · layout) ++
  ((List.range header.length).flatMap fun i => [.element i layout, .element i header.length]) ++
  (List.range (header.length * (content.length / header.length))).flatMap fun i =>
    [.element (i % header.length) layout, .element i content.length]

def headerAccesses (entries : List Bytes) (header : List Bytes) : List Access :=
  (List.range header.length).map (.element · header.length) ++
  entriesAccesses header.length header.length entries.length (entries.drop 1) 1 [] ++
  match formatEntries header.length (entries.drop 1) 1 [] (header.map List.length) with
  | some (some (content, minLayout)) => printAccesses header content minLayout.length
  | _ => []

def listAccesses (completeStr : Bytes) : List Access :=
  .substr (minimumLen + 1) completeStr.length ::
    (StringUtil.splitAccesses (completeStr.drop (minimumLen + 1)) [59] ++
      match StringUtil.split (completeStr.drop (minimumLen + 1)) [59] [] with
      | none => []
      | some ([], _) => [.element 0 0]
      | some (first :: rest, _) =>
        .element 0 (rest.length + 1) :: (StringUtil.splitAccesses first [44] ++
          match StringUtil.split first [44] [] with
          | none => []
          | some (header, _) =>
            if header.length = 0 then [] else headerAccesses (first :: rest) header))

def directAccesses (completeStr : Bytes) : List Access :=
  (if addrEnd completeStr = -1 then [] else [.substr (minimumLen + 3) completeStr.length]) ++
    [.char (addrEnd completeStr + 2) completeStr.length]

def contentAccesses (completeStr : Bytes) : List Access :=
  if completeStr.length = minimumLen then []
  else
    .char minimumLen completeStr.length ::
      match charAt completeStr minimumLen with
      | none => []
      | some rawType =>
        if rawType = 108 then listAccesses completeStr
        else if rawType = 100 then directAccesses completeStr
        else [.char (minimumLen + 1) completeStr.length]

/-- The accesses of `format_message`: the type, the length, the content, and where it has not
returned before, the part that the caller asked for. -/
def formatAccesses (completeStr : Bytes) (get : Nat) : List Access :=
  (List.range 5).map (fun i => .char i completeStr.length) ++ contentAccesses completeStr ++
    match formatContent completeStr with
    | some (_, false) =>
      if get &&& kGetContent ≠ 0 ∧ completeStr.length > minimumLen then
        [.substr (minimumLen + 1) completeStr.length]
      else []
    | _ => []

end Protocol

end CoplusLean
