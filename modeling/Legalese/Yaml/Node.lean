import Legalese.Yaml.Token

/-!
# YAML nodes

The nodes of a document: scalars, sequences and mappings, each with the tag that it was
given.  Tokens are put together by the grammar of YAML.  An alias stands for the node of
its anchor, which has to come before it, and an anchor has one node.

The number that bounds the recursion is a multiple of the number of tokens: of two calls
one inside the other at least one uses up a token.
-/

namespace Legalese
namespace Yaml

inductive Node
  | scalar (tag : Option Tag) (text : String) (isPlain : Bool)
  | sequence (tag : Option Tag) (items : List Node)
  | mapping (tag : Option Tag) (fields : List (Node × Node))

namespace Node

/-- The node of a place where nothing stands. -/
def nothing : Node := scalar none "" true

abbrev Anchors := List (String × Node)

/-- Something put together from the front of a list of tokens, the rest of them, and the
anchors that are known then. -/
abbrev Front (α : Type) := α × List Token × Anchors

/-- The name of an anchor and the tag before a node, in either order. -/
def properties : List Token → Option String × Option Tag × List Token
  | .anchor a :: .tag t :: ts => (some a, some t, ts)
  | .tag t :: .anchor a :: ts => (some a, some t, ts)
  | .anchor a :: ts => (some a, none, ts)
  | .tag t :: ts => (none, some t, ts)
  | ts => (none, none, ts)

/-- Whether a place before some token is left empty. -/
def isLeftOut (ends : List Token) : List Token → Bool
  | [] => true
  | t :: _ => ends.contains t

mutual

/-- The next node.  `inBlock` says that a block collection may stand here, and `isValue`
that a sequence may stand in the column of its name. -/
def read (inBlock isValue : Bool) : Nat → List Token → Anchors → Option (Front Node)
  | 0, _, _ => none
  | fuel + 1, ts, known =>
    match ts with
    | .alias x :: ts => do
      let n ← known.lookup x
      return (n, ts, known)
    | _ => do
      let (anchor, tag, ts) := properties ts
      let (n, ts, known) ← readContent inBlock isValue anchor tag fuel ts known
      match anchor with
      | none => return (n, ts, known)
      | some a => if (known.lookup a).isSome then none else return (n, ts, (a, n) :: known)

/-- A node without its properties. -/
def readContent (inBlock isValue : Bool) (anchor : Option String) (tag : Option Tag) :
    Nat → List Token → Anchors → Option (Front Node)
  | 0, _, _ => none
  | fuel + 1, ts, known =>
    match ts with
    | .scalar s isPlain :: ts => some (scalar tag s isPlain, ts, known)
    | .bracketStart :: ts => do
      let (items, ts, known) ← readItems true fuel ts known
      return (sequence tag items, ts, known)
    | .braceStart :: ts => do
      let (fields, ts, known) ← readPairs true fuel ts known
      return (mapping tag fields, ts, known)
    | _ =>
      match inBlock, isValue, ts with
      | _, true, .entry :: _ => do
        let (items, ts, known) ← readEntries false fuel ts known
        return (sequence tag items, ts, known)
      | true, _, .sequenceStart :: ts => do
        let (items, ts, known) ← readEntries true fuel ts known
        return (sequence tag items, ts, known)
      | true, _, .mappingStart :: ts => do
        let (fields, ts, known) ← readFields fuel ts known
        return (mapping tag fields, ts, known)
      | _, _, _ =>
        if anchor.isSome || tag.isSome then some (scalar tag "" tag.isNone, ts, known) else none

/-- The entries of a block sequence.  One in the column of its name has no end token. -/
def readEntries (hasEnd : Bool) : Nat → List Token → Anchors → Option (Front (List Node))
  | 0, _, _ => none
  | fuel + 1, ts, known =>
    match ts with
    | .entry :: ts => do
      let ends := if hasEnd then [.entry, .blockEnd] else [.entry, .key, .value, .blockEnd]
      let (n, ts, known) ←
        if isLeftOut ends ts then some (nothing, ts, known) else read true false fuel ts known
      let (ns, ts, known) ← readEntries hasEnd fuel ts known
      return (n :: ns, ts, known)
    | .blockEnd :: rest => some ([], if hasEnd then rest else ts, known)
    | _ => if hasEnd then none else some ([], ts, known)

/-- The fields of a block mapping. -/
def readFields : Nat → List Token → Anchors → Option (Front (List (Node × Node)))
  | 0, _, _ => none
  | fuel + 1, ts, known =>
    match ts with
    | .key :: ts => do
      let ends := [.key, .value, .blockEnd]
      let (k, ts, known) ←
        if isLeftOut ends ts then some (nothing, ts, known) else read true true fuel ts known
      let (v, ts, known) ←
        match ts with
        | .value :: ts =>
          if isLeftOut ends ts then some (nothing, ts, known) else read true true fuel ts known
        | _ => some (nothing, ts, known)
      let (fs, ts, known) ← readFields fuel ts known
      return ((k, v) :: fs, ts, known)
    | .blockEnd :: ts => some ([], ts, known)
    | _ => none

/-- The items between brackets.  A pair without braces is a mapping of its own. -/
def readItems (isFirst : Bool) : Nat → List Token → Anchors → Option (Front (List Node))
  | 0, _, _ => none
  | fuel + 1, ts, known =>
    match isFirst, ts with
    | _, .bracketEnd :: ts => some ([], ts, known)
    | false, .comma :: ts => readItems true fuel ts known
    | false, _ => none
    | true, .key :: ts => do
      let (f, ts, known) ← readPair [.value, .comma, .bracketEnd] fuel ts known
      let (ns, ts, known) ← readItems false fuel ts known
      return (mapping none [f] :: ns, ts, known)
    | true, ts => do
      let (n, ts, known) ← read false false fuel ts known
      let (ns, ts, known) ← readItems false fuel ts known
      return (n :: ns, ts, known)

/-- The pairs between braces.  A lone key has no value. -/
def readPairs (isFirst : Bool) :
    Nat → List Token → Anchors → Option (Front (List (Node × Node)))
  | 0, _, _ => none
  | fuel + 1, ts, known =>
    match isFirst, ts with
    | _, .braceEnd :: ts => some ([], ts, known)
    | false, .comma :: ts => readPairs true fuel ts known
    | false, _ => none
    | true, .key :: ts => do
      let (f, ts, known) ← readPair [.value, .comma, .braceEnd] fuel ts known
      let (fs, ts, known) ← readPairs false fuel ts known
      return (f :: fs, ts, known)
    | true, ts => do
      let (k, ts, known) ← read false false fuel ts known
      let (fs, ts, known) ← readPairs false fuel ts known
      return ((k, nothing) :: fs, ts, known)

/-- A key and its value inside brackets or braces, where `ends` may follow the key. -/
def readPair (ends : List Token) : Nat → List Token → Anchors → Option (Front (Node × Node))
  | 0, _, _ => none
  | fuel + 1, ts, known => do
    let (k, ts, known) ←
      if isLeftOut ends ts then some (nothing, ts, known) else read false false fuel ts known
    let (v, ts, known) ←
      match ts with
      | .value :: ts =>
        if isLeftOut (ends.drop 1) ts then some (nothing, ts, known)
        else read false false fuel ts known
      | _ => some (nothing, ts, known)
    return ((k, v), ts, known)

end

/-- The directives before a document.  Of YAML versions only those numbered 1 are
admitted, and only once. -/
def skipDirectives (hasVersion : Bool) : List Token → Option (List Token)
  | .directive ws :: ts =>
    match ws with
    | ["YAML", version] =>
      if hasVersion || !version.startsWith "1." then none else skipDirectives true ts
    | "YAML" :: _ => none
    | _ => skipDirectives hasVersion ts
  | ts => some ts

/-- A document after its start mark, which may be empty. -/
def readDocument (ts : List Token) : Option (Front Node) :=
  match ts with
  | [] => some (nothing, ts, [])
  | .documentStart :: _ => some (nothing, ts, [])
  | .documentEnd :: _ => some (nothing, ts, [])
  | .directive _ :: _ => some (nothing, ts, [])
  | _ => read true false (4 * ts.length + 4) ts []

/-- The node of a text that holds one document. -/
def ofTokens? (ts : List Token) : Option Node := do
  let (n, ts, _) ←
    match ts with
    | [] => some (nothing, [], [])
    | .documentStart :: _ | .directive _ :: _ => do
      match ← skipDirectives false ts with
      | .documentStart :: ts => readDocument ts
      | _ => none
    | _ => read true false (4 * ts.length + 4) ts []
  if (ts.dropWhile (· == .documentEnd)).isEmpty then return n else none

end Node
end Yaml
end Legalese
