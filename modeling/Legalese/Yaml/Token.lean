import Legalese.Yaml.Scalar
import Legalese.Yaml.Tag

/-!
# YAML tokens

Cuts a document into tokens.  Outside brackets the structure of a document is in its
indentation, and tokens are added where a deeper collection begins and where it ends.

Whether something is a key is known only when the colon after it is met.  So the place
of everything that may turn out to be a key is kept as a candidate, and at the colon the
key token goes in before it.  A candidate is given up when its line ends.
-/

namespace Legalese
namespace Yaml

inductive Token
  | directive (words : List String)
  | documentStart
  | documentEnd
  | sequenceStart
  | mappingStart
  | blockEnd
  | bracketStart
  | bracketEnd
  | braceStart
  | braceEnd
  | comma
  | entry
  | key
  | value
  | alias (name : String)
  | anchor (name : String)
  | tag (tag : Tag)
  | scalar (text : String) (isPlain : Bool)
  deriving DecidableEq

/-- Something that is a key if a colon follows. -/
structure Candidate where
  /-- How many tokens stand before it. -/
  index : Nat
  /-- Nothing but a key may stand here. -/
  isRequired : Bool
  place : Place

/-- A document that is being cut into tokens. -/
structure Layout where
  /-- More than the number of characters of the text, so that no repetition is cut off. -/
  bound : Nat
  place : Place
  tokens : Array Token
  /-- How many brackets are open. -/
  depth : Nat
  /-- The column of the innermost block collection, -1 outside all of them. -/
  indent : Int
  /-- The columns of the collections around it. -/
  outer : List Int
  /-- Whether a key may begin here. -/
  allowsKey : Bool
  /-- The candidate of each depth. -/
  candidates : List (Nat × Candidate)

namespace Layout

def ofChars (cs : List Char) : Layout :=
  ⟨cs.length.succ, Place.ofChars cs, #[], 0, -1, [], true, []⟩

def emit (l : Layout) (t : Token) : Layout := { l with tokens := l.tokens.push t }

/-- Emits a token and goes on at a place. -/
def emitTo (l : Layout) (t : Token) (p : Place) : Layout := { l.emit t with place := p }

/-- Emits a token for some characters at the front. -/
def take (l : Layout) (n : Nat) (t : Token) : Layout := l.emitTo t (l.place.forwardBy n)

def allowKey (l : Layout) (b : Bool) : Layout := { l with allowsKey := b }

/-! ## Indentation -/

/-- Opens a block collection if a column is deeper than the innermost one. -/
def open? (l : Layout) (column : Nat) : Option Layout :=
  if l.indent < column then some { l with outer := l.indent :: l.outer, indent := column }
  else none

/-- Opens a block collection where the reader is, if it is deeper. -/
def openHere (l : Layout) (t : Token) : Layout :=
  match l.open? l.place.column with
  | some l => l.emit t
  | none => l

/-- Ends the block collections that are deeper than a column. -/
def closeTo (column : Int) : List Int → Layout → Layout
  | [], l => l
  | i :: outer, l =>
    if column < l.indent then
      closeTo column outer ({ l with indent := i, outer := outer }.emit .blockEnd)
    else l

/-- Inside brackets, indentation has no meaning. -/
def unwind (l : Layout) (column : Int) : Layout :=
  if l.depth = 0 then closeTo column l.outer l else l

/-! ## Candidates -/

/-- Gives up the candidate of the current depth, unless it had to be a key. -/
def dropCandidate (l : Layout) : Option Layout :=
  match l.candidates.lookup l.depth with
  | none => some l
  | some c =>
    if c.isRequired then none
    else some { l with candidates := l.candidates.filter (·.1 != l.depth) }

/-- Gives up the candidates of earlier lines and those too far back. -/
def dropStale (l : Layout) : Option Layout :=
  let isStale (c : Candidate) : Bool :=
    c.place.line != l.place.line || 1024 < l.place.offset - c.place.offset
  if l.candidates.any fun c => isStale c.2 && c.2.isRequired then none
  else some { l with candidates := l.candidates.filter fun c => !isStale c.2 }

/-- Makes what comes next a candidate, where a key may begin. -/
def addCandidate (l : Layout) : Option Layout :=
  if l.allowsKey then do
    let l ← l.dropCandidate
    let isRequired := l.depth == 0 && l.indent == l.place.column
    let c : Candidate := ⟨l.tokens.size, isRequired, l.place⟩
    return { l with candidates := (l.depth, c) :: l.candidates }
  else some l

/-! ## Tokens -/

def onDocumentMark (l : Layout) (t : Token) : Option Layout := do
  let l ← (l.unwind (-1)).dropCandidate
  return (l.allowKey false).take 3 t

def onDirective (l : Layout) : Option Layout := do
  let l ← (l.unwind (-1)).dropCandidate
  let (line, p) := l.place.forward.span (!isBreak ·)
  let words := ((String.ofList line).splitOn " ").filter (· != "")
  return (l.allowKey false).emitTo (.directive (words.takeWhile (!·.startsWith "#"))) p

def onOpening (l : Layout) (t : Token) : Option Layout := do
  let l ← l.addCandidate
  return ({ l with depth := l.depth + 1 }.allowKey true).take 1 t

def onClosing (l : Layout) (t : Token) : Option Layout := do
  let l ← l.dropCandidate
  if l.depth = 0 then none
  else return ({ l with depth := l.depth - 1 }.allowKey false).take 1 t

def onComma (l : Layout) : Option Layout := do
  let l ← (l.allowKey true).dropCandidate
  return l.take 1 .comma

def onEntry (l : Layout) : Option Layout := do
  let l ← if l.depth = 0 then
      if l.allowsKey then some (l.openHere .sequenceStart) else none
    else some l
  let l ← (l.allowKey true).dropCandidate
  return l.take 1 .entry

def onKey (l : Layout) : Option Layout := do
  let l ← if l.depth = 0 then
      if l.allowsKey then some (l.openHere .mappingStart) else none
    else some l
  let l ← (l.allowKey (l.depth == 0)).dropCandidate
  return l.take 1 .key

/-- At a colon the candidate becomes a key, and opens a mapping if it is deeper than the
innermost one. -/
def onValue (l : Layout) : Option Layout :=
  match l.candidates.lookup l.depth with
  | some c =>
    let l := { l with candidates := l.candidates.filter (·.1 != l.depth) }
    let l := { l with tokens := l.tokens.insertIdxIfInBounds c.index .key }
    let l :=
      if l.depth = 0 then
        match l.open? c.place.column with
        | some l => { l with tokens := l.tokens.insertIdxIfInBounds c.index .mappingStart }
        | none => l
      else l
    some ((l.allowKey false).take 1 .value)
  | none => do
    let l ← if l.depth = 0 then
        if l.allowsKey then some (l.openHere .mappingStart) else none
      else some l
    let l ← (l.allowKey (l.depth == 0)).dropCandidate
    return l.take 1 .value

/-- The characters of the name of an anchor. -/
def isNameChar (c : Char) : Bool := isAlphanumeric c || c == '-' || c == '_'

def onName (l : Layout) (t : String → Token) : Option Layout := do
  let l ← l.addCandidate
  let (name, p) := l.place.forward.span isNameChar
  let mayFollow := endsWord p.rest || p.rest.head?.any ("?:,]\x7d%@`".toList.contains ·)
  if name = [] ∨ !mayFollow then none
  else return (l.allowKey false).emitTo (t (String.ofList name)) p

def onTag (l : Layout) : Option Layout := do
  let l ← l.addCandidate
  let (tag, p) ← Tag.read l.place
  return (l.allowKey false).emitTo (.tag tag) p

def onBlock (l : Layout) (isFolded : Bool) : Option Layout := do
  let l ← (l.allowKey true).dropCandidate
  let p := l.place.forward
  let (text, p) ← readBlock isFolded l.indent l.bound p
  return l.emitTo (.scalar (String.ofList text) false) p

def onQuoted (l : Layout) (isDouble : Bool) : Option Layout := do
  let l ← l.addCandidate
  let p := l.place.forward
  let (text, p) ← readQuoted isDouble l.bound p
  return (l.allowKey false).emitTo (.scalar (String.ofList text) false) p

def onPlain (l : Layout) : Option Layout := do
  let l ← l.addCandidate
  let s := readPlain (l.depth != 0) (l.indent + 1) l.bound l.place
  return (l.allowKey s.endsLine).emitTo (.scalar (String.ofList s.text) true) s.after

/-- Whether a plain scalar may begin with a character, given those after it. -/
def startsPlain (inFlow : Bool) (c : Char) (cs : List Char) : Bool :=
  !("-?:,[]\x7b\x7d#&*!|>'\"%@`".toList.contains c)
    || (!endsWord cs && (c == '-' || (!inFlow && (c == '?' || c == ':'))))

/-- Skips blanks, comments and line ends.  A line end outside brackets lets a key begin. -/
def skipToToken : Nat → Layout → Layout
  | 0, l => l
  | fuel + 1, l =>
    let p := l.place.skip (· == ' ')
    let p := if p.rest.head? = some '#' then p.skip (!isBreak ·) else p
    match p.lineBreak? with
    | some (_, p) =>
      skipToToken fuel { l with place := p, allowsKey := l.allowsKey || l.depth == 0 }
    | none => { l with place := p }

/-- Emits the next token, at the front of the place. -/
def next (l : Layout) (c : Char) (cs : List Char) : Option Layout :=
  let inFlow := l.depth != 0
  let isLineStart := l.place.column = 0
  if c = '%' ∧ isLineStart then l.onDirective
  else if isLineStart ∧ isDocumentMark (c :: cs) then
    l.onDocumentMark (if c = '-' then .documentStart else .documentEnd)
  else if c = '[' then l.onOpening .bracketStart
  else if c = '\x7b' then l.onOpening .braceStart
  else if c = ']' then l.onClosing .bracketEnd
  else if c = '\x7d' then l.onClosing .braceEnd
  else if c = ',' then l.onComma
  else if c = '-' ∧ endsWord cs then l.onEntry
  else if c = '?' ∧ (inFlow ∨ endsWord cs) then l.onKey
  else if c = ':' ∧ (inFlow ∨ endsWord cs) then l.onValue
  else if c = '*' then l.onName .alias
  else if c = '&' then l.onName .anchor
  else if c = '!' then l.onTag
  else if c = '|' ∧ !inFlow then l.onBlock false
  else if c = '>' ∧ !inFlow then l.onBlock true
  else if c = '\x27' then l.onQuoted false
  else if c = '\x22' then l.onQuoted true
  else if !isSpace c ∧ startsPlain inFlow c cs then l.onPlain
  else none

/-- Emits tokens to the end of the text. -/
def finish : Nat → Layout → Option (List Token)
  | 0, _ => none
  | fuel + 1, l => do
    let l ← (skipToToken l.bound l).dropStale
    let l := l.unwind l.place.column
    match l.place.rest with
    | [] =>
      let l ← (l.unwind (-1)).dropCandidate
      return l.tokens.toList
    | c :: cs => finish fuel (← l.next c cs)

end Layout

/-- Characters that may stand in a document. -/
def isAllowed (c : Char) : Bool :=
  c == '\t' || c == '\n' || c == '\r' || (' ' ≤ c && c ≤ '~') || c == '\u0085'
    || ('\u00a0' ≤ c && c.toNat ≠ 0xfffe && c.toNat ≠ 0xffff)

/-- The tokens of a document.  A byte order mark at its front does not count. -/
def tokens? (cs : List Char) : Option (List Token) :=
  if cs.all isAllowed then
    let cs := if cs.head? = some '\ufeff' then cs.drop 1 else cs
    (Layout.ofChars cs).finish cs.length.succ
  else none

end Yaml
end Legalese
