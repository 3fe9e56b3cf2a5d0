import Legalese.Text.Hex
import Legalese.Yaml.Place

/-!
# Reading YAML scalars

A scalar stands between apostrophes or quotation marks, or plain, or as a block of lines
under a header.  A line break inside one of the first three kinds counts as a blank, and
a run of them as one less than their number.  Readers return `none` for a scalar that is
malformed.  The number that bounds the repetition of a reader is the length of the text.
-/

namespace Legalese
namespace Yaml

/-- The line breaks after a first one, inside quotes; no document may begin or end. -/
def quotedBreaks : Nat → Place → Option (List Char × Place)
  | 0, _ => none
  | fuel + 1, p =>
    if isDocumentMark p.rest then none
    else
      let p := p.skip isSpace
      match p.lineBreak? with
      | none => some ([], p)
      | some (c, p) => do
        let (cs, p) ← quotedBreaks fuel p
        return (c :: cs, p)

/-- What a line break counts for, given those that follow it. -/
def foldBreaks (first : Char) (others : List Char) : List Char :=
  if first ≠ '\n' then first :: others
  else if others = [] then [' ']
  else others

/-! ## Between quotes -/

def letterEscapes : List (Char × Char) :=
  [('0', '\x00'), ('a', '\x07'), ('b', '\x08'), ('t', '\t'), ('\t', '\t'), ('n', '\n'),
    ('v', '\x0b'), ('f', '\x0c'), ('r', '\r'), ('e', '\x1b'), (' ', ' '),
    ('\x22', '\x22'), ('\\', '\\'), ('/', '/'), ('N', '\u0085'), ('_', '\u00a0'),
    ('L', '\u2028'), ('P', '\u2029')]

/-- How many digits follow the letter of a numeric escape. -/
def numericEscapes : List (Char × Nat) := [('x', 2), ('u', 4), ('U', 8)]

/-- What an escape stands for, from after its backslash. -/
def readEscape (fuel : Nat) (p : Place) : Option (List Char × Place) :=
  match p.rest with
  | [] => none
  | c :: cs =>
    match letterEscapes.lookup c, numericEscapes.lookup c, p.lineBreak? with
    | some x, _, _ => some ([x], p.forward)
    | none, some width, _ => do
      let digits := cs.take width
      let n ← if digits.length = width then Text.hexNumber? digits else none
      return ([Char.ofNat n], p.forwardBy (width + 1))
    | none, none, some (_, p) => quotedBreaks fuel p
    | none, none, none => none

/-- The text up to the closing mark, which is an apostrophe unless `isDouble`. -/
def readQuoted (isDouble : Bool) : Nat → Place → Option (List Char × Place)
  | 0, _ => none
  | fuel + 1, p =>
    match p.rest with
    | [] => none
    | c :: cs =>
      let go (out : List Char) (p : Place) : Option (List Char × Place) := do
        let (text, p) ← readQuoted isDouble fuel p
        return (out ++ text, p)
      if !isDouble && c == '\x27' then
        if cs.head? = some '\x27' then go ['\x27'] (p.forwardBy 2)
        else some ([], p.forward)
      else if isDouble && c == '\x22' then some ([], p.forward)
      else if isDouble && c == '\\' then do
        let (out, p) ← readEscape fuel p.forward
        go out p
      else if isSpace c || isBreak c then do
        let (spaces, p) := p.span isSpace
        match p.lineBreak? with
        | none => go spaces p
        | some (first, p) =>
          let (others, p) ← quotedBreaks fuel p
          go (foldBreaks first others) p
      else go [c] p.forward

/-! ## Plain -/

/-- The characters that end a plain scalar inside brackets. -/
def isFlowEnd (c : Char) : Bool :=
  c == ',' || c == '[' || c == ']' || c == '\x7b' || c == '\x7d'

/-- How many characters of a plain scalar stand at the front without a blank. -/
def plainLength (inFlow : Bool) : List Char → Nat
  | [] => 0
  | c :: cs =>
    let endsHere :=
      isSpace c || isBreak c
        || (c == ':' && (endsWord cs || (inFlow && (cs.head?.map isFlowEnd).getD false)))
        || (inFlow && (isFlowEnd c || c == '?'))
    if endsHere then 0 else 1 + plainLength inFlow cs

/-- A line break in a plain scalar and the further ones; none if a document begins or
ends in between. -/
def plainBreaks : Nat → Place → Option (List Char) × Place
  | 0, p => (none, p)
  | fuel + 1, p =>
    if isDocumentMark p.rest then (none, p)
    else
      let p := p.skip (· == ' ')
      match p.lineBreak? with
      | none => (some [], p)
      | some (c, p) =>
        let (cs, p) := plainBreaks fuel p
        (cs.map (c :: ·), p)

/-- What stands between two parts of a plain scalar, and whether that has a line break. -/
structure PlainGap where
  text : List Char
  hasBreak : Bool
  after : Place

def readGap (fuel : Nat) (p : Place) : PlainGap :=
  let (spaces, p) := p.span (· == ' ')
  match p.lineBreak? with
  | none => ⟨spaces, false, p⟩
  | some (first, p) =>
    match plainBreaks fuel p with
    | (none, p) => ⟨[], true, p⟩
    | (some others, p) => ⟨foldBreaks first others, true, p⟩

/-- A plain scalar: its text, whether a line break came after its last part, and the
place after it. -/
structure PlainScalar where
  text : List Char
  endsLine : Bool
  after : Place

/-- The parts of a plain scalar.  Outside brackets each line is indented to `indent`. -/
def readPlain (inFlow : Bool) (indent : Int) : Nat → Place → PlainScalar
  | 0, p => ⟨[], false, p⟩
  | fuel + 1, p =>
    let n := plainLength inFlow p.rest
    let part := p.rest.take n
    let gap := readGap fuel (p.forwardBy n)
    let q := gap.after
    let next := plainLength inFlow q.rest
    let goesOn :=
      gap.text != [] && q.rest.head? != some '#' && (inFlow || indent ≤ q.column) && next != 0
    if goesOn then
      let more := readPlain inFlow indent fuel q
      ⟨part ++ gap.text ++ more.text, more.endsLine, more.after⟩
    else ⟨part, gap.hasBreak, q⟩

/-! ## Blocks -/

/-- What becomes of the line breaks at the end of a block. -/
inductive Chomping
  | strip
  | clip
  | keep

structure BlockHeader where
  chomping : Chomping
  /-- The indentation that the header asks for, relative to the surroundings. -/
  increment : Option Nat

def chompingOf? (c : Char) : Option Chomping :=
  if c = '+' then some .keep else if c = '-' then some .strip else none

def incrementOf? (c : Char) : Option Nat :=
  if '0' ≤ c ∧ c ≤ '9' then some (c.toNat - '0'.toNat) else none

/-- The marks after the sign of a block, up to the end of the line. -/
def readHeader (p : Place) : Option (BlockHeader × Place) := do
  let chomping (p : Place) : Option (Chomping × Place) := do
    let c ← p.rest.head?
    let k ← chompingOf? c
    return (k, p.forward)
  let increment (p : Place) : Option (Nat × Place) := do
    let c ← p.rest.head?
    let n ← incrementOf? c
    return (n, p.forward)
  let (header, p) : BlockHeader × Place :=
    match chomping p with
    | some (k, p) =>
      match increment p with
      | some (n, p) => (⟨k, some n⟩, p)
      | none => (⟨k, none⟩, p)
    | none =>
      match increment p with
      | some (n, p) =>
        match chomping p with
        | some (k, p) => (⟨k, some n⟩, p)
        | none => (⟨.clip, some n⟩, p)
      | none => (⟨.clip, none⟩, p)
  if header.increment = some 0 then none
  else
    let q := p.skip (· == ' ')
    let q := if q.rest.head? = some '#' ∧ q.offset ≠ p.offset then q.skip (!isBreak ·) else q
    match q.lineBreak? with
    | some (_, q) => return (header, q)
    | none => if q.rest = [] then return (header, q) else none

/-- The blank lines before a block, and the greatest column that a blank in them ends
in. -/
def blockIndentation : Nat → Nat → Place → List Char × Nat × Place
  | 0, deepest, p => ([], deepest, p)
  | fuel + 1, deepest, p =>
    let p := p.skip (· == ' ')
    let deepest := max deepest p.column
    match p.lineBreak? with
    | none => ([], deepest, p)
    | some (c, p) =>
      let (cs, deepest, p) := blockIndentation fuel deepest p
      (c :: cs, deepest, p)

/-- Moves over blanks, but not past a column. -/
def skipIndent (indent : Nat) (p : Place) : Place :=
  let spaces := (p.rest.takeWhile (· == ' ')).length
  p.forwardBy (min spaces (indent - p.column))

/-- The blank lines between lines of a block. -/
def blockBreaks (indent : Nat) : Nat → Place → List Char × Place
  | 0, p => ([], p)
  | fuel + 1, p =>
    let p := skipIndent indent p
    match p.lineBreak? with
    | none => ([], p)
    | some (c, p) =>
      let (cs, p) := blockBreaks indent fuel p
      (c :: cs, p)

/-- The text of a block but for the line breaks at its end: the break of its last line
and those of the blank lines after it. -/
structure BlockText where
  text : List Char
  lastBreak : List Char
  blankLines : List Char
  after : Place

def startsWithSpace (cs : List Char) : Bool := (cs.head?.map isSpace).getD false

/-- The lines of a block with the given indentation, after some blank lines. -/
def readLines (isFolded : Bool) (indent : Nat) (before lastBreak : List Char) :
    Nat → Place → BlockText
  | 0, p => ⟨[], lastBreak, before, p⟩
  | fuel + 1, p =>
    if p.column = indent ∧ p.rest ≠ [] then
      let (line, q) := p.span (!isBreak ·)
      let (lastBreak, q) := match q.lineBreak? with
        | some (c, q) => ([c], q)
        | none => ([], q)
      let (blank, q) := blockBreaks indent fuel q
      if q.column = indent ∧ q.rest ≠ [] then
        let joint :=
          if isFolded ∧ lastBreak = ['\n'] ∧ !startsWithSpace p.rest ∧ !startsWithSpace q.rest
          then (if blank = [] then [' '] else [])
          else lastBreak
        let more := readLines isFolded indent blank lastBreak fuel q
        { more with text := before ++ line ++ joint ++ more.text }
      else ⟨before ++ line, lastBreak, blank, q⟩
    else ⟨[], lastBreak, before, p⟩

/-- A block, from after its sign on, among surroundings of some indentation. -/
def readBlock (isFolded : Bool) (surroundings : Int) (fuel : Nat) (p : Place) :
    Option (List Char × Place) := do
  let (header, p) ← readHeader p
  let least := (max 1 (surroundings + 1)).toNat
  let (indent, blank, p) :=
    match header.increment with
    | some n =>
      let indent := least + n - 1
      let (blank, p) := blockBreaks indent fuel p
      (indent, blank, p)
    | none =>
      let (blank, deepest, p) := blockIndentation fuel 0 p
      (max least deepest, blank, p)
  let b := readLines isFolded indent blank [] fuel p
  let ending := match header.chomping with
    | .strip => []
    | .clip => b.lastBreak
    | .keep => b.lastBreak ++ b.blankLines
  return (b.text ++ ending, b.after)

end Yaml
end Legalese
