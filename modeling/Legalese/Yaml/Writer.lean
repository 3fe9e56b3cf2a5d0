import Legalese.Text.Hex
import Legalese.Tree.Basic
import Legalese.Yaml.PlainType

/-!
# Writing YAML

A tree in block style, two blanks deeper at each level; the items of a list stand in the
column of its name.  A text is written plain if it can be read back as the same text,
else between apostrophes, and else between quotation marks with escapes.  Lines are
folded at single blanks once they are longer than eighty characters.
-/

namespace Legalese
namespace Yaml

/-- How a text is written. -/
inductive Style
  | plain
  | apostrophes
  | quotationMarks
  deriving DecidableEq

namespace Style

/-- Characters that only an escape can stand for. -/
def isSpecial (c : Char) : Bool := !(c == '\n' || (' ' ≤ c && c ≤ '~'))

/-- Whether a character stands directly before another one. -/
def adjacent (a b : Char) (cs : List Char) : Bool :=
  (cs.zip cs.tail).any fun p => p.1 == a && p.2 == b

/-- The end of a text, or a blank. -/
def startsBlank : List Char → Bool
  | [] => true
  | c :: _ => c == ' ' || c == '\n'

/-- Characters that mean something else at the front of a scalar. -/
def leadingIndicators : List Char := "#,[]\x7b\x7d&*!|>'\"%@`".toList

/-- Whether a text begins like something else. -/
def beginsLikeSyntax (cs : List Char) : Bool :=
  "---".toList.isPrefixOf cs || "...".toList.isPrefixOf cs ||
    match cs with
    | [] => false
    | c :: rest =>
      leadingIndicators.contains c || ((c == '?' || c == ':' || c == '-') && startsBlank rest)

/-- Whether something after the first character would end a plain scalar: a colon before
a blank, or a number sign after one. -/
def holdsSyntax : List Char → Bool
  | [] => false
  | a :: cs =>
    (match cs with
      | [] => false
      | b :: rest =>
        (b == ':' && startsBlank rest) || (b == '#' && (a == ' ' || a == '\n')))
      || holdsSyntax cs

def allowsPlain (cs : List Char) : Bool :=
  PlainType.ofText cs == .text && !cs.any isSpecial && !cs.contains '\n'
    && cs.head? != some ' ' && cs.getLast? != some ' '
    && !beginsLikeSyntax cs && !holdsSyntax cs

/-- Whether apostrophes will do.  A blank next to a line break would be lost. -/
def allowsApostrophes (cs : List Char) : Bool :=
  !cs.any isSpecial && !adjacent ' ' '\n' cs && !adjacent '\n' ' ' cs

def ofText (cs : List Char) : Style :=
  if allowsPlain cs then plain
  else if allowsApostrophes cs then apostrophes
  else quotationMarks

end Style

/-! ## Lines -/

/-- The column from which on lines are folded. -/
def bestWidth : Nat := 80

def blanks (n : Nat) : List Char := List.replicate n ' '

/-- A line break and the indentation of the next line. -/
def newLine (indent : Nat) : List Char := '\n' :: blanks indent

/-- Whether the blank before `rest` is a single one and neither first nor last. -/
def isFoldable (previous : Option Char) (rest : List Char) : Bool :=
  match previous, rest with
  | some p, c :: _ => p != ' ' && c != ' '
  | _, _ => false

/-- A plain text from a column on. -/
def writePlain (indent : Nat) : Nat → Option Char → List Char → List Char
  | _, _, [] => []
  | column, previous, c :: rest =>
    if c = ' ' ∧ isFoldable previous rest ∧ bestWidth < column then
      newLine indent ++ writePlain indent indent (some c) rest
    else c :: writePlain indent (column + 1) (some c) rest

/-- A text between apostrophes, from a column on.  An apostrophe is doubled, and so is
the first line break of a run of them. -/
def writeApostrophes (indent : Nat) : Nat → Option Char → List Char → List Char
  | _, _, [] => []
  | column, previous, c :: rest =>
    if c = '\n' then
      (if previous = some '\n' then [] else ['\n'])
        ++ '\n' :: (if rest.head? = some '\n' then [] else blanks indent)
        ++ writeApostrophes indent indent (some c) rest
    else if c = '\x27' then
      '\x27' :: '\x27' :: writeApostrophes indent (column + 2) (some c) rest
    else if c = ' ' ∧ isFoldable previous rest ∧ bestWidth < column then
      newLine indent ++ writeApostrophes indent indent (some c) rest
    else c :: writeApostrophes indent (column + 1) (some c) rest

/-- The characters with a short escape. -/
def shortEscapes : List (Char × Char) :=
  [('\x00', '0'), ('\x07', 'a'), ('\x08', 'b'), ('\t', 't'), ('\n', 'n'), ('\x0b', 'v'),
    ('\x0c', 'f'), ('\r', 'r'), ('\x1b', 'e'), ('\x22', '\x22'), ('\\', '\\'),
    ('\u0085', 'N'), ('\u00a0', '_'), ('\u2028', 'L'), ('\u2029', 'P')]

def escape (c : Char) : List Char :=
  match shortEscapes.lookup c with
  | some letter => ['\\', letter]
  | none =>
    if c.toNat < 0x100 then '\\' :: 'x' :: Text.HexAlphabet.upper.write 2 c.toNat
    else if c.toNat < 0x10000 then '\\' :: 'u' :: Text.HexAlphabet.upper.write 4 c.toNat
    else '\\' :: 'U' :: Text.HexAlphabet.upper.write 8 c.toNat

def needsEscape (c : Char) : Bool :=
  c == '\x22' || c == '\\' || !(' ' ≤ c && c ≤ '~')

/-- A text between quotation marks, from a column on.  `held` are the characters since
the last blank, escape or fold, which `column` does not count yet.  A line ends with a
backslash, and a blank that begins the next one has a backslash before it. -/
def writeQuoted (indent : Nat) :
    Nat → List Char → (isFirst : Bool) → List Char → List Char
  | _, held, _, [] => held
  | column, held, isFirst, c :: rest =>
    let mayFold := !isFirst && rest != []
    if needsEscape c then
      let out := held ++ escape c
      let column := column + out.length
      if mayFold ∧ bestWidth < column - 1 then
        let guard := if rest.head? = some ' ' then ['\\'] else []
        out ++ '\\' :: newLine indent ++ guard
          ++ writeQuoted indent (indent + guard.length) [] false rest
      else out ++ writeQuoted indent column [] false rest
    else if mayFold ∧ (c = ' ' ∨ held = []) ∧ bestWidth < column + held.length then
      let guard := if c = ' ' then ['\\'] else []
      held ++ '\\' :: newLine indent ++ guard
        ++ writeQuoted indent (indent + guard.length) [c] false rest
    else writeQuoted indent column (held ++ [c]) false rest

/-- A text after a name or a dash that ends in `column`, with the blank before it. -/
def writeText (indent column : Nat) (s : String) : List Char :=
  let cs := s.toList
  match Style.ofText cs with
  | .plain => ' ' :: writePlain indent (column + 1) none cs
  | .apostrophes =>
    ' ' :: '\x27' :: writeApostrophes indent (column + 2) none cs ++ ['\x27']
  | .quotationMarks =>
    ' ' :: '\x22' :: writeQuoted indent (column + 2) [] true cs ++ ['\x22']

/-! ## Scalars that are no texts -/

/-- A number always has a point, as its pattern asks for one. -/
def writeFloat (x : Floating) : List Char :=
  match x with
  | .nan => ".nan".toList
  | .infinite isNegative => Floating.withSign isNegative ".inf".toList
  | .finite _ _ =>
    let cs := x.write
    if cs.contains '.' then cs
    else
      let whole := cs.takeWhile (· != 'e')
      whole ++ '.' :: '0' :: cs.drop whole.length

/-- A scalar on one line, a text without marks. -/
def writeScalar : Scalar → List Char
  | .null => "null".toList
  | .bool b => (if b then "true" else "false").toList
  | .int n => (toString n).toList
  | .float x => writeFloat x
  | .timestamp t => t.write.toList
  | .str s => s.toList

/-! ## Trees -/

mutual

/-- The fields of an object whose names stand in the column `indent`, where the writer is.
Names of fields are plain words. -/
def writeFields (indent : Nat) : Tree.Fields → List Char
  | [] => []
  | [(name, t)] =>
    let name := writeScalar name
    name ++ ':' :: writeFieldValue indent name.length t
  | (name, t) :: fs =>
    let name := writeScalar name
    name ++ ':' :: writeFieldValue indent name.length t ++ newLine indent ++ writeFields indent fs

/-- What stands after the colon of a name of some length. -/
def writeFieldValue (indent length : Nat) : Tree → List Char
  | .object [] => " \x7b\x7d".toList
  | .object (f :: fs) => newLine (indent + 2) ++ writeFields (indent + 2) (f :: fs)
  | .list [] => " []".toList
  | .list (t :: ts) => newLine indent ++ writeItems indent (t :: ts)
  | .str s => writeText (indent + 2) (indent + length + 1) s
  | .scalar s => ' ' :: writeScalar s

/-- The items of a list whose dashes stand in the column `indent`, where the writer is. -/
def writeItems (indent : Nat) : List Tree → List Char
  | [] => []
  | [t] => '-' :: writeItem indent t
  | t :: ts => '-' :: writeItem indent t ++ newLine indent ++ writeItems indent ts

/-- What stands after the dash of an item. -/
def writeItem (indent : Nat) : Tree → List Char
  | .object [] => " \x7b\x7d".toList
  | .object (f :: fs) => ' ' :: writeFields (indent + 2) (f :: fs)
  | .list [] => " []".toList
  | .list (t :: ts) => ' ' :: writeItems (indent + 2) (t :: ts)
  | .str s => writeText (indent + 2) (indent + 1) s
  | .scalar s => ' ' :: writeScalar s

end

/-- An object as a YAML document. -/
def write : Tree → String
  | .object (f :: fs) => String.ofList (writeFields 0 (f :: fs) ++ ['\n'])
  | t => String.ofList ((writeItem 0 t).drop 1 ++ ['\n'])

end Yaml
end Legalese
