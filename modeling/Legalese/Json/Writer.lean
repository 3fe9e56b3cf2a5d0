import Legalese.Text.Hex
import Legalese.Tree.Basic

/-!
# Writing JSON

A tree on one line, in printable ASCII.  Items are separated by a comma and a blank, a
name and its value by a colon and a blank.  Whatever is no printable ASCII character is
escaped: the common control characters by a letter, all else by UTF-16 code units.
-/

namespace Legalese
namespace Json

/-- A UTF-16 code unit as an escape. -/
def unitEscape (unit : Nat) : List Char :=
  '\\' :: 'u' :: Text.HexAlphabet.lower.write 4 unit

/-- The letters of the short escapes. -/
def shortEscapes : List (Char × Char) :=
  [('\x22', '\x22'), ('\\', '\\'), ('\n', 'n'), ('\r', 'r'), ('\t', 't'), ('\x0c', 'f'),
    ('\x08', 'b')]

/-- A character inside a quoted text. -/
def writeChar (c : Char) : List Char :=
  match shortEscapes.lookup c with
  | some letter => ['\\', letter]
  | none =>
    if ' ' ≤ c ∧ c ≤ '~' then [c]
    else if c.toNat < 0x10000 then unitEscape c.toNat
    else
      let offset := c.toNat - 0x10000
      unitEscape (0xd800 + offset / 0x400) ++ unitEscape (0xdc00 + offset % 0x400)

def writeString (s : String) : List Char :=
  '\x22' :: s.toList.flatMap writeChar ++ ['\x22']

def writeFloat (x : Floating) : List Char :=
  match x with
  | .nan => "NaN".toList
  | .infinite isNegative => Floating.withSign isNegative "Infinity".toList
  | .finite _ _ => x.write

/-- A scalar.  Timestamps have no form of their own and are written as texts. -/
def writeScalar : Scalar → List Char
  | .null => "null".toList
  | .bool b => (if b then "true" else "false").toList
  | .int n => (toString n).toList
  | .float x => writeFloat x
  | .timestamp t => writeString t.write
  | .str s => writeString s

/-- The name of a field, which is always a text. -/
def writeName : Scalar → List Char
  | .str s => writeString s
  | s => writeString (String.ofList (writeScalar s))

/-- A list of written items with separators, between brackets. -/
def bracketed (left right : Char) (items : List (List Char)) : List Char :=
  left :: [',', ' '].intercalate items ++ [right]

mutual

def writeTree : Tree → List Char
  | .scalar s => writeScalar s
  | .list items => bracketed '[' ']' (writeItems items)
  | .object fields => bracketed '\x7b' '\x7d' (writeFields fields)

def writeItems : List Tree → List (List Char)
  | [] => []
  | t :: ts => writeTree t :: writeItems ts

def writeFields : Tree.Fields → List (List Char)
  | [] => []
  | (name, t) :: fs => (writeName name ++ ':' :: ' ' :: writeTree t) :: writeFields fs

end

def write (t : Tree) : String := String.ofList (writeTree t)

end Json
end Legalese
