import Legalese.Text.Hex
import Legalese.Text.Printable

/-!
# Quoted text in messages

Messages show a piece of text between quotation marks.  The mark is the apostrophe,
unless the text holds an apostrophe and no double quotation mark.  The backslash and
the mark in use are escaped, so are line feed, carriage return and tab, and any other
unprintable character is given by its code point.
-/

namespace Legalese
namespace Text

/-- The quotation mark that encloses a text. -/
def quoteMark (cs : List Char) : Char :=
  if cs.contains '\x27' && !cs.contains '\x22' then '\x22' else '\x27'

/-- One character between quotation marks. -/
def quoteChar (mark c : Char) : List Char :=
  if c = mark ∨ c = '\\' then ['\\', c]
  else if c = '\n' then ['\\', 'n']
  else if c = '\r' then ['\\', 'r']
  else if c = '\t' then ['\\', 't']
  else if isPrintable c then [c]
  else if c.toNat < 0x100 then '\\' :: 'x' :: HexAlphabet.lower.write 2 c.toNat
  else if c.toNat < 0x10000 then '\\' :: 'u' :: HexAlphabet.lower.write 4 c.toNat
  else '\\' :: 'U' :: HexAlphabet.lower.write 8 c.toNat

def quoteChars (cs : List Char) : List Char :=
  let mark := quoteMark cs
  mark :: cs.flatMap (quoteChar mark) ++ [mark]

/-- A text as messages quote it. -/
def quote (s : String) : String :=
  String.ofList (quoteChars s.toList)

end Text
end Legalese
