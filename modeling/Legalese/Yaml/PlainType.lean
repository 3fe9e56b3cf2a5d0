import Legalese.Text.Pattern

/-!
# What a plain scalar means

A YAML scalar without quotation marks is a text unless it looks like a value of another
type.  The patterns are those of YAML 1.1.
-/

namespace Legalese
namespace Yaml

open Text (Pattern)

inductive PlainType
  | null
  | bool
  | int
  | float
  | timestamp
  | merge
  | default
  | text
  deriving DecidableEq

namespace PlainType

open Text.Pattern

def digit : Pattern := range '0' '9'

/-- A digit or the underscore that may separate digits. -/
def spacedDigit : Pattern := oneOf "0123456789_"

def sign : Pattern := optional (oneOf "+-")

/-- Further places of a number in base sixty. -/
def sixties : Pattern :=
  oneOrMore (all [char ':', optional (range '0' '5'), digit])

def nullPattern : Pattern := words ["", "~", "null", "Null", "NULL"]

def boolPattern : Pattern :=
  words ["yes", "Yes", "YES", "no", "No", "NO", "true", "True", "TRUE", "false", "False",
    "FALSE", "on", "On", "ON", "off", "Off", "OFF"]

def intPattern : Pattern :=
  seq sign (any
    [seq (word "0b") (oneOrMore (oneOf "01_")),
      seq (char '0') (oneOrMore (oneOf "01234567_")),
      char '0',
      seq (range '1' '9') (many spacedDigit),
      seq (word "0x") (oneOrMore (oneOf "0123456789abcdefABCDEF_")),
      all [range '1' '9', many spacedDigit, sixties]])

def exponent : Pattern :=
  optional (all [oneOf "eE", oneOf "+-", oneOrMore digit])

def floatPattern : Pattern :=
  any
    [all [sign, digit, many spacedDigit, char '.', many spacedDigit, exponent],
      all [char '.', digit, many spacedDigit, exponent],
      all [sign, digit, many spacedDigit, sixties, char '.', many spacedDigit],
      seq sign (words [".inf", ".Inf", ".INF"]),
      words [".nan", ".NaN", ".NAN"]]

/-- One or two digits. -/
def shortNumber : Pattern := seq digit (optional digit)

def twoDigits : Pattern := seq digit digit

def year : Pattern := all [digit, digit, digit, digit]

def blanks : Pattern := many (oneOf " \t")

def zone : Pattern :=
  either (char 'Z')
    (all [oneOf "+-", shortNumber, optional (seq (char ':') twoDigits)])

def timestampPattern : Pattern :=
  either (all [year, char '-', twoDigits, char '-', twoDigits])
    (all [year, char '-', shortNumber, char '-', shortNumber,
      either (oneOf "Tt") (oneOrMore (oneOf " \t")),
      shortNumber, char ':', twoDigits, char ':', twoDigits,
      optional (seq (char '.') (many digit)),
      optional (seq blanks zone)])

/-- The types that are not text, each with its pattern. -/
def patterns : List (PlainType × Pattern) :=
  [(bool, boolPattern), (float, floatPattern), (int, intPattern), (merge, word "<<"),
    (null, nullPattern), (timestamp, timestampPattern), (default, word "=")]

def ofText (cs : List Char) : PlainType :=
  match patterns.find? fun p => p.2.accepts cs with
  | some p => p.1
  | none => text

end PlainType
end Yaml
end Legalese
