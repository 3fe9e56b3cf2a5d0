import Legalese.Operator

/-!
# Tokens

A resolution is prose, and most of its words are filler.  What carries meaning is a
fixed list of keywords, capitalised names, numerals, quoted texts and a little
punctuation.  A keyword is recognised in any case.  A number word carries the number
that it stands for, so that reading a cardinal never looks at spelling again.

The end of a text is not a token: where one is asked for and none is left, the
answer is `none`.
-/

namespace Legalese

/-- The number words, by the place they may take in a cardinal. -/
inductive CardinalWord
  | negative
  | zero
  | ones (value : Nat)
  | teens (value : Nat)
  | tens (value : Nat)
  | hundred
  | magnitude (value : Nat)
  deriving DecidableEq

/-- What a token means to the reader of a resolution. -/
inductive Kind
  | filler
  | name
  | numeral
  | text
  | cardinal (word : CardinalWord)
  | unary (op : UnaryOperator)
  | binary (op : BinaryOperator)
  | less
  | exponent (op : Exponent)
  | openParen
  | closeParen
  | dash
  | whereas
  | resolved
  | hereinafter
  | publish
  | assume
  | conditional
  | relation (r : Relation)
  deriving DecidableEq

/-- A token: its kind and its spelling, for a quoted text without the marks. -/
structure Token where
  kind : Kind
  literal : String
  deriving DecidableEq

namespace Kind

def isCardinal : Kind → Bool
  | cardinal _ => true
  | _ => false

/-- The number words of a group below one hundred. -/
def startsBelowHundred : Kind → Bool
  | cardinal (.ones _) => true
  | cardinal (.teens _) => true
  | cardinal (.tens _) => true
  | _ => false

/-- A keyword that opens a clause.  No search inside a clause goes past one. -/
def opensClause : Kind → Bool
  | whereas => true
  | resolved => true
  | _ => false

/-- The kinds that an expression may begin with.  Anything else before an expression
is filler. -/
def startsExpression : Kind → Bool
  | cardinal _ => true
  | numeral => true
  | text => true
  | name => true
  | unary _ => true
  | binary _ => true
  | _ => false

/-- The small numbers by name. -/
def onesWords : List (String × Nat) :=
  [("one", 1), ("two", 2), ("three", 3), ("four", 4), ("five", 5), ("six", 6),
    ("seven", 7), ("eight", 8), ("nine", 9)]

def teensWords : List (String × Nat) :=
  [("ten", 10), ("eleven", 11), ("twelve", 12), ("thirteen", 13), ("fourteen", 14),
    ("fifteen", 15), ("sixteen", 16), ("seventeen", 17), ("eighteen", 18), ("nineteen", 19)]

def tensWords : List (String × Nat) :=
  [("twenty", 20), ("thirty", 30), ("forty", 40), ("fifty", 50), ("sixty", 60),
    ("seventy", 70), ("eighty", 80), ("ninety", 90)]

/-- A power of one thousand. -/
def thousandTo : Nat → Nat
  | 0 => 1
  | n + 1 => 1000 * thousandTo n

def magnitudeWords : List (String × Nat) :=
  [("thousand", thousandTo 1), ("million", thousandTo 2), ("billion", thousandTo 3),
    ("trillion", thousandTo 4), ("quadrillion", thousandTo 5), ("quintillion", thousandTo 6)]

def cardinalKeywords : List (String × Kind) :=
  [("negative", cardinal .negative), ("zero", cardinal .zero)]
    ++ onesWords.map (fun w => (w.1, cardinal (.ones w.2)))
    ++ teensWords.map (fun w => (w.1, cardinal (.teens w.2)))
    ++ tensWords.map (fun w => (w.1, cardinal (.tens w.2)))
    ++ [("hundred", cardinal .hundred)]
    ++ magnitudeWords.map (fun w => (w.1, cardinal (.magnitude w.2)))

def operatorKeywords : List (String × Kind) :=
  UnaryOperator.all.map (fun op => (op.word, unary op))
    ++ BinaryOperator.all.map (fun op => (op.word, binary op))
    ++ [(lessWord, less)]
    ++ Exponent.all.map (fun op => (op.word, exponent op))

def clauseKeywords : List (String × Kind) :=
  [("whereas", whereas), ("resolved", resolved), ("hereinafter", hereinafter),
    ("publish", publish), ("assume", assume), ("if", conditional)]
    ++ Relation.all.map (fun r => (r.word, relation r))

/-- Every keyword, in small letters. -/
def keywords : List (String × Kind) :=
  cardinalKeywords ++ operatorKeywords ++ clauseKeywords

/-- A text in small letters.  Only ASCII letters change: no other character becomes a
letter that some keyword has. -/
def smallLetters (s : String) : String :=
  String.ofList (s.toList.map Char.toLower)

/-- The kind of a word: a keyword, else a name if it begins with a capital letter, else
filler.  The empty word has none. -/
def ofWord? (word : String) : Option Kind :=
  match keywords.lookup (smallLetters word), word.toList with
  | some k, _ => some k
  | none, [] => none
  | none, c :: _ => some (if 'A' ≤ c ∧ c ≤ 'Z' then name else filler)

end Kind

end Legalese
