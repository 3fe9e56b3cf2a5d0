/-!
# Regular patterns

A pattern describes a set of texts.  Whether a text belongs to it is found by taking the
derivative of the pattern by one character after another: the pattern of what may follow.
-/

namespace Legalese
namespace Text

inductive Pattern
  /-- No text. -/
  | never
  /-- The empty text only. -/
  | empty
  /-- One character of a class. -/
  | one (accepts : Char → Bool)
  | seq (first second : Pattern)
  | either (left right : Pattern)
  /-- Any number of texts of a pattern, one after another. -/
  | many (p : Pattern)

namespace Pattern

/-- Whether the empty text belongs to a pattern. -/
def nullable : Pattern → Bool
  | never => false
  | empty => true
  | one _ => false
  | seq p q => p.nullable && q.nullable
  | either p q => p.nullable || q.nullable
  | many _ => true

/-- A sequence, with parts that add nothing left out. -/
def andThen : Pattern → Pattern → Pattern
  | never, _ => never
  | _, never => never
  | empty, q => q
  | p, q => seq p q

/-- An alternative, with parts that add nothing left out. -/
def orElse : Pattern → Pattern → Pattern
  | never, q => q
  | p, never => p
  | p, q => either p q

/-- What may follow a character. -/
def derivative (c : Char) : Pattern → Pattern
  | never => never
  | empty => never
  | one accepts => if accepts c then empty else never
  | seq p q =>
    if p.nullable then ((p.derivative c).andThen q).orElse (q.derivative c)
    else (p.derivative c).andThen q
  | either p q => (p.derivative c).orElse (q.derivative c)
  | many p => (p.derivative c).andThen (many p)

/-- Whether a text belongs to a pattern. -/
def accepts : Pattern → List Char → Bool
  | p, [] => p.nullable
  | p, c :: cs => (p.derivative c).accepts cs

/-! ## Building patterns -/

def char (c : Char) : Pattern := one (· == c)

/-- One of the characters of a text. -/
def oneOf (s : String) : Pattern := one fun c => s.toList.contains c

/-- A character from a range. -/
def range (first last : Char) : Pattern := one fun c => first ≤ c && c ≤ last

/-- Patterns one after another. -/
def all (ps : List Pattern) : Pattern := ps.foldr seq empty

/-- One of several patterns. -/
def any (ps : List Pattern) : Pattern := ps.foldr either never

/-- A text itself. -/
def word (s : String) : Pattern := all (s.toList.map char)

def words (ws : List String) : Pattern := any (ws.map word)

def optional (p : Pattern) : Pattern := either empty p

/-- A text of a pattern, and then any number of them. -/
def oneOrMore (p : Pattern) : Pattern := seq p (many p)

end Pattern
end Text
end Legalese
