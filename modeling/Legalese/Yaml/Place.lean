/-!
# Places in a YAML text

The rest of a text together with the line and column that it begins in.  Indentation has
a meaning in YAML, so a reader always knows its column.
-/

namespace Legalese
namespace Yaml

/-- The characters that end a line. -/
def isBreak (c : Char) : Bool :=
  c == '\n' || c == '\r' || c == '\u0085' || c == '\u2028' || c == '\u2029'

def isSpace (c : Char) : Bool := c == ' ' || c == '\t'

/-- The letters and digits of names. -/
def isAlphanumeric (c : Char) : Bool :=
  ('0' ≤ c && c ≤ '9') || ('A' ≤ c && c ≤ 'Z') || ('a' ≤ c && c ≤ 'z')

/-- Whether a word ends before some characters. -/
def endsWord : List Char → Bool
  | [] => true
  | c :: _ => isSpace c || isBreak c

/-- Whether a line begins with the mark of a document's start or end. -/
def isDocumentMark (cs : List Char) : Bool :=
  match cs with
  | '-' :: '-' :: '-' :: rest => endsWord rest
  | '.' :: '.' :: '.' :: rest => endsWord rest
  | _ => false

structure Place where
  rest : List Char
  line : Nat
  column : Nat
  offset : Nat

namespace Place

def ofChars (cs : List Char) : Place := ⟨cs, 0, 0, 0⟩

/-- The place after the next character.  A carriage return before a line feed does not
end the line yet, and a byte order mark takes up no column. -/
def forward (p : Place) : Place :=
  match p.rest with
  | [] => p
  | c :: cs =>
    if c = '\r' ∧ cs.head? = some '\n' then ⟨cs, p.line, p.column + 1, p.offset + 1⟩
    else if isBreak c then ⟨cs, p.line + 1, 0, p.offset + 1⟩
    else if c = '\ufeff' then ⟨cs, p.line, p.column, p.offset + 1⟩
    else ⟨cs, p.line, p.column + 1, p.offset + 1⟩

def forwardBy : Nat → Place → Place
  | 0, p => p
  | n + 1, p => forwardBy n p.forward

/-- The characters of a class at the front, and the place after them. -/
def span (accepts : Char → Bool) (p : Place) : List Char × Place :=
  let cs := p.rest.takeWhile accepts
  (cs, p.forwardBy cs.length)

def skip (accepts : Char → Bool) (p : Place) : Place := (p.span accepts).2

/-- The line break at the front, in its common form, and the place after it. -/
def lineBreak? (p : Place) : Option (Char × Place) :=
  match p.rest with
  | '\r' :: '\n' :: _ => some ('\n', p.forwardBy 2)
  | c :: _ =>
    if c = '\u2028' ∨ c = '\u2029' then some (c, p.forward)
    else if isBreak c then some ('\n', p.forward)
    else none
  | [] => none

end Place
end Yaml
end Legalese
