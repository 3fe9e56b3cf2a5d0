import Legalese.Token.Lexer

/-!
# Tokens on demand

`Reader` hands out the tokens of a text one at a time and knows how far it has come.
After an unclosed text it is at the end.  `Stream` puts two tokens of lookahead on top
of a reader, and cuts no token before it comes into view.
-/

namespace Legalese

/-- A text that is being cut into tokens. -/
structure Reader where
  pending : List Char
  /-- How many characters have been used up. -/
  position : Nat

namespace Reader

def ofString (source : String) : Reader := ⟨source.toList, 0⟩

/-- The reader after all but `rest` has been used up. -/
def leaving (r : Reader) (rest : List Char) : Reader :=
  ⟨rest, r.position + (r.pending.length - rest.length)⟩

/-- The next token, or the words of an unclosed text; at the end of the text `none`. -/
def next (r : Reader) : Except String (Option Token) × Reader :=
  match Legalese.next r.pending with
  | .ended => (.ok none, r.leaving [])
  | .unclosed literal => (.error literal, r.leaving [])
  | .token t rest => (.ok (some t), r.leaving rest)

/-- What `count` calls of `next` give, each with the position after it. -/
def take : Nat → Reader → List (Except String (Option Token) × Nat)
  | 0, _ => []
  | count + 1, r =>
    let (answer, r') := r.next
    (answer, r'.position) :: take count r'

end Reader

/-- The current token, the one after it, and a reader for the rest. -/
structure Stream where
  current? : Option Token
  next? : Option Token
  reader : Reader

namespace Stream

/-- Moves on by one token. -/
def advance (s : Stream) : Except String Stream :=
  match s.reader.next with
  | (.ok t, r) => .ok ⟨s.next?, t, r⟩
  | (.error literal, _) => .error literal

/-- A stream on the first token of a text. -/
def start (source : String) : Except String Stream := do
  let s ← advance ⟨none, none, Reader.ofString source⟩
  s.advance

end Stream

end Legalese
