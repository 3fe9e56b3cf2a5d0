import Legalese.Token.Basic

/-!
# Cutting a text into tokens

`next` looks at the front of a text and says which token stands there and what is left
after it.  Blanks separate tokens and are dropped.  Letters, and digits with commas and
dashes, form maximal runs, a quoted text goes to the next quotation mark, and every
other character is a token of its own.  The only failure is a quotation mark that is
never closed.

`tokens` repeats `next` to the end.  A token always uses up at least one character
(`length_lt_of_next`), which is what makes the repetition end.
-/

namespace Legalese

def isBlank (c : Char) : Bool :=
  c == ' ' || c == '\t' || c == '\r' || c == '\n'

def isLetter (c : Char) : Bool :=
  ('A' ≤ c && c ≤ 'Z') || ('a' ≤ c && c ≤ 'z')

def isDigit (c : Char) : Bool :=
  '0' ≤ c && c ≤ '9'

/-- The characters of a numeral: digits, the commas between groups and dashes. -/
def isNumeral (c : Char) : Bool :=
  isDigit c || c == ',' || c == '-'

def isQuoteMark (c : Char) : Bool :=
  c == '\x22'

/-- The token of a run of letters. -/
def wordToken (cs : List Char) : Token :=
  let word := String.ofList cs
  ⟨(Kind.ofWord? word).getD .filler, word⟩

/-- What stands at the front of a text. -/
inductive Lexeme
  /-- Nothing but blanks. -/
  | ended
  /-- A quoted text without its closing mark. -/
  | unclosed (literal : String)
  | token (t : Token) (rest : List Char)

/-- The front of a text that does not begin with a blank. -/
def Lexeme.atFront : List Char → Lexeme
  | [] => .ended
  | c :: cs =>
    if isQuoteMark c then
      match cs.dropWhile (!isQuoteMark ·) with
      | [] => .unclosed (String.ofList cs)
      | _ :: rest => .token ⟨.text, String.ofList (cs.takeWhile (!isQuoteMark ·))⟩ rest
    else if c = '(' then .token ⟨.openParen, "("⟩ cs
    else if c = ')' then .token ⟨.closeParen, ")"⟩ cs
    else if c = '-' then
      match cs.takeWhile isNumeral with
      | [] => .token ⟨.dash, "-"⟩ cs
      | d :: ds => .token ⟨.numeral, String.ofList ('-' :: d :: ds)⟩ (cs.dropWhile isNumeral)
    else if isLetter c then
      .token (wordToken (c :: cs.takeWhile isLetter)) (cs.dropWhile isLetter)
    else if isDigit c then
      .token ⟨.numeral, String.ofList (c :: cs.takeWhile isNumeral)⟩ (cs.dropWhile isNumeral)
    else .token ⟨.filler, String.ofList [c]⟩ cs

/-- The first token of a text, blanks before it left out. -/
def next (cs : List Char) : Lexeme :=
  Lexeme.atFront (cs.dropWhile isBlank)

theorem length_lt_of_atFront {cs rest : List Char} {t : Token}
    (h : Lexeme.atFront cs = .token t rest) : rest.length < cs.length := by
  match cs with
  | [] => simp [Lexeme.atFront] at h
  | c :: cs =>
    have numeral := (List.dropWhile_sublist isNumeral (l := cs)).length_le
    have letter := (List.dropWhile_sublist isLetter (l := cs)).length_le
    have quoted := (List.dropWhile_sublist (!isQuoteMark ·) (l := cs)).length_le
    simp only [Lexeme.atFront] at h
    split at h
    · split at h
      · cases h
      · next e =>
        cases h
        rw [e] at quoted
        simp only [List.length_cons] at quoted ⊢
        omega
    · repeat' split at h
      all_goals
        cases h
        simp only [List.length_cons]
        omega

/-- A token uses up at least one character. -/
theorem length_lt_of_next {cs rest : List Char} {t : Token}
    (h : next cs = .token t rest) : rest.length < cs.length :=
  Nat.lt_of_lt_of_le (length_lt_of_atFront h) (List.dropWhile_sublist isBlank).length_le

/-- The tokens of a text, up to its end or up to a quoted text that is never closed; of
the latter the words after the opening mark are kept. -/
structure Tokens where
  list : List Token
  unclosed : Option String
  deriving DecidableEq

/-- All tokens of a text. -/
def tokens (cs : List Char) : Tokens :=
  match h : next cs with
  | .ended => ⟨[], none⟩
  | .unclosed literal => ⟨[], some literal⟩
  | .token t rest =>
    have := length_lt_of_next h
    let ts := tokens rest
    ⟨t :: ts.list, ts.unclosed⟩
termination_by cs.length

/-- All tokens of a text, or the words after its unclosed quotation mark. -/
def tokenize (source : String) : Except String (List Token) :=
  let ts := tokens source.toList
  match ts.unclosed with
  | none => .ok ts.list
  | some literal => .error literal

end Legalese
