import Legalese.Number.Range
import Legalese.Token.Lexer

/-!
# Numerals

A numeral gives a number in digits, with a comma between groups of three and a dash in
front of a negative number.  `write` and `read?` are each other's inverse on the range:
no leading zero, no missing or extra comma and no value outside the range is read.
-/

namespace Legalese
namespace Numeral

/-- Puts a comma wherever a multiple of three digits is left. -/
def separate : List Char → List Char
  | [] => []
  | c :: cs =>
    if cs ≠ [] ∧ cs.length % 3 = 0 then c :: ',' :: separate cs else c :: separate cs

def writeNat (n : Nat) : List Char := separate (Nat.toDigits 10 n)

/-- The numeral of any integer, of the range or not. -/
def write (n : Int) : String :=
  String.ofList (if n < 0 then '-' :: writeNat n.natAbs else writeNat n.natAbs)

/-- The numeral of a number of the range. -/
def write? : Int → Except OutsideRange String := inRangeOnly write

def digitValue (c : Char) : Nat := c.toNat - '0'.toNat

/-- Reads digits and commas into a running value.  From the right, every fourth place
holds a comma and every other place a digit.  With `sign` a digit is added or
subtracted, so that the least number needs no special care. -/
def readDigits? (sign : Int) : List Char → Int → Option Int
  | [], value => some value
  | c :: cs, value =>
    if cs.length % 4 = 3 then
      if c = ',' then readDigits? sign cs value else none
    else if isDigit c then
      let value := 10 * value + sign * digitValue c
      if InRange value then readDigits? sign cs value else none
    else none

/-- Digits and commas that begin with a digit other than zero. -/
def readMagnitude? (sign : Int) : List Char → Option Int
  | [] => none
  | c :: cs => if '1' ≤ c ∧ c ≤ '9' then readDigits? sign (c :: cs) 0 else none

def readChars? : List Char → Option Int
  | ['0'] => some 0
  | '-' :: cs => readMagnitude? (-1) cs
  | cs => readMagnitude? 1 cs

/-- The number of a numeral. -/
def read? (s : String) : Option Int := readChars? s.toList

end Numeral
end Legalese
