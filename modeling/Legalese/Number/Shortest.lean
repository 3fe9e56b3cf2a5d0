import Legalese.Number.Double

/-!
# Shortest decimals

A double is written with the fewest digits that read back as it.  Of the numbers with so
many digits the nearest is taken, and the even one of two that are equally near.  If one
of them reads back, so does one of the two neighbours of the double among them, which
leaves two candidates for every count of digits.

Powers of ten from the fourth below one to the fifteenth are written out, and what is
below or above gets an exponent.
-/

namespace Legalese

/-- A number `significand * 10 ^ exponent`. -/
structure Scientific where
  significand : Nat
  exponent : Int
  deriving DecidableEq

namespace Double

/-- How many digits a positive double has before the point.  Zeros directly after the
point count as missing digits. -/
def leadingDigits (d : Double) : Int :=
  (Nat.toDigits 10 (d.units * Nat.pow 10 400 / unitsOfOne)).length - 400

/-- The neighbours of a double among the multiples of `10 ^ exponent`, the nearer first. -/
def neighbours (d : Double) (exponent : Int) : List Scientific :=
  let num := d.units * Nat.pow 10 (-exponent).toNat
  let den := unitsOfOne * Nat.pow 10 exponent.toNat
  let below := num / den
  let above := below + 1
  if roundQuotient num den = below then [⟨below, exponent⟩, ⟨above, exponent⟩]
  else [⟨above, exponent⟩, ⟨below, exponent⟩]

def readsBack (d : Double) (s : Scientific) : Bool := ofDecimal s.significand s.exponent == d

/-- A double in full. -/
def exact (d : Double) : Scientific := ⟨d.units * Nat.pow 5 1074, -1074⟩

/-- The shortest decimal of a positive double.  Seventeen digits are always enough. -/
def shortest (d : Double) : Scientific :=
  let exponents := (List.range 17).map fun (n : Nat) => d.leadingDigits - 1 - n
  (exponents.findSome? fun e => (d.neighbours e).find? d.readsBack).getD d.exact

end Double

namespace Scientific

def zeros (n : Nat) : List Char := List.replicate n '0'

/-- Digits with a point after the first `point` of them, and a digit on either side. -/
def writeOut (digits : List Char) (point : Int) : List Char :=
  if point ≤ 0 then '0' :: '.' :: zeros (-point).toNat ++ digits
  else
    let whole := digits.take point.toNat
    let fraction := digits.drop point.toNat
    whole ++ zeros (point.toNat - whole.length)
      ++ '.' :: (if fraction = [] then ['0'] else fraction)

/-- An exponent with its sign and two digits or more. -/
def writeExponent (n : Int) : List Char :=
  let digits := Nat.toDigits 10 n.natAbs
  (if n < 0 then '-' else '+') :: zeros (2 - digits.length) ++ digits

/-- Digits with a point after the first one. -/
def writeShort (digits : List Char) (exponent : Int) : List Char :=
  let fraction := digits.drop 1
  digits.take 1 ++ (if fraction = [] then [] else '.' :: fraction)
    ++ 'e' :: writeExponent exponent

/-- A positive number.  Zeros at its end are not written. -/
def write (s : Scientific) : List Char :=
  let digits := Nat.toDigits 10 s.significand
  let point := digits.length + s.exponent
  let digits := (digits.reverse.dropWhile (· == '0')).reverse
  if -4 < point ∧ point ≤ 16 then writeOut digits point else writeShort digits (point - 1)

end Scientific

/-- A double as a decimal. -/
def Double.write (d : Double) : List Char :=
  if d.units = 0 then ['0', '.', '0'] else d.shortest.write

end Legalese
