import Legalese.Number.Shortest

/-!
# Floating-point numbers

A double with its sign, an infinity, or no number at all.  Resolutions compute with whole
numbers only; these are numbers that stand in stored data.
-/

namespace Legalese

inductive Floating
  | nan
  | infinite (isNegative : Bool)
  | finite (isNegative : Bool) (magnitude : Double)
  deriving DecidableEq

namespace Floating

/-- A magnitude with a sign; one that is out of range is infinite. -/
def ofDouble (isNegative : Bool) (d : Double) : Floating :=
  if d.units < Double.unitsOfInfinity then finite isNegative d else infinite isNegative

/-- The number nearest to `n * 10 ^ exponent`, with a sign.  An exponent that decides the
matter on its own is not raised to. -/
def ofDecimal (isNegative : Bool) (n : Nat) (exponent : Int) : Floating :=
  if n = 0 ∨ exponent < -400 - n.log2 then finite isNegative ⟨0⟩
  else if 400 < exponent then infinite isNegative
  else ofDouble isNegative (Double.ofDecimal n exponent)

/-! ## Arithmetic -/

def add : Floating → Floating → Floating
  | infinite a, infinite b => if a = b then infinite a else nan
  | infinite a, finite _ _ => infinite a
  | finite _ _, infinite b => infinite b
  | finite a x, finite b y =>
    if a = b then ofDouble a (.ofUnits (x.units + y.units))
    else if x.units < y.units then ofDouble b (.ofUnits (y.units - x.units))
    else ofDouble (a && x.units != y.units) (.ofUnits (x.units - y.units))
  | _, _ => nan

/-- The product with the double nearest to a positive number. -/
def scale (n : Nat) : Floating → Floating
  | finite a x =>
    let factor := Double.nearest n 1
    ofDouble a (.nearest (x.units * factor.units) (Double.unitsOfOne * Double.unitsOfOne))
  | x => x

def negate : Floating → Floating
  | nan => nan
  | infinite isNegative => infinite !isNegative
  | finite isNegative d => finite (!isNegative) d

/-! ## Writing -/

def withSign (isNegative : Bool) (cs : List Char) : List Char :=
  if isNegative then '-' :: cs else cs

def write : Floating → List Char
  | nan => ['n', 'a', 'n']
  | infinite isNegative => withSign isNegative ['i', 'n', 'f']
  | finite isNegative d => withSign isNegative d.write

/-- The whole number that equals a floating-point number. -/
def toInt? : Floating → Option Int
  | finite isNegative d =>
    let n : Int := d.units / Double.unitsOfOne
    if d.units % Double.unitsOfOne ≠ 0 then none else some (if isNegative then -n else n)
  | _ => none

/-! ## Reading -/

def isDigit (c : Char) : Bool := '0' ≤ c && c ≤ '9'

def natOfDigits (ds : List Char) : Nat :=
  ds.foldl (fun n d => 10 * n + (d.toNat - '0'.toNat)) 0

/-- Whether a sign at the front is a minus, and what comes after it. -/
def readSign : List Char → Bool × List Char
  | '-' :: cs => (true, cs)
  | '+' :: cs => (false, cs)
  | cs => (false, cs)

/-- The exponent at the end of a number: nothing, or its mark and a whole number. -/
def readExponent? : List Char → Option Int
  | [] => some 0
  | c :: cs =>
    let (isNegative, ds) := readSign cs
    if (c = 'e' ∨ c = 'E') ∧ ds ≠ [] ∧ ds.all isDigit then
      let n : Int := natOfDigits ds
      some (if isNegative then -n else n)
    else none

/-- Digits with at most one point among them, and perhaps an exponent after them. -/
def readMagnitude? (cs : List Char) : Option Scientific := do
  let whole := cs.takeWhile isDigit
  let cs := cs.drop whole.length
  let hasPoint := cs.head? == some '.'
  let cs := if hasPoint then cs.drop 1 else cs
  let fraction := if hasPoint then cs.takeWhile isDigit else []
  let exponent ← readExponent? (cs.drop fraction.length)
  if whole = [] ∧ fraction = [] then none
  else return ⟨natOfDigits (whole ++ fraction), exponent - fraction.length⟩

/-- The number of a decimal with an optional sign. -/
def read? (cs : List Char) : Option Floating := do
  let (isNegative, cs) := readSign cs
  let s ← readMagnitude? cs
  return ofDecimal isNegative s.significand s.exponent

end Floating
end Legalese
