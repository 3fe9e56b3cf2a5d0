import Legalese.Number.Numeral
import Legalese.Token.Basic

/-!
# Cardinals

A cardinal gives a number in English words: "negative" first if it is so, then groups
below one thousand from the greatest magnitude down, each followed by the word for its
magnitude.  Groups of zero are left out, and only the number zero is written "zero".

A written integer is the cardinal with the numeral in parentheses after it.
-/

namespace Legalese
namespace Cardinal

/-- The word of a number in one of the word lists. -/
def nameIn (words : List (String × Nat)) (n : Nat) : String :=
  match words.find? (·.2 == n) with
  | some w => w.1
  | none => ""

def wordsBelowHundred (n : Nat) : List String :=
  if n = 0 then []
  else if n < 10 then [nameIn Kind.onesWords n]
  else if n < 20 then [nameIn Kind.teensWords n]
  else if n % 10 = 0 then [nameIn Kind.tensWords n]
  else [nameIn Kind.tensWords (n / 10 * 10) ++ "-" ++ nameIn Kind.onesWords (n % 10)]

def wordsBelowThousand (n : Nat) : List String :=
  (if n < 100 then [] else [nameIn Kind.onesWords (n / 100), "hundred"])
    ++ wordsBelowHundred (n % 100)

/-- The word after the group that counts a power of one thousand; there is none for units. -/
def magnitudeWord (power : Nat) : List String :=
  if power = 0 then [] else [nameIn Kind.magnitudeWords (Kind.thousandTo power)]

/-- The words of the group that counts a power of one thousand in `n`. -/
def groupWords (n power : Nat) : List String :=
  let group := n / Kind.thousandTo power % 1000
  if group = 0 then [] else wordsBelowThousand group ++ magnitudeWord power

/-- The words of a positive number that has at most seven groups, which is all of the range. -/
def natWords (n : Nat) : List String :=
  [6, 5, 4, 3, 2, 1, 0].flatMap (groupWords n)

def words (n : Int) : List String :=
  if n = 0 then ["zero"]
  else if n < 0 then "negative" :: natWords n.natAbs
  else natWords n.natAbs

def write (n : Int) : String := " ".intercalate (words n)

/-- The cardinal of a number of the range. -/
def write? : Int → Except OutsideRange String := inRangeOnly write

end Cardinal

namespace Integer

def write (n : Int) : String := Cardinal.write n ++ " (" ++ Numeral.write n ++ ")"

/-- A number of the range the way resolutions write it, in words and in digits. -/
def write? : Int → Except OutsideRange String := inRangeOnly write

end Integer
end Legalese
