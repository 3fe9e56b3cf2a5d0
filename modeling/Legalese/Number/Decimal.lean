import Legalese.Number.Double

/-!
# Fixed decimals of a mean

A mean of counts is held as the double nearest to the exact quotient, and shown with a
fixed number of decimals.  Both roundings go to the nearest value, and a tie goes to the
even neighbour.  The double matters: a quotient such as 107/40 lies on a tie between two
decimals, and the double nearest to it does not.
-/

namespace Legalese
namespace Decimal

/-- `n` in decimal digits, with at least `width` of them. -/
def padded (width n : Nat) : String :=
  let digits := Nat.toDigits 10 n
  String.ofList (List.replicate (width - digits.length) '0' ++ digits)

/-- A number with a fixed number of places after the point. -/
def fixed (places : Nat) (d : Double) : String :=
  let unit := Nat.pow 10 places
  let n := roundQuotient (d.units * unit) Double.unitsOfOne
  toString (n / unit) ++ "." ++ padded places (n % unit)

/-- The mean of counts that add up to `total`, zero if there are none. -/
def mean (places total count : Nat) : String :=
  if count = 0 then fixed places ⟨0⟩ else fixed places (Double.nearest total count)

end Decimal
end Legalese
