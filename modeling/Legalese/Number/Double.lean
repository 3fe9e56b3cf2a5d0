/-!
# Doubles

Every finite double is a multiple of the least positive one, so that a magnitude is a
natural number of units and arithmetic on units is exact.  A double has 53 bits: a number
that needs more of them is rounded to the nearest multiple of a power of two, and a tie
goes to the even multiple.
-/

namespace Legalese

/-- The whole number nearest to `num / den`, the even one of two. -/
def roundQuotient (num den : Nat) : Nat :=
  let q := num / den
  let twice := 2 * (num % den)
  if den < twice ∨ (twice = den ∧ q % 2 = 1) then q + 1 else q

/-- A double without its sign, counted in units of `2 ^ -1074`.  There is no greatest one. -/
structure Double where
  units : Nat
  deriving DecidableEq

namespace Double

/-- How many units make one. -/
def unitsOfOne : Nat := Nat.pow 2 1074

/-- From here on a double counts as infinite. -/
def unitsOfInfinity : Nat := Nat.pow 2 2098

/-- The step between doubles that have as many bits as some units. -/
def step (units : Nat) : Nat := Nat.pow 2 (units.log2 - 52)

/-- The double nearest to `num / den`. -/
def nearest (num den : Nat) : Double :=
  let step := step (num * unitsOfOne / den)
  ⟨roundQuotient (num * unitsOfOne) (den * step) * step⟩

/-- The double nearest to some units. -/
def ofUnits (units : Nat) : Double :=
  ⟨roundQuotient units (step units) * step units⟩

/-- The double nearest to `n * 10 ^ exponent`. -/
def ofDecimal (n : Nat) (exponent : Int) : Double :=
  nearest (n * Nat.pow 10 exponent.toNat) (Nat.pow 10 (-exponent).toNat)

end Double
end Legalese
