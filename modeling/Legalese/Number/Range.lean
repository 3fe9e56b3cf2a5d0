/-!
# The range of numbers

Numbers are signed and have 64 bits.  A literal outside the range is refused; what
arithmetic produces is reduced into the range modulo `2 ^ 64`.
-/

namespace Legalese

/-- The least number. -/
def minNumber : Int := -0x8000000000000000

/-- The greatest number. -/
def maxNumber : Int := 0x7fffffffffffffff

/-- The numbers that have 64 bits. -/
def InRange (n : Int) : Prop := minNumber ≤ n ∧ n ≤ maxNumber

instance (n : Int) : Decidable (InRange n) :=
  inferInstanceAs (Decidable (_ ∧ _))

/-- The one number in the range that is congruent to `n` modulo `2 ^ 64`. -/
def wrap (n : Int) : Int :=
  (n + 0x8000000000000000) % 0x10000000000000000 - 0x8000000000000000

/-- The range is balanced around zero, up to its least number. -/
theorem wrap_eq_bmod (n : Int) : wrap n = n.bmod 0x10000000000000000 := by
  rw [wrap, Int.bmod_def]
  omega

theorem inRange_wrap (n : Int) : InRange (wrap n) := by
  unfold InRange wrap minNumber maxNumber
  omega

theorem wrap_of_inRange {n : Int} (h : InRange n) : wrap n = n := by
  unfold InRange minNumber maxNumber at h
  unfold wrap
  omega

/-- A number that has no written form. -/
structure OutsideRange where
  value : Int
  deriving DecidableEq

def OutsideRange.message (e : OutsideRange) : String :=
  toString e.value ++ " is outside the int64 range"

/-- Passes a number of the range on to a writer that has words for nothing else. -/
def inRangeOnly (write : Int → String) (n : Int) : Except OutsideRange String :=
  if InRange n then .ok (write n) else .error ⟨n⟩

end Legalese
