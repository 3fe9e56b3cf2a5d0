/-!
# Hexadecimal escapes

A character that cannot be shown is written as its code point in a fixed number of
hexadecimal digits.  The alphabet is a parameter: some formats want small letters
and some capital ones.
-/

namespace Legalese
namespace Text

/-- The sixteen digits of an escape. -/
structure HexAlphabet where
  digits : List Char

namespace HexAlphabet

def lower : HexAlphabet := ⟨"0123456789abcdef".toList⟩

def upper : HexAlphabet := ⟨"0123456789ABCDEF".toList⟩

def digit (a : HexAlphabet) (n : Nat) : Char := a.digits.getD n '0'

/-- The last `width` digits of `n`, leading zeros included. -/
def write (a : HexAlphabet) : Nat → Nat → List Char
  | 0, _ => []
  | width + 1, n => a.write width (n / 16) ++ [a.digit (n % 16)]

@[simp] theorem length_write (a : HexAlphabet) (width n : Nat) :
    (a.write width n).length = width := by
  induction width generalizing n with
  | zero => rfl
  | succ width ih => simp [write, ih]

end HexAlphabet

/-- The value of a digit in either case. -/
def hexValue? (c : Char) : Option Nat :=
  if '0' ≤ c ∧ c ≤ '9' then some (c.toNat - '0'.toNat)
  else if 'a' ≤ c ∧ c ≤ 'f' then some (c.toNat - 'a'.toNat + 10)
  else if 'A' ≤ c ∧ c ≤ 'F' then some (c.toNat - 'A'.toNat + 10)
  else none

/-- Reads a run of digits, most significant first. -/
def hexNumber? (cs : List Char) : Option Nat :=
  cs.foldlM (fun n c => (hexValue? c).map (16 * n + ·)) 0

end Text
end Legalese
