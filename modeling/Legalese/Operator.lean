/-!
# Operator words

Every operator of an expression is one English word.  There are two that stand
before a single operand, four that stand before a pair, two that follow their
operand, and the word "less" between two operands, which subtracts.  The two
relations occur only in conditionals.

Each type knows its word and what it computes over the integers.  The results
here are exact; cutting them down to a machine word is the evaluator's business.
-/

namespace Legalese

/-- Operators written before one operand. -/
inductive UnaryOperator
  | twice
  | thrice
  deriving DecidableEq

namespace UnaryOperator

def word : UnaryOperator → String
  | twice => "twice"
  | thrice => "thrice"

def all : List UnaryOperator := [twice, thrice]

/-- The operator that a word spells, letter for letter. -/
def ofWord? (w : String) : Option UnaryOperator :=
  all.find? (·.word == w)

def result : UnaryOperator → Int → Int
  | twice, n => 2 * n
  | thrice, n => 3 * n

theorem ofWord?_word (op : UnaryOperator) : ofWord? op.word = some op := by
  cases op <;> decide

end UnaryOperator

/-- A quotient of absolute values with the sign of the division, and what it leaves of the
dividend. -/
def divideTowardZero (a b : Int) : Int × Int :=
  let magnitude := (a.natAbs : Int) / b.natAbs
  let quotient := if a < 0 ↔ b < 0 then magnitude else -magnitude
  (quotient, a - b * quotient)

theorem divideTowardZero_eq (a b : Int) : divideTowardZero a b = (a.tdiv b, a.tmod b) := by
  have natural (n : Nat) : ¬Int.ofNat n < 0 := Int.not_lt.2 (Int.natCast_nonneg n)
  have negative := Int.negSucc_lt_zero
  have quotient : (divideTowardZero a b).1 = a.tdiv b := by
    show (if a < 0 ↔ b < 0 then _ else _) = _
    cases a with
    | ofNat m =>
      cases b with
      | ofNat n => rw [if_pos (iff_of_false (natural m) (natural n))]; rfl
      | negSucc n => rw [if_neg fun h => natural m (h.2 (negative n))]; rfl
    | negSucc m =>
      cases b with
      | ofNat n => rw [if_neg fun h => natural n (h.1 (negative m))]; rfl
      | negSucc n => rw [if_pos (iff_of_true (negative m) (negative n))]; rfl
  refine Prod.ext quotient ?_
  rw [Int.tmod_def, ← quotient]
  rfl

/-- Operators written before two operands. -/
inductive BinaryOperator
  | sum
  | product
  | quotient
  | remainder
  deriving DecidableEq

namespace BinaryOperator

def word : BinaryOperator → String
  | sum => "sum"
  | product => "product"
  | quotient => "quotient"
  | remainder => "remainder"

def all : List BinaryOperator := [sum, product, quotient, remainder]

def ofWord? (w : String) : Option BinaryOperator :=
  all.find? (·.word == w)

/-- Division rounds toward zero, and the remainder takes the sign of the dividend.
Neither has a value at a zero divisor. -/
def result? : BinaryOperator → Int → Int → Option Int
  | sum, a, b => some (a + b)
  | product, a, b => some (a * b)
  | quotient, a, b => if b = 0 then none else some (divideTowardZero a b).1
  | remainder, a, b => if b = 0 then none else some (divideTowardZero a b).2

theorem ofWord?_word (op : BinaryOperator) : ofWord? op.word = some op := by
  cases op <;> decide

end BinaryOperator

/-- Operators written after their operand. -/
inductive Exponent
  | squared
  | cubed
  deriving DecidableEq

namespace Exponent

def word : Exponent → String
  | squared => "squared"
  | cubed => "cubed"

def all : List Exponent := [squared, cubed]

def ofWord? (w : String) : Option Exponent :=
  all.find? (·.word == w)

def result : Exponent → Int → Int
  | squared, n => n * n
  | cubed, n => n * n * n

theorem ofWord?_word (op : Exponent) : ofWord? op.word = some op := by
  cases op <;> decide

end Exponent

/-- The word between the operands of a subtraction. -/
def lessWord : String := "less"

/-- What a conditional asks of its two operands. -/
inductive Relation
  | equals
  | exceeds
  deriving DecidableEq

namespace Relation

def word : Relation → String
  | equals => "equals"
  | exceeds => "exceeds"

def all : List Relation := [equals, exceeds]

def ofWord? (w : String) : Option Relation :=
  all.find? (·.word == w)

theorem ofWord?_word (r : Relation) : ofWord? r.word = some r := by
  cases r <;> decide

end Relation

end Legalese
