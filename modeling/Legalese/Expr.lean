import Legalese.Operator

/-!
# Expressions

The phrases of a resolution that stand for a value.  Numbers may be of any size here:
the reader of a source text refuses a literal outside the range, but a tree that comes
from elsewhere may hold one.
-/

namespace Legalese

inductive Expr
  | integer (value : Int)
  | text (value : String)
  | name (name : String)
  | unary (op : UnaryOperator) (operand : Expr)
  | binary (op : BinaryOperator) (first second : Expr)
  | less (left right : Expr)
  | power (op : Exponent) (operand : Expr)
  deriving DecidableEq

namespace Expr

/-- How many nodes an expression has. -/
def size : Expr → Nat
  | integer _ => 1
  | text _ => 1
  | name _ => 1
  | unary _ e => 1 + e.size
  | binary _ a b => 1 + a.size + b.size
  | less l r => 1 + l.size + r.size
  | power _ e => 1 + e.size

/-- How many nodes the longest way from the root to a leaf passes. -/
def depth : Expr → Nat
  | integer _ => 1
  | text _ => 1
  | name _ => 1
  | unary _ e => 1 + e.depth
  | binary _ a b => 1 + max a.depth b.depth
  | less l r => 1 + max l.depth r.depth
  | power _ e => 1 + e.depth

/-- Every occurrence of a name, from left to right. -/
def names : Expr → List String
  | integer _ => []
  | text _ => []
  | name x => [x]
  | unary _ e => e.names
  | binary _ a b => a.names ++ b.names
  | less l r => l.names ++ r.names
  | power _ e => e.names

end Expr
end Legalese
