import Legalese.Number.Cardinal
import Legalese.Operator

/-!
# Values and faults

A value is a number or a text.  A fault is the cause that stops an evaluation.  It is
not a value, but a name may be bound to one, and then every use of the name stops with
it.
-/

namespace Legalese

inductive Value
  | integer (n : Int)
  | text (s : String)
  deriving DecidableEq

inductive Fault
  | missingValue
  | nonNumeric (text : String)
  | divisionByZero (op : BinaryOperator) (dividend divisor : Int)
  | exceedsMismatch (left right : Value)
  | unknownUnary (word : String) (operand : Int)
  | unknownBinary (word : String) (first second : Int)
  | unknownBetween (word : String) (left right : Int)
  | unknownAfter (word : String) (operand : Int)
  | unknownRelation (word : String)
  /-- A fault that is known by its words only. -/
  | stated (message : String)
  deriving DecidableEq

namespace Value

/-- The word for the type of a value in messages. -/
def typeWord : Value → String
  | integer _ => "INTEGER"
  | text _ => "STRING"

/-- What is published for a value: a text as it stands, a number in words and digits. -/
def write? : Value → Except OutsideRange String
  | integer n => Integer.write? n
  | text s => .ok s

end Value

namespace Fault

def message : Fault → String
  | missingValue => "missing value in numeric context"
  | nonNumeric text => "non-numeric " ++ text ++ " in numeric context"
  | divisionByZero op a b =>
    "division by zero: " ++ op.word ++ " " ++ toString a ++ " " ++ toString b
  | exceedsMismatch l r => "type mismatch: " ++ l.typeWord ++ " exceeds " ++ r.typeWord
  | unknownUnary w n => "unknown operator " ++ w ++ " " ++ toString n
  | unknownBinary w a b => "unknown operator " ++ w ++ " " ++ toString a ++ " " ++ toString b
  | unknownBetween w a b => "unknown operator " ++ toString a ++ " " ++ w ++ " " ++ toString b
  | unknownAfter w n => "unknown operator " ++ toString n ++ " " ++ w
  | unknownRelation w => "unknown relation " ++ w
  | stated m => m

end Fault

/-- What a name is bound to. -/
abbrev Binding := Except Fault Value

end Legalese
