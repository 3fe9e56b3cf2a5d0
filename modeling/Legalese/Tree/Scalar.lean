import Legalese.Number.Floating
import Legalese.Text.Quoted
import Legalese.Tree.Timestamp

/-!
# Scalars

The values without parts that stored data may hold.  Resolutions are made of texts and
whole numbers; scalars of the other types occur in messages about data that is no
resolution.
-/

namespace Legalese

inductive Scalar
  | null
  | bool (b : Bool)
  | int (n : Int)
  | float (x : Floating)
  | timestamp (t : Timestamp)
  | str (s : String)
  deriving DecidableEq

instance : Coe String Scalar := ⟨.str⟩

namespace Scalar

/-- The word for the type of a scalar in messages. -/
def typeWord : Scalar → String
  | null => "NoneType"
  | bool _ => "bool"
  | int _ => "int"
  | float _ => "float"
  | timestamp t => t.typeWord
  | str _ => "str"

/-- A scalar on its own in a message: a text stands without quotation marks. -/
def plain : Scalar → String
  | null => "None"
  | bool b => if b then "True" else "False"
  | int n => toString n
  | float x => String.ofList x.write
  | timestamp t => t.write
  | str s => s

/-- A scalar as messages show it where texts have quotation marks. -/
def shown : Scalar → String
  | str s => Text.quote s
  | timestamp t => t.shown
  | s => s.plain

/-- Numbers that are equal are the same name, and so are the truth values and the numbers
one and zero. -/
def asName : Scalar → Scalar
  | bool b => int (if b then 1 else 0)
  | float x =>
    match x.toInt? with
    | some n => int n
    | none => float x
  | s => s

end Scalar
end Legalese
