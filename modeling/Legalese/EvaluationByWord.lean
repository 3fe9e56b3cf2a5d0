import Legalese.Evaluation

/-!
# Operators given by a word

Applies an operator that is given by its word.  A word that is no operator of the form
asked for is a fault of its own, but only after the operands have been found fit.
-/

namespace Legalese

namespace UnaryOperator

def applyWord (w : String) (v : Option Value) : Except Fault (Option Value) :=
  match ofWord? w with
  | some op => op.apply v
  | none => do
    let n ← numeric v
    throw (.unknownUnary w n)

end UnaryOperator

namespace BinaryOperator

def applyWord (w : String) (u v : Option Value) : Except Fault (Option Value) :=
  match ofWord? w with
  | some op => op.apply u v
  | none => do
    let a ← numeric u
    let b ← numeric v
    throw (.unknownBinary w a b)

end BinaryOperator

namespace Exponent

def applyWord (w : String) (v : Option Value) : Except Fault (Option Value) :=
  match ofWord? w with
  | some op => op.apply v
  | none => do
    let n ← numeric v
    throw (.unknownAfter w n)

end Exponent

def applyBetween (w : String) (u v : Option Value) : Except Fault (Option Value) :=
  if w = lessWord then applyLess u v
  else do
    let a ← numeric u
    let b ← numeric v
    throw (.unknownBetween w a b)

namespace Relation

/-- Runs a consequence if two values stand in the relation that a word names. -/
def runWord (w : String) (u v : Value) (consequence : Statement) : Outcome :=
  let stop (f : Fault) : Outcome := ⟨.empty, [], some f⟩
  match ofWord? w with
  | none => stop (.unknownRelation w)
  | some relation =>
    match relation.holds u v with
    | .error f => stop f
    | .ok holds => if holds then consequence.run .empty else ⟨.empty, [], none⟩

end Relation
end Legalese
