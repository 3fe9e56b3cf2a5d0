import Legalese.Environment
import Legalese.Resolution

/-!
# Evaluation

An expression has a value, has none, or stops with a fault.  It has none only when it is
an unbound name; an operator that needs a number then stops.  Operands are evaluated
from left to right, all of them before any is looked at, and every arithmetic result is
wrapped into the range of numbers.

A statement has at most one effect: it binds a name or publishes a value.  A resolution
performs the effects of its statements in order and ends with the first fault.
-/

namespace Legalese

/-- The number that an operator needs. -/
def numeric : Option Value → Except Fault Int
  | some (.integer n) => .ok n
  | some (.text s) => .error (.nonNumeric s)
  | none => .error .missingValue

/-- The value of an arithmetic result. -/
def wrapped (n : Int) : Option Value := some (.integer (wrap n))

namespace UnaryOperator

def apply (op : UnaryOperator) (v : Option Value) : Except Fault (Option Value) := do
  let n ← numeric v
  return wrapped (op.result n)

end UnaryOperator

namespace BinaryOperator

def apply (op : BinaryOperator) (u v : Option Value) : Except Fault (Option Value) := do
  let a ← numeric u
  let b ← numeric v
  match op.result? a b with
  | some n => return wrapped n
  | none => throw (.divisionByZero op a b)

end BinaryOperator

namespace Exponent

def apply (op : Exponent) (v : Option Value) : Except Fault (Option Value) := do
  let n ← numeric v
  return wrapped (op.result n)

end Exponent

def applyLess (u v : Option Value) : Except Fault (Option Value) := do
  let a ← numeric u
  let b ← numeric v
  return wrapped (a - b)

namespace Relation

/-- Whether a relation holds.  Any two values can be equal; only numbers exceed. -/
def holds : Relation → Value → Value → Except Fault Bool
  | equals, u, v => .ok (u == v)
  | exceeds, .integer a, .integer b => .ok (b < a)
  | exceeds, u, v => .error (.exceedsMismatch u v)

end Relation

namespace Expr

def eval (env : Environment) : Expr → Except Fault (Option Value)
  | integer n => .ok (some (.integer n))
  | text s => .ok (some (.text s))
  | name x => env.value x
  | unary op e => do
    let v ← e.eval env
    op.apply v
  | binary op a b => do
    let u ← a.eval env
    let v ← b.eval env
    op.apply u v
  | less l r => do
    let u ← l.eval env
    let v ← r.eval env
    applyLess u v
  | power op e => do
    let v ← e.eval env
    op.apply v

end Expr

/-- What a statement does when it runs. -/
inductive Effect
  | nothing
  | bind (name : String) (value : Value)
  | publish (value : Value)
  deriving DecidableEq

namespace Effect

def ofBinding (name : String) : Option Value → Effect
  | none => nothing
  | some v => bind name v

def ofPublication : Option Value → Effect
  | none => nothing
  | some v => publish v

def perform (env : Environment) : Effect → Environment
  | bind x v => env.set x (.ok v)
  | _ => env

def published : Effect → List Value
  | publish v => [v]
  | _ => []

end Effect

namespace Statement

/-- The effect of a statement.  A conditional that compares a missing value has none. -/
def effect (env : Environment) : Statement → Except Fault Effect
  | declare d => do
    let v ← d.value.eval env
    return .ofBinding d.name v
  | assume x e => do
    let v ← e.eval env
    return .ofBinding x v
  | publish e => do
    let v ← e.eval env
    return .ofPublication v
  | conditional l r relation c => do
    let u ← l.eval env
    let v ← r.eval env
    match u, v with
    | some u, some v =>
      let holds ← relation.holds u v
      if holds then c.effect env else return .nothing
    | _, _ => return .nothing

end Statement

/-- Where a run has ended: the bindings, the values published in order, and the fault
that stopped it, if one did. -/
structure Outcome where
  env : Environment
  published : List Value
  fault : Option Fault

namespace Statement

/-- Runs statements in order up to the first fault. -/
def runAll (env : Environment) : List Statement → Outcome
  | [] => ⟨env, [], none⟩
  | s :: rest =>
    match s.effect env with
    | .error f => ⟨env, [], some f⟩
    | .ok e =>
      let o := runAll (e.perform env) rest
      { o with published := e.published ++ o.published }

def run (env : Environment) (s : Statement) : Outcome := runAll env [s]

end Statement

namespace Resolution

def run (env : Environment) (r : Resolution) : Outcome := Statement.runAll env r.statements

end Resolution

namespace Outcome

/-- The published lines. -/
def lines? (o : Outcome) : Except OutsideRange (List String) := o.published.mapM Value.write?

end Outcome
end Legalese
