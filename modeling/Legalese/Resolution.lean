import Legalese.Expr

/-!
# Resolutions

A resolution has recitals, which declare names, and after them actions.  An action
assumes a new value for a name, publishes a value, or does either of these under a
condition.  A tree that comes from elsewhere than a source text may also declare a name
among the actions.
-/

namespace Legalese

/-- A name and its first value. -/
structure Declaration where
  name : String
  value : Expr
  deriving DecidableEq

inductive Statement
  | declare (d : Declaration)
  | assume (name : String) (value : Expr)
  | publish (value : Expr)
  | conditional (left right : Expr) (relation : Relation) (consequence : Statement)
  deriving DecidableEq

/-- What a statement does, without saying to what. -/
inductive StatementKind
  | declare
  | assume
  | publish
  | conditional
  deriving DecidableEq

namespace StatementKind

/-- The word for a kind of statement in reports and messages. -/
def label : StatementKind → String
  | declare => "DeclStmt"
  | assume => "AssumeStmt"
  | publish => "PublishStmt"
  | conditional => "IfStmt"

end StatementKind

namespace Statement

def kind : Statement → StatementKind
  | declare _ => .declare
  | assume _ _ => .assume
  | publish _ => .publish
  | conditional _ _ _ _ => .conditional

/-- The kinds of a statement and of the consequences inside it, outermost first. -/
def kinds : Statement → List StatementKind
  | declare _ => [.declare]
  | assume _ _ => [.assume]
  | publish _ => [.publish]
  | conditional _ _ _ c => .conditional :: c.kinds

/-- The outermost expressions of a statement and of the consequences inside it. -/
def expressions : Statement → List Expr
  | declare d => [d.value]
  | assume _ e => [e]
  | publish e => [e]
  | conditional l r _ c => l :: r :: c.expressions

/-- The name that a statement, or its innermost consequence, gives a new value. -/
def assumed : Statement → List String
  | assume x _ => [x]
  | conditional _ _ _ c => c.assumed
  | _ => []

end Statement

structure Resolution where
  recitals : List Declaration
  actions : List Statement
  deriving DecidableEq

namespace Resolution

/-- All statements in the order in which they take effect. -/
def statements (r : Resolution) : List Statement :=
  r.recitals.map .declare ++ r.actions

/-- The first recital that declares a name. -/
def declaration? (r : Resolution) (name : String) : Option Declaration :=
  r.recitals.find? (·.name == name)

end Resolution
end Legalese
