import Legalese.Names
import Legalese.Number.Decimal
import Legalese.Resolution

/-!
# Reports

A report takes stock of a resolution without running it: how many statements of each
kind it has, which names it declares, reads and reassigns, how deep its expressions are,
and what a reader should be warned of.  It can be made of any resolution, also of one
that breaks the rules for names.

A name counts as read once for each outermost expression that it occurs in.
-/

namespace Legalese

structure Report where
  recitals : Nat
  actions : Nat
  statementCounts : List (StatementKind × Nat)
  declared : List String
  /-- Each name that is read, with the number of outermost expressions that read it. -/
  usage : List (String × Nat)
  reassigned : List String
  undefined : List String
  unused : List String
  expressions : Nat
  maxDepth : Nat
  totalDepth : Nat
  nodes : Nat
  warnings : List String

namespace Report

/-- A depth from which on an expression is called complex is one more than this. -/
def plainDepth : Nat := 5

/-- A warning about names, if there are any. -/
def nameWarning (heading : String) (names : List String) : List String :=
  if names = [] then [] else [heading ++ ": " ++ ", ".intercalate (sortedNames names)]

/-- Adds a warning that is not there yet. -/
def addWarning (r : Report) (w : String) : Report :=
  if r.warnings.contains w then r else { r with warnings := r.warnings ++ [w] }

def total (counts : List Nat) : Nat := counts.foldr (· + ·) 0

def ofResolution (r : Resolution) : Report :=
  let expressions := r.statements.flatMap Statement.expressions
  let depths := expressions.map Expr.depth
  let declared := distinct (r.recitals.map (·.name))
  let usage := tally (expressions.flatMap fun e => distinct e.names)
  let reads := usage.map (·.1)
  let reassigned := distinct (r.statements.flatMap Statement.assumed)
  let referenced := distinct (reads ++ reassigned)
  let undefined := referenced.filter fun x => !declared.contains x
  let unused := declared.filter fun x => !referenced.contains x
  let unread := reassigned.filter fun x => declared.contains x && !reads.contains x
  let maxDepth := depths.foldl max 0
  { recitals := r.recitals.length
    actions := r.actions.length
    statementCounts := tally (r.statements.flatMap Statement.kinds)
    declared
    usage
    reassigned
    undefined
    unused
    expressions := expressions.length
    maxDepth
    totalDepth := total depths
    nodes := total (expressions.map Expr.size)
    warnings :=
      nameWarning "Undeclared identifiers" undefined
        ++ nameWarning "Unused identifiers" unused
        ++ nameWarning "Reassigned but never read" unread
        ++ (if r.actions = [] then
              ["No Resolved statements: the resolution takes no action"] else [])
        ++ (if plainDepth < maxDepth then
              ["High expression complexity: max depth " ++ toString maxDepth] else []) }

/-- The mean depth of the expressions with a number of places after the point. -/
def meanDepth (r : Report) (places : Nat) : String :=
  Decimal.mean places r.totalDepth r.expressions

/-- The counts of statements by the label of their kind, in increasing order. -/
def countsByLabel (r : Report) : List (String × Nat) :=
  (r.statementCounts.map fun c => (c.1.label, c.2)).mergeSort fun a b => decide (a.1 ≤ b.1)

/-- The names that are read, in increasing order. -/
def usageByName (r : Report) : List (String × Nat) :=
  r.usage.mergeSort fun a b => decide (a.1 ≤ b.1)

def lines (r : Report) : List String :=
  ["Whereas statements:  " ++ toString r.recitals,
    "Resolved statements: " ++ toString r.actions]
    ++ r.countsByLabel.map (fun c => "  " ++ c.1 ++ ": " ++ toString c.2)
    ++ ["Declared: " ++ declaredText]
    ++ r.usageByName.map
        (fun u => "  " ++ u.1 ++ ": read by " ++ toString u.2 ++ " expression(s)")
    ++ ["Expressions: " ++ toString r.expressions ++ " (max depth " ++ toString r.maxDepth
        ++ ", avg depth " ++ r.meanDepth 2 ++ ", " ++ toString r.nodes ++ " nodes)"]
    ++ (if r.warnings = [] then [] else
        ("Warnings (" ++ toString r.warnings.length ++ "):")
          :: r.warnings.map ("  - " ++ ·))
where
  declaredText : String :=
    let names := ", ".intercalate r.declared
    if names = "" then "(none)" else names

def text (r : Report) : String := "\n".intercalate r.lines

end Report
end Legalese
