import Legalese.Names
import Legalese.Number.Numeral
import Legalese.Resolution

/-!
# Graphs

A resolution as a directed graph in the DOT language: one node for each statement, in a
cluster for its section, and an edge from each statement to the one after it.  A
detailed graph shows expressions in its labels.  A dataflow graph adds a dashed edge
from the declaration of a name to each statement that reads or reassigns it.

Numbers in labels are numerals, so a detailed label fails for a number outside the
range.  Labels are escaped so that any name and any text can stand in them.
-/

namespace Legalese

inductive GraphMode
  | simple
  | detailed
  | dataflow
  deriving DecidableEq

namespace GraphMode

def word : GraphMode → String
  | simple => "simple"
  | detailed => "detailed"
  | dataflow => "dataflow"

def all : List GraphMode := [simple, detailed, dataflow]

def ofWord? (w : String) : Option GraphMode :=
  all.find? (·.word == w)

/-- Whether labels show expressions. -/
def showsExpressions : GraphMode → Bool
  | simple => false
  | _ => true

end GraphMode

namespace Graph

/-! ## Labels -/

/-- The longest expression that a label shows whole. -/
def maxLabelLength : Nat := 40

/-- Cuts a long label and marks the cut with three dots. -/
def shorten (label : String) : String :=
  let cs := label.toList
  if maxLabelLength < cs.length then
    String.ofList (cs.take (maxLabelLength - 3)) ++ "..."
  else label

/-- Puts a backslash and a letter in every place of a character. -/
def escape (c letter : Char) (cs : List Char) : List Char :=
  cs.flatMap fun d => if d = c then ['\\', letter] else [d]

/-- A text between quotation marks, with backslashes, then marks, then line feeds escaped. -/
def quoted (s : String) : String :=
  if s = "" then "\"\""
  else
    let escaped := escape '\n' 'n' (escape '\x22' '\x22' (escape '\\' '\\' s.toList))
    String.ofList ('\x22' :: escaped ++ ['\x22'])

/-- An expression with parentheses around every operator and its operands. -/
def exprLabel : Expr → Except OutsideRange String
  | .integer n => Numeral.write? n
  | .text s => .ok ("\"" ++ s ++ "\"")
  | .name x => .ok x
  | .unary op e => do
    let operand ← exprLabel e
    return "(" ++ op.word ++ " " ++ operand ++ ")"
  | .binary op a b => do
    let first ← exprLabel a
    let second ← exprLabel b
    return "(" ++ op.word ++ " " ++ first ++ " " ++ second ++ ")"
  | .less l r => do
    let left ← exprLabel l
    let right ← exprLabel r
    return "(" ++ left ++ " " ++ lessWord ++ " " ++ right ++ ")"
  | .power op e => do
    let operand ← exprLabel e
    return "(" ++ operand ++ " " ++ op.word ++ ")"

/-- The label of a statement without its expressions. -/
def simpleLabel : Statement → String
  | .declare d => "declare " ++ d.name
  | .assume x _ => "assume " ++ x
  | .publish _ => "publish"
  | .conditional _ _ relation c => "if " ++ relation.word ++ ": " ++ simpleLabel c

/-- The label of a statement with its expressions.  The consequence of a conditional is
looked at before its condition. -/
def detailedLabel : Statement → Except OutsideRange String
  | .declare d => do
    let value ← exprLabel d.value
    return d.name ++ " := " ++ shorten value
  | .assume x e => do
    let value ← exprLabel e
    return x ++ " assume " ++ shorten value
  | .publish e => do
    let value ← exprLabel e
    return "publish " ++ shorten value
  | .conditional l r relation c => do
    let consequence ← detailedLabel c
    let left ← exprLabel l
    let right ← exprLabel r
    return "if " ++ shorten (left ++ " " ++ relation.word ++ " " ++ right)
      ++ "\n" ++ consequence

def statementLabel (mode : GraphMode) (s : Statement) : Except OutsideRange String :=
  if mode.showsExpressions then detailedLabel s else .ok (simpleLabel s)

/-! ## Nodes and edges -/

/-- The names that a statement, with its consequences, reads or reassigns. -/
def touched : Statement → List String
  | .declare d => d.value.names
  | .assume x e => x :: e.names
  | .publish e => e.names
  | .conditional l r _ c => l.names ++ r.names ++ touched c

/-- A statement with its place in the graph. -/
structure Node where
  id : String
  statement : Statement

/-- A part of the graph: the statements of one section. -/
structure Section where
  id : String
  title : String
  color : String
  nodes : List Node

/-- An id as it is written: between quotation marks unless it is a plain word.  Such a word has
no digit in front, and besides underscores only letters and digits, but some of them.  All
ids are ASCII. -/
def writtenId (id : String) : String :=
  let word := id.toList.filter (· != '_')
  if id.toList.head?.any isDigit || word.isEmpty || !word.all (fun c => isLetter c || isDigit c)
  then "\"" ++ id ++ "\""
  else id

/-- The nodes of a section, numbered from zero. -/
def numbered (id : String) (statements : List Statement) : List Node :=
  statements.zipIdx.map fun s => ⟨writtenId (id ++ "_" ++ toString s.2), s.1⟩

def sections (r : Resolution) : List Section :=
  [⟨"whereas", "Whereas", "lightyellow", numbered "whereas" (r.recitals.map .declare)⟩,
    ⟨"resolved", "Resolved", "lightblue", numbered "resolved" r.actions⟩]

def nodes (r : Resolution) : List Node := (sections r).flatMap (·.nodes)

/-- The first node that declares a name, among statements that are not consequences. -/
def declarer? (r : Resolution) (name : String) : Option Node :=
  (nodes r).find? fun n =>
    match n.statement with
    | .declare d => d.name == name
    | _ => false

/-- An edge that carries a name from its declaration to a statement. -/
structure FlowEdge where
  source : String
  target : String
  name : String
  deriving DecidableEq

/-- The edges into one node, by name. -/
def flowInto (r : Resolution) (n : Node) : List FlowEdge :=
  (sortedNames (touched n.statement)).filterMap fun x =>
    match declarer? r x with
    | some d => if d.id = n.id then none else some ⟨d.id, n.id, x⟩
    | none => none

def flow (r : Resolution) : List FlowEdge := (nodes r).flatMap (flowInto r)

/-! ## Text -/

def nodeLine (mode : GraphMode) (color : String) (n : Node) : Except OutsideRange String := do
  let label ← statementLabel mode n.statement
  return "    " ++ n.id ++ " [label=" ++ quoted label ++ ", fillcolor=" ++ color ++ "];"

def sectionLines (mode : GraphMode) (s : Section) : Except OutsideRange (List String) := do
  let lines ← s.nodes.mapM (nodeLine mode s.color)
  return ["  subgraph cluster_" ++ s.id ++ " \x7b",
    "    label=" ++ quoted s.title ++ ";",
    "    style=rounded;"] ++ lines ++ ["  \x7d"]

/-- The edges between neighbours in program order. -/
def orderLines (ids : List String) : List String :=
  (ids.zip ids.tail).map fun e => "  " ++ e.1 ++ " -> " ++ e.2 ++ ";"

def flowLine (e : FlowEdge) : String :=
  "  " ++ e.source ++ " -> " ++ e.target ++ " [style=dashed, color=gray, label="
    ++ quoted e.name ++ "];"

def lines (mode : GraphMode) (r : Resolution) : Except OutsideRange (List String) := do
  let clusters ← (sections r).mapM (sectionLines mode)
  return ["digraph resolution \x7b",
    "  rankdir=TB;",
    "  node [shape=box, style=filled, fillcolor=lightblue];"]
    ++ clusters.flatten
    ++ orderLines ((nodes r).map (·.id))
    ++ (if mode = .dataflow then (flow r).map flowLine else [])
    ++ ["\x7d"]

/-- The graph of a resolution in the DOT language. -/
def text (mode : GraphMode) (r : Resolution) : Except OutsideRange String := do
  let ls ← lines mode r
  return "\n".intercalate ls

end Graph
end Legalese
