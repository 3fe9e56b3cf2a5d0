import Legalese.Tree.Basic
import Legalese.Yaml.Meaning
import Legalese.Yaml.Node

/-!
# Reading YAML

Turns a document into a tree.  A mapping becomes an object; the fields of the mappings
that it merges come before its own.

A document may have several faults.  One in its form comes before one in a value, and of
the values that are at fault the one that is nested least counts, the first of those that
are nested equally.  So a fault comes with its depth, and both parts of a pair are read
before it is decided which of their faults counts.
-/

namespace Legalese
namespace Yaml

/-- A fault and how deep it lies. -/
structure Misreading where
  depth : Nat
  error : ReadError

/-- What a node or a part of one was read as. -/
abbrev Attempt (α : Type) := Except Misreading α

namespace Attempt

def malformed {α : Type} : Attempt α := .error ⟨0, .malformed⟩

/-- Two attempts side by side.  The fault that lies less deep counts, or the first. -/
def both {α β : Type} (a : Attempt α) (b : Attempt β) : Attempt (α × β) :=
  match a, b with
  | .ok x, .ok y => .ok (x, y)
  | .ok _, .error f => .error f
  | .error e, .ok _ => .error e
  | .error e, .error f => .error (if f.depth < e.depth then f else e)

/-- An attempt at what a node holds, as part of the attempt at the node. -/
def inside {α : Type} (a : Attempt α) : Attempt α :=
  a.mapError fun e => { e with depth := e.depth + 1 }

def append {α : Type} (a b : Attempt (List α)) : Attempt (List α) :=
  (both a b).map fun p => p.1 ++ p.2

def cons {α : Type} (a : Attempt α) (b : Attempt (List α)) : Attempt (List α) :=
  (both a b).map fun p => p.1 :: p.2

end Attempt

open Attempt

/-- The fields that a mapping gets by merging, and its own. -/
structure FieldAttempts where
  merged : Attempt Tree.Fields
  own : Attempt Tree.Fields

def FieldAttempts.all (fs : FieldAttempts) : Attempt Tree.Fields := append fs.merged fs.own

def scalarOf (tag : Option Tag) (text : String) (isPlain : Bool) : Attempt Scalar :=
  match PlainType.ofScalar? tag text isPlain with
  | some type => (Meaning.ofText text type).mapError fun e => ⟨0, e⟩
  | none => malformed

def isMergeSign : Node → Bool
  | .scalar tag text isPlain => PlainType.ofScalar? tag text isPlain == some .merge
  | _ => false

/-- The name of a field.  The default sign is a text here. -/
def nameOf : Node → Attempt Scalar
  | .scalar tag text isPlain =>
    if PlainType.ofScalar? tag text isPlain = some .default then .ok (.str text)
    else scalarOf tag text isPlain
  | _ => malformed

/-- Whether a collection may have a tag. -/
def admitsTag (usual : String) (tag : Option Tag) : Bool :=
  tag == none || tag == some .unspecific || tag == some (.standard usual)

mutual

def treeOf : Node → Attempt Tree
  | .scalar tag text isPlain => (scalarOf tag text isPlain).map .scalar
  | .sequence tag items =>
    if admitsTag "seq" tag then inside ((itemsOf items).map .list) else malformed
  | .mapping tag fields =>
    if admitsTag "map" tag then inside ((fieldsOf fields).all.map .object) else malformed

def itemsOf : List Node → Attempt (List Tree)
  | [] => .ok []
  | n :: ns => cons (treeOf n) (itemsOf ns)

def fieldsOf : List (Node × Node) → FieldAttempts
  | [] => ⟨.ok [], .ok []⟩
  | (k, v) :: fs =>
    let others := fieldsOf fs
    if isMergeSign k then { others with merged := append (mergedBy v) others.merged }
    else { others with own := cons (both (nameOf k) (treeOf v)) others.own }

/-- The fields that merging a node adds: those of a mapping or of several in a sequence,
of which the first counts most. -/
def mergedBy : Node → Attempt Tree.Fields
  | .mapping _ fields => (fieldsOf fields).all
  | .sequence _ items => mergedByAll items
  | .scalar _ _ _ => malformed

def mergedByAll : List Node → Attempt Tree.Fields
  | [] => .ok []
  | n :: ns => append (mergedByAll ns) (mergedByItem n)

def mergedByItem : Node → Attempt Tree.Fields
  | .mapping _ fields => (fieldsOf fields).all
  | _ => malformed

end

/-- The tree of a text that holds one YAML document. -/
def read (s : String) : Except ReadError Tree :=
  match (tokens? s.toList).bind Node.ofTokens? with
  | some n => (treeOf n).mapError (·.error)
  | none => .error .malformed

end Yaml
end Legalese
