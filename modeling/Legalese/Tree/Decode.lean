import Legalese.Resolution
import Legalese.Tree.Basic

/-!
# Resolutions from trees

Reads back what encoding produces.  Fields that mean nothing here are skipped, and a
resolution may leave out a section that is empty.  The first thing wrong, in the order
in which fields are looked at, is the error: the type of an object, its operator, then
its operands; of a conditional the operands, the relation and the consequence.  That
recitals are declarations is checked when all of them have been read.
-/

namespace Legalese

/-- The closed lists of words that a field may come from. -/
inductive WordList
  | unary
  | binary
  | between
  | after
  | relation
  | graphMode
  deriving DecidableEq

def WordList.label : WordList → String
  | unary => "UnaryOperator"
  | binary => "BinaryOperator"
  | between => "InfixOperator"
  | after => "PostfixOperator"
  | relation => "Relation"
  | graphMode => "DotMode"

/-- A word that is missing in its list. -/
structure UnknownWord where
  shown : String
  list : WordList
  deriving DecidableEq

def UnknownWord.message (e : UnknownWord) : String :=
  e.shown ++ " is not a valid " ++ e.list.label

inductive DecodeError
  | missingField (name : String)
  | unknownWord (e : UnknownWord)
  | unsupportedExpression (type : String)
  | unsupportedStatement (type : String)
  | notDeclaration (kind : StatementKind)
  /-- Something else stands where an object has to be. -/
  | notObject
  /-- Something without items stands where a list has to be. -/
  | notList (type : String)
  /-- A scalar has the wrong type. -/
  | wrongScalar (field : String)
  deriving DecidableEq

def DecodeError.message : DecodeError → String
  | missingField name => name
  | unknownWord e => e.message
  | unsupportedExpression type => "Unsupported expression dict type: " ++ type
  | unsupportedStatement type => "Unsupported statement dict type: " ++ type
  | notDeclaration kind => "Whereas clauses hold declarations only, got " ++ kind.label
  | notObject => "not an object"
  | notList type => "'" ++ type ++ "' object is not iterable"
  | wrongScalar field => "wrong type of " ++ field

namespace Tree

def fields : Tree → Except DecodeError Fields
  | object fs => .ok fs
  | _ => .error .notObject

def field (fs : Fields) (name : String) : Except DecodeError Tree :=
  match lastField? name fs with
  | some t => .ok t
  | none => .error (.missingField name)

def textField (fs : Fields) (name : String) : Except DecodeError String := do
  match ← field fs name with
  | str s => return s
  | _ => throw (.wrongScalar name)

def intField (fs : Fields) (name : String) : Except DecodeError Int := do
  match ← field fs name with
  | int n => return n
  | _ => throw (.wrongScalar name)

/-- The field of a word out of a list. -/
def wordField {α : Type} (fs : Fields) (name : String) (list : WordList)
    (ofWord? : String → Option α) : Except DecodeError α := do
  let t ← field fs name
  let unknown : DecodeError := .unknownWord ⟨t.shown, list⟩
  match t with
  | str w =>
    match ofWord? w with
    | some a => return a
    | none => throw unknown
  | _ => throw unknown

theorem sizeOf_lastField?_lt {name : String} {fs : Fields} {t : Tree}
    (h : lastField? name fs = some t) : sizeOf t < sizeOf fs := by
  induction fs with
  | nil => simp [lastField?] at h
  | cons f fs ih =>
    obtain ⟨x, u⟩ := f
    simp only [lastField?, Option.or_eq_some_iff] at h
    simp only [List.cons.sizeOf_spec, Prod.mk.sizeOf_spec]
    rcases h with h | ⟨_, h⟩
    · have := ih h
      omega
    · split at h
      · cases h
        omega
      · cases h

/-- A field, with the proof that it is smaller than the object it is in. -/
def part (fs : Fields) (name : String) :
    Except DecodeError { t : Tree // sizeOf t < sizeOf fs } :=
  match h : lastField? name fs with
  | some t => .ok ⟨t, sizeOf_lastField?_lt h⟩
  | none => .error (.missingField name)

end Tree

namespace Expr

def ofTree (t : Tree) : Except DecodeError Expr :=
  match t with
  | .object fs =>
    match Tree.lastField? "type" fs with
    | some (.str "int") => do
      let n ← Tree.intField fs "value"
      return .integer n
    | some (.str "str") => do
      let s ← Tree.textField fs "value"
      return .text s
    | some (.str "ident") => do
      let x ← Tree.textField fs "name"
      return .name x
    | some (.str "unary") => do
      let op ← Tree.wordField fs "operator" .unary UnaryOperator.ofWord?
      let ⟨operand, _⟩ ← Tree.part fs "operand"
      let e ← ofTree operand
      return .unary op e
    | some (.str "binary") => do
      let op ← Tree.wordField fs "operator" .binary BinaryOperator.ofWord?
      let ⟨first, _⟩ ← Tree.part fs "first"
      let a ← ofTree first
      let ⟨second, _⟩ ← Tree.part fs "second"
      let b ← ofTree second
      return .binary op a b
    | some (.str "infix") => do
      let _ ← Tree.wordField fs "operator" .between fun w =>
        if w = lessWord then some () else none
      let ⟨left, _⟩ ← Tree.part fs "left"
      let l ← ofTree left
      let ⟨right, _⟩ ← Tree.part fs "right"
      let r ← ofTree right
      return .less l r
    | some (.str "postfix") => do
      let op ← Tree.wordField fs "operator" .after Exponent.ofWord?
      let ⟨operand, _⟩ ← Tree.part fs "operand"
      let e ← ofTree operand
      return .power op e
    | type => .error (.unsupportedExpression (Tree.inMessage type))
  | _ => .error .notObject
termination_by sizeOf t
decreasing_by all_goals simp only [Tree.object.sizeOf_spec]; omega

end Expr

namespace Statement

def ofTree (t : Tree) : Except DecodeError Statement :=
  match t with
  | .object fs =>
    match Tree.lastField? "type" fs with
    | some (.str "decl") => do
      let name ← Tree.textField fs "name"
      let value ← Expr.ofTree (← Tree.field fs "value")
      return .declare ⟨name, value⟩
    | some (.str "assume") => do
      let name ← Tree.textField fs "name"
      let value ← Expr.ofTree (← Tree.field fs "value")
      return .assume name value
    | some (.str "publish") => do
      let value ← Expr.ofTree (← Tree.field fs "value")
      return .publish value
    | some (.str "if") => do
      let left ← Expr.ofTree (← Tree.field fs "left")
      let right ← Expr.ofTree (← Tree.field fs "right")
      let relation ← Tree.wordField fs "relation" .relation Relation.ofWord?
      let ⟨c, _⟩ ← Tree.part fs "consequence"
      let consequence ← ofTree c
      return .conditional left right relation consequence
    | type => .error (.unsupportedStatement (Tree.inMessage type))
  | _ => .error .notObject
termination_by sizeOf t
decreasing_by simp only [Tree.object.sizeOf_spec]; omega

/-- A statement as a recital. -/
def declaration : Statement → Except DecodeError Declaration
  | declare d => .ok d
  | s => .error (.notDeclaration s.kind)

end Statement

namespace Resolution

/-- The statements of a section, none if the section is left out.  A text and an object
have items too, which are no objects. -/
def sectionOfTree (fs : Tree.Fields) (name : String) :
    Except DecodeError (List Statement) :=
  match Tree.lastField? name fs with
  | none => .ok []
  | some (.list ts) => ts.mapM Statement.ofTree
  | some (.str s) => if s = "" then .ok [] else .error .notObject
  | some (.object items) => if items.isEmpty then .ok [] else .error .notObject
  | some t => .error (.notList t.typeWord)

def ofTree (t : Tree) : Except DecodeError Resolution := do
  let fs ← t.fields
  let recitals ← sectionOfTree fs "whereas"
  let recitals ← recitals.mapM Statement.declaration
  let actions ← sectionOfTree fs "resolved"
  return ⟨recitals, actions⟩

end Resolution
end Legalese
