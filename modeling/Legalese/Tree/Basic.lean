import Legalese.Tree.Scalar

/-!
# Data trees

The form in which resolutions are stored and exchanged: scalars, lists and objects.  The
fields of an object keep their order, and where a name occurs twice the later field
counts.  The names that mean something are texts, but any scalar may be one.
-/

namespace Legalese

inductive Tree
  | scalar (s : Scalar)
  | list (items : List Tree)
  | object (fields : List (Scalar × Tree))

namespace Tree

@[match_pattern] abbrev int (n : Int) : Tree := scalar (.int n)

@[match_pattern] abbrev str (s : String) : Tree := scalar (.str s)

abbrev Fields := List (Scalar × Tree)

/-- The last field of a name. -/
def lastField? (name : String) : Fields → Option Tree
  | [] => none
  | f :: fs => (lastField? name fs).or (if f.1 = .str name then some f.2 else none)

/-- The word for the type of a tree in messages. -/
def typeWord : Tree → String
  | scalar s => s.typeWord
  | list _ => "list"
  | object _ => "dict"

/-! ## Trees in messages -/

/-- Puts a shown field in front of others.  Where they have its name, it gets their text,
and they are left out. -/
def addShown (name : Scalar) (text : String) (others : List (Scalar × String)) :
    List (Scalar × String) :=
  let isSame (f : Scalar × String) : Bool := f.1.asName = name.asName
  match others.find? isSame with
  | some f => (name, f.2) :: others.filter (!isSame ·)
  | none => (name, text) :: others

mutual

/-- A tree as messages show it.  A name stands where it occurs first, with the text of
its last field. -/
def shown : Tree → String
  | scalar s => s.shown
  | list items => "[" ++ ", ".intercalate (shownItems items) ++ "]"
  | object fields =>
    let parts := (shownFields fields).map fun f => f.1.shown ++ ": " ++ f.2
    "\x7b" ++ ", ".intercalate parts ++ "\x7d"

def shownItems : List Tree → List String
  | [] => []
  | t :: ts => t.shown :: shownItems ts

def shownFields : Fields → List (Scalar × String)
  | [] => []
  | (name, t) :: fs => addShown name t.shown (shownFields fs)

end

/-- A field in the middle of a message. -/
def inMessage : Option Tree → String
  | none => Scalar.null.plain
  | some (scalar s) => s.plain
  | some t => t.shown

end Tree
end Legalese
