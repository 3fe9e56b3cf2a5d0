import Legalese.Yaml.Place

/-!
# YAML tags

A tag before a node names its type.  It is written in full between angle brackets, or in
short after exclamation marks.  Types that YAML itself defines have names under one common
beginning, for which two exclamation marks stand; no other type has a meaning here.
-/

namespace Legalese
namespace Yaml

inductive Tag
  /-- The sign alone: the type is the one that a plain scalar would have. -/
  | unspecific
  /-- A type of YAML. -/
  | standard (name : String)
  | foreign
  deriving DecidableEq

namespace Tag

/-- The beginning of the full names of YAML's own types. -/
def standardRoot : List Char := "tag:yaml.org,2002:".toList

/-- The tag of a full name. -/
def ofName (name : List Char) : Tag :=
  if name = ['!'] then unspecific
  else if standardRoot.isPrefixOf name then
    standard (String.ofList (name.drop standardRoot.length))
  else foreign

/-- The characters of the name of a type. -/
def isNameChar (c : Char) : Bool :=
  isAlphanumeric c || "-;/?:@&=+$,_.!~*'()[]%".toList.contains c

/-- Whether a tag ends before some characters.  It does not end at a tab. -/
def endsTag : List Char → Bool
  | [] => true
  | c :: _ => c == ' ' || isBreak c

/-- The name of a type at the front, which is not empty. -/
def readName (p : Place) : Option (List Char × Place) :=
  let (name, p) := p.span isNameChar
  if name = [] then none else some (name, p)

/-- A tag, from its first sign on. -/
def readFrom (p : Place) : Option (Tag × Place) :=
  match p.rest.drop 1 with
  | '<' :: _ => do
    let (name, p) ← readName (p.forwardBy 2)
    if p.rest.head? = some '>' then return (ofName name, p.forward) else none
  | '!' :: _ => do
    let (name, p) ← readName (p.forwardBy 2)
    return (standard (String.ofList name), p)
  | cs =>
    if endsWord cs then some (unspecific, p.forward)
    else if (cs.takeWhile fun c => c ≠ ' ' ∧ !isBreak c).contains '!' then none
    else do
      let (_, p) ← readName p.forward
      return (foreign, p)

/-- A tag and the place after it, where it has to end. -/
def read (p : Place) : Option (Tag × Place) := do
  let (tag, p) ← readFrom p
  if endsTag p.rest then return (tag, p) else none

end Tag
end Yaml
end Legalese
