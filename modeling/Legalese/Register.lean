import Legalese.Error

/-!
# The register of names

The names that have been declared, in the order of their first declaration, each with
the note whether it has been used since.  Declaring a name twice and using one that was
never declared leave the register as it is.
-/

namespace Legalese

inductive Standing
  | declared
  | used
  deriving DecidableEq

def Standing.word : Standing → String
  | declared => "declared"
  | used => "used"

structure Register where
  entries : List (String × Standing)
  deriving DecidableEq

namespace Register

def empty : Register := ⟨[]⟩

def names (r : Register) : List String := r.entries.map (·.1)

def contains (r : Register) (name : String) : Bool := r.names.contains name

/-- Adds a name at the end. -/
def declare (r : Register) (name : String) : Register :=
  ⟨r.entries ++ [(name, .declared)]⟩

/-- Notes that a name has been used, in its place. -/
def use (r : Register) (name : String) : Register :=
  ⟨r.entries.map fun e => if e.1 = name then (e.1, .used) else e⟩

/-- The names that were declared and never used. -/
def unused (r : Register) : List String :=
  (r.entries.filter (·.2 == .declared)).map (·.1)

end Register
end Legalese
