import Legalese.Value

/-!
# Environments

The names that have a binding, in the order in which they got their first one.  A new
binding for a name takes the place of the old one.
-/

namespace Legalese

structure Environment where
  entries : List (String × Binding)

namespace Environment

def empty : Environment := ⟨[]⟩

def names (env : Environment) : List String := env.entries.map (·.1)

def size (env : Environment) : Nat := env.entries.length

def contains (env : Environment) (name : String) : Bool := env.names.contains name

def get? (env : Environment) (name : String) : Option Binding := env.entries.lookup name

/-- Binds a name, in its old place if it has one and at the end if not. -/
def set (env : Environment) (name : String) (b : Binding) : Environment :=
  if env.contains name then
    ⟨env.entries.map fun e => if e.1 = name then (name, b) else e⟩
  else
    ⟨env.entries ++ [(name, b)]⟩

/-- The value of a name.  An unbound name has none, which is no fault in itself. -/
def value (env : Environment) (name : String) : Except Fault (Option Value) :=
  match env.get? name with
  | none => .ok none
  | some (.ok v) => .ok (some v)
  | some (.error f) => .error f

end Environment
end Legalese
