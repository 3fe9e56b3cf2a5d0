import Legalese.Reading.Statement

/-!
# Reading a resolution

A text begins with a title and goes on in clauses.  Recitals come first, and there is at
least one; actions follow, and there is at least one clause of them.  Words outside
clauses do not matter.

Name errors do not stop the reading: `read` yields the resolution together with all of
them, and `Reading.verdict` is the strict answer, a resolution or an error.
-/

namespace Legalese

/-- How far a reading has come: which clauses may follow. -/
inductive Phase
  | title
  | recitals
  | actions
  deriving DecidableEq

/-- The clauses read so far. -/
structure Draft where
  phase : Phase
  recitals : List Declaration
  actions : List Statement

def Draft.blank : Draft := ⟨.title, [], []⟩

namespace State

/-- The error for actions without a recital before them.  A recital further on makes the
order wrong, otherwise it is missing. -/
def earlyAction (s : State) : Failure :=
  match h : s.kind? with
  | none => ⟨.noWhereas, s.log⟩
  | some k =>
    if k = .whereas then ⟨.earlyResolved, s.log⟩
    else
      have := remaining_pos h
      match s.step with
      | .error f => f
      | .ok ⟨s₁, _h₁⟩ => s₁.earlyAction
termination_by s.remaining

/-- Reads clauses to the end of the text. -/
def clauses (d : Draft) (s : State) : Except Failure (s.After Draft) :=
  match h : s.kind? with
  | none => .ok ⟨d, s, Nat.le_refl _⟩
  | some k => do
    have := remaining_pos h
    if k = .whereas then
      if d.phase = .actions then
        s.fail .lateWhereas
      else
        let ⟨recital, s₁, h₁⟩ ← s.recital
        let ⟨s₂, h₂⟩ ← s₁.step
        let d' := { d with phase := .recitals, recitals := d.recitals ++ recital.toList }
        let ⟨d'', s₃, h₃⟩ ← s₂.clauses d'
        return ⟨d'', s₃, le_around_step h₁ h₂ h₃⟩
    else if k = .resolved then
      if d.phase = .title then
        throw s.earlyAction
      else
        let ⟨action, s₁, h₁⟩ ← s.action
        let ⟨s₂, h₂⟩ ← s₁.step
        let d' := { d with phase := .actions, actions := d.actions ++ action.toList }
        let ⟨d'', s₃, h₃⟩ ← s₂.clauses d'
        return ⟨d'', s₃, le_around_step h₁ h₂ h₃⟩
    else
      let ⟨s₁, h₁⟩ ← s.step
      let ⟨d', s₂, h₂⟩ ← s₁.clauses d
      return ⟨d', s₂, le_after_step h₁ h₂⟩
termination_by s.remaining
decreasing_by all_goals omega

/-- Adds an error for each name that was never used, and the closing note. -/
def close (s : State) (r : Resolution) : State :=
  let errors := s.errors ++ s.register.unused.map (⟨.unused, ·⟩)
  { s with
    errors
    log := s.log ++ [.read r.recitals.length r.actions.length errors.length] }

/-- Reads a resolution to the end of the text.  Name errors are left in the state. -/
def resolution (s : State) : Except Failure (Resolution × State) := do
  unless s.kind? = some .filler ∨ s.kind? = some .name do s.fail .noTitle
  let ⟨d, s₁, _⟩ ← s.clauses .blank
  unless d.phase = .actions do s₁.fail .noResolved
  let r : Resolution := ⟨d.recitals, d.actions⟩
  return (r, s₁.close r)

end State

/-- A text that was read to its end. -/
structure Reading where
  resolution : Resolution
  register : Register
  errors : List NameError
  log : List LogEntry

namespace Reading

/-- Reads a text.  Name errors do not count as a failure here. -/
def ofString (source : String) : Except Failure Reading := do
  let s ← State.start source .empty
  let (r, s) ← s.resolution
  return ⟨r, s.register, s.errors, s.log⟩

/-- The resolution, unless there are name errors. -/
def verdict (r : Reading) : Except Error Resolution :=
  if r.errors = [] then .ok r.resolution
  else .error (.names r.errors (some r.resolution))

end Reading

/-- The resolution that a text holds, if nothing is wrong with the text. -/
def Resolution.ofString (source : String) : Except Error Resolution :=
  match Reading.ofString source with
  | .ok r => r.verdict
  | .error f => .error f.error

end Legalese
