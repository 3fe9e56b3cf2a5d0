import Legalese.Log
import Legalese.Reading.Cardinal
import Legalese.Register

/-!
# The state of a reading

Reading a resolution moves a cursor over its tokens, keeps a register of the names met
so far, collects the offences against the rules for names, and takes notes.  A failure
keeps the notes.

Searches go forward over filler and never past the head of the next clause.
-/

namespace Legalese

structure State where
  cursor : Cursor
  register : Register
  errors : List NameError
  log : List LogEntry

/-- An error that stopped the reading, and what had been noted before. -/
structure Failure where
  error : Error
  log : List LogEntry

namespace State

/-- The state before the first token of a text, with names that are known from
elsewhere. -/
def start (source : String) (register : Register) : Except Failure State :=
  match Cursor.start source with
  | .ok c => .ok ⟨c, register, [], []⟩
  | .error literal => .error ⟨.unclosedText literal, []⟩

def remaining (s : State) : Nat := s.cursor.remaining

def kind? (s : State) : Option Kind := s.cursor.kind?

def nextKind? (s : State) : Option Kind := s.cursor.nextKind?

def literal (s : State) : String := s.cursor.literal

/-- The same state with the cursor somewhere else. -/
def moveTo (s : State) (c : Cursor) : State := { s with cursor := c }

def fail {α : Type} (s : State) (e : Error) : Except Failure α := .error ⟨e, s.log⟩

/-- A value read from `s` on, and the state after it. -/
structure After (s : State) (α : Type) where
  value : α
  state : State
  le : state.remaining ≤ s.remaining

theorem remaining_pos {s : State} {k : Kind} (h : s.kind? = some k) : 0 < s.remaining :=
  Cursor.remaining_pos_of_kind? h

theorem one_lt_remaining {s : State} {k : Kind} (h : s.nextKind? = some k) :
    1 < s.remaining :=
  Cursor.one_lt_remaining_of_nextKind? h

/-- Moves on by one token. -/
def step (s : State) : Except Failure { s' : State // s'.remaining = s.remaining - 1 } :=
  match s.cursor.step with
  | .ok ⟨c, h⟩ => .ok ⟨s.moveTo c, h⟩
  | .error e => s.fail e

/-! ## Names -/

/-- Enters the name of a declaration into the register. -/
def declare (s : State) (name : String) : State :=
  if s.register.contains name then
    { s with
      errors := s.errors ++ [⟨.redeclared, name⟩]
      log := s.log ++ [.redeclared name, .declared name] }
  else
    { s with register := s.register.declare name, log := s.log ++ [.declared name] }

/-- Notes the use of a name. -/
def use (s : State) (name : String) : State :=
  if s.register.contains name then
    { s with register := s.register.use name }
  else
    { s with errors := s.errors ++ [⟨.undeclared, name⟩], log := s.log ++ [.undeclared name] }

/-- Takes back all that was found out about names since `before`. -/
def forget (s before : State) : State :=
  { s with register := before.register, errors := before.errors }

@[simp] theorem remaining_declare (s : State) (name : String) :
    (s.declare name).remaining = s.remaining := by
  unfold declare remaining
  split <;> rfl

@[simp] theorem remaining_use (s : State) (name : String) :
    (s.use name).remaining = s.remaining := by
  unfold use remaining
  split <;> rfl

@[simp] theorem remaining_forget (s before : State) :
    (s.forget before).remaining = s.remaining := rfl

theorem remaining_declare_le (s : State) (name : String) :
    (s.declare name).remaining ≤ s.remaining :=
  Nat.le_of_eq (remaining_declare s name)

theorem remaining_use_le (s : State) (name : String) :
    (s.use name).remaining ≤ s.remaining :=
  Nat.le_of_eq (remaining_use s name)

theorem remaining_forget_le (s before : State) :
    (s.forget before).remaining ≤ s.remaining :=
  Nat.le_of_eq (remaining_forget s before)

/-! ## Searches -/

/-- Moves on until the current token is wanted.  It is an error to meet the next clause
or the end of the text first. -/
def seek (wanted : Kind → Bool) (s : State) : Except Failure (s.After Unit) :=
  match h : s.kind? with
  | none => s.fail (.unrecognizedExpression s.literal)
  | some k =>
    if wanted k then .ok ⟨(), s, Nat.le_refl _⟩
    else if k.opensClause then s.fail (.unrecognizedExpression s.literal)
    else do
      have := remaining_pos h
      let ⟨s₁, h₁⟩ ← s.step
      let ⟨_, s₂, h₂⟩ ← s₁.seek wanted
      return ⟨(), s₂, le_after_step h₁ h₂⟩
termination_by s.remaining

/-- Moves on until the next token is wanted, and says what it is.  The answer is `none`
if the next clause or the end of the text comes first. -/
def seekNext (wanted : Kind → Bool) (s : State) :
    Except Failure (s.After (Option Kind)) :=
  match h : s.nextKind? with
  | none => .ok ⟨none, s, Nat.le_refl _⟩
  | some k =>
    if wanted k then .ok ⟨some k, s, Nat.le_refl _⟩
    else if k.opensClause then .ok ⟨none, s, Nat.le_refl _⟩
    else do
      have := one_lt_remaining h
      let ⟨s₁, h₁⟩ ← s.step
      let ⟨found, s₂, h₂⟩ ← s₁.seekNext wanted
      return ⟨found, s₂, le_after_step h₁ h₂⟩
termination_by s.remaining

end State
end Legalese
