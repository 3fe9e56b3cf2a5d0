import Legalese.Error
import Legalese.Number.Numeral
import Legalese.Token.Cursor

/-!
# Reading a cardinal

A cardinal is the word "zero", or else groups below one thousand, each followed by the
word for its magnitude or, the last one, by none, and "negative" may stand in front.
Magnitudes fall from group to group, and the running total never leaves the range.  The
reader stops on the last word of the cardinal.

No reader moves a cursor back: each result carries the proof that no more tokens are
left than before, and the repetition over groups ends by that.
-/

namespace Legalese

namespace Cursor

/-- Moves on by one token, with the count of what is left. -/
def step (c : Cursor) : Except Error { c' : Cursor // c'.remaining = c.remaining - 1 } :=
  match h : c.advance with
  | .ok c' => .ok ⟨c', remaining_of_advance h⟩
  | .error literal => .error (.unclosedText literal)

end Cursor

namespace Cardinal

open Cursor

/-- A value read from `c` on, and where the reader stopped. -/
structure After (c : Cursor) (α : Type) where
  value : α
  cursor : Cursor
  le : cursor.remaining ≤ c.remaining

/-- The current token is no word that may stand here. -/
def unexpected (c : Cursor) : Error := .cardinal (.unexpected c.literal)

/-- One to ninety-nine. -/
def belowHundred (c : Cursor) : Except Error (After c Nat) :=
  match c.kind? with
  | some (.cardinal (.ones n)) => .ok ⟨n, c, Nat.le_refl _⟩
  | some (.cardinal (.teens n)) => .ok ⟨n, c, Nat.le_refl _⟩
  | some (.cardinal (.tens n)) =>
    match c.nextKind? with
    | some .dash => do
      let ⟨c₁, h₁⟩ ← c.step
      match c₁.nextKind? with
      | some (.cardinal (.ones d)) =>
        let ⟨c₂, h₂⟩ ← c₁.step
        have h := le_of_step h₂
        return ⟨n + d, c₂, le_after_step h₁ h⟩
      | _ => throw (.cardinal (.tensWithoutDigit c.literal))
    | _ => .ok ⟨n, c, Nat.le_refl _⟩
  | _ => .error (unexpected c)

/-- One to nine hundred ninety-nine. -/
def belowThousand (c : Cursor) : Except Error (After c Nat) :=
  match c.kind? with
  | some (.cardinal (.ones n)) =>
    match c.nextKind? with
    | some (.cardinal .hundred) => do
      let ⟨c₁, h₁⟩ ← c.step
      if (c₁.nextKind?.map Kind.startsBelowHundred).getD false then
        let ⟨c₂, h₂⟩ ← c₁.step
        let ⟨m, c₃, h₃⟩ ← belowHundred c₂
        have h := le_after_step h₂ h₃
        return ⟨100 * n + m, c₃, le_after_step h₁ h⟩
      else
        return ⟨100 * n, c₁, le_of_step h₁⟩
    | _ => .ok ⟨n, c, Nat.le_refl _⟩
  | _ => belowHundred c

/-- The magnitude word after a group; a group without one counts units. -/
def magnitude (c : Cursor) : Except Error (After c Nat) :=
  match c.nextKind? with
  | some (.cardinal (.magnitude m)) => do
    let ⟨c₁, h₁⟩ ← c.step
    return ⟨m, c₁, le_of_step h₁⟩
  | _ => .ok ⟨1, c, Nat.le_refl _⟩

/-- The total after one more group, if the group may stand where it does. -/
def addGroup (sign total : Int) (last : Option Nat) (group magnitude : Nat) :
    Except Error Int :=
  if magnitude = Kind.thousandTo 6 ∧ 9 < group then
    .error (.cardinal (.quintillionsOutOfRange group))
  else
    match last.filter (· ≤ magnitude) with
    | some l => .error (.cardinal (.magnitudeOrder magnitude l))
    | none =>
      let total := total + sign * (group * magnitude : Nat)
      if InRange total then .ok total else .error (.cardinal .overflow)

/-- Groups until units have been read or no group follows. -/
def groups (sign total : Int) (last : Option Nat) (c : Cursor) : Except Error (After c Int) := do
  let ⟨group, c₁, h₁⟩ ← belowThousand c
  let ⟨m, c₂, h₂⟩ ← magnitude c₁
  have h := Nat.le_trans h₂ h₁
  let total ← addGroup sign total last group m
  match hk : c₂.nextKind? with
  | none => return ⟨total, c₂, h⟩
  | some k =>
    if m = 1 ∨ !k.startsBelowHundred then
      return ⟨total, c₂, h⟩
    else
      let ⟨c₃, h₃⟩ ← c₂.step
      have := one_lt_remaining_of_nextKind? hk
      let ⟨total, c₄, h₄⟩ ← groups sign total (some m) c₃
      return ⟨total, c₄, le_around_step h h₃ h₄⟩
termination_by c.remaining
decreasing_by omega

/-- The cardinal that begins at the current token. -/
def read (c : Cursor) : Except Error (After c Int) :=
  match c.kind? with
  | some (.cardinal .zero) => .ok ⟨0, c, Nat.le_refl _⟩
  | some (.cardinal .negative) => do
    let ⟨c₁, h₁⟩ ← c.step
    let ⟨n, c₂, h₂⟩ ← groups (-1) 0 none c₁
    return ⟨n, c₂, le_after_step h₁ h₂⟩
  | _ => groups 1 0 none c

/-- The number of a text that is one cardinal and nothing else. -/
def parse (text : String) : Except Error Int := do
  let c ← (Cursor.start text).mapError .unclosedText
  let ⟨n, c, _⟩ ← read c
  match c.next? with
  | none => return n
  | some t => throw (.cardinal (.unexpected t.literal))

end Cardinal

namespace Numeral

/-- The number of a text that is one numeral and nothing else. -/
def parse (text : String) : Except Error Int :=
  match read? text with
  | some n => .ok n
  | none => .error (.numeral text)

end Numeral
end Legalese
