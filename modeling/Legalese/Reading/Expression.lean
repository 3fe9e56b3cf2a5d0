import Legalese.Reading.State

/-!
# Reading an expression

Operators have tiers.  "less" binds loosest and groups to the left, the words before
their operands bind tighter, and "squared" and "cubed" bind tightest.  An expression is
read down to a tier: of the words that follow an operand it takes those whose tier is
above the given one.  So the operand of "twice" may be squared but not diminished.

Filler before an operand is skipped.  The reader stops on the last token of the
expression.
-/

namespace Legalese

/-- How tightly an operator binds. -/
inductive Tier
  | lowest
  | difference
  | operation
  | power
  deriving DecidableEq

namespace Tier

def rank : Tier → Nat
  | lowest => 1
  | difference => 2
  | operation => 3
  | power => 4

end Tier

namespace State

/-- Reads the numeral in parentheses after a cardinal; the two must agree. -/
def numeralOf (cardinal : Int) (s : State) : Except Failure (s.After Expr) := do
  unless s.nextKind? = some .openParen do s.fail (.integer .notParenthesized)
  let ⟨s₁, h₁⟩ ← s.step
  unless s₁.nextKind? = some .numeral ∨ s₁.nextKind? = some .dash do
    s.fail (.integer .notNumeral)
  let ⟨s₂, h₂⟩ ← s₁.step
  match Numeral.read? s₂.literal with
  | none => s.fail (.numeral s₂.literal)
  | some numeral =>
    unless s₂.nextKind? = some .closeParen do s.fail (.integer .notClosed)
    let ⟨s₃, h₃⟩ ← s₂.step
    unless cardinal = numeral do s.fail (.disagreement cardinal numeral)
    have k₃ := le_of_step h₃
    have k₂ := le_after_step h₂ k₃
    return ⟨.integer cardinal, s₃, le_after_step h₁ k₂⟩

/-- Reads a cardinal with its numeral. -/
def integerLiteral (s : State) : Except Failure (s.After Expr) :=
  match Cardinal.read s.cursor with
  | .error e => s.fail e
  | .ok ⟨cardinal, c, h₁⟩ => do
    let ⟨e, s₁, h₂⟩ ← (s.moveTo c).numeralOf cardinal
    return ⟨e, s₁, Nat.le_trans h₂ h₁⟩

mutual

/-- Reads an operand with the words before it. -/
def operand (s : State) : Except Failure (s.After Expr) := do
  let ⟨_, s₁, h₁⟩ ← s.seek Kind.startsExpression
  match hk : s₁.kind? with
  | none => s₁.fail (.unrecognizedExpression s₁.literal)
  | some k =>
    have := remaining_pos hk
    match k with
    | .cardinal _ =>
      let ⟨e, s₂, h₂⟩ ← s₁.integerLiteral
      return ⟨e, s₂, Nat.le_trans h₂ h₁⟩
    | .numeral => s₁.fail (.cardinal (.strayNumeral s₁.literal))
    | .text => return ⟨.text s₁.literal, s₁, h₁⟩
    | .name =>
      let name := s₁.literal
      have h₂ := remaining_use_le s₁ name
      return ⟨.name name, s₁.use name, Nat.le_trans h₂ h₁⟩
    | .unary op =>
      let ⟨s₂, h₂⟩ ← s₁.step
      let ⟨e, s₃, h₃⟩ ← s₂.expression .operation
      return ⟨.unary op e, s₃, le_around_step h₁ h₂ h₃⟩
    | .binary op =>
      let ⟨s₂, h₂⟩ ← s₁.step
      let ⟨a, s₃, h₃⟩ ← s₂.expression .lowest
      let ⟨s₄, h₄⟩ ← s₃.step
      let ⟨b, s₅, h₅⟩ ← s₄.expression .operation
      have k₃ := le_around_step h₃ h₄ h₅
      return ⟨.binary op a b, s₅, le_around_step h₁ h₂ k₃⟩
    | _ => s₁.fail (.unrecognizedExpression s₁.literal)
termination_by (s.remaining, 1)
decreasing_by
  all_goals
    apply Prod.Lex.left
    omega

/-- Reads an expression down to a tier. -/
def expression (floor : Tier) (s : State) : Except Failure (s.After Expr) := do
  let ⟨e, s₁, h₁⟩ ← s.operand
  let ⟨e', s₂, h₂⟩ ← s₁.suffixes floor e
  return ⟨e', s₂, Nat.le_trans h₂ h₁⟩
termination_by (s.remaining, 2)
decreasing_by
  · apply Prod.Lex.right
    omega
  · rcases Nat.lt_or_eq_of_le h₁ with h | h
    · exact Prod.Lex.left _ _ h
    · rw [h]
      apply Prod.Lex.right
      omega

/-- Reads the words that follow an operand. -/
def suffixes (floor : Tier) (e : Expr) (s : State) : Except Failure (s.After Expr) :=
  match hk : s.nextKind? with
  | none => .ok ⟨e, s, Nat.le_refl _⟩
  | some k =>
    have := one_lt_remaining hk
    match k with
    | .less =>
      if floor.rank < Tier.difference.rank then do
        let ⟨s₁, h₁⟩ ← s.step
        let ⟨s₂, h₂⟩ ← s₁.step
        let ⟨right, s₃, h₃⟩ ← s₂.expression .difference
        let ⟨e', s₄, h₄⟩ ← s₃.suffixes floor (.less e right)
        have k₃ := Nat.le_trans h₄ h₃
        have k₂ := le_after_step h₂ k₃
        return ⟨e', s₄, le_after_step h₁ k₂⟩
      else .ok ⟨e, s, Nat.le_refl _⟩
    | .exponent op =>
      if floor.rank < Tier.power.rank then do
        let ⟨s₁, h₁⟩ ← s.step
        let ⟨e', s₂, h₂⟩ ← s₁.suffixes floor (.power op e)
        return ⟨e', s₂, le_after_step h₁ h₂⟩
      else .ok ⟨e, s, Nat.le_refl _⟩
    | _ => .ok ⟨e, s, Nat.le_refl _⟩
termination_by (s.remaining, 0)
decreasing_by
  all_goals
    apply Prod.Lex.left
    omega

end

end State
end Legalese
