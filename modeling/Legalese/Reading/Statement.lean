import Legalese.Reading.Expression

/-!
# Reading a clause

A recital declares the name that follows "hereinafter".  An action is recognised by the
first of its keywords; what stands before is filler.  A clause without a keyword of its
own yields nothing.

A conditional needs a relation and a consequence.  Without either it is dropped, and the
names met in it count as never met.
-/

namespace Legalese
namespace State

/-- Reads the name and value of a declaration, from its "hereinafter" on. -/
def declaration (s : State) : Except Failure (s.After Declaration) := do
  let ⟨s₁, h₁⟩ ← s.step
  let ⟨_, s₂, h₂⟩ ← s₁.seek (· == .name)
  let name := s₂.literal
  let ⟨s₃, h₃⟩ ← s₂.step
  let ⟨value, s₄, h₄⟩ ← s₃.expression .lowest
  have h₅ := remaining_declare_le s₄ name
  have k₃ := Nat.le_trans h₅ h₄
  have k₂ := le_around_step h₂ h₃ k₃
  return ⟨⟨name, value⟩, s₄.declare name, le_after_step h₁ k₂⟩

/-- Reads the declaration of a recital, if it has one. -/
def recital (s : State) : Except Failure (s.After (Option Declaration)) := do
  let ⟨found, s₁, h₁⟩ ← s.seekNext (· == .hereinafter)
  match found with
  | none => return ⟨none, s₁, h₁⟩
  | some _ =>
    let ⟨s₂, h₂⟩ ← s₁.step
    let ⟨d, s₃, h₃⟩ ← s₂.declaration
    return ⟨some d, s₃, le_around_step h₁ h₂ h₃⟩

/-- Reads what a name assumes, from the name on. -/
def assumption (s : State) : Except Failure (s.After Statement) := do
  let name := s.literal
  have h₀ := remaining_use_le s name
  let ⟨s₁, h₁⟩ ← (s.use name).step
  let ⟨s₂, h₂⟩ ← s₁.step
  let ⟨value, s₃, h₃⟩ ← s₂.expression .lowest
  have k₂ := le_after_step h₂ h₃
  have k₁ := le_after_step h₁ k₂
  return ⟨.assume name value, s₃, Nat.le_trans k₁ h₀⟩

/-- Reads a value to publish, from the "publish" on. -/
def publication (s : State) : Except Failure (s.After Statement) := do
  let ⟨s₁, h₁⟩ ← s.step
  let ⟨value, s₂, h₂⟩ ← s₁.expression .lowest
  return ⟨.publish value, s₂, le_after_step h₁ h₂⟩

mutual

/-- Reads the first action of a clause, if it has one. -/
def action (s : State) : Except Failure (s.After (Option Statement)) :=
  if s.kind? = some .name ∧ s.nextKind? = some .assume then do
    let ⟨a, s₁, h₁⟩ ← s.assumption
    return ⟨some a, s₁, h₁⟩
  else
    match hk : s.nextKind? with
    | none => .ok ⟨none, s, Nat.le_refl _⟩
    | some k => do
      have := one_lt_remaining hk
      if k.opensClause then
        return ⟨none, s, Nat.le_refl _⟩
      else
        let ⟨s₁, h₁⟩ ← s.step
        if k = .publish then
          let ⟨a, s₂, h₂⟩ ← s₁.publication
          return ⟨some a, s₂, le_after_step h₁ h₂⟩
        else if k = .conditional then
          let ⟨a, s₂, h₂⟩ ← s₁.conditional
          return ⟨a, s₂, le_after_step h₁ h₂⟩
        else
          let ⟨a, s₂, h₂⟩ ← s₁.action
          return ⟨a, s₂, le_after_step h₁ h₂⟩
termination_by (s.remaining, 0)
decreasing_by
  all_goals
    apply Prod.Lex.left
    omega

/-- Reads a conditional, from its "if" on. -/
def conditional (s : State) : Except Failure (s.After (Option Statement)) := do
  let ⟨s₁, h₁⟩ ← s.step
  let ⟨left, s₂, h₂⟩ ← s₁.expression .lowest
  let ⟨found, s₃, h₃⟩ ← s₂.seekNext fun k => k matches .relation _
  have k₂ := Nat.le_trans h₃ h₂
  have k₁ := le_after_step h₁ k₂
  match found with
  | some (.relation relation) =>
    let ⟨s₄, h₄⟩ ← s₃.step
    let ⟨s₅, h₅⟩ ← s₄.step
    let ⟨right, s₆, h₆⟩ ← s₅.expression .lowest
    have k₅ := le_after_step h₅ h₆
    have k := le_around_step k₁ h₄ k₅
    let ⟨consequence, s₇, h₇⟩ ← s₆.action
    have k₇ := Nat.le_trans h₇ k
    match consequence with
    | some a => return ⟨some (.conditional left right relation a), s₇, k₇⟩
    | none =>
      have h₈ := remaining_forget_le s₇ s
      return ⟨none, s₇.forget s, Nat.le_trans h₈ k₇⟩
  | _ =>
    have h₄ := remaining_forget_le s₃ s
    return ⟨none, s₃.forget s, Nat.le_trans h₄ k₁⟩
termination_by (s.remaining, 1)
decreasing_by
  rcases Nat.lt_or_eq_of_le k with h | h
  · exact Prod.Lex.left _ _ h
  · rw [h]
    apply Prod.Lex.right
    omega

end

end State
end Legalese
