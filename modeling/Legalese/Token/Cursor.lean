import Legalese.Token.Lexer

/-!
# A place among the tokens

A cursor stands on a token and also sees the one after it.  It is the list of tokens
from its place on.  Moving on fails when the token that would come into view is a quoted
text without its closing mark, so an unclosed text does no harm before it is seen.
-/

namespace Legalese

/-- A place among the tokens of a text. -/
structure Cursor where
  /-- The current token and those after it. -/
  tokens : List Token
  /-- The unclosed text that comes after the tokens, if there is one. -/
  unclosed : Option String
  deriving DecidableEq

namespace Cursor

/-- A cursor at the head of a list, unless the unclosed text is one of the two places
in view. -/
def view (ts : List Token) (unclosed : Option String) : Except String Cursor :=
  match unclosed, ts with
  | some literal, [] => .error literal
  | some literal, [_] => .error literal
  | _, _ => .ok ⟨ts, unclosed⟩

/-- A cursor on the first token of a text. -/
def start (source : String) : Except String Cursor :=
  let ts := Legalese.tokens source.toList
  view ts.list ts.unclosed

/-- Moves on by one token.  At the end of the text it stays there. -/
def advance (c : Cursor) : Except String Cursor :=
  view c.tokens.tail c.unclosed

/-- The current token, `none` at the end of the text. -/
def current? (c : Cursor) : Option Token := c.tokens.head?

/-- The token after the current one. -/
def next? (c : Cursor) : Option Token := c.tokens.tail.head?

def kind? (c : Cursor) : Option Kind := c.current?.map (·.kind)

def nextKind? (c : Cursor) : Option Kind := c.next?.map (·.kind)

/-- The spelling of the current token, empty at the end of the text. -/
def literal (c : Cursor) : String :=
  match c.current? with
  | some t => t.literal
  | none => ""

/-- How many tokens are left, the current one included. -/
def remaining (c : Cursor) : Nat := c.tokens.length

theorem tokens_of_view {ts : List Token} {u : Option String} {c : Cursor}
    (h : view ts u = .ok c) : c = ⟨ts, u⟩ := by
  unfold view at h
  split at h <;> cases h
  rfl

theorem remaining_of_advance {c c' : Cursor} (h : c.advance = .ok c') :
    c'.remaining = c.remaining - 1 := by
  have e := tokens_of_view h
  subst e
  simp [remaining]

theorem remaining_pos_of_kind? {c : Cursor} {k : Kind} (h : c.kind? = some k) :
    0 < c.remaining := by
  unfold kind? current? at h
  unfold remaining
  cases hc : c.tokens with
  | nil => simp [hc] at h
  | cons t ts => simp

theorem one_lt_remaining_of_nextKind? {c : Cursor} {k : Kind} (h : c.nextKind? = some k) :
    1 < c.remaining := by
  unfold nextKind? next? at h
  unfold remaining
  match hc : c.tokens with
  | [] => simp [hc] at h
  | [_] => simp [hc] at h
  | _ :: _ :: _ => simp

end Cursor

/-! ## Steps

A cursor, and anything with a cursor in it, is measured by what is left of the text.  One
step leaves one token less, so neither a step nor what follows it leaves more than before. -/

section

variable {σ : Type} {left : σ → Nat} {s s₁ s₂ s₃ : σ}

theorem le_of_step (h : left s₁ = left s - 1) : left s₁ ≤ left s := h ▸ Nat.sub_le (left s) 1

theorem le_after_step (h₁ : left s₁ = left s - 1) (h₂ : left s₂ ≤ left s₁) : left s₂ ≤ left s :=
  Nat.le_trans h₂ (le_of_step h₁)

theorem le_around_step (h₁ : left s₁ ≤ left s) (h₂ : left s₂ = left s₁ - 1)
    (h₃ : left s₃ ≤ left s₂) : left s₃ ≤ left s :=
  Nat.le_trans (le_after_step h₂ h₃) h₁

end

end Legalese
