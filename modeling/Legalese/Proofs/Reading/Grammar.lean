import Legalese.Proofs.Reading.Yield

/-!
# The grammar of expressions and actions

What the readers accept, said without them.  The relations here go from the tokens at the
current one to the tokens at the last one that was read, so a text is covered from the
head of the first list to the head of the second.

An operation is a leaf with the exponents that follow it, or an operator word with its
operands.  An expression is an operation with any number of subtractions after it.
Filler may stand before every operand, and every repetition takes all that directly
follows.  An action is the first statement of a clause; a conditional whose relation or
whose consequence is missing yields nothing.

The relations carry the unclosed text after the tokens, if there is one, since the reader
of a cardinal looks ahead to it.
-/

namespace Legalese
namespace Grammar

/-- The kind of the token at the head of a list. -/
def kindAt (ts : List Token) : Option Kind := ts.head?.map (·.kind)

@[simp] theorem kindAt_cons (t : Token) (ts : List Token) : kindAt (t :: ts) = some t.kind := rfl

theorem kindAt_eq_some {ts : List Token} {k : Kind} (h : kindAt ts = some k) :
    ∃ t r, ts = t :: r ∧ t.kind = k := by
  cases ts with
  | nil => cases h
  | cons t r => exact ⟨t, r, rfl, Option.some.inj h⟩

theorem kindAt_tail_eq_some {ts : List Token} {k : Kind} (h : kindAt ts.tail = some k) :
    ∃ t x r, ts = t :: x :: r ∧ x.kind = k := by
  match ts with
  | [] => cases h
  | [_] => cases h
  | t :: x :: r => exact ⟨t, x, r, rfl, Option.some.inj h⟩

/-- No exponent follows the head of a list. -/
def NoPower (ts : List Token) : Prop := ∀ op, kindAt ts.tail ≠ some (.exponent op)

/-- An integer literal: a cardinal and after it, in parentheses, a numeral of the same
number. -/
inductive IsInteger (u : Option String) : List Token → Int → List Token → Prop
  | intro {ts rest : List Token} {v : Int} {w l n r : Token}
      (cardinal : Cardinal.yield (Cardinal.read ⟨ts, u⟩) = .ok (v, ⟨w :: l :: n :: r :: rest, u⟩))
      (opened : l.kind = .openParen) (numeral : n.kind = .numeral ∨ n.kind = .dash)
      (agrees : Numeral.read? n.literal = some v) (closed : r.kind = .closeParen) :
      IsInteger u ts v (r :: rest)

inductive IsLeaf (u : Option String) : List Token → Expr → List Token → Prop
  | integer {t : Token} {ts ts' : List Token} {v : Int} {w : CardinalWord}
      (kind : t.kind = .cardinal w) (h : IsInteger u (t :: ts) v ts') :
      IsLeaf u (t :: ts) (.integer v) ts'
  | text {t : Token} {ts : List Token} (kind : t.kind = .text) :
      IsLeaf u (t :: ts) (.text t.literal) (t :: ts)
  | name {t : Token} {ts : List Token} (kind : t.kind = .name) :
      IsLeaf u (t :: ts) (.name t.literal) (t :: ts)

/-- All exponents that directly follow an operand. -/
inductive Powers : Expr → List Token → Expr → List Token → Prop
  | done {e : Expr} {ts : List Token} (h : NoPower ts) : Powers e ts e ts
  | more {e e' : Expr} {t x : Token} {ts ts' : List Token} {op : Exponent}
      (kind : x.kind = .exponent op) (h : Powers (.power op e) (x :: ts) e' ts') :
      Powers e (t :: x :: ts) e' ts'

/-- What may be read at a place: an operation, an expression, or what follows the first
operation of an expression. -/
inductive Phrase
  | operation
  | expression
  | differences (left : Expr)

inductive Reads (u : Option String) : Phrase → List Token → Expr → List Token → Prop
  | filler {t : Token} {ts ts' : List Token} {e : Expr} (idle : t.kind.startsExpression = false)
      (stays : t.kind.opensClause = false) (h : Reads u .operation ts e ts') :
      Reads u .operation (t :: ts) e ts'
  | leaf {ts ts₁ ts' : List Token} {e e' : Expr} (first : IsLeaf u ts e ts₁)
      (powers : Powers e ts₁ e' ts') : Reads u .operation ts e' ts'
  | unary {t : Token} {ts ts' : List Token} {op : UnaryOperator} {e : Expr}
      (kind : t.kind = .unary op) (h : Reads u .operation ts e ts') :
      Reads u .operation (t :: ts) (.unary op e) ts'
  | binary {t : Token} {ts ts₁ ts' : List Token} {op : BinaryOperator} {a b : Expr}
      (kind : t.kind = .binary op) (first : Reads u .expression ts a ts₁)
      (second : Reads u .operation ts₁.tail b ts') :
      Reads u .operation (t :: ts) (.binary op a b) ts'
  | expression {ts ts₁ ts' : List Token} {e e' : Expr} (first : Reads u .operation ts e ts₁)
      (rest : Reads u (.differences e) ts₁ e' ts') : Reads u .expression ts e' ts'
  | done {ts : List Token} {e : Expr} (h : kindAt ts.tail ≠ some .less) :
      Reads u (.differences e) ts e ts
  | less {t x : Token} {ts ts₁ ts' : List Token} {e right e' : Expr} (kind : x.kind = .less)
      (first : Reads u .operation ts right ts₁)
      (rest : Reads u (.differences (.less e right)) ts₁ e' ts') :
      Reads u (.differences e) (t :: x :: ts) e' ts'

/-- A search for a wanted token that stops before it, or before the next clause. -/
inductive Finds (wanted : Kind → Bool) : List Token → Option Kind → List Token → Prop
  | found {ts : List Token} {k : Kind} (next : kindAt ts.tail = some k)
      (h : wanted k = true) : Finds wanted ts (some k) ts
  | ended {ts : List Token} (next : kindAt ts.tail = none) : Finds wanted ts none ts
  | clause {ts : List Token} {k : Kind} (next : kindAt ts.tail = some k)
      (h : wanted k = false) (stops : k.opensClause = true) : Finds wanted ts none ts
  | skip {ts ts' : List Token} {k : Kind} {found : Option Kind}
      (next : kindAt ts.tail = some k) (h : wanted k = false)
      (stays : k.opensClause = false) (rest : Finds wanted ts.tail found ts') :
      Finds wanted ts found ts'

/-- The search for the relation of a conditional. -/
abbrev FindsRelation : List Token → Option Kind → List Token → Prop :=
  Finds fun k => k matches .relation _

/-- A wanted token stands right after the place where the search stops. -/
theorem Finds.cons_cons {wanted : Kind → Bool} {ts ts' : List Token} {k : Kind}
    (h : Finds wanted ts (some k) ts') : ∃ t x r, ts' = t :: x :: r ∧ x.kind = k := by
  generalize hf : some k = found at h
  induction h with
  | found next _ => cases hf; exact kindAt_tail_eq_some next
  | ended _ => cases hf
  | clause _ _ _ => cases hf
  | skip _ _ _ _ ih => exact ih hf

theorem FindsRelation.eq_none {ts ts' : List Token} {found : Option Kind}
    (h : FindsRelation ts found ts') (none : ∀ r, found ≠ some (.relation r)) : found = .none := by
  induction h with
  | @found ts k _ hw =>
    cases k with
    | relation r => exact absurd rfl (none r)
    | _ => cases hw
  | ended _ => rfl
  | clause _ _ _ => rfl
  | skip _ _ _ _ ih => exact ih none

/-- A token after the current one at which no statement begins. -/
def Idle (current next : Token) : Prop :=
  ¬(current.kind = .name ∧ next.kind = .assume) ∧ next.kind ≠ .publish ∧
    next.kind ≠ .conditional ∧ next.kind.opensClause = false

inductive Acts (u : Option String) : List Token → Option Statement → List Token → Prop
  | ended {ts : List Token} (next : kindAt ts.tail = none) : Acts u ts none ts
  | clause {ts : List Token} {k : Kind} (next : kindAt ts.tail = some k)
      (stops : k.opensClause = true) : Acts u ts none ts
  | filler {t x : Token} {ts ts' : List Token} {a : Option Statement} (idle : Idle t x)
      (h : Acts u (x :: ts) a ts') : Acts u (t :: x :: ts) a ts'
  | assume {t x : Token} {ts ts' : List Token} {e : Expr} (name : t.kind = .name)
      (kind : x.kind = .assume) (value : Reads u .expression ts e ts') :
      Acts u (t :: x :: ts) (some (.assume t.literal e)) ts'
  | publish {t x : Token} {ts ts' : List Token} {e : Expr} (kind : x.kind = .publish)
      (value : Reads u .expression ts e ts') : Acts u (t :: x :: ts) (some (.publish e)) ts'
  | unrelated {t x : Token} {ts ts₁ ts' : List Token} {l : Expr} (kind : x.kind = .conditional)
      (left : Reads u .expression ts l ts₁) (lost : FindsRelation ts₁ none ts') :
      Acts u (t :: x :: ts) none ts'
  | conditional {t x y z : Token} {ts ts₁ ts₂ ts₃ ts' : List Token} {l r : Expr}
      {relation : Relation} {a : Option Statement} (kind : x.kind = .conditional)
      (left : Reads u .expression ts l ts₁)
      (found : FindsRelation ts₁ (some (.relation relation)) (y :: z :: ts₂))
      (right : Reads u .expression ts₂ r ts₃) (consequence : Acts u ts₃ a ts') :
      Acts u (t :: x :: ts) (a.map (.conditional l r relation)) ts'

/-- The declaration of a recital: after "hereinafter" the first name, and after that an
expression. -/
inductive Recites (u : Option String) : List Token → Declaration → List Token → Prop
  | intro {t x n : Token} {ts pre ts₁ ts' : List Token} {k : Kind} {e : Expr}
      (found : Finds (· == .hereinafter) ts (some k) (t :: x :: (pre ++ n :: ts₁)))
      (idle : ∀ y ∈ pre, y.kind ≠ .name ∧ y.kind.opensClause = false) (name : n.kind = .name)
      (value : Reads u .expression ts₁ e ts') : Recites u ts ⟨n.literal, e⟩ ts'

end Grammar
end Legalese
