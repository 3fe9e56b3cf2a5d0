import Legalese.Resolution

/-!
# Inside an expression

A report counts the nodes of an expression, measures its depth and collects its names, each
by a recursion of its own.  Here is what they count: the expressions inside an expression,
the ways from its root to a leaf, and the leaves that are names.
-/

namespace Legalese

namespace Expr

/-- The operands of an expression, which a leaf has none of. -/
def operands : Expr → List Expr
  | integer _ => []
  | text _ => []
  | name _ => []
  | unary _ e => [e]
  | binary _ a b => [a, b]
  | less l r => [l, r]
  | power _ e => [e]

/-- An expression and everything inside it, one member for each node. -/
def subexpressions : Expr → List Expr
  | integer n => [integer n]
  | text s => [text s]
  | name x => [name x]
  | unary op e => unary op e :: e.subexpressions
  | binary op a b => binary op a b :: (a.subexpressions ++ b.subexpressions)
  | less l r => less l r :: (l.subexpressions ++ r.subexpressions)
  | power op e => power op e :: e.subexpressions

/-- The ways from the root of an expression to a leaf, by the nodes that they pass. -/
inductive Path : Expr → List Expr → Prop
  | leaf {e : Expr} (h : e.operands = []) : Path e [e]
  | node {e x : Expr} {way : List Expr} (h : x ∈ e.operands) (rest : Path x way) :
      Path e (e :: way)

theorem length_subexpressions (e : Expr) : e.subexpressions.length = e.size := by
  induction e with
  | integer n => rfl
  | text s => rfl
  | name x => rfl
  | unary op e ih => rw [subexpressions, size, List.length_cons, ih, Nat.add_comm]
  | binary op a b iha ihb =>
    rw [subexpressions, size, List.length_cons, List.length_append, iha, ihb]
    omega
  | less l r ihl ihr =>
    rw [subexpressions, size, List.length_cons, List.length_append, ihl, ihr]
    omega
  | power op e ih => rw [subexpressions, size, List.length_cons, ih, Nat.add_comm]

/-- The names of an expression are its leaves of that kind. -/
theorem mem_names {e : Expr} {x : String} : x ∈ e.names ↔ name x ∈ e.subexpressions := by
  induction e with
  | integer n => simp [names, subexpressions]
  | text s => simp [names, subexpressions]
  | name y => simp [names, subexpressions]
  | unary op e ih => simp [names, subexpressions, ih]
  | binary op a b iha ihb => simp [names, subexpressions, iha, ihb]
  | less l r ihl ihr => simp [names, subexpressions, ihl, ihr]
  | power op e ih => simp [names, subexpressions, ih]

/-! ## Depth -/

theorem depth_pos (e : Expr) : 0 < e.depth := by
  cases e <;> unfold depth <;> omega

theorem depth_of_leaf {e : Expr} (h : e.operands = []) : e.depth = 1 := by
  cases e with
  | integer n => rfl
  | text s => rfl
  | name x => rfl
  | unary op e => exact absurd h (List.cons_ne_nil _ _)
  | binary op a b => exact absurd h (List.cons_ne_nil _ _)
  | less l r => exact absurd h (List.cons_ne_nil _ _)
  | power op e => exact absurd h (List.cons_ne_nil _ _)

theorem depth_lt_of_mem_operands {e x : Expr} (h : x ∈ e.operands) : x.depth < e.depth := by
  cases e <;> simp only [operands, List.mem_cons, List.not_mem_nil, or_false] at h
  case unary => rw [h, depth]; omega
  case binary => rcases h with rfl | rfl <;> rw [depth] <;> omega
  case less => rcases h with rfl | rfl <;> rw [depth] <;> omega
  case power => rw [h, depth]; omega

/-- One of the operands is as deep as an expression is without its root. -/
theorem depth_eq_of_operands {e : Expr} (h : e.operands ≠ []) :
    ∃ x ∈ e.operands, e.depth = 1 + x.depth := by
  have deeper (a b : Expr) : ∃ x ∈ [a, b], 1 + max a.depth b.depth = 1 + x.depth := by
    rcases Nat.le_total a.depth b.depth with le | le
    · exact ⟨b, List.mem_cons_of_mem a List.mem_cons_self, by rw [Nat.max_eq_right le]⟩
    · exact ⟨a, List.mem_cons_self, by rw [Nat.max_eq_left le]⟩
  cases e with
  | integer n => exact absurd rfl h
  | text s => exact absurd rfl h
  | name x => exact absurd rfl h
  | unary op e => exact ⟨e, List.mem_cons_self, rfl⟩
  | binary op a b => exact deeper a b
  | less l r => exact deeper l r
  | power op e => exact ⟨e, List.mem_cons_self, rfl⟩

theorem Path.length_le {e : Expr} {way : List Expr} (h : Path e way) : way.length ≤ e.depth := by
  induction h with
  | leaf => exact depth_pos _
  | node h _ ih =>
    have deeper := depth_lt_of_mem_operands h
    rw [List.length_cons]
    omega

/-- The depth of an expression is the length of its longest way to a leaf. -/
theorem exists_path (e : Expr) : ∃ way, Path e way ∧ way.length = e.depth := by
  by_cases leaf : e.operands = []
  · exact ⟨[e], .leaf leaf, (depth_of_leaf leaf).symm⟩
  · obtain ⟨x, hx, depth⟩ := depth_eq_of_operands leaf
    have smaller := depth_lt_of_mem_operands hx
    obtain ⟨way, path, longest⟩ := exists_path x
    exact ⟨e :: way, .node hx path, by rw [List.length_cons, longest, depth, Nat.add_comm]⟩
termination_by e.depth

end Expr

/-! ## Inside a statement -/

namespace Statement

/-- Everything inside the expressions of a statement and of the consequences inside it. -/
def subexpressions : Statement → List Expr
  | declare d => d.value.subexpressions
  | assume _ e => e.subexpressions
  | publish e => e.subexpressions
  | conditional l r _ c => l.subexpressions ++ r.subexpressions ++ c.subexpressions

theorem subexpressions_eq (a : Statement) :
    a.subexpressions = a.expressions.flatMap Expr.subexpressions := by
  induction a with
  | declare d => simp [subexpressions, expressions]
  | assume x e => simp [subexpressions, expressions]
  | publish e => simp [subexpressions, expressions]
  | conditional l r relation c ih => simp [subexpressions, expressions, ih]

end Statement
end Legalese
