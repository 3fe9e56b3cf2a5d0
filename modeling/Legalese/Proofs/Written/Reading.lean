import Legalese.Proofs.Reading.Literal
import Legalese.Proofs.Written.Text

/-!
# Written resolutions are read back

The readers come from the tokens of a written tree to the tree.  For an expression this is
said with the words that follow still open: reading the tokens of `e` comes to the same as
having read `e` and going on with the words after it.

Main statement: the well-formed resolutions are exactly those that some text holds, and the
written form of each is such a text.
-/

namespace Legalese

open Grammar

/-! ## The tokens of a tree -/

namespace Expr

theorem stays_tokens {e : Expr} {t : Token} (h : t ∈ e.tokens) : t.kind.opensClause = false := by
  induction e with
  | integer n =>
    rcases List.mem_append.1 h with h | h
    · exact Kind.opensClause_of_inCardinal (Cardinal.inCardinal_of_mem_tokens h)
    · simp only [List.mem_cons, List.not_mem_nil, or_false] at h
      rcases h with rfl | rfl | rfl <;> rfl
  | text s =>
    obtain rfl := List.mem_singleton.1 h
    rfl
  | name x =>
    obtain rfl := List.mem_singleton.1 h
    rfl
  | unary op e ih =>
    rcases List.mem_cons.1 h with rfl | h
    · rfl
    · exact ih h
  | binary op a b iha ihb =>
    rcases List.mem_cons.1 h with rfl | h
    · rfl
    · rcases List.mem_append.1 h with h | h
      · exact iha h
      · exact ihb h
  | less l r ihl ihr =>
    rcases List.mem_append.1 h with h | h
    · exact ihl h
    · rcases List.mem_cons.1 h with rfl | h
      · rfl
      · exact ihr h
  | power op e ih =>
    rcases List.mem_append.1 h with h | h
    · exact ih h
    · obtain rfl := List.mem_singleton.1 h
      rfl

/-- An expression begins with a word that begins expressions. -/
theorem tokens_starts {e : Expr} (wf : e.WellFormed) :
    ∃ t ts, e.tokens = t :: ts ∧ t.kind.startsExpression = true := by
  induction e with
  | integer n =>
    obtain ⟨w, t, ts, h, hk⟩ := Cardinal.tokens_starts wf
    exact ⟨t, _, by rw [tokens, Integer.tokens, h]; rfl, by rw [hk]; rfl⟩
  | text s => exact ⟨_, _, rfl, rfl⟩
  | name x => exact ⟨_, _, rfl, rfl⟩
  | unary op e ih => exact ⟨_, _, rfl, rfl⟩
  | binary op a b iha ihb => exact ⟨_, _, rfl, rfl⟩
  | less l r ihl ihr =>
    obtain ⟨t, ts, h, hk⟩ := ihl wf.1
    exact ⟨t, _, by rw [tokens, h]; rfl, hk⟩
  | power op e ih =>
    obtain ⟨t, ts, h, hk⟩ := ih wf.1
    exact ⟨t, _, by rw [tokens, h]; rfl, hk⟩

theorem tokens_ne_nil {e : Expr} (wf : e.WellFormed) : e.tokens ≠ [] := by
  obtain ⟨t, ts, h, -⟩ := tokens_starts wf
  rw [h]
  exact List.cons_ne_nil t ts

end Expr

namespace State

/-! ## Expressions -/

theorem seek_here {wanted : Kind → Bool} {s : State} {k : Kind} (hk : s.kind? = some k)
    (h : wanted k = true) : yield (s.seek wanted) = .ok ((), s) := by
  rw [yield_seek, hk]
  exact if_pos h

theorem moved_standing {s : State} {ts rest : List Token} (ne : ts ≠ [])
    (h : s.cursor = Cardinal.standing ts rest) : s.moved = .ok (s.moveTo ⟨rest, none⟩) := by
  rw [moved_eq, h, Cardinal.moved_standing ne]

theorem nextKind?_standing {s : State} {ts rest : List Token} (ne : ts ≠ [])
    (h : s.cursor = Cardinal.standing ts rest) : s.nextKind? = kindAt rest := by
  rw [← Cardinal.nextKind?_standing ne rest, ← h]
  rfl

theorem integerLiteral_tokens {n : Int} (h : InRange n) {s : State} {rest : List Token}
    (hs : s.cursor = ⟨Integer.tokens n ++ rest, none⟩) :
    yield s.integerLiteral =
      .ok (.integer n, s.moveTo (Cardinal.standing (Integer.tokens n) rest)) := by
  have place : s.cursor = ⟨Cardinal.tokens n ++ (Integer.numeralTokens n ++ rest), none⟩ := by
    rw [hs, Integer.tokens, List.append_assoc]
    rfl
  rw [integerLiteral_of_alike h h (List.forall₂_same.2 fun t _ => .refl t) place, if_pos rfl,
    Integer.tokens, Cardinal.standing_append _ (List.cons_ne_nil _ _)]
  rfl

/-- No exponent stands at the head of a list. -/
def NoExponent (ts : List Token) : Prop := ∀ op, kindAt ts ≠ some (.exponent op)

theorem suffixes_done {floor : Tier} {e : Expr} {s : State}
    (exponent : ∀ op, s.nextKind? ≠ some (.exponent op))
    (less : floor.rank < Tier.difference.rank → s.nextKind? ≠ some .less) :
    yield (s.suffixes floor e) = .ok (e, s) := by
  rw [yield_suffixes]
  split
  · next h =>
    split
    · next low => exact absurd h (less low)
    · rfl
  · next op h => exact absurd h (exponent op)
  · rfl

theorem suffixes_stop {floor : Tier} {e : Expr} {s : State} {ts rest : List Token} (ne : ts ≠ [])
    (hs : s.cursor = Cardinal.standing ts rest) (exponent : NoExponent rest)
    (less : floor.rank < Tier.difference.rank → kindAt rest ≠ some .less) :
    yield (s.suffixes floor e) = .ok (e, s) := by
  have next := nextKind?_standing ne hs
  refine suffixes_done (fun op => ?_) fun low => ?_
  · rw [next]
    exact exponent op
  · rw [next]
    exact less low

theorem expression_of_operand {floor : Tier} {e : Expr} {s s' : State}
    (h : yield s.operand = .ok (e, s')) :
    yield (s.expression floor) = yield (s'.suffixes floor e) := by
  rw [yield_expression, h]
  rfl

@[simp] theorem moveTo_moveTo (s : State) (c c' : Cursor) : (s.moveTo c).moveTo c' = s.moveTo c' :=
  rfl

/-- From an operator word with one operand on. -/
theorem expression_of_unary {floor : Tier} {t : Token} {op : UnaryOperator} (kind : t.kind = .unary op)
    {ts : List Token} {s : State} (hs : s.cursor = ⟨t :: ts, none⟩) :
    yield (s.expression floor) =
      (yield ((s.moveTo ⟨ts, none⟩).expression .operation) >>= fun a =>
        yield (a.2.suffixes floor (.unary op a.1))) := by
  have here : s.kind? = some (.unary op) := (kind?_cons hs).trans (congrArg some kind)
  rw [yield_expression, yield_operand, seek_here here rfl, ok_bind]
  dsimp only
  rw [here]
  dsimp only
  rw [moved_closed hs, ok_bind]
  show (yield ((s.moveTo ⟨ts, none⟩).expression .operation) >>= _) >>= _ = _
  cases yield ((s.moveTo ⟨ts, none⟩).expression .operation) <;> rfl

/-- From an operator word with two operands on. -/
theorem expression_of_binary {floor : Tier} {t : Token} {op : BinaryOperator}
    (kind : t.kind = .binary op) {ts : List Token} {s : State} (hs : s.cursor = ⟨t :: ts, none⟩) :
    yield (s.expression floor) =
      (yield ((s.moveTo ⟨ts, none⟩).expression .lowest) >>= fun a =>
        a.2.moved >>= fun s₁ => yield (s₁.expression .operation) >>= fun b =>
          yield (b.2.suffixes floor (.binary op a.1 b.1))) := by
  have here : s.kind? = some (.binary op) := (kind?_cons hs).trans (congrArg some kind)
  rw [yield_expression, yield_operand, seek_here here rfl, ok_bind]
  dsimp only
  rw [here]
  dsimp only
  rw [moved_closed hs, ok_bind]
  show (yield ((s.moveTo ⟨ts, none⟩).expression .lowest) >>= _) >>= _ = _
  cases yield ((s.moveTo ⟨ts, none⟩).expression .lowest) with
  | error f => rfl
  | ok a =>
    show (a.2.moved >>= _) >>= _ = a.2.moved >>= _
    cases a.2.moved with
    | error f => rfl
    | ok s₁ =>
      show (yield (s₁.expression .operation) >>= _) >>= _ = yield (s₁.expression .operation) >>= _
      cases yield (s₁.expression .operation) <;> rfl

/-- Reading an expression comes to having read its tokens, with the words after them still
to be looked at. -/
def ReadsTo (floor : Tier) (e : Expr) (rest : List Token) : Prop :=
  ∀ s : State, s.cursor = ⟨e.tokens ++ rest, none⟩ →
    ∃ s' : State, s'.cursor = Cardinal.standing e.tokens rest ∧
      yield (s.expression floor) = yield (s'.suffixes floor e)

theorem ReadsTo.whole {floor : Tier} {e : Expr} {rest : List Token} (h : ReadsTo floor e rest)
    (wf : e.WellFormed) (exponent : NoExponent rest)
    (less : floor.rank < Tier.difference.rank → kindAt rest ≠ some .less) {s : State}
    (hs : s.cursor = ⟨e.tokens ++ rest, none⟩) :
    ∃ s' : State, s'.cursor = Cardinal.standing e.tokens rest ∧
      yield (s.expression floor) = .ok (e, s') := by
  obtain ⟨s', hs', he⟩ := h s hs
  exact ⟨s', hs', he.trans (suffixes_stop (Expr.tokens_ne_nil wf) hs' exponent less)⟩

/-- The head of an expression neither continues an operation nor a difference. -/
theorem head_tokens {e : Expr} (wf : e.WellFormed) (rest : List Token) :
    NoExponent (e.tokens ++ rest) ∧ kindAt (e.tokens ++ rest) ≠ some .less := by
  obtain ⟨t, ts, ht, hk⟩ := Expr.tokens_starts wf
  rw [ht]
  refine ⟨fun op h => ?_, fun h => ?_⟩
  · have kind : t.kind = .exponent op := Option.some.inj h
    rw [kind] at hk
    cases hk
  · have kind : t.kind = .less := Option.some.inj h
    rw [kind] at hk
    cases hk

/-- By induction on the expression.  Exponents after an expression go to its last leaf, so
they must not follow unless the expression is that leaf. -/
theorem readsTo_tokens {e : Expr} (wf : e.WellFormed) {floor : Tier}
    (low : floor.rank < Tier.power.rank) (fits : floor = .lowest ∨ e.isDifference = false)
    {rest : List Token} (ends : e.isPower = true ∨ NoExponent rest) : ReadsTo floor e rest := by
  induction e generalizing floor rest with
  | integer n =>
    intro s hs
    obtain ⟨w, t, ts, ht, hk⟩ := Cardinal.tokens_starts wf
    have kind : s.kind? = some (.cardinal w) := by
      rw [kind?_eq, hs, Expr.tokens, Integer.tokens, ht, ← hk]
      rfl
    refine ⟨s.moveTo (Cardinal.standing (Integer.tokens n) rest), rfl, expression_of_operand ?_⟩
    rw [yield_operand, seek_here kind rfl, ok_bind]
    dsimp only
    rw [kind]
    exact integerLiteral_tokens wf hs
  | text t =>
    intro s hs
    have kind : s.kind? = some .text := kind?_cons hs
    refine ⟨s, hs, expression_of_operand ?_⟩
    rw [yield_operand, seek_here kind rfl, ok_bind]
    dsimp only
    rw [kind, literal_eq (show s.cursor.tokens = ⟨.text, t⟩ :: rest by rw [hs]; rfl)]
  | name x =>
    intro s hs
    have kind : s.kind? = some .name := kind?_cons hs
    refine ⟨s.use x, by rw [cursor_use, hs]; rfl, expression_of_operand ?_⟩
    rw [yield_operand, seek_here kind rfl, ok_bind]
    dsimp only
    rw [kind, literal_eq (show s.cursor.tokens = ⟨.name, x⟩ :: rest by rw [hs]; rfl)]
  | unary op e ih =>
    intro s hs
    have exponent : NoExponent rest := ends.resolve_left Bool.false_ne_true
    -- at this tier a difference after the operand is left where it stands
    have inner : ReadsTo .operation e rest := ih wf.1 (by decide) (.inr wf.2) (.inr exponent)
    obtain ⟨s₁, hs₁, read⟩ := inner.whole wf.1 exponent (fun h => absurd h (by decide))
      (s := s.moveTo ⟨e.tokens ++ rest, none⟩) rfl
    refine ⟨s₁, ?_, ?_⟩
    · rw [hs₁, Expr.tokens, Cardinal.standing_cons (Expr.tokens_ne_nil wf.1)]
    · rw [expression_of_unary rfl hs]
      show yield ((s.moveTo ⟨e.tokens ++ rest, none⟩).expression .operation) >>= _ = _
      rw [read]
      rfl
  | binary op a b iha ihb =>
    intro s hs
    obtain ⟨wfa, wfb, notDifference⟩ := wf
    have exponent : NoExponent rest := ends.resolve_left Bool.false_ne_true
    obtain ⟨noExponent, noLess⟩ := head_tokens wfb rest
    -- the first operand may be a difference, and the head of the second one ends it
    have first : ReadsTo .lowest a (b.tokens ++ rest) :=
      iha wfa (by decide) (.inl rfl) (.inr noExponent)
    obtain ⟨s₁, hs₁, read₁⟩ := first.whole wfa noExponent (fun _ => noLess)
      (s := s.moveTo ⟨a.tokens ++ (b.tokens ++ rest), none⟩) rfl
    have second : ReadsTo .operation b rest :=
      ihb wfb (by decide) (.inr notDifference) (.inr exponent)
    obtain ⟨s₂, hs₂, read₂⟩ := second.whole wfb exponent (fun h => absurd h (by decide))
      (s := s₁.moveTo ⟨b.tokens ++ rest, none⟩) rfl
    refine ⟨s₂, ?_, ?_⟩
    · have ne := Expr.tokens_ne_nil wfb
      rw [hs₂, Expr.tokens, Cardinal.standing_cons (List.append_ne_nil_of_right_ne_nil _ ne),
        Cardinal.standing_append _ ne]
    · rw [expression_of_binary rfl hs]
      show yield ((s.moveTo ⟨a.tokens ++ b.tokens ++ rest, none⟩).expression .lowest) >>= _ = _
      rw [List.append_assoc, read₁, ok_bind]
      dsimp only
      rw [moved_standing (Expr.tokens_ne_nil wfa) hs₁, ok_bind, read₂]
      rfl
  | less l r ihl ihr =>
    intro s hs
    obtain ⟨wfl, wfr, notDifference⟩ := wf
    obtain rfl : floor = .lowest := fits.resolve_right fun h => Bool.noConfusion h
    have exponent : NoExponent rest := ends.resolve_left Bool.false_ne_true
    -- the difference is taken up by the same loop that has read its left operand
    have left : ReadsTo .lowest l (⟨.less, lessWord⟩ :: (r.tokens ++ rest)) :=
      ihl wfl (by decide) (.inl rfl) (.inr fun _ h => Kind.noConfusion (Option.some.inj h))
    obtain ⟨s₁, hs₁, read₁⟩ := left s (by rw [hs, Expr.tokens, List.append_assoc]; rfl)
    have right : ReadsTo .difference r rest :=
      ihr wfr (by decide) (.inr notDifference) (.inr exponent)
    obtain ⟨s₂, hs₂, read₂⟩ := right.whole wfr exponent (fun h => absurd h (by decide))
      (s := s₁.moveTo ⟨r.tokens ++ rest, none⟩) rfl
    refine ⟨s₂, ?_, ?_⟩
    · rw [hs₂, Expr.tokens, Cardinal.standing_append _ (List.cons_ne_nil _ _),
        Cardinal.standing_cons (Expr.tokens_ne_nil wfr)]
    · have ne := Expr.tokens_ne_nil wfl
      rw [read₁, yield_suffixes, nextKind?_standing ne hs₁, kindAt_cons]
      dsimp only
      rw [if_pos (by decide), moved_standing ne hs₁, ok_bind, moved_closed rfl, ok_bind]
      show (yield ((s₁.moveTo ⟨r.tokens ++ rest, none⟩).expression .difference) >>= _) = _
      rw [read₂]
      rfl
  | power op e ih =>
    intro s hs
    have inner : ReadsTo floor e (⟨.exponent op, op.word⟩ :: rest) :=
      ih wf.1 low (.inr (Expr.isDifference_of_isPower wf.2)) (.inl wf.2)
    obtain ⟨s₁, hs₁, read₁⟩ := inner s (by rw [hs, Expr.tokens, List.append_assoc]; rfl)
    have ne := Expr.tokens_ne_nil wf.1
    refine ⟨s₁.moveTo ⟨⟨.exponent op, op.word⟩ :: rest, none⟩, ?_, ?_⟩
    · rw [Expr.tokens, Cardinal.standing_append _ (List.cons_ne_nil _ _)]
      rfl
    · rw [read₁, yield_suffixes, nextKind?_standing ne hs₁, kindAt_cons]
      dsimp only
      rw [if_pos low, moved_standing ne hs₁, ok_bind]

theorem expression_tokens {e : Expr} (wf : e.WellFormed) {rest : List Token} {s : State}
    (hs : s.cursor = ⟨e.tokens ++ rest, none⟩) (exponent : NoExponent rest)
    (less : kindAt rest ≠ some .less) :
    ∃ s' : State, s'.cursor = Cardinal.standing e.tokens rest ∧
      yield (s.expression .lowest) = .ok (e, s') :=
  (readsTo_tokens wf (by decide) (.inl rfl) (.inr exponent)).whole wf exponent (fun _ => less) hs

/-- An expression is looked for beyond filler. -/
theorem expression_of_idle {floor : Tier} {t : Token} {ts : List Token} {s : State}
    (hs : s.cursor = ⟨t :: ts, none⟩) (idle : t.kind.startsExpression = false)
    (stays : t.kind.opensClause = false) :
    yield (s.expression floor) = yield ((s.moveTo ⟨ts, none⟩).expression floor) := by
  have kind : s.kind? = some t.kind := kind?_cons hs
  rw [yield_expression, yield_expression, yield_operand, yield_operand, yield_seek, kind]
  dsimp only
  rw [idle, stays, if_neg nofun, if_neg nofun, moved_closed hs]
  rfl

/-- An expression that ends the text. -/
theorem expression_last {e : Expr} (wf : e.WellFormed) {s : State}
    (hs : s.cursor = ⟨e.tokens, none⟩) : ∃ s' : State, yield (s.expression .lowest) = .ok (e, s') := by
  have whole : s.cursor = ⟨e.tokens ++ [], none⟩ := by rw [hs, List.append_nil]
  obtain ⟨s', -, read⟩ := expression_tokens wf whole nofun nofun
  exact ⟨s', read⟩

/-! ## Statements -/

theorem action_of_idle {t x : Token} {ts : List Token} (idle : Idle t x) {s : State}
    (hs : s.cursor = ⟨t :: x :: ts, none⟩) :
    yield s.action = yield (s.moveTo ⟨x :: ts, none⟩).action := by
  obtain ⟨noAssume, noPublish, noConditional, stays⟩ := idle
  have no : ¬(some t.kind = some .name ∧ some x.kind = some .assume) := fun h =>
    noAssume ⟨Option.some.inj h.1, Option.some.inj h.2⟩
  rw [yield_action, kind?_cons hs, nextKind?_cons hs, if_neg no]
  dsimp only
  rw [stays, if_neg nofun, moved_closed hs, ok_bind, if_neg noPublish, if_neg noConditional]
  rfl

theorem assumption_tokens {x : String} {e : Expr} (wf : e.WellFormed) {s : State}
    (hs : s.cursor = ⟨Statement.tokens (.assume x e), none⟩) :
    ∃ s', yield s.assumption = .ok (.assume x e, s') := by
  have literal : s.literal = x := literal_eq (t := ⟨.name, x⟩) (by rw [hs]; rfl)
  obtain ⟨s', read⟩ := expression_last wf (s := (s.use x).moveTo ⟨e.tokens, none⟩) rfl
  refine ⟨s', ?_⟩
  rw [yield_assumption, literal, moved_closed (by rw [cursor_use, hs]), ok_bind, moved_closed rfl,
    ok_bind]
  show (yield (((s.use x).moveTo ⟨e.tokens, none⟩).expression .lowest) >>= _) = _
  rw [read]
  rfl

theorem publication_tokens {e : Expr} (wf : e.WellFormed) {s : State}
    (hs : s.cursor = ⟨Statement.tokens (.publish e), none⟩) :
    ∃ s', yield s.publication = .ok (.publish e, s') := by
  obtain ⟨s', read⟩ := expression_last wf (s := s.moveTo ⟨e.tokens, none⟩) rfl
  refine ⟨s', ?_⟩
  rw [yield_publication, moved_closed hs, ok_bind]
  show (yield ((s.moveTo ⟨e.tokens, none⟩).expression .lowest) >>= _) = _
  rw [read]
  rfl

theorem seekNext_here {wanted : Kind → Bool} {s : State} {k : Kind} (next : s.nextKind? = some k)
    (h : wanted k = true) : yield (s.seekNext wanted) = .ok (some k, s) := by
  rw [yield_seekNext, next]
  exact if_pos h

/-- A conditional is read when its consequence is, from the token before the comma. -/
theorem conditional_tokens {l r : Expr} {relation : Relation} {c : Statement} (wfl : l.WellFormed)
    (wfr : r.WellFormed) {s : State}
    (hs : s.cursor = ⟨Statement.tokens (.conditional l r relation c), none⟩)
    (consequence : ∀ (t : Token) (s₁ : State), s₁.cursor = ⟨t :: ⟨.filler, ","⟩ :: c.tokens, none⟩ →
      ∃ s₂, yield s₁.action = .ok (some c, s₂)) :
    ∃ s', yield s.conditional = .ok (some (.conditional l r relation c), s') := by
  let after := Token.mk .filler "," :: c.tokens
  let middle := Token.mk (.relation relation) relation.word :: (r.tokens ++ after)
  obtain ⟨s₁, hs₁, left⟩ := expression_tokens wfl
    (s := s.moveTo ⟨l.tokens ++ middle, none⟩) rfl nofun nofun
  have next : s₁.nextKind? = some (.relation relation) :=
    nextKind?_standing (Expr.tokens_ne_nil wfl) hs₁
  obtain ⟨s₂, hs₂, right⟩ := expression_tokens wfr
    (s := s₁.moveTo ⟨r.tokens ++ after, none⟩) rfl nofun nofun
  obtain ⟨t, ht⟩ := Option.isSome_iff_exists.1 (List.getLast?_isSome.2 (Expr.tokens_ne_nil wfr))
  obtain ⟨s₃, read⟩ := consequence t s₂ (by rw [hs₂, Cardinal.standing, ht]; rfl)
  refine ⟨s₃, ?_⟩
  rw [yield_conditional, moved_closed hs, ok_bind]
  show (yield ((s.moveTo ⟨l.tokens ++ middle, none⟩).expression .lowest) >>= _) = _
  rw [left, ok_bind]
  dsimp only
  rw [seekNext_here next rfl, ok_bind]
  dsimp only
  rw [moved_standing (Expr.tokens_ne_nil wfl) hs₁, ok_bind, moved_closed rfl, ok_bind]
  show (yield ((s₁.moveTo ⟨r.tokens ++ after, none⟩).expression .lowest) >>= _) = _
  rw [right, ok_bind]
  dsimp only
  rw [read]
  rfl

/-- A statement stands after a comma, and what stands before the comma does not matter. -/
theorem action_tokens {a : Statement} (wf : a.WellFormed) (t : Token) (s : State)
    (hs : s.cursor = ⟨t :: ⟨.filler, ","⟩ :: a.tokens, none⟩) :
    ∃ s', yield s.action = .ok (some a, s') := by
  have comma (t : Token) : Idle t ⟨.filler, ","⟩ := ⟨nofun, nofun, nofun, rfl⟩
  induction a generalizing s t with
  | declare _ => exact wf.elim
  | assume x e =>
    have idle : Idle ⟨.filler, ","⟩ ⟨.name, x⟩ := ⟨nofun, nofun, nofun, rfl⟩
    obtain ⟨s', read⟩ := assumption_tokens (x := x) wf.2 (s := s.moveTo ⟨_, none⟩) rfl
    refine ⟨s', ?_⟩
    rw [action_of_idle (comma t) hs, action_of_idle idle rfl, yield_action, if_pos ⟨rfl, rfl⟩]
    show (yield (s.moveTo ⟨Statement.tokens (.assume x e), none⟩).assumption >>= _) = _
    rw [read]
    rfl
  | publish e =>
    obtain ⟨s', read⟩ := publication_tokens wf (s := s.moveTo ⟨_, none⟩) rfl
    refine ⟨s', ?_⟩
    rw [action_of_idle (comma t) hs, yield_action, if_neg nofun]
    show ((s.moveTo _).moved >>= fun s₁ => yield s₁.publication >>= _) = _
    rw [moved_closed rfl, ok_bind]
    show (yield (s.moveTo ⟨Statement.tokens (.publish e), none⟩).publication >>= _) = _
    rw [read]
    rfl
  | conditional l r relation c ih =>
    obtain ⟨s', read⟩ := conditional_tokens wf.1 wf.2.1
      (s := s.moveTo ⟨Statement.tokens (.conditional l r relation c), none⟩) rfl (ih wf.2.2)
    refine ⟨s', ?_⟩
    rw [action_of_idle (comma t) hs, yield_action, if_neg nofun]
    show ((s.moveTo _).moved >>= fun s₁ => yield s₁.conditional) = _
    rw [moved_closed rfl, ok_bind]
    exact read

theorem declaration_tokens {d : Declaration} (wf : d.WellFormed) {s : State} {t : Token}
    (hs : s.cursor = ⟨t :: ⟨.name, d.name⟩ :: ⟨.closeParen, ")"⟩ :: d.value.tokens, none⟩) :
    ∃ s', yield s.declaration = .ok (d, s') := by
  obtain ⟨s', read⟩ := expression_last wf.value (s := s.moveTo ⟨d.value.tokens, none⟩) rfl
  refine ⟨s'.declare d.name, ?_⟩
  rw [yield_declaration, moved_closed hs, ok_bind, seek_here (k := .name) rfl rfl, ok_bind]
  dsimp only
  rw [moved_closed rfl, ok_bind, expression_of_idle rfl rfl rfl]
  show (yield ((s.moveTo ⟨d.value.tokens, none⟩).expression .lowest) >>= _) = _
  rw [read]
  rfl

theorem recital_tokens {d : Declaration} (wf : d.WellFormed) {s : State} {t : Token}
    (hs : s.cursor = ⟨t :: d.tokens, none⟩) : ∃ s', yield s.recital = .ok (some d, s') := by
  let s₁ := s.moveTo ⟨d.tokens, none⟩
  obtain ⟨s', read⟩ := declaration_tokens wf (s := s₁.moveTo ⟨d.tokens.tail, none⟩) rfl
  have found : yield (s.seekNext (· == .hereinafter)) = .ok (some .hereinafter, s₁) := by
    rw [yield_seekNext, nextKind?_cons hs]
    dsimp only
    rw [if_neg nofun, if_neg nofun, moved_closed hs]
    exact seekNext_here (s := s₁) rfl rfl
  refine ⟨s', ?_⟩
  rw [yield_recital, found, ok_bind]
  dsimp only
  rw [moved_closed (s := s₁) rfl, ok_bind]
  show (yield (s₁.moveTo ⟨d.tokens.tail, none⟩).declaration >>= _) = _
  rw [read]
  rfl

end State

/-! ## Resolutions -/

theorem Declaration.stays_tokens {d : Declaration} {t : Token} (h : t ∈ d.tokens) :
    t.kind.opensClause = false := by
  simp only [tokens, List.mem_cons] at h
  rcases h with rfl | rfl | rfl | rfl | h
  · rfl
  · rfl
  · rfl
  · rfl
  · exact Expr.stays_tokens h

theorem Statement.stays_tokens {a : Statement} (wf : a.WellFormed) {t : Token} (h : t ∈ a.tokens) :
    t.kind.opensClause = false := by
  induction a with
  | declare _ => exact wf.elim
  | assume x e =>
    simp only [tokens, List.mem_cons] at h
    rcases h with rfl | rfl | h
    · rfl
    · rfl
    · exact Expr.stays_tokens h
  | publish e =>
    rcases List.mem_cons.1 h with rfl | h
    · rfl
    · exact Expr.stays_tokens h
  | conditional l r relation c ih =>
    simp only [tokens, List.mem_cons, List.mem_append] at h
    rcases h with rfl | h | rfl | h | rfl | h
    · rfl
    · exact Expr.stays_tokens h
    · rfl
    · exact Expr.stays_tokens h
    · rfl
    · exact ih wf.2.2 h

namespace Clause

open State

theorem isRecital_ofRecital (d : Option Declaration) : (ofRecital d).isRecital = true := rfl

theorem not_isRecital_ofAction (a : Option Statement) : ¬(ofAction a).isRecital = true := nofun

theorem recital_ofRecital {d : Option Declaration} (wf : ∀ x, d = some x → x.WellFormed) :
    (ofRecital d).recital = .ok d := by
  rw [recital_eq]
  cases d with
  | none =>
    rw [yield_recital, yield_seekNext]
    rfl
  | some d =>
    obtain ⟨s', read⟩ := recital_tokens (wf d rfl) (s := (ofRecital (some d)).alone) rfl
    rw [read]
    rfl

theorem action_ofAction {a : Option Statement} (wf : ∀ x, a = some x → x.WellFormed) :
    (ofAction a).action = .ok a := by
  rw [action_eq]
  cases a with
  | none =>
    rw [yield_action]
    rfl
  | some a =>
    obtain ⟨s', read⟩ := action_tokens (wf a rfl) _ (ofAction (some a)).alone rfl
    rw [read]
    rfl

theorem wellFormed_ofRecital (d : Option Declaration) : (ofRecital d).WellFormed := by
  refine ⟨rfl, fun t ht => ?_⟩
  cases d with
  | none => cases ht
  | some d => exact Declaration.stays_tokens ht

theorem wellFormed_ofAction {a : Option Statement} (wf : ∀ x, a = some x → x.WellFormed) :
    (ofAction a).WellFormed := by
  refine ⟨rfl, fun t ht => ?_⟩
  cases a with
  | none => cases ht
  | some a =>
    rcases List.mem_cons.1 ht with rfl | ht
    · rfl
    · exact Statement.stays_tokens (wf a rfl) ht

end Clause

/-! ## The whole text -/

theorem cut_append {segment : List Token} (stays : ∀ t ∈ segment, t.kind.opensClause = false)
    (ts : List Token) : cut (segment ++ ts) = (segment ++ (cut ts).1, (cut ts).2) := by
  induction segment with
  | nil => rfl
  | cons t segment ih =>
    have ht := stays t List.mem_cons_self
    rw [List.cons_append, cut_of_stays (by rw [ht]; exact nofun),
      ih fun x hx => stays x (List.mem_cons_of_mem t hx)]
    rfl

/-- Clauses that were put together are cut apart again. -/
theorem cut_flatMap {cs : List Clause} (wf : ∀ c ∈ cs, c.WellFormed) :
    cut (cs.flatMap Clause.tokens) = ([], cs) := by
  induction cs with
  | nil => rfl
  | cons c cs ih =>
    have wfc := wf c List.mem_cons_self
    rw [List.flatMap_cons, Clause.tokens, List.cons_append, cut_of_opens wfc.opens,
      cut_append wfc.stays, ih fun x hx => wf x (List.mem_cons_of_mem c hx), List.append_nil]

namespace Clause

theorem firstOffence_map_ofRecital {ds : List (Option Declaration)}
    (wf : ∀ d ∈ ds, ∀ x, d = some x → x.WellFormed) {before : List Clause}
    (late : before.all isRecital = true) (after : List Clause) :
    firstOffence before (ds.map ofRecital ++ after) =
      firstOffence (before ++ ds.map ofRecital) after := by
  induction ds generalizing before with
  | nil => rw [List.map_nil, List.nil_append, List.append_nil]
  | cons d ds ih =>
    have read := recital_ofRecital (wf d List.mem_cons_self)
    have late' : (before ++ [ofRecital d]).all isRecital = true := by
      rw [List.all_append, late]
      rfl
    rw [List.map_cons, List.cons_append, firstOffence, offence?,
      if_pos (isRecital_ofRecital d), if_pos late, read,
      List.append_cons before (ofRecital d) (ds.map ofRecital)]
    exact ih (fun x hx => wf x (List.mem_cons_of_mem d hx)) late'

theorem firstOffence_map_ofAction {as : List (Option Statement)}
    (wf : ∀ a ∈ as, ∀ x, a = some x → x.WellFormed) {before : List Clause}
    (early : before.any isRecital = true) : firstOffence before (as.map ofAction) = none := by
  induction as generalizing before with
  | nil => rfl
  | cons a as ih =>
    have read := action_ofAction (wf a List.mem_cons_self)
    have early' : (before ++ [ofAction a]).any isRecital = true := by
      rw [List.any_append, early]
      rfl
    rw [List.map_cons, firstOffence, offence?,
      if_neg (not_isRecital_ofAction a), if_pos early, read]
    exact ih (fun b hb => wf b (List.mem_cons_of_mem a hb)) early'

theorem recitals_append (cs cs' : List Clause) : recitals (cs ++ cs') = recitals cs ++ recitals cs' :=
  List.flatMap_append

theorem actions_append (cs cs' : List Clause) : actions (cs ++ cs') = actions cs ++ actions cs' :=
  List.flatMap_append

theorem recitals_map_ofRecital {ds : List (Option Declaration)}
    (wf : ∀ d ∈ ds, ∀ x, d = some x → x.WellFormed) :
    recitals (ds.map ofRecital) = ds.flatMap Option.toList := by
  induction ds with
  | nil => rfl
  | cons d ds ih =>
    have first : recitals [ofRecital d] = d.toList := by
      simp [recitals, isRecital_ofRecital, recital_ofRecital (wf d List.mem_cons_self),
        Except.toOption]
    rw [List.map_cons, ← List.singleton_append, recitals_append, first,
      ih fun x hx => wf x (List.mem_cons_of_mem d hx), List.flatMap_cons]

theorem actions_map_ofAction {as : List (Option Statement)}
    (wf : ∀ a ∈ as, ∀ x, a = some x → x.WellFormed) :
    actions (as.map ofAction) = as.flatMap Option.toList := by
  induction as with
  | nil => rfl
  | cons a as ih =>
    have first : actions [ofAction a] = a.toList := by
      simp [actions, not_isRecital_ofAction, action_ofAction (wf a List.mem_cons_self),
        Except.toOption]
    rw [List.map_cons, ← List.singleton_append, actions_append, first,
      ih fun x hx => wf x (List.mem_cons_of_mem a hx), List.flatMap_cons]

theorem recitals_map_ofAction (as : List (Option Statement)) : recitals (as.map ofAction) = [] := by
  rw [recitals, List.flatMap_map]
  exact List.flatMap_eq_nil_iff.2 fun _ _ => rfl

theorem actions_map_ofRecital (ds : List (Option Declaration)) :
    actions (ds.map ofRecital) = [] := by
  rw [actions, List.flatMap_map]
  exact List.flatMap_eq_nil_iff.2 fun _ _ => rfl

end Clause

namespace Resolution

theorem WellFormed.of_mem_recitals {r : Resolution} (wf : r.WellFormed) :
    ∀ d ∈ parts r.recitals, ∀ x, d = some x → x.WellFormed :=
  fun _ hd x e => wf.recitals x (mem_of_mem_parts (e ▸ hd))

theorem WellFormed.of_mem_actions {r : Resolution} (wf : r.WellFormed) :
    ∀ a ∈ parts r.actions, ∀ x, a = some x → x.WellFormed :=
  fun _ ha x e => wf.actions x (mem_of_mem_parts (e ▸ ha))

theorem wellFormed_clauses {r : Resolution} (wf : r.WellFormed) :
    ∀ c ∈ r.clauses, c.WellFormed := by
  intro c hc
  rcases List.mem_append.1 hc with hc | hc
  · obtain ⟨d, -, rfl⟩ := List.mem_map.1 hc
    exact Clause.wellFormed_ofRecital d
  · obtain ⟨a, ha, rfl⟩ := List.mem_map.1 hc
    exact Clause.wellFormed_ofAction (wf.of_mem_actions a ha)

theorem resolution_tokens {r : Resolution} (wf : r.WellFormed) :
    Clause.resolution r.tokens = .ok r := by
  have pieces : (cut r.tokens).2 = r.clauses := by
    have title : ¬(Kind.opensClause .filler) = true := nofun
    rw [tokens, cut_of_stays title, cut_flatMap (wellFormed_clauses wf)]
  have early : ((parts r.recitals).map Clause.ofRecital).any Clause.isRecital = true := by
    obtain ⟨d, ds, e⟩ := List.exists_cons_of_ne_nil (parts_ne_nil r.recitals)
    rw [e]
    rfl
  have closed : ¬r.clauses.all Clause.isRecital = true := by
    obtain ⟨a, as, e⟩ := List.exists_cons_of_ne_nil (parts_ne_nil r.actions)
    rw [clauses, e, List.all_append, List.map_cons, List.all_cons]
    show ¬(_ && (false && _)) = true
    rw [Bool.false_and, Bool.and_false]
    exact nofun
  have sound : Clause.firstOffence [] r.clauses = none := by
    rw [clauses, Clause.firstOffence_map_ofRecital wf.of_mem_recitals rfl]
    exact Clause.firstOffence_map_ofAction wf.of_mem_actions early
  unfold Clause.resolution
  dsimp only
  rw [if_pos (.inl rfl), pieces, sound]
  dsimp only
  rw [if_neg closed, clauses, Clause.recitals_append, Clause.actions_append,
    Clause.recitals_map_ofRecital wf.of_mem_recitals, Clause.recitals_map_ofAction,
    Clause.actions_map_ofRecital, Clause.actions_map_ofAction wf.of_mem_actions, flatMap_parts,
    flatMap_parts, List.append_nil, List.nil_append]

theorem tokenize_write {r : Resolution} (wf : r.WellFormed) : tokenize r.write = .ok r.tokens :=
  (spells_write wf).tokenize

/-- The written form of a well-formed resolution is read back. -/
theorem heldBy_write {r : Resolution} (wf : r.WellFormed) : r.HeldBy r.write := by
  have run := Reading.ofString_matches (tokenize_write wf)
  rw [resolution_tokens wf] at run
  exact heldBy_iff.2 run.ok_right

/-- The resolutions that texts hold are the well-formed ones, and each of them is held by its
written form. -/
theorem exists_heldBy_iff {r : Resolution} :
    ((∃ source, r.HeldBy source) ↔ r.WellFormed) ∧ (r.WellFormed ↔ r.HeldBy r.write) :=
  ⟨⟨fun ⟨_, held⟩ => held.wellFormed, fun wf => ⟨r.write, heldBy_write wf⟩⟩,
    ⟨heldBy_write, HeldBy.wellFormed⟩⟩

end Resolution
end Legalese
