import Legalese.Reading.Resolution

/-!
# What the readers yield

Every reader returns, beside what it has read, the proof that it did not move back.  The
recursion needs that proof and no statement about the readers does.  `yield` drops it,
and this module gives one equation for each reader in terms of what the readers under it
yield.  Later proofs use these equations and never open a reader again.
-/

namespace Legalese

/-- Two steps of a computation, seen through maps that forget something.  The second
step may use only what is left of the first result. -/
theorem map_bind_eq {ε α β γ δ : Type} {x : Except ε α} {f : α → Except ε β}
    {p : α → γ} {q : β → δ} {g : γ → Except ε δ} (h : ∀ a, (f a).map q = g (p a)) :
    (x >>= f).map q = x.map p >>= g := by
  cases x with
  | error e => rfl
  | ok a => exact h a

theorem map_bind_pure {ε α β γ : Type} {x : Except ε α} {f : α → Except ε β}
    {p : α → γ} {q : β → γ} (h : ∀ a, (f a).map q = .ok (p a)) :
    (x >>= f).map q = x.map p := by
  cases x with
  | error e => rfl
  | ok a => exact h a

theorem bind_eq_ok {ε α β : Type} {x : Except ε α} {f : α → Except ε β} {b : β} :
    x >>= f = .ok b ↔ ∃ a, x = .ok a ∧ f a = .ok b := by
  cases x <;> simp [bind, Except.bind]

theorem ok_bind {ε α β : Type} (a : α) (f : α → Except ε β) : Except.ok a >>= f = f a := rfl

theorem bind_eq_error {ε α β : Type} {x : Except ε α} {f : α → Except ε β} {e : ε} :
    x >>= f = .error e ↔ x = .error e ∨ ∃ a, x = .ok a ∧ f a = .error e := by
  cases x <;> simp [bind, Except.bind]

/-- For a case split that must not touch the right side. -/
theorem eq_of_forall_eq {α : Type} {a b : α} (h : ∀ x, b = x → a = x) : a = b := h b rfl

/-! ## Cardinals -/

namespace Cursor

/-- The place one token further on. -/
def moved (c : Cursor) : Except Error Cursor := c.step.map (·.1)

theorem moved_eq (c : Cursor) :
    c.moved = (Cursor.view c.tokens.tail c.unclosed).mapError .unclosedText := by
  unfold moved step
  split
  · next c' h => rw [advance] at h; rw [h]; rfl
  · next literal h => rw [advance] at h; rw [h]; rfl

end Cursor

namespace Cardinal

/-- What a reader of number words yields, without the proof that it did not move
back. -/
def yield {c : Cursor} {α : Type} (x : Except Error (After c α)) :
    Except Error (α × Cursor) :=
  x.map fun a => (a.value, a.cursor)

theorem yield_belowHundred (c : Cursor) :
    yield (belowHundred c) =
      match c.kind? with
      | some (.cardinal (.ones n)) => .ok (n, c)
      | some (.cardinal (.teens n)) => .ok (n, c)
      | some (.cardinal (.tens n)) =>
        match c.nextKind? with
        | some .dash => do
          let c₁ ← c.moved
          match c₁.nextKind? with
          | some (.cardinal (.ones d)) =>
            let c₂ ← c₁.moved
            return (n + d, c₂)
          | _ => throw (.cardinal (.tensWithoutDigit c.literal))
        | _ => .ok (n, c)
      | _ => .error (unexpected c) := by
  refine eq_of_forall_eq fun x right => ?_
  unfold belowHundred
  split
  · next n h =>
    rw [← right, h]
    rfl
  · next n h =>
    rw [← right, h]
    rfl
  · next n h =>
    rw [h] at right
    dsimp only at right
    split
    · next h' =>
      rw [← right, h']
      refine map_bind_eq fun ⟨c₁, _⟩ => eq_of_forall_eq fun x right => ?_
      dsimp only at right ⊢
      split
      · next d h₁ =>
        rw [← right, h₁]
        exact map_bind_eq fun _ => rfl
      · next h₁ =>
        simp_all only
        exact right
    · next h' =>
      simp_all only
      exact right
  · next h₁ h₂ h₃ =>
    simp_all only
    exact right

theorem yield_belowThousand (c : Cursor) :
    yield (belowThousand c) =
      match c.kind? with
      | some (.cardinal (.ones n)) =>
        match c.nextKind? with
        | some (.cardinal .hundred) => do
          let c₁ ← c.moved
          if (c₁.nextKind?.map Kind.startsBelowHundred).getD false then
            let c₂ ← c₁.moved
            let (m, c₃) ← yield (belowHundred c₂)
            return (100 * n + m, c₃)
          else
            return (100 * n, c₁)
        | _ => .ok (n, c)
      | _ => yield (belowHundred c) := by
  refine eq_of_forall_eq fun x right => ?_
  unfold belowThousand
  split
  · next n h =>
    rw [h] at right
    dsimp only at right
    split
    · next h' =>
      rw [← right, h']
      refine map_bind_eq fun ⟨c₁, _⟩ => ?_
      dsimp only
      split
      · exact map_bind_eq fun _ => map_bind_eq fun _ => rfl
      · rfl
    · next h' =>
      simp_all only
      exact right
  · next h =>
    simp_all only

theorem yield_magnitude (c : Cursor) :
    yield (magnitude c) =
      match c.nextKind? with
      | some (.cardinal (.magnitude m)) => do
        let c₁ ← c.moved
        return (m, c₁)
      | _ => .ok (1, c) := by
  refine eq_of_forall_eq fun x right => ?_
  unfold magnitude
  split
  · next m h =>
    rw [← right, h]
    exact map_bind_eq fun _ => rfl
  · next h =>
    simp_all only
    exact right

theorem yield_groups (sign total : Int) (last : Option Nat) (c : Cursor) :
    yield (groups sign total last c) = (do
      let (group, c₁) ← yield (belowThousand c)
      let (m, c₂) ← yield (magnitude c₁)
      let total ← addGroup sign total last group m
      if m = 1 ∨ (c₂.nextKind?.map Kind.startsBelowHundred).getD false = false then
        return (total, c₂)
      else
        let c₃ ← c₂.moved
        yield (groups sign total (some m) c₃)) := by
  rw [groups]
  refine map_bind_eq fun ⟨group, c₁, _⟩ => map_bind_eq fun ⟨m, c₂, _⟩ => ?_
  dsimp only
  cases addGroup sign total last group m with
  | error e => rfl
  | ok total =>
    show Except.map _ _ = ite _ _ _
    simp only [bind, Except.bind]
    split
    · next h => rw [h]; simp [pure, Except.pure, Except.map]
    · next k h =>
      rw [h]
      by_cases hk : m = 1 ∨ (!k.startsBelowHundred) = true
      · rw [if_pos hk, if_pos (by simpa using hk)]
        rfl
      · rw [if_neg hk, if_neg (by simpa using hk)]
        exact map_bind_eq fun _ => map_bind_pure fun _ => rfl

theorem yield_read (c : Cursor) :
    yield (read c) =
      match c.kind? with
      | some (.cardinal .zero) => .ok (0, c)
      | some (.cardinal .negative) => do
        let c₁ ← c.moved
        yield (groups (-1) 0 none c₁)
      | _ => yield (groups 1 0 none c) := by
  refine eq_of_forall_eq fun x right => ?_
  unfold read
  split
  · next h =>
    rw [← right, h]
    rfl
  · next h =>
    rw [← right, h]
    exact map_bind_eq fun _ => map_bind_pure fun _ => rfl
  · next h₁ h₂ => simp_all only

end Cardinal

/-! ## Searches and literals -/

namespace State

/-- What a reader yields, without the proof that it did not move back. -/
def yield {s : State} {α : Type} (x : Except Failure (s.After α)) :
    Except Failure (α × State) :=
  x.map fun a => (a.value, a.state)

/-- The state one token further on. -/
def moved (s : State) : Except Failure State := s.step.map (·.1)

theorem moved_eq (s : State) :
    s.moved =
      match s.cursor.moved with
      | .ok c => .ok (s.moveTo c)
      | .error e => s.fail e := by
  unfold moved step Cursor.moved
  cases s.cursor.step <;> rfl

theorem yield_seek (wanted : Kind → Bool) (s : State) :
    yield (s.seek wanted) =
      match s.kind? with
      | none => s.fail (.unrecognizedExpression s.literal)
      | some k =>
        if wanted k then .ok ((), s)
        else if k.opensClause then s.fail (.unrecognizedExpression s.literal)
        else (do
          let s₁ ← s.moved
          yield (s₁.seek wanted)) := by
  rw [seek]
  split
  · next h => rw [h]; rfl
  · next k h =>
    simp only [h]
    split
    · rfl
    · split
      · rfl
      · exact map_bind_eq fun _ => map_bind_pure fun _ => rfl

theorem yield_seekNext (wanted : Kind → Bool) (s : State) :
    yield (s.seekNext wanted) =
      match s.nextKind? with
      | none => .ok (none, s)
      | some k =>
        if wanted k then .ok (some k, s)
        else if k.opensClause then .ok (none, s)
        else (do
          let s₁ ← s.moved
          yield (s₁.seekNext wanted)) := by
  rw [seekNext]
  split
  · next h => rw [h]; rfl
  · next k h =>
    simp only [h]
    split
    · rfl
    · split
      · rfl
      · exact map_bind_eq fun _ => map_bind_pure fun _ => rfl

theorem yield_numeralOf (cardinal : Int) (s : State) :
    yield (s.numeralOf cardinal) =
      if s.nextKind? = some .openParen then do
        let s₁ ← s.moved
        if s₁.nextKind? = some .numeral ∨ s₁.nextKind? = some .dash then
          let s₂ ← s₁.moved
          match Numeral.read? s₂.literal with
          | none => s.fail (.numeral s₂.literal)
          | some numeral =>
            if s₂.nextKind? = some .closeParen then
              let s₃ ← s₂.moved
              if cardinal = numeral then return (.integer cardinal, s₃)
              else s.fail (.disagreement cardinal numeral)
            else s.fail (.integer .notClosed)
        else s.fail (.integer .notNumeral)
      else s.fail (.integer .notParenthesized) := by
  unfold numeralOf
  by_cases h : s.nextKind? = some .openParen
  · rw [if_pos h, if_pos h]
    refine map_bind_eq fun ⟨s₁, _⟩ => ?_
    by_cases h₁ : s₁.nextKind? = some .numeral ∨ s₁.nextKind? = some .dash
    · simp only [if_pos h₁]
      refine map_bind_eq fun ⟨s₂, _⟩ => eq_of_forall_eq fun x right => ?_
      dsimp only at right ⊢
      split
      · next h₂ =>
        rw [← right, h₂]
        rfl
      · next numeral h₂ =>
        rw [← right, h₂]
        dsimp only
        by_cases h₃ : s₂.nextKind? = some .closeParen
        · simp only [if_pos h₃]
          refine map_bind_eq fun ⟨s₃, _⟩ => ?_
          by_cases h₄ : cardinal = numeral
          · simp only [if_pos h₄]; rfl
          · simp only [if_neg h₄]; rfl
        · simp only [if_neg h₃]; rfl
    · simp only [if_neg h₁]; rfl
  · rw [if_neg h, if_neg h]; rfl

theorem yield_integerLiteral (s : State) :
    yield s.integerLiteral =
      match Cardinal.yield (Cardinal.read s.cursor) with
      | .error e => s.fail e
      | .ok (cardinal, c) => yield ((s.moveTo c).numeralOf cardinal) := by
  unfold integerLiteral
  split
  · next e h => rw [h]; rfl
  · next cardinal c _ h =>
    rw [h]
    exact map_bind_pure fun _ => rfl

/-! ## Expressions -/

theorem yield_expression (floor : Tier) (s : State) :
    yield (s.expression floor) = (do
      let (e, s₁) ← yield s.operand
      yield (s₁.suffixes floor e)) := by
  rw [expression]
  exact map_bind_eq fun _ => map_bind_pure fun _ => rfl

theorem yield_suffixes (floor : Tier) (e : Expr) (s : State) :
    yield (s.suffixes floor e) =
      match s.nextKind? with
      | some .less =>
        if floor.rank < Tier.difference.rank then do
          let s₁ ← s.moved
          let s₂ ← s₁.moved
          let (right, s₃) ← yield (s₂.expression .difference)
          yield (s₃.suffixes floor (.less e right))
        else .ok (e, s)
      | some (.exponent op) =>
        if floor.rank < Tier.power.rank then do
          let s₁ ← s.moved
          yield (s₁.suffixes floor (.power op e))
        else .ok (e, s)
      | _ => .ok (e, s) := by
  rw [suffixes]
  split
  · next h => rw [h]; rfl
  · next k h =>
    simp only [h]
    cases k with
    | less =>
      dsimp only
      split
      · refine map_bind_eq fun _ => map_bind_eq fun _ => map_bind_eq fun _ => ?_
        exact map_bind_pure fun _ => rfl
      · rfl
    | exponent op =>
      dsimp only
      split
      · exact map_bind_eq fun _ => map_bind_pure fun _ => rfl
      · rfl
    | _ => rfl

theorem yield_operand (s : State) :
    yield s.operand = (do
      let (_, s₁) ← yield (s.seek Kind.startsExpression)
      match s₁.kind? with
      | some (.cardinal _) => yield s₁.integerLiteral
      | some .numeral => s₁.fail (.cardinal (.strayNumeral s₁.literal))
      | some .text => .ok (.text s₁.literal, s₁)
      | some .name => .ok (.name s₁.literal, s₁.use s₁.literal)
      | some (.unary op) =>
        let s₂ ← s₁.moved
        let (e, s₃) ← yield (s₂.expression .operation)
        return (.unary op e, s₃)
      | some (.binary op) =>
        let s₂ ← s₁.moved
        let (a, s₃) ← yield (s₂.expression .lowest)
        let s₄ ← s₃.moved
        let (b, s₅) ← yield (s₄.expression .operation)
        return (.binary op a b, s₅)
      | _ => s₁.fail (.unrecognizedExpression s₁.literal)) := by
  rw [operand]
  refine map_bind_eq fun ⟨_, s₁, _⟩ => ?_
  dsimp only
  split
  · next h => simp only [h]; rfl
  · next k h =>
    simp only [h]
    cases k with
    | cardinal w => exact map_bind_pure fun _ => rfl
    | unary op => exact map_bind_eq fun _ => map_bind_eq fun _ => rfl
    | binary op =>
      refine map_bind_eq fun _ => map_bind_eq fun _ => ?_
      exact map_bind_eq fun _ => map_bind_eq fun _ => rfl
    | _ => rfl

/-! ## Clauses -/

theorem yield_declaration (s : State) :
    yield s.declaration = (do
      let s₁ ← s.moved
      let (_, s₂) ← yield (s₁.seek (· == .name))
      let s₃ ← s₂.moved
      let (value, s₄) ← yield (s₃.expression .lowest)
      return (⟨s₂.literal, value⟩, s₄.declare s₂.literal)) := by
  unfold declaration
  refine map_bind_eq fun _ => map_bind_eq fun _ => ?_
  exact map_bind_eq fun _ => map_bind_eq fun _ => rfl

theorem yield_recital (s : State) :
    yield s.recital = (do
      let (found, s₁) ← yield (s.seekNext (· == .hereinafter))
      match found with
      | none => return (none, s₁)
      | some _ =>
        let s₂ ← s₁.moved
        let (d, s₃) ← yield s₂.declaration
        return (some d, s₃)) := by
  unfold recital
  refine map_bind_eq fun ⟨found, s₁, _⟩ => ?_
  cases found with
  | none => rfl
  | some k => exact map_bind_eq fun _ => map_bind_eq fun _ => rfl

theorem yield_assumption (s : State) :
    yield s.assumption = (do
      let s₁ ← (s.use s.literal).moved
      let s₂ ← s₁.moved
      let (value, s₃) ← yield (s₂.expression .lowest)
      return (.assume s.literal value, s₃)) := by
  unfold assumption
  exact map_bind_eq fun _ => map_bind_eq fun _ => map_bind_eq fun _ => rfl

theorem yield_publication (s : State) :
    yield s.publication = (do
      let s₁ ← s.moved
      let (value, s₂) ← yield (s₁.expression .lowest)
      return (.publish value, s₂)) := by
  unfold publication
  exact map_bind_eq fun _ => map_bind_eq fun _ => rfl

theorem yield_action (s : State) :
    yield s.action =
      if s.kind? = some .name ∧ s.nextKind? = some .assume then do
        let (a, s₁) ← yield s.assumption
        return (some a, s₁)
      else
        match s.nextKind? with
        | none => .ok (none, s)
        | some k =>
          if k.opensClause then .ok (none, s)
          else (do
            let s₁ ← s.moved
            if k = .publish then
              let (a, s₂) ← yield s₁.publication
              return (some a, s₂)
            else if k = .conditional then yield s₁.conditional
            else yield s₁.action) := by
  rw [action]
  by_cases h : s.kind? = some .name ∧ s.nextKind? = some .assume
  · rw [if_pos h, if_pos h]
    exact map_bind_eq fun _ => rfl
  · rw [if_neg h, if_neg h]
    split
    · next hk => rw [hk]; rfl
    · next k hk =>
      simp only [hk]
      split
      · rfl
      · refine map_bind_eq fun _ => ?_
        split
        · exact map_bind_eq fun _ => rfl
        · split
          · exact map_bind_pure fun _ => rfl
          · exact map_bind_pure fun _ => rfl

theorem yield_conditional (s : State) :
    yield s.conditional = (do
      let s₁ ← s.moved
      let (left, s₂) ← yield (s₁.expression .lowest)
      let (found, s₃) ← yield (s₂.seekNext fun k => k matches .relation _)
      match found with
      | some (.relation relation) =>
        let s₄ ← s₃.moved
        let s₅ ← s₄.moved
        let (right, s₆) ← yield (s₅.expression .lowest)
        let (consequence, s₇) ← yield s₆.action
        match consequence with
        | some a => return (some (.conditional left right relation a), s₇)
        | none => return (none, s₇.forget s)
      | _ => return (none, s₃.forget s)) := by
  rw [conditional]
  refine map_bind_eq fun _ => map_bind_eq fun _ => map_bind_eq fun a => ?_
  obtain ⟨found, s₃, le⟩ := a
  cases found with
  | none => rfl
  | some k =>
    cases k with
    | relation r =>
      refine map_bind_eq fun _ => map_bind_eq fun _ => map_bind_eq fun _ => ?_
      refine map_bind_eq fun b => ?_
      obtain ⟨consequence, s₇, le⟩ := b
      cases consequence with
      | none => rfl
      | some a => rfl
    | _ => rfl

theorem earlyAction_eq (s : State) :
    s.earlyAction =
      match s.kind? with
      | none => ⟨.noWhereas, s.log⟩
      | some k =>
        if k = .whereas then ⟨.earlyResolved, s.log⟩
        else
          match s.moved with
          | .error f => f
          | .ok s₁ => s₁.earlyAction := by
  rw [earlyAction]
  split
  · next h => rw [h]
  · next k h =>
    simp only [h]
    unfold moved
    cases s.step <;> rfl

theorem yield_clauses (d : Draft) (s : State) :
    yield (s.clauses d) =
      match s.kind? with
      | none => .ok (d, s)
      | some k =>
        if k = .whereas then
          if d.phase = .actions then s.fail .lateWhereas
          else do
            let (recital, s₁) ← yield s.recital
            let s₂ ← s₁.moved
            yield (s₂.clauses
              { d with phase := .recitals, recitals := d.recitals ++ recital.toList })
        else if k = .resolved then
          if d.phase = .title then .error s.earlyAction
          else do
            let (action, s₁) ← yield s.action
            let s₂ ← s₁.moved
            yield (s₂.clauses
              { d with phase := .actions, actions := d.actions ++ action.toList })
        else (do
          let s₁ ← s.moved
          yield (s₁.clauses d)) := by
  rw [clauses]
  split
  · next h => rw [h]; rfl
  · next k h =>
    simp only [h]
    split
    · split
      · rfl
      · exact map_bind_eq fun _ => map_bind_eq fun _ => map_bind_pure fun _ => rfl
    · split
      · split
        · rfl
        · exact map_bind_eq fun _ => map_bind_eq fun _ => map_bind_pure fun _ => rfl
      · exact map_bind_eq fun _ => map_bind_pure fun _ => rfl

theorem resolution_eq (s : State) :
    s.resolution =
      if s.kind? = some .filler ∨ s.kind? = some .name then do
        let (d, s₁) ← yield (s.clauses .blank)
        if d.phase = .actions then
          return (⟨d.recitals, d.actions⟩, s₁.close ⟨d.recitals, d.actions⟩)
        else s₁.fail .noResolved
      else s.fail .noTitle := by
  unfold resolution
  by_cases h : s.kind? = some .filler ∨ s.kind? = some .name
  · rw [if_pos h, if_pos h]
    show (s.clauses .blank >>= _) = (s.clauses .blank).map _ >>= _
    cases s.clauses .blank with
    | error f => rfl
    | ok a =>
      simp only [Except.map, bind, Except.bind]
      by_cases ha : a.value.phase = .actions
      · rw [if_pos ha, if_pos ha]
      · rw [if_neg ha, if_neg ha]; rfl
  · rw [if_neg h, if_neg h]
    rfl

end State
end Legalese
