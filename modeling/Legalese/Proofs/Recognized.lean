import Legalese.Proofs.Written.Reading

/-!
# The readers read all that the grammar allows

A reader that succeeds has read a phrase of the grammar.  Here is the other direction: where
the tokens form a phrase, the reader succeeds, with the tree of the phrase, on its last
token.  So the tiers of the reader and the layers of the grammar come to the same, and the
two tiers between the loosest and the tightest make no difference.
-/

namespace Legalese

open Grammar

namespace State

/-! ## Literals and the words after operands -/

theorem suffixes_of_less {t x : Token} (kind : x.kind = .less) (ts : List Token) (l : Expr)
    (s : State) :
    yield ((s.moveTo ⟨t :: x :: ts, none⟩).suffixes .lowest l) =
      (yield ((s.moveTo ⟨ts, none⟩).expression .difference) >>= fun a =>
        yield (a.2.suffixes .lowest (.less l a.1))) := by
  rw [yield_suffixes, nextKind?_cons rfl, kind]
  dsimp only
  rw [if_pos (by decide), moved_closed rfl, ok_bind, moved_closed rfl, ok_bind]
  rfl

theorem integerLiteral_of_isInteger {ts ts' : List Token} {v : Int} (h : IsInteger none ts v ts')
    (s : State) :
    yield (s.moveTo ⟨ts, none⟩).integerLiteral = .ok (.integer v, s.moveTo ⟨ts', none⟩) := by
  cases h with
  | @intro _ rest w l n r cardinal opened numeral agrees closed =>
    rw [yield_integerLiteral, show (s.moveTo ⟨ts, none⟩).cursor = ⟨ts, none⟩ from rfl, cardinal]
    dsimp only
    have opened' : some l.kind = some .openParen := congrArg some opened
    have numeral' : some n.kind = some .numeral ∨ some n.kind = some .dash :=
      numeral.imp (congrArg some) (congrArg some)
    have closed' : some r.kind = some .closeParen := congrArg some closed
    rw [yield_numeralOf, nextKind?_cons rfl, if_pos opened', moved_closed rfl, ok_bind,
      nextKind?_cons rfl, if_pos numeral', moved_closed rfl, ok_bind,
      show State.literal _ = n.literal from rfl, agrees]
    dsimp only
    rw [nextKind?_cons rfl, if_pos closed', moved_closed rfl, ok_bind, if_pos rfl]
    rfl

theorem operand_of_isLeaf {ts ts' : List Token} {e : Expr} (h : IsLeaf none ts e ts') (s : State) :
    yield (s.moveTo ⟨ts, none⟩).operand = .ok (e, (s.useAll e.names).moveTo ⟨ts', none⟩) := by
  cases h with
  | @integer t ts _ v w kind h =>
    have here : (s.moveTo ⟨t :: ts, none⟩).kind? = some (.cardinal w) := congrArg some kind
    rw [yield_operand, seek_here here rfl, ok_bind]
    dsimp only
    rw [here]
    exact integerLiteral_of_isInteger h s
  | @text t ts kind =>
    have here : (s.moveTo ⟨t :: ts, none⟩).kind? = some .text := congrArg some kind
    rw [yield_operand, seek_here here rfl, ok_bind]
    dsimp only
    rw [here]
    rfl
  | @name t ts kind =>
    have here : (s.moveTo ⟨t :: ts, none⟩).kind? = some .name := congrArg some kind
    rw [yield_operand, seek_here here rfl, ok_bind]
    dsimp only
    rw [here]
    dsimp only
    rw [use_moveTo]
    rfl

theorem suffixes_of_powers {floor : Tier} (low : floor.rank < Tier.power.rank) {ts ts' : List Token}
    {e e' : Expr} (h : Powers e ts e' ts') (s : State) :
    yield ((s.moveTo ⟨ts, none⟩).suffixes floor e) =
      yield ((s.moveTo ⟨ts', none⟩).suffixes floor e') := by
  induction h with
  | done _ => rfl
  | more kind _ ih =>
    rw [yield_suffixes, nextKind?_cons rfl, kind]
    dsimp only
    rw [if_pos low, moved_closed rfl, ok_bind]
    exact ih

end State

theorem Grammar.Powers.names_eq {ts ts' : List Token} {e e' : Expr} (h : Powers e ts e' ts') :
    e'.names = e.names := by
  induction h with
  | done _ => rfl
  | more _ _ ih => exact ih

/-! ## Phrases -/

/-- What the readers do at the tokens of a phrase.  A reader of operations goes on with the
words after it, and a reader of expressions is at its end. -/
def Grammar.Phrase.ReadOff (ts : List Token) (e : Expr) (ts' : List Token) : Phrase → Prop
  | operation => ∀ (s : State) (floor : Tier), floor.rank < Tier.power.rank →
      State.yield ((s.moveTo ⟨ts, none⟩).expression floor) =
        State.yield (((s.useAll e.names).moveTo ⟨ts', none⟩).suffixes floor e)
  | expression => ∀ s : State,
      State.yield ((s.moveTo ⟨ts, none⟩).expression .lowest) =
        .ok (e, (s.useAll e.names).moveTo ⟨ts', none⟩)
  | differences left => NoPower ts → ∃ xs, e.names = left.names ++ xs ∧ ∀ s : State,
      State.yield ((s.moveTo ⟨ts, none⟩).suffixes .lowest left) =
        .ok (e, (s.useAll xs).moveTo ⟨ts', none⟩)

namespace State

/-- Nothing more is read after an operation at a tier where differences are left alone. -/
theorem expression_of_readOff {floor : Tier} (tier : floor = .difference ∨ floor = .operation)
    {ts ts' : List Token} {e : Expr} (h : Phrase.ReadOff ts e ts' .operation) (stop : NoPower ts')
    (s : State) :
    yield ((s.moveTo ⟨ts, none⟩).expression floor) =
      .ok (e, (s.useAll e.names).moveTo ⟨ts', none⟩) := by
  have low : floor.rank < Tier.power.rank := by
    rcases tier with rfl | rfl
    · decide
    · decide
  have high : ¬floor.rank < Tier.difference.rank := by
    rcases tier with rfl | rfl
    · decide
    · decide
  rw [h s floor low]
  exact suffixes_done stop fun h => absurd h high

/-- By induction on the grammar, one case for each of its rules. -/
theorem readOff_of_reads {p : Phrase} {ts ts' : List Token} {e : Expr}
    (h : Reads none p ts e ts') : p.ReadOff ts e ts' := by
  induction h with
  | filler idle stays _ ih =>
    intro s floor low
    rw [expression_of_idle rfl idle stays]
    exact ih s floor low
  | leaf first powers =>
    intro s floor low
    rw [expression_of_operand (operand_of_isLeaf first s), suffixes_of_powers low powers,
      powers.names_eq]
  | unary kind h ih =>
    intro s floor _
    rw [expression_of_unary kind rfl, moveTo_moveTo,
      expression_of_readOff (.inr rfl) ih (noPower_of_operation h) s, ok_bind]
    rfl
  | @binary t ts ts₁ ts' op a b kind first second ih₁ ih₂ =>
    intro s floor _
    rw [expression_of_binary kind rfl, moveTo_moveTo, ih₁ s, ok_bind]
    dsimp only
    rw [moved_closed rfl, ok_bind]
    have read := expression_of_readOff (.inr rfl) ih₂ (noPower_of_operation second)
      (s.useAll a.names)
    show yield (((s.useAll a.names).moveTo ⟨ts₁.tail, none⟩).expression .operation) >>= _ = _
    rw [read, ok_bind, Expr.names, useAll_append]
  | expression first _ ih₁ ih₂ =>
    intro s
    obtain ⟨xs, names, read⟩ := ih₂ (noPower_of_operation first)
    rw [ih₁ s .lowest (by decide), read, names, useAll_append]
  | done h =>
    intro stop
    exact ⟨[], (List.append_nil _).symm, fun s => suffixes_done stop fun _ => h⟩
  | @less t x ts ts₁ ts' e right e' kind first rest ih₁ ih₂ =>
    intro _
    obtain ⟨xs, names, read⟩ := ih₂ (noPower_of_operation first)
    refine ⟨right.names ++ xs, by rw [names, Expr.names, List.append_assoc], fun s => ?_⟩
    rw [suffixes_of_less kind,
      expression_of_readOff (.inl rfl) ih₁ (noPower_of_operation first) s, ok_bind, useAll_append]
    exact read (s.useAll right.names)

/-! ## The readers and the grammar -/

/-- A phrase stands at the cursor, with or without filler before it.  The second state is on
the last token of the phrase, and the names of the phrase have been used. -/
def Recognizes (p : Phrase) (s : State) (e : Expr) (s' : State) : Prop :=
  ∃ ts', Reads none p s.cursor.tokens e ts' ∧ s' = (s.useAll e.names).moveTo ⟨ts', none⟩

theorem moveTo_here {s : State} (closed : s.cursor.unclosed = none) :
    s.moveTo ⟨s.cursor.tokens, none⟩ = s := by
  rw [← closed]
  rfl

theorem Uses.eq_closed {s s' : State} {xs : List String} (h : s.Uses xs s')
    (closed : s.cursor.unclosed = none) :
    s' = (s.useAll xs).moveTo ⟨s'.cursor.tokens, none⟩ := by
  have place : s'.cursor = ⟨s'.cursor.tokens, none⟩ := by
    rw [← closed, ← h.unclosed_eq]
  rw [← place]
  exact h.eq

theorem expression_eq_ok_iff {s s' : State} {e : Expr} (closed : s.cursor.unclosed = none) :
    yield (s.expression .lowest) = .ok (e, s') ↔ s.Recognizes .expression e s' := by
  constructor
  · intro h
    have read := expression_ok h
    have reads := read.whole rfl
    rw [closed] at reads
    exact ⟨s'.cursor.tokens, reads, read.uses.eq_closed closed⟩
  · rintro ⟨ts', reads, rfl⟩
    have read := readOff_of_reads reads s
    rw [moveTo_here closed] at read
    exact read

theorem operation_eq_ok_iff {floor : Tier} (tier : floor = .difference ∨ floor = .operation)
    {s s' : State} {e : Expr} (closed : s.cursor.unclosed = none) :
    yield (s.expression floor) = .ok (e, s') ↔ s.Recognizes .operation e s' := by
  constructor
  · intro h
    have read := expression_ok h
    have reads := read.operation tier
    rw [closed] at reads
    exact ⟨s'.cursor.tokens, reads, read.uses.eq_closed closed⟩
  · rintro ⟨ts', reads, rfl⟩
    have read := expression_of_readOff tier (readOff_of_reads reads) (noPower_of_operation reads) s
    rw [moveTo_here closed] at read
    exact read

/-- Neither of the two tiers takes a difference, and both take exponents. -/
theorem suffixes_difference (s : State) (e : Expr) :
    yield (s.suffixes .difference e) = yield (s.suffixes .operation e) := by
  rw [yield_suffixes, yield_suffixes]
  split
  · rfl
  · next op h =>
    rw [if_pos (by decide), if_pos (by decide)]
    cases moved : s.moved with
    | error f => rfl
    | ok s₁ =>
      have shorter : s₁.remaining < s.remaining := by
        have := remaining_of_moved moved
        have := one_lt_remaining h
        omega
      exact suffixes_difference s₁ (.power op e)
  · rfl
termination_by s.remaining

theorem expression_difference (s : State) :
    yield (s.expression .difference) = yield (s.expression .operation) := by
  rw [yield_expression, yield_expression]
  cases yield s.operand with
  | error f => rfl
  | ok a => exact suffixes_difference a.2 a.1

end State
end Legalese
