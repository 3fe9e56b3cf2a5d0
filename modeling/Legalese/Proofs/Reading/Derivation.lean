import Legalese.Proofs.Reading.Forward
import Legalese.Proofs.Reading.Grammar

/-!
# What was read follows the grammar

A reader that succeeds has read a phrase of the grammar and has stopped on its last
token, and the names of the phrase are the names used on the way.
-/

namespace Legalese
namespace Grammar

/-! ## Exponents -/

theorem noPower_of_powers {e e' : Expr} {ts ts' : List Token} (h : Powers e ts e' ts') :
    NoPower ts' := by
  induction h with
  | done h => exact h
  | more _ _ ih => exact ih

theorem eq_of_powers_of_noPower {e e' : Expr} {ts ts' : List Token} (h : Powers e ts e' ts')
    (stop : NoPower ts) : e' = e ∧ ts' = ts := by
  cases h with
  | done _ => exact ⟨rfl, rfl⟩
  | @more _ _ _ x _ _ op kind _ => exact absurd (congrArg some kind) (stop op)

theorem noPower_of_reads {u : Option String} {p : Phrase} {e : Expr} {ts ts' : List Token}
    (h : Reads u p ts e ts') : (∀ l, p = .differences l → NoPower ts) → NoPower ts' := by
  induction h with
  | filler _ _ _ ih => exact fun _ => ih nofun
  | leaf _ powers => exact fun _ => noPower_of_powers powers
  | unary _ _ ih => exact fun _ => ih nofun
  | binary _ _ _ _ ih => exact fun _ => ih nofun
  | expression _ _ ih₁ ih₂ => exact fun _ => ih₂ fun _ _ => ih₁ nofun
  | done _ => exact fun h => h _ rfl
  | less _ _ _ ih₁ ih₂ => exact fun _ => ih₂ fun _ _ => ih₁ nofun

/-- An operation takes all exponents that follow it. -/
theorem noPower_of_operation {u : Option String} {e : Expr} {ts ts' : List Token}
    (h : Reads u .operation ts e ts') : NoPower ts' :=
  noPower_of_reads h fun _ he => nomatch he

/-- Filler before an operation is read over. -/
theorem reads_of_filler {u : Option String} {pre ts ts' : List Token} {e : Expr}
    (idle : ∀ t ∈ pre, t.kind.startsExpression = false ∧ t.kind.opensClause = false)
    (h : Reads u .operation ts e ts') : Reads u .operation (pre ++ ts) e ts' := by
  induction pre with
  | nil => exact h
  | cons t pre ih =>
    have ht := idle t List.mem_cons_self
    exact .filler ht.1 ht.2 (ih fun x hx => idle x (List.mem_cons_of_mem t hx))

end Grammar

namespace State

open Grammar

/-! ## Searches -/

theorem kind?_eq (s : State) : s.kind? = kindAt s.cursor.tokens := rfl

theorem nextKind?_eq (s : State) : s.nextKind? = kindAt s.cursor.tokens.tail := rfl

theorem literal_eq {s : State} {t : Token} {ts : List Token} (h : s.cursor.tokens = t :: ts) :
    s.literal = t.literal := by
  unfold literal Cursor.literal Cursor.current?
  rw [h]
  rfl

/-- A search moves over unwanted tokens of the clause and stops on a wanted one. -/
theorem seek_ok {wanted : Kind → Bool} {s s' : State} {a : Unit}
    (h : yield (s.seek wanted) = .ok (a, s')) :
    s.Uses [] s' ∧ ∃ pre t rest, s.cursor.tokens = pre ++ s'.cursor.tokens ∧
      s'.cursor.tokens = t :: rest ∧ wanted t.kind = true ∧
      ∀ x ∈ pre, wanted x.kind = false ∧ x.kind.opensClause = false := by
  rw [yield_seek] at h
  split at h
  · cases h
  · next k hk =>
    obtain ⟨t, rest, ht, rfl⟩ := kindAt_eq_some hk
    split at h
    · next hw =>
      cases h
      exact ⟨.refl s, [], t, rest, rfl, ht, hw, by simp⟩
    · next hw =>
      split at h
      · cases h
      · next hc =>
        obtain ⟨s₁, h₁, h⟩ := bind_eq_ok.1 h
        have shorter : s₁.remaining < s.remaining := by
          have := remaining_of_moved h₁
          have := remaining_pos hk
          omega
        obtain ⟨uses, pre, x, rest', e₁, e₂, hx, idle⟩ := seek_ok h
        refine ⟨(uses_of_moved h₁).after uses, t :: pre, x, rest', ?_, e₂, hx, ?_⟩
        · rw [ht, List.cons_append, ← e₁, tokens_of_moved h₁, ht, List.tail_cons]
        · intro y hy
          rcases List.mem_cons.1 hy with rfl | hy
          · exact ⟨Bool.eq_false_iff.2 hw, Bool.eq_false_iff.2 hc⟩
          · exact idle y hy
termination_by s.remaining

theorem seekNext_ok {wanted : Kind → Bool} {s s' : State} {found : Option Kind}
    (h : yield (s.seekNext wanted) = .ok (found, s')) :
    s.Uses [] s' ∧ Finds wanted s.cursor.tokens found s'.cursor.tokens := by
  rw [yield_seekNext] at h
  split at h
  · next hk => cases h; exact ⟨.refl s, .ended hk⟩
  · next k hk =>
    split at h
    · next hw => cases h; exact ⟨.refl s, .found hk hw⟩
    · next hw =>
      have hw := Bool.eq_false_iff.2 hw
      split at h
      · next hc => cases h; exact ⟨.refl s, .clause hk hw hc⟩
      · next hc =>
        obtain ⟨s₁, h₁, h⟩ := bind_eq_ok.1 h
        have shorter : s₁.remaining < s.remaining := by
          have := remaining_of_moved h₁
          have := one_lt_remaining hk
          omega
        obtain ⟨uses, finds⟩ := seekNext_ok h
        rw [tokens_of_moved h₁] at finds
        exact ⟨(uses_of_moved h₁).after uses, .skip hk hw (Bool.eq_false_iff.2 hc) finds⟩
termination_by s.remaining

/-! ## Literals -/

theorem integerLiteral_ok {s s' : State} {e : Expr}
    (h : yield s.integerLiteral = .ok (e, s')) :
    s.Uses [] s' ∧ ∃ v, e = .integer v ∧
      IsInteger s.cursor.unclosed s.cursor.tokens v s'.cursor.tokens := by
  rw [yield_integerLiteral] at h
  split at h
  · cases h
  · next v c hc =>
    have follows := Cardinal.follows_of_read hc
    rw [yield_numeralOf] at h
    split at h
    · next opened =>
      obtain ⟨s₁, h₁, h⟩ := bind_eq_ok.1 h
      split at h
      · next numeral =>
        obtain ⟨s₂, h₂, h⟩ := bind_eq_ok.1 h
        split at h
        · cases h
        · next n agrees =>
          split at h
          · next closed =>
            obtain ⟨s₃, h₃, h⟩ := bind_eq_ok.1 h
            split at h
            · next same =>
              cases h
              subst same
              obtain ⟨w, l, r₁, hc₁, hl⟩ := kindAt_tail_eq_some opened
              have e₁ : s₁.cursor.tokens = l :: r₁ := by rw [tokens_of_moved h₁, hc₁]; rfl
              rw [nextKind?_eq, e₁] at numeral
              have e₂ : s₂.cursor.tokens = r₁ := by rw [tokens_of_moved h₂, e₁]; rfl
              rw [nextKind?_eq, e₂] at closed
              obtain ⟨n, r, rest, hr₁, hr⟩ := kindAt_tail_eq_some closed
              have e₃ : s'.cursor.tokens = r :: rest := by rw [tokens_of_moved h₃, e₂, hr₁]; rfl
              refine ⟨?_, v, rfl, ?_⟩
              · exact ((Uses.moveTo follows).after (uses_of_moved h₁)).after
                  ((uses_of_moved h₂).after (uses_of_moved h₃))
              · have hc' : c = ⟨w :: l :: n :: r :: rest, s.cursor.unclosed⟩ := by
                  rw [← follows.unclosed_eq, ← hr₁, ← hc₁]
                  rfl
                rw [e₃]
                rw [hc'] at hc
                rw [literal_eq (e₂.trans hr₁)] at agrees
                have hn : n.kind = .numeral ∨ n.kind = .dash := by
                  simpa [hr₁] using numeral
                exact .intro hc hl hn agrees hr
            · cases h
          · cases h
      · cases h
    · cases h

/-! ## Expressions -/

/-- What holds after an expression has been read down to a tier. -/
structure ExpressionRead (floor : Tier) (s : State) (e : Expr) (s' : State) : Prop where
  uses : s.Uses e.names s'
  whole : floor = .lowest → Reads s.cursor.unclosed .expression s.cursor.tokens e s'.cursor.tokens
  operation : floor = .difference ∨ floor = .operation →
    Reads s.cursor.unclosed .operation s.cursor.tokens e s'.cursor.tokens

/-- What holds after an operand has been read.  It need not be complete, since exponents
may follow a leaf. -/
structure OperandRead (s : State) (e : Expr) (s' : State) : Prop where
  uses : s.Uses e.names s'
  operation : ∀ e' ts', Powers e s'.cursor.tokens e' ts' →
    Reads s.cursor.unclosed .operation s.cursor.tokens e' ts'

/-- What holds after the words that follow an operand `l` have been read. -/
structure SuffixesRead (floor : Tier) (l : Expr) (s : State) (e : Expr) (s' : State) : Prop where
  uses : ∃ xs, e.names = l.names ++ xs ∧ s.Uses xs s'
  whole : floor = .lowest → ∃ e₁ ts₁, Powers l s.cursor.tokens e₁ ts₁ ∧
    Reads s.cursor.unclosed (.differences e₁) ts₁ e s'.cursor.tokens
  operation : floor = .difference ∨ floor = .operation →
    Powers l s.cursor.tokens e s'.cursor.tokens

/-- The readers of expressions keep to the grammar on all states that have fewer tokens
left than a given one. -/
def ReadsBelow (s : State) : Prop :=
  ∀ floor t e t', t.remaining < s.remaining →
    yield (t.expression floor) = .ok (e, t') → ExpressionRead floor t e t'

theorem ReadsBelow.mono {s s' : State} (h : s.ReadsBelow) (le : s'.remaining ≤ s.remaining) :
    s'.ReadsBelow :=
  fun floor t e t' lt => h floor t e t' (Nat.lt_of_lt_of_le lt le)

theorem Tier.eq_lowest {floor : Tier} (h : floor.rank < Tier.difference.rank) :
    floor = .lowest := by
  cases floor <;> first | rfl | exact absurd h (by decide)

theorem suffixes_ok {floor : Tier} {l e : Expr} {s s' : State} (below : s.ReadsBelow)
    (h : yield (s.suffixes floor l) = .ok (e, s')) : SuffixesRead floor l s e s' := by
  rw [yield_suffixes] at h
  split at h
  · next hk =>
    obtain ⟨t, x, ts, hts, hx⟩ := kindAt_tail_eq_some hk
    have stop : NoPower s.cursor.tokens := fun op he => by
      rw [← nextKind?_eq, hk] at he
      cases he
    split at h
    · next hf =>
      obtain rfl := Tier.eq_lowest hf
      obtain ⟨s₁, h₁, h⟩ := bind_eq_ok.1 h
      obtain ⟨s₂, h₂, h⟩ := bind_eq_ok.1 h
      obtain ⟨⟨right, s₃⟩, h₃, h⟩ := bind_eq_ok.1 h
      have uses₂ := (uses_of_moved h₁).after (uses_of_moved h₂)
      have e₂ : s₂.cursor.tokens = ts := by
        rw [tokens_of_moved h₂, tokens_of_moved h₁, hts]
        rfl
      have shorter : s₂.remaining < s.remaining := by
        have := remaining_of_moved h₁
        have := remaining_of_moved h₂
        have := one_lt_remaining hk
        omega
      have read := below .difference s₂ right s₃ shorter h₃
      have operation := read.operation (.inl rfl)
      rw [e₂, uses₂.unclosed_eq] at operation
      have uses₃ := uses₂.after read.uses
      have shorter₃ : s₃.remaining < s.remaining :=
        Nat.lt_of_le_of_lt read.uses.remaining_le shorter
      have rest := suffixes_ok (below.mono (Nat.le_of_lt shorter₃)) h
      refine ⟨?_, fun _ => ?_, fun hf => by simp at hf⟩
      · obtain ⟨xs, hxs, uses⟩ := rest.uses
        exact ⟨right.names ++ xs, by rw [hxs, Expr.names, List.append_assoc], uses₃.trans uses⟩
      · obtain ⟨e₁, ts₁, powers, differences⟩ := rest.whole rfl
        -- no exponent follows the right operand, so the loop takes the difference as it is
        obtain ⟨rfl, rfl⟩ :=
          eq_of_powers_of_noPower powers (noPower_of_operation operation)
        rw [uses₃.unclosed_eq] at differences
        refine ⟨l, s.cursor.tokens, .done stop, ?_⟩
        rw [hts]
        exact .less hx operation differences
    · next hf =>
      cases h
      refine ⟨⟨[], (List.append_nil _).symm, .refl s⟩, ?_, fun _ => .done stop⟩
      rintro rfl
      exact absurd (by decide) hf
  · next op hk =>
    obtain ⟨t, x, ts, hts, hx⟩ := kindAt_tail_eq_some hk
    split at h
    · obtain ⟨s₁, h₁, h⟩ := bind_eq_ok.1 h
      have uses₁ := uses_of_moved h₁
      have e₁ : s₁.cursor.tokens = x :: ts := by
        rw [tokens_of_moved h₁, hts]
        rfl
      have shorter : s₁.remaining < s.remaining := by
        have := remaining_of_moved h₁
        have := one_lt_remaining hk
        omega
      have rest := suffixes_ok (below.mono (Nat.le_of_lt shorter)) h
      refine ⟨?_, fun hf => ?_, fun hf => ?_⟩
      · obtain ⟨xs, hxs, uses⟩ := rest.uses
        exact ⟨xs, hxs, uses₁.after uses⟩
      · obtain ⟨e₂, ts₂, powers, differences⟩ := rest.whole hf
        rw [e₁] at powers
        rw [uses₁.unclosed_eq] at differences
        refine ⟨e₂, ts₂, ?_, differences⟩
        rw [hts]
        exact .more hx powers
      · have powers := rest.operation hf
        rw [e₁] at powers
        rw [hts]
        exact .more hx powers
    · next hf =>
      cases h
      have top : floor = .power := by
        cases floor <;> first | rfl | exact absurd (by decide) hf
      subst top
      exact ⟨⟨[], (List.append_nil _).symm, .refl s⟩, nofun, by simp⟩
  · next h₁ h₂ =>
    cases h
    have stop : NoPower s.cursor.tokens := fun op => h₂ op
    exact ⟨⟨[], (List.append_nil _).symm, .refl s⟩, fun _ => ⟨l, _, .done stop, .done h₁⟩,
      fun _ => .done stop⟩
termination_by s.remaining

theorem operand_ok {e : Expr} {s s' : State} (below : s.ReadsBelow)
    (h : yield s.operand = .ok (e, s')) : OperandRead s e s' := by
  rw [yield_operand] at h
  obtain ⟨⟨_, s₁⟩, h₁, h⟩ := bind_eq_ok.1 h
  obtain ⟨uses₁, pre, t, ts, hpre, ht, -, idle⟩ := seek_ok h₁
  -- what is read from the first token on is read from the filler before it on
  have lift : ∀ e' ts', Reads s.cursor.unclosed .operation s₁.cursor.tokens e' ts' →
      Reads s.cursor.unclosed .operation s.cursor.tokens e' ts' := by
    intro e' ts' h
    rw [hpre]
    exact reads_of_filler idle h
  -- the state after the operator word, where its first operand is read
  have afterWord {s₂ : State} (hk : s₁.kind? = some t.kind) (h₂ : s₁.moved = .ok s₂) :
      s.Uses [] s₂ ∧ s₂.cursor.tokens = ts ∧ s₂.remaining < s.remaining := by
    refine ⟨uses₁.after (uses_of_moved h₂), by rw [tokens_of_moved h₂, ht]; rfl, ?_⟩
    have := remaining_of_moved h₂
    have := remaining_pos hk
    have := uses₁.remaining_le
    omega
  have head {k : Kind} (hk : s₁.kind? = some k) : t.kind = k := by
    rw [kind?_eq, ht] at hk
    exact Option.some.inj hk
  dsimp only at h
  split at h
  · next w hk =>
    obtain ⟨uses₂, v, rfl, integer⟩ := integerLiteral_ok h
    refine ⟨uses₁.after uses₂, fun e' ts' powers => lift e' ts' ?_⟩
    rw [uses₁.unclosed_eq, ht] at integer
    rw [ht]
    exact .leaf (.integer (head hk) integer) powers
  · cases h
  · next hk =>
    cases h
    refine ⟨uses₁, fun e' ts' powers => lift e' ts' ?_⟩
    rw [literal_eq ht, ht] at powers
    rw [ht]
    exact .leaf (.text (head hk)) powers
  · next hk =>
    cases h
    refine ⟨uses₁.after (.use _ _), fun e' ts' powers => lift e' ts' ?_⟩
    rw [literal_eq ht, cursor_use, ht] at powers
    rw [ht]
    exact .leaf (.name (head hk)) powers
  · next op hk =>
    obtain ⟨s₂, h₂, h⟩ := bind_eq_ok.1 h
    obtain ⟨⟨a, s₃⟩, h₃, h⟩ := bind_eq_ok.1 h
    cases h
    obtain ⟨uses₂, e₂, shorter⟩ := afterWord (head hk ▸ hk) h₂
    have read := below .operation s₂ a s₃ shorter h₃
    have first := read.operation (.inr rfl)
    rw [e₂, uses₂.unclosed_eq] at first
    refine ⟨uses₂.after read.uses, fun e' ts' powers => lift e' ts' ?_⟩
    obtain ⟨rfl, rfl⟩ := eq_of_powers_of_noPower powers (noPower_of_operation first)
    rw [ht]
    exact .unary (head hk) first
  · next op hk =>
    obtain ⟨s₂, h₂, h⟩ := bind_eq_ok.1 h
    obtain ⟨⟨a, s₃⟩, h₃, h⟩ := bind_eq_ok.1 h
    obtain ⟨s₄, h₄, h⟩ := bind_eq_ok.1 h
    obtain ⟨⟨b, s₅⟩, h₅, h⟩ := bind_eq_ok.1 h
    cases h
    obtain ⟨uses₂, e₂, shorter⟩ := afterWord (head hk ▸ hk) h₂
    have read₃ := below .lowest s₂ a s₃ shorter h₃
    have first := read₃.whole rfl
    rw [e₂, uses₂.unclosed_eq] at first
    have uses₃ := uses₂.after read₃.uses
    have uses₄ := uses₃.trans (uses_of_moved h₄)
    rw [List.append_nil] at uses₄
    have shorter₄ : s₄.remaining < s.remaining := by
      have := read₃.uses.remaining_le
      have : s₄.remaining = s₃.remaining - 1 := remaining_of_moved h₄
      omega
    have read₅ := below .operation s₄ b s₅ shorter₄ h₅
    have second := read₅.operation (.inr rfl)
    rw [tokens_of_moved h₄, uses₄.unclosed_eq] at second
    refine ⟨uses₄.trans read₅.uses, fun e' ts' powers => lift e' ts' ?_⟩
    obtain ⟨rfl, rfl⟩ := eq_of_powers_of_noPower powers (noPower_of_operation second)
    rw [ht]
    exact .binary (head hk) first second
  · cases h

/-- Reading an expression down to a tier, by induction on the tokens that are left. -/
theorem expression_ok {floor : Tier} {e : Expr} {s s' : State}
    (h : yield (s.expression floor) = .ok (e, s')) : ExpressionRead floor s e s' := by
  have below : s.ReadsBelow := fun floor t e t' lt h => expression_ok h
  rw [yield_expression] at h
  obtain ⟨⟨e₁, s₁⟩, h₁, h⟩ := bind_eq_ok.1 h
  have first := operand_ok below h₁
  have rest := suffixes_ok (below.mono first.uses.remaining_le) h
  refine ⟨?_, fun hf => ?_, fun hf => ?_⟩
  · obtain ⟨xs, hxs, uses⟩ := rest.uses
    rw [hxs]
    exact first.uses.trans uses
  · obtain ⟨e₂, ts₂, powers, differences⟩ := rest.whole hf
    rw [first.uses.unclosed_eq] at differences
    exact .expression (first.operation e₂ ts₂ powers) differences
  · exact first.operation e s'.cursor.tokens (rest.operation hf)
termination_by s.remaining

end State

/-! ## Actions -/

namespace Statement

/-- Every use of a name in a statement, in order: of an assumption the name before the
value.  A declaration does not use the name it declares. -/
def names : Statement → List String
  | declare d => d.value.names
  | assume x e => x :: e.names
  | publish e => e.names
  | conditional l r _ c => l.names ++ r.names ++ c.names

end Statement

namespace State

open Grammar

/-- The register and the errors are those of an earlier state. -/
structure Forgets (s s' : State) : Prop where
  follows : s.cursor.Follows s'.cursor
  register : s'.register = s.register
  errors : s'.errors = s.errors

/-- What happens to a state while a clause is read: the names of its statement are used,
and without a statement nothing is left of it. -/
def ActionEffect (s s' : State) : Option Statement → Prop
  | some a => s.Uses a.names s'
  | none => s.Forgets s'

theorem ActionEffect.follows {s s' : State} {a : Option Statement} (h : s.ActionEffect s' a) :
    s.cursor.Follows s'.cursor := by
  cases a with
  | none => exact Forgets.follows h
  | some a => exact Uses.follows h

theorem ActionEffect.after {s s₁ s' : State} {a : Option Statement} (h₁ : s.Uses [] s₁)
    (h : s₁.ActionEffect s' a) : s.ActionEffect s' a := by
  cases a with
  | none =>
    refine ⟨h₁.follows.trans h.follows, ?_, ?_⟩
    · rw [Forgets.register h, h₁.eq]; rfl
    · rw [Forgets.errors h, h₁.eq]; rfl
  | some a => exact h₁.after h

theorem Forgets.forget {s s' : State} (h : s.cursor.Follows s'.cursor) :
    s.Forgets (s'.forget s) := ⟨h, rfl, rfl⟩

/-- The actions of a clause keep to the grammar on all states that have fewer tokens left
than a given one. -/
def ActsBelow (s : State) : Prop :=
  ∀ (t : State) (a : Option Statement) (t' : State), t.remaining < s.remaining →
    yield t.action = .ok (a, t') →
    Acts t.cursor.unclosed t.cursor.tokens a t'.cursor.tokens ∧ t.ActionEffect t' a

theorem conditional_ok {s s' : State} {a : Option Statement} {x : Token} {ts : List Token}
    (below : s.ActsBelow) (hs : s.cursor.tokens = x :: ts) (hx : x.kind = .conditional)
    (h : yield s.conditional = .ok (a, s')) :
    (∀ t, Acts s.cursor.unclosed (t :: x :: ts) a s'.cursor.tokens) ∧ s.ActionEffect s' a := by
  rw [yield_conditional] at h
  obtain ⟨s₁, h₁, h⟩ := bind_eq_ok.1 h
  obtain ⟨⟨l, s₂⟩, h₂, h⟩ := bind_eq_ok.1 h
  obtain ⟨⟨found, s₃⟩, h₃, h⟩ := bind_eq_ok.1 h
  have e₁ : s₁.cursor.tokens = ts := by
    rw [tokens_of_moved h₁, hs]
    rfl
  have uses₁ := uses_of_moved h₁
  have read₂ := expression_ok h₂
  have left := read₂.whole rfl
  rw [e₁, uses₁.unclosed_eq] at left
  obtain ⟨move₃, finds⟩ := seekNext_ok h₃
  have uses₃ := uses₁.after (read₂.uses.trans move₃)
  rw [List.append_nil] at uses₃
  dsimp only at h
  split at h
  · next relation =>
    obtain ⟨s₄, h₄, h⟩ := bind_eq_ok.1 h
    obtain ⟨s₅, h₅, h⟩ := bind_eq_ok.1 h
    obtain ⟨⟨r, s₆⟩, h₆, h⟩ := bind_eq_ok.1 h
    obtain ⟨⟨c, s₇⟩, h₇, h⟩ := bind_eq_ok.1 h
    have h₄ : s₃.moved = .ok s₄ := h₄
    have h₇ : yield s₆.action = .ok (c, s₇) := h₇
    have uses₅ := uses₃.trans ((uses_of_moved h₄).after (uses_of_moved h₅))
    rw [List.append_nil] at uses₅
    have read₆ := expression_ok h₆
    have uses₆ := uses₅.trans read₆.uses
    have shorter : s₆.remaining < s.remaining := by
      have := remaining_of_moved h₁
      have := remaining_pos (s := s) (k := .conditional) (by rw [kind?_eq, hs, kindAt_cons, hx])
      have := read₂.uses.remaining_le
      have := move₃.remaining_le
      have := remaining_of_moved h₄
      have := remaining_of_moved h₅
      have := read₆.uses.remaining_le
      omega
    obtain ⟨acts, effect⟩ := below s₆ c s₇ shorter h₇
    obtain ⟨y, z, ts₂, e₃, -⟩ := finds.cons_cons
    have right := read₆.whole rfl
    rw [tokens_of_moved h₅, tokens_of_moved h₄, e₃, uses₅.unclosed_eq] at right
    rw [uses₆.unclosed_eq] at acts
    rw [e₃] at finds
    have all (t : Token) : Acts s.cursor.unclosed (t :: x :: ts)
        (c.map (.conditional l r relation)) s₇.cursor.tokens :=
      .conditional hx left finds right acts
    cases c with
    | none =>
      cases h
      exact ⟨all, .forget (uses₆.follows.trans effect.follows)⟩
    | some a =>
      cases h
      exact ⟨all, uses₆.trans effect⟩
  · next hf =>
    cases h
    obtain rfl := FindsRelation.eq_none finds fun r hr => hf r hr
    exact ⟨fun t => .unrelated hx left finds, .forget uses₃.follows⟩

theorem action_ok {s s' : State} {a : Option Statement} (h : yield s.action = .ok (a, s')) :
    Acts s.cursor.unclosed s.cursor.tokens a s'.cursor.tokens ∧ s.ActionEffect s' a := by
  have below : s.ActsBelow := fun t a t' lt h => action_ok h
  rw [yield_action] at h
  split at h
  · next hk =>
    obtain ⟨⟨a, s₁⟩, h₁, h⟩ := bind_eq_ok.1 h
    cases h
    obtain ⟨t, x, ts, hs, hx⟩ := kindAt_tail_eq_some hk.2
    have ht : t.kind = .name := by
      have hk := hk.1
      rw [kind?_eq, hs] at hk
      exact Option.some.inj hk
    rw [yield_assumption, literal_eq hs] at h₁
    obtain ⟨s₂, h₂, h₁⟩ := bind_eq_ok.1 h₁
    obtain ⟨s₃, h₃, h₁⟩ := bind_eq_ok.1 h₁
    obtain ⟨⟨e, s₄⟩, h₄, h₁⟩ := bind_eq_ok.1 h₁
    cases h₁
    have uses₃ := (Uses.use s t.literal).trans ((uses_of_moved h₂).after (uses_of_moved h₃))
    rw [List.append_nil] at uses₃
    have read := expression_ok h₄
    have value := read.whole rfl
    rw [tokens_of_moved h₃, tokens_of_moved h₂, cursor_use, hs, uses₃.unclosed_eq] at value
    rw [hs]
    exact ⟨.assume ht hx value, uses₃.trans read.uses⟩
  · next hn =>
    split at h
    · next hk =>
      cases h
      exact ⟨.ended hk, .refl _, rfl, rfl⟩
    · next k hk =>
      split at h
      · next hc =>
        cases h
        exact ⟨.clause hk hc, .refl _, rfl, rfl⟩
      · next hc =>
        obtain ⟨t, x, ts, hs, hx⟩ := kindAt_tail_eq_some hk
        obtain ⟨s₁, h₁, h⟩ := bind_eq_ok.1 h
        have uses₁ := uses_of_moved h₁
        have e₁ : s₁.cursor.tokens = x :: ts := by
          rw [tokens_of_moved h₁, hs]
          rfl
        have shorter : s₁.remaining < s.remaining := by
          have := remaining_of_moved h₁
          have := one_lt_remaining hk
          omega
        subst hx
        rw [hs]
        split at h
        · next hp =>
          obtain ⟨⟨a, s₂⟩, h₂, h⟩ := bind_eq_ok.1 h
          cases h
          rw [yield_publication] at h₂
          obtain ⟨s₃, h₃, h₂⟩ := bind_eq_ok.1 h₂
          obtain ⟨⟨e, s₄⟩, h₄, h₂⟩ := bind_eq_ok.1 h₂
          cases h₂
          have uses₃ := uses₁.after (uses_of_moved h₃)
          have read := expression_ok h₄
          have value := read.whole rfl
          rw [tokens_of_moved h₃, e₁, uses₃.unclosed_eq] at value
          exact ⟨.publish hp value, uses₃.after read.uses⟩
        · next hp =>
          split at h
          · next hi =>
            obtain ⟨acts, effect⟩ := conditional_ok
              (fun t a t' lt h => below t a t' (Nat.lt_trans lt shorter) h) e₁ hi h
            rw [uses₁.unclosed_eq] at acts
            exact ⟨acts t, effect.after uses₁⟩
          · next hi =>
            obtain ⟨acts, effect⟩ := below s₁ a s' shorter h
            rw [e₁, uses₁.unclosed_eq] at acts
            have idle : Idle t x := by
              refine ⟨fun hn' => hn ?_, hp, hi, Bool.eq_false_iff.2 hc⟩
              rw [kind?_eq, nextKind?_eq, hs]
              exact ⟨congrArg some hn'.1, congrArg some hn'.2⟩
            exact ⟨.filler idle acts, effect.after uses₁⟩
termination_by s.remaining

/-! ## Recitals -/

/-- What happens to a state while a recital is read. -/
def RecitalEffect (s s' : State) : Option Declaration → Prop
  | some d => ∃ s₁, s.Uses d.value.names s₁ ∧ s' = s₁.declare d.name
  | none => s.Uses [] s'

@[simp] theorem cursor_declare (s : State) (x : String) : (s.declare x).cursor = s.cursor := by
  unfold declare
  split <;> rfl

theorem RecitalEffect.follows {s s' : State} {d : Option Declaration}
    (h : s.RecitalEffect s' d) : s.cursor.Follows s'.cursor := by
  cases d with
  | none => exact Uses.follows h
  | some d =>
    obtain ⟨s₁, uses, rfl⟩ := h
    rw [cursor_declare]
    exact uses.follows

theorem declaration_ok {s s' : State} {d : Declaration}
    (h : yield s.declaration = .ok (d, s')) :
    (∃ s₁, s.Uses d.value.names s₁ ∧ s' = s₁.declare d.name) ∧
    ∃ pre n ts, s.cursor.tokens.tail = pre ++ n :: ts ∧ n.kind = .name ∧ d.name = n.literal ∧
      (∀ y ∈ pre, y.kind ≠ .name ∧ y.kind.opensClause = false) ∧
      Reads s.cursor.unclosed .expression ts d.value s'.cursor.tokens := by
  rw [yield_declaration] at h
  obtain ⟨s₁, h₁, h⟩ := bind_eq_ok.1 h
  obtain ⟨⟨_, s₂⟩, h₂, h⟩ := bind_eq_ok.1 h
  obtain ⟨s₃, h₃, h⟩ := bind_eq_ok.1 h
  obtain ⟨⟨e, s₄⟩, h₄, h⟩ := bind_eq_ok.1 h
  cases h
  obtain ⟨move₂, pre, n, ts, hpre, hn, name, idle⟩ := seek_ok h₂
  have uses₂ := (uses_of_moved h₁).after move₂
  have uses₃ := uses₂.after (uses_of_moved h₃)
  have read := expression_ok h₄
  have value := read.whole rfl
  have e₃ : s₃.cursor.tokens = ts := by
    rw [tokens_of_moved (s := s₂) h₃, hn]
    rfl
  rw [e₃, uses₃.unclosed_eq] at value
  refine ⟨⟨s₄, uses₃.after read.uses, rfl⟩, pre, n, ts, ?_, beq_iff_eq.1 name, ?_, ?_, ?_⟩
  · rw [← tokens_of_moved h₁, hpre, hn]
  · exact literal_eq hn
  · exact fun y hy => ⟨by simpa using (idle y hy).1, (idle y hy).2⟩
  · rw [cursor_declare]
    exact value

theorem recital_ok {s s' : State} {d : Option Declaration} (h : yield s.recital = .ok (d, s')) :
    (∀ e, d = some e → Recites s.cursor.unclosed s.cursor.tokens e s'.cursor.tokens) ∧
      s.RecitalEffect s' d := by
  rw [yield_recital] at h
  obtain ⟨⟨found, s₁⟩, h₁, h⟩ := bind_eq_ok.1 h
  obtain ⟨move₁, finds⟩ := seekNext_ok h₁
  cases found with
  | none =>
    cases h
    exact ⟨nofun, move₁⟩
  | some k =>
    obtain ⟨s₂, h₂, h⟩ := bind_eq_ok.1 h
    obtain ⟨⟨d, s₃⟩, h₃, h⟩ := bind_eq_ok.1 h
    cases h
    obtain ⟨⟨s₄, uses₄, hs₄⟩, pre, n, ts, hpre, name, hd, idle, value⟩ := declaration_ok h₃
    have uses₂ := move₁.after (uses_of_moved h₂)
    refine ⟨?_, s₄, uses₂.after uses₄, hs₄⟩
    rintro _ ⟨⟩
    obtain ⟨t, x, r, e₁, -⟩ := finds.cons_cons
    rw [e₁] at finds
    rw [tokens_of_moved (s := s₁) h₂, e₁] at hpre
    rw [show r = pre ++ n :: ts from hpre] at finds
    rw [uses₂.unclosed_eq] at value
    obtain ⟨name', e⟩ := d
    obtain rfl : name' = n.literal := hd
    exact .intro finds idle name value

/-! ## Clauses -/

/-- A run over the clauses of a text to its end, with the draft it began and ended with. -/
inductive ClausesRun : Draft → State → Draft → State → Prop
  | ended {d : Draft} {s : State} (ended : s.kind? = none) : ClausesRun d s d s
  | recital {d d' : Draft} {s s₁ s₂ s' : State} {recital : Option Declaration}
      (head : s.kind? = some .whereas) (early : d.phase ≠ .actions)
      (read : yield s.recital = .ok (recital, s₁)) (moved : s₁.moved = .ok s₂)
      (rest : ClausesRun
        { d with phase := .recitals, recitals := d.recitals ++ recital.toList } s₂ d' s') :
      ClausesRun d s d' s'
  | action {d d' : Draft} {s s₁ s₂ s' : State} {action : Option Statement}
      (head : s.kind? = some .resolved) (late : d.phase ≠ .title)
      (read : yield s.action = .ok (action, s₁)) (moved : s₁.moved = .ok s₂)
      (rest : ClausesRun
        { d with phase := .actions, actions := d.actions ++ action.toList } s₂ d' s') :
      ClausesRun d s d' s'
  | skip {d d' : Draft} {s s₁ s' : State} {k : Kind} (head : s.kind? = some k)
      (stays : k.opensClause = false) (moved : s.moved = .ok s₁)
      (rest : ClausesRun d s₁ d' s') : ClausesRun d s d' s'

theorem clauses_ok {d d' : Draft} {s s' : State} (h : yield (s.clauses d) = .ok (d', s')) :
    ClausesRun d s d' s' := by
  rw [yield_clauses] at h
  split at h
  · next hk =>
    cases h
    exact .ended hk
  · next k hk =>
    have shorter {s₁ s₂ : State} (follows : s.cursor.Follows s₁.cursor)
        (h : s₁.moved = .ok s₂) : s₂.remaining < s.remaining := by
      have : s₁.remaining ≤ s.remaining := follows.remaining_le
      have := remaining_of_moved h
      have := remaining_pos hk
      omega
    split at h
    · next hw =>
      split at h
      · cases h
      · next early =>
        obtain ⟨⟨recital, s₁⟩, h₁, h⟩ := bind_eq_ok.1 h
        obtain ⟨s₂, h₂, h⟩ := bind_eq_ok.1 h
        have lt := shorter (recital_ok h₁).2.follows h₂
        exact .recital (hw ▸ hk) early h₁ h₂ (clauses_ok h)
    · next hw =>
      split at h
      · next hr =>
        split at h
        · cases h
        · next late =>
          obtain ⟨⟨action, s₁⟩, h₁, h⟩ := bind_eq_ok.1 h
          obtain ⟨s₂, h₂, h⟩ := bind_eq_ok.1 h
          have lt := shorter (action_ok h₁).2.follows h₂
          exact .action (hr ▸ hk) late h₁ h₂ (clauses_ok h)
      · next hr =>
        obtain ⟨s₁, h₁, h⟩ := bind_eq_ok.1 h
        have lt := shorter (.refl _) h₁
        have stays : k.opensClause = false := by
          cases k with
          | whereas => exact absurd rfl hw
          | resolved => exact absurd rfl hr
          | _ => rfl
        exact .skip hk stays h₁ (clauses_ok h)
termination_by s.remaining

theorem resolution_ok {s s' : State} {r : Resolution} (h : s.resolution = .ok (r, s')) :
    ∃ d s₁, ClausesRun .blank s d s₁ ∧ r = ⟨d.recitals, d.actions⟩ ∧ s' = s₁.close r := by
  rw [resolution_eq] at h
  split at h
  · obtain ⟨⟨d, s₁⟩, h₁, h⟩ := bind_eq_ok.1 h
    dsimp only at h
    split at h
    · cases h
      exact ⟨d, s₁, clauses_ok h₁, rfl, rfl⟩
    · cases h
  · cases h

end State

theorem Reading.ofString_ok {source : String} {reading : Reading}
    (h : ofString source = .ok reading) :
    ∃ s s', State.start source .empty = .ok s ∧ s.resolution = .ok (reading.resolution, s') ∧
      reading.register = s'.register ∧ reading.errors = s'.errors := by
  unfold ofString at h
  obtain ⟨s, hs, h⟩ := bind_eq_ok.1 h
  obtain ⟨⟨r, s'⟩, hr, h⟩ := bind_eq_ok.1 h
  cases h
  exact ⟨s, s', hs, hr, rfl, rfl⟩

end Legalese
