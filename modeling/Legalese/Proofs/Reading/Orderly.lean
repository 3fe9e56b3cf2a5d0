import Legalese.Proofs.Reading.Derivation
import Legalese.Proofs.Reading.Program

/-!
# Readers never move past the end

A program is orderly if each of its steps is taken at the place where the program stands, no
token is moved over at the end of the text, and a call finds as many tokens as the reader needs
and leaves as many as it promises.  Before it has moved on, a program calls only readers that
stand before its own in the list of readers; so tokens and readers together measure how far
the calls can go.

Every reader is orderly, and each is looked at by itself: of the readers that it calls only
what they need and what they leave is known.
-/

namespace Legalese

namespace Routine

/-- The place of a reader in the list of readers. -/
def rank (r : Routine) : Nat := r.ctorIdx

/-- How many tokens, from the current one on, must be there when a reader is called. -/
def needs : Routine → Nat
  | magnitude => 1
  | seekNext _ => 1
  | suffixes _ _ => 1
  | declaration => 1
  | recital => 1
  | assumption => 2
  | publication => 1
  | action => 1
  | conditional => 1
  | _ => 0

/-- How many tokens are there when a reader has come to its value.  Where a search for the next
token finds one, that is there beside the current one. -/
def leaves : (r : Routine) → r.Answer → Nat
  | seekNext _, found => if found.isSome then 2 else 1
  | clauses _, _ => 0
  | resolution, _ => 0
  | _, _ => 1

end Routine

/-- One call comes before another: fewer tokens are left, or as many and the reader stands
before the other. -/
def Below (x y : Routine × State) : Prop :=
  x.2.remaining < y.2.remaining ∨ x.2.remaining ≤ y.2.remaining ∧ x.1.rank < y.1.rank

/-- What comes before something else can be counted down to. -/
theorem lex_of_before {m m' n n' : Nat} (h : m < m' ∨ m ≤ m' ∧ n < n') :
    Prod.Lex (· < ·) (· < ·) (m, n) (m', n') := by
  rcases h with less | ⟨le, inner⟩
  · exact Prod.Lex.left _ _ less
  · exact Prod.Lex.right' _ le inner

namespace Program

variable {α β : Type}

/-- From a place on, a program keeps to the tokens that are there, and it comes to a value only
where that may be. -/
def Orderly (top : Routine × State) (post : α → Cursor → Prop) : Cursor → Program α → Prop
  | c, done a => post a c
  | _, fail _ => True
  | c, advance s next =>
    s.cursor = c ∧ 0 < c.remaining ∧ ∀ s', s.moved = .ok s' → Orderly top post s'.cursor (next s')
  | c, call r s next =>
    s.cursor = c ∧ r.needs ≤ c.remaining ∧ Below (r, s) top ∧
      ∀ a s', c.Follows s'.cursor → r.leaves a ≤ s'.remaining →
        Orderly top post s'.cursor (next (a, s'))

/-- Where a reader may come to a value. -/
def Ends (r : Routine) (a : r.Answer × State) (c : Cursor) : Prop :=
  a.2.cursor = c ∧ r.leaves a.1 ≤ c.remaining

section

variable {r : Routine} {s s₀ : State} {r₀ : Routine} {post : α → Cursor → Prop}

theorem below_of_lt (h : s.remaining < s₀.remaining) : Below (r, s) (r₀, s₀) := .inl h

theorem below_of_rank (h : s.remaining ≤ s₀.remaining) (rank : Nat.blt r.rank r₀.rank = true) :
    Below (r, s) (r₀, s₀) := .inr ⟨h, Nat.le_of_ble_eq_true rank⟩

theorem orderly_move {top : Routine × State} {f : State → Program α} (pos : 0 < s.remaining)
    (h : ∀ s₁, s₁.remaining = s.remaining - 1 → Orderly top post s₁.cursor (f s₁)) :
    Orderly top post s.cursor (move s >>= f) :=
  ⟨rfl, pos, fun s₁ moved => h s₁ (State.remaining_of_moved moved)⟩

theorem orderly_enter {top : Routine × State} {f : r.Answer × State → Program α}
    (needs : r.needs ≤ s.remaining) (below : Below (r, s) top)
    (h : ∀ a s₁, s₁.remaining ≤ s.remaining → r.leaves a ≤ s₁.remaining →
      Orderly top post s₁.cursor (f (a, s₁))) :
    Orderly top post s.cursor (enter r s >>= f) :=
  ⟨rfl, needs, below, fun a s₁ follows => h a s₁ follows.remaining_le⟩

/-- A call at the end of a program. -/
theorem orderly_last {top : Routine × State} {post : r.Answer × State → Cursor → Prop}
    (needs : r.needs ≤ s.remaining) (below : Below (r, s) top)
    (h : ∀ a s₁, r.leaves a ≤ s₁.remaining → post (a, s₁) s₁.cursor) :
    Orderly top post s.cursor (enter r s) :=
  ⟨rfl, needs, below, fun a s₁ _ => h a s₁⟩

end

/-! ## Number words -/

/-- A reader is orderly from a state on. -/
def Keeps (r : Routine) (s : State) : Prop := Orderly (r, s) (Ends r) s.cursor (code r s)

variable {s : State}

theorem keeps_belowHundred : Keeps .belowHundred s := by
  show Orderly _ _ _ (belowHundred s)
  unfold belowHundred
  split
  · next n h => exact ⟨rfl, State.remaining_pos h⟩
  · next n h => exact ⟨rfl, State.remaining_pos h⟩
  · next n h =>
    have pos := State.remaining_pos h
    split
    · refine orderly_move pos fun s₁ e₁ => ?_
      split
      · next d h₁ =>
        have two := State.one_lt_remaining h₁
        refine orderly_move (by omega) fun s₂ e₂ => ⟨rfl, ?_⟩
        show 1 ≤ s₂.remaining
        omega
      · trivial
    · exact ⟨rfl, pos⟩
  · trivial

theorem keeps_belowThousand : Keeps .belowThousand s := by
  show Orderly _ _ _ (belowThousand s)
  unfold belowThousand
  split
  · next n h =>
    have pos := State.remaining_pos h
    split
    · next h' =>
      have two := State.one_lt_remaining h'
      refine orderly_move pos fun s₁ e₁ => ?_
      split
      · refine orderly_move (by omega) fun s₂ e₂ => ?_
        refine orderly_enter (Nat.zero_le _) (below_of_lt (by omega)) fun m s₃ _ left => ?_
        exact ⟨rfl, left⟩
      · refine ⟨rfl, ?_⟩
        show 1 ≤ s₁.remaining
        omega
    · exact ⟨rfl, pos⟩
  · refine orderly_last (Nat.zero_le _) (below_of_rank (Nat.le_refl _) rfl) fun m s₁ left => ?_
    exact ⟨rfl, left⟩

theorem keeps_magnitude (needs : 1 ≤ s.remaining) : Keeps .magnitude s := by
  show Orderly _ _ _ (magnitude s)
  unfold magnitude
  split
  · next m h =>
    have two := State.one_lt_remaining h
    refine orderly_move needs fun s₁ e₁ => ⟨rfl, ?_⟩
    show 1 ≤ s₁.remaining
    omega
  · exact ⟨rfl, needs⟩

theorem keeps_groups {sign total : Int} {last : Option Nat} : Keeps (.groups sign total last) s := by
  show Orderly _ _ _ (groups sign total last s)
  refine orderly_enter (Nat.zero_le _) (below_of_rank (Nat.le_refl _) rfl) fun group s₁ le₁ pos₁ => ?_
  refine orderly_enter pos₁ (below_of_rank le₁ rfl) fun m s₂ le₂ pos₂ => ?_
  dsimp only
  split
  · trivial
  · split
    · exact ⟨rfl, pos₂⟩
    · refine orderly_move pos₂ fun s₃ e₃ => ?_
      have pos : 0 < s₂.remaining := pos₂
      refine orderly_last (Nat.zero_le _) (below_of_lt (by omega)) fun n s₄ left => ?_
      exact ⟨rfl, left⟩

theorem keeps_cardinal : Keeps .cardinal s := by
  show Orderly _ _ _ (cardinal s)
  unfold cardinal
  split
  · next h => exact ⟨rfl, State.remaining_pos h⟩
  · next h =>
    have pos := State.remaining_pos h
    refine orderly_move pos fun s₁ e₁ => ?_
    refine orderly_last (Nat.zero_le _) (below_of_lt (by omega)) fun n s₂ left => ?_
    exact ⟨rfl, left⟩
  · refine orderly_last (Nat.zero_le _) (below_of_rank (Nat.le_refl _) rfl) fun n s₁ left => ?_
    exact ⟨rfl, left⟩

/-! ## Literals and searches -/

theorem keeps_numeralOf {cardinal : Int} : Keeps (.numeralOf cardinal) s := by
  show Orderly _ _ _ (numeralOf cardinal s)
  unfold numeralOf
  split
  · next h =>
    have two := State.one_lt_remaining h
    refine orderly_move (by omega) fun s₁ e₁ => ?_
    split
    · refine orderly_move (by omega) fun s₂ e₂ => ?_
      split
      · trivial
      · split
        · next h₂ =>
          have two₂ := State.one_lt_remaining h₂
          refine orderly_move (by omega) fun s₃ e₃ => ?_
          split
          · refine ⟨rfl, ?_⟩
            show 1 ≤ s₃.remaining
            omega
          · trivial
        · trivial
    · trivial
  · trivial

theorem keeps_integerLiteral : Keeps .integerLiteral s := by
  show Orderly _ _ _ (integerLiteral s)
  refine orderly_enter (Nat.zero_le _) (below_of_rank (Nat.le_refl _) rfl) fun n s₁ le₁ _ => ?_
  refine orderly_last (Nat.zero_le _) (below_of_rank le₁ rfl) fun e s₂ left => ?_
  exact ⟨rfl, left⟩

theorem keeps_seek {wanted : Kind → Bool} : Keeps (.seek wanted) s := by
  show Orderly _ _ _ (seek wanted s)
  unfold seek
  split
  · trivial
  · next k h =>
    have pos := State.remaining_pos h
    split
    · exact ⟨rfl, pos⟩
    · split
      · trivial
      · refine orderly_move pos fun s₁ e₁ => ?_
        refine orderly_last (Nat.zero_le _) (below_of_lt (by omega)) fun _ s₂ left => ?_
        exact ⟨rfl, left⟩

theorem keeps_seekNext {wanted : Kind → Bool} (needs : 1 ≤ s.remaining) :
    Keeps (.seekNext wanted) s := by
  show Orderly _ _ _ (seekNext wanted s)
  unfold seekNext
  split
  · exact ⟨rfl, needs⟩
  · next k h =>
    have two := State.one_lt_remaining h
    split
    · exact ⟨rfl, two⟩
    · split
      · exact ⟨rfl, needs⟩
      · refine orderly_move needs fun s₁ e₁ => ?_
        have pos₁ : 1 ≤ s₁.remaining := by omega
        refine orderly_last pos₁ (below_of_lt (by omega)) fun found s₂ left => ?_
        exact ⟨rfl, left⟩

/-! ## Expressions -/

theorem keeps_operand : Keeps .operand s := by
  show Orderly _ _ _ (operand s)
  refine orderly_enter (Nat.zero_le _) (below_of_rank (Nat.le_refl _) rfl) fun _ s₁ le₁ left₁ => ?_
  have pos₁ : 0 < s₁.remaining := left₁
  dsimp only
  split
  · refine orderly_last (Nat.zero_le _) (below_of_rank le₁ rfl) fun e s₂ left => ?_
    exact ⟨rfl, left⟩
  · trivial
  · exact ⟨rfl, pos₁⟩
  · exact ⟨State.cursor_use s₁ _, pos₁⟩
  · refine orderly_move pos₁ fun s₂ e₂ => ?_
    refine orderly_enter (Nat.zero_le _) (below_of_lt (by omega)) fun e s₃ _ left₃ => ?_
    exact ⟨rfl, left₃⟩
  · refine orderly_move pos₁ fun s₂ e₂ => ?_
    refine orderly_enter (Nat.zero_le _) (below_of_lt (by omega)) fun a s₃ le₃ left₃ => ?_
    have pos₃ : 0 < s₃.remaining := left₃
    refine orderly_move pos₃ fun s₄ e₄ => ?_
    refine orderly_enter (Nat.zero_le _) (below_of_lt (by omega)) fun b s₅ _ left₅ => ?_
    exact ⟨rfl, left₅⟩
  · trivial

theorem keeps_suffixes {floor : Tier} {e : Expr} (needs : 1 ≤ s.remaining) :
    Keeps (.suffixes floor e) s := by
  show Orderly _ _ _ (suffixes floor e s)
  unfold suffixes
  split
  · next h =>
    have two := State.one_lt_remaining h
    split
    · refine orderly_move needs fun s₁ e₁ => orderly_move (by omega) fun s₂ e₂ => ?_
      refine orderly_enter (Nat.zero_le _) (below_of_lt (by omega)) fun right s₃ le₃ pos₃ => ?_
      refine orderly_last pos₃ (below_of_lt (by omega)) fun e' s₄ left => ?_
      exact ⟨rfl, left⟩
    · exact ⟨rfl, needs⟩
  · next op h =>
    have two := State.one_lt_remaining h
    split
    · refine orderly_move needs fun s₁ e₁ => ?_
      have pos₁ : 1 ≤ s₁.remaining := by omega
      refine orderly_last pos₁ (below_of_lt (by omega)) fun e' s₂ left => ?_
      exact ⟨rfl, left⟩
    · exact ⟨rfl, needs⟩
  · exact ⟨rfl, needs⟩

theorem keeps_expression {floor : Tier} : Keeps (.expression floor) s := by
  show Orderly _ _ _ (expression floor s)
  refine orderly_enter (Nat.zero_le _) (below_of_rank (Nat.le_refl _) rfl) fun e s₁ le₁ pos₁ => ?_
  refine orderly_last pos₁ (below_of_rank le₁ rfl) fun e' s₂ left => ?_
  exact ⟨rfl, left⟩

/-! ## Clauses -/

theorem keeps_declaration (needs : 1 ≤ s.remaining) : Keeps .declaration s := by
  show Orderly _ _ _ (declaration s)
  refine orderly_move needs fun s₁ e₁ => ?_
  refine orderly_enter (Nat.zero_le _) (below_of_lt (by omega)) fun _ s₂ le₂ left₂ => ?_
  have pos₂ : 0 < s₂.remaining := left₂
  refine orderly_move pos₂ fun s₃ e₃ => ?_
  refine orderly_enter (Nat.zero_le _) (below_of_lt (by omega)) fun value s₄ _ left₄ => ?_
  exact ⟨State.cursor_declare s₄ _, left₄⟩

theorem keeps_recital (needs : 1 ≤ s.remaining) : Keeps .recital s := by
  show Orderly _ _ _ (recital s)
  refine orderly_enter needs (below_of_rank (Nat.le_refl _) rfl) fun found s₁ le₁ left₁ => ?_
  dsimp only
  split
  · exact ⟨rfl, left₁⟩
  · have two : 2 ≤ s₁.remaining := left₁
    refine orderly_move (by omega) fun s₂ e₂ => ?_
    have pos₂ : 1 ≤ s₂.remaining := by omega
    refine orderly_enter pos₂ (below_of_lt (by omega)) fun d s₃ _ left₃ => ?_
    exact ⟨rfl, left₃⟩

theorem keeps_assumption (needs : 2 ≤ s.remaining) : Keeps .assumption s := by
  show Orderly _ _ _ (assumption s)
  have same : (s.use s.literal).remaining = s.remaining := State.remaining_use s _
  rw [← State.cursor_use s s.literal]
  refine orderly_move (by omega) fun s₁ e₁ => orderly_move (by omega) fun s₂ e₂ => ?_
  refine orderly_enter (Nat.zero_le _) (below_of_lt (by omega)) fun value s₃ _ left₃ => ?_
  exact ⟨rfl, left₃⟩

theorem keeps_publication (needs : 1 ≤ s.remaining) : Keeps .publication s := by
  show Orderly _ _ _ (publication s)
  refine orderly_move needs fun s₁ e₁ => ?_
  refine orderly_enter (Nat.zero_le _) (below_of_lt (by omega)) fun value s₂ _ left₂ => ?_
  exact ⟨rfl, left₂⟩

theorem keeps_action (needs : 1 ≤ s.remaining) : Keeps .action s := by
  show Orderly _ _ _ (action s)
  unfold action
  split
  · next h =>
    have two : 2 ≤ s.remaining := State.one_lt_remaining h.2
    refine orderly_enter two (below_of_rank (Nat.le_refl _) rfl) fun a s₁ _ left₁ => ?_
    exact ⟨rfl, left₁⟩
  · split
    · exact ⟨rfl, needs⟩
    · next k h =>
      have two := State.one_lt_remaining h
      split
      · exact ⟨rfl, needs⟩
      · refine orderly_move needs fun s₁ e₁ => ?_
        have pos₁ : 1 ≤ s₁.remaining := by omega
        have below {r : Routine} : Below (r, s₁) (.action, s) := below_of_lt (by omega)
        split
        · exact orderly_enter pos₁ below fun a s₂ _ left₂ => ⟨rfl, left₂⟩
        · split
          · exact orderly_last pos₁ below fun a s₂ left => ⟨rfl, left⟩
          · exact orderly_last pos₁ below fun a s₂ left => ⟨rfl, left⟩

theorem keeps_conditional (needs : 1 ≤ s.remaining) : Keeps .conditional s := by
  show Orderly _ _ _ (conditional s)
  refine orderly_move needs fun s₁ e₁ => ?_
  refine orderly_enter (Nat.zero_le _) (below_of_lt (by omega)) fun left s₂ le₂ pos₂ => ?_
  refine orderly_enter pos₂ (below_of_lt (by omega)) fun found s₃ le₃ left₃ => ?_
  dsimp only
  split
  · have two : 2 ≤ s₃.remaining := left₃
    refine orderly_move (by omega) fun s₄ e₄ => orderly_move (by omega) fun s₅ e₅ => ?_
    refine orderly_enter (Nat.zero_le _) (below_of_lt (by omega)) fun right s₆ le₆ pos₆ => ?_
    refine orderly_enter pos₆ (below_of_lt (by omega)) fun consequence s₇ _ left₇ => ?_
    cases consequence with
    | none => exact ⟨rfl, left₇⟩
    | some a => exact ⟨rfl, left₇⟩
  · refine ⟨rfl, ?_⟩
    cases found with
    | none => exact left₃
    | some k => exact Nat.le_of_succ_le left₃

theorem keeps_earlyAction : Keeps .earlyAction s := by
  show Orderly _ _ _ (earlyAction s)
  unfold earlyAction
  split
  · trivial
  · next k h =>
    have pos := State.remaining_pos h
    split
    · trivial
    · refine orderly_move pos fun s₁ e₁ => ?_
      exact orderly_last (Nat.zero_le _) (below_of_lt (by omega)) fun never => never.elim

theorem keeps_clauses {d : Draft} : Keeps (.clauses d) s := by
  show Orderly _ _ _ (clauses d s)
  unfold clauses
  split
  · exact ⟨rfl, Nat.zero_le _⟩
  · next k h =>
    have pos : 0 < s.remaining := State.remaining_pos h
    -- The clause ends on a token, so the reader of the next clause is further on.
    have onward {s₁ : State} (d' : Draft) (le : s₁.remaining ≤ s.remaining)
        (pos₁ : 0 < s₁.remaining) : Orderly (.clauses d, s) (Ends (.clauses d)) s₁.cursor
          (move s₁ >>= enter (.clauses d')) := by
      refine orderly_move pos₁ fun s₂ e₂ => ?_
      refine orderly_last (Nat.zero_le _) (below_of_lt (by omega)) fun d'' s₃ left => ?_
      exact ⟨rfl, left⟩
    split
    · split
      · trivial
      · refine orderly_enter pos (below_of_rank (Nat.le_refl _) rfl) fun recital s₁ le₁ pos₁ => ?_
        exact onward _ le₁ pos₁
    · split
      · split
        · refine orderly_enter (Nat.zero_le _) (below_of_rank (Nat.le_refl _) rfl) ?_
          exact fun never => never.elim
        · refine orderly_enter pos (below_of_rank (Nat.le_refl _) rfl) fun action s₁ le₁ pos₁ => ?_
          exact onward _ le₁ pos₁
      · exact onward _ (Nat.le_refl _) pos

theorem keeps_resolution : Keeps .resolution s := by
  show Orderly _ _ _ (resolution s)
  unfold resolution
  split
  · refine orderly_enter (Nat.zero_le _) (below_of_rank (Nat.le_refl _) rfl) fun d s₁ _ _ => ?_
    dsimp only
    split
    · exact ⟨rfl, Nat.zero_le _⟩
    · trivial
  · trivial

/-- Every reader is orderly where it finds as many tokens as it needs. -/
theorem keeps {r : Routine} (needs : r.needs ≤ s.remaining) : Keeps r s := by
  cases r with
  | belowHundred => exact keeps_belowHundred
  | belowThousand => exact keeps_belowThousand
  | magnitude => exact keeps_magnitude needs
  | groups sign total last => exact keeps_groups
  | cardinal => exact keeps_cardinal
  | numeralOf cardinal => exact keeps_numeralOf
  | integerLiteral => exact keeps_integerLiteral
  | seek wanted => exact keeps_seek
  | seekNext wanted => exact keeps_seekNext needs
  | operand => exact keeps_operand
  | suffixes floor e => exact keeps_suffixes needs
  | expression floor => exact keeps_expression
  | declaration => exact keeps_declaration needs
  | recital => exact keeps_recital needs
  | assumption => exact keeps_assumption needs
  | publication => exact keeps_publication needs
  | action => exact keeps_action needs
  | conditional => exact keeps_conditional needs
  | earlyAction => exact keeps_earlyAction
  | clauses d => exact keeps_clauses
  | resolution => exact keeps_resolution

end Program
end Legalese
