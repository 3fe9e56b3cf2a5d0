import Legalese.Proofs.Written.Cardinal

/-!
# Reading an integer literal

There are two ways in which the reader of integer literals can come to its end.  Either the
words of a number stand at the cursor, and after them the numeral of a number in
parentheses; then the literal is accepted if the two numbers are the same, and refused for
their disagreement if not.  Or anything else stands there, and then the literal is refused
for what is wrong with its words, its numeral or its parentheses.
-/

namespace Legalese

/-- The tokens of a numeral in parentheses. -/
def Integer.numeralTokens (n : Int) : List Token :=
  [⟨.openParen, "("⟩, ⟨.numeral, Numeral.write n⟩, ⟨.closeParen, ")"⟩]

/-- An error in a literal that is not a disagreement. -/
def Error.Malformed (e : Error) : Prop :=
  ErrorClass.literal ∈ e.cls.wider ∧ e.cls ≠ .disagreement

theorem Error.malformed_cardinal (f : CardinalFault) : (Error.cardinal f).Malformed :=
  ⟨List.mem_cons_self, nofun⟩

theorem Error.malformed_numeral (s : String) : (Error.numeral s).Malformed :=
  ⟨List.mem_cons_self, nofun⟩

theorem Error.malformed_integer (f : IntegerFault) : (Error.integer f).Malformed :=
  ⟨List.mem_cons_self, nofun⟩

/-! ## Faults of cardinals -/

namespace Cardinal

open Cursor

/-- The reader of cardinals, with no unclosed text ahead, fails for a fault of the words. -/
def Faulty {α : Type} (x : Except Error α) : Prop := ∀ e, x = .error e → ∃ f, e = .cardinal f

theorem faulty_ok {α : Type} (a : α) : Faulty (Except.ok a) := nofun

theorem faulty_error {α : Type} (f : CardinalFault) : Faulty (Except.error (.cardinal f) : Except Error α) := by
  intro e h
  cases h
  exact ⟨f, rfl⟩

theorem Faulty.bind {α β : Type} {x : Except Error α} {f : α → Except Error β} (h : Faulty x)
    (next : ∀ a, x = .ok a → Faulty (f a)) : Faulty (x >>= f) := by
  intro e he
  rcases bind_eq_error.1 he with he | ⟨a, ha, he⟩
  · exact h e he
  · exact next a ha e he

theorem faulty_moved {c : Cursor} (closed : c.unclosed = none) : Faulty c.moved := by
  rw [moved_closed closed]
  exact faulty_ok _

theorem faulty_belowHundred {c : Cursor} (closed : c.unclosed = none) :
    Faulty (yield (belowHundred c)) := by
  rw [yield_belowHundred]
  split
  · exact faulty_ok _
  · exact faulty_ok _
  · split
    · refine (faulty_moved closed).bind fun c₁ moved => ?_
      have closed₁ : c₁.unclosed = none := (follows_of_moved moved).unclosed_eq.trans closed
      split
      · exact (faulty_moved closed₁).bind fun _ _ => faulty_ok _
      · exact faulty_error _
    · exact faulty_ok _
  · exact faulty_error _

theorem faulty_belowThousand {c : Cursor} (closed : c.unclosed = none) :
    Faulty (yield (belowThousand c)) := by
  rw [yield_belowThousand]
  split
  · split
    · refine (faulty_moved closed).bind fun c₁ moved₁ => ?_
      have closed₁ : c₁.unclosed = none := (follows_of_moved moved₁).unclosed_eq.trans closed
      split
      · refine (faulty_moved closed₁).bind fun c₂ moved₂ => ?_
        have closed₂ : c₂.unclosed = none := (follows_of_moved moved₂).unclosed_eq.trans closed₁
        exact (faulty_belowHundred closed₂).bind fun _ _ => faulty_ok _
      · exact faulty_ok _
    · exact faulty_ok _
  · exact faulty_belowHundred closed

theorem faulty_magnitude {c : Cursor} (closed : c.unclosed = none) :
    Faulty (yield (magnitude c)) := by
  rw [yield_magnitude]
  split
  · exact (faulty_moved closed).bind fun _ _ => faulty_ok _
  · exact faulty_ok _

theorem faulty_addGroup (sign total : Int) (last : Option Nat) (group magnitude : Nat) :
    Faulty (addGroup sign total last group magnitude) := by
  unfold addGroup
  split
  · exact faulty_error _
  · split
    · exact faulty_error _
    · dsimp only
      split
      · exact faulty_ok _
      · exact faulty_error _

theorem faulty_groups {sign total : Int} {last : Option Nat} {c : Cursor}
    (closed : c.unclosed = none) : Faulty (yield (groups sign total last c)) := by
  rw [yield_groups]
  refine (faulty_belowThousand closed).bind fun ⟨g, c₁⟩ h₁ => ?_
  have follows₁ := follows_of_belowThousand h₁
  refine (faulty_magnitude (follows₁.unclosed_eq.trans closed)).bind fun ⟨m, c₂⟩ h₂ => ?_
  have follows₂ := follows₁.trans (follows_of_magnitude h₂)
  have closed₂ : c₂.unclosed = none := follows₂.unclosed_eq.trans closed
  refine (faulty_addGroup sign total last g m).bind fun t _ => ?_
  split
  · exact faulty_ok _
  · next more =>
    refine (faulty_moved closed₂).bind fun c₃ moved => ?_
    have shorter : c₃.remaining < c.remaining := by
      obtain ⟨k, hk⟩ := nextKind?_of_more more
      have := one_lt_remaining_of_nextKind? hk
      have := remaining_of_moved moved
      have := follows₂.remaining_le
      omega
    exact faulty_groups ((follows_of_moved moved).unclosed_eq.trans closed₂)
termination_by c.remaining

theorem faulty_read {c : Cursor} (closed : c.unclosed = none) : Faulty (yield (read c)) := by
  rw [yield_read]
  split
  · exact faulty_ok _
  · refine (faulty_moved closed).bind fun c₁ moved => ?_
    exact faulty_groups ((follows_of_moved moved).unclosed_eq.trans closed)
  · exact faulty_groups closed

end Cardinal

/-! ## The numeral -/

namespace State

open Grammar (kindAt kindAt_eq_some)

theorem numeralOf_tokens {s : State} {t : Token} {rest : List Token} {c n : Int} (inRange : InRange n)
    (place : s.cursor = ⟨t :: (Integer.numeralTokens n ++ rest), none⟩) :
    yield (s.numeralOf c) =
      if c = n then .ok (.integer c, s.moveTo ⟨⟨.closeParen, ")"⟩ :: rest, none⟩)
      else s.fail (.disagreement c n) := by
  rw [yield_numeralOf, nextKind?_cons place, if_pos rfl, moved_closed place, ok_bind]
  refine (if_pos (.inl rfl)).trans ?_
  rw [moved_closed rfl, ok_bind]
  rw [show State.literal _ = Numeral.write n from rfl, Numeral.read?_write inRange]
  refine (if_pos rfl).trans ?_
  rw [moved_closed rfl, ok_bind]
  rfl

theorem kindAt_of_place {s : State} {t : Token} {rest : List Token}
    (place : s.cursor = ⟨t :: rest, none⟩) : kindAt rest = s.nextKind? := by
  rw [nextKind?_eq, place]
  rfl

/-- The kinds of parentheses fix their spelling, and a dash is not a numeral. -/
theorem enclosed_of_lexed {l m r : Token} {rest : List Token} {n : Int} (opened : l.kind = .openParen)
    (numeral : m.kind = .numeral ∨ m.kind = .dash) (closed : r.kind = .closeParen)
    (agrees : Numeral.read? m.literal = some n) (lexed : ∀ x ∈ l :: m :: r :: rest, x.Lexed) :
    ∃ n rest', InRange n ∧ l :: m :: r :: rest = Integer.numeralTokens n ++ rest' := by
  obtain ⟨inRange, spelling⟩ := Numeral.read?_eq_some_iff.1 agrees
  have opening := (lexed l (by simp)).eq_of_mark opened rfl
  have closing := (lexed r (by simp)).eq_of_mark closed rfl
  have middle : m = ⟨.numeral, Numeral.write n⟩ := by
    rcases numeral with h | h
    · rw [← h, ← spelling]
    · rw [(lexed m (by simp)).eq_of_mark h rfl] at agrees
      cases agrees
  exact ⟨n, rest, inRange, by rw [opening, middle, closing]; rfl⟩

/-- After a cardinal there is a numeral in parentheses, or else the literal is malformed. -/
theorem numeralOf_cases {s : State} {t : Token} {rest : List Token}
    (place : s.cursor = ⟨t :: rest, none⟩) (lexed : ∀ x ∈ rest, x.Lexed) (c : Int) :
    (∃ n rest', InRange n ∧ rest = Integer.numeralTokens n ++ rest') ∨
      ∃ f, yield (s.numeralOf c) = .error f ∧ f.error.Malformed := by
  rw [yield_numeralOf]
  by_cases opened : s.nextKind? = some .openParen
  · obtain ⟨l, rest, rfl, hl⟩ := kindAt_eq_some ((kindAt_of_place place).trans opened)
    let s₁ := s.moveTo ⟨l :: rest, none⟩
    have moved₁ : s.moved = .ok s₁ := moved_closed place
    rw [if_pos opened, moved₁, ok_bind]
    by_cases numeral : s₁.nextKind? = some .numeral ∨ s₁.nextKind? = some .dash
    · obtain ⟨m, rest, rfl, hm⟩ : ∃ m r, rest = m :: r ∧ (m.kind = .numeral ∨ m.kind = .dash) := by
        rcases numeral with h | h
        · obtain ⟨m, r, e, hm⟩ := kindAt_eq_some h
          exact ⟨m, r, e, .inl hm⟩
        · obtain ⟨m, r, e, hm⟩ := kindAt_eq_some h
          exact ⟨m, r, e, .inr hm⟩
      let s₂ := s₁.moveTo ⟨m :: rest, none⟩
      have place₁ : s₁.cursor = ⟨l :: m :: rest, none⟩ := rfl
      have moved₂ : s₁.moved = .ok s₂ := moved_closed place₁
      have literal : s₂.literal = m.literal := rfl
      rw [if_pos numeral, moved₂, ok_bind, literal]
      cases agrees : Numeral.read? m.literal with
      | none => exact .inr ⟨_, rfl, Error.malformed_numeral _⟩
      | some n =>
        dsimp only
        by_cases closed : s₂.nextKind? = some .closeParen
        · left
          obtain ⟨r, rest, rfl, hr⟩ := kindAt_eq_some closed
          exact enclosed_of_lexed hl hm hr agrees lexed
        · rw [if_neg closed]
          exact .inr ⟨_, rfl, Error.malformed_integer _⟩
    · rw [if_neg numeral]
      exact .inr ⟨_, rfl, Error.malformed_integer _⟩
  · rw [if_neg opened]
    exact .inr ⟨_, rfl, Error.malformed_integer _⟩

/-! ## The literal -/

theorem integerLiteral_of_alike {s : State} {c n : Int} {us rest : List Token} (hc : InRange c)
    (hn : InRange n) (alike : List.Forall₂ Token.Alike us (Cardinal.tokens c))
    (place : s.cursor = ⟨us ++ (Integer.numeralTokens n ++ rest), none⟩) :
    yield s.integerLiteral =
      if c = n then .ok (.integer c, s.moveTo ⟨⟨.closeParen, ")"⟩ :: rest, none⟩)
      else s.fail (.disagreement c n) := by
  have read := Cardinal.read_of_alike hc alike
    (Cardinal.endsCardinal_openParen "(" (⟨.numeral, Numeral.write n⟩ :: ⟨.closeParen, ")"⟩ :: rest))
  have ne : us ≠ [] := by
    rintro rfl
    exact Cardinal.tokens_ne_nil hc (List.forall₂_nil_left_iff.1 alike)
  have words : Cardinal.yield (Cardinal.read s.cursor) =
      .ok (c, ⟨us.getLast ne :: (Integer.numeralTokens n ++ rest), none⟩) := by
    rw [Cardinal.standing, List.getLast?_eq_some_getLast ne] at read
    rw [place]
    exact read
  rw [yield_integerLiteral, words]
  exact numeralOf_tokens hn rfl

theorem integerLiteral_cases {s : State} (closed : s.cursor.unclosed = none)
    (lexed : s.cursor.Lexed) :
    (∃ c n us rest, InRange c ∧ InRange n ∧ List.Forall₂ Token.Alike us (Cardinal.tokens c) ∧
        s.cursor = ⟨us ++ (Integer.numeralTokens n ++ rest), none⟩) ∨
      ∃ f, yield s.integerLiteral = .error f ∧ f.error.Malformed := by
  rw [yield_integerLiteral]
  cases read : Cardinal.yield (Cardinal.read s.cursor) with
  | error e =>
    obtain ⟨f, rfl⟩ := Cardinal.faulty_read closed e read
    exact .inr ⟨_, rfl, Error.malformed_cardinal f⟩
  | ok a =>
    obtain ⟨c, d⟩ := a
    obtain ⟨hc, passes⟩ := Cardinal.passes_of_read lexed read
    obtain ⟨us, rest, alike, ne, tokens, place⟩ := passes.exists_rest
    rw [List.getLast?_eq_some_getLast ne, closed] at place
    have after : ∀ x ∈ rest, x.Lexed := fun x hx =>
      lexed x (by rw [tokens]; exact List.mem_append_right us hx)
    rcases numeralOf_cases (s := s.moveTo d) place after c with ⟨n, rest, hn, rfl⟩ | malformed
    · refine .inl ⟨c, n, us, rest, hc, hn, alike, ?_⟩
      rw [← tokens, ← closed]
    · exact .inr malformed

end State
end Legalese
