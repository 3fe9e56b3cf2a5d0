import Legalese.Proofs.Reading.Derivation

/-!
# Readings that run alike

Two readings run alike when they see the same at every place they come to: tokens of the
same kind, spelled the same where a reader looks at the spelling, or else both of them the
end of the clause, which may be the end of the text or the head of another clause.  Then
they read the same, or fail for the same cause.

`Simulation` says this of a relation between cursors.  The register, the errors and the
notes do not matter: no reader looks at them.
-/

namespace Legalese

/-! ## Computations side by side -/

/-- Both computations fail, or both have a result. -/
inductive Together {ε ε' α β : Type} (E : ε → ε' → Prop) (P : α → β → Prop) :
    Except ε α → Except ε' β → Prop
  | ok {a : α} {b : β} (h : P a b) : Together E P (.ok a) (.ok b)
  | error {e : ε} {e' : ε'} (h : E e e') : Together E P (.error e) (.error e')

namespace Together

variable {ε ε' α β γ δ : Type} {E : ε → ε' → Prop} {P P' : α → β → Prop} {Q : γ → δ → Prop}

theorem bind {x : Except ε α} {y : Except ε' β} {f : α → Except ε γ} {g : β → Except ε' δ}
    (h : Together E P x y)
    (next : ∀ a b, x = .ok a → y = .ok b → P a b → Together E Q (f a) (g b)) :
    Together E Q (x >>= f) (y >>= g) := by
  cases h with
  | ok h => exact next _ _ rfl rfl h
  | error h => exact .error h

theorem mono {x : Except ε α} {y : Except ε' β} (h : Together E P x y)
    (weaker : ∀ a b, x = .ok a → y = .ok b → P a b → P' a b) : Together E P' x y := by
  cases h with
  | ok h => exact .ok (weaker _ _ rfl rfl h)
  | error h => exact .error h

theorem ite {p q : Prop} [Decidable p] [Decidable q] {x x' : Except ε α} {y y' : Except ε' β}
    (iff : p ↔ q) (pos : q → Together E P x y) (neg : ¬q → Together E P x' y') :
    Together E P (if p then x else x') (if q then y else y') := by
  by_cases hq : q
  · rw [if_pos hq, if_pos (iff.2 hq)]
    exact pos hq
  · rw [if_neg hq, if_neg fun hp => hq (iff.1 hp)]
    exact neg hq

theorem ok_right {x : Except ε α} {b : β} (h : Together E P x (.ok b)) :
    ∃ a, x = .ok a ∧ P a b := by
  cases h with
  | ok h => exact ⟨_, rfl, h⟩

theorem error_right {x : Except ε α} {e' : ε'} (h : Together E P x (.error e')) :
    ∃ e, x = .error e ∧ E e e' := by
  cases h with
  | error h => exact ⟨_, rfl, h⟩

end Together

/-! ## Causes of failure -/

/-- An error without the spelling of the token at which it arose. -/
def Error.unquoted : Error → Error
  | .unrecognizedExpression _ => .unrecognizedExpression ""
  | .cardinal (.unexpected _) => .cardinal (.unexpected "")
  | .cardinal (.tensWithoutDigit _) => .cardinal (.tensWithoutDigit "")
  | e => e

/-- Two errors that stop a reading, for the same cause. -/
structure Error.SameFault (e e' : Error) : Prop where
  unquoted : e.unquoted = e'.unquoted
  single : ∀ es r, e ≠ .names es r

theorem Error.cls_unquoted (e : Error) : e.unquoted.cls = e.cls := by
  unfold unquoted
  split <;> rfl

theorem Error.SameFault.cls_eq {e e' : Error} (h : e.SameFault e') : e.cls = e'.cls := by
  rw [← cls_unquoted e, h.unquoted, cls_unquoted]

/-! ## Places that look alike -/

/-- The kinds of which a reader also looks at the spelling. -/
def Kind.isSpelled : Kind → Bool
  | name => true
  | numeral => true
  | text => true
  | dash => true
  | _ => false

structure Token.Alike (t t' : Token) : Prop where
  kind : t.kind = t'.kind
  literal : t'.kind.isSpelled = true → t.literal = t'.literal

theorem Token.Alike.refl (t : Token) : t.Alike t := ⟨rfl, fun _ => rfl⟩

/-- What stands after the last token of a clause. -/
def EndsClause (p : Option Token) : Prop := ∀ t, p = some t → t.kind.opensClause = true

inductive PlacesAlike : Option Token → Option Token → Prop
  | token {t t' : Token} (h : t.Alike t') (stays : t'.kind.opensClause = false) :
      PlacesAlike (some t) (some t')
  | ended {p p' : Option Token} (h : EndsClause p) (h' : EndsClause p') : PlacesAlike p p'

theorem PlacesAlike.refl (p : Option Token) : PlacesAlike p p := by
  cases p with
  | none => exact .ended nofun nofun
  | some t =>
    cases h : t.kind.opensClause with
    | false => exact .token (.refl t) h
    | true =>
      have ends : EndsClause (some t) := fun x hx => by cases hx; exact h
      exact .ended ends ends

/-- What two places that look alike have to do with their kinds. -/
inductive KindsAlike (a b : Option Kind) : Prop
  | same {k : Kind} (h : a = some k) (h' : b = some k) (stays : k.opensClause = false)
  | ended (h : a = none ∨ a = some .whereas ∨ a = some .resolved)
      (h' : b = none ∨ b = some .whereas ∨ b = some .resolved)

theorem EndsClause.kind {p : Option Token} (h : EndsClause p) :
    p.map (·.kind) = none ∨ p.map (·.kind) = some .whereas ∨ p.map (·.kind) = some .resolved := by
  cases p with
  | none => exact .inl rfl
  | some t =>
    have ht := h t rfl
    rw [Option.map_some]
    cases hk : t.kind with
    | whereas => exact .inr (.inl rfl)
    | resolved => exact .inr (.inr rfl)
    | _ => rw [hk] at ht; cases ht

theorem PlacesAlike.kinds {p p' : Option Token} (h : PlacesAlike p p') :
    KindsAlike (p.map (·.kind)) (p'.map (·.kind)) := by
  cases h with
  | token h stays => exact .same (congrArg some h.kind) rfl stays
  | ended h h' => exact .ended h.kind h'.kind

/-! ## Simulations -/

/-- A relation between cursors under which readers cannot tell one from the other.  It
must hold of the places reached from a token, not of those reached from the end. -/
structure Simulation (R : Cursor → Cursor → Prop) : Prop where
  current {c c' : Cursor} : R c c' → PlacesAlike c.current? c'.current?
  next {c c' : Cursor} : R c c' → c'.tokens ≠ [] → PlacesAlike c.next? c'.next?
  moved {c c' : Cursor} : R c c' → c'.tokens ≠ [] → Together Error.SameFault R c.moved c'.moved

/-- Two cursors that correspond, on a token. -/
def Here (R : Cursor → Cursor → Prop) (c c' : Cursor) : Prop := R c c' ∧ c'.tokens ≠ []

theorem Cursor.error_of_moved {c : Cursor} {e : Error} (h : c.moved = .error e) :
    ∃ literal, e = .unclosedText literal := by
  rw [moved_eq] at h
  cases hv : view c.tokens.tail c.unclosed with
  | ok d => rw [hv] at h; cases h
  | error literal => rw [hv] at h; cases h; exact ⟨literal, rfl⟩

/-- Every reading runs like itself. -/
theorem simulation_eq : Simulation Eq where
  current h := h ▸ .refl _
  next h _ := h ▸ .refl _
  moved {c c'} h _ := by
    subst h
    cases hm : c.moved with
    | ok d => exact .ok rfl
    | error e =>
      obtain ⟨literal, rfl⟩ := Cursor.error_of_moved hm
      exact .error ⟨rfl, nofun⟩

theorem tokens_ne_nil_of_kind? {c : Cursor} {k : Kind} (h : c.kind? = some k) : c.tokens ≠ [] := by
  have := Cursor.remaining_pos_of_kind? h
  intro e
  simp [Cursor.remaining, e] at this

namespace Simulation

variable {R : Cursor → Cursor → Prop}

theorem kind? (sim : Simulation R) {c c' : Cursor} (h : R c c') : KindsAlike c.kind? c'.kind? :=
  (sim.current h).kinds

theorem nextKind? (sim : Simulation R) {c c' : Cursor} (h : Here R c c') :
    KindsAlike c.nextKind? c'.nextKind? :=
  (sim.next h.1 h.2).kinds

theorem literal (sim : Simulation R) {c c' : Cursor} {k : Kind} (h : R c c')
    (hk : c'.kind? = some k) (stays : k.opensClause = false) (spelled : k.isSpelled = true) :
    c.literal = c'.literal := by
  obtain ⟨t, ht, rfl⟩ := Option.map_eq_some_iff.1 hk
  have alike := sim.current h
  unfold Cursor.literal
  rw [ht] at alike ⊢
  generalize c.current? = p at alike
  cases alike with
  | token alike _ => exact alike.literal spelled
  | ended _ ends =>
    rw [ends t rfl] at stays
    cases stays

/-- Moving on to a token that was in view. -/
theorem moved_here (sim : Simulation R) {c c' : Cursor} {k : Kind} (h : Here R c c')
    (hk : c'.nextKind? = some k) : Together Error.SameFault (Here R) c.moved c'.moved := by
  refine (sim.moved h.1 h.2).mono fun d d' _ hd' hR => ⟨hR, ?_⟩
  rw [Cursor.eq_of_moved hd']
  have := Cursor.one_lt_remaining_of_nextKind? hk
  intro e
  simp [Cursor.remaining, ← List.length_eq_zero_iff] at this e
  omega

end Simulation

/-! ## Cardinals -/

namespace Cardinal

open Error

variable {R : Cursor → Cursor → Prop} {c c' : Cursor}

/-- The same value, and corresponding places. -/
def Same {α : Type} (R : Cursor → Cursor → Prop) (a b : α × Cursor) : Prop :=
  a.1 = b.1 ∧ Here R a.2 b.2

/-- After one value on both sides the computations go on from corresponding places. -/
theorem Same.bind {α β γ : Type} {Q : β → γ → Prop} {x y : Except Error (α × Cursor)}
    {f : α × Cursor → Except Error β} {g : α × Cursor → Except Error γ}
    (h : Together SameFault (Same R) x y)
    (next : ∀ a c c', x = .ok (a, c) → y = .ok (a, c') → Here R c c' →
      Together SameFault Q (f (a, c)) (g (a, c'))) :
    Together SameFault Q (x >>= f) (y >>= g) := by
  refine h.bind fun a b hx hy same => ?_
  obtain ⟨v, c⟩ := a
  obtain ⟨v', c'⟩ := b
  obtain ⟨rfl, here⟩ := same
  exact next v c c' hx hy here

theorem belowHundred_alike (sim : Simulation R) (h : R c c') :
    Together SameFault (Same R) (yield (belowHundred c)) (yield (belowHundred c')) := by
  rw [yield_belowHundred, yield_belowHundred]
  cases sim.kind? h with
  | ended ha hb =>
    rcases ha with ha | ha | ha <;> rcases hb with hb | hb | hb <;> rw [ha, hb] <;>
      exact .error ⟨rfl, nofun⟩
  | @same k ha hb _ =>
    have h : Here R c c' := ⟨h, tokens_ne_nil_of_kind? hb⟩
    rw [ha, hb]
    cases k with
    | cardinal w =>
      cases w with
      | ones n => exact .ok ⟨rfl, h⟩
      | teens n => exact .ok ⟨rfl, h⟩
      | tens n =>
        dsimp only
        cases sim.nextKind? h with
        | ended ha hb =>
          rcases ha with ha | ha | ha <;> rcases hb with hb | hb | hb <;> rw [ha, hb] <;>
            exact .ok ⟨rfl, h⟩
        | @same k ha hb _ =>
          rw [ha, hb]
          cases k with
          | dash =>
            refine (sim.moved_here h hb).bind fun c₁ c₁' _ _ h₁ => ?_
            cases sim.nextKind? h₁ with
            | ended ha hb =>
              rcases ha with ha | ha | ha <;> rcases hb with hb | hb | hb <;> rw [ha, hb] <;>
                exact .error ⟨rfl, nofun⟩
            | @same k ha hb _ =>
              rw [ha, hb]
              cases k with
              | cardinal w =>
                cases w with
                | ones d => exact (sim.moved_here h₁ hb).bind fun _ _ _ _ h₂ => .ok ⟨rfl, h₂⟩
                | _ => exact .error ⟨rfl, nofun⟩
              | _ => exact .error ⟨rfl, nofun⟩
          | _ => exact .ok ⟨rfl, h⟩
      | _ => exact .error ⟨rfl, nofun⟩
    | _ => exact .error ⟨rfl, nofun⟩

/-- Whether a group goes on is the same on both sides. -/
theorem startsBelowHundred_alike (sim : Simulation R) (h : Here R c c') :
    (c.nextKind?.map Kind.startsBelowHundred).getD false =
      (c'.nextKind?.map Kind.startsBelowHundred).getD false := by
  cases sim.nextKind? h with
  | ended ha hb =>
    rcases ha with ha | ha | ha <;> rcases hb with hb | hb | hb <;> rw [ha, hb] <;> rfl
  | same ha hb _ => rw [ha, hb]

theorem belowThousand_alike (sim : Simulation R) (h : R c c') :
    Together SameFault (Same R) (yield (belowThousand c)) (yield (belowThousand c')) := by
  rw [yield_belowThousand, yield_belowThousand]
  have small := belowHundred_alike sim h
  cases sim.kind? h with
  | ended ha hb =>
    rcases ha with ha | ha | ha <;> rcases hb with hb | hb | hb <;> rw [ha, hb] <;> exact small
  | @same k ha hb _ =>
    have h : Here R c c' := ⟨h, tokens_ne_nil_of_kind? hb⟩
    rw [ha, hb]
    cases k with
    | cardinal w =>
      cases w with
      | ones n =>
        dsimp only
        cases sim.nextKind? h with
        | ended ha hb =>
          rcases ha with ha | ha | ha <;> rcases hb with hb | hb | hb <;> rw [ha, hb] <;>
            exact .ok ⟨rfl, h⟩
        | @same k ha hb _ =>
          rw [ha, hb]
          cases k with
          | cardinal w =>
            cases w with
            | hundred =>
              refine (sim.moved_here h hb).bind fun c₁ c₁' _ _ h₁ => ?_
              rw [startsBelowHundred_alike sim h₁]
              split
              · next more =>
                have ⟨k, hk⟩ : ∃ k, c₁'.nextKind? = some k := by
                  cases hk : c₁'.nextKind? with
                  | none => simp [hk] at more
                  | some k => exact ⟨k, rfl⟩
                refine (sim.moved_here h₁ hk).bind fun c₂ c₂' _ _ h₂ => ?_
                refine Same.bind (belowHundred_alike sim h₂.1) fun m c₃ c₃' _ _ h₃ => ?_
                exact .ok ⟨rfl, h₃⟩
              · exact .ok ⟨rfl, h₁⟩
            | _ => exact .ok ⟨rfl, h⟩
          | _ => exact .ok ⟨rfl, h⟩
      | _ => exact small
    | _ => exact small

theorem magnitude_alike (sim : Simulation R) (h : Here R c c') :
    Together SameFault (Same R) (yield (magnitude c)) (yield (magnitude c')) := by
  rw [yield_magnitude, yield_magnitude]
  cases sim.nextKind? h with
  | ended ha hb =>
    rcases ha with ha | ha | ha <;> rcases hb with hb | hb | hb <;> rw [ha, hb] <;>
      exact .ok ⟨rfl, h⟩
  | @same k ha hb _ =>
    rw [ha, hb]
    cases k with
    | cardinal w =>
      cases w with
      | magnitude m => exact (sim.moved_here h hb).bind fun _ _ _ _ h₁ => .ok ⟨rfl, h₁⟩
      | _ => exact .ok ⟨rfl, h⟩
    | _ => exact .ok ⟨rfl, h⟩

theorem addGroup_together (sign total : Int) (last : Option Nat) (group magnitude : Nat) :
    Together SameFault Eq (addGroup sign total last group magnitude)
      (addGroup sign total last group magnitude) := by
  unfold addGroup
  split
  · exact .error ⟨rfl, nofun⟩
  · split
    · exact .error ⟨rfl, nofun⟩
    · dsimp only
      split
      · exact .ok rfl
      · exact .error ⟨rfl, nofun⟩

/-- The groups of a cardinal, by induction on the tokens that are left. -/
theorem groups_alike (sim : Simulation R) (sign total : Int) (last : Option Nat)
    {c c' : Cursor} (h : R c c') :
    Together SameFault (Same R) (yield (groups sign total last c))
      (yield (groups sign total last c')) := by
  rw [yield_groups, yield_groups]
  refine Same.bind (belowThousand_alike sim h) fun group c₁ c₁' _ e₁ h₁ => ?_
  refine Same.bind (magnitude_alike sim h₁) fun m c₂ c₂' _ e₂ h₂ => ?_
  refine (addGroup_together sign total last group m).bind fun t _ _ _ ht => ?_
  subst ht
  have next := startsBelowHundred_alike sim h₂
  rw [next]
  split
  · exact .ok ⟨rfl, h₂⟩
  · next more =>
    obtain ⟨k, hk⟩ := nextKind?_of_more more
    refine (sim.moved_here h₂ hk).bind fun c₃ c₃' _ e₃ h₃ => ?_
    have shorter : c₃'.remaining < c'.remaining := by
      have : c₁'.remaining ≤ c'.remaining := (follows_of_belowThousand e₁).remaining_le
      have : c₂'.remaining ≤ c₁'.remaining := (follows_of_magnitude e₂).remaining_le
      have : 1 < c₂'.remaining := Cursor.one_lt_remaining_of_nextKind? hk
      have : c₃'.remaining = c₂'.remaining - 1 := Cursor.remaining_of_moved e₃
      omega
    exact groups_alike sim sign t (some m) h₃.1
termination_by c'.remaining

theorem read_alike (sim : Simulation R) (h : R c c') :
    Together SameFault (Same R) (yield (read c)) (yield (read c')) := by
  rw [yield_read, yield_read]
  have counted := groups_alike sim 1 0 none h
  cases sim.kind? h with
  | ended ha hb =>
    rcases ha with ha | ha | ha <;> rcases hb with hb | hb | hb <;> rw [ha, hb] <;> exact counted
  | @same k ha hb _ =>
    have h : Here R c c' := ⟨h, tokens_ne_nil_of_kind? hb⟩
    rw [ha, hb]
    cases k with
    | cardinal w =>
      cases w with
      | zero => exact .ok ⟨rfl, h⟩
      | negative =>
        refine (sim.moved h.1 h.2).bind fun c₁ c₁' _ _ h₁ => ?_
        exact groups_alike sim (-1) 0 none h₁
      | _ => exact counted
    | _ => exact counted

end Cardinal

/-! ## Searches and literals -/

/-- A failure that is not a list of name errors. -/
def Failure.Single (f : Failure) : Prop := ∀ es r, f.error ≠ .names es r

/-- The same cause of failure, whatever had been noted before. -/
def Failure.Same (f g : Failure) : Prop := f.error.SameFault g.error

namespace State

open Error

/-- The same value, and states whose cursors correspond. -/
def Same {α : Type} (R : Cursor → Cursor → Prop) (a b : α × State) : Prop :=
  a.1 = b.1 ∧ Here R a.2.cursor b.2.cursor

variable {R : Cursor → Cursor → Prop}

/-- After one value on both sides the computations go on from corresponding states. -/
theorem Same.bind {α β γ : Type} {Q : β → γ → Prop} {x y : Except Failure (α × State)}
    {f : α × State → Except Failure β} {g : α × State → Except Failure γ}
    (h : Together Failure.Same (Same R) x y)
    (next : ∀ a s s', x = .ok (a, s) → y = .ok (a, s') → Here R s.cursor s'.cursor →
      Together Failure.Same Q (f (a, s)) (g (a, s'))) :
    Together Failure.Same Q (x >>= f) (y >>= g) := by
  refine h.bind fun a b hx hy same => ?_
  obtain ⟨v, s⟩ := a
  obtain ⟨v', s'⟩ := b
  obtain ⟨rfl, here⟩ := same
  exact next v s s' hx hy here

theorem kinds_alike (sim : Simulation R) {s s' : State} (h : R s.cursor s'.cursor) :
    KindsAlike s.kind? s'.kind? := sim.kind? h

theorem nextKinds_alike (sim : Simulation R) {s s' : State} (h : Here R s.cursor s'.cursor) :
    KindsAlike s.nextKind? s'.nextKind? := sim.nextKind? h

/-- A step of two cursors is a step of two states. -/
theorem moveTo_together {P : Cursor → Cursor → Prop} {x y : Except Error Cursor} (s s' : State)
    (h : Together SameFault P x y) :
    Together Failure.Same (fun t t' => P t.cursor t'.cursor)
      (match x with
        | .ok c => .ok (s.moveTo c)
        | .error e => s.fail e)
      (match y with
        | .ok c => .ok (s'.moveTo c)
        | .error e => s'.fail e) := by
  cases h with
  | ok h => exact .ok h
  | error h => exact .error h

theorem moved_alike (sim : Simulation R) {s s' : State} (h : Here R s.cursor s'.cursor) :
    Together Failure.Same (fun t t' => R t.cursor t'.cursor) s.moved s'.moved := by
  rw [moved_eq, moved_eq]
  exact moveTo_together s s' (sim.moved h.1 h.2)

theorem moved_here (sim : Simulation R) {s s' : State} {k : Kind} (h : Here R s.cursor s'.cursor)
    (hk : s'.nextKind? = some k) :
    Together Failure.Same (fun t t' => Here R t.cursor t'.cursor) s.moved s'.moved := by
  rw [moved_eq, moved_eq]
  exact moveTo_together s s' (sim.moved_here h hk)

/-- A search fails on both sides or stops at corresponding tokens of one wanted kind. -/
theorem seek_alike (sim : Simulation R) {wanted : Kind → Bool}
    (inside : ∀ k, wanted k = true → k.opensClause = false) {s s' : State}
    (h : R s.cursor s'.cursor) :
    Together Failure.Same (fun a b => Same R a b ∧ ∃ k, b.2.kind? = some k ∧ wanted k = true)
      (yield (s.seek wanted)) (yield (s'.seek wanted)) := by
  have whereas : wanted .whereas = false := Bool.eq_false_iff.2 fun h => nomatch inside _ h
  have resolved : wanted .resolved = false := Bool.eq_false_iff.2 fun h => nomatch inside _ h
  rw [yield_seek, yield_seek]
  cases kinds_alike sim h with
  | ended ha hb =>
    rcases ha with ha | ha | ha <;> rcases hb with hb | hb | hb <;> rw [ha, hb] <;>
      simp only [whereas, resolved] <;> exact .error ⟨rfl, nofun⟩
  | @same k ha hb stays =>
    have h : Here R s.cursor s'.cursor := ⟨h, tokens_ne_nil_of_kind? hb⟩
    rw [ha, hb]
    dsimp only
    refine .ite .rfl (fun hw => .ok ⟨⟨rfl, h⟩, k, hb, hw⟩) fun _ => ?_
    rw [stays]
    refine (moved_alike sim h).bind fun s₁ s₁' _ e₁ h₁ => ?_
    have shorter : s₁'.remaining < s'.remaining := by
      have := remaining_of_moved e₁
      have := remaining_pos hb
      omega
    exact seek_alike sim inside h₁
termination_by s'.remaining

theorem seekNext_alike (sim : Simulation R) {wanted : Kind → Bool}
    (inside : ∀ k, wanted k = true → k.opensClause = false) {s s' : State}
    (h : Here R s.cursor s'.cursor) :
    Together Failure.Same (Same R) (yield (s.seekNext wanted)) (yield (s'.seekNext wanted)) := by
  have whereas : wanted .whereas = false := Bool.eq_false_iff.2 fun h => nomatch inside _ h
  have resolved : wanted .resolved = false := Bool.eq_false_iff.2 fun h => nomatch inside _ h
  rw [yield_seekNext, yield_seekNext]
  cases nextKinds_alike sim h with
  | ended ha hb =>
    rcases ha with ha | ha | ha <;> rcases hb with hb | hb | hb <;> rw [ha, hb] <;>
      simp only [whereas, resolved] <;> exact .ok ⟨rfl, h⟩
  | @same k ha hb stays =>
    rw [ha, hb]
    dsimp only
    refine .ite .rfl (fun _ => .ok ⟨rfl, h⟩) fun _ => ?_
    rw [stays]
    refine (moved_here sim h hb).bind fun s₁ s₁' _ e₁ h₁ => ?_
    have shorter : s₁'.remaining < s'.remaining := by
      have := remaining_of_moved e₁
      have := one_lt_remaining hb
      omega
    exact seekNext_alike sim inside h₁
termination_by s'.remaining

/-- One question about the next token has one answer on both sides. -/
theorem nextKind?_iff (sim : Simulation R) {s s' : State} {k : Kind}
    (h : Here R s.cursor s'.cursor) (stays : k.opensClause = false) :
    s.nextKind? = some k ↔ s'.nextKind? = some k := by
  cases nextKinds_alike sim h with
  | same ha hb _ => rw [ha, hb]
  | ended ha hb =>
    have no {a : Option Kind} (ha : a = none ∨ a = some .whereas ∨ a = some .resolved) :
        a ≠ some k := by
      rintro rfl
      rcases ha with ha | ha | ha <;> cases ha <;> cases stays
    exact ⟨fun he => absurd he (no ha), fun he => absurd he (no hb)⟩

theorem numeralOf_alike (sim : Simulation R) (cardinal : Int) {s s' : State}
    (h : Here R s.cursor s'.cursor) :
    Together Failure.Same (Same R) (yield (s.numeralOf cardinal))
      (yield (s'.numeralOf cardinal)) := by
  rw [yield_numeralOf, yield_numeralOf]
  refine .ite (nextKind?_iff sim h rfl) (fun opened => ?_) fun _ => .error ⟨rfl, nofun⟩
  refine (moved_here sim h opened).bind fun s₁ s₁' _ _ h₁ => ?_
  refine .ite (or_congr (nextKind?_iff sim h₁ rfl) (nextKind?_iff sim h₁ rfl)) (fun numeral => ?_)
    fun _ => .error ⟨rfl, nofun⟩
  have ⟨k, hk, spelled, stays⟩ : ∃ k, s₁'.nextKind? = some k ∧ k.isSpelled = true ∧
      k.opensClause = false := by
    rcases numeral with hk | hk
    · exact ⟨_, hk, rfl, rfl⟩
    · exact ⟨_, hk, rfl, rfl⟩
  refine (moved_here sim h₁ hk).bind fun s₂ s₂' _ e₂ h₂ => ?_
  have hk₂ : s₂'.kind? = some k := by rw [kind?_eq, tokens_of_moved e₂, ← nextKind?_eq, hk]
  have literal : s₂.literal = s₂'.literal := sim.literal h₂.1 hk₂ stays spelled
  rw [literal]
  cases Numeral.read? s₂'.literal with
  | none => exact .error ⟨rfl, nofun⟩
  | some n =>
    refine .ite (nextKind?_iff sim h₂ rfl) (fun closed => ?_) fun _ => .error ⟨rfl, nofun⟩
    refine (moved_here sim h₂ closed).bind fun s₃ s₃' _ _ h₃ => ?_
    exact .ite .rfl (fun _ => .ok ⟨rfl, h₃⟩) fun _ => .error ⟨rfl, nofun⟩

theorem integerLiteral_alike (sim : Simulation R) {s s' : State} (h : R s.cursor s'.cursor) :
    Together Failure.Same (Same R) (yield s.integerLiteral) (yield s'.integerLiteral) := by
  rw [yield_integerLiteral, yield_integerLiteral]
  have read := Cardinal.read_alike sim h
  generalize Cardinal.yield (Cardinal.read s.cursor) = x at read
  generalize Cardinal.yield (Cardinal.read s'.cursor) = y at read
  cases read with
  | error h => exact .error h
  | ok h =>
    rename_i a b
    obtain ⟨v, c⟩ := a
    obtain ⟨v', c'⟩ := b
    obtain ⟨rfl, h⟩ := h
    exact numeralOf_alike sim v h

/-! ## Expressions -/

/-- The readers of expressions run alike from all corresponding states of which the second
has fewer tokens left than a given one. -/
def AlikeBelow (R : Cursor → Cursor → Prop) (s' : State) : Prop :=
  ∀ floor (t t' : State), t'.remaining < s'.remaining → R t.cursor t'.cursor →
    Together Failure.Same (Same R) (yield (t.expression floor)) (yield (t'.expression floor))

theorem AlikeBelow.mono {s s' : State} (h : AlikeBelow R s) (le : s'.remaining ≤ s.remaining) :
    AlikeBelow R s' :=
  fun floor t t' lt => h floor t t' (Nat.lt_of_lt_of_le lt le)

theorem suffixes_alike (sim : Simulation R) (floor : Tier) (e : Expr) {s s' : State}
    (below : AlikeBelow R s') (h : Here R s.cursor s'.cursor) :
    Together Failure.Same (Same R) (yield (s.suffixes floor e)) (yield (s'.suffixes floor e)) := by
  rw [yield_suffixes, yield_suffixes]
  cases nextKinds_alike sim h with
  | ended ha hb =>
    rcases ha with ha | ha | ha <;> rcases hb with hb | hb | hb <;> rw [ha, hb] <;>
      exact .ok ⟨rfl, h⟩
  | @same k ha hb _ =>
    rw [ha, hb]
    have inView := one_lt_remaining hb
    cases k with
    | less =>
      refine .ite .rfl (fun _ => ?_) fun _ => .ok ⟨rfl, h⟩
      refine (moved_here sim h hb).bind fun s₁ s₁' _ e₁ h₁ => ?_
      refine (moved_alike sim h₁).bind fun s₂ s₂' _ e₂ h₂ => ?_
      have r₁ := remaining_of_moved e₁
      have r₂ := remaining_of_moved e₂
      have shorter : s₂'.remaining < s'.remaining := by omega
      refine Same.bind (below .difference s₂ s₂' shorter h₂) fun right s₃ s₃' _ e₃ h₃ => ?_
      have r₃ : s₃'.remaining ≤ s₂'.remaining := (expression_ok e₃).uses.remaining_le
      have shorter₃ : s₃'.remaining < s'.remaining := by omega
      exact suffixes_alike sim floor _ (below.mono (Nat.le_of_lt shorter₃)) h₃
    | exponent op =>
      refine .ite .rfl (fun _ => ?_) fun _ => .ok ⟨rfl, h⟩
      refine (moved_here sim h hb).bind fun s₁ s₁' _ e₁ h₁ => ?_
      have r₁ := remaining_of_moved e₁
      have shorter : s₁'.remaining < s'.remaining := by omega
      exact suffixes_alike sim floor _ (below.mono (Nat.le_of_lt shorter)) h₁
    | _ => exact .ok ⟨rfl, h⟩
termination_by s'.remaining

theorem startsExpression_inside (k : Kind) (h : k.startsExpression = true) :
    k.opensClause = false := by
  cases k <;> first | rfl | cases h

theorem operand_alike (sim : Simulation R) {s s' : State} (below : AlikeBelow R s')
    (h : R s.cursor s'.cursor) :
    Together Failure.Same (Same R) (yield s.operand) (yield s'.operand) := by
  rw [yield_operand, yield_operand]
  refine (seek_alike sim startsExpression_inside h).bind fun ⟨_, s₁⟩ ⟨_, s₁'⟩ _ e₁ h₁ => ?_
  obtain ⟨⟨-, h₁⟩, k, hk, starts⟩ := h₁
  have r₁ : s₁'.remaining ≤ s'.remaining := (seek_ok e₁).1.remaining_le
  have hk : s₁'.kind? = some k := hk
  have pos := remaining_pos hk
  have same : s₁.kind? = some k := by
    cases kinds_alike sim h₁.1 with
    | same ha hb _ => rw [ha, ← hb, hk]
    | ended _ hb =>
      rw [hk] at hb
      rcases hb with hb | hb | hb <;> cases hb <;> cases starts
  dsimp only
  rw [same, hk]
  cases k with
  | cardinal w => exact integerLiteral_alike sim h₁.1
  | numeral =>
    have literal : s₁.literal = s₁'.literal := sim.literal h₁.1 hk rfl rfl
    rw [literal]
    exact .error ⟨rfl, nofun⟩
  | text =>
    have literal : s₁.literal = s₁'.literal := sim.literal h₁.1 hk rfl rfl
    rw [literal]
    exact .ok ⟨rfl, h₁⟩
  | name =>
    have literal : s₁.literal = s₁'.literal := sim.literal h₁.1 hk rfl rfl
    rw [literal]
    refine .ok ⟨rfl, ?_⟩
    rw [cursor_use, cursor_use]
    exact h₁
  | unary op =>
    refine (moved_alike sim h₁).bind fun s₂ s₂' _ e₂ h₂ => ?_
    have r₂ : s₂'.remaining = s₁'.remaining - 1 := remaining_of_moved e₂
    refine Same.bind (below .operation s₂ s₂' (by omega) h₂) fun a s₃ s₃' _ _ h₃ => ?_
    exact .ok ⟨rfl, h₃⟩
  | binary op =>
    refine (moved_alike sim h₁).bind fun s₂ s₂' _ e₂ h₂ => ?_
    have r₂ : s₂'.remaining = s₁'.remaining - 1 := remaining_of_moved e₂
    refine Same.bind (below .lowest s₂ s₂' (by omega) h₂) fun a s₃ s₃' _ e₃ h₃ => ?_
    have r₃ : s₃'.remaining ≤ s₂'.remaining := (expression_ok e₃).uses.remaining_le
    refine (moved_alike sim h₃).bind fun s₄ s₄' _ e₄ h₄ => ?_
    have r₄ : s₄'.remaining = s₃'.remaining - 1 := remaining_of_moved e₄
    refine Same.bind (below .operation s₄ s₄' (by omega) h₄) fun b s₅ s₅' _ _ h₅ => ?_
    exact .ok ⟨rfl, h₅⟩
  | _ => cases starts

/-- Expressions, by induction on the tokens that are left. -/
theorem expression_alike (sim : Simulation R) (floor : Tier) {s s' : State}
    (h : R s.cursor s'.cursor) :
    Together Failure.Same (Same R) (yield (s.expression floor)) (yield (s'.expression floor)) := by
  have below : AlikeBelow R s' := fun floor t t' lt h => expression_alike sim floor h
  rw [yield_expression, yield_expression]
  refine Same.bind (operand_alike sim below h) fun e s₁ s₁' _ e₁ h₁ => ?_
  have r₁ : s₁'.remaining ≤ s'.remaining :=
    (operand_ok (fun _ _ _ _ _ h => expression_ok h) e₁).uses.remaining_le
  exact suffixes_alike sim floor e (below.mono r₁) h₁
termination_by s'.remaining

/-! ## Clauses -/

theorem declaration_alike (sim : Simulation R) {s s' : State} (h : Here R s.cursor s'.cursor) :
    Together Failure.Same (Same R) (yield s.declaration) (yield s'.declaration) := by
  rw [yield_declaration, yield_declaration]
  refine (moved_alike sim h).bind fun s₁ s₁' _ _ h₁ => ?_
  have inside (k : Kind) (hk : (k == .name) = true) : k.opensClause = false := by
    rw [beq_iff_eq.1 hk]
    rfl
  refine (seek_alike sim inside h₁).bind fun ⟨_, s₂⟩ ⟨_, s₂'⟩ _ _ h₂ => ?_
  obtain ⟨⟨-, h₂⟩, k, hk, name⟩ := h₂
  obtain rfl : k = .name := beq_iff_eq.1 name
  have literal : s₂.literal = s₂'.literal := sim.literal h₂.1 hk rfl rfl
  refine (moved_alike sim h₂).bind fun s₃ s₃' _ _ h₃ => ?_
  refine Same.bind (expression_alike sim .lowest h₃) fun e s₄ s₄' _ _ h₄ => ?_
  dsimp only
  rw [literal]
  refine .ok ⟨rfl, ?_⟩
  rw [cursor_declare, cursor_declare]
  exact h₄

theorem recital_alike (sim : Simulation R) {s s' : State} (h : Here R s.cursor s'.cursor) :
    Together Failure.Same (Same R) (yield s.recital) (yield s'.recital) := by
  rw [yield_recital, yield_recital]
  have inside (k : Kind) (hk : (k == .hereinafter) = true) : k.opensClause = false := by
    rw [beq_iff_eq.1 hk]
    rfl
  refine Same.bind (seekNext_alike sim inside h) fun found s₁ s₁' _ e₁ h₁ => ?_
  cases found with
  | none => exact .ok ⟨rfl, h₁⟩
  | some k =>
    obtain ⟨t, x, r, hs, -⟩ := (seekNext_ok e₁).2.cons_cons
    have hk : s₁'.nextKind? = some x.kind := by
      rw [nextKind?_eq]
      exact congrArg (fun ts => Grammar.kindAt ts.tail) hs
    refine (moved_here sim h₁ hk).bind fun s₂ s₂' _ _ h₂ => ?_
    refine Same.bind (declaration_alike sim h₂) fun d s₃ s₃' _ _ h₃ => ?_
    exact .ok ⟨rfl, h₃⟩

theorem assumption_alike (sim : Simulation R) {s s' : State} (h : Here R s.cursor s'.cursor)
    (name : s'.kind? = some .name) (assume : s'.nextKind? = some .assume) :
    Together Failure.Same (Same R) (yield s.assumption) (yield s'.assumption) := by
  have literal : s.literal = s'.literal := sim.literal h.1 name rfl rfl
  rw [yield_assumption, yield_assumption, literal]
  have h₀ : Here R (s.use s'.literal).cursor (s'.use s'.literal).cursor := by
    rw [cursor_use, cursor_use]
    exact h
  have next : (s'.use s'.literal).nextKind? = some .assume := by
    rw [nextKind?_eq, cursor_use]
    exact assume
  refine (moved_here sim h₀ next).bind fun s₁ s₁' _ _ h₁ => ?_
  refine (moved_alike sim h₁).bind fun s₂ s₂' _ _ h₂ => ?_
  refine Same.bind (expression_alike sim .lowest h₂) fun e s₃ s₃' _ _ h₃ => ?_
  exact .ok ⟨rfl, h₃⟩

theorem publication_alike (sim : Simulation R) {s s' : State} (h : Here R s.cursor s'.cursor) :
    Together Failure.Same (Same R) (yield s.publication) (yield s'.publication) := by
  rw [yield_publication, yield_publication]
  refine (moved_alike sim h).bind fun s₁ s₁' _ _ h₁ => ?_
  refine Same.bind (expression_alike sim .lowest h₁) fun e s₂ s₂' _ _ h₂ => ?_
  exact .ok ⟨rfl, h₂⟩

/-- Actions run alike from all corresponding states of which the second has fewer tokens
left than a given one. -/
def ActAlikeBelow (R : Cursor → Cursor → Prop) (s' : State) : Prop :=
  ∀ t t' : State, t'.remaining < s'.remaining → Here R t.cursor t'.cursor →
    Together Failure.Same (Same R) (yield t.action) (yield t'.action)

theorem conditional_alike (sim : Simulation R) {s s' : State} (below : ActAlikeBelow R s')
    (h : Here R s.cursor s'.cursor) :
    Together Failure.Same (Same R) (yield s.conditional) (yield s'.conditional) := by
  rw [yield_conditional, yield_conditional]
  have r₀ : s'.remaining ≠ 0 := fun e => h.2 (List.length_eq_zero_iff.1 e)
  refine (moved_alike sim h).bind fun s₁ s₁' _ e₁ h₁ => ?_
  have r₁ := remaining_of_moved e₁
  refine Same.bind (expression_alike sim .lowest h₁) fun l s₂ s₂' _ e₂ h₂ => ?_
  have r₂ : s₂'.remaining ≤ s₁'.remaining := (expression_ok e₂).uses.remaining_le
  refine Same.bind (seekNext_alike sim ?inside h₂) fun found s₃ s₃' _ e₃ h₃ => ?_
  case inside =>
    intro k hk
    cases k <;> first | rfl | cases hk
  have r₃ : s₃'.remaining ≤ s₂'.remaining := (seekNext_ok e₃).1.remaining_le
  dsimp only
  split
  · next relation =>
    obtain ⟨t, x, r, hs, hx⟩ := (seekNext_ok e₃).2.cons_cons
    have hk : s₃'.nextKind? = some x.kind := by rw [nextKind?_eq, hs]; rfl
    refine (moved_here sim h₃ hk).bind fun s₄ s₄' _ e₄ h₄ => ?_
    have r₄ : s₄'.remaining = s₃'.remaining - 1 := remaining_of_moved e₄
    refine (moved_alike sim h₄).bind fun s₅ s₅' _ e₅ h₅ => ?_
    have r₅ := remaining_of_moved e₅
    refine Same.bind (expression_alike sim .lowest h₅) fun r s₆ s₆' _ e₆ h₆ => ?_
    have r₆ : s₆'.remaining ≤ s₅'.remaining := (expression_ok e₆).uses.remaining_le
    refine Same.bind (below s₆ s₆' (by omega) h₆) fun c s₇ s₇' _ _ h₇ => ?_
    cases c with
    | none => exact .ok ⟨rfl, h₇⟩
    | some a => exact .ok ⟨rfl, h₇⟩
  · exact .ok ⟨rfl, h₃⟩

/-- Actions, by induction on the tokens that are left. -/
theorem action_alike (sim : Simulation R) {s s' : State} (h : Here R s.cursor s'.cursor) :
    Together Failure.Same (Same R) (yield s.action) (yield s'.action) := by
  have below : ActAlikeBelow R s' := fun t t' lt h => action_alike sim h
  rw [yield_action, yield_action]
  have name : s.kind? = some .name ↔ s'.kind? = some .name := by
    cases kinds_alike sim h.1 with
    | same ha hb _ => rw [ha, hb]
    | ended ha hb => rcases ha with ha | ha | ha <;> rcases hb with hb | hb | hb <;> simp [ha, hb]
  refine .ite (and_congr name (nextKind?_iff sim h rfl)) (fun both => ?_) fun _ => ?_
  · refine Same.bind (assumption_alike sim h both.1 both.2) fun a s₁ s₁' _ _ h₁ => ?_
    exact .ok ⟨rfl, h₁⟩
  · cases nextKinds_alike sim h with
    | ended ha hb =>
      rcases ha with ha | ha | ha <;> rcases hb with hb | hb | hb <;> rw [ha, hb] <;>
        exact .ok ⟨rfl, h⟩
    | @same k ha hb stays =>
      rw [ha, hb]
      dsimp only
      rw [stays]
      refine (moved_here sim h hb).bind fun s₁ s₁' _ e₁ h₁ => ?_
      have shorter : s₁'.remaining < s'.remaining := by
        have := remaining_of_moved e₁
        have := one_lt_remaining hb
        omega
      refine .ite .rfl (fun _ => ?_) fun _ => ?_
      · refine Same.bind (publication_alike sim h₁) fun a s₂ s₂' _ _ h₂ => ?_
        exact .ok ⟨rfl, h₂⟩
      · refine .ite .rfl (fun _ => ?_) fun _ => below s₁ s₁' shorter h₁
        exact conditional_alike sim (fun t t' lt => below t t' (Nat.lt_trans lt shorter)) h₁
termination_by s'.remaining

/-! ## Failures stand alone -/

theorem single_of_together {α : Type} {P : α → α → Prop} {x : Except Failure α} {f : Failure}
    (h : Together Failure.Same P x x) (hx : x = .error f) : f.Single := by
  rw [hx] at h
  cases h with
  | error h => exact h.single

theorem single_of_moved {s : State} {f : Failure} (h : s.moved = .error f) : f.Single := by
  rw [moved_eq] at h
  cases hc : s.cursor.moved with
  | ok c => rw [hc] at h; cases h
  | error e =>
    obtain ⟨literal, rfl⟩ := Cursor.error_of_moved hc
    rw [hc] at h
    cases h
    exact nofun

theorem single_earlyAction (s : State) : s.earlyAction.Single := by
  rw [earlyAction_eq]
  split
  · exact nofun
  · next k hk =>
    split
    · exact nofun
    · split
      · next h => exact single_of_moved h
      · next s₁ h =>
        have shorter : s₁.remaining < s.remaining := by
          have := remaining_of_moved h
          have := remaining_pos hk
          omega
        exact single_earlyAction s₁
termination_by s.remaining

/-- Reading clauses stops for one cause, never for a list of name errors. -/
theorem single_of_clauses {d : Draft} {s : State} {f : Failure}
    (h : yield (s.clauses d) = .error f) : f.Single := by
  rw [yield_clauses] at h
  split at h
  · cases h
  · next k hk =>
    have here : Here Eq s.cursor s.cursor := ⟨rfl, tokens_ne_nil_of_kind? hk⟩
    have shorter {s₁ s₂ : State} (le : s₁.remaining ≤ s.remaining) (h : s₁.moved = .ok s₂) :
        s₂.remaining < s.remaining := by
      have := remaining_of_moved h
      have := remaining_pos hk
      omega
    split at h
    · split at h
      · cases h
        exact nofun
      · rcases bind_eq_error.1 h with h | ⟨⟨recital, s₁⟩, h₁, h⟩
        · exact single_of_together (recital_alike simulation_eq here) h
        · rcases bind_eq_error.1 h with h | ⟨s₂, h₂, h⟩
          · exact single_of_moved h
          · have lt := shorter (recital_ok h₁).2.follows.remaining_le h₂
            exact single_of_clauses h
    · split at h
      · split at h
        · cases h
          exact single_earlyAction s
        · rcases bind_eq_error.1 h with h | ⟨⟨action, s₁⟩, h₁, h⟩
          · exact single_of_together (action_alike simulation_eq here) h
          · rcases bind_eq_error.1 h with h | ⟨s₂, h₂, h⟩
            · exact single_of_moved h
            · have lt := shorter (action_ok h₁).2.follows.remaining_le h₂
              exact single_of_clauses h
      · rcases bind_eq_error.1 h with h | ⟨s₁, h₁, h⟩
        · exact single_of_moved h
        · have lt := shorter (Nat.le_refl _) h₁
          exact single_of_clauses h
termination_by s.remaining

end State
end Legalese
