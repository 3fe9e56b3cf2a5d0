import Legalese.Proofs.Reading.Yield

/-!
# Readers move forward

The place where a reader stops is a place further on among the same tokens.
`Cursor.Follows` says so of a cursor.  `State.Uses` says it of a state and adds what else
may have happened on the way: some names were used, in the order given, and neither the
register, nor the errors, nor the notes changed in any other way.
-/

namespace Legalese

/-! ## Moving forward -/

namespace Cursor

/-- A place further on among the same tokens. -/
def Follows (c c' : Cursor) : Prop := ∃ n, c' = ⟨c.tokens.drop n, c.unclosed⟩

theorem Follows.refl (c : Cursor) : c.Follows c := ⟨0, rfl⟩

theorem Follows.trans {c c₁ c₂ : Cursor} (h₁ : c.Follows c₁) (h₂ : c₁.Follows c₂) :
    c.Follows c₂ := by
  obtain ⟨n, rfl⟩ := h₁
  obtain ⟨m, rfl⟩ := h₂
  exact ⟨n + m, by rw [List.drop_drop]⟩

theorem Follows.unclosed_eq {c c' : Cursor} (h : c.Follows c') : c'.unclosed = c.unclosed := by
  obtain ⟨n, rfl⟩ := h
  rfl

theorem Follows.remaining_le {c c' : Cursor} (h : c.Follows c') : c'.remaining ≤ c.remaining := by
  obtain ⟨n, rfl⟩ := h
  simp [remaining]

theorem eq_of_moved {c c' : Cursor} (h : c.moved = .ok c') : c' = ⟨c.tokens.tail, c.unclosed⟩ := by
  rw [moved_eq] at h
  cases hv : view c.tokens.tail c.unclosed with
  | error l => rw [hv] at h; cases h
  | ok d =>
    rw [hv] at h
    cases h
    exact tokens_of_view hv

theorem follows_of_moved {c c' : Cursor} (h : c.moved = .ok c') : c.Follows c' :=
  ⟨1, by rw [eq_of_moved h, List.drop_one]⟩

theorem remaining_of_moved {c c' : Cursor} (h : c.moved = .ok c') :
    c'.remaining = c.remaining - 1 := by
  rw [eq_of_moved h]
  exact List.length_tail

end Cursor

namespace Cardinal

open Cursor

theorem follows_of_belowHundred {c c' : Cursor} {n : Nat}
    (h : yield (belowHundred c) = .ok (n, c')) : c.Follows c' := by
  rw [yield_belowHundred] at h
  split at h
  · cases h; exact .refl c
  · cases h; exact .refl c
  · split at h
    · obtain ⟨c₁, h₁, h⟩ := bind_eq_ok.1 h
      split at h
      · obtain ⟨c₂, h₂, h⟩ := bind_eq_ok.1 h
        cases h
        exact (follows_of_moved h₁).trans (follows_of_moved h₂)
      · cases h
    · cases h; exact .refl c
  · cases h

theorem follows_of_belowThousand {c c' : Cursor} {n : Nat}
    (h : yield (belowThousand c) = .ok (n, c')) : c.Follows c' := by
  rw [yield_belowThousand] at h
  split at h
  · split at h
    · obtain ⟨c₁, h₁, h⟩ := bind_eq_ok.1 h
      have f₁ := follows_of_moved h₁
      split at h
      · obtain ⟨c₂, h₂, h⟩ := bind_eq_ok.1 h
        obtain ⟨⟨m, c₃⟩, h₃, h⟩ := bind_eq_ok.1 h
        cases h
        exact (f₁.trans (follows_of_moved h₂)).trans (follows_of_belowHundred h₃)
      · cases h; exact f₁
    · cases h; exact .refl c
  · exact follows_of_belowHundred h

theorem follows_of_magnitude {c c' : Cursor} {m : Nat}
    (h : yield (magnitude c) = .ok (m, c')) : c.Follows c' := by
  rw [yield_magnitude] at h
  split at h
  · obtain ⟨c₁, h₁, h⟩ := bind_eq_ok.1 h
    cases h
    exact follows_of_moved h₁
  · cases h; exact .refl c

/-- Another group is read only where a token follows. -/
theorem nextKind?_of_more {c : Cursor} {m : Nat}
    (h : ¬(m = 1 ∨ (c.nextKind?.map Kind.startsBelowHundred).getD false = false)) :
    ∃ k, c.nextKind? = some k := by
  cases hk : c.nextKind? with
  | none => simp [hk] at h
  | some k => exact ⟨k, rfl⟩

/-- The groups of a cardinal, by induction on the tokens that are left. -/
theorem follows_of_groups {sign total v : Int} {last : Option Nat} {c c' : Cursor}
    (h : yield (groups sign total last c) = .ok (v, c')) : c.Follows c' := by
  rw [yield_groups] at h
  obtain ⟨⟨group, c₁⟩, h₁, h⟩ := bind_eq_ok.1 h
  obtain ⟨⟨m, c₂⟩, h₂, h⟩ := bind_eq_ok.1 h
  obtain ⟨t, -, h⟩ := bind_eq_ok.1 h
  have f₂ := (follows_of_belowThousand h₁).trans (follows_of_magnitude h₂)
  split at h
  · cases h; exact f₂
  · next more =>
    obtain ⟨c₃, h₃, h⟩ := bind_eq_ok.1 h
    have f₃ := f₂.trans (follows_of_moved h₃)
    have shorter : c₃.remaining < c.remaining := by
      obtain ⟨k, hk⟩ := nextKind?_of_more more
      have := one_lt_remaining_of_nextKind? hk
      have := remaining_of_moved h₃
      have := f₂.remaining_le
      omega
    exact f₃.trans (follows_of_groups h)
termination_by c.remaining

theorem follows_of_read {c c' : Cursor} {v : Int} (h : yield (read c) = .ok (v, c')) :
    c.Follows c' := by
  rw [yield_read] at h
  split at h
  · cases h; exact .refl c
  · obtain ⟨c₁, h₁, h⟩ := bind_eq_ok.1 h
    exact (follows_of_moved h₁).trans (follows_of_groups h)
  · exact follows_of_groups h

end Cardinal

/-! ## Names that are used on the way -/

namespace State

/-- Notes the use of names one after another. -/
def useAll (s : State) (xs : List String) : State := xs.foldl State.use s

theorem useAll_append (s : State) (xs ys : List String) :
    s.useAll (xs ++ ys) = (s.useAll xs).useAll ys := List.foldl_append

theorem use_moveTo (s : State) (c : Cursor) (x : String) :
    (s.moveTo c).use x = (s.use x).moveTo c := by
  unfold use moveTo
  by_cases h : s.register.contains x = true
  · rw [if_pos h, if_pos h]
  · rw [if_neg h, if_neg h]

theorem useAll_moveTo (s : State) (c : Cursor) (xs : List String) :
    (s.moveTo c).useAll xs = (s.useAll xs).moveTo c := by
  induction xs generalizing s with
  | nil => rfl
  | cons x xs ih =>
    show ((s.moveTo c).use x).useAll xs = ((s.use x).useAll xs).moveTo c
    rw [use_moveTo, ih]

@[simp] theorem cursor_use (s : State) (x : String) : (s.use x).cursor = s.cursor := by
  unfold use
  split <;> rfl

/-- From one state to another the cursor moved forward, the names of a list were used in
their order, and nothing else happened. -/
structure Uses (s : State) (xs : List String) (s' : State) : Prop where
  follows : s.cursor.Follows s'.cursor
  eq : s' = (s.useAll xs).moveTo s'.cursor

theorem Uses.refl (s : State) : s.Uses [] s := ⟨.refl _, rfl⟩

theorem Uses.trans {s s₁ s₂ : State} {xs ys : List String} (h₁ : s.Uses xs s₁)
    (h₂ : s₁.Uses ys s₂) : s.Uses (xs ++ ys) s₂ := by
  refine ⟨h₁.follows.trans h₂.follows, ?_⟩
  calc s₂ = (s₁.useAll ys).moveTo s₂.cursor := h₂.eq
    _ = (((s.useAll xs).moveTo s₁.cursor).useAll ys).moveTo s₂.cursor := by rw [← h₁.eq]
    _ = (s.useAll (xs ++ ys)).moveTo s₂.cursor := by rw [useAll_moveTo, useAll_append]; rfl

theorem Uses.use (s : State) (x : String) : s.Uses [x] (s.use x) := by
  refine ⟨?_, ?_⟩
  · rw [cursor_use]
    exact .refl _
  · rfl

theorem Uses.moveTo {s : State} {c : Cursor} (h : s.cursor.Follows c) : s.Uses [] (s.moveTo c) :=
  ⟨h, rfl⟩

/-- The same as `Uses.trans` after a part in which no name was used. -/
theorem Uses.after {s s₁ s₂ : State} {xs : List String} (h₁ : s.Uses [] s₁)
    (h₂ : s₁.Uses xs s₂) : s.Uses xs s₂ :=
  h₁.trans h₂

theorem Uses.unclosed_eq {s s' : State} {xs : List String} (h : s.Uses xs s') :
    s'.cursor.unclosed = s.cursor.unclosed := h.follows.unclosed_eq

theorem Uses.remaining_le {s s' : State} {xs : List String} (h : s.Uses xs s') :
    s'.remaining ≤ s.remaining := h.follows.remaining_le

theorem cursor_of_moved {s s₁ : State} (h : s.moved = .ok s₁) :
    s.cursor.moved = .ok s₁.cursor ∧ s₁ = s.moveTo s₁.cursor := by
  rw [moved_eq] at h
  cases hc : s.cursor.moved with
  | error e => rw [hc] at h; cases h
  | ok c => rw [hc] at h; cases h; exact ⟨rfl, rfl⟩

theorem uses_of_moved {s s₁ : State} (h : s.moved = .ok s₁) : s.Uses [] s₁ :=
  ⟨Cursor.follows_of_moved (cursor_of_moved h).1, (cursor_of_moved h).2⟩

theorem tokens_of_moved {s s₁ : State} (h : s.moved = .ok s₁) :
    s₁.cursor.tokens = s.cursor.tokens.tail := by
  rw [Cursor.eq_of_moved (cursor_of_moved h).1]

theorem remaining_of_moved {s s₁ : State} (h : s.moved = .ok s₁) :
    s₁.remaining = s.remaining - 1 :=
  Cursor.remaining_of_moved (cursor_of_moved h).1

end State
end Legalese
