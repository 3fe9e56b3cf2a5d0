import Mathlib
import Legalese.Proofs.Reading.Derivation

/-!
# What a conditional leaves in the register

A conditional is read before it is known whether it will stand.  Its operands, and the
conditionals inside it, note names as used and report those that were never declared.

Main statement: a conditional that is dropped leaves the names and the errors as they
were.  One that stands has noted the use of the names that occur in it, and of no others.
-/

namespace Legalese

namespace Register

/-- The register in which some names, as far as they have been declared, count as used. -/
def mark (r : Register) (xs : List String) : Register :=
  ⟨r.entries.map fun e => if e.1 ∈ xs then (e.1, .used) else e⟩

theorem mark_nil (r : Register) : r.mark [] = r := by
  simp [mark]

theorem mark_append (r : Register) (xs ys : List String) :
    r.mark (xs ++ ys) = (r.mark xs).mark ys := by
  simp only [mark, List.map_map]
  congr 1
  refine List.map_congr_left fun e _ => ?_
  by_cases hx : e.1 ∈ xs
  · by_cases hy : e.1 ∈ ys
    · simp [hx, hy]
    · simp [hx, hy]
  · simp [hx]

theorem names_mark (r : Register) (xs : List String) : (r.mark xs).names = r.names := by
  simp only [mark, names, List.map_map]
  refine List.map_congr_left fun e _ => ?_
  simp only [Function.comp]
  split <;> rfl

theorem contains_mark (r : Register) (xs : List String) (x : String) :
    (r.mark xs).contains x = r.contains x := by
  rw [contains, names_mark, contains]

theorem mark_singleton (r : Register) (x : String) : r.mark [x] = r.use x := by
  simp [mark, use]

/-- A name that was never declared cannot be marked. -/
theorem use_of_not_contains {r : Register} {x : String} (h : ¬r.contains x = true) :
    r.use x = r := by
  have other : ∀ e ∈ r.entries, ¬e.1 = x := by
    rintro e he rfl
    exact h (List.contains_iff_mem.2 (List.mem_map_of_mem he))
  rw [use, List.map_congr_left fun e he => if_neg (other e he), List.map_id']

end Register

namespace State

theorem register_use (s : State) (x : String) : (s.use x).register = s.register.mark [x] := by
  rw [Register.mark_singleton, use]
  by_cases h : s.register.contains x = true
  · rw [if_pos h]
  · rw [if_neg h, Register.use_of_not_contains h]

/-- The errors for those of some names that are not in a register. -/
def undeclared (r : Register) (xs : List String) : List NameError :=
  (xs.filter (!r.contains ·)).map (⟨.undeclared, ·⟩)

theorem errors_use (s : State) (x : String) :
    (s.use x).errors = s.errors ++ undeclared s.register [x] := by
  rw [use]
  by_cases h : s.register.contains x = true
  · simp [undeclared, h]
  · simp [undeclared, h]

theorem register_useAll (s : State) (xs : List String) :
    (s.useAll xs).register = s.register.mark xs := by
  induction xs generalizing s with
  | nil => exact (Register.mark_nil _).symm
  | cons x xs ih =>
    show ((s.use x).useAll xs).register = _
    rw [ih, register_use, ← Register.mark_append, List.singleton_append]

theorem errors_useAll (s : State) (xs : List String) :
    (s.useAll xs).errors = s.errors ++ undeclared s.register xs := by
  induction xs generalizing s with
  | nil => exact (List.append_nil _).symm
  | cons x xs ih =>
    have same : undeclared (s.use x).register xs = undeclared s.register xs := by
      simp only [undeclared, register_use, Register.contains_mark]
    have first : undeclared s.register (x :: xs) =
        undeclared s.register [x] ++ undeclared s.register xs := by
      rw [undeclared, undeclared, undeclared, ← List.map_append, ← List.filter_append,
        List.singleton_append]
    show ((s.use x).useAll xs).errors = _
    rw [ih, errors_use, same, first, List.append_assoc]

theorem Uses.register_eq {s s' : State} {xs : List String} (h : s.Uses xs s') :
    s'.register = s.register.mark xs := by
  rw [h.eq]
  exact register_useAll s xs

theorem Uses.errors_eq {s s' : State} {xs : List String} (h : s.Uses xs s') :
    s'.errors = s.errors ++ undeclared s.register xs := by
  rw [h.eq]
  exact errors_useAll s xs

/-- From an "if" on, the only statement is a conditional. -/
theorem kind_of_acts {u : Option String} {t x : Token} {ts ts' : List Token} {a : Statement}
    (h : Grammar.Acts u (t :: x :: ts) (some a) ts') (hx : x.kind = .conditional) :
    a.kind = .conditional := by
  generalize ha : some a = found at h
  cases h with
  | filler idle _ => exact absurd hx idle.2.2.1
  | assume _ kind _ => exact Kind.noConfusion (hx.symm.trans kind)
  | publish kind _ => exact Kind.noConfusion (hx.symm.trans kind)
  | conditional _ _ _ _ _ =>
    obtain ⟨c, -, rfl⟩ := Option.map_eq_some_iff.1 ha.symm
    rfl
  | _ => cases ha

/-- Reading a conditional without a relation or a consequence changes neither the register
nor the errors, whatever was met on the way.  Otherwise the errors go on with the names of
the conditional that were never declared, and of the others each counts as used; no name
comes into the register, and none moves in it. -/
theorem conditional_traceless {s s' : State} {a : Option Statement}
    (here : s.kind? = some .conditional) (h : yield s.conditional = .ok (a, s')) :
    match a with
    | none => s'.register = s.register ∧ s'.errors = s.errors
    | some a =>
      a.kind = .conditional ∧ s'.register.names = s.register.names ∧
        s'.register.entries =
          s.register.entries.map (fun e => if e.1 ∈ a.names then (e.1, .used) else e) ∧
        s'.errors =
          s.errors ++ (a.names.filter (!s.register.contains ·)).map (⟨.undeclared, ·⟩) := by
  obtain ⟨x, ts, hs, hx⟩ := Grammar.kindAt_eq_some here
  obtain ⟨acts, effect⟩ := conditional_ok (fun _ _ _ _ read => action_ok read) hs hx h
  cases a with
  | none => exact ⟨effect.register, effect.errors⟩
  | some a =>
    have uses : s.Uses a.names s' := effect
    refine ⟨kind_of_acts (acts x) hx, ?_, ?_, uses.errors_eq⟩
    · rw [uses.register_eq, Register.names_mark]
    · rw [uses.register_eq, Register.mark]

/-- Two conditionals with the same operands.  The inner conditional of the first has no
relation, and the outer one no other consequence. -/
theorem conditional_traceless_nested :
    let r : Register := ⟨[("A", .declared), ("B", .used)]⟩
    let s (ts : List Token) : State :=
      ⟨⟨⟨.conditional, "if"⟩ :: ⟨.name, "A"⟩ :: ⟨.relation .equals, "equals"⟩ ::
        ⟨.name, "C"⟩ :: ⟨.filler, ","⟩ :: ts, none⟩, r, [⟨.redeclared, "B"⟩], []⟩
    (∃ s', yield (s [⟨.conditional, "if"⟩, ⟨.name, "D"⟩]).conditional = .ok (none, s') ∧
        s'.register = r ∧ s'.errors = [⟨.redeclared, "B"⟩]) ∧
      ∃ a s', yield (s [⟨.publish, "publish"⟩, ⟨.name, "A"⟩]).conditional = .ok (some a, s') ∧
        s'.register.entries = [("A", .used), ("B", .used)] ∧
        s'.errors = [⟨.redeclared, "B"⟩, ⟨.undeclared, "C"⟩] := by
  intro r s
  have dropped : ∃ s', yield (s [⟨.conditional, "if"⟩, ⟨.name, "D"⟩]).conditional =
      .ok (none, s') := ⟨_, by cbv⟩
  have stands : ∃ s', yield (s [⟨.publish, "publish"⟩, ⟨.name, "A"⟩]).conditional =
      .ok (some (.conditional (.name "A") (.name "C") .equals (.publish (.name "A"))), s') :=
    ⟨_, by cbv⟩
  refine ⟨?_, ?_⟩
  · obtain ⟨s', read⟩ := dropped
    exact ⟨s', read, conditional_traceless rfl read⟩
  · obtain ⟨s', read⟩ := stands
    obtain ⟨-, -, entries, errors⟩ := conditional_traceless rfl read
    exact ⟨_, s', read, entries, errors⟩

end State
end Legalese
