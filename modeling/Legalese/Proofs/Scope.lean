import Legalese.Proofs.Discipline

/-!
# Names without offences

If the walk over a resolution meets no offence, then every recital declares a new name, its
value uses names of earlier recitals only, and the actions use declared names.
-/

namespace Legalese

/-- Declarations of new names, each from names that are known by then. -/
def Scoped (names : List String) : List Declaration → Prop
  | [] => True
  | d :: ds =>
    (∀ x ∈ d.value.names, x ∈ names) ∧ d.name ∉ names ∧ Scoped (names ++ [d.name]) ds

namespace Ledger

/-- An offence stays. -/
theorem offences_enter (l : Ledger) (m : Mention) : l.offences <+: (l.enter m).offences := by
  cases m with
  | use x =>
    by_cases h : x ∈ l.declared
    · exact ⟨[], by rw [List.append_nil, enter, use, if_pos h]⟩
    · exact ⟨[⟨.undeclared, x⟩], by rw [enter, use, if_neg h]⟩
  | declare x =>
    by_cases h : x ∈ l.declared
    · exact ⟨[⟨.redeclared, x⟩], by rw [enter, declare, if_pos h]⟩
    · exact ⟨[], by rw [List.append_nil, enter, declare, if_neg h]⟩

theorem offences_enterAll (l : Ledger) (ms : List Mention) :
    l.offences <+: (l.enterAll ms).offences := by
  induction ms generalizing l with
  | nil => exact List.prefix_rfl
  | cons m ms ih => exact (offences_enter l m).trans (ih (l.enter m))

theorem clean_of_enterAll {l : Ledger} {ms : List Mention} (clean : (l.enterAll ms).offences = []) :
    l.offences = [] :=
  List.prefix_nil.1 (clean ▸ offences_enterAll l ms)

theorem use_of_clean {l : Ledger} {x : String} (clean : (l.use x).offences = []) :
    x ∈ l.declared ∧ (l.use x).declared = l.declared := by
  unfold use at clean ⊢
  by_cases h : x ∈ l.declared
  · rw [if_pos h]
    exact ⟨h, rfl⟩
  · rw [if_neg h] at clean
    exact absurd clean (List.append_ne_nil_of_right_ne_nil _ (List.cons_ne_nil _ _))

theorem declare_of_clean {l : Ledger} {x : String} (clean : (l.declare x).offences = []) :
    x ∉ l.declared ∧ (l.declare x).declared = l.declared ++ [x] := by
  unfold declare at clean ⊢
  by_cases h : x ∈ l.declared
  · rw [if_pos h] at clean
    exact absurd clean (List.append_ne_nil_of_right_ne_nil _ (List.cons_ne_nil _ _))
  · rw [if_neg h]
    exact ⟨h, rfl⟩

theorem uses_of_clean {l : Ledger} {xs : List String}
    (clean : (l.enterAll (xs.map .use)).offences = []) :
    (∀ x ∈ xs, x ∈ l.declared) ∧ (l.enterAll (xs.map .use)).declared = l.declared := by
  induction xs generalizing l with
  | nil => exact ⟨nofun, rfl⟩
  | cons x xs ih =>
    obtain ⟨first, same⟩ := use_of_clean (clean_of_enterAll (l := l.use x) clean)
    obtain ⟨rest, declared⟩ := ih (l := l.use x) clean
    rw [same] at rest declared
    refine ⟨fun y hy => ?_, declared⟩
    rcases List.mem_cons.1 hy with rfl | hy
    · exact first
    · exact rest y hy

theorem scoped_of_clean {l : Ledger} {ds : List Declaration}
    (clean : (l.enterAll (ds.flatMap Declaration.mentions)).offences = []) :
    Scoped l.declared ds ∧
      (l.enterAll (ds.flatMap Declaration.mentions)).declared = l.declared ++ ds.map (·.name) := by
  induction ds generalizing l with
  | nil => exact ⟨trivial, (List.append_nil _).symm⟩
  | cons d ds ih =>
    have step : l.enterAll ((d :: ds).flatMap Declaration.mentions) =
        ((l.enterAll (d.value.names.map .use)).declare d.name).enterAll
          (ds.flatMap Declaration.mentions) := by
      rw [List.flatMap_cons, Declaration.mentions, enterAll_append, enterAll_append]
      rfl
    rw [step] at clean ⊢
    have declaration := clean_of_enterAll clean
    obtain ⟨fresh, added⟩ := declare_of_clean declaration
    have value : (l.enterAll (d.value.names.map .use)).offences = [] :=
      List.prefix_nil.1 (declaration ▸ offences_enter _ (.declare d.name))
    obtain ⟨known, same⟩ := uses_of_clean value
    obtain ⟨rest, all⟩ := ih clean
    rw [same] at fresh added
    rw [added] at rest all
    refine ⟨⟨known, fresh, rest⟩, ?_⟩
    rw [all, List.append_assoc]
    rfl

end Ledger

namespace Resolution

theorem scoped_of_offences {r : Resolution} (h : r.offences = []) :
    Scoped [] r.recitals ∧ ∀ a ∈ r.actions, ∀ x ∈ a.names, x ∈ r.recitals.map (·.name) := by
  have clean : r.ledger.offences = [] := (List.append_eq_nil_iff.1 h).1
  have uses : r.actions.flatMap Statement.mentions = (r.actions.flatMap Statement.names).map .use :=
    List.map_flatMap.symm
  rw [ledger, mentions, Ledger.enterAll_append, uses] at clean
  obtain ⟨known, -⟩ := Ledger.uses_of_clean clean
  obtain ⟨inScope, declared⟩ := Ledger.scoped_of_clean (Ledger.clean_of_enterAll clean)
  rw [declared] at known
  exact ⟨inScope, fun a ha x hx => known x (List.mem_flatMap.2 ⟨a, ha, hx⟩)⟩

end Resolution
end Legalese
