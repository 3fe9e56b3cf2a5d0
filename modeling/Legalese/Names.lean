/-!
# Lists of names

Small operations on lists in which each name counts once.
-/

namespace Legalese

/-- The members of a list in the order of their first occurrence. -/
def distinct {α : Type} [DecidableEq α] : List α → List α
  | [] => []
  | a :: l => a :: (distinct l).filter (· ≠ a)

/-- How often each member of a list occurs in it, in the order of first occurrence. -/
def tally {α : Type} [DecidableEq α] (l : List α) : List (α × Nat) :=
  (distinct l).map fun a => (a, l.count a)

/-- The members of a list in the order of their code points, each once. -/
def sortedNames (names : List String) : List String :=
  (distinct names).mergeSort fun a b => decide (a ≤ b)

theorem mem_distinct {α : Type} [DecidableEq α] {a : α} {l : List α} :
    a ∈ distinct l ↔ a ∈ l := by
  induction l with
  | nil => simp [distinct]
  | cons b l ih =>
    by_cases h : a = b
    · simp [distinct, h]
    · simp [distinct, h, ih]

theorem nodup_distinct {α : Type} [DecidableEq α] (l : List α) : (distinct l).Nodup := by
  induction l with
  | nil => simp [distinct]
  | cons b l ih =>
    simp only [distinct, List.nodup_cons, List.mem_filter]
    exact ⟨by simp, ih.filter _⟩

theorem mem_sortedNames {x : String} {l : List String} : x ∈ sortedNames l ↔ x ∈ l := by
  simp [sortedNames, List.mem_mergeSort, mem_distinct]

end Legalese
