import Mathlib
import Legalese.Number.Double

/-!
# The double nearest to a quotient

A double is a number of units with at most 53 significant bits.  `Double.nearest` finds the
step between the doubles at a quotient and rounds to a multiple of it.  Below the quotient's
own power of two the doubles are closer to each other, but that power is itself a double and
lies between them and the quotient.
-/

namespace Legalese

/-- A quotient is rounded down or up, to where less than half of the divisor is missing or
exactly half of it. -/
theorem roundQuotient_cases (num den : Nat) :
    (roundQuotient num den = num / den ∧ 2 * (num % den) ≤ den) ∨
      (roundQuotient num den = num / den + 1 ∧ den ≤ 2 * (num % den)) := by
  unfold roundQuotient
  dsimp only
  split
  · exact .inr ⟨rfl, by omega⟩
  · exact .inl ⟨rfl, by omega⟩

theorem dist_roundQuotient_le {den : Nat} (pos : 0 < den) (num k : Nat) :
    (roundQuotient num den * den).dist num ≤ (k * den).dist num := by
  have whole : num / den * den + num % den = num := Nat.div_add_mod' num den
  have below : num % den < den := Nat.mod_lt num pos
  have next : (num / den + 1) * den = num / den * den + den := Nat.succ_mul _ _
  unfold Nat.dist
  rcases roundQuotient_cases num den with ⟨rounded, half⟩ | ⟨rounded, half⟩
  all_goals
    rw [rounded]
    rcases Nat.lt_or_ge (num / den) k with above | under
    · have le : (num / den + 1) * den ≤ k * den := Nat.mul_le_mul_right den above
      omega
    · have le := Nat.mul_le_mul_right den under
      omega

theorem roundQuotient_le (num den : Nat) : roundQuotient num den ≤ num / den + 1 := by
  rcases roundQuotient_cases num den with ⟨rounded, -⟩ | ⟨rounded, -⟩ <;> omega

namespace Double

/-- The numbers of units that a double can have. -/
def Fits (units : Nat) : Prop := ∃ m e, m < 2 ^ 53 ∧ units = m * 2 ^ e

theorem step_eq (units : Nat) : step units = 2 ^ (units.log2 - 52) := rfl

/-- A multiple of a power of two has no more bits if the factor has none more than 53. -/
theorem fits_of_le {m : Nat} (h : m ≤ 2 ^ 53) (e : Nat) : Fits (m * 2 ^ e) := by
  rcases Nat.lt_or_eq_of_le h with small | rfl
  · exact ⟨m, e, small, rfl⟩
  · exact ⟨2 ^ 52, e + 1, by decide, by rw [Nat.pow_succ 2 e]; ring⟩

/-- A number of units is less than `2 ^ 53` of its steps. -/
theorem lt_step (units : Nat) : units < 2 ^ 53 * step units := by
  have upper : units < 2 ^ (units.log2 + 1) := Nat.lt_log2_self
  rw [step_eq, ← Nat.pow_add]
  exact Nat.lt_of_lt_of_le upper (Nat.pow_le_pow_right (by decide) (by omega))

/-- Where the step is more than one unit, there are `2 ^ 52` steps below. -/
theorem step_le {units : Nat} (h : 52 < units.log2) : 2 ^ 52 * step units ≤ units := by
  have ne : units ≠ 0 := by
    rintro rfl
    exact absurd h (by decide)
  have lower : 2 ^ units.log2 ≤ units := Nat.log2_self_le ne
  rw [step_eq, ← Nat.pow_add, Nat.add_sub_cancel' (Nat.le_of_lt h)]
  exact lower

theorem fits_nearest (num den : Nat) : Fits (nearest num den).units := by
  have few : num * unitsOfOne / (den * step (num * unitsOfOne / den)) < 2 ^ 53 := by
    rw [← Nat.div_div_eq_div_mul]
    exact Nat.div_lt_of_lt_mul ((lt_step _).trans_eq (Nat.mul_comm _ _))
  have rounded := roundQuotient_le (num * unitsOfOne) (den * step (num * unitsOfOne / den))
  exact fits_of_le (Nat.le_trans rounded few) _

/-- No double is nearer to a quotient than the one that is found. -/
theorem dist_nearest_le {num den : Nat} (pos : 0 < den) {units : Nat} (h : Fits units) :
    ((nearest num den).units * den).dist (num * unitsOfOne) ≤
      (units * den).dist (num * unitsOfOne) := by
  obtain ⟨m, e, small, rfl⟩ := h
  unfold nearest
  dsimp only
  generalize num * unitsOfOne = total
  have stepPos : 0 < step (total / den) := Nat.two_pow_pos _
  have multiple (k : Nat) :
      (roundQuotient total (den * step (total / den)) * step (total / den) * den).dist total ≤
        (k * step (total / den) * den).dist total := by
    have best := dist_roundQuotient_le (Nat.mul_pos pos stepPos) total k
    rwa [Nat.mul_comm den (step _), ← Nat.mul_assoc, ← Nat.mul_assoc,
      Nat.mul_comm (step _) den] at best
  rcases Nat.lt_or_ge e ((total / den).log2 - 52) with fine | coarse
  · -- the power of two below the quotient is between it and these units
    have power := multiple (2 ^ 52)
    have below : 2 ^ 52 * step (total / den) * den ≤ total :=
      Nat.le_trans (Nat.mul_le_mul_right den (step_le (by omega))) (Nat.div_mul_le_self total den)
    have less : m * 2 ^ e ≤ 2 ^ 52 * step (total / den) := by
      have half : 2 * 2 ^ e ≤ step (total / den) := by
        rw [step_eq, Nat.mul_comm, ← Nat.pow_succ]
        exact Nat.pow_le_pow_right (by decide) fine
      have bits : m * 2 ^ e ≤ 2 ^ 53 * 2 ^ e := Nat.mul_le_mul_right _ (Nat.le_of_lt small)
      omega
    have farther := Nat.mul_le_mul_right den less
    unfold Nat.dist at power ⊢
    omega
  · have same : m * 2 ^ e = m * 2 ^ (e - ((total / den).log2 - 52)) * step (total / den) := by
      rw [step_eq, Nat.mul_assoc, ← Nat.pow_add, Nat.sub_add_cancel coarse]
    rw [same]
    exact multiple _

end Double
end Legalese
