import Mathlib
import Legalese.Proofs.Evaluation.Dependence

/-!
# Arithmetic in 64 bits

Every operator reduces its result into the range, so the operands of the next one are
reduced already.  For the operators without a division that makes no difference: reducing
at each step gives the same number as calculating over the integers and reducing once, at
the end.  Division does not allow for that, but it leaves the range in one case only, when
the least number is divided by minus one.
-/

namespace Legalese

/-! ## Reduction into the range -/

theorem wrap_modEq (n : Int) : wrap n ≡ n [ZMOD 2 ^ 64] := by
  rw [wrap_eq_bmod]
  exact Int.bmod_emod

theorem wrap_congr {m n : Int} (h : m ≡ n [ZMOD 2 ^ 64]) : wrap m = wrap n := by
  have m' := wrap_modEq m
  have n' := wrap_modEq n
  have hm := inRange_wrap m
  have hn := inRange_wrap n
  unfold Int.ModEq at h m' n'
  unfold InRange minNumber maxNumber at hm hn
  omega

theorem ok_wrapped_congr {m n : Int} (h : m ≡ n [ZMOD 2 ^ 64]) :
    (.ok (wrapped m) : Except Fault (Option Value)) = .ok (wrapped n) := by
  unfold wrapped
  rw [wrap_congr h]

/-- Reduction is the only way back into the range. -/
theorem eq_wrap_of_modEq {m n : Int} (inRange : InRange m) (h : m ≡ n [ZMOD 2 ^ 64]) :
    m = wrap n := by
  rw [← wrap_of_inRange inRange]
  exact wrap_congr h

/-! ## Calculating over the integers -/

namespace Expr

/-- An expression made of numbers of the range, names bound to such numbers, and operators
other than the two divisions, and what it comes to over the integers. -/
inductive Exact (env : Environment) : Expr → Int → Prop
  | integer {n : Int} (inRange : InRange n) : Exact env (integer n) n
  | name {x : String} {n : Int} (bound : env.get? x = some (.ok (.integer n)))
      (inRange : InRange n) : Exact env (name x) n
  | twice {e : Expr} {n : Int} (h : Exact env e n) : Exact env (unary .twice e) (2 * n)
  | thrice {e : Expr} {n : Int} (h : Exact env e n) : Exact env (unary .thrice e) (3 * n)
  | sum {a b : Expr} {m n : Int} (ha : Exact env a m) (hb : Exact env b n) :
      Exact env (binary .sum a b) (m + n)
  | product {a b : Expr} {m n : Int} (ha : Exact env a m) (hb : Exact env b n) :
      Exact env (binary .product a b) (m * n)
  | less {l r : Expr} {m n : Int} (hl : Exact env l m) (hr : Exact env r n) :
      Exact env (less l r) (m - n)
  | squared {e : Expr} {n : Int} (h : Exact env e n) : Exact env (power .squared e) (n ^ 2)
  | cubed {e : Expr} {n : Int} (h : Exact env e n) : Exact env (power .cubed e) (n ^ 3)

section Operators

variable {env : Environment} {a b : Expr} {m n : Int}

/-- Operands that come to numbers are calculated with, and the result is reduced. -/
theorem eval_unary_of_numbers (op : UnaryOperator) (h : a.eval env = .ok (some (.integer n))) :
    (unary op a).eval env = .ok (wrapped (op.result n)) := by
  rw [eval, h]
  rfl

theorem eval_binary_of_numbers (op : BinaryOperator) (ha : a.eval env = .ok (some (.integer m)))
    (hb : b.eval env = .ok (some (.integer n))) :
    (binary op a b).eval env = (op.compute m n >>= fun k => .ok (wrapped k)) := by
  rw [eval, ha, hb]
  exact op.apply_eq (some (.integer m)) (some (.integer n))

theorem eval_less_of_numbers (ha : a.eval env = .ok (some (.integer m)))
    (hb : b.eval env = .ok (some (.integer n))) :
    (less a b).eval env = .ok (wrapped (m - n)) := by
  rw [eval, ha, hb]
  rfl

theorem eval_power_of_numbers (op : Exponent) (h : a.eval env = .ok (some (.integer n))) :
    (power op a).eval env = .ok (wrapped (op.result n)) := by
  rw [eval, h]
  rfl

end Operators

/-- By induction on the expression.  Each operator respects congruence, so it may as well
be applied to operands that were not reduced. -/
theorem Exact.eval {env : Environment} {e : Expr} {n : Int} (h : Exact env e n) :
    e.eval env = .ok (wrapped n) := by
  induction h with
  | integer inRange =>
    unfold wrapped
    rw [wrap_of_inRange inRange]
    rfl
  | name bound inRange =>
    unfold wrapped
    rw [wrap_of_inRange inRange]
    exact Environment.value_of_get? bound
  | twice _ ih =>
    rw [eval_unary_of_numbers .twice ih]
    exact ok_wrapped_congr ((wrap_modEq _).mul_left 2)
  | thrice _ ih =>
    rw [eval_unary_of_numbers .thrice ih]
    exact ok_wrapped_congr ((wrap_modEq _).mul_left 3)
  | sum _ _ iha ihb =>
    rw [eval_binary_of_numbers .sum iha ihb]
    exact ok_wrapped_congr ((wrap_modEq _).add (wrap_modEq _))
  | product _ _ iha ihb =>
    rw [eval_binary_of_numbers .product iha ihb]
    exact ok_wrapped_congr ((wrap_modEq _).mul (wrap_modEq _))
  | less _ _ ihl ihr =>
    rw [eval_less_of_numbers ihl ihr]
    exact ok_wrapped_congr ((wrap_modEq _).sub (wrap_modEq _))
  | @squared e n _ ih =>
    rw [eval_power_of_numbers .squared ih, pow_two]
    exact ok_wrapped_congr ((wrap_modEq n).mul (wrap_modEq n))
  | @cubed e n _ ih =>
    rw [eval_power_of_numbers .cubed ih, pow_three']
    exact ok_wrapped_congr (((wrap_modEq n).mul (wrap_modEq n)).mul (wrap_modEq n))

/-- An expression without a division comes to the one number of the range that is congruent
to what it comes to over the integers.  What any operator gives at all lies in the range. -/
theorem eval_reduces_once (env : Environment) :
    (∀ (e : Expr) (n : Int), Exact env e n →
      ∃ w, e.eval env = .ok (some (.integer w)) ∧ InRange w ∧ w ≡ n [ZMOD 2 ^ 64] ∧
        ∀ m, InRange m → m ≡ n [ZMOD 2 ^ 64] → m = w) ∧
    ∀ (e : Expr) (w : Int), e.IsOperation → e.eval env = .ok (some (.integer w)) → InRange w := by
  constructor
  · intro e n exact
    refine ⟨wrap n, exact.eval, inRange_wrap n, wrap_modEq n, ?_⟩
    intro m inRange congruent
    exact eq_wrap_of_modEq inRange congruent
  · intro e w operation h
    exact operation.inRange h

/-- Two of the operands leave the range on the way. -/
theorem eval_reduces_once_overflowing :
    let env := Environment.empty.set "a" (.ok (.integer maxNumber))
    let e := less (power .squared (binary .sum (name "a") (name "a")))
      (unary .twice (integer minNumber))
    Exact env e ((maxNumber + maxNumber) ^ 2 - 2 * minNumber) ∧
      e.eval env = .ok (some (.integer 4)) ∧ e.IsOperation ∧ InRange 4 := by
  intro env e
  have bound : Exact env (name "a") maxNumber := .name rfl (by decide)
  have exact : Exact env e ((maxNumber + maxNumber) ^ 2 - 2 * minNumber) :=
    .less (.squared (.sum bound bound)) (.twice (.integer (by decide)))
  obtain ⟨w, eval, -, -, unique⟩ := (eval_reduces_once env).1 e _ exact
  obtain rfl : 4 = w := unique 4 (by decide) (by decide)
  exact ⟨exact, eval, trivial, (eval_reduces_once env).2 e 4 trivial eval⟩

end Expr

/-! ## Division -/

/-- The whole number next to a rational one on the side of zero. -/
def truncate (x : ℚ) : Int := if 0 ≤ x then ⌊x⌋ else ⌈x⌉

theorem truncate_neg (x : ℚ) : truncate (-x) = -truncate x := by
  unfold truncate
  rcases lt_trichotomy x 0 with negative | rfl | positive
  · rw [if_pos (neg_nonneg.2 negative.le), if_neg (not_le.2 negative), Int.floor_neg]
  · rfl
  · rw [if_neg (not_le.2 (neg_neg_of_pos positive)), if_pos positive.le, Int.ceil_neg]

theorem truncate_natCast_div (m n : ℕ) : truncate ((m : ℚ) / n) = (m : Int).tdiv n := by
  have nonneg : (0 : ℚ) ≤ m / n := by positivity
  rw [truncate, if_pos nonneg, Int.tdiv_eq_ediv_of_nonneg (Int.natCast_nonneg m)]
  exact Rat.floor_intCast_div_natCast m n

theorem truncate_div (a b : Int) : truncate ((a : ℚ) / b) = a.tdiv b := by
  obtain ⟨m, rfl | rfl⟩ := a.eq_nat_or_neg
  all_goals obtain ⟨n, rfl | rfl⟩ := b.eq_nat_or_neg
  all_goals
    simp only [Int.cast_neg, Int.cast_natCast, neg_div, div_neg, truncate_neg, Int.neg_tdiv,
      Int.tdiv_neg, truncate_natCast_div]

/-- The one pair of numbers of which the quotient leaves the range. -/
def Overflows (a b : Int) : Prop := a = minNumber ∧ b = -1

theorem inRange_tdiv {a b : Int} (ha : InRange a) (h : ¬Overflows a b) : InRange (a.tdiv b) := by
  have le : (a.tdiv b).natAbs ≤ a.natAbs := Int.natAbs_tdiv_le_natAbs a b
  unfold Overflows at h
  unfold InRange minNumber maxNumber at *
  by_cases least : a = -0x8000000000000000
  · -- the least number has the greatest absolute value, so the divisor has to be looked at
    subst least
    obtain rfl | rfl | big : b = 0 ∨ b = 1 ∨ 2 ≤ b.natAbs := by omega
    · decide
    · decide
    · have half : (Int.tdiv (-0x8000000000000000) b).natAbs ≤ 0x8000000000000000 / 2 := by
        rw [Int.natAbs_tdiv]
        exact Nat.div_le_div_left big (by decide)
      omega
  · omega

/-- The remainder is not further from zero than the dividend, and on the same side. -/
theorem inRange_tmod {a : Int} (ha : InRange a) (b : Int) : InRange (a.tmod b) := by
  have le : (a.tmod b).natAbs ≤ a.natAbs := by
    rw [Int.natAbs_tmod]
    exact Nat.mod_le _ _
  unfold InRange minNumber maxNumber at *
  rcases Int.le_total 0 a with nonneg | nonpos
  · have := Int.tmod_nonneg b nonneg
    omega
  · have := Int.tmod_nonneg b (Int.neg_nonneg_of_nonpos nonpos)
    rw [Int.neg_tmod] at this
    omega

theorem abs_tmod_lt (a : Int) {b : Int} (h : b ≠ 0) : |a.tmod b| < |b| := by
  rw [Int.abs_eq_natAbs, Int.abs_eq_natAbs, Int.natAbs_tmod]
  exact_mod_cast Nat.mod_lt a.natAbs (Int.natAbs_pos.2 h)

theorem sign_tmod_eq (a b : Int) : a.tmod b = 0 ∨ (a.tmod b).sign = a.sign := by
  by_cases divides : b ∣ a
  · exact .inl (Int.tmod_eq_zero_of_dvd divides)
  · right
    rw [Int.sign_tmod, if_neg divides]

/-- What the quotient `q` and the remainder `r` of `a` by `b` are in 64 bits. -/
structure Division (a b q r : Int) : Prop where
  quotient : ¬Overflows a b → q = truncate ((a : ℚ) / b)
  overflow : Overflows a b → q = minNumber
  remainder : r = a - b * truncate ((a : ℚ) / b)
  small : |r| < |b|
  sign : r = 0 ∨ r.sign = a.sign
  congruent : a ≡ b * q + r [ZMOD 2 ^ 64]
  whole : ¬Overflows a b → a = b * q + r

theorem division_wrap {a b : Int} (ha : InRange a) (hb : b ≠ 0) :
    Division a b (wrap (a.tdiv b)) (wrap (a.tmod b)) := by
  have remainder : wrap (a.tmod b) = a.tmod b := wrap_of_inRange (inRange_tmod ha b)
  have quotient (h : ¬Overflows a b) : wrap (a.tdiv b) = a.tdiv b :=
    wrap_of_inRange (inRange_tdiv ha h)
  rw [remainder]
  constructor
  · intro h
    rw [quotient h, truncate_div]
  · rintro ⟨rfl, rfl⟩
    rfl
  · rw [truncate_div, Int.tmod_def]
  · exact abs_tmod_lt a hb
  · exact sign_tmod_eq a b
  · have sum : b * a.tdiv b + a.tmod b ≡ b * wrap (a.tdiv b) + a.tmod b [ZMOD 2 ^ 64] :=
      ((wrap_modEq (a.tdiv b)).symm.mul_left b).add_right (a.tmod b)
    rwa [Int.mul_tdiv_add_tmod] at sum
  · intro h
    rw [quotient h, Int.mul_tdiv_add_tmod]

/-- Division of two operands that come to numbers.  It rounds toward zero, it is exact but
in the one case that overflows, and it fails for the divisor zero and for no other. -/
theorem BinaryOperator.division_truncates (env : Environment) (x y : Expr) (a b : Int)
    (hx : x.eval env = .ok (some (.integer a))) (hy : y.eval env = .ok (some (.integer b))) :
    (InRange a → b ≠ 0 → ∃ q r,
      (Expr.binary quotient x y).eval env = .ok (some (.integer q)) ∧
      (Expr.binary remainder x y).eval env = .ok (some (.integer r)) ∧ Division a b q r) ∧
    (b = 0 →
      (Expr.binary quotient x y).eval env = .error (.divisionByZero quotient a 0) ∧
      (Expr.binary remainder x y).eval env = .error (.divisionByZero remainder a 0)) ∧
    (b ≠ 0 → (∃ q, (Expr.binary quotient x y).eval env = .ok (some (.integer q))) ∧
      ∃ r, (Expr.binary remainder x y).eval env = .ok (some (.integer r))) := by
  have numbers (op : BinaryOperator) := Expr.eval_binary_of_numbers op hx hy
  have divided (h : b ≠ 0) :
      (Expr.binary quotient x y).eval env = .ok (wrapped (a.tdiv b)) ∧
        (Expr.binary remainder x y).eval env = .ok (wrapped (a.tmod b)) := by
    have hq : compute quotient a b = .ok (a.tdiv b) := by
      simp only [compute, result?, if_neg h, divideTowardZero_eq]
    have hr : compute remainder a b = .ok (a.tmod b) := by
      simp only [compute, result?, if_neg h, divideTowardZero_eq]
    rw [numbers, numbers, hq, hr]
    exact ⟨rfl, rfl⟩
  refine ⟨?_, ?_, ?_⟩
  · intro ha h
    exact ⟨_, _, (divided h).1, (divided h).2, division_wrap ha h⟩
  · rintro rfl
    rw [numbers, numbers]
    exact ⟨rfl, rfl⟩
  · intro h
    exact ⟨⟨_, (divided h).1⟩, _, (divided h).2⟩

/-- The divisor is minus one only because its calculation leaves the range. -/
theorem BinaryOperator.division_truncates_overflowing :
    let x := Expr.integer minNumber
    let y := Expr.unary .twice (.integer 0x7fffffffffffffff)
    let z := Expr.binary .sum y (.integer 1)
    (∃ q r, (Expr.binary quotient x z).eval .empty = .ok (some (.integer q)) ∧
      (Expr.binary remainder x z).eval .empty = .ok (some (.integer r)) ∧
      Division minNumber (-1) q r) ∧
    (Expr.binary quotient x z).eval .empty = .ok (some (.integer minNumber)) := by
  intro x y z
  exact ⟨(division_truncates .empty x z minNumber (-1) rfl rfl).1 (by decide) (by decide), rfl⟩

end Legalese
