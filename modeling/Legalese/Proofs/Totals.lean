import Legalese.Proofs.Inventory
import Legalese.Proofs.Number.Nearest
import Legalese.Proofs.Subexpressions

/-!
# The totals of a report

A report counts statements by one recursion through the conditionals of a resolution and
finds the outermost expressions by another, and it counts the nodes, depths and names of each
expression apart.  Here the totals are compared with the tree itself: every conditional adds
one statement and two expressions to those of the other statements, the nodes are those of
the whole tree, and the greatest depth is the longest way to a leaf.

The mean depth is a double, so a count of expressions times it need not be the sum of the
depths.  It is the double for which the product comes closest.

No total depends on the order of the actions, since each of them adds up, or takes the
greatest of, what single statements have.
-/

namespace Legalese

/-! ## Tallies -/

theorem sum_tally {α : Type} [DecidableEq α] (l : List α) :
    ((tally l).map (·.2)).sum = l.length := by
  have perm : (distinct l).Perm l.dedup := by
    refine (List.perm_ext_iff_of_nodup (nodup_distinct l) l.nodup_dedup).2 fun a => ?_
    rw [mem_distinct, List.mem_dedup]
  rw [tally, List.map_map]
  exact (perm.map _).sum_eq.trans (List.sum_map_count_dedup_eq_length l)

theorem mem_tally_iff {α : Type} [DecidableEq α] {l : List α} {a : α} {n : Nat} :
    (a, n) ∈ tally l ↔ 0 < n ∧ n = l.count a := by
  rw [tally, List.mem_map]
  constructor
  · rintro ⟨b, hb, ⟨⟩⟩
    exact ⟨List.count_pos_iff.2 (mem_distinct.1 hb), rfl⟩
  · rintro ⟨pos, rfl⟩
    exact ⟨a, mem_distinct.2 (List.count_pos_iff.1 pos), rfl⟩

theorem lookup_tally {α : Type} [DecidableEq α] (l : List α) (a : α) :
    ((tally l).lookup a).getD 0 = l.count a := by
  have found (xs : List α) :
      (xs.map fun x => (x, l.count x)).lookup a = if a ∈ xs then some (l.count a) else none := by
    induction xs with
    | nil => rfl
    | cons x xs ih =>
      rw [List.map_cons, List.lookup_cons, ih]
      by_cases same : a = x
      · simp [same]
      · have other : (a == x) = false := beq_eq_false_iff_ne.2 same
        simp [same, other]
  rw [tally, found]
  split
  · rfl
  · next absent =>
    exact (List.count_eq_zero.2 fun h => absent (mem_distinct.2 h)).symm

theorem perm_distinct {α : Type} [DecidableEq α] {l l' : List α} (h : l.Perm l') :
    (distinct l).Perm (distinct l') := by
  refine (List.perm_ext_iff_of_nodup (nodup_distinct l) (nodup_distinct l')).2 fun a => ?_
  rw [mem_distinct, mem_distinct, h.mem_iff]

theorem perm_tally {α : Type} [DecidableEq α] {l l' : List α} (h : l.Perm l') :
    (tally l).Perm (tally l') := by
  have counts : (fun a => (a, l.count a)) = fun a => (a, l'.count a) :=
    funext fun a => by rw [h.count_eq]
  rw [tally, tally, counts]
  exact (perm_distinct h).map _

/-! ## Statements -/

namespace Statement

theorem length_kinds (a : Statement) : a.kinds.length = 1 + 1 * a.kinds.count .conditional := by
  induction a with
  | declare d => rfl
  | assume x e => rfl
  | publish e => rfl
  | conditional l r relation c ih =>
    rw [kinds, List.length_cons, List.count_cons_self, ih]
    omega

/-- A conditional adds its condition to the expressions of its consequence. -/
theorem length_expressions (a : Statement) :
    a.expressions.length = 1 + 2 * a.kinds.count .conditional := by
  induction a with
  | declare d => rfl
  | assume x e => rfl
  | publish e => rfl
  | conditional l r relation c ih =>
    rw [expressions, kinds, List.length_cons, List.length_cons, List.count_cons_self, ih]
    omega

/-- What each statement has once, and once more or more often for every conditional, a list of
statements has as often. -/
theorem length_flatMap_of_conditionals {α : Type} {f : Statement → List α} {weight : Nat}
    (h : ∀ a, (f a).length = 1 + weight * a.kinds.count .conditional) (as : List Statement) :
    (as.flatMap f).length = as.length + weight * (as.flatMap kinds).count .conditional := by
  induction as with
  | nil => rfl
  | cons a as ih =>
    rw [List.flatMap_cons, List.flatMap_cons, List.length_append, List.count_append, ih, h,
      List.length_cons, Nat.mul_add]
    omega

end Statement

namespace Resolution

/-- The outermost expressions of a resolution. -/
def expressions (r : Resolution) : List Expr := r.statements.flatMap Statement.expressions

/-- Every expression node of a resolution. -/
def subexpressions (r : Resolution) : List Expr := r.statements.flatMap Statement.subexpressions

theorem subexpressions_eq (r : Resolution) :
    r.subexpressions = r.expressions.flatMap Expr.subexpressions := by
  rw [subexpressions, expressions, List.flatMap_assoc]
  exact List.flatMap_congr fun a _ => a.subexpressions_eq

theorem length_statements (r : Resolution) :
    r.statements.length = r.recitals.length + r.actions.length := by
  rw [statements, List.length_append, List.length_map]

end Resolution

/-! ## What a report has to agree with -/

/-- The lengths of the ways from the root of an expression to its leaves. -/
def Expr.reaches (e : Expr) : Set Nat := {n | ∃ way, e.Path way ∧ way.length = n}

theorem Expr.isGreatest_depth (e : Expr) : IsGreatest e.reaches e.depth := by
  constructor
  · exact e.exists_path
  · rintro _ ⟨way, path, rfl⟩
    exact path.length_le

namespace Report

/-- How many statements of a kind are counted. -/
def countOf (p : Report) (k : StatementKind) : Nat := (p.statementCounts.lookup k).getD 0

/-- The mean depth of the outermost expressions. -/
def mean (p : Report) : Double :=
  if p.expressions = 0 then ⟨0⟩ else Double.nearest p.totalDepth p.expressions

theorem meanDepth_eq (p : Report) (places : Nat) :
    p.meanDepth places = Decimal.fixed places p.mean := by
  unfold meanDepth Decimal.mean mean
  split
  · rfl
  · rfl

/-- The totals of a report are those of a tree. -/
structure Totals (p : Report) (r : Resolution) : Prop where
  recitals : p.recitals = r.recitals.length
  actions : p.actions = r.actions.length
  statements :
    (p.statementCounts.map (·.2)).sum = p.recitals + p.actions + p.countOf .conditional
  expressions : p.expressions = r.expressions.length ∧
    p.expressions = p.recitals + p.actions + 2 * p.countOf .conditional
  nodes : p.nodes = r.subexpressions.length
  maxDepth : r.expressions ≠ [] →
    IsGreatest {n | ∃ e ∈ r.expressions, n ∈ e.reaches} p.maxDepth
  maxDepth_none : r.expressions = [] → p.maxDepth = 0
  totalDepth : ∃ depths : List Nat,
    List.Forall₂ (fun e d => IsGreatest e.reaches d) r.expressions depths ∧
      p.totalDepth = depths.sum
  /-- The mean is a double, and none comes closer to having the sum of the depths as its
  product with the number of expressions. -/
  mean : r.expressions ≠ [] → Double.Fits p.mean.units ∧ ∀ units, Double.Fits units →
    (p.mean.units * p.expressions).dist (p.totalDepth * Double.unitsOfOne) ≤
      (units * p.expressions).dist (p.totalDepth * Double.unitsOfOne)
  names : (p.usage.map (·.1)).Nodup
  usage : ∀ x n, (x, n) ∈ p.usage ↔
    0 < n ∧ n = r.expressions.countP fun e => .name x ∈ e.subexpressions

/-- Two reports have the same totals and the same names, in whatever order. -/
structure Alike (p q : Report) : Prop where
  recitals : p.recitals = q.recitals
  actions : p.actions = q.actions
  statementCounts : p.statementCounts.Perm q.statementCounts
  usage : p.usage.Perm q.usage
  reassigned : p.reassigned.Perm q.reassigned
  undefined : p.undefined.Perm q.undefined
  unused : p.unused.Perm q.unused
  expressions : p.expressions = q.expressions
  maxDepth : p.maxDepth = q.maxDepth
  totalDepth : p.totalDepth = q.totalDepth
  mean : p.mean = q.mean
  nodes : p.nodes = q.nodes

/-! ## Sums and greatest members -/

theorem total_eq_sum (l : List Nat) : total l = l.sum := rfl

theorem isGreatest_foldl_max (l : List Nat) (start : Nat) :
    IsGreatest {n | n ∈ start :: l} (l.foldl max start) := by
  induction l generalizing start with
  | nil => exact ⟨List.mem_cons_self, fun n hn => Nat.le_of_eq (List.mem_singleton.1 hn)⟩
  | cons m l ih =>
    obtain ⟨mem, upper⟩ := ih (max start m)
    have top := upper List.mem_cons_self
    rw [List.foldl_cons]
    constructor
    · rcases List.mem_cons.1 mem with same | below
      · rw [same]
        rcases Nat.le_total start m with le | le
        · rw [Nat.max_eq_right le]
          exact List.mem_cons_of_mem start List.mem_cons_self
        · rw [Nat.max_eq_left le]
          exact List.mem_cons_self
      · exact List.mem_cons_of_mem start (List.mem_cons_of_mem m below)
    · intro n hn
      rcases List.mem_cons.1 hn with rfl | hn
      · exact Nat.le_trans (Nat.le_max_left _ _) top
      · rcases List.mem_cons.1 hn with rfl | hn
        · exact Nat.le_trans (Nat.le_max_right _ _) top
        · exact upper (List.mem_cons_of_mem _ hn)

theorem count_flatMap_distinct (es : List Expr) (x : String) :
    (es.flatMap fun e => distinct e.names).count x =
      es.countP fun e => .name x ∈ e.subexpressions := by
  induction es with
  | nil => rfl
  | cons e es ih =>
    rw [List.flatMap_cons, List.count_append, ih, List.countP_cons,
      (nodup_distinct e.names).count, Nat.add_comm]
    simp [mem_distinct, Expr.mem_names]

/-! ## The report on a resolution -/

section

variable (r : Resolution)

theorem countOf_ofResolution (k : StatementKind) :
    (ofResolution r).countOf k = (r.statements.flatMap Statement.kinds).count k :=
  lookup_tally _ k

theorem sum_statementCounts : ((ofResolution r).statementCounts.map (·.2)).sum =
    r.recitals.length + r.actions.length + (ofResolution r).countOf .conditional := by
  show ((tally (r.statements.flatMap Statement.kinds)).map (·.2)).sum = _
  rw [sum_tally, countOf_ofResolution,
    Statement.length_flatMap_of_conditionals Statement.length_kinds, r.length_statements,
    Nat.one_mul]

theorem expressions_ofResolution : (ofResolution r).expressions =
    r.recitals.length + r.actions.length + 2 * (ofResolution r).countOf .conditional := by
  show (r.statements.flatMap Statement.expressions).length = _
  rw [countOf_ofResolution,
    Statement.length_flatMap_of_conditionals Statement.length_expressions, r.length_statements]

theorem nodes_ofResolution : (ofResolution r).nodes = r.subexpressions.length := by
  have size : Expr.size = fun e => e.subexpressions.length :=
    funext fun e => e.length_subexpressions.symm
  show total (r.expressions.map Expr.size) = _
  rw [r.subexpressions_eq, List.length_flatMap, total_eq_sum, size]

theorem isGreatest_maxDepth (some : r.expressions ≠ []) :
    IsGreatest {n | ∃ e ∈ r.expressions, n ∈ e.reaches} (ofResolution r).maxDepth := by
  obtain ⟨mem, upper⟩ := isGreatest_foldl_max (r.expressions.map Expr.depth) 0
  have depth_le {e : Expr} (he : e ∈ r.expressions) : e.depth ≤ (ofResolution r).maxDepth :=
    upper (List.mem_cons_of_mem 0 (List.mem_map_of_mem he))
  constructor
  · rcases List.mem_cons.1 mem with none | mem
    · obtain ⟨e, he⟩ := List.exists_mem_of_ne_nil _ some
      have le : e.depth ≤ 0 := none ▸ depth_le he
      exact absurd le (Nat.not_le_of_gt e.depth_pos)
    · obtain ⟨e, he, depth⟩ := List.mem_map.1 mem
      have deepest : e.depth = (ofResolution r).maxDepth := depth
      rw [← deepest]
      exact ⟨e, he, e.isGreatest_depth.1⟩
  · rintro n ⟨e, he, hn⟩
    exact Nat.le_trans (e.isGreatest_depth.2 hn) (depth_le he)

theorem totals_ofResolution : (ofResolution r).Totals r where
  recitals := rfl
  actions := rfl
  statements := sum_statementCounts r
  expressions := ⟨rfl, expressions_ofResolution r⟩
  nodes := nodes_ofResolution r
  maxDepth := isGreatest_maxDepth r
  maxDepth_none none := by
    show (r.expressions.map Expr.depth).foldl max 0 = 0
    rw [none]
    rfl
  totalDepth := by
    refine ⟨r.expressions.map Expr.depth, ?_, rfl⟩
    rw [List.forall₂_map_right_iff]
    exact List.forall₂_same.2 fun e _ => e.isGreatest_depth
  mean some := by
    have pos : 0 < (ofResolution r).expressions := List.length_pos_iff.2 some
    rw [Report.mean, if_neg (Nat.ne_of_gt pos)]
    exact ⟨Double.fits_nearest _ _, fun units fits => Double.dist_nearest_le pos fits⟩
  names := by
    show ((tally _).map (·.1)).Nodup
    rw [tally, List.map_map]
    exact (nodup_distinct _).map fun _ _ same => same
  usage x n := by
    show (x, n) ∈ tally (r.expressions.flatMap fun e => distinct e.names) ↔ _
    rw [mem_tally_iff, count_flatMap_distinct]

end

/-! ## The order of the actions -/

theorem alike_of_perm {recitals : List Declaration} {as bs : List Statement} (h : as.Perm bs) :
    (ofResolution ⟨recitals, as⟩).Alike (ofResolution ⟨recitals, bs⟩) := by
  have statements :
      (Resolution.statements ⟨recitals, as⟩).Perm (Resolution.statements ⟨recitals, bs⟩) :=
    h.append_left _
  have expressions := statements.flatMap_right Statement.expressions
  have usage := perm_tally (expressions.flatMap_right fun e => distinct e.names)
  have reassigned := perm_distinct (statements.flatMap_right Statement.assumed)
  have referenced := perm_distinct ((usage.map (·.1)).append reassigned)
  have depths := expressions.map Expr.depth
  have count :
      (ofResolution ⟨recitals, as⟩).expressions = (ofResolution ⟨recitals, bs⟩).expressions :=
    expressions.length_eq
  have total :
      (ofResolution ⟨recitals, as⟩).totalDepth = (ofResolution ⟨recitals, bs⟩).totalDepth :=
    depths.sum_eq
  refine ⟨rfl, h.length_eq, perm_tally (statements.flatMap_right _), usage, reassigned,
    referenced.filter _, ?_, count, depths.foldl_eq 0, total, ?_, (expressions.map _).sum_eq⟩
  · refine List.Perm.of_eq (List.filter_congr fun x _ => ?_)
    simp only [List.contains_eq_mem, referenced.mem_iff]
  · rw [mean, mean, count, total]

/-- The report on a resolution agrees with its tree in every total, whatever the order of its
actions, and shows the mean depth from the double that comes closest to it. -/
theorem ofResolution_consistent (r : Resolution) :
    (ofResolution r).Totals r ∧
      (∀ places, (ofResolution r).meanDepth places = Decimal.fixed places (ofResolution r).mean) ∧
      ∀ actions, actions.Perm r.actions →
        (ofResolution ⟨r.recitals, actions⟩).Alike (ofResolution r) :=
  ⟨totals_ofResolution r, meanDepth_eq _, fun _ order => alike_of_perm order⟩

/-- Of two hundred expressions with depths that add up to 203 the mean depth is no double.  The
one that is nearest has another product with their number, exact or rounded, and is shown as
1.01, although 1.015 is even to the last place at 1.02. -/
theorem mean_of_two_hundred :
    ∃ r : Resolution,
      r = ⟨[], List.replicate 197 (.publish (.text "")) ++
        List.replicate 3 (.publish (.unary .twice (.text "")))⟩ ∧
      (ofResolution r).expressions = 200 ∧ (ofResolution r).totalDepth = 203 ∧
      (ofResolution r).mean.units * 200 ≠ 203 * Double.unitsOfOne ∧
      Double.ofUnits ((ofResolution r).mean.units * 200) ≠ ⟨203 * Double.unitsOfOne⟩ ∧
      (ofResolution r).meanDepth 2 = "1.01" := by
  refine ⟨_, rfl, ?_⟩
  decide +kernel

end Report
end Legalese
