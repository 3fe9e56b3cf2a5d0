import Legalese.Graph
import Legalese.Proofs.Evaluation.Values
import Legalese.Proofs.Evaluation.Visits

/-!
# What a run depends on

The edges of a dataflow graph rest on `Graph.touched`, the names that a statement reads or
reassigns.  Nothing else in the bindings has an influence on it: if two environments agree
on these names, the statement has the same effect in both.  For a list of statements the
environments have to agree on all the names from the beginning, and the bindings made on
the way keep them in agreement.

Values outside the range can be bound from elsewhere and have no line.  Where literals and
bindings are in the range, so is all that is published.
-/

namespace Legalese

namespace Environment

/-- The same bindings for some names. -/
def Agree (names : List String) (env env' : Environment) : Prop :=
  ∀ x ∈ names, env.get? x = env'.get? x

variable {names names' : List String} {env env' : Environment}

theorem Agree.mono (h : Agree names' env env') (sub : ∀ x ∈ names, x ∈ names') :
    Agree names env env' := by
  intro x hx
  exact h x (sub x hx)

theorem Agree.left (h : Agree (names ++ names') env env') : Agree names env env' :=
  h.mono fun _ hx => List.mem_append_left _ hx

theorem Agree.right (h : Agree (names ++ names') env env') : Agree names' env env' :=
  h.mono fun _ hx => List.mem_append_right _ hx

theorem Agree.value (h : Agree names env env') {x : String} (hx : x ∈ names) :
    env.value x = env'.value x := by
  rw [Environment.value, Environment.value, h x hx]

theorem get?_set_of_ne {x y : String} (ne : y ≠ x) (env : Environment) (b : Binding) :
    (env.set x b).get? y = env.get? y := by
  have other : (y == x) = false := beq_eq_false_iff_ne.2 ne
  unfold set
  split
  · show (env.entries.map _).lookup y = env.entries.lookup y
    induction env.entries with
    | nil => rfl
    | cons e entries ih =>
      rw [List.map_cons, List.lookup_cons, List.lookup_cons, ih]
      by_cases he : e.1 = x
      · rw [if_pos he, he, other]
      · rw [if_neg he]
  · show (env.entries ++ [(x, b)]).lookup y = env.entries.lookup y
    rw [List.lookup_append, List.lookup_cons, other]
    simp

/-- A binding made in both environments keeps them in agreement, and adds its name. -/
theorem Agree.set (h : Agree names env env') (x : String) (b : Binding) :
    Agree names (env.set x b) (env'.set x b) := by
  intro y hy
  by_cases same : y = x
  · subst same
    rw [get?_set, get?_set]
  · rw [get?_set_of_ne same, get?_set_of_ne same]
    exact h y hy

end Environment

open Environment (Agree)

/-! ## Two evaluations -/

theorem Expr.eval_congr {env env' : Environment} {e : Expr} (h : Agree e.names env env') :
    e.eval env = e.eval env' := by
  induction e with
  | integer n => rfl
  | text s => rfl
  | name x => exact h.value List.mem_cons_self
  | unary op e ih => rw [eval, eval, ih h]
  | binary op a b iha ihb => rw [eval, eval, iha h.left, ihb h.right]
  | less l r ihl ihr => rw [eval, eval, ihl h.left, ihr h.right]
  | power op e ih => rw [eval, eval, ih h]

namespace Statement

theorem effect_congr {env env' : Environment} {a : Statement}
    (h : Agree (Graph.touched a) env env') : a.effect env = a.effect env' := by
  -- a conditional has the effect of its consequence
  induction a with
  | declare d => rw [effect, effect, Expr.eval_congr h]
  | assume x e =>
    have value : Agree e.names env env' := h.mono fun _ hy => List.mem_cons_of_mem x hy
    rw [effect, effect, Expr.eval_congr value]
  | publish e => rw [effect, effect, Expr.eval_congr h]
  | conditional l r relation c ih =>
    have condition : Agree (l.names ++ r.names) env env' := h.left
    have consequence : Agree (Graph.touched c) env env' := h.right
    rw [effect, effect, Expr.eval_congr condition.left, Expr.eval_congr condition.right,
      ih consequence]

/-- The name that a statement, or its innermost consequence, declares or assumes. -/
def target? : Statement → Option String
  | declare d => some d.name
  | assume x _ => some x
  | publish _ => none
  | conditional _ _ _ c => c.target?

theorem target?_of_bind {env : Environment} {a : Statement} {x : String} {v : Value}
    (h : a.effect env = .ok (.bind x v)) : a.target? = some x := by
  have bound {y : String} {o : Option Value} (e : Effect.ofBinding y o = .bind x v) : y = x := by
    cases o with
    | none => cases e
    | some w =>
      cases e
      rfl
  induction a with
  | declare d =>
    obtain ⟨o, -, e⟩ := bind_eq_ok.1 h
    exact congrArg some (bound (Except.ok.inj e))
  | assume y e =>
    obtain ⟨o, -, e⟩ := bind_eq_ok.1 h
    exact congrArg some (bound (Except.ok.inj e))
  | publish e =>
    obtain ⟨o, -, e⟩ := bind_eq_ok.1 h
    cases o <;> cases e
  | conditional l r relation c ih =>
    have own : (conditional l r relation c).done env = .bind x v := by rw [done, h]
    rcases conditional_visits env l r relation c with ⟨-, done⟩ | ⟨-, effect⟩
    · rw [done] at own
      cases own
    · exact ih (effect ▸ h)

theorem run_of_fault {env : Environment} {a : Statement} {f : Fault} (h : a.effect env = .error f) :
    a.run env = ⟨env, [], some f⟩ :=
  runAll_of_fault h []

theorem run_of_effect {env : Environment} {a : Statement} {e : Effect} (h : a.effect env = .ok e) :
    a.run env = ⟨e.perform env, e.published, none⟩ := by
  rw [run, runAll_of_effect h]
  simp [runAll]

end Statement

/-! ## Values with lines -/

namespace Expr

/-- The integers that stand in an expression. -/
def literals : Expr → List Int
  | integer n => [n]
  | text _ => []
  | name _ => []
  | unary _ e => e.literals
  | binary _ a b => a.literals ++ b.literals
  | less l r => l.literals ++ r.literals
  | power _ e => e.literals

end Expr

namespace Statement

def literals (a : Statement) : List Int := a.expressions.flatMap Expr.literals

end Statement

namespace Resolution

def literals (r : Resolution) : List Int := r.statements.flatMap Statement.literals

end Resolution

/-- All numbers that are bound lie in the range.  Names may be bound to texts and faults. -/
def Environment.InRange (env : Environment) : Prop := ∀ x v, env.get? x = some (.ok v) → v.InRange

theorem Environment.inRange_empty : Environment.empty.InRange := nofun

theorem Environment.InRange.set {env : Environment} (h : env.InRange) (x : String) {v : Value}
    (inRange : v.InRange) : (env.set x (.ok v)).InRange := by
  intro y w hw
  by_cases same : y = x
  · subst same
    rw [get?_set] at hw
    cases hw
    exact inRange
  · rw [get?_set_of_ne same] at hw
    exact h y w hw

theorem inRange_of_wrapped {n : Int} {v : Value} (h : wrapped n = some v) : v.InRange := by
  cases h
  exact inRange_wrap n

namespace Expr

/-- An operator stands at the root. -/
def IsOperation : Expr → Prop
  | integer _ | text _ | name _ => False
  | unary _ _ | binary _ _ _ | less _ _ | power _ _ => True

/-- Whatever the operands hold, what an operator gives lies in the range. -/
theorem IsOperation.inRange {env : Environment} {e : Expr} (operation : e.IsOperation) {v : Value}
    (h : e.eval env = .ok (some v)) : v.InRange := by
  cases e with
  | integer n => exact operation.elim
  | text s => exact operation.elim
  | name x => exact operation.elim
  | unary op e =>
    obtain ⟨u, -, h⟩ := bind_eq_ok.1 h
    obtain ⟨n, -, h⟩ := bind_eq_ok.1 h
    exact inRange_of_wrapped (Except.ok.inj h)
  | binary op a b =>
    obtain ⟨u, -, h⟩ := bind_eq_ok.1 h
    obtain ⟨w, -, h⟩ := bind_eq_ok.1 h
    obtain ⟨m, -, h⟩ := bind_eq_ok.1 h
    obtain ⟨n, -, h⟩ := bind_eq_ok.1 h
    split at h
    · exact inRange_of_wrapped (Except.ok.inj h)
    · cases h
  | less l r =>
    obtain ⟨u, -, h⟩ := bind_eq_ok.1 h
    obtain ⟨w, -, h⟩ := bind_eq_ok.1 h
    obtain ⟨m, -, h⟩ := bind_eq_ok.1 h
    obtain ⟨n, -, h⟩ := bind_eq_ok.1 h
    exact inRange_of_wrapped (Except.ok.inj h)
  | power op e =>
    obtain ⟨u, -, h⟩ := bind_eq_ok.1 h
    obtain ⟨n, -, h⟩ := bind_eq_ok.1 h
    exact inRange_of_wrapped (Except.ok.inj h)

end Expr

theorem Expr.inRange_of_eval {env : Environment} (bound : env.InRange) {e : Expr}
    (literals : ∀ n ∈ e.literals, InRange n) {v : Value} (h : e.eval env = .ok (some v)) :
    v.InRange := by
  cases e with
  | integer n =>
    cases h
    exact literals n List.mem_cons_self
  | text s =>
    cases h
    trivial
  | name x =>
    rw [eval, Environment.value] at h
    split at h
    · cases h
    · next w found =>
      cases h
      exact bound x v found
    · cases h
  | unary op e => exact IsOperation.inRange (e := unary op e) trivial h
  | binary op a b => exact IsOperation.inRange (e := binary op a b) trivial h
  | less l r => exact IsOperation.inRange (e := less l r) trivial h
  | power op e => exact IsOperation.inRange (e := power op e) trivial h

/-- The value that an effect binds or publishes lies in the range. -/
def Effect.InRange : Effect → Prop
  | nothing => True
  | bind _ v => v.InRange
  | publish v => v.InRange

theorem Effect.inRange_ofBinding {x : String} {o : Option Value} (h : ∀ v, o = some v → v.InRange) :
    (ofBinding x o).InRange := by
  cases o with
  | none => trivial
  | some v => exact h v rfl

theorem Effect.inRange_ofPublication {o : Option Value} (h : ∀ v, o = some v → v.InRange) :
    (ofPublication o).InRange := by
  cases o with
  | none => trivial
  | some v => exact h v rfl

theorem Effect.InRange.published {e : Effect} (h : e.InRange) : ∀ v ∈ e.published, v.InRange := by
  cases e with
  | nothing => nofun
  | bind x v => nofun
  | publish v =>
    intro w hw
    rwa [List.mem_singleton.1 hw]

theorem Effect.InRange.perform {env : Environment} (bound : env.InRange) {e : Effect}
    (h : e.InRange) : (e.perform env).InRange := by
  cases e with
  | nothing => exact bound
  | bind x v => exact bound.set x h
  | publish v => exact bound

namespace Statement

theorem inRange_of_effect {env : Environment} (bound : env.InRange) {a : Statement}
    (literals : ∀ n ∈ a.literals, Legalese.InRange n) {e : Effect} (h : a.effect env = .ok e) :
    e.InRange := by
  have value {p : Expr} (mem : p ∈ a.expressions) {o : Option Value} (h : p.eval env = .ok o) :
      ∀ v, o = some v → v.InRange := by
    rintro v rfl
    exact Expr.inRange_of_eval bound (fun n hn => literals n (List.mem_flatMap.2 ⟨p, mem, hn⟩)) h
  induction a with
  | declare d =>
    obtain ⟨o, result, h⟩ := bind_eq_ok.1 h
    cases h
    exact Effect.inRange_ofBinding (value List.mem_cons_self result)
  | assume y p =>
    obtain ⟨o, result, h⟩ := bind_eq_ok.1 h
    cases h
    exact Effect.inRange_ofBinding (value List.mem_cons_self result)
  | publish p =>
    obtain ⟨o, result, h⟩ := bind_eq_ok.1 h
    cases h
    exact Effect.inRange_ofPublication (value List.mem_cons_self result)
  | conditional l r relation c ih =>
    have own : (conditional l r relation c).done env = e := by rw [done, h]
    rcases conditional_visits env l r relation c with ⟨-, done⟩ | ⟨-, effect⟩
    · rw [done] at own
      subst own
      trivial
    · have inside {p : Expr} (mem : p ∈ c.expressions) :
          p ∈ (conditional l r relation c).expressions :=
        List.mem_cons_of_mem l (List.mem_cons_of_mem r mem)
      refine ih (fun n hn => ?_) (effect ▸ h) fun mem => value (inside mem)
      obtain ⟨p, mem, hn⟩ := List.mem_flatMap.1 hn
      exact literals n (List.mem_flatMap.2 ⟨p, inside mem, hn⟩)

/-- A run in the range publishes values that have lines. -/
theorem inRange_of_runAll {env : Environment} (bound : env.InRange) {as : List Statement}
    (literals : ∀ n ∈ as.flatMap literals, Legalese.InRange n) :
    ∀ v ∈ (runAll env as).published, v.InRange := by
  induction as generalizing env with
  | nil => nofun
  | cons a rest ih =>
    rw [List.flatMap_cons] at literals
    cases effect : a.effect env with
    | error f =>
      rw [runAll_of_fault effect]
      nofun
    | ok e =>
      have inRange : e.InRange :=
        inRange_of_effect bound (fun n hn => literals n (List.mem_append_left _ hn)) effect
      rw [runAll_of_effect effect]
      intro v hv
      rcases List.mem_append.1 hv with hv | hv
      · exact inRange.published v hv
      · exact ih (inRange.perform bound) (fun n hn => literals n (List.mem_append_right _ hn)) v hv

/-! ## Two runs -/

/-- Two runs of one statement, seen from outside.  They stop with the same fault or both
go through, they publish the same, and at most the target gets a new binding.  It gets one
in both runs or in neither, and then the same. -/
structure SameRun (a : Statement) (env env' : Environment) : Prop where
  fault : (a.run env).fault = (a.run env').fault
  published : (a.run env).published = (a.run env').published
  kept : ∀ y, a.target? ≠ some y →
    (a.run env).env.get? y = env.get? y ∧ (a.run env').env.get? y = env'.get? y
  bound :
    ((a.run env).env = env ∧ (a.run env').env = env') ∨
      ∃ x v, a.target? = some x ∧ (a.run env).env = env.set x (.ok v) ∧
        (a.run env').env = env'.set x (.ok v)

theorem sameRun_of_agree {a : Statement} {env env' : Environment}
    (agree : Agree (Graph.touched a) env env') : a.SameRun env env' := by
  have same := effect_congr agree
  cases effect : a.effect env' with
  | error f =>
    have run := run_of_fault (same.trans effect)
    have run' := run_of_fault effect
    constructor
    · rw [run, run']
    · rw [run, run']
    · intro y _
      rw [run, run']
      exact ⟨rfl, rfl⟩
    · left
      rw [run, run']
      exact ⟨rfl, rfl⟩
  | ok e =>
    have run := run_of_effect (same.trans effect)
    have run' := run_of_effect effect
    constructor
    · rw [run, run']
    · rw [run, run']
    · intro y other
      rw [run, run']
      cases e with
      | nothing => exact ⟨rfl, rfl⟩
      | publish v => exact ⟨rfl, rfl⟩
      | bind x v =>
        have target := target?_of_bind effect
        have ne : y ≠ x := fun h => other (h ▸ target)
        exact ⟨Environment.get?_set_of_ne ne env (.ok v), Environment.get?_set_of_ne ne env' (.ok v)⟩
    · rw [run, run']
      cases e with
      | nothing => exact .inl ⟨rfl, rfl⟩
      | publish v => exact .inl ⟨rfl, rfl⟩
      | bind x v => exact .inr ⟨x, v, target?_of_bind effect, rfl, rfl⟩

theorem runAll_congr {names : List String} {as : List Statement} {env env' : Environment}
    (touched : ∀ x ∈ as.flatMap Graph.touched, x ∈ names) (agree : Agree names env env') :
    (runAll env as).fault = (runAll env' as).fault ∧
      (runAll env as).published = (runAll env' as).published := by
  -- the names stay the same all the way, since a name that only a later statement reads has
  -- to agree from the beginning
  induction as generalizing env env' with
  | nil => exact ⟨rfl, rfl⟩
  | cons a rest ih =>
    rw [List.flatMap_cons] at touched
    have first : a.effect env = a.effect env' :=
      effect_congr (agree.mono fun x hx => touched x (List.mem_append_left _ hx))
    cases effect : a.effect env' with
    | error f =>
      rw [runAll_of_fault effect, runAll_of_fault (first.trans effect)]
      exact ⟨rfl, rfl⟩
    | ok e =>
      have next : Agree names (e.perform env) (e.perform env') := by
        cases e with
        | nothing => exact agree
        | bind x v => exact agree.set x (.ok v)
        | publish v => exact agree
      obtain ⟨fault, published⟩ := ih (fun x hx => touched x (List.mem_append_right _ hx)) next
      rw [runAll_of_effect effect, runAll_of_effect (first.trans effect)]
      exact ⟨fault, congrArg (e.published ++ ·) published⟩

end Statement

namespace Outcome

/-- Both runs have lines, and these are the same. -/
def SameLines (o o' : Outcome) : Prop := ∃ lines, o.lines? = .ok lines ∧ o'.lines? = .ok lines

theorem sameLines_of_inRange {o o' : Outcome} (published : o.published = o'.published)
    (h : ∀ v ∈ o.published, v.InRange) : SameLines o o' := by
  obtain ⟨lines, written, -⟩ := Value.lines_of_inRange h
  refine ⟨lines, written, ?_⟩
  rwa [lines?, ← published]

end Outcome

namespace Graph

/-- Bindings that agree on the names from which the graph draws its edges give the same
run, of a statement and of a whole resolution. -/
theorem run_of_agree :
    (∀ (a : Statement) (env env' : Environment), Agree (touched a) env env' →
      a.SameRun env env' ∧
        (env.InRange → (∀ n ∈ a.literals, InRange n) → (a.run env).SameLines (a.run env'))) ∧
    ∀ (r : Resolution) (env env' : Environment),
      Agree (r.statements.flatMap touched) env env' →
        (r.run env).fault = (r.run env').fault ∧
        (r.run env).published = (r.run env').published ∧
        (env.InRange → (∀ n ∈ r.literals, InRange n) → (r.run env).SameLines (r.run env')) := by
  constructor
  · intro a env env' agree
    have same := Statement.sameRun_of_agree agree
    refine ⟨same, fun bound literals => Outcome.sameLines_of_inRange same.published ?_⟩
    apply Statement.inRange_of_runAll bound
    rwa [List.flatMap_singleton]
  · intro r env env' agree
    obtain ⟨fault, published⟩ := Statement.runAll_congr (fun _ hx => hx) agree
    refine ⟨fault, published, fun bound literals => ?_⟩
    exact Outcome.sameLines_of_inRange published (Statement.inRange_of_runAll bound literals)

/-- A name beside those of the statement, here `c`, makes no difference.  The assumption is
made in both runs. -/
theorem run_of_agree_beside :
    let env := (Environment.empty.set "a" (.ok (.integer 5))).set "b" (.ok (.integer 3))
    let env' := env.set "c" (.ok (.text "x"))
    let a := Statement.conditional (.name "a") (.name "b") .exceeds (.assume "a" (.name "b"))
    let r : Resolution := ⟨[], [a, .publish (.name "a")]⟩
    a.SameRun env env' ∧ (r.run env).SameLines (r.run env') ∧
      (r.run env').lines? = .ok ["three (3)"] := by
  intro env env' a r
  have agree {names : List String} (h : "c" ∉ names) : Agree names env env' := by
    intro x hx
    have ne : x ≠ "c" := fun e => h (e ▸ hx)
    exact (Environment.get?_set_of_ne ne env _).symm
  have five : (Value.integer 5).InRange := show InRange 5 by decide
  have three : (Value.integer 3).InRange := show InRange 3 by decide
  have bound : env.InRange := (Environment.inRange_empty.set "a" five).set "b" three
  refine ⟨(run_of_agree.1 a env env' (agree (by decide))).1, ?_, by decide⟩
  exact (run_of_agree.2 r env env' (agree (by decide))).2.2 bound (by decide)

end Graph
end Legalese
