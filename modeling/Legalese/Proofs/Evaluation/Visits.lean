import Legalese.Evaluation

/-!
# The statements that a run comes to

A run visits its statements in order, and with a conditional that holds also the
consequence.  Every visit has the bindings of its moment.  What a run publishes and what it
binds can be told from its visits, one statement at a time.
-/

namespace Legalese

/-- A statement that a run comes to, and the bindings at that moment. -/
structure Visit where
  env : Environment
  statement : Statement

namespace Statement

/-- A statement, and the consequences inside it that it comes to. -/
def visits (env : Environment) : Statement → List Visit
  | conditional l r relation c =>
    ⟨env, conditional l r relation c⟩ ::
      match l.eval env, r.eval env with
      | .ok (some u), .ok (some v) =>
        match relation.holds u v with
        | .ok true => c.visits env
        | _ => []
      | _, _ => []
  | a => [⟨env, a⟩]

def visitsAll (env : Environment) : List Statement → List Visit
  | [] => []
  | a :: rest =>
    a.visits env ++
      match a.effect env with
      | .error _ => []
      | .ok e => visitsAll (e.perform env) rest

/-- What a statement does, which is nothing if it stops with a fault. -/
def done (env : Environment) (a : Statement) : Effect :=
  match a.effect env with
  | .ok e => e
  | .error _ => .nothing

end Statement

namespace Resolution

/-- The visits of a run without bindings at its beginning. -/
def visits (r : Resolution) : List Visit := Statement.visitsAll .empty r.statements

end Resolution

namespace Visit

/-- What the visited statement does by itself.  A conditional leaves everything to its
consequence. -/
def effect (v : Visit) : Effect :=
  match v.statement with
  | .conditional _ _ _ _ => .nothing
  | a => a.done v.env

end Visit

namespace Statement

theorem effect_conditional {env : Environment} {l r : Expr} {u v : Value}
    (left : l.eval env = .ok (some u)) (right : r.eval env = .ok (some v)) (relation : Relation)
    (c : Statement) :
    (conditional l r relation c).effect env =
      (relation.holds u v >>= fun holds => if holds then c.effect env else .ok .nothing) := by
  rw [effect, left, right]
  rfl

/-- A conditional comes to nothing further, and then it does nothing, or it comes to its
consequence and has the effect of that. -/
theorem conditional_visits (env : Environment) (l r : Expr) (relation : Relation) (c : Statement) :
    ((conditional l r relation c).visits env = [⟨env, conditional l r relation c⟩] ∧
        (conditional l r relation c).done env = .nothing) ∨
      ((conditional l r relation c).visits env =
          ⟨env, conditional l r relation c⟩ :: c.visits env ∧
        (conditional l r relation c).effect env = c.effect env) := by
  unfold done
  cases left : l.eval env with
  | error f => exact .inl ⟨by rw [visits, left], by rw [effect, left]; rfl⟩
  | ok u =>
    cases right : r.eval env with
    | error f => exact .inl ⟨by rw [visits, left, right]; cases u <;> rfl, by rw [effect, left, right]; rfl⟩
    | ok v =>
      cases u with
      | none => exact .inl ⟨by rw [visits, left, right], by rw [effect, left, right]; rfl⟩
      | some u =>
        cases v with
        | none => exact .inl ⟨by rw [visits, left, right], by rw [effect, left, right]; rfl⟩
        | some v =>
          rw [visits, left, right, effect_conditional left right]
          dsimp only
          cases relation.holds u v with
          | error f => exact .inl ⟨rfl, rfl⟩
          | ok holds =>
            cases holds with
            | false => exact .inl ⟨rfl, rfl⟩
            | true => exact .inr ⟨rfl, rfl⟩

/-- What a statement does, all its visits do together. -/
theorem published_visits (env : Environment) (a : Statement) :
    ((a.visits env).flatMap fun v => v.effect.published) = (a.done env).published := by
  induction a with
  | conditional l r relation c ih =>
    rcases conditional_visits env l r relation c with ⟨visits, done⟩ | ⟨visits, effect⟩
    · rw [visits, done]
      rfl
    · rw [visits, List.flatMap_cons, ih, Statement.done, Statement.done, effect]
      rfl
  | _ => exact List.flatMap_singleton _ _

theorem perform_visits (env start : Environment) (a : Statement) :
    (a.visits env).foldl (fun env v => v.effect.perform env) start = (a.done env).perform start := by
  induction a with
  | conditional l r relation c ih =>
    rcases conditional_visits env l r relation c with ⟨visits, done⟩ | ⟨visits, effect⟩
    · rw [visits, done]
      rfl
    · rw [visits, List.foldl_cons, Statement.done, effect]
      exact ih
  | _ => rfl

/-! ## Runs -/

theorem runAll_of_fault {env : Environment} {a : Statement} {f : Fault}
    (h : a.effect env = .error f) (rest : List Statement) :
    runAll env (a :: rest) = ⟨env, [], some f⟩ := by
  rw [runAll, h]

theorem runAll_of_effect {env : Environment} {a : Statement} {e : Effect}
    (h : a.effect env = .ok e) (rest : List Statement) :
    runAll env (a :: rest) =
      ⟨(runAll (e.perform env) rest).env, e.published ++ (runAll (e.perform env) rest).published,
        (runAll (e.perform env) rest).fault⟩ := by
  rw [runAll, h]

theorem visitsAll_of_fault {env : Environment} {a : Statement} {f : Fault}
    (h : a.effect env = .error f) (rest : List Statement) :
    visitsAll env (a :: rest) = a.visits env := by
  rw [visitsAll, h]
  exact List.append_nil _

theorem visitsAll_of_effect {env : Environment} {a : Statement} {e : Effect}
    (h : a.effect env = .ok e) (rest : List Statement) :
    visitsAll env (a :: rest) = a.visits env ++ visitsAll (e.perform env) rest := by
  rw [visitsAll, h]

/-- A run publishes what its visits publish. -/
theorem published_runAll (env : Environment) (as : List Statement) :
    (runAll env as).published = (visitsAll env as).flatMap fun v => v.effect.published := by
  induction as generalizing env with
  | nil => rfl
  | cons a rest ih =>
    have own := published_visits env a
    unfold done at own
    cases h : a.effect env with
    | error f =>
      rw [h] at own
      rw [runAll_of_fault h, visitsAll_of_fault h, own]
      rfl
    | ok e =>
      rw [h] at own
      rw [runAll_of_effect h, visitsAll_of_effect h, List.flatMap_append, own, ih]

/-- A run ends with the bindings that its visits make. -/
theorem env_runAll (env : Environment) (as : List Statement) :
    (runAll env as).env = (visitsAll env as).foldl (fun env v => v.effect.perform env) env := by
  induction as generalizing env with
  | nil => rfl
  | cons a rest ih =>
    have own := perform_visits env env a
    unfold done at own
    cases h : a.effect env with
    | error f =>
      rw [h] at own
      rw [runAll_of_fault h, visitsAll_of_fault h, own]
      rfl
    | ok e =>
      rw [h] at own
      rw [runAll_of_effect h, visitsAll_of_effect h, List.foldl_append, own, ih]

end Statement
end Legalese
