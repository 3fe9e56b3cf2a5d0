import Legalese.Proofs.Evaluation.Values
import Legalese.Proofs.Evaluation.Visits
import Legalese.Proofs.Scope

/-!
# Texts without offences run well

The checks on a text say nothing about a run, but they are enough for one.  Since names are
declared once and before they are used, and a recital that ends without a fault binds its
name, every name has a value when it is looked at.  Since literals are in the range and
results are wrapped into it, every number can be published.

The invariant of a run is that all bindings are values of the range and that the names
bound so far are those of the recitals passed so far.
-/

namespace Legalese

/-! ## One statement -/

namespace Statement

/-- The names that a statement adds to the bindings. -/
def declared : Statement → List String
  | declare d => [d.name]
  | _ => []

theorem declared_of_wellFormed {a : Statement} (wf : a.WellFormed) : a.declared = [] := by
  cases a with
  | declare _ => exact wf.elim
  | _ => rfl

/-- What a statement is for: a declaration or an assumption binds its name, and a
publication gives one line. -/
def Performs (env : Environment) : Statement → Effect → Prop
  | declare d, e => ∃ v, e = .bind d.name v ∧ (e.perform env).value d.name = .ok (some v)
  | assume x _, e => ∃ v, e = .bind x v ∧ (e.perform env).value x = .ok (some v)
  | publish _, e => ∃ line, e.published.mapM Value.write? = .ok [line]
  | conditional _ _ _ _, _ => True

/-- An effect that leaves the bindings sound and publishes values of the range only. -/
structure Succeeds (env : Environment) (a : Statement) (e : Effect) : Prop where
  sound : (e.perform env).Sound
  names : (e.perform env).names = env.names ++ a.declared
  published : ∀ v ∈ e.published, v.InRange
  performs : a.Performs env e

/-- A statement that can run where these names are bound. -/
structure Ready (names : List String) (a : Statement) : Prop where
  wellFormed : a.WellFormed
  bound : ∀ x ∈ a.names, x ∈ names

theorem Ready.of_conditional {names : List String} {l r : Expr} {relation : Relation}
    {c : Statement} (h : (conditional l r relation c).Ready names) :
    l.Ready names ∧ r.Ready names ∧ c.Ready names := by
  obtain ⟨⟨wfl, wfr, wfc⟩, bound⟩ := h
  refine ⟨⟨wfl, fun x hx => ?_⟩, ⟨wfr, fun x hx => ?_⟩, ⟨wfc, fun x hx => ?_⟩⟩
  · exact bound x (List.mem_append_left _ (List.mem_append_left _ hx))
  · exact bound x (List.mem_append_left _ (List.mem_append_right _ hx))
  · exact bound x (List.mem_append_right _ hx)

theorem Ready.of_mem_expressions {names : List String} {a : Statement} (h : a.Ready names) {e : Expr}
    (he : e ∈ a.expressions) : e.Ready names := by
  induction a with
  | declare _ => exact h.wellFormed.elim
  | assume x e =>
    rw [List.mem_singleton.1 he]
    exact ⟨h.wellFormed.2, fun y hy => h.bound y (List.mem_cons_of_mem x hy)⟩
  | publish e =>
    rw [List.mem_singleton.1 he]
    exact ⟨h.wellFormed, h.bound⟩
  | conditional l r relation c ih =>
    obtain ⟨left, right, consequence⟩ := h.of_conditional
    rcases List.mem_cons.1 he with rfl | he
    · exact left
    · rcases List.mem_cons.1 he with rfl | he
      · exact right
      · exact ih consequence he

theorem sensible_declare {env : Environment} (sound : env.Sound) {d : Declaration}
    (h : d.value.Ready env.names) (fresh : d.name ∉ env.names) :
    Sensible ((declare d).Succeeds env) ((declare d).effect env) := by
  refine (h.eval sound).bind ?_
  rintro _ ⟨v, rfl, inRange⟩
  refine .value ⟨sound.set d.name inRange, ?_, nofun, v, rfl, ?_⟩
  · exact (Environment.names_set env d.name (.ok v)).trans (if_neg fresh)
  · exact Environment.value_of_get? (Environment.get?_set env d.name (.ok v))

theorem sensible_holds (relation : Relation) (u v : Value) :
    Sensible (fun _ => True) (relation.holds u v) := by
  cases relation with
  | equals => exact .value trivial
  | exceeds =>
    cases u with
    | text s => exact .fault (.exceedsMismatch nofun)
    | integer a =>
      cases v with
      | text s => exact .fault (.exceedsMismatch nofun)
      | integer b => exact .value trivial

/-- By induction on the action; a conditional has the effect of its consequence or none. -/
theorem Ready.effect {env : Environment} (sound : env.Sound) {a : Statement}
    (h : a.Ready env.names) : Sensible (a.Succeeds env) (a.effect env) := by
  induction a with
  | declare _ => exact h.wellFormed.elim
  | assume x e =>
    refine ((h.of_mem_expressions List.mem_cons_self).eval sound).bind ?_
    rintro _ ⟨v, rfl, inRange⟩
    refine .value ⟨sound.set x inRange, ?_, nofun, v, rfl, ?_⟩
    · have known : x ∈ env.names := h.bound x List.mem_cons_self
      show _ = env.names ++ []
      rw [List.append_nil]
      exact (Environment.names_set env x (.ok v)).trans (if_pos known)
    · exact Environment.value_of_get? (Environment.get?_set env x (.ok v))
  | publish e =>
    refine ((h.of_mem_expressions List.mem_cons_self).eval sound).bind ?_
    rintro _ ⟨v, rfl, inRange⟩
    obtain ⟨line, written⟩ := inRange.write?
    refine .value ⟨sound, (List.append_nil _).symm, ?_, line, ?_⟩
    · intro w hw
      rwa [List.mem_singleton.1 hw]
    · show [v].mapM Value.write? = _
      rw [List.mapM_cons, written]
      rfl
  | conditional l r relation c ih =>
    obtain ⟨left, right, consequence⟩ := h.of_conditional
    refine (left.eval sound).bind ?_
    rintro _ ⟨u, rfl, -⟩
    refine (right.eval sound).bind ?_
    rintro _ ⟨v, rfl, -⟩
    refine (sensible_holds relation u v).bind fun holds _ => ?_
    cases holds with
    | false => exact .value ⟨sound, (List.append_nil _).symm, nofun, trivial⟩
    | true =>
      have none : c.declared = [] := declared_of_wellFormed consequence.wellFormed
      exact (ih consequence).mono fun e he =>
        ⟨he.sound, by rw [he.names, none]; rfl, he.published, trivial⟩

end Statement

/-! ## One visit -/

/-- Nothing goes wrong at a visit: names have values, no expression inside the statement
comes to a missing value or to a number outside the range, and the statement does what it
is for or stops with a fault. -/
structure Visit.Sound (v : Visit) : Prop where
  env : v.env.Sound
  bound : ∀ e ∈ v.statement.expressions, ∀ x ∈ e.names, x ∈ v.env.names
  values : ∀ e ∈ v.statement.expressions, ∀ p ∈ e.parts, Sensible Given (p.eval v.env)
  effect : Sensible (v.statement.Succeeds v.env) (v.statement.effect v.env)

namespace Statement

theorem sound_visit_declare {env : Environment} (sound : env.Sound) {d : Declaration}
    (h : d.value.Ready env.names) (fresh : d.name ∉ env.names) : Visit.Sound ⟨env, declare d⟩ where
  env := sound
  bound e he := by
    rw [List.mem_singleton.1 he]
    exact h.bound
  values e he p hp := by
    rw [List.mem_singleton.1 he] at hp
    exact (h.of_mem_parts hp).eval sound
  effect := sensible_declare sound h fresh

theorem sound_visit {env : Environment} (sound : env.Sound) {a : Statement} (h : a.Ready env.names) :
    Visit.Sound ⟨env, a⟩ where
  env := sound
  bound _ he := (h.of_mem_expressions he).bound
  values _ he _ hp := ((h.of_mem_expressions he).of_mem_parts hp).eval sound
  effect := h.effect sound

theorem sound_visits {env : Environment} (sound : env.Sound) {a : Statement}
    (h : a.Ready env.names) : ∀ v ∈ a.visits env, v.Sound := by
  induction a with
  | declare _ => exact h.wellFormed.elim
  | conditional l r relation c ih =>
    have first := sound_visit sound h
    rcases conditional_visits env l r relation c with ⟨visits, -⟩ | ⟨visits, -⟩
    · rw [visits]
      intro v hv
      rwa [List.mem_singleton.1 hv]
    · rw [visits]
      intro v hv
      rcases List.mem_cons.1 hv with rfl | hv
      · exact first
      · exact ih h.of_conditional.2.2 v hv
  | _ =>
    intro v hv
    rw [List.mem_singleton.1 hv]
    exact sound_visit sound h

/-! ## A run -/

/-- Nothing goes wrong in a run that may bind these names. -/
structure RunSound (env : Environment) (as : List Statement) (names : List String) : Prop where
  visits : ∀ v ∈ visitsAll env as, v.Sound
  sound : (runAll env as).env.Sound
  published : ∀ v ∈ (runAll env as).published, v.InRange
  fault : ∀ f, (runAll env as).fault = some f → f.Arises
  ordered : (runAll env as).env.names <+: names
  complete : (∀ v ∈ visitsAll env as, ∀ d, v.statement = declare d →
    ∃ e, v.statement.effect v.env = .ok e) → (runAll env as).env.names = names

theorem runSound_nil {env : Environment} (sound : env.Sound) : RunSound env [] env.names :=
  ⟨nofun, sound, nofun, nofun, List.prefix_rfl, fun _ => rfl⟩

/-- The step of a run: a statement that can run, and after its effect a run in which nothing
goes wrong. -/
theorem runSound_cons {env : Environment} (sound : env.Sound) {a : Statement}
    {rest : List Statement} {names : List String} (own : ∀ v ∈ a.visits env, v.Sound)
    (effect : Sensible (a.Succeeds env) (a.effect env)) (ordered : env.names <+: names)
    (complete : ∀ f, a.effect env = .error f → (∃ d, a = declare d) ∨ env.names = names)
    (next : ∀ e, a.Succeeds env e → RunSound (e.perform env) rest names) :
    RunSound env (a :: rest) names := by
  cases h : a.effect env with
  | error f =>
    rw [h] at effect
    cases effect with
    | fault arises =>
      have visits := visitsAll_of_fault h rest
      have run := runAll_of_fault h rest
      refine ⟨by rwa [visits], by rwa [run], by rw [run]; exact nofun, ?_, by rwa [run], ?_⟩
      · rw [run]
        rintro _ ⟨⟩
        exact arises
      · -- a run that stops at a declaration need not have bound every name
        rw [visits, run]
        intro unhindered
        rcases complete f h with ⟨d, rfl⟩ | same
        · obtain ⟨e, he⟩ := unhindered ⟨env, declare d⟩ List.mem_cons_self d rfl
          rw [h] at he
          cases he
        · exact same
  | ok e =>
    rw [h] at effect
    cases effect with
    | value succeeds =>
      have after := next e succeeds
      have visits := visitsAll_of_effect h rest
      have run := runAll_of_effect h rest
      refine ⟨?_, by rw [run]; exact after.sound, ?_, by rw [run]; exact after.fault,
        by rw [run]; exact after.ordered, ?_⟩
      · rw [visits]
        intro v hv
        rcases List.mem_append.1 hv with hv | hv
        · exact own v hv
        · exact after.visits v hv
      · rw [run]
        intro v hv
        rcases List.mem_append.1 hv with hv | hv
        · exact succeeds.published v hv
        · exact after.published v hv
      · rw [visits, run]
        exact fun unhindered => after.complete fun v hv => unhindered v (List.mem_append_right _ hv)

/-- Actions bind no new names. -/
theorem runSound_actions {env : Environment} (sound : env.Sound) {as : List Statement}
    (ready : ∀ a ∈ as, a.Ready env.names) : RunSound env as env.names := by
  induction as generalizing env with
  | nil => exact runSound_nil sound
  | cons a as ih =>
    have first := ready a List.mem_cons_self
    refine runSound_cons sound (sound_visits sound first) (first.effect sound) List.prefix_rfl
      (fun _ _ => .inr rfl) fun e succeeds => ?_
    have same : (e.perform env).names = env.names := by
      rw [succeeds.names, declared_of_wellFormed first.wellFormed, List.append_nil]
    have rest := ih succeeds.sound fun b hb => by
      rw [same]
      exact ready b (List.mem_cons_of_mem a hb)
    rwa [same] at rest

/-- Recitals bind their names one after the other. -/
theorem runSound_recitals {env : Environment} (sound : env.Sound) {ds : List Declaration}
    {as : List Statement} (inScope : Scoped env.names ds) (wf : ∀ d ∈ ds, d.WellFormed)
    (ready : ∀ a ∈ as, a.Ready (env.names ++ ds.map (·.name))) :
    RunSound env (ds.map declare ++ as) (env.names ++ ds.map (·.name)) := by
  induction ds generalizing env with
  | nil =>
    simp only [List.map_nil, List.append_nil, List.nil_append] at ready ⊢
    exact runSound_actions sound ready
  | cons d ds ih =>
    obtain ⟨known, fresh, rest⟩ := inScope
    have value : d.value.Ready env.names := ⟨(wf d List.mem_cons_self).value, known⟩
    have own : ∀ v ∈ (declare d).visits env, v.Sound := by
      intro v hv
      rw [List.mem_singleton.1 hv]
      exact sound_visit_declare sound value fresh
    refine runSound_cons sound own (sensible_declare sound value fresh) (List.prefix_append _ _)
      (fun _ _ => .inl ⟨d, rfl⟩) fun e succeeds => ?_
    have names : (e.perform env).names = env.names ++ [d.name] := succeeds.names
    have regroup : env.names ++ (d :: ds).map (·.name) =
        (e.perform env).names ++ ds.map (·.name) := by
      rw [names, List.append_assoc]
      rfl
    rw [regroup] at ready ⊢
    exact ih succeeds.sound (names ▸ rest) (fun x hx => wf x (List.mem_cons_of_mem d hx)) ready

end Statement

namespace Resolution

theorem runSound {source : String} {r : Resolution} (h : ofString source = .ok r) :
    Statement.RunSound .empty r.statements (r.recitals.map (·.name)) := by
  have held : r.HeldBy source := .inl h
  have wf := held.wellFormed
  obtain ⟨inScope, known⟩ := scoped_of_offences (offences_of_ofString h)
  exact Statement.runSound_recitals Environment.sound_empty inScope wf.recitals
    fun a ha => ⟨wf.actions a ha, known a ha⟩

/-- The run of a text without offences: nothing goes wrong at any of its visits, they
account for everything it publishes and binds, all that it publishes has a line, and if it
stops, then at a number or text that does not fit its place. -/
theorem run_sound {source : String} {r : Resolution} (h : ofString source = .ok r) :
    Statement.RunSound .empty r.statements (r.recitals.map (·.name)) ∧
      (r.run .empty).published = (r.visits.flatMap fun v => v.effect.published) ∧
      (r.run .empty).env = r.visits.foldl (fun env v => v.effect.perform env) .empty ∧
      (∃ lines, (r.run .empty).lines? = .ok lines ∧
        lines.length = (r.run .empty).published.length) ∧
      ∀ f, (r.run .empty).fault = some f →
        (∃ s, f.message = "non-numeric " ++ s ++ " in numeric context") ∨
          (∃ (op : BinaryOperator) (a : Int),
            f.message = "division by zero: " ++ op.word ++ " " ++ toString a ++ " 0") ∨
          ∃ u v : Value, f.message = "type mismatch: " ++ u.typeWord ++ " exceeds " ++ v.typeWord := by
  have whole := runSound h
  exact ⟨whole, Statement.published_runAll .empty r.statements,
    Statement.env_runAll .empty r.statements, Value.lines_of_inRange whole.published,
    fun f hf => (whole.fault f hf).message⟩

/-- A run with an assumption and a line, which stops inside a consequence. -/
theorem run_sound_stopped :
    ∃ r, ofString ("title whereas (hereinafter A) five (5) resolved, publish twice A " ++
        "resolved, A assume A less A resolved, if A equals A, publish quotient one (1) A") = .ok r ∧
      Statement.RunSound .empty r.statements (r.recitals.map (·.name)) ∧
      (r.run .empty).published = [.integer 10] ∧
      (r.run .empty).fault = some (.divisionByZero .quotient 1 0) := by
  have read : ofString ("title whereas (hereinafter A) five (5) resolved, publish twice A " ++
      "resolved, A assume A less A resolved, if A equals A, publish quotient one (1) A") =
      .ok ⟨[⟨"A", .integer 5⟩], [.publish (.unary .twice (.name "A")),
        .assume "A" (.less (.name "A") (.name "A")),
        .conditional (.name "A") (.name "A") .equals
          (.publish (.binary .quotient (.integer 1) (.name "A")))]⟩ := by
    cbv
  exact ⟨_, read, (run_sound read).1, rfl, rfl⟩

end Resolution
end Legalese
