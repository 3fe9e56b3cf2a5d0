import Legalese.Proofs.Evaluation.Dependence

/-!
# Runs stop at the first fault

A statement that stops with a fault leaves no trace: it has bound nothing and published
nothing, however far its operands and the conditions around it had been evaluated by then.
Any other statement has at most one effect.  So the outcome of a run is that of the
statements before the first one with a fault.

`enact` runs statements as a program would do it that has the bindings at hand and somebody
to tell the lines to: it changes both on the way, and it does not collect anything.  With
or without a listener it comes to the same bindings and the same fault as a run, and a
listener hears just the lines of the run.
-/

namespace Legalese

/-! ## What a statement leaves behind -/

/-- The outcomes of a single statement. -/
inductive Outcome.Atomic (env : Environment) : Outcome → Prop
  | fault (f : Fault) : Atomic env ⟨env, [], some f⟩
  | nothing : Atomic env ⟨env, [], none⟩
  | bind (x : String) (v : Value) : Atomic env ⟨env.set x (.ok v), [], none⟩
  | publish {v : Value} {line : String} (h : v.write? = .ok line) : Atomic env ⟨env, [v], none⟩

namespace Statement

theorem atomic_run {env : Environment} (bound : env.InRange) {a : Statement}
    (literals : ∀ n ∈ a.literals, InRange n) : (a.run env).Atomic env := by
  cases effect : a.effect env with
  | error f =>
    rw [run_of_fault effect]
    exact .fault f
  | ok e =>
    rw [run_of_effect effect]
    cases e with
    | nothing => exact .nothing
    | bind x v => exact .bind x v
    | publish v =>
      have inRange : v.InRange := inRange_of_effect bound literals effect
      obtain ⟨line, written⟩ := inRange.write?
      exact .publish written

/-! ## The first fault -/

/-- Statements that go through without a fault, each with the bindings that the one before
has left; what they publish, and the bindings at the end. -/
inductive GoThrough : Environment → List Statement → List Value → Environment → Prop
  | nil (env : Environment) : GoThrough env [] [] env
  | cons {env env' env'' : Environment} {a : Statement} {rest : List Statement}
      {vs ws : List Value} (own : a.run env = ⟨env', vs, none⟩)
      (next : GoThrough env' rest ws env'') : GoThrough env (a :: rest) (vs ++ ws) env''

/-- The outcome of the statements before the first one that stops with a fault, and that
fault.  If there is none, it is the outcome of them all. -/
inductive StopsFirst (env : Environment) (as : List Statement) : Outcome → Prop
  | never {vs : List Value} {env' : Environment} (through : GoThrough env as vs env') :
      StopsFirst env as ⟨env', vs, none⟩
  | stopped {before after : List Statement} {a : Statement} {vs : List Value}
      {env' : Environment} {f : Fault} (split : as = before ++ a :: after)
      (through : GoThrough env before vs env') (stops : (a.run env').fault = some f) :
      StopsFirst env as ⟨env', vs, some f⟩

theorem effect_of_run_fault {env : Environment} {a : Statement} {f : Fault}
    (h : (a.run env).fault = some f) : a.effect env = .error f := by
  cases effect : a.effect env with
  | error g =>
    rw [run_of_fault effect] at h
    cases h
    rfl
  | ok e =>
    rw [run_of_effect effect] at h
    cases h

theorem stopsFirst_runAll (env : Environment) (as : List Statement) :
    StopsFirst env as (runAll env as) := by
  induction as generalizing env with
  | nil => exact .never (.nil env)
  | cons a rest ih =>
    cases effect : a.effect env with
    | error f =>
      have split : a :: rest = [] ++ a :: rest := rfl
      have stops : (a.run env).fault = some f := by rw [run_of_fault effect]
      rw [runAll_of_fault effect]
      exact .stopped split (.nil env) stops
    | ok e =>
      have own : a.run env = ⟨e.perform env, e.published, none⟩ := run_of_effect effect
      rw [runAll_of_effect effect]
      generalize outcome : runAll (e.perform env) rest = o
      have later := ih (e.perform env)
      rw [outcome] at later
      cases later with
      | never through => exact .never (.cons own through)
      | @stopped before after b vs env' f split through stops =>
        exact .stopped (congrArg (a :: ·) split) (.cons own through) stops

end Statement

/-! ## Parts of a run -/

/-- Goes on from the end of a run, unless it has stopped. -/
def Outcome.followedBy : Outcome → (Environment → Outcome) → Outcome
  | ⟨env, vs, some f⟩, _ => ⟨env, vs, some f⟩
  | ⟨env, vs, none⟩, next => ⟨(next env).env, vs ++ (next env).published, (next env).fault⟩

namespace Statement

theorem runAll_append (env : Environment) (as bs : List Statement) :
    runAll env (as ++ bs) = (runAll env as).followedBy fun env => runAll env bs := by
  induction as generalizing env with
  | nil => rfl
  | cons a as ih =>
    rw [List.cons_append]
    cases effect : a.effect env with
    | error f =>
      rw [runAll_of_fault effect, runAll_of_fault effect]
      rfl
    | ok e =>
      rw [runAll_of_effect effect, runAll_of_effect effect, ih]
      obtain ⟨env', vs, fault⟩ := runAll (e.perform env) as
      cases fault with
      | some f => rfl
      | none => simp only [Outcome.followedBy, List.append_assoc]

theorem runAll_of_goThrough {env env' : Environment} {as : List Statement} {vs : List Value}
    (h : GoThrough env as vs env') : runAll env as = ⟨env', vs, none⟩ := by
  induction h with
  | nil env => rfl
  | @cons env env' env'' a rest vs ws own next ih =>
    have whole : runAll env ([a] ++ rest) = (a.run env).followedBy fun env => runAll env rest :=
      runAll_append env [a] rest
    rwa [own, Outcome.followedBy, ih] at whole

/-- There is only one such outcome, and a run has it. -/
theorem runAll_eq_iff {env : Environment} {as : List Statement} {o : Outcome} :
    runAll env as = o ↔ StopsFirst env as o := by
  constructor
  · rintro rfl
    exact stopsFirst_runAll env as
  · intro h
    cases h with
    | never through => exact runAll_of_goThrough through
    | @stopped before after a vs env' f split through stops =>
      rw [split, runAll_append, runAll_of_goThrough through]
      simp only [Outcome.followedBy, runAll_of_fault (effect_of_run_fault stops), List.append_nil]

/-- A new binding keeps its place or comes after all others. -/
theorem names_perform (env : Environment) (e : Effect) : env.names <+: (e.perform env).names := by
  cases e with
  | nothing => exact List.prefix_rfl
  | publish v => exact List.prefix_rfl
  | bind x v =>
    rw [Effect.perform, Environment.names_set]
    split
    · exact List.prefix_rfl
    · exact List.prefix_append _ _

theorem names_runAll (env : Environment) (as : List Statement) :
    env.names <+: (runAll env as).env.names := by
  induction as generalizing env with
  | nil => exact List.prefix_rfl
  | cons a rest ih =>
    cases effect : a.effect env with
    | error f => rw [runAll_of_fault effect]
    | ok e =>
      rw [runAll_of_effect effect]
      exact (names_perform env e).trans (ih (e.perform env))

end Statement

/-! ## Runs with and without a listener -/

/-- What a line makes of the state of whoever listens. -/
abbrev Listener (σ : Type) := String → σ → σ

/-- Tells lines one after the other. -/
def Listener.tell {σ : Type} (hear : Listener σ) (heard : σ) (lines : List String) : σ :=
  lines.foldl (fun s line => hear line s) heard

/-- The bindings and the state of the listener after some statements, and the fault that
stopped them, if one did. -/
structure Progress (σ : Type) where
  env : Environment
  heard : σ
  fault : Option Fault

namespace Statement

variable {σ : Type}

/-- Whether the consequence of a conditional is to be run. -/
def condition (env : Environment) (l r : Expr) (relation : Relation) : Except Fault Bool := do
  let u ← l.eval env
  let v ← r.eval env
  match u, v with
  | some u, some v => relation.holds u v
  | _, _ => return false

def enactBinding (env : Environment) (heard : σ) (x : String) (e : Expr) : Progress σ :=
  match e.eval env with
  | .error f => ⟨env, heard, some f⟩
  | .ok none => ⟨env, heard, none⟩
  | .ok (some v) => ⟨env.set x (.ok v), heard, none⟩

/-- Without a listener the value is not written. -/
def enactPublication (listener : Option (Listener σ)) (env : Environment) (heard : σ) (e : Expr) :
    Except OutsideRange (Progress σ) :=
  match e.eval env, listener with
  | .error f, _ => .ok ⟨env, heard, some f⟩
  | .ok (some v), some hear => do
    let line ← v.write?
    return ⟨env, hear line heard, none⟩
  | .ok _, _ => .ok ⟨env, heard, none⟩

/-- Runs a statement where the bindings and the listener are.  It breaks off at a number that
cannot be written. -/
def enact (listener : Option (Listener σ)) (env : Environment) (heard : σ) :
    Statement → Except OutsideRange (Progress σ)
  | declare d => .ok (enactBinding env heard d.name d.value)
  | assume x e => .ok (enactBinding env heard x e)
  | publish e => enactPublication listener env heard e
  | conditional l r relation c =>
    match condition env l r relation with
    | .error f => .ok ⟨env, heard, some f⟩
    | .ok true => c.enact listener env heard
    | .ok false => .ok ⟨env, heard, none⟩

def enactAll (listener : Option (Listener σ)) (env : Environment) (heard : σ) :
    List Statement → Except OutsideRange (Progress σ)
  | [] => .ok ⟨env, heard, none⟩
  | a :: rest => do
    let p ← a.enact listener env heard
    match p.fault with
    | some _ => return p
    | none => enactAll listener p.env p.heard rest

theorem effect_of_condition (env : Environment) (l r : Expr) (relation : Relation)
    (c : Statement) :
    (conditional l r relation c).effect env =
      (condition env l r relation >>= fun holds => if holds then c.effect env else .ok .nothing) := by
  unfold condition
  rw [effect]
  cases l.eval env with
  | error f => rfl
  | ok u =>
    cases r.eval env with
    | error f => rfl
    | ok v =>
      cases u with
      | none => rfl
      | some u => cases v <;> rfl

/-- What becomes of a statement that has this effect or stops with this fault. -/
def progress (listener : Option (Listener σ)) (env : Environment) (heard : σ) :
    Except Fault Effect → Except OutsideRange (Progress σ)
  | .error f => .ok ⟨env, heard, some f⟩
  | .ok (.publish v) =>
    match listener with
    | none => .ok ⟨env, heard, none⟩
    | some hear => do
      let line ← v.write?
      return ⟨env, hear line heard, none⟩
  | .ok e => .ok ⟨e.perform env, heard, none⟩

theorem enactBinding_eq (listener : Option (Listener σ)) (env : Environment) (heard : σ)
    (x : String) (e : Expr) :
    .ok (enactBinding env heard x e) =
      progress listener env heard (e.eval env >>= fun v => .ok (.ofBinding x v)) := by
  unfold enactBinding
  cases e.eval env with
  | error f => rfl
  | ok v => cases v <;> rfl

theorem enactPublication_eq (listener : Option (Listener σ)) (env : Environment) (heard : σ)
    (e : Expr) :
    enactPublication listener env heard e =
      progress listener env heard (e.eval env >>= fun v => .ok (.ofPublication v)) := by
  unfold enactPublication
  cases e.eval env with
  | error f => rfl
  | ok v =>
    cases v with
    | none => rfl
    | some v => cases listener <;> rfl

/-- By induction on the statement: a consequence that is run has the effect of the whole. -/
theorem enact_eq (listener : Option (Listener σ)) (env : Environment) (heard : σ) (a : Statement) :
    a.enact listener env heard = progress listener env heard (a.effect env) := by
  induction a with
  | declare d => exact enactBinding_eq listener env heard d.name d.value
  | assume x e => exact enactBinding_eq listener env heard x e
  | publish e => exact enactPublication_eq listener env heard e
  | conditional l r relation c ih =>
    rw [enact, effect_of_condition]
    cases condition env l r relation with
    | error f => rfl
    | ok holds =>
      cases holds with
      | false => rfl
      | true => exact ih

theorem progress_silent (env : Environment) (heard : σ) (e : Effect) :
    progress none env heard (.ok e) = .ok ⟨e.perform env, heard, none⟩ := by
  cases e <;> rfl

theorem progress_heard (hear : Listener σ) (env : Environment) (heard : σ) {e : Effect}
    {lines : List String} (written : e.published.mapM Value.write? = .ok lines) :
    progress (some hear) env heard (.ok e) =
      .ok ⟨e.perform env, hear.tell heard lines, none⟩ := by
  cases e with
  | nothing =>
    cases written
    rfl
  | bind x v =>
    cases written
    rfl
  | publish v =>
    change [v].mapM Value.write? = .ok lines at written
    rw [List.mapM_cons] at written
    obtain ⟨line, own, written⟩ := bind_eq_ok.1 written
    cases written
    show (v.write? >>= fun line => Except.ok (Progress.mk env (hear line heard) none)) = _
    rw [own]
    rfl

theorem enactAll_silent (env : Environment) (heard : σ) (as : List Statement) :
    enactAll none env heard as = .ok ⟨(runAll env as).env, heard, (runAll env as).fault⟩ := by
  induction as generalizing env with
  | nil => rfl
  | cons a rest ih =>
    rw [enactAll, enact_eq]
    cases effect : a.effect env with
    | error f =>
      rw [runAll_of_fault effect]
      rfl
    | ok e =>
      rw [runAll_of_effect effect, progress_silent]
      exact ih (e.perform env)

theorem enactAll_heard (hear : Listener σ) {env : Environment} (heard : σ) {as : List Statement}
    {lines : List String} (written : (runAll env as).lines? = .ok lines) :
    enactAll (some hear) env heard as =
      .ok ⟨(runAll env as).env, hear.tell heard lines, (runAll env as).fault⟩ := by
  unfold Outcome.lines? at written
  induction as generalizing env heard lines with
  | nil =>
    cases written
    rfl
  | cons a rest ih =>
    rw [enactAll, enact_eq]
    cases effect : a.effect env with
    | error f =>
      rw [runAll_of_fault effect] at written ⊢
      cases written
      rfl
    | ok e =>
      rw [runAll_of_effect effect] at written ⊢
      rw [List.mapM_append] at written
      obtain ⟨own, first, written⟩ := bind_eq_ok.1 written
      obtain ⟨later, next, written⟩ := bind_eq_ok.1 written
      cases written
      rw [progress_heard hear env heard first]
      show enactAll (some hear) (e.perform env) (hear.tell heard own) rest = _
      rw [ih (hear.tell heard own) next]
      simp only [Listener.tell, List.foldl_append]

theorem enactAll_singleton (listener : Option (Listener σ)) (env : Environment) (heard : σ)
    (a : Statement) : enactAll listener env heard [a] = a.enact listener env heard := by
  rw [enactAll]
  cases a.enact listener env heard with
  | error e => rfl
  | ok p =>
    obtain ⟨env', heard', fault⟩ := p
    cases fault <;> rfl

end Statement

/-- A way of enacting something comes to this outcome, with a listener, who hears the lines
of the outcome, and without one. -/
def Outcome.Told (o : Outcome)
    (enacted : ∀ σ : Type, Option (Listener σ) → σ → Except OutsideRange (Progress σ)) : Prop :=
  ∃ lines, o.lines? = .ok lines ∧ ∀ (σ : Type) (heard : σ),
    enacted σ none heard = .ok ⟨o.env, heard, o.fault⟩ ∧
      ∀ hear, enacted σ (some hear) heard = .ok ⟨o.env, hear.tell heard lines, o.fault⟩

theorem Statement.told_runAll {env : Environment} (bound : env.InRange) {as : List Statement}
    (literals : ∀ n ∈ as.flatMap literals, InRange n) :
    (runAll env as).Told fun _ listener heard => enactAll listener env heard as := by
  obtain ⟨lines, written, -⟩ := Value.lines_of_inRange (inRange_of_runAll bound literals)
  refine ⟨lines, written, fun σ heard => ⟨enactAll_silent env heard as, fun hear => ?_⟩⟩
  exact enactAll_heard hear heard written

theorem Statement.told_run {env : Environment} (bound : env.InRange) {a : Statement}
    (literals : ∀ n ∈ a.literals, InRange n) :
    (a.run env).Told fun _ listener heard => a.enact listener env heard := by
  have single : ∀ n ∈ [a].flatMap Statement.literals, InRange n := by
    rwa [List.flatMap_singleton]
  obtain ⟨lines, written, told⟩ := told_runAll bound single
  refine ⟨lines, written, fun σ heard => ?_⟩
  have same := told σ heard
  simp only [enactAll_singleton] at same
  exact same

/-- Statements are atomic, and a run is the run of the statements before the first one that
stops with a fault.  So a run of two lists is a run of the first and, unless that has
stopped, a run of the second; names keep their places; and a listener hears the lines of
the run without any influence on it. -/
theorem Resolution.run_stops_first (env : Environment) (bound : env.InRange) :
    (∀ a : Statement, (∀ n ∈ a.literals, InRange n) →
      (a.run env).Atomic env ∧
        (a.run env).Told fun _ listener heard => a.enact listener env heard) ∧
    (∀ r : Resolution, (∀ n ∈ r.literals, InRange n) →
      (∀ o, r.run env = o ↔ Statement.StopsFirst env r.statements o) ∧
        env.names <+: (r.run env).env.names ∧
        (r.run env).Told fun _ listener heard =>
          Statement.enactAll listener env heard r.statements) ∧
    ∀ as bs : List Statement, Statement.runAll env (as ++ bs) =
      (Statement.runAll env as).followedBy fun env => Statement.runAll env bs := by
  refine ⟨?_, ?_, Statement.runAll_append env⟩
  · intro a literals
    exact ⟨Statement.atomic_run bound literals, Statement.told_run bound literals⟩
  · intro r literals
    refine ⟨fun o => Statement.runAll_eq_iff, Statement.names_runAll env r.statements, ?_⟩
    exact Statement.told_runAll bound literals

/-- The second action stops in the consequence of a condition that holds, and the third one
is not run. -/
theorem Resolution.run_stops_first_inside :
    let env := Environment.empty.set "a" (.ok (.integer 5))
    let stop := Statement.conditional (.name "a") (.integer 4) .exceeds
      (.assume "a" (.binary .quotient (.name "b") (.integer 0)))
    let r : Resolution := ⟨[⟨"b", .name "a"⟩], [.publish (.name "b"), stop, .publish (.text "c")]⟩
    Statement.StopsFirst env r.statements (r.run env) ∧
      (stop.run env).Atomic env ∧
      env.names <+: (r.run env).env.names ∧
      (r.run env).fault = some (.divisionByZero .quotient 5 0) ∧
      Statement.enactAll (some fun line heard => heard ++ [line]) env [] r.statements =
        .ok ⟨(r.run env).env, ["five (5)"], (r.run env).fault⟩ := by
  intro env stop r
  have bound : env.InRange :=
    Environment.inRange_empty.set "a" (v := .integer 5) (show InRange 5 by decide)
  have whole := (run_stops_first env bound).2.1 r (by decide)
  obtain ⟨lines, written, told⟩ := whole.2.2
  have line : (r.run env).lines? = .ok ["five (5)"] := by decide
  rw [line] at written
  cases written
  exact ⟨(whole.1 _).1 rfl, ((run_stops_first env bound).1 stop (by decide)).1, whole.2.1, by decide,
    (told (List String) []).2 _⟩

end Legalese
