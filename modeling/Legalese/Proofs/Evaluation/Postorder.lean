import Legalese.Proofs.Evaluation.Values

/-!
# Evaluation on a stack

The evaluator goes down into an expression and looks at its operands at several places, for
each kind of operator anew.  All of these come to the same thing: write the expression
down with every operator after its operands, and go through it once from left to right
with a stack of what the operands came to.  A value is pushed as it stands, a name pushes
its value or that it has none, and an operator takes its operands from the stack, asks from
left to right whether they are numbers, and pushes its result.

The machine stops at the first fault, so a fault of an evaluation is that of the first
instruction that fails.  In particular both operands are done before the first of them is
looked at.
-/

namespace Legalese

/-- What a node of an expression does once its operands are on the stack. -/
inductive Instruction
  | push (v : Value)
  | load (x : String)
  | applyOne (result : Int → Int)
  | applyTwo (result : Int → Int → Except Fault Int)

/-- The nodes of an expression, operands before their operator. -/
def Expr.postorder : Expr → List Instruction
  | integer n => [.push (.integer n)]
  | text s => [.push (.text s)]
  | name x => [.load x]
  | unary op e => e.postorder ++ [.applyOne op.result]
  | binary op a b => a.postorder ++ b.postorder ++ [.applyTwo op.compute]
  | less l r => l.postorder ++ r.postorder ++ [.applyTwo fun a b => .ok (a - b)]
  | power op e => e.postorder ++ [.applyOne op.result]

namespace Machine

/-- The last value is first.  An unbound name leaves an entry without a value. -/
abbrev Stack := List (Option Value)

/-- Why the machine stops before the end. -/
inductive Halt
  | fault (f : Fault)
  | underflow
  deriving DecidableEq

def number : Option Value → Except Halt Int
  | some (.integer n) => .ok n
  | some (.text s) => .error (.fault (.nonNumeric s))
  | none => .error (.fault .missingValue)

def lookUp (env : Environment) (x : String) : Except Halt (Option Value) :=
  match env.get? x with
  | none => .ok none
  | some (.ok v) => .ok (some v)
  | some (.error f) => .error (.fault f)

def applyOne (result : Int → Int) (v : Option Value) : Except Halt (Option Value) := do
  let n ← number v
  return some (.integer (wrap (result n)))

def applyTwo (result : Int → Int → Except Fault Int) (u v : Option Value) :
    Except Halt (Option Value) := do
  let a ← number u
  let b ← number v
  let n ← (result a b).mapError .fault
  return some (.integer (wrap n))

def step (env : Environment) : Stack → Instruction → Except Halt Stack
  | st, .push v => .ok (some v :: st)
  | st, .load x => (lookUp env x).map (· :: st)
  | v :: st, .applyOne result => (applyOne result v).map (· :: st)
  | v :: u :: st, .applyTwo result => (applyTwo result u v).map (· :: st)
  | _, _ => .error .underflow

def run (env : Environment) (st : Stack) (is : List Instruction) : Except Halt Stack :=
  is.foldlM (step env) st

/-! ## Runs -/

section

variable {env : Environment} {st : Stack} {i : Instruction} {is js : List Instruction}

theorem run_append : run env st (is ++ js) = (run env st is >>= fun st => run env st js) :=
  List.foldlM_append

theorem run_cons : run env st (i :: is) = (step env st i >>= fun st => run env st is) :=
  List.foldlM_cons

theorem run_singleton : run env st [i] = step env st i := by
  rw [run_cons]
  cases step env st i <;> rfl

/-- A run stops at one instruction, to which all before it have brought the machine. -/
theorem run_eq_error_iff {h : Halt} :
    run env st is = .error h ↔ ∃ before i after st', is = before ++ i :: after ∧
      run env st before = .ok st' ∧ step env st' i = .error h := by
  constructor
  · intro stopped
    induction is generalizing st with
    | nil => cases stopped
    | cons i is ih =>
      rw [run_cons] at stopped
      rcases bind_eq_error.1 stopped with here | ⟨st', passed, later⟩
      · exact ⟨[], i, is, st, rfl, rfl, here⟩
      · obtain ⟨before, j, after, st'', rfl, reached, fails⟩ := ih later
        refine ⟨i :: before, j, after, st'', rfl, ?_, fails⟩
        rw [run_cons, passed]
        exact reached
  · rintro ⟨before, i, after, st', rfl, reached, fails⟩
    rw [run_append, reached, ok_bind, run_cons, fails]
    rfl

end

/-! ## Expressions -/

/-- An outcome of an evaluation, as the machine has it. -/
def pushed (st : Stack) (x : Except Fault (Option Value)) : Except Halt Stack :=
  (x.mapError .fault).map (· :: st)

section

variable {env : Environment} {st st' : Stack} {i : Instruction} {is js : List Instruction}
  {x y : Except Fault (Option Value)}

/-- An operand and the instruction that takes its value from the stack. -/
theorem run_operand {f : Option Value → Except Fault (Option Value)}
    (h : run env st is = pushed st x) (own : ∀ v, step env (v :: st) i = pushed st' (f v)) :
    run env st (is ++ [i]) = pushed st' (x >>= f) := by
  rw [run_append, h]
  cases x with
  | error f => rfl
  | ok v =>
    show run env (v :: st) [i] = pushed st' (f v)
    rw [run_singleton, own]

theorem run_operands {f : Option Value → Option Value → Except Fault (Option Value)}
    (hx : run env st is = pushed st x) (hy : ∀ st, run env st js = pushed st y)
    (own : ∀ u v, step env (v :: u :: st) i = pushed st (f u v)) :
    run env st (is ++ js ++ [i]) = pushed st (x >>= fun u => y >>= f u) := by
  rw [List.append_assoc, run_append, hx]
  cases x with
  | error f => rfl
  | ok u =>
    show run env (u :: st) (js ++ [i]) = pushed st (y >>= f u)
    exact run_operand (hy (u :: st)) (own u)

end

theorem number_eq (v : Option Value) : number v = (numeric v).mapError .fault := by
  cases v with
  | none => rfl
  | some v => cases v <;> rfl

theorem lookUp_eq (env : Environment) (x : String) :
    lookUp env x = (env.value x).mapError .fault := by
  unfold lookUp Environment.value
  cases env.get? x with
  | none => rfl
  | some b => cases b <;> rfl

theorem applyOne_eq (f : Int → Int) (v : Option Value) :
    applyOne f v = (numeric v >>= fun n => .ok (wrapped (f n))).mapError .fault := by
  unfold applyOne
  rw [number_eq]
  cases numeric v <;> rfl

theorem applyTwo_eq (f : Int → Int → Except Fault Int) (u v : Option Value) :
    applyTwo f u v =
      (numeric u >>= fun a => numeric v >>= fun b => f a b >>= fun n =>
        .ok (wrapped n)).mapError .fault := by
  unfold applyTwo
  rw [number_eq, number_eq]
  cases numeric u with
  | error f => rfl
  | ok a =>
    cases numeric v with
    | error f => rfl
    | ok b =>
      show ((f a b).mapError Halt.fault >>= fun n => .ok (some (Value.integer (wrap n)))) =
        (f a b >>= fun n => .ok (wrapped n)).mapError .fault
      cases f a b <;> rfl

/-- The stack is arbitrary, since the second operand of an operator meets the value of the
first one there. -/
theorem run_postorder (env : Environment) (e : Expr) (st : Stack) :
    run env st e.postorder = pushed st (e.eval env) := by
  induction e generalizing st with
  | integer n => rfl
  | text s => rfl
  | name x =>
    show run env st [.load x] = _
    rw [run_singleton, step, lookUp_eq]
    rfl
  | unary op e ih =>
    refine run_operand (ih st) fun v => ?_
    rw [step, applyOne_eq]
    rfl
  | binary op a b iha ihb =>
    refine run_operands (iha st) ihb fun u v => ?_
    rw [step, applyTwo_eq, BinaryOperator.apply_eq]
    rfl
  | less l r ihl ihr =>
    refine run_operands (ihl st) ihr fun u v => ?_
    rw [step, applyTwo_eq]
    rfl
  | power op e ih =>
    refine run_operand (ih st) fun v => ?_
    rw [step, applyOne_eq]
    rfl

theorem pushed_eq_ok_iff {x : Except Fault (Option Value)} {v : Option Value} :
    pushed [] x = .ok [v] ↔ x = .ok v := by
  constructor
  · intro h
    cases x with
    | error f => cases h
    | ok w =>
      cases h
      rfl
  · rintro rfl
    rfl

theorem pushed_eq_fault_iff {st : Stack} {x : Except Fault (Option Value)} {f : Fault} :
    pushed st x = .error (.fault f) ↔ x = .error f := by
  constructor
  · intro h
    cases x with
    | error g =>
      cases h
      rfl
    | ok w => cases h
  · rintro rfl
    rfl

end Machine

namespace Expr

/-- An evaluation and a run over the postorder have the same outcome.  A fault is that of the
first instruction which fails, and so the fault of a second operand goes before all that
may be wrong with the value of the first. -/
theorem eval_iff_postorder (env : Environment) :
    (∀ e v, eval env e = .ok v ↔ Machine.run env [] e.postorder = .ok [v]) ∧
    (∀ e f, eval env e = .error f ↔ Machine.run env [] e.postorder = .error (.fault f)) ∧
    (∀ e f, eval env e = .error f ↔ ∃ before i after st, e.postorder = before ++ i :: after ∧
      Machine.run env [] before = .ok st ∧ Machine.step env st i = .error (.fault f)) ∧
    ∀ a b u f, eval env a = .ok u → eval env b = .error f →
      (∀ op, eval env (binary op a b) = .error f) ∧ eval env (less a b) = .error f := by
  have fault (e : Expr) (f : Fault) :
      e.eval env = .error f ↔ Machine.run env [] e.postorder = .error (.fault f) := by
    rw [Machine.run_postorder, Machine.pushed_eq_fault_iff]
  refine ⟨?_, fault, ?_, ?_⟩
  · intro e v
    rw [Machine.run_postorder, Machine.pushed_eq_ok_iff]
  · intro e f
    rw [fault, Machine.run_eq_error_iff]
  · intro a b u f ha hb
    constructor
    · intro op
      rw [eval, ha, hb]
      rfl
    · rw [eval, ha, hb]
      rfl

/-- The first operand is a text, but the machine does not come to that. -/
theorem eval_iff_postorder_division :
    let second := binary .quotient (integer 1) (less (name "x") (name "x"))
    let env := Environment.empty.set "x" (.ok (.integer 7))
    eval env (binary .sum (text "one") second) = .error (.divisionByZero .quotient 1 0) ∧
      ∃ before i after st, (binary .sum (text "one") second).postorder = before ++ i :: after ∧
        Machine.run env [] before = .ok st ∧
        Machine.step env st i = .error (.fault (.divisionByZero .quotient 1 0)) := by
  intro second env
  obtain ⟨-, -, first, operands⟩ := eval_iff_postorder env
  have fails : eval env (binary .sum (text "one") second) = .error (.divisionByZero .quotient 1 0) :=
    (operands (text "one") second _ _ rfl rfl).1 .sum
  exact ⟨fails, (first _ _).1 fails⟩

end Expr
end Legalese
