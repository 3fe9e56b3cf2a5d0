import Legalese.Proofs.Reading.Yield

/-!
# Readers as programs

A reader is a Lean function, and a function does not show what is done on the way to its
value.  Here every reader is written down a second time, as a program in which moving on by a
token and calling another reader are steps.  `result_code` says that each program comes to what
its reader yields, so what the steps show is what the readers do.

Repetitions are calls too: where a loop would go around once more, a program calls its own
reader.
-/

namespace Legalese

/-- The readers with what each is given beside a state.  One that calls another before it has
moved on stands after it. -/
inductive Routine
  | belowHundred
  | belowThousand
  | magnitude
  | groups (sign total : Int) (last : Option Nat)
  | cardinal
  | numeralOf (cardinal : Int)
  | integerLiteral
  | seek (wanted : Kind → Bool)
  | seekNext (wanted : Kind → Bool)
  | operand
  | suffixes (floor : Tier) (e : Expr)
  | expression (floor : Tier)
  | declaration
  | recital
  | assumption
  | publication
  | action
  | conditional
  | earlyAction
  | clauses (d : Draft)
  | resolution

/-- What a reader reads.  The search for the reason why an action comes too early only ends
with an error. -/
@[reducible] def Routine.Answer : Routine → Type
  | belowHundred => Nat
  | belowThousand => Nat
  | magnitude => Nat
  | groups _ _ _ => Int
  | cardinal => Int
  | numeralOf _ => Expr
  | integerLiteral => Expr
  | seek _ => Unit
  | seekNext _ => Option Kind
  | operand => Expr
  | suffixes _ _ => Expr
  | expression _ => Expr
  | declaration => Declaration
  | recital => Option Declaration
  | assumption => Statement
  | publication => Statement
  | action => Option Statement
  | conditional => Option Statement
  | earlyAction => Empty
  | clauses _ => Draft
  | resolution => Resolution

namespace State

/-- What a reader of number words yields, as a reader of the state around its cursor. -/
def around {α : Type} (s : State) (x : Except Error (α × Cursor)) : Except Failure (α × State) :=
  match x with
  | .ok (a, c) => .ok (a, s.moveTo c)
  | .error e => s.fail e

end State

/-- What a reader yields. -/
def answer : (r : Routine) → State → Except Failure (r.Answer × State)
  | .belowHundred, s => s.around (Cardinal.yield (Cardinal.belowHundred s.cursor))
  | .belowThousand, s => s.around (Cardinal.yield (Cardinal.belowThousand s.cursor))
  | .magnitude, s => s.around (Cardinal.yield (Cardinal.magnitude s.cursor))
  | .groups sign total last, s =>
    s.around (Cardinal.yield (Cardinal.groups sign total last s.cursor))
  | .cardinal, s => s.around (Cardinal.yield (Cardinal.read s.cursor))
  | .numeralOf cardinal, s => State.yield (s.numeralOf cardinal)
  | .integerLiteral, s => State.yield s.integerLiteral
  | .seek wanted, s => State.yield (s.seek wanted)
  | .seekNext wanted, s => State.yield (s.seekNext wanted)
  | .operand, s => State.yield s.operand
  | .suffixes floor e, s => State.yield (s.suffixes floor e)
  | .expression floor, s => State.yield (s.expression floor)
  | .declaration, s => State.yield s.declaration
  | .recital, s => State.yield s.recital
  | .assumption, s => State.yield s.assumption
  | .publication, s => State.yield s.publication
  | .action, s => State.yield s.action
  | .conditional, s => State.yield s.conditional
  | .earlyAction, s => .error s.earlyAction
  | .clauses d, s => State.yield (s.clauses d)
  | .resolution, s => s.resolution

/-- A program that comes to a value or fails.  It knows the state at each of its steps. -/
inductive Program (α : Type)
  | done (a : α)
  | fail (f : Failure)
  /-- Moves on by one token. -/
  | advance (s : State) (next : State → Program α)
  /-- Calls a reader. -/
  | call (r : Routine) (s : State) (next : r.Answer × State → Program α)

namespace Program

variable {α β : Type}

protected def bind : Program α → (α → Program β) → Program β
  | done a, f => f a
  | fail e, _ => fail e
  | advance s next, f => advance s fun s' => (next s').bind f
  | call r s next, f => call r s fun a => (next a).bind f

instance : Monad Program where
  pure := done
  bind := Program.bind

def move (s : State) : Program State := advance s done

def enter (r : Routine) (s : State) : Program (r.Answer × State) := call r s done

/-- Fails with an error at a state. -/
def stop (s : State) (e : Error) : Program α := fail ⟨e, s.log⟩

/-- What a program comes to, if every call yields what its reader yields. -/
def result : Program α → Except Failure α
  | done a => .ok a
  | fail f => .error f
  | advance s next => s.moved >>= fun s' => (next s').result
  | call r s next => answer r s >>= fun a => (next a).result

/-! ## Number words -/

def belowHundred (s : State) : Program (Nat × State) :=
  match s.kind? with
  | some (.cardinal (.ones n)) => return (n, s)
  | some (.cardinal (.teens n)) => return (n, s)
  | some (.cardinal (.tens n)) =>
    match s.nextKind? with
    | some .dash => do
      let s₁ ← move s
      match s₁.nextKind? with
      | some (.cardinal (.ones d)) =>
        let s₂ ← move s₁
        return (n + d, s₂)
      | _ => stop s₁ (.cardinal (.tensWithoutDigit s.literal))
    | _ => return (n, s)
  | _ => stop s (Cardinal.unexpected s.cursor)

def belowThousand (s : State) : Program (Nat × State) :=
  match s.kind? with
  | some (.cardinal (.ones n)) =>
    match s.nextKind? with
    | some (.cardinal .hundred) => do
      let s₁ ← move s
      if (s₁.nextKind?.map Kind.startsBelowHundred).getD false then
        let s₂ ← move s₁
        let (m, s₃) ← enter .belowHundred s₂
        return (100 * n + m, s₃)
      else
        return (100 * n, s₁)
    | _ => return (n, s)
  | _ => enter .belowHundred s

def magnitude (s : State) : Program (Nat × State) :=
  match s.nextKind? with
  | some (.cardinal (.magnitude m)) => do
    let s₁ ← move s
    return (m, s₁)
  | _ => return (1, s)

def groups (sign total : Int) (last : Option Nat) (s : State) : Program (Int × State) := do
  let (group, s₁) ← enter .belowThousand s
  let (m, s₂) ← enter .magnitude s₁
  match Cardinal.addGroup sign total last group m with
  | .error e => stop s₂ e
  | .ok total =>
    if m = 1 ∨ (s₂.nextKind?.map Kind.startsBelowHundred).getD false = false then
      return (total, s₂)
    else
      let s₃ ← move s₂
      enter (.groups sign total (some m)) s₃

def cardinal (s : State) : Program (Int × State) :=
  match s.kind? with
  | some (.cardinal .zero) => return (0, s)
  | some (.cardinal .negative) => do
    let s₁ ← move s
    enter (.groups (-1) 0 none) s₁
  | _ => enter (.groups 1 0 none) s

/-! ## Literals and searches -/

def numeralOf (cardinal : Int) (s : State) : Program (Expr × State) :=
  if s.nextKind? = some .openParen then do
    let s₁ ← move s
    if s₁.nextKind? = some .numeral ∨ s₁.nextKind? = some .dash then
      let s₂ ← move s₁
      match Numeral.read? s₂.literal with
      | none => stop s (.numeral s₂.literal)
      | some numeral =>
        if s₂.nextKind? = some .closeParen then
          let s₃ ← move s₂
          if cardinal = numeral then return (.integer cardinal, s₃)
          else stop s (.disagreement cardinal numeral)
        else stop s (.integer .notClosed)
    else stop s (.integer .notNumeral)
  else stop s (.integer .notParenthesized)

def integerLiteral (s : State) : Program (Expr × State) := do
  let (cardinal, s₁) ← enter .cardinal s
  enter (.numeralOf cardinal) s₁

def seek (wanted : Kind → Bool) (s : State) : Program (Unit × State) :=
  match s.kind? with
  | none => stop s (.unrecognizedExpression s.literal)
  | some k =>
    if wanted k then return ((), s)
    else if k.opensClause then stop s (.unrecognizedExpression s.literal)
    else do
      let s₁ ← move s
      enter (.seek wanted) s₁

def seekNext (wanted : Kind → Bool) (s : State) : Program (Option Kind × State) :=
  match s.nextKind? with
  | none => return (none, s)
  | some k =>
    if wanted k then return (some k, s)
    else if k.opensClause then return (none, s)
    else do
      let s₁ ← move s
      enter (.seekNext wanted) s₁

/-! ## Expressions -/

def operand (s : State) : Program (Expr × State) := do
  let (_, s₁) ← enter (.seek Kind.startsExpression) s
  match s₁.kind? with
  | some (.cardinal _) => enter .integerLiteral s₁
  | some .numeral => stop s₁ (.cardinal (.strayNumeral s₁.literal))
  | some .text => return (.text s₁.literal, s₁)
  | some .name => return (.name s₁.literal, s₁.use s₁.literal)
  | some (.unary op) =>
    let s₂ ← move s₁
    let (e, s₃) ← enter (.expression .operation) s₂
    return (.unary op e, s₃)
  | some (.binary op) =>
    let s₂ ← move s₁
    let (a, s₃) ← enter (.expression .lowest) s₂
    let s₄ ← move s₃
    let (b, s₅) ← enter (.expression .operation) s₄
    return (.binary op a b, s₅)
  | _ => stop s₁ (.unrecognizedExpression s₁.literal)

def suffixes (floor : Tier) (e : Expr) (s : State) : Program (Expr × State) :=
  match s.nextKind? with
  | some .less =>
    if floor.rank < Tier.difference.rank then do
      let s₁ ← move s
      let s₂ ← move s₁
      let (right, s₃) ← enter (.expression .difference) s₂
      enter (.suffixes floor (.less e right)) s₃
    else return (e, s)
  | some (.exponent op) =>
    if floor.rank < Tier.power.rank then do
      let s₁ ← move s
      enter (.suffixes floor (.power op e)) s₁
    else return (e, s)
  | _ => return (e, s)

def expression (floor : Tier) (s : State) : Program (Expr × State) := do
  let (e, s₁) ← enter .operand s
  enter (.suffixes floor e) s₁

/-! ## Clauses -/

def declaration (s : State) : Program (Declaration × State) := do
  let s₁ ← move s
  let (_, s₂) ← enter (.seek (· == .name)) s₁
  let s₃ ← move s₂
  let (value, s₄) ← enter (.expression .lowest) s₃
  return (⟨s₂.literal, value⟩, s₄.declare s₂.literal)

def recital (s : State) : Program (Option Declaration × State) := do
  let (found, s₁) ← enter (.seekNext (· == .hereinafter)) s
  match found with
  | none => return (none, s₁)
  | some _ =>
    let s₂ ← move s₁
    let (d, s₃) ← enter .declaration s₂
    return (some d, s₃)

def assumption (s : State) : Program (Statement × State) := do
  let s₁ ← move (s.use s.literal)
  let s₂ ← move s₁
  let (value, s₃) ← enter (.expression .lowest) s₂
  return (.assume s.literal value, s₃)

def publication (s : State) : Program (Statement × State) := do
  let s₁ ← move s
  let (value, s₂) ← enter (.expression .lowest) s₁
  return (.publish value, s₂)

def action (s : State) : Program (Option Statement × State) :=
  if s.kind? = some .name ∧ s.nextKind? = some .assume then do
    let (a, s₁) ← enter .assumption s
    return (some a, s₁)
  else
    match s.nextKind? with
    | none => return (none, s)
    | some k =>
      if k.opensClause then return (none, s)
      else do
        let s₁ ← move s
        if k = .publish then
          let (a, s₂) ← enter .publication s₁
          return (some a, s₂)
        else if k = .conditional then enter .conditional s₁
        else enter .action s₁

def conditional (s : State) : Program (Option Statement × State) := do
  let s₁ ← move s
  let (left, s₂) ← enter (.expression .lowest) s₁
  let (found, s₃) ← enter (.seekNext fun k => k matches .relation _) s₂
  match found with
  | some (.relation relation) =>
    let s₄ ← move s₃
    let s₅ ← move s₄
    let (right, s₆) ← enter (.expression .lowest) s₅
    let (consequence, s₇) ← enter .action s₆
    match consequence with
    | some a => return (some (.conditional left right relation a), s₇)
    | none => return (none, s₇.forget s)
  | _ => return (none, s₃.forget s)

def earlyAction (s : State) : Program (Empty × State) :=
  match s.kind? with
  | none => stop s .noWhereas
  | some k =>
    if k = .whereas then stop s .earlyResolved
    else do
      let s₁ ← move s
      enter .earlyAction s₁

def clauses (d : Draft) (s : State) : Program (Draft × State) :=
  match s.kind? with
  | none => return (d, s)
  | some k =>
    if k = .whereas then
      if d.phase = .actions then stop s .lateWhereas
      else do
        let (recital, s₁) ← enter .recital s
        let s₂ ← move s₁
        let d' := { d with phase := .recitals, recitals := d.recitals ++ recital.toList }
        enter (.clauses d') s₂
    else if k = .resolved then
      if d.phase = .title then do
        let (never, _) ← enter .earlyAction s
        never.elim
      else do
        let (action, s₁) ← enter .action s
        let s₂ ← move s₁
        let d' := { d with phase := .actions, actions := d.actions ++ action.toList }
        enter (.clauses d') s₂
    else do
      let s₁ ← move s
      enter (.clauses d) s₁

def resolution (s : State) : Program (Resolution × State) :=
  if s.kind? = some .filler ∨ s.kind? = some .name then do
    let (d, s₁) ← enter (.clauses .blank) s
    if d.phase = .actions then
      return (⟨d.recitals, d.actions⟩, s₁.close ⟨d.recitals, d.actions⟩)
    else stop s₁ .noResolved
  else stop s .noTitle

/-- The program of a reader. -/
def code : (r : Routine) → State → Program (r.Answer × State)
  | .belowHundred => belowHundred
  | .belowThousand => belowThousand
  | .magnitude => magnitude
  | .groups sign total last => groups sign total last
  | .cardinal => cardinal
  | .numeralOf cardinal => numeralOf cardinal
  | .integerLiteral => integerLiteral
  | .seek wanted => seek wanted
  | .seekNext wanted => seekNext wanted
  | .operand => operand
  | .suffixes floor e => suffixes floor e
  | .expression floor => expression floor
  | .declaration => declaration
  | .recital => recital
  | .assumption => assumption
  | .publication => publication
  | .action => action
  | .conditional => conditional
  | .earlyAction => earlyAction
  | .clauses d => clauses d
  | .resolution => resolution

/-! ## Programs come to what readers yield -/

theorem result_move {s : State} {f : State → Program α} {g : State → Except Failure α}
    (h : ∀ s₁, (f s₁).result = g s₁) : (move s >>= f).result = s.moved >>= g :=
  bind_congr h

theorem result_enter {r : Routine} {s : State} {f : r.Answer × State → Program α}
    {g : r.Answer × State → Except Failure α} (h : ∀ a s₁, (f (a, s₁)).result = g (a, s₁)) :
    (enter r s >>= f).result = answer r s >>= g :=
  bind_congr fun (a, s₁) => h a s₁

/-- A call at the end of a program. -/
theorem result_enter_last (r : Routine) (s : State) : (enter r s).result = answer r s := by
  show answer r s >>= Except.ok = _
  cases answer r s with
  | error f => rfl
  | ok a => rfl

/-- One step of a reader of number words after another. -/
theorem around_bind (s : State) (x : Except Error (α × Cursor))
    (f : α × Cursor → Except Error (β × Cursor)) :
    s.around (x >>= f) = s.around x >>= fun a => a.2.around (f (a.1, a.2.cursor)) := by
  cases x with
  | error e => rfl
  | ok a =>
    show s.around (f a) = (s.moveTo a.2).around (f a)
    cases f a with
    | error e => rfl
    | ok b => rfl

theorem around_moved (s : State) (f : Cursor → Except Error (α × Cursor)) :
    s.around (s.cursor.moved >>= f) = s.moved >>= fun s₁ => s₁.around (f s₁.cursor) := by
  rw [State.moved_eq]
  cases s.cursor.moved with
  | error e => rfl
  | ok c =>
    show s.around (f c) = (s.moveTo c).around (f c)
    cases f c with
    | error e => rfl
    | ok b => rfl

theorem result_belowHundred (s : State) : (belowHundred s).result = answer .belowHundred s := by
  rw [answer, Cardinal.yield_belowHundred]
  unfold belowHundred State.kind? State.nextKind?
  cases s.cursor.kind? with
  | none => rfl
  | some k =>
    cases k with
    | cardinal w =>
      cases w with
      | tens n =>
        dsimp only
        cases s.cursor.nextKind? with
        | none => rfl
        | some k =>
          cases k with
          | dash =>
            dsimp only
            rw [around_moved]
            refine result_move fun s₁ => ?_
            cases s₁.cursor.nextKind? with
            | none => rfl
            | some k =>
              cases k with
              | cardinal w =>
                cases w with
                | ones d =>
                  dsimp only
                  rw [around_moved]
                  rfl
                | _ => rfl
              | _ => rfl
          | _ => rfl
      | _ => rfl
    | _ => rfl

theorem result_belowThousand (s : State) : (belowThousand s).result = answer .belowThousand s := by
  rw [answer, Cardinal.yield_belowThousand]
  unfold belowThousand State.kind? State.nextKind?
  have other := result_enter_last .belowHundred s
  cases s.cursor.kind? with
  | none => exact other
  | some k =>
    cases k with
    | cardinal w =>
      cases w with
      | ones n =>
        dsimp only
        cases s.cursor.nextKind? with
        | none => rfl
        | some k =>
          cases k with
          | cardinal w =>
            cases w with
            | hundred =>
              dsimp only
              rw [around_moved]
              refine result_move fun s₁ => ?_
              split
              · rw [around_moved]
                refine result_move fun s₂ => ?_
                rw [around_bind]
                rfl
              · rfl
            | _ => rfl
          | _ => rfl
      | _ => exact other
    | _ => exact other

theorem result_magnitude (s : State) : (magnitude s).result = answer .magnitude s := by
  rw [answer, Cardinal.yield_magnitude]
  unfold magnitude State.nextKind?
  cases s.cursor.nextKind? with
  | none => rfl
  | some k =>
    cases k with
    | cardinal w =>
      cases w with
      | magnitude m =>
        dsimp only
        rw [around_moved]
        rfl
      | _ => rfl
    | _ => rfl

theorem result_groups (sign total : Int) (last : Option Nat) (s : State) :
    (groups sign total last s).result = answer (.groups sign total last) s := by
  rw [answer, Cardinal.yield_groups, around_bind]
  refine result_enter fun group s₁ => ?_
  dsimp only
  rw [around_bind]
  refine result_enter fun m s₂ => ?_
  dsimp only
  cases Cardinal.addGroup sign total last group m with
  | error e => rfl
  | ok total =>
    rw [ok_bind]
    dsimp only
    unfold State.nextKind?
    split
    · rfl
    · rw [around_moved]
      exact result_move fun s₃ => result_enter_last _ s₃

theorem result_cardinal (s : State) : (cardinal s).result = answer .cardinal s := by
  rw [answer, Cardinal.yield_read]
  unfold cardinal State.kind?
  have other := result_enter_last (.groups 1 0 none) s
  cases s.cursor.kind? with
  | none => exact other
  | some k =>
    cases k with
    | cardinal w =>
      cases w with
      | zero => rfl
      | negative =>
        dsimp only
        rw [around_moved]
        exact result_move fun s₁ => result_enter_last _ s₁
      | _ => exact other
    | _ => exact other

theorem result_numeralOf (cardinal : Int) (s : State) :
    (numeralOf cardinal s).result = answer (.numeralOf cardinal) s := by
  rw [answer, State.yield_numeralOf]
  unfold numeralOf
  split
  · refine result_move fun s₁ => ?_
    split
    · refine result_move fun s₂ => ?_
      cases Numeral.read? s₂.literal with
      | none => rfl
      | some numeral =>
        dsimp only
        split
        · refine result_move fun s₃ => ?_
          split
          · rfl
          · rfl
        · rfl
    · rfl
  · rfl

theorem result_integerLiteral (s : State) :
    (integerLiteral s).result = answer .integerLiteral s := by
  have both : (integerLiteral s).result =
      answer .cardinal s >>= fun a => answer (.numeralOf a.1) a.2 :=
    result_enter fun cardinal s₁ => result_enter_last (.numeralOf cardinal) s₁
  rw [both, answer, answer, State.yield_integerLiteral]
  cases Cardinal.yield (Cardinal.read s.cursor) with
  | error e => rfl
  | ok a => rfl

theorem result_seek (wanted : Kind → Bool) (s : State) :
    (seek wanted s).result = answer (.seek wanted) s := by
  rw [answer, State.yield_seek]
  unfold seek
  cases s.kind? with
  | none => rfl
  | some k =>
    dsimp only
    split
    · rfl
    · split
      · rfl
      · exact result_move fun s₁ => result_enter_last _ s₁

theorem result_seekNext (wanted : Kind → Bool) (s : State) :
    (seekNext wanted s).result = answer (.seekNext wanted) s := by
  rw [answer, State.yield_seekNext]
  unfold seekNext
  cases s.nextKind? with
  | none => rfl
  | some k =>
    dsimp only
    split
    · rfl
    · split
      · rfl
      · exact result_move fun s₁ => result_enter_last _ s₁

theorem result_operand (s : State) : (operand s).result = answer .operand s := by
  rw [answer, State.yield_operand]
  refine result_enter fun _ s₁ => ?_
  dsimp only
  cases s₁.kind? with
  | none => rfl
  | some k =>
    cases k with
    | cardinal w => exact result_enter_last _ s₁
    | _ => rfl

theorem result_suffixes (floor : Tier) (e : Expr) (s : State) :
    (suffixes floor e s).result = answer (.suffixes floor e) s := by
  rw [answer, State.yield_suffixes]
  unfold suffixes
  cases s.nextKind? with
  | none => rfl
  | some k =>
    cases k with
    | less =>
      dsimp only
      split
      · refine result_move fun s₁ => result_move fun s₂ => result_enter fun right s₃ => ?_
        exact result_enter_last _ s₃
      · rfl
    | exponent op =>
      dsimp only
      split
      · exact result_move fun s₁ => result_enter_last _ s₁
      · rfl
    | _ => rfl

theorem result_expression (floor : Tier) (s : State) :
    (expression floor s).result = answer (.expression floor) s := by
  rw [answer, State.yield_expression]
  exact result_enter fun e s₁ => result_enter_last (.suffixes floor e) s₁

theorem result_declaration (s : State) : (declaration s).result = answer .declaration s := by
  rw [answer, State.yield_declaration]
  rfl

theorem result_recital (s : State) : (recital s).result = answer .recital s := by
  rw [answer, State.yield_recital]
  refine result_enter fun found s₁ => ?_
  cases found with
  | none => rfl
  | some k => rfl

theorem result_assumption (s : State) : (assumption s).result = answer .assumption s := by
  rw [answer, State.yield_assumption]
  rfl

theorem result_publication (s : State) : (publication s).result = answer .publication s := by
  rw [answer, State.yield_publication]
  rfl

theorem result_action (s : State) : (action s).result = answer .action s := by
  rw [answer, State.yield_action]
  unfold action
  split
  · rfl
  · cases s.nextKind? with
    | none => rfl
    | some k =>
      dsimp only
      split
      · rfl
      · refine result_move fun s₁ => ?_
        split
        · rfl
        · split
          · exact result_enter_last _ s₁
          · exact result_enter_last _ s₁

theorem result_conditional (s : State) : (conditional s).result = answer .conditional s := by
  rw [answer, State.yield_conditional]
  refine result_move fun s₁ => result_enter fun left s₂ => result_enter fun found s₃ => ?_
  dsimp only
  cases found with
  | none => rfl
  | some k =>
    cases k with
    | relation relation =>
      refine result_move fun s₄ => result_move fun s₅ => result_enter fun right s₆ => ?_
      refine result_enter fun consequence s₇ => ?_
      cases consequence with
      | none => rfl
      | some a => rfl
    | _ => rfl

theorem result_earlyAction (s : State) : (earlyAction s).result = answer .earlyAction s := by
  rw [answer, State.earlyAction_eq]
  unfold earlyAction
  cases s.kind? with
  | none => rfl
  | some k =>
    dsimp only
    split
    · rfl
    · show s.moved >>= (fun s₁ => (enter .earlyAction s₁).result) = _
      cases s.moved with
      | error f => rfl
      | ok s₁ => exact result_enter_last .earlyAction s₁

theorem result_clauses (d : Draft) (s : State) : (clauses d s).result = answer (.clauses d) s := by
  rw [answer, State.yield_clauses]
  unfold clauses
  cases s.kind? with
  | none => rfl
  | some k =>
    dsimp only
    split
    · split
      · rfl
      · exact result_enter fun recital s₁ => result_move fun s₂ => result_enter_last _ s₂
    · split
      · split
        · rfl
        · exact result_enter fun action s₁ => result_move fun s₂ => result_enter_last _ s₂
      · exact result_move fun s₁ => result_enter_last _ s₁

theorem result_resolution (s : State) : (resolution s).result = answer .resolution s := by
  rw [answer, State.resolution_eq]
  unfold resolution
  split
  · refine result_enter fun d s₁ => ?_
    dsimp only
    split
    · rfl
    · rfl
  · rfl

/-- The program of a reader comes to what the reader yields. -/
theorem result_code (r : Routine) (s : State) : (code r s).result = answer r s := by
  cases r with
  | belowHundred => exact result_belowHundred s
  | belowThousand => exact result_belowThousand s
  | magnitude => exact result_magnitude s
  | groups sign total last => exact result_groups sign total last s
  | cardinal => exact result_cardinal s
  | numeralOf cardinal => exact result_numeralOf cardinal s
  | integerLiteral => exact result_integerLiteral s
  | seek wanted => exact result_seek wanted s
  | seekNext wanted => exact result_seekNext wanted s
  | operand => exact result_operand s
  | suffixes floor e => exact result_suffixes floor e s
  | expression floor => exact result_expression floor s
  | declaration => exact result_declaration s
  | recital => exact result_recital s
  | assumption => exact result_assumption s
  | publication => exact result_publication s
  | action => exact result_action s
  | conditional => exact result_conditional s
  | earlyAction => exact result_earlyAction s
  | clauses d => exact result_clauses d s
  | resolution => exact result_resolution s

end Program
end Legalese
