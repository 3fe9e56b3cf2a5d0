import Legalese.Evaluation
import Legalese.Proofs.WellFormed

/-!
# What expressions come to

As long as all bindings are values of the range, an expression whose names are bound comes
to a value of the range, or it stops with a fault that lies in the values: a text where a
number is needed, or a division by zero.  A missing value never comes up.
-/

namespace Legalese

namespace Value

/-- A number of the range, or a text. -/
def InRange : Value → Prop
  | integer n => Legalese.InRange n
  | text _ => True

/-- A value of the range can be published. -/
theorem InRange.write? {v : Value} (h : v.InRange) : ∃ line, v.write? = .ok line := by
  cases v with
  | integer n => exact ⟨Integer.write n, if_pos h⟩
  | text s => exact ⟨s, rfl⟩

/-- Values of the range have one line each. -/
theorem lines_of_inRange {vs : List Value} (h : ∀ v ∈ vs, v.InRange) :
    ∃ lines, vs.mapM Value.write? = .ok lines ∧ lines.length = vs.length := by
  induction vs with
  | nil => exact ⟨[], rfl, rfl⟩
  | cons v vs ih =>
    obtain ⟨line, first⟩ := (h v List.mem_cons_self).write?
    obtain ⟨lines, rest, length⟩ := ih fun w hw => h w (List.mem_cons_of_mem v hw)
    refine ⟨line :: lines, ?_, congrArg (· + 1) length⟩
    rw [List.mapM_cons, first, rest]
    rfl

end Value

/-- The faults that come up when every name has a value. -/
inductive Fault.Arises : Fault → Prop
  | nonNumeric (s : String) : Arises (.nonNumeric s)
  | divisionByZero {op : BinaryOperator} (a : Int) (h : op = .quotient ∨ op = .remainder) :
      Arises (.divisionByZero op a 0)
  | exceedsMismatch {u v : Value} (h : ∀ a b, ¬(u = .integer a ∧ v = .integer b)) :
      Arises (.exceedsMismatch u v)

theorem Fault.Arises.message {f : Fault} (h : f.Arises) :
    (∃ s, f.message = "non-numeric " ++ s ++ " in numeric context") ∨
      (∃ (op : BinaryOperator) (a : Int),
        f.message = "division by zero: " ++ op.word ++ " " ++ toString a ++ " 0") ∨
      ∃ u v : Value, f.message = "type mismatch: " ++ u.typeWord ++ " exceeds " ++ v.typeWord := by
  cases h with
  | nonNumeric s => exact .inl ⟨s, rfl⟩
  | @divisionByZero op a _ => exact .inr (.inl ⟨op, a, String.append_assoc⟩)
  | @exceedsMismatch u v _ => exact .inr (.inr ⟨u, v, rfl⟩)

/-- A computation with a good result, or with one of those faults. -/
inductive Sensible {α : Type} (good : α → Prop) : Except Fault α → Prop
  | value {a : α} (h : good a) : Sensible good (.ok a)
  | fault {f : Fault} (h : f.Arises) : Sensible good (.error f)

theorem Sensible.bind {α β : Type} {good : α → Prop} {good' : β → Prop} {x : Except Fault α}
    {f : α → Except Fault β} (h : Sensible good x) (hf : ∀ a, good a → Sensible good' (f a)) :
    Sensible good' (x >>= f) := by
  cases h with
  | value ha => exact hf _ ha
  | fault arises => exact .fault arises

theorem Sensible.mono {α : Type} {good good' : α → Prop} {x : Except Fault α} (h : Sensible good x)
    (le : ∀ a, good a → good' a) : Sensible good' x := by
  cases h with
  | value ha => exact .value (le _ ha)
  | fault arises => exact .fault arises

/-- A value is there, and it is in the range. -/
def Given (o : Option Value) : Prop := ∃ v, o = some v ∧ v.InRange

/-! ## Bindings -/

namespace Environment

/-- Every name is bound to a value of the range. -/
def Sound (env : Environment) : Prop := ∀ e ∈ env.entries, ∃ v, e.2 = .ok v ∧ v.InRange

theorem sound_empty : empty.Sound := nofun

theorem value_of_get? {env : Environment} {x : String} {v : Value} (h : env.get? x = some (.ok v)) :
    env.value x = .ok (some v) := by
  rw [value, h]

theorem Sound.value {env : Environment} (sound : env.Sound) {x : String} (h : x ∈ env.names) :
    ∃ v, env.value x = .ok (some v) ∧ v.InRange := by
  cases found : env.get? x with
  | none => exact absurd h (lookup_eq_none.1 found)
  | some b =>
    obtain ⟨l, r, split, -⟩ := List.lookup_eq_some_iff.1 found
    have mem : (x, b) ∈ env.entries := by
      rw [split]
      exact List.mem_append_right l List.mem_cons_self
    obtain ⟨v, e, inRange⟩ := sound (x, b) mem
    obtain rfl : b = .ok v := e
    exact ⟨v, value_of_get? found, inRange⟩

theorem names_set (env : Environment) (x : String) (b : Binding) :
    (env.set x b).names = if x ∈ env.names then env.names else env.names ++ [x] := by
  unfold set contains
  by_cases h : x ∈ env.names
  · rw [if_pos (List.contains_iff_mem.2 h), if_pos h]
    show (env.entries.map _).map _ = env.entries.map _
    rw [List.map_map]
    refine List.map_congr_left fun e _ => ?_
    by_cases he : e.1 = x
    · simp [he]
    · simp [he]
  · rw [if_neg fun c => h (List.contains_iff_mem.1 c), if_neg h]
    exact List.map_append

theorem get?_set (env : Environment) (x : String) (b : Binding) : (env.set x b).get? x = some b := by
  unfold set contains
  by_cases h : x ∈ env.names
  · rw [if_pos (List.contains_iff_mem.2 h)]
    obtain ⟨entries⟩ := env
    show (entries.map _).lookup x = some b
    replace h : x ∈ entries.map (·.1) := h
    induction entries with
    | nil => cases h
    | cons e entries ih =>
      rw [List.map_cons]
      by_cases he : e.1 = x
      · rw [if_pos he, List.lookup_cons_self]
      · have other : (x == e.1) = false := beq_eq_false_iff_ne.2 fun c => he c.symm
        rw [if_neg he, List.lookup_cons, other]
        exact ih ((List.mem_cons.1 h).resolve_left fun c => he c.symm)
  · rw [if_neg fun c => h (List.contains_iff_mem.1 c)]
    show (env.entries ++ [(x, b)]).lookup x = some b
    rw [List.lookup_append, lookup_eq_none.2 h, Option.none_or, List.lookup_cons_self]

theorem Sound.set {env : Environment} (sound : env.Sound) (x : String) {v : Value}
    (h : v.InRange) : (env.set x (.ok v)).Sound := by
  unfold Environment.set
  split
  · intro e he
    obtain ⟨e', he', rfl⟩ := List.mem_map.1 he
    split
    · exact ⟨v, rfl, h⟩
    · exact sound e' he'
  · intro e he
    rcases List.mem_append.1 he with he | he
    · exact sound e he
    · rw [List.mem_singleton.1 he]
      exact ⟨v, rfl, h⟩

end Environment

/-! ## Expressions -/

namespace BinaryOperator

/-- The result of an operator over the integers, or the fault that it has none. -/
def compute (op : BinaryOperator) (a b : Int) : Except Fault Int :=
  match op.result? a b with
  | some n => .ok n
  | none => .error (.divisionByZero op a b)

theorem apply_eq (op : BinaryOperator) (u v : Option Value) :
    op.apply u v =
      (numeric u >>= fun a => numeric v >>= fun b => op.compute a b >>= fun n =>
        .ok (wrapped n)) := by
  unfold apply compute
  cases numeric u with
  | error f => rfl
  | ok a =>
    cases numeric v with
    | error f => rfl
    | ok b =>
      simp only [ok_bind]
      cases op.result? a b <;> rfl

end BinaryOperator

theorem given_wrapped (n : Int) : Given (wrapped n) := ⟨.integer (wrap n), rfl, inRange_wrap n⟩

theorem sensible_numeric {o : Option Value} (h : Given o) : Sensible (fun _ => True) (numeric o) := by
  obtain ⟨v, rfl, -⟩ := h
  cases v with
  | integer n => exact .value trivial
  | text s => exact .fault (.nonNumeric s)

theorem sensible_apply (op : BinaryOperator) {u v : Option Value} (hu : Given u) (hv : Given v) :
    Sensible Given (op.apply u v) := by
  refine (sensible_numeric hu).bind fun a _ => (sensible_numeric hv).bind fun b _ => ?_
  cases op with
  | sum => exact .value (given_wrapped (a + b))
  | product => exact .value (given_wrapped (a * b))
  | quotient =>
    by_cases zero : b = 0
    · subst zero
      exact .fault (.divisionByZero a (.inl rfl))
    · simp only [BinaryOperator.result?, if_neg zero]
      exact .value (given_wrapped _)
  | remainder =>
    by_cases zero : b = 0
    · subst zero
      exact .fault (.divisionByZero a (.inr rfl))
    · simp only [BinaryOperator.result?, if_neg zero]
      exact .value (given_wrapped _)

namespace Expr

/-- An expression and all expressions inside it. -/
def parts : Expr → List Expr
  | integer n => [integer n]
  | text s => [text s]
  | name x => [name x]
  | unary op e => unary op e :: e.parts
  | binary op a b => binary op a b :: (a.parts ++ b.parts)
  | less l r => less l r :: (l.parts ++ r.parts)
  | power op e => power op e :: e.parts

/-- An expression that can be evaluated where these names are bound. -/
structure Ready (names : List String) (e : Expr) : Prop where
  wellFormed : e.WellFormed
  bound : ∀ x ∈ e.names, x ∈ names

theorem Ready.of_binary {names : List String} {op : BinaryOperator} {a b : Expr}
    (h : (binary op a b).Ready names) : a.Ready names ∧ b.Ready names :=
  ⟨⟨h.wellFormed.1, fun x hx => h.bound x (List.mem_append_left _ hx)⟩,
    ⟨h.wellFormed.2.1, fun x hx => h.bound x (List.mem_append_right _ hx)⟩⟩

theorem Ready.of_less {names : List String} {l r : Expr} (h : (less l r).Ready names) :
    l.Ready names ∧ r.Ready names :=
  ⟨⟨h.wellFormed.1, fun x hx => h.bound x (List.mem_append_left _ hx)⟩,
    ⟨h.wellFormed.2.1, fun x hx => h.bound x (List.mem_append_right _ hx)⟩⟩

theorem Ready.of_mem_parts {names : List String} {e p : Expr} (h : e.Ready names)
    (hp : p ∈ e.parts) : p.Ready names := by
  induction e with
  | integer n => rwa [List.mem_singleton.1 hp]
  | text s => rwa [List.mem_singleton.1 hp]
  | name x => rwa [List.mem_singleton.1 hp]
  | unary op e ih =>
    rcases List.mem_cons.1 hp with rfl | hp
    · exact h
    · exact ih ⟨h.wellFormed.1, h.bound⟩ hp
  | binary op a b iha ihb =>
    rcases List.mem_cons.1 hp with rfl | hp
    · exact h
    · rcases List.mem_append.1 hp with hp | hp
      · exact iha h.of_binary.1 hp
      · exact ihb h.of_binary.2 hp
  | less l r ihl ihr =>
    rcases List.mem_cons.1 hp with rfl | hp
    · exact h
    · rcases List.mem_append.1 hp with hp | hp
      · exact ihl h.of_less.1 hp
      · exact ihr h.of_less.2 hp
  | power op e ih =>
    rcases List.mem_cons.1 hp with rfl | hp
    · exact h
    · exact ih ⟨h.wellFormed.1, h.bound⟩ hp

/-- By induction on the expression. -/
theorem Ready.eval {env : Environment} (sound : env.Sound) {e : Expr} (h : e.Ready env.names) :
    Sensible Given (e.eval env) := by
  induction e with
  | integer n => exact .value ⟨.integer n, rfl, h.wellFormed⟩
  | text s => exact .value ⟨.text s, rfl, trivial⟩
  | name x =>
    obtain ⟨v, found, inRange⟩ := sound.value (h.bound x List.mem_cons_self)
    rw [Expr.eval, found]
    exact .value ⟨v, rfl, inRange⟩
  | unary op e ih =>
    refine (ih ⟨h.wellFormed.1, h.bound⟩).bind fun _ hv => (sensible_numeric hv).bind fun n _ => ?_
    exact .value (given_wrapped (op.result n))
  | binary op a b iha ihb =>
    refine (iha h.of_binary.1).bind fun _ hu => (ihb h.of_binary.2).bind fun _ hv => ?_
    exact sensible_apply op hu hv
  | less l r ihl ihr =>
    refine (ihl h.of_less.1).bind fun _ hu => (ihr h.of_less.2).bind fun _ hv => ?_
    refine (sensible_numeric hu).bind fun a _ => (sensible_numeric hv).bind fun b _ => ?_
    exact .value (given_wrapped (a - b))
  | power op e ih =>
    refine (ih ⟨h.wellFormed.1, h.bound⟩).bind fun _ hv => (sensible_numeric hv).bind fun n _ => ?_
    exact .value (given_wrapped (op.result n))

end Expr
end Legalese
