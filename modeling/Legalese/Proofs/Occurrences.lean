import Legalese.Proofs.Written.Cardinal

/-!
# Names and their tokens

A resolution names things in the order in which its text does.  Reading never goes back, so
each token should give at most one name.  There is one exception.  A reader stops on the
last token of what it has read, and the search for the consequence of a conditional looks at
the token where it starts.  A name that ends the right operand, with "assume" right after it,
is therefore read again, as the name that assumes a value.

Main statement: the names of a resolution are found in its text from left to right, each at
a token of its own, except that a token at such a place may give its name twice.
-/

namespace Legalese

/-- The name that is declared, and the names of its value. -/
def Declaration.occurrences (d : Declaration) : List String := d.name :: d.value.names

/-- Every occurrence of a name in a resolution, from left to right. -/
def Resolution.occurrences (r : Resolution) : List String :=
  r.recitals.flatMap Declaration.occurrences ++ r.actions.flatMap Statement.names

theorem Resolution.occurrences_append (ds ds' : List Declaration) (as : List Statement) :
    occurrences ⟨ds ++ ds', as⟩ =
      ds.flatMap Declaration.occurrences ++ occurrences ⟨ds', as⟩ := by
  rw [occurrences, occurrences, List.flatMap_append, List.append_assoc]

namespace Grammar

/-- The names among some tokens. -/
def namesOf (ts : List Token) : List String := (ts.filter (·.kind == .name)).map (·.literal)

theorem namesOf_cons_name {t : Token} (h : t.kind = .name) (ts : List Token) :
    namesOf (t :: ts) = t.literal :: namesOf ts := by
  simp [namesOf, h]

theorem namesOf_cons_other {t : Token} (h : t.kind ≠ .name) (ts : List Token) :
    namesOf (t :: ts) = namesOf ts := by
  simp [namesOf, h]

/-! ## Meeting names -/

/-- A place in a text, given by the tokens from there on: a name that ends the right operand
of a conditional and has "assume" right after it. -/
inductive Shared (text : List Token) : List Token → Prop
  | intro {x y z n m : Token} {ts ts₁ ts₂ rest : List Token} {l r : Expr} {relation : Relation}
      (within : x :: ts <:+ text) (kind : x.kind = .conditional)
      (left : Reads none .expression ts l ts₁)
      (found : FindsRelation ts₁ (some (.relation relation)) (y :: z :: ts₂))
      (right : Reads none .expression ts₂ r (n :: m :: rest)) (name : n.kind = .name)
      (assume : m.kind = .assume) : Shared text (n :: m :: rest)

/-- On the way from one place to another some names are met, in this order.  Each token is
met once at most, or twice if it is shared. -/
inductive Meets (shared : List Token → Prop) : List Token → List String → List Token → Prop
  | here {ts : List Token} : Meets shared ts [] ts
  | skip {t : Token} {ts us : List Token} {xs : List String} (h : Meets shared ts xs us) :
      Meets shared (t :: ts) xs us
  | once {t : Token} {ts us : List Token} {xs : List String} (name : t.kind = .name)
      (h : Meets shared ts xs us) : Meets shared (t :: ts) (t.literal :: xs) us
  | twice {t : Token} {ts us : List Token} {xs : List String} (name : t.kind = .name)
      (place : shared (t :: ts)) (h : Meets shared ts xs us) :
      Meets shared (t :: ts) (t.literal :: t.literal :: xs) us

variable {shared : List Token → Prop}

theorem Meets.trans {ts us vs : List Token} {xs ys : List String} (h : Meets shared ts xs us)
    (h' : Meets shared us ys vs) : Meets shared ts (xs ++ ys) vs := by
  induction h with
  | here => exact h'
  | skip _ ih => exact .skip (ih h')
  | once name _ ih => exact .once name (ih h')
  | twice name place _ ih => exact .twice name place (ih h')

/-- Nothing has to be met on the way. -/
theorem Meets.drop (ts : List Token) (n : Nat) : Meets shared ts [] (ts.drop n) := by
  induction n generalizing ts with
  | zero => exact .here
  | succ n ih =>
    cases ts with
    | nil => exact .here
    | cons t ts => exact .skip (ih ts)

theorem Meets.tail (ts : List Token) : Meets shared ts [] ts.tail := by
  rw [← List.drop_one]
  exact .drop ts 1

theorem Meets.of_follows {c c' : Cursor} (h : c.Follows c') :
    Meets shared c.tokens [] c'.tokens := by
  obtain ⟨n, rfl⟩ := h
  exact .drop c.tokens n

theorem Meets.suffix {ts us : List Token} {xs : List String} (h : Meets shared ts xs us) :
    us <:+ ts := by
  induction h with
  | here => exact List.suffix_refl _
  | skip _ ih => exact ih.trans (List.suffix_cons _ _)
  | once _ _ ih => exact ih.trans (List.suffix_cons _ _)
  | twice _ _ _ ih => exact ih.trans (List.suffix_cons _ _)

/-- Where no place is shared, different occurrences have different tokens. -/
theorem Meets.sublist {ts us : List Token} {xs : List String} (h : Meets shared ts xs us)
    (none : ∀ vs, ¬shared vs) : xs.Sublist (namesOf ts) := by
  induction h with
  | here => exact List.nil_sublist _
  | @skip t ts _ _ _ ih =>
    by_cases name : t.kind = .name
    · rw [namesOf_cons_name name]
      exact ih.cons t.literal
    · rw [namesOf_cons_other name]
      exact ih
  | once name _ ih =>
    rw [namesOf_cons_name name]
    exact ih.cons_cons _
  | twice _ place _ _ => exact absurd place (none _)

/-- Some names are met on the way to a place and at it: the last of them is the token at that
place, if that is a name. -/
def MeetsThrough (shared : List Token → Prop) (ts : List Token) (xs : List String)
    (us : List Token) : Prop :=
  ∃ n rest ys, us = n :: rest ∧ Meets shared ts ys us ∧ xs = ys ++ namesOf [n]

theorem MeetsThrough.head (t : Token) (ts : List Token) :
    MeetsThrough shared (t :: ts) (namesOf [t]) (t :: ts) :=
  ⟨t, ts, [], rfl, .here, rfl⟩

theorem MeetsThrough.of_meets {t : Token} {ts us : List Token} {xs : List String}
    (h : Meets shared ts xs (t :: us)) (other : t.kind ≠ .name) :
    MeetsThrough shared ts xs (t :: us) :=
  ⟨t, us, xs, rfl, h, by rw [namesOf_cons_other other]; exact (List.append_nil xs).symm⟩

theorem MeetsThrough.meets {ts us : List Token} {xs : List String}
    (h : MeetsThrough shared ts xs us) : Meets shared ts xs us.tail := by
  obtain ⟨n, rest, ys, rfl, before, rfl⟩ := h
  refine before.trans ?_
  by_cases name : n.kind = .name
  · rw [namesOf_cons_name name]
    exact .once name .here
  · rw [namesOf_cons_other name]
    exact .skip .here

theorem MeetsThrough.suffix {ts us : List Token} {xs : List String}
    (h : MeetsThrough shared ts xs us) : us <:+ ts := by
  obtain ⟨_, _, _, rfl, before, -⟩ := h
  exact before.suffix

theorem Meets.through {ts us vs : List Token} {xs ys : List String} (h : Meets shared ts xs us)
    (h' : MeetsThrough shared us ys vs) : MeetsThrough shared ts (xs ++ ys) vs := by
  obtain ⟨n, rest, zs, rfl, before, rfl⟩ := h'
  exact ⟨n, rest, xs ++ zs, rfl, h.trans before, (List.append_assoc xs zs _).symm⟩

/-! ## Names of expressions -/

theorem IsInteger.meets {u : Option String} {ts ts' : List Token} {v : Int}
    (h : IsInteger u ts v ts') : MeetsThrough shared ts [] ts' := by
  cases h with
  | intro cardinal _ _ _ closed =>
    have words : Meets shared ts [] _ := .of_follows (Cardinal.follows_of_read cardinal)
    refine .of_meets (words.trans (.skip (.skip (.skip .here)))) ?_
    rw [closed]
    exact nofun

theorem IsLeaf.meets {u : Option String} {ts ts' : List Token} {e : Expr}
    (h : IsLeaf u ts e ts') : MeetsThrough shared ts e.names ts' := by
  cases h with
  | integer _ h => exact h.meets
  | @text t ts kind => exact .of_meets .here (by rw [kind]; exact nofun)
  | @name t ts kind =>
    have head : namesOf [t] = [t.literal] := namesOf_cons_name kind []
    rw [Expr.names, ← head]
    exact .head t ts

theorem Powers.meets {whole ts ts' : List Token} {e e' : Expr} (h : Powers e ts e' ts')
    (before : MeetsThrough shared whole e.names ts) : MeetsThrough shared whole e'.names ts' := by
  induction h with
  | done _ => exact before
  | more kind _ ih => exact ih (.of_meets before.meets (by rw [kind]; exact nofun))

/-- What is met while a phrase is read.  The words after an operand go on from what was met up
to that operand. -/
def Phrase.Meets (shared : List Token → Prop) (ts : List Token) (e : Expr) (ts' : List Token) :
    Phrase → Prop
  | operation => MeetsThrough shared ts e.names ts'
  | expression => MeetsThrough shared ts e.names ts'
  | differences left =>
    ∀ whole, MeetsThrough shared whole left.names ts → MeetsThrough shared whole e.names ts'

/-- By induction on the grammar, one case for each of its rules. -/
theorem Reads.meets {u : Option String} {p : Phrase} {ts ts' : List Token} {e : Expr}
    (h : Reads u p ts e ts') : p.Meets shared ts e ts' := by
  induction h with
  | filler _ _ _ ih => exact (Meets.skip .here).through ih
  | leaf first powers => exact powers.meets first.meets
  | unary _ _ ih => exact (Meets.skip .here).through ih
  | binary _ _ _ ih₁ ih₂ => exact (Meets.skip ih₁.meets).through ih₂
  | expression _ _ ih₁ ih₂ => exact ih₂ _ ih₁
  | done _ => exact fun _ before => before
  | less _ _ _ ih₁ ih₂ =>
    exact fun whole before => ih₂ whole (before.meets.through ((Meets.skip .here).through ih₁))

/-! ## Names of statements -/

theorem Finds.meets {wanted : Kind → Bool} {ts ts' : List Token} {found : Option Kind}
    (h : Finds wanted ts found ts') : Meets shared ts.tail [] ts'.tail := by
  induction h with
  | found _ _ => exact .here
  | ended _ => exact .here
  | clause _ _ _ => exact .here
  | @skip ts _ _ _ _ _ _ _ ih => exact (Meets.tail ts.tail).trans ih

/-- The names that are met before the right operand of a conditional. -/
theorem meets_leftOperand {u : Option String} {y z : Token} {ts ts₁ ts₂ : List Token} {l : Expr}
    {k : Kind} (left : Reads u .expression ts l ts₁)
    (found : FindsRelation ts₁ (some k) (y :: z :: ts₂)) : Meets shared ts l.names ts₂ := by
  have operand : Meets shared ts l.names ts₁.tail := left.meets.meets
  have words : Meets shared ts₁.tail [] ts₂ := found.meets.trans (.skip .here)
  have both := operand.trans words
  rw [List.append_nil] at both
  exact both

/-- An assumption of the name at the current token. -/
def AssumesHere (shared : List Token → Prop) (ts : List Token) (a : Statement)
    (ts' : List Token) : Prop :=
  ∃ n m rest e, ts = n :: m :: rest ∧ n.kind = .name ∧ m.kind = .assume ∧
    a = .assume n.literal e ∧ Meets shared rest e.names ts'.tail

/-- The names of an action are met after the token where its search begins, unless it assumes a
value for just that token.  Where the search for a consequence does, the token is shared with
the right operand. -/
theorem Acts.meets {text ts ts' : List Token} {a : Option Statement} (h : Acts none ts a ts')
    (within : ts <:+ text) :
    ∀ b, a = some b →
      Meets (Shared text) ts.tail b.names ts'.tail ∨ AssumesHere (Shared text) ts b ts' := by
  induction h with
  | ended _ => exact nofun
  | clause _ _ => exact nofun
  | unrelated _ _ _ => exact nofun
  | @filler t x ts _ _ _ _ ih =>
    intro b hb
    left
    rcases ih ((List.suffix_cons t _).trans within) b hb with after | here
    · exact .skip after
    · obtain ⟨n, m, rest, e, e₁, name, -, rfl, value⟩ := here
      rw [List.tail_cons, e₁]
      exact .once name (.skip value)
  | @assume n m rest _ e name kind value =>
    rintro _ ⟨⟩
    exact .inr ⟨n, m, rest, e, rfl, name, kind, rfl, value.meets.meets⟩
  | publish _ value =>
    rintro _ ⟨⟩
    exact .inl (.skip value.meets.meets)
  | @conditional t x y z ts ts₁ ts₂ ts₃ ts' l r relation a kind left found right consequence ih =>
    intro b hb
    obtain ⟨c, hc, rfl⟩ := Option.map_eq_some_iff.1 hb
    left
    have inside : x :: ts <:+ text := (List.suffix_cons t _).trans within
    have first : Meets (Shared text) (x :: ts) l.names ts₂ := .skip (meets_leftOperand left found)
    have operand : MeetsThrough (Shared text) ts₂ r.names ts₃ := right.meets
    have inside₃ : ts₃ <:+ text := operand.suffix.trans (first.suffix.trans inside)
    rcases ih inside₃ c hc with after | here
    · exact (first.trans operand.meets).trans after
    · obtain ⟨n, m, rest, e, rfl, name, assume, rfl, value⟩ := here
      obtain ⟨_, _, ys, ⟨rfl, rfl⟩, before, hr⟩ := operand
      have place : Shared text (n :: m :: rest) :=
        .intro inside kind left found right name assume
      have last : namesOf [n] = [n.literal] := namesOf_cons_name name []
      have whole := first.trans (before.trans (.twice name place (.skip value)))
      simpa [Statement.names, hr, last] using whole

theorem Recites.meets {u : Option String} {ts ts' : List Token} {d : Declaration}
    (h : Recites u ts d ts') : Meets shared ts.tail d.occurrences ts'.tail := by
  cases h with
  | @intro t x n _ pre ts₁ _ _ e found _ name value =>
    have words : Meets shared ts.tail [] (pre ++ n :: ts₁) := found.meets.trans (.skip .here)
    have between : Meets shared (pre ++ n :: ts₁) [] (n :: ts₁) := by
      have dropped : Meets shared _ [] _ := Meets.drop (pre ++ n :: ts₁) pre.length
      rwa [List.drop_left] at dropped
    exact words.trans (between.trans (.once name value.meets.meets))

end Grammar

/-! ## Names of a text -/

namespace State

open Grammar

theorem tokens_of_ended {s : State} (h : s.kind? = none) : s.cursor.tokens = [] := by
  rw [kind?_eq] at h
  exact List.head?_eq_none_iff.1 (Option.map_eq_none_iff.1 h)

theorem meets_of_recital {s s₁ s₂ : State} {d : Option Declaration} {shared : List Token → Prop}
    (read : yield s.recital = .ok (d, s₁)) (moved : s₁.moved = .ok s₂) :
    Meets shared s.cursor.tokens (d.toList.flatMap Declaration.occurrences) s₂.cursor.tokens := by
  obtain ⟨recites, effect⟩ := recital_ok read
  rw [tokens_of_moved moved]
  cases d with
  | none => exact (Meets.of_follows effect.follows).trans (.tail _)
  | some d =>
    rw [Option.toList_some, List.flatMap_singleton]
    exact (Meets.tail _).trans (recites d rfl).meets

/-- The search for the action of a clause begins at its head, which is no name. -/
theorem meets_of_action {s s₁ s₂ : State} {a : Option Statement} {text : List Token}
    (head : s.kind? = some .resolved) (closed : s.cursor.unclosed = none)
    (within : s.cursor.tokens <:+ text) (read : yield s.action = .ok (a, s₁))
    (moved : s₁.moved = .ok s₂) :
    Meets (Shared text) s.cursor.tokens (a.toList.flatMap Statement.names) s₂.cursor.tokens := by
  obtain ⟨acts, effect⟩ := action_ok read
  rw [closed] at acts
  rw [tokens_of_moved moved]
  cases a with
  | none => exact (Meets.of_follows effect.follows).trans (.tail _)
  | some a =>
    rw [Option.toList_some, List.flatMap_singleton]
    rcases acts.meets within a rfl with after | ⟨n, m, rest, e, hs, name, -⟩
    · exact (Meets.tail _).trans after
    · rw [kind?_eq, hs, kindAt_cons, name] at head
      cases head

/-- By induction on the clauses.  No recital comes after an action, so what is read later also
stands later in the resolution. -/
theorem ClausesRun.meets {d d' : Draft} {s s' : State} {text : List Token}
    (run : ClausesRun d s d' s') (closed : s.cursor.unclosed = none)
    (within : s.cursor.tokens <:+ text) :
    ∃ ds as, d'.recitals = d.recitals ++ ds ∧ d'.actions = d.actions ++ as ∧
      (d.phase = .actions → ds = []) ∧
      Meets (Shared text) s.cursor.tokens (Resolution.occurrences ⟨ds, as⟩) [] := by
  induction run with
  | @ended _ s hs =>
    rw [tokens_of_ended hs]
    exact ⟨[], [], (List.append_nil _).symm, (List.append_nil _).symm, fun _ => rfl, .here⟩
  | @recital _ _ s _ s₂ _ recital _ early read moved _ ih =>
    have follows := (recital_ok read).2.follows.trans (uses_of_moved moved).follows
    have first : Meets (Shared text) _ _ _ := meets_of_recital read moved
    obtain ⟨ds, as, recitals, actions, -, rest⟩ :=
      ih (follows.unclosed_eq.trans closed) (first.suffix.trans within)
    refine ⟨recital.toList ++ ds, as, ?_, actions, fun h => absurd h early, ?_⟩
    · rw [recitals, List.append_assoc]
    · rw [Resolution.occurrences_append]
      exact first.trans rest
  | @action _ _ s _ s₂ _ action head _ read moved _ ih =>
    have follows := (action_ok read).2.follows.trans (uses_of_moved moved).follows
    have first := meets_of_action head closed within read moved
    obtain ⟨ds, as, recitals, actions, late, rest⟩ :=
      ih (follows.unclosed_eq.trans closed) (first.suffix.trans within)
    obtain rfl := late rfl
    refine ⟨[], action.toList ++ as, recitals, ?_, fun _ => rfl, ?_⟩
    · rw [actions, List.append_assoc]
    · rw [Resolution.occurrences, List.flatMap_append]
      exact first.trans rest
  | @skip _ _ s s₁ _ _ _ _ moved _ ih =>
    have follows := (uses_of_moved moved).follows
    have first : Meets (Shared text) _ _ _ := Meets.of_follows follows
    obtain ⟨ds, as, recitals, actions, late, rest⟩ :=
      ih (follows.unclosed_eq.trans closed) (first.suffix.trans within)
    exact ⟨ds, as, recitals, actions, late, first.trans rest⟩

/-- A reading that comes to the end of a text has seen that nothing is left open there. -/
theorem ClausesRun.closed {d d' : Draft} {s s' : State} (run : ClausesRun d s d' s')
    (inView : s.cursor.InView) : s.cursor.unclosed = none := by
  induction run with
  | @ended _ s hs =>
    refine inView.resolve_right fun more => ?_
    rw [Cursor.remaining, tokens_of_ended hs] at more
    cases more
  | recital _ _ read moved _ ih =>
    have follows := (recital_ok read).2.follows.trans (uses_of_moved moved).follows
    rw [← follows.unclosed_eq]
    exact ih (Cursor.inView_of_moved (cursor_of_moved moved).1)
  | action _ _ read moved _ ih =>
    have follows := (action_ok read).2.follows.trans (uses_of_moved moved).follows
    rw [← follows.unclosed_eq]
    exact ih (Cursor.inView_of_moved (cursor_of_moved moved).1)
  | skip _ _ moved _ ih =>
    rw [← (uses_of_moved moved).follows.unclosed_eq]
    exact ih (Cursor.inView_of_moved (cursor_of_moved moved).1)

theorem cursor_of_start {source : String} {register : Register} {s : State}
    (h : start source register = .ok s) :
    s.cursor.InView ∧ s.cursor = ⟨(Legalese.tokens source.toList).list,
      (Legalese.tokens source.toList).unclosed⟩ := by
  unfold start Cursor.start at h
  split at h
  · next c view =>
    cases h
    exact ⟨Cursor.inView_of_view view, Cursor.tokens_of_view view⟩
  · cases h

end State

namespace Resolution

open Grammar

/-- The names of a resolution are met in its text from left to right.  Each occurrence has a
token of its own, except that the name at the end of the right operand of a conditional, with
"assume" right after it, may be met twice; in a text without such a place the occurrences are
a subsequence of the names among the tokens. -/
theorem meets_of_heldBy {r : Resolution} {source : String} (h : r.HeldBy source) :
    ∃ ts, tokenize source = .ok ts ∧ Meets (Shared ts) ts r.occurrences [] ∧
      ((∀ us, ¬Shared ts us) → r.occurrences.Sublist (namesOf ts)) := by
  obtain ⟨reading, read, rfl⟩ := heldBy_iff.1 h
  obtain ⟨s, s', hs, hr, -⟩ := Reading.ofString_ok read
  obtain ⟨d, s₁, run, he, -⟩ := State.resolution_ok hr
  obtain ⟨inView, cursor⟩ := State.cursor_of_start hs
  have closed := run.closed inView
  obtain ⟨ds, as, recitals, actions, -, meets⟩ := run.meets closed (List.suffix_refl _)
  have same : reading.resolution = ⟨ds, as⟩ := by rw [he, recitals, actions]; rfl
  rw [← same] at meets
  refine ⟨s.cursor.tokens, ?_, meets, meets.sublist⟩
  rw [cursor] at closed ⊢
  unfold tokenize
  dsimp only at closed ⊢
  rw [closed]

/-- A text whose last name is the right operand of a conditional and also the name that assumes a
value. -/
theorem ofString_shared :
    ofString ("title whereas (hereinafter A) one (1) resolved publish A " ++
        "resolved if one (1) equals A assume two (2)") =
      .ok ⟨[⟨"A", .integer 1⟩], [.publish (.name "A"),
        .conditional (.integer 1) (.name "A") .equals (.assume "A" (.integer 2))]⟩ := by
  cbv

/-- "A" stands at three tokens and occurs four times. -/
theorem meets_of_heldBy_shared :
    ∃ r : Resolution,
      r.HeldBy ("title whereas (hereinafter A) one (1) resolved publish A " ++
        "resolved if one (1) equals A assume two (2)") ∧
      ∃ ts, tokenize ("title whereas (hereinafter A) one (1) resolved publish A " ++
          "resolved if one (1) equals A assume two (2)") = .ok ts ∧
        Meets (Shared ts) ts ["A", "A", "A", "A"] [] := by
  obtain ⟨ts, tokens, meets, -⟩ := meets_of_heldBy (.inl ofString_shared)
  exact ⟨_, .inl ofString_shared, ts, tokens, meets⟩

/-- So the occurrences need not be a subsequence of the names among the tokens. -/
theorem occurrences_not_sublist :
    ∃ r ts, ofString ("title whereas (hereinafter A) one (1) resolved publish A " ++
        "resolved if one (1) equals A assume two (2)") = .ok r ∧
      tokenize ("title whereas (hereinafter A) one (1) resolved publish A " ++
        "resolved if one (1) equals A assume two (2)") = .ok ts ∧
      r.occurrences = ["A", "A", "A", "A"] ∧ namesOf ts = ["A", "A", "A"] ∧
      ¬r.occurrences.Sublist (namesOf ts) := by
  have tokens : ∃ ts, tokenize ("title whereas (hereinafter A) one (1) resolved publish A " ++
      "resolved if one (1) equals A assume two (2)") = .ok ts ∧
      namesOf ts = ["A", "A", "A"] := ⟨_, by cbv, by cbv⟩
  obtain ⟨ts, tokens, names⟩ := tokens
  refine ⟨_, ts, ofString_shared, tokens, rfl, names, fun h => ?_⟩
  have short := h.length_le
  rw [names] at short
  exact absurd short (by decide)

end Resolution
end Legalese
