import Legalese.Proofs.Recognized

/-!
# Expressions in layers

A phrase ends where the grammar says, whatever comes after it, as long as that cannot go on
with the phrase.  So filler may be put in wherever an operand is looked for: what was read
before that place is read again, and what comes after it is found behind the filler.

Main statement: on the tokens of a text, from any place on, the reader of expressions reads
the expressions of the grammar and nothing else; the two tiers between read its operations;
and filler before an operand changes neither what is read nor the error.
-/

namespace Legalese

open Grammar

namespace Grammar

/-! ## What comes after a phrase -/

/-- A token of this kind does not go on with a phrase before it. -/
def Phrase.Ends : Phrase → Option Kind → Prop
  | operation, k => ∀ op, k ≠ some (.exponent op)
  | expression, k => (∀ op, k ≠ some (.exponent op)) ∧ k ≠ some .less
  | differences _, k => (∀ op, k ≠ some (.exponent op)) ∧ k ≠ some .less

theorem noLess_of_reads {u : Option String} {p : Phrase} {e : Expr} {ts ts' : List Token}
    (h : Reads u p ts e ts') : p ≠ .operation → kindAt ts'.tail ≠ some .less := by
  induction h with
  | filler _ _ _ _ => exact absurd rfl
  | leaf _ _ => exact absurd rfl
  | unary _ _ _ => exact absurd rfl
  | binary _ _ _ _ _ => exact absurd rfl
  | expression _ _ _ ih => exact fun _ => ih nofun
  | done h => exact fun _ => h
  | less _ _ _ _ ih => exact fun _ => ih nofun

/-- The reader stops where the phrase ends. -/
theorem ends_of_reads {u : Option String} {p : Phrase} {e : Expr} {ts ts' : List Token}
    (h : Reads u p ts e ts') (whole : ∀ l, p ≠ .differences l) : p.Ends (kindAt ts'.tail) := by
  have stop : NoPower ts' := noPower_of_reads h fun l hl => absurd hl (whole l)
  cases p with
  | operation => exact stop
  | expression => exact ⟨stop, noLess_of_reads h nofun⟩
  | differences l => exact absurd rfl (whole l)

/-- A relation between the tokens at one place and those at a later one that holds with other
tokens after the later place as well, if these begin with a kind that `ends` allows. -/
def Local (ends : Option Kind → Prop) (R : List Token → List Token → Prop)
    (ts ts' : List Token) : Prop :=
  ∃ read n rest, ts = read ++ n :: rest ∧ ts' = n :: rest ∧
    ∀ rest', ends (kindAt rest') → R (read ++ n :: rest') (n :: rest')

variable {ends ends₁ : Option Kind → Prop} {R R₁ R₂ : List Token → List Token → Prop}

/-- What comes first in a list does not depend on how the list goes on after a token of it. -/
theorem kindAt_append (read : List Token) (n : Token) (rest rest' : List Token) :
    kindAt (read ++ n :: rest) = kindAt (read ++ n :: rest') := by
  cases read <;> rfl

theorem Local.here {ts : List Token} (ne : ts ≠ [])
    (all : ∀ n rest', ends (kindAt rest') → R (n :: rest') (n :: rest')) : Local ends R ts ts := by
  obtain ⟨n, rest, rfl⟩ := List.exists_cons_of_ne_nil ne
  exact ⟨[], n, rest, rfl, rfl, all n⟩

theorem Local.imp {ts ts' : List Token} (h : Local ends R₁ ts ts')
    (step : ∀ us us', kindAt us = kindAt ts → R₁ us us' → R us us') : Local ends R ts ts' := by
  obtain ⟨read, n, rest, rfl, rfl, all⟩ := h
  exact ⟨read, n, rest, rfl, rfl, fun rest' he =>
    step _ _ (kindAt_append read n rest' rest) (all rest' he)⟩

theorem Local.cons {ts ts' : List Token} (t : Token) (h : Local ends R₁ ts ts')
    (step : ∀ us us', kindAt us = kindAt ts → R₁ us us' → R (t :: us) us') :
    Local ends R (t :: ts) ts' := by
  obtain ⟨read, n, rest, rfl, rfl, all⟩ := h
  exact ⟨t :: read, n, rest, rfl, rfl, fun rest' he =>
    step _ _ (kindAt_append read n rest' rest) (all rest' he)⟩

/-- One reading after another that begins right after it. -/
theorem Local.after {ts ts₁ ts' : List Token} (first : Local ends₁ R₁ ts ts₁)
    (second : Local ends R₂ ts₁.tail ts') (stop : ends₁ (kindAt ts₁.tail))
    (join : ∀ us us₁ us', R₁ us us₁ → R₂ us₁.tail us' → R us us') : Local ends R ts ts' := by
  obtain ⟨read₁, n₁, rest₁, rfl, rfl, all₁⟩ := first
  obtain ⟨read₂, n, rest, hrest, rfl, all₂⟩ := second
  obtain rfl : rest₁ = read₂ ++ n :: rest := hrest
  refine ⟨read₁ ++ n₁ :: read₂, n, rest, by simp, rfl, fun rest' he => ?_⟩
  rw [List.append_assoc, List.cons_append]
  refine join _ (n₁ :: (read₂ ++ n :: rest')) _ (all₁ _ ?_) (all₂ rest' he)
  rw [kindAt_append read₂ n rest' rest]
  exact stop

/-- One reading after another that begins on its last token. -/
theorem Local.onward {ts ts₁ ts' : List Token} (first : Local ends₁ R₁ ts ts₁)
    (second : Local ends R₂ ts₁ ts') (stop : ends₁ (kindAt ts₁.tail))
    (weaker : ∀ k, ends k → ends₁ k)
    (join : ∀ us us₁ us', R₁ us us₁ → R₂ us₁ us' → R us us') : Local ends R ts ts' := by
  obtain ⟨read₁, n₁, rest₁, rfl, rfl, all₁⟩ := first
  obtain ⟨read₂, n, rest, hrest, rfl, all₂⟩ := second
  cases read₂ with
  | nil =>
    obtain ⟨rfl, rfl⟩ := List.cons.inj hrest
    exact ⟨read₁, n₁, rest₁, rfl, rfl, fun rest' he =>
      join _ _ _ (all₁ rest' (weaker _ he)) (all₂ rest' he)⟩
  | cons m read₂ =>
    obtain ⟨rfl, rfl⟩ := List.cons.inj hrest
    refine ⟨read₁ ++ n₁ :: read₂, n, rest, by simp, rfl, fun rest' he => ?_⟩
    rw [List.append_assoc, List.cons_append]
    refine join _ _ _ (all₁ _ ?_) (all₂ rest' he)
    rw [kindAt_append read₂ n rest' rest]
    exact stop

theorem Local.suffix {ts ts' : List Token} (h : Local ends R ts ts') : ts' <:+ ts := by
  obtain ⟨read, n, rest, rfl, rfl, -⟩ := h
  exact List.suffix_append read _

theorem Local.ne_nil {ts ts' : List Token} (h : Local ends R ts ts') : ts' ≠ [] := by
  obtain ⟨_, n, rest, -, rfl, -⟩ := h
  exact List.cons_ne_nil n rest

/-! ## Phrases whatever comes after them -/

theorem IsInteger.locally {ts ts' : List Token} {v : Int} (h : IsInteger none ts v ts')
    (lexed : ∀ t ∈ ts, t.Lexed) :
    Local (fun _ => True) (fun us us' => IsInteger none us v us') ts ts' := by
  let s : State := ⟨⟨ts, none⟩, .empty, [], []⟩
  have read : State.yield s.integerLiteral = .ok (.integer v, s.moveTo ⟨ts', none⟩) :=
    State.integerLiteral_of_isInteger h s
  rcases State.integerLiteral_cases (s := s) rfl lexed with
    ⟨c, n, us, rest, hc, hn, alike, place⟩ | ⟨f, failed, -⟩
  · -- the words and the numeral that were found are read in the same way before other tokens
    have again (rest' : List Token) :=
      State.integerLiteral_of_alike (s := s.moveTo ⟨us ++ (Integer.numeralTokens n ++ rest'), none⟩)
        hc hn alike rfl
    have found := again rest
    rw [← place] at found
    have found := read.symm.trans found
    by_cases same : c = n
    · rw [if_pos same] at found
      obtain ⟨rfl, rfl⟩ : v = c ∧ ts' = ⟨.closeParen, ")"⟩ :: rest := by
        cases found
        exact ⟨rfl, rfl⟩
      refine ⟨us ++ [⟨.openParen, "("⟩, ⟨.numeral, Numeral.write n⟩], ⟨.closeParen, ")"⟩, rest,
        ?_, rfl, fun rest' _ => ?_⟩
      · rw [List.append_assoc]
        exact congrArg Cursor.tokens place
      · have read' := again rest'
        rw [if_pos same] at read'
        obtain ⟨-, w, hw, integer⟩ := State.integerLiteral_ok read'
        obtain rfl : v = w := Expr.integer.inj hw
        rw [List.append_assoc]
        exact integer
    · rw [if_neg same] at found
      cases found
  · cases read.symm.trans failed

theorem IsLeaf.locally {ts ts' : List Token} {e : Expr} (h : IsLeaf none ts e ts')
    (lexed : ∀ t ∈ ts, t.Lexed) :
    Local (fun _ => True) (fun us us' => IsLeaf none us e us') ts ts' := by
  cases h with
  | integer kind h =>
    refine (h.locally lexed).imp fun us us' same integer => ?_
    obtain ⟨t, r, rfl, ht⟩ := kindAt_eq_some (same.trans (congrArg some kind))
    exact .integer ht integer
  | @text t ts kind => exact ⟨[], t, ts, rfl, rfl, fun _ _ => .text kind⟩
  | @name t ts kind => exact ⟨[], t, ts, rfl, rfl, fun _ _ => .name kind⟩

theorem Powers.locally {ts ts' : List Token} {e e' : Expr} (h : Powers e ts e' ts') (ne : ts ≠ []) :
    Local (Phrase.Ends .operation) (fun us us' => Powers e us e' us') ts ts' := by
  induction h with
  | done _ => exact .here ne fun n rest' he => .done he
  | @more _ _ t x _ _ _ kind _ ih =>
    refine (ih (List.cons_ne_nil _ _)).cons t fun us us' same powers => ?_
    obtain ⟨x, r, rfl, hx⟩ := kindAt_eq_some (same.trans (congrArg some kind))
    exact .more hx powers

/-- By induction on the grammar, one case for each of its rules. -/
theorem Reads.locally {p : Phrase} {ts ts' : List Token} {e : Expr} (h : Reads none p ts e ts')
    (lexed : ∀ t ∈ ts, t.Lexed) : (∀ l, p = .differences l → ts ≠ []) →
    Local p.Ends (fun us us' => Reads none p us e us') ts ts' := by
  induction h with
  | @filler t _ _ _ idle stays _ ih =>
    intro _
    exact (ih (fun x hx => lexed x (List.mem_cons_of_mem t hx)) nofun).cons t
      fun _ _ _ h => .filler idle stays h
  | leaf first powers =>
    intro _
    have leaf := first.locally lexed
    exact leaf.onward (powers.locally leaf.ne_nil) trivial (fun _ _ => trivial)
      fun _ _ _ h h' => .leaf h h'
  | @unary t _ _ _ _ kind _ ih =>
    intro _
    exact (ih (fun x hx => lexed x (List.mem_cons_of_mem t hx)) nofun).cons t
      fun _ _ _ h => .unary kind h
  | @binary t ts ts₁ ts' op a b kind first second ih₁ ih₂ =>
    intro _
    have lexed₁ : ∀ x ∈ ts, x.Lexed := fun x hx => lexed x (List.mem_cons_of_mem t hx)
    have local₁ := ih₁ lexed₁ nofun
    have local₂ := ih₂ (fun x hx => lexed₁ x (local₁.suffix.subset (List.mem_of_mem_tail hx))) nofun
    exact (local₁.after local₂ (ends_of_reads first nofun)
      (R := fun us us' => Reads none .operation (t :: us) (.binary op a b) us')
      fun _ _ _ h h' => .binary kind h h').cons t fun _ _ _ h => h
  | expression first _ ih₁ ih₂ =>
    intro _
    have local₁ := ih₁ lexed nofun
    have local₂ := ih₂ (fun x hx => lexed x (local₁.suffix.subset hx)) fun _ _ => local₁.ne_nil
    exact local₁.onward local₂ (noPower_of_operation first) (fun _ he => he.1)
      fun _ _ _ h h' => .expression h h'
  | done _ =>
    intro ne
    exact .here (ne _ rfl) fun _ _ he => .done he.2
  | @less t x ts ts₁ ts' l right e' kind first _ ih₁ ih₂ =>
    intro _
    have lexed₁ : ∀ y ∈ ts, y.Lexed := fun y hy =>
      lexed y (List.mem_cons_of_mem t (List.mem_cons_of_mem x hy))
    have local₁ := ih₁ lexed₁ nofun
    have local₂ := ih₂ (fun y hy => lexed₁ y (local₁.suffix.subset hy)) fun _ _ => local₁.ne_nil
    have both : Local (Phrase.Ends (.differences l))
        (fun us us' => Reads none (.differences l) (t :: x :: us) e' us') ts ts' :=
      local₁.onward local₂ (noPower_of_operation first) (fun _ he => he.1)
        fun _ _ _ h h' => .less kind h h'
    exact (both.cons x (R := fun us us' => Reads none (.differences l) (t :: us) e' us')
      fun _ _ _ h => h).cons t fun _ _ _ h => h

/-! ## Filler before an operand -/

/-- On the way through a phrase, after some tokens, an operand is looked for. -/
inductive Seeks : Phrase → List Token → List Token → Prop
  | here {rest : List Token} : Seeks .operation [] rest
  | filler {t : Token} {pre rest : List Token} (idle : t.kind.startsExpression = false)
      (stays : t.kind.opensClause = false) (h : Seeks .operation pre rest) :
      Seeks .operation (t :: pre) rest
  | unary {t : Token} {pre rest : List Token} {op : UnaryOperator} (kind : t.kind = .unary op)
      (h : Seeks .operation pre rest) : Seeks .operation (t :: pre) rest
  | first {t : Token} {pre rest : List Token} {op : BinaryOperator} (kind : t.kind = .binary op)
      (h : Seeks .expression pre rest) : Seeks .operation (t :: pre) rest
  | second {t n : Token} {read pre rest : List Token} {op : BinaryOperator} {a : Expr}
      (kind : t.kind = .binary op)
      (first : Reads none .expression (read ++ n :: (pre ++ rest)) a (n :: (pre ++ rest)))
      (h : Seeks .operation pre rest) : Seeks .operation (t :: (read ++ n :: pre)) rest
  | expression {pre rest : List Token} (h : Seeks .operation pre rest) :
      Seeks .expression pre rest
  | rest {n : Token} {read pre rest : List Token} {l : Expr}
      (first : Reads none .operation (read ++ n :: (pre ++ rest)) l (n :: (pre ++ rest)))
      (h : Seeks (.differences l) (n :: pre) rest) : Seeks .expression (read ++ n :: pre) rest
  | less {t x : Token} {pre rest : List Token} {l : Expr} (kind : x.kind = .less)
      (h : Seeks .operation pre rest) : Seeks (.differences l) (t :: x :: pre) rest
  | further {t x n : Token} {read pre rest : List Token} {l r : Expr} (kind : x.kind = .less)
      (right : Reads none .operation (read ++ n :: (pre ++ rest)) r (n :: (pre ++ rest)))
      (h : Seeks (.differences (.less l r)) (n :: pre) rest) :
      Seeks (.differences l) (t :: x :: (read ++ n :: pre)) rest

/-- Tokens that are passed over before an operand, and after one do not go on with it. -/
def Unheeded (fs : List Token) : Prop :=
  ∀ f ∈ fs, f.kind.startsExpression = false ∧ f.kind.opensClause = false ∧
    f.kind ≠ .less ∧ ∀ op, f.kind ≠ .exponent op

/-- What the readers of a phrase do at two places is the same. -/
def Phrase.ReadAlike (ts us : List Token) : Phrase → Prop
  | operation => ∀ (s : State) (floor : Tier),
      State.yield ((s.moveTo ⟨ts, none⟩).expression floor) =
        State.yield ((s.moveTo ⟨us, none⟩).expression floor)
  | expression => ∀ s : State,
      State.yield ((s.moveTo ⟨ts, none⟩).expression .lowest) =
        State.yield ((s.moveTo ⟨us, none⟩).expression .lowest)
  | differences left => ∀ s : State,
      State.yield ((s.moveTo ⟨ts, none⟩).suffixes .lowest left) =
        State.yield ((s.moveTo ⟨us, none⟩).suffixes .lowest left)

theorem Unheeded.insert {fs : List Token} (h : Unheeded fs) {p : Phrase} {pre rest : List Token}
    (ends : p.Ends (kindAt (pre ++ rest))) : p.Ends (kindAt (pre ++ (fs ++ rest))) := by
  cases pre with
  | cons t pre => exact ends
  | nil =>
    cases fs with
    | nil => exact ends
    | cons f fs =>
      obtain ⟨-, -, less, exponent⟩ := h f List.mem_cons_self
      have noPower : ∀ op, kindAt (f :: (fs ++ rest)) ≠ some (.exponent op) :=
        fun op he => exponent op (Option.some.inj he)
      have noLess : kindAt (f :: (fs ++ rest)) ≠ some .less := fun he => less (Option.some.inj he)
      cases p with
      | operation => exact noPower
      | expression => exact ⟨noPower, noLess⟩
      | differences l => exact ⟨noPower, noLess⟩

/-- A phrase that was read before some place is read again when filler is put in there. -/
theorem Reads.insert {p : Phrase} {n : Token} {read pre rest fs : List Token} {e : Expr}
    (h : Reads none p (read ++ n :: (pre ++ rest)) e (n :: (pre ++ rest)))
    (whole : ∀ l, p ≠ .differences l) (fill : Unheeded fs)
    (lexed : ∀ t ∈ read ++ n :: (pre ++ rest), t.Lexed) :
    Reads none p (read ++ n :: (pre ++ (fs ++ rest))) e (n :: (pre ++ (fs ++ rest))) := by
  obtain ⟨read', n', rest', hts, hts', all⟩ := h.locally lexed fun l hl => absurd hl (whole l)
  obtain ⟨rfl, rfl⟩ := List.cons.inj hts'
  obtain rfl := List.append_cancel_right hts
  exact all _ (fill.insert (ends_of_reads h whole))

end Grammar

namespace State

theorem expression_of_unheeded {fs : List Token} (fill : Unheeded fs) (ts : List Token) (s : State)
    (floor : Tier) :
    yield ((s.moveTo ⟨ts, none⟩).expression floor) =
      yield ((s.moveTo ⟨fs ++ ts, none⟩).expression floor) := by
  induction fs with
  | nil => rfl
  | cons f fs ih =>
    obtain ⟨idle, stays, -⟩ := fill f List.mem_cons_self
    rw [ih fun x hx => fill x (List.mem_cons_of_mem f hx)]
    exact (expression_of_idle (s := s.moveTo ⟨f :: fs ++ ts, none⟩) rfl idle stays).symm

/-- By induction on the way to the operand.  What was read on it is read again. -/
theorem readAlike_of_seeks {p : Phrase} {pre rest fs : List Token} (h : Seeks p pre rest)
    (fill : Unheeded fs) (lexed : ∀ t ∈ pre ++ rest, t.Lexed) :
    p.ReadAlike (pre ++ rest) (pre ++ (fs ++ rest)) := by
  induction h with
  | here => exact expression_of_unheeded fill _
  | @filler t pre rest idle stays _ ih =>
    intro s floor
    have alone (us : List Token) :
        yield ((s.moveTo ⟨t :: (pre ++ us), none⟩).expression floor) =
          yield ((s.moveTo ⟨pre ++ us, none⟩).expression floor) :=
      expression_of_idle rfl idle stays
    have same := ih (fun x hx => lexed x (List.mem_cons_of_mem t hx)) s floor
    exact (alone rest).trans (same.trans (alone (fs ++ rest)).symm)
  | @unary t pre rest _ kind _ ih =>
    intro s floor
    have same := ih (fun x hx => lexed x (List.mem_cons_of_mem t hx)) s .operation
    rw [List.cons_append, List.cons_append,
      expression_of_unary (s := s.moveTo ⟨t :: (pre ++ rest), none⟩) kind rfl,
      expression_of_unary (s := s.moveTo ⟨t :: (pre ++ (fs ++ rest)), none⟩) kind rfl,
      moveTo_moveTo, moveTo_moveTo, same]
  | @first t pre rest _ kind _ ih =>
    intro s floor
    have same := ih (fun x hx => lexed x (List.mem_cons_of_mem t hx)) s
    rw [List.cons_append, List.cons_append,
      expression_of_binary (s := s.moveTo ⟨t :: (pre ++ rest), none⟩) kind rfl,
      expression_of_binary (s := s.moveTo ⟨t :: (pre ++ (fs ++ rest)), none⟩) kind rfl,
      moveTo_moveTo, moveTo_moveTo, same]
  | @second t n read pre rest op a kind first _ ih =>
    intro s floor
    have place (us : List Token) :
        t :: (read ++ n :: pre) ++ us = t :: (read ++ n :: (pre ++ us)) := by simp
    rw [place] at lexed
    have before := readOff_of_reads first s
    have again := readOff_of_reads
      (first.insert nofun fill fun x hx => lexed x (List.mem_cons_of_mem t hx)) s
    have inner : ∀ x ∈ pre ++ rest, x.Lexed := fun x hx =>
      lexed x (List.mem_cons_of_mem t (List.mem_append_right read (List.mem_cons_of_mem n hx)))
    have same := ih inner (s.useAll a.names) .operation
    rw [place, place,
      expression_of_binary (s := s.moveTo ⟨t :: (read ++ n :: (pre ++ rest)), none⟩) kind rfl,
      expression_of_binary (s := s.moveTo ⟨t :: (read ++ n :: (pre ++ (fs ++ rest))), none⟩) kind
        rfl, moveTo_moveTo, moveTo_moveTo, before, again, ok_bind, ok_bind]
    dsimp only
    rw [moved_closed rfl, moved_closed rfl, ok_bind, ok_bind]
    show yield (((s.useAll a.names).moveTo ⟨pre ++ rest, none⟩).expression .operation) >>= _ = _
    rw [same]
    rfl
  | expression _ ih => exact fun s => ih lexed s .lowest
  | @rest n read pre rest l first _ ih =>
    intro s
    have place (us : List Token) : read ++ n :: pre ++ us = read ++ n :: (pre ++ us) := by simp
    rw [place] at lexed
    have before := readOff_of_reads first s .lowest (by decide)
    have again := readOff_of_reads (first.insert nofun fill lexed) s .lowest (by decide)
    rw [place, place, before, again]
    exact ih (fun x hx => lexed x (List.mem_append_right read hx)) (s.useAll l.names)
  | @less t x _ _ _ kind _ ih =>
    intro s
    have same := ih (fun y hy => lexed y (List.mem_cons_of_mem t (List.mem_cons_of_mem x hy))) s
      .difference
    rw [List.cons_append, List.cons_append, List.cons_append, List.cons_append,
      suffixes_of_less kind, suffixes_of_less kind, same]
  | @further t x n read pre rest l r kind right _ ih =>
    intro s
    have place (us : List Token) :
        t :: x :: (read ++ n :: pre) ++ us = t :: x :: (read ++ n :: (pre ++ us)) := by simp
    rw [place] at lexed
    have lexed₁ : ∀ y ∈ read ++ n :: (pre ++ rest), y.Lexed := fun y hy =>
      lexed y (List.mem_cons_of_mem t (List.mem_cons_of_mem x hy))
    have right' := right.insert nofun fill lexed₁
    have before := expression_of_readOff (.inl rfl) (readOff_of_reads right)
      (noPower_of_operation right) s
    have again := expression_of_readOff (.inl rfl) (readOff_of_reads right')
      (noPower_of_operation right') s
    rw [place, place, suffixes_of_less kind, suffixes_of_less kind, before, again, ok_bind, ok_bind]
    exact ih (fun y hy => lexed₁ y (List.mem_append_right read hy)) (s.useAll r.names)

/-- Among the tokens of a text, from any place on, the reader of expressions reads an expression
of the grammar, or it fails where there is none.  At the two tiers between the loosest and the
tightest it reads an operation, and does the same at both.  Filler that is put in where an
operand is looked for makes no difference to what it does. -/
theorem expression_layered {source : String} {ts : List Token} (h : tokenize source = .ok ts)
    {i : Nat} {s : State} (place : s.cursor = ⟨ts.drop i, none⟩) :
    (∀ e s', yield (s.expression .lowest) = .ok (e, s') ↔ s.Recognizes .expression e s') ∧
      ((∀ e s', ¬s.Recognizes .expression e s') →
        ∃ f, yield (s.expression .lowest) = .error f) ∧
      (∀ e s', yield (s.expression .operation) = .ok (e, s') ↔ s.Recognizes .operation e s') ∧
      yield (s.expression .difference) = yield (s.expression .operation) ∧
      ∀ pre rest fs, ts.drop i = pre ++ rest → Unheeded fs →
        (Seeks .expression pre rest →
          yield (s.expression .lowest) =
            yield ((s.moveTo ⟨pre ++ (fs ++ rest), none⟩).expression .lowest)) ∧
        (Seeks .operation pre rest → ∀ floor,
          yield (s.expression floor) =
            yield ((s.moveTo ⟨pre ++ (fs ++ rest), none⟩).expression floor)) := by
  have closed : s.cursor.unclosed = none := by rw [place]
  have whole (e : Expr) (s' : State) :
      yield (s.expression .lowest) = .ok (e, s') ↔ s.Recognizes .expression e s' :=
    expression_eq_ok_iff closed
  refine ⟨whole, fun none => ?_, fun e s' => operation_eq_ok_iff (.inr rfl) closed,
    expression_difference s, fun pre rest fs cut fill => ?_⟩
  · cases read : yield (s.expression .lowest) with
    | error f => exact ⟨f, rfl⟩
    | ok a => exact absurd ((whole a.1 a.2).1 read) (none a.1 a.2)
  · have lexed : ∀ t ∈ pre ++ rest, t.Lexed := fun t ht =>
      Cardinal.lexed_of_tokenize h t (List.mem_of_mem_drop (cut ▸ ht))
    have here : s.moveTo ⟨pre ++ rest, none⟩ = s := by
      rw [← cut, ← place]
      rfl
    refine ⟨fun seeks => ?_, fun seeks floor => ?_⟩
    · have same := readAlike_of_seeks seeks fill lexed s
      rwa [here] at same
    · have same := readAlike_of_seeks seeks fill lexed s floor
      rwa [here] at same

/-- A comma before the second operand of a sum, whose first operand is a difference. -/
theorem expression_layered_comma :
    let pre : List Token := [⟨.binary .sum, "sum"⟩, ⟨.name, "A"⟩, ⟨.exponent .squared, "squared"⟩,
      ⟨.less, "less"⟩, ⟨.name, "B"⟩]
    let rest : List Token := [⟨.unary .twice, "twice"⟩, ⟨.name, "C"⟩]
    let s : State := ⟨⟨pre ++ rest, none⟩, .empty, [], []⟩
    tokenize "sum A squared less B twice C" = .ok (pre ++ rest) ∧
      ∃ s', yield ((s.moveTo ⟨pre ++ ([⟨.filler, ","⟩] ++ rest), none⟩).expression .lowest) =
          .ok (.binary .sum (.less (.power .squared (.name "A")) (.name "B"))
            (.unary .twice (.name "C")), s') ∧
        s'.cursor = ⟨[⟨.name, "C"⟩], none⟩ := by
  intro pre rest s
  have tokens : tokenize "sum A squared less B twice C" = .ok (pre ++ rest) := by cbv
  have read : ∃ s', yield (s.expression .lowest) =
      .ok (.binary .sum (.less (.power .squared (.name "A")) (.name "B"))
        (.unary .twice (.name "C")), s') ∧ s'.cursor = ⟨[⟨.name, "C"⟩], none⟩ :=
    ⟨_, by cbv, rfl⟩
  have comma : Unheeded [⟨.filler, ","⟩] := by
    intro f hf
    rw [List.mem_singleton.1 hf]
    exact ⟨rfl, rfl, Kind.noConfusion, fun _ => Kind.noConfusion⟩
  have first : Reads none .expression
      ([⟨.name, "A"⟩, ⟨.exponent .squared, "squared"⟩, ⟨.less, "less"⟩] ++
        ⟨.name, "B"⟩ :: ([] ++ rest))
      (.less (.power .squared (.name "A")) (.name "B")) (⟨.name, "B"⟩ :: ([] ++ rest)) :=
    .expression (.leaf (.name rfl) (.more rfl (.done fun _ h => by cases h)))
      (.less rfl (.leaf (.name rfl) (.done fun _ h => by cases h)) (.done fun h => by cases h))
  have seeks : Seeks .expression pre rest := .expression (.second rfl first .here)
  obtain ⟨-, -, -, -, padded⟩ := expression_layered (s := s) (i := 0) tokens rfl
  have same := (padded pre rest _ rfl comma).1 seeks
  obtain ⟨s', read, place⟩ := read
  exact ⟨tokens, s', same.symm.trans read, place⟩

end State

end Legalese
