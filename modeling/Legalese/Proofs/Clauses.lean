import Legalese.Proofs.Discipline

/-!
# Each clause is read by itself

The tokens of a text are cut at the heads of its clauses.  What a clause gives does not
depend on the clauses around it: it can be read with nothing after it and no names known.
Only where a clause may stand depends on the others.

Main statement: reading a resolution comes to the same as going over the clauses from left
to right, each read alone, up to the first one with a fault.
-/

namespace Legalese

/-! ## Clauses -/

/-- A keyword that opens a clause, and the tokens up to the next one. -/
structure Clause where
  head : Token
  body : List Token

/-- The tokens before the first clause, and the clauses. -/
def cut : List Token → List Token × List Clause
  | [] => ([], [])
  | t :: ts =>
    if t.kind.opensClause then ([], ⟨t, (cut ts).1⟩ :: (cut ts).2)
    else (t :: (cut ts).1, (cut ts).2)

namespace Clause

def tokens (c : Clause) : List Token := c.head :: c.body

structure WellFormed (c : Clause) : Prop where
  opens : c.head.kind.opensClause = true
  stays : ∀ t ∈ c.body, t.kind.opensClause = false

def isRecital (c : Clause) : Bool := c.head.kind == .whereas

/-- The state at the head of a clause that is a whole text. -/
def alone (c : Clause) : State := ⟨⟨c.tokens, none⟩, .empty, [], []⟩

/-- The declaration of a clause that is read alone. -/
def recital (c : Clause) : Except Failure (Option Declaration) := c.alone.recital.map (·.value)

/-- The action of a clause that is read alone. -/
def action (c : Clause) : Except Failure (Option Statement) := c.alone.action.map (·.value)

/-- What a computation fails with. -/
def fault? {α : Type} : Except Failure α → Option Error
  | .ok _ => none
  | .error f => some f.error

/-- What is wrong with a clause between others: it may not stand there, or it cannot be read
at all. -/
def offence? (before after : List Clause) (c : Clause) : Option Error :=
  if c.isRecital then
    if before.all isRecital then fault? c.recital else some .lateWhereas
  else if before.any isRecital then fault? c.action
  else some (if after.any isRecital then .earlyResolved else .noWhereas)

/-- The offence of the first clause that has one. -/
def firstOffence (before : List Clause) : List Clause → Option Error
  | [] => none
  | c :: after => (c.offence? before after).or (firstOffence (before ++ [c]) after)

/-- The declarations of the recitals, in order. -/
def recitals (cs : List Clause) : List Declaration :=
  cs.flatMap fun c => if c.isRecital then (c.recital.toOption.join).toList else []

/-- The actions of the other clauses, in order. -/
def actions (cs : List Clause) : List Statement :=
  cs.flatMap fun c => if c.isRecital then [] else (c.action.toOption.join).toList

/-- The resolution of a list of tokens, clause by clause. -/
def resolution (ts : List Token) : Except Error Resolution :=
  let cs := (cut ts).2
  if Grammar.kindAt ts = some .filler ∨ Grammar.kindAt ts = some .name then
    match firstOffence [] cs with
    | some e => .error e
    | none => if cs.all isRecital then .error .noResolved else .ok ⟨recitals cs, actions cs⟩
  else .error .noTitle

end Clause

/-! ## Cutting -/

theorem cut_of_opens {t : Token} (h : t.kind.opensClause = true) (ts : List Token) :
    cut (t :: ts) = ([], ⟨t, (cut ts).1⟩ :: (cut ts).2) := by
  rw [cut, if_pos h]

theorem cut_of_stays {t : Token} (h : ¬t.kind.opensClause = true) (ts : List Token) :
    cut (t :: ts) = (t :: (cut ts).1, (cut ts).2) := by
  rw [cut, if_neg h]

/-- Nothing is lost when a text is cut. -/
theorem cut_tokens (ts : List Token) : (cut ts).1 ++ (cut ts).2.flatMap Clause.tokens = ts := by
  induction ts with
  | nil => rfl
  | cons t ts ih =>
    by_cases h : t.kind.opensClause = true
    · rw [cut_of_opens h]
      exact congrArg (t :: ·) ih
    · rw [cut_of_stays h]
      exact congrArg (t :: ·) ih

theorem cut_segment (ts : List Token) : ∀ t ∈ (cut ts).1, t.kind.opensClause = false := by
  induction ts with
  | nil => exact nofun
  | cons t ts ih =>
    by_cases h : t.kind.opensClause = true
    · rw [cut_of_opens h]
      exact nofun
    · rw [cut_of_stays h]
      intro x hx
      rcases List.mem_cons.1 hx with rfl | hx
      · exact Bool.eq_false_iff.2 h
      · exact ih x hx

theorem cut_wellFormed (ts : List Token) : ∀ c ∈ (cut ts).2, c.WellFormed := by
  induction ts with
  | nil => exact nofun
  | cons t ts ih =>
    by_cases h : t.kind.opensClause = true
    · rw [cut_of_opens h]
      intro c hc
      rcases List.mem_cons.1 hc with rfl | hc
      · exact ⟨h, cut_segment ts⟩
      · exact ih c hc
    · rw [cut_of_stays h]
      exact ih

/-! ## A clause among others -/

/-- A place in a clause that stands before `tail`, and the same place in the clause alone. -/
def Within (tail : List Token) (c c' : Cursor) : Prop :=
  ∃ ts, c = ⟨ts ++ tail, none⟩ ∧ c' = ⟨ts, none⟩ ∧ ∀ t ∈ ts.tail, t.kind.opensClause = false

/-- No reader can tell what comes after a clause. -/
theorem simulation_within {tail : List Token} (ends : EndsClause tail.head?) :
    Simulation (Within tail) where
  current h := by
    obtain ⟨ts, rfl, rfl, -⟩ := h
    cases ts with
    | nil => exact .ended ends nofun
    | cons t ts => exact .refl _
  next h ne := by
    obtain ⟨ts, rfl, rfl, stays⟩ := h
    match ts with
    | [] => exact absurd rfl ne
    | [_] => exact .ended ends nofun
    | _ :: x :: ts => exact .token (.refl x) (stays x List.mem_cons_self)
  moved h ne := by
    obtain ⟨ts, rfl, rfl, stays⟩ := h
    rw [Cursor.moved_eq, Cursor.moved_eq]
    cases ts with
    | nil => exact absurd rfl ne
    | cons t ts => exact .ok ⟨ts, rfl, rfl, fun x hx => stays x (List.mem_of_mem_tail hx)⟩

namespace State

open Clause

theorem kind?_cons {s : State} {t : Token} {ts : List Token} (h : s.cursor = ⟨t :: ts, none⟩) :
    s.kind? = some t.kind := by
  rw [kind?_eq, h]
  rfl

theorem nextKind?_cons {s : State} {t x : Token} {ts : List Token}
    (h : s.cursor = ⟨t :: x :: ts, none⟩) : s.nextKind? = some x.kind := by
  rw [nextKind?_eq, h]
  rfl

theorem moved_closed {s : State} {ts : List Token} (h : s.cursor = ⟨ts, none⟩) :
    s.moved = .ok (s.moveTo ⟨ts.tail, none⟩) := by
  rw [moved_eq, Cursor.moved_eq, h]
  rfl

/-- The words between clauses do not matter. -/
theorem clauses_skip {segment tail : List Token} (stays : ∀ t ∈ segment, t.kind.opensClause = false)
    (d : Draft) {s : State} (h : s.cursor = ⟨segment ++ tail, none⟩) :
    yield (s.clauses d) = yield ((s.moveTo ⟨tail, none⟩).clauses d) := by
  induction segment generalizing s with
  | nil =>
    obtain ⟨c, register, errors, log⟩ := s
    cases h
    rfl
  | cons t segment ih =>
    have ht := stays t List.mem_cons_self
    have hk : s.kind? = some t.kind := kind?_cons h
    have no (k : Kind) (hk : k.opensClause = true) : t.kind ≠ k := by
      rintro rfl
      rw [ht] at hk
      cases hk
    rw [yield_clauses, hk]
    dsimp only
    rw [if_neg (no .whereas rfl), if_neg (no .resolved rfl), moved_closed h]
    exact ih (fun x hx => stays x (List.mem_cons_of_mem t hx)) rfl

/-- Actions before any recital: it is looked for in the rest of the text. -/
theorem earlyAction_error {s : State} {ts : List Token} (h : s.cursor = ⟨ts, none⟩) :
    s.earlyAction.error =
      if ts.any (·.kind == .whereas) then .earlyResolved else .noWhereas := by
  induction ts generalizing s with
  | nil =>
    rw [earlyAction_eq, kind?_eq, h]
    rfl
  | cons t ts ih =>
    have hk : s.kind? = some t.kind := kind?_cons h
    rw [earlyAction_eq, hk]
    dsimp only
    by_cases ht : t.kind = .whereas
    · rw [if_pos ht]
      simp [ht]
    · rw [if_neg ht, moved_closed h]
      dsimp only
      rw [ih rfl]
      simp [ht]

/-! ## The pass over the clauses -/

end State

namespace Clause

/-- The phase of a reading after some clauses. -/
def phase (cs : List Clause) : Phase :=
  if cs.all isRecital then if cs.any isRecital then .recitals else .title else .actions

/-- The draft after some clauses. -/
def draft (cs : List Clause) : Draft := ⟨phase cs, recitals cs, actions cs⟩

theorem kind_of_isRecital {c : Clause} (h : c.isRecital = true) : c.head.kind = .whereas :=
  beq_iff_eq.1 h

theorem WellFormed.kind_of_not_isRecital {c : Clause} (wf : c.WellFormed)
    (h : ¬c.isRecital = true) : c.head.kind = .resolved := by
  have opens := wf.opens
  have other : c.head.kind ≠ .whereas := fun e => h (beq_iff_eq.2 e)
  cases hk : c.head.kind with
  | whereas => exact absurd hk other
  | resolved => rfl
  | _ => rw [hk] at opens; cases opens

/-- Only the head of a recital is the keyword of a recital. -/
theorem any_whereas {cs : List Clause} (wf : ∀ c ∈ cs, c.WellFormed) :
    (cs.flatMap tokens).any (·.kind == .whereas) = cs.any isRecital := by
  induction cs with
  | nil => rfl
  | cons c cs ih =>
    have body : c.body.any (·.kind == .whereas) = false := by
      rw [List.any_eq_false]
      intro t ht e
      have stays := (wf c List.mem_cons_self).stays t ht
      rw [beq_iff_eq.1 e] at stays
      cases stays
    rw [List.flatMap_cons, List.any_append, List.any_cons, tokens, List.any_cons, body,
      Bool.or_false, ih fun c hc => wf c (List.mem_cons_of_mem _ hc)]
    rfl

theorem WellFormed.endsClause {cs : List Clause} (wf : ∀ c ∈ cs, c.WellFormed) :
    EndsClause (cs.flatMap tokens).head? := by
  cases cs with
  | nil => exact nofun
  | cons c cs =>
    intro t ht
    obtain rfl : c.head = t := Option.some.inj ht
    exact (wf c List.mem_cons_self).opens

theorem draft_append_recital {before : List Clause} {c : Clause} {d : Option Declaration}
    (h : c.isRecital = true) (late : before.all isRecital = true) (hd : c.recital = .ok d) :
    draft (before ++ [c]) =
      { draft before with phase := .recitals, recitals := recitals before ++ d.toList } := by
  simp [draft, phase, recitals, actions, h, late, hd, Except.toOption]

theorem draft_append_action {before : List Clause} {c : Clause} {a : Option Statement}
    (h : ¬c.isRecital = true) (ha : c.action = .ok a) :
    draft (before ++ [c]) =
      { draft before with phase := .actions, actions := actions before ++ a.toList } := by
  simp [draft, phase, recitals, actions, h, ha, Except.toOption]

/-- No action has come before the first recital. -/
def Ordered (before : List Clause) : Prop :=
  before.all isRecital = true ∨ before.any isRecital = true

theorem phase_eq_actions {cs : List Clause} :
    (draft cs).phase = .actions ↔ ¬cs.all isRecital = true := by
  show phase cs = _ ↔ _
  unfold phase
  split
  · next all =>
    split
    · simp [all]
    · simp [all]
  · next some => simp [some]

theorem phase_eq_title {cs : List Clause} (ordered : Ordered cs) :
    (draft cs).phase = .title ↔ ¬cs.any isRecital = true := by
  show phase cs = _ ↔ _
  unfold phase
  split
  · split
    · next any => simp [any]
    · next none => simp [none]
  · next some => simp [ordered.resolve_left some]

end Clause

namespace State

open Clause

theorem recital_eq (c : Clause) : c.recital = (yield c.alone.recital).map (·.1) := by
  unfold Clause.recital
  cases c.alone.recital <;> rfl

theorem action_eq (c : Clause) : c.action = (yield c.alone.action).map (·.1) := by
  unfold Clause.action
  cases c.alone.action <;> rfl

/-- What a clause leaves unread does not matter. -/
theorem clauses_after {tail : List Token} {s s' : State}
    (here : Here (Within tail) s.cursor s'.cursor) (d : Draft) :
    (s.moved >>= fun s₁ => yield (s₁.clauses d)) = yield ((s.moveTo ⟨tail, none⟩).clauses d) := by
  obtain ⟨⟨ts, hs, hs', stays⟩, ne⟩ := here
  rw [moved_closed hs]
  have stands : (s.moveTo ⟨(ts ++ tail).tail, none⟩).cursor = ⟨ts.tail ++ tail, none⟩ := by
    rw [hs'] at ne
    rw [← List.tail_append_of_ne_nil ne]
    rfl
  exact clauses_skip stays d stands

/-- What a reading of clauses yields, and what is expected of it. -/
abbrev Matches {α : Type} (x : Except Failure (α × State)) (y : Except Error α) : Prop :=
  Together (fun f e => f.error.SameFault e) (fun a b => a.1 = b) x y

/-- The pass over the clauses, from the head of one of them. -/
theorem clauses_matches {before cs : List Clause} (wf : ∀ c ∈ cs, c.WellFormed)
    (ordered : Ordered before) {s : State} (hs : s.cursor = ⟨cs.flatMap Clause.tokens, none⟩) :
    Matches (yield (s.clauses (draft before)))
      (match firstOffence before cs with
        | some e => .error e
        | none => .ok (draft (before ++ cs))) := by
  induction cs generalizing before s with
  | nil =>
    have hk : s.kind? = none := by rw [kind?_eq, hs]; rfl
    rw [yield_clauses, hk, List.append_nil]
    exact .ok rfl
  | cons c after ih =>
    have wfAfter : ∀ c ∈ after, c.WellFormed := fun x hx => wf x (List.mem_cons_of_mem c hx)
    have wfc := wf c List.mem_cons_self
    have hk : s.kind? = some c.head.kind := kind?_cons hs
    have sim := simulation_within (WellFormed.endsClause wfAfter)
    have here : Here (Within (after.flatMap Clause.tokens)) s.cursor c.alone.cursor :=
      ⟨⟨c.tokens, hs, rfl, wfc.stays⟩, nofun⟩
    have regroup : before ++ c :: after = before ++ [c] ++ after := by simp
    rw [yield_clauses, hk, firstOffence, regroup]
    dsimp only
    by_cases hc : c.isRecital = true
    · rw [if_pos (kind_of_isRecital hc), offence?, if_pos hc]
      by_cases late : before.all isRecital = true
      · rw [if_neg fun e => phase_eq_actions.1 e late, if_pos late, recital_eq]
        have run := recital_alike sim here
        cases alone : yield c.alone.recital with
        | error f' =>
          rw [alone] at run
          obtain ⟨f, hf, same⟩ := run.error_right
          rw [hf]
          exact .error same
        | ok b =>
          rw [alone] at run
          obtain ⟨⟨d, s₁⟩, hd, same, here₁⟩ := run.ok_right
          rw [hd]
          have hd' : c.recital = .ok d := by rw [recital_eq, alone]; exact congrArg _ same.symm
          show Matches (s₁.moved >>= fun s₂ => yield (s₂.clauses _)) _
          rw [clauses_after here₁]
          have ordered' : Ordered (before ++ [c]) := .inr (by simp [hc])
          have next := ih wfAfter ordered' (s := s₁.moveTo _) rfl
          rw [draft_append_recital hc late hd'] at next
          exact next
      · rw [if_pos (phase_eq_actions.2 late), if_neg late]
        exact .error ⟨rfl, nofun⟩
    · have resolved := wfc.kind_of_not_isRecital hc
      have other : c.head.kind ≠ .whereas := fun e => hc (beq_iff_eq.2 e)
      rw [if_neg other, if_pos resolved, offence?, if_neg hc]
      by_cases early : before.any isRecital = true
      · rw [if_neg fun e => (phase_eq_title ordered).1 e early, if_pos early, action_eq]
        have run := action_alike sim here
        cases alone : yield c.alone.action with
        | error f' =>
          rw [alone] at run
          obtain ⟨f, hf, same⟩ := run.error_right
          rw [hf]
          exact .error same
        | ok b =>
          rw [alone] at run
          obtain ⟨⟨a, s₁⟩, ha, same, here₁⟩ := run.ok_right
          rw [ha]
          have ha' : c.action = .ok a := by rw [action_eq, alone]; exact congrArg _ same.symm
          show Matches (s₁.moved >>= fun s₂ => yield (s₂.clauses _)) _
          rw [clauses_after here₁]
          have ordered' : Ordered (before ++ [c]) := .inr (by rw [List.any_append, early]; rfl)
          have next := ih wfAfter ordered' (s := s₁.moveTo _) rfl
          rw [draft_append_action hc ha'] at next
          exact next
      · rw [if_pos ((phase_eq_title ordered).2 early), if_neg early]
        refine .error ?_
        have wanted : s.cursor.tokens.any (·.kind == .whereas) = after.any isRecital := by
          rw [hs]
          show ((c :: after).flatMap Clause.tokens).any (·.kind == .whereas) = _
          rw [any_whereas wf, List.any_cons, Bool.eq_false_iff.2 hc, Bool.false_or]
        have here : s.cursor = ⟨s.cursor.tokens, none⟩ := by rw [hs]
        rw [earlyAction_error here, wanted]
        split
        · exact ⟨rfl, nofun⟩
        · exact ⟨rfl, nofun⟩

/-- The pass over the clauses of a whole text. -/
theorem resolution_matches {s : State} {ts : List Token} (hs : s.cursor = ⟨ts, none⟩) :
    Together (fun f e => f.error.SameFault e) (fun a r => a.1 = r) s.resolution
      (Clause.resolution ts) := by
  rw [resolution_eq, Clause.resolution, kind?_eq, hs]
  refine .ite .rfl (fun _ => ?_) fun _ => .error ⟨rfl, nofun⟩
  have whole : s.cursor = ⟨(cut ts).1 ++ (cut ts).2.flatMap Clause.tokens, none⟩ := by
    rw [cut_tokens, hs]
  have ordered : Ordered [] := .inl rfl
  have run := clauses_matches (cut_wellFormed ts) ordered
    (s := s.moveTo ⟨(cut ts).2.flatMap Clause.tokens, none⟩) rfl
  rw [show draft [] = .blank from rfl, ← clauses_skip (cut_segment ts) .blank whole] at run
  cases hf : firstOffence [] (cut ts).2 with
  | some e =>
    rw [hf] at run
    obtain ⟨f, hd, same⟩ := run.error_right
    rw [hd]
    exact .error same
  | none =>
    rw [hf] at run
    obtain ⟨⟨d, s₁⟩, hd, same⟩ := run.ok_right
    rw [hd]
    obtain rfl : d = draft (cut ts).2 := same
    show Together _ _ (if (draft (cut ts).2).phase = .actions then _ else _) (if _ then _ else _)
    by_cases all : (cut ts).2.all isRecital = true
    · rw [if_neg fun e => phase_eq_actions.1 e all, if_pos all]
      exact .error ⟨rfl, nofun⟩
    · rw [if_pos (phase_eq_actions.2 all), if_neg all]
      exact .ok rfl

end State

theorem tokenize_ok {source : String} {ts : List Token} (h : tokenize source = .ok ts) :
    Legalese.tokens source.toList = ⟨ts, none⟩ := by
  unfold tokenize at h
  generalize Legalese.tokens source.toList = all at h
  obtain ⟨list, unclosed⟩ := all
  cases unclosed with
  | none => cases h; rfl
  | some literal => cases h

theorem start_of_tokenize {source : String} {ts : List Token} (h : tokenize source = .ok ts)
    (register : Register) : State.start source register = .ok ⟨⟨ts, none⟩, register, [], []⟩ := by
  unfold State.start Cursor.start
  rw [tokenize_ok h]
  rfl

theorem Reading.ofString_matches {source : String} {ts : List Token}
    (h : tokenize source = .ok ts) :
    Together (fun f e => f.error.SameFault e) (fun reading r => reading.resolution = r)
      (Reading.ofString source) (Clause.resolution ts) := by
  have run := State.resolution_matches (s := ⟨⟨ts, none⟩, .empty, [], []⟩) rfl
  unfold ofString
  rw [start_of_tokenize h]
  show Together _ _ (State.resolution ⟨⟨ts, none⟩, .empty, [], []⟩ >>= _) _
  cases hr : Clause.resolution ts with
  | error e =>
    rw [hr] at run
    obtain ⟨f, hf, same⟩ := run.error_right
    rw [hf]
    exact .error same
  | ok r =>
    rw [hr] at run
    obtain ⟨⟨r', s⟩, hs, same⟩ := run.ok_right
    rw [hs]
    exact .ok same

/-- Name errors aside, a text is read clause by clause: it holds the resolution that its
clauses give when each is read alone, or it fails as the first faulty clause does, up to
the spelling that the error quotes. -/
theorem Resolution.ofString_clausewise {source : String} {ts : List Token}
    (h : tokenize source = .ok ts) :
    match Clause.resolution ts with
    | .ok r => r.HeldBy source
    | .error e => ∃ e', ofString source = .error e' ∧ e'.unquoted = e.unquoted ∧ e'.cls = e.cls := by
  have run := Reading.ofString_matches h
  split
  · next r hr =>
    rw [hr] at run
    exact heldBy_iff.2 run.ok_right
  · next e he =>
    rw [he] at run
    obtain ⟨f, hf, same⟩ := run.error_right
    refine ⟨f.error, ?_, same.unquoted, same.cls_eq⟩
    unfold ofString
    rw [hf]

/-- A recital without a value.  Read in its place it fails at the next clause, read alone at
the end of the text. -/
theorem Resolution.ofString_clausewise_without_value :
    tokenize "title whereas (hereinafter A) resolved" =
        .ok [⟨.filler, "title"⟩, ⟨.whereas, "whereas"⟩, ⟨.openParen, "("⟩,
          ⟨.hereinafter, "hereinafter"⟩, ⟨.name, "A"⟩, ⟨.closeParen, ")"⟩,
          ⟨.resolved, "resolved"⟩] ∧
      ∃ e, ofString "title whereas (hereinafter A) resolved" = .error e ∧
        e.unquoted = .unrecognizedExpression "" ∧ e.cls = .unrecognizedExpression := by
  have h : tokenize "title whereas (hereinafter A) resolved" =
      .ok [⟨.filler, "title"⟩, ⟨.whereas, "whereas"⟩, ⟨.openParen, "("⟩,
        ⟨.hereinafter, "hereinafter"⟩, ⟨.name, "A"⟩, ⟨.closeParen, ")"⟩,
        ⟨.resolved, "resolved"⟩] := by
    cbv
  have alone : Clause.resolution [⟨.filler, "title"⟩, ⟨.whereas, "whereas"⟩, ⟨.openParen, "("⟩,
      ⟨.hereinafter, "hereinafter"⟩, ⟨.name, "A"⟩, ⟨.closeParen, ")"⟩,
      ⟨.resolved, "resolved"⟩] = .error (.unrecognizedExpression "") := by
    cbv
  have matched := ofString_clausewise h
  rw [alone] at matched
  exact ⟨h, matched⟩

end Legalese
