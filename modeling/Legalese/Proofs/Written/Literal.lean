import Legalese.Evaluation
import Legalese.Proofs.Written.Reading

/-!
# Published numbers are literals

The integer literals are the written numbers of the range, up to the case of their number
words, and a number is published in just this form.  So what one resolution publishes can
stand in another one and has the same value there.

Words that give one number and digits that give another are the only other thing that is
seen through; whatever else stands in the place of a literal is malformed.
-/

namespace Legalese

open Integer (numeralTokens)

namespace Token

/-- The same token, or the same number word in other letters. -/
def Fits (t t' : Token) : Prop := t = t' ∨ t'.kind.isCardinal = true ∧ t.folded = t'.folded

theorem fits_iff {t t' : Token} (lexed : t.Lexed) (lexed' : t'.Lexed)
    (counts : t'.kind.inCardinal = true) : t.Fits t' ↔ t.Alike t' := by
  constructor
  · rintro (rfl | ⟨-, same⟩)
    · exact .refl t
    · exact (folded_eq_iff lexed lexed' counts).1 same
  · intro alike
    cases kind : t'.kind with
    | cardinal w => exact .inr ⟨by rw [kind]; rfl, (folded_eq_iff lexed lexed' counts).2 alike⟩
    | dash =>
      left
      rw [lexed.eq_of_mark (alike.kind.trans kind) rfl, lexed'.eq_of_mark kind rfl]
    | _ =>
      rw [kind] at counts
      cases counts

theorem eq_of_fits {ts us : List Token} (plain : ∀ t ∈ us, t.kind.isCardinal = false)
    (h : List.Forall₂ Fits ts us) : ts = us := by
  rw [← List.forall₂_eq_eq_eq]
  refine (forall₂_congr fun t _ u hu => ?_).1 h
  constructor
  · intro fits
    refine fits.resolve_right fun word => ?_
    rw [plain u hu] at word
    exact absurd word.1 Bool.false_ne_true
  · exact .inl

end Token

theorem Integer.tokenize_write (v : Int) : tokenize (write v) = .ok (tokens v) :=
  (spells_write v).tokenize

namespace State

/-- Tokens that fit the given ones stand at the cursor, and others after them. -/
def BeginsWith (s : State) (ts rest : List Token) : Prop :=
  ∃ us, s.cursor = ⟨us ++ rest, none⟩ ∧ List.Forall₂ Token.Fits us ts

theorem beginsWith_iff {s : State} (lexed : s.cursor.Lexed) {c n : Int} {rest : List Token} :
    s.BeginsWith (Cardinal.tokens c ++ numeralTokens n) rest ↔
      ∃ us, List.Forall₂ Token.Alike us (Cardinal.tokens c) ∧
        s.cursor = ⟨us ++ (numeralTokens n ++ rest), none⟩ := by
  have alike {us vs : List Token} (place : s.cursor = ⟨us ++ vs, none⟩) :
      List.Forall₂ Token.Fits us (Cardinal.tokens c) ↔
        List.Forall₂ Token.Alike us (Cardinal.tokens c) := by
    refine Token.forall₂_congr fun t ht u hu => ?_
    have lexed' := Cardinal.lexed_of_tokenize (Cardinal.tokenize_write c) u hu
    refine Token.fits_iff (lexed t ?_) lexed' (Cardinal.inCardinal_of_mem_tokens hu)
    rw [place]
    exact List.mem_append_left vs ht
  constructor
  · rintro ⟨us, place, fits⟩
    have words := List.forall₂_take_append us _ _ fits
    have numeral := Token.eq_of_fits (by simp [numeralTokens, Kind.isCardinal])
      (List.forall₂_drop_append us _ _ fits)
    have split : s.cursor = ⟨us.take (Cardinal.tokens c).length ++ (numeralTokens n ++ rest), none⟩ := by
      rw [place, ← numeral, ← List.append_assoc, List.take_append_drop]
    exact ⟨_, (alike split).1 words, split⟩
  · rintro ⟨us, words, place⟩
    refine ⟨us ++ numeralTokens n, by rw [place, List.append_assoc], ?_⟩
    exact List.rel_append ((alike place).2 words) (List.forall₂_same.2 fun t _ => .inl rfl)

/-- What the reader of integer literals makes of the tokens at the cursor. -/
structure JudgesLiteral (s : State) : Prop where
  accepts : ∀ e s', yield s.integerLiteral = .ok (e, s') ↔
    ∃ v ts rest, InRange v ∧ e = .integer v ∧ tokenize (Integer.write v) = .ok ts ∧
      s.BeginsWith ts rest ∧ s' = s.moveTo ⟨⟨.closeParen, ")"⟩ :: rest, none⟩
  disagrees : ∀ c n, (∃ f, yield s.integerLiteral = .error f ∧ f.error = .disagreement c n) ↔
    InRange c ∧ InRange n ∧ c ≠ n ∧ ∃ ts rest, tokenize (Cardinal.write c) = .ok ts ∧
      s.BeginsWith (ts ++ numeralTokens n) rest
  otherwise : ∀ f, yield s.integerLiteral = .error f →
    (∀ c n, f.error ≠ .disagreement c n) → f.error.Malformed

/-- The ends that reading a literal can come to. -/
inductive LiteralEnd (s : State) : Except Failure (Expr × State) → Prop
  | accepted {v : Int} {rest : List Token} (inRange : InRange v)
      (begins : s.BeginsWith (Integer.tokens v) rest) :
      LiteralEnd s (.ok (.integer v, s.moveTo ⟨⟨.closeParen, ")"⟩ :: rest, none⟩))
  | disagreed {c n : Int} {rest : List Token} (hc : InRange c) (hn : InRange n) (other : c ≠ n)
      (begins : s.BeginsWith (Cardinal.tokens c ++ numeralTokens n) rest) :
      LiteralEnd s (.error ⟨.disagreement c n, s.log⟩)
  | malformed {f : Failure} (h : f.error.Malformed) : LiteralEnd s (.error f)

theorem integerLiteral_of_begins {s : State} (lexed : s.cursor.Lexed) {c n : Int}
    {rest : List Token} (hc : InRange c) (hn : InRange n)
    (begins : s.BeginsWith (Cardinal.tokens c ++ numeralTokens n) rest) :
    yield s.integerLiteral =
      if c = n then .ok (.integer c, s.moveTo ⟨⟨.closeParen, ")"⟩ :: rest, none⟩)
      else .error ⟨.disagreement c n, s.log⟩ := by
  obtain ⟨us, alike, place⟩ := (beginsWith_iff lexed).1 begins
  exact integerLiteral_of_alike hc hn alike place

theorem literalEnd {s : State} (closed : s.cursor.unclosed = none) (lexed : s.cursor.Lexed) :
    s.LiteralEnd (yield s.integerLiteral) := by
  rcases integerLiteral_cases closed lexed with ⟨c, n, us, rest, hc, hn, alike, place⟩ | ⟨f, hf, h⟩
  · have begins := (beginsWith_iff lexed).2 ⟨us, alike, place⟩
    rw [integerLiteral_of_begins lexed hc hn begins]
    by_cases same : c = n
    · subst same
      rw [if_pos rfl]
      exact .accepted hc begins
    · rw [if_neg same]
      exact .disagreed hc hn same begins
  · rw [hf]
    exact .malformed h

theorem judgesLiteral {s : State} (closed : s.cursor.unclosed = none) (lexed : s.cursor.Lexed) :
    s.JudgesLiteral := by
  have outcome := literalEnd closed lexed
  constructor
  · intro e s'
    constructor
    · intro h
      rw [h] at outcome
      cases outcome with
      | @accepted v rest inRange begins =>
        exact ⟨v, _, rest, inRange, rfl, Integer.tokenize_write v, begins, rfl⟩
    · rintro ⟨v, ts, rest, hv, rfl, ht, begins, rfl⟩
      obtain rfl : Integer.tokens v = ts := Except.ok.inj ((Integer.tokenize_write v).symm.trans ht)
      rw [integerLiteral_of_begins lexed hv hv begins, if_pos rfl]
  · intro c n
    constructor
    · rintro ⟨f, hf, error⟩
      rw [hf] at outcome
      cases outcome with
      | @disagreed c' n' rest hc hn other begins =>
        cases error
        exact ⟨hc, hn, other, _, rest, Cardinal.tokenize_write c, begins⟩
      | malformed h => exact absurd (congrArg Error.cls error) h.2
    · rintro ⟨hc, hn, other, ts, rest, ht, begins⟩
      obtain rfl : Cardinal.tokens c = ts :=
        Except.ok.inj ((Cardinal.tokenize_write c).symm.trans ht)
      exact ⟨_, by rw [integerLiteral_of_begins lexed hc hn begins, if_neg other], rfl⟩
  · intro f hf other
    rw [hf] at outcome
    cases outcome with
    | @disagreed c n _ _ _ _ _ => exact absurd rfl (other c n)
    | malformed h => exact h

end State

/-! ## Publishing -/

namespace Resolution

/-- The clause that publishes an expression and nothing else. -/
def publishing (e : Expr) : Clause := ⟨⟨.resolved, "resolved"⟩, ⟨.publish, "publish"⟩ :: e.tokens⟩

theorem action_publishing {e : Expr} (wf : e.WellFormed) :
    (publishing e).action = .ok (some (.publish e)) := by
  let s := (publishing e).alone
  have place : s.cursor = ⟨(publishing e).tokens, none⟩ := rfl
  obtain ⟨s', read⟩ := State.publication_tokens wf
    (s := s.moveTo ⟨Statement.tokens (.publish e), none⟩) rfl
  rw [State.action_eq, State.yield_action, if_neg nofun]
  show ((s.moved >>= fun s₁ => State.yield s₁.publication >>= _) : Except _ _).map _ = _
  rw [State.moved_closed place, ok_bind]
  show ((State.yield (s.moveTo ⟨Statement.tokens (.publish e), none⟩).publication >>= _) :
    Except _ _).map _ = _
  rw [read]
  rfl

theorem recital_blank : (Clause.ofRecital none).recital = .ok none :=
  Clause.recital_ofRecital nofun

theorem cut_publishing (e : Expr) :
    (cut (⟨.filler, "title"⟩ :: ⟨.whereas, "whereas"⟩ :: (publishing e).tokens)).2 =
      [Clause.ofRecital none, publishing e] := by
  have stays : ∀ t ∈ Token.mk .publish "publish" :: e.tokens, t.kind.opensClause = false := by
    intro t ht
    rcases List.mem_cons.1 ht with rfl | ht
    · rfl
    · exact Expr.stays_tokens ht
  have body := cut_append stays []
  rw [List.append_nil, cut, List.append_nil] at body
  have title : ¬(Kind.opensClause .filler) = true := Bool.false_ne_true
  rw [cut_of_stays title, cut_of_opens rfl, Clause.tokens, publishing, cut_of_opens rfl, body]
  rfl

theorem firstOffence_publishing {e : Expr} (wf : e.WellFormed) :
    Clause.firstOffence [] [Clause.ofRecital none, publishing e] = none := by
  have first : Clause.offence? [] [publishing e] (Clause.ofRecital none) = none := by
    show Clause.fault? (Clause.ofRecital none).recital = none
    rw [recital_blank]
    rfl
  have second : Clause.offence? [Clause.ofRecital none] [] (publishing e) = none := by
    show Clause.fault? (publishing e).action = none
    rw [action_publishing wf]
    rfl
  rw [Clause.firstOffence, first]
  show Clause.firstOffence [Clause.ofRecital none] [publishing e] = none
  rw [Clause.firstOffence, second]
  rfl

theorem resolution_publishing {e : Expr} (wf : e.WellFormed) :
    Clause.resolution (⟨.filler, "title"⟩ :: ⟨.whereas, "whereas"⟩ :: (publishing e).tokens) =
      .ok ⟨[], [.publish e]⟩ := by
  have recitals : Clause.recitals [Clause.ofRecital none, publishing e] = [] := by
    show (if true then (Clause.ofRecital none).recital.toOption.join.toList else []) ++ [] = _
    rw [recital_blank]
    rfl
  have actions : Clause.actions [Clause.ofRecital none, publishing e] = [.publish e] := by
    show [] ++ ((publishing e).action.toOption.join.toList ++ []) = _
    rw [action_publishing wf]
    rfl
  unfold Clause.resolution
  dsimp only
  rw [if_pos (.inl rfl), cut_publishing, firstOffence_publishing wf, recitals, actions]
  rfl

theorem heldBy_publishing {e : Expr} (wf : e.WellFormed) :
    HeldBy ⟨[], [.publish e]⟩ ("title whereas resolved publish " ++ e.write) := by
  have letters : ['t', 'i', 't', 'l', 'e'].all isLetter = true := by decide
  have title : Spells "title".toList [⟨.filler, "title"⟩] :=
    spells_word (List.cons_ne_nil _ _) (List.all_eq_true.1 letters)
  have whereas : Spells "whereas".toList [⟨.whereas, "whereas"⟩] :=
    spells_keyword (w := ("whereas", .whereas)) (by decide)
  have resolved : Spells "resolved".toList [⟨.resolved, "resolved"⟩] :=
    spells_keyword (w := ("resolved", .resolved)) (by decide)
  have publish : Spells (Statement.publish e).write.toList (Statement.publish e).tokens :=
    Statement.spells_write wf
  have whole := title.space (whereas.space (resolved.space publish))
  have text : ("title whereas resolved publish " ++ e.write).toList =
      "title".toList ++ ' ' :: ("whereas".toList ++ ' ' ::
        ("resolved".toList ++ ' ' :: (Statement.publish e).write.toList)) := by
    simp [Statement.write]
  rw [← text] at whole
  have cuts : tokenize ("title whereas resolved publish " ++ e.write) =
      .ok (⟨.filler, "title"⟩ :: ⟨.whereas, "whereas"⟩ :: (publishing e).tokens) := whole.tokenize
  have run := Reading.ofString_matches cuts
  rw [resolution_publishing wf] at run
  exact heldBy_iff.2 run.ok_right

/-- A published number is published again. -/
theorem publishes_integer {v : Int} (inRange : InRange v) :
    ∃ text r, Integer.write? v = .ok text ∧
      ofString ("title whereas resolved publish " ++ text) = .ok r ∧
      (r.run .empty).fault = none ∧ (r.run .empty).lines? = .ok [text] := by
  have written : Integer.write? v = .ok (Integer.write v) := if_pos inRange
  have held : HeldBy ⟨[], [.publish (.integer v)]⟩
      ("title whereas resolved publish " ++ Integer.write v) := heldBy_publishing inRange
  refine ⟨Integer.write v, ⟨[], [.publish (.integer v)]⟩, written, ?_, rfl, ?_⟩
  · rw [ofString_eq_of_heldBy held]
    exact if_pos rfl
  · show [Value.integer v].mapM Value.write? = _
    rw [List.mapM_cons, Value.write?, written]
    rfl

end Resolution

/-- Where a text is read, an integer literal is judged by its being a written number, and
what is published for a number is a literal of that number. -/
theorem Integer.literal_iff_written :
    (∀ (source : String) (ts : List Token) (s : State) (i : Nat), tokenize source = .ok ts →
      s.cursor = ⟨ts.drop i, none⟩ → s.JudgesLiteral) ∧
    ∀ v, InRange v → ∃ text r, write? v = .ok text ∧
      Resolution.ofString ("title whereas resolved publish " ++ text) = .ok r ∧
      (r.run .empty).fault = none ∧ (r.run .empty).lines? = .ok [text] := by
  constructor
  · intro source ts s i h place
    have closed : s.cursor.unclosed = none := by rw [place]
    refine State.judgesLiteral closed fun t ht => Cardinal.lexed_of_tokenize h t ?_
    rw [place] at ht
    exact List.mem_of_mem_drop ht
  · intro v inRange
    exact Resolution.publishes_integer inRange

/-- Capitals do no harm to a literal, words and digits of different numbers do, and the least
number is published again. -/
theorem Integer.literal_of_capitals :
    let ts : List Token := [⟨.filler, "title"⟩, ⟨.whereas, "whereas"⟩, ⟨.resolved, "resolved"⟩,
      ⟨.publish, "publish"⟩, ⟨.cardinal (.tens 20), "Twenty"⟩, ⟨.dash, "-"⟩,
      ⟨.cardinal (.ones 1), "ONE"⟩, ⟨.openParen, "("⟩, ⟨.numeral, "21"⟩, ⟨.closeParen, ")"⟩,
      ⟨.cardinal (.ones 2), "two"⟩, ⟨.openParen, "("⟩, ⟨.numeral, "3"⟩, ⟨.closeParen, ")"⟩]
    let s (i : Nat) : State := ⟨⟨ts.drop i, none⟩, .empty, [], []⟩
    tokenize "title whereas resolved publish Twenty-ONE (21) two (3)" = .ok ts ∧
      State.yield (s 4).integerLiteral = .ok (.integer 21, s 9) ∧
      (∃ f, State.yield (s 10).integerLiteral = .error f ∧ f.error = .disagreement 2 3) ∧
      ∃ text r, write? minNumber = .ok text ∧
        Resolution.ofString ("title whereas resolved publish " ++ text) = .ok r ∧
        (r.run .empty).fault = none ∧ (r.run .empty).lines? = .ok [text] := by
  intro ts s
  have cuts : tokenize "title whereas resolved publish Twenty-ONE (21) two (3)" = .ok ts := by
    cbv
  have judged (i : Nat) : (s i).JudgesLiteral := literal_iff_written.1 _ ts (s i) i cuts rfl
  have capitals : (s 4).BeginsWith [⟨.cardinal (.tens 20), "twenty"⟩, ⟨.dash, "-"⟩,
      ⟨.cardinal (.ones 1), "one"⟩, ⟨.openParen, "("⟩, ⟨.numeral, "21"⟩, ⟨.closeParen, ")"⟩]
      (ts.drop 10) := by
    refine ⟨(ts.drop 4).take 6, rfl, ?_⟩
    exact .cons (.inr ⟨rfl, by decide⟩) (.cons (.inl rfl) (.cons (.inr ⟨rfl, by decide⟩)
      (.cons (.inl rfl) (.cons (.inl rfl) (.cons (.inl rfl) .nil)))))
  have different : (s 10).BeginsWith ([⟨.cardinal (.ones 2), "two"⟩] ++ numeralTokens 3) [] := by
    refine ⟨ts.drop 10, rfl, ?_⟩
    exact .cons (.inl rfl) (.cons (.inl rfl) (.cons (.inl (by decide)) (.cons (.inl rfl) .nil)))
  refine ⟨cuts, ((judged 4).accepts _ _).2 ⟨21, _, _, by decide, rfl, ?_, capitals, rfl⟩,
    ((judged 10).disagrees 2 3).2 ⟨by decide, by decide, by decide, _, _, ?_, different⟩,
    literal_iff_written.2 minNumber (by decide)⟩
  · cbv
  · cbv

end Legalese
