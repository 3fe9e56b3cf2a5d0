import Legalese.Proofs.Written.Cardinal

/-!
# What a reading depends on

A resolution is prose, and most of what is written makes no difference: where blanks stand,
in which words the filler is put, and which letters of a keyword are capitals.  What makes
one is the content of the tokens: their kinds in order, the spelling of names, quoted texts
and numerals, and that of number words in small letters.

Main statement: two texts with the same content give the same resolution, or errors that
differ at most in the words that they quote.  The readers have been compared token by token
already (`Cursor.simulation_alike`); what is left are the clauses and the name errors, which
depend on the resolution alone.
-/

namespace Legalese

/-! ## Content -/

namespace Kind

theorem isCardinal_place (k : Kind) : k.place.isCardinal = k.isCardinal := by
  cases k <;> rfl

/-- Only number words are more than their place. -/
theorem place_of_not_cardinal {k : Kind} (h : k.isCardinal = false) : k.place = k := by
  cases k with
  | cardinal w => cases h
  | _ => rfl

theorem eq_of_place {k k' : Kind} (h : k.place = k'.place) (plain : k'.isCardinal = false) :
    k = k' := by
  have plain' : k.isCardinal = false := by rw [← isCardinal_place, h, isCardinal_place, plain]
  rw [← place_of_not_cardinal plain', h, place_of_not_cardinal plain]

end Kind

namespace Token

/-- What counts of a token.  The number of a number word is left to its spelling. -/
def content (t : Token) : Kind × Option String :=
  (t.kind.place,
    match t.kind with
    | .name => some t.literal
    | .text => some t.literal
    | .numeral => some t.literal
    | .cardinal _ => some (Kind.smallLetters t.literal)
    | _ => none)

/-- The content of a token is what a reader sees of it. -/
theorem content_eq_iff {t t' : Token} (lexed : t.Lexed) (lexed' : t'.Lexed) :
    t.content = t'.content ↔ t.Alike t' := by
  obtain ⟨k, l⟩ := t
  obtain ⟨k', l'⟩ := t'
  constructor
  · intro same
    obtain ⟨place, spelling⟩ := Prod.mk.inj same
    cases plain : k'.isCardinal with
    | true =>
      cases k' with
      | cardinal w' =>
        obtain ⟨w, rfl⟩ := Kind.cardinal_of_place place
        have letters : Kind.smallLetters l = Kind.smallLetters l' := Option.some.inj spelling
        exact (folded_eq_iff lexed lexed' rfl).1 (Token.mk.injEq .. ▸ ⟨place, letters⟩)
      | _ => cases plain
    | false =>
      obtain rfl : k = k' := Kind.eq_of_place place plain
      refine ⟨rfl, fun spelled => ?_⟩
      cases k with
      | name => exact Option.some.inj spelling
      | text => exact Option.some.inj spelling
      | numeral => exact Option.some.inj spelling
      | dash => exact (lexed.mark "-" rfl).trans (lexed'.mark "-" rfl).symm
      | _ => cases spelled
  · intro alike
    obtain rfl : k = k' := alike.kind
    cases k with
    | cardinal w =>
      have folded := (folded_eq_iff lexed lexed' rfl).2 alike
      exact congrArg (fun t : Token => (t.kind, some t.literal)) folded
    | name => exact congrArg (fun l => (Kind.name, some l)) (alike.literal rfl)
    | text => exact congrArg (fun l => (Kind.text, some l)) (alike.literal rfl)
    | numeral => exact congrArg (fun l => (Kind.numeral, some l)) (alike.literal rfl)
    | _ => rfl

theorem map_content_eq_iff {ts ts' : List Token} (lexed : ∀ t ∈ ts, t.Lexed)
    (lexed' : ∀ t ∈ ts', t.Lexed) :
    ts.map content = ts'.map content ↔ List.Forall₂ Alike ts ts' := by
  rw [← List.forall₂_eq_eq_eq, List.forall₂_map_left_iff, List.forall₂_map_right_iff]
  exact forall₂_congr fun t ht t' ht' => content_eq_iff (lexed t ht) (lexed' t' ht')

end Token

/-! ## Clauses -/

namespace State

theorem kind?_alike {s s' : State} (h : s.cursor.Alike s'.cursor) : s.kind? = s'.kind? := by
  rw [kind?_eq, kind?_eq]
  have tokens := h.tokens
  generalize s.cursor.tokens = ts at tokens
  generalize s'.cursor.tokens = ts' at tokens
  cases tokens with
  | nil => rfl
  | cons alike _ => exact congrArg some alike.kind

/-- Whether a recital comes later is the same for both. -/
theorem earlyAction_alike {s s' : State} (h : s.cursor.Alike s'.cursor) :
    s.earlyAction.error = s'.earlyAction.error := by
  have here : s.cursor = ⟨s.cursor.tokens, none⟩ := by rw [← h.closed]
  have here' : s'.cursor = ⟨s'.cursor.tokens, none⟩ := by rw [← h.closed']
  have kinds : s.cursor.tokens.map (·.kind) = s'.cursor.tokens.map (·.kind) := by
    rw [← List.forall₂_eq_eq_eq, List.forall₂_map_left_iff, List.forall₂_map_right_iff]
    exact h.tokens.imp fun _ _ alike => alike.kind
  have later := congrArg (List.any · (· == .whereas)) kinds
  simp only [List.any_map] at later
  rw [earlyAction_error here, earlyAction_error here']
  exact congrArg (fun b => if b = true then Error.earlyResolved else .noWhereas) later

/-- The clauses from corresponding places on, by induction on the tokens that are left. -/
theorem clauses_alike (d : Draft) {s s' : State} (h : s.cursor.Alike s'.cursor) :
    Together Failure.Same (fun a b => a.1 = b.1) (yield (s.clauses d)) (yield (s'.clauses d)) := by
  have sim := Cursor.simulation_alike
  rw [yield_clauses, yield_clauses, kind?_alike h]
  cases hk : s'.kind? with
  | none => exact .ok rfl
  | some k =>
    have here : Here Cursor.Alike s.cursor s'.cursor := ⟨h, tokens_ne_nil_of_kind? hk⟩
    have pos := remaining_pos hk
    dsimp only
    refine .ite .rfl (fun _ => ?_) fun _ => .ite .rfl (fun _ => ?_) fun _ => ?_
    · refine .ite .rfl (fun _ => .error ⟨rfl, nofun⟩) fun _ => ?_
      refine Same.bind (recital_alike sim here) fun recital s₁ s₁' _ e₁ h₁ => ?_
      refine (moved_alike sim h₁).bind fun s₂ s₂' _ e₂ h₂ => ?_
      have r₁ : s₁'.remaining ≤ s'.remaining := (recital_ok e₁).2.follows.remaining_le
      have r₂ := remaining_of_moved e₂
      have shorter : s₂'.remaining < s'.remaining := by omega
      exact clauses_alike _ h₂
    · refine .ite .rfl (fun _ => .error ⟨?_, ?_⟩) fun _ => ?_
      · rw [earlyAction_alike h]
      · exact single_earlyAction s
      refine Same.bind (action_alike sim here) fun action s₁ s₁' _ e₁ h₁ => ?_
      refine (moved_alike sim h₁).bind fun s₂ s₂' _ e₂ h₂ => ?_
      have r₁ : s₁'.remaining ≤ s'.remaining := (action_ok e₁).2.follows.remaining_le
      have r₂ := remaining_of_moved e₂
      have shorter : s₂'.remaining < s'.remaining := by omega
      exact clauses_alike _ h₂
    · refine (moved_alike sim here).bind fun s₁ s₁' _ e₁ h₁ => ?_
      have r₁ := remaining_of_moved e₁
      have shorter : s₁'.remaining < s'.remaining := by omega
      exact clauses_alike d h₁
termination_by s'.remaining

theorem resolution_alike {s s' : State} (h : s.cursor.Alike s'.cursor) :
    Together Failure.Same (fun a b => a.1 = b.1) s.resolution s'.resolution := by
  rw [resolution_eq, resolution_eq, kind?_alike h]
  refine .ite .rfl (fun _ => ?_) fun _ => .error ⟨rfl, nofun⟩
  refine (clauses_alike .blank h).bind fun ⟨d, s₁⟩ ⟨d', s₁'⟩ _ _ same => ?_
  obtain rfl : d = d' := same
  exact .ite .rfl (fun _ => .ok rfl) fun _ => .error ⟨rfl, nofun⟩

end State

/-! ## Errors -/

/-- The errors of two readings that run alike: all that they may differ in are words of the
text that they quote. -/
structure Error.Agree (e e' : Error) : Prop where
  cls : e.cls = e'.cls
  cause : e.unquoted = e'.unquoted
  same : e'.cls ≠ .unrecognizedExpression → e'.cls ≠ .cardinal → e = e'

namespace Error

/-- Only errors of two classes quote anything. -/
theorem unquoted_of_cls {e : Error} (expression : e.cls ≠ .unrecognizedExpression)
    (cardinal : e.cls ≠ .cardinal) : e.unquoted = e := by
  unfold unquoted
  split
  · exact absurd rfl expression
  · exact absurd rfl cardinal
  · exact absurd rfl cardinal
  · rfl

theorem agree_of_unquoted {e e' : Error} (h : e.unquoted = e'.unquoted) : e.Agree e' := by
  have cls : e.cls = e'.cls := by rw [← cls_unquoted e, h, cls_unquoted]
  refine ⟨cls, h, fun expression cardinal => ?_⟩
  rw [← unquoted_of_cls expression cardinal, ← h]
  exact (unquoted_of_cls (cls ▸ expression) (cls ▸ cardinal)).symm

end Error

/-! ## Texts -/

theorem Reading.ofString_alike {source source' : String} {ts ts' : List Token}
    (h : tokenize source = .ok ts) (h' : tokenize source' = .ok ts')
    (alike : List.Forall₂ Token.Alike ts ts') :
    Together Failure.Same (fun a b => a.resolution = b.resolution) (ofString source)
      (ofString source') := by
  unfold ofString
  rw [start_of_tokenize h, start_of_tokenize h']
  have both : Cursor.Alike ⟨ts, none⟩ ⟨ts', none⟩ := ⟨alike, rfl, rfl⟩
  exact (State.resolution_alike both).bind fun _ _ _ _ same => .ok same

namespace Resolution

/-- Texts with the same content are read alike: both give one resolution, or both an error
of one class and cause.  Errors that quote no words are the same altogether, the list of
name errors with the resolution that goes with it among them. -/
theorem ofString_congr {source source' : String} {ts ts' : List Token}
    (h : tokenize source = .ok ts) (h' : tokenize source' = .ok ts')
    (same : ts.map Token.content = ts'.map Token.content) :
    Together Error.Agree Eq (ofString source) (ofString source') := by
  have alike := (Token.map_content_eq_iff (Cardinal.lexed_of_tokenize h)
    (Cardinal.lexed_of_tokenize h')).1 same
  have run := Reading.ofString_alike h h' alike
  cases read : Reading.ofString source' with
  | error f' =>
    rw [read] at run
    obtain ⟨f, failed, fault⟩ := run.error_right
    unfold ofString
    rw [failed, read]
    exact .error (Error.agree_of_unquoted fault.unquoted)
  | ok reading' =>
    rw [read] at run
    obtain ⟨reading, read', resolution⟩ := run.ok_right
    -- the name errors follow from the resolution
    have held := heldBy_iff.2 ⟨reading, read', resolution⟩
    have held' := heldBy_iff.2 ⟨reading', read, rfl⟩
    rw [ofString_eq_of_heldBy held, ofString_eq_of_heldBy held']
    exact .ite .rfl (fun _ => .ok rfl) fun _ => .error (Error.agree_of_unquoted rfl)

/-- A text with a name that is never used, and the same text with another title, other
capitals and other blanks. -/
theorem ofString_congr_reworded :
    ∃ ts ts', tokenize "act\nWHEREAS(Hereinafter A)TWO(2)Resolved" = .ok ts ∧
      tokenize "title whereas (hereinafter A) two (2) resolved" = .ok ts' ∧
      ts.map Token.content = ts'.map Token.content ∧
      ofString "act\nWHEREAS(Hereinafter A)TWO(2)Resolved" =
        .error (.names [⟨.unused, "A"⟩] (some ⟨[⟨"A", .integer 2⟩], []⟩)) := by
  have h : tokenize "act\nWHEREAS(Hereinafter A)TWO(2)Resolved" =
      .ok [⟨.filler, "act"⟩, ⟨.whereas, "WHEREAS"⟩, ⟨.openParen, "("⟩,
        ⟨.hereinafter, "Hereinafter"⟩, ⟨.name, "A"⟩, ⟨.closeParen, ")"⟩,
        ⟨.cardinal (.ones 2), "TWO"⟩, ⟨.openParen, "("⟩, ⟨.numeral, "2"⟩, ⟨.closeParen, ")"⟩,
        ⟨.resolved, "Resolved"⟩] := by
    cbv
  have h' : tokenize "title whereas (hereinafter A) two (2) resolved" =
      .ok [⟨.filler, "title"⟩, ⟨.whereas, "whereas"⟩, ⟨.openParen, "("⟩,
        ⟨.hereinafter, "hereinafter"⟩, ⟨.name, "A"⟩, ⟨.closeParen, ")"⟩,
        ⟨.cardinal (.ones 2), "two"⟩, ⟨.openParen, "("⟩, ⟨.numeral, "2"⟩, ⟨.closeParen, ")"⟩,
        ⟨.resolved, "resolved"⟩] := by
    cbv
  have read : ofString "title whereas (hereinafter A) two (2) resolved" =
      .error (.names [⟨.unused, "A"⟩] (some ⟨[⟨"A", .integer 2⟩], []⟩)) := by
    cbv
  have agree := ofString_congr h h' (by decide)
  rw [read] at agree
  obtain ⟨e, failed, agree⟩ := agree.error_right
  have same := agree.same (by decide) (by decide)
  exact ⟨_, _, h, h', by decide, failed.trans (congrArg Except.error same)⟩

end Resolution
end Legalese
