import Legalese.Proofs.Number.Cardinal
import Mathlib.Data.List.TakeWhile

/-!
# Spelling

What the tokens of a text are spelled like, and which tokens a spelling is cut into.  A
token of a name is spelled as a name, and the token of a quoted text has no quotation mark
in it.  The other way round, a chunk of text that `Spells` some tokens is cut into just
these wherever it stands, as long as no letter follows it.
-/

namespace Legalese

/-! ## Tokens are spelled like what they are -/

/-- A word that is read as a name: it begins with a capital letter and is no keyword. -/
structure IsName (x : String) : Prop where
  letters : ∀ c ∈ x.toList, isLetter c = true
  capital : ∃ c cs, x.toList = c :: cs ∧ 'A' ≤ c ∧ c ≤ 'Z'
  free : Kind.smallLetters x ∉ Kind.keywords.map (·.1)

/-- A text that can be quoted. -/
def IsQuotable (s : String) : Prop := ∀ c ∈ s.toList, isQuoteMark c = false

structure Token.Sound (t : Token) : Prop where
  name : t.kind = .name → IsName t.literal
  text : t.kind = .text → IsQuotable t.literal

theorem lookup_eq_none {α : Type} {x : String} {l : List (String × α)} :
    l.lookup x = none ↔ x ∉ l.map (·.1) := by
  rw [List.lookup_eq_none_iff]
  simp only [List.mem_map, not_exists, not_and]
  constructor
  · intro h w hw e
    simpa [e] using h w hw
  · intro h w hw
    simpa using fun e => h w hw e.symm

theorem mem_of_lookup {α β : Type} [BEq α] [LawfulBEq α] {x : α} {a : β} {l : List (α × β)}
    (h : l.lookup x = some a) : (x, a) ∈ l := by
  obtain ⟨l₁, l₂, split, -⟩ := List.lookup_eq_some_iff.1 h
  rw [split]
  exact List.mem_append_right l₁ List.mem_cons_self

theorem keyword_ne_name : ∀ w ∈ Kind.keywords, w.2 ≠ .name ∧ w.2 ≠ .text := by
  decide

/-- The kind of a word: a keyword, a name or filler. -/
theorem ofWord?_cases {word : String} {k : Kind} (h : Kind.ofWord? word = some k) :
    (k ≠ .name ∧ k ≠ .text) ∨
      (Kind.smallLetters word ∉ Kind.keywords.map (·.1) ∧
        ∃ c cs, word.toList = c :: cs ∧ k = if 'A' ≤ c ∧ c ≤ 'Z' then .name else .filler) := by
  unfold Kind.ofWord? at h
  split at h
  · next k' hl =>
    cases h
    exact .inl (keyword_ne_name _ (mem_of_lookup hl))
  · cases h
  · next c cs free hw =>
    cases h
    exact .inr ⟨lookup_eq_none.1 free, c, cs, hw, rfl⟩

theorem sound_wordToken {c : Char} (hc : isLetter c = true) (cs : List Char) :
    (wordToken (c :: cs.takeWhile isLetter)).Sound := by
  unfold wordToken
  dsimp only
  cases hk : Kind.ofWord? (String.ofList (c :: cs.takeWhile isLetter)) with
  | none => exact ⟨nofun, nofun⟩
  | some k =>
    rcases ofWord?_cases hk with ⟨hn, ht⟩ | ⟨free, c', cs', hw, rfl⟩
    · exact ⟨fun e => absurd e hn, fun e => absurd e ht⟩
    · rw [String.toList_ofList] at hw
      cases hw
      refine ⟨fun e => ⟨?_, ⟨c, _, String.toList_ofList, ?_⟩, free⟩, fun e => ?_⟩
      · intro x hx
        rw [String.toList_ofList] at hx
        rcases List.mem_cons.1 hx with rfl | hx
        · exact hc
        · exact List.mem_takeWhile_imp hx
      · by_cases capital : 'A' ≤ c ∧ c ≤ 'Z'
        · exact capital
        · simp [capital] at e
      · by_cases capital : 'A' ≤ c ∧ c ≤ 'Z'
        · simp [capital] at e
        · simp [capital] at e

theorem sound_of_kind {k : Kind} (name : k ≠ .name) (text : k ≠ .text) (l : String) :
    Token.Sound ⟨k, l⟩ :=
  ⟨fun h => absurd h name, fun h => absurd h text⟩

theorem sound_of_atFront {cs rest : List Char} {t : Token}
    (h : Lexeme.atFront cs = .token t rest) : t.Sound := by
  cases cs with
  | nil => cases h
  | cons c cs =>
    simp only [Lexeme.atFront] at h
    split at h
    · split at h
      · cases h
      · cases h
        have other : Kind.text ≠ .name := by decide
        refine ⟨fun e => absurd e other, fun _ x hx => ?_⟩
        rw [String.toList_ofList] at hx
        simpa using List.mem_takeWhile_imp hx
    · split at h
      · cases h
        exact sound_of_kind (by decide) (by decide) _
      · split at h
        · cases h
          exact sound_of_kind (by decide) (by decide) _
        · split at h
          · split at h <;> cases h <;> exact sound_of_kind (by decide) (by decide) _
          · split at h
            · next letter =>
              cases h
              exact sound_wordToken letter cs
            · split at h <;> cases h <;> exact sound_of_kind (by decide) (by decide) _

/-- What holds of every token that can stand at the front of a text holds of all of them. -/
theorem forall_mem_tokens {P : Token → Prop}
    (front : ∀ cs t rest, Lexeme.atFront cs = .token t rest → P t) {cs : List Char} {t : Token}
    (h : t ∈ (tokens cs).list) : P t := by
  rw [tokens] at h
  split at h
  · cases h
  · cases h
  · next x rest hx =>
    have shorter := length_lt_of_next hx
    rcases List.mem_cons.1 h with rfl | h
    · exact front _ _ _ hx
    · exact forall_mem_tokens front h
termination_by cs.length

/-- Every token of a text is spelled like what it is. -/
theorem sound_of_mem_tokens {cs : List Char} {t : Token} (h : t ∈ (tokens cs).list) : t.Sound :=
  forall_mem_tokens (fun _ _ _ => sound_of_atFront) h

/-! ## Keywords and marks are known by their spelling -/

/-- The spelling of the kinds that have only one. -/
def Kind.mark? : Kind → Option String
  | openParen => some "("
  | closeParen => some ")"
  | dash => some "-"
  | _ => none

/-- A token of which the spelling fixes the kind, as the lexer cuts it. -/
structure Token.Lexed (t : Token) : Prop where
  word : ∀ w, t.kind = .cardinal w →
    Kind.keywords.lookup (Kind.smallLetters t.literal) = some (.cardinal w)
  mark : ∀ m, t.kind.mark? = some m → t.literal = m

theorem lookup_of_ofWord? {word : String} {k : Kind} (h : Kind.ofWord? word = some k)
    (name : k ≠ .name) (filler : k ≠ .filler) :
    Kind.keywords.lookup (Kind.smallLetters word) = some k := by
  unfold Kind.ofWord? at h
  split at h
  · next found =>
    cases h
    exact found
  · cases h
  · cases h
    split at name
    · exact absurd rfl name
    · next small => exact absurd (if_neg small) filler

theorem keyword_no_mark : ∀ e ∈ Kind.keywords, e.2.mark? = none := by
  decide

theorem lexed_of_kind {k : Kind} {l : String} (word : k.isCardinal = false)
    (mark : ∀ m, k.mark? = some m → l = m) : Token.Lexed ⟨k, l⟩ := by
  refine ⟨fun w hw => ?_, mark⟩
  obtain rfl : k = .cardinal w := hw
  cases word

theorem lexed_of_no_mark {k : Kind} {l : String} (word : k.isCardinal = false)
    (free : k.mark? = none) : Token.Lexed ⟨k, l⟩ := by
  refine lexed_of_kind word fun m hm => ?_
  rw [free] at hm
  cases hm

theorem lexed_wordToken (cs : List Char) : (wordToken cs).Lexed := by
  unfold wordToken
  dsimp only
  cases kind : Kind.ofWord? (String.ofList cs) with
  | none => exact lexed_of_no_mark rfl rfl
  | some k =>
    constructor
    · intro w hw
      obtain rfl : k = .cardinal w := hw
      exact lookup_of_ofWord? kind nofun nofun
    · intro m hm
      have mark : k.mark? = some m := hm
      have keyword := lookup_of_ofWord? kind (by rintro rfl; cases mark) (by rintro rfl; cases mark)
      rw [keyword_no_mark _ (mem_of_lookup keyword)] at mark
      cases mark

theorem lexed_of_atFront {cs rest : List Char} {t : Token}
    (h : Lexeme.atFront cs = .token t rest) : t.Lexed := by
  cases cs with
  | nil => cases h
  | cons c cs =>
    simp only [Lexeme.atFront] at h
    split at h
    · split at h
      · cases h
      · cases h
        exact lexed_of_no_mark rfl rfl
    · split at h
      · cases h
        exact lexed_of_kind rfl fun _ hm => Option.some.inj hm
      · split at h
        · cases h
          exact lexed_of_kind rfl fun _ hm => Option.some.inj hm
        · split at h
          · split at h
            · cases h
              exact lexed_of_kind rfl fun _ hm => Option.some.inj hm
            · cases h
              exact lexed_of_no_mark rfl rfl
          · split at h
            · cases h
              exact lexed_wordToken _
            · split at h <;> cases h <;> exact lexed_of_no_mark rfl rfl

theorem lexed_of_mem_tokens {cs : List Char} {t : Token} (h : t ∈ (tokens cs).list) : t.Lexed :=
  forall_mem_tokens (fun _ _ _ => lexed_of_atFront) h

/-! ## Chunks of text -/

/-- Some tokens in front of others. -/
def Tokens.prepend (ts : List Token) (r : Tokens) : Tokens := ⟨ts ++ r.list, r.unclosed⟩

theorem Tokens.prepend_append (ts us : List Token) (r : Tokens) :
    prepend (ts ++ us) r = prepend ts (prepend us r) := by
  unfold prepend
  rw [List.append_assoc]

/-- No word goes on at the head of a text. -/
def StartsOutside (cs : List Char) : Prop := ∀ c, cs.head? = some c → isLetter c = false

theorem startsOutside_cons {c : Char} (h : isLetter c = false) (cs : List Char) :
    StartsOutside (c :: cs) := by
  rintro _ ⟨⟩
  exact h

/-- A chunk of text that is cut into the given tokens, whatever comes after it. -/
def Spells (cs : List Char) (ts : List Token) : Prop :=
  ∀ rest, StartsOutside rest → tokens (cs ++ rest) = (tokens rest).prepend ts

/-- The tokens of a text, by what stands at its front. -/
theorem tokens_eq (cs : List Char) :
    tokens cs =
      match next cs with
      | .ended => ⟨[], none⟩
      | .unclosed literal => ⟨[], some literal⟩
      | .token t rest => (tokens rest).prepend [t] := by
  rw [tokens]
  split
  · next h => rw [h]
  · next h => rw [h]
  · next h => simp only [h]; rfl

theorem tokens_of_next {cs rest : List Char} {t : Token} (h : next cs = .token t rest) :
    tokens cs = (tokens rest).prepend [t] := by
  rw [tokens_eq, h]

theorem next_of_not_blank {c : Char} (h : isBlank c = false) (cs : List Char) :
    next (c :: cs) = Lexeme.atFront (c :: cs) := by
  unfold next
  rw [List.dropWhile_cons_of_neg (by rw [h]; exact nofun)]

/-- Blanks in front do not matter. -/
theorem tokens_blank {c : Char} (h : isBlank c = true) (cs : List Char) :
    tokens (c :: cs) = tokens cs := by
  have same : next (c :: cs) = next cs := by
    unfold next
    rw [List.dropWhile_cons_of_pos h]
  rw [tokens_eq (c :: cs), tokens_eq cs, same]

namespace Spells

/-- The tokens of a text that consists of one chunk. -/
theorem tokenize {text : String} {ts : List Token} (h : Spells text.toList ts) :
    tokenize text = .ok ts := by
  have cuts := h [] nofun
  rw [List.append_nil] at cuts
  rw [Legalese.tokenize, cuts, tokens_eq []]
  exact congrArg Except.ok (List.append_nil ts)

theorem nil : Spells [] [] := fun _ _ => rfl

theorem append {cs cs' : List Char} {ts ts' : List Token} (h : Spells cs ts) (h' : Spells cs' ts')
    (outside : ∀ rest, StartsOutside rest → StartsOutside (cs' ++ rest)) :
    Spells (cs ++ cs') (ts ++ ts') := by
  intro rest hr
  rw [List.append_assoc, h _ (outside rest hr), h' rest hr, Tokens.prepend_append]

/-- A mark is a token of its own, whatever comes after it. -/
theorem mark {c : Char} {t : Token} (blank : isBlank c = false)
    (front : ∀ cs, Lexeme.atFront (c :: cs) = .token t cs) {cs : List Char} {ts : List Token}
    (h : Spells cs ts) : Spells (c :: cs) (t :: ts) := by
  intro rest hr
  rw [List.cons_append, tokens_of_next (by rw [next_of_not_blank blank, front]), h rest hr]
  rfl

theorem openParen {cs : List Char} {ts : List Token} (h : Spells cs ts) :
    Spells ('(' :: cs) (⟨.openParen, "("⟩ :: ts) := mark rfl (fun _ => rfl) h

theorem closeParen {cs : List Char} {ts : List Token} (h : Spells cs ts) :
    Spells (')' :: cs) (⟨.closeParen, ")"⟩ :: ts) := mark rfl (fun _ => rfl) h

theorem comma {cs : List Char} {ts : List Token} (h : Spells cs ts) :
    Spells (',' :: cs) (⟨.filler, ","⟩ :: ts) := mark rfl (fun _ => rfl) h

theorem blank {cs : List Char} {ts : List Token} (h : Spells cs ts) : Spells (' ' :: cs) ts := by
  intro rest hr
  rw [List.cons_append, tokens_blank rfl, h rest hr]

/-- A chunk after a blank. -/
theorem space {cs cs' : List Char} {ts ts' : List Token} (h : Spells cs ts)
    (h' : Spells cs' ts') : Spells (cs ++ ' ' :: cs') (ts ++ ts') :=
  append h h'.blank fun _ _ => startsOutside_cons rfl _

end Spells

theorem isBlank_of_isLetter {c : Char} (h : isLetter c = true) : isBlank c = false := by
  simp only [isLetter, isBlank, Bool.or_eq_true, Bool.and_eq_true, decide_eq_true_eq,
    Bool.or_eq_false_iff, beq_eq_false_iff_ne] at *
  refine ⟨⟨⟨?_, ?_⟩, ?_⟩, ?_⟩ <;> rintro rfl <;> revert h <;> decide

theorem isBlank_of_isNumeral {c : Char} (h : isNumeral c = true) : isBlank c = false := by
  simp only [isNumeral, isDigit, isBlank, Bool.or_eq_true, Bool.and_eq_true, decide_eq_true_eq,
    beq_iff_eq, Bool.or_eq_false_iff, beq_eq_false_iff_ne] at *
  refine ⟨⟨⟨?_, ?_⟩, ?_⟩, ?_⟩ <;> rintro rfl <;> revert h <;> decide

/-! ## Texts without their blanks -/

theorem eq_nil_of_atFront {cs : List Char} (h : Lexeme.atFront cs = .ended) : cs = [] := by
  cases cs with
  | nil => rfl
  | cons c cs =>
    simp only [Lexeme.atFront] at h
    repeat' split at h
    all_goals cases h

/-- What stands at the front of a text is the token's literal, unless it is quoted. -/
theorem atFront_literal {c : Char} (front : isBlank c = false) {cs rest : List Char} {t : Token}
    (h : Lexeme.atFront (c :: cs) = .token t rest) (plain : t.kind ≠ .text) :
    c :: cs = t.literal.toList ++ rest ∧ ∀ x ∈ t.literal.toList, isBlank x = false := by
  have run {p : Char → Bool} (blank : ∀ x, p x = true → isBlank x = false) :
      c :: cs = (c :: cs.takeWhile p) ++ cs.dropWhile p ∧
        ∀ x ∈ c :: cs.takeWhile p, isBlank x = false := by
    refine ⟨by rw [List.cons_append, List.takeWhile_append_dropWhile], fun x hx => ?_⟩
    rcases List.mem_cons.1 hx with rfl | hx
    · exact front
    · exact blank x (List.mem_takeWhile_imp hx)
  have single : c :: cs = [c] ++ cs ∧ ∀ x ∈ [c], isBlank x = false :=
    ⟨rfl, fun x hx => by rwa [List.mem_singleton.1 hx]⟩
  simp only [Lexeme.atFront] at h
  split at h
  · split at h
    · cases h
    · cases h
      exact absurd rfl plain
  · split at h
    · next e =>
      cases h
      subst e
      exact single
    · split at h
      · next e =>
        cases h
        subst e
        exact single
      · split at h
        · next e =>
          subst e
          split at h
          · cases h
            exact single
          · next digits =>
            cases h
            rw [String.toList_ofList, ← digits]
            exact run fun _ => isBlank_of_isNumeral
        · split at h
          · cases h
            rw [wordToken, String.toList_ofList]
            exact run fun _ => isBlank_of_isLetter
          · split at h
            · cases h
              rw [String.toList_ofList]
              exact run fun _ => isBlank_of_isNumeral
            · cases h
              rw [String.toList_ofList]
              exact single

theorem filter_dropWhile_isBlank (cs : List Char) :
    (cs.dropWhile isBlank).filter (!isBlank ·) = cs.filter (!isBlank ·) := by
  induction cs with
  | nil => rfl
  | cons c cs ih =>
    by_cases blank : isBlank c = true
    · rw [List.dropWhile_cons_of_pos blank, ih, List.filter_cons_of_neg (by simp [blank])]
    · rw [List.dropWhile_cons_of_neg blank]

/-- A text without quoted texts consists of the literals of its tokens, and of blanks. -/
theorem filter_not_isBlank {cs : List Char} (closed : (tokens cs).unclosed = none)
    (plain : ∀ t ∈ (tokens cs).list, t.kind ≠ .text) :
    cs.filter (!isBlank ·) = (tokens cs).list.flatMap (·.literal.toList) := by
  rw [tokens_eq] at closed plain ⊢
  rw [← filter_dropWhile_isBlank]
  split at closed
  · next ended =>
    unfold next at ended
    rw [eq_nil_of_atFront ended]
    rfl
  · cases closed
  · next t rest found =>
    rw [found] at plain
    have shorter := length_lt_of_next found
    unfold next at found
    cases text : cs.dropWhile isBlank with
    | nil =>
      rw [text] at found
      cases found
    | cons c tail =>
      rw [text] at found
      have front : isBlank c = false := by
        have := List.head?_dropWhile_not isBlank cs
        rw [text] at this
        exact this
      obtain ⟨split, solid⟩ := atFront_literal front found (plain t List.mem_cons_self)
      have ih := filter_not_isBlank closed fun x hx => plain x (List.mem_cons_of_mem t hx)
      rw [split, List.filter_append, ih, List.filter_eq_self.2 fun x hx => by rw [solid x hx]; rfl]
      rfl
termination_by cs.length

/-- A run of letters is one token. -/
theorem spells_word {cs : List Char} (ne : cs ≠ []) (letters : ∀ c ∈ cs, isLetter c = true) :
    Spells cs [wordToken cs] := by
  intro rest hr
  match cs, ne with
  | c :: cs, _ =>
    have hc := letters c List.mem_cons_self
    have hcs := fun x hx => letters x (List.mem_cons_of_mem c hx)
    have stop : rest.takeWhile isLetter = [] ∧ rest.dropWhile isLetter = rest := by
      cases rest with
      | nil => exact ⟨rfl, rfl⟩
      | cons d rest =>
        have hd : ¬isLetter d = true := by rw [hr d rfl]; exact nofun
        exact ⟨List.takeWhile_cons_of_neg hd, List.dropWhile_cons_of_neg hd⟩
    refine tokens_of_next ?_
    rw [List.cons_append, next_of_not_blank (isBlank_of_isLetter hc)]
    have noMark : isQuoteMark c = false ∧ c ≠ '(' ∧ c ≠ ')' ∧ c ≠ '-' := by
      refine ⟨?_, ?_, ?_, ?_⟩
      · unfold isQuoteMark
        rw [beq_eq_false_iff_ne]
        rintro rfl
        revert hc
        decide
      all_goals
        rintro rfl
        revert hc
        decide
    rw [Lexeme.atFront, noMark.1, if_neg nofun, if_neg noMark.2.1, if_neg noMark.2.2.1,
      if_neg noMark.2.2.2, if_pos hc, List.takeWhile_append_of_pos hcs,
      List.dropWhile_append_of_pos hcs, stop.1, stop.2, List.append_nil]

/-- Chunks with their tokens, chunk by chunk. -/
inductive Spelled : List String → List Token → Prop
  | nil : Spelled [] []
  | cons {w : String} {ws : List String} {ts us : List Token} (h : Spells w.toList ts)
      (rest : Spelled ws us) : Spelled (w :: ws) (ts ++ us)

theorem Spelled.one {w : String} {ts : List Token} (h : Spells w.toList ts) : Spelled [w] ts := by
  rw [← List.append_nil ts]
  exact .cons h .nil

theorem Spelled.append {ws ws' : List String} {ts ts' : List Token} (h : Spelled ws ts)
    (h' : Spelled ws' ts') : Spelled (ws ++ ws') (ts ++ ts') := by
  induction h with
  | nil => exact h'
  | cons h _ ih =>
    rw [List.append_assoc]
    exact .cons h ih

/-- Chunks that are written with a blank between them. -/
theorem spells_intercalate {ws : List String} {ts : List Token} (h : Spelled ws ts) :
    Spells (" ".intercalate ws).toList ts := by
  induction h with
  | nil => exact .nil
  | @cons w ws _ _ h rest ih =>
    cases rest with
    | nil =>
      rw [List.append_nil, String.intercalate_singleton]
      exact h
    | cons _ _ =>
      rw [String.intercalate_cons_cons, String.toList_append, String.toList_append,
        List.append_assoc]
      exact .space h ih

/-! ## Words and quoted texts -/

theorem keyword_spelling : ∀ w ∈ Kind.keywords,
    Kind.ofWord? w.1 = some w.2 ∧ w.1.toList ≠ [] ∧ w.1.toList.all isLetter = true := by
  decide +kernel

theorem spells_keyword {w : String × Kind} (h : w ∈ Kind.keywords) :
    Spells w.1.toList [⟨w.2, w.1⟩] := by
  obtain ⟨kind, ne, letters⟩ := keyword_spelling w h
  have spells := spells_word ne (List.all_eq_true.1 letters)
  rwa [wordToken, String.ofList_toList, kind] at spells

theorem spells_name {x : String} (h : IsName x) : Spells x.toList [⟨.name, x⟩] := by
  obtain ⟨c, cs, hx, capital⟩ := h.capital
  have kind : Kind.ofWord? x = some .name := by
    rw [Kind.ofWord?, lookup_eq_none.2 h.free, hx]
    dsimp only
    rw [if_pos capital]
  have spells := spells_word (by rw [hx]; exact List.cons_ne_nil c cs) h.letters
  rwa [wordToken, String.ofList_toList, kind] at spells

theorem spells_quoted {s : String} (h : IsQuotable s) :
    Spells ('\x22' :: (s.toList ++ ['\x22'])) [⟨.text, s⟩] := by
  intro rest _
  refine tokens_of_next ?_
  have inside : ∀ c ∈ s.toList, (!isQuoteMark c) = true := fun c hc => by rw [h c hc]; rfl
  rw [List.cons_append, List.append_assoc, next_of_not_blank rfl, Lexeme.atFront,
    if_pos (show isQuoteMark '\x22' = true from rfl), List.dropWhile_append_of_pos inside,
    List.takeWhile_append_of_pos inside]
  show Lexeme.token ⟨.text, String.ofList (s.toList ++ [])⟩ rest = _
  rw [List.append_nil, String.ofList_toList]

/-! ## Numerals in parentheses -/

namespace Numeral

theorem isNumeral_of_mem_separate {c : Char} {cs : List Char} (digits : ∀ c ∈ cs, isDigit c = true)
    (h : c ∈ separate cs) : isNumeral c = true := by
  induction cs with
  | nil => cases h
  | cons d cs ih =>
    have ih := ih fun x hx => digits x (List.mem_cons_of_mem d hx)
    have hd : isNumeral d = true := by
      unfold isNumeral
      rw [digits d List.mem_cons_self]
      rfl
    rw [separate] at h
    split at h
    · rcases List.mem_cons.1 h with rfl | h
      · exact hd
      · rcases List.mem_cons.1 h with rfl | h
        · rfl
        · exact ih h
    · rcases List.mem_cons.1 h with rfl | h
      · exact hd
      · exact ih h

/-- A numeral without a sign begins with a digit, and has no other characters than those of
numerals. -/
theorem writeNat_spelling (n : Nat) :
    ∃ c cs, writeNat n = c :: cs ∧ isDigit c = true ∧ ∀ x ∈ cs, isNumeral x = true := by
  have digits (c : Char) (h : c ∈ Nat.toDigits 10 n) : isDigit c = true :=
    isDigit_of_mem_toDigits h
  obtain ⟨c, cs, hc⟩ := List.exists_cons_of_ne_nil (Nat.toDigits_ne_nil (n := n) (b := 10))
  obtain ⟨r, hr⟩ := separate_cons c cs
  refine ⟨c, r, by rw [writeNat, hc, hr], digits c (by rw [hc]; exact List.mem_cons_self), ?_⟩
  intro x hx
  refine isNumeral_of_mem_separate digits ?_
  rw [hc, hr]
  exact List.mem_cons_of_mem c hx

theorem next_write (n : Int) (rest : List Char) :
    next ((write n).toList ++ ')' :: rest) = .token ⟨.numeral, write n⟩ (')' :: rest) := by
  obtain ⟨c, cs, hn, digit, numeral⟩ := writeNat_spelling n.natAbs
  have hc : isNumeral c = true := by
    unfold isNumeral
    rw [digit]
    rfl
  have stop : ¬isNumeral ')' = true := by decide
  unfold write
  rw [String.toList_ofList, hn]
  split
  · rw [List.cons_append, next_of_not_blank rfl, Lexeme.atFront, if_neg (by decide),
      if_neg (by decide), if_neg (by decide), if_pos rfl, List.cons_append,
      List.takeWhile_cons_of_pos hc, List.dropWhile_cons_of_pos hc,
      List.takeWhile_append_of_pos numeral, List.dropWhile_append_of_pos numeral,
      List.takeWhile_cons_of_neg stop, List.dropWhile_cons_of_neg stop, List.append_nil]
  · have other : ∀ d : Char, isDigit d = false → c ≠ d := by
      rintro d hd rfl
      rw [digit] at hd
      cases hd
    have blank : isBlank c = false := by
      simp [isBlank, other ' ' rfl, other '\t' rfl, other '\r' rfl, other '\n' rfl]
    have quote : ¬isQuoteMark c = true := by
      simp [isQuoteMark, other '\x22' rfl]
    have letter : ¬isLetter c = true := by
      simp only [isLetter, isDigit, Bool.or_eq_true, Bool.and_eq_true, decide_eq_true_eq,
        Char.le_def, UInt32.le_iff_toNat_le] at digit ⊢
      have : ('9' : Char).val.toNat = 57 := rfl
      have : ('A' : Char).val.toNat = 65 := rfl
      have : ('a' : Char).val.toNat = 97 := rfl
      omega
    rw [List.cons_append, next_of_not_blank blank, Lexeme.atFront, if_neg quote,
      if_neg (other _ rfl), if_neg (other _ rfl), if_neg (other _ rfl), if_neg letter,
      if_pos digit, List.takeWhile_append_of_pos numeral, List.dropWhile_append_of_pos numeral,
      List.takeWhile_cons_of_neg stop, List.dropWhile_cons_of_neg stop, List.append_nil]

/-- The numeral of an integer literal, with its parentheses. -/
theorem spells_parenthesized (n : Int) :
    Spells ('(' :: ((write n).toList ++ [')']))
      [⟨.openParen, "("⟩, ⟨.numeral, write n⟩, ⟨.closeParen, ")"⟩] := by
  refine .openParen fun rest hr => ?_
  have closed := Spells.closeParen .nil rest hr
  rw [List.append_assoc, List.singleton_append, tokens_of_next (next_write n rest)]
  exact congrArg (Tokens.prepend _) closed

end Numeral
/-! ## Cardinals -/

namespace Cardinal

theorem onesWord_mem : ∀ n < 10, 0 < n → (nameIn Kind.onesWords n, n) ∈ Kind.onesWords := by
  decide

theorem teensWord_mem : ∀ n < 20, 10 ≤ n → (nameIn Kind.teensWords n, n) ∈ Kind.teensWords := by
  decide

theorem tensWord_mem : ∀ d < 10, 2 ≤ d →
    (nameIn Kind.tensWords (d * 10), d * 10) ∈ Kind.tensWords := by
  decide

theorem magnitudeWord_mem : ∀ p < 7, 0 < p →
    (nameIn Kind.magnitudeWords (Kind.thousandTo p), Kind.thousandTo p) ∈ Kind.magnitudeWords := by
  decide +kernel

theorem spells_cardinalWord {w : String} {k : CardinalWord}
    (h : (w, Kind.cardinal k) ∈ Kind.cardinalKeywords) :
    Spells w.toList [⟨.cardinal k, w⟩] := by
  refine spells_keyword (w := (w, .cardinal k)) ?_
  unfold Kind.keywords
  rw [List.append_assoc]
  exact List.mem_append_left _ h

theorem spells_ones {n : Nat} (pos : 0 < n) (small : n < 10) :
    Spells (nameIn Kind.onesWords n).toList [onesToken n] := by
  refine spells_cardinalWord ?_
  have mem := List.mem_map_of_mem (f := fun w => (w.1, Kind.cardinal (.ones w.2)))
    (onesWord_mem n small pos)
  simp only [Kind.cardinalKeywords, List.mem_append]
  exact .inl (.inl (.inl (.inl (.inr mem))))

theorem spells_teens {n : Nat} (large : 10 ≤ n) (small : n < 20) :
    Spells (nameIn Kind.teensWords n).toList [teensToken n] := by
  refine spells_cardinalWord ?_
  have mem := List.mem_map_of_mem (f := fun w => (w.1, Kind.cardinal (.teens w.2)))
    (teensWord_mem n small large)
  simp only [Kind.cardinalKeywords, List.mem_append]
  exact .inl (.inl (.inl (.inr mem)))

theorem spells_tens {d : Nat} (large : 2 ≤ d) (small : d < 10) :
    Spells (nameIn Kind.tensWords (d * 10)).toList [tensToken (d * 10)] := by
  refine spells_cardinalWord ?_
  have mem := List.mem_map_of_mem (f := fun w => (w.1, Kind.cardinal (.tens w.2)))
    (tensWord_mem d small large)
  simp only [Kind.cardinalKeywords, List.mem_append]
  exact .inl (.inl (.inr mem))

theorem spells_hundred : Spells "hundred".toList [hundredToken] :=
  spells_cardinalWord (by decide)

theorem spells_magnitude {p : Nat} (pos : 0 < p) (small : p < 7) :
    Spells (nameIn Kind.magnitudeWords (Kind.thousandTo p)).toList [magnitudeToken p] := by
  refine spells_cardinalWord ?_
  have mem := List.mem_map_of_mem (f := fun w => (w.1, Kind.cardinal (.magnitude w.2)))
    (magnitudeWord_mem p small pos)
  simp only [Kind.cardinalKeywords, List.mem_append]
  exact .inr mem

theorem onesWord_starts : ∀ n < 10, 0 < n →
    (nameIn Kind.onesWords n).toList.head?.map isNumeral = some false := by
  decide +kernel

/-- The dash before the units of a number below one hundred. -/
theorem spells_dash {n : Nat} (pos : 0 < n) (small : n < 10) :
    Spells ('-' :: (nameIn Kind.onesWords n).toList) [dashToken, onesToken n] := by
  intro rest hr
  obtain ⟨c, hc, stop⟩ := Option.map_eq_some_iff.1 (onesWord_starts n small pos)
  obtain ⟨cs, hw⟩ := List.head?_eq_some_iff.1 hc
  have dash : next ('-' :: ((nameIn Kind.onesWords n).toList ++ rest)) =
      .token dashToken ((nameIn Kind.onesWords n).toList ++ rest) := by
    rw [next_of_not_blank rfl, Lexeme.atFront, if_neg (by decide), if_neg (by decide),
      if_neg (by decide), if_pos rfl, hw, List.cons_append,
      List.takeWhile_cons_of_neg (by rw [stop]; exact Bool.false_ne_true)]
    rfl
  rw [List.cons_append, tokens_of_next dash, spells_ones pos small rest hr]
  rfl

theorem spelled_belowHundred {n : Nat} (small : n < 100) :
    Spelled (wordsBelowHundred n) (tokensBelowHundred n) := by
  unfold wordsBelowHundred tokensBelowHundred
  split
  · exact .nil
  · split
    · exact .one (spells_ones (by omega) (by omega))
    · split
      · exact .one (spells_teens (by omega) (by omega))
      · have tens : n / 10 * 10 = n - n % 10 := by omega
        split
        · next whole =>
          have spells := spells_tens (d := n / 10) (by omega) (by omega)
          rw [show n / 10 * 10 = n by omega] at spells
          exact .one spells
        · refine .one ?_
          rw [String.toList_append, String.toList_append, List.append_assoc]
          exact .append (spells_tens (by omega) (by omega)) (spells_dash (by omega) (by omega))
            fun _ _ => startsOutside_cons rfl _

theorem spelled_belowThousand {n : Nat} (small : n < 1000) :
    Spelled (wordsBelowThousand n) (tokensBelowThousand n) := by
  unfold wordsBelowThousand tokensBelowThousand
  refine .append ?_ (spelled_belowHundred (by omega))
  split
  · exact .nil
  · exact .cons (spells_ones (by omega) (by omega)) (.one spells_hundred)

theorem spelled_group (n : Nat) {power : Nat} (small : power < 7) :
    Spelled (groupWords n power) (groupTokens n power) := by
  unfold groupWords groupTokens
  dsimp only
  split
  · exact .nil
  · refine .append (spelled_belowThousand (by omega)) ?_
    unfold magnitudeWord magnitudeTokens
    split
    · exact .nil
    · exact .one (spells_magnitude (by omega) small)

theorem spelled_nat (n : Nat) : Spelled (natWords n) (tokensFrom n 6) := by
  unfold natWords
  simp only [List.flatMap_cons, List.flatMap_nil, List.append_nil, tokensFrom]
  refine .append (spelled_group n (by omega)) (.append (spelled_group n (by omega)) ?_)
  refine .append (spelled_group n (by omega)) (.append (spelled_group n (by omega)) ?_)
  refine .append (spelled_group n (by omega)) (.append (spelled_group n (by omega)) ?_)
  exact spelled_group n (by omega)

/-- A written cardinal is cut into the tokens of the cardinal. -/
theorem spells_write (n : Int) : Spells (write n).toList (tokens n) := by
  refine spells_intercalate ?_
  unfold words tokens
  split
  · exact .one (spells_cardinalWord (by decide))
  · split
    · exact .cons (spells_cardinalWord (by decide)) (spelled_nat _)
    · exact spelled_nat _

end Cardinal

namespace Integer

/-- The tokens of an integer literal. -/
def tokens (n : Int) : List Token :=
  Cardinal.tokens n ++ [⟨.openParen, "("⟩, ⟨.numeral, Numeral.write n⟩, ⟨.closeParen, ")"⟩]

theorem spells_write (n : Int) : Spells (write n).toList (tokens n) := by
  unfold write tokens
  simp only [String.toList_append, List.append_assoc]
  exact .space (Cardinal.spells_write n) (Numeral.spells_parenthesized n)

end Integer
end Legalese
