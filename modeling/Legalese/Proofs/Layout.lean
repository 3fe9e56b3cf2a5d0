import Legalese.Proofs.Spelling

/-!
# A text is its tokens and the blanks between them

`Layout` says what the tokens of a text are without cutting it.  Between them are blanks
and nothing else, each of them stands where it is spelled, and no run of letters is
divided.  Neither is a numeral, but it begins with a digit or a dash: commas before it are
tokens of their own.

Main statement: a text has no tokens if and only if its quotation marks are odd in number,
and then the words after the last mark are to blame.  Otherwise the tokens are laid out in
it, and they are the only ones that are.
-/

namespace Legalese

/-! ## Tokens in their place -/

/-- No character of a class stands at the head of a text. -/
def BeginsOutside (p : Char → Bool) (cs : List Char) : Prop := ∀ c, cs.head? = some c → p c = false

/-- No character of a class stands at the end of a text. -/
def EndsOutside (p : Char → Bool) (cs : List Char) : Prop :=
  ∀ c, cs.getLast? = some c → p c = false

/-- The characters that a numeral begins with. -/
def beginsNumeral (c : Char) : Bool := isDigit c || c == '-'

/-- The characters that belong to no other class. -/
def isLone (c : Char) : Bool :=
  !(isBlank c || isQuoteMark c || c == '(' || c == ')' || beginsNumeral c || isLetter c)

namespace Token

/-- A token as it is written in a text. -/
def spelling (t : Token) : List Char :=
  if t.kind = .text then '\x22' :: (t.literal.toList ++ ['\x22']) else t.literal.toList

/-- The tokens that can stand between what comes before and after them. -/
inductive Stands (before after : List Char) : Token → Prop
  | quoted {s : String} (h : IsQuotable s) : Stands before after ⟨.text, s⟩
  /-- A run of letters that goes on in neither direction. -/
  | word {c : Char} {cs : List Char} (letters : ∀ x ∈ c :: cs, isLetter x = true)
      (opens : EndsOutside isLetter before) (closes : BeginsOutside isLetter after) :
      Stands before after (wordToken (c :: cs))
  /-- A run of the characters of numerals that does not go on. -/
  | numeral {c : Char} {cs : List Char} (first : beginsNumeral c = true)
      (run : ∀ x ∈ cs, isNumeral x = true) (signed : c = '-' → cs ≠ [])
      (opens : EndsOutside beginsNumeral before) (closes : BeginsOutside isNumeral after) :
      Stands before after ⟨.numeral, String.ofList (c :: cs)⟩
  | dash (closes : BeginsOutside isNumeral after) : Stands before after ⟨.dash, "-"⟩
  | openParen : Stands before after ⟨.openParen, "("⟩
  | closeParen : Stands before after ⟨.closeParen, ")"⟩
  | lone {c : Char} (h : isLone c = true) : Stands before after ⟨.filler, String.ofList [c]⟩

end Token

/-- How the tokens of a text are laid out in it, after some other text.  After the last token
there may be a quotation mark that is never closed. -/
inductive Layout : List Char → List Char → Tokens → Prop
  | ended {before gap : List Char} (blank : ∀ c ∈ gap, isBlank c = true) :
      Layout before gap ⟨[], none⟩
  | unclosed {before gap : List Char} {s : String} (blank : ∀ c ∈ gap, isBlank c = true)
      (h : IsQuotable s) : Layout before (gap ++ '\x22' :: s.toList) ⟨[], some s⟩
  | token {before gap rest : List Char} {t : Token} {ts : Tokens}
      (blank : ∀ c ∈ gap, isBlank c = true) (stands : t.Stands (before ++ gap) rest)
      (next : Layout (before ++ gap ++ t.spelling) rest ts) :
      Layout before (gap ++ (t.spelling ++ rest)) (ts.prepend [t])

/-! ## Classes of characters -/

theorem ne_of_class {p : Char → Bool} {c d : Char} (hc : p c = true) (hd : p d = false) :
    c ≠ d := by
  rintro rfl
  rw [hc] at hd
  cases hd

theorem isLetter_of_isDigit {c : Char} (h : isDigit c = true) : isLetter c = false := by
  rw [Bool.eq_false_iff]
  simp only [isLetter, isDigit, Bool.or_eq_true, Bool.and_eq_true, decide_eq_true_eq,
    Char.le_def, UInt32.le_iff_toNat_le, ne_eq] at h ⊢
  have : ('9' : Char).val.toNat = 57 := rfl
  have : ('A' : Char).val.toNat = 65 := rfl
  have : ('a' : Char).val.toNat = 97 := rfl
  omega

theorem isNumeral_of_beginsNumeral {c : Char} (h : beginsNumeral c = true) :
    isNumeral c = true := by
  simp only [beginsNumeral, isNumeral, Bool.or_eq_true] at h ⊢
  rcases h with h | h
  · exact .inl (.inl h)
  · exact .inr h

theorem isLetter_of_isNumeral {c : Char} (h : isNumeral c = true) : isLetter c = false := by
  simp only [isNumeral, Bool.or_eq_true, beq_iff_eq] at h
  rcases h with (h | rfl) | rfl
  · exact isLetter_of_isDigit h
  · rfl
  · rfl

/-- A character that is in no class but this one. -/
structure Lone (c : Char) : Prop where
  blank : isBlank c = false
  mark : isQuoteMark c = false
  openParen : c ≠ '('
  closeParen : c ≠ ')'
  numeral : beginsNumeral c = false
  letter : isLetter c = false

theorem isLone_iff {c : Char} : isLone c = true ↔ Lone c := by
  simp only [isLone, Bool.not_eq_true', Bool.or_eq_false_iff, beq_eq_false_iff_ne]
  constructor
  · rintro ⟨⟨⟨⟨⟨blank, mark⟩, opening⟩, closing⟩, numeral⟩, letter⟩
    exact ⟨blank, mark, opening, closing, numeral, letter⟩
  · rintro ⟨blank, mark, opening, closing, numeral, letter⟩
    exact ⟨⟨⟨⟨⟨blank, mark⟩, opening⟩, closing⟩, numeral⟩, letter⟩

/-! ## The front of a text, by its first character -/

namespace Lexeme

theorem atFront_letter {c : Char} (h : isLetter c = true) (cs : List Char) :
    atFront (c :: cs) =
      .token (wordToken (c :: cs.takeWhile isLetter)) (cs.dropWhile isLetter) := by
  have mark : isQuoteMark c = false := beq_eq_false_iff_ne.2 (ne_of_class h rfl)
  rw [atFront, if_neg (ne_true_of_eq_false mark), if_neg (ne_of_class h rfl),
    if_neg (ne_of_class h rfl), if_neg (ne_of_class h rfl), if_pos h]

theorem atFront_digit {c : Char} (h : isDigit c = true) (cs : List Char) :
    atFront (c :: cs) =
      .token ⟨.numeral, String.ofList (c :: cs.takeWhile isNumeral)⟩ (cs.dropWhile isNumeral) := by
  have mark : isQuoteMark c = false := beq_eq_false_iff_ne.2 (ne_of_class h rfl)
  have letter := isLetter_of_isDigit h
  rw [atFront, if_neg (ne_true_of_eq_false mark), if_neg (ne_of_class h rfl),
    if_neg (ne_of_class h rfl), if_neg (ne_of_class h rfl), if_neg (ne_true_of_eq_false letter),
    if_pos h]

theorem atFront_dash (cs : List Char) :
    atFront ('-' :: cs) =
      match cs.takeWhile isNumeral with
      | [] => .token ⟨.dash, "-"⟩ cs
      | d :: ds => .token ⟨.numeral, String.ofList ('-' :: d :: ds)⟩ (cs.dropWhile isNumeral) :=
  rfl

theorem atFront_mark (cs : List Char) :
    atFront ('\x22' :: cs) =
      match cs.dropWhile (!isQuoteMark ·) with
      | [] => .unclosed (String.ofList cs)
      | _ :: rest => .token ⟨.text, String.ofList (cs.takeWhile (!isQuoteMark ·))⟩ rest :=
  rfl

theorem atFront_lone {c : Char} (h : Lone c) (cs : List Char) :
    atFront (c :: cs) = .token ⟨.filler, String.ofList [c]⟩ cs := by
  have numeral := h.numeral
  simp only [beginsNumeral, Bool.or_eq_false_iff, beq_eq_false_iff_ne] at numeral
  rw [atFront, if_neg (ne_true_of_eq_false h.mark), if_neg h.openParen, if_neg h.closeParen,
    if_neg numeral.2, if_neg (ne_true_of_eq_false h.letter),
    if_neg (ne_true_of_eq_false numeral.1)]

end Lexeme

/-! ## Runs -/

theorem takeWhile_run {p : Char → Bool} {cs rest : List Char} (inside : ∀ c ∈ cs, p c = true)
    (outside : BeginsOutside p rest) : (cs ++ rest).takeWhile p = cs := by
  rw [List.takeWhile_append_of_pos inside]
  cases rest with
  | nil => exact List.append_nil cs
  | cons c rest =>
    rw [List.takeWhile_cons_of_neg (ne_true_of_eq_false (outside c rfl)), List.append_nil]

theorem dropWhile_run {p : Char → Bool} {cs rest : List Char} (inside : ∀ c ∈ cs, p c = true)
    (outside : BeginsOutside p rest) : (cs ++ rest).dropWhile p = rest := by
  rw [List.dropWhile_append_of_pos inside]
  cases rest with
  | nil => rfl
  | cons c rest => exact List.dropWhile_cons_of_neg (ne_true_of_eq_false (outside c rfl))

theorem beginsOutside_dropWhile (p : Char → Bool) (cs : List Char) :
    BeginsOutside p (cs.dropWhile p) := by
  intro c hc
  have stop := List.head?_dropWhile_not p cs
  rw [hc] at stop
  exact stop

theorem beginsOutside_mark (cs : List Char) : BeginsOutside (!isQuoteMark ·) ('\x22' :: cs) := by
  rintro _ ⟨⟩
  rfl

/-! ## Tokens that stand in a text are found -/

namespace Token

theorem kind_wordToken (cs : List Char) : (wordToken cs).kind ≠ .text := by
  unfold wordToken
  dsimp only
  cases hk : Kind.ofWord? (String.ofList cs) with
  | none => nofun
  | some k =>
    rcases ofWord?_cases hk with ⟨-, text⟩ | ⟨-, c, _, -, rfl⟩
    · exact text
    · show (if _ then _ else _) ≠ _
      split <;> exact nofun

theorem spelling_text (s : String) :
    spelling ⟨.text, s⟩ = '\x22' :: (s.toList ++ ['\x22']) := rfl

theorem spelling_of_kind {k : Kind} (h : k ≠ .text) (cs : List Char) :
    spelling ⟨k, String.ofList cs⟩ = cs := by
  rw [spelling, if_neg h]
  exact String.toList_ofList

theorem spelling_wordToken (cs : List Char) : (wordToken cs).spelling = cs :=
  spelling_of_kind (kind_wordToken cs) cs

theorem atFront_of_stands {before rest : List Char} {t : Token} (h : t.Stands before rest) :
    Lexeme.atFront (t.spelling ++ rest) = .token t rest := by
  cases h with
  | @quoted s h =>
    have inside : ∀ c ∈ s.toList, (!isQuoteMark c) = true := fun c hc => by rw [h c hc]; rfl
    have outside := beginsOutside_mark rest
    rw [spelling_text, List.cons_append, List.append_assoc, Lexeme.atFront_mark,
      List.singleton_append, dropWhile_run inside outside, takeWhile_run inside outside,
      String.ofList_toList]
  | @word c cs letters opens closes =>
    have inside := fun x hx => letters x (List.mem_cons_of_mem c hx)
    rw [spelling_wordToken, List.cons_append, Lexeme.atFront_letter (letters c List.mem_cons_self),
      takeWhile_run inside closes, dropWhile_run inside closes]
  | @numeral c cs first run signed opens closes =>
    rw [spelling_of_kind (by decide), List.cons_append]
    by_cases digit : isDigit c = true
    · rw [Lexeme.atFront_digit digit, takeWhile_run run closes, dropWhile_run run closes]
    · obtain rfl : c = '-' := by simpa [beginsNumeral, digit] using first
      rw [Lexeme.atFront_dash, takeWhile_run run closes, dropWhile_run run closes]
      cases cs with
      | nil => exact absurd rfl (signed rfl)
      | cons d ds => rfl
  | dash closes =>
    show Lexeme.atFront ('-' :: rest) = _
    have none : ([] ++ rest).takeWhile isNumeral = [] := takeWhile_run nofun closes
    rw [List.nil_append] at none
    rw [Lexeme.atFront_dash, none]
  | openParen => rfl
  | closeParen => rfl
  | @lone c h =>
    rw [spelling_of_kind (by decide)]
    exact Lexeme.atFront_lone (isLone_iff.1 h) rest

end Token

/-! ## Tokens that are found stand in the text -/

theorem char_cases (c : Char) :
    isBlank c = true ∨ c = '\x22' ∨ isLetter c = true ∨ isDigit c = true ∨ c = '-' ∨ c = '(' ∨
      c = ')' ∨ Lone c := by
  by_cases lone : isLone c = true
  · exact .inr (.inr (.inr (.inr (.inr (.inr (.inr (isLone_iff.1 lone)))))))
  · simp only [isLone, beginsNumeral, isQuoteMark, Bool.not_eq_true', Bool.not_eq_false,
      Bool.or_eq_true, beq_iff_eq] at lone
    rcases lone with ((((blank | mark) | opening) | closing) | digit | dash) | letter
    all_goals simp [*]

/-- What stands before a place and what comes after it do not belong together. -/
structure Apart (before after : List Char) : Prop where
  word : EndsOutside isLetter before ∨ BeginsOutside isLetter after
  numeral : EndsOutside beginsNumeral before ∨ BeginsOutside isNumeral after

theorem endsOutside_append {p : Char → Bool} (before : List Char) {cs : List Char} (ne : cs ≠ [])
    (h : ∀ c ∈ cs, p c = false) : EndsOutside p (before ++ cs) := by
  intro c hc
  rw [List.getLast?_append, List.getLast?_eq_some_getLast ne] at hc
  cases hc
  exact h _ (List.getLast_mem ne)

theorem beginsNumeral_of_isLetter {c : Char} (h : isLetter c = true) : beginsNumeral c = false := by
  cases hc : beginsNumeral c with
  | false => rfl
  | true =>
    rw [isLetter_of_isNumeral (isNumeral_of_beginsNumeral hc)] at h
    cases h

theorem Apart.gap {before gap after : List Char} (h : Apart before (gap ++ after))
    (blank : ∀ c ∈ gap, isBlank c = true) : Apart (before ++ gap) after := by
  cases gap with
  | nil => rwa [List.append_nil]
  | cons c gap =>
    have outside {p : Char → Bool} (solid : ∀ c, p c = true → isBlank c = false) :
        EndsOutside p (before ++ c :: gap) := by
      refine endsOutside_append before (List.cons_ne_nil c gap) fun x hx => ?_
      cases hp : p x with
      | false => rfl
      | true => rw [← solid x hp, blank x hx]
    exact ⟨.inl (outside fun _ => isBlank_of_isLetter),
      .inl (outside fun _ h => isBlank_of_isNumeral (isNumeral_of_beginsNumeral h))⟩

theorem Token.Stands.apart {before after : List Char} {t : Token} (h : t.Stands before after) :
    Apart (before ++ t.spelling) after := by
  have one {p : Char → Bool} {c : Char} (before : List Char) (hc : p c = false) :
      EndsOutside p (before ++ [c]) :=
    endsOutside_append before (List.cons_ne_nil c []) fun x hx => by rwa [List.mem_singleton.1 hx]
  cases h with
  | @quoted s h =>
    rw [spelling_text, ← List.cons_append, ← List.append_assoc]
    exact ⟨.inl (one _ rfl), .inl (one _ rfl)⟩
  | @word c cs letters opens closes =>
    rw [spelling_wordToken]
    exact ⟨.inr closes, .inl (endsOutside_append before (List.cons_ne_nil c cs)
      fun x hx => beginsNumeral_of_isLetter (letters x hx))⟩
  | @numeral c cs first run signed opens closes =>
    rw [spelling_of_kind (by decide)]
    refine ⟨.inl (endsOutside_append before (List.cons_ne_nil c cs) fun x hx => ?_), .inr closes⟩
    rcases List.mem_cons.1 hx with rfl | hx
    · exact isLetter_of_isNumeral (isNumeral_of_beginsNumeral first)
    · exact isLetter_of_isNumeral (run x hx)
  | dash closes => exact ⟨.inl (one before rfl), .inr closes⟩
  | openParen => exact ⟨.inl (one before rfl), .inl (one before rfl)⟩
  | closeParen => exact ⟨.inl (one before rfl), .inl (one before rfl)⟩
  | @lone c h =>
    have lone := isLone_iff.1 h
    rw [spelling_of_kind (by decide)]
    exact ⟨.inl (one before lone.letter), .inl (one before lone.numeral)⟩

/-- A quoted text ends at the next mark. -/
theorem eq_mark_of_dropWhile {cs rest : List Char} {c : Char}
    (h : cs.dropWhile (!isQuoteMark ·) = c :: rest) : c = '\x22' := by
  have stop := List.head?_dropWhile_not (!isQuoteMark ·) cs
  rw [h] at stop
  simpa [isQuoteMark] using stop

theorem isQuotable_takeWhile (cs : List Char) :
    IsQuotable (String.ofList (cs.takeWhile (!isQuoteMark ·))) := by
  intro c hc
  rw [String.toList_ofList] at hc
  simpa using List.mem_takeWhile_imp hc

theorem stands_of_atFront {before cs rest : List Char} {t : Token} (apart : Apart before cs)
    (front : BeginsOutside isBlank cs) (h : Lexeme.atFront cs = .token t rest) :
    cs = t.spelling ++ rest ∧ t.Stands before rest := by
  cases cs with
  | nil => cases h
  | cons c cs =>
    have word (hc : isLetter c = true) : EndsOutside isLetter before :=
      apart.word.resolve_right fun outside => by rw [outside c rfl] at hc; cases hc
    have numeral (hc : isNumeral c = true) : EndsOutside beginsNumeral before :=
      apart.numeral.resolve_right fun outside => by rw [outside c rfl] at hc; cases hc
    rcases char_cases c with blank | rfl | letter | digit | rfl | rfl | rfl | lone
    · rw [front c rfl] at blank
      cases blank
    · rw [Lexeme.atFront_mark] at h
      split at h
      · cases h
      · next d rest closed =>
        cases h
        obtain rfl := eq_mark_of_dropWhile closed
        refine ⟨?_, .quoted (isQuotable_takeWhile cs)⟩
        rw [Token.spelling_text, String.toList_ofList, List.cons_append, List.append_assoc,
          List.singleton_append, ← closed, List.takeWhile_append_dropWhile]
    · rw [Lexeme.atFront_letter letter] at h
      cases h
      refine ⟨?_, .word ?_ (word letter) (beginsOutside_dropWhile isLetter cs)⟩
      · rw [Token.spelling_wordToken, List.cons_append, List.takeWhile_append_dropWhile]
      · intro x hx
        rcases List.mem_cons.1 hx with rfl | hx
        · exact letter
        · exact List.mem_takeWhile_imp hx
    · have first : beginsNumeral c = true := by rw [beginsNumeral, digit]; rfl
      rw [Lexeme.atFront_digit digit] at h
      cases h
      refine ⟨?_, .numeral first (fun _ => List.mem_takeWhile_imp) (fun e => ?_)
        (numeral (isNumeral_of_beginsNumeral first)) (beginsOutside_dropWhile isNumeral cs)⟩
      · rw [Token.spelling_of_kind (by decide), List.cons_append, List.takeWhile_append_dropWhile]
      · rw [e] at digit
        cases digit
    · rw [Lexeme.atFront_dash] at h
      have split := List.takeWhile_append_dropWhile (p := isNumeral) (l := cs)
      have stop := beginsOutside_dropWhile isNumeral cs
      split at h
      · next none =>
        cases h
        rw [none, List.nil_append] at split
        rw [split] at stop
        exact ⟨rfl, .dash stop⟩
      · next d ds digits =>
        cases h
        refine ⟨?_, .numeral rfl (fun x hx => ?_) (fun _ => List.cons_ne_nil d ds) (numeral rfl)
          stop⟩
        · rw [Token.spelling_of_kind (by decide), List.cons_append, ← digits, split]
        · rw [← digits] at hx
          exact List.mem_takeWhile_imp hx
    · cases h
      exact ⟨rfl, .openParen⟩
    · cases h
      exact ⟨rfl, .closeParen⟩
    · rw [Lexeme.atFront_lone lone] at h
      cases h
      exact ⟨by rw [Token.spelling_of_kind (by decide)]; rfl, .lone (isLone_iff.2 lone)⟩

/-! ## Layouts -/

theorem next_gap {gap : List Char} (blank : ∀ c ∈ gap, isBlank c = true) {cs : List Char}
    (front : BeginsOutside isBlank cs) : next (gap ++ cs) = Lexeme.atFront cs := by
  unfold next
  rw [dropWhile_run blank front]

theorem Token.Stands.front {before after : List Char} {t : Token} (h : t.Stands before after) :
    BeginsOutside isBlank (t.spelling ++ after) := by
  cases h with
  | quoted h => rintro _ ⟨⟩; rfl
  | word letters =>
    rw [spelling_wordToken]
    rintro _ ⟨⟩
    exact isBlank_of_isLetter (letters _ List.mem_cons_self)
  | numeral first =>
    rw [spelling_of_kind (by decide)]
    rintro _ ⟨⟩
    exact isBlank_of_isNumeral (isNumeral_of_beginsNumeral first)
  | dash => rintro _ ⟨⟩; rfl
  | openParen => rintro _ ⟨⟩; rfl
  | closeParen => rintro _ ⟨⟩; rfl
  | lone h =>
    rw [spelling_of_kind (by decide)]
    rintro _ ⟨⟩
    exact (isLone_iff.1 h).blank

theorem unclosed_of_atFront {cs : List Char} {s : String} (h : Lexeme.atFront cs = .unclosed s) :
    cs = '\x22' :: s.toList ∧ IsQuotable s := by
  cases cs with
  | nil => cases h
  | cons c cs =>
    simp only [Lexeme.atFront] at h
    split at h
    · next mark =>
      split at h
      · next open_ =>
        cases h
        have inside := isQuotable_takeWhile cs
        have all := List.takeWhile_append_dropWhile (p := (!isQuoteMark ·)) (l := cs)
        rw [open_, List.append_nil] at all
        rw [all] at inside
        rw [String.toList_ofList, beq_iff_eq.1 mark]
        exact ⟨rfl, inside⟩
      · cases h
    · repeat' split at h
      all_goals cases h

/-- The tokens of a text are laid out in it, by induction on the text that is left. -/
theorem layout_tokens {before cs : List Char} (apart : Apart before cs) :
    Layout before cs (tokens cs) := by
  have blank : ∀ c ∈ cs.takeWhile isBlank, isBlank c = true := fun _ => List.mem_takeWhile_imp
  have front := beginsOutside_dropWhile isBlank cs
  have whole := (List.takeWhile_append_dropWhile (p := isBlank) (l := cs)).symm
  generalize cs.takeWhile isBlank = gap at blank whole
  generalize cs.dropWhile isBlank = rest at front whole
  have found := next_gap blank front
  rw [← whole] at found
  rw [tokens_eq, found, whole]
  split
  · next ended =>
    rw [eq_nil_of_atFront ended, List.append_nil]
    exact .ended blank
  · next literal failed =>
    obtain ⟨rfl, quotable⟩ := unclosed_of_atFront failed
    exact .unclosed blank quotable
  · next t after found =>
    have shorter : after.length < cs.length := by
      have := length_lt_of_atFront found
      rw [whole, List.length_append]
      omega
    obtain ⟨split, stands⟩ := stands_of_atFront ((whole ▸ apart).gap blank) front found
    rw [split]
    exact .token blank stands (layout_tokens stands.apart)
termination_by cs.length

/-- A layout tells the tokens of its text. -/
theorem Layout.tokens_eq {before cs : List Char} {ts : Tokens} (h : Layout before cs ts) :
    tokens cs = ts := by
  induction h with
  | @ended before gap blank =>
    have none : next (gap ++ []) = Lexeme.atFront [] := next_gap blank nofun
    rw [List.append_nil] at none
    rw [Legalese.tokens_eq, none]
    rfl
  | @unclosed before gap s blank h =>
    have inside : s.toList.dropWhile (!isQuoteMark ·) = [] := by
      have run : (s.toList ++ []).dropWhile (!isQuoteMark ·) = [] :=
        dropWhile_run (fun c hc => by rw [h c hc]; rfl) nofun
      rwa [List.append_nil] at run
    have front : BeginsOutside isBlank ('\x22' :: s.toList) := by rintro _ ⟨⟩; rfl
    rw [Legalese.tokens_eq, next_gap blank front, Lexeme.atFront_mark, inside, String.ofList_toList]
  | @token before gap rest t ts blank stands next ih =>
    rw [tokens_of_next ((next_gap blank stands.front).trans (Token.atFront_of_stands stands)), ih]

/-! ## Quotation marks -/

theorem count_mark_eq_zero {cs : List Char} (h : ∀ c ∈ cs, isQuoteMark c = false) :
    cs.count '\x22' = 0 := by
  refine List.count_eq_zero.2 fun mem => ?_
  have mark := h _ mem
  cases mark

/-- The marks of a token come in pairs. -/
theorem Token.Stands.count_mark {before after : List Char} {t : Token} (h : t.Stands before after) :
    t.spelling.count '\x22' % 2 = 0 := by
  have none {cs : List Char} (h : ∀ c ∈ cs, isQuoteMark c = false) : cs.count '\x22' % 2 = 0 := by
    rw [count_mark_eq_zero h]
  cases h with
  | @quoted s h =>
    rw [spelling_text, List.count_cons, List.count_append, count_mark_eq_zero h]
    rfl
  | word letters =>
    rw [spelling_wordToken]
    exact none fun c hc => beq_eq_false_iff_ne.2 (ne_of_class (letters c hc) rfl)
  | numeral first run =>
    rw [spelling_of_kind (by decide)]
    refine none fun c hc => beq_eq_false_iff_ne.2 ?_
    rcases List.mem_cons.1 hc with rfl | hc
    · exact ne_of_class first rfl
    · exact ne_of_class (run c hc) rfl
  | dash => rfl
  | openParen => rfl
  | closeParen => rfl
  | lone h =>
    rw [spelling_of_kind (by decide)]
    refine none fun c hc => ?_
    rw [List.mem_singleton.1 hc]
    exact (isLone_iff.1 h).mark

/-- What the number of quotation marks tells of a layout. -/
theorem Layout.marks {before cs : List Char} {ts : Tokens} (h : Layout before cs ts) :
    match ts.unclosed with
    | none => cs.count '\x22' % 2 = 0
    | some s =>
      cs.count '\x22' % 2 = 1 ∧ IsQuotable s ∧ ∃ front, cs = front ++ '\x22' :: s.toList := by
  have noMark {gap : List Char} (blank : ∀ c ∈ gap, isBlank c = true) : gap.count '\x22' = 0 :=
    count_mark_eq_zero fun c hc => beq_eq_false_iff_ne.2 (ne_of_class (blank c hc) rfl)
  induction h with
  | ended blank =>
    show List.count _ _ % 2 = 0
    rw [noMark blank]
  | @unclosed before gap s blank h =>
    refine ⟨?_, h, gap, rfl⟩
    rw [List.count_append, List.count_cons, noMark blank, count_mark_eq_zero h]
    rfl
  | @token before gap rest t ts blank stands next ih =>
    have pairs := stands.count_mark
    have count : (gap ++ (t.spelling ++ rest)).count '\x22' % 2 = rest.count '\x22' % 2 := by
      rw [List.count_append, List.count_append, noMark blank]
      omega
    have same : (ts.prepend [t]).unclosed = ts.unclosed := rfl
    rw [same, count]
    split
    · next closed =>
      rw [closed] at ih
      exact ih
    · next s unclosed =>
      rw [unclosed] at ih
      obtain ⟨odd, quotable, front, rfl⟩ := ih
      exact ⟨odd, quotable, gap ++ (t.spelling ++ front), by simp only [List.append_assoc]⟩

/-- The words after the last mark are determined. -/
theorem eq_of_last_mark {front front' : List Char} {s s' : String} (h : IsQuotable s)
    (h' : IsQuotable s') (same : front ++ '\x22' :: s.toList = front' ++ '\x22' :: s'.toList) :
    s = s' := by
  have one {cs : List Char} {s s' : String} (h : IsQuotable s)
      (same : '\x22' :: s.toList = cs ++ '\x22' :: s'.toList) : s = s' := by
    cases cs with
    | nil => exact String.toList_inj.1 (List.cons.inj same).2
    | cons c cs =>
      have mark := h '\x22' ((List.cons.inj same).2 ▸ List.mem_append_right cs List.mem_cons_self)
      cases mark
  rcases List.append_eq_append_iff.1 same with ⟨cs, -, same⟩ | ⟨cs, -, same⟩
  · exact one h same
  · exact (one h' same).symm

theorem layout_source (source : String) :
    Layout [] source.toList (tokens source.toList) :=
  layout_tokens ⟨.inl nofun, .inl nofun⟩

theorem tokenize_eq_error_iff {source literal : String} :
    tokenize source = .error literal ↔ source.toList.count '\x22' % 2 = 1 ∧
      IsQuotable literal ∧ ∃ front, source.toList = front ++ '\x22' :: literal.toList := by
  have marks := (layout_source source).marks
  unfold tokenize
  generalize tokens source.toList = all at marks
  obtain ⟨ts, unclosed⟩ := all
  cases unclosed with
  | none =>
    constructor
    · nofun
    · rintro ⟨odd, -⟩
      have even : source.toList.count '\x22' % 2 = 0 := marks
      omega
  | some s =>
    obtain ⟨odd, quotable, front, whole⟩ := marks
    constructor
    · rintro ⟨⟩
      exact ⟨odd, quotable, front, whole⟩
    · rintro ⟨-, quotable', front', whole'⟩
      exact congrArg Except.error (eq_of_last_mark quotable quotable' (whole.symm.trans whole'))

theorem tokenize_eq_ok_iff {source : String} {ts : List Token} :
    tokenize source = .ok ts ↔ Layout [] source.toList ⟨ts, none⟩ := by
  constructor
  · intro h
    have layout := layout_source source
    unfold tokenize at h
    generalize tokens source.toList = all at h layout
    obtain ⟨list, unclosed⟩ := all
    cases unclosed with
    | none => cases h; exact layout
    | some s => cases h
  · intro h
    rw [tokenize, h.tokens_eq]

/-- Cutting a text into tokens loses nothing.  It fails just when the quotation marks are odd
in number, with the words after the last one; otherwise the tokens are those that are laid
out in the text, with blanks between them. -/
theorem tokenize_layout (source : String) :
    (∀ literal, tokenize source = .error literal ↔ source.toList.count '\x22' % 2 = 1 ∧
      IsQuotable literal ∧ ∃ front, source.toList = front ++ '\x22' :: literal.toList) ∧
      ∀ ts, tokenize source = .ok ts ↔ Layout [] source.toList ⟨ts, none⟩ :=
  ⟨fun _ => tokenize_eq_error_iff, fun _ => tokenize_eq_ok_iff⟩

end Legalese
