import Legalese.Graph
import Legalese.Proofs.Layout
import Legalese.Proofs.Reading.Yield

/-!
# Labels can be read in only one way

A label puts parentheses around every operator and its operands, so it can be divided in
only one way, also where a text inside it has parentheses and words of its own.  What stands
between two parentheses is a row of parts, operator words and operands.  The first character
of a part tells what it is, and where a part has come to its end, a blank or a closing
parenthesis follows, which is nothing that the part could go on with.
-/

namespace Legalese

namespace Expr

/-- Integers are in the range and words can be spelled, whatever operators stand around
them. -/
def Legible : Expr → Prop
  | integer n => InRange n
  | text s => IsQuotable s
  | name x => IsName x
  | unary _ e => e.Legible
  | binary _ a b => a.Legible ∧ b.Legible
  | less l r => l.Legible ∧ r.Legible
  | power _ e => e.Legible

/-- The characters of a label, for a number outside the range too. -/
def labelChars : Expr → List Char
  | integer n => (Numeral.write n).toList
  | text s => '\x22' :: (s.toList ++ ['\x22'])
  | name x => x.toList
  | unary op e => '(' :: (op.word.toList ++ ' ' :: (e.labelChars ++ [')']))
  | binary op a b =>
    '(' :: (op.word.toList ++ ' ' :: (a.labelChars ++ ' ' :: (b.labelChars ++ [')'])))
  | less l r =>
    '(' :: (l.labelChars ++ ' ' :: (lessWord.toList ++ ' ' :: (r.labelChars ++ [')'])))
  | power op e => '(' :: (e.labelChars ++ ' ' :: (op.word.toList ++ [')']))

end Expr

namespace Graph

theorem ok_of_chars {s : String} {cs : List Char} (h : s.toList = cs) :
    (.ok s : Except OutsideRange String) = .ok (String.ofList cs) := by
  rw [← h, String.ofList_toList]

theorem exprLabel_eq {e : Expr} (h : e.Legible) :
    exprLabel e = .ok (String.ofList e.labelChars) := by
  induction e with
  | integer n =>
    have inRange : InRange n := h
    rw [exprLabel, Numeral.write?, inRangeOnly, if_pos inRange, Expr.labelChars,
      String.ofList_toList]
  | text s => exact ok_of_chars (by simp [Expr.labelChars])
  | name x => exact ok_of_chars rfl
  | unary op e ih =>
    rw [exprLabel, ih h, ok_bind]
    exact ok_of_chars (by simp [Expr.labelChars])
  | binary op a b iha ihb =>
    rw [exprLabel, iha h.1, ok_bind, ihb h.2, ok_bind]
    exact ok_of_chars (by simp [Expr.labelChars])
  | less l r ihl ihr =>
    rw [exprLabel, ihl h.1, ok_bind, ihr h.2, ok_bind]
    exact ok_of_chars (by simp [Expr.labelChars])
  | power op e ih =>
    rw [exprLabel, ih h, ok_bind]
    exact ok_of_chars (by simp [Expr.labelChars])

/-! ## Parts and their first characters -/

/-- The words of operators. -/
def words : List String :=
  UnaryOperator.all.map (·.word) ++ BinaryOperator.all.map (·.word) ++ [lessWord] ++
    Exponent.all.map (·.word)

/-- What may stand between blanks and parentheses. -/
inductive Part
  | word (w : String)
  | operand (e : Expr)

/-- What a first character can tell of a part. -/
inductive Lead
  | small
  | digit
  | mark
  | capital
  | paren
  deriving DecidableEq

namespace Lead

def ofChar (c : Char) : Lead :=
  if c = '(' then paren
  else if isQuoteMark c then mark
  else if isNumeral c then digit
  else if 'A' ≤ c ∧ c ≤ 'Z' then capital
  else small

def ofExpr : Expr → Lead
  | .integer _ => digit
  | .text _ => mark
  | .name _ => capital
  | _ => paren

def ofPart : Part → Lead
  | .word _ => small
  | .operand e => ofExpr e

end Lead

namespace Part

def chars : Part → List Char
  | word w => w.toList
  | operand e => e.labelChars

def Legible : Part → Prop
  | word w => w ∈ words
  | operand e => e.Legible

end Part

theorem writeNat_numeral (n : Nat) : ∀ c ∈ Numeral.writeNat n, isNumeral c = true := by
  obtain ⟨c, cs, text, digit, numeral⟩ := Numeral.writeNat_spelling n
  have first : isNumeral c = true := by
    unfold isNumeral
    rw [digit]
    rfl
  rw [text]
  exact List.forall_mem_cons.2 ⟨first, numeral⟩

theorem write_numeral (n : Int) : ∀ c ∈ (Numeral.write n).toList, isNumeral c = true := by
  rw [Numeral.write, String.toList_ofList]
  split
  · exact List.forall_mem_cons.2 ⟨rfl, writeNat_numeral n.natAbs⟩
  · exact writeNat_numeral n.natAbs

theorem write_ne_nil (n : Int) : (Numeral.write n).toList ≠ [] := by
  obtain ⟨c, cs, text, -⟩ := Numeral.writeNat_spelling n.natAbs
  rw [Numeral.write, String.toList_ofList, text]
  split
  · exact List.cons_ne_nil _ _
  · exact List.cons_ne_nil _ _

theorem words_letters {w : String} (h : w ∈ words) : ∀ c ∈ w.toList, isLetter c = true := by
  have all : words.all (fun w => w.toList.all isLetter) = true := rfl
  exact List.all_eq_true.1 (List.all_eq_true.1 all w h)

theorem words_small : ∀ w ∈ words, w.toList.head?.map Lead.ofChar = some .small := by
  decide

theorem ofChar_numeral {c : Char} (h : isNumeral c = true) : Lead.ofChar c = .digit := by
  have paren : c ≠ '(' := ne_of_class h rfl
  have mark : c ≠ '\x22' := ne_of_class h rfl
  rw [Lead.ofChar, if_neg paren, if_neg (by simpa [isQuoteMark] using mark), if_pos h]

theorem ofChar_capital {c : Char} (h : 'A' ≤ c ∧ c ≤ 'Z') : Lead.ofChar c = .capital := by
  have letter : isLetter c = true := by simp [isLetter, h]
  have paren : c ≠ '(' := ne_of_class letter rfl
  have mark : c ≠ '\x22' := ne_of_class letter rfl
  have numeral : ¬isNumeral c = true := fun hc => by
    rw [isLetter_of_isNumeral hc] at letter
    cases letter
  rw [Lead.ofChar, if_neg paren, if_neg (by simpa [isQuoteMark] using mark), if_neg numeral,
    if_pos h]

/-- A part begins with a character that tells what it is. -/
theorem lead_eq {p : Part} (h : p.Legible) (rest : List Char) :
    (p.chars ++ rest).head?.map Lead.ofChar = some (Lead.ofPart p) := by
  have front {c : Char} {cs : List Char} {l : Lead} (eq : p.chars = c :: cs)
      (lead : Lead.ofChar c = l) : (p.chars ++ rest).head?.map Lead.ofChar = some l := by
    rw [eq]
    exact congrArg some lead
  cases p with
  | word w =>
    obtain ⟨c, head, lead⟩ := Option.map_eq_some_iff.1 (words_small w h)
    obtain ⟨cs, text⟩ := List.head?_eq_some_iff.1 head
    exact front text lead
  | operand e =>
    cases e with
    | integer n =>
      obtain ⟨c, cs, text⟩ := List.exists_cons_of_ne_nil (write_ne_nil n)
      exact front text (ofChar_numeral (write_numeral n c (text ▸ List.mem_cons_self)))
    | text s => exact front rfl rfl
    | name x =>
      obtain ⟨c, cs, text, capital⟩ := IsName.capital h
      exact front text (ofChar_capital capital)
    | unary op e => exact front rfl rfl
    | binary op a b => exact front rfl rfl
    | less l r => exact front rfl rfl
    | power op e => exact front rfl rfl

/-! ## One part -/

/-- A blank or a closing parenthesis follows, or nothing at all. -/
def Stops (cs : List Char) : Prop := ∀ c, cs.head? = some c → c = ' ' ∨ c = ')'

theorem Stops.outside {p : Char → Bool} {cs : List Char} (h : Stops cs) (blank : p ' ' = false)
    (paren : p ')' = false) : BeginsOutside p cs := by
  intro c hc
  rcases h c hc with rfl | rfl
  · exact blank
  · exact paren

/-- The part, and where it ends, can be told from what it is the beginning of. -/
def Told (p : Part) : Prop :=
  ∀ p' rest rest', p'.Legible → Stops rest → Stops rest' → p.chars ++ rest = p'.chars ++ rest' →
    p = p' ∧ rest = rest'

/-- Two runs of characters of a class are the same if nothing of the class follows them. -/
theorem run_eq {p : Char → Bool} {w w' rest rest' : List Char} (inside : ∀ c ∈ w, p c = true)
    (inside' : ∀ c ∈ w', p c = true) (outside : BeginsOutside p rest)
    (outside' : BeginsOutside p rest') (same : w ++ rest = w' ++ rest') : w = w' ∧ rest = rest' := by
  have run := congrArg (List.takeWhile p) same
  have after := congrArg (List.dropWhile p) same
  rw [takeWhile_run inside outside, takeWhile_run inside' outside'] at run
  rw [dropWhile_run inside outside, dropWhile_run inside' outside'] at after
  exact ⟨run, after⟩

variable {p p' : Part} {rest rest' : List Char}

theorem lead_eq_lead (h : p.Legible) (h' : p'.Legible)
    (same : p.chars ++ rest = p'.chars ++ rest') : Lead.ofPart p = Lead.ofPart p' := by
  have lead := lead_eq h rest
  rw [same, lead_eq h' rest'] at lead
  exact (Option.some.inj lead).symm

theorem told_word {w : String} (h : w ∈ words) : Told (.word w) := by
  intro p' rest rest' h' stops stops' same
  have lead := lead_eq_lead (p := .word w) h h' same
  cases p' with
  | operand e => cases e <;> cases lead
  | word w' =>
    obtain ⟨eq, after⟩ := run_eq (words_letters h) (words_letters h')
      (stops.outside rfl rfl) (stops'.outside rfl rfl) same
    exact ⟨congrArg Part.word (String.toList_injective eq), after⟩

theorem told_integer {n : Int} (h : InRange n) : Told (.operand (.integer n)) := by
  intro p' rest rest' h' stops stops' same
  have lead := lead_eq_lead (p := .operand (.integer n)) h h' same
  cases p' with
  | word w => cases lead
  | operand e =>
    cases e with
    | integer m =>
      obtain ⟨eq, after⟩ := run_eq (write_numeral n) (write_numeral m)
        (stops.outside rfl rfl) (stops'.outside rfl rfl) same
      have read := Numeral.read?_write h
      rw [String.toList_injective eq, Numeral.read?_write h'] at read
      obtain rfl := Option.some.inj read
      exact ⟨rfl, after⟩
    | _ => cases lead

theorem told_text {s : String} (h : IsQuotable s) : Told (.operand (.text s)) := by
  intro p' rest rest' h' stops stops' same
  have lead := lead_eq_lead (p := .operand (.text s)) h h' same
  cases p' with
  | word w => cases lead
  | operand e =>
    cases e with
    | text s' =>
      have inside {s : String} (h : IsQuotable s) : ∀ c ∈ s.toList, (!isQuoteMark c) = true :=
        fun c hc => by rw [h c hc]; rfl
      have body : s.toList ++ '\x22' :: rest = s'.toList ++ '\x22' :: rest' := by
        simpa [Part.chars, Expr.labelChars] using same
      obtain ⟨eq, after⟩ := run_eq (inside h) (inside h') (beginsOutside_mark rest)
        (beginsOutside_mark rest') body
      obtain rfl := String.toList_injective eq
      exact ⟨rfl, List.tail_eq_of_cons_eq after⟩
    | _ => cases lead

theorem told_name {x : String} (h : IsName x) : Told (.operand (.name x)) := by
  intro p' rest rest' h' stops stops' same
  have lead := lead_eq_lead (p := .operand (.name x)) h h' same
  cases p' with
  | word w => cases lead
  | operand e =>
    cases e with
    | name x' =>
      obtain ⟨eq, after⟩ := run_eq h.letters (IsName.letters h')
        (stops.outside rfl rfl) (stops'.outside rfl rfl) same
      obtain rfl := String.toList_injective eq
      exact ⟨rfl, after⟩
    | _ => cases lead

/-! ## Rows of parts -/

/-- Each part after a blank, and a closing parenthesis at the end. -/
def row : List Part → List Char
  | [] => [')']
  | p :: ps => ' ' :: (p.chars ++ row ps)

theorem stops_row (ps : List Part) (rest : List Char) : Stops (row ps ++ rest) := by
  cases ps with
  | nil =>
    rintro c ⟨⟩
    exact .inr rfl
  | cons p ps =>
    rintro c ⟨⟩
    exact .inl rfl

/-- A row can be divided in only one way, if this holds of each of its parts. -/
theorem row_eq {ps ps' : List Part} (told : ∀ p ∈ ps, Told p) (legible : ∀ p ∈ ps', p.Legible)
    (same : row ps ++ rest = row ps' ++ rest') : ps = ps' ∧ rest = rest' := by
  induction ps generalizing ps' with
  | nil =>
    cases ps' with
    | nil => exact ⟨rfl, List.tail_eq_of_cons_eq same⟩
    | cons p' ps' => cases List.head_eq_of_cons_eq same
  | cons p ps ih =>
    cases ps' with
    | nil => cases List.head_eq_of_cons_eq same
    | cons p' ps' =>
      have inner : p.chars ++ (row ps ++ rest) = p'.chars ++ (row ps' ++ rest') := by
        simpa [row] using same
      obtain ⟨rfl, after⟩ := told p List.mem_cons_self p' _ _ (legible p' List.mem_cons_self)
        (stops_row ps rest) (stops_row ps' rest') inner
      obtain ⟨rfl, rfl⟩ := ih (fun q hq => told q (List.mem_cons_of_mem p hq))
        (fun q hq => legible q (List.mem_cons_of_mem p hq)) after
      exact ⟨rfl, rfl⟩

/-- What stands between the parentheses of an expression with an operator. -/
def parts : Expr → List Part
  | .unary op e => [.word op.word, .operand e]
  | .binary op a b => [.word op.word, .operand a, .operand b]
  | .less l r => [.operand l, .word lessWord, .operand r]
  | .power op e => [.operand e, .word op.word]
  | _ => []

theorem legible_parts {e : Expr} (h : e.Legible) : ∀ p ∈ parts e, p.Legible := by
  have unary (op : UnaryOperator) : op.word ∈ words := by cases op <;> decide
  have binary (op : BinaryOperator) : op.word ∈ words := by cases op <;> decide
  have exponent (op : Exponent) : op.word ∈ words := by cases op <;> decide
  have less : lessWord ∈ words := by decide
  cases e with
  | unary op e => simpa [parts, Part.Legible] using ⟨unary op, h⟩
  | binary op a b => simpa [parts, Part.Legible] using ⟨binary op, h⟩
  | less l r => simpa [parts, Part.Legible] using ⟨h.1, less, h.2⟩
  | power op e => simpa [parts, Part.Legible] using ⟨h, exponent op⟩
  | _ => exact nofun

theorem labelChars_group {e : Expr} (group : Lead.ofExpr e = .paren) :
    ∃ w, e.labelChars = '(' :: w ∧ row (parts e) = ' ' :: w := by
  cases e with
  | unary op e => exact ⟨_, rfl, by simp [parts, row, Part.chars]⟩
  | binary op a b => exact ⟨_, rfl, by simp [parts, row, Part.chars]⟩
  | less l r => exact ⟨_, rfl, by simp [parts, row, Part.chars]⟩
  | power op e => exact ⟨_, rfl, by simp [parts, row, Part.chars]⟩
  | _ => cases group

/-- The expression with an operator that has the given parts. -/
def ofParts? : List Part → Option Expr
  | [.word w, .operand e] => (UnaryOperator.ofWord? w).map (.unary · e)
  | [.word w, .operand a, .operand b] => (BinaryOperator.ofWord? w).map (.binary · a b)
  | [.operand l, .word _, .operand r] => some (.less l r)
  | [.operand e, .word w] => (Exponent.ofWord? w).map (.power · e)
  | _ => none

theorem ofParts?_parts {e : Expr} (group : Lead.ofExpr e = .paren) :
    ofParts? (parts e) = some e := by
  cases e with
  | unary op e => rw [parts, ofParts?, UnaryOperator.ofWord?_word, Option.map_some]
  | binary op a b => rw [parts, ofParts?, BinaryOperator.ofWord?_word, Option.map_some]
  | less l r => rfl
  | power op e => rw [parts, ofParts?, Exponent.ofWord?_word, Option.map_some]
  | _ => cases group

theorem told_group {e : Expr} (h : e.Legible) (group : Lead.ofExpr e = .paren)
    (told : ∀ p ∈ parts e, Told p) : Told (.operand e) := by
  intro p' rest rest' h' _ _ same
  have lead := lead_eq_lead (p := .operand e) h h' same
  have lead' : Lead.ofPart p' = .paren := lead ▸ group
  cases p' with
  | word w => cases lead'
  | operand e' =>
    obtain ⟨w, text, inner⟩ := labelChars_group group
    obtain ⟨w', text', inner'⟩ := labelChars_group lead'
    have rows : row (parts e) ++ rest = row (parts e') ++ rest' := by
      have chars : e.labelChars ++ rest = e'.labelChars ++ rest' := same
      rw [text, text'] at chars
      have inside : w ++ rest = w' ++ rest' := List.tail_eq_of_cons_eq chars
      rw [inner, inner', List.cons_append, List.cons_append, inside]
    obtain ⟨eq, after⟩ := row_eq told (legible_parts h') rows
    have whole := ofParts?_parts group
    rw [eq, ofParts?_parts lead'] at whole
    obtain rfl := Option.some.inj whole
    exact ⟨rfl, after⟩

/-- By induction on the expression; its operands may be told by then. -/
theorem told_operand {e : Expr} (h : e.Legible) : Told (.operand e) := by
  induction e with
  | integer n => exact told_integer h
  | text s => exact told_text h
  | name x => exact told_name h
  | unary op e ih =>
    refine told_group h rfl ?_
    simpa [parts] using ⟨told_word (legible_parts h (.word op.word) (by simp [parts])), ih h⟩
  | binary op a b iha ihb =>
    refine told_group h rfl ?_
    simpa [parts] using
      ⟨told_word (legible_parts h (.word op.word) (by simp [parts])), iha h.1, ihb h.2⟩
  | less l r ihl ihr =>
    refine told_group h rfl ?_
    simpa [parts] using
      ⟨ihl h.1, told_word (legible_parts h (.word lessWord) (by simp [parts])), ihr h.2⟩
  | power op e ih =>
    refine told_group h rfl ?_
    simpa [parts] using ⟨ih h, told_word (legible_parts h (.word op.word) (by simp [parts]))⟩

/-- An expression of which the words can be spelled has a label, and no other expression has
the same. -/
theorem exprLabel_injective {e e' : Expr} (h : e.Legible) (h' : e'.Legible) :
    (∃ label, exprLabel e = .ok label) ∧ (exprLabel e = exprLabel e' → e = e') := by
  refine ⟨⟨_, exprLabel_eq h⟩, fun same => ?_⟩
  rw [exprLabel_eq h, exprLabel_eq h'] at same
  have chars : e.labelChars = e'.labelChars := by
    simpa using congrArg String.toList (Except.ok.inj same)
  obtain ⟨eq, -⟩ := told_operand h (.operand e') [] [] h' nofun nofun (congrArg (· ++ []) chars)
  injection eq

/-- A text that looks like an expression is not taken for one. -/
theorem exprLabel_of_quoted :
    let e := Expr.less (.text "A less 1,000) squared") (.integer (-1000))
    let e' := Expr.power .squared (.less (.name "A") (.integer 1000))
    (∃ label, exprLabel e = .ok label) ∧ (exprLabel e = exprLabel e' → e = e') := by
  have quotable : IsQuotable "A less 1,000) squared" := by
    have all : "A less 1,000) squared".toList.all (fun c => !isQuoteMark c) = true := rfl
    exact fun c hc => by simpa using List.all_eq_true.1 all c hc
  have name : IsName "A" := ⟨List.all_eq_true.1 rfl, ⟨'A', [], rfl, by decide⟩, by decide⟩
  have negative : InRange (-1000) := by decide
  have positive : InRange 1000 := by decide
  exact exprLabel_injective ⟨quotable, negative⟩ ⟨name, positive⟩

end Graph
end Legalese
