import Legalese.Proofs.Clauses
import Legalese.Proofs.Reading.Cardinal

/-!
# A cardinal has one spelling

A text is accepted as a cardinal if and only if its tokens are those of a written number,
letter case aside.  One direction is the reader's: what it goes over are the tokens of the
number that it comes to.  In the other direction the reader sees no difference between
tokens that differ only in case, so it reads the text as it reads the written number.

Since blanks and case are all that may differ, the text without blanks and in small letters
is determined by the number.
-/

namespace Legalese

/-! ## Letter case -/

/-- The place of a number word, without its number. -/
def CardinalWord.place : CardinalWord → CardinalWord
  | ones _ => ones 0
  | teens _ => teens 0
  | tens _ => tens 0
  | magnitude _ => magnitude 0
  | w => w

namespace Kind

def place : Kind → Kind
  | cardinal w => cardinal w.place
  | k => k

theorem inCardinal_place (k : Kind) : k.place.inCardinal = k.inCardinal := by
  cases k <;> rfl

theorem keyword_unique : ∀ a ∈ keywords, ∀ b ∈ keywords, a.2 = b.2 → a.1 = b.1 := by
  decide +kernel

theorem cardinal_of_place {k : Kind} {w : CardinalWord} (h : k.place = .cardinal w) :
    ∃ w', k = .cardinal w' := by
  cases k with
  | cardinal w' => exact ⟨w', rfl⟩
  | _ => cases h

theorem eq_dash_of_place {k : Kind} (h : k.place = .dash) : k = .dash := by
  cases k with
  | dash => rfl
  | _ => cases h

end Kind

namespace Token

/-- A token with its literal in small letters.  What number a number word has is left to the
literal. -/
def folded (t : Token) : Token := ⟨t.kind.place, Kind.smallLetters t.literal⟩

theorem forall₂_congr {R S : Token → Token → Prop} {ts us : List Token}
    (h : ∀ t ∈ ts, ∀ u ∈ us, (R t u ↔ S t u)) : List.Forall₂ R ts us ↔ List.Forall₂ S ts us := by
  induction us generalizing ts with
  | nil => rw [List.forall₂_nil_right_iff, List.forall₂_nil_right_iff]
  | cons u us ih =>
    cases ts with
    | nil =>
      constructor
      · nofun
      · nofun
    | cons t ts =>
      have head := h t List.mem_cons_self u List.mem_cons_self
      have tail := ih fun x hx y hy =>
        h x (List.mem_cons_of_mem t hx) y (List.mem_cons_of_mem u hy)
      rw [List.forall₂_cons, List.forall₂_cons, head, tail]

/-- Tokens of cardinals that differ in case only are the same to a reader. -/
theorem folded_eq_iff {t t' : Token} (lexed : t.Lexed) (lexed' : t'.Lexed)
    (counts : t'.kind.inCardinal = true) : t.folded = t'.folded ↔ t.Alike t' := by
  obtain ⟨k, l⟩ := t
  obtain ⟨k', l'⟩ := t'
  constructor
  · intro same
    obtain ⟨place, letters⟩ := Token.mk.inj same
    cases k' with
    | cardinal w' =>
      obtain ⟨w, rfl⟩ := Kind.cardinal_of_place place
      have found := lexed.word w rfl
      rw [show Kind.smallLetters l = Kind.smallLetters l' from letters, lexed'.word w' rfl] at found
      exact .of_kind (Option.some.inj found).symm rfl l'
    | dash =>
      obtain rfl := Kind.eq_dash_of_place place
      have literal : l = "-" := lexed.mark "-" rfl
      have literal' : l' = "-" := lexed'.mark "-" rfl
      exact ⟨rfl, fun _ => literal.trans literal'.symm⟩
    | _ => cases counts
  · intro alike
    obtain rfl : k = k' := alike.kind
    cases k with
    | cardinal w =>
      have key := mem_of_lookup (lexed.word w rfl)
      have key' := mem_of_lookup (lexed'.word w rfl)
      exact congrArg (Token.mk _) (Kind.keyword_unique _ key _ key' rfl)
    | dash => exact congrArg (fun l => folded ⟨.dash, l⟩) (alike.literal rfl)
    | _ => cases counts

theorem map_folded_eq_iff {ts us : List Token} (lexed : ∀ t ∈ ts, t.Lexed)
    (lexed' : ∀ t ∈ us, t.Lexed) (counts : ∀ t ∈ us, t.kind.inCardinal = true) :
    ts.map folded = us.map folded ↔ List.Forall₂ Alike ts us := by
  rw [← List.forall₂_eq_eq_eq, List.forall₂_map_left_iff, List.forall₂_map_right_iff]
  exact forall₂_congr fun t ht u hu => folded_eq_iff (lexed t ht) (lexed' u hu) (counts u hu)

end Token

/-! ## Tokens that are alike are read alike -/

namespace Cursor

/-- Tokens that are alike to the end, and no unclosed text after them. -/
structure Alike (c c' : Cursor) : Prop where
  tokens : List.Forall₂ Token.Alike c.tokens c'.tokens
  closed : c.unclosed = none
  closed' : c'.unclosed = none

theorem placesAlike_head {ts ts' : List Token} (h : List.Forall₂ Token.Alike ts ts') :
    PlacesAlike ts.head? ts'.head? := by
  cases h with
  | nil => exact .ended nofun nofun
  | @cons t t' _ _ alike _ =>
    cases opens : t'.kind.opensClause with
    | false => exact .token alike opens
    | true =>
      refine .ended (fun x hx => ?_) fun x hx => ?_
      · cases hx
        rw [alike.kind, opens]
      · cases hx
        exact opens

theorem tail_alike {ts ts' : List Token} (h : List.Forall₂ Token.Alike ts ts') :
    List.Forall₂ Token.Alike ts.tail ts'.tail := by
  cases h with
  | nil => exact .nil
  | cons _ rest => exact rest

theorem moved_closed {c : Cursor} (closed : c.unclosed = none) :
    c.moved = .ok ⟨c.tokens.tail, none⟩ := by
  rw [moved_eq, closed]
  rfl

theorem simulation_alike : Simulation Alike where
  current h := placesAlike_head h.tokens
  next h _ := placesAlike_head (tail_alike h.tokens)
  moved h _ := by
    rw [moved_closed h.closed, moved_closed h.closed']
    exact .ok ⟨tail_alike h.tokens, rfl, rfl⟩

/-! ## The end of a text -/

/-- No unclosed text comes into view. -/
def InView (c : Cursor) : Prop := c.unclosed = none ∨ 1 < c.remaining

theorem inView_of_view {ts : List Token} {unclosed : Option String} {c : Cursor}
    (h : view ts unclosed = .ok c) : c.InView := by
  unfold view at h
  split at h
  · cases h
  · cases h
  · next short single =>
    cases h
    cases unclosed with
    | none => exact .inl rfl
    | some l =>
      right
      match ts with
      | [] => exact absurd rfl (short l rfl)
      | [t] => exact absurd rfl (single l t rfl)
      | _ :: _ :: _ => simp [remaining]

theorem inView_of_moved {c c' : Cursor} (h : c.moved = .ok c') : c'.InView := by
  rw [moved_eq] at h
  cases view : view c.tokens.tail c.unclosed with
  | error l =>
    rw [view] at h
    cases h
  | ok d =>
    rw [view] at h
    cases h
    exact inView_of_view view

theorem Passes.inView {c c' : Cursor} {ts : List Token} (h : c.Passes ts c')
    (inView : c.InView) : c'.InView := by
  induction h with
  | here _ _ => exact inView
  | step _ _ moved _ ih => exact ih (inView_of_moved moved)

end Cursor

namespace Cardinal

open Cursor

theorem tokenize_write (v : Int) : tokenize (write v) = .ok (tokens v) := (spells_write v).tokenize

theorem lexed_of_tokenize {text : String} {ts : List Token} (h : tokenize text = .ok ts) :
    ∀ t ∈ ts, t.Lexed := by
  intro t ht
  have mem : t ∈ (Legalese.tokens text.toList).list := by
    rw [tokenize_ok h]
    exact ht
  exact lexed_of_mem_tokens mem

theorem parse_eq_ok {text : String} {v : Int} :
    parse text = .ok v ↔ ∃ c c', Cursor.start text = .ok c ∧ yield (read c) = .ok (v, c') ∧
      c'.next? = none := by
  unfold parse yield
  cases Cursor.start text with
  | error l =>
    constructor
    · nofun
    · nofun
  | ok c =>
    show (read c >>= _) = _ ↔ _
    cases hr : read c with
    | error e =>
      constructor
      · nofun
      · rintro ⟨d, c', start, result, -⟩
        cases start
        rw [hr] at result
        cases result
    | ok a =>
      obtain ⟨n, c', le⟩ := a
      constructor
      · intro h
        rw [ok_bind] at h
        dsimp only at h
        split at h
        · next ended =>
          cases h
          exact ⟨c, c', rfl, by rw [hr]; rfl, ended⟩
        · cases h
      · rintro ⟨d, d', start, result, ended⟩
        cases start
        rw [hr] at result
        cases result
        rw [ok_bind]
        dsimp only
        rw [ended]
        rfl

/-- What is read to the end of a text are the tokens of the number, and all of the text. -/
theorem alike_of_parse {text : String} {v : Int} (h : parse text = .ok v) :
    InRange v ∧ ∃ ts, tokenize text = .ok ts ∧ List.Forall₂ Token.Alike ts (tokens v) := by
  obtain ⟨c, c', start, read, ended⟩ := parse_eq_ok.1 h
  have place : c = ⟨(Legalese.tokens text.toList).list, (Legalese.tokens text.toList).unclosed⟩ :=
    tokens_of_view start
  have lexed : c.Lexed := by
    rw [place]
    exact fun t ht => lexed_of_mem_tokens ht
  obtain ⟨inRange, passes⟩ := passes_of_read lexed read
  obtain ⟨us, rest, alike, ne, split, last⟩ := passes.exists_rest
  have view := passes.inView (inView_of_view start)
  rw [List.getLast?_eq_some_getLast ne] at last
  subst last
  obtain rfl : rest = [] := List.head?_eq_none_iff.1 ended
  have closed : c.unclosed = none := view.resolve_right (by simp [remaining])
  rw [List.append_nil] at split
  refine ⟨inRange, us, ?_, alike⟩
  rw [place] at closed split
  dsimp only at closed split
  rw [tokenize, closed]
  exact congrArg Except.ok split

theorem read_of_alike {v : Int} (inRange : InRange v) {ts rest : List Token}
    (alike : List.Forall₂ Token.Alike ts (tokens v)) (ends : EndsCardinal rest) :
    yield (read ⟨ts ++ rest, none⟩) = .ok (v, standing ts rest) := by
  have ne : ts ≠ [] := by
    rintro rfl
    exact tokens_ne_nil inRange (List.forall₂_nil_left_iff.1 alike)
  have both : Cursor.Alike ⟨ts ++ rest, none⟩ ⟨tokens v ++ rest, none⟩ :=
    ⟨List.rel_append alike (List.forall₂_same.2 fun t _ => .refl t), rfl, rfl⟩
  have run := read_alike simulation_alike both
  rw [read_tokens inRange ends] at run
  obtain ⟨⟨n, c⟩, read, value, here, -⟩ := run.ok_right
  obtain rfl : n = v := value
  -- the place is a suffix of the tokens, and its length tells which
  obtain ⟨k, rfl⟩ := follows_of_read read
  have length := here.tokens.length_eq
  unfold standing at length ⊢
  rw [List.getLast?_eq_some_getLast (tokens_ne_nil inRange)] at length
  rw [List.getLast?_eq_some_getLast ne]
  have suffix : [ts.getLast ne] ++ rest <:+ ts ++ rest := by
    refine ⟨ts.dropLast, ?_⟩
    rw [← List.append_assoc, List.dropLast_append_getLast ne]
  have same : (ts ++ rest).drop k = [ts.getLast ne] ++ rest :=
    (List.suffix_of_suffix_length_le (List.drop_suffix k _) suffix (Nat.le_of_eq length)).eq_of_length
      length
  exact read.trans (congrArg (fun r => Except.ok (n, Cursor.mk r none)) same)

theorem parse_of_alike {text : String} {v : Int} (inRange : InRange v) {ts : List Token}
    (h : tokenize text = .ok ts) (alike : List.Forall₂ Token.Alike ts (tokens v)) :
    parse text = .ok v := by
  have start : Cursor.start text = .ok ⟨ts, none⟩ := by
    unfold Cursor.start
    rw [tokenize_ok h]
    rfl
  have ends : EndsCardinal [] := ⟨⟨nofun, nofun, rfl⟩, nofun⟩
  have read := read_of_alike inRange alike ends
  rw [List.append_nil] at read
  refine parse_eq_ok.2 ⟨_, _, start, read, ?_⟩
  unfold standing
  cases ts.getLast? <;> rfl

/-! ## The spelling of a number -/

/-- A text in small letters and without blanks. -/
def bare (text : String) : List Char := (text.toList.filter (!isBlank ·)).map Char.toLower

theorem bare_eq_folded {text : String} {ts : List Token} (h : tokenize text = .ok ts)
    (noText : ∀ t ∈ ts, t.kind ≠ .text) :
    bare text = (ts.map Token.folded).flatMap (·.literal.toList) := by
  have whole := tokenize_ok h
  have spelling : text.toList.filter (!isBlank ·) = ts.flatMap (·.literal.toList) := by
    have closed : (Legalese.tokens text.toList).unclosed = none := by rw [whole]
    have spelling := filter_not_isBlank closed (by rwa [whole])
    rwa [whole] at spelling
  have small (t : Token) : t.folded.literal.toList = t.literal.toList.map Char.toLower :=
    String.toList_ofList
  rw [bare, spelling, List.map_flatMap, List.flatMap_map]
  simp only [small]

/-- The texts of a number of the range. -/
structure SpelledAs (text : String) (v : Int) : Prop where
  inRange : InRange v
  tokens : ∃ written ts us, write? v = .ok written ∧ tokenize text = .ok ts ∧
    tokenize written = .ok us ∧ ts.map Token.folded = us.map Token.folded

theorem spelledAs_iff {text : String} {v : Int} :
    SpelledAs text v ↔ InRange v ∧ ∃ ts, tokenize text = .ok ts ∧
      List.Forall₂ Token.Alike ts (tokens v) := by
  have lexed := lexed_of_tokenize (tokenize_write v)
  have counts (t : Token) (ht : t ∈ tokens v) : t.kind.inCardinal = true :=
    inCardinal_of_mem_tokens ht
  constructor
  · rintro ⟨inRange, written, ts, us, hw, ht, hu, same⟩
    obtain rfl : write v = written := Except.ok.inj ((if_pos inRange).symm.trans hw)
    obtain rfl : tokens v = us := Except.ok.inj ((tokenize_write v).symm.trans hu)
    exact ⟨inRange, ts, ht, (Token.map_folded_eq_iff (lexed_of_tokenize ht) lexed counts).1 same⟩
  · rintro ⟨inRange, ts, ht, alike⟩
    have same := (Token.map_folded_eq_iff (lexed_of_tokenize ht) lexed counts).2 alike
    exact ⟨inRange, write v, ts, tokens v, if_pos inRange, ht, tokenize_write v, same⟩

theorem parse_write {v : Int} (h : InRange v) : parse (write v) = .ok v :=
  parse_of_alike h (tokenize_write v) (List.forall₂_same.2 fun t _ => .refl t)

theorem bare_of_parse {text : String} {v : Int} (h : parse text = .ok v) :
    bare text = bare (write v) := by
  obtain ⟨-, ts, ht, alike⟩ := alike_of_parse h
  have counts (t : Token) (ht : t ∈ tokens v) : t.kind.inCardinal = true :=
    inCardinal_of_mem_tokens ht
  have same := (Token.map_folded_eq_iff (lexed_of_tokenize ht)
    (lexed_of_tokenize (tokenize_write v)) counts).2 alike
  have noText (t : Token) (h : t.folded ∈ (tokens v).map Token.folded) : t.kind ≠ .text := by
    intro text
    obtain ⟨t', mem, e⟩ := List.mem_map.1 h
    have place : t'.kind.place = t.kind.place := congrArg Token.kind e
    have := counts t' mem
    rw [← Kind.inCardinal_place, place, text] at this
    cases this
  rw [bare_eq_folded ht fun t mem => noText t (same ▸ List.mem_map_of_mem mem),
    bare_eq_folded (tokenize_write v) fun t mem => noText t (List.mem_map_of_mem mem), same]

/-- Reading and writing cardinals.  A number of the range is read from the texts that have
the tokens of its written form, and from no other; no two of them differ in more than blanks
and letter case. -/
theorem parse_eq_ok_iff :
    (∀ text v, parse text = .ok v ↔ SpelledAs text v) ∧
      (∀ v, InRange v → ∃ written, write? v = .ok written ∧ parse written = .ok v) ∧
      ∀ text text' v, parse text = .ok v → parse text' = .ok v → bare text = bare text' := by
  refine ⟨fun text v => ?_, fun v h => ⟨write v, if_pos h, parse_write h⟩, ?_⟩
  · constructor
    · intro h
      exact spelledAs_iff.2 (alike_of_parse h)
    · intro h
      obtain ⟨inRange, ts, ht, alike⟩ := spelledAs_iff.1 h
      exact parse_of_alike inRange ht alike
  · intro text text' v h h'
    rw [bare_of_parse h, bare_of_parse h']

/-- Capitals and blanks around the dash do no harm, and the least number is read back. -/
theorem parse_of_loose_spelling :
    parse "Negative Twenty - ONE" = .ok (-21) ∧
      bare "Negative Twenty - ONE" = bare "negative twenty-one" ∧
      ∃ written, write? minNumber = .ok written ∧ parse written = .ok minNumber := by
  have loose : SpelledAs "Negative Twenty - ONE" (-21) := by
    refine ⟨by decide, "negative twenty-one",
      [⟨.cardinal .negative, "Negative"⟩, ⟨.cardinal (.tens 20), "Twenty"⟩, dashToken,
        ⟨.cardinal (.ones 1), "ONE"⟩],
      [negativeToken, tensToken 20, dashToken, onesToken 1], by decide, ?_, ?_, by decide⟩
    · cbv
    · cbv
  have written : parse "negative twenty-one" = .ok (-21) := by
    obtain ⟨w, hw, read⟩ := parse_eq_ok_iff.2.1 (-21) (by decide)
    obtain rfl : "negative twenty-one" = w := Except.ok.inj hw
    exact read
  have read : parse "Negative Twenty - ONE" = .ok (-21) := (parse_eq_ok_iff.1 _ _).2 loose
  exact ⟨read, parse_eq_ok_iff.2.2 _ _ _ read written, parse_eq_ok_iff.2.1 minNumber (by decide)⟩

end Cardinal
end Legalese
