import Legalese.Proofs.Json.Text
import Legalese.Proofs.Number.Numeral
import Legalese.Proofs.Tree

/-!
# JSON is read back

What is written for a tree of numbers, texts, lists and objects is read as the same tree.
The reader of a value cannot know where the value was meant to end, so it is followed on any
text that goes on with a separator, with a closing bracket or not at all: after a number
nothing else would do, and what is written inside a list or an object always goes on so.

The tree of a resolution is such a tree.  A resolution therefore comes back from its JSON
text, which is one line of printable ASCII.
-/

namespace Legalese
namespace Json

/-! ## What the readers yield -/

/-- Two readers one after the other, seen without their proofs. -/
theorem yield_bind {cs cs' : List Char} {α β : Type} {x : Option (Front cs α)}
    {f : Front cs α → Option (Front cs' β)} {g : α × List Char → Option (β × List Char)}
    (h : ∀ a, yield (f a) = g (a.value, a.rest)) : yield (x >>= f) = (yield x).bind g := by
  cases x with
  | none => rfl
  | some a => exact h a

/-- The same where the second step only puts a value together. -/
theorem yield_bind_pure {cs cs' : List Char} {α β : Type} {x : Option (Front cs α)}
    {f : Front cs α → Option (Front cs' β)} {g : α → β}
    (h : ∀ a, yield (f a) = some (g a.value, a.rest)) :
    yield (x >>= f) = (yield x).map (Prod.map g id) := by
  cases x with
  | none => rfl
  | some a => exact h a

theorem yield_afterMark? (mark : Char) (cs : List Char) :
    yield (afterMark? mark cs) =
      match skipBlanks cs with
      | [] => none
      | c :: rest => if c = mark then some ((), rest) else none := by
  refine eq_of_forall_eq fun x right => ?_
  unfold afterMark?
  split
  · next h =>
    rw [h] at right
    exact right
  · next c rest h =>
    rw [h] at right
    rw [← right]
    dsimp only
    split
    · rfl
    · rfl

theorem yield_readValue (cs : List Char) :
    yield (readValue cs) =
      match skipBlanks cs with
      | [] => none
      | c :: rest =>
        if c = '\x22' then (yield (readString rest)).map (Prod.map .str id)
        else if c = '[' then
          match yield (afterMark? ']' rest) with
          | some (_, rest') => some (.list [], rest')
          | none => (yield (readItems rest)).map (Prod.map .list id)
        else if c = '\x7b' then
          match yield (afterMark? '\x7d' rest) with
          | some (_, rest') => some (.object [], rest')
          | none => (yield (readFields rest)).map (Prod.map .object id)
        else (yield (readAtom cs)).map (Prod.map .scalar id) := by
  refine eq_of_forall_eq fun x right => ?_
  rw [readValue]
  split
  · next h =>
    rw [h] at right
    exact right
  · next c rest h =>
    rw [h] at right
    rw [← right]
    dsimp only
    split
    · exact yield_bind_pure fun _ => rfl
    · split
      · cases afterMark? ']' rest with
        | some _ => rfl
        | none => exact yield_bind_pure fun _ => rfl
      · split
        · cases afterMark? '\x7d' rest with
          | some _ => rfl
          | none => exact yield_bind_pure fun _ => rfl
        · exact yield_bind_pure fun _ => rfl

theorem yield_readItems (cs : List Char) :
    yield (readItems cs) =
      (yield (readValue cs)).bind fun first =>
        match yield (afterMark? ']' first.2) with
        | some (_, rest) => some ([first.1], rest)
        | none =>
          (yield (afterMark? ',' first.2)).bind fun comma =>
            (yield (readItems comma.2)).map (Prod.map (first.1 :: ·) id) := by
  rw [readItems]
  refine yield_bind fun ⟨t, rest, _⟩ => ?_
  dsimp only
  cases afterMark? ']' rest with
  | some _ => rfl
  | none => exact yield_bind fun _ => yield_bind_pure fun _ => rfl

theorem yield_readFields (cs : List Char) :
    yield (readFields cs) =
      (yield (afterMark? '\x22' cs)).bind fun opened =>
        (yield (readString opened.2)).bind fun name =>
          (yield (afterMark? ':' name.2)).bind fun colon =>
            (yield (readValue colon.2)).bind fun value =>
              match yield (afterMark? '\x7d' value.2) with
              | some (_, rest) => some ([(Scalar.str name.1, value.1)], rest)
              | none =>
                (yield (afterMark? ',' value.2)).bind fun comma =>
                  (yield (readFields comma.2)).map
                    (Prod.map ((Scalar.str name.1, value.1) :: ·) id) := by
  rw [readFields]
  refine yield_bind fun _ => yield_bind fun _ => yield_bind fun _ => ?_
  refine yield_bind fun ⟨t, rest, _⟩ => ?_
  dsimp only
  cases afterMark? '\x7d' rest with
  | some _ => rfl
  | none => exact yield_bind fun _ => yield_bind_pure fun _ => rfl

/-! ## Whole numbers -/

/-- The places where a written value may end: before a separator, before a closing bracket
and at the end of the text. -/
def Ends (rest : List Char) : Prop :=
  ∀ c, rest.head? = some c → c = ',' ∨ c = ']' ∨ c = '\x7d'

theorem ends_nil : Ends [] := nofun

theorem toList_toString (n : Int) :
    (toString n).toList =
      (if n < 0 then ['-'] else []) ++ Nat.toDigits 10 n.natAbs := by
  cases n with
  | ofNat m =>
    rw [if_neg (Int.not_lt.2 (Int.natCast_nonneg m) : ¬Int.ofNat m < 0)]
    exact String.toList_ofList
  | negSucc m =>
    rw [if_pos (Int.negSucc_lt_zero m)]
    show ("-" ++ String.ofList (Nat.toDigits 10 (m + 1))).toList = _
    rw [String.toList_append, String.toList_ofList, String.toList_ofList]
    rfl

/-- No digit and no mark of a fraction or an exponent stands where a value may end. -/
theorem number_ends {rest : List Char} (ends : Ends rest) :
    rest.takeWhile Floating.isDigit = [] ∧ fractionChars rest = [] ∧ exponentChars rest = [] := by
  cases rest with
  | nil => exact ⟨rfl, rfl, rfl⟩
  | cons c cs =>
    rcases ends c rfl with rfl | rfl | rfl
    · exact ⟨rfl, rfl, rfl⟩
    · exact ⟨rfl, rfl, rfl⟩
    · exact ⟨rfl, rfl, rfl⟩

theorem wholeDigits_toDigits (n : Nat) {rest : List Char} (ends : Ends rest) :
    wholeDigits (Nat.toDigits 10 n ++ rest) = Nat.toDigits 10 n := by
  rcases Nat.eq_zero_or_pos n with rfl | pos
  · rfl
  · obtain ⟨c, cs, hc, bounds⟩ := Numeral.leading_toDigits pos
    have not_zero : c ≠ '0' := fun e => absurd (e ▸ bounds.1) (by decide)
    have digits : ∀ d ∈ c :: cs, Floating.isDigit d = true := fun d hd =>
      Numeral.isDigit_of_mem_toDigits (hc ▸ hd)
    rw [hc, List.cons_append, wholeDigits, if_neg not_zero, ← List.cons_append,
      List.takeWhile_append_of_pos digits, (number_ends ends).1, List.append_nil]

theorem natOfDigits_toDigits (n : Nat) : Floating.natOfDigits (Nat.toDigits 10 n) = n :=
  Nat.ofDigitChars_ten_toDigits

/-- The sign that a number begins with. -/
def signChars : List Char → List Char
  | '-' :: _ => ['-']
  | _ => []

/-- A number from after its sign on. -/
def readUnsigned (sign cs : List Char) : Option (Scalar × List Char) :=
  let whole := wholeDigits cs
  if whole = [] then none
  else
    let cs := cs.drop whole.length
    let fraction := fractionChars cs
    let exponent := exponentChars (cs.drop fraction.length)
    let rest := cs.drop (fraction.length + exponent.length)
    if fraction = [] ∧ exponent = [] then
      let n : Int := Floating.natOfDigits whole
      some (.int (if sign = [] then n else -n), rest)
    else do
      let x ← Floating.read? (sign ++ whole ++ fraction ++ exponent)
      return (.float x, rest)

theorem readNumber_eq (cs : List Char) :
    readNumber cs = readUnsigned (signChars cs) (cs.drop (signChars cs).length) := rfl

theorem readUnsigned_toDigits (sign : List Char) (n : Nat) {rest : List Char} (ends : Ends rest) :
    readUnsigned sign (Nat.toDigits 10 n ++ rest) =
      some (.int (if sign = [] then n else -n), rest) := by
  obtain ⟨-, fraction, exponent⟩ := number_ends ends
  rw [readUnsigned, wholeDigits_toDigits n ends, if_neg Nat.toDigits_ne_nil]
  dsimp only
  rw [List.drop_left, fraction, List.length_nil, List.drop_zero, exponent, if_pos ⟨rfl, rfl⟩,
    natOfDigits_toDigits]
  rfl

theorem signChars_toDigits (n : Nat) (rest : List Char) :
    signChars (Nat.toDigits 10 n ++ rest) = [] := by
  obtain ⟨c, ds, hc⟩ := List.exists_cons_of_ne_nil (Nat.toDigits_ne_nil (n := n) (b := 10))
  have digit : isDigit c = true := Numeral.isDigit_of_mem_toDigits (hc ▸ List.mem_cons_self)
  rw [hc, List.cons_append]
  unfold signChars
  split
  · next dash =>
    cases dash
    cases digit
  · rfl

theorem readNumber_toString (n : Int) {rest : List Char} (ends : Ends rest) :
    readNumber ((toString n).toList ++ rest) = some (.int n, rest) := by
  rw [toList_toString]
  split
  · next negative =>
    have unsigned := readUnsigned_toDigits ['-'] n.natAbs ends
    rw [if_neg (List.cons_ne_nil _ _), show -(n.natAbs : Int) = n by omega] at unsigned
    exact unsigned
  · next natural =>
    have unsigned := readUnsigned_toDigits [] n.natAbs ends
    rw [if_pos rfl, show (n.natAbs : Int) = n by omega] at unsigned
    rw [List.nil_append, readNumber_eq, signChars_toDigits]
    exact unsigned

/-- A written number begins with a digit, or with a dash and a digit. -/
theorem toString_front (n : Int) :
    ∃ d ds, isDigit d = true ∧
      ((toString n).toList = d :: ds ∨ (toString n).toList = '-' :: d :: ds) := by
  obtain ⟨d, ds, hd⟩ := List.exists_cons_of_ne_nil
    (Nat.toDigits_ne_nil (n := n.natAbs) (b := 10))
  have digit : isDigit d = true := Numeral.isDigit_of_mem_toDigits (hd ▸ List.mem_cons_self)
  rw [toList_toString, hd]
  refine ⟨d, ds, digit, ?_⟩
  split
  · exact .inr rfl
  · exact .inl rfl

theorem ne_of_isDigit {c d : Char} (digit : isDigit d = true) (other : isDigit c = false) :
    c ≠ d := by
  rintro rfl
  rw [other] at digit
  cases digit

/-- A written number begins with no character but a digit or a dash. -/
theorem toString_cons (n : Int) :
    ∃ c cs, (toString n).toList = c :: cs ∧ ∀ x, isDigit x = false → x ≠ '-' → c ≠ x := by
  obtain ⟨d, ds, digit, front⟩ := toString_front n
  rcases front with front | front
  · exact ⟨d, ds, front, fun x other _ => (ne_of_isDigit digit other).symm⟩
  · exact ⟨'-', d :: ds, front, fun x _ dash => dash.symm⟩

theorem readWord_toString (n : Int) (rest : List Char) :
    readWord ((toString n).toList ++ rest) valueWords = none := by
  obtain ⟨d, ds, digit, front⟩ := toString_front n
  have other {c : Char} (h : isDigit c = false) : c ≠ d := ne_of_isDigit digit h
  rcases front with front | front
  · rw [front]
    simp [valueWords, readWord, after?, other (c := 'n') rfl, other (c := 't') rfl,
      other (c := 'f') rfl, other (c := 'N') rfl, other (c := 'I') rfl, other (c := '-') rfl]
  · rw [front]
    simp [valueWords, readWord, after?, other (c := 'I') rfl]

theorem yield_readAtom {n : Int} {cs rest : List Char} (ends : Ends rest)
    (front : skipBlanks cs = (toString n).toList ++ rest) :
    yield (readAtom cs) = some (.int n, rest) := by
  have shorter : rest.length < cs.length := by
    obtain ⟨c, more, text, -⟩ := toString_cons n
    have le : (skipBlanks cs).length ≤ cs.length := (List.dropWhile_sublist isBlank).length_le
    rw [front, List.length_append, text, List.length_cons] at le
    omega
  unfold readAtom
  rw [front, readWord_toString, Option.none_or, readNumber_toString n ends]
  simp only [Option.bind_eq_bind, Option.bind_some, dif_pos shorter]
  rfl

/-! ## Trees -/

/-- A tree of numbers, texts, lists and objects, with texts for names. -/
inductive Storable : Tree → Prop
  | int (n : Int) : Storable (.int n)
  | str (s : String) : Storable (.str s)
  | list {ts : List Tree} (items : ∀ t ∈ ts, Storable t) : Storable (.list ts)
  | object {fs : Tree.Fields} (names : ∀ f ∈ fs, ∃ x, f.1 = Scalar.str x)
      (values : ∀ f ∈ fs, Storable f.2) : Storable (.object fs)

/-- A field with its name. -/
def writeField (f : Scalar × Tree) : List Char := writeName f.1 ++ ':' :: ' ' :: writeTree f.2

theorem writeItems_eq (ts : List Tree) : writeItems ts = ts.map writeTree := by
  induction ts with
  | nil => rfl
  | cons t ts ih => rw [writeItems, ih, List.map_cons]

theorem writeFields_eq (fs : Tree.Fields) : writeFields fs = fs.map writeField := by
  induction fs with
  | nil => rfl
  | cons f fs ih =>
    obtain ⟨name, t⟩ := f
    rw [writeFields, ih, List.map_cons, writeField]

theorem separated_append (w w' : List Char) (ws : List (List Char)) (cs : List Char) :
    [',', ' '].intercalate (w :: w' :: ws) ++ cs =
      w ++ ',' :: ' ' :: ([',', ' '].intercalate (w' :: ws) ++ cs) := by
  rw [List.intercalate_cons_cons, List.append_assoc, List.append_assoc]
  rfl

theorem skipBlanks_cons {c : Char} (h : isBlank c = false) (cs : List Char) :
    skipBlanks (c :: cs) = c :: cs :=
  List.dropWhile_cons_of_neg (by rw [h]; exact Bool.false_ne_true)

theorem yield_mark {mark : Char} {cs rest : List Char} (here : skipBlanks cs = mark :: rest) :
    yield (afterMark? mark cs) = some ((), rest) := by
  rw [yield_afterMark?, here]
  exact if_pos rfl

theorem yield_no_mark {mark c : Char} {cs rest : List Char} (here : skipBlanks cs = c :: rest)
    (other : c ≠ mark) : yield (afterMark? mark cs) = none := by
  rw [yield_afterMark?, here]
  exact if_neg other

/-- The part begins with a character that is no blank and closes nothing. -/
def Solid (w : List Char) : Prop :=
  ∃ c cs, w = c :: cs ∧ isBlank c = false ∧ c ≠ ']' ∧ c ≠ '\x7d'

namespace Solid

variable {w : List Char} (h : Solid w) (cs : List Char)
include h

theorem skipBlanks : Json.skipBlanks (w ++ cs) = w ++ cs := by
  obtain ⟨c, front, rfl, noBlank, -⟩ := h
  exact skipBlanks_cons noBlank (front ++ cs)

theorem list_open : yield (afterMark? ']' (w ++ cs)) = none := by
  obtain ⟨c, front, rfl, noBlank, other, -⟩ := h
  exact yield_no_mark (skipBlanks_cons noBlank (front ++ cs)) other

theorem object_open : yield (afterMark? '\x7d' (w ++ cs)) = none := by
  obtain ⟨c, front, rfl, noBlank, -, other⟩ := h
  exact yield_no_mark (skipBlanks_cons noBlank (front ++ cs)) other

/-- Parts with separators begin like the first of them. -/
theorem intercalate (ws : List (List Char)) : Solid ([',', ' '].intercalate (w :: ws)) := by
  obtain ⟨c, front, rfl, solid⟩ := h
  cases ws with
  | nil => exact ⟨c, _, rfl, solid⟩
  | cons w' ws => exact ⟨c, _, rfl, solid⟩

end Solid

theorem solid_writeTree {t : Tree} (h : Storable t) : Solid (writeTree t) := by
  cases h with
  | int n =>
    obtain ⟨c, cs, text, ne⟩ := toString_cons n
    have noBlank : isBlank c = false := by
      simp [isBlank, ne ' ', ne '\t', ne '\n', ne '\r', isDigit]
    exact ⟨c, cs, text, noBlank, ne ']' rfl (by decide), ne '\x7d' rfl (by decide)⟩
  | str s => exact ⟨'\x22', _, rfl, by decide⟩
  | list items => exact ⟨'[', _, rfl, by decide⟩
  | object names values => exact ⟨'\x7b', _, rfl, by decide⟩

theorem solid_writeField (x : String) (t : Tree) : Solid (writeField (.str x, t)) :=
  ⟨'\x22', _, rfl, by decide⟩

/-- The tree is read wherever it was written, also after blanks. -/
def Reads (t : Tree) : Prop :=
  ∀ cs rest, Ends rest → skipBlanks cs = writeTree t ++ rest →
    yield (readValue cs) = some (t, rest)

theorem ends_cons {c : Char} (h : c = ',' ∨ c = ']' ∨ c = '\x7d') (cs : List Char) :
    Ends (c :: cs) := by
  rintro _ ⟨⟩
  exact h

theorem reads_int (n : Int) : Reads (.int n) := by
  intro cs rest ends front
  have atom := yield_readAtom ends front
  obtain ⟨c, more, text, ne⟩ := toString_cons n
  have here : skipBlanks cs = c :: (more ++ rest) := by
    rw [front, ← List.cons_append, ← text]
    rfl
  rw [yield_readValue, here]
  dsimp only
  rw [if_neg (ne '\x22' rfl (by decide)), if_neg (ne '[' rfl (by decide)),
    if_neg (ne '\x7b' rfl (by decide)), atom]
  rfl

theorem reads_str (s : String) : Reads (.str s) := by
  intro cs rest _ front
  have text : writeTree (.str s) ++ rest =
      '\x22' :: (s.toList.flatMap writeChar ++ '\x22' :: rest) := by
    show '\x22' :: (s.toList.flatMap writeChar ++ ['\x22']) ++ rest = _
    rw [List.cons_append, List.append_assoc]
    rfl
  rw [yield_readValue, front, text]
  dsimp only
  rw [if_pos rfl, yield_readString]
  rfl

/-! ## Lists and objects -/

variable {cs rest : List Char}

/-- By induction on the items after the first. -/
theorem yield_readItems_write {t : Tree} {ts : List Tree} (storable : ∀ u ∈ t :: ts, Storable u)
    (reads : ∀ u ∈ t :: ts, Reads u)
    (front : skipBlanks cs = [',', ' '].intercalate ((t :: ts).map writeTree) ++ ']' :: rest) :
    yield (readItems cs) = some (t :: ts, rest) := by
  have readFirst := reads t List.mem_cons_self cs
  induction ts generalizing t cs with
  | nil =>
    have text : [',', ' '].intercalate ([t].map writeTree) = writeTree t := List.append_nil _
    have first := readFirst _ (ends_cons (.inr (.inl rfl)) rest) (text ▸ front)
    rw [yield_readItems, first, Option.bind_some, yield_mark (skipBlanks_cons rfl rest)]
  | cons u ts ih =>
    rw [List.map_cons, List.map_cons, separated_append] at front
    have others : ∀ v ∈ u :: ts, v ∈ t :: u :: ts := fun v hv => List.mem_cons_of_mem t hv
    have storable' := fun v hv => storable v (others v hv)
    have reads' := fun v hv => reads v (others v hv)
    have solid := (solid_writeTree (storable' u List.mem_cons_self)).intercalate (ts.map writeTree)
    have next : skipBlanks (' ' :: ([',', ' '].intercalate ((u :: ts).map writeTree) ++
        ']' :: rest)) = [',', ' '].intercalate ((u :: ts).map writeTree) ++ ']' :: rest :=
      solid.skipBlanks (']' :: rest)
    have more := ih storable' reads' next (reads' u List.mem_cons_self _)
    have first := readFirst _ (ends_cons (.inl rfl) _) front
    rw [yield_readItems, first, Option.bind_some, yield_no_mark (skipBlanks_cons rfl _) (by decide)]
    dsimp only
    rw [yield_mark (skipBlanks_cons rfl _), Option.bind_some]
    dsimp only
    rw [← List.map_cons, more]
    rfl

theorem writeTree_list (ts : List Tree) (rest : List Char) :
    writeTree (.list ts) ++ rest =
      '[' :: ([',', ' '].intercalate (ts.map writeTree) ++ ']' :: rest) := by
  rw [writeTree, bracketed, writeItems_eq, List.cons_append, List.cons_append, List.append_assoc]
  rfl

theorem reads_list {ts : List Tree} (storable : ∀ t ∈ ts, Storable t)
    (reads : ∀ t ∈ ts, Reads t) : Reads (.list ts) := by
  intro cs rest _ front
  rw [writeTree_list] at front
  rw [yield_readValue, front]
  dsimp only
  rw [if_neg (by decide), if_pos rfl]
  cases ts with
  | nil =>
    have closed : yield (afterMark? ']' (']' :: rest)) = some ((), rest) :=
      yield_mark (skipBlanks_cons rfl rest)
    have empty : [',', ' '].intercalate (([] : List Tree).map writeTree) ++ ']' :: rest =
        ']' :: rest := rfl
    rw [empty, closed]
  | cons t ts =>
    have solid := (solid_writeTree (storable t List.mem_cons_self)).intercalate (ts.map writeTree)
    rw [List.map_cons, solid.list_open]
    dsimp only
    rw [yield_readItems_write storable reads (solid.skipBlanks _)]
    rfl

/-- A field with a text for its name. -/
theorem writeField_str (x : String) (t : Tree) (rest : List Char) :
    writeField (.str x, t) ++ rest =
      '\x22' :: (x.toList.flatMap writeChar ++ '\x22' :: ':' :: ' ' :: (writeTree t ++ rest)) := by
  show '\x22' :: (x.toList.flatMap writeChar ++ ['\x22']) ++ ':' :: ' ' :: writeTree t ++ rest = _
  simp only [List.cons_append, List.append_assoc, List.nil_append]

/-- The first field of an object: its name, its value and what comes after it. -/
theorem yield_readFields_first {x : String} {t : Tree} (storable : Storable t) (reads : Reads t)
    (ends : Ends rest) (front : skipBlanks cs = writeField (.str x, t) ++ rest) :
    yield (readFields cs) =
      match yield (afterMark? '\x7d' rest) with
      | some (_, rest') => some ([(Scalar.str x, t)], rest')
      | none =>
        (yield (afterMark? ',' rest)).bind fun comma =>
          (yield (readFields comma.2)).map (Prod.map ((Scalar.str x, t) :: ·) id) := by
  rw [writeField_str] at front
  have value := reads (' ' :: (writeTree t ++ rest)) rest ends
    ((solid_writeTree storable).skipBlanks rest)
  rw [yield_readFields, yield_mark front, Option.bind_some]
  dsimp only
  rw [yield_readString, Option.bind_some]
  dsimp only
  rw [yield_mark (skipBlanks_cons rfl _), Option.bind_some]
  dsimp only
  rw [value, Option.bind_some]

/-- By induction on the fields after the first. -/
theorem yield_readFields_write {f : Scalar × Tree} {fs : Tree.Fields}
    (names : ∀ g ∈ f :: fs, ∃ x, g.1 = Scalar.str x) (storable : ∀ g ∈ f :: fs, Storable g.2)
    (reads : ∀ g ∈ f :: fs, Reads g.2)
    (front : skipBlanks cs = [',', ' '].intercalate ((f :: fs).map writeField) ++ '\x7d' :: rest) :
    yield (readFields cs) = some (f :: fs, rest) := by
  induction fs generalizing f cs with
  | nil =>
    obtain ⟨name, t⟩ := f
    obtain ⟨x, rfl⟩ := names _ List.mem_cons_self
    have text : [',', ' '].intercalate ([(Scalar.str x, t)].map writeField) =
        writeField (.str x, t) := List.append_nil _
    rw [yield_readFields_first (storable _ List.mem_cons_self) (reads _ List.mem_cons_self)
      (ends_cons (.inr (.inr rfl)) rest) (text ▸ front), yield_mark (skipBlanks_cons rfl rest)]
  | cons g fs ih =>
    obtain ⟨name, t⟩ := f
    obtain ⟨x, rfl⟩ := names _ List.mem_cons_self
    rw [List.map_cons, List.map_cons, separated_append] at front
    have others : ∀ h ∈ g :: fs, h ∈ (Scalar.str x, t) :: g :: fs :=
      fun h hh => List.mem_cons_of_mem _ hh
    have names' := fun h hh => names h (others h hh)
    have next : skipBlanks (' ' :: ([',', ' '].intercalate ((g :: fs).map writeField) ++
        '\x7d' :: rest)) = [',', ' '].intercalate ((g :: fs).map writeField) ++ '\x7d' :: rest := by
      obtain ⟨name, u⟩ := g
      obtain ⟨y, rfl⟩ := names' _ List.mem_cons_self
      exact ((solid_writeField y u).intercalate (fs.map writeField)).skipBlanks _
    have more := ih names' (fun h hh => storable h (others h hh))
      (fun h hh => reads h (others h hh)) next
    rw [yield_readFields_first (storable _ List.mem_cons_self) (reads _ List.mem_cons_self)
      (ends_cons (.inl rfl) _) front, yield_no_mark (skipBlanks_cons rfl _) (by decide)]
    dsimp only
    rw [yield_mark (skipBlanks_cons rfl _), Option.bind_some]
    dsimp only
    rw [← List.map_cons, more]
    rfl

theorem writeTree_object (fs : Tree.Fields) (rest : List Char) :
    writeTree (.object fs) ++ rest =
      '\x7b' :: ([',', ' '].intercalate (fs.map writeField) ++ '\x7d' :: rest) := by
  rw [writeTree, bracketed, writeFields_eq, List.cons_append, List.cons_append, List.append_assoc]
  rfl

theorem reads_object {fs : Tree.Fields} (names : ∀ f ∈ fs, ∃ x, f.1 = Scalar.str x)
    (storable : ∀ f ∈ fs, Storable f.2) (reads : ∀ f ∈ fs, Reads f.2) : Reads (.object fs) := by
  intro cs rest _ front
  rw [writeTree_object] at front
  rw [yield_readValue, front]
  dsimp only
  rw [if_neg (by decide), if_neg (by decide), if_pos rfl]
  cases fs with
  | nil =>
    have closed : yield (afterMark? '\x7d' ('\x7d' :: rest)) = some ((), rest) :=
      yield_mark (skipBlanks_cons rfl rest)
    have empty : [',', ' '].intercalate (([] : Tree.Fields).map writeField) ++ '\x7d' :: rest =
        '\x7d' :: rest := rfl
    rw [empty, closed]
  | cons f fs =>
    have solid : Solid ([',', ' '].intercalate ((f :: fs).map writeField)) := by
      obtain ⟨name, t⟩ := f
      obtain ⟨x, rfl⟩ := names _ List.mem_cons_self
      exact (solid_writeField x t).intercalate (fs.map writeField)
    rw [solid.object_open]
    dsimp only
    rw [yield_readFields_write names storable reads (solid.skipBlanks _)]
    rfl

/-- What is written is read back, by induction on the tree. -/
theorem reads_of_storable {t : Tree} (h : Storable t) : Reads t := by
  induction h with
  | int n => exact reads_int n
  | str s => exact reads_str s
  | list storable reads => exact reads_list storable reads
  | object names storable reads => exact reads_object names storable reads

theorem read?_write {t : Tree} (h : Storable t) : read? (write t) = some t := by
  have front : skipBlanks (write t).toList = writeTree t ++ [] := by
    have solid := (solid_writeTree h).skipBlanks []
    rw [List.append_nil] at solid ⊢
    rw [write, String.toList_ofList, solid]
  obtain ⟨⟨value, rest, _⟩, found, read⟩ :=
    Option.map_eq_some_iff.1 (reads_of_storable h _ [] ends_nil front)
  obtain ⟨same, nothing⟩ := Prod.mk.inj read
  dsimp only at same nothing
  subst same nothing
  rw [read?, found]
  rfl

/-! ## The characters of a written tree -/

theorem isPrintable_of_isDigit {c : Char} (h : isDigit c = true) : IsPrintable c := by
  rw [isDigit, Bool.and_eq_true, decide_eq_true_eq, decide_eq_true_eq] at h
  exact ⟨Char.le_trans (by decide) h.1, Char.le_trans h.2 (by decide)⟩

theorem isPrintable_toString {n : Int} {c : Char} (h : c ∈ (toString n).toList) :
    IsPrintable c := by
  rw [toList_toString, List.mem_append] at h
  rcases h with h | h
  · split at h
    · rw [List.mem_singleton.1 h]
      decide
    · cases h
  · exact isPrintable_of_isDigit (Numeral.isDigit_of_mem_toDigits h)

theorem mem_separated {ws : List (List Char)} {c : Char}
    (h : c ∈ [',', ' '].intercalate ws) : c = ',' ∨ c = ' ' ∨ ∃ w ∈ ws, c ∈ w := by
  induction ws with
  | nil => cases h
  | cons w ws ih =>
    cases ws with
    | nil => exact .inr (.inr ⟨w, List.mem_cons_self, (List.append_nil w) ▸ h⟩)
    | cons w' ws =>
      rw [List.intercalate_cons_cons, List.mem_append, List.mem_append] at h
      rcases h with (h | h) | h
      · exact .inr (.inr ⟨w, List.mem_cons_self, h⟩)
      · rcases List.mem_pair.1 h with rfl | rfl
        · exact .inl rfl
        · exact .inr (.inl rfl)
      · rcases ih h with h | h | ⟨v, hv, hc⟩
        · exact .inl h
        · exact .inr (.inl h)
        · exact .inr (.inr ⟨v, List.mem_cons_of_mem w hv, hc⟩)

theorem isPrintable_bracketed {left right : Char} {ws : List (List Char)} {c : Char}
    (hleft : IsPrintable left) (hright : IsPrintable right)
    (items : ∀ w ∈ ws, ∀ c ∈ w, IsPrintable c) (h : c ∈ bracketed left right ws) :
    IsPrintable c := by
  rw [bracketed, List.cons_append, List.mem_cons, List.mem_append, List.mem_singleton] at h
  rcases h with rfl | h | rfl
  · exact hleft
  · rcases mem_separated h with rfl | rfl | ⟨w, hw, hc⟩
    · decide
    · decide
    · exact items w hw c hc
  · exact hright

theorem isPrintable_writeTree {t : Tree} (h : Storable t) : ∀ c ∈ writeTree t, IsPrintable c := by
  induction h with
  | int n => exact fun c hc => isPrintable_toString hc
  | str s => exact fun c hc => isPrintable_writeString hc
  | @list ts items ih =>
    intro c hc
    rw [writeTree, writeItems_eq] at hc
    refine isPrintable_bracketed (by decide) (by decide) (fun w hw => ?_) hc
    obtain ⟨t, ht, rfl⟩ := List.mem_map.1 hw
    exact ih t ht
  | @object fs names values ih =>
    intro c hc
    rw [writeTree, writeFields_eq] at hc
    refine isPrintable_bracketed (by decide) (by decide) (fun w hw d hd => ?_) hc
    obtain ⟨⟨name, t⟩, hf, rfl⟩ := List.mem_map.1 hw
    obtain ⟨x, rfl⟩ := names _ hf
    rw [writeField, List.mem_append, List.mem_cons, List.mem_cons] at hd
    rcases hd with hd | rfl | rfl | hd
    · exact isPrintable_writeString hd
    · decide
    · decide
    · exact ih _ hf d hd

end Json

/-! ## Resolutions -/

open Json (Storable)

namespace Json.Storable

theorem nil : Storable (.object []) := .object nofun nofun

/-- One more field in front of others. -/
theorem field {x : String} {t : Tree} {fs : Tree.Fields} (value : Storable t)
    (others : Storable (.object fs)) : Storable (.object ((.str x, t) :: fs)) := by
  cases others with
  | object names values =>
    exact .object (List.forall_mem_cons.2 ⟨⟨x, rfl⟩, names⟩) (List.forall_mem_cons.2 ⟨value, values⟩)

end Json.Storable

theorem Expr.storable_toTree (e : Expr) : Storable e.toTree := by
  induction e with
  | integer n => exact .field (.str _) (.field (.int n) .nil)
  | text s => exact .field (.str _) (.field (.str s) .nil)
  | name x => exact .field (.str x) (.field (.str _) .nil)
  | unary op e ih => exact .field ih (.field (.str _) (.field (.str _) .nil))
  | binary op a b iha ihb =>
    exact .field iha (.field (.str _) (.field ihb (.field (.str _) .nil)))
  | less l r ihl ihr => exact .field ihl (.field (.str _) (.field ihr (.field (.str _) .nil)))
  | power op e ih => exact .field ih (.field (.str _) (.field (.str _) .nil))

theorem Declaration.storable_toTree (d : Declaration) : Storable d.toTree :=
  .field (.str d.name) (.field (.str _) (.field d.value.storable_toTree .nil))

theorem Statement.storable_toTree (s : Statement) : Storable s.toTree := by
  induction s with
  | declare d => exact d.storable_toTree
  | assume x e => exact .field (.str x) (.field (.str _) (.field e.storable_toTree .nil))
  | publish e => exact .field (.str _) (.field e.storable_toTree .nil)
  | conditional l r relation c ih =>
    have right := r.storable_toTree
    exact .field ih (.field l.storable_toTree (.field (.str _) (.field right (.field (.str _) .nil))))

namespace Resolution

theorem storable_toTree (r : Resolution) : Storable r.toTree := by
  refine .field (.list fun t ht => ?_) (.field (.list fun t ht => ?_) .nil)
  · obtain ⟨s, -, rfl⟩ := List.mem_map.1 ht
    exact s.storable_toTree
  · obtain ⟨d, -, rfl⟩ := List.mem_map.1 ht
    exact d.storable_toTree

/-- A resolution written as JSON is one line of printable ASCII, and the same resolution is
read back from it. -/
theorem json_roundtrip (r : Resolution) :
    (∀ c ∈ (Json.write r.toTree).toList, ' ' ≤ c ∧ c ≤ '~') ∧
      (Json.read? (Json.write r.toTree)).map ofTree = some (.ok r) := by
  constructor
  · intro c hc
    rw [Json.write, String.toList_ofList] at hc
    exact Json.isPrintable_writeTree r.storable_toTree c hc
  · rw [Json.read?_write r.storable_toTree, Option.map_some,
      ofTree_eq_ok_iff.2 (pruneTree_toTree r)]

end Resolution
end Legalese
