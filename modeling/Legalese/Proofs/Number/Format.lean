import Mathlib.Data.List.Basic
import Legalese.Proofs.Number.Numeral
import Legalese.Reading.Cardinal

/-!
# The format of numerals

`Formatted` says what a numeral looks like, without writing or reading one: a zero alone,
or one to three digits, of which the first is not a zero, and after them groups of three
digits, each with a comma before it; a dash may stand in front, but not of the zero.
`value` says what number it is, with the commas left out.

Every integer has one numeral of this format and every text of this format is the numeral
of its value.  Main statement: a text is read as a number just when it is the written form
of that number of the range, which is to say that it has the format and its value is in the
range.  Any other text is refused, and the error holds the text.
-/

namespace Legalese
namespace Numeral

/-! ## Look and value -/

/-- Groups of three digits, with a comma before each. -/
inductive Groups : List Char → Prop
  | done : Groups []
  | more {a b c : Char} {cs : List Char} (ha : isDigit a = true) (hb : isDigit b = true)
      (hc : isDigit c = true) (rest : Groups cs) : Groups (',' :: a :: b :: c :: cs)

/-- The numeral of a positive number: one digit, at most two others, and groups. -/
inductive Magnitude : List Char → Prop
  | intro {c : Char} {ds cs : List Char} (lead : '1' ≤ c ∧ c ≤ '9')
      (digits : ∀ d ∈ ds, isDigit d = true) (short : ds.length < 3) (rest : Groups cs) :
      Magnitude (c :: (ds ++ cs))

inductive Formatted : List Char → Prop
  | zero : Formatted ['0']
  | positive {cs : List Char} (h : Magnitude cs) : Formatted cs
  | negative {cs : List Char} (h : Magnitude cs) : Formatted ('-' :: cs)

/-- A text without its commas. -/
def bareDigits (cs : List Char) : List Char := cs.filter (· ≠ ',')

def magnitudeValue (cs : List Char) : Nat := Nat.ofDigitChars 10 (bareDigits cs) 0

/-- The number that a text stands for if it has the format. -/
def value : List Char → Int
  | '-' :: cs => -(magnitudeValue cs : Int)
  | cs => magnitudeValue cs

theorem isDigit_of_lead {c : Char} (h : '1' ≤ c ∧ c ≤ '9') : isDigit c = true := by
  have zero : '0' ≤ c := Char.le_trans (by decide) h.1
  simp [isDigit, zero, h.2]

theorem bareDigits_cons {c : Char} (h : isDigit c = true) (cs : List Char) :
    bareDigits (c :: cs) = c :: bareDigits cs := by
  have other : c ≠ ',' := by
    rintro rfl
    cases h
  rw [bareDigits, List.filter_cons_of_pos (by simpa using other), bareDigits]

theorem bareDigits_comma (cs : List Char) : bareDigits (',' :: cs) = bareDigits cs := rfl

/-- The commas of a written numeral are left out again. -/
theorem bareDigits_separate {cs : List Char} (digits : ∀ c ∈ cs, isDigit c = true) :
    bareDigits (separate cs) = cs := by
  induction cs with
  | nil => rfl
  | cons c cs ih =>
    have hc := digits c List.mem_cons_self
    have ih := ih fun x hx => digits x (List.mem_cons_of_mem c hx)
    rw [separate]
    split
    · rw [bareDigits_cons hc, bareDigits_comma, ih]
    · rw [bareDigits_cons hc, ih]

/-! ## What is written has the format -/

/-- After a digit there are up to two others before the first comma, as many as make the
rest a multiple of three. -/
theorem separate_eq {c : Char} {cs : List Char} (digits : ∀ x ∈ c :: cs, isDigit x = true) :
    ∃ ds rest, separate (c :: cs) = c :: (ds ++ rest) ∧ (∀ d ∈ ds, isDigit d = true) ∧
      ds.length = cs.length % 3 ∧ Groups rest := by
  induction cs generalizing c with
  | nil => exact ⟨[], [], rfl, nofun, rfl, .done⟩
  | cons x xs ih =>
    have tail : ∀ y ∈ x :: xs, isDigit y = true :=
      fun y hy => digits y (List.mem_cons_of_mem c hy)
    obtain ⟨ds, rest, e, hds, length, groups⟩ := ih tail
    have hx := tail x List.mem_cons_self
    rw [separate]
    by_cases whole : (x :: xs).length % 3 = 0
    · have two : ds.length = 2 := by
        rw [List.length_cons] at whole
        omega
      obtain ⟨y, z, rfl⟩ := List.length_eq_two.1 two
      rw [if_pos ⟨List.cons_ne_nil x xs, whole⟩, e]
      refine ⟨[], _, rfl, nofun, whole.symm, .more hx (hds y ?_) (hds z ?_) groups⟩
      · exact List.mem_cons_self
      · exact List.mem_cons_of_mem y List.mem_cons_self
    · rw [if_neg fun h => whole h.2, e]
      refine ⟨x :: ds, rest, rfl, fun d hd => ?_, ?_, groups⟩
      · rcases List.mem_cons.1 hd with rfl | hd
        · exact hx
        · exact hds d hd
      · rw [List.length_cons] at whole ⊢
        rw [List.length_cons]
        omega

theorem magnitude_writeNat {n : Nat} (pos : 0 < n) : Magnitude (writeNat n) := by
  obtain ⟨c, cs, hc, lead⟩ := leading_toDigits pos
  have digits : ∀ x ∈ c :: cs, isDigit x = true := fun x hx =>
    isDigit_of_mem_toDigits (hc ▸ hx)
  obtain ⟨ds, rest, e, hds, length, groups⟩ := separate_eq digits
  rw [writeNat, hc, e]
  exact .intro lead hds (by omega) groups

theorem magnitudeValue_writeNat (n : Nat) : magnitudeValue (writeNat n) = n := by
  rw [magnitudeValue, writeNat, bareDigits_separate fun c => isDigit_of_mem_toDigits]
  exact Nat.ofDigitChars_ten_toDigits

theorem value_of_not_dash {c : Char} (h : c ≠ '-') (cs : List Char) :
    value (c :: cs) = magnitudeValue (c :: cs) := by
  rw [value]
  rintro ds e
  exact h (List.cons.inj e).1

theorem Magnitude.value_eq {cs : List Char} (h : Magnitude cs) : value cs = magnitudeValue cs := by
  cases h with
  | intro lead _ _ _ =>
    refine value_of_not_dash ?_ _
    rintro rfl
    exact absurd lead.1 (by decide)

/-- The written form of any integer, of the range or not, has the format and its value. -/
theorem formatted_write (n : Int) :
    Formatted (write n).toList ∧ value (write n).toList = n := by
  unfold write
  rw [String.toList_ofList]
  by_cases negative : n < 0
  · rw [if_pos negative]
    refine ⟨.negative (magnitude_writeNat (by omega)), ?_⟩
    show -(magnitudeValue (writeNat n.natAbs) : Int) = n
    rw [magnitudeValue_writeNat]
    omega
  · rw [if_neg negative]
    by_cases zero : n = 0
    · subst zero
      exact ⟨.zero, rfl⟩
    · have magnitude : Magnitude (writeNat n.natAbs) := magnitude_writeNat (by omega)
      refine ⟨.positive magnitude, ?_⟩
      rw [magnitude.value_eq, magnitudeValue_writeNat]
      omega

/-! ## What has the format is written -/

theorem Groups.digits {cs : List Char} (h : Groups cs) : ∀ c ∈ bareDigits cs, isDigit c = true := by
  induction h with
  | done => nofun
  | more ha hb hc _ ih =>
    rw [bareDigits_comma, bareDigits_cons ha, bareDigits_cons hb, bareDigits_cons hc]
    simpa [ha, hb, hc] using ih

theorem Groups.length {cs : List Char} (h : Groups cs) : (bareDigits cs).length % 3 = 0 := by
  induction h with
  | done => rfl
  | more ha hb hc _ ih =>
    rw [bareDigits_comma, bareDigits_cons ha, bareDigits_cons hb, bareDigits_cons hc]
    simp only [List.length_cons]
    omega

/-- No comma stands after a digit if the digits after it are no multiple of three. -/
theorem separate_cons_of_ne {c : Char} {cs : List Char} (h : cs.length % 3 ≠ 0) :
    separate (c :: cs) = c :: separate cs := by
  rw [separate, if_neg fun both => h both.2]

theorem separate_cons_groups {c : Char} {cs : List Char} (h : Groups cs) :
    separate (c :: bareDigits cs) = c :: cs := by
  induction h generalizing c with
  | done => rfl
  | @more x y z cs hx hy hz rest ih =>
    have length := rest.length
    have whole : (x :: y :: z :: bareDigits cs).length % 3 = 0 := by
      simp only [List.length_cons]
      omega
    rw [bareDigits_comma, bareDigits_cons hx, bareDigits_cons hy, bareDigits_cons hz, separate,
      if_pos ⟨List.cons_ne_nil _ _, whole⟩, separate_cons_of_ne, separate_cons_of_ne, ih]
    · rw [List.length_cons]
      omega
    · simp only [List.length_cons]
      omega

/-- A magnitude has its commas where they are written. -/
theorem Magnitude.separate_eq {cs : List Char} (h : Magnitude cs) :
    separate (bareDigits cs) = cs := by
  cases h with
  | @intro c ds cs lead digits short rest =>
    have length := rest.length
    have plain (d : Char) (hd : d ∈ ds) (es : List Char) :
        bareDigits (d :: es) = d :: bareDigits es := bareDigits_cons (digits d hd) es
    rw [bareDigits_cons (isDigit_of_lead lead)]
    match ds, short with
    | [], _ => exact separate_cons_groups rest
    | [x], _ =>
      rw [List.singleton_append, plain x (by simp), separate_cons_of_ne, separate_cons_groups rest]
      rw [List.length_cons]
      omega
    | [x, y], _ =>
      show separate (c :: bareDigits (x :: y :: cs)) = c :: x :: y :: cs
      rw [plain x (by simp), plain y (by simp), separate_cons_of_ne, separate_cons_of_ne,
        separate_cons_groups rest]
      · rw [List.length_cons]
        omega
      · simp only [List.length_cons]
        omega

theorem Magnitude.digits {cs : List Char} (h : Magnitude cs) :
    ∀ c ∈ bareDigits cs, isDigit c = true := by
  cases h with
  | intro lead digits _ rest =>
    intro d hd
    obtain ⟨mem, other⟩ := List.mem_filter.1 hd
    rcases List.mem_cons.1 mem with rfl | mem
    · exact isDigit_of_lead lead
    · rcases List.mem_append.1 mem with mem | mem
      · exact digits d mem
      · exact rest.digits d (List.mem_filter.2 ⟨mem, other⟩)

/-- Digits of which the first is not a zero are the digits of their value. -/
theorem toDigits_of_lead {c : Char} {cs : List Char} (lead : '1' ≤ c ∧ c ≤ '9')
    (digits : ∀ x ∈ cs, isDigit x = true) :
    0 < Nat.ofDigitChars 10 (c :: cs) 0 ∧
      Nat.toDigits 10 (Nat.ofDigitChars 10 (c :: cs) 0) = c :: cs := by
  have first : 0 < c.toNat - '0'.toNat := by
    have : '1'.toNat ≤ c.toNat := UInt32.le_iff_toNat_le.1 lead.1
    have : '1'.toNat = 49 := rfl
    have : '0'.toNat = 48 := rfl
    omega
  rw [Nat.ofDigitChars_cons, Nat.mul_zero, Nat.zero_add, toDigits_ofDigitChars digits first,
    toDigits_digit (isDigit_of_lead lead)]
  exact ⟨Nat.lt_of_lt_of_le first (le_ofDigitChars cs _), rfl⟩

theorem Magnitude.writeNat_eq {cs : List Char} (h : Magnitude cs) :
    0 < magnitudeValue cs ∧ writeNat (magnitudeValue cs) = cs := by
  have digits := h.digits
  have commas := h.separate_eq
  cases h with
  | intro lead _ _ _ =>
    rw [bareDigits_cons (isDigit_of_lead lead)] at digits commas
    obtain ⟨pos, same⟩ := toDigits_of_lead lead fun x hx => digits x (List.mem_cons_of_mem _ hx)
    rw [magnitudeValue, bareDigits_cons (isDigit_of_lead lead), writeNat, same]
    exact ⟨pos, commas⟩

/-- A text of the format is the written form of its value. -/
theorem Formatted.write_eq {cs : List Char} (h : Formatted cs) : (write (value cs)).toList = cs := by
  unfold write
  rw [String.toList_ofList]
  cases h with
  | zero => rfl
  | positive h =>
    obtain ⟨pos, same⟩ := h.writeNat_eq
    rw [h.value_eq, if_neg (by omega), Int.natAbs_natCast, same]
  | @negative cs h =>
    obtain ⟨pos, same⟩ := h.writeNat_eq
    have negated : value ('-' :: cs) = -(magnitudeValue cs : Int) := rfl
    rw [negated, if_pos (by omega), Int.natAbs_neg, Int.natAbs_natCast, same]

theorem formatted_iff {s : String} {n : Int} :
    s = write n ↔ Formatted s.toList ∧ value s.toList = n := by
  constructor
  · rintro rfl
    exact formatted_write n
  · rintro ⟨formatted, rfl⟩
    exact (String.toList_inj.1 formatted.write_eq).symm

/-! ## Reading -/

theorem parse_eq_ok {s : String} {v : Int} : parse s = .ok v ↔ InRange v ∧ s = write v := by
  rw [← read?_eq_some_iff, parse]
  cases read? s with
  | none => simp
  | some n => simp

theorem parse_eq_error {s : String} {e : Error} :
    parse s = .error e ↔ e = .numeral s ∧ ∀ v, parse s ≠ .ok v := by
  rw [parse]
  cases read? s with
  | none => simp [eq_comm]
  | some n => simp

theorem write?_eq_ok {s : String} {v : Int} : write? v = .ok s ↔ InRange v ∧ s = write v := by
  rw [write?, inRangeOnly]
  by_cases h : InRange v
  · rw [if_pos h]
    simp [h, eq_comm]
  · rw [if_neg h]
    simp [h]

/-- Reading and writing numerals.  A text is read as a number just when it is the written
form of that number of the range, and just when it has the format, with a value in the
range.  Every other text is refused with an error that holds it, among them the numerals of
numbers outside the range. -/
theorem parse_iff_written :
    (∀ s v, parse s = .ok v ↔ InRange v ∧ write? v = .ok s) ∧
      (∀ s e, parse s = .error e ↔ e = .numeral s ∧ ∀ v, InRange v → write? v ≠ .ok s) ∧
      (∀ s v, parse s = .ok v ↔ Formatted s.toList ∧ value s.toList = v ∧ InRange v) ∧
      (∀ v, InRange v → ∃ s, write? v = .ok s ∧ parse s = .ok v) ∧
      ∀ v, ¬InRange v → parse (write v) = .error (.numeral (write v)) := by
  have written (s : String) (v : Int) : parse s = .ok v ↔ InRange v ∧ write? v = .ok s := by
    rw [write?_eq_ok, parse_eq_ok, and_self_left]
  have refused (s : String) (e : Error) :
      parse s = .error e ↔ e = .numeral s ∧ ∀ v, InRange v → write? v ≠ .ok s := by
    rw [parse_eq_error]
    simp only [ne_eq, written, not_and]
  refine ⟨written, refused, fun s v => ?_, fun v h => ?_, fun v h => ?_⟩
  · rw [parse_eq_ok, formatted_iff, and_comm, and_assoc]
  · exact ⟨write v, write?_eq_ok.2 ⟨h, rfl⟩, parse_eq_ok.2 ⟨h, rfl⟩⟩
  · refine parse_eq_error.2 ⟨rfl, fun w read => h ?_⟩
    obtain ⟨inRange, same⟩ := parse_eq_ok.1 read
    -- one text has one value
    have value : v = w := by rw [← (formatted_write v).2, same, (formatted_write w).2]
    rwa [value]

/-- The least number is read, and the one below it is not. -/
theorem parse_at_least_number :
    parse "-9,223,372,036,854,775,808" = .ok minNumber ∧
      parse "-9,223,372,036,854,775,809" = .error (.numeral "-9,223,372,036,854,775,809") ∧
      ¬Formatted "9223,372".toList := by
  have least : write? minNumber = .ok "-9,223,372,036,854,775,808" := rfl
  have below : write (minNumber - 1) = "-9,223,372,036,854,775,809" := by decide +kernel
  have refused : parse "9223,372" = .error (.numeral "9223,372") := by cbv
  refine ⟨(parse_iff_written.1 _ _).2 ⟨by decide, least⟩, ?_, fun formatted => ?_⟩
  · rw [← below]
    exact parse_iff_written.2.2.2.2 (minNumber - 1) (by decide)
  · have read := (parse_iff_written.2.2.1 "9223,372" 9223372).2 ⟨formatted, by decide, by decide⟩
    rw [refused] at read
    cases read

example : ∀ s ∈ ["+1", "-0", "01", "1000", ",100", "10,00", "1,000,", "1,,000", "-", ""],
    read? s = none := by
  decide +kernel

end Numeral
end Legalese
