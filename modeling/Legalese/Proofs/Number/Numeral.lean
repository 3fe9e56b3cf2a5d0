import Legalese.Number.Numeral

/-!
# Numerals are read back

The reader of numerals takes digits one by one and refuses a prefix outside the range.
On a written numeral every prefix lies between zero and the number, so nothing is
refused, and the commas stand where the reader expects them.

Written numerals are also the only ones that it accepts (`read?_eq_some_iff`).
-/

namespace Legalese
namespace Numeral

/-! ## What is read lies in the range -/

theorem inRange_of_readDigits? {sign value v : Int} {cs : List Char} (start : InRange value)
    (h : readDigits? sign cs value = some v) : InRange v := by
  induction cs generalizing value with
  | nil =>
    cases h
    exact start
  | cons c cs ih =>
    rw [readDigits?] at h
    split at h
    · split at h
      · exact ih start h
      · cases h
    · split at h
      · dsimp only at h
        split at h
        · next inRange => exact ih inRange h
        · cases h
      · cases h

theorem inRange_of_readMagnitude? {sign v : Int} {cs : List Char}
    (h : readMagnitude? sign cs = some v) : InRange v := by
  unfold readMagnitude? at h
  split at h
  · cases h
  · split at h
    · exact inRange_of_readDigits? (by decide) h
    · cases h

theorem inRange_of_read? {s : String} {v : Int} (h : read? s = some v) : InRange v := by
  unfold read? readChars? at h
  split at h
  · cases h
    decide
  · exact inRange_of_readMagnitude? h
  · exact inRange_of_readMagnitude? h

/-! ## Commas -/

theorem length_separate (cs : List Char) :
    (separate cs).length = cs.length + (cs.length - 1) / 3 := by
  induction cs with
  | nil => rfl
  | cons c cs ih =>
    rw [separate]
    split
    · next h =>
      have := List.length_pos_iff.2 h.1
      simp only [List.length_cons, ih]
      omega
    · next h =>
      simp only [List.length_cons, ih]
      by_cases e : cs = []
      · simp [e]
      · have : cs.length % 3 ≠ 0 := fun hm => h ⟨e, hm⟩
        omega

/-- Reads digits that have no commas between them. -/
def readPlain? (sign : Int) : List Char → Int → Option Int
  | [], value => some value
  | c :: cs, value =>
    let value := 10 * value + sign * digitValue c
    if InRange value then readPlain? sign cs value else none

/-- The commas of `separate` are the ones that the reader skips. -/
theorem readDigits?_separate {cs : List Char} (digits : ∀ c ∈ cs, isDigit c = true)
    (sign value : Int) : readDigits? sign (separate cs) value = readPlain? sign cs value := by
  induction cs generalizing value with
  | nil => rfl
  | cons c cs ih =>
    have hc := digits c List.mem_cons_self
    have ih := ih fun x hx => digits x (List.mem_cons_of_mem c hx)
    have length := length_separate cs
    rw [separate, readPlain?]
    split
    · next h =>
      have := List.length_pos_iff.2 h.1
      have here : ¬(',' :: separate cs).length % 4 = 3 := by
        rw [List.length_cons]
        omega
      have comma : (separate cs).length % 4 = 3 := by omega
      rw [readDigits?, if_neg here, if_pos hc]
      dsimp only
      split
      · rw [readDigits?, if_pos comma, if_pos rfl, ih]
      · rfl
    · next h =>
      have here : ¬(separate cs).length % 4 = 3 := by
        by_cases e : cs = []
        · simp [e, separate]
        · have : cs.length % 3 ≠ 0 := fun hm => h ⟨e, hm⟩
          have := List.length_pos_iff.2 e
          omega
      rw [readDigits?, if_neg here, if_pos hc]
      dsimp only
      split
      · rw [ih]
      · rfl

/-! ## Digits -/

theorem le_ofDigitChars (cs : List Char) (m : Nat) : m ≤ Nat.ofDigitChars 10 cs m := by
  induction cs generalizing m with
  | nil => simp
  | cons c cs ih =>
    rw [Nat.ofDigitChars_cons]
    have := ih (10 * m + (c.toNat - '0'.toNat))
    omega

/-- A number between zero and a number of the range is in the range. -/
theorem inRange_of_le {sign : Int} {m n : Nat} (hs : sign = 1 ∨ sign = -1) (le : m ≤ n)
    (h : InRange (sign * n)) : InRange (sign * m) := by
  unfold InRange minNumber maxNumber at *
  rcases hs with rfl | rfl
  · omega
  · omega

/-- One more digit, taken into a positive or a negative number. -/
theorem append_digit {sign : Int} (hs : sign = 1 ∨ sign = -1) (m : Nat) (c : Char) :
    10 * (sign * m) + sign * (digitValue c : Int) =
      sign * ((10 * m + (c.toNat - '0'.toNat) : Nat) : Int) := by
  rw [digitValue]
  rcases hs with rfl | rfl
  · omega
  · omega

theorem readPlain?_eq {sign : Int} (hs : sign = 1 ∨ sign = -1) {cs : List Char} {m : Nat}
    (h : InRange (sign * Nat.ofDigitChars 10 cs m)) :
    readPlain? sign cs (sign * m) = some (sign * Nat.ofDigitChars 10 cs m) := by
  induction cs generalizing m with
  | nil => simp [readPlain?]
  | cons c cs ih =>
    rw [Nat.ofDigitChars_cons] at h ⊢
    rw [readPlain?, append_digit hs, if_pos (inRange_of_le hs (le_ofDigitChars cs _) h)]
    exact ih h

theorem isDigit_of_mem_toDigits {n : Nat} {c : Char} (h : c ∈ Nat.toDigits 10 n) :
    isDigit c = true :=
  Nat.isDigit_of_mem_toDigits (by decide) (by decide) h

/-- The numeral of a positive number does not begin with a zero. -/
theorem leading_toDigits {n : Nat} (h : 0 < n) :
    ∃ c cs, Nat.toDigits 10 n = c :: cs ∧ '1' ≤ c ∧ c ≤ '9' := by
  induction n using Nat.strongRecOn with
  | _ n ih =>
    rw [Nat.toDigits_eq_if (by decide)]
    split
    · next small =>
      refine ⟨n.digitChar, [], rfl, ?_⟩
      match n, h, small with
      | 1, _, _ | 2, _, _ | 3, _, _ | 4, _, _ | 5, _, _ | 6, _, _ | 7, _, _ | 8, _, _
      | 9, _, _ => decide
    · next large =>
      obtain ⟨c, cs, hc, bounds⟩ := ih (n / 10) (by omega) (by omega)
      exact ⟨c, cs ++ [(n % 10).digitChar], by rw [hc]; rfl, bounds⟩

theorem separate_cons (c : Char) (cs : List Char) : ∃ r, separate (c :: cs) = c :: r := by
  rw [separate]
  split
  · exact ⟨_, rfl⟩
  · exact ⟨_, rfl⟩

theorem readMagnitude?_writeNat {sign : Int} (hs : sign = 1 ∨ sign = -1) {n : Nat} (pos : 0 < n)
    (h : InRange (sign * n)) : readMagnitude? sign (writeNat n) = some (sign * n) := by
  obtain ⟨c, cs, hc, bounds⟩ := leading_toDigits pos
  obtain ⟨r, hr⟩ := separate_cons c cs
  have value : Nat.ofDigitChars 10 (Nat.toDigits 10 n) 0 = n := Nat.ofDigitChars_ten_toDigits
  have inRange : InRange (sign * Nat.ofDigitChars 10 (Nat.toDigits 10 n) 0) := by
    rw [value]
    exact h
  have plain := readPlain?_eq hs inRange
  rw [value] at plain
  rw [writeNat, hc, hr, readMagnitude?, if_pos bounds, ← hr, ← hc,
    readDigits?_separate fun c => isDigit_of_mem_toDigits]
  simpa using plain

theorem read?_write {n : Int} (h : InRange n) : read? (write n) = some n := by
  unfold read? write
  rw [String.toList_ofList]
  split
  · next negative =>
    have inRange : InRange (-1 * n.natAbs) := by
      rw [show -1 * (n.natAbs : Int) = n by omega]
      exact h
    have magnitude := readMagnitude?_writeNat (.inr rfl) (by omega) inRange
    rw [readChars?, magnitude]
    congr 1
    omega
  · next natural =>
    by_cases zero : n = 0
    · subst zero
      rfl
    · have inRange : InRange (1 * n.natAbs) := by
        rw [show 1 * (n.natAbs : Int) = n by omega]
        exact h
      have magnitude := readMagnitude?_writeNat (.inl rfl) (by omega) inRange
      obtain ⟨c, cs, hc, bounds⟩ := leading_toDigits (n := n.natAbs) (by omega)
      obtain ⟨r, hr⟩ := separate_cons c cs
      rw [writeNat, hc, hr] at magnitude ⊢
      have not_zero : c ≠ '0' := fun e => absurd (e ▸ bounds.1) (by decide)
      have not_dash : c ≠ '-' := fun e => absurd (e ▸ bounds.1) (by decide)
      unfold readChars?
      split
      · next e => cases e; exact absurd rfl not_zero
      · next e => cases e; exact absurd rfl not_dash
      · rw [magnitude]
        congr 1
        omega

/-! ## Nothing but numerals is read -/

/-- What stands at a place where no digit may stand is a comma.  A list that begins at such
a place is a comma and the numeral after it. -/
theorem readDigits?_eq_some {sign value v : Int} {cs : List Char}
    (h : readDigits? sign cs value = some v) :
    ∃ ds : List Char, (∀ c ∈ ds, isDigit c = true) ∧ readPlain? sign ds value = some v ∧
      (cs.length % 4 = 0 ∧ cs = ',' :: separate ds ∨
        (cs = [] ∨ cs.length % 4 ≠ 0) ∧ cs = separate ds) := by
  induction cs generalizing value with
  | nil => exact ⟨[], nofun, h, .inr ⟨.inl rfl, rfl⟩⟩
  | cons c cs ih =>
    rw [readDigits?] at h
    split at h
    · next place =>
      split at h
      · next comma =>
        obtain ⟨ds, digits, plain, e⟩ := ih h
        refine ⟨ds, digits, plain, .inl ⟨?_, ?_⟩⟩
        · rw [List.length_cons]
          omega
        · rcases e with ⟨fourth, -⟩ | ⟨-, e⟩
          · omega
          · rw [comma, e]
      · cases h
    · next place =>
      split at h
      · next digit =>
        dsimp only at h
        split at h
        · next inRange =>
          obtain ⟨ds, digits, plain, e⟩ := ih h
          refine ⟨c :: ds, ?_, by rw [readPlain?, if_pos inRange, plain], .inr ⟨.inr ?_, ?_⟩⟩
          · intro x hx
            rcases List.mem_cons.1 hx with rfl | hx
            · exact digit
            · exact digits x hx
          · rw [List.length_cons]
            omega
          · have length := length_separate ds
            rw [separate]
            rcases e with ⟨fourth, e⟩ | ⟨-, e⟩
            · rw [e, List.length_cons] at fourth
              have whole : ds.length % 3 = 0 ∧ 0 < ds.length := by omega
              rw [if_pos ⟨List.length_pos_iff.1 whole.2, whole.1⟩, e]
            · rw [e] at place ⊢
              rw [if_neg]
              rintro ⟨ne, whole⟩
              have := List.length_pos_iff.2 ne
              omega
        · cases h
      · cases h

theorem readPlain?_eq_some {sign v : Int} (hs : sign = 1 ∨ sign = -1) {cs : List Char} {m : Nat}
    (h : readPlain? sign cs (sign * m) = some v) : v = sign * Nat.ofDigitChars 10 cs m := by
  induction cs generalizing m with
  | nil =>
    cases h
    rw [Nat.ofDigitChars_nil]
  | cons c cs ih =>
    rw [readPlain?, append_digit hs] at h
    split at h
    · rw [Nat.ofDigitChars_cons]
      exact ih h
    · cases h

theorem digit_bounds {c : Char} (h : isDigit c = true) : 48 ≤ c.toNat ∧ c.toNat ≤ 57 := by
  simp only [isDigit, Bool.and_eq_true, decide_eq_true_eq, Char.le_def,
    UInt32.le_iff_toNat_le] at h
  exact h

theorem toDigits_digit {c : Char} (h : isDigit c = true) :
    Nat.toDigits 10 (c.toNat - '0'.toNat) = [c] := by
  obtain ⟨lower, upper⟩ := digit_bounds h
  have zero : '0'.toNat = 48 := rfl
  have small : c.toNat - '0'.toNat < 10 := by omega
  rw [Nat.toDigits_of_lt_base small]
  refine congrArg (fun c => [c]) (Char.toNat_inj.1 ?_)
  rw [Nat.toNat_digitChar_of_lt_ten small]
  omega

/-- Digits appended to a number that is not zero are its last digits. -/
theorem toDigits_ofDigitChars {cs : List Char} (digits : ∀ c ∈ cs, isDigit c = true) {m : Nat}
    (pos : 0 < m) : Nat.toDigits 10 (Nat.ofDigitChars 10 cs m) = Nat.toDigits 10 m ++ cs := by
  induction cs generalizing m with
  | nil => rw [Nat.ofDigitChars_nil, List.append_nil]
  | cons c cs ih =>
    have digit := digits c List.mem_cons_self
    have small : c.toNat - '0'.toNat < 10 := by
      have zero : '0'.toNat = 48 := rfl
      have := digit_bounds digit
      omega
    rw [Nat.ofDigitChars_cons, ih (fun x hx => digits x (List.mem_cons_of_mem c hx)) (by omega),
      ← Nat.toDigits_append_toDigits (by decide) pos small, toDigits_digit digit,
      List.append_assoc]
    rfl

theorem readMagnitude?_eq_some {sign v : Int} (hs : sign = 1 ∨ sign = -1) {cs : List Char}
    (h : readMagnitude? sign cs = some v) :
    ∃ n : Nat, 0 < n ∧ v = sign * n ∧ cs = writeNat n := by
  cases cs with
  | nil => cases h
  | cons c cs =>
    rw [readMagnitude?] at h
    split at h
    · next lead =>
      obtain ⟨ds, digits, plain, e⟩ := readDigits?_eq_some h
      rcases e with ⟨-, e⟩ | ⟨-, e⟩
      · cases e
        exact absurd lead.1 (by decide)
      · cases ds with
        | nil => cases e
        | cons d ds =>
          obtain ⟨r, hr⟩ := separate_cons d ds
          obtain rfl : c = d := by
            rw [hr] at e
            exact (List.cons.inj e).1
          have digit := digits c List.mem_cons_self
          have first : 0 < c.toNat - '0'.toNat := by
            have : '1'.toNat ≤ c.toNat := UInt32.le_iff_toNat_le.1 lead.1
            have : '1'.toNat = 49 := rfl
            have : '0'.toNat = 48 := rfl
            omega
          have value : Nat.toDigits 10 (Nat.ofDigitChars 10 (c :: ds) 0) = c :: ds := by
            have rest := toDigits_ofDigitChars
              (fun x hx => digits x (List.mem_cons_of_mem c hx)) first
            rw [Nat.ofDigitChars_cons, Nat.mul_zero, Nat.zero_add, rest, toDigits_digit digit]
            rfl
          refine ⟨Nat.ofDigitChars 10 (c :: ds) 0, ?_, ?_, ?_⟩
          · have := le_ofDigitChars ds (c.toNat - '0'.toNat)
            rw [Nat.ofDigitChars_cons, Nat.mul_zero, Nat.zero_add]
            omega
          · rw [← Int.mul_zero sign] at plain
            exact readPlain?_eq_some hs plain
          · rw [e, writeNat, value]
    · cases h

/-- The numerals of the range are the texts that are read as numbers. -/
theorem read?_eq_some_iff {s : String} {n : Int} : read? s = some n ↔ InRange n ∧ s = write n := by
  constructor
  · intro h
    refine ⟨inRange_of_read? h, ?_⟩
    have spelled {cs : List Char} (e : s.toList = cs) (hw : (write n).toList = cs) : s = write n :=
      String.toList_inj.1 (e.trans hw.symm)
    unfold read? readChars? at h
    split at h
    · next e =>
      cases h
      exact spelled e (by decide)
    · next e =>
      obtain ⟨m, pos, rfl, digits⟩ := readMagnitude?_eq_some (.inr rfl) h
      refine spelled e ?_
      rw [write, String.toList_ofList, if_pos (by omega), digits]
      congr 2
      omega
    · obtain ⟨m, pos, rfl, digits⟩ := readMagnitude?_eq_some (.inl rfl) h
      refine spelled digits ?_
      rw [write, String.toList_ofList, if_neg (by omega)]
      congr 1
      omega
  · rintro ⟨inRange, rfl⟩
    exact read?_write inRange

end Numeral
end Legalese
