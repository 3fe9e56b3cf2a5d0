import Legalese.Json.Reader
import Legalese.Json.Writer
import Legalese.Proofs.Reading.Yield
import Legalese.Proofs.Spelling
import Mathlib.Algebra.Group.Nat.Defs
import Mathlib.Data.List.Basic

/-!
# Quoted JSON texts

A character is written as itself, as a short escape or as one or two UTF-16 code units.
The reader takes all of these for code units and joins pairs of surrogates at the end.  No
character is a surrogate, so a pair is only joined where it was split, and every text is
read back.
-/

namespace Legalese

/-! ## Hexadecimal digits -/

namespace Text

theorem hexValue?_digit : ∀ d < 16, hexValue? (HexAlphabet.lower.digit d) = some d := by
  decide

theorem hexNumber?_append (cs : List Char) (c : Char) :
    hexNumber? (cs ++ [c]) =
      (hexNumber? cs).bind fun n => (hexValue? c).map (16 * n + ·) := by
  unfold hexNumber?
  rw [List.foldlM_append]
  refine congrArg _ (funext fun n => ?_)
  rw [List.foldlM_cons]
  exact bind_pure _

/-- As many digits as there are keep so much of a number. -/
theorem hexNumber?_write (width n : Nat) :
    hexNumber? (HexAlphabet.lower.write width n) = some (n % 16 ^ width) := by
  induction width generalizing n with
  | zero => rw [HexAlphabet.write, Nat.pow_zero, Nat.mod_one]; rfl
  | succ width ih =>
    rw [HexAlphabet.write, hexNumber?_append, ih, Option.bind_some,
      hexValue?_digit _ (Nat.mod_lt n (by decide)), Option.map_some, Nat.pow_succ', Nat.mod_mul,
      Nat.add_comm]

end Text

namespace Json

/-! ## Code units -/

/-- The UTF-16 code units of a character. -/
def units (c : Char) : List Nat :=
  if c.toNat < 0x10000 then [c.toNat]
  else [0xd800 + (c.toNat - 0x10000) / 0x400, 0xdc00 + (c.toNat - 0x10000) % 0x400]

theorem toNat_valid (c : Char) : c.toNat < 0xd800 ∨ 0xdfff < c.toNat ∧ c.toNat < 0x110000 :=
  c.valid

theorem not_surrogate (c : Char) : (isHighUnit c.toNat || isLowUnit c.toNat) = false := by
  have valid := toNat_valid c
  simp only [isHighUnit, isLowUnit, Bool.or_eq_false_iff, Bool.and_eq_false_iff,
    decide_eq_false_iff_not]
  omega

/-- A single unit of a character stands for the character, whatever comes after it. -/
theorem joinUnits_single (c : Char) (ns : List Nat) :
    joinUnits (c.toNat :: ns) = c :: joinUnits ns := by
  have single := not_surrogate c
  have high := (Bool.or_eq_false_iff.1 single).1
  cases ns with
  | nil =>
    show [if (isHighUnit c.toNat || isLowUnit c.toNat) = true then _ else _] = [c]
    rw [single, if_neg Bool.false_ne_true, Char.ofNat_toNat]
  | cons n ns =>
    rw [joinUnits, single, high, Bool.false_and, if_neg Bool.false_ne_true,
      if_neg Bool.false_ne_true, Char.ofNat_toNat]

theorem joinUnits_units (c : Char) (ns : List Nat) :
    joinUnits (units c ++ ns) = c :: joinUnits ns := by
  unfold units
  split
  · exact joinUnits_single c ns
  · next large =>
    have valid := toNat_valid c
    have pair : (isHighUnit (0xd800 + (c.toNat - 0x10000) / 0x400) &&
        isLowUnit (0xdc00 + (c.toNat - 0x10000) % 0x400)) = true := by
      simp only [isHighUnit, isLowUnit, Bool.and_eq_true, decide_eq_true_eq]
      omega
    have joined : 0x10000 + (0xd800 + (c.toNat - 0x10000) / 0x400 - 0xd800) * 0x400 +
        (0xdc00 + (c.toNat - 0x10000) % 0x400 - 0xdc00) = c.toNat := by
      omega
    rw [List.cons_append, List.cons_append, List.nil_append, joinUnits, if_pos pair, joined,
      Char.ofNat_toNat]

/-- Units that were split from characters are joined to these. -/
theorem joinUnits_flatMap (cs : List Char) : joinUnits (cs.flatMap units) = cs := by
  induction cs with
  | nil => rfl
  | cons c cs ih => rw [List.flatMap_cons, joinUnits_units, ih]

/-! ## Escapes -/

/-- More units in front of what is read. -/
def before (ns : List Nat) (read : List Nat × List Char) : List Nat × List Char :=
  (ns ++ read.1, read.2)

theorem readUnits_unitEscape {n : Nat} (small : n < 0x10000) (cs : List Char) :
    readUnits (unitEscape n ++ cs) = (readUnits cs).map (before [n]) := by
  have value : Text.hexNumber? (Text.HexAlphabet.lower.write 4 n) = some n := by
    have fits : n < 16 ^ 4 := small
    rw [Text.hexNumber?_write, Nat.mod_eq_of_lt fits]
  obtain ⟨h₁, h₂, h₃, h₄, digits⟩ :=
    List.length_eq_four.1 (Text.HexAlphabet.lower.length_write 4 n)
  rw [digits] at value
  rw [unitEscape, digits]
  show readUnits ('\\' :: 'u' :: h₁ :: h₂ :: h₃ :: h₄ :: cs) = _
  rw [readUnits, if_neg (by decide), if_pos rfl, value]
  cases readUnits cs with
  | none => rfl
  | some read => rfl

theorem readUnits_short {letter c : Char} (short : letter ≠ 'u')
    (escape : unescape? letter = some c) (cs : List Char) :
    readUnits ('\\' :: letter :: cs) = (readUnits cs).map (before [c.toNat]) := by
  rw [readUnits, if_neg (by decide), if_pos rfl, escape]
  · cases readUnits cs with
    | none => rfl
    | some read => rfl
  · rintro _ _ _ _ _ rfl
    exact absurd rfl short

theorem readUnits_plain {c : Char} (mark : c ≠ '\x22') (slash : c ≠ '\\') (printable : ' ' ≤ c)
    (cs : List Char) : readUnits (c :: cs) = (readUnits cs).map (before [c.toNat]) := by
  rw [readUnits.eq_def]
  dsimp only
  rw [if_neg mark, if_neg slash, if_neg (Char.not_lt.2 printable)]
  cases readUnits cs with
  | none => rfl
  | some read => rfl

theorem unescape?_shortEscapes : ∀ e ∈ shortEscapes,
    unescape? e.2 = some e.1 ∧ e.2 ≠ 'u' ∧ e.1.toNat < 0x10000 := by
  decide

theorem readUnits_writeChar (c : Char) (cs : List Char) :
    readUnits (writeChar c ++ cs) = (readUnits cs).map (before (units c)) := by
  unfold writeChar
  split
  · next letter found =>
    obtain ⟨escape, short, small⟩ := unescape?_shortEscapes _ (mem_of_lookup found)
    rw [units, if_pos small]
    exact readUnits_short short escape cs
  · next free =>
    rw [List.lookup_eq_none_iff] at free
    have unlisted (e : Char × Char) (mem : e ∈ shortEscapes) : c ≠ e.1 := bne_iff_ne.1 (free e mem)
    split
    · next printable =>
      have small : c.toNat < 0x10000 := Nat.lt_of_le_of_lt printable.2 (by decide)
      rw [units, if_pos small]
      have mark := unlisted ('\x22', '\x22') (by decide)
      have slash := unlisted ('\\', '\\') (by decide)
      exact readUnits_plain mark slash printable.1 cs
    · split
      · next small =>
        rw [units, if_pos small]
        exact readUnits_unitEscape small cs
      · next large =>
        have valid := toNat_valid c
        rw [units, if_neg large, List.append_assoc, readUnits_unitEscape, readUnits_unitEscape,
          Option.map_map]
        · rfl
        · omega
        · omega

theorem readUnits_written (cs rest : List Char) :
    readUnits (cs.flatMap writeChar ++ '\x22' :: rest) = some (cs.flatMap units, rest) := by
  induction cs with
  | nil =>
    rw [List.flatMap_nil, List.nil_append, readUnits.eq_def]
    rfl
  | cons c cs ih =>
    rw [List.flatMap_cons, List.append_assoc, readUnits_writeChar, ih]
    rfl

/-- What a reader yields, without the proof that it has used something up. -/
def yield {cs : List Char} {α : Type} (x : Option (Front cs α)) : Option (α × List Char) :=
  x.map fun front => (front.value, front.rest)

/-- A quoted text is read back, whatever it holds. -/
theorem yield_readString (s : String) (rest : List Char) :
    yield (readString (s.toList.flatMap writeChar ++ '\x22' :: rest)) = some (s, rest) := by
  have written := readUnits_written s.toList rest
  unfold readString
  split
  · next none =>
    rw [written] at none
    cases none
  · next ns rest' found =>
    rw [written] at found
    cases found
    exact congrArg some (Prod.ext (by rw [joinUnits_flatMap, String.ofList_toList]) rfl)

/-! ## The characters of a written text -/

/-- The characters of printable ASCII. -/
def IsPrintable (c : Char) : Prop := ' ' ≤ c ∧ c ≤ '~'

instance (c : Char) : Decidable (IsPrintable c) := inferInstanceAs (Decidable (_ ∧ _))

theorem isPrintable_write {width n : Nat} {c : Char} (h : c ∈ Text.HexAlphabet.lower.write width n) :
    IsPrintable c := by
  have digits : ∀ d < 16, IsPrintable (Text.HexAlphabet.lower.digit d) := by decide
  induction width generalizing n with
  | zero => cases h
  | succ width ih =>
    rw [Text.HexAlphabet.write, List.mem_append, List.mem_singleton] at h
    rcases h with h | rfl
    · exact ih h
    · exact digits _ (Nat.mod_lt n (by decide))

theorem isPrintable_unitEscape {n : Nat} {c : Char} (h : c ∈ unitEscape n) : IsPrintable c := by
  rw [unitEscape, List.mem_cons, List.mem_cons] at h
  rcases h with rfl | rfl | h
  · decide
  · decide
  · exact isPrintable_write h

theorem isPrintable_writeChar {c d : Char} (h : d ∈ writeChar c) : IsPrintable d := by
  have letters : ∀ e ∈ shortEscapes, IsPrintable e.2 := by decide
  unfold writeChar at h
  split at h
  · next letter found =>
    rw [List.mem_cons, List.mem_singleton] at h
    rcases h with rfl | rfl
    · decide
    · exact letters _ (mem_of_lookup found)
  · split at h
    · next printable =>
      rw [List.mem_singleton.1 h]
      exact printable
    · split at h
      · exact isPrintable_unitEscape h
      · rcases List.mem_append.1 h with h | h
        · exact isPrintable_unitEscape h
        · exact isPrintable_unitEscape h

theorem isPrintable_writeString {s : String} {c : Char} (h : c ∈ writeString s) : IsPrintable c := by
  simp only [writeString, List.cons_append, List.mem_cons, List.mem_append, List.mem_flatMap,
    List.not_mem_nil, or_false] at h
  rcases h with rfl | ⟨d, -, h⟩ | rfl
  · decide
  · exact isPrintable_writeChar h
  · decide

end Json
end Legalese
