import Legalese.Text.Hex
import Legalese.Tree.Basic

/-!
# Reading JSON

Reads one value and nothing after it but blanks.  The grammar is the standard one, with
the words "NaN" and "Infinity" admitted as numbers.  A text that does not follow it has
no value; there is only one way to be malformed.

Every reader of a part returns what is left of the text with the proof that this is
shorter, and the readers of values, items and fields call each other by that.
-/

namespace Legalese
namespace Json

def isBlank (c : Char) : Bool :=
  c == ' ' || c == '\t' || c == '\n' || c == '\r'

/-- Blanks at the front do not count. -/
def skipBlanks (cs : List Char) : List Char := cs.dropWhile isBlank

/-- What was read from the front of a text, and the shorter rest. -/
structure Front (cs : List Char) (α : Type) where
  value : α
  rest : List Char
  lt : rest.length < cs.length

theorem length_lt_of_skipBlanks {cs rest : List Char} {c : Char}
    (h : skipBlanks cs = c :: rest) : rest.length < cs.length := by
  have le : (skipBlanks cs).length ≤ cs.length := (List.dropWhile_sublist isBlank).length_le
  rw [h] at le
  exact le

/-- The rest after a mark that may have blanks before it. -/
def afterMark? (mark : Char) (cs : List Char) : Option (Front cs Unit) :=
  match h : skipBlanks cs with
  | [] => none
  | c :: rest => if c = mark then some ⟨(), rest, length_lt_of_skipBlanks h⟩ else none

/-! ## Quoted texts -/

/-- The character of a short escape. -/
def unescape? (letter : Char) : Option Char :=
  [('\x22', '\x22'), ('\\', '\\'), ('/', '/'), ('b', '\x08'), ('f', '\x0c'), ('n', '\n'),
    ('r', '\r'), ('t', '\t')].lookup letter

def isHighUnit (n : Nat) : Bool := 0xd800 ≤ n && n < 0xdc00

def isLowUnit (n : Nat) : Bool := 0xdc00 ≤ n && n < 0xe000

/-- Joins pairs of UTF-16 surrogates.  One without its partner stands for no character
and becomes the replacement character. -/
def joinUnits : List Nat → List Char
  | [] => []
  | [n] => [if isHighUnit n || isLowUnit n then '\ufffd' else Char.ofNat n]
  | m :: n :: rest =>
    if isHighUnit m && isLowUnit n then
      Char.ofNat (0x10000 + (m - 0xd800) * 0x400 + (n - 0xdc00)) :: joinUnits rest
    else
      (if isHighUnit m || isLowUnit m then '\ufffd' else Char.ofNat m) :: joinUnits (n :: rest)

/-- The code points of a quoted text, from after its opening mark to its closing one, and
the rest after that. -/
def readUnits : List Char → Option (List Nat × List Char)
  | [] => none
  | c :: cs =>
    if c = '\x22' then some ([], cs)
    else if c = '\\' then
      match cs with
      | 'u' :: h₁ :: h₂ :: h₃ :: h₄ :: cs => do
        let n ← Text.hexNumber? [h₁, h₂, h₃, h₄]
        let (ns, rest) ← readUnits cs
        return (n :: ns, rest)
      | e :: cs => do
        let x ← unescape? e
        let (ns, rest) ← readUnits cs
        return (x.toNat :: ns, rest)
      | [] => none
    else if c < ' ' then none
    else do
      let (ns, rest) ← readUnits cs
      return (c.toNat :: ns, rest)

theorem length_lt_of_readUnits {cs rest : List Char} {ns : List Nat}
    (h : readUnits cs = some (ns, rest)) : rest.length < cs.length := by
  fun_induction readUnits cs generalizing ns with
  | case1 => cases h
  | case2 => cases h; simp
  | case3 _ _ _ _ _ _ ih =>
    simp only [Option.bind_eq_bind, Option.bind_eq_some_iff] at h
    obtain ⟨_, _, ⟨_, _⟩, e, h⟩ := h
    cases h
    have := ih e
    simp only [List.length_cons] at this ⊢
    omega
  | case4 _ _ _ _ ih =>
    simp only [Option.bind_eq_bind, Option.bind_eq_some_iff] at h
    obtain ⟨_, _, ⟨_, _⟩, e, h⟩ := h
    cases h
    have := ih e
    simp only [List.length_cons] at this ⊢
    omega
  | case5 => cases h
  | case6 => cases h
  | case7 _ _ _ _ _ ih =>
    simp only [Option.bind_eq_bind, Option.bind_eq_some_iff] at h
    obtain ⟨⟨_, _⟩, e, h⟩ := h
    cases h
    have := ih e
    simp only [List.length_cons] at this ⊢
    omega

/-- A quoted text, from after its opening mark. -/
def readString (cs : List Char) : Option (Front cs String) :=
  match h : readUnits cs with
  | none => none
  | some (ns, rest) => some ⟨String.ofList (joinUnits ns), rest, length_lt_of_readUnits h⟩

/-! ## Numbers and words -/

/-- What is left of a text that begins with a given word. -/
def after? : List Char → List Char → Option (List Char)
  | [], cs => some cs
  | _ :: _, [] => none
  | w :: ws, c :: cs => if w = c then after? ws cs else none

/-- The words that stand for a value. -/
def valueWords : List (List Char × Scalar) :=
  [("null".toList, .null), ("true".toList, .bool true), ("false".toList, .bool false),
    ("NaN".toList, .float .nan), ("Infinity".toList, .float (.infinite false)),
    ("-Infinity".toList, .float (.infinite true))]

/-- The first of some words that a text begins with. -/
def readWord (cs : List Char) : List (List Char × Scalar) → Option (Scalar × List Char)
  | [] => none
  | (w, s) :: words =>
    match after? w cs with
    | some rest => some (s, rest)
    | none => readWord cs words

/-- The digits before the point: no zero in front of other digits. -/
def wholeDigits : List Char → List Char
  | [] => []
  | c :: cs => if c = '0' then ['0'] else (c :: cs).takeWhile Floating.isDigit

/-- A point and the digits after it, if there are any. -/
def fractionChars : List Char → List Char
  | [] => []
  | c :: cs =>
    let ds := cs.takeWhile Floating.isDigit
    if c = '.' ∧ ds ≠ [] then c :: ds else []

/-- The mark of an exponent, its sign and its digits, if there are any. -/
def exponentChars : List Char → List Char
  | [] => []
  | c :: cs =>
    let sign := match cs with
      | s :: _ => if s = '+' ∨ s = '-' then [s] else []
      | [] => []
    let ds := (cs.drop sign.length).takeWhile Floating.isDigit
    if (c = 'e' ∨ c = 'E') ∧ ds ≠ [] then c :: sign ++ ds else []

/-- A number.  One without fraction and exponent is whole. -/
def readNumber (cs : List Char) : Option (Scalar × List Char) :=
  let sign := match cs with
    | '-' :: _ => ['-']
    | _ => []
  let cs := cs.drop sign.length
  let whole := wholeDigits cs
  if whole = [] then none
  else
    let cs := cs.drop whole.length
    let fraction := fractionChars cs
    let exponent := exponentChars (cs.drop fraction.length)
    let rest := cs.drop (fraction.length + exponent.length)
    if fraction = [] ∧ exponent = [] then
      let n : Int := Floating.natOfDigits whole
      some (.int (if sign = [] then n else -n), rest)
    else do
      let x ← Floating.read? (sign ++ whole ++ fraction ++ exponent)
      return (.float x, rest)

/-- A word or a number. -/
def readAtom (cs : List Char) : Option (Front cs Scalar) := do
  let (s, rest) ← (readWord (skipBlanks cs) valueWords).or (readNumber (skipBlanks cs))
  if h : rest.length < cs.length then return ⟨s, rest, h⟩ else none

/-! ## Values -/

mutual

/-- The value at the front of a text. -/
def readValue (cs : List Char) : Option (Front cs Tree) :=
  match hc : skipBlanks cs with
  | [] => none
  | c :: rest =>
    have h := length_lt_of_skipBlanks hc
    if c = '\x22' then do
      let ⟨s, rest', h'⟩ ← readString rest
      return ⟨.str s, rest', Nat.lt_trans h' h⟩
    else if c = '[' then
      match afterMark? ']' rest with
      | some ⟨_, rest', h'⟩ => some ⟨.list [], rest', Nat.lt_trans h' h⟩
      | none => do
        let ⟨ts, rest', h'⟩ ← readItems rest
        return ⟨.list ts, rest', Nat.lt_trans h' h⟩
    else if c = '\x7b' then
      match afterMark? '\x7d' rest with
      | some ⟨_, rest', h'⟩ => some ⟨.object [], rest', Nat.lt_trans h' h⟩
      | none => do
        let ⟨fs, rest', h'⟩ ← readFields rest
        return ⟨.object fs, rest', Nat.lt_trans h' h⟩
    else do
      let ⟨s, rest', h'⟩ ← readAtom cs
      return ⟨.scalar s, rest', h'⟩
termination_by 2 * cs.length
decreasing_by all_goals omega

/-- The items of a list, from the first to after the closing bracket. -/
def readItems (cs : List Char) : Option (Front cs (List Tree)) := do
  let ⟨t, rest, h⟩ ← readValue cs
  match afterMark? ']' rest with
  | some ⟨_, rest', h'⟩ => return ⟨[t], rest', Nat.lt_trans h' h⟩
  | none =>
    let ⟨_, rest', h'⟩ ← afterMark? ',' rest
    have k := Nat.lt_trans h' h
    let ⟨ts, rest'', h''⟩ ← readItems rest'
    return ⟨t :: ts, rest'', Nat.lt_trans h'' k⟩
termination_by 2 * cs.length + 1
decreasing_by all_goals omega

/-- The fields of an object, from the first to after the closing bracket. -/
def readFields (cs : List Char) : Option (Front cs Tree.Fields) := do
  let ⟨_, rest₁, h₁⟩ ← afterMark? '\x22' cs
  let ⟨name, rest₂, h₂⟩ ← readString rest₁
  have k₂ := Nat.lt_trans h₂ h₁
  let ⟨_, rest₃, h₃⟩ ← afterMark? ':' rest₂
  have k₃ := Nat.lt_trans h₃ k₂
  let ⟨t, rest₄, h₄⟩ ← readValue rest₃
  have k₄ := Nat.lt_trans h₄ k₃
  match afterMark? '\x7d' rest₄ with
  | some ⟨_, rest₅, h₅⟩ => return ⟨[(name, t)], rest₅, Nat.lt_trans h₅ k₄⟩
  | none =>
    let ⟨_, rest₅, h₅⟩ ← afterMark? ',' rest₄
    have k₅ := Nat.lt_trans h₅ k₄
    let ⟨fs, rest₆, h₆⟩ ← readFields rest₅
    return ⟨(name, t) :: fs, rest₆, Nat.lt_trans h₆ k₅⟩
termination_by 2 * cs.length + 1
decreasing_by all_goals omega

end

/-- The value of a JSON text, unless the text is malformed. -/
def read? (s : String) : Option Tree := do
  let ⟨t, rest, _⟩ ← readValue s.toList
  if skipBlanks rest = [] then return t else none

end Json
end Legalese
