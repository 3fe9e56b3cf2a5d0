import Legalese.Tree.Scalar
import Legalese.Yaml.PlainType
import Legalese.Yaml.Tag

/-!
# What a scalar stands for

The type of a scalar and its text give its value.  A plain scalar without a tag mostly
has a text that suits its type; a tag may ask for a type that the text does not suit.
Underscores between digits do not count, and numbers with colons are in base sixty.
-/

namespace Legalese
namespace Yaml

/-- Why a text has no value of the type that is asked for. -/
inductive ScalarFault
  | notWhole (base : Nat) (digits : String)
  | notNumber (text : String)
  /-- Nothing stands where a number begins. -/
  | noDigits
  | notTruth (word : String)
  | notTimestamp
  | timestamp (fault : TimestampFault)
  deriving DecidableEq

def ScalarFault.message : ScalarFault → String
  | notWhole base digits =>
    "invalid literal for int() with base " ++ toString base ++ ": " ++ Text.quote digits
  | notNumber text => "could not convert string to float: " ++ Text.quote text
  | noDigits => "string index out of range"
  | notTruth word => word
  | notTimestamp => "not a timestamp"
  | timestamp fault => fault.message

namespace Meaning

/-! ## Numbers -/

/-- A text without the blanks around it. -/
def trimmed (cs : List Char) : List Char :=
  let isBlank (c : Char) : Bool := c == ' ' || ('\t' ≤ c && c ≤ '\r')
  ((cs.dropWhile isBlank).reverse.dropWhile isBlank).reverse

/-- The value of a digit below the base. -/
def digitIn? (base : Nat) (c : Char) : Option Nat := do
  let d ← Text.hexValue? c
  if d < base then return d else none

def natIn? (base : Nat) (cs : List Char) : Option Nat :=
  if cs = [] then none
  else cs.foldlM (fun n c => (digitIn? base c).map (base * n + ·)) 0

/-- The letters after a zero that announce a base. -/
def baseLetters (base : Nat) : List Char :=
  if base = 2 then ['b', 'B'] else if base = 8 then ['o', 'O']
  else if base = 16 then ['x', 'X'] else []

/-- Digits without the zero and the letter that announce their base. -/
def withoutMark (base : Nat) : List Char → List Char
  | '0' :: c :: cs => if (baseLetters base).contains c then cs else '0' :: c :: cs
  | cs => cs

/-- A whole number in a base, with an optional sign. -/
def wholeIn (base : Nat) (cs : List Char) : Except ScalarFault Int :=
  let (isNegative, ds) := Floating.readSign (trimmed cs)
  match natIn? base (withoutMark base ds) with
  | some n => .ok (if isNegative then -n else n)
  | none => .error (.notWhole base (String.ofList cs))

/-- The places of a number in base sixty. -/
def places (cs : List Char) : List (List Char) :=
  ((String.ofList cs).splitOn ":").map String.toList

/-- A whole number without the sign of the scalar: in base two, sixteen or eight after
its mark, with colons in base sixty, and else in base ten. -/
def magnitude (cs : List Char) : Except ScalarFault Int :=
  match cs with
  | [] => .error .noDigits
  | '0' :: 'b' :: ds => wholeIn 2 ds
  | '0' :: 'x' :: ds => wholeIn 16 ds
  | '0' :: _ => if cs = ['0'] then .ok 0 else wholeIn 8 cs
  | _ =>
    if cs.contains ':' then do
      let ds ← (places cs).mapM (wholeIn 10)
      return ds.foldl (fun n d => 60 * n + d) 0
    else wholeIn 10 cs

def whole (text : List Char) : Except ScalarFault Int := do
  let (isNegative, ds) := Floating.readSign (text.filter (· ≠ '_'))
  let n ← magnitude ds
  return if isNegative then -n else n

/-- The words for numbers that are not finite. -/
def numberWords : List (List Char × Floating) :=
  [("inf".toList, .infinite false), ("infinity".toList, .infinite false), ("nan".toList, .nan)]

/-- A number in base ten, or a word for one. -/
def decimal (cs : List Char) : Except ScalarFault Floating :=
  let (isNegative, word) := Floating.readSign (trimmed cs)
  match numberWords.lookup word, Floating.read? (trimmed cs) with
  | some x, _ => .ok (if isNegative then x.negate else x)
  | none, some x => .ok x
  | none, none => .error (.notNumber (String.ofList cs))

/-- The number of some places in base sixty, added up from the last place on. -/
def sumOfPlaces (ds : List Floating) : Floating :=
  ds.reverse.zipIdx.foldl (fun x d => x.add (d.1.scale (Nat.pow 60 d.2))) (.finite false ⟨0⟩)

/-- A number without the sign of the scalar, in small letters. -/
def unsigned (cs : List Char) : Except ScalarFault Floating :=
  if cs = ".inf".toList then .ok (.infinite false)
  else if cs = ".nan".toList then .ok .nan
  else if cs.contains ':' then do
    let ds ← (places cs).mapM decimal
    return sumOfPlaces ds
  else decimal cs

def number (text : List Char) : Except ScalarFault Floating :=
  match (text.filter (· ≠ '_')).map Char.toLower with
  | [] => .error .noDigits
  | cs => do
    let (isNegative, ds) := Floating.readSign cs
    let x ← unsigned ds
    return if isNegative then x.negate else x

/-! ## Truth values -/

def truthWords : List (String × Bool) :=
  [("yes", true), ("no", false), ("true", true), ("false", false), ("on", true), ("off", false)]

def truth (text : List Char) : Except ScalarFault Bool :=
  let word := String.ofList (text.map Char.toLower)
  match truthWords.lookup word with
  | some b => .ok b
  | none => .error (.notTruth word)

/-! ## Timestamps -/

/-- A number of at least `least` and at most `most` digits at the front. -/
def digits? (least most : Nat) (cs : List Char) : Option (Nat × List Char) :=
  let ds := (cs.take most).takeWhile Floating.isDigit
  if ds.length < least then none else some (Floating.natOfDigits ds, cs.drop ds.length)

/-- What comes after a mark at the front. -/
def afterMark? (mark : Char) : List Char → Option (List Char)
  | [] => none
  | c :: cs => if c = mark then some cs else none

def readDate? (cs : List Char) : Option (Date × List Char) := do
  let (year, cs) ← digits? 4 4 cs
  let cs ← afterMark? '-' cs
  let (month, cs) ← digits? 1 2 cs
  let cs ← afterMark? '-' cs
  let (day, cs) ← digits? 1 2 cs
  return (⟨year, month, day⟩, cs)

/-- A point and parts of a second; of their digits six count. -/
def readFraction (cs : List Char) : Nat × List Char :=
  match cs with
  | '.' :: cs =>
    let ds := cs.takeWhile Floating.isDigit
    (Floating.natOfDigits ((ds ++ List.replicate 6 '0').take 6), cs.drop ds.length)
  | _ => (0, cs)

def readTime? (cs : List Char) : Option (TimeOfDay × List Char) := do
  let (hour, cs) ← digits? 1 2 cs
  let cs ← afterMark? ':' cs
  let (minute, cs) ← digits? 2 2 cs
  let cs ← afterMark? ':' cs
  let (second, cs) ← digits? 2 2 cs
  let (microsecond, cs) := readFraction cs
  return (⟨hour, minute, second, microsecond⟩, cs)

/-- An offset from universal time, in minutes. -/
def readOffset? (cs : List Char) : Option Int :=
  match cs with
  | ['Z'] => some 0
  | sign :: cs => do
    if sign ≠ '+' ∧ sign ≠ '-' then none
    else
      let (hours, cs) ← digits? 1 2 cs
      let (minutes, cs) ← if cs = [] then some (0, []) else afterMark? ':' cs >>= digits? 2 2
      let offset : Int := 60 * hours + minutes
      if cs = [] then return (if sign = '-' then -offset else offset) else none
  | [] => none

/-- The timestamp of a text, whether its numbers exist or not. -/
def readTimestamp? (cs : List Char) : Option Timestamp := do
  let (date, rest) ← readDate? cs
  match rest with
  | [] => return .day date
  | c :: cs =>
    let cs ← if c = 'T' ∨ c = 't' then some cs
      else if isSpace c then some (cs.dropWhile isSpace)
      else none
    let (time, cs) ← readTime? cs
    if cs = [] then return .moment date time none
    else
      let offset ← readOffset? (cs.dropWhile isSpace)
      return .moment date time (some offset)

def timestamp (text : List Char) : Except ScalarFault Timestamp :=
  match readTimestamp? text with
  | none => .error .notTimestamp
  | some t =>
    match t.fault? with
    | none => .ok t
    | some fault => .error (.timestamp fault)

end Meaning

/-! ## Scalars -/

/-- Why a text holds no tree. -/
inductive ReadError
  | malformed
  | scalar (fault : ScalarFault)
  deriving DecidableEq

/-- The type that a tag gives to a scalar with certain looks. -/
def PlainType.ofTag? (looks : PlainType) : Tag → Option PlainType
  | .unspecific => some looks
  | .standard name =>
    [("str", text), ("int", int), ("float", float), ("bool", bool), ("null", null),
      ("timestamp", timestamp), ("merge", merge), ("value", default)].lookup name
  | .foreign => none

/-- The type of a scalar. -/
def PlainType.ofScalar? (tag : Option Tag) (text : String) (isPlain : Bool) :
    Option PlainType :=
  let looks := ofText text.toList
  match tag with
  | none => some (if isPlain then looks else .text)
  | some t => ofTag? looks t

/-- What a text stands for.  The merge and default signs mean something only as names. -/
def Meaning.ofText (text : String) : PlainType → Except ReadError Scalar
  | .null => .ok .null
  | .bool => ((truth text.toList).map .bool).mapError .scalar
  | .int => ((whole text.toList).map .int).mapError .scalar
  | .float => ((number text.toList).map .float).mapError .scalar
  | .timestamp => ((timestamp text.toList).map .timestamp).mapError .scalar
  | .merge => .error .malformed
  | .default => .error .malformed
  | .text => .ok (.str text)

end Yaml
end Legalese
