import Legalese.Text.Hex

/-!
# UTF-8

Decodes bytes strictly: no overlong form, no surrogate, nothing beyond the last code
point and no character cut short.  A failure tells which bytes are at fault.  These are
the bytes of the longest beginning of a character that stands there, or the single byte
that begins none.
-/

namespace Legalese
namespace Text

inductive Utf8Fault
  | invalidStart
  | invalidContinuation
  | endOfData
  deriving DecidableEq

def Utf8Fault.message : Utf8Fault → String
  | invalidStart => "invalid start byte"
  | invalidContinuation => "invalid continuation byte"
  | endOfData => "unexpected end of data"

/-- The bytes from `start` to before `stop` are no character; `byte` is the first. -/
structure Utf8Error where
  fault : Utf8Fault
  start : Nat
  stop : Nat
  byte : Nat
  deriving DecidableEq

def Utf8Error.message (e : Utf8Error) : String :=
  let place :=
    if e.stop = e.start + 1 then
      "byte 0x" ++ String.ofList (HexAlphabet.lower.write 2 e.byte) ++ " in position "
        ++ toString e.start
    else "bytes in position " ++ toString e.start ++ "-" ++ toString (e.stop - 1)
  "'utf-8' codec can't decode " ++ place ++ ": " ++ e.fault.message

/-- A character of which some bytes are still to come. -/
structure Utf8Partial where
  start : Nat
  byte : Nat
  /-- How many bytes are to come, less one. -/
  later : Nat
  /-- The least and greatest byte that may come next. -/
  low : Nat
  high : Nat
  /-- The bits so far. -/
  bits : Nat

/-- What the first byte of a longer character announces. -/
def utf8Lead? (start byte : Nat) : Option Utf8Partial :=
  if 0xc2 ≤ byte ∧ byte ≤ 0xdf then some ⟨start, byte, 0, 0x80, 0xbf, byte - 0xc0⟩
  else if byte = 0xe0 then some ⟨start, byte, 1, 0xa0, 0xbf, 0⟩
  else if byte = 0xed then some ⟨start, byte, 1, 0x80, 0x9f, 0xd⟩
  else if 0xe1 ≤ byte ∧ byte ≤ 0xef then some ⟨start, byte, 1, 0x80, 0xbf, byte - 0xe0⟩
  else if byte = 0xf0 then some ⟨start, byte, 2, 0x90, 0xbf, 0⟩
  else if byte = 0xf4 then some ⟨start, byte, 2, 0x80, 0x8f, 4⟩
  else if 0xf1 ≤ byte ∧ byte ≤ 0xf3 then some ⟨start, byte, 2, 0x80, 0xbf, byte - 0xf0⟩
  else none

/-- Decodes bytes from a position on, after a character that may be incomplete. -/
def utf8From (position : Nat) : Option Utf8Partial → List UInt8 → Except Utf8Error (List Char)
  | none, [] => .ok []
  | some p, [] => .error ⟨.endOfData, p.start, position, p.byte⟩
  | none, b :: bs =>
    let byte := b.toNat
    if byte < 0x80 then do
      let cs ← utf8From (position + 1) none bs
      return Char.ofNat byte :: cs
    else
      match utf8Lead? position byte with
      | some p => utf8From (position + 1) (some p) bs
      | none => .error ⟨.invalidStart, position, position + 1, byte⟩
  | some p, b :: bs =>
    let byte := b.toNat
    if p.low ≤ byte ∧ byte ≤ p.high then
      let bits := 0x40 * p.bits + (byte - 0x80)
      match p.later with
      | 0 => do
        let cs ← utf8From (position + 1) none bs
        return Char.ofNat bits :: cs
      | later + 1 =>
        utf8From (position + 1)
          (some { p with later := later, low := 0x80, high := 0xbf, bits := bits }) bs
    else .error ⟨.invalidContinuation, p.start, position, p.byte⟩

/-- The characters of some bytes. -/
def decodeUtf8 (bytes : List UInt8) : Except Utf8Error (List Char) := utf8From 0 none bytes

/-- Every kind of line end becomes a line feed. -/
def commonNewlines : List Char → List Char
  | [] => []
  | '\r' :: '\n' :: cs => '\n' :: commonNewlines cs
  | c :: cs => (if c = '\r' then '\n' else c) :: commonNewlines cs

/-- The text of a file's bytes. -/
def ofFile (bytes : List UInt8) : Except Utf8Error String := do
  let cs ← decodeUtf8 bytes
  return String.ofList (commonNewlines cs)

end Text
end Legalese
