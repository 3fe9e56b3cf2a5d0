import Legalese.Resolution
import Legalese.Text.Quoted

/-!
# What can be wrong with a resolution

An error is a cause.  Errors of structure and of number literals stop the reading at
once; offences against the rules for names are collected and reported together, with
the resolution that was read in spite of them.  `Error.message` is the only place where
the wording of any of them is decided.
-/

namespace Legalese

/-- Why words do not form a cardinal. -/
inductive CardinalFault
  | unexpected (literal : String)
  | tensWithoutDigit (tens : String)
  | quintillionsOutOfRange (group : Nat)
  | magnitudeOrder (magnitude last : Nat)
  | overflow
  | strayNumeral (literal : String)
  /-- A cause that is known by its words only. -/
  | stated (detail : String)
  deriving DecidableEq

def CardinalFault.detail : CardinalFault → String
  | unexpected literal => "unexpected " ++ Text.quote literal
  | tensWithoutDigit tens => tens ++ "- must be followed by a digit word"
  | quintillionsOutOfRange group => toString group ++ " quintillion is out of range"
  | magnitudeOrder magnitude last =>
    "magnitude " ++ toString magnitude ++ " follows magnitude " ++ toString last
  | overflow => "overflow"
  | strayNumeral literal => "numeral " ++ Text.quote literal ++ " without cardinal"
  | stated detail => detail

/-- Why a cardinal is not followed by one numeral in parentheses. -/
inductive IntegerFault
  | notParenthesized
  | notNumeral
  | notClosed
  /-- A cause that is known by its words only. -/
  | stated (detail : String)
  deriving DecidableEq

def IntegerFault.detail : IntegerFault → String
  | notParenthesized => "cardinal must be followed by a parenthesized numeral"
  | notNumeral => "parentheses must contain a numeral"
  | notClosed => "numeral must be followed by ')'"
  | stated detail => detail

/-- How a name breaks the rules. -/
inductive Offence
  | unspecified
  | redeclared
  | undeclared
  | unused
  deriving DecidableEq

structure NameError where
  offence : Offence
  name : String
  deriving DecidableEq

def NameError.message (e : NameError) : String :=
  (match e.offence with
    | .unspecified => "identifier error: "
    | .redeclared => "redeclared identifier: "
    | .undeclared => "undeclared identifier: "
    | .unused => "unused identifier: ") ++ e.name

/-- The classes that errors fall into. -/
inductive ErrorClass
  | any
  | lexical
  | unclosedText
  | reading
  | noTitle
  | earlyResolved
  | lateWhereas
  | noResolved
  | noWhereas
  | unrecognizedExpression
  | literal
  | cardinal
  | numeral
  | integer
  | disagreement
  | name (offence : Offence)
  | names
  | evaluation
  deriving DecidableEq

namespace ErrorClass

/-- The classes strictly wider than a given one, the nearest first. -/
def wider : ErrorClass → List ErrorClass
  | any => []
  | lexical => [any]
  | unclosedText => [lexical, any]
  | reading => [any]
  | evaluation => [any]
  | literal => [reading, any]
  | cardinal => [literal, reading, any]
  | numeral => [literal, reading, any]
  | integer => [literal, reading, any]
  | disagreement => [literal, reading, any]
  | name .unspecified => [reading, any]
  | name _ => [name .unspecified, reading, any]
  | _ => [reading, any]

/-- A class and all wider ones. -/
def lineage (c : ErrorClass) : List ErrorClass := c :: c.wider

end ErrorClass

inductive Error
  /-- An error of which only a wide class and the words are known. -/
  | general (cls : ErrorClass) (message : String)
  | unclosedText (literal : String)
  | noTitle
  | earlyResolved
  | lateWhereas
  | noResolved
  | noWhereas
  | unrecognizedExpression (literal : String)
  | cardinal (fault : CardinalFault)
  | numeral (text : String)
  | integer (fault : IntegerFault)
  | disagreement (cardinal numeral : Int)
  | name (e : NameError)
  | names (errors : List NameError) (resolution : Option Resolution)
  | evaluation (message : String)
  deriving DecidableEq

/-- A heading, and after a colon the detail unless that is empty. -/
def withDetail (heading detail : String) : String :=
  if detail = "" then heading else heading ++ ": " ++ detail

namespace Error

def cls : Error → ErrorClass
  | general c _ => c
  | unclosedText _ => .unclosedText
  | noTitle => .noTitle
  | earlyResolved => .earlyResolved
  | lateWhereas => .lateWhereas
  | noResolved => .noResolved
  | noWhereas => .noWhereas
  | unrecognizedExpression _ => .unrecognizedExpression
  | cardinal _ => .cardinal
  | numeral _ => .numeral
  | integer _ => .integer
  | disagreement _ _ => .disagreement
  | name e => .name e.offence
  | names _ _ => .names
  | evaluation _ => .evaluation

/-- The words for an error.  A list of name errors shows its first member and counts the
others. -/
def message : Error → String
  | general _ m => m
  | unclosedText _ => "no closing quotation mark"
  | noTitle => "no title"
  | earlyResolved => "no Whereas clause before Resolved clause"
  | lateWhereas => "Whereas clause after Resolved clause"
  | noResolved => "no Resolved clause"
  | noWhereas => "no Whereas clause"
  | unrecognizedExpression literal =>
    if literal = "" then "unrecognized expression"
    else "unrecognized expression at " ++ Text.quote literal
  | cardinal fault => withDetail "invalid cardinal" fault.detail
  | numeral text =>
    if text = "" then "invalid numeral" else "invalid numeral " ++ Text.quote text
  | integer fault => withDetail "invalid integer" fault.detail
  | disagreement c n =>
    "cardinal and numeral disagree: " ++ toString c ++ " != " ++ toString n
  | name e => e.message
  | names [] _ => "no errors"
  | names [e] _ => e.message
  | names (e :: es) _ => e.message ++ " (and " ++ toString es.length ++ " more errors)"
  | evaluation m => m

/-- Whether two errors that arose apart count as one.  Only name errors do, when both the
offence and the name agree. -/
def sameAs : Error → Error → Bool
  | name a, name b => a == b
  | _, _ => false

end Error
end Legalese
