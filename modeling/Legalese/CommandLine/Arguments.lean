import Legalese.CommandLine.Switch
import Legalese.Text.Quoted

/-!
# Arguments

Reads the arguments of a call.  Switches may stand before and after the path.  A long
switch may be shortened as long as it is the only one that begins so, and its value may
be joined to it by an equals sign.  After a double dash everything counts as a path.

Every argument is classified before any takes effect, so an ambiguous switch is reported
first.  Then they take effect from left to right, and the first that is wrong, or that
asks for help or the version, decides.
-/

namespace Legalese

inductive ArgumentError
  | missingPath
  | notAllowed (switch other : Switch)
  | invalidChoice (switch : Switch) (value : String)
  | missingValue (switch : Switch)
  | ignoredValue (switch : Switch) (value : String)
  | unrecognized (arguments : List String)
  | ambiguous (argument : String) (candidates : List String)
  deriving DecidableEq

namespace ArgumentError

/-- A complaint about a switch. -/
def about (s : Switch) (complaint : String) : String :=
  "argument " ++ s.label ++ ": " ++ complaint

def message : ArgumentError → String
  | missingPath => "the following arguments are required: path"
  | notAllowed s other => about s ("not allowed with argument " ++ other.label)
  | invalidChoice s v =>
    about s ("invalid choice: " ++ Text.quote v ++ " (choose from "
      ++ ", ".intercalate (s.choices.map Text.quote) ++ ")")
  | missingValue s => about s "expected one argument"
  | ignoredValue s v => about s ("ignored explicit argument " ++ Text.quote v)
  | unrecognized args => "unrecognized arguments: " ++ " ".intercalate args
  | ambiguous a candidates =>
    "ambiguous option: " ++ a ++ " could match " ++ ", ".intercalate candidates

end ArgumentError

/-- What the program prints instead of running a resolution. -/
inductive Output
  | lines
  | dump (format : DumpFormat)
  | report
  | graph (mode : GraphMode)
  deriving DecidableEq

structure Options where
  path : String
  output : Output
  logLevel : LogLevel
  deriving DecidableEq

/-- What a call asks for. -/
inductive Request
  | help
  | version
  | invalid (e : ArgumentError)
  | run (o : Options)
  deriving DecidableEq

namespace Arguments

/-! ## Classes of arguments -/

inductive Class
  | word (text : String)
  /-- The double dash. -/
  | separator
  /-- A switch, and the value joined to it directly or by an equals sign. -/
  | switch (s : Switch) (isShort : Bool) (joined : Option (List Char))
  /-- It looks like a switch and is none. -/
  | unknown (text : String)

/-- The argument as it was given, where it can be left over. -/
def Class.text : Class → String
  | word t => t
  | separator => "--"
  | switch _ _ _ => ""
  | unknown t => t

/-- A text before the first equals sign, and what comes after it. -/
def splitEquals (cs : List Char) : List Char × Option (List Char) :=
  match cs.dropWhile (· != '=') with
  | [] => (cs, none)
  | _ :: value => (cs.takeWhile (· != '='), some value)

def isShort (cs : List Char) : Bool :=
  match cs with
  | '-' :: '-' :: _ => false
  | _ => true

/-- The switches that an argument which spells none may mean, with the value joined to
it. -/
def candidates (cs : List Char) : List (String × Switch × Option (List Char)) :=
  match cs with
  | '-' :: '-' :: _ =>
    let (front, value) := splitEquals cs
    (Switch.table.filter fun e => front.isPrefixOf e.1.toList).map fun e =>
      (e.1, e.2, value)
  | a :: b :: value =>
    (Switch.table.filter fun e => e.1.toList == [a, b]).map fun e =>
      (e.1, e.2, some value)
  | _ => []

/-- Whether a text is a negative number, which is a word and no switch. -/
def isNegativeNumber (cs : List Char) : Bool :=
  match cs with
  | '-' :: rest =>
    let afterDigits := rest.dropWhile isDigit
    match afterDigits with
    | [] => rest != []
    | '.' :: fraction => fraction != [] && fraction.all isDigit
    | _ => false
  | _ => false

/-- The class of an argument before any double dash. -/
def classify (a : String) : Except ArgumentError Class :=
  let cs := a.toList
  if cs.head? ≠ some '-' then .ok (.word a)
  else
    match Switch.table.lookup a with
    | some s => .ok (.switch s (isShort cs) none)
    | none =>
      if cs.length = 1 then .ok (.word a)
      else
        let (front, value) := splitEquals cs
        match Switch.table.lookup (String.ofList front), value with
        | some s, some v => .ok (.switch s (isShort cs) (some v))
        | _, _ =>
          match candidates cs with
          | [(_, s, joined)] => .ok (.switch s (isShort cs) joined)
          | [] =>
            if isNegativeNumber cs || cs.contains ' ' then .ok (.word a) else .ok (.unknown a)
          | several => .error (.ambiguous a (several.map (·.1)))

def classifyAll : List String → Except ArgumentError (List Class)
  | [] => .ok []
  | a :: as =>
    if a = "--" then .ok (.separator :: as.map .word)
    else do
      let c ← classify a
      let cs ← classifyAll as
      return c :: cs

/-! ## Effects -/

/-- What has been made of the arguments so far. -/
structure Progress where
  path : Option String
  output : Output
  /-- The output switch that was given. -/
  given : Option Switch
  logLevel : LogLevel
  /-- Arguments that nothing could be made of. -/
  extras : List String

def Progress.initial : Progress := ⟨none, .lines, none, .warning, []⟩

/-- Why the arguments after some point do not matter. -/
inductive Stop
  | help
  | version
  | invalid (e : ArgumentError)

def Stop.request : Stop → Request
  | help => .help
  | version => .version
  | invalid e => .invalid e

def fail {α : Type} (e : ArgumentError) : Except Stop α := .error (.invalid e)

/-- Chooses an output, unless another switch has chosen one. -/
def Progress.choose (p : Progress) (s : Switch) (output : Output) : Except Stop Progress :=
  match p.given.filter (· ≠ s) with
  | some other => fail (.notAllowed s other)
  | none => .ok { p with output := output, given := some s }

/-- The effect of a switch with its value. -/
def Progress.apply (p : Progress) (s : Switch) (value : Option String) :
    Except Stop Progress :=
  match s, value with
  | .help, _ => .error .help
  | .version, _ => .error .version
  | .report, _ => p.choose s .report
  | .dot, none => p.choose s (.graph .simple)
  | .dot, some v =>
    match GraphMode.ofWord? v with
    | some mode => p.choose s (.graph mode)
    | none => fail (.invalidChoice s v)
  | .dump, some v =>
    match DumpFormat.ofWord? v with
    | some format => p.choose s (.dump format)
    | none => fail (.invalidChoice s v)
  | .logLevel, some v =>
    match LogLevel.ofWord? v with
    | some level => .ok { p with logLevel := level }
    | none => fail (.invalidChoice s v)
  | .dump, none => fail (.missingValue s)
  | .logLevel, none => fail (.missingValue s)

/-- The letters joined to a short switch without values are further switches of that kind,
also after an equals sign.  The only one is the letter for help, and from the first other
letter on the rest is a misplaced value. -/
def shortRun (s : Switch) (cs : List Char) : Stop :=
  match cs with
  | ['h'] => .help
  | 'h' :: rest => shortRun s rest
  | rest => .invalid (.ignoredValue s (String.ofList rest))

/-- The effect of a switch with a value joined to it.  A double dash is not taken for the
value of an output switch: a graph then has its usual mode, and no dump is made. -/
def Progress.applyJoined (p : Progress) (s : Switch) (isShort : Bool) (value : List Char) :
    Except Stop Progress :=
  match s.arity, s, value with
  | .none, _, _ =>
    if isShort then .error (shortRun s value)
    else fail (.ignoredValue s (String.ofList value))
  | _, .dot, ['-', '-'] => p.apply .dot none
  | _, .dump, ['-', '-'] => p.choose .dump .lines
  | _, _, _ => p.apply s (some (String.ofList value))

/-- Whether a switch is still to come.  Words after the last one are looked at together
with the double dash. -/
def hasSwitch (cs : List Class) : Bool :=
  cs.any fun c =>
    match c with
    | .switch _ _ _ => true
    | .unknown _ => true
    | _ => false

/-- The words after the last switch: the path if it is still missing, with a double dash
before or after it, and extras. -/
def Progress.finish (p : Progress) (cs : List Class) : Progress :=
  match p.path, cs with
  | none, .separator :: .word w :: rest =>
    { p with path := some w, extras := p.extras ++ rest.map Class.text }
  | none, .word w :: .separator :: rest =>
    { p with path := some w, extras := p.extras ++ rest.map Class.text }
  | none, .word w :: rest =>
    { p with path := some w, extras := p.extras ++ rest.map Class.text }
  | _, _ => { p with extras := p.extras ++ cs.map Class.text }

/-- Lets arguments take effect from left to right. -/
def applyAll (p : Progress) (cs : List Class) : Except Stop Progress :=
  if hasSwitch cs then
    match cs with
    | [] => .ok p
    | .unknown t :: rest => applyAll { p with extras := p.extras ++ [t] } rest
    | .switch s isShort (some j) :: rest => do
      let p ← p.applyJoined s isShort j
      applyAll p rest
    | .switch s _ none :: .word w :: rest =>
      if s.arity = .none then do
        let p ← p.apply s none
        applyAll p (.word w :: rest)
      else do
        let p ← p.apply s (some w)
        applyAll p rest
    | .switch s _ none :: rest => do
      let p ← p.apply s none
      applyAll p rest
    | c :: rest =>
      match p.path with
      | none => applyAll { p with path := some c.text } rest
      | some _ => applyAll { p with extras := p.extras ++ [c.text] } rest
  else .ok (p.finish cs)
termination_by cs.length

/-- The options that came out, if a path was given and nothing was left over. -/
def Progress.request (p : Progress) : Request :=
  match p.path, p.extras with
  | none, _ => .invalid .missingPath
  | some path, [] => .run ⟨path, p.output, p.logLevel⟩
  | some _, extras => .invalid (.unrecognized extras)

end Arguments

/-- What the arguments of a call ask for. -/
def Request.ofArguments (args : List String) : Request :=
  match Arguments.classifyAll args with
  | .error e => .invalid e
  | .ok cs =>
    match Arguments.applyAll .initial cs with
    | .ok p => p.request
    | .error stop => stop.request

end Legalese
