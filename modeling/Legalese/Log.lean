/-!
# Log entries

What reading and evaluation note down along the way.  An entry is shown when its level
is at least the level that was asked for.
-/

namespace Legalese

inductive LogLevel
  | debug
  | info
  | warning
  | error
  deriving DecidableEq

namespace LogLevel

def all : List LogLevel := [debug, info, warning, error]

def word : LogLevel → String
  | debug => "DEBUG"
  | info => "INFO"
  | warning => "WARNING"
  | error => "ERROR"

def rank : LogLevel → Nat
  | debug => 0
  | info => 1
  | warning => 2
  | error => 3

def ofWord? (w : String) : Option LogLevel :=
  all.find? (·.word == w)

end LogLevel

inductive LogEntry
  | redeclared (name : String)
  | undeclared (name : String)
  | declared (name : String)
  | read (recitals actions nameErrors : Nat)
  | stopped (message : String)
  | opened (characters : Nat) (path : String)
  deriving DecidableEq

namespace LogEntry

def level : LogEntry → LogLevel
  | opened _ _ => .info
  | _ => .debug

/-- The part of the program that makes an entry. -/
def origin : LogEntry → String
  | opened _ _ => "whereas.cli"
  | stopped _ => "whereas.evaluator"
  | _ => "whereas.parser"

def message : LogEntry → String
  | redeclared x => "redeclared identifier " ++ x
  | undeclared x => "undeclared identifier " ++ x
  | declared x => "declared " ++ x
  | read recitals actions nameErrors =>
    "parsed resolution: " ++ toString recitals ++ " whereas, " ++ toString actions
      ++ " resolved, " ++ toString nameErrors ++ " identifier errors"
  | stopped m => "evaluation stopped: " ++ m
  | opened characters path =>
    "read " ++ toString characters ++ " characters from " ++ path

def line (e : LogEntry) : String :=
  e.level.word ++ " " ++ e.origin ++ ": " ++ e.message

end LogEntry

/-- The lines of the entries that a level lets through. -/
def logLines (least : LogLevel) (log : List LogEntry) : List String :=
  (log.filter fun e => least.rank ≤ e.level.rank).map LogEntry.line

end Legalese
