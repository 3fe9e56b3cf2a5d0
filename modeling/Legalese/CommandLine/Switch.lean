import Legalese.Graph
import Legalese.Log

/-!
# Switches

What the command line understands besides the path of a resolution: the spellings of
each switch, the values that it takes, and the texts that explain all of it.
-/

namespace Legalese

inductive Switch
  | help
  | dump
  | report
  | dot
  | logLevel
  | version
  deriving DecidableEq

/-- How many values a switch takes. -/
inductive Arity
  | none
  | one
  | atMostOne
  deriving DecidableEq

/-- The forms in which a resolution can be dumped. -/
inductive DumpFormat
  | yaml
  | json
  deriving DecidableEq

namespace DumpFormat

def word : DumpFormat → String
  | yaml => "yaml"
  | json => "json"

def all : List DumpFormat := [yaml, json]

def ofWord? (w : String) : Option DumpFormat := all.find? (·.word == w)

end DumpFormat

namespace Switch

def all : List Switch := [help, dump, report, dot, logLevel, version]

def spellings : Switch → List String
  | help => ["-h", "--help"]
  | dump => ["--dump"]
  | report => ["--report"]
  | dot => ["--dot"]
  | logLevel => ["--log-level"]
  | version => ["--version"]

/-- Every spelling with its switch. -/
def table : List (String × Switch) := all.flatMap fun s => s.spellings.map (·, s)

/-- The name of a switch in messages. -/
def label (s : Switch) : String := "/".intercalate s.spellings

def arity : Switch → Arity
  | dump => .one
  | logLevel => .one
  | dot => .atMostOne
  | _ => .none

/-- The values that a switch takes. -/
def choices : Switch → List String
  | dump => DumpFormat.all.map (·.word)
  | dot => GraphMode.all.map (·.word)
  | logLevel => LogLevel.all.map (·.word)
  | _ => []

end Switch

/-- How to call the program. -/
def usage : String := "\n".intercalate
  ["usage: whereas [-h]",
    "               [--dump \x7byaml,json\x7d | --report | --dot [\x7bsimple,detailed,dataflow\x7d]]",
    "               [--log-level \x7bDEBUG,INFO,WARNING,ERROR\x7d] [--version]",
    "               path",
    ""]

/-- The answer to a call for help. -/
def helpText : String := usage ++ "\n".intercalate
  ["",
    "Run a Resolution written in legalistic English.",
    "",
    "positional arguments:",
    "  path                  Path to the Resolution source file",
    "",
    "options:",
    "  -h, --help            show this help message and exit",
    "  --dump \x7byaml,json\x7d    Print the parsed AST in this format instead of running",
    "  --report              Print the analyzer report instead of running",
    "  --dot [\x7bsimple,detailed,dataflow\x7d]",
    "                        Print a Graphviz DOT graph instead of running (default",
    "                        mode: simple)",
    "  --log-level \x7bDEBUG,INFO,WARNING,ERROR\x7d",
    "                        Logging level (default: WARNING)",
    "  --version             show program's version number and exit",
    ""]

def versionText : String := "whereas 0.1.0\n"

end Legalese
