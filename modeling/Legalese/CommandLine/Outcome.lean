import Legalese.CommandLine.Arguments
import Legalese.Evaluation
import Legalese.Json.Writer
import Legalese.Reading.Resolution
import Legalese.Report
import Legalese.Text.Utf8
import Legalese.Tree.Encode
import Legalese.Yaml.Writer

/-!
# What a call prints

The program reads a file, and runs the resolution in it or prints another view of it.
What it prints and the status that it exits with are a function of the options and of
the bytes of the file.  Notes of the log and errors go to the second stream, in the order
in which they arise.

A number outside the range can neither be published nor drawn; no text holds one.
-/

namespace Legalese

/-- Why a file cannot be read. -/
inductive FileError
  | notFound
  | denied
  | notDirectory
  | isDirectory
  | undecodable (e : Text.Utf8Error)
  deriving DecidableEq

namespace FileError

/-- The error about a path. -/
def message (path : String) : FileError → String
  | notFound => "[Errno 2] No such file or directory: " ++ Text.quote path
  | denied => "[Errno 13] Permission denied: " ++ Text.quote path
  | notDirectory => "[Errno 20] Not a directory: " ++ Text.quote path
  | isDirectory => "[Errno 21] Is a directory: " ++ Text.quote path
  | undecodable e => e.message

/-- The text of a file's bytes. -/
def textOfBytes (bytes : List UInt8) : Except FileError String :=
  (Text.ofFile bytes).mapError undecodable

end FileError

/-- The end of a call: the exit status and what was written to the two streams. -/
structure Exit where
  status : Nat
  out : String
  err : String
  deriving DecidableEq

namespace Exit

/-- Lines, each with its end. -/
def ofLines (ls : List String) : String := String.join (ls.map (· ++ "\n"))

def success : Nat := 0
def badText : Nat := 1
def faulted : Nat := 2
def unreadable : Nat := 3

end Exit

/-- The lines that report an error. -/
def Error.lines : Error → List String
  | .names es _ => es.map fun e => "error: " ++ e.message
  | .unclosedText literal =>
    ["error: " ++ (Error.unclosedText literal).message ++ " after \"" ++ literal]
  | e => ["error: " ++ e.message]

namespace Options

/-- The text of a view of a resolution. -/
def view? (r : Resolution) : Output → Except OutsideRange String
  | .lines => .ok ""
  | .dump .json => .ok (Json.write r.toTree)
  | .dump .yaml =>
    .ok (String.ofList ((Yaml.write r.toTree).toList.reverse.dropWhile (· == '\n')).reverse)
  | .report => .ok (Report.ofResolution r).text
  | .graph mode => Graph.text mode r

/-- The end of a call on a resolution in which nothing is wrong, after some notes. -/
def finish (o : Options) (log : List LogEntry) (r : Resolution) : Except OutsideRange Exit := do
  match o.output with
  | .lines =>
    let outcome := r.run .empty
    let lines ← outcome.lines?
    match outcome.fault with
    | none => return ⟨Exit.success, Exit.ofLines lines, Exit.ofLines (logLines o.logLevel log)⟩
    | some f =>
      let log := log ++ [.stopped f.message]
      return ⟨Exit.faulted, Exit.ofLines lines,
        Exit.ofLines (logLines o.logLevel log ++ (Error.evaluation f.message).lines)⟩
  | output =>
    let text ← view? r output
    return ⟨Exit.success, text ++ "\n", Exit.ofLines (logLines o.logLevel log)⟩

/-- The end of a call on a text. -/
def onText (o : Options) (source : String) : Except OutsideRange Exit :=
  let opened : List LogEntry := [.opened source.length o.path]
  let stop (log : List LogEntry) (e : Error) : Exit :=
    ⟨Exit.badText, "", Exit.ofLines (logLines o.logLevel (opened ++ log) ++ e.lines)⟩
  match Reading.ofString source with
  | .error f => .ok (stop f.log f.error)
  | .ok reading =>
    match reading.verdict with
    | .error e => .ok (stop reading.log e)
    | .ok r => o.finish (opened ++ reading.log) r

/-- The end of a call on a file. -/
def onFile (o : Options) (file : Except FileError String) : Except OutsideRange Exit :=
  match file with
  | .ok source => o.onText source
  | .error e =>
    .ok ⟨Exit.unreadable, "",
      Exit.ofLines ["error: cannot read " ++ o.path ++ ": " ++ e.message o.path]⟩

end Options

/-- The end of a call, given what each path leads to. -/
def Request.perform (files : String → Except FileError String) :
    Request → Except OutsideRange Exit
  | .help => .ok ⟨Exit.success, helpText, ""⟩
  | .version => .ok ⟨Exit.success, versionText, ""⟩
  | .invalid e => .ok ⟨2, "", usage ++ "whereas: error: " ++ e.message ++ "\n"⟩
  | .run o => o.onFile (files o.path)

end Legalese
