import Legalese.CommandLine.Outcome

/-!
# The program

Reads the file that a call names, prints what `Request.perform` makes of it and exits
with its status.
-/

namespace Legalese

/-- Why the system refused to read a file. -/
def FileError.ofSystem : IO.Error → FileError
  | .permissionDenied _ _ _ => .denied
  | .inappropriateType none _ _ => .isDirectory
  | .inappropriateType (some _) _ _ => .notDirectory
  | _ => .notFound

/-- What a path leads to. -/
def readFile (path : String) : IO (Except FileError String) := do
  try
    let bytes ← IO.FS.readBinFile path
    return FileError.textOfBytes bytes.toList
  catch e => return .error (.ofSystem e)

/-- The path that has to be read before a request can be met. -/
def Request.path? : Request → Option String
  | .run o => some o.path
  | _ => none

end Legalese

open Legalese

def main (args : List String) : IO UInt32 := do
  let request := Request.ofArguments args
  let file ← match request.path? with
    | some path => readFile path
    | none => pure (.error .notFound)
  match request.perform fun _ => file with
  | .ok exit =>
    (← IO.getStdout).putStr exit.out
    (← IO.getStderr).putStr exit.err
    return exit.status.toUInt32
  | .error e =>
    (← IO.getStderr).putStr (e.message ++ "\n")
    return 1
