import Casework.Command
import Casework.Document.Reader

/-!
The command line. All decisions are taken by `Command.run`; here files are read and lines
written.
-/

namespace Casework

/-- Why a file cannot be read, by what the system says. Opening names the path in its
report, reading does not. -/
def unreadable (path : String) : IO.Error → Unreadable
  | .inappropriateType (some _) _ _ => .notFolder
  | .inappropriateType none _ _ => .isFolder
  | .invalidArgument _ _ _ => if path.contains '\x00' then .invalidName else .nameTooLong
  | _ => .missing

/-- The document in a file, if the file can be read. A text that holds no document is read
as a list, which neither a fixture nor a configuration can be. -/
def readDocument (path : String) : IO (Except Unreadable Document) :=
  try
    let text ← IO.FS.readFile path
    return .ok ((Document.read text).toOption.getD (.list []))
  catch error => return .error (unreadable path error)

def readDocuments (paths : List String) :
    IO (List (String × Except Unreadable Document)) :=
  paths.mapM fun path => do
    return (path, ← readDocument path)

def runCommand (arguments : List String) : IO UInt32 := do
  let envConfig := (← IO.getEnv "CASEC_CONFIG").getD ""
  let documents ← readDocuments (Command.paths envConfig arguments)
  let files (path : String) := (documents.lookup path).getD (.error .missing)
  let outcome := Command.run files envConfig arguments
  for line in outcome.lines do
    IO.println line
  match outcome.failure? with
  | none => return 0
  | some failure =>
      IO.eprintln ("Error: " ++ failure.message)
      return 1

end Casework

def main (arguments : List String) : IO UInt32 :=
  Casework.runCommand arguments
