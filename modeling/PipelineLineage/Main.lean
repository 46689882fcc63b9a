import PipelineLineage.CommandLine.Run

set_option autoImplicit false

/-!
# The command line program

Reads the files that the arguments name, runs the command on them, prints, and exits.
-/

open PipelineLineage CommandLine

/-- What the system's error says about a file. -/
def fileError : IO.Error → FileError
  | .noFileOrDirectory .. => .notFound
  | .inappropriateType _ 21 _ => .isDirectory
  | .inappropriateType .. => .notDirectory
  | .invalidArgument _ 36 _ => .nameTooLong
  | error => .other (toString error)

/-- The text of a file, or why it cannot be read. -/
def readFileText (path : String) : IO (Except FileError String) := do
  try
    return .ok (← IO.FS.readFile path)
  catch error =>
    return .error (fileError error)

def main (arguments : List String) : IO UInt32 := do
  let request := readArguments arguments
  let texts ← (filesOf request).mapM fun path => do return (path, ← readFileText path)
  let files : Files := fun path => (texts.lookup path).getD (.error .notFound)
  let outcome := run files request
  (← IO.getStdout).putStr outcome.output
  match outcome.error with
  | some message => (← IO.getStderr).putStrLn ("Error: " ++ message)
  | none => pure ()
  return outcome.status.toUInt32
