import MarkerLex.Cli.Run

/-!
# The program

Reads the files that the command line names, and prints what the run leaves
behind.
-/

namespace MarkerLex.Cli

set_option autoImplicit false

def entryOf (path : String) : IO Entry := do
  try
    return .file (← IO.FS.readBinFile path).toList
  catch e =>
    match e with
    | .noFileOrDirectory .. => return .notFound
    | .permissionDenied .. => return .absent "Permission denied (os error 13)"
    | .inappropriateType _ 21 _ => return .directory
    | .inappropriateType .. => return .notDirectory
    | .invalidArgument _ code _ =>
      return if code = 36 || code = -36 then .nameTooLong else .absent (toString e)
    | other => return .absent (toString other)

def entriesOf (words : List Text) : IO (List (Text × Entry)) := do
  match Arguments.parse words with
  | .error _ => return []
  | .ok a => (a.input :: a.grammar.toList).mapM fun path => do
      return (path, ← entryOf (String.ofList path))

end MarkerLex.Cli

def main (args : List String) : IO UInt32 := do
  let words := args.map String.toList
  let entries ← MarkerLex.Cli.entriesOf words
  let r := MarkerLex.Cli.run words fun path => (entries.lookup path).getD .notFound
  (← IO.getStdout).putStr (String.ofList r.stdout)
  (← IO.getStderr).putStr (String.ofList r.stderr)
  return UInt32.ofNat r.exitCode
