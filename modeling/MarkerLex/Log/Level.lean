import MarkerLex.Text.LowerCase

/-!
# Log levels
-/

namespace MarkerLex.Log

set_option autoImplicit false

inductive Level where
  | error
  | warn
  | info
  | debug
  | trace
deriving DecidableEq, Repr

namespace Level

def verbosity : Level → Nat
  | error => 0
  | warn => 1
  | info => 2
  | debug => 3
  | trace => 4

def name : Level → String
  | error => "ERROR"
  | warn => "WARN"
  | info => "INFO"
  | debug => "DEBUG"
  | trace => "TRACE"

def words : List (Text × Level) :=
  [("silent".toList, error), ("error".toList, error), ("warn".toList, warn), ("info".toList, info),
    ("debug".toList, debug), ("trace".toList, trace)]

def ofText (t : Text) : Except Text Level :=
  match words.lookup (Text.lower t) with
  | some level => .ok level
  | none => .error (Text.lower t)

def unknownMessage (word : Text) : String :=
  s!"unknown log level '{String.ofList word}' " ++
    "(expected silent, error, warn, info, debug or trace)"

end Level

end MarkerLex.Log
