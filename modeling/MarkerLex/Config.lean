/-!
# Lexer policies
-/

namespace MarkerLex

set_option autoImplicit false

/-- How a lexer treats comments that never end or that nest deeply. -/
structure Config where
  /-- Whether a comment cut off by the end of the input is an error rather than a token. -/
  strictComments : Bool := true
  maxCommentDepth : Nat := 128
deriving DecidableEq, Repr, Inhabited

namespace Config

def lenient : Config := { strictComments := false }

end Config

end MarkerLex
