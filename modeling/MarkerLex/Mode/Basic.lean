import MarkerLex.Grammar.Basic
import MarkerLex.Position

/-!
# Lexical modes

Between two steps a lexer is in one of four modes. The two delimited modes hold
the form that was opened and the place of its start marker, which has been read.
-/

namespace MarkerLex

set_option autoImplicit false

inductive Mode where
  | std
  | whitespace
  | comment (spec : CommentSpec) (start : Position)
  | string (spec : StringSpec) (start : Position)
deriving DecidableEq, Repr

namespace Mode

def name : Mode → String
  | std => "std"
  | whitespace => "whitespace"
  | comment _ _ => "comment"
  | string _ _ => "string"

/-- The marker that was read before the mode was entered and that its token begins with. -/
def seed : Mode → Text
  | std | whitespace => []
  | comment spec _ => spec.start
  | string spec _ => spec.start

def ofDelimiter (start : Position) : Delimiter → Mode
  | .comment spec => comment spec start
  | .string spec => string spec start

end Mode

end MarkerLex
