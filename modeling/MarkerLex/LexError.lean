import MarkerLex.Grammar.Validity
import MarkerLex.Position
import MarkerLex.Source.Failure

/-!
# Lexical errors

An error is a cause and a place. A text that is never closed is reported where
it was opened.
-/

namespace MarkerLex

set_option autoImplicit false

inductive LexCause where
  | exhausted
  | unterminatedString (stop : Text)
  | unterminatedComment (stop : Text)
  | commentTooDeep (limit : Nat)
  | invalidGrammar (error : GrammarError)
  | source (error : SourceError)
deriving DecidableEq, Repr

def LexCause.message : LexCause → String
  | exhausted => "No more tokens available"
  | unterminatedString stop =>
    s!"Unterminated string literal, expected {String.ofList (Text.quoted stop)}"
  | unterminatedComment stop =>
    s!"Unterminated comment, expected {String.ofList (Text.quoted stop)}"
  | commentTooDeep limit => s!"Comment nesting deeper than {limit} levels"
  | invalidGrammar error => s!"Invalid grammar: {error.message}"
  | source error => error.message

structure LexError where
  cause : LexCause
  position : Position
deriving DecidableEq, Repr

namespace LexError

def message (e : LexError) : String :=
  s!"[{e.position.line}:{e.position.column}] {e.cause.message}"

/-- Whether the caller could have avoided the error by asking for a next token first. -/
def isExhausted (e : LexError) : Bool := e.cause == .exhausted

end LexError

end MarkerLex
