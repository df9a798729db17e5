import MarkerLex.Text.Basic

/-!
# Lines of a text
-/

namespace MarkerLex.Text

set_option autoImplicit false

/-- The lines of a text without their ends, which are a newline or a carriage return and a
newline. A text that ends in a newline has no further, empty line. -/
def lines : Text → List Text
  | [] => []
  | '\n' :: rest => [] :: lines rest
  | '\r' :: '\n' :: rest => [] :: lines rest
  | c :: rest =>
    match lines rest with
    | [] => [[c]]
    | line :: more => (c :: line) :: more

end MarkerLex.Text
