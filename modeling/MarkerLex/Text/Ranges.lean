import MarkerLex.Text.Basic

/-!
# Code point ranges

A property of code points is given by the inclusive ranges in which it holds.
-/

namespace MarkerLex.Text

set_option autoImplicit false

def inRanges (ranges : List (Nat × Nat)) (c : Char) : Bool :=
  ranges.any fun range => range.1 ≤ c.toNat && c.toNat ≤ range.2

end MarkerLex.Text
