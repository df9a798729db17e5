/-!
# Texts and marker matching

A text is a list of code points. Markers are recognised at the end of what
has been read so far: a reader keeps its buffer newest character first and
asks whether the reversed marker leads it.
-/

namespace MarkerLex

set_option autoImplicit false

abbrev Text := List Char

namespace Text

def unitsOf (c : Char) : Nat := if c.toNat < 0x10000 then 1 else 2

def byteLength : Text → Nat
  | [] => 0
  | c :: t => c.utf8Size + byteLength t

/-- Whether the buffer `newest`, held newest character first, ends in `marker`. -/
def endsIn (newest marker : Text) : Bool := marker.reverse.isPrefixOf newest

theorem endsIn_iff {newest marker : Text} :
    endsIn newest marker = true ↔ marker <:+ newest.reverse := by
  rw [endsIn, List.isPrefixOf_iff_prefix, ← List.reverse_suffix, List.reverse_reverse]

def numeral (n : Nat) : Text := Nat.toDigits 10 n

def padLeft (width : Nat) (fill : Char) (t : Text) : Text :=
  List.replicate (width - t.length) fill ++ t

def joined (separator : Text) : List Text → Text
  | [] => []
  | [t] => t
  | t :: rest => t ++ separator ++ joined separator rest

theorem joined_cons_cons (separator t u : Text) (rest : List Text) :
    joined separator (t :: u :: rest) = t ++ separator ++ joined separator (u :: rest) := rfl

end Text

end MarkerLex
