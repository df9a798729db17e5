import MarkerLex.Text.Basic

/-!
# Positions and spans

One position carries four coordinates of the same place: line and column for
people, a byte offset for slicing, and a UTF-16 column for editors. Reading a
character is the only way a position moves.
-/

namespace MarkerLex

set_option autoImplicit false

/-- A place in a text. Lines and columns count from one, the other two from zero. -/
structure Position where
  line : Nat
  /-- Code points since the start of the line, plus one. -/
  column : Nat
  byteOffset : Nat
  utf16Column : Nat
deriving DecidableEq, Repr

namespace Position

def start : Position := ⟨1, 1, 0, 0⟩

instance : Inhabited Position := ⟨start⟩

def advance (p : Position) (c : Char) : Position :=
  if c = '\n' then ⟨p.line + 1, 1, p.byteOffset + c.utf8Size, 0⟩
  else ⟨p.line, p.column + 1, p.byteOffset + c.utf8Size, p.utf16Column + Text.unitsOf c⟩

def advancedBy (p : Position) (t : Text) : Position := t.foldl advance p

@[simp] theorem advancedBy_nil (p : Position) : p.advancedBy [] = p := rfl

@[simp] theorem advancedBy_cons (p : Position) (c : Char) (t : Text) :
    p.advancedBy (c :: t) = (p.advance c).advancedBy t := rfl

theorem advancedBy_append (p : Position) (a b : Text) :
    p.advancedBy (a ++ b) = (p.advancedBy a).advancedBy b :=
  List.foldl_append

end Position

/-- A stretch of text from `start` up to, and not including, `stop`. -/
structure Span where
  start : Position
  stop : Position
deriving DecidableEq, Repr

namespace Span

def point (p : Position) : Span := ⟨p, p⟩

def covering (start : Position) (t : Text) : Span := ⟨start, start.advancedBy t⟩

def length (s : Span) : Nat := s.stop.byteOffset - s.start.byteOffset

def isEmpty (s : Span) : Bool := s.length == 0

end Span

end MarkerLex
