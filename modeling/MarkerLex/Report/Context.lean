import MarkerLex.Text.Lines

/-!
# Source context

The lines around a place, numbered, with a caret below the place. All rows of
one context have their bar in the same column.
-/

namespace MarkerLex.Report

set_option autoImplicit false

def contextLines : Nat := 3

def separatorRow (width : Nat) : Text := List.replicate (width + 1) '-' ++ ['|', '-', '-']

def lineRow (width number : Nat) (line : Text) : Text :=
  Text.padLeft width ' ' (Text.numeral number) ++ [' ', '|', ' '] ++ line

def caretRow (width column : Nat) : Text :=
  List.replicate width ' ' ++ [' ', '|', ' '] ++ List.replicate (column - 1) ' ' ++ ['^']

def context (source : Text) (line column : Nat) : List Text :=
  let lines := Text.lines source
  if line = 0 ∨ lines.length < line then []
  else
    let first := max 1 (line - contextLines)
    let last := min lines.length (line + contextLines)
    let width := (Text.numeral last).length
    let shown := (lines.zipIdx 1).filter fun (_, number) => first ≤ number && number ≤ last
    let rows := shown.flatMap fun (content, number) =>
      lineRow width number content :: (if number = line then [caretRow width column] else [])
    separatorRow width :: rows ++ [separatorRow width]

end MarkerLex.Report
