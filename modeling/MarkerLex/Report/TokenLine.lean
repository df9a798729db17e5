import MarkerLex.Json.Printer
import MarkerLex.Text.Quoted
import MarkerLex.Token

/-!
# Token lines

A token takes one line of output: its categories, its place and its quoted
text, or a JSON map that also holds its byte offset.
-/

namespace MarkerLex.Report

set_option autoImplicit false

inductive TokenFormat where
  | text
  | json
deriving DecidableEq, Repr

def textLine (t : Token) : Text :=
  t.label ++ [' ', ' '] ++ Text.numeral t.start.line ++ [':'] ++ Text.numeral t.start.column ++
    [' ', ' '] ++ Text.quoted t.text

def jsonLine (t : Token) : Text :=
  Json.Compact.map
    [("categories".toList,
        Json.Compact.list (t.categories.map fun category => Json.string category.name)),
      ("text".toList, Json.string t.text), ("line".toList, Json.natural t.start.line),
      ("column".toList, Json.natural t.start.column),
      ("byte_offset".toList, Json.natural t.start.byteOffset)]

def tokenLine : TokenFormat → Token → Text
  | .text => textLine
  | .json => jsonLine

def display (t : Token) : Text := t.label ++ ['('] ++ Text.quoted t.text ++ [')']

end MarkerLex.Report
