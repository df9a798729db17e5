import MarkerLex.Json.Printer
import MarkerLex.Token

/-!
# Positions, spans and tokens as JSON
-/

namespace MarkerLex

set_option autoImplicit false

def Position.toJson (p : Position) : Text :=
  Json.Compact.map
    [("line".toList, Json.natural p.line), ("column".toList, Json.natural p.column),
      ("byte_offset".toList, Json.natural p.byteOffset),
      ("utf16_column".toList, Json.natural p.utf16Column)]

def Span.toJson (s : Span) : Text :=
  Json.Compact.map [("start".toList, s.start.toJson), ("end".toList, s.stop.toJson)]

/-- A plain category is a word, a named one a map from the word to the name. -/
def Category.toJson : Category → Text
  | term => Json.string "Term".toList
  | string => Json.string "String".toList
  | comment => Json.string "Comment".toList
  | named name => Json.Compact.map [("Named".toList, Json.string name)]

def Token.toJson (t : Token) : Text :=
  Json.Compact.map
    [("categories".toList, Json.Compact.list (t.categories.map Category.toJson)),
      ("text".toList, Json.string t.text), ("span".toList, t.span.toJson)]

end MarkerLex
