import MarkerLex.Config
import MarkerLex.Json.Printer
import MarkerLex.Json.Schema

/-!
# Lexer policies as JSON
-/

namespace MarkerLex.Config

set_option autoImplicit false

structure Draft where
  strictComments : Option Bool := none
  maxCommentDepth : Option Nat := none

def schema : Json.Schema Draft where
  name := "LexerConfig".toList
  fields :=
    [.of "strict_comments" false Draft.strictComments
        (fun d b => { d with strictComments := some b }) Json.Cursor.boolean,
      .of "max_comment_depth" false Draft.maxCommentDepth
        (fun d n => { d with maxCommentDepth := some n }) Json.Cursor.natural]

def ofDraft (d : Draft) : Config :=
  let usual : Config := {}
  ⟨d.strictComments.getD usual.strictComments, d.maxCommentDepth.getD usual.maxCommentDepth⟩

def ofJson (t : Text) : Except Json.Fault Config :=
  Json.document (fun cur => (schema.read {} cur).map fun (d, cur) => (ofDraft d, cur)) t

def toJson (c : Config) : Text :=
  Json.Compact.map
    [("strict_comments".toList, Json.boolean c.strictComments),
      ("max_comment_depth".toList, Json.natural c.maxCommentDepth)]

end MarkerLex.Config
