import MarkerLex.Grammar.Validity
import MarkerLex.Json.Printer
import MarkerLex.Json.Schema

/-!
# Grammars as JSON

A grammar is written over several lines, a single spec on one line. Fields that
a spec does not use are left out. Reading a grammar also checks it, after the
document as a whole has been found in order.
-/

namespace MarkerLex

set_option autoImplicit false

namespace CommentSpec

structure Draft where
  start : Option Text := none
  stop : Option Text := none
  nestable : Option Bool := none

def schema : Json.Schema Draft where
  name := "CommentSpec".toList
  fields :=
    [.of "start" true Draft.start (fun d t => { d with start := some t }) Json.Cursor.text,
      .of "end" true Draft.stop (fun d t => { d with stop := some t }) Json.Cursor.text,
      .of "nestable" false Draft.nestable (fun d b => { d with nestable := some b })
        Json.Cursor.boolean]

def ofDraft (d : Draft) : CommentSpec := ⟨d.start.getD [], d.stop.getD [], d.nestable.getD false⟩

def read (cur : Json.Cursor) : Json.Reading CommentSpec :=
  (schema.read {} cur).map fun (d, cur) => (ofDraft d, cur)

def members (spec : CommentSpec) : List (Text × Text) :=
  [("start".toList, Json.string spec.start), ("end".toList, Json.string spec.stop),
    ("nestable".toList, Json.boolean spec.nestable)]

def toJson (spec : CommentSpec) : Text := Json.Compact.map spec.members

def ofJson (t : Text) : Except Json.Fault CommentSpec := Json.document read t

end CommentSpec

namespace StringSpec

structure Draft where
  start : Option Text := none
  stop : Option Text := none
  escape : Option (Option Text) := none
  name : Option (Option Text) := none

def schema : Json.Schema Draft where
  name := "StringSpec".toList
  fields :=
    [.of "start" true Draft.start (fun d t => { d with start := some t }) Json.Cursor.text,
      .of "end" true Draft.stop (fun d t => { d with stop := some t }) Json.Cursor.text,
      .of "escape" false Draft.escape (fun d t => { d with escape := some t }) Json.Cursor.text?,
      .of "name" false Draft.name (fun d t => { d with name := some t }) Json.Cursor.text?]

def ofDraft (d : Draft) : StringSpec :=
  ⟨d.start.getD [], d.stop.getD [], d.escape.getD none, d.name.getD none⟩

def read (cur : Json.Cursor) : Json.Reading StringSpec :=
  (schema.read {} cur).map fun (d, cur) => (ofDraft d, cur)

def members (spec : StringSpec) : List (Text × Text) :=
  [("start".toList, Json.string spec.start), ("end".toList, Json.string spec.stop)] ++
    (spec.escape.map fun t => ("escape".toList, Json.string t)).toList ++
    (spec.name.map fun t => ("name".toList, Json.string t)).toList

def toJson (spec : StringSpec) : Text := Json.Compact.map spec.members

def ofJson (t : Text) : Except Json.Fault StringSpec := Json.document read t

end StringSpec

namespace Grammar

structure Draft where
  whitespace : Option Text := none
  comments : Option (List CommentSpec) := none
  strings : Option (List StringSpec) := none

def schema : Json.Schema Draft where
  name := "LexGrammar".toList
  fields :=
    [.of "whitespace" false Draft.whitespace (fun d t => { d with whitespace := some t })
        Json.Cursor.text,
      .of "comments" false Draft.comments (fun d specs => { d with comments := some specs })
        (Json.Cursor.list CommentSpec.read),
      .of "strings" false Draft.strings (fun d specs => { d with strings := some specs })
        (Json.Cursor.list StringSpec.read)]

def ofDraft (d : Draft) : Grammar :=
  ⟨(d.whitespace.map WhitespaceSet.ofText).getD .usual, d.comments.getD [], d.strings.getD []⟩

def read (cur : Json.Cursor) : Json.Reading Grammar :=
  (schema.read {} cur).map fun (d, cur) => (ofDraft d, cur)

def ofJson (t : Text) : Except GrammarError Grammar :=
  match Json.document read t with
  | .error f => .error (.unreadable f)
  | .ok g => g.validate.map fun _ => g

def toJson (g : Grammar) : Text :=
  Json.Pretty.map 0
    [("whitespace".toList, Json.string g.whitespace.chars),
      ("comments".toList,
        Json.Pretty.list 1 (g.comments.map fun spec => Json.Pretty.map 2 spec.members)),
      ("strings".toList,
        Json.Pretty.list 1 (g.strings.map fun spec => Json.Pretty.map 2 spec.members))]

end Grammar

end MarkerLex
