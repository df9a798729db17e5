import MarkerLex.Grammar.Basic
import MarkerLex.Json.Fault

/-!
# Valid grammars

A grammar is refused for its first bad spec, comments before strings: a marker
may not be empty, and a start marker may not hold a whitespace character, since
whitespace ends the text in which markers are looked for.
-/

namespace MarkerLex

set_option autoImplicit false

inductive SpecKind where
  | comment
  | string
deriving DecidableEq, Repr

def SpecKind.describe : SpecKind → String
  | comment => "comment"
  | string => "string"

inductive MarkerSide where
  | start
  | stop
deriving DecidableEq, Repr

def MarkerSide.describe : MarkerSide → String
  | start => "start"
  | stop => "end"

inductive GrammarError where
  | emptyMarker (kind : SpecKind) (index : Nat) (side : MarkerSide)
  | emptyEscape (index : Nat)
  | whitespaceInMarker (marker : Text) (ch : Char)
  | unreadable (fault : Json.Fault)
deriving DecidableEq, Repr

def GrammarError.message : GrammarError → String
  | emptyMarker kind index side =>
    s!"{kind.describe} spec #{index} has an empty {side.describe} marker"
  | emptyEscape index => s!"string spec #{index} has an empty escape marker"
  | whitespaceInMarker marker ch =>
    s!"start marker {String.ofList (Text.quoted marker)} contains whitespace character " ++
      s!"{String.ofList (Text.quotedAlone ch)} and can never match"
  | unreadable fault => s!"invalid grammar JSON: {fault.message}"

namespace Grammar

def markerError? (g : Grammar) (kind : SpecKind) (index : Nat) (start stop : Text) :
    Option GrammarError :=
  if start = [] then some (.emptyMarker kind index .start)
  else if stop = [] then some (.emptyMarker kind index .stop)
  else (start.find? g.isWhitespace).map (.whitespaceInMarker start)

def commentError? (g : Grammar) (index : Nat) (spec : CommentSpec) : Option GrammarError :=
  g.markerError? .comment index spec.start spec.stop

def stringError? (g : Grammar) (index : Nat) (spec : StringSpec) : Option GrammarError :=
  (g.markerError? .string index spec.start spec.stop).or
    (if spec.escape = some [] then some (.emptyEscape index) else none)

def error? (g : Grammar) : Option GrammarError :=
  (g.comments.zipIdx.findSome? fun (spec, index) => g.commentError? index spec).or
    (g.strings.zipIdx.findSome? fun (spec, index) => g.stringError? index spec)

def validate (g : Grammar) : Except GrammarError Unit :=
  match g.error? with
  | some e => .error e
  | none => .ok ()

end Grammar

end MarkerLex
