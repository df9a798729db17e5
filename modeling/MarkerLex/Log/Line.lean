import MarkerLex.Log.Event
import MarkerLex.Log.Filter

/-!
# Events as text

The phase, the level, the message and the fields of every event, and the line
that shows an event.
-/

namespace MarkerLex

set_option autoImplicit false

structure FieldValue where
  text : String
  isQuoted : Bool := false

namespace FieldValue

def ofNat (n : Nat) : FieldValue := { text := toString n }

def ofText (t : Text) : FieldValue := { text := String.ofList t }

def shown (v : FieldValue) : String :=
  if v.isQuoted then String.ofList (Text.quoted v.text.toList) else v.text

end FieldValue

namespace Event

open Log

def byteNumeral (b : UInt8) : String :=
  String.ofList (Text.padLeft 2 '0' ((Nat.toDigits 16 b.toNat).map Char.toUpper))

def phase : Event → Phase
  | lexerCreated _ _ _ | stepRequested _ | tokenProduced _ | inputEnded | lexFailed _ => .lexer
  | whitespaceMet | commentOpened _ _ | stringOpened _ _ | commentClosed | stringClosed
  | innerCommentOpened _ | innerCommentClosed _ | nestedTooDeep _ | commentUnterminated _
  | commentCutOff _ | stringUnterminated _ => .reader
  | readerEnded _ | readFailed _ | badLeadByte _ _ | badBytes _ _ => .source
  | runStarted _ | runDone _ => .cli

def level : Event → Level
  | lexFailed _ | nestedTooDeep _ | commentUnterminated _ | commentCutOff _
  | stringUnterminated _ | readFailed _ | badLeadByte _ _ | badBytes _ _ => .warn
  | runStarted _ => .info
  | tokenProduced _ | runDone _ => .debug
  | _ => .trace

def message : Event → String
  | lexerCreated _ _ _ => "Creating new Lexer"
  | stepRequested _ => "Requesting next tokens"
  | tokenProduced t =>
    s!"Produced token: category={String.ofList t.category.name}, " ++
      s!"text={String.ofList (Text.quoted t.text)}, " ++
      s!"line={t.start.line}, column={t.start.column}"
  | inputEnded => "Reached end of input"
  | lexFailed _ => "Lex error encountered"
  | whitespaceMet => "std -> whitespace"
  | commentOpened _ _ => "std -> comment"
  | stringOpened _ _ => "std -> string"
  | commentClosed => "comment -> std"
  | stringClosed => "string -> std"
  | innerCommentOpened _ => "Nested comment opened"
  | innerCommentClosed _ => "Nested comment closed"
  | nestedTooDeep _ => "Comment nesting too deep"
  | commentUnterminated _ => "Unterminated comment"
  | commentCutOff _ => "Comment closed by end of input"
  | stringUnterminated _ => "Unterminated string literal"
  | readerEnded _ => "Reader reached EOF"
  | readFailed _ => "Read failed"
  | badLeadByte byte place =>
    s!"Invalid UTF-8 lead byte: 0x{byteNumeral byte} at {place.line}:{place.column}"
  | badBytes bytes place =>
    let numerals := String.intercalate ", " (bytes.map byteNumeral)
    s!"Invalid UTF-8 bytes [{numerals}] at {place.line}:{place.column}"
  | runStarted _ => "Tokenizing"
  | runDone _ => "Done"

def placeFields (p : Position) : List (String × FieldValue) :=
  [("line", .ofNat p.line), ("column", .ofNat p.column)]

def fields : Event → List (String × FieldValue)
  | lexerCreated comments strings strict =>
    [("comments", .ofNat comments), ("strings", .ofNat strings),
      ("strict_comments", { text := toString strict })]
  | stepRequested mode => [("state", { text := mode.name, isQuoted := true })]
  | lexFailed error => [("error", { text := error.message })]
  | commentOpened marker start | stringOpened marker start =>
    ("start", .ofText marker) :: placeFields start
  | innerCommentOpened depth | innerCommentClosed depth => [("depth", .ofNat depth)]
  | nestedTooDeep limit => [("limit", .ofNat limit)]
  | commentUnterminated start | commentCutOff start | stringUnterminated start =>
    placeFields start
  | readerEnded offset => [("offset", .ofNat offset)]
  | readFailed failure => [("error", { text := failure.description })]
  | runStarted input => [("input", .ofText input)]
  | runDone tokens => [("tokens", .ofNat tokens)]
  | _ => []

def passes (filter : Filter) (e : Event) : Bool := filter.admits e.phase.target e.level

def line (e : Event) : String :=
  let level := String.ofList (Text.padLeft 5 ' ' e.level.name.toList)
  let members := e.fields.map fun (name, value) => s!" {name}={value.shown}"
  s!"{level} {e.message}{String.join members}"

end Event

end MarkerLex
