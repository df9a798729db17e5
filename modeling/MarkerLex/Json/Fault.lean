import MarkerLex.Text.Quoted

/-!
# Faults in JSON documents

A fault is a cause and a place. Causes are data; their wording is in one
function. Columns count bytes since the last line end.
-/

namespace MarkerLex.Json

set_option autoImplicit false

/-- A value met where another kind was wanted. -/
inductive Found where
  | null
  | boolean (value : Bool)
  | integer (value : Int)
  /-- A number with a fraction or an exponent, by its shortest numeral. -/
  | floating (numeral : Text)
  | string (value : Text)
  | sequence
  | map
deriving DecidableEq, Repr

inductive Wanted where
  | string
  | boolean
  | sequence
  | natural
  | record (name : Text)
deriving DecidableEq, Repr

inductive Cause where
  | endInList
  | endInObject
  | endInString
  | endInValue
  | expectedColon
  | expectedListCommaOrEnd
  | expectedObjectCommaOrEnd
  | expectedIdent
  | expectedValue
  | invalidEscape
  | invalidNumber
  | numberOutOfRange
  | controlCharacter
  | keyMustBeString
  | loneSurrogate
  | trailingComma
  | trailingCharacters
  | unfinishedSurrogatePair
  | wrongKind (found : Found) (wanted : Wanted)
  | wrongValue (found : Found) (wanted : Wanted)
  | wrongLength (length : Nat) (record : Text) (fields : Nat)
  | missingField (name : Text)
  | duplicateField (name : Text)
deriving DecidableEq, Repr

inductive FaultClass where
  | syntactic
  | data
  | truncated
deriving DecidableEq, Repr

namespace Found

def describe : Found → String
  | null => "null"
  | boolean value => s!"boolean `{value}`"
  | integer value => s!"integer `{value}`"
  | floating numeral => s!"floating point `{String.ofList numeral}`"
  | string value => s!"string {String.ofList (Text.quoted value)}"
  | sequence => "sequence"
  | map => "map"

end Found

namespace Wanted

def describe : Wanted → String
  | string => "a string"
  | boolean => "a boolean"
  | sequence => "a sequence"
  | natural => "usize"
  | record name => s!"struct {String.ofList name}"

end Wanted

namespace Cause

def describe : Cause → String
  | endInList => "EOF while parsing a list"
  | endInObject => "EOF while parsing an object"
  | endInString => "EOF while parsing a string"
  | endInValue => "EOF while parsing a value"
  | expectedColon => "expected `:`"
  | expectedListCommaOrEnd => "expected `,` or `]`"
  | expectedObjectCommaOrEnd => "expected `,` or `\x7d`"
  | expectedIdent => "expected ident"
  | expectedValue => "expected value"
  | invalidEscape => "invalid escape"
  | invalidNumber => "invalid number"
  | numberOutOfRange => "number out of range"
  | controlCharacter => "control character (\\u0000-\\u001F) found while parsing a string"
  | keyMustBeString => "key must be a string"
  | loneSurrogate => "lone leading surrogate in hex escape"
  | trailingComma => "trailing comma"
  | trailingCharacters => "trailing characters"
  | unfinishedSurrogatePair => "unexpected end of hex escape"
  | wrongKind found wanted => s!"invalid type: {found.describe}, expected {wanted.describe}"
  | wrongValue found wanted => s!"invalid value: {found.describe}, expected {wanted.describe}"
  | wrongLength length record fields =>
    s!"invalid length {length}, expected struct {String.ofList record} with {fields} elements"
  | missingField name => s!"missing field `{String.ofList name}`"
  | duplicateField name => s!"duplicate field `{String.ofList name}`"

def faultClass : Cause → FaultClass
  | endInList | endInObject | endInString | endInValue => .truncated
  | wrongKind _ _ | wrongValue _ _ | wrongLength _ _ _ | missingField _ | duplicateField _ => .data
  | _ => .syntactic

end Cause

structure Fault where
  cause : Cause
  line : Nat
  column : Nat
deriving DecidableEq, Repr

def Fault.message (f : Fault) : String :=
  s!"{f.cause.describe} at line {f.line} column {f.column}"

end MarkerLex.Json
