import MarkerLex.Position

/-!
# Tokens

A token is what one stretch of text was read as. Its end and its category list
follow from its text and kind, so no token can disagree with itself.
-/

namespace MarkerLex

set_option autoImplicit false

inductive Category where
  | term
  | string
  | comment
  | named (name : Text)
deriving DecidableEq, Repr

namespace Category

def name : Category → Text
  | term => "TERM".toList
  | string => "STRING".toList
  | comment => "COMMENT".toList
  | named n => n

end Category

inductive TokenKind where
  | term
  | comment
  | string (name : Option Text)
deriving DecidableEq, Repr

/-- A stretch of text, delimiters included, and the place where it begins. -/
structure Token where
  kind : TokenKind
  text : Text
  start : Position
deriving DecidableEq, Repr

namespace Token

def category (t : Token) : Category :=
  match t.kind with
  | .term => .term
  | .comment => .comment
  | .string _ => .string

def categories (t : Token) : List Category :=
  match t.kind with
  | .string (some name) => [.string, .named name]
  | _ => [t.category]

def is (t : Token) (c : Category) : Bool := t.categories.contains c

def span (t : Token) : Span := .covering t.start t.text

def stop (t : Token) : Position := t.span.stop

def label (t : Token) : Text := Text.joined ['|'] (t.categories.map Category.name)

end Token

end MarkerLex
