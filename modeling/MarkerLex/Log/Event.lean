import MarkerLex.LexError
import MarkerLex.Mode.Basic
import MarkerLex.Token

/-!
# Events

What a lexer does is told by events. They are data: operations return them
beside their answer, and whoever wants to see them decides how they are shown.
-/

namespace MarkerLex

set_option autoImplicit false

inductive Event where
  | lexerCreated (comments strings : Nat) (strict : Bool)
  | stepRequested (mode : Mode)
  | tokenProduced (token : Token)
  | inputEnded
  | lexFailed (error : LexError)
  | whitespaceMet
  | commentOpened (marker : Text) (start : Position)
  | stringOpened (marker : Text) (start : Position)
  | commentClosed
  | stringClosed
  | innerCommentOpened (depth : Nat)
  | innerCommentClosed (depth : Nat)
  | nestedTooDeep (limit : Nat)
  | commentUnterminated (start : Position)
  | commentCutOff (start : Position)
  | stringUnterminated (start : Position)
  | readerEnded (offset : Nat)
  | readFailed (failure : ReadFailure)
  | badLeadByte (byte : UInt8) (place : Position)
  | badBytes (bytes : List UInt8) (place : Position)
  | runStarted (input : Text)
  | runDone (tokens : Nat)
deriving DecidableEq, Repr

/-- An answer and the events that arose on the way to it, oldest first. -/
structure Traced (α : Type) where
  events : List Event
  value : α

namespace Traced

variable {α β : Type}

def silent (value : α) : Traced α := ⟨[], value⟩

def after (earlier : List Event) (t : Traced α) : Traced α := ⟨earlier ++ t.events, t.value⟩

def map (f : α → β) (t : Traced α) : Traced β := ⟨t.events, f t.value⟩

def andThen (t : Traced α) (f : α → Traced β) : Traced β := (f t.value).after t.events

@[simp] theorem after_value (earlier : List Event) (t : Traced α) :
    (t.after earlier).value = t.value := rfl

@[simp] theorem after_events (earlier : List Event) (t : Traced α) :
    (t.after earlier).events = earlier ++ t.events := rfl

@[simp] theorem map_value (f : α → β) (t : Traced α) : (t.map f).value = f t.value := rfl

@[simp] theorem map_events (f : α → β) (t : Traced α) : (t.map f).events = t.events := rfl

@[simp] theorem andThen_value (t : Traced α) (f : α → Traced β) :
    (t.andThen f).value = (f t.value).value := rfl

@[simp] theorem andThen_events (t : Traced α) (f : α → Traced β) :
    (t.andThen f).events = t.events ++ (f t.value).events := rfl

end Traced

end MarkerLex
