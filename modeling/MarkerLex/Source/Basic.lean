import MarkerLex.Log.Event
import MarkerLex.Utf8

/-!
# Character sources

A source is what is still to come: characters, and between them the failures
and the remarks of whoever provides them. Remarks and failures are delivered
once, when the place where they stand is first looked at.
-/

namespace MarkerLex

set_option autoImplicit false

inductive Note where
  | ended
  | badLead (byte : UInt8)
  | badBytes (bytes : List UInt8)
deriving DecidableEq, Repr

def Note.event (place : Position) : Note → Event
  | ended => .readerEnded place.byteOffset
  | badLead byte => .badLeadByte byte place
  | badBytes bytes => .badBytes bytes place

inductive Signal where
  | char (c : Char)
  | note (n : Note)
  | failure (f : ReadFailure)
deriving DecidableEq, Repr

structure Source where
  signals : List Signal
  position : Position
deriving DecidableEq, Repr

def Signal.chars : List Signal → Text
  | [] => []
  | char c :: rest => c :: chars rest
  | _ :: rest => chars rest

namespace Source

def ofText (t : Text) : Source := ⟨t.map .char, .start⟩

def unread (s : Source) : Text := Signal.chars s.signals

inductive Front where
  | ended
  | char (c : Char) (rest : List Signal)
  | failure (f : ReadFailure) (rest : List Signal)
deriving DecidableEq, Repr

def front (place : Position) : List Signal → Traced Front
  | [] => .silent .ended
  | .char c :: rest => .silent (.char c rest)
  | .failure f :: rest => ⟨[.readFailed f], .failure f rest⟩
  | .note n :: rest => (front place rest).after [n.event place]

def errorAt (place : Position) (f : ReadFailure) : SourceError := ⟨f, place.byteOffset⟩

def peek (s : Source) : Traced (Except SourceError (Option Char) × Source) :=
  (front s.position s.signals).map fun
    | .ended => (.ok none, ⟨[], s.position⟩)
    | .char c rest => (.ok (some c), ⟨.char c :: rest, s.position⟩)
    | .failure f rest => (.error (errorAt s.position f), ⟨rest, s.position⟩)

def advance (s : Source) : Traced (Except SourceError (Option Char) × Source) :=
  (front s.position s.signals).map fun
    | .ended => (.ok none, ⟨[], s.position⟩)
    | .char c rest => (.ok (some c), ⟨rest, s.position.advance c⟩)
    | .failure f rest => (.error (errorAt s.position f), ⟨rest, s.position⟩)

def hasNext (s : Source) : Traced (Except SourceError Bool × Source) :=
  s.peek.map fun (answer, s) => (answer.map Option.isSome, s)

/-- All characters up to the end or the next failure, which is given beside them. -/
def takeRest (s : Source) : Traced ((Text × Option SourceError) × Source) :=
  go s.position s.signals
where
  go (place : Position) : List Signal → Traced ((Text × Option SourceError) × Source)
    | [] => .silent (([], none), ⟨[], place⟩)
    | .char c :: rest =>
      (go (place.advance c) rest).map fun ((text, error?), s) => ((c :: text, error?), s)
    | .failure f :: rest => ⟨[.readFailed f], (([], some (errorAt place f)), ⟨rest, place⟩)⟩
    | .note n :: rest => (go place rest).after [n.event place]

end Source

end MarkerLex
