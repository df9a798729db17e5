import MarkerLex.Mode.Reader

/-!
# Reading between delimiters

Plain characters make up a term until whitespace, the end, or a start marker
that ends the characters read so far. The marker is cut off the term and its
place follows from the term's.
-/

namespace MarkerLex

set_option autoImplicit false

/-- A term that is being read, newest character first, and the place of its first one. -/
structure Pending where
  newest : Text
  start : Position
deriving DecidableEq, Repr

namespace Pending

def empty : Pending := ⟨[], .start⟩

def push (p : Pending) (place : Position) (c : Char) : Pending :=
  ⟨c :: p.newest, if p.newest = [] then place else p.start⟩

def text (p : Pending) : Text := p.newest.reverse

def term? (p : Pending) : Option Token :=
  if p.newest = [] then none else some ⟨.term, p.text, p.start⟩

def without (p : Pending) (marker : Text) : Pending := { p with newest := p.newest.drop marker.length }

def stop (p : Pending) : Position := p.start.advancedBy p.text

end Pending

def Delimiter.openedEvent (start : Position) : Delimiter → Event
  | .comment spec => .commentOpened spec.start start
  | .string spec => .stringOpened spec.start start

namespace Reader

def std (g : Grammar) : Reader Pending where
  react p place c :=
    if g.isWhitespace c then .leave ⟨[.whitespaceMet], .ok (.emit p.term? .whitespace)⟩
    else
      let p := p.push place c
      match g.opening? p.newest with
      | none => .proceed p
      | some delimiter =>
        let before := p.without delimiter.start
        .take ⟨[delimiter.openedEvent before.stop],
          .ok (.emit before.term? (.ofDelimiter before.stop delimiter))⟩
  finish p :=
    .silent (.ok (if p.newest = [] then .exhausted else .emit p.term? .std))

def whitespace (g : Grammar) : Reader Unit where
  react _ _ c :=
    if g.isWhitespace c then .proceed () else .leave (.silent (.ok (.emit none .std)))
  finish _ := .silent (.ok (.emit none .std))

end Reader

end MarkerLex
