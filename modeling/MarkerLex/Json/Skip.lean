import MarkerLex.Json.Number
import MarkerLex.Json.String

/-!
# Values that do not matter

A value under an unknown key is only checked for its form, to any depth. What
is open around the place reached is a stack of frames.
-/

namespace MarkerLex.Json

set_option autoImplicit false

inductive Frame where
  | list
  | map
deriving DecidableEq, Repr

namespace Frame

def closing : Frame → Char
  | list => ']'
  | map => '\x7d'

def truncated : Frame → Cause
  | list => .endInList
  | map => .endInObject

def expected : Frame → Cause
  | list => .expectedListCommaOrEnd
  | map => .expectedObjectCommaOrEnd

end Frame

namespace Cursor

def colon (cur : Cursor) : Except Fault Cursor :=
  let cur := cur.skipBlanks
  match cur.rest with
  | [] => .error (cur.here .endInObject)
  | c :: _ => if c = ':' then .ok cur.advance else .error (cur.ahead .expectedColon)

def skipKey (cur : Cursor) : Except Fault Cursor :=
  let cur := cur.skipBlanks
  match cur.rest with
  | [] => .error (cur.here .endInObject)
  | c :: _ =>
    if c = '"' then cur.advance.skipString.bind colon else .error (cur.ahead .keyMustBeString)

def enter (cur : Cursor) : Frame → Except Fault Cursor
  | .list => .ok cur
  | .map => cur.skipKey

/-- Where a value ended: at the end of everything, or before a further value in open frames. -/
inductive Resumed where
  | done (cur : Cursor)
  | value (frames : List Frame) (cur : Cursor)

def resume (cur : Cursor) : List Frame → Except Fault Resumed
  | [] => .ok (.done cur)
  | frame :: outer =>
    let cur := cur.skipBlanks
    match cur.rest with
    | [] => .error (cur.here frame.truncated)
    | c :: _ =>
      if c = ',' then (cur.advance.enter frame).map (.value (frame :: outer))
      else if c = frame.closing then resume cur.advance outer
      else .error (cur.ahead frame.expected)

def openFrame (cur : Cursor) (frame : Frame) (outer : List Frame) : Except Fault Resumed :=
  let cur := cur.skipBlanks
  match cur.rest with
  | [] => .error (cur.here frame.truncated)
  | c :: _ =>
    if c = frame.closing then resume cur.advance outer
    else (cur.enter frame).map (.value (frame :: outer))

def skipOne (cur : Cursor) (frames : List Frame) : Except Fault Resumed :=
  let cur := cur.skipBlanks
  match cur.rest with
  | [] => .error (cur.here .endInValue)
  | c :: _ =>
    let behind : Except Fault Cursor → Except Fault Resumed := fun r => r.bind (resume · frames)
    if c = 'n' then behind (word ['u', 'l', 'l'] cur.advance)
    else if c = 't' then behind (word ['r', 'u', 'e'] cur.advance)
    else if c = 'f' then behind (word ['a', 'l', 's', 'e'] cur.advance)
    else if c = '-' then behind cur.advance.skipUnsigned
    else if c.isDigit then behind cur.skipUnsigned
    else if c = '"' then behind cur.advance.skipString
    else if c = '[' then cur.advance.openFrame .list frames
    else if c = '\x7b' then cur.advance.openFrame .map frames
    else .error (cur.ahead .expectedValue)

/-- Behind a whole value. Every round takes a character, so `fuel` above their number suffices. -/
def skipRounds : Nat → List Frame → Cursor → Except Fault Cursor
  | 0, _, cur => .error (cur.here .endInValue)
  | fuel + 1, frames, cur =>
    match cur.skipOne frames with
    | .error f => .error f
    | .ok (.done cur) => .ok cur
    | .ok (.value frames cur) => skipRounds fuel frames cur

def skipValue (cur : Cursor) : Except Fault Cursor := skipRounds (cur.rest.length + 1) [] cur

end Cursor

end MarkerLex.Json
