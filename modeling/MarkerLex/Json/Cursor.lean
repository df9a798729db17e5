import MarkerLex.Json.Fault

/-!
# Cursors in JSON documents

A cursor is what is left of a document and the place reached in it. Readers
take a cursor and give a value with the cursor behind it, or a fault; the first
fault in the order of the document is the one that is reported.
-/

namespace MarkerLex.Json

set_option autoImplicit false

/-- The rest of a document; `column` counts the bytes since the last line end. -/
structure Cursor where
  rest : Text
  line : Nat
  column : Nat
deriving DecidableEq, Repr

abbrev Reading (α : Type) := Except Fault (α × Cursor)

namespace Cursor

def ofText (t : Text) : Cursor := ⟨t, 1, 0⟩

def advance (cur : Cursor) : Cursor :=
  match cur.rest with
  | [] => cur
  | c :: rest =>
    if c = '\n' then ⟨rest, cur.line + 1, 0⟩ else ⟨rest, cur.line, cur.column + c.utf8Size⟩

@[simp] theorem advance_rest (cur : Cursor) : cur.advance.rest = cur.rest.tail := by
  obtain ⟨rest, line, column⟩ := cur
  cases rest with
  | nil => rfl
  | cons c rest =>
    simp only [advance, List.tail_cons]
    split <;> rfl

theorem advance_length_lt {cur : Cursor} {c : Char} {rest : Text} (hRest : cur.rest = c :: rest) :
    cur.advance.rest.length < cur.rest.length := by
  simp [hRest]

def here (cur : Cursor) (cause : Cause) : Fault := ⟨cause, cur.line, cur.column⟩

/-- A fault a number of bytes further on, or at the end of the document. -/
def afterBytes (cur : Cursor) (cause : Cause) (count : Nat) : Fault :=
  go cur.line cur.column count cur.rest
where
  go (line column : Nat) : Nat → Text → Fault
    | 0, _ => ⟨cause, line, column⟩
    | _, [] => ⟨cause, line, column⟩
    | n + 1, c :: rest =>
      if c = '\n' then go (line + 1) 0 n rest
      else if n + 1 < c.utf8Size then ⟨cause, line, column + n + 1⟩
      else go line (column + c.utf8Size) (n + 1 - c.utf8Size) rest

/-- A fault in the next byte, which counts as read. -/
def ahead (cur : Cursor) (cause : Cause) : Fault := cur.afterBytes cause 1

def isBlank (c : Char) : Bool := c = ' ' || c = '\n' || c = '\t' || c = '\r'

def skipBlanks (cur : Cursor) : Cursor :=
  match _h : cur.rest with
  | [] => cur
  | c :: _ => if isBlank c then skipBlanks cur.advance else cur
termination_by cur.rest.length
decreasing_by exact advance_length_lt _h

def valueStart (cur : Cursor) : Reading Char :=
  let cur := cur.skipBlanks
  match cur.rest with
  | [] => .error (cur.here .endInValue)
  | c :: _ => .ok (c, cur)

def word (letters : Text) (cur : Cursor) : Except Fault Cursor :=
  match letters with
  | [] => .ok cur
  | letter :: letters =>
    match cur.rest with
    | [] => .error (cur.here .endInValue)
    | c :: _ => if c = letter then word letters cur.advance else .error (cur.ahead .expectedIdent)

def digits (cur : Cursor) : Text × Cursor :=
  let front := cur.rest.takeWhile Char.isDigit
  (front, ⟨cur.rest.dropWhile Char.isDigit, cur.line, cur.column + front.length⟩)

end Cursor

end MarkerLex.Json
