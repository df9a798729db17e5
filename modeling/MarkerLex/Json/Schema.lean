import MarkerLex.Json.Skip

/-!
# Reading JSON by a schema

A document is read straight into the kind of value that is wanted. A record may
be written as a map with its fields in any order, or as a list with its fields
in the order of the schema. What is wrong with a record as a whole is found
inside it and placed where the record has been left.
-/

namespace MarkerLex.Json

set_option autoImplicit false

namespace Cursor

/-- The fault of a value of another kind than the wanted one. The value is read first. -/
def mismatch (cur : Cursor) (wanted : Wanted) : Fault :=
  let after (found : Found) : Except Fault Cursor → Fault
    | .error f => f
    | .ok cur => cur.here (.wrongKind found wanted)
  match cur.rest with
  | [] => cur.here .expectedValue
  | c :: _ =>
    if c = 'n' then after .null (word ['u', 'l', 'l'] cur.advance)
    else if c = 't' then after (.boolean true) (word ['r', 'u', 'e'] cur.advance)
    else if c = 'f' then after (.boolean false) (word ['a', 'l', 's', 'e'] cur.advance)
    else if c = '-' || c.isDigit then
      match cur.number with
      | .error f => f
      | .ok (n, cur) => cur.here (.wrongKind n.found wanted)
    else if c = '"' then
      match cur.advance.stringBody with
      | .error f => f
      | .ok (t, cur) => cur.here (.wrongKind (.string t) wanted)
    else if c = '[' then cur.here (.wrongKind .sequence wanted)
    else if c = '\x7b' then cur.here (.wrongKind .map wanted)
    else cur.ahead .expectedValue

def text (cur : Cursor) : Except Fault (Text × Cursor) := do
  let (c, cur) ← cur.valueStart
  if c = '"' then cur.advance.stringBody else .error (cur.mismatch .string)

def boolean (cur : Cursor) : Except Fault (Bool × Cursor) := do
  let (c, cur) ← cur.valueStart
  if c = 't' then return (true, ← word ['r', 'u', 'e'] cur.advance)
  else if c = 'f' then return (false, ← word ['a', 'l', 's', 'e'] cur.advance)
  else .error (cur.mismatch .boolean)

/-- A natural number of at most sixty-four bits. -/
def natural (cur : Cursor) : Except Fault (Nat × Cursor) := do
  let (c, cur) ← cur.valueStart
  if c = '-' || c.isDigit then
    let (n, cur) ← cur.number
    match n with
    | .natural n => return (n, cur)
    | .negative n => .error (cur.here (.wrongValue (.integer (-n)) .natural))
    | .floating x => .error (cur.here (.wrongKind (Number.floating x).found .natural))
  else .error (cur.mismatch .natural)

def text? (cur : Cursor) : Except Fault (Option Text × Cursor) := do
  let (c, cur) ← cur.valueStart
  if c = 'n' then return (none, ← word ['u', 'l', 'l'] cur.advance)
  else
    let (t, cur) ← cur.text
    return (some t, cur)

def nextElement (cur : Cursor) (first : Bool) : Except Fault (Option Cursor) :=
  let cur := cur.skipBlanks
  match cur.rest with
  | [] => .error (cur.here .endInList)
  | c :: _ =>
    if c = ']' then .ok none
    else if first then .ok (some cur)
    else if c = ',' then
      let cur := cur.advance.skipBlanks
      match cur.rest with
      | [] => .error (cur.here .endInValue)
      | c :: _ => if c = ']' then .error (cur.ahead .trailingComma) else .ok (some cur)
    else .error (cur.ahead .expectedListCommaOrEnd)

def nextKey (cur : Cursor) (first : Bool) : Except Fault (Option Cursor) :=
  let key (cur : Cursor) : Except Fault (Option Cursor) :=
    match cur.rest with
    | [] => .error (cur.here .endInValue)
    | c :: _ =>
      if c = '"' then .ok (some cur)
      else if c = '\x7d' then .error (cur.ahead .trailingComma)
      else .error (cur.ahead .keyMustBeString)
  let cur := cur.skipBlanks
  match cur.rest with
  | [] => .error (cur.here .endInObject)
  | c :: _ =>
    if c = '\x7d' then .ok none
    else if first then key cur
    else if c = ',' then key cur.advance.skipBlanks
    else .error (cur.ahead .expectedObjectCommaOrEnd)

/-- Leaves a list. The cursor moves on even where the list cannot end. -/
def leaveList (cur : Cursor) : Cursor × Option Fault :=
  let cur := cur.skipBlanks
  match cur.rest with
  | [] => (cur, some (cur.here .endInList))
  | c :: _ =>
    if c = ']' then (cur.advance, none)
    else if c = ',' then
      let cur := cur.advance.skipBlanks
      (cur, some (cur.ahead (if cur.nextIs (· = ']') then .trailingComma else .trailingCharacters)))
    else (cur, some (cur.ahead .trailingCharacters))

def leaveMap (cur : Cursor) : Cursor × Option Fault :=
  let cur := cur.skipBlanks
  match cur.rest with
  | [] => (cur, some (cur.here .endInObject))
  | c :: _ =>
    if c = '\x7d' then (cur.advance, none)
    else (cur, some (cur.ahead (if c = ',' then .trailingComma else .trailingCharacters)))

/-- The elements of a list. Every element takes a character, so `fuel` above their number suffices. -/
def elements {α : Type} (element : Cursor → Reading α) :
    Nat → Bool → Cursor → Except Fault (List α × Cursor)
  | 0, _, cur => .error (cur.here .endInList)
  | fuel + 1, first, cur => do
    match ← cur.nextElement first with
    | none => return ([], cur)
    | some cur =>
      let (x, cur) ← element cur
      let (xs, cur) ← elements element fuel false cur
      return (x :: xs, cur)

def list {α : Type} (element : Cursor → Reading α) (cur : Cursor) :
    Except Fault (List α × Cursor) := do
  let (c, cur) ← cur.valueStart
  if c = '[' then
    let inside := cur.advance
    let (xs, cur) ← inside.elements element (inside.rest.length + 1) true
    match cur.leaveList with
    | (cur, none) => return (xs, cur)
    | (_, some f) => .error f
  else .error (cur.mismatch .sequence)

end Cursor

/-- One field of a record of which `δ` is the part read so far. -/
structure Field (δ : Type) where
  name : Text
  required : Bool
  isSet : δ → Bool
  read : δ → Cursor → Reading δ

def Field.of {δ α : Type} (name : String) (required : Bool) (get : δ → Option α)
    (set : δ → α → δ) (value : Cursor → Reading α) : Field δ :=
  { name := name.toList
    required := required
    isSet := fun draft => (get draft).isSome
    read := fun draft cur => (value cur).map fun (a, cur) => (set draft a, cur) }

structure Schema (δ : Type) where
  name : Text
  fields : List (Field δ)

/-- What stops the reading of a record: a fault inside, or a cause that concerns the whole
record and is placed once the record has been left. -/
inductive Trouble where
  | placed (fault : Fault)
  | unplaced (cause : Cause) (cur : Cursor)

namespace Schema

variable {δ : Type}

def placed {α : Type} : Except Fault α → Except Trouble α
  | .ok a => .ok a
  | .error f => .error (.placed f)

def listed (schema : Schema δ) : List (Field δ) → Nat → δ → Cursor → Except Trouble (δ × Cursor)
  | [], _, draft, cur => .ok (draft, cur)
  | field :: fields, index, draft, cur => do
    match ← placed (cur.nextElement (index = 0)) with
    | some cur =>
      let (draft, cur) ← placed (field.read draft cur)
      listed schema fields (index + 1) draft cur
    | none =>
      if field.required then
        .error (.unplaced (.wrongLength index schema.name schema.fields.length) cur)
      else listed schema fields (index + 1) draft cur

/-- The fields of a record that is written as a map. Every field takes a character, so `fuel`
above their number suffices. -/
def keyed (schema : Schema δ) : Nat → Bool → δ → Cursor → Except Trouble (δ × Cursor)
  | 0, _, _, cur => .error (.placed (cur.here .endInObject))
  | fuel + 1, first, draft, cur => do
    match ← placed (cur.nextKey first) with
    | none =>
      match schema.fields.find? fun field => field.required && !field.isSet draft with
      | some field => .error (.unplaced (.missingField field.name) cur)
      | none => .ok (draft, cur)
    | some cur =>
      let (name, cur) ← placed cur.advance.stringBody
      match schema.fields.find? (·.name == name) with
      | none =>
        let cur ← placed (cur.colon.bind Cursor.skipValue)
        keyed schema fuel false draft cur
      | some field =>
        if field.isSet draft then .error (.unplaced (.duplicateField field.name) cur)
        else
          let (draft, cur) ← placed (cur.colon.bind (field.read draft))
          keyed schema fuel false draft cur

def left (leave : Cursor → Cursor × Option Fault) : Except Trouble (δ × Cursor) → Reading δ
  | .ok (draft, cur) =>
    match leave cur with
    | (cur, none) => .ok (draft, cur)
    | (_, some f) => .error f
  | .error (.placed f) => .error f
  | .error (.unplaced cause cur) => .error ((leave cur).1.here cause)

def read (schema : Schema δ) (blank : δ) (cur : Cursor) : Except Fault (δ × Cursor) := do
  let (c, cur) ← cur.valueStart
  let inside := cur.advance
  if c = '[' then left Cursor.leaveList (schema.listed schema.fields 0 blank inside)
  else if c = '\x7b' then
    left Cursor.leaveMap (schema.keyed (inside.rest.length + 1) true blank inside)
  else .error (cur.mismatch (.record schema.name))

end Schema

def document {α : Type} (value : Cursor → Reading α) (t : Text) : Except Fault α := do
  let (a, cur) ← value (.ofText t)
  let cur := cur.skipBlanks
  if cur.rest.isEmpty then return a else .error (cur.ahead .trailingCharacters)

end MarkerLex.Json
