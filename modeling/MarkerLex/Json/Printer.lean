import MarkerLex.Text.Quoted

/-!
# Writing JSON

Two layouts: on one line without blanks, and over several lines with two
blanks for each level. Strings keep every character but the quote, the
backslash and the controls.
-/

namespace MarkerLex.Json

set_option autoImplicit false

def controlDigits (c : Char) : Text := Text.padLeft 2 '0' (Text.hexNumeral c.toNat)

def writtenChar (c : Char) : Text :=
  if c = '"' then ['\\', '"']
  else if c = '\\' then ['\\', '\\']
  else if c = '\x08' then ['\\', 'b']
  else if c = '\x0c' then ['\\', 'f']
  else if c = '\n' then ['\\', 'n']
  else if c = '\r' then ['\\', 'r']
  else if c = '\t' then ['\\', 't']
  else if c.toNat < 0x20 then ['\\', 'u', '0', '0'] ++ controlDigits c
  else [c]

def string (t : Text) : Text := '"' :: (t.flatMap writtenChar ++ ['"'])

def boolean (b : Bool) : Text := if b then ['t', 'r', 'u', 'e'] else ['f', 'a', 'l', 's', 'e']

def natural (n : Nat) : Text := Text.numeral n

namespace Compact

def list (items : List Text) : Text := '[' :: (Text.joined [','] items ++ [']'])

def map (members : List (Text × Text)) : Text :=
  '\x7b' :: (Text.joined [','] (members.map fun (key, value) => string key ++ ':' :: value) ++
    ['\x7d'])

end Compact

namespace Pretty

def newLine (level : Nat) : Text := '\n' :: List.replicate (2 * level) ' '

/-- Items between brackets that stand at `level`, each item on lines of its own. -/
def block (level : Nat) (opening closing : Char) (items : List Text) : Text :=
  if items.isEmpty then [opening, closing]
  else
    let lines := items.map (newLine (level + 1) ++ ·)
    opening :: (Text.joined [','] lines ++ newLine level ++ [closing])

def list (level : Nat) (items : List Text) : Text := block level '[' ']' items

def map (level : Nat) (members : List (Text × Text)) : Text :=
  block level '\x7b' '\x7d' (members.map fun (key, value) => string key ++ [':', ' '] ++ value)

end Pretty

end MarkerLex.Json
