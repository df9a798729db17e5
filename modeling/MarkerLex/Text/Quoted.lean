import MarkerLex.Text.Hidden

/-!
# Quoted texts

The quoted form shows every character of a text on one line: quotes,
backslashes, tabs and line ends by a short escape, whatever else does not show
by its code point, and all other characters as themselves.
-/

namespace MarkerLex.Text

set_option autoImplicit false

def hexNumeral (n : Nat) : Text := Nat.toDigits 16 n

def codePointEscape (c : Char) : Text :=
  ['\\', 'u', '\x7b'] ++ hexNumeral c.toNat ++ ['\x7d']

def quotedChar (quote c : Char) : Text :=
  if c = '\x00' then ['\\', '0']
  else if c = '\t' then ['\\', 't']
  else if c = '\r' then ['\\', 'r']
  else if c = '\n' then ['\\', 'n']
  else if c = '\\' then ['\\', '\\']
  else if c = quote then ['\\', quote]
  else if isHidden c then codePointEscape c
  else [c]

def quoted (t : Text) : Text := '"' :: (t.flatMap (quotedChar '"') ++ ['"'])

def quotedAlone (c : Char) : Text := '\'' :: (quotedChar '\'' c ++ ['\''])

end MarkerLex.Text
