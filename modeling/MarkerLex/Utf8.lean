import MarkerLex.Text.Basic

/-!
# Reading UTF-8

`head` reads one character off the front of a byte sequence. Where the bytes
are ill-formed it stands for their longest well-formed beginning, or for one
byte, by a single replacement character. `lossy` reads a whole sequence so.
-/

namespace MarkerLex.Utf8

set_option autoImplicit false

def replacement : Char := '\uFFFD'

/-- How many bytes the first byte of a character announces, if it can be one.
Only its leading bits are looked at. -/
def announced? (lead : UInt8) : Option Nat :=
  let n := lead.toNat
  if n < 0x80 then some 1
  else if n < 0xC0 then none
  else if n < 0xE0 then some 2
  else if n < 0xF0 then some 3
  else if n < 0xF8 then some 4
  else none

/-- The form of a character of several bytes: their number, and the least and the
greatest second byte. -/
structure Shape where
  length : Nat
  low : Nat
  high : Nat
deriving DecidableEq, Repr

def shape? (lead : UInt8) : Option Shape :=
  let n := lead.toNat
  if n < 0xC2 then none
  else if n < 0xE0 then some ⟨2, 0x80, 0xBF⟩
  else if n = 0xE0 then some ⟨3, 0xA0, 0xBF⟩
  else if n = 0xED then some ⟨3, 0x80, 0x9F⟩
  else if n < 0xF0 then some ⟨3, 0x80, 0xBF⟩
  else if n = 0xF0 then some ⟨4, 0x90, 0xBF⟩
  else if n < 0xF4 then some ⟨4, 0x80, 0xBF⟩
  else if n = 0xF4 then some ⟨4, 0x80, 0x8F⟩
  else none

def isContinuation (b : UInt8) : Bool := 0x80 ≤ b.toNat && b.toNat ≤ 0xBF

def assemble (length : Nat) (lead : UInt8) (tail : List UInt8) : Char :=
  Char.ofNat (tail.foldl (fun n b => n * 64 + b.toNat % 64) (lead.toNat % Nat.pow 2 (7 - length)))

/-- One character and the number of bytes it takes the place of. -/
structure Head where
  char : Char
  width : Nat
  wellFormed : Bool
deriving DecidableEq, Repr

def Head.ill (width : Nat) : Head := ⟨replacement, width, false⟩

def head (lead : UInt8) (rest : List UInt8) : Head :=
  if lead.toNat < 0x80 then ⟨Char.ofNat lead.toNat, 1, true⟩
  else
    match shape? lead, rest with
    | none, _ => .ill 1
    | some _, [] => .ill 1
    | some shape, second :: more =>
      if shape.low ≤ second.toNat && second.toNat ≤ shape.high then
        let tail := (more.take (shape.length - 2)).takeWhile isContinuation
        if tail.length = shape.length - 2 then
          ⟨assemble shape.length lead (second :: tail), shape.length, true⟩
        else .ill (2 + tail.length)
      else .ill 1

def lossy : List UInt8 → Text
  | [] => []
  | lead :: rest =>
    let first := head lead rest
    first.char :: lossy (rest.drop (first.width - 1))
termination_by bytes => bytes.length
decreasing_by
  simp only [List.length_drop, List.length_cons]
  omega

end MarkerLex.Utf8
