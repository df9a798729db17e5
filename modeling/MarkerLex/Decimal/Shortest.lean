import MarkerLex.Text.Basic

/-!
# Shortest decimals

The decimal of a binary floating point number is the one with the fewest
digits that reads back as the same number; of two such decimals the nearer.
All comparisons are exact ones between natural numbers.
-/

namespace MarkerLex.Decimal

set_option autoImplicit false

/-- The positive number `mantissa * 2 ^ exponent`. -/
structure Binary where
  mantissa : Nat
  exponent : Int
  /-- Whether the next number below is only half as far as the next one above. -/
  closeBelow : Bool
deriving DecidableEq, Repr

def Binary.ofBits (bits : Nat) : Binary :=
  let fraction : Nat := bits % Nat.pow 2 52
  let field : Nat := bits / Nat.pow 2 52 % Nat.pow 2 11
  if field = 0 then ⟨fraction, -1074, false⟩
  else ⟨fraction + Nat.pow 2 52, (field : Int) - 1075, fraction = 0 && field > 1⟩

/-- The numbers that round to one binary number, as multiples of `numerator / denominator`. -/
structure Interval where
  low : Nat
  middle : Nat
  high : Nat
  numerator : Nat
  denominator : Nat
  closed : Bool
deriving DecidableEq, Repr

def Binary.interval (b : Binary) : Interval :=
  let middle := 4 * b.mantissa
  let unit := b.exponent - 2
  { low := middle - (if b.closeBelow then 1 else 2)
    middle := middle
    high := middle + 2
    numerator := Nat.pow 2 unit.toNat
    denominator := Nat.pow 2 (-unit).toNat
    closed := b.mantissa % 2 = 0 }

def leadingPower (numerator denominator : Nat) : Int :=
  if denominator ≤ numerator then
    ((Nat.toDigits 10 (numerator / denominator)).length : Int) - 1
  else
    let inverse := (denominator + numerator - 1) / numerator
    Int.negOfNat (Nat.toDigits 10 (inverse - 1)).length

/-- The decimal `coefficient * 10 ^ power`. -/
structure Scaled where
  coefficient : Nat
  power : Int
deriving DecidableEq, Repr

def Interval.onCommonScale (i : Interval) (d : Scaled) (multiple : Nat) : Nat × Nat :=
  (d.coefficient * Nat.pow 10 d.power.toNat * i.denominator,
    multiple * i.numerator * Nat.pow 10 (-d.power).toNat)

def Interval.holds (i : Interval) (d : Scaled) : Bool :=
  let (x, low) := i.onCommonScale d i.low
  let (_, high) := i.onCommonScale d i.high
  if i.closed then low ≤ x && x ≤ high else low < x && x < high

def Interval.distance (i : Interval) (d : Scaled) : Nat :=
  let (x, middle) := i.onCommonScale d i.middle
  (x - middle) + (middle - x)

/-- The decimal with the wanted number of digits that lies in the interval, if one does.
Between two that are equally near the even one is taken. -/
def Interval.withDigits? (i : Interval) (leading : Int) (count : Nat) : Option Scaled :=
  let power := leading + 1 - count
  let below := i.middle * i.numerator * Nat.pow 10 (-power).toNat / (i.denominator * Nat.pow 10 power.toNat)
  let lower : Scaled := ⟨below, power⟩
  let upper : Scaled := ⟨below + 1, power⟩
  match i.holds lower, i.holds upper with
  | false, false => none
  | true, false => some lower
  | false, true => some upper
  | true, true =>
    let down := i.distance lower
    let up := i.distance upper
    if down < up then some lower
    else if up < down then some upper
    else if below % 2 = 0 then some lower
    else some upper

def Binary.shortest (b : Binary) : Scaled :=
  let i := b.interval
  let leading := leadingPower (i.middle * i.numerator) i.denominator
  ((List.range 17).findSome? fun n => i.withDigits? leading (n + 1)).getD ⟨0, 0⟩

def Scaled.digits (d : Scaled) : Text × Int :=
  let all := Text.numeral d.coefficient
  (all.reverse.dropWhile (· = '0') |>.reverse, d.power + all.length - 1)

/-- Digits whose first one has a power of ten from -5 to 15 are written in place; all others
with one digit before the point and a signed exponent. A point always stands in the former. -/
def render (digits : Text) (leading : Int) : Text :=
  if -5 ≤ leading && leading < 0 then
    ['0', '.'] ++ List.replicate ((-leading).toNat - 1) '0' ++ digits
  else if 0 ≤ leading && leading < 16 then
    let whole := leading.toNat + 1
    let tail := digits.drop whole
    digits.take whole ++ List.replicate (whole - digits.length) '0' ++ ['.'] ++
      (if tail.isEmpty then ['0'] else tail)
  else
    let tail := digits.drop 1
    digits.take 1 ++ (if tail.isEmpty then [] else '.' :: tail) ++
      ['e', if leading < 0 then '-' else '+'] ++ Text.numeral leading.natAbs

def ofFloat (x : Float) : Text :=
  let bits := x.toBits.toNat
  let sign := if bits / Nat.pow 2 63 = 1 then ['-'] else []
  let b := Binary.ofBits (bits % Nat.pow 2 63)
  if b.mantissa = 0 then sign ++ ['0', '.', '0']
  else
    let (digits, leading) := b.shortest.digits
    sign ++ render digits leading

end MarkerLex.Decimal
