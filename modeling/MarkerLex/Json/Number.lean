import MarkerLex.Decimal.Shortest
import MarkerLex.Json.Cursor

/-!
# Numbers in JSON documents

A number without fraction and exponent that fits sixty-four bits is exact. All
others are floating: as many digits as fit sixty-four bits make a significand,
which one power of ten then scales.
-/

namespace MarkerLex.Json

set_option autoImplicit false

inductive Number where
  | natural (n : Nat)
  /-- The number `-n`, with `n` positive. -/
  | negative (n : Nat)
  | floating (x : Float)

namespace Number

def found : Number → Found
  | natural n => .integer n
  | negative n => .integer (-n)
  | floating x => .floating (Decimal.ofFloat x)

def maxSignificand : Nat := Nat.pow 2 64 - 1

def maxExponent : Nat := Nat.pow 2 31 - 1

/-- Appends digits to a number while it stays within a limit, and counts those appended. -/
def appendDigits (limit : Nat) : Nat → Text → Nat × Nat
  | n, [] => (n, 0)
  | n, d :: rest =>
    let next := n * 10 + (d.toNat - '0'.toNat)
    if limit < next then (n, 0)
    else
      let (n, count) := appendDigits limit next rest
      (n, count + 1)

def powerOfTen (exponent : Nat) : Float := Float.ofScientific 1 false exponent

def scale? (x : Float) (exponent : Int) : Option Float :=
  if exponent.natAbs ≤ 308 then
    if 0 ≤ exponent then
      let product := x * powerOfTen exponent.natAbs
      if product.isInf then none else some product
    else some (x / powerOfTen exponent.natAbs)
  else if x == 0 then some x
  else if 0 ≤ exponent then none
  else scale? (x / powerOfTen 308) (exponent + 308)
termination_by exponent.natAbs
decreasing_by omega

def scaled? (negative : Bool) (significand : Nat) (exponent : Int) : Option Number :=
  (scale? (UInt64.ofNat significand).toFloat exponent).map fun x =>
    .floating (if negative then -x else x)

def whole (negative : Bool) (significand : Nat) : Number :=
  if negative then
    if significand = 0 ∨ Nat.pow 2 63 < significand then .floating (-(UInt64.ofNat significand).toFloat)
    else .negative significand
  else .natural significand

end Number

namespace Cursor

def nextIs (cur : Cursor) (p : Char → Bool) : Bool := cur.rest.head?.any p

def isExponentMark (c : Char) : Bool := c = 'e' || c = 'E'

def exponentSign (cur : Cursor) : Bool × Cursor :=
  if cur.nextIs (· = '-') then (true, cur.advance)
  else if cur.nextIs (· = '+') then (false, cur.advance)
  else (false, cur)

def scaledNumber (cur : Cursor) (negative : Bool) (significand : Nat) (exponent : Int) :
    Reading Number :=
  match Number.scaled? negative significand exponent with
  | some n => .ok (n, cur)
  | none => .error (cur.here .numberOutOfRange)

def exponentPart (cur : Cursor) (negative : Bool) (significand : Nat) (exponent : Int) :
    Reading Number :=
  let (down, cur) := cur.advance.exponentSign
  match cur.rest with
  | [] => .error (cur.here .endInValue)
  | c :: _ =>
    if !c.isDigit then .error (cur.ahead .invalidNumber)
    else
      let (ds, behind) := cur.digits
      let (shift, count) := Number.appendDigits Number.maxExponent 0 ds
      if count < ds.length then
        if significand ≠ 0 ∧ !down then .error (cur.afterBytes .numberOutOfRange (count + 1))
        else .ok (.floating (if negative then -0.0 else 0.0), behind)
      else
        behind.scaledNumber negative significand (if down then exponent - shift else exponent + shift)

/-- The rest of a number behind its whole part. `dropped` digits of that part did not fit. -/
def numberTail (cur : Cursor) (negative : Bool) (significand dropped : Nat) : Reading Number :=
  if cur.nextIs (· = '.') then
    let cur := cur.advance
    let (ds, behind) := cur.digits
    if ds.isEmpty then
      .error (if cur.rest.isEmpty then cur.here .endInValue else cur.ahead .invalidNumber)
    else
      let (significand, taken) := Number.appendDigits Number.maxSignificand significand ds
      let exponent : Int := dropped - taken
      if behind.nextIs isExponentMark then behind.exponentPart negative significand exponent
      else behind.scaledNumber negative significand exponent
  else if cur.nextIs isExponentMark then cur.exponentPart negative significand dropped
  else if dropped = 0 then .ok (.whole negative significand, cur)
  else cur.scaledNumber negative significand dropped

def number (cur : Cursor) : Reading Number :=
  let negative := cur.nextIs (· = '-')
  let cur := if negative then cur.advance else cur
  match cur.rest with
  | [] => .error (cur.here .endInValue)
  | c :: _ =>
    if !c.isDigit then .error (cur.ahead .invalidNumber)
    else
      let (ds, behind) := cur.digits
      if c = '0' && 1 < ds.length then .error (cur.advance.ahead .invalidNumber)
      else
        let (significand, taken) := Number.appendDigits Number.maxSignificand 0 ds
        behind.numberTail negative significand (ds.length - taken)

def skipExponent (cur : Cursor) : Except Fault Cursor :=
  let (_, cur) := cur.advance.exponentSign
  match cur.rest with
  | [] => .error (cur.here .invalidNumber)
  | c :: _ => if c.isDigit then .ok cur.digits.2 else .error (cur.ahead .invalidNumber)

def skipUnsigned (cur : Cursor) : Except Fault Cursor :=
  match cur.rest with
  | [] => .error (cur.here .invalidNumber)
  | c :: _ =>
    if !c.isDigit then .error (cur.ahead .invalidNumber)
    else
      let (ds, behind) := cur.digits
      if c = '0' && 1 < ds.length then .error (cur.advance.ahead .invalidNumber)
      else if behind.nextIs (· = '.') then
        let (fraction, last) := behind.advance.digits
        if fraction.isEmpty then .error (last.ahead .invalidNumber)
        else if last.nextIs isExponentMark then last.skipExponent
        else .ok last
      else if behind.nextIs isExponentMark then behind.skipExponent
      else .ok behind

end Cursor

end MarkerLex.Json
