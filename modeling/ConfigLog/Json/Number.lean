import ConfigLog.Number.Decimal
import ConfigLog.Tree.Node

set_option autoImplicit false

/-! # JSON numbers

A number without fraction and exponent is a whole number when it fits into 64 bits and is not `-0`.
Every other number is a double: its first digits, as many as fit into 64 bits, are scaled by powers
of ten, each of them a double itself, with rounding after every step.
-/

namespace ConfigLog.Json

open Number

/-- Digits of a number that are used: their value and how many powers of ten it is off. -/
structure Significand where
  value : Nat
  exponent : Int
  /-- Further digits no longer fit. -/
  full : Bool

/-- Takes in a digit before the point. A digit that does not fit scales the number. -/
def Significand.wholeDigit (s : Significand) (d : Nat) : Significand :=
  if s.full || s.value * 10 + d ≥ Nat.pow 2 64 then
    { s with full := true, exponent := s.exponent + 1 }
  else { s with value := s.value * 10 + d }

/-- Takes in a digit behind the point. A digit that does not fit is left out, with all that
follow. -/
def Significand.partDigit (s : Significand) (d : Nat) : Significand :=
  if s.full || s.value * 10 + d ≥ Nat.pow 2 64 then { s with full := true }
  else { s with value := s.value * 10 + d, exponent := s.exponent - 1 }

/-- A power of ten as a double. -/
def powerOfTen (n : Nat) : Binary := .ofInt .double (Nat.pow 10 n)

/-- Scales a double by a power of ten; none when the result is too large. A scale beyond the
doubles takes several steps, the first few of which already end in zero. -/
def scale : Nat → Binary → Int → Option Binary
  | 0, x, _ => some x
  | fuel + 1, x, e =>
    if e.natAbs ≤ 308 then
      if e ≥ 0 then (x.mul (powerOfTen e.natAbs)).finite? else some (x.div (powerOfTen e.natAbs))
    else if x.isZero then some x
    else if e ≥ 0 then none
    else scale fuel (x.div (powerOfTen 308)) (e + 308)

/-- The digits at the start of a text and the rest. -/
def digits (cs : List Char) : List Char × List Char :=
  (cs.takeWhile Text.isDigit, cs.dropWhile Text.isDigit)

/-- The exponent behind its letter: an optional sign and at least one digit. -/
def exponent (cs : List Char) : Option (Int × List Char) := do
  let (negative, cs) := splitSign cs
  let (ds, rest) := digits cs
  let e ← natOfDigits 10 ds
  return (if negative then -(e : Int) else e, rest)

/-- A number with a fraction or an exponent, behind its whole part. -/
def realNumber (negative : Bool) (whole : Significand) (cs : List Char) :
    Option (Node × List Char) := do
  let (s, cs) ← match cs with
    | '.' :: r =>
      let (ds, rest) := digits r
      if ds.isEmpty then none
      else some (ds.foldl (fun s d => s.partDigit (Text.digitValue d)) { whole with full := false },
        rest)
    | r => some (whole, r)
  let (e, cs) ← match cs with
    | 'e' :: r => exponent r
    | 'E' :: r => exponent r
    | r => some (0, r)
  let x ← scale 8 (.ofInt .double s.value) (s.exponent + e)
  return (.real (if negative then x.negate else x), cs)

/-- A number and the text behind it. -/
def number (cs : List Char) : Option (Node × List Char) := do
  let (negative, cs) := match cs with
    | '-' :: r => (true, r)
    | r => (false, r)
  let (ds, rest) := digits cs
  if ds.isEmpty || (ds.head? == some '0' && ds.length > 1) then none
  let s := ds.foldl (fun s d => s.wholeDigit (Text.digitValue d)) ⟨0, 0, false⟩
  let plain := !s.full && !rest.head?.any fun c => c == '.' || c == 'e' || c == 'E'
  if plain && !negative then return (.integer s.value, rest)
  else if plain && 0 < s.value && s.value ≤ Nat.pow 2 63 then
    return (.integer (-(s.value : Int)), rest)
  else realNumber negative s rest

end ConfigLog.Json
