import ConfigLog.Number.Binary
import ConfigLog.Text.Blank

set_option autoImplicit false

/-! # Decimal text of numbers

Reading: `natOfDigits` and `intOfText` for whole numbers, `Binary.ofText` for floating-point ones.
Writing: `shortest` finds the fewest decimal digits that read back as the given value, and of these
the nearest to it. A `Layout` holds the decisions of one way of putting such digits on paper, and
there are two: `Layout.leaf` for the leaves of documents and `Layout.plain` for numbers by
themselves.
-/

namespace ConfigLog.Number

open ConfigLog.Text

/-! ## Whole numbers -/

/-- The value of a digit in a base up to sixteen. -/
def digitOf (base : Nat) (c : Char) : Option Nat :=
  let v :=
    if '0' ≤ c && c ≤ '9' then some (c.toNat - '0'.toNat)
    else if 'a' ≤ c && c ≤ 'f' then some (c.toNat - 'a'.toNat + 10)
    else if 'A' ≤ c && c ≤ 'F' then some (c.toNat - 'A'.toNat + 10)
    else none
  v.filter (· < base)

/-- The number written by a list of digits, which must not be empty. -/
def natOfDigits (base : Nat) (cs : List Char) : Option Nat :=
  if cs.isEmpty then none
  else cs.foldl (fun acc c => do return (← acc) * base + (← digitOf base c)) (some 0)

/-- An optional sign and what follows it; `true` stands for a minus. -/
def splitSign (cs : List Char) : Bool × List Char :=
  match cs with
  | '+' :: r => (false, r)
  | '-' :: r => (true, r)
  | r => (false, r)

/-- A whole number in decimal: an optional sign and one or more digits. -/
def intOfText (cs : List Char) : Option Int :=
  let (negative, digits) := splitSign cs
  (natOfDigits 10 digits).map fun n => if negative then -(n : Int) else n

/-- A whole number without a minus sign: an optional `+` and one or more digits. -/
def natOfText (cs : List Char) : Option Nat :=
  natOfDigits 10 (match cs with | '+' :: r => r | r => r)

/-- The decimal digits of a number, without leading zeros. -/
def natText (n : Nat) : List Char := Nat.toDigits 10 n

/-- The decimal text of a whole number. -/
def intText (i : Int) : List Char :=
  if i < 0 then '-' :: natText i.natAbs else natText i.natAbs

/-! ## Reading floating-point text -/

/-- The value of the format nearest to `± digits * 10 ^ exponent`. The exponent is looked at before
any power is taken, so that a huge one costs nothing. -/
def Binary.ofDecimal (f : Format) (negative : Bool) (digits : Nat) (exponent : Int) : Binary :=
  let size : Int := (natText digits).length + exponent
  if digits == 0 then .zero f negative
  else if size > 400 then .infinity negative
  else if size < -400 then .zero f negative
  else if exponent < 0 then .round f negative digits (Nat.pow 10 (-exponent).toNat)
  else .round f negative (digits * Nat.pow 10 exponent.toNat) 1

/-- The exponent part that may end a number: `e` or `E`, an optional sign and digits. -/
def exponentOfText (cs : List Char) : Option Int :=
  match cs with
  | [] => some 0
  | c :: r => if c == 'e' || c == 'E' then intOfText r else none

/-- A number without its sign: digits with at most one point, at least one digit, and an optional
exponent. -/
def unsignedOfText (f : Format) (negative : Bool) (cs : List Char) : Option Binary := do
  let whole := cs.takeWhile isDigit
  let rest := cs.dropWhile isDigit
  let (part, rest) := match rest with
    | '.' :: r => (r.takeWhile isDigit, r.dropWhile isDigit)
    | r => ([], r)
  if whole.isEmpty && part.isEmpty then none
  let e ← exponentOfText rest
  let digits ← natOfDigits 10 (whole ++ part)
  return .ofDecimal f negative digits (e - part.length)

/-- A floating-point number from its text: an optional sign, then digits, an infinity or `nan`, the
words in any case. -/
def Binary.ofText (f : Format) (cs : List Char) : Option Binary :=
  let (negative, body) := splitSign cs
  let word := body.map Char.toLower
  if word == "inf".toList || word == "infinity".toList then some (.infinity negative)
  else if word == "nan".toList then some .nan
  else unsignedOfText f negative body

/-! ## Shortest digits -/

/-- The digits of a positive number and the place of its point: `0.d₁d₂… * 10 ^ point`. -/
structure Digits where
  digits : List Char
  point : Int

/-- Compares `a * 10 ^ t` with `b * 2 ^ e` exactly. -/
def compareScaled (a : Nat) (t : Int) (b : Nat) (e : Int) : Ordering :=
  let left := a * Nat.pow 10 t.toNat * Nat.pow 2 (-e).toNat
  let right := b * Nat.pow 2 e.toNat * Nat.pow 10 (-t).toNat
  compare left right

/-- The whole part of `b * 2 ^ e / 10 ^ t`. -/
def floorScaled (b : Nat) (e : Int) (t : Int) : Nat :=
  b * Nat.pow 2 e.toNat * Nat.pow 10 (-t).toNat
    / (Nat.pow 2 (-e).toNat * Nat.pow 10 t.toNat)

/-- The reals that round to one value, in quarters of its last place, with the value itself. -/
structure Interval where
  low : Nat
  middle : Nat
  high : Nat
  /-- The exponent of a quarter of the last place. -/
  exponent : Int
  /-- The ends belong to the interval. -/
  closed : Bool

/-- The interval of a positive value of the format. Below a power of two the values lie twice as
close together. -/
def Interval.of (f : Format) (significand : Nat) (exponent : Int) : Interval :=
  let narrow := significand == Nat.pow 2 (f.precision - 1) && exponent > f.minExponent
  { low := 4 * significand - (if narrow then 1 else 2)
    middle := 4 * significand
    high := 4 * significand + 2
    exponent := exponent - 2
    closed := significand % 2 == 0 }

/-- The number `a * 10 ^ t` lies in the interval. -/
def Interval.contains (i : Interval) (a : Nat) (t : Int) : Bool :=
  match compareScaled a t i.low i.exponent, compareScaled a t i.high i.exponent with
  | .gt, .lt => true
  | .eq, _ => i.closed
  | _, .eq => i.closed
  | _, _ => false

/-- Which of two neighbours `a` and `a + 1` stands for a value half way between them. -/
inductive Tie where
  | even
  | up

/-- The multiple of `10 ^ t` in the interval that is nearest to its value, if there is one. -/
def Interval.nearest (i : Interval) (tie : Tie) (t : Int) : Option Nat :=
  let a := floorScaled i.middle i.exponent t
  match i.contains a t && a != 0, i.contains (a + 1) t with
  | false, false => none
  | true, false => some a
  | false, true => some (a + 1)
  | true, true =>
    match compareScaled (2 * a + 1) t (2 * i.middle) i.exponent with
    | .gt => some a
    | .lt => some (a + 1)
    | .eq => match tie with
      | .even => some (if a % 2 == 0 then a else a + 1)
      | .up => some (a + 1)

/-- The point of the value: the least `p` with value `< 10 ^ p`. -/
def Interval.point (i : Interval) : Int :=
  (natText (floorScaled i.middle i.exponent (-400))).length - 400

/-- Tries grids of 1, 2, … digits. -/
def Interval.search (i : Interval) (tie : Tie) (point : Int) (digits : Nat) : Nat → Nat × Int
  | 0 => (floorScaled i.middle i.exponent (point - digits), point - digits)
  | fuel + 1 =>
    match i.nearest tie (point - digits) with
    | some a => (a, point - digits)
    | none => i.search tie point (digits + 1) fuel

/-- The digits without the zeros at their end. -/
def dropTrailingZeros (cs : List Char) : List Char :=
  (cs.reverse.dropWhile (· == '0')).reverse

/-- The fewest digits that read back as the value `significand * 2 ^ exponent`, which is positive;
of several such, the nearest to the value. -/
def shortest (f : Format) (tie : Tie) (significand : Nat) (exponent : Int) : Digits :=
  let i := Interval.of f significand exponent
  let (a, t) := i.search tie i.point 1 17
  let text := natText a
  { digits := dropTrailingZeros text, point := text.length + t }

/-! ## Layouts -/

/-- Zeros, as many as a number says. -/
def zeros (n : Nat) : List Char := List.replicate n '0'

/-- Digits written without an exponent, and without a point when there is no fraction. -/
def Digits.positional (d : Digits) : List Char :=
  let k := d.digits.length
  if d.point ≤ 0 then "0.".toList ++ zeros (-d.point).toNat ++ d.digits
  else if d.point.toNat ≥ k then d.digits ++ zeros (d.point.toNat - k)
  else d.digits.take d.point.toNat ++ '.' :: d.digits.drop d.point.toNat

/-- Digits with one of them before the point, and the exponent that this needs. -/
def Digits.scientific (d : Digits) : List Char :=
  let mantissa := match d.digits with
    | [] => []
    | [c] => [c]
    | c :: r => c :: '.' :: r
  mantissa ++ 'e' :: intText (d.point - 1)

/-- A minus sign or nothing. -/
def signText (negative : Bool) : List Char := if negative then ['-'] else []

/-- The decisions of one way of writing floating-point numbers. -/
structure Layout where
  /-- The format whose neighbours the digits have to tell apart. -/
  format : Format
  /-- Which way a tie between two candidates goes. -/
  tie : Tie
  /-- The places of the point that are written without an exponent. -/
  positional : Int → Bool
  /-- What ends a whole number written without an exponent. -/
  whole : String
  nan : String
  infinity : String

/-- A leaf of a document is positional from `1e-5` up to `1e16`, where a whole number ends in `.0`,
and has an exponent outside of that. -/
def Layout.leaf : Layout :=
  ⟨.double, .even, fun point => -5 < point && point ≤ 16, ".0", ".nan", ".inf"⟩

/-- A number by itself never has an exponent, and no point when it is whole. -/
def Layout.plain (format : Format) : Layout := ⟨format, .up, fun _ => true, "", "NaN", "inf"⟩

/-- Digits laid out. -/
def Digits.render (l : Layout) (d : Digits) : List Char :=
  if !l.positional d.point then d.scientific
  else if d.digits.length ≤ d.point.toNat then d.positional ++ l.whole.toList
  else d.positional

/-- The text of a value. -/
def Binary.render (l : Layout) : Binary → String
  | .nan => l.nan
  | .infinity s => String.ofList (signText s ++ l.infinity.toList)
  | .finite s m e =>
    if m == 0 then String.ofList (signText s ++ '0' :: l.whole.toList)
    else String.ofList (signText s ++ (shortest l.format l.tie m e).render l)

/-- The text of a double as a leaf of a document. -/
def Binary.leaf (x : Binary) : String := x.render .leaf

/-- The text of a value of the format by itself. -/
def Binary.plain (f : Format) (x : Binary) : String := x.render (.plain f)

end ConfigLog.Number
