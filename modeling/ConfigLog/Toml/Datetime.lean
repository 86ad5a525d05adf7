import ConfigLog.Calendar.Date
import ConfigLog.Number.Decimal

set_option autoImplicit false

/-! # Dates and times in TOML

A date, a time, or both, with an optional offset. What is kept of them is their normal text: a
capital `T` between date and time, no zeros at the end of a fraction, and at most nine digits of
it. A time may leave out its seconds.
-/

namespace ConfigLog.Toml

open Number Text

/-- A number of exactly so many digits. -/
def fixedNumber (width : Nat) (cs : List Char) : Option (Nat × List Char) := do
  let ds := cs.take width
  if ds.length < width || !ds.all isDigit then none
  return (← natOfDigits 10 ds, cs.drop width)

/-- The digits of a number, padded with zeros to a width. -/
def padded (width n : Nat) : String :=
  let ds := natText n
  String.ofList (List.replicate (width - ds.length) '0' ++ ds)

/-- A date and the text behind it. -/
def date (cs : List Char) : Option (String × List Char) := do
  let (year, r) ← fixedNumber 4 cs
  let '-' :: r := r | none
  let (month, r) ← fixedNumber 2 r
  let '-' :: r := r | none
  let (day, r) ← fixedNumber 2 r
  if (Calendar.Date.mk year month day).isValid then
    return (padded 4 year ++ "-" ++ padded 2 month ++ "-" ++ padded 2 day, r)
  else none

/-- The fraction of a second behind its point: nine digits, without the zeros at the end. -/
def fraction (cs : List Char) : Option (String × List Char) :=
  let ds := cs.takeWhile isDigit
  let kept := dropTrailingZeros (ds.take 9)
  if ds.isEmpty then none
  else some (if kept.isEmpty then "" else "." ++ String.ofList kept, cs.dropWhile isDigit)

/-- Seconds and their fraction, behind the colon. -/
def seconds (cs : List Char) : Option (String × List Char) := do
  let (s, r) ← fixedNumber 2 cs
  if s > 60 then none
  let (f, r) ← match r with
    | '.' :: r => fraction r
    | r => some ("", r)
  return (padded 2 s ++ f, r)

/-- A time of day and the text behind it. -/
def time (cs : List Char) : Option (String × List Char) := do
  let (hour, r) ← fixedNumber 2 cs
  let ':' :: r := r | none
  let (minute, r) ← fixedNumber 2 r
  if hour > 23 || minute > 59 then none
  let (rest, r) ← match r with
    | ':' :: r => seconds r
    | r => some ("00", r)
  return (padded 2 hour ++ ":" ++ padded 2 minute ++ ":" ++ rest, r)

/-- An offset from universal time, if there is one. -/
def offset (cs : List Char) : Option (String × List Char) :=
  let signed (negative : Bool) (r : List Char) : Option (String × List Char) := do
    let (hour, r) ← fixedNumber 2 r
    let ':' :: r := r | none
    let (minute, r) ← fixedNumber 2 r
    if hour > 23 || minute > 59 then none
    let sign := if negative && hour + minute > 0 then "-" else "+"
    return (sign ++ padded 2 hour ++ ":" ++ padded 2 minute, r)
  match cs with
  | 'Z' :: r => some ("Z", r)
  | 'z' :: r => some ("Z", r)
  | '+' :: r => signed false r
  | '-' :: r => signed true r
  | r => some ("", r)

/-- The normal text of a date, a time or both, and the text behind it. -/
def datetime (cs : List Char) : Option (String × List Char) :=
  match date cs with
  | none => time cs
  | some (d, r) =>
    let rest := match r with
      | 'T' :: r => some r
      | 't' :: r => some r
      | ' ' :: c :: r => if isDigit c then some (c :: r) else none
      | _ => none
    match rest with
    | none => some (d, r)
    | some r => do
      let (t, r) ← time r
      let (o, r) ← offset r
      return (d ++ "T" ++ t ++ o, r)

end ConfigLog.Toml
