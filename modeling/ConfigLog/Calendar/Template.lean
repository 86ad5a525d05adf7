import ConfigLog.Calendar.Moment
import ConfigLog.Number.Decimal
import ConfigLog.Text.Blank

set_option autoImplicit false

/-! # Time templates

A template is text with percent directives for the parts of a moment. `Template.items?` reads a
template, and fails when a directive is unknown; `Template.render` writes a moment. A few templates
can be read and still not be written, for they hold an item that is meant for reading only.
-/

namespace ConfigLog.Calendar

open Number

/-- What stands in front of a number that is too short. -/
inductive Pad where
  | none
  | zero
  | space
  deriving DecidableEq, Repr

/-- A part of a moment that is written as a number. -/
inductive NumberItem where
  | year
  | century
  | yearOfCentury
  | isoYear
  | isoYearOfCentury
  | quarter
  | month
  | day
  | weekFromSunday
  | weekFromMonday
  | isoWeek
  | weekdayFromSunday
  | weekdayFromMonday
  | dayOfYear
  | hour
  | hour12
  | minute
  | second
  | nanosecond
  | timestamp
  deriving DecidableEq, Repr

/-- A part of a template. -/
inductive TemplateItem where
  | literal (text : List Char)
  | number (item : NumberItem) (pad : Pad)
  | weekdayName (short : Bool)
  | monthName (short : Bool)
  | halfDay (capital : Bool)
  /-- A fraction of a second with a point, as long as needed. -/
  | fraction
  /-- A fraction of a second of 3, 6 or 9 digits, with or without a point. -/
  | digits (count : Nat) (point : Bool)
  /-- The offset from universal time. -/
  | offset (text : String)
  /-- Date, time and offset in their standard form. -/
  | standard
  /-- An offset that can only be read. -/
  | readOnly
  deriving DecidableEq, Repr

namespace Template

/-! ## Reading -/

/-- A number padded with zeros. -/
def zero (item : NumberItem) : TemplateItem := .number item .zero

/-- A number padded with spaces. -/
def blank (item : NumberItem) : TemplateItem := .number item .space

/-- A number that is not padded. -/
def bare (item : NumberItem) : TemplateItem := .number item .none

/-- Literal text. -/
def text (s : String) : TemplateItem := .literal s.toList

/-- Hour, minute and second. -/
def clock : List TemplateItem := [zero .hour, text ":", zero .minute, text ":", zero .second]

/-- Month, day and year of the century. -/
def shortDate : List TemplateItem :=
  [zero .month, text "/", zero .day, text "/", zero .yearOfCentury]

/-- What the letter of a directive stands for. -/
def letter : Char → Option (List TemplateItem)
  | 'A' => some [.weekdayName false]
  | 'B' => some [.monthName false]
  | 'C' => some [zero .century]
  | 'D' => some shortDate
  | 'F' => some [zero .year, text "-", zero .month, text "-", zero .day]
  | 'G' => some [zero .isoYear]
  | 'H' => some [zero .hour]
  | 'I' => some [zero .hour12]
  | 'M' => some [zero .minute]
  | 'P' => some [.halfDay false]
  | 'R' => some [zero .hour, text ":", zero .minute]
  | 'S' => some [zero .second]
  | 'T' => some clock
  | 'U' => some [zero .weekFromSunday]
  | 'V' => some [zero .isoWeek]
  | 'W' => some [zero .weekFromMonday]
  | 'X' => some clock
  | 'Y' => some [zero .year]
  | 'Z' => some [.offset "+00:00"]
  | 'a' => some [.weekdayName true]
  | 'b' => some [.monthName true]
  | 'c' => some ([.weekdayName true, text " ", .monthName true, text " ", blank .day, text " "]
      ++ clock ++ [text " ", zero .year])
  | 'd' => some [zero .day]
  | 'e' => some [blank .day]
  | 'f' => some [zero .nanosecond]
  | 'g' => some [zero .isoYearOfCentury]
  | 'h' => some [.monthName true]
  | 'j' => some [zero .dayOfYear]
  | 'k' => some [blank .hour]
  | 'l' => some [blank .hour12]
  | 'm' => some [zero .month]
  | 'n' => some [text "\n"]
  | 'p' => some [.halfDay true]
  | 'q' => some [bare .quarter]
  | 'r' => some [zero .hour12, text ":", zero .minute, text ":", zero .second, text " ",
      .halfDay true]
  | 's' => some [bare .timestamp]
  | 't' => some [text "\t"]
  | 'u' => some [bare .weekdayFromMonday]
  | 'v' => some [blank .day, text "-", .monthName true, text "-", zero .year]
  | 'w' => some [bare .weekdayFromSunday]
  | 'x' => some shortDate
  | 'y' => some [zero .yearOfCentury]
  | 'z' => some [.offset "+0000"]
  | '+' => some [.standard]
  | '%' => some [text "%"]
  | _ => none

/-- The number of digits of a fraction, by its digit. -/
def fractionDigits : Char → Option Nat
  | '3' => some 3
  | '6' => some 6
  | '9' => some 9
  | _ => none

/-- A directive behind its percent sign, without a modifier, and the text behind it. -/
def directive : List Char → Option (List TemplateItem × List Char)
  | ':' :: ':' :: ':' :: 'z' :: r => some ([.offset "+00"], r)
  | ':' :: ':' :: 'z' :: r => some ([.offset "+00:00:00"], r)
  | ':' :: 'z' :: r => some ([.offset "+00:00"], r)
  | '.' :: 'f' :: r => some ([.fraction], r)
  | '.' :: d :: 'f' :: r => do return ([.digits (← fractionDigits d) true], r)
  | d :: 'f' :: r =>
    match fractionDigits d with
    | some n => some ([.digits n false], r)
    | none => do return (← letter d, 'f' :: r)
  | c :: r => do return (← letter c, r)
  | [] => none

/-- A directive whose padding is given; only a single number can have one. -/
def paddedDirective (pad : Pad) (cs : List Char) : Option (List TemplateItem × List Char) := do
  match ← directive cs with
  | ([.number item _], r) => some ([.number item pad], r)
  | _ => none

/-- A directive behind its percent sign, and the text behind it. -/
def anyDirective : List Char → Option (List TemplateItem × List Char)
  | '-' :: r => paddedDirective .none r
  | '0' :: r => paddedDirective .zero r
  | '_' :: r => paddedDirective .space r
  | '#' :: 'z' :: r => some ([.readOnly], r)
  | cs => directive cs

/-- The items of a template. -/
def itemsOf : Nat → List Char → Option (List TemplateItem)
  | 0, _ => some []
  | _, [] => some []
  | fuel + 1, '%' :: r => do
    let (items, r) ← anyDirective r
    return items ++ (← itemsOf fuel r)
  | fuel + 1, c :: r => do return .literal [c] :: (← itemsOf fuel r)

/-- The items of a template, or `none` when it holds an unknown directive. -/
def items? (template : String) : Option (List TemplateItem) :=
  itemsOf template.toList.length template.toList

/-- The template has no unknown directive. -/
def isValid (template : String) : Bool := (items? template).isSome

/-! ## Writing -/

/-- The names of the days of the week, from Sunday on. -/
def weekdayNames : List String :=
  ["Sunday", "Monday", "Tuesday", "Wednesday", "Thursday", "Friday", "Saturday"]

/-- The names of the months. -/
def monthNames : List String :=
  ["January", "February", "March", "April", "May", "June", "July", "August", "September",
    "October", "November", "December"]

/-- A name, or its first three letters. -/
def nameText (names : List String) (index : Nat) (short : Bool) : List Char :=
  let cs := (names.getD index "").toList
  if short then cs.take 3 else cs

/-- A number of one byte in two places. A number of more than two digits has the character that
follows the digits as its first one. -/
def twoPlaces (pad : Pad) (n : Nat) : List Char :=
  let first := n / 10
  let lead := match first, pad with
    | 0, .none => []
    | 0, .space => [' ']
    | _, _ => [Char.ofNat ('0'.toNat + first)]
  lead ++ [Char.ofNat ('0'.toNat + n % 10)]

/-- Padding up to a width. Zeros stand behind the sign, spaces before it. -/
def padTo (width : Nat) (pad : Pad) (sign digits : List Char) : List Char :=
  let missing := width - sign.length - digits.length
  match pad with
  | .none => sign ++ digits
  | .zero => sign ++ List.replicate missing '0' ++ digits
  | .space => List.replicate missing ' ' ++ sign ++ digits

/-- A whole number padded to a width, with a sign if it is negative. -/
def padded (width : Nat) (pad : Pad) (n : Int) : List Char :=
  padTo width pad (signText (n < 0)) (natText n.natAbs)

/-- A year in four places; outside of these it has a sign and one more place. -/
def yearText (pad : Pad) (year : Int) : List Char :=
  if 0 ≤ year && year ≤ 9999 then padded 4 pad year
  else padTo 5 pad (if year < 0 then ['-'] else ['+']) (natText year.natAbs)

/-- The low byte of a number. -/
def lowByte (n : Int) : Nat := (n % 256).toNat

/-- The text of a number item. -/
def numberText (m : Moment) (pad : Pad) : NumberItem → List Char
  | .year => yearText pad m.date.year
  | .century => twoPlaces pad (lowByte (m.date.year / 100))
  | .yearOfCentury => twoPlaces pad (m.date.year % 100).toNat
  | .isoYear => yearText pad m.isoWeek.1
  | .isoYearOfCentury => twoPlaces pad (m.isoWeek.1 % 100).toNat
  | .quarter => natText ((m.date.month + 2) / 3)
  | .month => twoPlaces pad m.date.month
  | .day => twoPlaces pad m.date.day
  | .weekFromSunday => twoPlaces pad m.weekFromSunday
  | .weekFromMonday => twoPlaces pad m.weekFromMonday
  | .isoWeek => twoPlaces pad m.isoWeek.2
  | .weekdayFromSunday => natText m.weekday
  | .weekdayFromMonday => natText m.weekdayFromMonday
  | .dayOfYear => padded 3 pad m.date.ordinal
  | .hour => twoPlaces pad m.hour
  | .hour12 => twoPlaces pad m.hour12
  | .minute => twoPlaces pad m.minute
  | .second => twoPlaces pad m.second
  | .nanosecond => padded 9 pad m.nanos
  | .timestamp => padded 9 pad m.seconds

/-- A fraction of a second in so many digits. -/
def fractionText (m : Moment) (count : Nat) : List Char :=
  padded count .zero (m.nanos / Nat.pow 10 (9 - count) : Nat)

/-- A fraction of a second with its point, in 3, 6 or 9 digits or left out when it is zero. -/
def shortFraction (m : Moment) : List Char :=
  if m.nanos == 0 then []
  else if m.nanos % 1000000 == 0 then '.' :: fractionText m 3
  else if m.nanos % 1000 == 0 then '.' :: fractionText m 6
  else '.' :: fractionText m 9

/-- Date, time and offset in their standard form. -/
def standardText (m : Moment) : List Char :=
  yearText .zero m.date.year ++ '-' :: twoPlaces .zero m.date.month ++ '-' ::
    twoPlaces .zero m.date.day ++ 'T' :: twoPlaces .zero m.hour ++ ':' ::
    twoPlaces .zero m.minute ++ ':' :: twoPlaces .zero m.second ++ shortFraction m
    ++ "+00:00".toList

/-- The text of an item, if it can be written. -/
def itemText (m : Moment) : TemplateItem → Option (List Char)
  | .literal cs => some cs
  | .number item pad => some (numberText m pad item)
  | .weekdayName short => some (nameText weekdayNames m.weekday short)
  | .monthName short => some (nameText monthNames (m.date.month - 1) short)
  | .halfDay capital =>
    let word := if m.hour < 12 then "AM".toList else "PM".toList
    some (if capital then word else word.map Char.toLower)
  | .fraction => some (shortFraction m)
  | .digits count point => some ((if point then ['.'] else []) ++ fractionText m count)
  | .offset s => some s.toList
  | .standard => some (standardText m)
  | .readOnly => none

/-- The text of a moment. A template that cannot be read or written gives an empty text. -/
def render (template : String) (m : Moment) : String :=
  match (items? template).bind fun items => items.mapM (itemText m) with
  | some parts => String.ofList parts.flatten
  | none => ""

end Template

end ConfigLog.Calendar
