import ConfigLog.Toml.Datetime
import ConfigLog.Tree.Node

set_option autoImplicit false

/-! # TOML scalars

Strings in their four forms, numbers and truth values. A date or a time becomes a mapping with a
single key that no document would use by accident.
-/

namespace ConfigLog.Toml

open Number Text

/-! ## Characters -/

/-- A character that may stand in a comment or a string. -/
def isText (c : Char) : Bool := c == '\t' || (0x20 ≤ c.toNat && c.toNat != 0x7f)

/-- A space or a tab. -/
def isSpace (c : Char) : Bool := c == ' ' || c == '\t'

/-- A character of a key without quotes. -/
def isBare (c : Char) : Bool := c.isAlphanum || c == '_' || c == '-'

/-- The text behind a line break, if there is one. -/
def lineBreak? : List Char → Option (List Char)
  | '\n' :: r => some r
  | '\r' :: '\n' :: r => some r
  | _ => none

/-! ## Strings -/

/-- The character with a code of so many hexadecimal digits. -/
def codeEscape (width : Nat) (cs : List Char) : Option (Char × List Char) := do
  if (cs.take width).length < width then none
  let code ← natOfDigits 16 (cs.take width)
  if code.isValidChar then some (Char.ofNat code, cs.drop width) else none

/-- A character behind a backslash. -/
def escape : List Char → Option (Char × List Char)
  | 'b' :: r => some ('\x08', r)
  | 't' :: r => some ('\t', r)
  | 'n' :: r => some ('\n', r)
  | 'f' :: r => some ('\x0c', r)
  | 'r' :: r => some ('\r', r)
  | 'e' :: r => some ('\x1b', r)
  | '"' :: r => some ('"', r)
  | '\\' :: r => some ('\\', r)
  | 'x' :: r => codeEscape 2 r
  | 'u' :: r => codeEscape 4 r
  | 'U' :: r => codeEscape 8 r
  | _ => none

/-- The rest of a string on one line. -/
def lineString (quote : Char) : Nat → String → List Char → Option (String × List Char)
  | 0, _, _ => none
  | _, _, [] => none
  | fuel + 1, text, c :: r =>
    if c == quote then some (text, r)
    else if c == '\\' && quote == '"' then do
      let (ch, r) ← escape r
      lineString quote fuel (text.push ch) r
    else if isText c then lineString quote fuel (text.push c) r
    else none

/-- Spaces and line breaks behind a backslash at the end of a line. -/
def skipLines : Nat → List Char → List Char
  | 0, cs => cs
  | fuel + 1, cs =>
    match lineBreak? (cs.dropWhile isSpace) with
    | some r => skipLines fuel r
    | none => cs.dropWhile isSpace

/-- The rest of a string of several lines. It ends with three quotes, before which one or two more
belong to the text. -/
def blockString (quote : Char) : Nat → String → List Char → Option (String × List Char)
  | 0, _, _ => none
  | _, _, [] => none
  | fuel + 1, text, c :: r =>
    if c == quote then
      let n := ((c :: r).takeWhile (· == quote)).length
      let behind := (c :: r).dropWhile (· == quote)
      if n < 3 then blockString quote fuel (text ++ String.ofList (List.replicate n quote)) behind
      else if n ≤ 5 then some (text ++ String.ofList (List.replicate (n - 3) quote), behind)
      else none
    else if c == '\\' && quote == '"' then
      match lineBreak? (r.dropWhile isSpace) with
      | some r => blockString quote fuel text (skipLines r.length r)
      | none => do
        let (ch, r) ← escape r
        blockString quote fuel (text.push ch) r
    else if isText c then blockString quote fuel (text.push c) r
    else match lineBreak? (c :: r) with
      | some behind =>
        blockString quote fuel
          (text ++ String.ofList ((c :: r).take ((c :: r).length - behind.length)))
          behind
      | none => none

/-- A string of any form. -/
def string (cs : List Char) : Option (String × List Char) :=
  let start (quote : Char) (r : List Char) : Option (String × List Char) :=
    match r with
    | a :: b :: r' =>
      if a == quote && b == quote then
        let body := (lineBreak? r').getD r'
        blockString quote (body.length + 1) "" body
      else lineString quote (r.length + 1) "" r
    | r => lineString quote (r.length + 1) "" r
  match cs with
  | '"' :: r => start '"' r
  | '\'' :: r => start '\'' r
  | _ => none

/-! ## Numbers -/

/-- Digits of a base, with single underscores between them left out. -/
def grouped (base : Nat) (cs : List Char) : Option (List Char) :=
  let isDigitOf := fun c => (digitOf base c).isSome
  let rec go : Bool → List Char → Option (List Char)
    | behind, [] => if behind then some [] else none
    | behind, c :: r =>
      if isDigitOf c then (go true r).map (c :: ·)
      else if c == '_' && behind && r.head?.any isDigitOf then go false r
      else none
  go false cs

/-- A whole number that fits into 64 bits. -/
def whole (negative : Bool) (n : Nat) : Option Node :=
  if negative then (if n ≤ Nat.pow 2 63 then some (.integer (-(n : Int))) else none)
  else if n < Nat.pow 2 64 then some (.integer n) else none

/-- A whole number with a base mark, which has no sign. -/
def markedWhole (base : Nat) (cs : List Char) : Option Node := do
  whole false (← natOfDigits base (← grouped base cs))

/-- Decimal digits without a superfluous zero at the start. -/
def decimalDigits (cs : List Char) : Option (List Char) := do
  let ds ← grouped 10 cs
  if ds.head? == some '0' && ds.length > 1 then none
  return ds

/-- A floating-point number without its sign. -/
def unsignedReal (negative : Bool) (cs : List Char) : Option Node := do
  let isMark := fun c => c == 'e' || c == 'E'
  let mantissa := cs.takeWhile (!isMark ·)
  let (wholePart, part) := (mantissa.takeWhile (· != '.'), mantissa.dropWhile (· != '.'))
  let ds ← decimalDigits wholePart
  let fs ← match part with
    | [] => some []
    | _ :: r => grouped 10 r
  let e ← match cs.dropWhile (!isMark ·) with
    | [] => if part.isEmpty then none else some 0
    | _ :: r =>
      let (minus, r) := splitSign r
      (grouped 10 r).bind fun xs => (natOfDigits 10 xs).map fun n => if minus then -(n : Int) else n
  let x := Binary.ofDecimal .double negative (← natOfDigits 10 (ds ++ fs)) (e - fs.length)
  if x.isFinite then some (.real x) else none

/-- A number or a word that stands for one. -/
def number (cs : List Char) : Option Node :=
  let (negative, body) := splitSign cs
  match cs with
  | '0' :: 'x' :: r => markedWhole 16 r
  | '0' :: 'o' :: r => markedWhole 8 r
  | '0' :: 'b' :: r => markedWhole 2 r
  | _ =>
    if body == "inf".toList then some (.real (.infinity negative))
    else if body == "nan".toList then some (.real .nan)
    else
      match decimalDigits body with
      | some ds => (natOfDigits 10 ds).bind (whole negative)
      | none => unsignedReal negative body

/-! ## Values -/

/-- The key of the mapping that stands for a date or a time. -/
def datetimeKey : String := "$__toml_private_datetime"

/-- The node of a date or a time. -/
def datetimeNode (text : String) : Node := .mapping [(.string datetimeKey, .string text)]

/-- A character of a scalar without quotes. -/
def isScalar (c : Char) : Bool := isBare c || c == '+' || c == '.' || c == ':'

/-- A scalar that is no string, and the text behind it. -/
def bareScalar (cs : List Char) : Option (Node × List Char) :=
  let word := cs.takeWhile isScalar
  let rest := cs.dropWhile isScalar
  if word == "true".toList then some (.bool true, rest)
  else if word == "false".toList then some (.bool false, rest)
  else
    match number word with
    | some n => some (n, rest)
    | none => do
      let (text, rest) ← datetime cs
      if rest.head?.any isScalar then none
      return (datetimeNode text, rest)

end ConfigLog.Toml
