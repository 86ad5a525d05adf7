set_option autoImplicit false

/-! # Blank characters

`isBlank` is the Unicode property White_Space. Text is trimmed by it before a number or a truth
value is read, and a name is refused when it consists of blanks alone.
-/

namespace ConfigLog.Text

/-- The characters of the Unicode property White_Space. -/
def isBlank (c : Char) : Bool :=
  let n := c.toNat
  (9 ≤ n && n ≤ 13) || n == 0x20 || n == 0x85 || n == 0xa0 || n == 0x1680
    || (0x2000 ≤ n && n ≤ 0x200a) || n == 0x2028 || n == 0x2029 || n == 0x202f || n == 0x205f
    || n == 0x3000

/-- A list of characters without the blanks at its two ends. -/
def trimChars (cs : List Char) : List Char :=
  ((cs.dropWhile isBlank).reverse.dropWhile isBlank).reverse

/-- A text without the blanks at its two ends. -/
def trim (s : String) : String := String.ofList (trimChars s.toList)

/-- A text that consists of blanks alone, the empty one included. -/
def isBlankText (s : String) : Bool := s.toList.all isBlank

/-! ## ASCII case -/

/-- A text with its ASCII capital letters made small; every other character stays. -/
def lower (s : String) : String := String.ofList (s.toList.map Char.toLower)

/-- Two texts that differ at most in the case of ASCII letters. -/
def equalIgnoringCase (s t : String) : Bool := lower s == lower t

/-- The ASCII decimal digits. -/
def isDigit (c : Char) : Bool := '0' ≤ c && c ≤ '9'

/-- The value of a decimal digit. -/
def digitValue (c : Char) : Nat := c.toNat - '0'.toNat

end ConfigLog.Text
